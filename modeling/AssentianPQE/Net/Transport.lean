import AssentianPQE.Primitives

/-!
# `AssentianPQE.Net.Transport`: messages between peers

`V1Transport` of `net.cpp`: the header that is sent before each message, and the receiver
that takes the bytes of a connection in pieces of any size and cuts them into messages.

The buffers hold the bytes received so far, so their lengths are `nHdrPos` and `nDataPos`. The
hash of the data is computed when the message is complete. Times and log lines are left out.
-/

set_option autoImplicit false

namespace AssentianPQE

open Lib

/-- `MAX_PROTOCOL_MESSAGE_LENGTH`. -/
def MAX_PROTOCOL_MESSAGE_LENGTH : Nat := 4 * 1000 * 1000

/-- `MAX_SIZE` of `serialize.h`. -/
def MAX_SIZE : Nat := 0x02000000

/-! ### Headers -/

/-- `CMessageHeader`. -/
structure CMessageHeader where
  pchMessageStart : Blob 4 := Blob.zero 4
  pchCommand : Blob 12 := Blob.zero 12
  nMessageSize : UInt32 := 0xffffffff
  pchChecksum : Blob 4 := Blob.zero 4
deriving DecidableEq

namespace CMessageHeader

def HEADER_SIZE : Nat := 24

def serialize (hdr : CMessageHeader) : Bytes :=
  hdr.pchMessageStart.data ++ (hdr.pchCommand.data ++
    (serU32 hdr.nMessageSize ++ hdr.pchChecksum.data))

/-- `hdrbuf >> hdr`, on a buffer of `HEADER_SIZE` bytes. -/
def deserialize (hdrbuf : Bytes) : Option CMessageHeader :=
  if h : hdrbuf.length = HEADER_SIZE then
    some { pchMessageStart := Blob.slice 4 hdrbuf 0 (by rw [h]; decide)
           pchCommand := Blob.slice 12 hdrbuf 4 (by rw [h]; decide)
           nMessageSize := UInt32.ofNat (readLE ((hdrbuf.drop 16).take 4))
           pchChecksum := Blob.slice 4 hdrbuf 20 (by rw [h]; decide) }
  else none

/-- `CMessageHeader::GetCommand`. -/
def getCommand (hdr : CMessageHeader) : Bytes :=
  hdr.pchCommand.data.takeWhile (· ≠ 0)

/-- `CMessageHeader::IsCommandValid`: printable characters, then zeros to the end. -/
def isCommandValid (hdr : CMessageHeader) : Bool :=
  (hdr.getCommand.all fun ch => 0x20 ≤ ch ∧ ch ≤ 0x7E) ∧
    (hdr.pchCommand.data.dropWhile (· ≠ 0)).all (· = 0)

end CMessageHeader

/-- A message type: at most `COMMAND_SIZE` printable characters. -/
structure NetMsgType where
  name : Bytes
  length_le : name.length ≤ 12
  printable : ∀ ch ∈ name, 0x20 ≤ ch ∧ ch ≤ 0x7E

/-- `NetMsgType::BLOCK`. -/
def NetMsgType.block : NetMsgType where
  name := [0x62, 0x6c, 0x6f, 0x63, 0x6b]
  length_le := by decide
  printable := by decide +kernel

/-- The command field of a message type. -/
def NetMsgType.command (t : NetMsgType) : Blob 12 :=
  ⟨t.name ++ List.replicate (12 - t.name.length) 0, by
    have := t.length_le
    rw [List.length_append, List.length_replicate]
    omega⟩

/-- The header that `V1Transport::SetMessageToSend` puts before the data. -/
def headerToSend (c : Crypto) (m_magic_bytes : Blob 4) (m_type : NetMsgType) (data : Bytes) :
    CMessageHeader where
  pchMessageStart := m_magic_bytes
  pchCommand := m_type.command
  nMessageSize := UInt32.ofNat data.length
  pchChecksum := Blob.slice 4 (c.hash256 data).data 0 (by rw [Blob.length_data]; omega)

/-- The bytes that a peer sends for one message. -/
def bytesToSend (c : Crypto) (m_magic_bytes : Blob 4) (m_type : NetMsgType) (data : Bytes) :
    Bytes :=
  (headerToSend c m_magic_bytes m_type data).serialize ++ data

/-! ### The receiver -/

/-- `CNetMessage`. -/
structure CNetMessage where
  m_type : Bytes
  m_recv : Bytes
deriving DecidableEq

/-- The receive state of a `V1Transport`. -/
structure V1Transport where
  in_data : Bool := false
  hdrbuf : Bytes := []
  hdr : CMessageHeader := {}
  vRecv : Bytes := []
deriving DecidableEq

namespace V1Transport

/-- `V1Transport::Reset`: the header of the last message is kept. -/
def reset (t : V1Transport) : V1Transport :=
  { t with in_data := false, hdrbuf := [], vRecv := [] }

/-- `V1Transport::CompleteInternal`. -/
def completeInternal (t : V1Transport) : Bool :=
  t.in_data ∧ t.hdr.nMessageSize.toNat = t.vRecv.length

/-- `V1Transport::readHeader`: the new state and the number of bytes taken, or an error. -/
def readHeader (m_magic_bytes : Blob 4) (t : V1Transport) (msg_bytes : Bytes) :
    Option (V1Transport × Nat) :=
  let nCopy := min (CMessageHeader.HEADER_SIZE - t.hdrbuf.length) msg_bytes.length
  let hdrbuf := t.hdrbuf ++ msg_bytes.take nCopy
  if hdrbuf.length < CMessageHeader.HEADER_SIZE then some ({ t with hdrbuf := hdrbuf }, nCopy)
  else
    match CMessageHeader.deserialize hdrbuf with
    | none => none
    | some hdr =>
      if hdr.pchMessageStart ≠ m_magic_bytes then none
      else if MAX_SIZE < hdr.nMessageSize.toNat ∨
          MAX_PROTOCOL_MESSAGE_LENGTH < hdr.nMessageSize.toNat then none
      else some ({ t with hdrbuf := hdrbuf, hdr := hdr, in_data := true }, nCopy)

/-- `V1Transport::readData`. -/
def readData (t : V1Transport) (msg_bytes : Bytes) : V1Transport × Nat :=
  let nCopy := min (t.hdr.nMessageSize.toNat - t.vRecv.length) msg_bytes.length
  ({ t with vRecv := t.vRecv ++ msg_bytes.take nCopy }, nCopy)

/-- `V1Transport::ReceivedBytes`: the new state and the bytes that are left, or `none` when it
returns false. -/
def receivedBytes (m_magic_bytes : Blob 4) (t : V1Transport) (msg_bytes : Bytes) :
    Option (V1Transport × Bytes) :=
  (if t.in_data then some (t.readData msg_bytes) else t.readHeader m_magic_bytes msg_bytes).map
    fun r => (r.1, msg_bytes.drop r.2)

/-- `V1Transport::GetReceivedMessage`: the message, unless it is rejected, and the state for
the next one. -/
def getReceivedMessage (c : Crypto) (t : V1Transport) : Option CNetMessage × V1Transport :=
  (if (c.hash256 t.vRecv).data.take 4 ≠ t.hdr.pchChecksum.data then none
    else if !t.hdr.isCommandValid then none
    else some ⟨t.hdr.getCommand, t.vRecv⟩,
   t.reset)

/-- The loop of `CNode::ReceiveMsgBytes`, for at most `fuel` turns. The state is `none` when the
peer is to be disconnected. -/
def receiveLoop (c : Crypto) (m_magic_bytes : Blob 4) :
    Nat → V1Transport → Bytes → Option V1Transport × List CNetMessage
  | 0, t, _ => (some t, [])
  | fuel + 1, t, msg_bytes =>
    if msg_bytes = [] then (some t, [])
    else
      match t.receivedBytes m_magic_bytes msg_bytes with
      | none => (none, [])
      | some (t, rest) =>
        if t.completeInternal then
          let (msg, t) := t.getReceivedMessage c
          let r := receiveLoop c m_magic_bytes fuel t rest
          (r.1, msg.toList ++ r.2)
        else receiveLoop c m_magic_bytes fuel t rest

/-- `CNode::ReceiveMsgBytes`. Every turn takes a byte, so the length is enough. -/
def receiveMsgBytes (c : Crypto) (m_magic_bytes : Blob 4) (t : V1Transport) (msg_bytes : Bytes) :
    Option V1Transport × List CNetMessage :=
  receiveLoop c m_magic_bytes msg_bytes.length t msg_bytes

/-- The messages that a peer puts into its queue while bytes arrive in these pieces. -/
def receiveAll (c : Crypto) (m_magic_bytes : Blob 4) :
    V1Transport → List Bytes → Option V1Transport × List CNetMessage
  | t, [] => (some t, [])
  | t, msg_bytes :: rest =>
    match t.receiveMsgBytes c m_magic_bytes msg_bytes with
    | (none, msgs) => (none, msgs)
    | (some t, msgs) =>
      let r := receiveAll c m_magic_bytes t rest
      (r.1, msgs ++ r.2)

end V1Transport

end AssentianPQE
