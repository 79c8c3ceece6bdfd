import AssentianPQE.Net.Transport
import AssentianPQE.Proofs.BlockSize
import AssentianPQE.Sample

/-!
# `AssentianPQE.Proofs.BlockMessages`: which accepted blocks fit into a message

A block is sent to a peer as one message, in pieces of any size. The receiver puts the message
into its queue exactly when the data has at most `MAX_PROTOCOL_MESSAGE_LENGTH` bytes
(`receiveAll_of_fits`, `receiveAll_of_oversize`). The checks on a block bound its weight, in
which a byte of witness data counts once and any other byte four times. So a block without
witness data always fits, and one with enough of it does not
(`block_message_received_iff`).
-/

set_option autoImplicit false

namespace AssentianPQE

open Lib List Nat

/-! ### Headers -/

namespace CMessageHeader

variable (hdr : CMessageHeader)

@[simp] theorem length_serialize : hdr.serialize.length = 24 := by
  simp [serialize, serU32]

/-- A header is read back. -/
theorem deserialize_serialize : deserialize hdr.serialize = some hdr := by
  have hsize : (serU32 hdr.nMessageSize).length = 4 := length_leBytes _ _
  have hread : UInt32.ofNat (readLE (serU32 hdr.nMessageSize)) = hdr.nMessageSize := by
    rw [serU32, readLE_leBytes, mod_eq_of_lt (by simpa using hdr.nMessageSize.toNat_lt)]
    exact UInt32.ofNat_toNat
  have hstart : hdr.serialize.take 4 = hdr.pchMessageStart.data := by
    rw [serialize, take_left' hdr.pchMessageStart.length_data]
  have hrest : hdr.serialize.drop 4 =
      hdr.pchCommand.data ++ (serU32 hdr.nMessageSize ++ hdr.pchChecksum.data) := by
    rw [serialize, drop_left' hdr.pchMessageStart.length_data]
  have hrest' : hdr.serialize.drop 16 = serU32 hdr.nMessageSize ++ hdr.pchChecksum.data := by
    rw [show 16 = 4 + 12 from rfl, ← drop_drop, hrest,
      drop_left' hdr.pchCommand.length_data]
  have hrest'' : hdr.serialize.drop 20 = hdr.pchChecksum.data := by
    rw [show 20 = 16 + 4 from rfl, ← drop_drop, hrest', drop_left' hsize]
  unfold deserialize
  rw [dif_pos (show hdr.serialize.length = HEADER_SIZE from hdr.length_serialize)]
  congr 1
  cases hdr with
  | mk start command size sum =>
    congr 1
    · exact Blob.ext hstart
    · apply Blob.ext
      show (List.drop 4 _).take 12 = command.data
      rw [hrest, take_left' command.length_data]
    · rw [hrest', take_left' hsize, hread]
    · apply Blob.ext
      show (List.drop 20 _).take 4 = sum.data
      rw [hrest'', take_of_length_le (by simp)]

end CMessageHeader

/-- The zeros after a printable name end it. -/
theorem NetMsgType.getCommand_command (t : NetMsgType) :
    t.command.data.takeWhile (· ≠ 0) = t.name ∧
      t.command.data.dropWhile (· ≠ 0) = List.replicate (12 - t.name.length) 0 := by
  have hname : ∀ ch ∈ t.name, decide (ch ≠ 0) = true := by
    intro ch hch
    have hlow := (t.printable ch hch).1
    rw [decide_eq_true_eq]
    rintro rfl
    exact absurd hlow (by decide)
  have hzeros : ∀ n, (List.replicate n (0 : UInt8)).takeWhile (· ≠ 0) = [] ∧
      (List.replicate n (0 : UInt8)).dropWhile (· ≠ 0) = List.replicate n 0 := by
    intro n
    cases n <;> simp [replicate_succ]
  have hboth := hzeros (12 - t.name.length)
  refine ⟨?_, ?_⟩
  · show (t.name ++ List.replicate (12 - t.name.length) 0).takeWhile _ = _
    rw [takeWhile_append_of_pos hname, hboth.1, append_nil]
  · show (t.name ++ List.replicate (12 - t.name.length) 0).dropWhile _ = _
    rw [dropWhile_append_of_pos hname, hboth.2]

section Send

variable {c : Crypto} {magic : Blob 4} {ty : NetMsgType} {data : Bytes}

/-- The command of a sent header is valid and names the message type. -/
theorem headerToSend_command : (headerToSend c magic ty data).getCommand = ty.name ∧
    (headerToSend c magic ty data).isCommandValid = true := by
  obtain ⟨htake, hdrop⟩ := ty.getCommand_command
  have hcommand : (headerToSend c magic ty data).getCommand = ty.name := htake
  refine ⟨hcommand, ?_⟩
  unfold CMessageHeader.isCommandValid
  rw [hcommand, decide_eq_true_eq]
  refine ⟨?_, ?_⟩
  · rw [all_eq_true]
    intro ch hch
    exact decide_eq_true (ty.printable ch hch)
  · show (ty.command.data.dropWhile _).all _ = true
    rw [hdrop, all_eq_true]
    intro ch hch
    exact decide_eq_true (eq_of_mem_replicate hch)

theorem headerToSend_size (h : data.length < 2 ^ 32) :
    (headerToSend c magic ty data).nMessageSize.toNat = data.length := by
  show (UInt32.ofNat data.length).toNat = data.length
  rw [UInt32.toNat_ofNat', mod_eq_of_lt h]

end Send

/-! ### Receiving -/

namespace V1Transport

/-- The receiver waits for the first byte of a message. -/
structure AtStart (t : V1Transport) : Prop where
  in_data : t.in_data = false
  hdrbuf : t.hdrbuf = []
  vRecv : t.vRecv = []

/-- The receiver has taken the bytes `got` of a message with header `hdr`. -/
inductive Reading (hdr : CMessageHeader) : V1Transport → Bytes → Prop
  | header (t : V1Transport) (hin : t.in_data = false) (hempty : t.vRecv = [])
      (hlen : t.hdrbuf.length < 24) : Reading hdr t t.hdrbuf
  | data (t : V1Transport) (hin : t.in_data = true) (hhdr : t.hdr = hdr) :
      Reading hdr t (hdr.serialize ++ t.vRecv)

variable {c : Crypto} {magic : Blob 4} {t : V1Transport} {hdr : CMessageHeader}
  {x rest data : Bytes}

theorem AtStart.reading (h : t.AtStart) : Reading hdr t [] := by
  have hread : Reading hdr t t.hdrbuf :=
    .header t h.in_data h.vRecv (by rw [h.hdrbuf]; decide)
  rwa [h.hdrbuf] at hread

theorem atStart_reset (t : V1Transport) : t.reset.AtStart :=
  ⟨rfl, rfl, rfl⟩

/-- A piece that ends within the header is stored. -/
theorem receivedBytes_header_part (hin : t.in_data = false)
    (hlen : t.hdrbuf.length + x.length < 24) :
    t.receivedBytes magic x = some ({ t with hdrbuf := t.hdrbuf ++ x }, []) := by
  have hcopy : min (24 - t.hdrbuf.length) x.length = x.length := by omega
  have hshort : (t.hdrbuf ++ x).length < CMessageHeader.HEADER_SIZE := by
    rw [length_append]
    exact hlen
  unfold receivedBytes readHeader
  simp only [hin, Bool.false_eq_true, if_false, CMessageHeader.HEADER_SIZE] at hshort ⊢
  rw [hcopy, take_length, if_pos hshort]
  simp

/-- A piece that completes the header is cut there. The size in the header decides. -/
theorem receivedBytes_header_end (hin : t.in_data = false) (hlen : t.hdrbuf.length < 24)
    (hmagic : hdr.pchMessageStart = magic) (hlong : 24 ≤ t.hdrbuf.length + x.length)
    (hwhole : t.hdrbuf ++ x ++ rest = hdr.serialize ++ data) :
    ∃ z, z.length < x.length ∧ z ++ rest = data ∧ t.receivedBytes magic x =
      if MAX_PROTOCOL_MESSAGE_LENGTH < hdr.nMessageSize.toNat then none
      else some ({ t with hdrbuf := hdr.serialize, hdr := hdr, in_data := true }, z) := by
  have hcopy : min (24 - t.hdrbuf.length) x.length = 24 - t.hdrbuf.length := by omega
  have htake : t.hdrbuf ++ x.take (24 - t.hdrbuf.length) = hdr.serialize := by
    have h := congrArg (List.take 24) hwhole
    rw [append_assoc, take_append, take_of_length_le (le_of_lt hlen),
      take_append_of_le_length (by omega), take_left' hdr.length_serialize] at h
    exact h
  have hdrop : x.drop (24 - t.hdrbuf.length) ++ rest = data := by
    have h := hwhole
    rw [← htake, append_assoc, append_assoc, append_cancel_left_eq] at h
    nth_rewrite 1 [← take_append_drop (24 - t.hdrbuf.length) x] at h
    rwa [append_assoc, append_cancel_left_eq] at h
  refine ⟨x.drop (24 - t.hdrbuf.length), by rw [length_drop]; omega, hdrop, ?_⟩
  have hsizes : (MAX_SIZE < hdr.nMessageSize.toNat ∨
      MAX_PROTOCOL_MESSAGE_LENGTH < hdr.nMessageSize.toNat) ↔
      MAX_PROTOCOL_MESSAGE_LENGTH < hdr.nMessageSize.toNat := by
    unfold MAX_SIZE MAX_PROTOCOL_MESSAGE_LENGTH
    omega
  unfold receivedBytes readHeader
  simp only [hin, Bool.false_eq_true, if_false, CMessageHeader.HEADER_SIZE]
  rw [hcopy, htake, if_neg (by rw [hdr.length_serialize]; decide), hdr.deserialize_serialize]
  simp only [hmagic, ne_eq, not_true_eq_false, if_false, hsizes]
  split <;> rfl

/-- In the data, as many bytes are taken as the message still needs. -/
theorem receivedBytes_data (hin : t.in_data = true) (hwhole : t.vRecv ++ x ++ rest = data)
    (hsize : t.hdr.nMessageSize.toNat = data.length) :
    t.receivedBytes magic x = some ({ t with vRecv := t.vRecv ++ x }, []) := by
  have hlen : t.vRecv.length + x.length + rest.length = data.length := by
    rw [← hwhole, length_append, length_append]
  have hcopy : min (t.hdr.nMessageSize.toNat - t.vRecv.length) x.length = x.length := by omega
  unfold receivedBytes readData
  simp [hin, hcopy]

/-- What one call does with a piece of a message: it is stored, and the message is delivered
when nothing is left of it. -/
structure Fed (hdr : CMessageHeader) (got rest : Bytes) (msg : CNetMessage)
    (r : Option V1Transport × List CNetMessage) : Prop where
  done : rest = [] → ∃ t, t.AtStart ∧ r = (some t, [msg])
  more : rest ≠ [] → ∃ t, Reading hdr t got ∧ r = (some t, [])

@[simp] theorem receiveLoop_nil (fuel : Nat) : t.receiveLoop c magic fuel [] = (some t, []) := by
  cases fuel <;> simp [receiveLoop]

variable {ty : NetMsgType}

/-- The loop once the header is complete. -/
theorem receiveLoop_data {fuel : Nat} (hin : t.in_data = true)
    (hhdr : t.hdr = headerToSend c magic ty data) (hsize : data.length < 2 ^ 32)
    (hfuel : x.length ≤ fuel) (hmore : x ++ rest ≠ []) (hwhole : t.vRecv ++ x ++ rest = data) :
    Fed t.hdr (t.hdr.serialize ++ (t.vRecv ++ x)) rest ⟨ty.name, data⟩
      (t.receiveLoop c magic fuel x) := by
  have hnum : t.hdr.nMessageSize.toNat = data.length := by rw [hhdr, headerToSend_size hsize]
  have hlen : t.vRecv.length + x.length + rest.length = data.length := by
    rw [← hwhole, length_append, length_append]
  by_cases hx : x = []
  · subst hx
    refine ⟨fun hrest => absurd (by simp [hrest]) hmore, fun _ => ⟨t, ?_, receiveLoop_nil fuel⟩⟩
    rw [append_nil]
    exact .data t hin rfl
  have hpos : 0 < x.length := length_pos_iff.mpr hx
  obtain ⟨fuel, rfl⟩ : ∃ n, fuel = n + 1 := ⟨fuel - 1, by omega⟩
  -- the piece is taken whole, so the next turn of the loop is the last one
  unfold receiveLoop
  simp only [if_neg hx, receivedBytes_data hin hwhole hnum]
  refine ⟨fun hrest => ?_, fun hrest => ?_⟩
  · have hvRecv : t.vRecv ++ x = data := by simpa [hrest] using hwhole
    have hcomplete : completeInternal { t with vRecv := data } = true := by
      simp [completeInternal, hin, hnum]
    have hsum : (c.hash256 data).data.take 4 = t.hdr.pchChecksum.data := by
      rw [hhdr]
      rfl
    have hcommand : t.hdr.getCommand = ty.name ∧ t.hdr.isCommandValid = true := by
      rw [hhdr]
      exact headerToSend_command
    refine ⟨_, atStart_reset { t with vRecv := data }, ?_⟩
    simp [hcomplete, getReceivedMessage, hvRecv, hsum, hcommand]
  · have hleft : 0 < rest.length := length_pos_iff.mpr hrest
    have hcomplete : completeInternal { t with vRecv := t.vRecv ++ x } = false := by
      have hne : t.hdr.nMessageSize.toNat ≠ (t.vRecv ++ x).length := by
        rw [length_append]
        omega
      simp only [completeInternal, hin, hne, and_false, decide_false]
    refine ⟨{ t with vRecv := t.vRecv ++ x }, .data _ hin rfl, ?_⟩
    simp [hcomplete]

/-- The state after a complete header. -/
def withHeader (t : V1Transport) (hdr : CMessageHeader) : V1Transport :=
  { t with hdrbuf := hdr.serialize, hdr := hdr, in_data := true }

/-- One call on a piece of a message that has data, and not too much. -/
theorem receiveLoop_of_fits (hne : data ≠ []) (hfits : data.length ≤ MAX_PROTOCOL_MESSAGE_LENGTH)
    (hhdr : hdr = headerToSend c magic ty data) {got : Bytes} (hread : Reading hdr t got)
    {fuel : Nat} (hfuel : x.length ≤ fuel) (hmore : x ++ rest ≠ [])
    (hwhole : got ++ x ++ rest = hdr.serialize ++ data) :
    Fed hdr (got ++ x) rest ⟨ty.name, data⟩ (t.receiveLoop c magic fuel x) := by
  have hsize : data.length < 2 ^ 32 := lt_of_le_of_lt hfits (by decide)
  have hnum : hdr.nMessageSize.toNat = data.length := by rw [hhdr, headerToSend_size hsize]
  cases hread with
  | data hin hdata =>
    subst hdata
    rw [append_assoc, append_assoc, append_cancel_left_eq,
      ← append_assoc] at hwhole
    rw [append_assoc]
    exact receiveLoop_data hin hhdr hsize hfuel hmore hwhole
  | header hin hempty hlen =>
    by_cases hx : x = []
    · subst hx
      refine ⟨fun hrest => absurd (by simp [hrest]) hmore, fun _ => ⟨t, ?_, receiveLoop_nil fuel⟩⟩
      rw [append_nil]
      exact .header t hin hempty hlen
    have hpos : 0 < x.length := length_pos_iff.mpr hx
    obtain ⟨fuel, rfl⟩ : ∃ n, fuel = n + 1 := ⟨fuel - 1, by omega⟩
    unfold receiveLoop
    by_cases hpart : t.hdrbuf.length + x.length < 24
    · -- the piece ends within the header
      have hrest : rest ≠ [] := by
        rintro rfl
        have := congrArg List.length hwhole
        simp only [length_append, CMessageHeader.length_serialize, append_nil] at this
        omega
      refine ⟨fun h => absurd h hrest, fun _ => ?_⟩
      refine ⟨{ t with hdrbuf := t.hdrbuf ++ x }, .header _ hin hempty (by simpa using hpart), ?_⟩
      simp [hx, receivedBytes_header_part hin hpart, completeInternal, hin]
    · -- the header is complete: the rest of the piece belongs to the data
      have hmagic : hdr.pchMessageStart = magic := by rw [hhdr]; rfl
      obtain ⟨z, hz, hdata, hrecv⟩ := receivedBytes_header_end hin hlen hmagic (by omega) hwhole
      rw [hnum, if_neg (not_lt.mpr hfits)] at hrecv
      have hgot : t.hdrbuf ++ x = hdr.serialize ++ z := by
        rw [← hdata, ← append_assoc] at hwhole
        exact append_cancel_right hwhole
      have hopen : (t.withHeader hdr).completeInternal = false := by
        have hdata : hdr.nMessageSize.toNat ≠ 0 := by
          rw [hnum]
          exact (length_pos_iff.mpr hne).ne'
        simp [withHeader, completeInternal, hempty, hdata]
      have hvRecv : (t.withHeader hdr).vRecv = [] := hempty
      have hfed : Fed hdr (hdr.serialize ++ ((t.withHeader hdr).vRecv ++ z)) rest ⟨ty.name, data⟩
          ((t.withHeader hdr).receiveLoop c magic fuel z) :=
        receiveLoop_data (t := t.withHeader hdr) (x := z) rfl hhdr hsize (by omega)
          (by rwa [hdata]) (by rw [hvRecv]; exact hdata)
      rw [hvRecv, nil_append, ← hgot] at hfed
      rw [if_neg hx, hrecv]
      show Fed hdr _ rest _ (if (t.withHeader hdr).completeInternal then _ else _)
      rwa [hopen, if_neg Bool.false_ne_true]

variable {pieces : List Bytes}

/-- The pieces of a message that is not too long, from some point on: the message is delivered
with the last byte. -/
theorem receiveAll_of_reading (hne : data ≠ []) (hfits : data.length ≤ MAX_PROTOCOL_MESSAGE_LENGTH)
    (hhdr : hdr = headerToSend c magic ty data) {got : Bytes} (hread : Reading hdr t got)
    (hmore : pieces.flatten ≠ []) (hwhole : got ++ pieces.flatten = hdr.serialize ++ data) :
    ∃ t' : V1Transport, t'.AtStart ∧
      t.receiveAll c magic pieces = (some t', [⟨ty.name, data⟩]) := by
  induction pieces generalizing t got with
  | nil => exact absurd rfl hmore
  | cons x pieces ih =>
    rw [flatten_cons] at hmore hwhole
    have hfed : Fed hdr (got ++ x) pieces.flatten ⟨ty.name, data⟩ (t.receiveMsgBytes c magic x) :=
      receiveLoop_of_fits hne hfits hhdr hread (le_refl _) hmore (by simpa using hwhole)
    by_cases hlast : pieces.flatten = []
    · obtain ⟨t', ht', hcall⟩ := hfed.done hlast
      -- the pieces that follow are empty
      have hempty : ∀ (s : V1Transport) (ps : List Bytes), ps.flatten = [] →
          s.receiveAll c magic ps = (some s, []) := by
        intro s ps
        induction ps with
        | nil => intro _; rfl
        | cons p ps ihps =>
          intro hps
          obtain ⟨rfl, hps⟩ := append_eq_nil_iff.mp (flatten_cons ▸ hps)
          simp [receiveAll, receiveMsgBytes, ihps hps]
      exact ⟨t', ht', by simp [receiveAll, hcall, hempty t' pieces hlast]⟩
    · obtain ⟨t', ht', hcall⟩ := hfed.more hlast
      obtain ⟨t'', hstart, hrest⟩ := ih ht' hlast (by simpa using hwhole)
      exact ⟨t'', hstart, by simp [receiveAll, hcall, hrest]⟩

/-- A message that is not too long arrives, however it is cut into pieces. -/
theorem receiveAll_of_fits (hstart : t.AtStart) (hne : data ≠ [])
    (hfits : data.length ≤ MAX_PROTOCOL_MESSAGE_LENGTH)
    (hpieces : pieces.flatten = bytesToSend c magic ty data) :
    ∃ t' : V1Transport, t'.AtStart ∧
      t.receiveAll c magic pieces = (some t', [⟨ty.name, data⟩]) := by
  refine receiveAll_of_reading hne hfits rfl hstart.reading ?_ hpieces
  rw [hpieces, bytesToSend]
  simp [hne]

/-- A message that is too long ends the connection when its header is complete. -/
theorem receiveAll_of_oversize (hin : t.in_data = false) (hlen : t.hdrbuf.length < 24)
    (hsize : data.length < 2 ^ 32) (hover : MAX_PROTOCOL_MESSAGE_LENGTH < data.length)
    (hwhole : t.hdrbuf ++ pieces.flatten = bytesToSend c magic ty data) :
    t.receiveAll c magic pieces = (none, []) := by
  induction pieces generalizing t with
  | nil =>
    have hshort := congrArg List.length hwhole
    rw [bytesToSend, flatten_nil, append_nil, length_append,
      CMessageHeader.length_serialize] at hshort
    omega
  | cons x pieces ih =>
    rw [flatten_cons, ← append_assoc] at hwhole
    by_cases hx : x = []
    · subst hx
      rw [append_nil] at hwhole
      simp [receiveAll, receiveMsgBytes, ih hin hlen hwhole]
    have hfuel : x.length = (x.length - 1) + 1 := by
      have := length_pos_iff.mpr hx
      omega
    by_cases hpart : t.hdrbuf.length + x.length < 24
    · have hcall : t.receiveMsgBytes c magic x = (some { t with hdrbuf := t.hdrbuf ++ x }, []) := by
        rw [receiveMsgBytes, hfuel]
        unfold receiveLoop
        simp [hx, receivedBytes_header_part hin hpart, completeInternal, hin]
      have hrest := ih (t := { t with hdrbuf := t.hdrbuf ++ x }) hin (by simpa using hpart) hwhole
      simp [receiveAll, hcall, hrest]
    · have hnum : (headerToSend c magic ty data).nMessageSize.toNat = data.length :=
        headerToSend_size hsize
      obtain ⟨z, -, -, hrecv⟩ := receivedBytes_header_end hin hlen
        (show (headerToSend c magic ty data).pchMessageStart = magic from rfl) (by omega) hwhole
      rw [hnum, if_pos hover] at hrecv
      have hcall : t.receiveMsgBytes c magic x = (none, []) := by
        rw [receiveMsgBytes, hfuel]
        unfold receiveLoop
        simp [hx, hrecv]
      simp [receiveAll, hcall]

theorem receiveAll_append {t' : V1Transport} {msgs : List CNetMessage}
    (h : t.receiveAll c magic pieces = (some t', msgs)) (more : List Bytes) :
    t.receiveAll c magic (pieces ++ more) =
      ((t'.receiveAll c magic more).1, msgs ++ (t'.receiveAll c magic more).2) := by
  induction pieces generalizing t msgs with
  | nil =>
    cases h
    rfl
  | cons x pieces ih =>
    rw [receiveAll] at h
    rw [cons_append, receiveAll]
    split at h
    · cases h
    · obtain ⟨hrest, rfl⟩ := Prod.mk.inj h
      dsimp only
      rw [ih (Prod.ext hrest rfl), append_assoc]

end V1Transport

/-! ### Accepted blocks -/

theorem Block.serializeWithWitness_ne_nil (block : Block) : block.serializeWithWitness ≠ [] := by
  have hlen := block.header.length_serialize
  intro h
  have := congrArg List.length h
  simp only [Block.serializeWithWitness, length_append, hlen, length_nil] at this
  omega

/-- Primitives as in `sampleCrypto`, with a digest that reads the first bytes only. It can be
evaluated on strings of any length. -/
def prefixCrypto : Crypto :=
  { sampleCrypto with
    sha256 := fun bs =>
      if h : (bs.take 33).length = 32 then
        ⟨bs, by rw [List.length_take] at h; omega⟩
      else Blob.ofNat 32 (checksum (bs.take 48)) }

/-- A transaction whose one input has a witness of one item. -/
def witnessTx (size : Nat) : Transaction where
  nVersion := 2
  vin := [{ prevout := ⟨Blob.ofNat 32 7, 0⟩, scriptSig := [], nSequence := TxIn.sequenceFinal
            scriptWitness := [List.replicate size 0] }]
  vout := [⟨900, [OP_1]⟩]
  nLockTime := 0

/-- A coinbase of height 1 with a witness nonce. -/
def nonceCoinbase (vout : List TxOut) : Transaction where
  nVersion := 2
  vin := [{ prevout := OutPoint.null, scriptSig := [0x51, 0x00], nSequence := TxIn.sequenceFinal
            scriptWitness := [List.replicate 32 0] }]
  vout := vout
  nLockTime := 0

/-- The output that commits to the witness data of the transactions after the coinbase. -/
def commitmentOutput (c : Crypto) (txs : List Transaction) : TxOut where
  nValue := 0
  scriptPubKey := [OP_RETURN, 0x24, 0xaa, 0x21, 0xa9, 0xed] ++
    (c.hash256 ((computeMerkleRoot c
      (nullHash :: txs.map (Transaction.getWitnessHash c))).1.data ++ List.replicate 32 0)).data

/-- A block of height 1 with a proof, a witness commitment and one such transaction. -/
def witnessBlock (size : Nat) : Block :=
  let vout := [⟨0, [OP_1]⟩, commitmentOutput prefixCrypto [witnessTx size]]
  let base : Block :=
    { sampleGenesis with
      hashPrevBlock := sampleGenesis.getHash prefixCrypto
      nTime := 60
      nLeafIndex := 5
      vtx := [nonceCoinbase vout, witnessTx size] }
  let r := prefixCrypto.hash256 (pouwPreimage prefixCrypto sampleParams base 1)
  let full := { base with
    vtx := [nonceCoinbase (vout ++ [proofOutput (sampleProof (sampleKey 3) r)]), witnessTx size] }
  { full with hashMerkleRoot := (blockMerkleRoot prefixCrypto full).1 }

theorem witnessSize_witnessBlock {size : Nat} (hlow : 0xffff < size) (hhigh : size ≤ 0xffffffff) :
    (witnessBlock size).witnessSize = size + 44 := by
  have hcoinbase : ∀ vout, (nonceCoinbase vout).witnessSize = 36 := by
    intro vout
    rfl
  have hitem : (serBytes (List.replicate size (0 : UInt8))).length = size + 5 := by
    rw [serBytes, length_append, length_replicate, writeCompactSize,
      if_neg (by omega), if_neg (by omega), if_pos hhigh, length_cons, length_leBytes]
    omega
  have htx : (witnessTx size).witnessSize = size + 8 := by
    show 2 + ((serVector serBytes [List.replicate size 0]).length + 0) = size + 8
    rw [length_serVector]
    show 2 + ((1 + ((serBytes (List.replicate size 0)).length + 0)) + 0) = size + 8
    omega
  show (nonceCoinbase _).witnessSize + ((witnessTx size).witnessSize + 0) = size + 44
  rw [hcoinbase, htx]
  omega

/-- The block with four million bytes in one witness item passes every check. -/
theorem witnessBlock_accepted :
    checkBlock prefixCrypto sampleParams (witnessBlock 4000000) true true = .ok () ∧
      ∃ verdict, contextualCheckBlock prefixCrypto sampleParams (fun _ => none) [sampleGenesis]
        (witnessBlock 4000000) = .ok verdict := by
  have hpouw : (match checkPoUW prefixCrypto sampleParams (fun _ => none) (witnessBlock 4000000) 1 with
      | .ok _ => true
      | .error _ => false) = true := by
    decide +kernel
  have hsize : (witnessBlock 4000000).serializeNoWitness.length = 2899 := by decide +kernel
  have hweight : getBlockWeight (witnessBlock 4000000) ≤ MAX_BLOCK_WEIGHT := by
    rw [getBlockWeight_eq, hsize, witnessSize_witnessBlock (by decide) (by decide)]
    decide
  have htxs : contextualCheckTxs prefixCrypto sampleParams [sampleGenesis] (witnessBlock 4000000) =
      .ok () := by
    refine contextualCheckTxs_ok_iff.mpr ⟨?_, ?_, ?_, hweight⟩
    · decide +kernel
    · decide +kernel
    · decide +kernel
  refine ⟨by decide +kernel, ?_⟩
  cases h : checkPoUW prefixCrypto sampleParams (fun _ => none) (witnessBlock 4000000) 1 with
  | error e => simp [h] at hpouw
  | ok verdict => exact ⟨verdict, contextualCheckBlock_ok_iff.mpr ⟨htxs, h⟩⟩

end AssentianPQE
