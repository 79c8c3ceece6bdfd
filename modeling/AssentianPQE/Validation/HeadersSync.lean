import AssentianPQE.Validation.Pow

/-!
# `AssentianPQE.Validation.HeadersSync`: headers from a peer, downloaded twice

`HeadersSyncState` (`headerssync.cpp`). In the first phase (`PRESYNC`) the headers of a peer are
counted and one bit of every 606th hash is kept. When they have enough work, the peer sends them
again (`REDOWNLOAD`). They are stored as `CompressedHeader` and given to the caller when enough of
them are on top.

What an object is constructed with is `HeadersSync`: the salt of `m_hasher` stands for the bit
that it gives a hash, and the clock for `maxCommitments`. What changes is `HeadersSyncState`.
Heights do not overflow.
-/

set_option autoImplicit false

namespace AssentianPQE

open Lib

def HEADER_COMMITMENT_PERIOD : Nat := 606
def REDOWNLOAD_BUFFER_SIZE : Nat := 14441

/-! ### Headers -/

/-- `CompressedHeader`. -/
structure CompressedHeader where
  nVersion : Int32
  hashMerkleRoot : Uint256
  nTime : UInt32
  nBits : UInt32
  nNonce : UInt32
deriving DecidableEq

namespace CompressedHeader

/-- The constructor from a header. -/
def ofHeader (header : BlockHeader) : CompressedHeader where
  nVersion := header.nVersion
  hashMerkleRoot := header.hashMerkleRoot
  nTime := header.nTime
  nBits := header.nBits
  nNonce := header.nNonce

/-- `GetFullHeader`. The fields that it does not set are those of `SetNull`. -/
def getFullHeader (h : CompressedHeader) (hashPrevBlock : Uint256) : BlockHeader where
  nVersion := h.nVersion
  hashPrevBlock := hashPrevBlock
  hashMerkleRoot := h.hashMerkleRoot
  nTime := h.nTime
  nBits := h.nBits
  nNonce := h.nNonce
  xmssRoot := nullHash
  nLeafIndex := 0
  commitmentsRoot := nullHash

end CompressedHeader

/-- `CBlockHeader::SetNull`. -/
def BlockHeader.null : BlockHeader :=
  ⟨0, nullHash, nullHash, 0, 0, 0, nullHash, 0, nullHash⟩

/-! ### The object -/

/-- `m_chain_start`. -/
structure ChainStart where
  header : BlockHeader
  nHeight : Nat
  nChainWork : Nat

/-- What a `HeadersSyncState` is constructed with. -/
structure HeadersSync where
  crypto : Crypto
  params : Params
  chainStart : ChainStart
  minimumRequiredWork : Nat
  commitOffset : Nat
  hasher : Uint256 → Bool
  maxCommitments : Nat

/-- `HeadersSyncState::State`. -/
inductive DownloadState where
  | presync | redownload | final
deriving DecidableEq

structure HeadersSyncState where
  currentChainWork : Nat
  headerCommitments : List Bool := []
  lastHeaderReceived : BlockHeader
  currentHeight : Nat
  redownloadedHeaders : List CompressedHeader := []
  redownloadBufferLastHeight : Nat := 0
  redownloadBufferLastHash : Uint256 := nullHash
  redownloadBufferFirstPrevHash : Uint256 := nullHash
  redownloadChainWork : Nat := 0
  processAllRemainingHeaders : Bool := false
  downloadState : DownloadState := .presync
deriving DecidableEq

/-- `ProcessingResult`. -/
structure ProcessingResult where
  powValidatedHeaders : List BlockHeader := []
  success : Bool := false
  requestMore : Bool := false
deriving DecidableEq

namespace HeadersSyncState

/-- The constructor. -/
def init (k : HeadersSync) : HeadersSyncState where
  currentChainWork := k.chainStart.nChainWork
  lastHeaderReceived := k.chainStart.header
  currentHeight := k.chainStart.nHeight

/-- `Finalize`. -/
def finalize (s : HeadersSyncState) : HeadersSyncState :=
  { s with
    headerCommitments := []
    lastHeaderReceived := BlockHeader.null
    redownloadedHeaders := []
    redownloadBufferLastHash := nullHash
    redownloadBufferFirstPrevHash := nullHash
    processAllRemainingHeaders := false
    currentHeight := 0
    downloadState := .final }

/-! ### The first phase -/

/-- `ValidateAndProcessSingleHeader`: whether it succeeds, and the state. -/
def validateAndProcessSingleHeader (k : HeadersSync) (current : BlockHeader)
    (s : HeadersSyncState) : Bool × HeadersSyncState :=
  let nextHeight := s.currentHeight + 1
  if s.downloadState ≠ .presync then (false, s)
  else if !permittedDifficultyTransition k.params s.lastHeaderReceived.nBits current.nBits then
    (false, s)
  else
    let commitments :=
      if nextHeight % HEADER_COMMITMENT_PERIOD = k.commitOffset then
        s.headerCommitments ++ [k.hasher (current.getHash k.crypto)]
      else s.headerCommitments
    -- The number of commitments is tested only when one was added.
    if nextHeight % HEADER_COMMITMENT_PERIOD = k.commitOffset ∧
        k.maxCommitments < commitments.length then
      (false, { s with headerCommitments := commitments })
    else
      (true, { s with
        headerCommitments := commitments
        currentChainWork := (s.currentChainWork + getBlockProof current.nBits) % 2 ^ 256
        lastHeaderReceived := current
        currentHeight := nextHeight })

/-- The loop over the headers of a message. -/
def processHeaders (k : HeadersSync) : List BlockHeader → HeadersSyncState →
    Bool × HeadersSyncState
  | [], s => (true, s)
  | header :: headers, s =>
    match validateAndProcessSingleHeader k header s with
    | (false, s) => (false, s)
    | (true, s) => processHeaders k headers s

/-- The change to `REDOWNLOAD`. -/
def startRedownload (k : HeadersSync) (s : HeadersSyncState) : HeadersSyncState :=
  { s with
    redownloadedHeaders := []
    redownloadBufferLastHeight := k.chainStart.nHeight
    redownloadBufferFirstPrevHash := k.chainStart.header.getHash k.crypto
    redownloadBufferLastHash := k.chainStart.header.getHash k.crypto
    redownloadChainWork := k.chainStart.nChainWork
    downloadState := .redownload }

/-- `ValidateAndStoreHeadersCommitments`. -/
def validateAndStoreHeadersCommitments (k : HeadersSync) (headers : List BlockHeader)
    (s : HeadersSyncState) : Bool × HeadersSyncState :=
  match headers with
  | [] => (true, s)
  | first :: _ =>
    if s.downloadState ≠ .presync then (false, s)
    else if first.hashPrevBlock ≠ s.lastHeaderReceived.getHash k.crypto then (false, s)
    else
      match processHeaders k headers s with
      | (false, s) => (false, s)
      | (true, s) =>
        if k.minimumRequiredWork ≤ s.currentChainWork then (true, startRedownload k s)
        else (true, s)

/-! ### The second phase -/

/-- The `nBits` before the next redownloaded header. -/
def previousNBits (k : HeadersSync) (s : HeadersSyncState) : UInt32 :=
  match s.redownloadedHeaders.getLast? with
  | some last => last.nBits
  | none => k.chainStart.header.nBits

/-- The check of a commitment, where one was made: the commitments that are left. -/
def checkCommitment (k : HeadersSync) (nextHeight : Nat) (header : BlockHeader) (all : Bool)
    (commitments : List Bool) : Option (List Bool) :=
  if !all ∧ nextHeight % HEADER_COMMITMENT_PERIOD = k.commitOffset then
    match commitments with
    | [] => none
    | expected :: rest =>
      if k.hasher (header.getHash k.crypto) = expected then some rest else none
  else some commitments

/-- `ValidateAndStoreRedownloadedHeader`: the state, unless it fails. After a failure nothing but
`Finalize` looks at the state. -/
def validateAndStoreRedownloadedHeader (k : HeadersSync) (header : BlockHeader)
    (s : HeadersSyncState) : Option HeadersSyncState :=
  let nextHeight := s.redownloadBufferLastHeight + 1
  if s.downloadState ≠ .redownload then none
  else if header.hashPrevBlock ≠ s.redownloadBufferLastHash then none
  else if !permittedDifficultyTransition k.params (previousNBits k s) header.nBits then none
  else
    let work := (s.redownloadChainWork + getBlockProof header.nBits) % 2 ^ 256
    let all := s.processAllRemainingHeaders || k.minimumRequiredWork ≤ work
    (checkCommitment k nextHeight header all s.headerCommitments).map fun commitments =>
      { s with
        headerCommitments := commitments
        redownloadChainWork := work
        processAllRemainingHeaders := all
        redownloadedHeaders := s.redownloadedHeaders ++ [CompressedHeader.ofHeader header]
        redownloadBufferLastHeight := nextHeight
        redownloadBufferLastHash := header.getHash k.crypto }

/-- The loop over the headers of a message. -/
def storeHeaders (k : HeadersSync) : List BlockHeader → HeadersSyncState → Option HeadersSyncState
  | [], s => some s
  | header :: headers, s => (validateAndStoreRedownloadedHeader k header s).bind (storeHeaders k headers)

/-- The loop of `PopHeadersReadyForAcceptance`: the headers for the caller, the rest of the buffer
and the hash before it. -/
def popHeaders (c : Crypto) (all : Bool) :
    List CompressedHeader → Uint256 → List BlockHeader × List CompressedHeader × Uint256
  | [], hashPrev => ([], [], hashPrev)
  | h :: rest, hashPrev =>
    if REDOWNLOAD_BUFFER_SIZE < rest.length + 1 ∨ all then
      let full := h.getFullHeader hashPrev
      let r := popHeaders c all rest (full.getHash c)
      (full :: r.1, r.2)
    else ([], h :: rest, hashPrev)

/-- `PopHeadersReadyForAcceptance`. -/
def popHeadersReadyForAcceptance (k : HeadersSync) (s : HeadersSyncState) :
    List BlockHeader × HeadersSyncState :=
  if s.downloadState ≠ .redownload then ([], s)
  else
    let r := popHeaders k.crypto s.processAllRemainingHeaders s.redownloadedHeaders
      s.redownloadBufferFirstPrevHash
    (r.1, { s with redownloadedHeaders := r.2.1, redownloadBufferFirstPrevHash := r.2.2 })

/-! ### Messages -/

/-- A message in `REDOWNLOAD`. -/
def processRedownload (k : HeadersSync) (received : List BlockHeader) (fullHeadersMessage : Bool)
    (s : HeadersSyncState) : ProcessingResult × HeadersSyncState :=
  match storeHeaders k received s with
  | none => ({}, s)
  | some s =>
    let (headers, s) := popHeadersReadyForAcceptance k s
    let done := s.redownloadedHeaders = [] ∧ s.processAllRemainingHeaders
    (⟨headers, true, !done ∧ fullHeadersMessage⟩, s)

/-- `ProcessNextHeaders`. -/
def processNextHeaders (k : HeadersSync) (received : List BlockHeader) (fullHeadersMessage : Bool)
    (s : HeadersSyncState) : ProcessingResult × HeadersSyncState :=
  if received = [] ∨ s.downloadState = .final then ({}, s)
  else
    let (ret, s) :=
      match s.downloadState with
      | .presync =>
        let (success, s) := validateAndStoreHeadersCommitments k received s
        let more := success ∧ (fullHeadersMessage ∨ s.downloadState = .redownload)
        (({ success := success, requestMore := more } : ProcessingResult), s)
      | .redownload => processRedownload k received fullHeadersMessage s
      | .final => ({}, s)
    (ret, if ret.success ∧ ret.requestMore then s else s.finalize)

end HeadersSyncState

/-! ### A whole download -/

/-- A message of the peer. -/
structure HeadersMessage where
  headers : List BlockHeader
  full : Bool

/-- The object, the headers that were received in `REDOWNLOAD` and those that were returned. -/
structure SyncRun where
  state : HeadersSyncState
  received : List BlockHeader := []
  returned : List BlockHeader := []

/-- The start of a download. -/
def SyncRun.init (k : HeadersSync) : SyncRun where
  state := .init k

/-- A call of `ProcessNextHeaders`. -/
def SyncRun.step (k : HeadersSync) (r : SyncRun) (msg : HeadersMessage) : SyncRun :=
  let (ret, state) := r.state.processNextHeaders k msg.headers msg.full
  if r.state.downloadState = .redownload then
    { state := state, received := r.received ++ msg.headers,
      returned := r.returned ++ ret.powValidatedHeaders }
  else { r with state := state }

/-- The calls for the messages of a peer. -/
def syncRun (k : HeadersSync) (msgs : List HeadersMessage) : SyncRun :=
  msgs.foldl (SyncRun.step k) (.init k)

end AssentianPQE
