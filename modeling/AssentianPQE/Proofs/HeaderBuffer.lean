import AssentianPQE.Sample
import AssentianPQE.Validation.HeadersSync

/-!
# The headers that a download returns

`CompressedHeader` has five of the nine fields of a header. `GetFullHeader` gets the hash of the
previous header back from the chain. The three fields of the proof of work (`xmssRoot`,
`nLeafIndex`, `commitmentsRoot`) come back as null, and the hash of a header that has them is then
another one.

`SyncInv` is kept by every message: what was returned was rebuilt from the first headers that
were received, and the buffer holds the rest of them. `returned_prefix_received` is the result for
a whole download. The headers that are returned are the first ones that were received if and only
if none of these had a proof of work.
-/

set_option autoImplicit false

namespace AssentianPQE

open Lib List Option

variable {buffer : List CompressedHeader} {k : HeadersSync} {s s' : HeadersSyncState}

/-! ### Compressed headers -/

/-- The fields of the proof of work are null. -/
def BlockHeader.PouwNull (h : BlockHeader) : Prop :=
  h.xmssRoot = nullHash ∧ h.nLeafIndex = 0 ∧ h.commitmentsRoot = nullHash

/-- A header with another previous hash comes back if its other lost fields are null. -/
theorem getFullHeader_ofHeader {h : BlockHeader} (hnull : h.PouwNull) :
    (CompressedHeader.ofHeader h).getFullHeader h.hashPrevBlock = h := by
  obtain ⟨hroot, hleaf, hcommit⟩ := hnull
  ext1
  case xmssRoot => exact hroot.symm
  case nLeafIndex => exact hleaf.symm
  case commitmentsRoot => exact hcommit.symm
  all_goals rfl

theorem pouwNull_getFullHeader (h : CompressedHeader) (hashPrevBlock : Uint256) :
    (h.getFullHeader hashPrevBlock).PouwNull :=
  ⟨rfl, rfl, rfl⟩

/-! ### Chains of headers -/

section Chains
variable (c : Crypto)

/-- The hash of the last header, or the one before the first if there is none. -/
def hashAfter (hashPrev : Uint256) (headers : List BlockHeader) : Uint256 :=
  headers.foldl (fun _ h => h.getHash c) hashPrev

/-- The headers follow each other, the first one after a hash. -/
def Follow : Uint256 → List BlockHeader → Prop
  | _, [] => True
  | hashPrev, h :: headers => h.hashPrevBlock = hashPrev ∧ Follow (h.getHash c) headers

/-- The headers that `PopHeadersReadyForAcceptance` makes of a buffer. -/
def rebuild : Uint256 → List CompressedHeader → List BlockHeader
  | _, [] => []
  | hashPrev, h :: buffer =>
    h.getFullHeader hashPrev :: rebuild ((h.getFullHeader hashPrev).getHash c) buffer

variable {c}

theorem hashAfter_append (hashPrev : Uint256) (hs hs' : List BlockHeader) :
    hashAfter c hashPrev (hs ++ hs') = hashAfter c (hashAfter c hashPrev hs) hs' :=
  foldl_append

theorem follow_append {hs hs' : List BlockHeader} :
    ∀ {hashPrev : Uint256},
      Follow c hashPrev (hs ++ hs') ↔ Follow c hashPrev hs ∧ Follow c (hashAfter c hashPrev hs) hs' := by
  induction hs with
  | nil =>
    intro hashPrev
    show Follow c hashPrev hs' ↔ True ∧ Follow c hashPrev hs'
    rw [true_and]
  | cons h hs ih =>
    intro hashPrev
    show _ ∧ Follow c (h.getHash c) (hs ++ hs') ↔ (_ ∧ Follow c (h.getHash c) hs) ∧ _
    rw [ih, and_assoc]
    rfl

theorem rebuild_append {buffer' : List CompressedHeader} :
    ∀ {hashPrev : Uint256}, rebuild c hashPrev (buffer ++ buffer') =
      rebuild c hashPrev buffer ++
        rebuild c (hashAfter c hashPrev (rebuild c hashPrev buffer)) buffer' := by
  induction buffer with
  | nil =>
    intro hashPrev
    rfl
  | cons h buffer ih =>
    intro hashPrev
    show _ :: rebuild c _ (buffer ++ buffer') = _ :: (rebuild c _ buffer ++ _)
    rw [ih]
    rfl

theorem length_rebuild :
    ∀ {hashPrev : Uint256}, (rebuild c hashPrev buffer).length = buffer.length := by
  induction buffer with
  | nil =>
    intro hashPrev
    rfl
  | cons h buffer ih =>
    intro hashPrev
    show (rebuild c _ buffer).length + 1 = _
    rw [ih]
    rfl

/-- A rebuilt header has no proof of work. -/
theorem pouwNull_of_mem_rebuild :
    ∀ {hashPrev : Uint256}, ∀ h ∈ rebuild c hashPrev buffer, h.PouwNull := by
  induction buffer with
  | nil =>
    intro hashPrev h hmem
    cases hmem
  | cons b buffer ih =>
    intro hashPrev h hmem
    rcases mem_cons.mp hmem with rfl | hmem
    · exact pouwNull_getFullHeader b hashPrev
    · exact ih h hmem

/-- A chain without proofs of work comes back as it was. -/
theorem rebuild_eq_self {hs : List BlockHeader} :
    ∀ {hashPrev : Uint256}, Follow c hashPrev hs → (∀ h ∈ hs, h.PouwNull) →
      rebuild c hashPrev (hs.map CompressedHeader.ofHeader) = hs := by
  induction hs with
  | nil =>
    intro hashPrev _ _
    rfl
  | cons h hs ih =>
    intro hashPrev hfollow hnull
    obtain ⟨rfl, hfollow⟩ := hfollow
    have hfirst := getFullHeader_ofHeader (hnull h mem_cons_self)
    have hrest := ih hfollow fun h' hmem => hnull h' (mem_cons_of_mem h hmem)
    show _ :: rebuild c _ (hs.map CompressedHeader.ofHeader) = _
    rw [hfirst, hrest]

end Chains

/-! ### The functions -/

namespace HeadersSyncState

/-- What the loop of `PopHeadersReadyForAcceptance` takes off the buffer. -/
theorem popHeaders_spec (c : Crypto) (all : Bool) (buffer : List CompressedHeader) :
    ∀ hashPrev : Uint256, ∃ taken left, buffer = taken ++ left ∧
      popHeaders c all buffer hashPrev =
        (rebuild c hashPrev taken, left, hashAfter c hashPrev (rebuild c hashPrev taken)) := by
  induction buffer with
  | nil =>
    intro hashPrev
    exact ⟨[], [], rfl, rfl⟩
  | cons h buffer ih =>
    intro hashPrev
    by_cases hready : REDOWNLOAD_BUFFER_SIZE < buffer.length + 1 ∨ all = true
    · obtain ⟨taken, left, hbuffer, hpop⟩ := ih ((h.getFullHeader hashPrev).getHash c)
      refine ⟨h :: taken, left, by rw [hbuffer, cons_append], ?_⟩
      rw [popHeaders, if_pos hready]
      simp only [hpop]
      rfl
    · refine ⟨[], h :: buffer, rfl, ?_⟩
      rw [popHeaders, if_neg hready]
      rfl

/-- A header that is stored follows the last one. -/
theorem validateAndStoreRedownloadedHeader_eq_some {header : BlockHeader}
    (h : validateAndStoreRedownloadedHeader k header s = some s') :
    header.hashPrevBlock = s.redownloadBufferLastHash ∧
      s'.redownloadBufferLastHash = header.getHash k.crypto ∧
      s'.redownloadedHeaders = s.redownloadedHeaders ++ [CompressedHeader.ofHeader header] ∧
      s'.redownloadBufferFirstPrevHash = s.redownloadBufferFirstPrevHash ∧
      s'.downloadState = s.downloadState := by
  unfold validateAndStoreRedownloadedHeader at h
  simp only at h
  split at h
  · cases h
  split at h
  · cases h
  rename_i hprev
  split at h
  · cases h
  obtain ⟨commitments, -, rfl⟩ := map_eq_some_iff.mp h
  exact ⟨not_not.mp hprev, rfl, rfl, rfl, rfl⟩

/-- The headers of a message that are all stored follow each other. -/
theorem storeHeaders_eq_some {headers : List BlockHeader} :
    ∀ {s s' : HeadersSyncState}, storeHeaders k headers s = some s' →
      Follow k.crypto s.redownloadBufferLastHash headers ∧
      s'.redownloadBufferLastHash = hashAfter k.crypto s.redownloadBufferLastHash headers ∧
      s'.redownloadedHeaders = s.redownloadedHeaders ++ headers.map CompressedHeader.ofHeader ∧
      s'.redownloadBufferFirstPrevHash = s.redownloadBufferFirstPrevHash ∧
      s'.downloadState = s.downloadState := by
  induction headers with
  | nil =>
    intro s s' h
    rw [← some.inj h]
    exact ⟨trivial, rfl, (append_nil _).symm, rfl, rfl⟩
  | cons header headers ih =>
    intro s s' h
    obtain ⟨s₁, hone, hrest⟩ := bind_eq_some_iff.mp h
    obtain ⟨hprev, hlast, hbuffer, hfirst, hstate⟩ :=
      validateAndStoreRedownloadedHeader_eq_some hone
    obtain ⟨hfollow, hlast', hbuffer', hfirst', hstate'⟩ := ih hrest
    refine ⟨⟨hprev, hlast ▸ hfollow⟩, ?_, ?_, hfirst'.trans hfirst, hstate'.trans hstate⟩
    · rw [hlast', hlast]
      rfl
    · rw [hbuffer', hbuffer, append_assoc]
      rfl

/-- The first phase ends at most with the change to the second. -/
theorem validateAndProcessSingleHeader_state (k : HeadersSync) (header : BlockHeader)
    (s : HeadersSyncState) :
    (validateAndProcessSingleHeader k header s).2.downloadState = s.downloadState := by
  unfold validateAndProcessSingleHeader
  simp only
  split
  · rfl
  split
  · rfl
  split <;> split <;> rfl

theorem processHeaders_state (k : HeadersSync) (headers : List BlockHeader) :
    ∀ s : HeadersSyncState, (processHeaders k headers s).2.downloadState = s.downloadState := by
  induction headers with
  | nil =>
    intro s
    rfl
  | cons header headers ih =>
    intro s
    have hone := validateAndProcessSingleHeader_state k header s
    rw [processHeaders]
    split <;> rename_i heq
    · rw [heq] at hone
      exact hone
    · rw [heq] at hone
      exact (ih _).trans hone

/-- After a message of the first phase. -/
theorem validateAndStoreHeadersCommitments_spec (k : HeadersSync) (headers : List BlockHeader)
    (hs : s.downloadState = .presync) :
    (validateAndStoreHeadersCommitments k headers s).2.downloadState = .presync ∨
      ∃ s', (validateAndStoreHeadersCommitments k headers s).2 = startRedownload k s' := by
  unfold validateAndStoreHeadersCommitments
  cases headers with
  | nil => exact .inl hs
  | cons first headers =>
    simp only
    split
    · exact .inl hs
    split
    · exact .inl hs
    have hstate := processHeaders_state k (first :: headers) s
    rw [hs] at hstate
    split <;> rename_i heq <;> rw [heq] at hstate
    · exact .inl hstate
    · split
      · exact .inr ⟨_, rfl⟩
      · exact .inl hstate

/-- A message that is not processed in `REDOWNLOAD`. -/
theorem processNextHeaders_presync (k : HeadersSync) (received : List BlockHeader) (full : Bool)
    (hs : s.downloadState ≠ .redownload) (h : (s.processNextHeaders k received full).2 = s') :
    s'.downloadState = .final ∨ s'.downloadState = s.downloadState ∨
      s.downloadState = .presync ∧ ∃ s₀, s' = startRedownload k s₀ := by
  unfold processNextHeaders at h
  split at h
  · exact .inr (.inl (congrArg downloadState h.symm))
  rename_i hcall
  cases hstate : s.downloadState with
  | final => exact absurd (.inr hstate) hcall
  | redownload => exact absurd hstate hs
  | presync =>
    simp only [hstate] at h
    split at h
    · rcases validateAndStoreHeadersCommitments_spec k received hstate with hpre | ⟨s₀, hstart⟩
      · exact .inr (.inl (h ▸ hpre))
      · exact .inr (.inr ⟨rfl, s₀, h.symm.trans hstart⟩)
    · exact .inl (congrArg downloadState h.symm)

/-- A message that is processed in `REDOWNLOAD`: nothing is returned, or all its headers are
stored and the buffer is emptied as far as possible. -/
theorem processNextHeaders_redownload (k : HeadersSync) (received : List BlockHeader) (full : Bool)
    (hs : s.downloadState = .redownload) :
    received = [] ∧ s.processNextHeaders k received full = ({}, s) ∨
      s.processNextHeaders k received full = ({}, s.finalize) ∨
      ∃ s₁ ret s', s.processNextHeaders k received full = (ret, s') ∧
        storeHeaders k received s = some s₁ ∧
        ret.powValidatedHeaders = (popHeadersReadyForAcceptance k s₁).1 ∧
        (s' = (popHeadersReadyForAcceptance k s₁).2 ∨ s'.downloadState = .final) := by
  unfold processNextHeaders
  by_cases hnil : received = []
  · exact .inl ⟨hnil, if_pos (.inl hnil)⟩
  rw [if_neg (by rw [hs]; simpa using hnil)]
  simp only [hs, processRedownload]
  cases hstore : storeHeaders k received s with
  | none => exact .inr (.inl rfl)
  | some s₁ =>
    refine .inr (.inr ⟨s₁, _, _, rfl, rfl, rfl, ?_⟩)
    simp only
    split
    · exact .inl rfl
    · exact .inr rfl

end HeadersSyncState

/-! ### The invariant -/

/-- The object in `REDOWNLOAD`, when `pre` was returned and `post` is in the buffer. -/
structure Buffers (k : HeadersSync) (s : HeadersSyncState) (returned : List BlockHeader)
    (pre post : List BlockHeader) : Prop where
  buffer : s.redownloadedHeaders = post.map CompressedHeader.ofHeader
  follow : Follow k.crypto (k.chainStart.header.getHash k.crypto) (pre ++ post)
  lastHash : s.redownloadBufferLastHash =
    hashAfter k.crypto (k.chainStart.header.getHash k.crypto) (pre ++ post)
  firstPrevHash : s.redownloadBufferFirstPrevHash =
    hashAfter k.crypto (k.chainStart.header.getHash k.crypto) returned

/-- What was returned was made of the first headers that were received. -/
structure SyncInv (k : HeadersSync) (r : SyncRun) (pre post : List BlockHeader) : Prop where
  received : r.received = pre ++ post
  follow : Follow k.crypto (k.chainStart.header.getHash k.crypto) pre
  returned : r.returned = rebuild k.crypto (k.chainStart.header.getHash k.crypto)
    (pre.map CompressedHeader.ofHeader)
  presync : r.state.downloadState = .presync → r.received = []
  redownload : r.state.downloadState = .redownload → Buffers k r.state r.returned pre post

theorem syncInv_init (k : HeadersSync) : SyncInv k (.init k) [] [] where
  received := rfl
  follow := trivial
  returned := rfl
  presync _ := rfl
  redownload h := by cases h

namespace SyncInv

variable {k : HeadersSync} {r : SyncRun} {pre post : List BlockHeader}

/-- A call that is not made in `REDOWNLOAD`. -/
theorem presync_step (h : SyncInv k r pre post) (msg : HeadersMessage)
    (hstate : r.state.downloadState ≠ .redownload) : SyncInv k (r.step k msg) pre post := by
  have hstep : r.step k msg =
      { r with state := (r.state.processNextHeaders k msg.headers msg.full).2 } := by
    unfold SyncRun.step
    exact if_neg hstate
  rw [hstep]
  generalize hnext : (r.state.processNextHeaders k msg.headers msg.full).2 = s'
  refine ⟨h.received, h.follow, h.returned, ?_, ?_⟩
  · intro hpre
    rcases HeadersSyncState.processNextHeaders_presync k _ _ hstate hnext with
      hfinal | hsame | ⟨hbefore, -⟩
    · rw [hfinal] at hpre
      cases hpre
    · exact h.presync (hsame.symm.trans hpre)
    · exact h.presync hbefore
  · intro hre
    rcases HeadersSyncState.processNextHeaders_presync k _ _ hstate hnext with
      hfinal | hsame | ⟨hbefore, s₀, hstart⟩
    · rw [hfinal] at hre
      cases hre
    · exact absurd (hsame.symm.trans hre) hstate
    · -- The second phase begins, and nothing was received in it.
      have hnil : pre ++ post = [] := h.received.symm.trans (h.presync hbefore)
      obtain ⟨rfl, rfl⟩ := append_eq_nil_iff.mp hnil
      have hreturned : r.returned = [] := h.returned
      show Buffers k s' r.returned [] []
      rw [hstart, hreturned]
      exact ⟨rfl, trivial, rfl, rfl⟩

/-- The part that a message does not change, when nothing is returned for it. -/
theorem of_final (h : SyncInv k r pre post) (more : List BlockHeader)
    (hfinal : s'.downloadState = .final) :
    SyncInv k ⟨s', r.received ++ more, r.returned⟩ pre (post ++ more) where
  received := by rw [h.received, append_assoc]
  follow := h.follow
  returned := h.returned
  presync hpre := by
    rw [hfinal] at hpre
    cases hpre
  redownload hre := by
    rw [hfinal] at hre
    cases hre

/-- A call that is made in `REDOWNLOAD`. The headers of the message go to the end of the buffer,
and the ones at its front are returned. -/
theorem redownload_step (h : SyncInv k r pre post) (msg : HeadersMessage)
    (hstate : r.state.downloadState = .redownload) :
    ∃ pre' post', SyncInv k (r.step k msg) pre' post' := by
  have hbuf := h.redownload hstate
  have hstep : r.step k msg =
      ⟨(r.state.processNextHeaders k msg.headers msg.full).2, r.received ++ msg.headers,
        r.returned ++ (r.state.processNextHeaders k msg.headers msg.full).1.powValidatedHeaders⟩ := by
    unfold SyncRun.step
    exact if_pos hstate
  rw [hstep]
  rcases HeadersSyncState.processNextHeaders_redownload k msg.headers msg.full hstate with
    ⟨hnil, hcall⟩ | hcall | ⟨s₁, ret, s', hcall, hstore, hret, hs'⟩
  · rw [hcall, hnil, append_nil, append_nil]
    exact ⟨pre, post, h⟩
  · rw [hcall, append_nil]
    exact ⟨pre, post ++ msg.headers, h.of_final msg.headers rfl⟩
  · rw [hcall, hret]
    obtain ⟨hfollow, hlast, hbuffer, hfirst, hstate₁⟩ :=
      HeadersSyncState.storeHeaders_eq_some hstore
    have hstate₁ : s₁.downloadState = .redownload := hstate₁.trans hstate
    rw [hbuf.buffer, ← map_append] at hbuffer
    -- The front of the buffer is made of the headers that come after the returned ones.
    obtain ⟨taken, left, htaken, hpop⟩ := HeadersSyncState.popHeaders_spec k.crypto
      s₁.processAllRemainingHeaders s₁.redownloadedHeaders s₁.redownloadBufferFirstPrevHash
    rw [hbuffer] at htaken
    obtain ⟨front, back, hsplit, rfl, rfl⟩ := map_eq_append_iff.mp htaken
    have hready : HeadersSyncState.popHeadersReadyForAcceptance k s₁ =
        (rebuild k.crypto s₁.redownloadBufferFirstPrevHash (front.map CompressedHeader.ofHeader),
          { s₁ with
            redownloadedHeaders := back.map CompressedHeader.ofHeader
            redownloadBufferFirstPrevHash := hashAfter k.crypto s₁.redownloadBufferFirstPrevHash
              (rebuild k.crypto s₁.redownloadBufferFirstPrevHash
                (front.map CompressedHeader.ofHeader)) }) := by
      unfold HeadersSyncState.popHeadersReadyForAcceptance
      rw [if_neg (by rw [hstate₁]; simp)]
      simp only [hpop]
    rw [hready] at hs' ⊢
    have hchain : Follow k.crypto (k.chainStart.header.getHash k.crypto)
        ((pre ++ front) ++ back) := by
      rw [append_assoc, ← hsplit, ← append_assoc, follow_append]
      exact ⟨hbuf.follow, hbuf.lastHash ▸ hfollow⟩
    rw [hbuf.firstPrevHash] at hfirst
    have hreturned : r.returned ++
        rebuild k.crypto s₁.redownloadBufferFirstPrevHash (front.map CompressedHeader.ofHeader) =
        rebuild k.crypto (k.chainStart.header.getHash k.crypto)
          ((pre ++ front).map CompressedHeader.ofHeader) := by
      rw [hfirst, map_append, rebuild_append, ← h.returned]
    refine ⟨pre ++ front, back, ?_, (follow_append.mp hchain).1, hreturned, ?_, ?_⟩
    · show r.received ++ msg.headers = _
      rw [h.received, append_assoc, hsplit, append_assoc]
    · intro hpre
      rcases hs' with rfl | hfinal
      · exact absurd (hstate₁.symm.trans hpre) (by decide)
      · exact absurd (hfinal.symm.trans hpre) (by decide)
    · intro hre
      rcases hs' with rfl | hfinal
      · refine ⟨rfl, hchain, ?_, ?_⟩
        · show s₁.redownloadBufferLastHash = _
          rw [hlast, hbuf.lastHash, ← hashAfter_append, append_assoc, hsplit,
            append_assoc]
        · show hashAfter k.crypto s₁.redownloadBufferFirstPrevHash _ = _
          rw [hashAfter_append, ← hfirst]
      · exact absurd (hfinal.symm.trans hre) (by decide)

end SyncInv

/-- Every message keeps the invariant. -/
theorem syncInv_step {r : SyncRun} (msg : HeadersMessage) (h : ∃ pre post, SyncInv k r pre post) :
    ∃ pre post, SyncInv k (r.step k msg) pre post := by
  obtain ⟨pre, post, h⟩ := h
  by_cases hstate : r.state.downloadState = .redownload
  · exact h.redownload_step msg hstate
  · exact ⟨pre, post, h.presync_step msg hstate⟩

theorem syncInv_run (k : HeadersSync) (msgs : List HeadersMessage) :
    ∃ pre post, SyncInv k (syncRun k msgs) pre post := by
  -- Over any start that has the invariant, message by message.
  have hrun : ∀ (msgs : List HeadersMessage) (r : SyncRun), (∃ pre post, SyncInv k r pre post) →
      ∃ pre post, SyncInv k (msgs.foldl (SyncRun.step k) r) pre post := by
    intro msgs
    induction msgs with
    | nil =>
      intro r h
      exact h
    | cons msg msgs ih =>
      intro r h
      exact ih (r.step k msg) (syncInv_step msg h)
  exact hrun msgs _ ⟨[], [], syncInv_init k⟩

/-- The headers that a download has returned are the first ones that it has received in the second
phase if and only if none of these has a proof of work. In particular they are if no header of the
second phase has one. -/
theorem returned_prefix_received (k : HeadersSync) (msgs : List HeadersMessage) :
    ((∀ h ∈ (syncRun k msgs).received, h.PouwNull) →
      (syncRun k msgs).returned <+: (syncRun k msgs).received) ∧
    ((syncRun k msgs).returned <+: (syncRun k msgs).received ↔
      ∀ h ∈ (syncRun k msgs).received.take (syncRun k msgs).returned.length, h.PouwNull) := by
  obtain ⟨pre, post, hinv⟩ := syncInv_run k msgs
  have hlength : (syncRun k msgs).returned.length = pre.length := by
    rw [hinv.returned, length_rebuild, length_map]
  have htake : (syncRun k msgs).received.take (syncRun k msgs).returned.length = pre := by
    rw [hlength, hinv.received, take_left]
  have hsuffices : (∀ h ∈ pre, h.PouwNull) →
      (syncRun k msgs).returned <+: (syncRun k msgs).received := by
    intro hnull
    rw [hinv.returned, rebuild_eq_self hinv.follow hnull, hinv.received]
    exact prefix_append pre post
  rw [htake]
  refine ⟨fun hnull => hsuffices fun h hmem => hnull h ?_, fun hprefix => ?_, hsuffices⟩
  · rw [hinv.received]
    exact mem_append_left post hmem
  intro h hmem
  have hsame : pre = (syncRun k msgs).returned := by
    rw [← htake]
    exact (prefix_iff_eq_take.mp hprefix).symm
  rw [hsame, hinv.returned] at hmem
  exact pouwNull_of_mem_rebuild h hmem

/-- A download that starts after the genesis block and needs no work. -/
def sampleSync : HeadersSync where
  crypto := sampleCrypto
  params := sampleNetwork
  chainStart := ⟨sampleGenesis, 0, 0⟩
  minimumRequiredWork := 0
  commitOffset := 0
  hasher _ := false
  maxCommitments := 1

/-- A header without a proof of work. -/
def plainHeader : BlockHeader :=
  { BlockHeader.null with hashPrevBlock := sampleGenesis.getHash sampleCrypto, nBits := sampleBits }

/-- A peer sends one header in the first phase and again in the second. -/
def oneHeaderRun (header : BlockHeader) : SyncRun :=
  syncRun sampleSync [⟨[header], true⟩, ⟨[header], true⟩]

/-- A header without a proof of work is returned as it was received. -/
theorem returned_prefix_received_plainHeader :
    (oneHeaderRun plainHeader).returned = [plainHeader] ∧
      (oneHeaderRun plainHeader).returned <+: (oneHeaderRun plainHeader).received := by
  have hnull : ∀ h ∈ (oneHeaderRun plainHeader).received, h.PouwNull := by
    have hreceived : (oneHeaderRun plainHeader).received = [plainHeader] := by decide +kernel
    rw [hreceived]
    intro h hmem
    rw [mem_singleton.mp hmem]
    exact ⟨rfl, rfl, rfl⟩
  exact ⟨by decide +kernel, (returned_prefix_received sampleSync _).1 hnull⟩

/-- The header of a mined block is returned without its root and its leaf, and with another
hash. -/
theorem mined_header_not_returned :
    (oneHeaderRun firstLeafBlock.header).received = [firstLeafBlock.header] ∧
      (oneHeaderRun firstLeafBlock.header).returned ≠ [] ∧
      (∀ h ∈ (oneHeaderRun firstLeafBlock.header).returned,
        h.xmssRoot ≠ firstLeafBlock.xmssRoot ∧ h.nLeafIndex ≠ firstLeafBlock.nLeafIndex ∧
        h.getHash sampleCrypto ≠ firstLeafBlock.getHash sampleCrypto) ∧
      ¬ (oneHeaderRun firstLeafBlock.header).returned <+:
        (oneHeaderRun firstLeafBlock.header).received := by
  decide +kernel

end AssentianPQE
