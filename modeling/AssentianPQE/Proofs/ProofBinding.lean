import AssentianPQE.Proofs.Serialize
import AssentianPQE.Sample
import AssentianPQE.Validation.Block

/-!
# `AssentianPQE.Proofs.ProofBinding`: what a v2 proof binds

From `nPoUWv3StartHeight` on, a v2 proof signs the version, the parent, the base Merkle root,
the time and `nBits`. The base Merkle root leaves out the coinbase outputs that carry a proof
or failed seeds. The nonce and `xmssRoot` are in no preimage.

`header_eq_iff_of_same_proof` takes two blocks with one parent, one proof and one leaf index,
both accepted, and says exactly when their headers are equal: when they have the same nonce
and `xmssRoot`, equally many transactions, and coinbases with the same outputs. Everything
else in the header follows from the proof and from those outputs.

Two assumptions on the primitives enter as hypotheses, and only for what the two blocks use:
no two of the strings that they hash collide (`NoCollision`), and the signature in the proof
verifies for one message.
-/

set_option autoImplicit false

namespace AssentianPQE

open Lib List Transaction Nat

variable {xs ys : List Uint256} {c : Crypto} {queries : List Bytes} {x y : Bytes} {p : PoUWv2Proof}
  {params : Params} {cb : Transaction}

/-! ### The strings that a block hashes -/

/-- No two of these strings have the same double hash. -/
def NoCollision (c : Crypto) (queries : List Bytes) : Prop :=
  ∀ x ∈ queries, ∀ y ∈ queries, c.hash256 x = c.hash256 y → x = y

instance (c : Crypto) (queries : List Bytes) : Decidable (NoCollision c queries) :=
  inferInstanceAs (Decidable (∀ x ∈ queries, ∀ y ∈ queries, c.hash256 x = c.hash256 y → x = y))

/-- The strings of the inner nodes of a Merkle tree. -/
def merkleStrings (c : Crypto) (hashes : List Uint256) : List Bytes :=
  (treePairs (merkleNode c) hashes.length hashes).map fun p => p.1.data ++ p.2.data

/-- The transactions under the base Merkle root. -/
def baseTxs : List Transaction → List Transaction
  | [] => []
  | cb :: txs => baseCoinbase cb :: txs

/-- The strings hashed for a list of transactions and its Merkle root. -/
def txQueries (c : Crypto) (txs : List Transaction) : List Bytes :=
  txs.map Transaction.serializeNoWitness ++ merkleStrings c (txs.map (Transaction.getHash c))

/-- The strings hashed for the proof of a block and for its two Merkle roots. -/
def blockQueries (c : Crypto) (params : Params) (block : Block) (nHeight : Int) : List Bytes :=
  pouwPreimage c params block nHeight :: (txQueries c block.vtx ++ txQueries c (baseTxs block.vtx))

section NoCollision

variable {c : Crypto} {queries : List Bytes}

theorem merkleNode_inj (h : NoCollision c queries) {p q : Uint256 × Uint256}
    (hx : ∀ s ∈ merkleStrings c xs, s ∈ queries) (hy : ∀ s ∈ merkleStrings c ys, s ∈ queries)
    (hp : p ∈ treePairs (merkleNode c) xs.length xs)
    (hq : q ∈ treePairs (merkleNode c) ys.length ys)
    (he : merkleNode c p.1 p.2 = merkleNode c q.1 q.2) : p = q := by
  have hs := h _ (hx _ (mem_map_of_mem hp)) _ (hy _ (mem_map_of_mem hq)) he
  obtain ⟨h1, h2⟩ := append_inj hs (by rw [Blob.length_data, Blob.length_data])
  exact Prod.ext (Blob.ext h1) (Blob.ext h2)

/-- One transaction hash, one transaction up to witnesses. -/
theorem stripped_eq_of_getHash_eq (h : NoCollision c queries) {tx tx' : Transaction}
    (hq : tx.serializeNoWitness ∈ queries) (hq' : tx'.serializeNoWitness ∈ queries)
    (hs : tx.Sized) (hs' : tx'.Sized) (he : tx.getHash c = tx'.getHash c) :
    tx.stripped = tx'.stripped :=
  serializeNoWitness_inj hs hs' (h _ hq _ hq' he)

end NoCollision

/-! ### Merkle roots -/

theorem computeMerkleRoot_fst {hashes : List Uint256} (hne : hashes ≠ []) :
    (merkleLoop (merkleNode c) hashes.length hashes false).1 =
      [(computeMerkleRoot c hashes).1] := by
  have hsingle : ∃ r, (merkleLoop (merkleNode c) hashes.length hashes false).1 = [r] :=
    merkleLoop_single_root (merkleNode c) hne (le_refl _)
  obtain ⟨r, hr⟩ := hsingle
  simp [computeMerkleRoot, hr]

/-- Equally many transactions with one Merkle root have the same hashes. -/
theorem getHash_eq_of_root_eq (h : NoCollision c queries) (hlen : xs.length = ys.length)
    (hne : xs ≠ []) (hx : ∀ s ∈ merkleStrings c xs, s ∈ queries)
    (hy : ∀ s ∈ merkleStrings c ys, s ∈ queries)
    (hroot : (computeMerkleRoot c xs).1 = (computeMerkleRoot c ys).1) : xs = ys := by
  have hney : ys ≠ [] := by
    intro he
    rw [he] at hlen
    exact hne (length_eq_zero_iff.mp hlen)
  have hroots : (merkleLoop (merkleNode c) xs.length xs false).1 =
      (merkleLoop (merkleNode c) xs.length ys false).1 := by
    rw [computeMerkleRoot_fst hne, hlen, computeMerkleRoot_fst hney, hroot]
  refine eq_of_merkleLoop_eq_of_length hlen ?_ hroots
  intro p hp q hq
  rw [hlen] at hq
  exact merkleNode_inj h hx hy hp hq

/-- Two lists whose first hashes are those of strings longer than the 64 bytes of an inner node. -/
theorem treesApart_of_long (h : NoCollision c queries) (hxhead : xs.head? = some (c.hash256 x))
    (hyhead : ys.head? = some (c.hash256 y)) (hxq : x ∈ queries) (hyq : y ∈ queries)
    (hxlong : 64 < x.length) (hylong : 64 < y.length) (hx : ∀ s ∈ merkleStrings c xs, s ∈ queries)
    (hy : ∀ s ∈ merkleStrings c ys, s ∈ queries) :
    TreesApart (merkleNode c) xs.length ys.length xs ys := by
  -- An inner node hashes 64 bytes, so it is not the hash of a longer string.
  have hnode : ∀ (zs : List Uint256) (z : Bytes), (∀ s ∈ merkleStrings c zs, s ∈ queries) →
      z ∈ queries → 64 < z.length → ∀ q ∈ treePairs (merkleNode c) zs.length zs,
      merkleNode c q.1 q.2 ≠ c.hash256 z := by
    intro zs z hz hzq hlong q hq he
    have hs := h _ (hz _ (mem_map_of_mem hq)) _ hzq he
    have hlen := congrArg List.length hs
    simp only [length_append, Blob.length_data] at hlen
    omega
  refine ⟨fun p hp q hq => merkleNode_inj h hx hy hp hq, fun q hq a ha => ?_, fun q hq a ha => ?_⟩
  · rw [hxhead, Option.mem_some_iff] at ha
    rw [← ha]
    exact hnode ys x hy hxq hxlong q hq
  · rw [hyhead, Option.mem_some_iff] at ha
    rw [← ha]
    exact hnode xs y hx hyq hylong q hq

/-- Two such lists with one Merkle root have the same first hash. They are equal if neither is
mutated. -/
theorem eq_of_root_eq_of_long (h : NoCollision c queries) (hxhead : xs.head? = some (c.hash256 x))
    (hyhead : ys.head? = some (c.hash256 y)) (hxq : x ∈ queries) (hyq : y ∈ queries)
    (hxlong : 64 < x.length) (hylong : 64 < y.length) (hx : ∀ s ∈ merkleStrings c xs, s ∈ queries)
    (hy : ∀ s ∈ merkleStrings c ys, s ∈ queries)
    (hroot : (computeMerkleRoot c xs).1 = (computeMerkleRoot c ys).1) :
    xs.head? = ys.head? ∧
      ((computeMerkleRoot c xs).2 = false → (computeMerkleRoot c ys).2 = false → xs = ys) := by
  have hnex : xs ≠ [] := by
    rintro rfl
    cases hxhead
  have hney : ys ≠ [] := by
    rintro rfl
    cases hyhead
  have hloop := computeMerkleRoot_fst (c := c) hnex
  rw [hroot] at hloop
  exact eq_of_merkleLoop_eq (le_refl _) (le_refl _) hnex hney
    (treesApart_of_long h hxhead hyhead hxq hyq hxlong hylong hx hy) hloop
    (computeMerkleRoot_fst hney)

/-! ### What the signature covers -/

/-- The signature of a proof has the length of an XMSS signature. -/
theorem PoUWv2Proof.length_signature (p : PoUWv2Proof) (nLeafIndex : UInt32) :
    (p.signature nLeafIndex).length = XMSS_SIG_BYTES := by
  simp [PoUWv2Proof.signature, XMSS_SIG_BYTES, XMSS_INDEX_BYTES, XMSS_N, WOTS_SIG_BYTES,
    AUTH_PATH_BYTES]

/-- An accepted proof signs the block hash. -/
theorem xmssRootMatches_of_checkPoUWv2 {blockHash : Uint256} {target : Nat} {nLeafIndex : UInt32}
    (h : checkPoUWv2 c p blockHash target nLeafIndex = true) :
    c.xmssRootMatches p.xmss_pk.data (p.signature nLeafIndex) blockHash.data = true := by
  unfold checkPoUWv2 at h
  split at h
  · cases h
  simp only [decide_eq_true_eq] at h
  unfold xmssSignOpen at h
  rw [← p.length_signature nLeafIndex, take_left, drop_left] at h
  split at h
  · cases h
  · split at h
    · assumption
    · cases h

/-- From `nPoUWv3StartHeight` on, the preimage determines the fields that it holds. -/
theorem pouwPreimage_inj {b b' : Block} {nHeight : Int}
    (hheight : params.nPoUWv3StartHeight ≤ nHeight)
    (h : pouwPreimage c params b nHeight = pouwPreimage c params b' nHeight) :
    b.nVersion = b'.nVersion ∧
      computePoUWBaseMerkleRoot c b = computePoUWBaseMerkleRoot c b' ∧
      b.nTime = b'.nTime ∧ b.nBits = b'.nBits := by
  simp only [pouwPreimage, hheight, if_true] at h
  obtain ⟨hversion, h⟩ := serI32_determines _ _ trivial trivial _ _ h
  obtain ⟨-, h⟩ := blob_determines 32 _ _ trivial trivial _ _ h
  obtain ⟨hroot, h⟩ := blob_determines 32 _ _ trivial trivial _ _ h
  obtain ⟨htime, h⟩ := serU32_determines _ _ trivial trivial _ _ h
  exact ⟨hversion, hroot, htime, serU32_inj h⟩

/-! ### The coinbase -/

theorem opReturnPush_length {s : Script} {d : Bytes} (h : opReturnPush s = some d) :
    d.length ≤ s.length := by
  cases s with
  | nil => cases h
  | cons op rest =>
    simp only [opReturnPush] at h
    split at h
    · obtain ⟨first, hfirst, hd⟩ := Option.map_eq_some_iff.mp h
      rw [← hd, length_cons]
      have hlen := getScriptOp_lengths hfirst
      omega
    · cases h

/-- A coinbase with a v2 proof is longer than an inner node of a Merkle tree. -/
theorem length_coinbase_of_scanProof {xmss_pk pk : Bytes}
    (h : scanProof params cb.vout xmss_pk = .ok (some p, pk)) :
    64 < cb.serializeNoWitness.length := by
  obtain ⟨out, hout, data, hpush, hdes⟩ := scanProof_some h
  have hdata : 2564 ≤ data.length := (PoUWv2Proof.of_deserialize hdes).1
  have hscript := opReturnPush_length hpush
  have htx := length_scriptPubKey_lt hout
  omega

/-- The outputs of a coinbase determine the commitments root that is accepted with them. -/
theorem checkCommitments_root {root root' : Uint256} {nHeight : Int} {target target' : Nat} :
    ∀ {vout : List TxOut}, checkCommitments c params root nHeight target vout = .ok () →
      checkCommitments c params root' nHeight target' vout = .ok () → root = root' := by
  intro vout
  induction vout with
  | nil =>
    intro h h'
    have hnull : ∀ {r : Uint256} {t : Nat},
        checkCommitments c params r nHeight t [] = .ok () → r = nullHash := by
      intro r t hr
      simp only [checkCommitments] at hr
      split at hr
      · cases hr
      · rename_i hn
        exact not_not.mp hn
    exact (hnull h).trans (hnull h').symm
  | cons out rest ih =>
    intro h h'
    simp only [checkCommitments] at h h'
    cases hpush : opReturnPush out.scriptPubKey with
    | none =>
      simp only [hpush] at h h'
      exact ih h h'
    | some data =>
      simp only [hpush] at h h'
      split at h
      · rename_i hmagic
        rw [if_pos hmagic] at h'
        exact ih h h'
      · rename_i hmagic
        rw [if_neg hmagic] at h'
        split at h
        · cases h
        rename_i hlarge
        rw [if_neg hlarge] at h'
        cases hfsl : fslDeserialize c data with
        | none => simp [hfsl] at h
        | some entries =>
          simp only [hfsl] at h h'
          -- The first list of failed seeds has one Merkle root, and both roots equal it.
          have hroot : ∀ {r : Uint256}, ¬ ((!verifyAgainstHeader c entries r) = true) →
              fslMerkleRoot c entries = r := by
            intro r hr
            have hv : verifyAgainstHeader c entries r = true := by simpa using hr
            simp only [verifyAgainstHeader, decide_eq_true_eq] at hv
            exact hv.2
          split at h
          · cases h
          rename_i hv
          split at h'
          · cases h'
          · rename_i hv'
            exact (hroot hv).symm.trans (hroot hv')

/-- The outputs of the first transaction. -/
def coinbaseOutputs (block : Block) : List TxOut :=
  (block.vtx.head?.map Transaction.vout).getD []

/-- Removing outputs keeps the counts small. -/
theorem baseCoinbase_sized (h : cb.Sized) : (baseCoinbase cb).Sized :=
  ⟨h.vin, lt_of_le_of_lt (length_filter_le _ _) h.vout.1,
    fun o ho => h.vout.2 o (mem_of_mem_filter ho)⟩

/-- Coinbases with the same outputs and the same base transaction have one hash. -/
theorem getHash_eq_of_base {cb' : Transaction}
    (hbase : (baseCoinbase cb).stripped = (baseCoinbase cb').stripped)
    (hvout : cb.vout = cb'.vout) :
    cb.getHash c = cb'.getHash c := by
  have hser : ∀ tx : Transaction, tx.stripped.serializeNoWitness = tx.serializeNoWitness := by
    intro tx
    have hin : (tx.vin.map TxIn.stripped).map TxIn.serialize = tx.vin.map TxIn.serialize := by
      rw [map_map]
      rfl
    simp only [serializeNoWitness, stripped, serVector, length_map,
      hin]
  have hstripped : cb.stripped = cb'.stripped := by
    simp only [stripped, baseCoinbase, mk.injEq] at hbase ⊢
    exact ⟨hbase.1, hbase.2.1, hvout, hbase.2.2.2⟩
  rw [getHash, getHash, ← hser, hstripped, hser]

/-! ### Two blocks with one proof -/

/-- What the checks say about a block with a v2 proof. -/
structure ProvenBlock (c : Crypto) (params : Params) (leafDB : LeafTable) (nHeight : Int)
    (block : Block) (p : PoUWv2Proof) (cb : Transaction) (txs : List Transaction) : Prop where
  vtx_eq : block.vtx = cb :: txs
  accepted : AcceptedV2 c params leafDB block nHeight p cb
  root_eq : block.hashMerkleRoot = (blockMerkleRoot c block).1
  not_mutated : (blockMerkleRoot c block).2 = false
  sized : ∀ tx ∈ block.vtx, tx.Sized

theorem provenBlock_of_checks {leafDB : LeafTable} {prev : List BlockHeader} {block : Block}
    (hok : checkBlock c params block true true = .ok ())
    (hctx : contextualCheckBlock c params leafDB prev block = .ok (.v2 p)) :
    ∃ cb txs, ProvenBlock c params leafDB prev.length block p cb txs := by
  obtain ⟨-, -, hmerkle, htxs⟩ := checkBlock_ok_iff.mp hok
  obtain ⟨hroot, hmut⟩ := checkMerkleRoot_ok_iff.mp hmerkle
  obtain ⟨cb, hacc⟩ := checkPoUW_v2_iff.mp (contextualCheckBlock_ok_iff.mp hctx).2
  obtain ⟨txs, hvtx⟩ := head?_eq_some_iff.mp hacc.coinbase_head
  refine ⟨cb, txs, hvtx, hacc, hroot, hmut, fun tx htx => ?_⟩
  have hlen := length_le_of_checkTransaction (checkTransaction_of_checkBlockTxs htxs tx htx)
  exact sized_of_length (by simp only [WITNESS_SCALE_FACTOR, MAX_BLOCK_WEIGHT] at hlen; omega)

section TwoBlocks

variable {c : Crypto} {params : Params} {leafDB leafDB' : LeafTable} {nHeight : Int}
  {b b' : Block} {p : PoUWv2Proof} {cb cb' : Transaction} {txs txs' : List Transaction}

section
variable (hb : ProvenBlock c params leafDB nHeight b p cb txs)
  (hb' : ProvenBlock c params leafDB' nHeight b' p cb' txs')
include hb hb'

/-- One proof, one preimage. -/
theorem pouwPreimage_eq_of_same_proof (hleaf : b.nLeafIndex = b'.nLeafIndex)
    (hhash : NoCollision c (blockQueries c params b nHeight ++ blockQueries c params b' nHeight))
    (hsig : ∀ m m', c.xmssRootMatches p.xmss_pk.data (p.signature b.nLeafIndex) m = true →
      c.xmssRootMatches p.xmss_pk.data (p.signature b.nLeafIndex) m' = true → m = m') :
    pouwPreimage c params b nHeight = pouwPreimage c params b' nHeight := by
  have hm := xmssRootMatches_of_checkPoUWv2 hb.accepted.verified
  have hm' := xmssRootMatches_of_checkPoUWv2 hb'.accepted.verified
  rw [← hleaf] at hm'
  refine hhash _ ?_ _ ?_ (Blob.ext (hsig _ _ hm hm'))
  · exact mem_append_left _ mem_cons_self
  · exact mem_append_right _ mem_cons_self

/-- One header, one coinbase: the Merkle root determines the transactions. -/
theorem coinbase_eq_of_root_eq
    (hhash : NoCollision c (blockQueries c params b nHeight ++ blockQueries c params b' nHeight))
    (hroot : b.hashMerkleRoot = b'.hashMerkleRoot) :
    b.vtx.length = b'.vtx.length ∧ cb.vout = cb'.vout := by
  have hq : ∀ s ∈ txQueries c b.vtx,
      s ∈ blockQueries c params b nHeight ++ blockQueries c params b' nHeight := by
    intro s hs
    exact mem_append_left _ (mem_cons_of_mem _ (mem_append_left _ hs))
  have hq' : ∀ s ∈ txQueries c b'.vtx,
      s ∈ blockQueries c params b nHeight ++ blockQueries c params b' nHeight := by
    intro s hs
    exact mem_append_right _ (mem_cons_of_mem _ (mem_append_left _ hs))
  have hcb : cb ∈ b.vtx := by
    rw [hb.vtx_eq]
    exact mem_cons_self
  have hcb' : cb' ∈ b'.vtx := by
    rw [hb'.vtx_eq]
    exact mem_cons_self
  have hser := hq _ (mem_append_left _ (mem_map_of_mem hcb))
  have hser' := hq' _ (mem_append_left _ (mem_map_of_mem hcb'))
  obtain ⟨pk, hscan⟩ := hb.accepted.scanned
  obtain ⟨pk', hscan'⟩ := hb'.accepted.scanned
  have hhashes : b.vtx.map (getHash c) = b'.vtx.map (getHash c) := by
    refine (eq_of_root_eq_of_long hhash (x := cb.serializeNoWitness)
      (y := cb'.serializeNoWitness) ?_ ?_ hser hser' (length_coinbase_of_scanProof hscan)
      (length_coinbase_of_scanProof hscan') (fun s hs => hq s (mem_append_right _ hs))
      (fun s hs => hq' s (mem_append_right _ hs)) ?_).2 hb.not_mutated hb'.not_mutated
    · rw [hb.vtx_eq]
      rfl
    · rw [hb'.vtx_eq]
      rfl
    · exact (hb.root_eq.symm.trans hroot).trans hb'.root_eq
  have hlen := congrArg List.length hhashes
  rw [length_map, length_map] at hlen
  rw [hb.vtx_eq, hb'.vtx_eq, map_cons, map_cons] at hhashes
  have hstripped := stripped_eq_of_getHash_eq hhash hser hser' (hb.sized cb hcb)
    (hb'.sized cb' hcb') (List.cons.inj hhashes).1
  have hvout : cb.stripped.vout = cb'.stripped.vout := by rw [hstripped]
  exact ⟨hlen, hvout⟩

/-- Equally many transactions under one base root, and coinbases with the same outputs, have
one Merkle root. -/
theorem root_eq_of_base_root_eq
    (hhash : NoCollision c (blockQueries c params b nHeight ++ blockQueries c params b' nHeight))
    (hbase : computePoUWBaseMerkleRoot c b = computePoUWBaseMerkleRoot c b')
    (hlen : b.vtx.length = b'.vtx.length) (hvout : cb.vout = cb'.vout) :
    b.hashMerkleRoot = b'.hashMerkleRoot := by
  have hvtx := hb.vtx_eq
  have hvtx' := hb'.vtx_eq
  have hq : ∀ s ∈ txQueries c (baseCoinbase cb :: txs),
      s ∈ blockQueries c params b nHeight ++ blockQueries c params b' nHeight := by
    intro s hs
    have hs' : s ∈ txQueries c (baseTxs b.vtx) := by rwa [hvtx]
    exact mem_append_left _ (mem_cons_of_mem _ (mem_append_right _ hs'))
  have hq' : ∀ s ∈ txQueries c (baseCoinbase cb' :: txs'),
      s ∈ blockQueries c params b nHeight ++ blockQueries c params b' nHeight := by
    intro s hs
    have hs' : s ∈ txQueries c (baseTxs b'.vtx) := by rwa [hvtx']
    exact mem_append_right _ (mem_cons_of_mem _ (mem_append_right _ hs'))
  rw [computePoUWBaseMerkleRoot, computePoUWBaseMerkleRoot, hvtx, hvtx'] at hbase
  rw [hvtx, hvtx'] at hlen
  have hhashes : (baseCoinbase cb :: txs).map (getHash c) =
      (baseCoinbase cb' :: txs').map (getHash c) := by
    refine getHash_eq_of_root_eq hhash (by simpa using hlen) (by simp)
      (fun s hs => hq s (mem_append_right _ hs))
      (fun s hs => hq' s (mem_append_right _ hs)) hbase
  rw [map_cons, map_cons] at hhashes
  obtain ⟨hhead, htail⟩ := List.cons.inj hhashes
  have hstripped := stripped_eq_of_getHash_eq hhash
    (hq _ (mem_append_left _ mem_cons_self))
    (hq' _ (mem_append_left _ mem_cons_self))
    (baseCoinbase_sized (hb.sized cb (by rw [hvtx]; exact mem_cons_self)))
    (baseCoinbase_sized (hb'.sized cb' (by rw [hvtx']; exact mem_cons_self))) hhead
  rw [hb.root_eq, hb'.root_eq, blockMerkleRoot, blockMerkleRoot, hvtx, hvtx', map_cons,
    map_cons, getHash_eq_of_base hstripped hvout, htail]

end

end TwoBlocks

/-- Two accepted blocks with one parent, one v2 proof and one leaf index have the same header
exactly when they have the same nonce, the same `xmssRoot`, equally many transactions and
coinbases with the same outputs. -/
theorem header_eq_iff_of_same_proof (c : Crypto) (params : Params) (leafDB leafDB' : LeafTable)
    (prev : List BlockHeader) (b b' : Block) (p : PoUWv2Proof)
    (hheight : params.nPoUWv3StartHeight ≤ prev.length)
    (hparent : b.hashPrevBlock = b'.hashPrevBlock)
    (hok : checkBlock c params b true true = .ok ())
    (hok' : checkBlock c params b' true true = .ok ())
    (hctx : contextualCheckBlock c params leafDB prev b = .ok (.v2 p))
    (hctx' : contextualCheckBlock c params leafDB' prev b' = .ok (.v2 p))
    (hleaf : b.nLeafIndex = b'.nLeafIndex)
    (hhash : NoCollision c (blockQueries c params b prev.length ++
      blockQueries c params b' prev.length))
    (hsig : ∀ m m', c.xmssRootMatches p.xmss_pk.data (p.signature b.nLeafIndex) m = true →
      c.xmssRootMatches p.xmss_pk.data (p.signature b.nLeafIndex) m' = true → m = m') :
    b.header = b'.header ↔
      b.nNonce = b'.nNonce ∧ b.xmssRoot = b'.xmssRoot ∧ b.vtx.length = b'.vtx.length ∧
        coinbaseOutputs b = coinbaseOutputs b' := by
  obtain ⟨cb, txs, hb⟩ := provenBlock_of_checks hok hctx
  obtain ⟨cb', txs', hb'⟩ := provenBlock_of_checks hok' hctx'
  have houtputs : coinbaseOutputs b = cb.vout := by simp [coinbaseOutputs, hb.vtx_eq]
  have houtputs' : coinbaseOutputs b' = cb'.vout := by simp [coinbaseOutputs, hb'.vtx_eq]
  rw [houtputs, houtputs']
  constructor
  · intro h
    have hroot := congrArg BlockHeader.hashMerkleRoot h
    exact ⟨congrArg BlockHeader.nNonce h, congrArg BlockHeader.xmssRoot h,
      coinbase_eq_of_root_eq hb hb' hhash hroot⟩
  · rintro ⟨hnonce, hxmss, hlen, hvout⟩
    have hpre := pouwPreimage_eq_of_same_proof hb hb' hleaf hhash hsig
    obtain ⟨hversion, hbase, htime, hbits⟩ := pouwPreimage_inj hheight hpre
    have hroot := root_eq_of_base_root_eq hb hb' hhash hbase hlen hvout
    have hcommit := hb'.accepted.commitments
    rw [← hvout] at hcommit
    have hcommitments := checkCommitments_root hb.accepted.commitments hcommit
    exact BlockHeader.ext hversion hparent hroot htime hbits hnonce hxmss hleaf hcommitments

/-- A block on the genesis block. -/
def boundBlock : Block :=
  sampleBlock 1 (sampleGenesis.getHash sampleCrypto) 1 7 (Blob.ofNat 64 5) [] []

/-- The same block with another nonce. -/
def boundBlock' : Block :=
  { boundBlock with nNonce := 1 }

/-- The proof of both blocks. -/
def boundProof : PoUWv2Proof :=
  sampleBlockProof boundBlock 1 (Blob.ofNat 64 5)

theorem boundBlock_fields : boundBlock.hashPrevBlock = boundBlock'.hashPrevBlock ∧
    boundBlock.nLeafIndex = boundBlock'.nLeafIndex ∧ boundBlock.nNonce ≠ boundBlock'.nNonce := by
  decide +kernel

theorem checkBlock_boundBlock :
    checkBlock sampleCrypto sampleParams boundBlock true true = .ok () ∧
      checkBlock sampleCrypto sampleParams boundBlock' true true = .ok () := by
  decide +kernel

theorem contextualCheckBlock_boundBlock :
    contextualCheckBlock sampleCrypto sampleParams (fun _ => none) [sampleGenesis] boundBlock =
        .ok (.v2 boundProof) ∧
      contextualCheckBlock sampleCrypto sampleParams (fun _ => none) [sampleGenesis] boundBlock' =
        .ok (.v2 boundProof) := by
  decide +kernel

theorem noCollision_boundBlock :
    NoCollision sampleCrypto
      (blockQueries sampleCrypto sampleParams boundBlock [sampleGenesis].length ++
        blockQueries sampleCrypto sampleParams boundBlock' [sampleGenesis].length) := by
  decide +kernel

/-- The hypotheses hold of the two blocks. -/
theorem header_eq_iff_boundBlock :
    boundBlock.header = boundBlock'.header ↔
      boundBlock.nNonce = boundBlock'.nNonce ∧ boundBlock.xmssRoot = boundBlock'.xmssRoot ∧
        boundBlock.vtx.length = boundBlock'.vtx.length ∧
        coinbaseOutputs boundBlock = coinbaseOutputs boundBlock' :=
  header_eq_iff_of_same_proof sampleCrypto sampleParams (fun _ => none) (fun _ => none)
    [sampleGenesis] boundBlock boundBlock' boundProof (by decide) boundBlock_fields.1
    checkBlock_boundBlock.1 checkBlock_boundBlock.2 contextualCheckBlock_boundBlock.1
    contextualCheckBlock_boundBlock.2 boundBlock_fields.2.1 noCollision_boundBlock
    fun _ _ => sampleCrypto_one_message

/-- The two blocks have one parent, one proof and one leaf index, both are accepted, and their
headers differ. -/
theorem boundBlock_header_ne :
    sampleParams.nPoUWv3StartHeight ≤ [sampleGenesis].length ∧
      boundBlock.hashPrevBlock = boundBlock'.hashPrevBlock ∧
      (checkBlock sampleCrypto sampleParams boundBlock true true = .ok () ∧
        checkBlock sampleCrypto sampleParams boundBlock' true true = .ok ()) ∧
      (contextualCheckBlock sampleCrypto sampleParams (fun _ => none) [sampleGenesis] boundBlock =
          .ok (.v2 boundProof) ∧
        contextualCheckBlock sampleCrypto sampleParams (fun _ => none) [sampleGenesis]
          boundBlock' = .ok (.v2 boundProof)) ∧
      boundBlock.nLeafIndex = boundBlock'.nLeafIndex ∧
      NoCollision sampleCrypto
        (blockQueries sampleCrypto sampleParams boundBlock [sampleGenesis].length ++
          blockQueries sampleCrypto sampleParams boundBlock' [sampleGenesis].length) ∧
      (∀ pk sig m m', sampleCrypto.xmssRootMatches pk sig m = true →
        sampleCrypto.xmssRootMatches pk sig m' = true → m = m') ∧
      boundBlock.header ≠ boundBlock'.header := by
  refine ⟨by decide, boundBlock_fields.1, checkBlock_boundBlock, contextualCheckBlock_boundBlock,
    boundBlock_fields.2.1, noCollision_boundBlock, fun _ _ _ _ => sampleCrypto_one_message, ?_⟩
  intro h
  exact boundBlock_fields.2.2 (congrArg BlockHeader.nNonce h)

end AssentianPQE
