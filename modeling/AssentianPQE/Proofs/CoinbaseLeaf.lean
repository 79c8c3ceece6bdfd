import Mathlib.Data.List.Induction
import AssentianPQE.Sample

/-!
# `AssentianPQE.Proofs.CoinbaseLeaf`: the leaf a coinbase claims

`CheckPoUW` verifies the proof in the first push of an `OP_RETURN` output.
`ParseCoinbasePoUWLeaf` reads every push of every output and stops after the first output
that claims a leaf. The two need not agree: the parser also reads outputs without
`OP_RETURN`, takes the magic value from a push that is too short for a proof, and still
knows the v1 format.

`ClaimsLeaf` says which leaf the parser finds, in terms of the pushes alone.

* `parseCoinbasePoUWLeaf_eq_some_iff`: the parser returns a leaf exactly when the coinbase
  claims it.
* `exists_claimsLeaf_of_scanProof`: a coinbase with a v2 proof claims some leaf.
* `parseCoinbasePoUWLeaf_eq_proof_iff`: for a block with an accepted v2 proof, the parser
  returns the verified leaf exactly when the coinbase claims no other leaf first.
-/

set_option autoImplicit false

namespace AssentianPQE

open Lib List Option Bool

/-! ### Claims in terms of pushes -/

/-- The data of the operations of an output, in order. -/
def pushesOf (out : TxOut) : List Bytes :=
  (ops out.scriptPubKey).map ScriptOp.data

/-- A push with the v2 magic and a key. -/
def IsV2Push (d : Bytes) : Prop :=
  68 ≤ d.length ∧ d.take 4 = POUW_MAGIC

instance : DecidablePred IsV2Push := fun d =>
  inferInstanceAs (Decidable (68 ≤ d.length ∧ d.take 4 = POUW_MAGIC))

/-- Pushes that claim no leaf: none with the v2 magic, and none longer than 64 bytes after
one of 64 bytes. -/
structure NoClaim (ds : List Bytes) : Prop where
  noV2 : ∀ d ∈ ds, ¬ IsV2Push d
  noV1 : ∀ a k b, ds = a ++ k :: b → k.length = 64 → ∀ d ∈ b, d.length ≤ 64

/-- The leaf that the pushes of one output claim, after the pushes of the outputs before
it. The last push with the v2 magic wins. Without one, the key is the first push of
64 bytes, and the leaf index starts the next longer push. -/
inductive LeafClaim (nLeafIndex : UInt32) (earlier output : List Bytes) : Bytes → Nat → Prop
  | v2 (a b : List Bytes) (x : Bytes) (hsplit : output = a ++ x :: b) (hx : IsV2Push x)
      (hlast : ∀ y ∈ b, ¬ IsV2Push y) :
      LeafClaim nLeafIndex earlier output ((x.drop 4).take 64) nLeafIndex.toNat
  | v1 (a b rest : List Bytes) (key sig : Bytes) (hno : ∀ y ∈ output, ¬ IsV2Push y)
      (hsplit : earlier ++ output = a ++ key :: (b ++ sig :: rest)) (hkey : key.length = 64)
      (hfirst : ∀ y ∈ a, y.length ≠ 64) (hbetween : ∀ y ∈ b, y.length ≤ 64)
      (hsig : 64 < sig.length) :
      LeafClaim nLeafIndex earlier output key (leafIndexOf sig)

/-- The leaf that a coinbase claims: the one of its first output that claims any. -/
def ClaimsLeaf (vout : List TxOut) (nLeafIndex : UInt32) (key : Bytes) (leaf : Nat) : Prop :=
  ∃ pre out post, vout = pre ++ out :: post ∧ NoClaim (pre.flatMap pushesOf) ∧
    LeafClaim nLeafIndex (pre.flatMap pushesOf) (pushesOf out) key leaf

/-! ### The parser as a fold over pushes -/

/-- The body of the parser loop on the pushed data. -/
def parseLeafData (nLeafIndex : UInt32) (st : LeafScan) (d : Bytes) : LeafScan :=
  if IsV2Push d then
    { pk := (d.drop 4).take 64, leaf := nLeafIndex.toNat, found := true }
  else if d.length = 64 ∧ st.pk = [] then { st with pk := d }
  else if 64 < d.length ∧ st.found = false ∧ st.pk.length = 64 then
    { st with leaf := leafIndexOf d, found := true }
  else st

section Fold

variable (nLeafIndex : UInt32)

/-- `OP_RETURN` pushes nothing, so skipping it makes no difference. -/
theorem foldl_parseLeafOp (out : TxOut) (st : LeafScan) :
    (ops out.scriptPubKey).foldl (parseLeafOp nLeafIndex) st =
      (pushesOf out).foldl (parseLeafData nLeafIndex) st := by
  have hret : ∀ op ∈ ops out.scriptPubKey, op.opcode = OP_RETURN → op.data = [] := by
    refine ops_forall ?_ _
    intro s op hread hop
    exact getScriptOp_data_nil hread (by rw [hop]; decide)
  rw [pushesOf, foldl_map]
  refine foldl_ext _ _ _ fun st op hop => ?_
  by_cases h : op.opcode = OP_RETURN
  · have hnil := hret op hop h
    simp [parseLeafOp, parseLeafData, h, hnil, IsV2Push]
  · rw [parseLeafOp, if_neg h]
    rfl

/-- The state after reading some pushes from the start. -/
def scanPushes (ds : List Bytes) : LeafScan :=
  ds.foldl (parseLeafData nLeafIndex) {}

variable {nLeafIndex}

theorem parseLeafData_v2 {d : Bytes} (h : IsV2Push d) (st : LeafScan) :
    parseLeafData nLeafIndex st d = ⟨(d.drop 4).take 64, nLeafIndex.toNat, true⟩ := by
  rw [parseLeafData, if_pos h]

variable {ds : List Bytes}

/-- Once a leaf is found with its key, only another v2 push changes it. -/
theorem foldl_parseLeafData_found (hds : ∀ d ∈ ds, ¬ IsV2Push d) {st : LeafScan}
    (hfound : st.found = true) (hpk : st.pk ≠ []) :
    ds.foldl (parseLeafData nLeafIndex) st = st := by
  induction ds with
  | nil => rfl
  | cons d ds ih =>
    have hstep : parseLeafData nLeafIndex st d = st := by
      simp [parseLeafData, hds d mem_cons_self, hfound, hpk]
    rw [foldl_cons, hstep]
    exact ih fun x hx => hds x (mem_cons_of_mem _ hx)

/-- A leaf that was found stays found. -/
theorem foldl_parseLeafData_mono (nLeafIndex : UInt32) (ds : List Bytes) {st : LeafScan}
    (h : st.found = true) :
    (ds.foldl (parseLeafData nLeafIndex) st).found = true := by
  induction ds generalizing st with
  | nil => exact h
  | cons d ds ih =>
    rw [foldl_cons]
    apply ih
    unfold parseLeafData
    split
    · rfl
    split
    · exact h
    · split
      · rfl
      · exact h

/-- The key before a leaf is found: the first push of 64 bytes. -/
def firstKey (ds : List Bytes) : Bytes :=
  (ds.find? fun d => d.length = 64).getD []

/-- Pushes that claim nothing leave the parser with the first key and no leaf. -/
theorem scanPushes_of_noClaim (h : NoClaim ds) : scanPushes nLeafIndex ds = { pk := firstKey ds } := by
  -- The induction adds the last push, since `NoClaim` speaks about what came before it.
  induction ds using List.reverseRecOn with
  | nil => rfl
  | append_singleton ds d ih =>
    have hpre : NoClaim ds :=
      ⟨fun x hx => h.noV2 x (mem_append_left _ hx),
        fun a k b he hk x hx => h.noV1 a k (b ++ [d]) (by simp [he]) hk x
          (mem_append_left _ hx)⟩
    have hd : ¬ IsV2Push d := h.noV2 d (by simp)
    rw [scanPushes, foldl_append, foldl_cons, foldl_nil, ← scanPushes, ih hpre,
      parseLeafData, if_neg hd]
    cases hfind : ds.find? fun d => d.length = 64 with
    | none =>
      by_cases hlen : d.length = 64
      · simp [firstKey, find?_append, hfind, hlen]
      · simp [firstKey, find?_append, hfind, hlen]
    | some k =>
      obtain ⟨hk, a, b, he, -⟩ := find?_eq_some_iff_append.mp hfind
      have hk : k.length = 64 := by simpa using hk
      have hle : d.length ≤ 64 := h.noV1 a k (b ++ [d]) (by simp [he]) hk d (by simp)
      have hne : k ≠ [] := by
        intro hnil
        rw [hnil] at hk
        simp at hk
      simp [firstKey, find?_append, hfind, hk, hne, Nat.not_lt.mpr hle]

theorem length_firstKey {k : Bytes} (hk : k ∈ ds) (hlen : k.length = 64) :
    (firstKey ds).length = 64 := by
  cases hfind : ds.find? fun d => d.length = 64 with
  | none =>
    have hno := find?_eq_none.mp hfind k hk
    simp [hlen] at hno
  | some k' =>
    have hk' := find?_some hfind
    simpa [firstKey, hfind] using hk'

/-- A parser that has found nothing has read pushes that claim nothing. -/
theorem noClaim_of_scanPushes (h : (scanPushes nLeafIndex ds).found = false) : NoClaim ds := by
  induction ds using List.reverseRecOn with
  | nil =>
    refine ⟨by simp, fun a k b he => ?_⟩
    simp at he
  | append_singleton ds d ih =>
    rw [scanPushes, foldl_append, foldl_cons, foldl_nil, ← scanPushes] at h
    -- `found` is never reset, so nothing was found before the last push either.
    have hbefore : (scanPushes nLeafIndex ds).found = false := by
      by_contra hfound
      rw [not_eq_false] at hfound
      have hmono := foldl_parseLeafData_mono nLeafIndex [d] hfound
      rw [foldl_cons, foldl_nil, h] at hmono
      cases hmono
    have hpre := ih hbefore
    have hd : ¬ IsV2Push d := by
      intro hv2
      rw [parseLeafData_v2 hv2] at h
      cases h
    have hshort : (firstKey ds).length = 64 → d.length ≤ 64 := by
      intro hkey
      by_contra hlong
      rw [scanPushes_of_noClaim hpre, parseLeafData, if_neg hd, if_neg (by omega),
        if_pos ⟨by omega, rfl, hkey⟩] at h
      cases h
    refine ⟨?_, ?_⟩
    · intro x hx
      rcases mem_append.mp hx with hx | hx
      · exact hpre.noV2 x hx
      · rw [mem_singleton.mp hx]
        exact hd
    · intro a k b he hk x hx
      rcases eq_nil_or_concat b with rfl | ⟨b', y, rfl⟩
      · cases hx
      rw [concat_eq_append, ← cons_append, ← append_assoc] at he
      obtain ⟨hds, hy⟩ := append_inj' he rfl
      rw [concat_eq_append] at hx
      rcases mem_append.mp hx with hx | hx
      · exact hpre.noV1 a k b' hds hk x hx
      have hxd : x = d := by
        rw [mem_singleton.mp hx]
        exact (List.cons.inj hy).1.symm
      rw [hxd]
      exact hshort (length_firstKey (by rw [hds]; simp) hk)

variable {earlier output : List Bytes}

/-- The claim of an output is what the parser has after it. -/
theorem scanPushes_of_leafClaim {key : Bytes} {leaf : Nat} (hearlier : NoClaim earlier)
    (h : LeafClaim nLeafIndex earlier output key leaf) :
    scanPushes nLeafIndex (earlier ++ output) = ⟨key, leaf, true⟩ ∧ key.length = 64 := by
  cases h with
  | v2 a b x hsplit hx hlast =>
    have hlen : ((x.drop 4).take 64).length = 64 := by
      have := hx.1
      rw [length_take, length_drop]
      omega
    refine ⟨?_, hlen⟩
    rw [hsplit, scanPushes, ← append_assoc, foldl_append, foldl_cons,
      parseLeafData_v2 hx]
    apply foldl_parseLeafData_found hlast rfl
    intro hnil
    rw [show (x.drop 4).take 64 = [] from hnil] at hlen
    cases hlen
  | v1 a b rest key sig hno hsplit hkey hfirst hbetween hsig =>
    have hne : key ≠ [] := by
      intro hnil
      rw [hnil] at hkey
      cases hkey
    have hv2 : ∀ y ∈ earlier ++ output, ¬ IsV2Push y := by
      intro y hy
      rcases mem_append.mp hy with hy | hy
      · exact hearlier.noV2 y hy
      · exact hno y hy
    rw [hsplit] at hv2
    -- Up to the signature nothing is claimed, and the first key is `key`.
    have hpre : NoClaim (a ++ key :: b) := by
      refine ⟨fun y hy => hv2 y ?_, ?_⟩
      · simp only [mem_append, mem_cons] at hy ⊢
        tauto
      intro a' k b' he hk d hd
      -- The push `k` of 64 bytes is not among those before `key`.
      rcases append_eq_append_iff.mp he with ⟨t, -, ht⟩ | ⟨t, ha, ht⟩
      · cases t with
        | nil => exact hbetween d ((List.cons.inj ht).2 ▸ hd)
        | cons y t =>
          have hb := (List.cons.inj ht).2
          exact hbetween d (by rw [hb]; simp [hd])
      · cases t with
        | nil => exact hbetween d ((List.cons.inj ht).2 ▸ hd)
        | cons y t =>
          have hy := (List.cons.inj ht).1
          exact absurd hk (hfirst k (by rw [ha, hy]; simp))
    have hfk : firstKey (a ++ key :: b) = key := by
      have hnone : a.find? (fun d => d.length = 64) = none :=
        find?_eq_none.mpr fun y hy => by simpa using hfirst y hy
      simp [firstKey, find?_append, hnone, hkey]
    refine ⟨?_, hkey⟩
    have hsigv2 : ¬ IsV2Push sig := hv2 sig (by simp)
    rw [hsplit, show a ++ key :: (b ++ sig :: rest) = (a ++ key :: b) ++ sig :: rest by simp,
      scanPushes, foldl_append, foldl_cons, ← scanPushes, scanPushes_of_noClaim hpre, hfk,
      parseLeafData, if_neg hsigv2, if_neg (by omega), if_pos ⟨hsig, rfl, hkey⟩]
    exact foldl_parseLeafData_found (fun y hy => hv2 y (by simp [hy])) rfl hne

/-- A parser that has found a leaf found it at some push. -/
theorem exists_finding_push (h : (scanPushes nLeafIndex ds).found = true) :
    ∃ pre d post, ds = pre ++ d :: post ∧ (scanPushes nLeafIndex pre).found = false ∧
      (parseLeafData nLeafIndex (scanPushes nLeafIndex pre) d).found = true := by
  induction ds using List.reverseRecOn with
  | nil => cases h
  | append_singleton ds d ih =>
    cases hfound : (scanPushes nLeafIndex ds).found with
    | true =>
      obtain ⟨pre, x, post, he, hbefore, hafter⟩ := ih hfound
      exact ⟨pre, x, post ++ [d], by simp [he], hbefore, hafter⟩
    | false =>
      rw [scanPushes, foldl_append, foldl_cons, foldl_nil, ← scanPushes] at h
      exact ⟨ds, d, [], rfl, hfound, h⟩

/-- An output after which the parser has found a leaf claims the leaf it found. -/
theorem leafClaim_of_scanPushes (hearlier : NoClaim earlier)
    (h : (scanPushes nLeafIndex (earlier ++ output)).found = true) :
    ∃ key leaf, LeafClaim nLeafIndex earlier output key leaf := by
  by_cases hv2 : ∃ x ∈ output, IsV2Push x
  · -- The last push with the magic is the first one from the end.
    obtain ⟨x, hx, hxv2⟩ := hv2
    cases hfind : output.reverse.find? fun d => decide (IsV2Push d) with
    | none =>
      have hno := find?_eq_none.mp hfind x (mem_reverse.mpr hx)
      simp [hxv2] at hno
    | some y =>
      obtain ⟨hy, b, a, he, hb⟩ := find?_eq_some_iff_append.mp hfind
      have hsplit : output = a.reverse ++ y :: b.reverse := by
        rw [← reverse_reverse output, he]
        simp
      refine ⟨_, _, .v2 a.reverse b.reverse y hsplit (by simpa using hy) ?_⟩
      intro z hz
      simpa using hb z (mem_reverse.mp hz)
  · have hno : ∀ y ∈ output, ¬ IsV2Push y := fun y hy hyv2 => hv2 ⟨y, hy, hyv2⟩
    have hall : ∀ y ∈ earlier ++ output, ¬ IsV2Push y := by
      intro y hy
      rcases mem_append.mp hy with hy | hy
      · exact hearlier.noV2 y hy
      · exact hno y hy
    obtain ⟨ds, sig, rest, hsplit, hbefore, hafter⟩ := exists_finding_push h
    have hds := noClaim_of_scanPushes hbefore
    have hsigv2 : ¬ IsV2Push sig := hall sig (by rw [hsplit]; simp)
    rw [scanPushes_of_noClaim hds, parseLeafData, if_neg hsigv2] at hafter
    split at hafter
    · cases hafter
    split at hafter
    · rename_i hthird
      obtain ⟨hsig, -, hlen⟩ := hthird
      cases hfind : ds.find? fun d => d.length = 64 with
      | none => simp [firstKey, hfind] at hlen
      | some key =>
        obtain ⟨hkey, a, b, he, ha⟩ := find?_eq_some_iff_append.mp hfind
        have hkey : key.length = 64 := by simpa using hkey
        refine ⟨key, leafIndexOf sig, .v1 a b rest key sig hno ?_ hkey ?_ ?_ hsig⟩
        · rw [hsplit, he]
          simp
        · intro y hy
          simpa using ha y hy
        · exact hds.noV1 a key b he hkey
    · cases hafter

/-! ### The parser finds the claim -/

/-- The state after the pushes of some outputs. -/
def scanOutputs (nLeafIndex : UInt32) (outs : List TxOut) : LeafScan :=
  scanPushes nLeafIndex (outs.flatMap pushesOf)

theorem scanOutputs_append (outs : List TxOut) (out : TxOut) :
    (ops out.scriptPubKey).foldl (parseLeafOp nLeafIndex) (scanOutputs nLeafIndex outs) =
      scanOutputs nLeafIndex (outs ++ [out]) := by
  rw [foldl_parseLeafOp, scanOutputs, scanOutputs, flatMap_append, scanPushes, scanPushes,
    foldl_append]
  simp

/-- Outputs that claim nothing are passed over. -/
theorem parseLeafOutputs_of_noClaim (nLeafIndex : UInt32) (pre rest : List TxOut) :
    ∀ done : List TxOut, NoClaim ((done ++ pre).flatMap pushesOf) →
      parseLeafOutputs nLeafIndex (pre ++ rest) (scanOutputs nLeafIndex done) =
        parseLeafOutputs nLeafIndex rest (scanOutputs nLeafIndex (done ++ pre)) := by
  induction pre with
  | nil =>
    intro done _
    simp
  | cons out pre ih =>
    intro done h
    have hnext := ih (done ++ [out]) (by simpa using h)
    have hprefix : NoClaim ((done ++ [out]).flatMap pushesOf) := by
      refine ⟨fun d hd => h.noV2 d ?_, fun a k b he hk d hd => ?_⟩
      · simp only [flatMap_append, flatMap_cons, flatMap_nil, append_nil,
          mem_append] at hd ⊢
        tauto
      · refine h.noV1 a k (b ++ pre.flatMap pushesOf) ?_ hk d (mem_append_left _ hd)
        rw [flatMap_append, flatMap_cons, ← append_assoc, ← cons_append,
          ← append_assoc, ← he]
        simp
    have hfound : (scanOutputs nLeafIndex (done ++ [out])).found = false := by
      rw [scanOutputs, scanPushes_of_noClaim hprefix]
    rw [cons_append, parseLeafOutputs, scanOutputs_append, hfound]
    simpa using hnext

variable (rest : List TxOut)

/-- A leaf is found at the first output that claims one. -/
theorem parseLeafOutputs_found :
    ∀ done : List TxOut, (scanOutputs nLeafIndex done).found = false →
      (parseLeafOutputs nLeafIndex rest (scanOutputs nLeafIndex done)).found = true →
      ∃ pre out post, rest = pre ++ out :: post ∧
        (scanOutputs nLeafIndex (done ++ pre)).found = false ∧
        (scanOutputs nLeafIndex (done ++ pre ++ [out])).found = true := by
  induction rest with
  | nil =>
    intro done hdone h
    rw [parseLeafOutputs, hdone] at h
    cases h
  | cons out rest ih =>
    intro done hdone h
    rw [parseLeafOutputs, scanOutputs_append] at h
    cases hfound : (scanOutputs nLeafIndex (done ++ [out])).found with
    | true => exact ⟨[], out, rest, rfl, by simpa using hdone, by simpa using hfound⟩
    | false =>
      simp only [hfound, false_eq_true, if_false] at h
      obtain ⟨pre, out', post, he, hbefore, hafter⟩ := ih (done ++ [out]) hfound h
      exact ⟨out :: pre, out', post, by simp [he], by simpa using hbefore, by simpa using hafter⟩

/-- A parser that has found nothing has read every output. -/
theorem parseLeafOutputs_not_found :
    ∀ done : List TxOut,
      (parseLeafOutputs nLeafIndex rest (scanOutputs nLeafIndex done)).found = false →
      (scanOutputs nLeafIndex (done ++ rest)).found = false := by
  induction rest with
  | nil =>
    intro done h
    simpa [parseLeafOutputs] using h
  | cons out rest ih =>
    intro done h
    rw [parseLeafOutputs, scanOutputs_append] at h
    cases hfound : (scanOutputs nLeafIndex (done ++ [out])).found with
    | true =>
      simp only [hfound, if_true] at h
      cases h
    | false =>
      simp only [hfound, false_eq_true, if_false] at h
      simpa using ih (done ++ [out]) h

end Fold

variable {vout : List TxOut} {nLeafIndex : UInt32}

/-- The parser ends with the claimed leaf. -/
theorem parseLeafOutputs_of_claimsLeaf {key : Bytes} {leaf : Nat}
    (h : ClaimsLeaf vout nLeafIndex key leaf) :
    parseLeafOutputs nLeafIndex vout {} = ⟨key, leaf, true⟩ ∧ key.length = 64 := by
  obtain ⟨pre, out, post, he, hpre, hclaim⟩ := h
  obtain ⟨hstate, hlen⟩ := scanPushes_of_leafClaim hpre hclaim
  have hout : scanOutputs nLeafIndex (pre ++ [out]) = ⟨key, leaf, true⟩ := by
    rw [← hstate, scanOutputs]
    simp
  refine ⟨?_, hlen⟩
  have hskip := parseLeafOutputs_of_noClaim nLeafIndex pre (out :: post) [] hpre
  rw [he, show ({} : LeafScan) = scanOutputs nLeafIndex [] from rfl, hskip, nil_append,
    parseLeafOutputs, scanOutputs_append, hout]
  rfl

/-- A leaf that the parser found is claimed. -/
theorem claimsLeaf_of_found (h : (parseLeafOutputs nLeafIndex vout {}).found = true) :
    ∃ key leaf, ClaimsLeaf vout nLeafIndex key leaf := by
  obtain ⟨pre, out, post, he, hbefore, hafter⟩ := parseLeafOutputs_found vout [] rfl h
  rw [nil_append] at hbefore hafter
  have hpre := noClaim_of_scanPushes hbefore
  rw [scanOutputs, flatMap_append, flatMap_cons, flatMap_nil,
    append_nil] at hafter
  obtain ⟨key, leaf, hclaim⟩ := leafClaim_of_scanPushes hpre hafter
  exact ⟨key, leaf, pre, out, post, he, hpre, hclaim⟩

/-- `ParseCoinbasePoUWLeaf` returns a leaf exactly when the coinbase claims it. -/
theorem parseCoinbasePoUWLeaf_eq_some_iff (cb : Transaction) (nLeafIndex : UInt32)
    (key : Bytes) (leaf : Nat) :
    parseCoinbasePoUWLeaf cb nLeafIndex = some (key, leaf) ↔
      ClaimsLeaf cb.vout nLeafIndex key leaf := by
  constructor
  · intro h
    simp only [parseCoinbasePoUWLeaf] at h
    split at h
    · rename_i hcond
      obtain ⟨key', leaf', hclaim⟩ := claimsLeaf_of_found hcond.2
      have hstate := (parseLeafOutputs_of_claimsLeaf hclaim).1
      rw [hstate] at h
      simp only [some.injEq, Prod.mk.injEq] at h
      rw [← h.1, ← h.2]
      exact hclaim
    · cases h
  · intro h
    obtain ⟨hstate, hlen⟩ := parseLeafOutputs_of_claimsLeaf h
    simp [parseCoinbasePoUWLeaf, hstate, hlen]

/-! ### A block with a v2 proof -/

/-- The push that `CheckPoUW` reads is one of the pushes of the output. -/
theorem opReturnPush_mem {out : TxOut} {d : Bytes} (h : opReturnPush out.scriptPubKey = some d) :
    d ∈ pushesOf out := by
  cases hs : out.scriptPubKey with
  | nil => simp [hs, opReturnPush] at h
  | cons op rest =>
    simp only [hs, opReturnPush] at h
    split at h
    · rename_i hop
      obtain ⟨first, hfirst, hd⟩ := map_eq_some_iff.mp h
      have hread : getScriptOp (op :: rest) = some ⟨op, [], rest⟩ := by
        rw [hop]
        rfl
      rw [pushesOf, hs, (ops_eq hread).1, (ops_eq hfirst).1]
      simp [hd]
    · cases h

/-- A coinbase with a v2 proof claims some leaf. -/
theorem exists_claimsLeaf_of_scanProof {params : Params} {proof : PoUWv2Proof} {xmss_pk pk : Bytes}
    (nLeafIndex : UInt32) (h : scanProof params vout xmss_pk = .ok (some proof, pk)) :
    ∃ key leaf, ClaimsLeaf vout nLeafIndex key leaf := by
  obtain ⟨out, hout, data, hpush, hdes⟩ := scanProof_some h
  obtain ⟨hlen, hmagic⟩ := PoUWv2Proof.of_deserialize hdes
  have hv2 : IsV2Push data := ⟨Nat.le_trans (by decide) hlen, hmagic⟩
  have hmem : data ∈ vout.flatMap pushesOf :=
    mem_flatMap.mpr ⟨out, hout, opReturnPush_mem hpush⟩
  -- Otherwise the parser reads every output, and none of them holds a v2 push.
  apply claimsLeaf_of_found
  by_contra hnot
  rw [not_eq_true] at hnot
  have hall := noClaim_of_scanPushes (parseLeafOutputs_not_found vout [] hnot)
  exact hall.noV2 data (by simpa using hmem) hv2

/-- For a block whose v2 proof `CheckPoUW` accepts, `ParseCoinbasePoUWLeaf` returns the
verified leaf exactly when the coinbase claims no other leaf first. -/
theorem parseCoinbasePoUWLeaf_eq_proof_iff (c : Crypto) (params : Params) (leafDB : LeafTable)
    (block : Block) (nHeight : Int) (proof : PoUWv2Proof) (coinbase : Transaction)
    (hhead : block.vtx.head? = some coinbase)
    (hok : checkPoUW c params leafDB block nHeight = .ok (.v2 proof)) :
    parseCoinbasePoUWLeaf coinbase block.nLeafIndex =
        some (proof.xmss_pk.data, block.nLeafIndex.toNat) ↔
      ∀ key leaf, ClaimsLeaf coinbase.vout block.nLeafIndex key leaf →
        key = proof.xmss_pk.data ∧ leaf = block.nLeafIndex.toNat := by
  obtain ⟨coinbase', hacc⟩ := checkPoUW_v2_iff.mp hok
  obtain rfl : coinbase = coinbase' := some.inj (hhead.symm.trans hacc.coinbase_head)
  constructor
  · intro h key leaf hclaim
    have hsame := (parseCoinbasePoUWLeaf_eq_some_iff _ _ _ _).mpr hclaim
    rw [h] at hsame
    simp only [some.injEq, Prod.mk.injEq] at hsame
    exact ⟨hsame.1.symm, hsame.2.symm⟩
  · intro h
    obtain ⟨pk, hscan⟩ := hacc.scanned
    obtain ⟨key, leaf, hclaim⟩ := exists_claimsLeaf_of_scanProof block.nLeafIndex hscan
    obtain ⟨rfl, rfl⟩ := h key leaf hclaim
    exact (parseCoinbasePoUWLeaf_eq_some_iff _ _ _ _).mpr hclaim

/-- A block whose coinbase holds the proof and nothing else. -/
def plainBlock : Block :=
  sampleBlock 1 nullHash 1 7 (Blob.zero 64) [] []

/-- The proof of that block. -/
def plainProof : PoUWv2Proof :=
  sampleBlockProof plainBlock 1 (Blob.zero 64)

/-- The hypotheses hold of a plain block. Its proof output claims the verified leaf. -/
theorem parseCoinbasePoUWLeaf_plainBlock :
    ∃ coinbase, plainBlock.vtx.head? = some coinbase ∧
      checkPoUW sampleCrypto sampleParams (fun _ => none) plainBlock 1 = .ok (.v2 plainProof) ∧
      (parseCoinbasePoUWLeaf coinbase plainBlock.nLeafIndex =
          some (plainProof.xmss_pk.data, plainBlock.nLeafIndex.toNat) ↔
        ∀ key leaf, ClaimsLeaf coinbase.vout plainBlock.nLeafIndex key leaf →
          key = plainProof.xmss_pk.data ∧ leaf = plainBlock.nLeafIndex.toNat) := by
  have hok : checkPoUW sampleCrypto sampleParams (fun _ => none) plainBlock 1 =
      .ok (.v2 plainProof) := by
    decide +kernel
  obtain ⟨coinbase, hacc⟩ := checkPoUW_v2_iff.mp hok
  exact ⟨coinbase, hacc.coinbase_head, hok,
    parseCoinbasePoUWLeaf_eq_proof_iff _ _ _ _ _ _ _ hacc.coinbase_head hok⟩

/-- An output that pushes the magic and another key, without `OP_RETURN`. -/
def decoyOutput : TxOut where
  nValue := 0
  scriptPubKey := pushBytes (POUW_MAGIC ++ List.replicate 64 0x11)

/-- A block whose coinbase starts with such an output. -/
def decoyBlock : Block :=
  sampleBlock 1 nullHash 1 7 (Blob.zero 64) [decoyOutput] []

/-- `CheckPoUW` accepts the block for one key, and the parser returns the other key. -/
theorem parseCoinbasePoUWLeaf_decoyBlock :
    checkPoUW sampleCrypto sampleParams (fun _ => none) decoyBlock 1 =
        .ok (.v2 (sampleBlockProof decoyBlock 1 (Blob.zero 64))) ∧
      decoyBlock.vtx.head?.map (fun cb => parseCoinbasePoUWLeaf cb decoyBlock.nLeafIndex) =
        some (some (List.replicate 64 0x11, 7)) ∧
      List.replicate 64 0x11 ≠ (sampleBlockProof decoyBlock 1 (Blob.zero 64)).xmss_pk.data := by
  decide +kernel

end AssentianPQE
