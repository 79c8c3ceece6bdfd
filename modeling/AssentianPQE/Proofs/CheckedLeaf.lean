import AssentianPQE.Validation.Block

/-!
# The leaf that `CheckPoUW` looks up

`CheckPoUW` reads one entry of the leaf table: that of `checkedLeaf`, the leaf of the proof
in the coinbase. `checkedLeaf_fresh` says that it accepts only a leaf that is not there, and
`checkPoUW_congr` that nothing else in the table matters.
-/

set_option autoImplicit false

namespace AssentianPQE

open Lib Option

variable {params : Params} {block : Block} {c : Crypto} {leafDB : LeafTable} {nHeight : Int}

/-- The leaf of the v2 proof of a block: the key in the proof and the index in the header. -/
def v2Leaf (params : Params) (block : Block) : Option (Bytes × Nat) :=
  match (block.vtx.head?.map Transaction.vout).map fun vout => scanProof params vout [] with
  | some (.ok (some proof, _)) => some (proof.xmss_pk.data, block.nLeafIndex.toNat)
  | _ => none

/-- The leaf that `CheckPoUW` looks up in the table, where a proof is required. -/
def checkedLeaf (params : Params) (block : Block) : Option (Bytes × Nat) :=
  match block.vtx.head? with
  | none => none
  | some coinbase =>
    match scanProof params coinbase.vout [] with
    | .error _ => none
    | .ok (some proof, _) => some (proof.xmss_pk.data, block.nLeafIndex.toNat)
    | .ok (none, xmss_pk) => (v1Signature coinbase.vout).map fun s => (xmss_pk, leafIndexOf s.1)

theorem checkedLeaf_of_v2Leaf {leaf : Bytes × Nat} (h : v2Leaf params block = some leaf) :
    checkedLeaf params block = some leaf := by
  unfold v2Leaf at h
  unfold checkedLeaf
  cases hcb : block.vtx.head? with
  | none => simp [hcb] at h
  | some coinbase =>
    cases hscan : scanProof params coinbase.vout [] with
    | error e => simp [hcb, hscan] at h
    | ok p =>
      obtain ⟨proof, pk⟩ := p
      cases proof with
      | none => simp [hcb, hscan] at h
      | some proof => simpa [hcb, hscan] using h

/-- The v1 branch accepts only a leaf that is not in the table. -/
theorem v1_leaf_fresh {coinbase : Transaction} {xmss_pk : Bytes} {leaf : Nat}
    (h : checkPoUWv1Branch c params leafDB block coinbase nHeight xmss_pk = .ok leaf)
    (hact : params.nPoUWLeafReuseActivation ≤ nHeight) :
    ∃ s, v1Signature coinbase.vout = some s ∧
      leafDB (makePoUWLeafKey c xmss_pk (leafIndexOf s.1)) = none := by
  unfold checkPoUWv1Branch at h
  split at h
  · cases h
  rename_i sig i hsig
  refine ⟨(sig, i), hsig, ?_⟩
  simp only at h
  split at h
  · cases h
  split at h
  · cases h
  split at h
  · cases h
  · rename_i hreuse
    push Not at hreuse
    simpa using hreuse hact

/-- A block that `CheckPoUW` accepts at a height with required proofs has a leaf that is not in
the table. -/
theorem checkedLeaf_fresh {v : PoUWVerdict} {leaf : Bytes × Nat}
    (h : checkPoUW c params leafDB block nHeight = .ok v) (hpouw : params.fPoUW = true)
    (hpos : 0 ≤ nHeight) (hstart : params.nPoUWStartHeight ≤ nHeight)
    (hact : params.nPoUWLeafReuseActivation ≤ nHeight)
    (hleaf : checkedLeaf params block = some leaf) :
    leafDB (makePoUWLeafKey c leaf.1 leaf.2) = none := by
  unfold checkPoUW at h
  rw [hpouw, if_neg (by decide), if_neg (by omega), if_neg (by omega)] at h
  unfold checkedLeaf at hleaf
  split at h
  · cases h
  rename_i coinbase txs hvtx
  simp only [hvtx, List.head?_cons] at hleaf
  split at h
  · cases h
  cases hscan : scanProof params coinbase.vout [] with
  | error e => simp [hscan] at h
  | ok p =>
    obtain ⟨proof, pk⟩ := p
    cases proof with
    | some proof =>
      simp only [hscan, some.injEq] at hleaf h
      cases hbranch : checkPoUWv2Branch c params leafDB block coinbase nHeight proof with
      | error e => simp [hbranch, Except.map] at h
      | ok u =>
        rw [← hleaf]
        exact (checkPoUWv2Branch_ok_iff.mp hbranch).2.2.1 hact
    | none =>
      simp only [hscan] at hleaf h
      split at h
      · cases h
      split at h
      · cases h
      cases hbranch : checkPoUWv1Branch c params leafDB block coinbase nHeight pk with
      | error e => simp [hbranch, Except.map] at h
      | ok l =>
        obtain ⟨s, hs, hfresh⟩ := v1_leaf_fresh hbranch hact
        rw [hs, map_some, some.injEq] at hleaf
        rw [← hleaf]
        exact hfresh

/-- The key under which a leaf is recorded. -/
def leafKey (c : Crypto) (leaf : Bytes × Nat) : Uint256 :=
  makePoUWLeafKey c leaf.1 leaf.2

/-! ### Dependence on the table -/

theorem isSome_congr {α : Type} {x y : Option α} (h : x = none ↔ y = none) :
    x.isSome = y.isSome := by
  cases x <;> cases y <;> simp_all

/-- Two tables that agree on the checked leaf lead to the same verdict. -/
theorem checkPoUW_congr {leafDB' : LeafTable}
    (h : params.nPoUWLeafReuseActivation ≤ nHeight → ∀ leaf, checkedLeaf params block = some leaf →
      (leafDB (leafKey c leaf) = none ↔ leafDB' (leafKey c leaf) = none)) :
    checkPoUW c params leafDB block nHeight = checkPoUW c params leafDB' block nHeight := by
  by_cases hact : params.nPoUWLeafReuseActivation ≤ nHeight
  · have hleaf := h hact
    unfold checkedLeaf at hleaf
    unfold checkPoUW
    cases hvtx : block.vtx with
    | nil => rfl
    | cons coinbase txs =>
      rw [hvtx, List.head?_cons] at hleaf
      cases hscan : scanProof params coinbase.vout [] with
      | error e => simp only [hscan]
      | ok p =>
        obtain ⟨proof, pk⟩ := p
        cases proof with
        | some proof =>
          have hsame := isSome_congr (hleaf (proof.xmss_pk.data, block.nLeafIndex.toNat)
            (by simp only [hscan]))
          simp only [leafKey] at hsame
          simp only [hscan, checkPoUWv2Branch, hsame]
        | none =>
          cases hsig : v1Signature coinbase.vout with
          | none => simp only [hscan, checkPoUWv1Branch, hsig]
          | some s =>
            have hsame := isSome_congr (hleaf (pk, leafIndexOf s.1)
              (by simp only [hscan, hsig, map_some]))
            simp only [leafKey] at hsame
            simp only [hscan, checkPoUWv1Branch, hsig, hsame]
  · -- Below the activation height the table is not read.
    unfold checkPoUW checkPoUWv2Branch checkPoUWv1Branch
    simp only [hact, false_and, if_false]

end AssentianPQE
