import AssentianPQE.Proofs.BlockSize
import AssentianPQE.Sample

/-!
# `AssentianPQE.Proofs.HeaderRoot`: the root in the header and the root that signed

`CheckBlockHeader` and `HasValidProofOfWork` test the header field `xmssRoot`. `CheckPoUW`
tests the root of the key in the coinbase. No check compares the two: nothing but
`CheckBlockHeader` and the block hash reads `xmssRoot`.

So a block that passes with one root passes with every root that `CheckBlockHeader` lets
through, and it always lets the null root through (`checkBlock_withRoot_iff`).
`xmssRoot_eq_getRoot_iff` draws the conclusion: the checks force the root of the proof into
the header only where the proof has the null root and no other root meets `nBits`.
-/

set_option autoImplicit false

namespace AssentianPQE

open Lib

/-- The block with another root in its header. -/
def Block.withRoot (block : Block) (r : Uint256) : Block :=
  { block with xmssRoot := r }

section

variable {c : Crypto} {params : Params} {block : Block}

theorem checkBlockTxs_withRoot (r : Uint256) :
    checkBlockTxs (block.withRoot r) = checkBlockTxs block := by
  have hlen : (block.withRoot r).serializeNoWitness.length = block.serializeNoWitness.length := by
    simp only [Block.serializeNoWitness, List.length_append, BlockHeader.length_serialize]
    rfl
  unfold checkBlockTxs
  rw [hlen]
  rfl

/-- A block that is not the genesis block and passes `CheckBlock` passes it with another root
exactly when `CheckBlockHeader` accepts that root. -/
theorem checkBlock_withRoot_iff (hok : checkBlock c params block true true = .ok ())
    (hgenesis : params.signet_blocks = true → block.getHash c ≠ params.hashGenesisBlock)
    (r : Uint256) :
    checkBlock c params (block.withRoot r) true true = .ok () ↔
      r = nullHash ∨ checkProofOfWork params r block.nBits = true := by
  obtain ⟨-, hsignet, hmerkle, htxs⟩ := checkBlock_ok_iff.mp hok
  constructor
  · intro h
    exact (checkBlock_ok_iff.mp h).1
  intro h
  refine checkBlock_ok_iff.mpr ⟨h, fun hs => ?_, hmerkle, by rw [checkBlockTxs_withRoot, htxs]⟩
  -- The solution was not excused by the block hash, and it does not depend on the root.
  have hsolved : signetSolved c params block = true := by
    simpa [checkSignetBlockSolution, hgenesis hs] using hsignet hs
  exact Bool.or_eq_true_iff.mpr (.inr hsolved)

end

/-- The checks on a block and its proof force the header to carry the root of the proof exactly
where that root is null and `CheckProofOfWork` accepts no other root for `nBits`. -/
theorem xmssRoot_eq_getRoot_iff (c : Crypto) (params : Params) (leafDB : LeafTable)
    (block : Block) (nHeight : Int) (proof : PoUWv2Proof)
    (hok : checkBlock c params block true true = .ok ())
    (hpouw : checkPoUW c params leafDB block nHeight = .ok (.v2 proof))
    (hgenesis : params.signet_blocks = true → block.getHash c ≠ params.hashGenesisBlock) :
    (∀ r, checkBlock c params (block.withRoot r) true true = .ok () →
        checkPoUW c params leafDB (block.withRoot r) nHeight = .ok (.v2 proof) →
        (block.withRoot r).xmssRoot = proof.getRoot) ↔
      proof.getRoot = nullHash ∧
        ∀ r, r ≠ nullHash → checkProofOfWork params r block.nBits = false := by
  constructor
  · intro h
    have hnull : nullHash = proof.getRoot :=
      h nullHash ((checkBlock_withRoot_iff hok hgenesis nullHash).mpr (.inl rfl)) hpouw
    refine ⟨hnull.symm, fun r hr => ?_⟩
    by_contra hpow
    rw [Bool.not_eq_false] at hpow
    have hroot : r = proof.getRoot :=
      h r ((checkBlock_withRoot_iff hok hgenesis r).mpr (.inr hpow)) hpouw
    exact hr (hroot.trans hnull.symm)
  · rintro ⟨hnull, hnone⟩ r hr -
    by_contra hne
    have hr0 : r ≠ nullHash := fun he => hne (he.trans hnull.symm)
    rcases (checkBlock_withRoot_iff hok hgenesis r).mp hr with h | h
    · exact hr0 h
    · rw [hnone r hr0] at h
      cases h

/-- A block whose proof has a root other than the null root. -/
def rootedBlock : Block :=
  sampleBlock 1 nullHash 1 7 (Blob.ofNat 64 5) [] []

/-- The proof of that block. -/
def rootedProof : PoUWv2Proof :=
  sampleBlockProof rootedBlock 1 (Blob.ofNat 64 5)

/-- The hypotheses hold of a plain block. -/
theorem xmssRoot_eq_getRoot_rootedBlock :
    checkBlock sampleCrypto sampleParams rootedBlock true true = .ok () ∧
      checkPoUW sampleCrypto sampleParams (fun _ => none) rootedBlock 1 = .ok (.v2 rootedProof) ∧
      ((∀ r, checkBlock sampleCrypto sampleParams (rootedBlock.withRoot r) true true = .ok () →
          checkPoUW sampleCrypto sampleParams (fun _ => none) (rootedBlock.withRoot r) 1 =
            .ok (.v2 rootedProof) →
          (rootedBlock.withRoot r).xmssRoot = rootedProof.getRoot) ↔
        rootedProof.getRoot = nullHash ∧
          ∀ r, r ≠ nullHash → checkProofOfWork sampleParams r rootedBlock.nBits = false) := by
  have hok : checkBlock sampleCrypto sampleParams rootedBlock true true = .ok () := by
    decide +kernel
  have hpouw : checkPoUW sampleCrypto sampleParams (fun _ => none) rootedBlock 1 =
      .ok (.v2 rootedProof) := by
    decide +kernel
  exact ⟨hok, hpouw, xmssRoot_eq_getRoot_iff _ _ _ _ _ _ hok hpouw nofun⟩

/-- The block passes both checks with the null root in its header, and its proof has another
root. `HasValidProofOfWork` accepts the header too. -/
theorem rootedBlock_withRoot_null :
    sampleParams.nPoUWv2StartHeight ≤ 1 ∧
      checkBlock sampleCrypto sampleParams (rootedBlock.withRoot nullHash) true true = .ok () ∧
      checkPoUW sampleCrypto sampleParams (fun _ => none) (rootedBlock.withRoot nullHash) 1 =
        .ok (.v2 rootedProof) ∧
      hasValidProofOfWork sampleParams [(rootedBlock.withRoot nullHash).header] = true ∧
      (rootedBlock.withRoot nullHash).xmssRoot ≠ rootedProof.getRoot := by
  decide +kernel

end AssentianPQE
