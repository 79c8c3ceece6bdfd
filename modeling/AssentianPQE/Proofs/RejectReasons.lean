import AssentianPQE.Proofs.LeafTables
import AssentianPQE.Proofs.MinedBlock

/-!
# `AssentianPQE.Proofs.RejectReasons`: which test has rejected a template

The reject reasons of the tests of `TestBlockValidity` are different, so the reason says which one
has failed. `createNewBlock_leafReuse`: if `CreateNewBlock` throws for a reused leaf, the block got
as far as the leaf test of `ConnectBlock`.
-/

set_option autoImplicit false

namespace AssentianPQE

open Lib Except

variable {tx : Transaction} {view : CoinsView} {ctx : ConnectContext} {st : ConnectState}
  {c : Crypto} {params : Params} {block : Block} {prev : List BlockHeader}

/-! ### Reasons of transactions -/

/-- The failure of the leaf test. -/
def leafReuse : ConnectFailure :=
  .invalid (consensusError "xmss-spend-leaf-reuse")

/-- A result that is not the failure of the leaf test. -/
def OtherReason {α : Type} (r : Except String α) : Prop :=
  r ≠ .error "xmss-spend-leaf-reuse"

theorem otherReason_ok {α : Type} (a : α) : OtherReason (.ok a) :=
  nofun

/-- An error that is passed on. -/
theorem OtherReason.error {α β : Type} {r : Except String α} {reason : String}
    (h : OtherReason r) (hr : r = .error reason) : OtherReason (.error reason : Except String β) := by
  intro heq
  rw [error.inj heq] at hr
  exact h hr

theorem checkOutputValues_reason {vout : List TxOut} {n : Int} :
    OtherReason (checkOutputValues vout n) := by
  induction vout generalizing n with
  | nil => exact otherReason_ok ()
  | cons out rest ih =>
    unfold checkOutputValues
    dsimp only
    repeat' split
    all_goals first | exact ih | simp [OtherReason]

theorem checkTransaction_reason : OtherReason (checkTransaction tx) := by
  unfold checkTransaction
  dsimp only
  repeat' split
  all_goals first
    | simp [OtherReason]; done
    | exact checkOutputValues_reason.error ‹_›

variable {nSpendHeight : Nat}

theorem sumInputs_reason {coins : List Coin} {n : Int} :
    OtherReason (sumInputs nSpendHeight coins n) := by
  induction coins generalizing n with
  | nil => exact otherReason_ok n
  | cons coin rest ih =>
    unfold sumInputs
    dsimp only
    repeat' split
    all_goals first | exact ih | simp [OtherReason]

theorem checkTxInputs_reason : OtherReason (checkTxInputs tx view nSpendHeight) := by
  unfold checkTxInputs
  repeat' split
  all_goals first
    | simp [OtherReason]; done
    | exact sumInputs_reason.error ‹_›

theorem checkSpend_reason :
    OtherReason (checkSpend ctx st tx) := by
  unfold checkSpend
  dsimp only
  repeat' split
  all_goals first
    | simp [OtherReason]; done
    | exact checkTxInputs_reason.error ‹_›

/-- The reason of a script that fails starts with another letter. -/
theorem scriptRejectReason_ne (flags : ScriptFlags) (again : Option (Captured Unit))
    (e : ScriptError) : scriptRejectReason flags again e ≠ "xmss-spend-leaf-reuse" := by
  intro h
  have hfirst := congrArg (fun s => s.toList.head?) h
  unfold scriptRejectReason at hfirst
  split at hfirst <;> simp at hfirst

theorem checkInputScripts_reason {flags : ScriptFlags} :
    OtherReason (checkInputScripts c params flags view tx) := by
  unfold checkInputScripts
  split
  next reason hfirst =>
    intro h
    obtain ⟨failure, hmem, hsome⟩ := List.exists_of_findSome?_eq_some hfirst
    obtain ⟨j, hj, rfl⟩ := List.mem_mapIdx.mp hmem
    rw [id_eq] at hsome
    split at hsome
    · cases hsome
    · cases hsome
      exact scriptRejectReason_ne _ _ _ (error.inj h)
  next => exact otherReason_ok ()

theorem checkScripts_reason :
    OtherReason (checkScripts ctx view tx) := by
  unfold checkScripts
  split
  · exact otherReason_ok true
  split
  · exact otherReason_ok _
  · cases h : checkInputScripts ctx.crypto ctx.params ctx.flags view tx with
    | error reason => exact checkInputScripts_reason.error h
    | ok _ => exact otherReason_ok true

theorem checkTx_reason :
    OtherReason (checkTx ctx st tx) := by
  have hspend : OtherReason (if tx.isCoinBase then .ok st.nFees else checkSpend ctx st tx) := by
    split
    · exact otherReason_ok _
    · exact checkSpend_reason
  unfold checkTx
  split
  next heq => exact hspend.error heq
  next =>
    dsimp only
    split
    · simp [OtherReason]
    split
    next heq => exact checkScripts_reason.error heq
    next => exact otherReason_ok _

variable {txs : List Transaction}

/-- The loop over the transactions. -/
theorem connectTxs_ne_leafReuse : connectTxs ctx txs st ≠ .error leafReuse := by
  induction txs generalizing st with
  | nil => exact nofun
  | cons tx rest ih =>
    have hone : connectTx ctx st tx ≠ .error leafReuse := by
      intro h
      unfold connectTx at h
      split at h
      next reason hreason =>
        have heq : reason = "xmss-spend-leaf-reuse" := by
          simpa [leafReuse, consensusError] using h
        rw [heq] at hreason
        exact checkTx_reason hreason
      next =>
        split at h
        · cases h
        · cases h
    intro h
    unfold connectTxs at h
    split at h
    next e he =>
      rw [error.inj h] at he
      exact hone he
    next => exact ih h

theorem connectCoins_ne_leafReuse :
    connectCoins ctx view ≠ .error leafReuse := by
  intro h
  unfold connectCoins at h
  split at h
  · simp [leafReuse, consensusError] at h
  split at h
  next e he =>
    rw [error.inj h] at he
    exact connectTxs_ne_leafReuse he
  next =>
    dsimp only at h
    split at h
    · simp [leafReuse, consensusError] at h
    split at h
    · simp [leafReuse, consensusError] at h
    · cases h

/-! ### Reasons of blocks -/

variable {e : BlockInvalid}

/-- A block with other witness data than it commits to counts as mutated. -/
theorem result_of_checkWitnessMalleation {expectCommitment : Bool}
    (h : checkWitnessMalleation c block expectCommitment = .error e) : e.result = .mutated := by
  unfold checkWitnessMalleation at h
  dsimp only at h
  repeat' split at h
  all_goals first | (cases h; rfl) | cases h

theorem checkTransactions_reason :
    checkTransactions txs ≠ .error (consensusError "xmss-spend-leaf-reuse") := by
  induction txs with
  | nil => exact nofun
  | cons tx rest ih =>
    intro h
    unfold checkTransactions at h
    split at h
    next reason hreason =>
      have heq : reason = "xmss-spend-leaf-reuse" := by
        simpa [consensusError] using h
      rw [heq] at hreason
      exact checkTransaction_reason hreason
    next => exact ih h

/-- `CheckBlock` without the proof of work and the Merkle root. -/
theorem checkBlock_reason :
    checkBlock c params block false false ≠ .error (consensusError "xmss-spend-leaf-reuse") := by
  intro h
  have htxs : checkBlockTxs block = .error (consensusError "xmss-spend-leaf-reuse") := by
    unfold checkBlock checkBlockHeader at h
    simpa using h
  unfold checkBlockTxs at htxs
  split at htxs
  · simp [consensusError] at htxs
  split at htxs
  · simp [consensusError] at htxs
  split at htxs
  · simp [consensusError] at htxs
  split at htxs
  next e he =>
    rw [error.inj htxs] at he
    exact checkTransactions_reason he
  next =>
    split at htxs
    · simp [consensusError] at htxs
    · cases htxs

theorem contextualCheckBlockHeader_reason {checkpoint : Option Nat} {now : Int}
    {block : BlockHeader} :
    contextualCheckBlockHeader params checkpoint now prev block ≠
      .error (consensusError "xmss-spend-leaf-reuse") := by
  intro h
  unfold contextualCheckBlockHeader at h
  dsimp only at h
  repeat' split at h
  all_goals simp [consensusError] at h

theorem contextualCheckTxs_reason :
    contextualCheckTxs c params prev block ≠ .error (consensusError "xmss-spend-leaf-reuse") := by
  intro h
  unfold contextualCheckTxs at h
  dsimp only at h
  generalize (if deploymentActive params.CSVHeight prev.length then _ else _ : Int) = cutoff at h
  split at h
  · simp [consensusError] at h
  split at h
  · simp [consensusError] at h
  split at h
  next e he =>
    have hmutated := result_of_checkWitnessMalleation he
    rw [error.inj h] at hmutated
    cases hmutated
  next =>
    split at h
    · simp [consensusError] at h
    · cases h

/-- A failure that is passed on from a test with other reasons. -/
theorem invalid_ne_leafReuse {r : Except BlockInvalid Unit}
    (hr : r ≠ .error (consensusError "xmss-spend-leaf-reuse")) (he : r = .error e) :
    ConnectFailure.invalid e ≠ leafReuse := by
  intro heq
  rw [ConnectFailure.invalid.inj heq] at he
  exact hr he

/-- Of the tests of `ConnectBlock`, only the leaf test fails with a reused leaf. -/
theorem connectBlock_leafReuse {parallel : Bool} {db : LeafDB}
    (h : connectBlock ⟨c, params, true, parallel, true, prev, block⟩ db view = .error leafReuse) :
    ∃ r, connectCoins ⟨c, params, true, parallel, true, prev, block⟩ view = .ok r ∧
      checkSpendLeaves c params db.leaf block r.uses ≠ .ok () := by
  unfold connectBlock at h
  split at h
  next e he =>
    -- A mutated block is a fatal error here.
    split at h
    · cases h
    · exact absurd (error.inj h) (invalid_ne_leafReuse checkBlock_reason he)
  next =>
    split at h
    · cases h
    split at h
    · cases h
    split at h
    next e he =>
      rw [error.inj h] at he
      exact absurd he connectCoins_ne_leafReuse
    next r hr =>
      refine ⟨r, hr, fun hok => ?_⟩
      rw [hok] at h
      cases h

/-- `CreateNewBlock` throws for a leaf only if the transactions of its block fail the leaf test. -/
theorem createNewBlock_leafReuse {o : AssemblerOptions} {env : AssemblerEnv} {tip : Tip}
    {pool : Mempool} {scriptPubKeyIn : Script}
    (h : createNewBlock c params o env tip pool scriptPubKeyIn = .error leafReuse) :
    ∃ r, connectCoins ⟨c, params, true, env.parallel, true, tip.chain,
        newBlock c params o env tip pool scriptPubKeyIn⟩ tip.coins = .ok r ∧
      checkSpendLeaves c params tip.db.leaf (newBlock c params o env tip pool scriptPubKeyIn)
        r.uses ≠ .ok () := by
  unfold createNewBlock at h
  dsimp only at h
  generalize newBlock c params o env tip pool scriptPubKeyIn = block at h ⊢
  split at h
  · cases h
  split at h
  next e he =>
    rw [error.inj h] at he
    unfold testBlockValidity at he
    split at he
    next e' hheader =>
      exact absurd (error.inj he)
        (invalid_ne_leafReuse contextualCheckBlockHeader_reason hheader)
    next =>
      split at he
      next e' hblock =>
        exact absurd (error.inj he) (invalid_ne_leafReuse checkBlock_reason hblock)
      next =>
        split at he
        next e' htxs =>
          exact absurd (error.inj he) (invalid_ne_leafReuse contextualCheckTxs_reason htxs)
        next =>
          split at he
          next e' hconnect =>
            rw [error.inj he] at hconnect
            exact connectBlock_leafReuse hconnect
          next => cases he
  next => cases h

end AssentianPQE
