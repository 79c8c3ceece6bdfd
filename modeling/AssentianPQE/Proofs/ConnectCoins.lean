import AssentianPQE.Proofs.LeafTables

/-!
# The part of `ConnectBlock` on the coins

The loop of `ConnectBlock` does three things at once: it tests the transactions, it moves
coins, and it collects leaf uses. Here the last two are stated on their own, as functions of
the block and the coins before it.

* `connectCoins_effect`: the coins and the undo data after a block are those of `applyTxs`,
  and the leaf uses are `blockLeafUses`.
* `connectCoins_parallel`: running the scripts in threads does not change what is accepted.
-/

set_option autoImplicit false

namespace AssentianPQE

open Lib List Captured

variable {ctx : ConnectContext} {st : ConnectState} {tx : Transaction} {nFees : Int}
  {nSigOpsCost : Nat} {view : CoinsView} {r : Connected}

/-! ### The effect of the loop -/

/-- The coins that a transaction spends, as `UpdateCoins` records them. -/
def undoCoins (view : CoinsView) (tx : Transaction) : List Coin :=
  if tx.isCoinBase then [] else spentCoins view tx

/-- The effect of transactions on the coins: the new view, and for each transaction the coins
that it has spent. -/
def applyTxs (c : Crypto) (nHeight : Nat) :
    List Transaction → CoinsView → Option (CoinsView × List (List Coin))
  | [], view => some (view, [])
  | tx :: rest, view =>
    (updateCoins c view tx nHeight).bind fun view' =>
      (applyTxs c nHeight rest view').map fun p => (p.1, undoCoins view tx :: p.2)

/-- The leaf uses of transactions, each one on the coins that those before it have left. -/
def blockLeafUses (ctx : ConnectContext) : List Transaction → CoinsView → XMSSLeafUses
  | [], _ => []
  | tx :: rest, view =>
    txLeafUses ctx view tx ++
      (updateCoins ctx.crypto view tx ctx.nHeight).elim [] (blockLeafUses ctx rest)

/-- One turn of the loop succeeds when the tests pass and no coin is overwritten. -/
theorem connectTx_ok_iff {st' : ConnectState} :
    connectTx ctx st tx = .ok st' ↔
      ∃ nFees nSigOpsCost queueOk view, checkTx ctx st tx = .ok (nFees, nSigOpsCost, queueOk) ∧
        updateCoins ctx.crypto st.view tx ctx.nHeight = some view ∧
        st' = { view := view, nFees := nFees, nSigOpsCost := nSigOpsCost
                vtxundo := st.vtxundo ++ [undoCoins st.view tx]
                uses := st.uses ++ txLeafUses ctx st.view tx
                queueOk := queueOk } := by
  unfold connectTx
  cases hcheck : checkTx ctx st tx with
  | error reason => simp
  | ok p =>
    obtain ⟨nFees, nSigOpsCost, queueOk⟩ := p
    cases hcoins : updateCoins ctx.crypto st.view tx ctx.nHeight with
    | none => simp
    | some view =>
      simp only [Except.ok.injEq, Prod.mk.injEq, Option.some.injEq]
      constructor
      · rintro rfl
        exact ⟨nFees, nSigOpsCost, queueOk, view, ⟨rfl, rfl, rfl⟩, rfl, rfl⟩
      · rintro ⟨_, _, _, _, ⟨rfl, rfl, rfl⟩, rfl, rfl⟩
        rfl

/-- One turn of the loop keeps a failure of the queue. -/
theorem queueOk_of_checkTx (h : checkTx ctx st tx = .ok (nFees, nSigOpsCost, true)) :
    st.queueOk = true := by
  unfold checkTx at h
  split at h
  · cases h
  simp only at h
  split at h
  · cases h
  · split at h
    · cases h
    · simp only [Except.ok.injEq, Prod.mk.injEq, Bool.and_eq_true] at h
      exact h.2.2.1

/-- What the whole loop does to the coins and collects. -/
theorem connectTxs_effect :
    ∀ {txs : List Transaction} {st st' : ConnectState}, connectTxs ctx txs st = .ok st' →
      (∃ undo, applyTxs ctx.crypto ctx.nHeight txs st.view = some (st'.view, undo) ∧
        st'.vtxundo = st.vtxundo ++ undo) ∧
      st'.uses = st.uses ++ blockLeafUses ctx txs st.view ∧
      (st'.queueOk = true → st.queueOk = true) := by
  intro txs
  induction txs with
  | nil =>
    intro st st' h
    cases h
    simp [applyTxs, blockLeafUses]
  | cons tx rest ih =>
    intro st st' h
    unfold connectTxs at h
    split at h
    · cases h
    rename_i st₁ hone
    obtain ⟨nFees, nSigOpsCost, queueOk, view, hcheck, hcoins, rfl⟩ := connectTx_ok_iff.mp hone
    obtain ⟨⟨undo, happly, hundo⟩, huses, hqueue⟩ := ih h
    refine ⟨⟨undoCoins st.view tx :: undo, ?_, ?_⟩, ?_, fun hok => ?_⟩
    · simp [applyTxs, hcoins, happly]
    · rw [hundo]
      simp
    · rw [huses]
      simp [blockLeafUses, hcoins]
    · have htrue : queueOk = true := hqueue hok
      rw [htrue] at hcheck
      exact queueOk_of_checkTx hcheck

/-- `connectCoins` accepts when the outputs are new, the loop succeeds, the coinbase takes no
more than the reward and every queued script passes. -/
theorem connectCoins_ok_iff :
    connectCoins ctx view = .ok r ↔
      ¬ (enforceBIP30 ctx.crypto ctx.params ctx.prev ctx.hash ∧
        overwrites ctx.crypto view ctx.block ctx.nHeight) ∧
      ∃ st, connectTxs ctx ctx.block.vtx { view := view } = .ok st ∧
        (ctx.block.vtx.head?.map getValueOut).getD 0 ≤
          st.nFees + getBlockSubsidy ctx.params ctx.nHeight ∧
        st.queueOk = true ∧ r = ⟨st.view, st.vtxundo.drop 1, st.uses⟩ := by
  unfold connectCoins
  split
  · rename_i h
    exact ⟨nofun, fun he => absurd h he.1⟩
  rename_i h
  cases htxs : connectTxs ctx ctx.block.vtx { view := view } with
  | error e => simp
  | ok st =>
    simp only [h, not_false_eq_true, true_and, Except.ok.injEq, exists_eq_left']
    split
    · rename_i hreward
      exact ⟨nofun, fun he => absurd hreward (Int.not_lt.mpr he.1)⟩
    rename_i hreward
    split
    · rename_i hqueue
      refine ⟨nofun, fun he => ?_⟩
      rw [he.2.1] at hqueue
      cases hqueue
    · rename_i hqueue
      simp only [Except.ok.injEq]
      exact ⟨fun he => ⟨Int.not_lt.mp hreward, by simpa using hqueue, he.symm⟩,
        fun he => he.2.2.symm⟩

/-- The coins, the undo data and the leaf uses after a block are functions of the block and
the coins before it. -/
theorem connectCoins_effect (h : connectCoins ctx view = .ok r) :
    (∃ undo, applyTxs ctx.crypto ctx.nHeight ctx.block.vtx view = some (r.view, undo) ∧
      r.vtxundo = undo.drop 1) ∧
    r.uses = blockLeafUses ctx ctx.block.vtx view := by
  obtain ⟨-, st, htxs, -, -, rfl⟩ := connectCoins_ok_iff.mp h
  obtain ⟨⟨undo, happly, hundo⟩, huses, -⟩ := connectTxs_effect htxs
  refine ⟨⟨undo, happly, ?_⟩, ?_⟩
  · show st.vtxundo.drop 1 = undo.drop 1
    rw [hundo, nil_append]
  · show st.uses = _
    rw [huses, nil_append]

/-! ### Threads -/

theorem Captured.isOk_iff {α : Type} {x : Captured α} :
    x.isOk = true ↔ ∃ a, x.result = .ok a := by
  unfold Captured.isOk
  cases x.result <;> simp

/-- No script check has a reject reason exactly when all of them pass. -/
theorem scriptFailures_none_iff {c : Crypto} {params : Params} {flags : ScriptFlags} :
    (∀ x ∈ scriptFailures c params flags view tx, x = none) ↔
      ∀ check ∈ scriptChecks c params flags view tx, check.isOk = true := by
  unfold scriptFailures
  constructor
  · intro h check hmem
    obtain ⟨j, hj, rfl⟩ := getElem_of_mem hmem
    have hslot := h _ (mem_mapIdx.mpr ⟨j, hj, rfl⟩)
    rw [isOk_iff]
    cases hres : ((scriptChecks c params flags view tx)[j]).result with
    | ok a => exact ⟨a, rfl⟩
    | error e => simp [hres] at hslot
  · intro h x hx
    obtain ⟨j, hj, rfl⟩ := mem_mapIdx.mp hx
    obtain ⟨a, ha⟩ := isOk_iff.mp (h _ (getElem_mem hj))
    simp [ha]

/-- `CheckInputScripts` run inline accepts exactly when every script check does. -/
theorem checkInputScripts_ok_iff {c : Crypto} {params : Params} {flags : ScriptFlags} :
    checkInputScripts c params flags view tx = .ok () ↔
      (scriptChecks c params flags view tx).all Captured.isOk = true := by
  rw [all_eq_true, ← scriptFailures_none_iff]
  unfold checkInputScripts
  cases hfind : (scriptFailures c params flags view tx).findSome? id with
  | none =>
    refine ⟨fun _ x hx => ?_, fun _ => rfl⟩
    exact findSome?_eq_none_iff.mp hfind x hx
  | some reason =>
    refine ⟨nofun, fun h => ?_⟩
    have hnone : (scriptFailures c params flags view tx).findSome? id = none :=
      findSome?_eq_none_iff.mpr h
    rw [hnone] at hfind
    cases hfind

/-- Whether the scripts of a transaction pass, in whatever order they are run. -/
def scriptsPass (ctx : ConnectContext) (view : CoinsView) (tx : Transaction) : Bool :=
  tx.isCoinBase || !ctx.fScriptChecks ||
    (scriptChecks ctx.crypto ctx.params ctx.flags view tx).all Captured.isOk

/-- The verdict on the scripts is positive exactly when they pass. -/
theorem checkScripts_ok_true_iff :
    checkScripts ctx view tx = .ok true ↔ scriptsPass ctx view tx = true := by
  unfold checkScripts scriptsPass
  cases hcb : tx.isCoinBase with
  | true => simp
  | false =>
    cases hs : ctx.fScriptChecks with
    | false => simp
    | true =>
      cases hp : ctx.parallel with
      | true => simp
      | false =>
        have hiff : checkInputScripts ctx.crypto ctx.params ctx.flags view tx = .ok () ↔
            (scriptChecks ctx.crypto ctx.params ctx.flags view tx).all Captured.isOk = true :=
          checkInputScripts_ok_iff
        cases hc : checkInputScripts ctx.crypto ctx.params ctx.flags view tx with
        | ok u => simpa [hc, Except.map] using hiff
        | error e => simpa [hc, Except.map] using hiff

/-- The tests on a transaction with a positive verdict. Where the scripts are run differently and
pass, the other tests have the same result. -/
theorem checkTx_scripts (h : checkTx ctx st tx = .ok (nFees, nSigOpsCost, true)) :
    scriptsPass ctx st.view tx = true ∧
      ∀ s p, scriptsPass { ctx with fScriptChecks := s, parallel := p } st.view tx = true →
        checkTx { ctx with fScriptChecks := s, parallel := p } st tx =
          .ok (nFees, nSigOpsCost, true) := by
  unfold checkTx at h
  split at h
  · cases h
  rename_i fees hfees
  simp only at h
  split at h
  · cases h
  rename_i hsig
  split at h
  · cases h
  rename_i ok hok
  simp only [Except.ok.injEq, Prod.mk.injEq, Bool.and_eq_true] at h
  obtain ⟨rfl, rfl, hqueue, rfl⟩ := h
  refine ⟨checkScripts_ok_true_iff.mp hok, fun s p hpass => ?_⟩
  -- Neither the inputs nor the signature operations depend on how scripts are run.
  have hspend : checkSpend { ctx with fScriptChecks := s, parallel := p } st tx =
      checkSpend ctx st tx := rfl
  have hflags : ({ ctx with fScriptChecks := s, parallel := p } : ConnectContext).flags =
      ctx.flags := rfl
  unfold checkTx
  rw [hspend, hflags, hfees, checkScripts_ok_true_iff.mpr hpass]
  simp only [hsig, if_false, hqueue, Bool.and_self]

/-- The tests on a transaction with a positive verdict do not depend on the threads. -/
theorem checkTx_parallel (p : Bool) (h : checkTx ctx st tx = .ok (nFees, nSigOpsCost, true)) :
    checkTx { ctx with parallel := p } st tx = .ok (nFees, nSigOpsCost, true) := by
  obtain ⟨hpass, hsame⟩ := checkTx_scripts h
  exact hsame ctx.fScriptChecks p hpass

/-- The loop with a positive verdict does not depend on the threads. -/
theorem connectTxs_parallel (p : Bool) :
    ∀ {txs : List Transaction} {st st' : ConnectState}, connectTxs ctx txs st = .ok st' →
      st'.queueOk = true → connectTxs { ctx with parallel := p } txs st = .ok st' := by
  intro txs
  induction txs with
  | nil =>
    intro st st' h _
    exact h
  | cons tx rest ih =>
    intro st st' h hqueue
    unfold connectTxs at h ⊢
    split at h
    · cases h
    rename_i st₁ hone
    obtain ⟨nFees, nSigOpsCost, queueOk, view, hcheck, hcoins, rfl⟩ := connectTx_ok_iff.mp hone
    -- The verdict never turns positive again, so it is positive here.
    have htrue : queueOk = true := (connectTxs_effect h).2.2 hqueue
    rw [htrue] at hcheck h
    have hone' := connectTx_ok_iff.mpr ⟨nFees, nSigOpsCost, true, view, checkTx_parallel p hcheck,
      hcoins, rfl⟩
    rw [hone']
    exact ih h hqueue

/-- Running the scripts in threads does not change what `ConnectBlock` accepts. -/
theorem connectCoins_parallel (p : Bool) (h : connectCoins ctx view = .ok r) :
    connectCoins { ctx with parallel := p } view = .ok r := by
  obtain ⟨hbip, st, htxs, hreward, hqueue, rfl⟩ := connectCoins_ok_iff.mp h
  exact connectCoins_ok_iff.mpr
    ⟨hbip, st, connectTxs_parallel p htxs hqueue, hreward, hqueue, rfl⟩

end AssentianPQE
