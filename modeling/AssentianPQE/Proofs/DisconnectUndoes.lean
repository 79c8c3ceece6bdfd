import AssentianPQE.Lib.Writes
import AssentianPQE.Proofs.ConnectCoins

/-!
# `DisconnectBlock` undoes `ConnectBlock` on the coins

The coins that a block adds and spends are lists of writes (`Lib.writeAll`). Disconnecting
writes the old values back, from the undo data for the inputs and by erasing the outputs. The
outputs had no coin before: a transaction that is no coinbase may not overwrite one, and for
the coinbase this is the rule of BIP 30.

`disconnectBlock_view` is the result for a block. It needs coins with a height and a script
that can be spent (`Undoable`), which is what a view has when it was built by connecting
blocks above genesis (`connectCoins_undoable`).
-/

set_option autoImplicit false

namespace AssentianPQE

open Lib List TxIn

variable {coins : List (OutPoint × Coin)} {view view' : CoinsView} {st : Undone} {tx : Transaction}
  {fClean lenient : Bool} {txs : List Transaction} {ctx : ConnectContext} {r : Connected}

/-- `ApplyTxInUndo` restores every coin of the view as it is. -/
def Undoable (view : CoinsView) : Prop :=
  ∀ o coin, view o = some coin → coin.nHeight ≠ 0 ∧ isUnspendable coin.out.scriptPubKey = false

theorem Undone.eta (st : Undone) : ⟨st.view, st.fClean⟩ = st := rfl

/-! ### Outputs -/

/-- The outputs that enter the view. -/
def spendable (coins : List (OutPoint × Coin)) : List (OutPoint × Coin) :=
  coins.filter fun p => !isUnspendable p.2.out.scriptPubKey

/-- `AddCoins` writes the spendable outputs. -/
theorem addCoins_eq (h : addCoins view coins = some view') :
    view' = writeAll ((spendable coins).map fun p => (p.1, some p.2)) view := by
  induction coins generalizing view with
  | nil => exact (Option.some.inj h).symm
  | cons p rest ih =>
    obtain ⟨o, coin⟩ := p
    rw [addCoins] at h
    cases hun : isUnspendable coin.out.scriptPubKey with
    | true =>
      rw [hun, if_pos rfl] at h
      rw [spendable, filter_cons_of_neg (by simp [hun])]
      exact ih h
    | false =>
      rw [hun, if_neg Bool.false_ne_true] at h
      split at h
      · cases h
      · rw [spendable, filter_cons_of_pos (by simp [hun]), map_cons, writeAll_cons]
        exact ih h

/-- Outputs of a transaction that is no coinbase overwrite nothing. -/
theorem addCoins_absent (h : addCoins view coins = some view')
    (hcb : ∀ p ∈ coins, p.2.fCoinBase = false) :
    ∀ p ∈ spendable coins, view p.1 = none := by
  induction coins generalizing view with
  | nil => exact nofun
  | cons q rest ih =>
    obtain ⟨o, coin⟩ := q
    have hrest := fun p hp => hcb p (mem_cons_of_mem _ hp)
    rw [addCoins] at h
    cases hun : isUnspendable coin.out.scriptPubKey with
    | true =>
      rw [hun, if_pos rfl] at h
      rw [spendable, filter_cons_of_neg (by simp [hun])]
      exact ih h hrest
    | false =>
      rw [hun, if_neg Bool.false_ne_true] at h
      split at h
      · cases h
      rename_i habs
      rw [hcb (o, coin) mem_cons_self] at habs
      simp only [Bool.not_false, true_and, Option.not_isSome_iff_eq_none] at habs
      rw [spendable, filter_cons_of_pos (by simp [hun])]
      intro p hp
      rcases mem_cons.mp hp with rfl | hp
      · exact habs
      -- The coin was absent after the first one was added, so it is another one.
      have hset : (view.set o (some coin)) p.1 = none := ih h hrest p hp
      have hne : p.1 ≠ o := by
        intro heq
        rw [heq, CoinsView.set, Function.update_self] at hset
        cases hset
      rwa [CoinsView.set, Function.update_of_ne hne] at hset

/-- `DisconnectBlock` erases the spendable outputs. -/
theorem removeOutputs_view (lenient : Bool) (coins : List (OutPoint × Coin)) (st : Undone) :
    (removeOutputs lenient st coins).view =
      writeAll ((spendable coins).map fun p => (p.1, none)) st.view := by
  induction coins generalizing st with
  | nil => rfl
  | cons p rest ih =>
    unfold removeOutputs at ih ⊢
    rw [foldl_cons, ih]
    cases hun : isUnspendable p.2.out.scriptPubKey with
    | true => rw [if_pos rfl, spendable, spendable, filter_cons_of_neg (by simp [hun])]
    | false =>
      rw [if_neg Bool.false_ne_true, spendable, spendable,
        filter_cons_of_pos (by simp [hun]), map_cons, writeAll_cons]
      rfl

/-- Erasing outputs that were absent before they were added. -/
theorem removeOutputs_addCoins (h : addCoins view coins = some view')
    (habs : ∀ p ∈ spendable coins, view p.1 = none) (lenient fClean : Bool) :
    (removeOutputs lenient ⟨view', fClean⟩ coins).view = view := by
  rw [removeOutputs_view, addCoins_eq h]
  refine writeAll_restores (fun w hw => ?_) fun o ho => writeAll_of_not_mem ?_
  · obtain ⟨p, hp, rfl⟩ := mem_map.mp hw
    exact (habs p hp).symm
  · rw [map_map] at ho ⊢
    exact ho

/-! ### Inputs -/

/-- `UpdateCoins` erases the inputs. -/
theorem spendInputs_eq (view : CoinsView) (vin : List TxIn) :
    spendInputs view vin = writeAll (vin.map fun i => (i.prevout, none)) view := by
  unfold spendInputs writeAll
  rw [foldl_map]
  rfl

/-- Coins with a height and a spendable script are restored as they are. -/
theorem restoreInputs_view {ps : List (OutPoint × Coin)} {st' : Undone}
    (hps : ∀ p ∈ ps, p.2.nHeight ≠ 0 ∧ isUnspendable p.2.out.scriptPubKey = false)
    (h : restoreInputs ps st = some st') :
    st'.view = writeAll (ps.map fun p => (p.1, some p.2)).reverse st.view := by
  induction ps generalizing st' with
  | nil =>
    rw [← Option.some.inj h]
    rfl
  | cons p rest ih =>
    obtain ⟨st₁, hrest, hfirst⟩ := Option.bind_eq_some_iff.mp h
    have hview := ih (fun q hq => hps q (mem_cons_of_mem p hq)) hrest
    obtain ⟨hheight, hspend⟩ := hps p mem_cons_self
    unfold applyTxInUndo at hfirst
    simp only [if_neg hheight, Option.map_some, hspend, Bool.false_eq_true, if_false,
      Option.some.injEq] at hfirst
    rw [← hfirst, map_cons, reverse_cons, writeAll_append, ← hview]
    rfl

/-- The undo data of a transaction whose inputs are all there. -/
theorem mem_zip_spentCoins {vin : List TxIn} (hin : ∀ i ∈ vin, view i.prevout ≠ none) :
    (∀ p ∈ (vin.map prevout).zip (vin.filterMap fun i => view i.prevout),
      view p.1 = some p.2) ∧
    ((vin.map prevout).zip (vin.filterMap fun i => view i.prevout)).map Prod.fst =
      vin.map prevout := by
  induction vin with
  | nil => exact ⟨nofun, rfl⟩
  | cons i rest ih =>
    obtain ⟨hmem, hkeys⟩ := ih fun j hj => hin j (mem_cons_of_mem i hj)
    obtain ⟨coin, hcoin⟩ := Option.ne_none_iff_exists'.mp (hin i mem_cons_self)
    have hcons : (i :: rest).filterMap (fun i => view i.prevout) =
        coin :: rest.filterMap fun i => view i.prevout := filterMap_cons_some hcoin
    rw [hcons, map_cons, zip_cons_cons]
    refine ⟨fun p hp => ?_, by rw [map_cons, hkeys]⟩
    rcases mem_cons.mp hp with rfl | hp
    · exact hcoin
    · exact hmem p hp

/-- Restoring the inputs that were erased. -/
theorem restoreInputs_spendInputs (hview : Undoable view)
    (hin : ∀ i ∈ tx.vin, view i.prevout ≠ none)
    (h : restoreInputs ((tx.vin.map prevout).zip (spentCoins view tx))
      ⟨spendInputs view tx.vin, fClean⟩ = some st) : st.view = view := by
  obtain ⟨hcoins, hkeys⟩ := mem_zip_spentCoins hin
  rw [restoreInputs_view (fun p hp => hview p.1 p.2 (hcoins p hp)) h, spendInputs_eq]
  refine writeAll_restores (fun w hw => ?_) fun o ho => writeAll_of_not_mem ?_
  · obtain ⟨p, hp, rfl⟩ := mem_map.mp (mem_reverse.mp hw)
    exact (hcoins p hp).symm
  rw [← map_reverse, map_map] at ho
  intro hmem
  refine ho ?_
  rw [map_map] at hmem
  show o ∈ (List.reverse _).map Prod.fst
  rw [map_reverse, mem_reverse]
  show o ∈ ((tx.vin.map prevout).zip (tx.vin.filterMap fun i => view i.prevout)).map Prod.fst
  rw [hkeys]
  exact hmem

/-! ### Transactions -/

section Transactions
variable {c : Crypto} {nHeight : Nat}

theorem fCoinBase_of_mem_newCoins {p : OutPoint × Coin} (hp : p ∈ newCoins c tx nHeight) :
    p.2.fCoinBase = tx.isCoinBase ∧ p.2.nHeight = nHeight := by
  obtain ⟨i, hi, rfl⟩ := mem_mapIdx.mp hp
  exact ⟨rfl, rfl⟩

/-- Undoing a transaction that is no coinbase. -/
theorem undoTx_updateCoins (hcb : tx.isCoinBase = false) (hview : Undoable view)
    (hin : ∀ i ∈ tx.vin, view i.prevout ≠ none) (hupd : updateCoins c view tx nHeight = some view')
    (hundo : undoTx c nHeight lenient ⟨view', fClean⟩ tx (some (spentCoins view tx)) = some st) :
    st.view = view := by
  rw [updateCoins, hcb, if_neg Bool.false_ne_true] at hupd
  have habs := addCoins_absent hupd fun p hp => by rw [(fCoinBase_of_mem_newCoins hp).1, hcb]
  have hremoved := removeOutputs_addCoins hupd habs (tx.isCoinBase && lenient) fClean
  unfold undoTx at hundo
  simp only at hundo
  split at hundo
  · cases hundo
  · rw [← Undone.eta (removeOutputs _ _ _), hremoved] at hundo
    exact restoreInputs_spendInputs hview hin hundo

/-- Undoing a coinbase whose outputs were not there. -/
theorem undoTx_coinbase (hcb : tx.isCoinBase = true)
    (habs : ∀ p ∈ newCoins c tx nHeight, view p.1 = none)
    (hupd : updateCoins c view tx nHeight = some view')
    (hundo : undoTx c nHeight lenient ⟨view', fClean⟩ tx none = some st) : st.view = view := by
  rw [updateCoins, hcb, if_pos rfl] at hupd
  rw [← Option.some.inj hundo]
  exact removeOutputs_addCoins hupd (fun p hp => habs p (mem_filter.mp hp).1) _ _

/-- Connecting a transaction above genesis keeps the view undoable. -/
theorem Undoable.updateCoins (hview : Undoable view) (hheight : nHeight ≠ 0)
    (hupd : updateCoins c view tx nHeight = some view') :
    Undoable view' := by
  have hspent : Undoable (if tx.isCoinBase then view else spendInputs view tx.vin) := by
    split
    · exact hview
    rw [spendInputs_eq]
    intro o coin hcoin
    by_cases ho : o ∈ (tx.vin.map fun i => (i.prevout, (none : Option Coin))).map Prod.fst
    · -- A coin that was erased is not there.
      have hw := writeAll_mem (m := view) ho
      obtain ⟨i, -, hi⟩ := mem_map.mp hw
      rw [hcoin, Prod.mk.injEq] at hi
      cases hi.2
    · rw [writeAll_of_not_mem ho] at hcoin
      exact hview o coin hcoin
  rw [addCoins_eq hupd]
  intro o coin hcoin
  by_cases ho : o ∈ ((spendable (newCoins c tx nHeight)).map fun p => (p.1, some p.2)).map Prod.fst
  · have hw := writeAll_mem (m := if tx.isCoinBase then view else spendInputs view tx.vin) ho
    obtain ⟨p, hp, heq⟩ := mem_map.mp hw
    rw [hcoin, Prod.mk.injEq, Option.some.injEq] at heq
    obtain ⟨hnew, hspend⟩ := mem_filter.mp hp
    rw [← heq.2]
    refine ⟨?_, by simpa using hspend⟩
    rw [(fCoinBase_of_mem_newCoins hnew).2]
    exact hheight
  · rw [writeAll_of_not_mem ho] at hcoin
    exact hspent o coin hcoin

/-- Every transaction finds its inputs when it is its turn. -/
def InputsPresent (c : Crypto) (nHeight : Nat) : List Transaction → CoinsView → Prop
  | [], _ => True
  | tx :: rest, view =>
    (tx.isCoinBase = false → ∀ i ∈ tx.vin, view i.prevout ≠ none) ∧
      ∀ view', updateCoins c view tx nHeight = some view' → InputsPresent c nHeight rest view'

/-- Undoing transactions none of which is a coinbase. -/
theorem undoTxs_applyTxs (hheight : nHeight ≠ 0) :
    ∀ {view view' : CoinsView} {undo : List (List Coin)} {st : Undone},
      (∀ tx ∈ txs, tx.isCoinBase = false) → InputsPresent c nHeight txs view → Undoable view →
      applyTxs c nHeight txs view = some (view', undo) →
      undoTxs c nHeight lenient (txs.zip (undo.map some)) ⟨view', fClean⟩ = some st →
      st.view = view := by
  induction txs with
  | nil =>
    intro view view' undo st _ _ _ happly hundo
    rw [← Option.some.inj hundo]
    exact (congrArg Prod.fst (Option.some.inj happly)).symm
  | cons tx rest ih =>
    intro view view' undo st hcb hin hview happly hundo
    obtain ⟨view₁, hupd, hmap⟩ := Option.bind_eq_some_iff.mp happly
    obtain ⟨⟨view₂, undo'⟩, hrec, hpair⟩ := Option.map_eq_some_iff.mp hmap
    obtain ⟨rfl, rfl⟩ := Prod.mk.inj hpair
    obtain ⟨st₁, hrest, hfirst⟩ := Option.bind_eq_some_iff.mp hundo
    -- The later transactions are undone first, which leads to the view after this one.
    have hview₁ := ih (fun t ht => hcb t (mem_cons_of_mem tx ht)) (hin.2 view₁ hupd)
      (hview.updateCoins hheight hupd) hrec hrest
    have hcb' := hcb tx mem_cons_self
    rw [← Undone.eta st₁, hview₁] at hfirst
    simp only [undoCoins, hcb', Bool.false_eq_true, if_false] at hfirst
    exact undoTx_updateCoins hcb' hview (hin.1 hcb') hupd hfirst

/-- Connecting transactions above genesis keeps the view undoable. -/
theorem Undoable.applyTxs (hheight : nHeight ≠ 0) :
    ∀ {view view' : CoinsView} {undo : List (List Coin)}, Undoable view →
      applyTxs c nHeight txs view = some (view', undo) → Undoable view' := by
  induction txs with
  | nil =>
    intro view view' undo hview happly
    have heq : view = view' := congrArg Prod.fst (Option.some.inj happly)
    rw [← heq]
    exact hview
  | cons tx rest ih =>
    intro view view' undo hview happly
    obtain ⟨view₁, hupd, hmap⟩ := Option.bind_eq_some_iff.mp happly
    obtain ⟨⟨view₂, undo'⟩, hrec, hpair⟩ := Option.map_eq_some_iff.mp hmap
    obtain ⟨rfl, rfl⟩ := Prod.mk.inj hpair
    exact ih (hview.updateCoins hheight hupd) hrec

end Transactions

/-! ### Blocks -/

/-- `CheckTxInputs` tests that inputs are there. -/
theorem haveInputs_of_checkTx {st : ConnectState} {r : Int × Nat × Bool}
    (h : checkTx ctx st tx = .ok r) : haveInputs st.view tx = true := by
  cases hcb : tx.isCoinBase with
  | true => rw [haveInputs, hcb, Bool.true_or]
  | false =>
    unfold checkTx at h
    rw [hcb, if_neg Bool.false_ne_true] at h
    cases hspend : checkSpend ctx st tx with
    | error e => simp [hspend] at h
    | ok nFees =>
      unfold checkSpend checkTxInputs at hspend
      by_contra hno
      rw [Bool.not_eq_true] at hno
      simp [hno] at hspend

/-- The loop of `ConnectBlock` tests that inputs are there. -/
theorem inputsPresent_of_connectTxs :
    ∀ {st st' : ConnectState}, connectTxs ctx txs st = .ok st' →
      InputsPresent ctx.crypto ctx.nHeight txs st.view := by
  induction txs with
  | nil => exact fun _ => trivial
  | cons tx rest ih =>
    intro st st' h
    unfold connectTxs at h
    cases hone : connectTx ctx st tx with
    | error e => simp [hone] at h
    | ok st₁ =>
      simp only [hone] at h
      obtain ⟨nFees, nSigOpsCost, queueOk, view, hcheck, hupd, hst⟩ := connectTx_ok_iff.mp hone
      refine ⟨fun hcb i hi => ?_, fun view' hview' => ?_⟩
      · have hhave := haveInputs_of_checkTx hcheck
        rw [haveInputs, hcb, Bool.false_or, all_eq_true] at hhave
        exact Option.isSome_iff_ne_none.mp (hhave i hi)
      · rw [hupd, Option.some.injEq] at hview'
        rw [← hview']
        have hrest := ih h
        rwa [hst] at hrest

/-- The first transaction of a block is a coinbase and the others are not. -/
theorem coinbase_of_checkBlockTxs {block : Block} (h : checkBlockTxs block = .ok ()) :
    ∃ cb txs, block.vtx = cb :: txs ∧ cb.isCoinBase = true ∧ ∀ tx ∈ txs, tx.isCoinBase = false := by
  unfold checkBlockTxs at h
  split at h
  · cases h
  split at h
  · cases h
  split at h
  · cases h
  rename_i hlen hfirst hmore
  cases hvtx : block.vtx with
  | nil => exact absurd (.inl hvtx) hlen
  | cons cb txs =>
    rw [hvtx] at hfirst hmore
    refine ⟨cb, txs, rfl, by simpa using hfirst, fun tx htx => ?_⟩
    by_contra hcb
    rw [Bool.not_eq_false] at hcb
    exact hmore (any_eq_true.mpr ⟨tx, htx, hcb⟩)

/-- Under BIP 30, no output of a block was there before. -/
theorem absent_of_bip30 (hbip : enforceBIP30 ctx.crypto ctx.params ctx.prev ctx.hash = true)
    (hconn : connectCoins ctx view = .ok r) (htx : tx ∈ ctx.block.vtx) :
    ∀ p ∈ newCoins ctx.crypto tx ctx.nHeight, view p.1 = none := by
  intro p hp
  by_contra hsome
  refine (connectCoins_ok_iff.mp hconn).1 ⟨hbip, ?_⟩
  unfold overwrites
  rw [any_eq_true]
  refine ⟨tx, htx, any_eq_true.mpr ⟨p, hp, ?_⟩⟩
  exact Option.isSome_iff_ne_none.mpr hsome

/-- Connecting a block above genesis keeps the view undoable. -/
theorem connectCoins_undoable (hview : Undoable view) (hheight : ctx.nHeight ≠ 0)
    (hconn : connectCoins ctx view = .ok r) :
    Undoable r.view := by
  obtain ⟨⟨undo, happly, -⟩, -⟩ := connectCoins_effect hconn
  exact hview.applyTxs hheight happly

/-- If `DisconnectBlock` succeeds on a block that was connected under BIP 30, then the view is
the one before the block. -/
theorem disconnectBlock_view {db db' : LeafDB} (hcheck : checkBlockTxs ctx.block = .ok ())
    (hbip : enforceBIP30 ctx.crypto ctx.params ctx.prev ctx.hash = true) (hview : Undoable view)
    (hheight : ctx.nHeight ≠ 0) (hconn : connectCoins ctx view = .ok r)
    (hdis : disconnectBlock ctx.crypto ctx.params db ctx.nHeight (some r.vtxundo) ctx.block
      r.view = (.ok, view', db')) : view' = view := by
  obtain ⟨cb, txs, hvtx, hcb, hother⟩ := coinbase_of_checkBlockTxs hcheck
  obtain ⟨⟨undo, happly, hundo⟩, -⟩ := connectCoins_effect hconn
  obtain ⟨-, st, htxs, -⟩ := connectCoins_ok_iff.mp hconn
  have hin := inputsPresent_of_connectTxs htxs
  rw [hvtx] at happly hin
  -- The coinbase comes first, then the other transactions.
  obtain ⟨view₁, hupd, hmap⟩ := Option.bind_eq_some_iff.mp happly
  obtain ⟨⟨view₂, undo'⟩, hrec, hpair⟩ := Option.map_eq_some_iff.mp hmap
  obtain ⟨hview₂, rfl⟩ := Prod.mk.inj hpair
  rw [drop_succ_cons, drop_zero] at hundo
  unfold disconnectBlock at hdis
  simp only at hdis
  split at hdis
  · cases hdis
  split at hdis
  · cases hdis
  rename_i st' hst
  have hst' : st'.view = view' := congrArg (fun x => x.2.1) hdis
  rw [← hst']
  rw [hvtx, hundo, zip_cons_cons] at hst
  obtain ⟨st₁, hrest, hfirst⟩ := Option.bind_eq_some_iff.mp hst
  rw [← hview₂] at hrest
  have hview₁ := undoTxs_applyTxs hheight hother (hin.2 view₁ hupd)
    (hview.updateCoins hheight hupd) hrec hrest
  rw [← Undone.eta st₁, hview₁] at hfirst
  have habs := absent_of_bip30 hbip hconn (by rw [hvtx]; exact mem_cons_self)
  exact undoTx_coinbase hcb habs hupd hfirst

end AssentianPQE
