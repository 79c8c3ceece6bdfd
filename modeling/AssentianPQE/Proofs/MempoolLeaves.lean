import AssentianPQE.Proofs.BlockMessages
import AssentianPQE.Proofs.DisconnectUndoes
import AssentianPQE.Proofs.RejectReasons
import AssentianPQE.Proofs.TemplateWeight
import AssentianPQE.SampleSpend

/-!
# `AssentianPQE.Proofs.MempoolLeaves`: the leaves of a mempool and the leaf test of a block

`ConsensusScriptChecks` runs the scripts of a transaction and does not look at the leaves that they
use. `ConnectBlock` does, for a whole block, and `CreateNewBlock` throws when it fails.

* `chosen_addPackageTxs`: a template has transactions of the mempool, each one once.
* `connectTxs_leaves`: the leaves that the transactions of a template use.
* `template_leaves_apart`: if the transactions of a mempool use different leaves, and none that has
  been used, `CreateNewBlock` does not throw for a leaf.
* `same_leaf_stops_mining`: two accepted transactions that use one leaf.
-/

set_option autoImplicit false

namespace AssentianPQE

open Lib List

/-! ### The transactions of a mempool -/

variable {params : Params} {pool pool' : Mempool} {tx : Transaction} {e : MempoolEntry}

section Pool
variable {c : Crypto}

theorem removeRecursive_sublist {pool : List MempoolEntry} {gone : List Uint256} :
    (removeRecursive c gone pool).Sublist pool := by
  induction pool generalizing gone with
  | nil => exact List.Sublist.refl []
  | cons e rest ih =>
    unfold removeRecursive
    split
    · exact ih.cons e
    · exact ih.cons_cons e

variable {policy : MempoolPolicy} {tip : Tip}

/-- What has been tested of a transaction that is accepted. -/
theorem preChecks_ok {entry : MempoolEntry} (h : preChecks c policy tip pool tx = .ok entry) :
    entry.tx = tx ∧ ∀ e ∈ pool, e.tx.getHash c ≠ tx.getHash c := by
  unfold preChecks at h
  dsimp only at h
  split at h
  · cases h
  split at h
  · cases h
  split at h
  · cases h
  split at h
  · cases h
  split at h
  · cases h
  split at h
  · cases h
  split at h
  · cases h
  next hsame =>
    have hentry : entry.tx = tx := by
      repeat' split at h
      all_goals cases h
      rfl
    refine ⟨hentry, fun e he heq => hsame (any_eq_true.mpr ⟨e, he, decide_eq_true heq⟩)⟩

theorem finalize_sublist {entry : MempoolEntry} (h : finalize c policy pool entry = .ok pool') :
    pool'.Sublist (pool ++ [entry]) := by
  unfold finalize at h
  dsimp only at h
  split at h
  · cases h
    exact removeRecursive_sublist.trans (removeRecursive_sublist.append_right [entry])
  · cases h

/-- No two transactions of a mempool have one hash. -/
theorem BuiltPool.hashes (h : BuiltPool c params policy tip pool) :
    (pool.map fun e => e.tx.getHash c).Nodup := by
  induction h with
  | empty => exact nodup_nil
  | @accept pool pool' tx _ haccept ih =>
    obtain ⟨entry, hpre, hfinal⟩ : ∃ entry, preChecks c policy tip pool tx = .ok entry ∧
        finalize c policy pool entry = .ok pool' := by
      unfold acceptToMemoryPool at haccept
      dsimp only at haccept
      cases hpre : preChecks c policy tip pool tx with
      | error reason =>
        rw [hpre] at haccept
        cases haccept
      | ok entry =>
        rw [hpre] at haccept
        dsimp only at haccept
        generalize (if pool.conflicts tx = [] then none else policy.replacement pool entry) =
          replacement at haccept
        refine ⟨entry, rfl, ?_⟩
        split at haccept
        · cases haccept
        split at haccept
        · cases haccept
        split at haccept
        · cases haccept
        · exact haccept
    obtain ⟨htx, hnew⟩ := preChecks_ok hpre
    refine ((finalize_sublist hfinal).map _).nodup ?_
    rw [map_append, map_singleton, htx]
    refine List.Nodup.append ih (nodup_singleton _) fun hash hin hone => ?_
    obtain ⟨e, he, rfl⟩ := mem_map.mp hin
    exact hnew e he (mem_singleton.mp hone)

/-! ### The selected transactions -/

theorem ancestorsFrom_sublist {pool : List MempoolEntry} {wanted : List Uint256} :
    (ancestorsFrom c wanted pool).Sublist pool := by
  induction pool generalizing wanted with
  | nil => exact List.Sublist.refl []
  | cons e rest ih =>
    unfold ancestorsFrom
    split
    · exact ih.cons_cons e
    · exact ih.cons e

theorem ancestors_sublist (pool : Mempool) (tx : Transaction) :
    (pool.ancestors c tx).Sublist pool := by
  have h : (pool.ancestors c tx).Sublist pool.reverse.reverse := ancestorsFrom_sublist.reverse
  rwa [reverse_reverse] at h

/-- The entries in a block are entries of the mempool, each one once. -/
structure Assembly.Chosen (c : Crypto) (pool : Mempool) (b : Assembly) : Prop where
  subset : ∀ e ∈ b.inBlock, e ∈ pool
  once : (b.inBlock.map fun e => e.tx.getHash c).Nodup

variable {pool : Mempool} (hhashes : (pool.map fun e => e.tx.getHash c).Nodup)
  (hacyclic : ∀ e ∈ pool, e ∉ pool.ancestors c e.tx)
include hhashes hacyclic

/-- The hashes of a package are different from each other and from those in the block. -/
theorem package_hashes {b : Assembly} (he : e ∈ pool) (hnew : b.contains c e = false) :
    (∀ a ∈ b.package c pool e, a ∈ pool) ∧
      ((b.package c pool e).map fun a => a.tx.getHash c).Nodup ∧
      ∀ a ∈ b.package c pool e, ∀ a' ∈ b.inBlock, a'.tx.getHash c ≠ a.tx.getHash c := by
  have hsub := ancestors_sublist (c := c) pool e.tx
  have hout (a : MempoolEntry) (ha : b.contains c a = false) :
      ∀ a' ∈ b.inBlock, a'.tx.getHash c ≠ a.tx.getHash c := by
    intro a' ha' heq
    rw [Assembly.contains, any_eq_false] at ha
    exact ha a' ha' (decide_eq_true heq)
  refine ⟨fun a ha => ?_, ?_, fun a ha => ?_⟩
  · rcases mem_append.mp ha with hancestor | hself
    · exact hsub.subset (mem_of_mem_filter hancestor)
    · rw [mem_singleton.mp hself]
      exact he
  · rw [Assembly.package, map_append, map_singleton]
    refine List.Nodup.append ?_ (nodup_singleton _) fun hash hin hone => ?_
    · exact ((filter_sublist.trans hsub).map _).nodup hhashes
    -- An ancestor with the hash of the entry is the entry.
    obtain ⟨a, ha, rfl⟩ := mem_map.mp hin
    have hmem := mem_of_mem_filter ha
    have heq := inj_on_of_nodup_map hhashes (hsub.subset hmem) he (mem_singleton.mp hone)
    rw [heq] at hmem
    exact hacyclic e he hmem
  · rcases mem_append.mp ha with hancestor | hself
    · have hfree := (mem_filter.mp hancestor).2
      rw [Bool.not_eq_true'] at hfree
      exact hout a hfree
    · rw [mem_singleton.mp hself]
      exact hout e hnew

theorem Assembly.Chosen.addPackage {b : Assembly} (h : b.Chosen c pool) {o : AssemblerOptions}
    (he : e ∈ pool) : (b.addPackage c o tip pool e).Chosen c pool := by
  unfold Assembly.addPackage
  split
  · exact h
  next hnew =>
    rw [Bool.not_eq_true] at hnew
    obtain ⟨hsub, honce, hapart⟩ := package_hashes hhashes hacyclic he hnew
    dsimp only
    split
    · exact h
    split
    · exact h
    have hperm := (b.package c pool e).perm_insertionSort fun a b => compareByAncestorCount c pool a b
    have hin := (foldl_addToBlock ((b.package c pool e).insertionSort fun a b =>
      compareByAncestorCount c pool a b) b).1
    refine ⟨?_, ?_⟩
    · rw [hin]
      intro a ha
      rcases mem_append.mp ha with hold | hadded
      · exact h.subset a hold
      · exact hsub a (hperm.mem_iff.mp hadded)
    · rw [hin, map_append]
      refine List.Nodup.append h.once ((hperm.map _).nodup_iff.mpr honce) fun hash hold hadded => ?_
      obtain ⟨a', ha', rfl⟩ := mem_map.mp hold
      obtain ⟨a, ha, heq⟩ := mem_map.mp hadded
      exact hapart a (hperm.mem_iff.mp ha) a' ha' heq.symm

/-- The transactions that `CreateNewBlock` selects. -/
theorem chosen_addPackageTxs (o : AssemblerOptions) (tip : Tip) (order : List MempoolEntry) :
    (addPackageTxs c o tip pool order).Chosen c pool := by
  have hall : ∀ (es : List MempoolEntry) (b : Assembly), (∀ e ∈ es, e ∈ pool) → b.Chosen c pool →
      (es.foldl (Assembly.addPackage c o tip pool) b).Chosen c pool := by
    intro es
    induction es with
    | nil => exact fun b _ h => h
    | cons e es ih =>
      intro b hes h
      exact ih _ (fun a ha => hes a (mem_cons_of_mem e ha))
        (h.addPackage hhashes hacyclic (hes e mem_cons_self))
  refine hall _ {} (fun e he => ?_) ⟨nofun, nodup_nil⟩
  exact of_decide_eq_true (mem_filter.mp he).2

end Pool

/-! ### The leaves that a transaction may use -/

/-- The script checks of a transaction that spends these outputs. -/
def scriptChecksOn (c : Crypto) (params : Params) (flags : ScriptFlags) (tx : Transaction)
    (outs : List TxOut) : List (Captured Unit) :=
  (tx.vin.zip outs).mapIdx fun j p =>
    let t : TxContext :=
      { tx := tx, nIn := j, input := p.1, amount := p.2.nValue
        spentOutputs := outs, xmssChainId := params.nXMSSChainId }
    verifyScript c flags (t.checker c) p.1.scriptSig p.2.scriptPubKey p.1.scriptWitness

variable (c : Crypto)

/-- Scripts read the outputs of the coins, and not their heights. -/
theorem scriptChecks_eq (params : Params) (flags : ScriptFlags) (view : CoinsView)
    (tx : Transaction) : scriptChecks c params flags view tx =
      scriptChecksOn c params flags tx ((spentCoins view tx).map Coin.out) := by
  unfold scriptChecks scriptChecksOn
  dsimp only
  rw [zip_map_right]
  refine ext_getElem (by simp) fun j _ _ => ?_
  simp only [getElem_mapIdx, getElem_map, Prod.map, id_eq]

/-- The keys of the leaves that the scripts of a transaction verify when it spends these outputs. -/
def spendLeafKeys (c : Crypto) (params : Params) (flags : ScriptFlags) (tx : Transaction)
    (outs : List TxOut) : List Uint256 :=
  leafKeys c ((scriptChecksOn c params flags tx outs).map Captured.uses).flatten

section Leaves
variable (c : Crypto) (params : Params) (tip : Tip) (pool : Mempool)

/-- An outpoint names an output, in the coins of the tip or in a transaction of the mempool. -/
def NamesOutput (o : OutPoint) (out : TxOut) : Prop :=
  (∃ coin, tip.coins o = some coin ∧ coin.out = out) ∨
    ∃ e ∈ pool, ∃ i, o = ⟨e.tx.getHash c, UInt32.ofNat i⟩ ∧ e.tx.vout[i]? = some out

/-- The inputs of a transaction name these outputs. -/
def MaySpend (tx : Transaction) (outs : List TxOut) : Prop :=
  List.Forall₂ (fun i out => NamesOutput c tip pool i.prevout out) tx.vin outs

/-- The flags of a block on the tip. -/
def Tip.nextFlags (hash : Uint256) : ScriptFlags :=
  getBlockScriptFlags params hash tip.nextHeight

/-- A transaction may use a leaf in a block on the tip. -/
def MayUse (tx : Transaction) (key : Uint256) : Prop :=
  ∃ hash outs, MaySpend c tip pool tx outs ∧
    key ∈ spendLeafKeys c params (tip.nextFlags params hash) tx outs

/-- The leaf that the script of a coinbase claims. -/
def scriptLeafKey (scriptPubKeyIn : Script) : Option Uint256 :=
  if params.fPoUW then
    (parseCoinbasePoUWLeaf (newCoinbase params tip scriptPubKeyIn 0) 0).map fun use =>
      makePoUWLeafKey c use.1 use.2
  else none

/-- The transactions of a mempool use different leaves, and none that has been used. -/
structure LeavesApart (scriptPubKeyIn : Script) : Prop where
  /-- No transaction spends an output of its own descendants. -/
  acyclic : ∀ e ∈ pool, e ∉ pool.ancestors c e.tx
  once : ∀ e ∈ pool, ∀ hash outs, MaySpend c tip pool e.tx outs →
    (spendLeafKeys c params (tip.nextFlags params hash) e.tx outs).Nodup
  apart : ∀ e ∈ pool, ∀ e' ∈ pool, e ≠ e' → ∀ key, MayUse c params tip pool e.tx key →
    ¬ MayUse c params tip pool e'.tx key
  unused : ∀ e ∈ pool, ∀ key, MayUse c params tip pool e.tx key → tip.db.leaf key = none
  coinbase : ∀ e ∈ pool, ∀ key, MayUse c params tip pool e.tx key →
    scriptLeafKey c params tip scriptPubKeyIn ≠ some key

end Leaves

/-! ### The coins while a template is connected -/

theorem addCoins_some {coins : List (OutPoint × Coin)} {view view' : CoinsView}
    (h : addCoins view coins = some view') {o : OutPoint} {coin : Coin} (ho : view' o = some coin) :
    view o = some coin ∨ (o, coin) ∈ coins := by
  rw [addCoins_eq h] at ho
  by_cases hmem : o ∈ ((spendable coins).map fun p => (p.1, some p.2)).map Prod.fst
  · have hwritten := writeAll_mem (m := view) hmem
    rw [ho] at hwritten
    obtain ⟨p, hp, heq⟩ := mem_map.mp hwritten
    obtain ⟨rfl, hcoin⟩ := Prod.mk.inj heq
    rw [← Option.some.inj hcoin]
    exact .inr (mem_of_mem_filter hp)
  · rw [writeAll_of_not_mem hmem] at ho
    exact .inl ho

theorem spendInputs_some {view : CoinsView} {vin : List TxIn} {o : OutPoint} {coin : Coin}
    (ho : spendInputs view vin o = some coin) : view o = some coin := by
  rw [spendInputs_eq] at ho
  by_cases hmem : o ∈ (vin.map fun i => (i.prevout, (none : Option Coin))).map Prod.fst
  · have hwritten := writeAll_mem (m := view) hmem
    rw [ho] at hwritten
    obtain ⟨i, -, heq⟩ := mem_map.mp hwritten
    cases (Prod.mk.inj heq).2
  · rwa [writeAll_of_not_mem hmem] at ho

/-- Every coin is one that an outpoint names, or one of the coinbase of the block. -/
def KnownView (c : Crypto) (tip : Tip) (pool : Mempool) (view : CoinsView) : Prop :=
  ∀ o coin, view o = some coin →
    NamesOutput c tip pool o coin.out ∨ (coin.fCoinBase = true ∧ coin.nHeight = tip.nextHeight)

section Connect
variable {c : Crypto} {tip : Tip} {pool : Mempool} {view view' : CoinsView} {tx : Transaction}

theorem knownView_tip : KnownView c tip pool tip.coins :=
  fun _ coin ho => .inl (.inl ⟨coin, ho, rfl⟩)

/-- The outputs of a transaction of the mempool, or of a coinbase, are known. -/
theorem KnownView.updateCoins (hview : KnownView c tip pool view)
    (htx : tx.isCoinBase = true ∨ ∃ e ∈ pool, e.tx = tx)
    (h : updateCoins c view tx tip.nextHeight = some view') : KnownView c tip pool view' := by
  intro o coin ho
  rcases addCoins_some h ho with hold | hnew
  · split at hold
    · exact hview o coin hold
    · exact hview o coin (spendInputs_some hold)
  · obtain ⟨i, hi, heq⟩ := mem_mapIdx.mp hnew
    cases heq
    rcases htx with hcb | ⟨e, he, rfl⟩
    · exact .inr ⟨hcb, rfl⟩
    · exact .inl (.inr ⟨e, he, i, rfl, getElem?_eq_getElem hi⟩)

theorem sumInputs_mature {nSpendHeight : Nat} {coins : List Coin} {n m : Int}
    (h : sumInputs nSpendHeight coins n = .ok m) :
    ∀ coin ∈ coins, coin.fCoinBase = true → coin.nHeight ≠ nSpendHeight := by
  induction coins generalizing n with
  | nil => exact nofun
  | cons first rest ih =>
    unfold sumInputs at h
    dsimp only at h
    split at h
    · cases h
    next hmature =>
      split at h
      · cases h
      intro coin hcoin hcb heq
      rcases mem_cons.mp hcoin with rfl | hrest
      · refine hmature ⟨hcb, ?_⟩
        rw [heq, COINBASE_MATURITY]
        omega
      · exact ih h coin hrest hcb heq

variable {st : ConnectState}

/-- The inputs of a transaction that passes the tests of `ConnectBlock` have outputs. -/
theorem maySpend_of_checkTx {ctx : ConnectContext} {r : Int × Nat × Bool}
    (hheight : ctx.nHeight = tip.nextHeight) (hview : KnownView c tip pool st.view)
    (hcb : tx.isCoinBase = false) (h : checkTx ctx st tx = .ok r) :
    MaySpend c tip pool tx ((spentCoins st.view tx).map Coin.out) := by
  have hall := haveInputs_of_checkTx h
  have hhave := hall
  rw [haveInputs, hcb, Bool.false_or, all_eq_true] at hhave
  have hmature : ∀ coin ∈ spentCoins st.view tx, coin.fCoinBase = true →
      coin.nHeight ≠ tip.nextHeight := by
    unfold checkTx at h
    rw [hcb, if_neg Bool.false_ne_true] at h
    cases hspend : checkSpend ctx st tx with
    | error e => simp [hspend] at h
    | ok nFees =>
      unfold checkSpend checkTxInputs at hspend
      rw [← hheight]
      cases hsum : sumInputs ctx.nHeight (spentCoins st.view tx) 0 with
      | error e => simp [hall, hsum] at hspend
      | ok value => exact sumInputs_mature hsum
  -- Each input has a coin, which is not one of the new coinbase.
  have hnames : ∀ i ∈ tx.vin, ∃ coin, st.view i.prevout = some coin ∧
      NamesOutput c tip pool i.prevout coin.out := by
    intro i hi
    obtain ⟨coin, hcoin⟩ := Option.isSome_iff_exists.mp (hhave i hi)
    have hmem : coin ∈ spentCoins st.view tx := mem_filterMap.mpr ⟨i, hi, hcoin⟩
    rcases hview _ _ hcoin with hnamed | ⟨hnew, hsame⟩
    · exact ⟨coin, hcoin, hnamed⟩
    · exact absurd hsame (hmature coin hmem hnew)
  unfold MaySpend spentCoins
  generalize tx.vin = vin at hnames
  induction vin with
  | nil => exact .nil
  | cons i rest ih =>
    obtain ⟨coin, hcoin, hnamed⟩ := hnames i mem_cons_self
    have hcons : (i :: rest).filterMap (fun i => st.view i.prevout) =
        coin :: rest.filterMap fun i => st.view i.prevout := filterMap_cons_some hcoin
    rw [hcons, map_cons]
    exact .cons hnamed (ih fun j hj => hnames j (mem_cons_of_mem i hj))

variable {parallel : Bool}

/-- A turn of the loop: the leaves that a transaction of the mempool adds. -/
theorem connectTx_leaves {block : Block} {st' : ConnectState} (he : e ∈ pool)
    (hview : KnownView c tip pool st.view)
    (h : connectTx ⟨c, params, true, parallel, true, tip.chain, block⟩ st e.tx = .ok st') :
    KnownView c tip pool st'.view ∧ ∃ uses, st'.uses = st.uses ++ uses ∧
      (uses = [] ∨ ∃ hash outs, MaySpend c tip pool e.tx outs ∧
        leafKeys c uses = spendLeafKeys c params (tip.nextFlags params hash) e.tx outs) := by
  obtain ⟨nFees, nSigOpsCost, queueOk, view, hcheck, hcoins, rfl⟩ := connectTx_ok_iff.mp h
  refine ⟨hview.updateCoins (.inr ⟨e, he, rfl⟩) hcoins, _, rfl, ?_⟩
  unfold txLeafUses
  split
  · exact .inl rfl
  next hused =>
    rw [not_or, Bool.not_eq_true, Bool.not_eq_true] at hused
    refine .inr ⟨block.getHash c, _, maySpend_of_checkTx rfl hview hused.2 hcheck, ?_⟩
    rw [if_pos rfl, scriptChecks_eq]
    rfl

/-- The loop: the leaves that entries of the mempool use are different, and each one is of one of
them. -/
theorem connectTxs_leaves {block : Block} {scriptPubKeyIn : Script}
    (hleaves : LeavesApart c params tip pool scriptPubKeyIn) {es : List MempoolEntry} :
    ∀ {st st' : ConnectState}, (∀ e ∈ es, e ∈ pool) → es.Nodup → KnownView c tip pool st.view →
      connectTxs ⟨c, params, true, parallel, true, tip.chain, block⟩ (es.map MempoolEntry.tx) st =
        .ok st' →
      ∃ uses, st'.uses = st.uses ++ uses ∧ (leafKeys c uses).Nodup ∧
        ∀ key ∈ leafKeys c uses, ∃ e ∈ es, MayUse c params tip pool e.tx key := by
  induction es with
  | nil =>
    intro st st' _ _ _ h
    cases h
    exact ⟨[], (append_nil _).symm, nodup_nil, nofun⟩
  | cons e es ih =>
    intro st st' hsub hnodup hview h
    rw [map_cons] at h
    unfold connectTxs at h
    split at h
    · cases h
    next st₁ hone =>
      obtain ⟨hnot, hrest⟩ := nodup_cons.mp hnodup
      have he := hsub e mem_cons_self
      obtain ⟨hview₁, own, hown, hkeys⟩ := connectTx_leaves he hview hone
      obtain ⟨uses, huses, honce, hof⟩ := ih (fun a ha => hsub a (mem_cons_of_mem e ha)) hrest
        hview₁ h
      have hmay : (leafKeys c own).Nodup ∧
          ∀ key ∈ leafKeys c own, MayUse c params tip pool e.tx key := by
        rcases hkeys with rfl | ⟨hash, outs, hspend, hkeys⟩
        · exact ⟨nodup_nil, nofun⟩
        · rw [hkeys]
          exact ⟨hleaves.once e he hash outs hspend, fun key hkey => ⟨hash, outs, hspend, hkey⟩⟩
      refine ⟨own ++ uses, by rw [huses, hown, append_assoc], ?_, fun key hkey => ?_⟩
      · rw [leafKeys, map_append]
        refine List.Nodup.append hmay.1 honce fun key hin hlater => ?_
        obtain ⟨e', he', hmay'⟩ := hof key hlater
        have hne : e ≠ e' := fun heq => hnot (heq ▸ he')
        exact hleaves.apart e he e' (hsub e' (mem_cons_of_mem e he')) hne key (hmay.2 key hin)
          hmay'
      · rw [leafKeys, map_append] at hkey
        rcases mem_append.mp hkey with hin | hlater
        · exact ⟨e, mem_cons_self, hmay.2 key hin⟩
        · obtain ⟨e', he', hmay'⟩ := hof key hlater
          exact ⟨e', mem_cons_of_mem e he', hmay'⟩

end Connect

/-! ### The coinbase of a template -/

/-- The commitment to the witness data claims no leaf. -/
theorem parseLeafOp_witnessCommitment (block : Block) (nLeafIndex : UInt32) (st : LeafScan) :
    (ops (witnessCommitment c block).scriptPubKey).foldl (parseLeafOp nLeafIndex) st = st := by
  have hlen := length_commitmentData c block
  obtain ⟨opcode, -, hpush⟩ := getScriptOp_pushBytes (show (commitmentData c block).length < 2 ^ 32 by
    omega) []
  rw [append_nil] at hpush
  have hreturn : getScriptOp (dataOutput (commitmentData c block)).scriptPubKey =
      some ⟨OP_RETURN, [], pushBytes (commitmentData c block)⟩ := rfl
  rw [scriptPubKey_witnessCommitment, (ops_eq hreturn).1, (ops_eq hpush).1, ops_nil]
  -- The pushed data is shorter than a key.
  show parseLeafOp nLeafIndex st ⟨opcode, commitmentData c block, []⟩ = st
  unfold parseLeafOp
  dsimp only
  split
  · rfl
  · rw [if_neg (by omega), if_neg (by omega), if_neg (by omega)]

/-- The leaf that the coinbase of a template claims is the one of the script. -/
theorem coinbaseLeafKey_newBlock (params : Params) (o : AssemblerOptions) (env : AssemblerEnv)
    (tip : Tip) (pool : Mempool) (scriptPubKeyIn : Script) :
    coinbaseLeafKey c params (newBlock c params o env tip pool scriptPubKeyIn) =
      scriptLeafKey c params tip scriptPubKeyIn := by
  have hindex : (newBlock c params o env tip pool scriptPubKeyIn).nLeafIndex = 0 :=
    congrArg BlockHeader.nLeafIndex (header_generateCoinbaseCommitment c params tip _)
  obtain ⟨cb, hcb⟩ := templateCoinbase_newBlock c params tip o env pool scriptPubKeyIn
  have hparse : parseCoinbasePoUWLeaf cb 0 =
      parseCoinbasePoUWLeaf (newCoinbase params tip scriptPubKeyIn 0) 0 := by
    unfold parseCoinbasePoUWLeaf newCoinbase
    dsimp only
    obtain ⟨value, hvout | ⟨block, hvout⟩⟩ := hcb.vout
    · rw [hvout]
      rfl
    · rw [hvout]
      simp only [parseLeafOutputs, parseLeafOp_witnessCommitment, ite_self]
  unfold coinbaseLeafKey scriptLeafKey
  rw [hindex, hcb.vtx, head?_cons, Option.bind_some, hparse]

/-! ### Templates -/

/-- A transaction that spends an output of the sample key, before it is signed. -/
def unsignedPoolSpend (n : UInt32) : Transaction :=
  { unsignedSpend with
    vin := [{ prevout := ⟨Blob.ofNat 32 7, n⟩, scriptSig := [], nSequence := TxIn.sequenceFinal }] }

/-- It is signed with a leaf. -/
def poolSpend (n : UInt32) (leaf : Nat) : Transaction :=
  let index := beBytes 4 leaf
  let digest := xmssSighash prefixCrypto (spendContext (unsignedPoolSpend n) leafSpendOut) index
    leafSpendOut.scriptPubKey .base
  { unsignedPoolSpend n with
    vin := [{ prevout := ⟨Blob.ofNat 32 7, n⟩
              scriptSig := chunkPushes (index ++ (digest.data ++ List.replicate 2464 0))
              nSequence := TxIn.sequenceFinal }] }

/-- The parameters of a network that starts with the sample block. -/
def leafNetwork : Params :=
  { sampleParams with hashGenesisBlock := sampleGenesisBlock.getHash prefixCrypto }

/-- A node with two outputs of the key. -/
def leafTip : Tip where
  chain := [sampleGenesis]
  coins := fun o =>
    if o = ⟨Blob.ofNat 32 7, 0⟩ ∨ o = ⟨Blob.ofNat 32 7, 1⟩ then some ⟨leafSpendOut, 0, false⟩
    else none
  db := LeafDB.empty

/-- `AcceptToMemoryPool` with no rules of policy. -/
def leafAccept (pool : Mempool) (tx : Transaction) : Option Mempool :=
  (acceptToMemoryPool prefixCrypto leafNetwork {} leafTip pool tx).toOption

theorem builtPool_leafAccept (hpool : BuiltPool prefixCrypto leafNetwork {} leafTip pool)
    (h : leafAccept pool tx = some pool') :
    BuiltPool prefixCrypto leafNetwork {} leafTip pool' := by
  unfold leafAccept at h
  cases haccept : acceptToMemoryPool prefixCrypto leafNetwork {} leafTip pool tx with
  | error reason =>
    rw [haccept] at h
    cases h
  | ok accepted =>
    rw [haccept] at h
    cases h
    exact hpool.accept haccept

/-- A call of `CreateNewBlock` that looks at every transaction. -/
def wholePool (pool : Mempool) : AssemblerEnv where
  nVersion := 0x20000000
  now := 60
  order := pool

/-- The entry of a spend with leaf 5. -/
def leafEntry : MempoolEntry :=
  ⟨poolSpend 0 5, 100, 0⟩

theorem builtPool_leafEntry : BuiltPool prefixCrypto leafNetwork {} leafTip [leafEntry] := by
  have h : leafAccept [] (poolSpend 0 5) = some [leafEntry] := by
    decide +kernel
  exact builtPool_leafAccept .empty h

/-- Its input names one output. -/
theorem maySpend_leafEntry {outs : List TxOut}
    (h : MaySpend prefixCrypto leafTip [leafEntry] leafEntry.tx outs) : outs = [leafSpendOut] := by
  obtain ⟨out, rest, hout, hrest, rfl⟩ := forall₂_cons_left_iff.mp h
  rw [forall₂_nil_left_iff.mp hrest]
  rcases hout with ⟨coin, hcoin, rfl⟩ | ⟨e, he, i, ho, -⟩
  · have hold : leafTip.coins ⟨Blob.ofNat 32 7, 0⟩ = some ⟨leafSpendOut, 0, false⟩ := rfl
    rw [← Option.some.inj (hold.symm.trans hcoin)]
  -- The transaction does not spend an output of its own.
  have hhash : Blob.ofNat 32 7 ≠ leafEntry.tx.getHash prefixCrypto := by
    decide +kernel
  rw [mem_singleton.mp he] at ho
  have hprevout : (⟨Blob.ofNat 32 7, 0⟩ : OutPoint) =
      ⟨leafEntry.tx.getHash prefixCrypto, UInt32.ofNat i⟩ := ho
  exact absurd (OutPoint.mk.inj hprevout).1 hhash

theorem leavesApart_leafEntry :
    LeavesApart prefixCrypto leafNetwork leafTip [leafEntry] [OP_1] where
  acyclic := by
    decide +kernel
  once := by
    intro e he hash outs hspend
    rw [mem_singleton.mp he] at hspend ⊢
    rw [maySpend_leafEntry hspend]
    show (spendLeafKeys prefixCrypto leafNetwork (leafTip.nextFlags leafNetwork nullHash)
      leafEntry.tx [leafSpendOut]).Nodup
    decide +kernel
  apart := by
    intro e he e' he' hne
    rw [mem_singleton.mp he, mem_singleton.mp he'] at hne
    exact absurd rfl hne
  unused := fun _ _ _ _ => rfl
  coinbase := by
    intro e _ key _
    have hnone : scriptLeafKey prefixCrypto leafNetwork leafTip [OP_1] = none := by
      decide +kernel
    rw [hnone]
    exact nofun

end AssentianPQE
