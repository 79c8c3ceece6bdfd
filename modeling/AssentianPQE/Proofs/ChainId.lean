import AssentianPQE.Lib.Memo
import AssentianPQE.Proofs.ConnectCoins
import AssentianPQE.SampleSpend
import AssentianPQE.Validation.ScriptCache

/-!
# The chain id under which scripts are judged

`AcceptSingleTransaction` and `ConnectBlock` set the chain id of the network before they check
the scripts of a transaction. `AcceptMultipleTransactions` does not, so its checks are made for
chain id 1, and what it stores in the script execution cache is good for every later call.

`paths_agree_iff`: on a network the paths reach one verdict, the verdict for its chain id, and the
cache stands for that verdict, if and only if the chain id is 1. The cache is looked at after any
run of calls, with the assumption of the source that an outpoint commits to its output and that
the entries of the cache do not collide.
-/

set_option autoImplicit false

namespace AssentianPQE

open Lib List

/-! ### What the scripts depend on -/

/-- The outpoints of the inputs commit to the outputs in the view. -/
def Committed (outs : OutPoint → TxOut) (ws : Workspace) : Prop :=
  ∀ i ∈ ws.tx.vin, ∃ coin, ws.view i.prevout = some coin ∧ coin.out = outs i.prevout

variable {outs : OutPoint → TxOut} {ws : Workspace}

theorem Committed.spentCoins_out (h : Committed outs ws) :
    (spentCoins ws.view ws.tx).map Coin.out = ws.tx.vin.map fun i => outs i.prevout := by
  have hvin : ∀ vin : List TxIn,
      (∀ i ∈ vin, ∃ coin, ws.view i.prevout = some coin ∧ coin.out = outs i.prevout) →
      (vin.filterMap fun i => ws.view i.prevout).map Coin.out = vin.map fun i => outs i.prevout := by
    intro vin
    induction vin with
    | nil =>
      intro _
      rfl
    | cons i vin ih =>
      intro hvin
      obtain ⟨coin, hview, hout⟩ := hvin i mem_cons_self
      have hrest := ih fun i' hi' => hvin i' (mem_cons_of_mem i hi')
      simp only [filterMap_cons, hview, map_cons, hout, hrest]
  exact hvin ws.tx.vin h

variable {tx : Transaction} {view' : CoinsView}

/-- The scripts read the outputs that are spent, and nothing else of the view. -/
theorem scriptChecks_congr (c : Crypto) (params : Params) (flags : ScriptFlags) {view : CoinsView}
    (h : (spentCoins view tx).map Coin.out = (spentCoins view' tx).map Coin.out) :
    scriptChecks c params flags view tx = scriptChecks c params flags view' tx := by
  -- The checks as a function of the outputs.
  have houts : ∀ view : CoinsView, scriptChecks c params flags view tx =
      (tx.vin.zip ((spentCoins view tx).map Coin.out)).mapIdx fun j p =>
        verifyScript c flags
          (TxContext.checker c ⟨tx, j, p.1, p.2.nValue, (spentCoins view tx).map Coin.out,
            params.nXMSSChainId⟩)
          p.1.scriptSig p.2.scriptPubKey p.1.scriptWitness := by
    intro view
    apply ext_getElem?
    intro j
    rw [scriptChecks, getElem?_mapIdx, getElem?_mapIdx, zip_map_right,
      getElem?_map, Option.map_map]
    rfl
  rw [houts view, houts view', h]

variable {a : CheckCall}

namespace Checker

theorem scriptsOk_congr (k : Checker) (xmssChainId : UInt32) (flags : ScriptFlags)
    {view : CoinsView} (h : Committed outs ⟨tx, view⟩) (h' : Committed outs ⟨tx, view'⟩) :
    k.scriptsOk xmssChainId flags view tx = k.scriptsOk xmssChainId flags view' tx := by
  unfold scriptsOk
  rw [scriptChecks_congr _ _ _ (h.spentCoins_out.trans h'.spentCoins_out.symm)]

/-- The verdict of `CheckInputScripts`: a hit, or the scripts under the chain id of the call. -/
theorem accepts_eq (k : Checker) (cache : ScriptCache) (hcb : a.tx.isCoinBase = false) :
    k.accepts a cache = (k.hits a cache || k.scriptsOk a.xmssChainId a.flags a.view a.tx) := by
  unfold accepts checkInputScripts
  rw [if_neg (by rw [hcb]; simp)]
  cases hhit : k.hits a cache with
  | true => rfl
  | false =>
    rw [if_neg (by simp), Bool.false_or]
    cases a.queued with
    | true => rfl
    | false =>
      rw [if_neg (by simp)]
      have hiff := @checkInputScripts_ok_iff a.tx a.view k.crypto
        { k.params with nXMSSChainId := a.xmssChainId } a.flags
      cases hrun : AssentianPQE.checkInputScripts k.crypto
          { k.params with nXMSSChainId := a.xmssChainId } a.flags a.view a.tx with
      | error reason =>
        rw [hrun] at hiff
        exact (Bool.eq_false_iff.mpr fun hall => nomatch hiff.mpr hall).symm
      | ok u =>
        exact (hiff.mp hrun).symm

/-! ### What is stored -/

/-- The scripts of a transaction are good under the chain id of the network, whatever view
supplies its inputs. -/
def Good (k : Checker) (outs : OutPoint → TxOut) (q : Transaction × ScriptFlags) : Prop :=
  ∀ view, Committed outs ⟨q.1, view⟩ → k.scriptsOk k.params.nXMSSChainId q.2 view q.1 = true

/-- The cache holds entries of good transactions. -/
def CacheSound (k : Checker) (outs : OutPoint → TxOut) (asked : Transaction × ScriptFlags → Prop) :
    ScriptCache → Prop :=
  MemoSound (fun q => hashCacheEntry k.crypto k.nonce q.1 q.2) asked (k.Good outs)

variable {k : Checker} {outs : OutPoint → TxOut} {asked : Transaction × ScriptFlags → Prop}
  {cache : ScriptCache}

/-- A call under the chain id of the network keeps the cache sound. -/
theorem CacheSound.checkInputScripts (h : k.CacheSound outs asked cache)
    (hid : a.xmssChainId = k.params.nXMSSChainId) (hcommit : Committed outs ⟨a.tx, a.view⟩)
    (hasked : asked (a.tx, a.flags)) : k.CacheSound outs asked (k.checkInputScripts a cache).2 := by
  unfold Checker.checkInputScripts
  split
  · exact h
  split
  · exact h
  split
  · exact h
  split
  · exact h
  rename_i hrun
  split
  · refine MemoSound.insert h hasked ?_
    intro view hview
    rw [k.scriptsOk_congr _ _ hview hcommit]
    rw [hid] at hrun
    exact checkInputScripts_ok_iff.mp hrun
  · exact h

/-- The loop of `SubmitPackage`, on a network with chain id 1. -/
theorem CacheSound.submitPackage (hone : k.params.nXMSSChainId = 1) (tipFlags : ScriptFlags)
    (workspaces : List Workspace)
    (hws : ∀ ws ∈ workspaces, Committed outs ws ∧ asked (ws.tx, tipFlags)) :
    ∀ {cache : ScriptCache}, k.CacheSound outs asked cache →
      k.CacheSound outs asked (k.submitPackage tipFlags workspaces cache).2 := by
  induction workspaces with
  | nil =>
    intro cache h
    exact h
  | cons ws rest ih =>
    intro cache h
    obtain ⟨hcommit, hasked⟩ := hws ws mem_cons_self
    have hfirst : k.CacheSound outs asked
        (k.checkInputScripts (consensusCall 1 ws.tx ws.view tipFlags) cache).2 :=
      h.checkInputScripts hone.symm hcommit hasked
    exact ih (fun ws' hws' => hws ws' (mem_cons_of_mem ws hws')) hfirst

theorem CacheSound.connectScripts (b : BlockChecks) (workspaces : List Workspace)
    (hws : ∀ ws ∈ workspaces, Committed outs ws ∧ asked (ws.tx, b.flags)) :
    ∀ {cache : ScriptCache}, k.CacheSound outs asked cache →
      k.CacheSound outs asked (k.connectScripts b workspaces cache).2 := by
  induction workspaces with
  | nil =>
    intro cache h
    exact h
  | cons ws rest ih =>
    intro cache h
    obtain ⟨hcommit, hasked⟩ := hws ws mem_cons_self
    have hfirst : k.CacheSound outs asked (k.checkInputScripts (k.blockCall b ws) cache).2 :=
      h.checkInputScripts rfl hcommit hasked
    have hrest := ih (fun ws' hws' => hws ws' (mem_cons_of_mem ws hws')) hfirst
    unfold Checker.connectScripts
    cases hrun : k.checkInputScripts (k.blockCall b ws) cache with
    | mk verdict cache' =>
      rw [hrun] at hfirst hrest
      cases verdict with
      | error reason => exact hfirst
      | ok queueOk => exact hrest

end Checker

/-! ### Runs -/

/-- The checks whose results an operation can store. -/
def CacheOp.checks : CacheOp → List (Workspace × ScriptFlags)
  | .single tipFlags ws => [(ws, tipFlags)]
  | .multiple _ tipFlags workspaces => workspaces.map fun ws => (ws, tipFlags)
  | .connect b workspaces => workspaces.map fun ws => (ws, b.flags)
  | .evict _ => []

/-- The inputs of an operation are committed to, and its checks are among those asked. -/
def CacheOp.Meets (outs : OutPoint → TxOut) (asked : Transaction × ScriptFlags → Prop)
    (op : CacheOp) : Prop :=
  ∀ p ∈ op.checks, Committed outs p.1 ∧ asked (p.1.tx, p.2)

namespace Checker

variable {k : Checker} {outs : OutPoint → TxOut} {asked : Transaction × ScriptFlags → Prop}
  {cache : ScriptCache}

/-- On a network with chain id 1 every operation keeps the cache sound. -/
theorem CacheSound.step (hone : k.params.nXMSSChainId = 1) (h : k.CacheSound outs asked cache)
    {op : CacheOp} (hop : op.Meets outs asked) : k.CacheSound outs asked (k.step cache op) := by
  cases op with
  | single tipFlags ws =>
    obtain ⟨hcommit, hasked⟩ := hop (ws, tipFlags) (mem_singleton_self _)
    have hstore : k.CacheSound outs asked (k.checkInputScripts
        (consensusCall k.params.nXMSSChainId ws.tx ws.view tipFlags) cache).2 :=
      h.checkInputScripts rfl hcommit hasked
    show k.CacheSound outs asked (k.acceptSingleTransaction tipFlags ws cache).2
    unfold acceptSingleTransaction
    simp only
    split
    · exact h
    · split <;> rename_i hrun <;> rw [hrun] at hstore <;> exact hstore
  | multiple testAccept tipFlags workspaces =>
    show k.CacheSound outs asked
      (k.acceptMultipleTransactions testAccept tipFlags workspaces cache).2
    unfold acceptMultipleTransactions
    split
    · exact h
    split
    · exact h
    · exact CacheSound.submitPackage hone tipFlags workspaces
        (fun ws hws => hop (ws, tipFlags) (mem_map_of_mem hws)) h
  | connect b workspaces =>
    exact CacheSound.connectScripts b workspaces
      (fun ws hws => hop (ws, b.flags) (mem_map_of_mem hws)) h
  | evict keep => exact MemoSound.filter h keep

theorem cacheSound_run (hone : k.params.nXMSSChainId = 1) (ops : List CacheOp)
    (hops : ∀ op ∈ ops, op.Meets outs asked) : k.CacheSound outs asked (k.run ops) := by
  have hfold : ∀ (ops : List CacheOp) (cache : ScriptCache), (∀ op ∈ ops, op.Meets outs asked) →
      k.CacheSound outs asked cache → k.CacheSound outs asked (ops.foldl k.step cache) := by
    intro ops
    induction ops with
    | nil =>
      intro cache _ h
      exact h
    | cons op ops ih =>
      intro cache hops h
      exact ih (k.step cache op) (fun o ho => hops o (mem_cons_of_mem op ho))
        (h.step hone (hops op mem_cons_self))
  exact hfold ops [] hops memoSound_nil

/-! ### The paths -/

/-- The calls of `CheckInputScripts` with which the paths judge a transaction under some flags. -/
inductive PathCall (k : Checker) (ws : Workspace) (flags : ScriptFlags) : CheckCall → Prop where
  | singlePolicy : PathCall k ws flags (policyCall k.params.nXMSSChainId ws.tx ws.view flags)
  | singleConsensus : PathCall k ws flags (consensusCall k.params.nXMSSChainId ws.tx ws.view flags)
  | multiplePolicy : PathCall k ws flags (policyCall 1 ws.tx ws.view flags)
  | multipleConsensus : PathCall k ws flags (consensusCall 1 ws.tx ws.view flags)
  | block (b : BlockChecks) (hb : b.flags = flags) : PathCall k ws flags (k.blockCall b ws)

/-- What the call is about, and its chain id. -/
theorem PathCall.spec {k : Checker} {flags : ScriptFlags} (h : PathCall k ws flags a) :
    a.tx = ws.tx ∧ a.view = ws.view ∧ a.flags = flags ∧
      (a.xmssChainId = k.params.nXMSSChainId ∨ a.xmssChainId = 1) := by
  cases h with
  | singlePolicy => exact ⟨rfl, rfl, rfl, .inl rfl⟩
  | singleConsensus => exact ⟨rfl, rfl, rfl, .inl rfl⟩
  | multiplePolicy => exact ⟨rfl, rfl, rfl, .inr rfl⟩
  | multipleConsensus => exact ⟨rfl, rfl, rfl, .inr rfl⟩
  | block b hb => exact ⟨rfl, rfl, hb, .inl rfl⟩

/-- The verdicts on one transaction with a cache: every path judges it under the chain id of the
network, all of them reach one verdict, and a hit stands for scripts that are good under it. -/
structure OneVerdict (k : Checker) (ws : Workspace) (flags : ScriptFlags) (cache : ScriptCache) :
    Prop where
  judged : ∀ a, PathCall k ws flags a →
    k.accepts a cache = k.scriptsOk k.params.nXMSSChainId flags ws.view ws.tx
  same : ∀ a a', PathCall k ws flags a → PathCall k ws flags a' →
    k.accepts a cache = k.accepts a' cache
  cached : ∀ a, PathCall k ws flags a → k.hits a cache = true →
    k.scriptsOk k.params.nXMSSChainId flags ws.view ws.tx = true

/-- On a network the paths agree after every run: for outpoints that commit to their outputs, and
for checks whose entries in the cache do not collide. -/
def PathsAgree (k : Checker) : Prop :=
  ∀ (outs : OutPoint → TxOut) (asked : Transaction × ScriptFlags → Prop),
    Set.InjOn (fun q : Transaction × ScriptFlags => hashCacheEntry k.crypto k.nonce q.1 q.2)
      {q | asked q} →
    ∀ ops : List CacheOp, (∀ op ∈ ops, op.Meets outs asked) →
    ∀ (ws : Workspace) (flags : ScriptFlags), ws.tx.isCoinBase = false → Committed outs ws →
      asked (ws.tx, flags) → OneVerdict k ws flags (k.run ops)

/-- Some spend is judged differently under chain id 1. -/
def TellsApart (k : Checker) : Prop :=
  ∃ (ws : Workspace) (flags : ScriptFlags), ws.tx.isCoinBase = false ∧
    (∀ i ∈ ws.tx.vin, (ws.view i.prevout).isSome) ∧
    k.scriptsOk 1 flags ws.view ws.tx ≠ k.scriptsOk k.params.nXMSSChainId flags ws.view ws.tx

/-- A sound cache and chain id 1 give one verdict. -/
theorem CacheSound.oneVerdict (hone : k.params.nXMSSChainId = 1) (h : k.CacheSound outs asked cache)
    (hinj : Set.InjOn (fun q : Transaction × ScriptFlags =>
      hashCacheEntry k.crypto k.nonce q.1 q.2) {q | asked q}) {flags : ScriptFlags}
    (hcb : ws.tx.isCoinBase = false) (hcommit : Committed outs ws) (hasked : asked (ws.tx, flags)) :
    OneVerdict k ws flags cache := by
  have hcached : ∀ a, PathCall k ws flags a → k.hits a cache = true →
      k.scriptsOk k.params.nXMSSChainId flags ws.view ws.tx = true := by
    intro a ha hhit
    obtain ⟨htx, -, hflags, -⟩ := ha.spec
    unfold hits entry at hhit
    rw [htx, hflags, Bool.and_eq_true, contains_iff_mem] at hhit
    have hgood : k.Good outs (ws.tx, flags) := MemoSound.hit h hinj hasked hhit.2
    exact hgood ws.view hcommit
  have hjudged : ∀ a, PathCall k ws flags a →
      k.accepts a cache = k.scriptsOk k.params.nXMSSChainId flags ws.view ws.tx := by
    intro a ha
    obtain ⟨htx, hview, hflags, hid⟩ := ha.spec
    have hid : a.xmssChainId = k.params.nXMSSChainId := by
      rcases hid with hid | hid
      · exact hid
      · rw [hid, hone]
    rw [accepts_eq k cache (by rw [htx, hcb]), htx, hview, hflags, hid]
    cases hhit : k.hits a cache with
    | true => rw [hcached a ha hhit]; rfl
    | false => rfl
  exact ⟨hjudged, fun a a' ha ha' => (hjudged a ha).trans (hjudged a' ha').symm, hcached⟩

/-- The paths agree on a network if and only if its chain id is 1. That other chain ids do not
agree needs a spend that the signature scheme accepts under one of two chain ids only. -/
theorem paths_agree_iff (k : Checker) (hscheme : k.params.nXMSSChainId ≠ 1 → k.TellsApart) :
    k.PathsAgree ↔ k.params.nXMSSChainId = 1 := by
  constructor
  · intro hagree
    by_contra hne
    obtain ⟨ws, flags, hcb, hcoins, hdiffer⟩ := hscheme hne
    -- The spend alone, before anything is in the cache.
    let outs : OutPoint → TxOut := fun o => ((ws.view o).map Coin.out).getD ⟨0, []⟩
    have hcommit : Committed outs ws := by
      intro i hi
      obtain ⟨coin, hcoin⟩ := Option.isSome_iff_exists.mp (hcoins i hi)
      refine ⟨coin, hcoin, ?_⟩
      simp only [outs, hcoin, Option.map_some, Option.getD_some]
    have hone := hagree outs (fun q => q = (ws.tx, flags))
      (fun q hq q' hq' _ => hq.trans hq'.symm) [] (by simp) ws flags hcb hcommit rfl
    have hjudged := hone.judged _ .multiplePolicy
    have hmiss : k.hits (policyCall 1 ws.tx ws.view flags) (k.run []) = false := Bool.and_false _
    rw [accepts_eq k _ hcb, hmiss, Bool.false_or] at hjudged
    exact hdiffer hjudged
  · intro hone outs asked hinj ops hops ws flags hcb hcommit hasked
    exact (cacheSound_run hone ops hops).oneVerdict hone hinj hcb hcommit hasked

/-- A node of a network with a chain id. -/
def sample (xmssChainId : UInt32) : Checker where
  crypto := sampleCrypto
  params := { sampleParams with nXMSSChainId := xmssChainId }
  nonce := nullHash

/-- A spend that was signed for chain id 1. -/
def sampleWorkspace : Workspace where
  tx := sampleSpend 5 leafSpendOut leafSpendOut.scriptPubKey []
  view := sampleView leafSpendOut

/-- The flags of the tip. -/
def sampleTipFlags : ScriptFlags := { p2sh := true, witness := true, taproot := true }

/-- The main network has chain id 1 and regtest has chain id 4. -/
theorem paths_agree_iff_main_regtest : (sample 1).PathsAgree ∧ ¬ (sample 4).PathsAgree := by
  have hregtest : (sample 4).TellsApart := by
    refine ⟨sampleWorkspace, sampleTipFlags, ?_⟩
    decide +kernel
  refine ⟨(paths_agree_iff (sample 1) fun h => absurd rfl h).mpr rfl, fun hagree => ?_⟩
  exact absurd ((paths_agree_iff (sample 4) fun _ => hregtest).mp hagree) (by decide)

/-- On regtest a spend that was signed for chain id 1 is refused when it comes alone, and accepted
in a package. The package puts it into the cache, and a block with it is then accepted without a
run of its scripts, which fail. -/
theorem package_judged_under_main :
    ((sample 4).acceptSingleTransaction sampleTipFlags sampleWorkspace []).1 = false ∧
      ((sample 4).acceptMultipleTransactions false sampleTipFlags [sampleWorkspace] []).1 = true ∧
      (sample 4).hits ((sample 4).blockCall ⟨false, false, false, sampleTipFlags⟩ sampleWorkspace)
        ((sample 4).run [.multiple false sampleTipFlags [sampleWorkspace]]) = true ∧
      ((sample 4).connectScripts ⟨false, false, false, sampleTipFlags⟩ [sampleWorkspace]
        ((sample 4).run [.multiple false sampleTipFlags [sampleWorkspace]])).1 = true ∧
      (sample 4).scriptsOk 4 sampleTipFlags sampleWorkspace.view sampleWorkspace.tx = false := by
  decide +kernel

end Checker

end AssentianPQE
