import AssentianPQE.Lib.Run
import AssentianPQE.Mining.GenerateBlock
import AssentianPQE.Proofs.LedgerClaims

/-!
# The seeds that mining publishes

`GenerateBlock` takes its tree from a file and compares its root with the target of each new
template. A tree that has signed blocks counts as failed as soon as the target drops below its
root, and its seed is then published with the others.

`Careful` is a condition on the steps of a run: a tree that has signed is not above the target
when it is compared with it, and no leaf is claimed from a tree whose seed is on a list.
`published_seeds_unsigned` is the result for runs of such steps. `signed_seed_published` is a run
in which the target drops.

The invariant does not look at the ledger. `MinerView` is the rest of the datadir.
-/

set_option autoImplicit false

namespace AssentianPQE

open Lib Durable List Option

variable {x : XmssKeys} {root : Uint256} {st : XMSSMinerState} {α : Type} {k : Mining}
  {d : MinerDir} {failed : List FslEntry} {call : Option MinerCall}

/-! ### Trees and seeds -/

/-- What is assumed of `xmss_keypair`: the secret key has the random bytes in it. -/
structure KeypairSpec (x : XmssKeys) : Prop where
  seed_length : ∀ seed pk sk, x.keypair seed = some (pk, sk) → seed.length = 96
  seed_eq : ∀ seed pk sk, x.keypair seed = some (pk, sk) → skSeed sk = seed
  sk_length : ∀ seed pk sk, x.keypair seed = some (pk, sk) → sk.length < 2 ^ 32

/-- The seed of the tree with a root. -/
def IsSeedOf (x : XmssKeys) (seed : Bytes) (root : Uint256) : Prop :=
  ∃ pk sk, x.keypair seed = some (pk, sk) ∧ treeRoot pk = root

theorem IsSeedOf.root_eq {seed : Bytes} {root' : Uint256} (h : IsSeedOf x seed root)
    (h' : IsSeedOf x seed root') : root = root' := by
  obtain ⟨pk, sk, hpair, rfl⟩ := h
  obtain ⟨pk', sk', hpair', rfl⟩ := h'
  rw [hpair] at hpair'
  cases hpair'
  rfl

/-- A state of a tree that `BuildNewTree` has built. -/
structure Made (x : XmssKeys) (st : XMSSMinerState) : Prop where
  magic : st.magic = STATE_MAGIC
  version : st.version = STATE_VERSION
  skLen : st.sk.length = st.skLen.toNat
  tree : ∃ seed pk, x.keypair seed = some (pk, st.sk) ∧ treeRoot pk = st.xmssRoot

theorem made_buildNewTree (hx : KeypairSpec x) {seed : Bytes} {stamp : Blob OWNER_STAMP_BYTES}
    (h : buildNewTree x seed stamp = some st) : Made x st ∧ IsSeedOf x seed st.xmssRoot := by
  obtain ⟨⟨pk, sk⟩, hpair, rfl⟩ := map_eq_some_iff.mp h
  have hlen : sk.length = (UInt32.ofNat sk.length).toNat := by
    rw [UInt32.toNat_ofNat', Nat.mod_eq_of_lt (hx.sk_length _ _ _ hpair)]
  exact ⟨⟨rfl, rfl, hlen, seed, pk, hpair, rfl⟩, pk, sk, hpair, rfl⟩

/-- The entry of a tree has its seed. -/
theorem Made.isSeedOf (hx : KeypairSpec x) (h : Made x st) :
    IsSeedOf x (fslSeed st.sk).data st.xmssRoot := by
  obtain ⟨seed, pk, hpair, hroot⟩ := h.tree
  have hseed : (fslSeed st.sk).data = seed := by
    have hlen : (skSeed st.sk).length = 96 := by
      rw [hx.seed_eq _ _ _ hpair]
      exact hx.seed_length _ _ _ hpair
    rw [fslSeed, Blob.ofBytes?, dif_pos hlen]
    exact hx.seed_eq _ _ _ hpair
  rw [hseed]
  exact ⟨pk, st.sk, hpair, hroot⟩

/-! ### The datadir without its ledger -/

/-- The state file and the logs. -/
structure MinerView where
  minerState : Option Bytes
  trees : List Uint256
  signed : List Uint256
  published : List FslEntry

variable {v : MinerView}

def MinerDir.view (d : MinerDir) : MinerView :=
  ⟨d.minerState, d.trees, d.signed, d.published⟩

/-- A call of the ledger changes nothing else. -/
theorem onLedger_ensures (x : Durable LedgerDir α) (d : MinerDir) :
    (onLedger x).Ensures d fun d' _ => d'.view = d.view :=
  fun _ => rfl

theorem claimLogged_ensures (x : XmssKeys) (io : Io) (root : Uint256) (hash32 : Bytes)
    (d : MinerDir) :
    (claimLogged x io root hash32).Ensures d fun d' r =>
      (d'.view = d.view ∧ ∀ out, r ≠ some (some out)) ∨
        d'.view = { d.view with signed := root :: d.signed } := by
  unfold claimLogged
  refine ensures_bind (onLedger_ensures _ d) ?_ ?_
  · intro d' hview
    exact .inl ⟨hview, by simp⟩
  intro d' out hview
  cases out with
  | none => exact ensures_pure (.inl ⟨hview, by simp⟩)
  | some out =>
    refine ensures_write_bind (.inl ⟨hview, by simp⟩) (ensures_pure (.inr ?_))
    have hsigned : d'.signed = d.signed := congrArg MinerView.signed hview
    show ({ d'.view with signed := root :: d'.signed } : MinerView) = _
    rw [hview, hsigned]

/-- `Save` replaces the file or leaves it. It succeeds only after it has replaced it. -/
theorem minerSave_ensures (io : Io) (st : XMSSMinerState) (d : MinerDir) :
    (minerSave io st).Ensures d fun d' r =>
      (d'.view = d.view ∧ r ≠ some .saved) ∨
        d'.view = { d.view with minerState := some st.serialize } := by
  unfold minerSave
  simp only
  split
  · exact ensures_pure (.inl ⟨rfl, by simp⟩)
  refine ensures_write_bind (.inl ⟨rfl, by simp⟩) ?_
  split
  · exact ensures_write_bind (.inl ⟨rfl, by simp⟩)
      (ensures_pure (.inl ⟨rfl, by simp⟩))
  refine ensures_write_bind (.inl ⟨rfl, by simp⟩) ?_
  split
  · exact ensures_pure (.inl ⟨rfl, by simp⟩)
  split
  · exact ensures_pure (.inl ⟨rfl, by simp⟩)
  · exact ensures_write_bind (.inl ⟨rfl, by simp⟩) (ensures_pure (.inr rfl))

/-! ### The invariant -/

/-- A published entry has the seed of its tree, which was built and has not signed. -/
structure EntryInv (x : XmssKeys) (v : MinerView) (e : FslEntry) : Prop where
  built : e.xmss_root ∈ v.trees
  unsigned : e.xmss_root ∉ v.signed
  seed : IsSeedOf x e.sk_seed.data e.xmss_root

/-- A tree in use was built and is on no list. -/
structure TreeInv (x : XmssKeys) (v : MinerView) (failed : List FslEntry) (st : XMSSMinerState) :
    Prop where
  made : Made x st
  built : st.xmssRoot ∈ v.trees
  unpublished : ∀ e ∈ v.published, e.xmss_root ≠ st.xmssRoot
  unfailed : ∀ e ∈ failed, e.xmss_root ≠ st.xmssRoot

/-- The datadir while a call has collected some failed seeds. -/
structure DirInv (x : XmssKeys) (v : MinerView) (failed : List FslEntry) : Prop where
  published : ∀ e ∈ v.published, EntryInv x v e
  collected : ∀ e ∈ failed, EntryInv x v e
  file : ∀ st, v.minerState.bind XMSSMinerState.deserialize = some st → TreeInv x v failed st

/-- The datadir and the running call. -/
def MinerInv (x : XmssKeys) (v : MinerView) : Option MinerCall → Prop
  | none => DirInv x v []
  | some a => DirInv x v a.failed ∧ TreeInv x v a.failed a.state

namespace DirInv

variable {x : XmssKeys} {v : MinerView} {failed : List FslEntry}

section
variable (h : DirInv x v failed)
include h

theorem forget : DirInv x v [] where
  published := h.published
  collected := by simp
  file st hst := { h.file st hst with unfailed := by simp }

/-- A tree in use can be saved. -/
theorem save (hst : TreeInv x v failed st) : DirInv x { v with minerState := some st.serialize } failed where
  published e he := { h.published e he with }
  collected e he := { h.collected e he with }
  file st' hst' := by
    have heq : st' = st :=
      eq_of_deserialize_serialize hst.made.magic hst.made.version hst.made.skLen hst'
    rw [heq]
    exact { hst with }

/-- A tree that is on no list can sign. -/
theorem sign (hpublished : ∀ e ∈ v.published, e.xmss_root ≠ root)
    (hfailed : ∀ e ∈ failed, e.xmss_root ≠ root) : DirInv x { v with signed := root :: v.signed } failed where
  published e he :=
    { h.published e he with
      unsigned := fun hmem => (mem_cons.mp hmem).elim (hpublished e he)
        (h.published e he).unsigned }
  collected e he :=
    { h.collected e he with
      unsigned := fun hmem => (mem_cons.mp hmem).elim (hfailed e he)
        (h.collected e he).unsigned }
  file st hst := { h.file st hst with }

/-- A new tree can be built. -/
theorem build (root : Uint256) : DirInv x { v with trees := root :: v.trees } failed where
  published e he := { h.published e he with built := mem_cons_of_mem _ (h.published e he).built }
  collected e he := { h.collected e he with built := mem_cons_of_mem _ (h.collected e he).built }
  file st hst := { h.file st hst with built := mem_cons_of_mem _ (h.file st hst).built }

/-- A tree with a root that was not built before is on no list. -/
theorem tree_of_new (hmade : Made x st) (hnew : st.xmssRoot ∉ v.trees) :
    TreeInv x { v with trees := st.xmssRoot :: v.trees } failed st where
  made := hmade
  built := mem_cons_self
  unpublished e he heq := hnew (heq ▸ (h.published e he).built)
  unfailed e he heq := hnew (heq ▸ (h.collected e he).built)

/-- The collected seeds can be published, once the tree in use has signed. -/
theorem publish : DirInv x { v with published := publishedEntries failed ++ v.published } [] := by
  have hsub : ∀ e ∈ publishedEntries failed, e ∈ failed := by
    intro e he
    unfold publishedEntries at he
    split at he
    · exact he
    · cases he
  have hall : ∀ e ∈ publishedEntries failed ++ v.published, EntryInv x v e := by
    intro e he
    rcases mem_append.mp he with he | he
    · exact h.collected e (hsub e he)
    · exact h.published e he
  refine ⟨fun e he => { hall e he with }, by simp, fun st hst => ?_⟩
  refine { h.file st hst with unpublished := ?_, unfailed := by simp }
  intro e he
  rcases mem_append.mp he with he | he
  · exact (h.file st hst).unfailed e (hsub e he)
  · exact (h.file st hst).unpublished e he

end

end DirInv

/-! ### The parts of a call -/

/-- A seed gives a tree that was not built before. -/
def NewTree (x : XmssKeys) (seed : Bytes) (v : MinerView) : Prop :=
  ∀ p ∈ x.keypair seed, treeRoot p.1 ∉ v.trees

/-- The datadir with a new tree in its file. -/
def MinerView.withTree (v : MinerView) (st : XMSSMinerState) : MinerView :=
  { v with minerState := some st.serialize, trees := st.xmssRoot :: v.trees }

theorem build_ensures (hx : KeypairSpec k.keys) (seed : Bytes) (stamp : Blob OWNER_STAMP_BYTES)
    (hnew : NewTree k.keys seed d.view) :
    (k.build seed stamp).Ensures d fun d' r =>
      (d'.view = d.view ∧ ∀ st, r ≠ some (some st)) ∨
        ∃ st, r = some (some st) ∧ Made k.keys st ∧ st.xmssRoot ∉ d.view.trees ∧
          d'.view = { d.view with trees := st.xmssRoot :: d.view.trees } := by
  unfold Mining.build
  cases hbuild : buildNewTree k.keys seed stamp with
  | none => exact ensures_pure (.inl ⟨rfl, by simp⟩)
  | some st =>
    obtain ⟨hmade, pk, sk, hpair, hroot⟩ := made_buildNewTree hx hbuild
    have hst : st.xmssRoot ∉ d.view.trees := by
      rw [← hroot]
      exact hnew (pk, sk) hpair
    exact ensures_write_bind (.inl ⟨rfl, by simp⟩)
      (ensures_pure (.inr ⟨st, rfl, hmade, hst, rfl⟩))

/-- A tree is built and saved. Wherever this ends the tree in the file is on no list. -/
theorem buildAndSave_ensures (hx : KeypairSpec k.keys) (seed : Bytes) (io : Io)
    (stamp : Blob OWNER_STAMP_BYTES) (h : DirInv k.keys d.view failed)
    (hnew : NewTree k.keys seed d.view) :
    (k.buildAndSave seed io stamp).Ensures d fun d' r =>
      DirInv k.keys d'.view failed ∧
        ∀ st, r = some (some st) → Made k.keys st ∧ st.xmssRoot ∉ d.view.trees ∧
          d'.view = d.view.withTree st := by
  unfold Mining.buildAndSave
  refine ensures_bind (build_ensures hx seed stamp hnew) ?_ ?_
  · rintro d' (⟨hview, -⟩ | ⟨st, hr, -⟩)
    · rw [hview]
      exact ⟨h, by simp⟩
    · cases hr
  · rintro d₁ r (⟨hview, hr⟩ | ⟨st, hr, hmade, hst, hview⟩)
    · cases r with
      | none =>
        refine ensures_pure ?_
        rw [hview]
        exact ⟨h, by simp⟩
      | some st => exact absurd rfl (hr st)
    · cases hr
      -- The directory after the tree is built, and after it is saved.
      have hbuilt : DirInv k.keys d₁.view failed := by
        rw [hview]
        exact h.build st.xmssRoot
      have htree : TreeInv k.keys d₁.view failed st := by
        rw [hview]
        exact h.tree_of_new hmade hst
      refine ensures_bind (minerSave_ensures io st d₁) ?_ ?_
      · rintro d' (⟨hview', -⟩ | hview')
        · rw [hview']
          exact ⟨hbuilt, by simp⟩
        · rw [hview']
          exact ⟨hbuilt.save htree, by simp⟩
      · intro d' r hsave
        have hdir : DirInv k.keys d'.view failed := by
          rcases hsave with ⟨hview', -⟩ | hview'
          · rw [hview']
            exact hbuilt
          · rw [hview']
            exact hbuilt.save htree
        cases r with
        | failed => exact ensures_pure ⟨hdir, by simp⟩
        | thrown => exact ensures_pure ⟨hdir, by simp⟩
        | saved =>
          refine ensures_pure ⟨hdir, ?_⟩
          rcases hsave with ⟨-, hnot⟩ | hview'
          · exact absurd rfl hnot
          intro st' heq
          obtain rfl : st = st' := Option.some.inj (Option.some.inj heq)
          refine ⟨hmade, hst, ?_⟩
          rw [hview', hview]
          rfl

/-- A new tree is in use once it is saved. -/
theorem DirInv.withTree (h : DirInv x v failed) (hmade : Made x st) (hnew : st.xmssRoot ∉ v.trees) :
    DirInv x (v.withTree st) failed ∧ TreeInv x (v.withTree st) failed st :=
  ⟨(h.build st.xmssRoot).save (h.tree_of_new hmade hnew), { h.tree_of_new hmade hnew with }⟩

/-- `GenerateBlock` up to its loop. -/
theorem start_ensures (hx : KeypairSpec k.keys) (env : StartEnv) (t : Template)
    (h : DirInv k.keys d.view []) (hnew : NewTree k.keys env.seed d.view) :
    (k.start env t).Ensures d fun d' r => MinerInv k.keys d'.view (r.bind id) := by
  unfold Mining.start
  refine ensures_read_bind ?_
  cases hload : minerLoad env.load d with
  | none =>
    refine ensures_read_bind ?_
    refine ensures_bind (buildAndSave_ensures hx env.seed env.save _ h hnew) ?_ ?_
    · intro d' hd'
      exact hd'.1
    rintro d₁ r ⟨hdir, hres⟩
    cases r with
    | none => exact ensures_pure hdir
    | some st =>
      obtain ⟨hmade, hst, hview⟩ := hres st rfl
      obtain ⟨-, htree⟩ := h.withTree hmade hst
      rw [← hview] at htree
      refine ensures_bind (onLedger_ensures _ d₁) ?_ ?_
      · intro d' hview'
        show DirInv k.keys d'.view []
        rw [hview']
        exact hdir
      · intro d' ok hview'
        cases ok with
        | false =>
          refine ensures_pure ?_
          show DirInv k.keys d'.view []
          rw [hview']
          exact hdir
        | true =>
          refine ensures_pure ?_
          show DirInv k.keys d'.view [] ∧ TreeInv k.keys d'.view [] st
          rw [hview']
          exact ⟨hdir, htree⟩
  | some st =>
    -- The tree is the one in the file.
    have htree : TreeInv k.keys d.view [] st := by
      obtain ⟨data, hdata, hst⟩ := bind_eq_some_iff.mp hload
      split at hst
      · refine h.file st ?_
        show d.minerState.bind _ = _
        rw [hdata]
        exact (filter_eq_some_iff.mp hst).1
      · cases hst
    refine ensures_read_bind ?_
    split
    · exact ensures_pure ⟨h, htree⟩
    refine ensures_bind (onLedger_ensures _ d) ?_ ?_
    · intro d' hview
      show DirInv k.keys d'.view []
      rw [hview]
      exact h
    · intro d' _ hview
      refine ensures_pure ?_
      show DirInv k.keys d'.view [] ∧ TreeInv k.keys d'.view [] st
      rw [hview]
      exact ⟨h, htree⟩

/-- A tree that cannot sign is replaced. -/
theorem rotate_ensures (hx : KeypairSpec k.keys) (env : TurnEnv) (a : MinerCall)
    (h : DirInv k.keys d.view a.failed) (hnew : NewTree k.keys env.seed d.view) :
    (k.rotate env a).Ensures d fun d' r => MinerInv k.keys d'.view (r.bind Turn.call) := by
  unfold Mining.rotate
  refine ensures_bind (buildAndSave_ensures hx env.seed env.save _ h hnew) ?_ ?_
  · intro d' hd'
    exact hd'.1.forget
  rintro d' r ⟨hdir, hres⟩
  cases r with
  | none => exact ensures_pure hdir.forget
  | some st =>
    obtain ⟨hmade, hst, hview⟩ := hres st rfl
    refine ensures_pure ?_
    show DirInv k.keys d'.view a.failed ∧ TreeInv k.keys d'.view a.failed st
    rw [hview]
    exact h.withTree hmade hst

/-- The collected seeds are published after the tree in use has signed. -/
theorem finish_ensures (env : TurnEnv) (a : MinerCall) (sig : Bytes) (leafUsed : UInt32)
    (h : DirInv k.keys d.view a.failed) (hst : TreeInv k.keys d.view a.failed a.state) :
    (k.finish env a sig leafUsed).Ensures d fun d' r =>
      MinerInv k.keys d'.view (r.bind Turn.call) := by
  unfold Mining.finish
  simp only
  -- The counter is not part of what the invariant says about a tree.
  have hst' : TreeInv k.keys d.view a.failed { a.state with nextLeafIndex := leafUsed + 1 } :=
    ⟨⟨hst.made.magic, hst.made.version, hst.made.skLen, hst.made.tree⟩, hst.built,
      hst.unpublished, hst.unfailed⟩
  refine ensures_bind (minerSave_ensures env.saveClaimed _ d) ?_ ?_
  · rintro d' (⟨hview, -⟩ | hview)
    · show DirInv k.keys d'.view []
      rw [hview]
      exact h.forget
    · show DirInv k.keys d'.view []
      rw [hview]
      exact (h.save hst').forget
  · intro d' r hsave
    have hdir : DirInv k.keys d'.view a.failed := by
      rcases hsave with ⟨hview, -⟩ | hview
      · rw [hview]
        exact h
      · rw [hview]
        exact h.save hst'
    have hpublish : Durable.Ensures (do
        Durable.write fun d => { d with published := publishedEntries a.failed ++ d.published }
        pure (.done (some (minedBlock k.crypto a.block
          { a.state with nextLeafIndex := leafUsed + 1 } leafUsed sig a.height a.failed)))) d'
        fun d' r => MinerInv k.keys d'.view (r.bind Turn.call) :=
      ensures_write_bind hdir.forget (ensures_pure hdir.publish)
    cases r with
    | thrown => exact ensures_pure hdir.forget
    | failed => exact hpublish
    | saved => exact hpublish

/-- The branch for a tree that is not above the target. -/
theorem sign_ensures (hx : KeypairSpec k.keys) (env : TurnEnv) (a : MinerCall)
    (h : DirInv k.keys d.view a.failed) (hst : TreeInv k.keys d.view a.failed a.state)
    (hnew : NewTree k.keys env.seed d.view) :
    (k.sign env a).Ensures d fun d' r => MinerInv k.keys d'.view (r.bind Turn.call) := by
  unfold Mining.sign
  refine ensures_bind (onLedger_ensures _ d) ?_ ?_
  · intro d' hview
    show DirInv k.keys d'.view []
    rw [hview]
    exact h.forget
  · intro d₁ ok hview
    rw [← hview] at h hst hnew
    cases ok with
    | false => exact ensures_pure h.forget
    | true =>
      show Durable.Ensures (if a.state.isExhausted then _ else _) d₁ _
      split
      · exact rotate_ensures hx env a h hnew
      -- A tree that signs is on no list, so the lists stay as they should be.
      have hsigned := h.sign hst.unpublished hst.unfailed
      refine ensures_bind (claimLogged_ensures _ _ _ _ d₁) ?_ ?_
      · rintro d' (⟨hview', -⟩ | hview')
        · show DirInv k.keys d'.view []
          rw [hview']
          exact h.forget
        · show DirInv k.keys d'.view []
          rw [hview']
          exact hsigned.forget
      · intro d' out hclaim
        have hd' : DirInv k.keys d'.view a.failed ∧ TreeInv k.keys d'.view a.failed a.state ∧
            NewTree k.keys env.seed d'.view := by
          rcases hclaim with ⟨hview', -⟩ | hview'
          · rw [hview']
            exact ⟨h, hst, hnew⟩
          · rw [hview']
            exact ⟨hsigned, { hst with }, hnew⟩
        cases out with
        | none => exact rotate_ensures hx env a hd'.1 hd'.2.2
        | some out => exact finish_ensures env a out.1 out.2 hd'.1 hd'.2.1

theorem mem_addFailedSeed {c : Crypto} {height : UInt32} {e : FslEntry}
    (he : e ∈ addFailedSeed c height st failed) :
    e ∈ failed ∨ (e.xmss_root = st.xmssRoot ∧ e.sk_seed = fslSeed st.sk) := by
  unfold addFailedSeed at he
  split at he
  · exact .inl he
  · rcases mem_append.mp he with he | he
    · exact .inl he
    · obtain rfl := mem_singleton.mp he
      exact .inr ⟨rfl, rfl⟩

/-- A tree that has not signed can be replaced and its seed collected. -/
theorem DirInv.fail (hx : KeypairSpec x) (h : DirInv x v failed) {old : XMSSMinerState}
    (hold : TreeInv x v failed old) (hunsigned : old.xmssRoot ∉ v.signed) (hmade : Made x st)
    (hnew : st.xmssRoot ∉ v.trees) (c : Crypto) (height : UInt32) :
    DirInv x (v.withTree st) (addFailedSeed c height old failed) ∧
      TreeInv x (v.withTree st) (addFailedSeed c height old failed) st := by
  have hentry : ∀ e ∈ addFailedSeed c height old failed, EntryInv x v e := by
    intro e he
    rcases mem_addFailedSeed he with he | ⟨hroot, hseed⟩
    · exact h.collected e he
    · refine ⟨hroot ▸ hold.built, hroot ▸ hunsigned, ?_⟩
      rw [hseed, hroot]
      exact hold.made.isSeedOf hx
  -- The tree in the file is the new one, so only the two lists matter.
  have hdir : DirInv x { v with minerState := none } (addFailedSeed c height old failed) :=
    ⟨fun e he => { h.published e he with }, fun e he => { hentry e he with },
      fun st hst => by cases hst⟩
  exact hdir.withTree hmade hnew

section
variable (hx : KeypairSpec k.keys) (env : TurnEnv) (a : MinerCall)
  (h : DirInv k.keys d.view a.failed) (hst : TreeInv k.keys d.view a.failed a.state)
  (hnew : NewTree k.keys env.seed d.view)
include hx h hst hnew

/-- The branch for a tree that is above the target. -/
theorem search_ensures (hunsigned : a.state.xmssRoot ∉ d.view.signed) :
    (k.search env a).Ensures d fun d' r => MinerInv k.keys d'.view (r.bind Turn.call) := by
  unfold Mining.search
  split
  · exact ensures_pure h.forget
  refine ensures_bind (buildAndSave_ensures hx env.seed env.save _ h hnew) ?_ ?_
  · intro d' hd'
    exact hd'.1.forget
  rintro d' r ⟨hdir, hres⟩
  cases r with
  | none => exact ensures_pure hdir.forget
  | some st =>
    obtain ⟨hmade, hroot, hview⟩ := hres st rfl
    refine ensures_pure ?_
    show DirInv k.keys d'.view (addFailedSeed k.crypto a.height a.state a.failed) ∧
      TreeInv k.keys d'.view (addFailedSeed k.crypto a.height a.state a.failed) st
    rw [hview]
    exact h.fail hx hst hunsigned hmade hroot k.crypto a.height

/-- A turn of the loop, on a tree that has not signed if it is above the target. -/
theorem turn_ensures
    (htarget : a.state.xmssRoot ∈ d.view.signed → a.state.xmssRoot.toNat ≤ a.target) :
    (k.turn env a).Ensures d fun d' r => MinerInv k.keys d'.view (r.bind Turn.call) := by
  unfold Mining.turn
  split
  · exact ensures_pure h.forget
  split
  · exact sign_ensures hx env a h hst hnew
  next habove =>
    exact search_ensures hx env a h hst hnew fun hmem => habove (htarget hmem)

end

/-! ### Runs -/

/-- What the result needs of a step. A tree that is built is a new one. A tree that has signed is
not above the target when it is compared with it. Wallet code claims no leaf of a tree whose seed
is published or collected. -/
def Careful (k : Mining) : MinerOp → Miner → Prop
  | .generate env _ _, s => NewTree k.keys env.seed s.disk.view
  | .turn env _, s =>
    NewTree k.keys env.seed s.disk.view ∧
      ∀ a ∈ s.call, a.state.xmssRoot ∈ s.disk.signed → a.state.xmssRoot.toNat ≤ a.target
  | .walletClaim _ root _ _, s =>
    (∀ e ∈ s.disk.published, e.xmss_root ≠ root) ∧
      ∀ a ∈ s.call, ∀ e ∈ a.failed, e.xmss_root ≠ root
  | _, _ => True

instance (x : XmssKeys) (seed : Bytes) (v : MinerView) : Decidable (NewTree x seed v) :=
  inferInstanceAs (Decidable (∀ p ∈ x.keypair seed, treeRoot p.1 ∉ v.trees))

instance (k : Mining) : ∀ (op : MinerOp) (s : Miner), Decidable (Careful k op s)
  | .generate .., _ => inferInstanceAs (Decidable (NewTree ..))
  | .turn .., _ => inferInstanceAs (Decidable (NewTree .. ∧ _))
  | .walletClaim .., _ => inferInstanceAs (Decidable (_ ∧ _))
  | .walletInit .., _ | .forceclaim _, _ | .restart, _ => .isTrue trivial

/-- A process that dies loses its call, and then less has to hold. -/
theorem MinerInv.lost (h : MinerInv x v call) : MinerInv x v none := by
  cases call with
  | none => exact h
  | some a => exact h.1.forget

/-- The end of a program in which the process may have died. -/
theorem minerInv_after {p : Durable MinerDir α} {call : α → Option MinerCall}
    (h : p.Ensures d fun d' r => MinerInv x d'.view (r.bind call)) (crash : Nat) :
    MinerInv x (Miner.after call (p.run d crash)).disk.view
      (Miner.after call (p.run d crash)).call :=
  h.run_of_lost (fun _ _ hr => hr.lost) crash

/-- Wallet code does not end the running call. -/
theorem minerInv_wallet {p : Durable MinerDir α}
    (h : p.Ensures d fun d' _ => MinerInv x d'.view call) (crash : Nat) :
    MinerInv x (Miner.after (fun _ => call) (p.run d crash)).disk.view
      (Miner.after (fun _ => call) (p.run d crash)).call := by
  refine minerInv_after (ensures_mono h ?_) crash
  intro d' r hr
  cases r with
  | none => exact hr.lost
  | some a => exact hr

/-- A leaf of a tree that is on no list is claimed. -/
theorem MinerInv.claim (h : MinerInv x v call) (hpublished : ∀ e ∈ v.published, e.xmss_root ≠ root)
    (hfailed : ∀ a ∈ call, ∀ e ∈ a.failed, e.xmss_root ≠ root) :
    MinerInv x { v with signed := root :: v.signed } call := by
  cases call with
  | none => exact DirInv.sign h hpublished (by simp)
  | some a => exact ⟨h.1.sign hpublished (hfailed a rfl), { h.2 with }⟩

theorem Miner.step_inv (hx : KeypairSpec k.keys) (op : MinerOp) (s s' : Miner)
    (h : MinerInv k.keys s.disk.view s.call) (hop : Careful k op s)
    (hstep : Miner.step k op s = some s') : MinerInv k.keys s'.disk.view s'.call := by
  cases op with
  | generate env t crash =>
    obtain ⟨disk, call⟩ := s
    cases call with
    | some a => cases hstep
    | none =>
      cases hstep
      exact minerInv_after (start_ensures hx env t h hop) crash
  | turn env crash =>
    obtain ⟨a, hcall, rfl⟩ := map_eq_some_iff.mp hstep
    rw [hcall] at h
    exact minerInv_after (turn_ensures hx env a h.1 h.2 hop.1 (hop.2 a hcall)) crash
  | walletInit io fresh crash =>
    cases hstep
    refine minerInv_wallet (ensures_mono (onLedger_ensures _ s.disk) ?_) crash
    intro d' _ hview
    rw [hview]
    exact h
  | walletClaim io root hash32 crash =>
    cases hstep
    refine minerInv_wallet (ensures_mono (claimLogged_ensures _ _ _ _ s.disk) ?_) crash
    rintro d' _ (⟨hview, -⟩ | hview)
    · rw [hview]
      exact h
    · rw [hview]
      exact h.claim hop.1 hop.2
  | forceclaim root =>
    cases hstep
    exact h
  | restart =>
    cases hstep
    exact h.lost

/-- A datadir without files. -/
theorem minerInv_empty (x : XmssKeys) : MinerInv x MinerDir.empty.view none where
  published e he := by cases he
  collected e he := by cases he
  file st hst := by cases hst

/-- No published seed is the seed of a tree that has signed, in any run of careful steps. -/
theorem published_seeds_unsigned {k : Mining} (hx : KeypairSpec k.keys) {ops : List MinerOp}
    {s : Miner} (hops : StepsMeet (Miner.step k) (Careful k) ops ⟨MinerDir.empty, none⟩)
    (hrun : runOps (Miner.step k) ops ⟨MinerDir.empty, none⟩ = some s) :
    ∀ e ∈ s.disk.published, ∀ root ∈ s.disk.signed, ¬ IsSeedOf k.keys e.sk_seed.data root := by
  have hinv : MinerInv k.keys s.disk.view s.call :=
    @runOps_invariant Miner MinerOp (Miner.step k) (Careful k)
      (fun s => MinerInv k.keys s.disk.view s.call) (Miner.step_inv hx) ops _ s
      (minerInv_empty k.keys) hops hrun
  intro e he root hroot hseed
  have hentry : EntryInv k.keys s.disk.view e := hinv.lost.published e he
  -- A seed determines its tree, so the tree of the entry has signed.
  rw [← hentry.seed.root_eq hseed] at hroot
  exact hentry.unsigned hroot

/-! ### Runs with a drop of the target -/

theorem keypairSpec_sampleKeys : KeypairSpec sampleKeys := by
  constructor
  · intro seed pk sk h
    exact (sampleKeys_keypair h).1
  · intro seed pk sk h
    obtain ⟨hlen, rfl⟩ := sampleKeys_keypair h
    have hseed : (seed.take 64).length = 64 := by
      rw [length_take]
      omega
    have hroot : (seed.take 64 ++ seed.take 32).length = 96 := by
      rw [length_append, length_take, length_take]
      omega
    have hpub : (seed.drop 64).length = 32 := by
      rw [length_drop]
      omega
    -- The first eight bytes are the OID and the index.
    show ((seed.take 64 ++ (seed.take 32 ++ seed.drop 64)).take 64) ++
      (((seed.take 64 ++ (seed.take 32 ++ seed.drop 64)).drop 96).take 32) = seed
    rw [take_left' hseed, ← append_assoc, drop_left' hroot,
      take_of_length_le (le_of_eq hpub), take_append_drop]
  · intro seed pk sk h
    obtain ⟨hlen, rfl⟩ := sampleKeys_keypair h
    simp only [length_append, length_beBytes, length_take, length_drop, hlen]
    decide

/-- A miner whose primitives can be evaluated. -/
def sampleMining : Mining :=
  ⟨sampleCrypto, sampleNetwork, sampleKeys⟩

/-- A call with a template of a difficulty. -/
def mineOp (nBits : UInt32) (seed : Bytes) : MinerOp :=
  .generate ⟨sampleIo, seed, sampleIo, sampleIo⟩
    { block := { sampleGenesisBlock with nBits := nBits, vtx := [sampleCoinbase 1 []] }
      maxTries := 50, height := 1, nextHeight := 1 } 100

/-- A turn in which nothing fails. -/
def turnOp (seed : Bytes) : MinerOp :=
  .turn { ledger := sampleIo, claim := sampleIo, seed := seed, save := sampleIo,
          saveClaimed := sampleIo } 100

/-- A tree with a high root, and one with a low root. -/
def highSeed (b : UInt8) : Bytes :=
  List.replicate 96 b

@[inherit_doc highSeed]
def lowSeed : Bytes :=
  1 :: (List.replicate 31 0 ++ List.replicate 64 9)

/-- A call for a low target, that replaces ten trees and signs with the next. -/
def lowTargetOps : List MinerOp :=
  mineOp 0x2000ffff (highSeed 16) ::
    ([17, 18, 19, 20, 21, 22, 23, 24, 25].map fun b => turnOp (highSeed b)) ++
      [turnOp lowSeed, turnOp (highSeed 26)]

theorem published_seeds_unsigned_lowTarget :
    ∃ s, runOps (Miner.step sampleMining) lowTargetOps ⟨MinerDir.empty, none⟩ = some s ∧
      s.disk.published.length = 10 ∧ s.disk.signed.length = 1 ∧
      ∀ e ∈ s.disk.published, ∀ root ∈ s.disk.signed,
        ¬ IsSeedOf sampleMining.keys e.sk_seed.data root := by
  have hlogs : (runOps (Miner.step sampleMining) lowTargetOps ⟨MinerDir.empty, none⟩).any
      (fun s => s.disk.published.length = 10 ∧ s.disk.signed.length = 1) = true := by
    decide +kernel
  obtain ⟨s, hrun, hs⟩ := (any_eq_true _ _).mp hlogs
  have hops : StepsMeet (Miner.step sampleMining) (Careful sampleMining) lowTargetOps
      ⟨MinerDir.empty, none⟩ := by
    decide +kernel
  exact ⟨s, hrun, (of_decide_eq_true hs).1, (of_decide_eq_true hs).2,
    published_seeds_unsigned keypairSpec_sampleKeys hops hrun⟩

instance (x : XmssKeys) (seed : Bytes) (root : Uint256) : Decidable (IsSeedOf x seed root) :=
  decidable_of_iff (∃ p ∈ x.keypair seed, treeRoot p.1 = root)
    ⟨fun ⟨p, hp, hroot⟩ => ⟨p.1, p.2, hp, hroot⟩, fun ⟨pk, sk, hp, hroot⟩ => ⟨(pk, sk), hp, hroot⟩⟩

/-- A tree signs a block. Then the target drops, and the tree is the first of the ten whose seeds
the next block publishes. -/
theorem signed_seed_published :
    ∃ s, runOps (Miner.step sampleMining)
        ([mineOp sampleBits (highSeed 16), turnOp (highSeed 27)] ++ lowTargetOps)
        ⟨MinerDir.empty, none⟩ = some s ∧
      s.disk.trees.Nodup ∧
      ∃ e ∈ s.disk.published, ∃ root ∈ s.disk.signed,
        IsSeedOf sampleMining.keys e.sk_seed.data root := by
  have hlogs : (runOps (Miner.step sampleMining)
      ([mineOp sampleBits (highSeed 16), turnOp (highSeed 27)] ++ lowTargetOps)
      ⟨MinerDir.empty, none⟩).any (fun s => s.disk.trees.Nodup ∧
        ∃ e ∈ s.disk.published, ∃ root ∈ s.disk.signed,
          IsSeedOf sampleMining.keys e.sk_seed.data root) = true := by
    decide +kernel
  obtain ⟨s, hrun, hs⟩ := (any_eq_true _ _).mp hlogs
  exact ⟨s, hrun, of_decide_eq_true hs⟩

end AssentianPQE
