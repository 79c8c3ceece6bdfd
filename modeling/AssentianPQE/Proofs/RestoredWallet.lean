import AssentianPQE.Proofs.SignerCalls
import AssentianPQE.Wallet.Datadirs

/-!
# `AssentianPQE.Proofs.RestoredWallet`: a restored wallet and the leaves of its trees

The ownership stamp of a ledger file is checked against the datadir that holds the file. A
wallet that is restored in a second datadir has no ledger file there: `LoadState` creates one at
leaf 0, with the stamp of the second datadir. Both datadirs then own a ledger for the tree.

`leaf_used_once`: in every run in which a tree only signs in one of the two datadirs, no leaf of
it is used for two signatures. `restored_leaf_reused` is a run with both.
-/

set_option autoImplicit false

namespace AssentianPQE

open Lib List Function Option

/-- No leaf of a tree was returned twice, in one datadir or in both. -/
def LeafUsedOnce (root : Uint256) (s : Datadirs) : Prop :=
  ((s .a).ledger.returned ++ (s .b).ledger.returned).Pairwise fun p q =>
    p.root = root → q.root = root → p.leaf ≠ q.leaf

/-- No leaf of a tree was returned in a datadir. -/
def NotSigned (root : Uint256) (d : Datadir) : Prop :=
  ∀ claim ∈ d.ledger.returned, claim.root ≠ root

/-- A tree is used for signing in one datadir only. -/
def OneDatadir (root : Uint256) : DatadirOp → Datadirs → Prop
  | .signXMSS site _ _ _ pubkey _, s => rootOf pubkey = root → NotSigned root (s site.other)
  | _, _ => True

/-- What every run with that condition keeps. -/
structure DatadirsInv (root : Uint256) (s : Datadirs) : Prop where
  ledger : ∀ site, LedgerInv (s site).ledger.disk (s site).ledger.returned
  one : ∃ site, NotSigned root (s site)

namespace DatadirsInv

variable {root : Uint256} {s : Datadirs} {site : Site} {d : Datadir}

/-- A call in one datadir that keeps its ledger in order, and returns no leaf of the tree unless
none was returned in the other datadir. -/
theorem update (h : DatadirsInv root s) (hledger : LedgerInv d.ledger.disk d.ledger.returned)
    (hone : (NotSigned root (s site) → NotSigned root d) ∨ NotSigned root (s site.other)) :
    DatadirsInv root (update s site d) := by
  constructor
  · intro site'
    by_cases heq : site' = site
    · subst heq
      rwa [update_self]
    · rw [update_of_ne heq]
      exact h.ledger site'
  · have hne : site.other ≠ site := by cases site <;> decide
    obtain ⟨site', hnot⟩ := h.one
    by_cases heq : site' = site
    · subst heq
      rcases hone with hone | hone
      · exact ⟨site', by rw [update_self]; exact hone hnot⟩
      · exact ⟨site'.other, by rw [update_of_ne hne]; exact hone⟩
    · exact ⟨site', by rw [update_of_ne heq]; exact hnot⟩

/-- The leaves of one datadir are increasing, and the other one has returned none. -/
theorem leafUsedOnce (h : DatadirsInv root s) : LeafUsedOnce root s := by
  have hsite (site : Site) : (s site).ledger.returned.Pairwise fun p q =>
      p.root = root → q.root = root → p.leaf ≠ q.leaf := by
    refine (h.ledger site).increasing.imp ?_
    intro later earlier hlt hl he heq
    have hleaf := hlt (hl.trans he.symm)
    rw [heq] at hleaf
    exact UInt32.lt_irrefl _ hleaf
  refine pairwise_append.mpr ⟨hsite .a, hsite .b, ?_⟩
  intro p hp q hq hproot hqroot
  obtain ⟨site, hnot⟩ := h.one
  cases site with
  | a => exact absurd hproot (hnot p hp)
  | b => exact absurd hqroot (hnot q hq)

end DatadirsInv

theorem notSigned_note {root root' : Uint256} {run : LedgerRun}
    {r : LedgerDir × Option (Option (Bytes × UInt32))} (hne : root' ≠ root)
    (h : ∀ claim ∈ run.returned, claim.root ≠ root) :
    ∀ claim ∈ (run.note root' r).returned, claim.root ≠ root := by
  match r with
  | (d, none) | (d, some none) => exact h
  | (d, some (some (sig, leaf))) =>
    intro claim hmem
    rcases mem_cons.mp hmem with rfl | hmem
    · exact hne
    · exact h claim hmem

/-- One call keeps the invariant. -/
theorem datadirsInv_step {c : Crypto} {x : XmssKeys} (hx : SignSpec x) {root : Uint256}
    (op : DatadirOp) (s t : Datadirs) (h : DatadirsInv root s) (hop : OneDatadir root op s)
    (hstep : Datadirs.step c x op s = some t) : DatadirsInv root t := by
  cases op with
  | generateKey site io seed crash =>
    cases hstep
    have hrun := (generateKey_ensures c x io seed (s site).signer (s site).ledger.disk).run_of_lost
      (fun d' r hr => ⟨hr.1, by simp⟩) crash
    exact h.update ((h.ledger site).grows hrun.1) (.inl fun hnot => hnot)
  | restore site io crash =>
    cases hstep
    have hrun := (CXMSSSigner.loadState_ensures c io (s site.other).signer.saveState
      (s site).signer (s site).ledger.disk).run_of_lost (fun d' r hr => ⟨hr.1, by simp⟩) crash
    exact h.update ((h.ledger site).grows hrun.1) (.inl fun hnot => hnot)
  | signXMSS site init claim hash pubkey crash =>
    cases hstep
    have halone : SignEnv.Alone { status := init, init := init, claim := claim } := fun _ => rfl
    obtain ⟨⟨d₁, hgrows, hclaim⟩, -⟩ :=
      (signXMSS_ensures x halone hash pubkey (s site).signer (s site).ledger.disk).run_of_lost
        (fun d' r hr => hr.lost) crash
    refine h.update (((h.ledger site).grows hgrows).note hx hclaim) ?_
    by_cases hroot : rootOf pubkey = root
    · exact .inr (hop hroot)
    · exact .inl (notSigned_note hroot)

/-- **A tree that signs in one datadir.** From two datadirs in which nothing was signed, in every
run in which the tree signs in one of them only, no leaf of it is used for two signatures. -/
theorem leaf_used_once {c : Crypto} {x : XmssKeys} (hx : SignSpec x) (root : Uint256)
    {start : Datadirs} (hstart : ∀ site, (start site).ledger.returned = []) {ops : List DatadirOp}
    (hops : StepsMeet (Datadirs.step c x) (OneDatadir root) ops start) {t : Datadirs}
    (hrun : runOps (Datadirs.step c x) ops start = some t) : LeafUsedOnce root t := by
  have hinv : DatadirsInv root start := by
    constructor
    · intro site
      rw [hstart site]
      exact LedgerInv.nil _
    · exact ⟨.a, by rw [NotSigned, hstart]; simp⟩
  exact (runOps_invariant (datadirsInv_step hx) hinv hops hrun).leafUsedOnce

/-! ### A restored wallet on the sample key -/

/-- Two datadirs without ledger files, with different instance ids. -/
def sampleDatadirs : Datadirs
  | .a => { ledger := { disk := { LedgerDir.empty with instanceId := some (List.replicate 16 1) } } }
  | .b => { ledger := { disk := { LedgerDir.empty with instanceId := some (List.replicate 16 2) } } }

/-- The key is created in the first datadir, the wallet is restored in the second one, and then
it signs in these datadirs. -/
def restoreOps (sites : List Site) : List DatadirOp :=
  [.generateKey .a sampleIo sampleSeed 100, .restore .b (fun _ => sampleIo) 100] ++
    sites.map fun site => .signXMSS site sampleIo sampleIo (Blob.ofNat 32 5) samplePubkey 100

/-- The leaves that were returned in a datadir. -/
def leavesAfter (sites : List Site) (site : Site) : Option (List (Uint256 × UInt32)) :=
  (runOps (Datadirs.step sampleCrypto sampleKeys) (restoreOps sites) sampleDatadirs).map fun s =>
    (s site).ledger.returned.map fun claim => (claim.root, claim.leaf)

theorem leaf_used_once_restoreOps :
    ∃ t, runOps (Datadirs.step sampleCrypto sampleKeys) (restoreOps [.a]) sampleDatadirs = some t ∧
      (t .a).ledger.returned.map (fun claim => (claim.root, claim.leaf)) = [(sampleRoot, 0)] ∧
      LeafUsedOnce sampleRoot t := by
  have hleaves : leavesAfter [.a] .a = some [(sampleRoot, 0)] := by decide +kernel
  obtain ⟨t, ht, ha⟩ := map_eq_some_iff.mp hleaves
  refine ⟨t, ht, ha, leaf_used_once signSpec_sampleKeys sampleRoot ?_ ?_ ht⟩
  · intro site
    cases site <;> rfl
  refine ⟨trivial, fun s hs => ⟨trivial, fun s' hs' => ⟨?_, fun _ _ => trivial⟩⟩⟩
  -- Nothing was signed in the second datadir.
  cases hs
  cases hs'
  intro _ claim hmem
  exact absurd hmem not_mem_nil

/-- The restored wallet signs with leaf 0 in both datadirs. -/
theorem restored_leaf_reused :
    ∃ t, runOps (Datadirs.step sampleCrypto sampleKeys) (restoreOps [.a, .b]) sampleDatadirs = some t ∧
      ¬ LeafUsedOnce sampleRoot t := by
  have hsites : leavesAfter [.a, .b] .a = some [(sampleRoot, 0)] ∧
      leavesAfter [.a, .b] .b = some [(sampleRoot, 0)] := by
    decide +kernel
  obtain ⟨t, ht, ha⟩ := map_eq_some_iff.mp hsites.1
  obtain ⟨t', ht', hb⟩ := map_eq_some_iff.mp hsites.2
  rw [ht] at ht'
  cases ht'
  refine ⟨t, ht, fun honce => ?_⟩
  obtain ⟨p, hp, hpeq⟩ := mem_map.mp (ha ▸ mem_singleton_self _ :
    (sampleRoot, (0 : UInt32)) ∈ (t .a).ledger.returned.map fun claim => (claim.root, claim.leaf))
  obtain ⟨q, hq, hqeq⟩ := mem_map.mp (hb ▸ mem_singleton_self _ :
    (sampleRoot, (0 : UInt32)) ∈ (t .b).ledger.returned.map fun claim => (claim.root, claim.leaf))
  obtain ⟨hproot, hpleaf⟩ := Prod.mk.inj hpeq
  obtain ⟨hqroot, hqleaf⟩ := Prod.mk.inj hqeq
  exact (pairwise_append.mp honce).2.2 p hp q hq hproot hqroot (hpleaf.trans hqleaf.symm)

end AssentianPQE
