import AssentianPQE.Proofs.ConnectCoins
import AssentianPQE.SampleSpend

/-!
# Connecting a block a second time

The coins and the leaf tables are in two databases. After a crash the coins can be back at
the parent of a block whose leaves are still marked, and the same holds after
`-reindex-chainstate`. `ConnectTip` then connects the block again.

`connects_again_iff`: the second call succeeds exactly when the spends of the block use no
XMSS leaf. A block with such a spend finds its own marks and is marked invalid.
-/

set_option autoImplicit false

namespace AssentianPQE

open Lib

/-- The node `n` is back where `n₀` was before it connected a block, and its tables still
hold the marks of that block:

- `parent`: the active chain ends with the same parent;
- `coins`: the coins are those of the parent;
- `marks`: every leaf that the block has marked is recorded as it was right after. -/
structure BackAtParent (c : Crypto) (params : Params) (block : Block) (n₀ n : Node)
    (r : Connected) (db₁ : LeafDB) : Prop where
  parent : n.headers = n₀.headers
  coins : n.view = n₀.view
  marks : ∀ key ∈ blockKeys c params block r.uses, n.db.leaf key = db₁.leaf key

variable {c : Crypto} {params : Params} {uses : XMSSLeafUses}

/-- A block that was connected has its own leaves in the table. -/
theorem leaf_of_markLeaves {db : LeafDB} {block : Block} {key : Uint256}
    (h : key ∈ blockKeys c params block uses) :
    (markLeaves c params db block uses).leaf key = some (block.getHash c) := by
  rw [markLeaves_leaf, if_pos h]

/-- The leaf uses of a block for which no use can be new. -/
theorem uses_nil_of_checkSpendLeaves {leafDB : LeafTable} {block : Block}
    (h : checkSpendLeaves c params leafDB block uses = .ok ())
    (hmarks : ∀ key ∈ leafKeys c uses, leafDB key ≠ none) : uses = [] := by
  cases uses with
  | nil => rfl
  | cons use rest =>
    have hmem : makePoUWLeafKey c use.1 use.2 ∈ leafKeys c (use :: rest) := by
      simp [leafKeys]
    exact absurd ((checkSpendLeaves_ok_iff.mp h).2 _ hmem).2 (hmarks _ hmem)

/-- No leaf use passes the reuse test against any table. -/
theorem checkSpendLeaves_nil (c : Crypto) (params : Params) (leafDB : LeafTable) (block : Block) :
    checkSpendLeaves c params leafDB block [] = .ok () := by
  rw [checkSpendLeaves_ok_iff]
  simp [leafKeys]

/-- `ConnectTip` keeps an entry valid when `ConnectBlock` succeeds. -/
theorem failedValid_of_connectEntry {fScriptChecks parallel : Bool} {n n' : Node} {hash : Uint256}
    {e : IndexEntry} {block : Block}
    (hok : ∃ r, connectBlock (tipContext c params fScriptChecks parallel n block) n.db n.view =
      .ok r) (h : connectEntry c params fScriptChecks parallel n hash e block = some n') :
    ∃ e', n'.index hash = some e' ∧ e'.failedValid = e.failedValid := by
  obtain ⟨⟨r, db⟩, hr⟩ := hok
  unfold connectEntry at h
  rw [hr] at h
  cases h
  exact ⟨_, Function.update_self _ _ _, rfl⟩

/-- Take a block that `ConnectBlock` has accepted on top of a parent, and a node that is back
at that parent with the marks of the block still in its tables. Then `ConnectBlock` accepts
the block again, and `ConnectTip` leaves its entry valid, if and only if the block is the
genesis block or no spend of it uses an XMSS leaf. -/
theorem connects_again_iff {c : Crypto} {params : Params} {fScriptChecks parallel parallel' : Bool}
    {n₀ n : Node} {hash : Uint256} {e : IndexEntry} {block : Block} {r : Connected} {db₁ : LeafDB}
    (hfirst : connectBlock (tipContext c params fScriptChecks parallel n₀ block) n₀.db n₀.view =
      .ok (r, db₁))
    (hback : BackAtParent c params block n₀ n r db₁) (hvalid : e.failedValid = false) :
    ((∃ r', connectBlock (tipContext c params fScriptChecks parallel' n block) n.db n.view =
        .ok r') ∧
      ∀ n', connectEntry c params fScriptChecks parallel' n hash e block = some n' →
        ∃ e', n'.index hash = some e' ∧ e'.failedValid = false) ↔
      block.getHash c = params.hashGenesisBlock ∨
        blockLeafUses (tipContext c params fScriptChecks parallel' n block) block.vtx n.view =
          [] := by
  -- Both calls differ only in the threads and in the tables.
  have hctx : tipContext c params fScriptChecks parallel' n block =
      { tipContext c params fScriptChecks parallel n₀ block with parallel := parallel' } := by
    unfold tipContext
    rw [hback.parent]
  have hentry : (∃ r', connectBlock (tipContext c params fScriptChecks parallel' n block) n.db
      n.view = .ok r') → ∀ n', connectEntry c params fScriptChecks parallel' n hash e block =
        some n' → ∃ e', n'.index hash = some e' ∧ e'.failedValid = false := by
    intro hok n' hn'
    rw [← hvalid]
    exact failedValid_of_connectEntry hok hn'
  rw [and_iff_left_of_imp hentry]
  obtain ⟨hcheck, hgen | ⟨hgen, hprev, hcoins, -, hdb₁⟩⟩ := (connectBlock_ok_iff rfl).mp hfirst
  · -- The genesis block is connected without any effect.
    refine ⟨fun _ => .inl hgen.1, fun _ => ⟨(⟨n.view, [], []⟩, n.db), ?_⟩⟩
    rw [hctx]
    exact (connectBlock_ok_iff rfl).mpr ⟨hcheck, .inl ⟨hgen.1, rfl, rfl⟩⟩
  · have hcoins' : connectCoins (tipContext c params fScriptChecks parallel' n block) n.view =
        .ok r := by
      rw [hctx, hback.coins]
      exact connectCoins_parallel parallel' hcoins
    have huses : r.uses =
        blockLeafUses (tipContext c params fScriptChecks parallel' n block) block.vtx n.view :=
      (connectCoins_effect hcoins').2
    rw [← huses]
    constructor
    · rintro ⟨⟨r', db'⟩, hagain⟩
      rw [hctx] at hagain hcoins'
      obtain ⟨-, ⟨hgen', -⟩ | ⟨-, -, hr', hleaves, -⟩⟩ := (connectBlock_ok_iff rfl).mp hagain
      · exact absurd hgen' hgen
      rw [hcoins', Except.ok.injEq] at hr'
      rw [← hr'] at hleaves
      -- Every leaf of the spends is marked, so none of them can pass the reuse test.
      refine .inr (uses_nil_of_checkSpendLeaves hleaves fun key hkey => ?_)
      have hmem : key ∈ blockKeys c params block r.uses := mem_blockKeys.mpr (.inr hkey)
      rw [hback.marks key hmem, hdb₁]
      show (markLeaves c params n₀.db block r.uses).leaf key ≠ none
      rw [leaf_of_markLeaves hmem]
      exact nofun
    · rintro (hgen' | hnil)
      · exact absurd hgen' hgen
      rw [hctx] at hcoins' ⊢
      refine ⟨(r, markLeaves c params n.db block r.uses), (connectBlock_ok_iff rfl).mpr
        ⟨hcheck, .inr ⟨hgen, hprev, hcoins', ?_, rfl⟩⟩⟩
      rw [hnil]
      exact checkSpendLeaves_nil c params n.db.leaf block

/-! ### A block with an XMSS spend -/

/-- `ConnectTip` on that block, from its parent and some tables. -/
def connectLeafSpend (db : LeafDB) : Option Node :=
  connectTip sampleCrypto sampleParams true false (spendNode leafSpendOut leafSpendBlock db)
    (leafSpendBlock.getHash sampleCrypto)

theorem connectBlock_leafSpendBlock :
    (connectBlock (tipContext sampleCrypto sampleParams true false
      (spendNode leafSpendOut leafSpendBlock LeafDB.empty) leafSpendBlock) LeafDB.empty
      (sampleView leafSpendOut)).toBool = true := by
  decide +kernel

/-- The equivalence for that block, on a node that still has its marks. -/
theorem connects_again_iff_leafSpendBlock :
    ∃ r db₁, connectBlock (tipContext sampleCrypto sampleParams true false
        (spendNode leafSpendOut leafSpendBlock LeafDB.empty) leafSpendBlock) LeafDB.empty
        (sampleView leafSpendOut) = .ok (r, db₁) ∧
      (((∃ r', connectBlock (tipContext sampleCrypto sampleParams true true
            (spendNode leafSpendOut leafSpendBlock db₁) leafSpendBlock) db₁
            (sampleView leafSpendOut) = .ok r') ∧
        ∀ n', connectEntry sampleCrypto sampleParams true true
            (spendNode leafSpendOut leafSpendBlock db₁) nullHash { chain := [] } leafSpendBlock =
              some n' →
          ∃ e', n'.index nullHash = some e' ∧ e'.failedValid = false) ↔
        leafSpendBlock.getHash sampleCrypto = sampleParams.hashGenesisBlock ∨
          blockLeafUses (tipContext sampleCrypto sampleParams true true
            (spendNode leafSpendOut leafSpendBlock db₁) leafSpendBlock) leafSpendBlock.vtx
            (sampleView leafSpendOut) = []) := by
  have hok := connectBlock_leafSpendBlock
  cases hfirst : connectBlock (tipContext sampleCrypto sampleParams true false
      (spendNode leafSpendOut leafSpendBlock LeafDB.empty) leafSpendBlock) LeafDB.empty
      (sampleView leafSpendOut) with
  | error e =>
    rw [hfirst] at hok
    cases hok
  | ok p =>
    obtain ⟨r, db₁⟩ := p
    have hback : BackAtParent sampleCrypto sampleParams leafSpendBlock
        (spendNode leafSpendOut leafSpendBlock LeafDB.empty)
        (spendNode leafSpendOut leafSpendBlock db₁) r db₁ := ⟨rfl, rfl, fun _ _ => rfl⟩
    exact ⟨r, db₁, rfl, connects_again_iff hfirst hback rfl⟩

/-- That block is connected once. Connected again from the same coins, with its marks in the
tables, it is not, and its entry is marked as failed. -/
theorem leafSpendBlock_not_connected_again :
    (connectLeafSpend LeafDB.empty).map (fun n => n.chain.length) = some 2 ∧
      ((connectLeafSpend LeafDB.empty).bind fun n => connectLeafSpend n.db).map
        (fun n => (n.chain.length,
          (n.index (leafSpendBlock.getHash sampleCrypto)).map IndexEntry.failedValid)) =
        some (1, some true) := by
  decide +kernel

end AssentianPQE
