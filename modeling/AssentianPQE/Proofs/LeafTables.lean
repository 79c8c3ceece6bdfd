import AssentianPQE.Validation.Node

/-!
# What connecting and disconnecting do to the leaf tables

`DB_POUW_LEAF` and `DB_POUW_LEAF_LIST` change in two places: `markLeaves` at the end of
`ConnectBlock` and `unmarkLeaves` at the start of `DisconnectBlock`. This module states the
contents of both tables after each of them, entry by entry, and what `ConnectBlock` has
tested when it succeeds.

* `checkLeafKeys_ok_iff`: the reuse test passes exactly for keys that are all new.
* `markLeaves_leaf`, `unmarkLeaves_leaf`: the entries of `DB_POUW_LEAF`.
* `connectBlock_ok_iff`: `ConnectBlock` accepts exactly when all of its parts do.
-/

set_option autoImplicit false

namespace AssentianPQE

open Lib List Function Prod

/-! ### The reuse test -/

variable {leafDB : LeafTable}

/-- The reuse test accepts keys that are distinct, not seen before and not in the table. -/
theorem checkLeafKeys_ok_iff :
    ∀ {seen keys : List Uint256}, checkLeafKeys leafDB seen keys = .ok () ↔
      keys.Nodup ∧ ∀ key ∈ keys, key ∉ seen ∧ leafDB key = none := by
  intro seen keys
  induction keys generalizing seen with
  | nil => simp [checkLeafKeys]
  | cons key rest ih =>
    unfold checkLeafKeys
    split
    · rename_i hseen
      exact ⟨nofun, fun h => absurd hseen (h.2 key mem_cons_self).1⟩
    rename_i hseen
    split
    · rename_i hdb
      refine ⟨nofun, fun h => ?_⟩
      rw [(h.2 key mem_cons_self).2] at hdb
      cases hdb
    · rename_i hdb
      have hnone : leafDB key = none := by simpa using hdb
      rw [ih, nodup_cons]
      constructor
      · rintro ⟨hnodup, hrest⟩
        refine ⟨⟨fun hmem => ?_, hnodup⟩, ?_⟩
        · exact (hrest key hmem).1 mem_cons_self
        · intro k hk
          rcases mem_cons.mp hk with rfl | hk
          · exact ⟨hseen, hnone⟩
          · exact ⟨fun hmem => (hrest k hk).1 (mem_cons_of_mem _ hmem), (hrest k hk).2⟩
      · rintro ⟨⟨hnot, hnodup⟩, hall⟩
        refine ⟨hnodup, fun k hk => ?_⟩
        obtain ⟨hks, hkdb⟩ := hall k (mem_cons_of_mem _ hk)
        refine ⟨fun hmem => ?_, hkdb⟩
        rcases mem_cons.mp hmem with rfl | hmem
        · exact hnot hk
        · exact hks hmem

variable {uses : XMSSLeafUses}

/-- The reuse test of a block accepts exactly when its spend leaves are distinct, differ from
the leaf of its coinbase and are not in the table. -/
theorem checkSpendLeaves_ok_iff {c : Crypto} {params : Params} {block : Block} :
    checkSpendLeaves c params leafDB block uses = .ok () ↔
      (leafKeys c uses).Nodup ∧
      ∀ key ∈ leafKeys c uses, coinbaseLeafKey c params block ≠ some key ∧ leafDB key = none := by
  unfold checkSpendLeaves
  rw [checkLeafKeys_ok_iff]
  simp only [Option.mem_toList, ne_eq]

/-! ### Writing and erasing -/

/-- The tables after the same value was written under a number of keys. -/
theorem foldl_write (v : Option Uint256) (keys : List Uint256) (db : LeafDB) :
    (keys.foldl (fun db key => { db with leaf := update db.leaf key v }) db).leaf =
        (fun key => if key ∈ keys then v else db.leaf key) ∧
      (keys.foldl (fun db key => { db with leaf := update db.leaf key v }) db).leafList =
        db.leafList := by
  induction keys generalizing db with
  | nil => simp
  | cons k rest ih =>
    obtain ⟨hleaf, hlist⟩ := ih { db with leaf := update db.leaf k v }
    rw [foldl_cons]
    refine ⟨?_, hlist⟩
    rw [hleaf]
    funext key
    by_cases hrest : key ∈ rest
    · simp [hrest]
    · by_cases hkey : key = k
      · simp [hkey]
      · simp [hrest, hkey]

/-- The tables after a number of marks. -/
theorem foldl_mark (bh : Uint256) (keys : List Uint256) (db : LeafDB) :
    (keys.foldl (fun db key => db.mark key bh) db).leaf =
        (fun key => if key ∈ keys then some bh else db.leaf key) ∧
      (keys.foldl (fun db key => db.mark key bh) db).leafList = db.leafList :=
  foldl_write (some bh) keys db

/-- The tables after a number of erasures. -/
theorem foldl_unmark (keys : List Uint256) (db : LeafDB) :
    (keys.foldl LeafDB.unmark db).leaf = (fun key => if key ∈ keys then none else db.leaf key) ∧
      (keys.foldl LeafDB.unmark db).leafList = db.leafList :=
  foldl_write none keys db

/-- The keys that a block marks: the leaf of its coinbase and those of its spends. -/
def blockKeys (c : Crypto) (params : Params) (block : Block) (uses : XMSSLeafUses) :
    List Uint256 :=
  (coinbaseLeafKey c params block).toList ++ leafKeys c uses

theorem mem_blockKeys {c : Crypto} {params : Params} {block : Block} {key : Uint256} :
    key ∈ blockKeys c params block uses ↔
      coinbaseLeafKey c params block = some key ∨ key ∈ leafKeys c uses := by
  simp [blockKeys]

variable (c : Crypto) (params : Params) (db : LeafDB)

/-- `DB_POUW_LEAF` after `ConnectBlock`. -/
theorem markLeaves_leaf (block : Block) (uses : XMSSLeafUses) (key : Uint256) :
    (markLeaves c params db block uses).leaf key =
      if key ∈ blockKeys c params block uses then some (block.getHash c) else db.leaf key := by
  have hleaf : (markLeaves c params db block uses).leaf key =
      if key ∈ leafKeys c uses then some (block.getHash c)
      else ((coinbaseLeafKey c params block).elim db
        fun key => db.mark key (block.getHash c)).leaf key := by
    unfold markLeaves
    simp only
    split <;> simp only [foldl_mark]
  rw [hleaf]
  cases hcb : coinbaseLeafKey c params block with
  | none => simp [mem_blockKeys, hcb]
  | some k =>
    by_cases hspend : key ∈ leafKeys c uses
    · simp [mem_blockKeys, hspend]
    · by_cases hkey : k = key
      · simp [mem_blockKeys, hcb, hkey, hspend, LeafDB.mark]
      · simp [mem_blockKeys, hcb, hkey, hspend, LeafDB.mark, update_of_ne (Ne.symm hkey)]

/-- `DB_POUW_LEAF_LIST` after `ConnectBlock`. -/
theorem markLeaves_leafList (block : Block) (uses : XMSSLeafUses) :
    (markLeaves c params db block uses).leafList =
      if uses = [] then db.leafList
      else update db.leafList (block.getHash c) (some (leafKeys c uses)) := by
  have hcb : ((coinbaseLeafKey c params block).elim db
      fun key => db.mark key (block.getHash c)).leafList = db.leafList := by
    cases coinbaseLeafKey c params block <;> rfl
  unfold markLeaves
  simp only
  split
  · simp only [foldl_mark, hcb]
  · simp only [foldl_mark, hcb]

/-- `DB_POUW_LEAF` after `DisconnectBlock`: the leaf of the coinbase and the listed leaves are
gone. -/
theorem unmarkLeaves_leaf (block : Block) (key : Uint256) :
    (unmarkLeaves c params db block).leaf key =
      if coinbaseLeafKey c params block = some key ∨
          key ∈ (db.leafList (block.getHash c)).getD [] then none
      else db.leaf key := by
  have hlist : ((coinbaseLeafKey c params block).elim db db.unmark).leafList = db.leafList := by
    cases coinbaseLeafKey c params block <;> rfl
  have hcb : ((coinbaseLeafKey c params block).elim db db.unmark).leaf key =
      if coinbaseLeafKey c params block = some key then none else db.leaf key := by
    cases coinbaseLeafKey c params block with
    | none => simp
    | some k =>
      by_cases hkey : k = key
      · simp [hkey, LeafDB.unmark]
      · simp [hkey, LeafDB.unmark, update_of_ne (Ne.symm hkey)]
  unfold unmarkLeaves
  simp only [hlist]
  cases hl : db.leafList (block.getHash c) with
  | none => simp [hcb]
  | some keys =>
    simp only [foldl_unmark, hcb, Option.getD_some]
    by_cases hmem : key ∈ keys
    · simp [hmem]
    · simp [hmem]

/-- `DB_POUW_LEAF_LIST` after `DisconnectBlock`. -/
theorem unmarkLeaves_leafList (block : Block) :
    (unmarkLeaves c params db block).leafList =
      update db.leafList (block.getHash c) none := by
  have hlist : ((coinbaseLeafKey c params block).elim db db.unmark).leafList = db.leafList := by
    cases coinbaseLeafKey c params block <;> rfl
  unfold unmarkLeaves
  simp only [hlist]
  cases hl : db.leafList (block.getHash c) with
  | none =>
    simp only [hlist]
    exact (update_eq_self_iff.mpr hl.symm).symm
  | some keys => simp only [foldl_unmark, hlist]

/-! ### `ConnectBlock` and `DisconnectBlock` -/

/-- `ConnectBlock` accepts a block exactly when `CheckBlock`, the part on the coins and the
reuse test all do, and then marks its leaves. The genesis block has no effect. -/
theorem connectBlock_ok_iff {ctx : ConnectContext} (hjust : ctx.fJustCheck = false) {db db' : LeafDB}
    {view : CoinsView} {r : Connected} :
    connectBlock ctx db view = .ok (r, db') ↔
      checkBlock ctx.crypto ctx.params ctx.block true true = .ok () ∧
      ((ctx.hash = ctx.params.hashGenesisBlock ∧ r = ⟨view, [], []⟩ ∧ db' = db) ∨
        (ctx.hash ≠ ctx.params.hashGenesisBlock ∧ ctx.prev ≠ [] ∧ connectCoins ctx view = .ok r ∧
          checkSpendLeaves ctx.crypto ctx.params db.leaf ctx.block r.uses = .ok () ∧
          db' = markLeaves ctx.crypto ctx.params db ctx.block r.uses)) := by
  unfold connectBlock
  rw [hjust]
  simp only [Bool.not_false]
  cases checkBlock ctx.crypto ctx.params ctx.block true true with
  | error e => simp
  | ok u =>
    by_cases hgen : ctx.hash = ctx.params.hashGenesisBlock
    · simp [hgen, eq_comm]
    by_cases hprev : ctx.prev = []
    · simp [hgen, hprev]
    cases hcoins : connectCoins ctx view with
    | error e => simp [hgen, hprev]
    | ok r' =>
      cases hleaves : checkSpendLeaves ctx.crypto ctx.params db.leaf ctx.block r'.uses with
      | error e =>
        simp only [hgen, hprev, hleaves, if_false, false_and, false_or, ne_eq,
          not_false_eq_true, true_and, Except.ok.injEq, reduceCtorEq, false_iff, not_and]
        rintro rfl h
        rw [hleaves] at h
        cases h
      | ok u =>
        simp only [hgen, hprev, hleaves, if_false, false_and, false_or, ne_eq,
          not_false_eq_true, true_and, Bool.false_eq_true, Except.ok.injEq, mk.injEq]
        constructor
        · rintro ⟨rfl, rfl⟩
          exact ⟨rfl, hleaves, rfl⟩
        · rintro ⟨rfl, -, rfl⟩
          exact ⟨rfl, rfl⟩

/-- A block that was disconnected without failure has lost its marks. -/
theorem disconnectBlock_db {c : Crypto} {params : Params} {db db' : LeafDB} {nHeight : Nat}
    {undo : Option (List (List Coin))} {block : Block} {view view' : CoinsView}
    {res : DisconnectResult}
    (h : disconnectBlock c params db nHeight undo block view = (res, view', db'))
    (hres : res ≠ .failed) : db' = unmarkLeaves c params db block := by
  unfold disconnectBlock at h
  split at h
  · exact absurd (congrArg fst h).symm hres
  split at h
  · exact absurd (congrArg fst h).symm hres
  simp only at h
  split at h
  · exact absurd (congrArg fst h).symm hres
  · simp only [mk.injEq] at h
    exact h.2.2.symm

end AssentianPQE
