import Mathlib.Data.List.TakeWhile
import AssentianPQE.Proofs.NodeSteps
import AssentianPQE.Sample
import AssentianPQE.Validation.Startup

/-!
# The leaf table and the leaves of the active chain

`claimedKeys` are the keys that the blocks of a chain above genesis claim: the leaf of every
coinbase, and the spend leaves that were captured when the block was connected.
`leaf_iff_claimed` says when `DB_POUW_LEAF` has exactly the keys of the active chain
in every state of a run of `Chainstate.step`.

`ConnectBlock` and `DisconnectTip` keep this up as long as no key is claimed twice. The
procedures at start-up do not:

* `VerifyDB` from level 3 disconnects blocks to look at the coins. The coins are thrown away,
  the erased leaves are not written back (`verifyDB_forgets_leaf`).
* `ReplayBlocks` disconnects the blocks of the old branch once more. A block of the new branch
  may have claimed the same leaf since.

The condition `ClaimsKept` on the steps of a run excludes these cases.
-/

set_option autoImplicit false

namespace AssentianPQE

open Lib List Function Except Prod

variable {n n' : Node} {block : Block} {db : LeafDB}

/-! ### Claimed keys -/

/-- The key of the leaf that `ParseCoinbasePoUWLeaf` finds in a block. -/
def parsedLeafKey (c : Crypto) (block : Block) : Option Uint256 :=
  (block.vtx.head?.bind fun cb => parseCoinbasePoUWLeaf cb block.nLeafIndex).map fun use =>
    makePoUWLeafKey c use.1 use.2

/-- The keys that a chain claims. The last block is genesis. -/
def claimedKeys (c : Crypto) (active : List (Block × XMSSLeafUses)) : List Uint256 :=
  active.dropLast.flatMap fun p => (parsedLeafKey c p.1).toList ++ leafKeys c p.2

variable {params : Params}

theorem coinbaseLeafKey_eq {c : Crypto} (hpouw : params.fPoUW = true) (block : Block) :
    coinbaseLeafKey c params block = parsedLeafKey c block :=
  if_pos hpouw

/-- A block on top of a chain adds the keys that `ConnectBlock` marks for it. -/
theorem claimedKeys_cons {c : Crypto} (hpouw : params.fPoUW = true)
    {active : List (Block × XMSSLeafUses)} (hne : active ≠ []) (p : Block × XMSSLeafUses) :
    claimedKeys c (p :: active) = blockKeys c params p.1 p.2 ++ claimedKeys c active := by
  unfold claimedKeys blockKeys
  rw [dropLast_cons_of_ne_nil hne, flatMap_cons, coinbaseLeafKey_eq hpouw]

/-! ### The condition on a run -/

/-- The condition on the steps of a run:

- `ConnectTip` gets a block whose coinbase leaf is not marked;
- `ReplayBlocks` rolls back no block whose coinbase leaf the active chain claims;
- `VerifyDB` runs at a level below 3, or at level 3 over blocks that claim no leaf. -/
def ClaimsKept (c : Crypto) : ChainstateOp → Chainstate → Prop
  | .node (.connect _ _ hash), s => ∀ e block, s.node.index hash = some e → e.data = some block →
    ∀ key, parsedLeafKey c block = some key → s.node.db.leaf key = none
  | .node _, _ => True
  | .flush, _ => True
  | .replayBlocks _, s => ∀ block ∈ oldBranch c s.flushed s.node.chain,
    ∀ key, parsedLeafKey c block = some key → key ∉ claimedKeys c s.active
  | .verifyDB o, s => o.level ≤ 2 ∨ o.level = 3 ∧
    ∀ p ∈ s.active.dropLast.take (o.depth (s.node.chain.length - 1)),
      parsedLeafKey c p.1 = none ∧ p.2 = []

/-- What holds in every state of such a run:

- `tracked`: the record is one of the active chain;
- `keys`: the table has the claimed keys;
- `nodup`: no key is claimed twice;
- `listed`: a block above genesis has a list of its spend leaves if it has any;
- `only`: other blocks have no list. -/
structure ClaimInv (c : Crypto) (genesis : Block) (s : Chainstate) : Prop
    extends ChainInv c genesis s.node where
  tracked : s.active.map Prod.fst = s.node.chain
  keys : ∀ key, s.node.db.leaf key ≠ none ↔ key ∈ claimedKeys c s.active
  nodup : (claimedKeys c s.active).Nodup
  listed : ∀ p l, p :: l <:+ s.active → l ≠ [] →
    s.node.db.leafList (p.1.getHash c) = if p.2 = [] then none else some (leafKeys c p.2)
  only : ∀ h, s.node.db.leafList h ≠ none → ∃ a ∈ s.node.chain, a.getHash c = h

/-! ### Steps of the node -/

section Steps
variable {c : Crypto} {params : Params} {genesis : Block} {s : Chainstate}

theorem ClaimInv.init (c : Crypto) (genesis : Block) :
    ClaimInv c genesis (Chainstate.init c genesis) where
  toChainInv := ChainInv.init c genesis
  tracked := rfl
  keys key := ⟨fun h => absurd rfl h, nofun⟩
  nodup := nodup_nil
  listed p l hs hne := by
    rcases suffix_cons_iff.mp hs with heq | hnil
    · exact absurd (List.cons.inj heq).2 hne
    · exact absurd (suffix_nil.mp hnil) nofun
  only h hh := absurd rfl hh

/-- The record of the active chain is never empty. -/
theorem ClaimInv.active_ne_nil (inv : ClaimInv c genesis s) : s.active ≠ [] := by
  intro hnil
  have hchain := inv.tracked
  rw [hnil, map_nil] at hchain
  have hgen := inv.genesis
  rw [← hchain] at hgen
  exact absurd (suffix_nil.mp hgen) nofun

/-- A block of the record is a block of the chain. -/
theorem ClaimInv.suffix_chain (inv : ClaimInv c genesis s) {p : Block × XMSSLeafUses}
    {l : List (Block × XMSSLeafUses)} (h : p :: l <:+ s.active) :
    p.1 :: l.map fst <:+ s.node.chain := by
  rw [← inv.tracked]
  exact h.map fst

/-- The record after a step follows the three cases of `step_chain`. -/
theorem record_cases {op : NodeOp} (hstep : Node.step c params op s.node = some n') :
    (n'.chain = s.node.chain ∧ n'.db = s.node.db ∧ n'.view = s.node.view ∧
        s.record c params op n' = s.active) ∨
      (∃ fScriptChecks parallel hash e block r, op = .connect fScriptChecks parallel hash ∧
        s.node.index hash = some e ∧ e.data = some block ∧ e.chain.tail = s.node.headers ∧
        connectBlock (tipContext c params fScriptChecks parallel s.node block) s.node.db
          s.node.view = .ok (r, n'.db) ∧
        n'.chain = block :: s.node.chain ∧ n'.view = r.view ∧
        s.record c params op n' = (block, r.uses) :: s.active) ∨
      (∃ block parent rest, s.node.chain = block :: parent :: rest ∧
        disconnectBlock c params s.node.db (rest.length + 1)
          ((s.node.index (block.getHash c)).bind IndexEntry.undo) block s.node.view =
            (.ok, n'.view, n'.db) ∧
        n'.chain = parent :: rest ∧ s.record c params op n' = s.active.tail) := by
  rcases step_chain hstep with ⟨hchain, hdb, hview, hop⟩ |
    ⟨fScriptChecks, parallel, hash, e, block, r, rfl, he, hdata, htail, hconn, hchain, hview, -⟩ |
    ⟨block, parent, rest, rfl, hchain, hdis, hchain', -⟩
  · refine .inl ⟨hchain, hdb, hview, ?_⟩
    cases op with
    | header _ _ => rfl
    | body _ _ => rfl
    | disconnect => exact absurd rfl hop
    | connect fScriptChecks parallel hash =>
      unfold Chainstate.record
      rw [hchain]
      cases hc : s.node.chain with
      | nil => rfl
      | cons block rest => exact if_neg (Nat.ne_of_lt (Nat.lt_succ_self _))
  · refine .inr (.inl ⟨fScriptChecks, parallel, hash, e, block, r, rfl, he, hdata, htail, hconn,
      hchain, hview, ?_⟩)
    unfold Chainstate.record capturedUses
    rw [hchain]
    simp only [hconn, if_true]
  · exact .inr (.inr ⟨block, parent, rest, hchain, hdis, hchain', rfl⟩)

/-- Connecting a block whose coinbase leaf is not marked. -/
theorem ClaimInv.connect (inv : ClaimInv c genesis s) (hpouw : params.fPoUW = true)
    (hgen : genesis.getHash c = params.hashGenesisBlock) (hinv' : ChainInv c genesis n')
    {fScriptChecks parallel : Bool} {hash : Uint256} {e : IndexEntry} {r : Connected}
    (he : s.node.index hash = some e) (hdata : e.data = some block)
    (htail : e.chain.tail = s.node.headers)
    (hconn : connectBlock (tipContext c params fScriptChecks parallel s.node block) s.node.db
      s.node.view = .ok (r, n'.db)) (hchain : n'.chain = block :: s.node.chain)
    (hfresh : ∀ key, parsedLeafKey c block = some key → s.node.db.leaf key = none) :
    ClaimInv c genesis { s with node := n', active := (block, r.uses) :: s.active } := by
  obtain ⟨-, hleaves, hdb⟩ := inv.connected hgen he hdata htail hconn
  obtain ⟨hnodup, hspend⟩ := checkSpendLeaves_ok_iff.mp hleaves
  have hcons := claimedKeys_cons (c := c) hpouw inv.active_ne_nil (block, r.uses)
  -- The block is not one of the chain that it extends.
  have hother : ∀ a ∈ s.node.chain, a.getHash c ≠ block.getHash c := by
    have htip : block :: s.node.chain <:+ n'.chain := hchain ▸ suffix_rfl
    exact fun a ha => hinv'.hash_ne_of_below htip ha
  -- None of its keys is claimed.
  have hnew : ∀ key ∈ blockKeys c params block r.uses, key ∉ claimedKeys c s.active := by
    intro key hkey hclaimed
    refine (inv.keys key).mpr hclaimed ?_
    rcases mem_blockKeys.mp hkey with hcb | hkey
    · exact hfresh key (by rw [← coinbaseLeafKey_eq hpouw, hcb])
    · exact (hspend key hkey).2
  refine { toChainInv := hinv', tracked := ?_, keys := ?_, nodup := ?_, listed := ?_, only := ?_ }
  · rw [hchain, ← inv.tracked]
    rfl
  · intro key
    rw [hcons, mem_append, hdb, markLeaves_leaf]
    by_cases hkey : key ∈ blockKeys c params block r.uses
    · simp [hkey]
    · rw [if_neg hkey, inv.keys key]
      simp [hkey]
  · rw [hcons, nodup_append']
    refine ⟨?_, inv.nodup, hnew⟩
    unfold blockKeys
    rw [nodup_append']
    refine ⟨by cases coinbaseLeafKey c params block <;> simp, hnodup, fun key hcb hkey => ?_⟩
    exact (hspend key hkey).1 (by simpa using hcb)
  · intro p l hs hne
    rw [hdb, markLeaves_leafList]
    rcases suffix_cons_iff.mp hs with heq | hs
    · obtain ⟨rfl, rfl⟩ := List.cons.inj heq
      by_cases huses : r.uses = []
      · rw [if_pos huses, if_pos huses]
        by_contra hlist
        obtain ⟨a, ha, hh⟩ := inv.only _ hlist
        exact hother a ha hh
      · rw [if_neg huses, if_neg huses, update_self]
    · have hne' : p.1.getHash c ≠ block.getHash c :=
        hother p.1 ((inv.suffix_chain hs).mem mem_cons_self)
      rw [← inv.listed p l hs hne]
      split
      · rfl
      · exact update_of_ne hne' _ _
  · intro h hh
    rw [hdb, markLeaves_leafList] at hh
    by_cases hb : h = block.getHash c
    · exact ⟨block, by rw [hchain]; exact mem_cons_self, hb.symm⟩
    have hold : s.node.db.leafList h ≠ none := by
      split at hh
      · exact hh
      · rwa [update_of_ne hb] at hh
    obtain ⟨a, ha, hah⟩ := inv.only h hold
    exact ⟨a, by rw [hchain]; exact mem_cons_of_mem _ ha, hah⟩

/-- Disconnecting the tip. -/
theorem ClaimInv.disconnect (inv : ClaimInv c genesis s) (hpouw : params.fPoUW = true)
    (hinv' : ChainInv c genesis n') {parent : Block} {rest : List Block}
    (hchain : s.node.chain = block :: parent :: rest)
    (hdb : n'.db = unmarkLeaves c params s.node.db block) (hchain' : n'.chain = parent :: rest) :
    ClaimInv c genesis { s with node := n', active := s.active.tail } := by
  -- The record is the tip with its leaves on top of that of the parent.
  have htracked := inv.tracked
  rw [hchain] at htracked
  obtain ⟨⟨b, uses⟩, active', hactive, rfl, hactive'⟩ := map_eq_cons_iff.mp htracked
  have hne : active' ≠ [] := by
    rintro rfl
    cases hactive'
  have hcons := claimedKeys_cons (c := c) hpouw hne (b, uses)
  rw [← hactive] at hcons
  have htip : (b, uses) :: active' <:+ s.active := hactive ▸ suffix_rfl
  have hlist := inv.listed _ _ htip hne
  have hnodup := inv.nodup
  rw [hcons, nodup_append'] at hnodup
  -- What is erased is what the tip has claimed.
  have herased : ∀ key, (coinbaseLeafKey c params b = some key ∨
      key ∈ (s.node.db.leafList (b.getHash c)).getD []) ↔ key ∈ blockKeys c params b uses := by
    intro key
    rw [hlist, mem_blockKeys]
    by_cases huses : uses = []
    · simp [huses, leafKeys]
    · simp [huses]
  rw [hactive, tail_cons]
  have hother : ∀ a ∈ parent :: rest, a.getHash c ≠ b.getHash c := by
    rw [← hactive']
    exact fun a ha => inv.hash_ne_of_below (inv.suffix_chain htip) ha
  refine { toChainInv := hinv', tracked := ?_, keys := ?_, nodup := ?_, listed := ?_, only := ?_ }
  · rw [hchain', ← hactive']
  · intro key
    rw [hdb, unmarkLeaves_leaf]
    have hkeys := inv.keys key
    rw [hcons, mem_append] at hkeys
    by_cases hkey : key ∈ blockKeys c params b uses
    · rw [if_pos ((herased key).mpr hkey)]
      exact ⟨fun h => absurd rfl h, fun h => absurd h (hnodup.2.2 hkey)⟩
    · rw [if_neg (mt (herased key).mp hkey), hkeys]
      simp [hkey]
  · exact hnodup.2.1
  · intro p l hs hl
    rw [hdb, unmarkLeaves_leafList, update_of_ne, inv.listed p l _ hl]
    · rw [hactive]
      exact hs.trans (suffix_cons _ _)
    · refine hother p.1 ?_
      rw [← hactive']
      exact (hs.map fst).mem mem_cons_self
  · intro h hh
    rw [hdb, unmarkLeaves_leafList] at hh
    by_cases hb : h = b.getHash c
    · rw [hb, update_self] at hh
      exact absurd rfl hh
    rw [update_of_ne hb] at hh
    obtain ⟨a, ha, hah⟩ := inv.only h hh
    rw [hchain] at ha
    rcases mem_cons.mp ha with rfl | ha
    · exact absurd hah.symm hb
    · exact ⟨a, by rw [hchain']; exact ha, hah⟩

/-- A call of the node. -/
theorem ClaimInv.node_step (inv : ClaimInv c genesis s) (hpouw : params.fPoUW = true)
    (hgen : genesis.getHash c = params.hashGenesisBlock) {op : NodeOp}
    (hcond : ClaimsKept c (.node op) s) (hstep : Node.step c params op s.node = some n') :
    ClaimInv c genesis { s with node := n', active := s.record c params op n' } := by
  have hinv' := inv.toChainInv.step hstep
  rcases record_cases hstep with ⟨hchain, hdb, -, hrecord⟩ |
    ⟨fScriptChecks, parallel, hash, e, block, r, rfl, he, hdata, htail, hconn, hchain, -, hrecord⟩ |
    ⟨block, parent, rest, hchain, hdis, hchain', hrecord⟩
  · rw [hrecord]
    exact { toChainInv := hinv'
            tracked := by rw [hchain, inv.tracked]
            keys := by rw [hdb]; exact inv.keys
            nodup := inv.nodup
            listed := by rw [hdb]; exact inv.listed
            only := by rw [hdb, hchain]; exact inv.only }
  · rw [hrecord]
    exact inv.connect hpouw hgen hinv' he hdata htail hconn hchain (hcond e block he hdata)
  · rw [hrecord]
    exact inv.disconnect hpouw hinv' hchain (disconnectBlock_db hdis nofun) hchain'

end Steps

/-! ### Steps at start-up -/

section Startup
variable {c : Crypto} {params : Params} {genesis : Block} {s : Chainstate}

/-- A block without a list and without a marked coinbase leaf. -/
def Unmarked (c : Crypto) (params : Params) (db : LeafDB) (block : Block) : Prop :=
  (∀ key, coinbaseLeafKey c params block = some key → db.leaf key = none) ∧
    db.leafList (block.getHash c) = none

/-- Disconnecting such a block erases nothing. -/
theorem Unmarked.unmarkLeaves_eq (h : Unmarked c params db block) :
    unmarkLeaves c params db block = db := by
  obtain ⟨hcb, hlist⟩ := h
  have hdb : (coinbaseLeafKey c params block).elim db db.unmark = db := by
    cases hkey : coinbaseLeafKey c params block with
    | none => rfl
    | some key =>
      show { db with leaf := update db.leaf key none } = db
      rw [← hcb key hkey, update_eq_self]
  unfold unmarkLeaves
  simp only [hdb, hlist]

variable {undo : Option (List (List Coin))}

/-- The tables after `DisconnectBlock`, also when it fails. -/
theorem Unmarked.disconnectBlock_eq {db' : LeafDB} {nHeight : Nat} {view view' : CoinsView}
    {res : DisconnectResult} (h : Unmarked c params db block)
    (hdis : disconnectBlock c params db nHeight undo block view = (res, view', db')) :
    db' = db := by
  have hdb : (disconnectBlock c params db nHeight undo block view).2.2 = db := by
    unfold disconnectBlock
    simp only [h.unmarkLeaves_eq]
    split
    · rfl
    · split
      · rfl
      · split <;> rfl
  rw [← hdb, hdis]

/-- Rolling back unmarked blocks erases nothing. -/
theorem rollBack_db {branch : List Block} :
    ∀ {nHeight : Nat} {cache : CoinsView} {r : CoinsView × LeafDB},
      (∀ block ∈ branch, Unmarked c params db block) →
      rollBack c params n branch nHeight cache db = some r → r.2 = db := by
  induction branch with
  | nil =>
    intro nHeight cache r _ h
    rw [← Option.some.inj h]
  | cons block rest ih =>
    intro nHeight cache r hun h
    unfold rollBack at h
    simp only at h
    split at h
    · cases h
    · rename_i res cache' db' hne hdis
      rw [(hun block mem_cons_self).disconnectBlock_eq hdis] at h
      exact ih (fun b hb => hun b (mem_cons_of_mem block hb)) h

/-- The checks on one block keep the tables if the block is unmarked, or the level is low. -/
theorem verifyBlock_db {nCheckLevel : Int} {fits : Bool} {nHeight : Nat} {st : VerifyState}
    (hun : 3 ≤ nCheckLevel → Unmarked c params st.db block) :
    (∀ db, verifyBlock c params nCheckLevel fits undo nHeight block st = .error db → db = st.db) ∧
      ∀ st', verifyBlock c params nCheckLevel fits undo nHeight block st = .ok st' →
        st'.db = st.db := by
  unfold verifyBlock
  split
  · exact ⟨fun db h => (error.inj h).symm, nofun⟩
  split
  · rename_i hlevel
    split
    · split
      · rename_i hdis
        rw [← (hun hlevel).disconnectBlock_eq hdis]
        exact ⟨fun db h => (error.inj h).symm, nofun⟩
      all_goals
        rename_i hdis
        refine ⟨nofun, fun st' h => ?_⟩
        rw [← ok.inj h]
        exact (hun hlevel).disconnectBlock_eq hdis
    · exact ⟨nofun, fun st' h => by rw [← ok.inj h]⟩
  · exact ⟨nofun, fun st' h => by rw [← ok.inj h]⟩

/-- The first loop of `VerifyDB` keeps the tables if the blocks it checks are unmarked, or the
level is low. -/
theorem verifyDown_db {nCheckLevel : Int} {depth : Nat} :
    ∀ {fits : Nat} {chain : List Block} {st : VerifyState},
      (3 ≤ nCheckLevel → ∀ block ∈ chain.dropLast.take depth, Unmarked c params st.db block) →
      (∀ db, verifyDown c params n nCheckLevel depth fits chain st = .error db → db = st.db) ∧
        ∀ st', verifyDown c params n nCheckLevel depth fits chain st = .ok st' →
          st'.db = st.db := by
  induction depth with
  | zero =>
    intro fits chain st _
    unfold verifyDown
    exact ⟨nofun, fun st' h => by rw [← ok.inj h]⟩
  | succ depth ih =>
    intro fits chain st hun
    match chain with
    | [] | [_] =>
      unfold verifyDown
      exact ⟨nofun, fun st' h => by rw [← ok.inj h]⟩
    | block :: parent :: rest =>
      rw [dropLast_cons_of_ne_nil (cons_ne_nil parent rest), take_succ_cons] at hun
      have hblock := fun hlevel => hun hlevel block mem_cons_self
      unfold verifyDown
      simp only
      split
      · rename_i db hv
        refine ⟨fun db' h => ?_, nofun⟩
        rw [← error.inj h]
        exact (verifyBlock_db hblock).1 db hv
      · rename_i st₁ hv
        have hdb := (verifyBlock_db hblock).2 st₁ hv
        rw [← hdb]
        refine ih fun hlevel b hb => ?_
        rw [hdb]
        exact hun hlevel b (mem_cons_of_mem block hb)

variable {o : VerifyOptions}

/-- `VerifyDB` below level 4. -/
theorem verifyDB_db (hlevel : o.level < 4)
    (hun : 3 ≤ o.level → ∀ block ∈ n.chain.dropLast.take (o.depth (n.chain.length - 1)),
      Unmarked c params n.db block) : (verifyDB c params o n).2 = n.db := by
  unfold verifyDB
  split
  · rfl
  have hdown := @verifyDown_db n c params o.level _ o.fits n.chain ⟨n.view, n.db, false, false⟩ hun
  simp only
  split
  · rename_i db h
    exact hdown.1 db h
  rename_i st h
  split
  · exact hdown.2 st h
  · split
    · exact hdown.2 st h
    · rw [if_neg (not_le.mpr hlevel)]
      exact hdown.2 st h

section
variable (inv : ClaimInv c genesis s) (hpouw : params.fPoUW = true)
include inv hpouw

/-- A block that the record says has claimed nothing is unmarked. -/
theorem ClaimInv.unmarked_of_no_claim {m : Nat}
    (hno : ∀ p ∈ s.active.dropLast.take m, parsedLeafKey c p.1 = none ∧ p.2 = [])
    (hb : block ∈ s.node.chain.dropLast.take m) : Unmarked c params s.node.db block := by
  rw [← inv.tracked, ← map_dropLast, ← map_take, mem_map] at hb
  obtain ⟨p, hp, rfl⟩ := hb
  obtain ⟨hcb, huses⟩ := hno p hp
  -- The block is above genesis, so the invariant speaks about its list.
  obtain ⟨l₁, l₂, hl⟩ := append_of_mem (mem_of_mem_take hp)
  have hactive : s.active = l₁ ++ p :: (l₂ ++ [s.active.getLast inv.active_ne_nil]) := by
    rw [← cons_append, ← append_assoc, ← hl, dropLast_append_getLast]
  have hs : p :: (l₂ ++ [s.active.getLast inv.active_ne_nil]) <:+ s.active :=
    ⟨l₁, hactive.symm⟩
  refine ⟨fun key hkey => ?_, ?_⟩
  · rw [coinbaseLeafKey_eq hpouw, hcb] at hkey
    cases hkey
  · rw [inv.listed p _ hs (append_ne_nil_of_right_ne_nil _ nofun), if_pos huses]

/-- `VerifyDB` under its condition. -/
theorem ClaimInv.verifyDB_eq (hcond : ClaimsKept c (.verifyDB o) s) :
    (verifyDB c params o s.node).2 = s.node.db := by
  rcases hcond with hlow | ⟨hthree, hno⟩
  · exact verifyDB_db (by omega) fun h => absurd h (by omega)
  · exact verifyDB_db (by omega) fun _ block hb => inv.unmarked_of_no_claim hpouw hno hb

/-- `ReplayBlocks` under its condition. -/
theorem ClaimInv.replayBlocks_eq {cache : CoinsView} (hcond : ClaimsKept c (.replayBlocks cache) s)
    (h : replayBlocks c params s.node s.flushed cache = some n') :
    ∃ view, n' = { s.node with view := view } := by
  -- The blocks of the old branch are not active, so they have no list.
  have hun : ∀ block ∈ oldBranch c s.flushed s.node.chain,
      Unmarked c params s.node.db block := by
    intro block hb
    refine ⟨fun key hkey => ?_, ?_⟩
    · rw [coinbaseLeafKey_eq hpouw] at hkey
      by_contra hmarked
      exact hcond block hb key hkey ((inv.keys key).mp hmarked)
    · by_contra hlist
      obtain ⟨a, ha, hh⟩ := inv.only _ hlist
      have hout := mem_takeWhile_imp hb
      simp only [Bool.not_eq_true', contains_eq_mem, decide_eq_false_iff_not] at hout
      exact hout (hh ▸ mem_map_of_mem ha)
  unfold replayBlocks at h
  simp only at h
  split at h
  · cases h
  · rename_i cache' db hroll
    have hdb : db = s.node.db := rollBack_db hun hroll
    rw [← Option.some.inj h, hdb]
    exact ⟨_, rfl⟩

end

/-- Every step that meets the condition keeps the invariant. -/
theorem ClaimInv.step (hpouw : params.fPoUW = true)
    (hgen : genesis.getHash c = params.hashGenesisBlock) (op : ChainstateOp) (s s' : Chainstate)
    (inv : ClaimInv c genesis s) (hcond : ClaimsKept c op s)
    (hstep : Chainstate.step c params op s = some s') : ClaimInv c genesis s' := by
  cases op with
  | node op =>
    obtain ⟨n', hn', rfl⟩ := Option.map_eq_some_iff.mp hstep
    exact inv.node_step hpouw hgen hcond hn'
  | flush =>
    rw [← Option.some.inj hstep]
    exact { inv with }
  | replayBlocks cache =>
    obtain ⟨n', hn', rfl⟩ := Option.map_eq_some_iff.mp hstep
    obtain ⟨view, rfl⟩ := inv.replayBlocks_eq hpouw hcond hn'
    exact { inv with genesis := inv.genesis, active := inv.active, stored := inv.stored }
  | verifyDB o =>
    rw [← Option.some.inj hstep, inv.verifyDB_eq hpouw hcond]
    exact { inv with }

end Startup

/-- On a network with proofs, take a run whose steps meet `ClaimsKept`. Then the record is one
of the active chain, and the table has exactly the keys that the active chain claims. -/
theorem leaf_iff_claimed {c : Crypto} {params : Params} {genesis : Block}
    (hpouw : params.fPoUW = true) (hgen : genesis.getHash c = params.hashGenesisBlock)
    {ops : List ChainstateOp} {s : Chainstate}
    (hmeet : StepsMeet (Chainstate.step c params) (ClaimsKept c) ops (Chainstate.init c genesis))
    (hrun : runOps (Chainstate.step c params) ops (Chainstate.init c genesis) = some s) :
    s.active.map Prod.fst = s.node.chain ∧
      ∀ key, s.node.db.leaf key ≠ none ↔ key ∈ claimedKeys c s.active := by
  have inv := runOps_invariant (ClaimInv.step hpouw hgen) (ClaimInv.init c genesis) hmeet hrun
  exact ⟨inv.tracked, inv.keys⟩

/-! ### Runs on the sample network -/

/-- A block with a leaf arrives and is connected. -/
def claimRun : List ChainstateOp :=
  [.node (.body { now := 1000 } firstLeafBlock),
    .node (.connect true false (firstLeafBlock.getHash sampleCrypto))]

/-- `VerifyDB` with the default arguments of a node. -/
def defaultVerify : VerifyOptions where
  nCheckLevel := 3
  nCheckDepth := 6
  fits := 1000

theorem claimRun_state :
    (runOps (Chainstate.step sampleCrypto sampleNetwork) claimRun
      (Chainstate.init sampleCrypto sampleGenesisBlock)).map
        (fun s => (s.node.chain.length, (claimedKeys sampleCrypto s.active).length)) =
      some (2, 1) := by
  decide +kernel

/-- The theorem on that run, in which the active chain claims one key. -/
theorem leaf_iff_claimed_claimRun :
    ∃ s, runOps (Chainstate.step sampleCrypto sampleNetwork) claimRun
        (Chainstate.init sampleCrypto sampleGenesisBlock) = some s ∧
      (claimedKeys sampleCrypto s.active).length = 1 ∧
      s.active.map Prod.fst = s.node.chain ∧
      ∀ key, s.node.db.leaf key ≠ none ↔ key ∈ claimedKeys sampleCrypto s.active := by
  obtain ⟨s, hrun, hs⟩ := Option.map_eq_some_iff.mp claimRun_state
  have hgen : sampleGenesisBlock.getHash sampleCrypto = sampleNetwork.hashGenesisBlock := by
    rw [sampleNetwork]
  refine ⟨s, hrun, congrArg snd hs, leaf_iff_claimed rfl hgen ?_ hrun⟩
  refine ⟨trivial, fun s₁ hs₁ => ⟨fun e block _ _ key _ => ?_, fun _ _ => trivial⟩⟩
  -- The table is empty until the block is connected.
  rw [Chainstate.step, Option.map_eq_some_iff] at hs₁
  obtain ⟨n₁, hn₁, rfl⟩ := hs₁
  rcases step_chain hn₁ with ⟨-, hdb, -⟩ | ⟨_, _, _, _, _, _, hop, -⟩ | ⟨_, _, _, hop, -⟩
  · show n₁.db.leaf key = none
    rw [hdb]
    rfl
  · cases hop
  · cases hop

/-- After that run, `VerifyDB` with its default arguments succeeds and erases the leaf of the
block, which stays on the active chain. -/
theorem verifyDB_forgets_leaf :
    (runOps (Chainstate.step sampleCrypto sampleNetwork) (claimRun ++ [.verifyDB defaultVerify])
      (Chainstate.init sampleCrypto sampleGenesisBlock)).map
        (fun s => (s.node.chain == [firstLeafBlock, sampleGenesisBlock],
          (claimedKeys sampleCrypto s.active).map fun key => s.node.db.leaf key)) =
      some (true, [none]) ∧
    (runOps (Chainstate.step sampleCrypto sampleNetwork) claimRun
      (Chainstate.init sampleCrypto sampleGenesisBlock)).map
        (fun s => (verifyDB sampleCrypto sampleNetwork defaultVerify s.node).1) = some .success := by
  decide +kernel

end AssentianPQE
