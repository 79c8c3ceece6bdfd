import AssentianPQE.Proofs.CheckedLeaf
import AssentianPQE.Proofs.DisconnectUndoes
import AssentianPQE.Proofs.LeafClaims

/-!
# When two nodes agree on a block

Two nodes take up the same blocks in different orders. `Setting.Valid` says what makes a chain
valid without looking at a node: every block passes the checks on the coins and on the leaves
that its own ancestors have left. A node marks a block as failed, or makes it active, by its
own coins and its own leaf table.

`verdicts_agree`: if every step of both runs meets `Setting.Agrees`, then no block of the
active chain of one node is marked as failed on the other. The coins are never the problem:
those of the tip are determined by the active chain, because `DisconnectBlock` undoes
`ConnectBlock` (`disconnectBlock_view`). The condition is about the leaf table, which
`AcceptBlock` reads while it has the leaves of the chain that happens to be active.

`twinBlocks_split`: two blocks with one parent and one leaf. Each node fails the one that it
sees second.
-/

set_option autoImplicit false

namespace AssentianPQE

open Lib List BlockHeader

variable {active : List (Block × XMSSLeafUses)} {view : CoinsView} {p : Block × XMSSLeafUses}
  {arrival : Arrival} {block : Block} {fScriptChecks parallel : Bool} {hash : Uint256}

/-! ### Validity of a chain -/

/-- What two nodes have in common: the parameters, the blocks that they process, and the
blocks whose scripts are checked. No two blocks have one hash. -/
structure Setting where
  c : Crypto
  params : Params
  genesis : Block
  blocks : List Block
  scripts : Uint256 → Bool
  genesis_mem : genesis ∈ blocks
  genesis_hash : genesis.getHash c = params.hashGenesisBlock
  pouw : params.fPoUW = true
  hash_inj : ∀ a ∈ blocks, ∀ b ∈ blocks, a.getHash c = b.getHash c → a = b

/-- A table with the keys of a chain. -/
def claimTable (c : Crypto) (active : List (Block × XMSSLeafUses)) : LeafTable :=
  fun key => if key ∈ claimedKeys c active then some nullHash else none

theorem claimTable_eq_none_iff {c : Crypto} {key : Uint256} :
    claimTable c active key = none ↔ key ∉ claimedKeys c active := by
  unfold claimTable
  split <;> simp [*]

/-- The headers of a chain with its captured leaves. -/
def headersOf (active : List (Block × XMSSLeafUses)) : List BlockHeader :=
  active.map fun p => p.1.header

namespace Setting

/-- How a block is connected on top of a chain. -/
def context (S : Setting) (active : List (Block × XMSSLeafUses)) (block : Block) :
    ConnectContext where
  crypto := S.c
  params := S.params
  fScriptChecks := S.scripts (block.getHash S.c)
  parallel := false
  fJustCheck := false
  prev := headersOf active
  block := block

/-- A valid chain with its captured leaves, and the coins after it. -/
inductive Valid (S : Setting) : List (Block × XMSSLeafUses) → CoinsView → Prop where
  | genesis : Valid S [(S.genesis, [])] fun _ => none
  | block {p : Block × XMSSLeafUses} {active : List (Block × XMSSLeafUses)} {view : CoinsView}
      {block : Block} {v : PoUWVerdict} {r : Connected}
      (hvalid : Valid S (p :: active) view) (hmem : block ∈ S.blocks)
      (hprev : block.hashPrevBlock = p.1.getHash S.c)
      (hnew : block.getHash S.c ≠ S.genesis.getHash S.c)
      (hbody : checkBody S.c S.params (claimTable S.c (p :: active)) (headersOf (p :: active))
        block = .ok v)
      (hbip : enforceBIP30 S.c S.params (headersOf (p :: active)) (block.getHash S.c) = true)
      (hcoins : connectCoins (S.context (p :: active) block) view = .ok r)
      (hleaves : checkSpendLeaves S.c S.params (claimTable S.c (p :: active)) block r.uses =
        .ok ()) :
      Valid S ((block, r.uses) :: p :: active) r.view

/-- A chain of headers down to genesis. -/
inductive Linked (S : Setting) : List BlockHeader → Prop where
  | genesis : Linked S [S.genesis.header]
  | block {block : Block} {p : BlockHeader} {tl : List BlockHeader} (hlinked : Linked S (p :: tl))
      (hmem : block ∈ S.blocks) (hprev : block.hashPrevBlock = p.getHash S.c)
      (hnew : block.getHash S.c ≠ S.genesis.getHash S.c) : Linked S (block.header :: p :: tl)

variable {S : Setting}

theorem Valid.ne_nil (h : S.Valid active view) : active ≠ [] := by
  cases h <;> exact cons_ne_nil _ _

theorem Valid.linked (h : S.Valid active view) : S.Linked (headersOf active) := by
  induction h with
  | genesis => exact .genesis
  | block _ hmem hprev hnew _ _ _ _ ih => exact .block ih hmem hprev hnew

theorem Valid.mem_blocks (h : S.Valid (p :: active) view) : p.1 ∈ S.blocks := by
  cases h with
  | genesis => exact S.genesis_mem
  | block _ hmem _ _ _ _ _ _ => exact hmem

/-- The head of a chain of headers determines it. -/
theorem Linked.eq_of_head {l m : List BlockHeader} (hl : S.Linked l) (hm : S.Linked m)
    (hh : l.head?.map (getHash S.c) = m.head?.map (getHash S.c)) :
    l = m := by
  induction hl generalizing m with
  | genesis =>
    cases hm with
    | genesis => rfl
    | block _ _ _ hnew =>
      simp only [head?_cons, Option.map_some, Option.some.injEq] at hh
      exact absurd hh.symm hnew
  | @block block p tl _ hmem hprev hnew ih =>
    cases hm with
    | genesis =>
      simp only [head?_cons, Option.map_some, Option.some.injEq] at hh
      exact absurd hh hnew
    | @block block' p' tl' hlinked' hmem' hprev' _ =>
      simp only [head?_cons, Option.map_some, Option.some.injEq] at hh
      have hblock : block = block' := S.hash_inj block hmem block' hmem' hh
      rw [ih hlinked' (by simp only [head?_cons, Option.map_some, ← hprev, ← hprev', hblock]),
        hblock]

variable {view' : CoinsView}

/-- The headers of a valid chain determine its leaves and its coins. -/
theorem Valid.eq_of_headers {active' : List (Block × XMSSLeafUses)} (h : S.Valid active view)
    (h' : S.Valid active' view') (hh : headersOf active = headersOf active') :
    active = active' ∧ view = view' := by
  induction h generalizing active' view' with
  | genesis =>
    cases h' with
    | genesis => exact ⟨rfl, rfl⟩
    | block _ _ _ _ _ _ _ _ => exact absurd (congrArg List.length hh) (by simp [headersOf])
  | @block p active view block v r _ hmem _ _ _ _ hcoins _ ih =>
    cases h' with
    | genesis => exact absurd (congrArg List.length hh) (by simp [headersOf])
    | @block p' active₁ view₁ block' v' r' hvalid' hmem' _ _ _ _ hcoins' _ =>
      obtain ⟨hhead, htail⟩ := List.cons.inj hh
      have hblock : block = block' :=
        S.hash_inj block hmem block' hmem' (congrArg (getHash S.c) hhead)
      obtain ⟨hactive, rfl⟩ := ih hvalid' htail
      rw [← hblock, ← hactive, hcoins, Except.ok.injEq] at hcoins'
      rw [hcoins', hactive, hblock]
      exact ⟨rfl, rfl⟩

/-- The coins of a valid chain can be restored. -/
theorem Valid.undoable (h : S.Valid active view) : Undoable view := by
  induction h with
  | genesis => exact nofun
  | @block p active _ block _ _ _ _ _ _ _ _ hcoins _ ih =>
    have hheight : (S.context (p :: active) block).nHeight ≠ 0 := by
      simp [ConnectContext.nHeight, context, headersOf]
    exact connectCoins_undoable ih hheight hcoins

/-! ### The condition on a step -/

/-- The condition on the steps of a run:

- headers and bodies are those of the common blocks;
- when a body is checked, its leaf is in the table exactly if an ancestor claims it;
- a block is connected with scripts checked as agreed, under BIP 30, and with a coinbase leaf
  that is not in the table. -/
def Agrees (S : Setting) : NodeOp → Node → Prop
  | .header _ header, _ => ∃ block ∈ S.blocks, block.header = header
  | .body arrival block, n => block ∈ S.blocks ∧
    ∀ e, headerEntry S.c S.params arrival n block.header = .ok e → e.data = none →
      S.params.nPoUWLeafReuseActivation ≤ e.chain.tail.length →
      ∀ leaf, checkedLeaf S.params block = some leaf →
      ∀ active view, S.Valid active view → headersOf active = e.chain.tail →
        (n.db.leaf (leafKey S.c leaf) ≠ none ↔ leafKey S.c leaf ∈ claimedKeys S.c active)
  | .connect fScriptChecks _ hash, n => fScriptChecks = S.scripts hash ∧
    enforceBIP30 S.c S.params n.headers hash = true ∧
    ∀ e block, n.index hash = some e → e.data = some block →
      ∀ key, parsedLeafKey S.c block = some key → n.db.leaf key = none
  | .disconnect, _ => True

/-- What holds for every entry of the index in such a run:

- `linked`: it has its headers down to genesis;
- `body`: a stored body passes its checks on top of its ancestors;
- `undone`: undo data is that of the body on top of its ancestors;
- `failed`: a block that is marked as failed is in no valid chain. -/
structure EntryInv (S : Setting) (h : Uint256) (e : IndexEntry) : Prop where
  linked : S.Linked e.chain ∧ e.chain.head?.map (BlockHeader.getHash S.c) = some h
  body : ∀ b, e.data = some b → b ∈ S.blocks ∧
    ∀ active view, S.Valid active view → headersOf active = e.chain.tail →
      ∃ v, checkBody S.c S.params (claimTable S.c active) e.chain.tail b = .ok v
  undone : ∀ u, e.undo = some u → ∃ b, e.data = some b ∧
    ∀ active view, S.Valid active view → headersOf active = e.chain.tail →
      ∃ r, connectCoins (S.context active b) view = .ok r ∧ u = r.vtxundo
  failed : e.failedValid = true →
    ∀ p active view, S.Valid (p :: active) view → p.1.getHash S.c ≠ h

/-- What holds in every state of such a run: the active chain is valid, the coins and the leaf
table are its own, and the entries are as above. -/
structure VerdictInv (S : Setting) (n : Node) : Prop where
  claims : ∃ active, ClaimInv S.c S.genesis ⟨n, [], active⟩ ∧ S.Valid active n.view
  entries : ∀ h e, n.index h = some e → S.EntryInv h e

/-- A new node. -/
theorem VerdictInv.init (S : Setting) : VerdictInv S (Node.init S.c S.genesis) where
  claims := ⟨[(S.genesis, [])], { ClaimInv.init S.c S.genesis with }, .genesis⟩
  entries h e he := by
    obtain ⟨rfl, rfl⟩ := Node.init_index_iff.mp he
    refine { linked := ⟨.genesis, rfl⟩, body := ?_, undone := nofun, failed := nofun }
    intro b hb
    cases hb
    refine ⟨S.genesis_mem, fun active view hvalid hh => ?_⟩
    exact absurd (map_eq_nil_iff.mp hh) hvalid.ne_nil

/-! ### Steps -/

variable {n n' : Node}

/-- The genesis block is stored. -/
theorem VerdictInv.genesis_entry (inv : S.VerdictInv n) :
    ∃ e, n.index (S.genesis.getHash S.c) = some e ∧ e.data = some S.genesis := by
  obtain ⟨active, hclaims, -⟩ := inv.claims
  obtain ⟨e, he, hdata, -⟩ := hclaims.active S.genesis [] hclaims.genesis
  exact ⟨e, he, hdata⟩

variable {e : IndexEntry}

/-- The entry of an accepted header, which is in the index or has nothing but its headers. -/
theorem VerdictInv.headerEntry_inv (inv : S.VerdictInv n) (hmem : block ∈ S.blocks)
    (hentry : headerEntry S.c S.params arrival n block.header = .ok e) :
    S.EntryInv (block.getHash S.c) e := by
  obtain ⟨e₀, he₀, -⟩ := inv.genesis_entry
  rcases headerEntry_cases hentry with hidx | ⟨hnone, ⟨prev, hprev, rfl⟩ | ⟨hgen, -⟩⟩
  · exact inv.entries _ e hidx
  · refine { linked := ⟨?_, rfl⟩, body := nofun, undone := nofun, failed := nofun }
    obtain ⟨hlinked, hhead⟩ := (inv.entries _ prev hprev).linked
    have hnew : block.getHash S.c ≠ S.genesis.getHash S.c := by
      intro hh
      have hsome : n.index (block.header.getHash S.c) = some e₀ := by
        rw [← he₀, ← hh]
        rfl
      rw [hnone] at hsome
      cases hsome
    cases hchain : prev.chain with
    | nil =>
      rw [hchain] at hhead
      cases hhead
    | cons p tl =>
      rw [hchain, head?_cons, Option.map_some, Option.some.injEq] at hhead
      rw [hchain] at hlinked
      exact .block hlinked hmem hhead.symm hnew
  · -- The genesis block is in the index.
    rw [hgen, ← S.genesis_hash, he₀] at hnone
    cases hnone

/-- Under the condition, a body is checked as on top of its ancestors. -/
theorem checkBody_eq (hcond : S.Agrees (.body arrival block) n)
    (hentry : headerEntry S.c S.params arrival n block.header = .ok e) (hnone : e.data = none)
    (hvalid : S.Valid active view) (hh : headersOf active = e.chain.tail) :
    checkBody S.c S.params n.db.leaf e.chain.tail block =
      checkBody S.c S.params (claimTable S.c active) e.chain.tail block := by
  have hpouw : checkPoUW S.c S.params n.db.leaf block e.chain.tail.length =
      checkPoUW S.c S.params (claimTable S.c active) block e.chain.tail.length := by
    refine checkPoUW_congr fun hact leaf hleaf => ?_
    have hagree := hcond.2 e hentry hnone hact leaf hleaf active view hvalid hh
    rw [claimTable_eq_none_iff, ← hagree, not_not]
  unfold checkBody contextualCheckBlock
  rw [hpouw]

section
variable (hclaims : ClaimInv S.c S.genesis ⟨n, [], active⟩)
include hclaims

/-- The record of the active chain has the headers of the node. -/
theorem headersOf_active : headersOf active = n.headers := by
  unfold Node.headers headersOf
  rw [← show active.map Prod.fst = n.chain from hclaims.tracked, map_map]
  rfl

/-- `ConnectTip` connects a block as on top of its ancestors, apart from the threads. -/
theorem tipContext_eq (hscripts : fScriptChecks = S.scripts (block.getHash S.c)) :
    tipContext S.c S.params fScriptChecks parallel n block =
      { S.context active block with parallel := parallel } := by
  unfold tipContext context
  rw [hscripts, headersOf_active hclaims]

/-- The node and the active chain agree on which keys are new. -/
theorem checkSpendLeaves_claimTable {uses : XMSSLeafUses} :
    checkSpendLeaves S.c S.params (claimTable S.c active) block uses = .ok () ↔
      checkSpendLeaves S.c S.params n.db.leaf block uses = .ok () := by
  have hkeys : ∀ key, claimTable S.c active key = none ↔ n.db.leaf key = none := by
    intro key
    rw [claimTable_eq_none_iff, ← hclaims.keys key, not_not]
  rw [checkSpendLeaves_ok_iff, checkSpendLeaves_ok_iff]
  simp only [hkeys]

end

section
variable (inv : S.VerdictInv n) (hclaims : ClaimInv S.c S.genesis ⟨n, [], active⟩)
include inv hclaims

/-- The entry of a child of the tip is that of its block. -/
theorem VerdictInv.child_of_tip (he : n.index hash = some e) (hdata : e.data = some block)
    (htail : e.chain.tail = n.headers) :
    block ∈ S.blocks ∧ block.getHash S.c = hash ∧ e.chain = block.header :: headersOf active ∧
      block.getHash S.c ≠ S.genesis.getHash S.c ∧
      ∃ p l, active = p :: l ∧ block.hashPrevBlock = p.1.getHash S.c := by
  have hmem := ((inv.entries hash e he).body block hdata).1
  have hhash : block.getHash S.c = hash := hclaims.stored hash e block he hdata
  obtain ⟨hlinked, hhead⟩ := (inv.entries hash e he).linked
  rw [← headersOf_active hclaims] at htail
  obtain ⟨p, l, hactive⟩ := exists_cons_of_ne_nil hclaims.active_ne_nil
  have hactive : active = p :: l := hactive
  refine ⟨hmem, hhash, ?_⟩
  generalize e.chain = chain at hlinked hhead htail
  cases hlinked with
  | genesis =>
    rw [hactive] at htail
    cases htail
  | @block block' q tl _ hmem' hprev hnew =>
    rw [head?_cons, Option.map_some, Option.some.injEq] at hhead
    have hblock : block' = block := S.hash_inj block' hmem' block hmem (by rw [hhash]; exact hhead)
    rw [tail_cons] at htail
    rw [hblock] at hprev hnew
    refine ⟨by rw [hblock, htail], hnew, p, l, hactive, ?_⟩
    rw [hactive] at htail
    rw [hprev, (List.cons.inj htail).1]
    rfl

/-- A block that `ConnectTip` has connected extends the valid chain. -/
theorem VerdictInv.valid_connect (hvalid : S.Valid active n.view) {r : Connected} {db : LeafDB}
    (hcond : S.Agrees (.connect fScriptChecks parallel hash) n) (he : n.index hash = some e)
    (hdata : e.data = some block) (htail : e.chain.tail = n.headers)
    (hconn : connectBlock (tipContext S.c S.params fScriptChecks parallel n block) n.db n.view =
      .ok (r, db)) :
    connectCoins (S.context active block) n.view = .ok r ∧
      S.Valid ((block, r.uses) :: active) r.view := by
  obtain ⟨hmem, hhash, hchain, hnew, p, l, hactive, hprev⟩ :=
    inv.child_of_tip hclaims he hdata htail
  obtain ⟨hscripts, hbip, -⟩ := hcond
  obtain ⟨hcoins, hleaves, -⟩ := hclaims.connected S.genesis_hash he hdata htail hconn
  rw [← hhash] at hscripts hbip
  rw [show tipContext S.c S.params fScriptChecks parallel (Chainstate.node ⟨n, [], active⟩) block =
    _ from tipContext_eq hclaims hscripts] at hcoins
  have hcoins : connectCoins (S.context active block) n.view = .ok r :=
    connectCoins_parallel false hcoins
  obtain ⟨v, hbody⟩ := ((inv.entries hash e he).body block hdata).2 active n.view hvalid
    (by rw [hchain]; rfl)
  rw [show e.chain.tail = headersOf active by rw [hchain]; rfl] at hbody
  have hleaves := (checkSpendLeaves_claimTable hclaims).mpr hleaves
  rw [← headersOf_active hclaims] at hbip
  rw [hactive] at hvalid hcoins hbody hleaves hbip ⊢
  exact ⟨hcoins, .block hvalid hmem hprev hnew hbody hbip hcoins hleaves⟩

/-- Disconnecting the tip leads back to the valid chain below it. -/
theorem VerdictInv.valid_disconnect (hvalid : S.Valid active n.view) {parent : Block}
    {rest : List Block} {db' : LeafDB} (hchain : n.chain = block :: parent :: rest)
    (hdis : disconnectBlock S.c S.params n.db (rest.length + 1)
      ((n.index (block.getHash S.c)).bind IndexEntry.undo) block n.view = (.ok, view', db')) :
    S.Valid active.tail view' := by
  have htracked : active.map Prod.fst = n.chain := hclaims.tracked
  obtain ⟨e, he, hdata, htail⟩ := hclaims.active block (parent :: rest)
    (hchain ▸ suffix_rfl)
  rw [hchain] at htracked
  generalize hview : n.view = view at hvalid hdis
  cases hvalid with
  | genesis => cases htracked
  | @block p l view₀ b v r hvalid₀ hmem hprev hnew hbody hbip hcoins hleaves =>
    obtain ⟨hb, hrest⟩ := List.cons.inj htracked
    have hb : b = block := hb
    rw [hb] at hcoins hbody hbip
    have hheaders : headersOf (p :: l) = e.chain.tail := by
      rw [htail, ← hrest, map_map]
      rfl
    -- The stored undo data is that of the valid chain.
    have hundo : (n.index (block.getHash S.c)).bind IndexEntry.undo = some r.vtxundo := by
      rw [show n.index (block.getHash S.c) = some e from he, Option.bind_some]
      cases hu : e.undo with
      | none =>
        rw [show n.index (block.getHash S.c) = some e from he, Option.bind_some, hu] at hdis
        cases hdis
      | some u =>
        obtain ⟨b', hb', hr⟩ := (inv.entries _ e he).undone u hu
        rw [hdata, Option.some.injEq] at hb'
        obtain ⟨r', hcoins', rfl⟩ := hr (p :: l) view₀ hvalid₀ hheaders
        rw [← hb', hcoins, Except.ok.injEq] at hcoins'
        rw [hcoins']
    rw [hundo] at hdis
    have hlen : rest.length + 1 = (S.context (p :: l) block).nHeight := by
      have hlen := congrArg List.length hrest
      simp only [length_map, length_cons] at hlen
      simp only [ConnectContext.nHeight, context, headersOf, length_map, length_cons]
      omega
    have hcheck : checkBlockTxs block = .ok () := by
      unfold checkBody at hbody
      split at hbody
      · cases hbody
      · rename_i hblock
        exact (checkBlock_ok_iff.mp hblock).2.2.2
    rw [hlen] at hdis
    have hheight : (S.context (p :: l) block).nHeight ≠ 0 := by omega
    have hback := disconnectBlock_view hcheck hbip hvalid₀.undoable hheight hcoins hdis
    rw [hback]
    exact hvalid₀

end

variable {why : BlockInvalid}

/-- A block that `AcceptBlock` has failed is in no valid chain. -/
theorem VerdictInv.not_valid_of_rejected (inv : S.VerdictInv n)
    (hcond : S.Agrees (.body arrival block) n)
    (hentry : headerEntry S.c S.params arrival n block.header = .ok e) (hnone : e.data = none)
    (hbody : checkBody S.c S.params n.db.leaf e.chain.tail block = .error why)
    (hvalid : S.Valid (p :: active) view) : p.1.getHash S.c ≠ block.getHash S.c := by
  intro hh
  have hp : p.1 = block := S.hash_inj p.1 hvalid.mem_blocks block hcond.1 hh
  obtain ⟨hlinked, hhead⟩ := (inv.headerEntry_inv hcond.1 hentry).linked
  have hheaders : headersOf (p :: active) = e.chain := by
    refine hvalid.linked.eq_of_head hlinked ?_
    rw [hhead, ← hp]
    rfl
  cases hvalid with
  | genesis =>
    -- The genesis block has a body from the start.
    obtain ⟨e₀, he₀, hdata₀⟩ := inv.genesis_entry
    rcases headerEntry_cases hentry with hold | ⟨hno, -⟩
    · have heq : n.index (block.getHash S.c) = some e := hold
      rw [← hh, he₀, Option.some.injEq] at heq
      rw [← heq, hdata₀] at hnone
      cases hnone
    · have heq : n.index (block.getHash S.c) = none := hno
      rw [← hh, he₀] at heq
      cases heq
  | @block q l view₀ b v r hvalid₀ _ _ _ hbody' _ _ _ =>
    have hp : b = block := hp
    have htail : headersOf (q :: l) = e.chain.tail := by
      rw [← hheaders]
      rfl
    rw [checkBody_eq hcond hentry hnone hvalid₀ htail, ← htail, ← hp, hbody'] at hbody
    cases hbody

/-- A block that `ConnectTip` has failed is in no valid chain. -/
theorem VerdictInv.not_valid_of_failed (inv : S.VerdictInv n)
    (hcond : S.Agrees (.connect fScriptChecks parallel hash) n) (he : n.index hash = some e)
    (hdata : e.data = some block) (htail : e.chain.tail = n.headers)
    (hconn : connectBlock (tipContext S.c S.params fScriptChecks parallel n block) n.db n.view =
      .error (.invalid why)) (hvalid : S.Valid (p :: active) view) : p.1.getHash S.c ≠ hash := by
  intro hh
  obtain ⟨act, hclaims, hact⟩ := inv.claims
  obtain ⟨hmem, hhash, hchain, hnew, -⟩ := inv.child_of_tip hclaims he hdata htail
  cases hvalid with
  | genesis => exact hnew (by rw [hhash, ← hh])
  | @block q l view₀ b v r hvalid₀ hmem' _ _ hbody _ hcoins hleaves =>
    have hb : b = block := S.hash_inj b hmem' block hmem (by rw [hhash]; exact hh)
    -- The chain below the block is the active one.
    have hheaders : headersOf (q :: l) = headersOf act := by
      have hall := (Valid.linked (.block hvalid₀ hmem' ‹_› ‹_› hbody ‹_› hcoins hleaves)).eq_of_head
        (inv.entries hash e he).linked.1
        (by rw [(inv.entries hash e he).linked.2]; exact congrArg some hh)
      rw [hchain] at hall
      exact (List.cons.inj hall).2
    obtain ⟨hact', rfl⟩ := hvalid₀.eq_of_headers hact hheaders
    rw [hb, hact'] at hcoins hbody hleaves
    have hleaves := (checkSpendLeaves_claimTable hclaims).mp hleaves
    have hscripts := hcond.1
    rw [← hhash] at hscripts
    have hcoins := connectCoins_parallel parallel hcoins
    rw [← tipContext_eq hclaims hscripts] at hcoins
    have hcheck : checkBlock S.c S.params block true true = .ok () := by
      unfold checkBody at hbody
      split at hbody
      · cases hbody
      · assumption
    have hgenesis : block.getHash S.c ≠ S.params.hashGenesisBlock := by
      rw [← S.genesis_hash]
      exact hnew
    have hprev : n.headers ≠ [] := by
      rw [← headersOf_active hclaims, ← hheaders]
      exact cons_ne_nil _ _
    have hok : connectBlock (tipContext S.c S.params fScriptChecks parallel n block) n.db n.view =
        .ok (r, markLeaves S.c S.params n.db block r.uses) :=
      (connectBlock_ok_iff rfl).mpr ⟨hcheck, .inr ⟨hgenesis, hprev, hcoins, hleaves, rfl⟩⟩
    rw [hconn] at hok
    cases hok

/-- Every step that meets the condition keeps the invariant. -/
theorem VerdictInv.step (op : NodeOp) (n n' : Node) (inv : S.VerdictInv n)
    (hcond : S.Agrees op n) (hstep : Node.step S.c S.params op n = some n') :
    S.VerdictInv n' := by
  obtain ⟨active, hclaims, hvalid⟩ := inv.claims
  constructor
  · -- The chain, the coins and the tables.
    have hkept : ClaimsKept S.c (.node op) ⟨n, [], active⟩ := by
      cases op with
      | connect _ _ hash => exact hcond.2.2
      | header _ _ | body _ _ | disconnect => trivial
    refine ⟨_, hclaims.node_step S.pouw S.genesis_hash hkept hstep, ?_⟩
    rcases @record_cases _ S.c S.params ⟨n, [], active⟩ _ hstep with ⟨-, -, hview, hrecord⟩ |
      ⟨fScriptChecks, parallel, hash, e, block, r, rfl, he, hdata, htail, hconn, -, hview, hrecord⟩ |
      ⟨block, parent, rest, hchain, hdis, -, hrecord⟩
    · rw [hrecord, hview]
      exact hvalid
    · rw [hrecord, hview]
      exact (inv.valid_connect hclaims hvalid hcond he hdata htail hconn).2
    · rw [hrecord]
      exact inv.valid_disconnect hclaims hvalid hchain hdis
  · -- The entries.
    intro h e' he'
    cases step_entry hstep he' with
    | kept he => exact inv.entries h e' he
    | added hop hh hnone hentry =>
      obtain ⟨block, hmem, rfl⟩ : ∃ block ∈ S.blocks, block.header = _ := by
        rcases hop with rfl | ⟨block, rfl, rfl⟩
        · exact hcond
        · exact ⟨block, hcond.1, rfl⟩
      rw [← hh]
      exact inv.headerEntry_inv hmem hentry
    | stored hh hentry hnone hbody =>
      rw [← hh]
      have hold := inv.headerEntry_inv hcond.1 hentry
      refine { hold with body := fun b hb => ?_, undone := fun u hu => ?_ }
      · cases hb
        refine ⟨hcond.1, fun act view hv hheaders => ?_⟩
        rw [← checkBody_eq hcond hentry hnone hv hheaders]
        exact ⟨_, hbody⟩
      · -- There is no undo data without a body.
        obtain ⟨b, hb, -⟩ := hold.undone u hu
        rw [hnone] at hb
        cases hb
    | rejected hh hentry hnone hbody =>
      rw [← hh]
      exact { inv.headerEntry_inv hcond.1 hentry with
        failed := fun _ p act view hv => inv.not_valid_of_rejected hcond hentry hnone hbody hv }
    | @connected _ _ e block r _ he hdata htail hconn =>
      have hold := inv.entries h e he
      refine { hold with undone := fun u hu => ?_ }
      cases hundo : e.undo with
      | some u' =>
        -- The undo data of an earlier connection.
        simp only [hundo, Option.getD_some, Option.some.injEq] at hu
        rw [← hu]
        exact hold.undone u' hundo
      | none =>
        simp only [hundo, Option.getD_none, Option.some.injEq] at hu
        refine ⟨block, hdata, fun act view hv hheaders => ⟨r, ?_, hu.symm⟩⟩
        rw [show _ = n.headers from htail, ← headersOf_active hclaims] at hheaders
        obtain ⟨rfl, rfl⟩ := hv.eq_of_headers hvalid hheaders
        exact (inv.valid_connect hclaims hvalid hcond he hdata htail hconn).1
    | failed he hdata htail hconn =>
      exact { inv.entries h _ he with
        failed := fun _ p act view hv => inv.not_valid_of_failed hcond he hdata htail hconn hv }

/-- The part of a valid chain below a block is valid. -/
theorem Valid.of_suffix (h : S.Valid active view) {l : List (Block × XMSSLeafUses)}
    (hs : p :: l <:+ active) : ∃ view', S.Valid (p :: l) view' := by
  induction h with
  | genesis =>
    rcases suffix_cons_iff.mp hs with heq | hnil
    · rw [heq]
      exact ⟨_, .genesis⟩
    · exact absurd (suffix_nil.mp hnil) nofun
  | block hvalid hmem hprev hnew hbody hbip hcoins hleaves ih =>
    rcases suffix_cons_iff.mp hs with heq | hs
    · rw [heq]
      exact ⟨_, .block hvalid hmem hprev hnew hbody hbip hcoins hleaves⟩
    · exact ih hs

end Setting

/-- A body on top of genesis meets the condition while the table is empty. -/
theorem Setting.VerdictInv.agrees_body {S : Setting} {n : Node} (inv : S.VerdictInv n)
    (hdb : n.db = LeafDB.empty) (hmem : block ∈ S.blocks)
    (hprev : block.hashPrevBlock = S.genesis.getHash S.c)
    (hnew : block.getHash S.c ≠ S.genesis.getHash S.c) : S.Agrees (.body arrival block) n := by
  refine ⟨hmem, fun e hentry _ _ leaf _ active view hvalid hh => ?_⟩
  -- The only ancestor is genesis, which claims nothing.
  have hchain : e.chain = [block.header, S.genesis.header] := by
    obtain ⟨hlinked, hhead⟩ := (inv.headerEntry_inv hmem hentry).linked
    exact hlinked.eq_of_head (.block .genesis hmem hprev hnew) hhead
  rw [hchain, tail_cons] at hh
  obtain ⟨rfl, -⟩ := hvalid.eq_of_headers Setting.Valid.genesis hh
  rw [hdb]
  exact ⟨fun h => absurd rfl h, nofun⟩

/-- Take two runs from a new node whose steps meet the condition. Then no block of the active
chain of the first node, and none of its ancestors, is marked as failed on the second one. -/
theorem verdicts_agree (S : Setting) {ops₁ ops₂ : List NodeOp} {n₁ n₂ : Node}
    (hmeet₁ : StepsMeet (Node.step S.c S.params) S.Agrees ops₁ (Node.init S.c S.genesis))
    (hrun₁ : runOps (Node.step S.c S.params) ops₁ (Node.init S.c S.genesis) = some n₁)
    (hmeet₂ : StepsMeet (Node.step S.c S.params) S.Agrees ops₂ (Node.init S.c S.genesis))
    (hrun₂ : runOps (Node.step S.c S.params) ops₂ (Node.init S.c S.genesis) = some n₂)
    {a b : Block} {l : List Block} (hactive : a :: l <:+ n₁.chain) (hb : b ∈ a :: l)
    {e : IndexEntry} (he : n₂.index (b.getHash S.c) = some e) : e.failedValid = false := by
  have inv₁ := runOps_invariant Setting.VerdictInv.step (Setting.VerdictInv.init S) hmeet₁ hrun₁
  have inv₂ := runOps_invariant Setting.VerdictInv.step (Setting.VerdictInv.init S) hmeet₂ hrun₂
  obtain ⟨active, hclaims, hvalid⟩ := inv₁.claims
  have hmem : b ∈ active.map Prod.fst := by
    rw [show active.map Prod.fst = n₁.chain from hclaims.tracked]
    exact hactive.mem hb
  obtain ⟨p, hp, rfl⟩ := mem_map.mp hmem
  obtain ⟨l₁, l₂, rfl⟩ := append_of_mem hp
  obtain ⟨view, hvalid⟩ := hvalid.of_suffix (suffix_append l₁ (p :: l₂))
  by_contra hfailed
  exact (inv₂.entries _ e he).failed (by simpa using hfailed) p l₂ view hvalid rfl

/-- A block beside `firstLeafBlock` with another leaf. -/
def otherLeafBlock : Block :=
  sampleBlock 1 (sampleGenesisBlock.getHash sampleCrypto) 61 6 (sampleKey 3) [⟨0, [OP_1]⟩] []

/-- A block beside `firstLeafBlock` with the same leaf. -/
def twinLeafBlock : Block :=
  sampleBlock 1 (sampleGenesisBlock.getHash sampleCrypto) 61 5 (sampleKey 3) [⟨0, [OP_1]⟩] []

theorem sampleBlocks_apart :
    firstLeafBlock.getHash sampleCrypto ≠ sampleGenesisBlock.getHash sampleCrypto ∧
      otherLeafBlock.getHash sampleCrypto ≠ sampleGenesisBlock.getHash sampleCrypto ∧
      firstLeafBlock.getHash sampleCrypto ≠ otherLeafBlock.getHash sampleCrypto := by
  decide +kernel

/-- Both are blocks on top of genesis that BIP 30 applies to. -/
theorem sampleBlocks_on_genesis : ∀ block ∈ [firstLeafBlock, otherLeafBlock],
    block.hashPrevBlock = sampleGenesisBlock.getHash sampleCrypto ∧
      enforceBIP30 sampleCrypto sampleNetwork [sampleGenesisBlock.header]
        (block.getHash sampleCrypto) = true := by
  decide +kernel

/-- The sample network with these two blocks. -/
def sampleSetting : Setting where
  c := sampleCrypto
  params := sampleNetwork
  genesis := sampleGenesisBlock
  blocks := [sampleGenesisBlock, firstLeafBlock, otherLeafBlock]
  scripts := fun _ => true
  genesis_mem := List.mem_cons_self
  genesis_hash := by rw [sampleNetwork]
  pouw := rfl
  hash_inj a ha b hb hh := by
    obtain ⟨h₁, h₂, h₃⟩ := sampleBlocks_apart
    simp only [List.mem_cons, List.not_mem_nil, or_false] at ha hb
    rcases ha with rfl | rfl | rfl <;> rcases hb with rfl | rfl | rfl
    · rfl
    · exact absurd hh.symm h₁
    · exact absurd hh.symm h₂
    · exact absurd hh h₁
    · rfl
    · exact absurd hh h₃
    · exact absurd hh h₂
    · exact absurd hh.symm h₃
    · rfl

/-- Both blocks arrive and one of them is connected. -/
def arriveAndConnect (first second : Block) : List NodeOp :=
  [.body { now := 1000 } first, .body { now := 1000 } second,
    .connect true false (first.getHash sampleCrypto)]

/-- A body leaves the chain and the tables as they are. -/
theorem step_body {c : Crypto} {params : Params} {n n' : Node}
    (hstep : Node.step c params (.body arrival block) n = some n') :
    n'.chain = n.chain ∧ n'.db = n.db := by
  rcases step_chain hstep with ⟨hchain, hdb, -⟩ | ⟨_, _, _, _, _, _, hop, -⟩ | ⟨_, _, _, hop, -⟩
  · exact ⟨hchain, hdb⟩
  · cases hop
  · cases hop

/-- These runs meet the condition. -/
theorem arriveAndConnect_meets {first second : Block}
    (hfirst : first ∈ [firstLeafBlock, otherLeafBlock])
    (hsecond : second ∈ [firstLeafBlock, otherLeafBlock]) :
    StepsMeet (Node.step sampleSetting.c sampleSetting.params) sampleSetting.Agrees
      (arriveAndConnect first second) (Node.init sampleSetting.c sampleSetting.genesis) := by
  have hnew : ∀ block ∈ [firstLeafBlock, otherLeafBlock],
      block.getHash sampleCrypto ≠ sampleGenesisBlock.getHash sampleCrypto := by
    simp only [mem_cons, not_mem_nil, or_false]
    rintro block (rfl | rfl)
    · exact sampleBlocks_apart.1
    · exact sampleBlocks_apart.2.1
  -- A body that arrives while the table is empty.
  have hbody : ∀ {n : Node}, sampleSetting.VerdictInv n → n.db = LeafDB.empty →
      ∀ block ∈ [firstLeafBlock, otherLeafBlock],
        sampleSetting.Agrees (.body { now := 1000 } block) n := fun inv hdb block hblock =>
    inv.agrees_body hdb (mem_cons_of_mem _ hblock) (sampleBlocks_on_genesis block hblock).1
      (hnew block hblock)
  have inv₀ := Setting.VerdictInv.init sampleSetting
  have hcond₁ := hbody inv₀ rfl first hfirst
  refine ⟨hcond₁, fun n₁ hn₁ => ?_⟩
  obtain ⟨hchain₁, hdb₁⟩ := step_body hn₁
  have hcond₂ := hbody (inv₀.step _ _ _ hcond₁ hn₁) hdb₁ second hsecond
  refine ⟨hcond₂, fun n₂ hn₂ => ?_⟩
  obtain ⟨hchain₂, hdb₂⟩ := step_body hn₂
  refine ⟨⟨rfl, ?_, fun e block _ _ key _ => ?_⟩, fun _ _ => trivial⟩
  · have hheaders : n₂.headers = [sampleGenesisBlock.header] := by
      unfold Node.headers
      rw [hchain₂, hchain₁]
      rfl
    rw [hheaders]
    exact (sampleBlocks_on_genesis first hfirst).2
  · rw [hdb₂, hdb₁]
    rfl

theorem arriveAndConnect_chain :
    (runOps (Node.step sampleCrypto sampleNetwork) (arriveAndConnect firstLeafBlock otherLeafBlock)
      (Node.init sampleCrypto sampleGenesisBlock)).map
        (fun n => decide (n.chain = [firstLeafBlock, sampleGenesisBlock])) = some true ∧
    (runOps (Node.step sampleCrypto sampleNetwork) (arriveAndConnect otherLeafBlock firstLeafBlock)
      (Node.init sampleCrypto sampleGenesisBlock)).map
        (fun n => (decide (n.chain = [otherLeafBlock, sampleGenesisBlock]),
          (n.index (firstLeafBlock.getHash sampleCrypto)).isSome)) = some (true, true) := by
  decide +kernel

/-- The theorem on two such runs: the active block of one node is in the index of the other
one and is not marked there. -/
theorem verdicts_agree_arriveAndConnect :
    ∃ n₁ n₂ e,
      runOps (Node.step sampleCrypto sampleNetwork) (arriveAndConnect firstLeafBlock otherLeafBlock)
        (Node.init sampleCrypto sampleGenesisBlock) = some n₁ ∧
      runOps (Node.step sampleCrypto sampleNetwork) (arriveAndConnect otherLeafBlock firstLeafBlock)
        (Node.init sampleCrypto sampleGenesisBlock) = some n₂ ∧
      n₁.chain = [firstLeafBlock, sampleGenesisBlock] ∧
      n₂.chain = [otherLeafBlock, sampleGenesisBlock] ∧
      n₂.index (firstLeafBlock.getHash sampleCrypto) = some e ∧ e.failedValid = false := by
  obtain ⟨n₁, hrun₁, hn₁⟩ := Option.map_eq_some_iff.mp arriveAndConnect_chain.1
  obtain ⟨n₂, hrun₂, hn₂⟩ := Option.map_eq_some_iff.mp arriveAndConnect_chain.2
  have hchain₁ := of_decide_eq_true hn₁
  obtain ⟨hchain₂, hidx⟩ := Prod.mk.inj hn₂
  obtain ⟨e, he⟩ := Option.isSome_iff_exists.mp hidx
  refine ⟨n₁, n₂, e, hrun₁, hrun₂, hchain₁, of_decide_eq_true hchain₂, he, ?_⟩
  have hsuffix : firstLeafBlock :: [sampleGenesisBlock] <:+ n₁.chain :=
    hchain₁ ▸ suffix_rfl
  exact verdicts_agree sampleSetting
    (arriveAndConnect_meets mem_cons_self (mem_cons_of_mem _ mem_cons_self)) hrun₁
    (arriveAndConnect_meets (mem_cons_of_mem _ mem_cons_self) mem_cons_self) hrun₂
    hsuffix mem_cons_self he

/-- Two nodes that see two blocks with one parent and one leaf in different orders. Each
connects the one that it sees first. The second one then fails, and it is the active block of
the other node. -/
theorem twinBlocks_split :
    (runOps (Node.step sampleCrypto sampleNetwork)
      [.body { now := 1000 } firstLeafBlock,
        .connect true false (firstLeafBlock.getHash sampleCrypto),
        .body { now := 1000 } twinLeafBlock] (Node.init sampleCrypto sampleGenesisBlock)).map
      (fun n => (n.chain == [firstLeafBlock, sampleGenesisBlock],
        (n.index (twinLeafBlock.getHash sampleCrypto)).map IndexEntry.failedValid)) =
      some (true, some true) ∧
    (runOps (Node.step sampleCrypto sampleNetwork)
      [.body { now := 1000 } twinLeafBlock,
        .connect true false (twinLeafBlock.getHash sampleCrypto),
        .body { now := 1000 } firstLeafBlock] (Node.init sampleCrypto sampleGenesisBlock)).map
      (fun n => (n.chain == [twinLeafBlock, sampleGenesisBlock],
        (n.index (firstLeafBlock.getHash sampleCrypto)).map IndexEntry.failedValid)) =
      some (true, some true) := by
  decide +kernel

end AssentianPQE
