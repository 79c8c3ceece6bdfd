import AssentianPQE.Proofs.ConnectCoins

/-!
# What each step of a node can do

One lemma for each call of `Node.step`: the states it can lead to and what was tested on the
way. The invariants of runs are proved from these lemmas and do not unfold the steps again.

* `headerEntry_cases`, `acceptBlock_cases`: the entries that arriving headers and bodies write.
* `connectTip_cases`, `disconnectTip_cases`: how the tip moves.
* `step_entry`: how an entry of the index after a step came about.
* `Grows`: no step changes the ancestors of an entry or replaces a body.
* `step_chain`: the three ways in which a step can treat the active chain.
* `ChainInv`: in every run, the active chain is a path of stored bodies down to genesis.
-/

set_option autoImplicit false

namespace AssentianPQE

open Lib List Function Option Except

variable {hash : Uint256} {c : Crypto} {genesis : Block} {n n' : Node} {e' : IndexEntry}
  {params : Params} {op : NodeOp} {l : List Block}

variable {e : IndexEntry}

section Steps
variable {c : Crypto} {params : Params} {n n' : Node}

/-- The entry of an accepted header is the one in the index, or a new one without data on top
of its parent's, or that of a genesis block. -/
theorem headerEntry_cases {arrival : Arrival} {header : BlockHeader}
    (h : headerEntry c params arrival n header = .ok e) :
    n.index (header.getHash c) = some e ∨
      n.index (header.getHash c) = none ∧
        ((∃ prev, n.index header.hashPrevBlock = some prev ∧ e = { chain := header :: prev.chain }) ∨
          header.getHash c = params.hashGenesisBlock ∧ e = { chain := [header] }) := by
  unfold headerEntry at h
  simp only at h
  split at h
  · rename_i hgen
    split at h
    · simp only [ok.injEq] at h
      cases hidx : n.index (header.getHash c) with
      | none =>
        rw [hidx] at h
        exact .inr ⟨rfl, .inr ⟨hgen, h.symm⟩⟩
      | some e' =>
        rw [hidx] at h
        exact .inl (congrArg some h)
    · cases h
  · split at h
    · rename_i e' hidx
      split at h
      · cases h
      · simp only [ok.injEq] at h
        exact .inl (by rw [hidx, h])
    · rename_i hidx
      refine .inr ⟨hidx, .inl ?_⟩
      split at h
      · cases h
      rename_i e' hnew
      split at h
      · simp only [ok.injEq] at h
        rw [h] at hnew
        -- Only the last branch of the tests on a new header makes an entry.
        unfold newHeaderEntry at hnew
        split at hnew
        · cases hnew
        · cases hnew
        rename_i prev _ hprev
        split at hnew
        · cases hnew
        split at hnew
        · cases hnew
        · split at hnew
          · cases hnew
          · exact ⟨prev, hprev, (ok.inj hnew).symm⟩
      · cases h

/-- `AcceptBlock` does nothing, or it writes the entry of the header, marked as failed if the
body did not pass its checks, with the body if it did. -/
theorem acceptBlock_cases (arrival : Arrival) (block : Block) :
    acceptBlock c params arrival n block = n ∨
      ∃ e e', headerEntry c params arrival n block.header = .ok e ∧
        acceptBlock c params arrival n block = n.setEntry (block.getHash c) e' ∧
        (e' = e ∨
          (e.data = none ∧ e' = { e with failedValid := true } ∧
            ∃ why, checkBody c params n.db.leaf e.chain.tail block = .error why ∧
              why.result ≠ .mutated) ∨
          (e.data = none ∧ e' = { e with data := some block } ∧
            ∃ v, checkBody c params n.db.leaf e.chain.tail block = .ok v)) := by
  unfold acceptBlock
  cases he : headerEntry c params arrival n block.header with
  | error why => exact .inl rfl
  | ok e =>
    refine .inr ⟨e, _, rfl, rfl, ?_⟩
    unfold acceptBody
    split
    · exact .inl rfl
    rename_i hdata
    have hnone : e.data = none := by simpa using hdata
    split
    · exact .inl rfl
    cases hbody : checkBody c params n.db.leaf e.chain.tail block with
    | error why =>
      simp only
      split
      · exact .inl rfl
      · rename_i hmut
        exact .inr (.inl ⟨hnone, rfl, why, rfl, hmut⟩)
    | ok v => exact .inr (.inr ⟨hnone, rfl, v, rfl⟩)

/-- `ConnectTip` takes a block of the index whose parent is the tip. It connects the block, or
marks it as failed. -/
theorem connectTip_cases {fScriptChecks parallel : Bool}
    (h : connectTip c params fScriptChecks parallel n hash = some n') :
    ∃ e block, n.index hash = some e ∧ e.data = some block ∧ e.failedValid = false ∧
      e.chain.tail = n.headers ∧
      ((∃ r db, connectBlock (tipContext c params fScriptChecks parallel n block) n.db n.view =
          .ok (r, db) ∧
        n' = { n.setEntry hash { e with undo := some (e.undo.getD r.vtxundo) } with
          chain := block :: n.chain, view := r.view, db := db }) ∨
      (∃ why, connectBlock (tipContext c params fScriptChecks parallel n block) n.db n.view =
          .error (.invalid why) ∧
        (n' = n ∨
          n' = n.setEntry hash { e with failedValid := true, inFailedBlocks := true }))) := by
  unfold connectTip at h
  split at h
  · cases h
  rename_i e he
  split at h
  · cases h
  rename_i block hdata
  split at h
  · cases h
  rename_i hcond
  push Not at hcond
  refine ⟨e, block, he, hdata, by simpa using hcond.1, hcond.2, ?_⟩
  unfold connectEntry at h
  split at h
  · cases h
  · rename_i why hconn
    refine .inr ⟨why, hconn, ?_⟩
    rw [some.injEq] at h
    split at h
    · exact .inl h.symm
    · exact .inr h.symm
  · rename_i r db hconn
    exact .inl ⟨r, db, hconn, (some.inj h).symm⟩

/-- `DisconnectTip` takes the tip off the chain. -/
theorem disconnectTip_cases (h : disconnectTip c params n = some n') :
    ∃ block parent rest view db, n.chain = block :: parent :: rest ∧
      disconnectBlock c params n.db (rest.length + 1)
        ((n.index (block.getHash c)).bind IndexEntry.undo) block n.view = (.ok, view, db) ∧
      n' = { n with chain := parent :: rest, view := view, db := db } := by
  unfold disconnectTip at h
  split at h
  · rename_i block parent rest hchain
    simp only at h
    split at h
    · rename_i view db hdis
      exact ⟨block, parent, rest, view, db, hchain, hdis, (some.inj h).symm⟩
    · cases h
  · cases h

end Steps

/-! ### The index only grows -/

@[simp] theorem Node.setEntry_index_self (n : Node) (hash : Uint256) (e : IndexEntry) :
    (n.setEntry hash e).index hash = some e :=
  update_self _ _ _

variable {h : Uint256}

theorem Node.setEntry_index_of_ne (n : Node) (hne : h ≠ hash) (e : IndexEntry) :
    (n.setEntry hash e).index h = n.index h :=
  update_of_ne hne _ _

/-- The index of a new node has one entry. -/
theorem Node.init_index_iff :
    (Node.init c genesis).index h = some e ↔
      h = genesis.getHash c ∧ e = { chain := [genesis.header], data := some genesis } := by
  simp only [Node.init]
  by_cases hh : h = genesis.getHash c
  · rw [hh, update_self, some.injEq]
    simp [eq_comm]
  · rw [update_of_ne hh]
    simp [hh]

/-- Every entry keeps its ancestors, and its body once it has one. -/
def Grows (n n' : Node) : Prop :=
  ∀ h e, n.index h = some e → ∃ e', n'.index h = some e' ∧ e'.chain = e.chain ∧
    ∀ block, e.data = some block → e'.data = some block

theorem Grows.refl (n : Node) : Grows n n :=
  fun _ e he => ⟨e, he, rfl, fun _ hb => hb⟩

/-- Writing an entry that keeps the ancestors and the body of the old one. -/
theorem Grows.setEntry (h : ∀ e, n.index hash = some e →
      e'.chain = e.chain ∧ ∀ block, e.data = some block → e'.data = some block) :
    Grows n (n.setEntry hash e') := by
  intro k e he
  by_cases hk : k = hash
  · rw [hk] at he ⊢
    exact ⟨e', n.setEntry_index_self hash e', h e he⟩
  · exact ⟨e, by rw [n.setEntry_index_of_ne hk, he], rfl, fun _ hb => hb⟩

/-- How an entry of the index after a call came about. -/
inductive EntryStep (c : Crypto) (params : Params) (n : Node) (h : Uint256) :
    NodeOp → IndexEntry → Prop where
  /-- It was there. -/
  | kept {op : NodeOp} {e : IndexEntry} (he : n.index h = some e) : EntryStep c params n h op e
  /-- Its header arrived. -/
  | added {op : NodeOp} {arrival : Arrival} {header : BlockHeader} {e : IndexEntry}
      (hop : op = .header arrival header ∨
        ∃ block : Block, op = .body arrival block ∧ block.header = header)
      (hh : header.getHash c = h) (hnone : n.index h = none)
      (hentry : headerEntry c params arrival n header = .ok e) : EntryStep c params n h op e
  /-- A body passed the checks. -/
  | stored {arrival : Arrival} {block : Block} {e : IndexEntry} {v : PoUWVerdict}
      (hh : block.getHash c = h) (hentry : headerEntry c params arrival n block.header = .ok e)
      (hnone : e.data = none) (hbody : checkBody c params n.db.leaf e.chain.tail block = .ok v) :
      EntryStep c params n h (.body arrival block) { e with data := some block }
  /-- A body did not pass the checks. -/
  | rejected {arrival : Arrival} {block : Block} {e : IndexEntry} {why : BlockInvalid}
      (hh : block.getHash c = h) (hentry : headerEntry c params arrival n block.header = .ok e)
      (hnone : e.data = none)
      (hbody : checkBody c params n.db.leaf e.chain.tail block = .error why) :
      EntryStep c params n h (.body arrival block) { e with failedValid := true }
  /-- The block was connected. -/
  | connected {fScriptChecks parallel : Bool} {e : IndexEntry} {block : Block} {r : Connected}
      {db : LeafDB} (he : n.index h = some e) (hdata : e.data = some block)
      (htail : e.chain.tail = n.headers)
      (hconn : connectBlock (tipContext c params fScriptChecks parallel n block) n.db n.view =
        .ok (r, db)) :
      EntryStep c params n h (.connect fScriptChecks parallel h)
        { e with undo := some (e.undo.getD r.vtxundo) }
  /-- The block could not be connected. -/
  | failed {fScriptChecks parallel : Bool} {e : IndexEntry} {block : Block} {why : BlockInvalid}
      (he : n.index h = some e) (hdata : e.data = some block) (htail : e.chain.tail = n.headers)
      (hconn : connectBlock (tipContext c params fScriptChecks parallel n block) n.db n.view =
        .error (.invalid why)) :
      EntryStep c params n h (.connect fScriptChecks parallel h)
        { e with failedValid := true, inFailedBlocks := true }

/-- The entry after a write is the one that was written, or an old one. -/
theorem Node.setEntry_index_cases (he : (n.setEntry hash e).index h = some e') :
    h = hash ∧ e' = e ∨ n.index h = some e' := by
  by_cases hk : h = hash
  · rw [hk, n.setEntry_index_self, some.injEq] at he
    exact .inl ⟨hk, he.symm⟩
  · rw [n.setEntry_index_of_ne hk] at he
    exact .inr he

section
variable (hstep : Node.step c params op n = some n')
include hstep

/-- Every entry after a step came about in one of these ways. -/
theorem step_entry (he' : n'.index h = some e') : EntryStep c params n h op e' := by
  -- The entry of an accepted header is in the index, or the header is new.
  have hheader : ∀ {arrival header e}, headerEntry c params arrival n header = .ok e →
      (op = .header arrival header ∨
        ∃ block : Block, op = .body arrival block ∧ block.header = header) →
      EntryStep c params n (header.getHash c) op e := by
    intro arrival header e hentry hop
    rcases headerEntry_cases hentry with hidx | ⟨hnone, -⟩
    · exact .kept hidx
    · exact .added hop rfl hnone hentry
  cases op with
  | header arrival header =>
    have hn' : acceptBlockHeader c params arrival n header = n' := some.inj hstep
    unfold acceptBlockHeader at hn'
    split at hn'
    · rw [← hn'] at he'
      exact .kept he'
    rename_i e hentry
    rw [← hn'] at he'
    rcases Node.setEntry_index_cases he' with ⟨rfl, rfl⟩ | hold
    · exact hheader hentry (.inl rfl)
    · exact .kept hold
  | body arrival block =>
    have hn' : acceptBlock c params arrival n block = n' := some.inj hstep
    rcases acceptBlock_cases (c := c) (n := n) arrival block with hsame | ⟨e, e₁, hentry, hw, hcase⟩
    · rw [← hn', hsame] at he'
      exact .kept he'
    rw [← hn', hw] at he'
    rcases Node.setEntry_index_cases he' with ⟨rfl, rfl⟩ | hold
    · rcases hcase with rfl | ⟨hnone, rfl, why, hbody, -⟩ | ⟨hnone, rfl, v, hbody⟩
      · exact hheader hentry (.inr ⟨block, rfl, rfl⟩)
      · exact .rejected rfl hentry hnone hbody
      · exact .stored rfl hentry hnone hbody
    · exact .kept hold
  | connect fScriptChecks parallel hash =>
    obtain ⟨e, block, hidx, hdata, -, htail, ⟨r, db, hconn, rfl⟩ | ⟨why, hconn, rfl | rfl⟩⟩ :=
      connectTip_cases hstep
    · rcases Node.setEntry_index_cases he' with ⟨rfl, rfl⟩ | hold
      · exact .connected hidx hdata htail hconn
      · exact .kept hold
    · exact .kept he'
    · rcases Node.setEntry_index_cases he' with ⟨rfl, rfl⟩ | hold
      · exact .failed hidx hdata htail hconn
      · exact .kept hold
  | disconnect =>
    obtain ⟨block, parent, rest, view, db, -, -, rfl⟩ := disconnectTip_cases hstep
    exact .kept he'

/-- Where the body of an entry after a step comes from: it was there with the same ancestors,
or it was added and passed its checks, or the entry is new and has no body. -/
theorem step_index (he' : n'.index h = some e') :
    (∃ e, n.index h = some e ∧ e'.chain = e.chain ∧ e'.data = e.data) ∨
      (∃ arrival block e, op = .body arrival block ∧ h = block.getHash c ∧
        headerEntry c params arrival n block.header = .ok e ∧ e.data = none ∧
        e'.chain = e.chain ∧ e'.data = some block ∧
        ∃ v, checkBody c params n.db.leaf e.chain.tail block = .ok v) ∨
      (n.index h = none ∧ e'.data = none) := by
  cases step_entry hstep he' with
  | kept he => exact .inl ⟨e', he, rfl, rfl⟩
  | added _ hh hnone hentry =>
    refine .inr (.inr ⟨hnone, ?_⟩)
    rw [← hh] at hnone
    rcases headerEntry_cases hentry with hidx | ⟨-, ⟨prev, -, rfl⟩ | ⟨-, rfl⟩⟩
    · rw [hnone] at hidx
      cases hidx
    · rfl
    · rfl
  | stored hh hentry hnone hbody =>
    exact .inr (.inl ⟨_, _, _, rfl, hh.symm, hentry, hnone, rfl, rfl, _, hbody⟩)
  | @rejected _ _ e _ hh hentry hnone hbody =>
    rcases headerEntry_cases hentry with hidx | ⟨hidx, -⟩
    · exact .inl ⟨e, by rw [← hh]; exact hidx, rfl, rfl⟩
    · exact .inr (.inr ⟨by rw [← hh]; exact hidx, hnone⟩)
  | connected he _ _ _ => exact .inl ⟨_, he, rfl, rfl⟩
  | failed he _ _ _ => exact .inl ⟨_, he, rfl, rfl⟩

/-- Every step lets the index grow. -/
theorem step_grows : Grows n n' := by
  -- Accepting a header writes the entry that is there, or one where there was none.
  have hentry : ∀ {arrival header e e₁}, headerEntry c params arrival n header = .ok e →
      e₁.chain = e.chain → (∀ block, e.data = some block → e₁.data = some block) →
      Grows n (n.setEntry (header.getHash c) e₁) := by
    intro arrival header e e₁ he hchain hdata
    refine Grows.setEntry fun e₀ he₀ => ?_
    rcases headerEntry_cases he with hidx | ⟨hidx, -⟩
    · rw [hidx, some.injEq] at he₀
      rw [← he₀]
      exact ⟨hchain, hdata⟩
    · rw [hidx] at he₀
      cases he₀
  cases op with
  | header arrival header =>
    have hn' : acceptBlockHeader c params arrival n header = n' := some.inj hstep
    rw [← hn']
    unfold acceptBlockHeader
    split
    · exact Grows.refl n
    · rename_i e he
      exact hentry he rfl fun _ hb => hb
  | body arrival block =>
    have hn' : acceptBlock c params arrival n block = n' := some.inj hstep
    rw [← hn']
    rcases acceptBlock_cases (c := c) (n := n) arrival block with hsame | ⟨e, e₁, he, hw, hcase⟩
    · rw [hsame]
      exact Grows.refl n
    rw [hw]
    rcases hcase with rfl | ⟨-, rfl, -⟩ | ⟨hnone, rfl, -⟩
    · exact hentry he rfl fun _ hb => hb
    · exact hentry he rfl fun _ hb => hb
    · exact hentry he rfl fun _ hb => by rw [hnone] at hb; cases hb
  | connect fScriptChecks parallel hash =>
    obtain ⟨e, block, hidx, -, -, -, ⟨r, db, -, rfl⟩ | ⟨why, -, rfl | rfl⟩⟩ :=
      connectTip_cases hstep
    · exact Grows.setEntry fun e₀ he₀ => by
        rw [hidx, some.injEq] at he₀
        rw [← he₀]
        exact ⟨rfl, fun _ hb => hb⟩
    · exact Grows.refl _
    · exact Grows.setEntry fun e₀ he₀ => by
        rw [hidx, some.injEq] at he₀
        rw [← he₀]
        exact ⟨rfl, fun _ hb => hb⟩
  | disconnect =>
    obtain ⟨block, parent, rest, view, db, -, -, rfl⟩ := disconnectTip_cases hstep
    exact Grows.refl _

/-! ### The active chain -/

/-- What a step does to the active chain, the coins and the tables: nothing, or it connects a
stored child of the tip, or it disconnects the tip. -/
theorem step_chain :
    (n'.chain = n.chain ∧ n'.db = n.db ∧ n'.view = n.view ∧ op ≠ .disconnect) ∨
      (∃ fScriptChecks parallel hash e block r, op = .connect fScriptChecks parallel hash ∧
        n.index hash = some e ∧ e.data = some block ∧ e.chain.tail = n.headers ∧
        connectBlock (tipContext c params fScriptChecks parallel n block) n.db n.view =
          .ok (r, n'.db) ∧
        n'.chain = block :: n.chain ∧ n'.view = r.view ∧
        n'.index hash = some { e with undo := some (e.undo.getD r.vtxundo) }) ∨
      (∃ block parent rest, op = .disconnect ∧ n.chain = block :: parent :: rest ∧
        disconnectBlock c params n.db (rest.length + 1)
          ((n.index (block.getHash c)).bind IndexEntry.undo) block n.view =
            (.ok, n'.view, n'.db) ∧
        n'.chain = parent :: rest ∧ n'.index = n.index) := by
  cases op with
  | header arrival header =>
    have hn' : acceptBlockHeader c params arrival n header = n' := some.inj hstep
    rw [← hn', acceptBlockHeader]
    split <;> exact .inl ⟨rfl, rfl, rfl, nofun⟩
  | body arrival block =>
    have hn' : acceptBlock c params arrival n block = n' := some.inj hstep
    rw [← hn', acceptBlock]
    split <;> exact .inl ⟨rfl, rfl, rfl, nofun⟩
  | connect fScriptChecks parallel hash =>
    obtain ⟨e, block, hidx, hdata, -, htail, ⟨r, db, hconn, rfl⟩ | ⟨why, -, rfl | rfl⟩⟩ :=
      connectTip_cases hstep
    · exact .inr (.inl ⟨fScriptChecks, parallel, hash, e, block, r, rfl, hidx, hdata, htail, hconn,
        rfl, rfl, n.setEntry_index_self hash _⟩)
    · exact .inl ⟨rfl, rfl, rfl, nofun⟩
    · exact .inl ⟨rfl, rfl, rfl, nofun⟩
  | disconnect =>
    obtain ⟨block, parent, rest, view, db, hchain, hdis, rfl⟩ := disconnectTip_cases hstep
    exact .inr (.inr ⟨block, parent, rest, rfl, hchain, hdis, rfl, rfl⟩)

end

/-- The shape of the active chain in every run:

- `genesis`: it ends with the genesis block;
- `active`: its blocks are in the index, each one on top of the next;
- `stored`: a body is stored under its hash. -/
structure ChainInv (c : Crypto) (genesis : Block) (n : Node) : Prop where
  genesis : [genesis] <:+ n.chain
  active : ∀ a l, a :: l <:+ n.chain → ∃ e, n.index (a.getHash c) = some e ∧
    e.data = some a ∧ e.chain.tail = l.map Block.header
  stored : ∀ h e b, n.index h = some e → e.data = some b → b.getHash c = h

variable {a : Block}

/-- The chain of a new node. -/
theorem suffix_init_chain (h : a :: l <:+ (Node.init c genesis).chain) : a = genesis ∧ l = [] := by
  rcases suffix_cons_iff.mp h with heq | hnil
  · exact List.cons.inj heq
  · exact absurd (suffix_nil.mp hnil) nofun

theorem ChainInv.init (c : Crypto) (genesis : Block) :
    ChainInv c genesis (Node.init c genesis) where
  genesis := suffix_rfl
  active a l hs := by
    obtain ⟨rfl, rfl⟩ := suffix_init_chain hs
    exact ⟨_, Node.init_index_iff.mpr ⟨rfl, rfl⟩, rfl, rfl⟩
  stored h e b he hb := by
    obtain ⟨rfl, rfl⟩ := Node.init_index_iff.mp he
    cases hb
    rfl

/-- Every step keeps the shape of the active chain. -/
theorem ChainInv.step (inv : ChainInv c genesis n) (hstep : Node.step c params op n = some n') :
    ChainInv c genesis n' := by
  have hgrows := step_grows hstep
  have hold : ∀ a l, a :: l <:+ n.chain → ∃ e, n'.index (a.getHash c) = some e ∧
      e.data = some a ∧ e.chain.tail = l.map Block.header := by
    intro a l hs
    obtain ⟨e, he, hdata, htail⟩ := inv.active a l hs
    obtain ⟨e', he', hc, hd⟩ := hgrows _ _ he
    exact ⟨e', he', hd a hdata, by rw [hc, htail]⟩
  refine ⟨?_, ?_, ?_⟩
  · rcases step_chain hstep with ⟨hchain, -⟩ | ⟨_, _, _, _, block, _, -, -, -, -, -, hchain, -⟩ |
      ⟨block, parent, rest, -, hchain, -, hchain', -⟩
    · rw [hchain]
      exact inv.genesis
    · rw [hchain]
      exact inv.genesis.trans (suffix_cons _ _)
    · have hg := inv.genesis
      rw [hchain] at hg
      rw [hchain']
      rcases suffix_cons_iff.mp hg with heq | hs
      · exact absurd (congrArg List.length heq) (by simp)
      · exact hs
  · intro a l hs
    rcases step_chain hstep with ⟨hchain, -⟩ |
      ⟨_, _, hash, e, block, _, -, he, hdata, htail, -, hchain, -⟩ |
      ⟨block, parent, rest, -, hchain, -, hchain', -⟩
    · rw [hchain] at hs
      exact hold a l hs
    · rw [hchain] at hs
      rcases suffix_cons_iff.mp hs with heq | hs
      · obtain ⟨rfl, rfl⟩ := List.cons.inj heq
        obtain ⟨e', he', hc, hd⟩ := hgrows _ _ he
        refine ⟨e', ?_, hd _ hdata, by rw [hc, htail]; rfl⟩
        rw [inv.stored hash e a he hdata, he']
      · exact hold a l hs
    · rw [hchain'] at hs
      rw [hchain] at hold
      exact hold a l (hs.trans (suffix_cons _ _))
  · intro h e' b he' hb
    rcases step_index hstep he' with ⟨e, he, -, hdata⟩ | ⟨_, block, _, -, hh, -, -, -, hdata, -⟩ |
      ⟨-, hdata⟩
    · exact inv.stored h e b he (by rw [← hdata, hb])
    · rw [hdata, some.injEq] at hb
      rw [hh, hb]
    · rw [hdata] at hb
      cases hb

section ChainInv
variable {c : Crypto} {params : Params} {genesis : Block} {n : Node}

/-- Two blocks of the active chain with the same hash are at the same height. -/
theorem ChainInv.length_eq_of_hash (inv : ChainInv c genesis n) {a' : Block} {l' : List Block}
    (ha : a :: l <:+ n.chain) (ha' : a' :: l' <:+ n.chain) (hh : a.getHash c = a'.getHash c) :
    l.length = l'.length := by
  obtain ⟨e, hidx, -, htail⟩ := inv.active a l ha
  obtain ⟨e', hidx', -, htail'⟩ := inv.active a' l' ha'
  rw [hh, hidx', some.injEq] at hidx
  rw [hidx, htail] at htail'
  simpa using congrArg List.length htail'

/-- The blocks below a block of the active chain have other hashes. -/
theorem ChainInv.hash_ne_of_below (inv : ChainInv c genesis n) {b : Block} (hb : b :: l <:+ n.chain)
    (ha : a ∈ l) : a.getHash c ≠ b.getHash c := by
  intro hh
  obtain ⟨l₁, l₂, rfl⟩ := append_of_mem ha
  have ha' : a :: l₂ <:+ n.chain :=
    ((suffix_append _ _).trans (suffix_cons _ _)).trans hb
  have hlen := inv.length_eq_of_hash ha' hb hh
  rw [length_append, length_cons] at hlen
  omega

/-- A child of the tip is not the genesis block. -/
theorem ChainInv.not_genesis (inv : ChainInv c genesis n) (he : n.index h = some e)
    (htail : e.chain.tail = n.headers) : h ≠ genesis.getHash c := by
  intro hh
  obtain ⟨e₀, he₀, -, htail₀⟩ := inv.active genesis [] inv.genesis
  rw [hh, he₀, some.injEq] at he
  rw [← he, htail₀] at htail
  have hnil : n.chain = [] := map_eq_nil_iff.mp htail.symm
  have hgen := inv.genesis
  rw [hnil] at hgen
  exact absurd (suffix_nil.mp hgen) nofun

/-- `ConnectBlock` on a child of the tip goes through all of its parts. -/
theorem ChainInv.connected (inv : ChainInv c genesis n)
    (hgen : genesis.getHash c = params.hashGenesisBlock) {fScriptChecks parallel : Bool}
    {e : IndexEntry} {block : Block} {r : Connected} {db : LeafDB} (he : n.index hash = some e)
    (hdata : e.data = some block) (htail : e.chain.tail = n.headers)
    (hconn : connectBlock (tipContext c params fScriptChecks parallel n block) n.db n.view =
      .ok (r, db)) :
    connectCoins (tipContext c params fScriptChecks parallel n block) n.view = .ok r ∧
      checkSpendLeaves c params n.db.leaf block r.uses = .ok () ∧
      db = markLeaves c params n.db block r.uses := by
  obtain ⟨-, ⟨hg, -⟩ | ⟨-, -, hcoins, hleaves, hdb⟩⟩ := (connectBlock_ok_iff rfl).mp hconn
  · refine absurd ?_ (inv.not_genesis he htail)
    rw [hgen, ← inv.stored hash e block he hdata]
    exact hg
  · exact ⟨hcoins, hleaves, hdb⟩

end ChainInv

/-- A suffix of the headers of a chain is the headers of a suffix of the chain. -/
theorem suffix_of_headers {chain : List Block} {hd : BlockHeader} {tl : List BlockHeader}
    (h : hd :: tl <:+ chain.map Block.header) :
    ∃ a l, a :: l <:+ chain ∧ a.header = hd ∧ l.map Block.header = tl := by
  obtain ⟨front, hfront⟩ := h
  obtain ⟨l₁, l₂, rfl, -, hl₂⟩ := map_eq_append_iff.mp hfront.symm
  obtain ⟨a, l, rfl, ha, hl⟩ := map_eq_cons_iff.mp hl₂
  exact ⟨a, l, suffix_append _ _, ha, hl⟩

end AssentianPQE
