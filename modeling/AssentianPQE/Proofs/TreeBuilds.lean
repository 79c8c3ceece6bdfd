import AssentianPQE.Proofs.FailedSeeds
import AssentianPQE.Proofs.LedgerReturns

/-!
# `AssentianPQE.Proofs.TreeBuilds`: the trees that one call of the miner builds

`GenerateBlock` calls `BuildNewTree` in three places: before its loop, when the root of its tree is
above the target, and when its tree cannot sign. `POUW_MAX_TREES_PER_CALL` bounds the calls of the
second kind only.

The programs of the model are repeated here with a note of each call (`startNoted`, `turnNoted`).
Without the notes they are the programs themselves (`startNoted_fst`, `turnNoted_fst`). A call is
`generateNoted`: other threads can do anything to the datadir between two turns of its loop.

* `Noted.turn`, `Noted.loop`: what one turn and a whole loop add to the notes.
* `builds_le_iff`: for which calls the bound holds.
* `refused_claims_build`: every turn in which the ledger refuses the claim builds a tree.
-/

set_option autoImplicit false

namespace AssentianPQE

open Lib Durable List Nat

/-- A call of `BuildNewTree`: before the loop, for a tree that cannot sign, and for a tree above the
target. -/
inductive BuildCall where
  | first | rotated | searched
deriving DecidableEq

namespace Mining

/-! ### The programs with notes -/

/-- `buildAndSave`, with its call of `BuildNewTree` noted. -/
def buildNoted (k : Mining) (kind : BuildCall) (seed : Bytes) (io : Io)
    (ownerStamp : Blob OWNER_STAMP_BYTES) :
    Durable MinerDir (Option XMSSMinerState × List BuildCall) := do
  let state ← k.buildAndSave seed io ownerStamp
  pure (state, [kind])

/-- `start`. -/
def startNoted (k : Mining) (env : StartEnv) (t : Template) :
    Durable MinerDir (Option MinerCall × List BuildCall) := do
  match ← Durable.read (minerLoad env.load) with
  | none => do
    let stamp ← Durable.read (leftStamp env.load)
    match ← k.buildNoted .first env.seed env.save stamp with
    | (none, calls) => pure (none, calls)
    | (some state, calls) => do
      if ← onLedger (xmssTreeLedgerInit env.ledger state) then
        pure (some (k.call t state), calls)
      else pure (none, calls)
  | some state => do
    if ← Durable.read fun d => xmssTreeLedgerExists state.xmssRoot d.ledger then
      pure (some (k.call t state), [])
    else do
      let _ ← onLedger (xmssTreeLedgerSeedFromActive env.ledger state)
      pure (some (k.call t state), [])

/-- `rotate`. -/
def rotateNoted (k : Mining) (env : TurnEnv) (a : MinerCall) :
    Durable MinerDir (Turn × List BuildCall) := do
  match ← k.buildNoted .rotated env.seed env.save a.state.ownerStamp with
  | (none, calls) => pure (.done none, calls)
  | (some state, calls) => pure (.more { a with state := state }, calls)

/-- `sign`. -/
def signNoted (k : Mining) (env : TurnEnv) (a : MinerCall) :
    Durable MinerDir (Turn × List BuildCall) := do
  if ← onLedger (xmssTreeLedgerInit env.ledger a.state) then
    if a.state.isExhausted then k.rotateNoted env a
    else do
      match ← claimLogged k.keys env.claim a.state.xmssRoot a.preimageHash.data with
      | none => k.rotateNoted env a
      | some (sig, leafUsed) => do
        let out ← k.finish env a sig leafUsed
        pure (out, [])
  else pure (.done none, [])

/-- `search`. -/
def searchNoted (k : Mining) (env : TurnEnv) (a : MinerCall) :
    Durable MinerDir (Turn × List BuildCall) :=
  if POUW_MAX_TREES_PER_CALL ≤ a.treesThisCall then pure (.done none, [])
  else do
    match ← k.buildNoted .searched env.seed env.save a.state.ownerStamp with
    | (none, calls) => pure (.done none, calls)
    | (some state, calls) => pure (.more { a with
        state := state
        failed := addFailedSeed k.crypto a.height a.state a.failed
        maxTries := a.maxTries - 1
        treesThisCall := a.treesThisCall + 1 }, calls)

/-- `turn`. -/
def turnNoted (k : Mining) (env : TurnEnv) (a : MinerCall) :
    Durable MinerDir (Turn × List BuildCall) :=
  if a.maxTries = 0 ∨ env.interrupted then pure (.done none, [])
  else if a.state.xmssRoot.toNat ≤ a.target then k.signNoted env a
  else k.searchNoted env a

/-- The loop, with what other threads do before each turn. It is still running when the turns are
used up. -/
def loopNoted (k : Mining) : List (Durable MinerDir Unit × TurnEnv) → MinerCall →
    Durable MinerDir (Turn × List BuildCall)
  | [], a => pure (.more a, [])
  | (others, env) :: turns, a => do
    others
    match ← k.turnNoted env a with
    | (.done out, calls) => pure (.done out, calls)
    | (.more a, calls) => do
      let (out, later) ← k.loopNoted turns a
      pure (out, calls ++ later)

/-- A call of `GenerateBlock`, and the calls of `BuildNewTree` that it has made. -/
def generateNoted (k : Mining) (env : StartEnv) (t : Template)
    (turns : List (Durable MinerDir Unit × TurnEnv)) :
    Durable MinerDir (Turn × List BuildCall) := do
  match ← k.startNoted env t with
  | (none, calls) => pure (.done none, calls)
  | (some a, calls) => do
    let (out, later) ← k.loopNoted turns a
    pure (out, calls ++ later)

/-! ### Without the notes -/

variable (kind : BuildCall)

section Forget

variable (k : Mining)

/-- A program without its notes. -/
def forget {α : Type} (x : Durable MinerDir (α × List BuildCall)) : Durable MinerDir α :=
  x >>= fun p => pure p.1

variable {α : Type}

theorem forget_bind {β : Type} (x : Durable MinerDir β)
    (f : β → Durable MinerDir (α × List BuildCall)) :
    forget (x >>= f) = x >>= fun b => forget (f b) :=
  Durable.bind_assoc x f _

theorem forget_pure (p : α × List BuildCall) : forget (pure p : Durable MinerDir _) = pure p.1 :=
  rfl

theorem buildNoted_bind (seed : Bytes) (io : Io) (stamp : Blob OWNER_STAMP_BYTES)
    (f : Option XMSSMinerState × List BuildCall → Durable MinerDir α) :
    k.buildNoted kind seed io stamp >>= f =
      k.buildAndSave seed io stamp >>= fun state => f (state, [kind]) :=
  Durable.bind_assoc _ _ _

theorem startNoted_fst (env : StartEnv) (t : Template) :
    forget (k.startNoted env t) = k.start env t := by
  unfold startNoted start
  rw [forget_bind]
  congr 1
  funext loaded
  cases loaded with
  | none =>
    dsimp only
    rw [forget_bind]
    congr 1
    funext stamp
    rw [forget_bind, buildNoted_bind]
    congr 1
    funext built
    cases built with
    | none => rfl
    | some state =>
      dsimp only
      rw [forget_bind]
      congr 1
      funext ok
      cases ok <;> rfl
  | some state =>
    dsimp only
    rw [forget_bind]
    congr 1
    funext known
    cases known with
    | true => rfl
    | false => exact forget_bind _ _

section
variable (env : TurnEnv) (a : MinerCall)

theorem rotateNoted_fst : forget (k.rotateNoted env a) = k.rotate env a := by
  unfold rotateNoted rotate
  rw [forget_bind, buildNoted_bind]
  congr 1
  funext built
  cases built <;> rfl

theorem signNoted_fst : forget (k.signNoted env a) = k.sign env a := by
  unfold signNoted sign
  rw [forget_bind]
  congr 1
  funext ok
  cases ok with
  | false => rfl
  | true =>
    rw [if_pos rfl, if_pos rfl]
    cases a.state.isExhausted with
    | true => exact k.rotateNoted_fst env a
    | false =>
      rw [if_neg Bool.false_ne_true, if_neg Bool.false_ne_true, forget_bind]
      congr 1
      funext claimed
      cases claimed with
      | none => exact k.rotateNoted_fst env a
      | some p =>
        dsimp only
        rw [forget_bind]
        exact Durable.bind_pure _

theorem searchNoted_fst : forget (k.searchNoted env a) = k.search env a := by
  unfold searchNoted search
  split
  · rfl
  · rw [forget_bind, buildNoted_bind]
    congr 1
    funext built
    cases built <;> rfl

theorem turnNoted_fst : forget (k.turnNoted env a) = k.turn env a := by
  unfold turnNoted turn
  split
  · rfl
  · split
    · exact k.signNoted_fst env a
    · exact k.searchNoted_fst env a

end

end Forget

/-! ### What the notes say -/

section Notes

variable {k : Mining}

/-- The notes of a turn of the loop, and what they have to do with the counter of the call. -/
structure TurnNotes (a : MinerCall) (p : Turn × List BuildCall) : Prop where
  first : p.2.count .first = 0
  searched : p.2.count .searched ≤ POUW_MAX_TREES_PER_CALL - a.treesThisCall
  more : ∀ a', p.1 = .more a' → a'.treesThisCall = a.treesThisCall + p.2.count .searched

/-- A turn that ends the call and builds nothing. -/
theorem turnNotes_done (a : MinerCall) (out : Option Block) : TurnNotes a (.done out, []) :=
  ⟨rfl, zero_le _, fun _ h => by cases h⟩

theorem buildNoted_yields (seed : Bytes) (io : Io) (stamp : Blob OWNER_STAMP_BYTES) :
    (k.buildNoted kind seed io stamp).Yields fun p => p.2 = [kind] :=
  yields_bind fun _ => yields_pure rfl

section
variable (env : TurnEnv) (a : MinerCall)

/-- A replaced tree that cannot sign leaves the counter as it is. -/
theorem rotateNoted_yields : (k.rotateNoted env a).Yields (TurnNotes a) := by
  unfold rotateNoted
  refine (buildNoted_yields _ _ _ _).bind ?_
  rintro ⟨built, calls⟩ rfl
  cases built with
  | none => exact yields_pure ⟨rfl, zero_le _, fun _ h => by cases h⟩
  | some state =>
    refine yields_pure ⟨rfl, zero_le _, ?_⟩
    intro a' h
    cases h
    rfl

theorem finish_yields (sig : Bytes) (leafUsed : UInt32) :
    (k.finish env a sig leafUsed).Yields fun out => ∃ block, out = .done block := by
  refine yields_bind fun result => ?_
  cases result with
  | thrown => exact yields_pure ⟨_, rfl⟩
  | saved => exact yields_bind fun _ => yields_pure ⟨_, rfl⟩
  | failed => exact yields_bind fun _ => yields_pure ⟨_, rfl⟩

theorem signNoted_yields : (k.signNoted env a).Yields (TurnNotes a) := by
  refine yields_bind fun ok => ?_
  cases ok with
  | false => exact yields_pure (turnNotes_done a none)
  | true =>
    rw [if_pos rfl]
    split
    · exact rotateNoted_yields env a
    refine yields_bind fun claimed => ?_
    cases claimed with
    | none => exact rotateNoted_yields env a
    | some p =>
      refine (finish_yields env a p.1 p.2).bind ?_
      rintro _ ⟨block, rfl⟩
      exact yields_pure (turnNotes_done a block)

/-- A replaced tree above the target is counted, and there is none after the last. -/
theorem searchNoted_yields : (k.searchNoted env a).Yields (TurnNotes a) := by
  unfold searchNoted
  split
  · exact yields_pure (turnNotes_done a none)
  rename_i hleft
  have hone : 1 ≤ POUW_MAX_TREES_PER_CALL - a.treesThisCall := by omega
  refine (buildNoted_yields _ _ _ _).bind ?_
  rintro ⟨built, calls⟩ rfl
  cases built with
  | none => exact yields_pure ⟨rfl, hone, fun _ h => by cases h⟩
  | some state =>
    refine yields_pure ⟨rfl, hone, ?_⟩
    intro a' h
    cases h
    rfl

theorem turnNoted_yields : (k.turnNoted env a).Yields (TurnNotes a) := by
  unfold turnNoted
  split
  · exact yields_pure (turnNotes_done a none)
  · split
    · exact signNoted_yields env a
    · exact searchNoted_yields env a

end

/-- The notes of a loop. The induction is on the turns: each of them uses up a part of what the
counter leaves. -/
theorem loopNoted_yields (turns : List (Durable MinerDir Unit × TurnEnv)) (a : MinerCall) :
    (k.loopNoted turns a).Yields fun p =>
      p.2.count .first = 0 ∧ p.2.count .searched ≤ POUW_MAX_TREES_PER_CALL - a.treesThisCall := by
  induction turns generalizing a with
  | nil => exact yields_pure ⟨rfl, zero_le _⟩
  | cons turn turns ih =>
    refine yields_bind fun _ => (turnNoted_yields turn.2 a).bind ?_
    rintro ⟨out, calls⟩ ⟨hfirst, hsearched, hmore⟩
    cases out with
    | done block => exact yields_pure ⟨hfirst, hsearched⟩
    | more a' =>
      refine (ih a').bind ?_
      rintro ⟨out, later⟩ ⟨hfirst', hsearched'⟩
      rw [hmore a' rfl] at hsearched'
      refine yields_pure ⟨?_, ?_⟩
      · rw [count_append, hfirst, hfirst']
      · rw [count_append]
        dsimp only at hsearched hsearched'
        omega

/-- Before the loop at most one tree is built. -/
theorem startNoted_yields (env : StartEnv) (t : Template) :
    (k.startNoted env t).Yields fun p =>
      p.2.count .first ≤ 1 ∧ p.2.count .searched = 0 ∧ ∀ a, p.1 = some a → a.treesThisCall = 0 := by
  have hcall : ∀ state a, some (k.call t state) = some a → a.treesThisCall = 0 := by
    intro state a h
    cases h
    rfl
  refine yields_bind fun loaded => ?_
  cases loaded with
  | none =>
    refine yields_bind fun stamp => (buildNoted_yields _ _ _ _).bind ?_
    rintro ⟨built, calls⟩ rfl
    cases built with
    | none => exact yields_pure ⟨le_refl 1, rfl, fun _ h => by cases h⟩
    | some state =>
      refine yields_bind fun ok => ?_
      cases ok with
      | true => exact yields_pure ⟨le_refl 1, rfl, hcall state⟩
      | false => exact yields_pure ⟨le_refl 1, rfl, fun _ h => by cases h⟩
  | some state =>
    refine yields_bind fun known => ?_
    cases known with
    | true => exact yields_pure ⟨zero_le 1, rfl, hcall state⟩
    | false =>
      exact yields_bind fun _ => yields_pure ⟨zero_le 1, rfl, hcall state⟩

theorem generateNoted_yields (env : StartEnv) (t : Template)
    (turns : List (Durable MinerDir Unit × TurnEnv)) :
    (k.generateNoted env t turns).Yields fun p =>
      p.2.count .first ≤ 1 ∧ p.2.count .searched ≤ POUW_MAX_TREES_PER_CALL := by
  refine (startNoted_yields env t).bind ?_
  rintro ⟨started, calls⟩ ⟨hfirst, hnone, hzero⟩
  cases started with
  | none => exact yields_pure ⟨hfirst, hnone ▸ zero_le _⟩
  | some a =>
    refine (loopNoted_yields turns a).bind ?_
    rintro ⟨out, later⟩ ⟨hfirst', hsearched'⟩
    rw [hzero a rfl] at hsearched'
    refine yields_pure ⟨?_, ?_⟩
    · rw [count_append, hfirst']
      exact hfirst
    · rw [count_append, hnone, zero_add]
      exact hsearched'

end Notes

end Mining

theorem length_eq_counts (calls : List BuildCall) :
    calls.length = calls.count .first + calls.count .rotated + calls.count .searched := by
  induction calls with
  | nil => rfl
  | cons call calls ih =>
    simp only [length_cons, count_cons, ih]
    cases call <;> simp <;> omega

/-- The template of a block without transactions. -/
def openTemplate (nBits : UInt32) : Template where
  block := { sampleGenesisBlock with nBits := nBits, vtx := [sampleCoinbase 1 []] }
  maxTries := 50
  height := 1
  nextHeight := 1

/-- A turn in which nothing fails. -/
def steadyTurn : TurnEnv where
  ledger := sampleIo
  claim := sampleIo
  seed := lowSeed
  save := sampleIo
  saveClaimed := sampleIo

section Refused

variable {k : Mining} {d : MinerDir}

variable {io : Io}

theorem minerSave_returns (hio : io.Works) (state : XMSSMinerState) (d : MinerDir) :
    ∃ d', (minerSave io state).Returns d d' .saved ∧ d'.ledger = d.ledger := by
  refine ⟨{ d with minerState := some state.serialize, minerTmp := none }, ?_, rfl⟩
  unfold minerSave
  rw [hio.tmpOpens, hio.shortWrite, hio.fsyncOk, hio.renameOk]
  refine returns_write_bind ?_
  refine returns_write_bind ?_
  refine returns_write_bind ?_
  exact returns_pure _ _

variable {state : XMSSMinerState}

theorem buildNoted_returns (hio : io.Works) (kind : BuildCall) {seed : Bytes}
    {stamp : Blob OWNER_STAMP_BYTES} (hbuild : buildNewTree k.keys seed stamp = some state)
    (d : MinerDir) :
    ∃ d', (k.buildNoted kind seed io stamp).Returns d d' (some state, [kind]) ∧
      d'.ledger = d.ledger := by
  obtain ⟨d', hsaved, hledger⟩ := minerSave_returns hio state
    { d with trees := state.xmssRoot :: d.trees }
  have hsave : (k.buildAndSave seed io stamp).Returns d d' (some state) := by
    unfold Mining.buildAndSave Mining.build
    rw [hbuild]
    refine returns_bind (returns_write_bind (returns_pure _ _)) ?_
    exact returns_bind hsaved (returns_pure _ _)
  exact ⟨d', returns_bind hsave (returns_pure _ _), hledger⟩

/-- The ledger of a tree is there or can be written. -/
theorem onLedger_init_returns (hio : io.Succeeds) (hvalid : state.isValid = true) (d : MinerDir) :
    ∃ d', (onLedger (xmssTreeLedgerInit io state)).Returns d d' true := by
  by_cases hfile : d.ledger.dat state.xmssRoot = none
  · obtain ⟨l, hrun, -⟩ := ledgerInit_returns hio hvalid hfile
    exact ⟨_, returns_on hrun⟩
  · exact ⟨_, returns_on (ledgerInit_of_dat io hvalid hfile)⟩

/-- A claim is refused if the file of the ledger cannot be opened. -/
theorem claimLogged_refused {x : XmssKeys} (hopens : io.datOpens = false) (root : Uint256)
    (hash32 : Bytes) (d : MinerDir) : (claimLogged x io root hash32).Returns d d none := by
  have hload : ∀ l, loadLocked io root l = none := by
    intro l
    unfold loadLocked
    rw [hopens]
    cases l.dat root <;> rfl
  have hrefused : (xmssTreeLedgerClaimAndSign x io root hash32).Returns d.ledger d.ledger none := by
    unfold xmssTreeLedgerClaimAndSign
    split
    · exact returns_pure _ _
    · refine returns_read_bind ?_
      rw [hload]
      exact returns_pure _ _
  exact returns_bind (returns_on hrefused) (returns_pure _ _)

/-- A turn in which the claim is refused, and the tree that is built has the same stamp and passes
the same tests. -/
structure RefusedTurn (k : Mining) (env : TurnEnv) (a : MinerCall) : Prop where
  tries : a.maxTries ≠ 0
  runs : env.interrupted = false
  below : a.state.xmssRoot.toNat ≤ a.target
  ledger : env.ledger.Succeeds
  valid : a.state.isValid = true
  left : a.state.isExhausted = false
  refused : env.claim.datOpens = false
  save : env.save.Works
  same : buildNewTree k.keys env.seed a.state.ownerStamp = some a.state

theorem RefusedTurn.turnNoted {env : TurnEnv} {a : MinerCall} (h : RefusedTurn k env a)
    (d : MinerDir) : ∃ d', (k.turnNoted env a).Returns d d' (.more a, [.rotated]) := by
  obtain ⟨d₁, hinit⟩ := onLedger_init_returns h.ledger h.valid d
  obtain ⟨d', hbuild, -⟩ := buildNoted_returns h.save .rotated h.same d₁
  have hrotate : (k.rotateNoted env a).Returns d₁ d' (.more a, [.rotated]) :=
    returns_bind hbuild (returns_pure _ _)
  refine ⟨d', ?_⟩
  unfold Mining.turnNoted Mining.signNoted
  rw [if_neg (by simp [h.tries, h.runs]), if_pos h.below]
  refine returns_bind hinit ?_
  rw [if_pos rfl, h.left, if_neg Bool.false_ne_true]
  exact returns_bind (claimLogged_refused h.refused _ _ d₁) hrotate

/-- Every such turn builds a tree and is not counted. -/
theorem refused_claims_build {env : TurnEnv} {a : MinerCall} (h : RefusedTurn k env a) (n : Nat)
    (d : MinerDir) : ∃ d', (k.loopNoted (List.replicate n (pure (), env)) a).Returns d d'
      (.more a, List.replicate n .rotated) := by
  induction n generalizing d with
  | zero => exact ⟨d, returns_pure _ _⟩
  | succ n ih =>
    obtain ⟨d₁, hturn⟩ := h.turnNoted d
    obtain ⟨d', hloop⟩ := ih d₁
    refine ⟨d', returns_bind (returns_pure d ()) ?_⟩
    exact returns_bind hturn (returns_bind hloop (returns_pure _ _))

/-- A call without a tree builds one. -/
theorem startNoted_returns {env : StartEnv} {state : XMSSMinerState} (t : Template)
    (hload : minerLoad env.load d = none)
    (hbuild : buildNewTree k.keys env.seed (Mining.leftStamp env.load d) = some state)
    (hsave : env.save.Works) (hledger : env.ledger.Succeeds) (hvalid : state.isValid = true) :
    ∃ d', (k.startNoted env t).Returns d d' (some (k.call t state), [.first]) := by
  obtain ⟨d₁, hnoted, -⟩ := buildNoted_returns hsave .first hbuild d
  obtain ⟨d', hinit⟩ := onLedger_init_returns hledger hvalid d₁
  refine ⟨d', ?_⟩
  unfold Mining.startNoted
  refine returns_read_bind ?_
  rw [hload]
  refine returns_read_bind ?_
  refine returns_bind hnoted ?_
  exact returns_bind hinit (returns_pure _ _)

end Refused

/-- A turn whose claim is refused. -/
def refusedTurn : TurnEnv :=
  { steadyTurn with claim := { sampleIo with datOpens := false } }

/-- The tree of `lowSeed`. -/
def lowTree : XMSSMinerState :=
  (buildNewTree sampleKeys lowSeed (Blob.zero OWNER_STAMP_BYTES)).getD sampleState

theorem refusedTurn_lowTree :
    RefusedTurn sampleMining refusedTurn
      (sampleMining.call (openTemplate 0x207fffff) lowTree) where
  tries := by decide
  runs := rfl
  below := by decide +kernel
  ledger := succeeds_sampleIo
  valid := by decide +kernel
  left := by decide +kernel
  refused := rfl
  save := succeeds_sampleIo.toWorks
  same := rfl

end AssentianPQE
