import Mathlib.Data.List.Basic

/-!
# `AssentianPQE.Lib.Run`: runs of a transition function

A machine is given by a function that says what an operation does to a state, or that it is
not possible there. `runOps` runs a list of operations, `StepsMeet` says that a condition on
the operation and the state before it holds all along a run, and `runOps_invariant` is the
induction over a run.
-/

set_option autoImplicit false

namespace AssentianPQE.Lib

section Runs
variable {σ Op : Type} (step : Op → σ → Option σ)

/-- The state after a list of operations, if every one of them is possible. -/
def runOps : List Op → σ → Option σ
  | [], s => some s
  | op :: ops, s => (step op s).bind (runOps ops)

/-- Every operation of a run meets a condition in the state before it. -/
def StepsMeet (cond : Op → σ → Prop) : List Op → σ → Prop
  | [], _ => True
  | op :: ops, s => cond op s ∧ ∀ s', step op s = some s' → StepsMeet cond ops s'

variable {step}

/-- A run that starts with an operation. -/
theorem runOps_cons {op : Op} {ops : List Op} {s t : σ} (h : runOps step (op :: ops) s = some t) :
    ∃ s', step op s = some s' ∧ runOps step ops s' = some t :=
  Option.bind_eq_some_iff.mp h

/-- A run that is continued. -/
theorem stepsMeet_append {cond : Op → σ → Prop} {ops ops' : List Op} :
    ∀ {s t : σ}, StepsMeet step cond (ops ++ ops') s → runOps step ops s = some t →
      StepsMeet step cond ops s ∧ StepsMeet step cond ops' t := by
  induction ops with
  | nil =>
    intro s t hmeet hrun
    cases hrun
    exact ⟨trivial, hmeet⟩
  | cons op ops ih =>
    intro s t hmeet hrun
    obtain ⟨s', hop, hrest⟩ := runOps_cons hrun
    refine ⟨⟨hmeet.1, fun s'' hs'' => ?_⟩, (ih (hmeet.2 s' hop) hrest).2⟩
    rw [hop] at hs''
    cases hs''
    exact (ih (hmeet.2 s' hop) hrest).1

/-- The condition can be tested along a run. -/
instance decidableStepsMeet {cond : Op → σ → Prop} [∀ op s, Decidable (cond op s)] :
    ∀ (ops : List Op) (s : σ), Decidable (StepsMeet step cond ops s)
  | [], _ => .isTrue trivial
  | op :: ops, s =>
    match h : step op s with
    | none => decidable_of_iff (cond op s) ⟨fun hc => ⟨hc, fun s' hs' => by rw [h] at hs'; cases hs'⟩,
        fun hm => hm.1⟩
    | some s' =>
      have := @decidableStepsMeet cond _ ops s'
      decidable_of_iff (cond op s ∧ StepsMeet step cond ops s')
        ⟨fun hm => ⟨hm.1, fun t ht => by rw [h] at ht; cases ht; exact hm.2⟩,
          fun hm => ⟨hm.1, hm.2 s' h⟩⟩

/-- What one step keeps, a run keeps. -/
theorem runOps_invariant {cond : Op → σ → Prop} {Inv : σ → Prop}
    (hstep : ∀ op s s', Inv s → cond op s → step op s = some s' → Inv s') :
    ∀ {ops : List Op} {s t : σ}, Inv s → StepsMeet step cond ops s →
      runOps step ops s = some t → Inv t := by
  intro ops
  induction ops with
  | nil =>
    intro s t hs _ hrun
    rw [← Option.some.inj hrun]
    exact hs
  | cons op ops ih =>
    intro s t hs hmeet hrun
    obtain ⟨s', hop, hrest⟩ := runOps_cons hrun
    exact ih (hstep op s s' hs hmeet.1 hop) (hmeet.2 s' hop) hrest

/-- A condition on the operations alone. -/
theorem stepsMeet_of_forall {cond : Op → Prop} {ops : List Op} (h : ∀ op ∈ ops, cond op) (s : σ) :
    StepsMeet step (fun op _ => cond op) ops s := by
  induction ops generalizing s with
  | nil => exact trivial
  | cons op ops ih =>
    obtain ⟨hop, hops⟩ := List.forall_mem_cons.mp h
    exact ⟨hop, fun s' _ => ih hops s'⟩

/-- The same without a condition. -/
theorem runOps_preserves {Inv : σ → Prop}
    (hstep : ∀ op s s', Inv s → step op s = some s' → Inv s') {ops : List Op} {s t : σ}
    (hs : Inv s) (hrun : runOps step ops s = some t) : Inv t := by
  have hmeet : StepsMeet step (fun _ _ => True) ops s := stepsMeet_of_forall (fun _ _ => trivial) s
  exact runOps_invariant (fun op s s' h _ => hstep op s s' h) hs hmeet hrun

end Runs

end AssentianPQE.Lib
