import AssentianPQE.Lib.Durable
import Mathlib.Data.Option.Basic

/-!
# `AssentianPQE.Lib.Lockstep`: two programs compared write by write

`Lockstep R P x y s t` says that the program `x` on the store `s` and the program `y` on the
store `t` make their writes together: wherever both are cut off, their stores are related by `R`,
and either both have died there or both have ended with results related by `P`. There is one rule
for each way to build a program, as for `Durable.Ensures`.
-/

set_option autoImplicit false

namespace AssentianPQE.Lib

namespace Durable

variable {σ τ α β γ δ : Type} {R : σ → τ → Prop} {s : σ} {t : τ}

/-- Two programs that make their writes together. -/
def Lockstep (R : σ → τ → Prop) (P : α → β → Prop) (x : Durable σ α) (y : Durable τ β) (s : σ)
    (t : τ) : Prop :=
  ∀ n, R (x s n).1 (y t n).1 ∧
    Option.Rel (fun p q => P p.1 q.1 ∧ p.2 = q.2) (x s n).2 (y t n).2

variable {P : α → β → Prop}

theorem lockstep_pure (hR : R s t) {a : α} {b : β} (h : P a b) :
    Lockstep R P (pure a) (pure b) s t :=
  fun _ => ⟨hR, .some ⟨h, rfl⟩⟩

/-- A write on both sides. -/
theorem lockstep_write {f : σ → σ} {g : τ → τ} (hR : R s t) (h : R (f s) (g t)) :
    Lockstep R (fun _ _ => True) (write f) (write g) s t := by
  intro n
  cases n with
  | zero => exact ⟨hR, .none⟩
  | succ n => exact ⟨h, .some ⟨trivial, rfl⟩⟩

variable {x : Durable σ α} {y : Durable τ β}

/-- What the first program ensures about its result can be used on both sides. -/
theorem lockstep_ensures {Q : α → Prop} (h : Lockstep R P x y s t)
    (hx : x.Ensures s fun _ r => ∀ a, r = some a → Q a) :
    Lockstep R (fun a b => P a b ∧ Q a) x y s t := by
  intro n
  obtain ⟨hR, hrel⟩ := h n
  have hQ := hx n
  refine ⟨hR, ?_⟩
  generalize (x s n).2 = r at hrel hQ ⊢
  generalize (y t n).2 = r' at hrel ⊢
  cases hrel with
  | none => exact .none
  | some hp => exact .some ⟨⟨hp.1, hQ _ rfl⟩, hp.2⟩

variable {Q : γ → δ → Prop} {f : α → Durable σ γ} {g : β → Durable τ δ}

/-- Two sequences: the second parts start from related stores with related results. -/
theorem lockstep_bind (h : Lockstep R P x y s t)
    (hfg : ∀ s' t' a b, R s' t' → P a b → Lockstep R Q (f a) (g b) s' t') :
    Lockstep R Q (x >>= f) (y >>= g) s t := by
  intro n
  obtain ⟨hR, hrel⟩ := h n
  match hx : x s n, hy : y t n with
  | (s', none), (t', none) =>
    rw [bind_of_none hx, bind_of_none hy]
    rw [hx, hy] at hR
    exact ⟨hR, .none⟩
  | (s', some (a, m)), (t', some (b, m')) =>
    rw [hx, hy] at hR hrel
    cases hrel with
    | some hp =>
      obtain ⟨hP, hm⟩ := hp
      -- Both have the same number of writes left.
      cases hm
      rw [bind_of_some hx, bind_of_some hy]
      exact hfg s' t' a b hR hP m
  | (s', none), (t', some q) | (s', some p), (t', none) =>
    rw [hx, hy] at hrel
    cases hrel

/-- Values that depend on the stores, then two programs. -/
theorem lockstep_read_bind {φ : σ → α} {ψ : τ → β} (h : Lockstep R Q (f (φ s)) (g (ψ t)) s t) :
    Lockstep R Q (read φ >>= f) (read ψ >>= g) s t :=
  fun n => h n

/-- A write on both sides, then two programs. -/
theorem lockstep_write_bind {φ : σ → σ} {ψ : τ → τ} {f : Unit → Durable σ γ}
    {g : Unit → Durable τ δ} (hR : R s t) (h : Lockstep R Q (f ()) (g ()) (φ s) (ψ t)) :
    Lockstep R Q (write φ >>= f) (write ψ >>= g) s t := by
  intro n
  cases n with
  | zero => exact ⟨hR, .none⟩
  | succ n => exact h n

/-- A program on a part of each store. -/
theorem lockstep_on {σ' τ' : Type} {R' : σ' → τ' → Prop} {get : σ → σ'} {set : σ' → σ → σ}
    {get' : τ → τ'} {set' : τ' → τ → τ} {x : Durable σ' α} {y : Durable τ' β}
    (h : Lockstep R' P x y (get s) (get' t)) (hset : ∀ u v, R' u v → R (set u s) (set' v t)) :
    Lockstep R P (x.on get set) (y.on get' set') s t :=
  fun n => ⟨hset _ _ (h n).1, (h n).2⟩

/-- The runs of two programs that make their writes together. -/
theorem Lockstep.run (h : Lockstep R P x y s t) (n : Nat) :
    R (x.run s n).1 (y.run t n).1 ∧ Option.Rel P (x.run s n).2 (y.run t n).2 := by
  obtain ⟨hR, hrel⟩ := h n
  unfold Durable.run
  match hx : x s n, hy : y t n with
  | (s', none), (t', none) =>
    rw [hx, hy] at hR
    exact ⟨hR, .none⟩
  | (s', some (a, m)), (t', some (b, m')) =>
    rw [hx, hy] at hR hrel
    cases hrel with
    | some hp =>
      obtain ⟨hP, hm⟩ := hp
      cases hm
      cases m with
      | zero => exact ⟨hR, .none⟩
      | succ m => exact ⟨hR, .some hP⟩
  | (s', none), (t', some q) | (s', some p), (t', none) =>
    rw [hx, hy] at hrel
    cases hrel

end Durable

end AssentianPQE.Lib
