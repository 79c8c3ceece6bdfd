import Mathlib.Logic.Basic

/-!
# `AssentianPQE.Lib.Durable`: programs on a store that outlives them

A program reads and writes a durable store. Every write is atomic, and the process can die
before or after any of them. A program gets the number of writes after which its process dies,
so a statement about all such numbers is a statement about a crash at every point. A process
that dies after the last write of a program (`run`) has not returned its result.

`Ensures x s Q` says that from the store `s` the program `x` ends with `Q`, wherever it is cut
off. `Q` is about the store and the result, which is `none` for a process that has died. There
is one rule for each way to build a program.
-/

set_option autoImplicit false

namespace AssentianPQE.Lib

/-- A program on a store. The second argument is the number of writes after which the process
dies. The result has what is left of it, or is `none` if the process has died. -/
def Durable (σ α : Type) : Type :=
  σ → Nat → σ × Option (α × Nat)

namespace Durable

variable {σ α β : Type}

instance : Monad (Durable σ) where
  pure a := fun s n => (s, some (a, n))
  bind x f := fun s n =>
    match x s n with
    | (s', some (a, n')) => f a s' n'
    | (s', none) => (s', none)

theorem pure_bind (a : α) (f : α → Durable σ β) : (pure a : Durable σ α) >>= f = f a :=
  rfl

/-- A value that depends on the store. -/
def read (f : σ → α) : Durable σ α :=
  fun s n => (s, some (f s, n))

/-- One atomic write. -/
def write (f : σ → σ) : Durable σ Unit :=
  fun s n =>
    match n with
    | 0 => (s, none)
    | n + 1 => (f s, some ((), n))

/-- The store and the result of a run whose process dies after `n` writes. -/
def run (x : Durable σ α) (s : σ) (n : Nat) : σ × Option α :=
  match x s n with
  | (s', some (a, _ + 1)) => (s', some a)
  | (s', _) => (s', none)

/-- Wherever the program is cut off, it ends with `Q`. -/
def Ensures (x : Durable σ α) (s : σ) (Q : σ → Option α → Prop) : Prop :=
  ∀ n, Q (x s n).1 ((x s n).2.map Prod.fst)

variable {x : Durable σ α} {s : σ} {Q : σ → Option α → Prop}

/-- A run ends as its program does, or its result is lost. -/
theorem Ensures.run (h : Ensures x s Q) (n : Nat) :
    ∃ r, Q (x.run s n).1 r ∧ ((x.run s n).2 = r ∨ (x.run s n).2 = none) := by
  have hQ := h n
  unfold Durable.run
  match hx : x s n with
  | (s', some (a, k + 1)) =>
    rw [hx] at hQ
    exact ⟨some a, hQ, .inl rfl⟩
  | (s', some (a, 0)) =>
    rw [hx] at hQ
    exact ⟨some a, hQ, .inr rfl⟩
  | (s', none) =>
    rw [hx] at hQ
    exact ⟨none, hQ, .inl rfl⟩

/-- What holds for a lost result too holds for a run. -/
theorem Ensures.run_of_lost (h : Ensures x s Q) (hlost : ∀ s' r, Q s' r → Q s' none) (n : Nat) :
    Q (x.run s n).1 (x.run s n).2 := by
  obtain ⟨r, hQ, hr | hr⟩ := h.run n
  · rw [hr]
    exact hQ
  · rw [hr]
    exact hlost _ r hQ

variable {a : α}

theorem ensures_pure (h : Q s (some a)) : Ensures (pure a : Durable σ α) s Q :=
  fun _ => h

/-- A write is done, or the process has died before it. -/
theorem ensures_write {f : σ → σ} {Q : σ → Option Unit → Prop} (hdied : Q s none)
    (hdone : Q (f s) (some ())) : Ensures (write f) s Q := by
  intro n
  cases n with
  | zero => exact hdied
  | succ n => exact hdone

variable {Q' : σ → Option α → Prop}

theorem ensures_mono (h : Ensures x s Q) (hQ : ∀ s' r, Q s' r → Q' s' r) : Ensures x s Q' :=
  fun n => hQ _ _ (h n)

theorem ensures_and (h : Ensures x s Q) (h' : Ensures x s Q') :
    Ensures x s fun s' r => Q s' r ∧ Q' s' r :=
  fun n => ⟨h n, h' n⟩

variable {f : α → Durable σ β}

/-- Two programs in sequence: the second one starts from every store and result that the first
one can end with. -/
theorem ensures_bind {P : σ → Option α → Prop} {Q : σ → Option β → Prop} (hx : Ensures x s P)
    (hdied : ∀ s', P s' none → Q s' none) (hf : ∀ s' a, P s' (some a) → Ensures (f a) s' Q) :
    Ensures (x >>= f) s Q := by
  intro n
  have hP := hx n
  -- A sequence runs its second part with the writes that are left.
  have hrun : (x >>= f) s n = match x s n with
      | (s', some (a, n')) => f a s' n'
      | (s', none) => (s', none) := rfl
  rw [hrun]
  match hx' : x s n with
  | (s', none) =>
    rw [hx'] at hP
    exact hdied s' hP
  | (s', some (a, n')) =>
    rw [hx'] at hP
    exact hf s' a hP n'

/-- A value that depends on the store, then a program. -/
theorem ensures_read_bind {f : σ → α} {g : α → Durable σ β} {Q : σ → Option β → Prop}
    (h : Ensures (g (f s)) s Q) : Ensures (read f >>= g) s Q :=
  fun n => h n

variable {g : Unit → Durable σ β}

/-- A write, then a program. -/
theorem ensures_write_bind {f : σ → σ} {Q : σ → Option β → Prop} (hdied : Q s none)
    (h : Ensures (g ()) (f s) Q) : Ensures (write f >>= g) s Q := by
  intro n
  cases n with
  | zero => exact hdied
  | succ n => exact h n

/-! ### Results from any store -/

/-- Every result of the program has `P`, whatever the store. -/
def Yields (x : Durable σ α) (P : α → Prop) : Prop :=
  ∀ s, Ensures x s fun _ r => ∀ a, r = some a → P a

variable {P : α → Prop}

theorem yields_pure (h : P a) : (pure a : Durable σ α).Yields P := by
  intro s
  refine ensures_pure fun b hb => ?_
  cases hb
  exact h

/-- Only the last part of a sequence matters. -/
theorem yields_bind {P : β → Prop} (hf : ∀ a, (f a).Yields P) : (x >>= f).Yields P := by
  intro s
  have hx : Ensures x s fun _ _ => True := fun _ => trivial
  exact ensures_bind hx (fun _ _ => nofun) fun s' a _ => hf a s'

/-- The rest of a sequence may use what the first part yields. -/
theorem Yields.bind {Q : β → Prop} (hx : x.Yields P) (hf : ∀ a, P a → (f a).Yields Q) :
    (x >>= f).Yields Q := by
  intro s
  refine ensures_bind (hx s) (fun _ _ _ h => by cases h) ?_
  intro s' a ha
  exact hf a (ha a rfl) s'

variable {s' : σ} {n : Nat}

theorem Yields.run (h : x.Yields P) (hx : x.run s n = (s', some a)) : P a := by
  have hrun := (h s).run_of_lost (fun _ _ _ => nofun) n
  rw [hx] at hrun
  exact hrun a rfl

/-! ### A part of a store -/

/-- A program on a part of a store. -/
def on {τ : Type} (get : τ → σ) (set : σ → τ → τ) (x : Durable σ α) : Durable τ α :=
  fun t n => (set (x (get t) n).1 t, (x (get t) n).2)

variable {τ : Type} {get : τ → σ} {t : τ}

/-- It does to that part what it does to a store of its own. -/
theorem ensures_on {set : σ → τ → τ} {P : σ → Option α → Prop} {Q : τ → Option α → Prop}
    (h : Ensures x (get t) P) (hQ : ∀ s r, P s r → Q (set s t) r) : Ensures (x.on get set) t Q :=
  fun n => hQ _ _ (h n)

/-! ### Runs that end -/

/-- A sequence that ends has run both parts, one after the other. -/
theorem bind_eq_some {r : β × Nat} (h : (x >>= f) s n = (s', some r)) :
    ∃ s₁ a n₁, x s n = (s₁, some (a, n₁)) ∧ f a s₁ n₁ = (s', some r) := by
  have h' : (match x s n with
      | (s₁, some (a, n₁)) => f a s₁ n₁
      | (s₁, none) => (s₁, none)) = (s', some r) := h
  match hx : x s n with
  | (s₁, none) =>
    rw [hx] at h'
    cases h'
  | (s₁, some (a, n₁)) =>
    rw [hx] at h'
    exact ⟨s₁, a, n₁, rfl, h'⟩

variable {s₁ : σ}

/-- The second part starts where the first one has ended. -/
theorem bind_of_some {n₁ : Nat} (h : x s n = (s₁, some (a, n₁))) : (x >>= f) s n = f a s₁ n₁ := by
  show (match x s n with
      | (s', some (a, n')) => f a s' n'
      | (s', none) => (s', none)) = _
  rw [h]

/-- The second part is not reached if the process has died. -/
theorem bind_of_none (h : x s n = (s₁, none)) : (x >>= f) s n = (s₁, none) := by
  show (match x s n with
      | (s', some (a, n')) => f a s' n'
      | (s', none) => (s', none)) = _
  rw [h]

theorem bind_assoc {γ : Type} (x : Durable σ α) (f : α → Durable σ β) (g : β → Durable σ γ) :
    (x >>= f) >>= g = x >>= fun a => f a >>= g := by
  funext s n
  match hx : x s n with
  | (s₁, none) => rw [bind_of_none hx, bind_of_none (bind_of_none hx)]
  | (s₁, some (a, n₁)) =>
    rw [bind_of_some hx]
    match hf : f a s₁ n₁ with
    | (s₂, none) => rw [bind_of_none hf, bind_of_none ((bind_of_some hx).trans hf)]
    | (s₂, some (b, n₂)) => rw [bind_of_some hf, bind_of_some ((bind_of_some hx).trans hf)]

theorem bind_pure (x : Durable σ α) : x >>= pure = x := by
  funext s n
  match hx : x s n with
  | (s₁, none) => exact bind_of_none hx
  | (s₁, some (a, n₁)) => exact bind_of_some hx

/-- A result of a run is the result of its program. -/
theorem run_eq_some (h : x.run s n = (s', some a)) : ∃ k, x s n = (s', some (a, k)) := by
  unfold run at h
  match hx : x s n with
  | (s₁, some (a₁, k + 1)) =>
    rw [hx] at h
    cases h
    exact ⟨k + 1, rfl⟩
  | (s₁, some (a₁, 0)) | (s₁, none) =>
    rw [hx] at h
    cases h

/-- What a program ensures holds where it ends. -/
theorem Ensures.of_eq (h : Ensures x s Q) {k : Nat} (hx : x s n = (s', some (a, k))) : Q s' (some a) := by
  have hQ := h n
  rw [hx] at hQ
  exact hQ

/-! ### Programs that are not cut off -/

/-- The program ends in the store `s'` with the result `a`, whatever is left of the number of
writes. -/
def Returns (x : Durable σ α) (s s' : σ) (a : α) : Prop :=
  ∃ n, ∀ m, x s (n + m) = (s', some (a, m))

/-- A program has one end. -/
theorem Returns.unique {s₂ : σ} {a₁ a₂ : α} (h₁ : x.Returns s s₁ a₁) (h₂ : x.Returns s s₂ a₂) :
    s₁ = s₂ ∧ a₁ = a₂ := by
  obtain ⟨n₁, h₁⟩ := h₁
  obtain ⟨n₂, h₂⟩ := h₂
  have heq := (h₁ n₂).symm.trans ((congrArg (x s) (Nat.add_comm n₁ n₂)).trans (h₂ n₁))
  rw [Prod.mk.injEq, Option.some.injEq, Prod.mk.injEq] at heq
  exact ⟨heq.1, heq.2.1⟩

/-- What a program ensures holds where it returns. -/
theorem Returns.ensures (h : x.Returns s s' a) (hx : Ensures x s Q) : Q s' (some a) := by
  obtain ⟨n, hn⟩ := h
  have hQ := hx (n + 0)
  rwa [hn 0] at hQ

/-- A program that returns does so in a run that is long enough. -/
theorem Returns.run (h : x.Returns s s' a) : ∃ n, x.run s n = (s', some a) := by
  obtain ⟨n, hx⟩ := h
  refine ⟨n + 1, ?_⟩
  unfold Durable.run
  rw [hx 1]

theorem returns_pure (s : σ) (a : α) : (pure a : Durable σ α).Returns s s a :=
  ⟨0, fun m => by rw [Nat.zero_add]; rfl⟩

theorem returns_write (f : σ → σ) (s : σ) : (write f).Returns s (f s) () :=
  ⟨1, fun m => by rw [Nat.add_comm]; rfl⟩

variable {b : β}

theorem returns_bind {s₂ : σ} (hx : x.Returns s s₁ a) (hf : (f a).Returns s₁ s₂ b) :
    (x >>= f).Returns s s₂ b := by
  obtain ⟨n, hx⟩ := hx
  obtain ⟨k, hf⟩ := hf
  refine ⟨n + k, fun m => ?_⟩
  rw [Nat.add_assoc, bind_of_some (hx (k + m))]
  exact hf m

theorem returns_read_bind {f : σ → α} {g : α → Durable σ β} (h : (g (f s)).Returns s s' b) :
    (read f >>= g).Returns s s' b :=
  h

theorem returns_write_bind {f : σ → σ} (h : (g ()).Returns (f s) s' b) :
    (write f >>= g).Returns s s' b :=
  returns_bind (returns_write f s) h

theorem returns_on {set : σ → τ → τ} (h : x.Returns (get t) s a) :
    (x.on get set).Returns t (set s t) a := by
  obtain ⟨n, hx⟩ := h
  refine ⟨n, fun m => ?_⟩
  unfold on
  rw [hx m]

/-- The program ends with `Q`, unless it is cut off. -/
def Delivers (x : Durable σ α) (s : σ) (Q : σ → α → Prop) : Prop :=
  ∃ s' a, x.Returns s s' a ∧ Q s' a

theorem delivers_pure {Q : σ → α → Prop} (h : Q s a) : (pure a : Durable σ α).Delivers s Q :=
  ⟨s, a, returns_pure s a, h⟩

theorem delivers_bind {P : σ → α → Prop} {Q : σ → β → Prop} (hx : x.Delivers s P)
    (hf : ∀ s' a, P s' a → (f a).Delivers s' Q) : (x >>= f).Delivers s Q := by
  obtain ⟨s', a, hx, ha⟩ := hx
  obtain ⟨s'', b, hb, hQ⟩ := hf s' a ha
  exact ⟨s'', b, returns_bind hx hb, hQ⟩

theorem delivers_read_bind {f : σ → α} {g : α → Durable σ β} {Q : σ → β → Prop}
    (h : (g (f s)).Delivers s Q) : (read f >>= g).Delivers s Q :=
  h

theorem delivers_write_bind {f : σ → σ} {Q : σ → β → Prop} (h : (g ()).Delivers (f s) Q) :
    (write f >>= g).Delivers s Q := by
  obtain ⟨s', b, hb, hQ⟩ := h
  exact ⟨s', b, returns_write_bind hb, hQ⟩

theorem delivers_on {set : σ → τ → τ} {P : σ → α → Prop} {Q : τ → α → Prop}
    (h : x.Delivers (get t) P) (hQ : ∀ s a, P s a → Q (set s t) a) : (x.on get set).Delivers t Q := by
  obtain ⟨s, a, hx, ha⟩ := h
  exact ⟨set s t, a, returns_on hx, hQ s a ha⟩

end Durable

end AssentianPQE.Lib
