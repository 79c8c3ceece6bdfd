import Mathlib.Data.List.Basic

/-!
# `AssentianPQE.Lib.Encoding`: encodings that mark their own end

An encoder writes a value as a string. `Determines P enc f` says that, for values with
property `P`, the string can be cut off the front of a longer one and determines the part
`f` of the value. An encoder that leaves a part of its value out determines only the rest.

The rules build such facts along the structure of a format: strings of one length
(`Determines.of_length`), one string after another (`Determines.append`), and a count
followed by that many strings (`Determines.counted`).
-/

set_option autoImplicit false

namespace AssentianPQE.Lib

variable {α β γ δ : Type}

/-- On values with property `P`, the string `enc a` at the front of a longer string
determines `f a` and the rest. -/
def Determines (P : α → Prop) (enc : α → List γ) (f : α → β) : Prop :=
  ∀ a b, P a → P b → ∀ r s, enc a ++ r = enc b ++ s → f a = f b ∧ r = s

namespace Determines

variable {P : α → Prop} {enc : α → List γ} {f : α → β}

/-- Without anything behind it, the string determines the value. -/
theorem eq (h : Determines P enc f) {a b : α} (ha : P a) (hb : P b) (he : enc a = enc b) :
    f a = f b :=
  (h a b ha hb [] [] (by rw [he])).1

/-- Strings of one length. -/
theorem of_length (n : Nat) (hlen : ∀ a, P a → (enc a).length = n)
    (hinj : ∀ a b, P a → P b → enc a = enc b → f a = f b) : Determines P enc f := by
  intro a b ha hb r s he
  have hl : (enc a).length = (enc b).length := by rw [hlen a ha, hlen b hb]
  obtain ⟨hab, hrs⟩ := List.append_inj he hl
  exact ⟨hinj a b ha hb hab, hrs⟩

/-- One string after another. -/
theorem append {enc' : α → List γ} {g : α → δ} (h : Determines P enc f)
    (h' : Determines P enc' g) :
    Determines P (fun a => enc a ++ enc' a) fun a => (f a, g a) := by
  intro a b ha hb r s he
  simp only [List.append_assoc] at he
  obtain ⟨hf, hrest⟩ := h a b ha hb _ _ he
  obtain ⟨hg, hrs⟩ := h' a b ha hb _ _ hrest
  exact ⟨Prod.ext hf hg, hrs⟩

/-- The encoding of a part of a value. -/
theorem comp {ε : Type} (h : Determines P enc f) (k : ε → α) :
    Determines (fun a => P (k a)) (fun a => enc (k a)) fun a => f (k a) :=
  fun a b ha hb => h (k a) (k b) ha hb

/-- Fewer values. -/
theorem mono {Q : α → Prop} (h : Determines P enc f) (hQ : ∀ a, Q a → P a) :
    Determines Q enc f :=
  fun a b ha hb => h a b (hQ a ha) (hQ b hb)

/-- What is determined determines more. -/
theorem map {g : α → δ} (h : Determines P enc f) (hg : ∀ a b, f a = f b → g a = g b) :
    Determines P enc g := by
  intro a b ha hb r s he
  obtain ⟨hf, hrs⟩ := h a b ha hb r s he
  exact ⟨hg a b hf, hrs⟩

/-- Equally many strings in a row. -/
theorem flatten (h : Determines P enc f) :
    ∀ {xs ys : List α}, xs.length = ys.length → (∀ x ∈ xs, P x) → (∀ y ∈ ys, P y) →
      ∀ r s, (xs.map enc).flatten ++ r = (ys.map enc).flatten ++ s →
        xs.map f = ys.map f ∧ r = s
  | [], [], _, _, _, r, s, he => ⟨rfl, he⟩
  | [], _ :: _, hlen, _, _, _, _, _ => by simp at hlen
  | _ :: _, [], hlen, _, _, _, _, _ => by simp at hlen
  | x :: xs, y :: ys, hlen, hx, hy, r, s, he => by
    simp only [List.map_cons, List.flatten_cons, List.append_assoc] at he
    obtain ⟨hf, hrest⟩ := h x y (hx x List.mem_cons_self) (hy y List.mem_cons_self) _ _ he
    have hlen' : xs.length = ys.length := by simpa using hlen
    obtain ⟨hmap, hrs⟩ := flatten h hlen' (fun a ha => hx a (List.mem_cons_of_mem _ ha))
      (fun b hb => hy b (List.mem_cons_of_mem _ hb)) r s hrest
    exact ⟨by rw [List.map_cons, List.map_cons, hf, hmap], hrs⟩

/-- A count, then that many strings. -/
theorem counted {Q : Nat → Prop} {count : Nat → List γ} (hcount : Determines Q count id)
    (h : Determines P enc f) :
    Determines (fun xs : List α => Q xs.length ∧ ∀ x ∈ xs, P x)
      (fun xs => count xs.length ++ (xs.map enc).flatten) (List.map f) := by
  intro xs ys hx hy r s he
  simp only [List.append_assoc] at he
  obtain ⟨hlen, hrest⟩ := hcount _ _ hx.1 hy.1 _ _ he
  exact flatten h hlen hx.2 hy.2 r s hrest

end Determines

end AssentianPQE.Lib
