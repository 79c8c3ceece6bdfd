import Mathlib.Data.Set.Function

/-!
# `AssentianPQE.Lib.Memo`: a cache of positive verdicts

A cache holds the keys of the questions that were answered with yes. `MemoSound` says that every
key in it is the key of such a question. A hit can then stand for the answer, as long as the keys
of the questions that are asked are apart.
-/

set_option autoImplicit false

namespace AssentianPQE.Lib

section Memo
variable {α κ : Type} (key : α → κ) (asked valid : α → Prop)

/-- Every entry is the key of a question that was asked and has the answer yes. -/
def MemoSound (cache : List κ) : Prop :=
  ∀ e ∈ cache, ∃ x, asked x ∧ key x = e ∧ valid x

variable {key asked valid} {cache : List κ}

theorem memoSound_nil : MemoSound key asked valid [] := by
  intro e he
  cases he

theorem MemoSound.insert (h : MemoSound key asked valid cache) {x : α} (hasked : asked x)
    (hvalid : valid x) : MemoSound key asked valid (key x :: cache) := by
  intro e he
  rcases List.mem_cons.mp he with rfl | he
  · exact ⟨x, hasked, rfl, hvalid⟩
  · exact h e he

/-- Entries may be lost. -/
theorem MemoSound.filter (h : MemoSound key asked valid cache) (keep : κ → Bool) :
    MemoSound key asked valid (cache.filter keep) :=
  fun e he => h e (List.mem_filter.mp he).1

/-- A hit stands for the answer yes. -/
theorem MemoSound.hit (h : MemoSound key asked valid cache) (hinj : Set.InjOn key {x | asked x})
    {x : α} (hasked : asked x) (hhit : key x ∈ cache) : valid x := by
  obtain ⟨y, hy, heq, hvalid⟩ := h _ hhit
  rwa [← hinj hy hasked heq]

end Memo

end AssentianPQE.Lib
