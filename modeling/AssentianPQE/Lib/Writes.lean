import Mathlib.Logic.Function.Basic
import Mathlib.Data.List.Basic

/-!
# `AssentianPQE.Lib.Writes`: lists of writes to a map

`writeAll` writes a list of values to a map, the first one first. A list of writes is undone
by another one that has the old value of every key that was written
(`writeAll_restores`), in whatever order and however often a key occurs.
-/

set_option autoImplicit false

namespace AssentianPQE.Lib

section Writes
variable {κ α : Type} [DecidableEq κ]

/-- The map after a list of writes. -/
def writeAll (ws : List (κ × α)) (m : κ → α) : κ → α :=
  ws.foldl (fun m w => Function.update m w.1 w.2) m

theorem writeAll_cons (w : κ × α) (ws : List (κ × α)) (m : κ → α) :
    writeAll (w :: ws) m = writeAll ws (Function.update m w.1 w.2) := rfl

theorem writeAll_append (ws ws' : List (κ × α)) (m : κ → α) :
    writeAll (ws ++ ws') m = writeAll ws' (writeAll ws m) :=
  List.foldl_append

variable {ws : List (κ × α)} {m : κ → α}

/-- A key that is not written keeps its value. -/
theorem writeAll_of_not_mem {k : κ} (h : k ∉ ws.map Prod.fst) : writeAll ws m k = m k := by
  induction ws generalizing m with
  | nil => rfl
  | cons w ws ih =>
    rw [List.map_cons, List.mem_cons, not_or] at h
    rw [writeAll_cons, ih h.2, Function.update_of_ne h.1]

/-- A key that is written has one of the values that are written to it. -/
theorem writeAll_mem {k : κ} (h : k ∈ ws.map Prod.fst) : (k, writeAll ws m k) ∈ ws := by
  induction ws generalizing m with
  | nil => cases h
  | cons w ws ih =>
    rw [writeAll_cons]
    by_cases hk : k ∈ ws.map Prod.fst
    · exact List.mem_cons_of_mem w (ih hk)
    rw [writeAll_of_not_mem hk]
    rw [List.map_cons, List.mem_cons] at h
    have hw : k = w.1 := h.resolve_right hk
    rw [hw, Function.update_self]
    exact List.mem_cons_self

/-- Take two maps that agree outside the written keys. Writing the values that the first one
has to the second one makes them equal. -/
theorem writeAll_restores {m' : κ → α} (hws : ∀ w ∈ ws, w.2 = m w.1)
    (hout : ∀ k, k ∉ ws.map Prod.fst → m' k = m k) : writeAll ws m' = m := by
  funext k
  by_cases hk : k ∈ ws.map Prod.fst
  · exact hws _ (writeAll_mem hk)
  · rw [writeAll_of_not_mem hk, hout k hk]

end Writes

end AssentianPQE.Lib
