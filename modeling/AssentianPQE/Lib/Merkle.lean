import Mathlib.Data.List.Basic

/-!
# `AssentianPQE.Lib.Merkle`: Merkle roots that duplicate the last node

A level of an odd length has its last node paired with itself, and one pass over the levels
computes the root. Two lists of leaves can then have the same root without a collision:
`[a, b, c]` and `[a, b, c, c]` are the known case. The loop therefore also reports whether
two nodes of one pair were equal (`mutated`).

* `eq_of_merkleLoop_eq`: two leaf lists with one root have the same first leaf, and are equal if
  neither is reported as mutated. The node function has to be injective on the pairs the two trees
  hash, and no node of one tree may equal the first leaf of the other. The second condition fixes
  the depth.
* `eq_of_merkleLoop_eq_of_length`: equally many leaves with one root are equal.
-/

set_option autoImplicit false

namespace AssentianPQE.Lib

variable {α : Type}

/-- The pairs of one level. The last node of an odd level is paired with itself. -/
def levelPairs : List α → List (α × α)
  | [] => []
  | [a] => [(a, a)]
  | a :: b :: rest => (a, b) :: levelPairs rest

/-- The next level. -/
def merkleLevel (node : α → α → α) (hashes : List α) : List α :=
  (levelPairs hashes).map fun p => node p.1 p.2

/-- Whether the two nodes of some pair are equal. A last node without a partner does not
count. -/
def levelMutated [DecidableEq α] : List α → Bool
  | a :: b :: rest => a = b || levelMutated rest
  | _ => false

/-- The loop over the levels: the last level and whether a level was mutated. The first
argument bounds the number of levels. -/
def merkleLoop [DecidableEq α] (node : α → α → α) : Nat → List α → Bool → List α × Bool
  | 0, hashes, mutation => (hashes, mutation)
  | n + 1, hashes, mutation =>
    if hashes.length ≤ 1 then (hashes, mutation)
    else merkleLoop node n (merkleLevel node hashes) (mutation || levelMutated hashes)

/-- The pairs that the loop hashes, over all levels. -/
def treePairs (node : α → α → α) : Nat → List α → List (α × α)
  | 0, _ => []
  | n + 1, hashes =>
    if hashes.length ≤ 1 then []
    else levelPairs hashes ++ treePairs node n (merkleLevel node hashes)

/-! ### One level -/

theorem length_levelPairs : ∀ hashes : List α, (levelPairs hashes).length = (hashes.length + 1) / 2
  | [] => by simp [levelPairs]
  | [_] => by simp [levelPairs]
  | a :: b :: rest => by
    simp only [levelPairs, List.length_cons, length_levelPairs rest]
    omega

variable (node : α → α → α)

@[simp] theorem length_merkleLevel (hashes : List α) :
    (merkleLevel node hashes).length = (hashes.length + 1) / 2 := by
  rw [merkleLevel, List.length_map, length_levelPairs]

theorem fst_mem_of_mem_levelPairs {q : α × α} :
    ∀ {hashes : List α}, q ∈ levelPairs hashes → q.1 ∈ hashes
  | [], h => by cases h
  | [a], h => by
    rw [levelPairs, List.mem_singleton] at h
    simp [h]
  | a :: b :: rest, h => by
    rw [levelPairs, List.mem_cons] at h
    rcases h with rfl | h
    · exact List.mem_cons_self
    · exact List.mem_cons_of_mem _ (List.mem_cons_of_mem _ (fst_mem_of_mem_levelPairs h))

/-- The pairs determine a level without equal pairs. -/
theorem eq_of_levelPairs_eq [DecidableEq α] :
    ∀ {xs ys : List α}, levelPairs xs = levelPairs ys → levelMutated xs = false →
      levelMutated ys = false → xs = ys
  | [], [], _, _, _ => rfl
  | [a], [b], h, _, _ => by
    simp only [levelPairs, List.cons.injEq, Prod.mk.injEq, and_true] at h
    rw [h.1]
  | a :: b :: xs, c :: d :: ys, h, hx, hy => by
    simp only [levelPairs, List.cons.injEq, Prod.mk.injEq] at h
    simp only [levelMutated, Bool.or_eq_false_iff] at hx hy
    rw [h.1.1, h.1.2, eq_of_levelPairs_eq h.2 hx.2 hy.2]
  | [], [b], h, _, _ => by simp [levelPairs] at h
  | [], c :: d :: ys, h, _, _ => by simp [levelPairs] at h
  | [a], [], h, _, _ => by simp [levelPairs] at h
  | a :: b :: xs, [], h, _, _ => by simp [levelPairs] at h
  -- A single last node against a pair: the pair would be two equal nodes.
  | [a], c :: d :: ys, h, _, hy => by
    simp only [levelPairs, List.cons.injEq, Prod.mk.injEq] at h
    simp only [levelMutated, Bool.or_eq_false_iff, decide_eq_false_iff_not] at hy
    exact absurd (h.1.1.symm.trans h.1.2) hy.1
  | a :: b :: xs, [c], h, hx, _ => by
    simp only [levelPairs, List.cons.injEq, Prod.mk.injEq] at h
    simp only [levelMutated, Bool.or_eq_false_iff, decide_eq_false_iff_not] at hx
    exact absurd (h.1.1.trans h.1.2.symm) hx.1

/-! ### The whole tree -/

/-- The left node of a hashed pair is a leaf or was itself hashed. -/
theorem treePairs_fst {q : α × α} :
    ∀ {n : Nat} {hashes : List α}, q ∈ treePairs node n hashes →
      q.1 ∈ hashes ∨ ∃ p ∈ treePairs node n hashes, q.1 = node p.1 p.2 := by
  intro n
  induction n with
  | zero => intro hashes h; cases h
  | succ n ih =>
    intro hashes h
    simp only [treePairs] at h ⊢
    split at h
    · cases h
    rename_i hlen
    simp only [hlen, if_false, List.mem_append]
    rcases List.mem_append.mp h with h | h
    · exact .inl (fst_mem_of_mem_levelPairs h)
    right
    rcases ih h with hmem | ⟨p, hp, he⟩
    · obtain ⟨p, hp, he⟩ := List.mem_map.mp hmem
      exact ⟨p, .inl hp, he.symm⟩
    · exact ⟨p, .inr hp, he⟩

/-- A level that was reported stays reported. -/
theorem merkleLoop_mutation [DecidableEq α] :
    ∀ (n : Nat) (hashes : List α) (mutation : Bool),
      (merkleLoop node n hashes mutation).2 = false → mutation = false := by
  intro n
  induction n with
  | zero => intro hashes mutation h; exact h
  | succ n ih =>
    intro hashes mutation h
    simp only [merkleLoop] at h
    split at h
    · exact h
    · exact (Bool.or_eq_false_iff.mp (ih _ _ h)).1

variable {r : α}

/-- The root of a longer list is a hashed node. -/
theorem merkleLoop_root_node [DecidableEq α] :
    ∀ {n : Nat} {hashes : List α} {mutation : Bool}, 1 < hashes.length →
      (merkleLoop node n hashes mutation).1 = [r] →
      ∃ q ∈ treePairs node n hashes, node q.1 q.2 = r := by
  intro n
  induction n with
  | zero =>
    intro hashes mutation hlen h
    simp only [merkleLoop] at h
    rw [h] at hlen
    simp at hlen
  | succ n ih =>
    intro hashes mutation hlen h
    have hnot : ¬ hashes.length ≤ 1 := Nat.not_le.mpr hlen
    simp only [merkleLoop, treePairs, hnot, if_false] at h ⊢
    by_cases hnext : 1 < (merkleLevel node hashes).length
    · obtain ⟨q, hq, he⟩ := ih hnext h
      exact ⟨q, List.mem_append_right _ hq, he⟩
    -- The next level is the last one, so it is the root alone.
    have hlast : merkleLevel node hashes = [r] := by
      cases n with
      | zero => simpa only [merkleLoop] using h
      | succ n => simpa only [merkleLoop, Nat.not_lt.mp hnext, if_true] using h
    obtain ⟨q, hq, he⟩ := List.mem_map.mp
      (show r ∈ merkleLevel node hashes by rw [hlast]; exact List.mem_singleton.mpr rfl)
    exact ⟨q, List.mem_append_left _ hq, he⟩

/-- With a step for each leaf, the loop ends at one root. -/
theorem merkleLoop_single_root [DecidableEq α] :
    ∀ {n : Nat} {hashes : List α} {mutation : Bool}, hashes ≠ [] → hashes.length ≤ n →
      ∃ r, (merkleLoop node n hashes mutation).1 = [r] := by
  intro n
  induction n with
  | zero =>
    intro hashes mutation hne hn
    exact absurd (List.length_eq_zero_iff.mp (Nat.le_zero.mp hn)) hne
  | succ n ih =>
    intro hashes mutation hne hn
    simp only [merkleLoop]
    split
    · rename_i hlen
      have hpos := List.length_pos_iff.mpr hne
      have hone : hashes.length = 1 := by omega
      exact List.length_eq_one_iff.mp hone
    · rename_i hlen
      have hlevel := length_merkleLevel node hashes
      have hshort : (merkleLevel node hashes).length ≤ n := by omega
      refine ih (fun he => ?_) hshort
      rw [he, List.length_nil] at hlevel
      omega

/-- A map that is injective on the elements of two lists tells the lists apart. -/
private theorem eq_of_map_eq_map {β : Type} {f : α → β} :
    ∀ {xs ys : List α}, (∀ a ∈ xs, ∀ b ∈ ys, f a = f b → a = b) → xs.map f = ys.map f → xs = ys
  | [], [], _, _ => rfl
  | [], y :: ys, _, h => by simp at h
  | x :: xs, [], _, h => by simp at h
  | x :: xs, y :: ys, hinj, h => by
    simp only [List.map_cons, List.cons.injEq] at h
    rw [hinj x List.mem_cons_self y List.mem_cons_self h.1,
      eq_of_map_eq_map (fun a ha b hb => hinj a (List.mem_cons_of_mem _ ha) b
        (List.mem_cons_of_mem _ hb)) h.2]

/-- The pairs of a list of at least two leaves: the first pair, the other pairs of the
first level, and the pairs above. -/
theorem treePairs_cons_cons (n : Nat) (x x' : α) (xs : List α) :
    treePairs node (n + 1) (x :: x' :: xs) = (x, x') :: (levelPairs xs ++
      treePairs node n (node x x' :: merkleLevel node xs)) := by
  simp [treePairs, merkleLevel, levelPairs]

/-- What the two trees hash tells their nodes apart: the node function is injective on the
pairs of both, and no node of one is the first leaf of the other. -/
structure TreesApart (node : α → α → α) (n m : Nat) (xs ys : List α) : Prop where
  inj : ∀ p ∈ treePairs node n xs, ∀ q ∈ treePairs node m ys,
    node p.1 p.2 = node q.1 q.2 → p = q
  left : ∀ q ∈ treePairs node m ys, ∀ x ∈ xs.head?, node q.1 q.2 ≠ x
  right : ∀ q ∈ treePairs node n xs, ∀ y ∈ ys.head?, node q.1 q.2 ≠ y

variable {n : Nat}

theorem TreesApart.symm {node : α → α → α} {m : Nat} {xs ys : List α}
    (h : TreesApart node n m xs ys) : TreesApart node m n ys xs :=
  ⟨fun p hp q hq he => (h.inj q hq p hp he.symm).symm, h.right, h.left⟩

/-- A node above the first level that equalled the new first leaf would have the old first
leaf below it. -/
private theorem TreesApart.next_left {node : α → α → α} {m : Nat} {x x' y y' : α} {xs ys : List α}
    (h : TreesApart node (n + 1) (m + 1) (x :: x' :: xs) (y :: y' :: ys)) :
    ∀ q ∈ treePairs node m (node y y' :: merkleLevel node ys), node q.1 q.2 ≠ node x x' := by
  intro q hq he
  obtain ⟨hinj, hleft, -⟩ := h
  rw [treePairs_cons_cons] at hinj hleft
  rw [treePairs_cons_cons] at hinj
  have hpair : (x, x') = q := hinj (x, x') List.mem_cons_self q
    (List.mem_cons_of_mem _ (List.mem_append_right _ hq)) he.symm
  have hx : q.1 = x := by rw [← hpair]
  rcases treePairs_fst node hq with hmem | ⟨p, hp, hpe⟩
  · rcases List.mem_cons.mp hmem with hyy | hmem
    · exact hleft (y, y') List.mem_cons_self x rfl (hyy.symm.trans hx)
    · obtain ⟨p, hp, hpe⟩ := List.mem_map.mp hmem
      exact hleft p (List.mem_cons_of_mem _ (List.mem_append_left _ hp)) x rfl (hpe.trans hx)
  · exact hleft p (List.mem_cons_of_mem _ (List.mem_append_right _ hp)) x rfl
      (hpe.symm.trans hx)

/-- One level up, the trees are still apart. -/
theorem TreesApart.next {node : α → α → α} {n m : Nat} {x x' y y' : α} {xs ys : List α}
    (h : TreesApart node (n + 1) (m + 1) (x :: x' :: xs) (y :: y' :: ys)) :
    TreesApart node n m (merkleLevel node (x :: x' :: xs)) (merkleLevel node (y :: y' :: ys)) := by
  have hleft := h.next_left
  have hright := h.symm.next_left
  have hinj := h.inj
  rw [treePairs_cons_cons, treePairs_cons_cons] at hinj
  refine ⟨?_, ?_, ?_⟩
  · intro p hp q hq
    exact hinj p (List.mem_cons_of_mem _ (List.mem_append_right _ hp)) q
      (List.mem_cons_of_mem _ (List.mem_append_right _ hq))
  · intro q hq a ha
    rw [merkleLevel, levelPairs, List.map_cons, List.head?_cons, Option.mem_some_iff] at ha
    exact ha ▸ hleft q hq
  · intro q hq a ha
    rw [merkleLevel, levelPairs, List.map_cons, List.head?_cons, Option.mem_some_iff] at ha
    exact ha ▸ hright q hq

/-- The root of one leaf is that leaf. -/
private theorem merkleLoop_single [DecidableEq α] {node : α → α → α} {x : α} {mutation : Bool}
    (h : (merkleLoop node n [x] mutation).1 = [r]) : x = r := by
  cases n with
  | zero => simpa [merkleLoop] using h
  | succ n => simpa [merkleLoop] using h

/-- Two leaf lists with one root, when what they hash tells them apart, have the same first leaf.
If neither is reported as mutated they are equal. The induction is on the levels: one pair of the
first list and one of the second have the same node. -/
theorem eq_of_merkleLoop_eq [DecidableEq α] {node : α → α → α} :
    ∀ {n m : Nat} {xs ys : List α} {mx my : Bool}, xs.length ≤ n → ys.length ≤ m → xs ≠ [] →
      ys ≠ [] → TreesApart node n m xs ys → (merkleLoop node n xs mx).1 = [r] →
      (merkleLoop node m ys my).1 = [r] → xs.head? = ys.head? ∧
        ((merkleLoop node n xs mx).2 = false → (merkleLoop node m ys my).2 = false → xs = ys) := by
  intro n
  induction n with
  | zero =>
    intro m xs ys mx my hn _ hx
    exact absurd (List.length_eq_zero_iff.mp (Nat.le_zero.mp hn)) hx
  | succ n ih =>
    intro m xs ys mx my hn hm hx hy hap hrx hry
    match xs, ys, m with
    | [x], [y], _ =>
      rw [merkleLoop_single hrx, merkleLoop_single hry]
      exact ⟨rfl, fun _ _ => rfl⟩
    -- A single leaf is the root, and the root of the longer list is one of its nodes.
    | [x], y :: y' :: ys, _ =>
      obtain ⟨q, hq, he⟩ := merkleLoop_root_node node (by simp) hry
      exact absurd (he.trans (merkleLoop_single hrx).symm) (hap.left q hq x rfl)
    | x :: x' :: xs, [y], _ =>
      obtain ⟨q, hq, he⟩ := merkleLoop_root_node node (by simp) hrx
      exact absurd (he.trans (merkleLoop_single hry).symm) (hap.right q hq y rfl)
    | x :: x' :: xs, y :: y' :: ys, 0 => simp at hm
    | x :: x' :: xs, y :: y' :: ys, m + 1 =>
      have hxlen : ¬ (x :: x' :: xs).length ≤ 1 := by simp
      have hylen : ¬ (y :: y' :: ys).length ≤ 1 := by simp
      rw [merkleLoop, if_neg hxlen] at hrx ⊢
      rw [merkleLoop, if_neg hylen] at hry ⊢
      have hinj := hap.inj
      rw [treePairs, if_neg hxlen, treePairs, if_neg hylen] at hinj
      obtain ⟨hnode, hlevel⟩ := ih (by simp at hn ⊢; omega) (by simp at hm ⊢; omega)
        (by simp [merkleLevel, levelPairs]) (by simp [merkleLevel, levelPairs]) hap.next hrx hry
      constructor
      · have hpair : (x, x') = (y, y') :=
          hinj (x, x') (by simp [levelPairs]) (y, y') (by simp [levelPairs]) (Option.some.inj hnode)
        rw [List.head?_cons, List.head?_cons, (Prod.mk.inj hpair).1]
      · intro hmx hmy
        have hpairs : levelPairs (x :: x' :: xs) = levelPairs (y :: y' :: ys) :=
          eq_of_map_eq_map (fun p hp q hq => hinj p (List.mem_append_left _ hp) q
            (List.mem_append_left _ hq)) (hlevel hmx hmy)
        have hx := (Bool.or_eq_false_iff.mp (merkleLoop_mutation node _ _ _ hmx)).2
        have hy := (Bool.or_eq_false_iff.mp (merkleLoop_mutation node _ _ _ hmy)).2
        exact eq_of_levelPairs_eq hpairs hx hy

/-! ### Trees of one shape -/

/-- Equally long levels are determined by their pairs. -/
theorem eq_of_levelPairs_eq_of_length :
    ∀ {xs ys : List α}, xs.length = ys.length → levelPairs xs = levelPairs ys → xs = ys
  | [], [], _, _ => rfl
  | [a], [b], _, h => by
    simp only [levelPairs, List.cons.injEq, Prod.mk.injEq, and_true] at h
    rw [h.1]
  | a :: b :: xs, c :: d :: ys, hlen, h => by
    simp only [levelPairs, List.cons.injEq, Prod.mk.injEq] at h
    have hlen' : xs.length = ys.length := by simpa using hlen
    rw [h.1.1, h.1.2, eq_of_levelPairs_eq_of_length hlen' h.2]
  | [], _ :: _, hlen, _ => by simp at hlen
  | _ :: _, [], hlen, _ => by simp at hlen
  | [_], _ :: _ :: _, hlen, _ => by simp at hlen
  | _ :: _ :: _, [_], hlen, _ => by simp at hlen

/-- Equally many leaves with one root are equal, mutated or not. -/
theorem eq_of_merkleLoop_eq_of_length [DecidableEq α] {node : α → α → α} :
    ∀ {n : Nat} {xs ys : List α} {m m' : Bool}, xs.length = ys.length →
      (∀ p ∈ treePairs node n xs, ∀ q ∈ treePairs node n ys,
        node p.1 p.2 = node q.1 q.2 → p = q) →
      (merkleLoop node n xs m).1 = (merkleLoop node n ys m').1 → xs = ys := by
  intro n
  induction n with
  | zero => intro xs ys m m' _ _ h; exact h
  | succ n ih =>
    intro xs ys m m' hlen hinj h
    simp only [merkleLoop, treePairs, ← hlen] at h hinj
    split at h
    · exact h
    rename_i hlong
    simp only [hlong, if_false, List.mem_append] at hinj
    have hlevel : merkleLevel node xs = merkleLevel node ys := by
      refine ih (by simp [hlen]) (fun p hp q hq => hinj p (.inr hp) q (.inr hq)) h
    have hpairs : levelPairs xs = levelPairs ys :=
      eq_of_map_eq_map (fun p hp q hq => hinj p (.inl hp) q (.inl hq)) hlevel
    exact eq_of_levelPairs_eq_of_length hlen hpairs

end AssentianPQE.Lib
