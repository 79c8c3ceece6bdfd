import Mathlib.Data.List.TakeWhile
import AssentianPQE.Script.Interpreter

/-!
# The chunks of a signature on the stack

`OP_XMSS_CHECKSIG` counts chunks from the top until one of three things stops it: nine chunks,
an item that is no chunk, or the byte cap. Below the cap it takes the whole `chunkRun`
(`countChunks_spec`).

`execXmssCheckSig_chunks` is the case of a spend in the standard form: if the opcode succeeds
on a stack of nothing but at most nine chunks, then the signature is all of them.
-/

set_option autoImplicit false

namespace AssentianPQE

open Lib List Except

/-- The total length of some items. -/
def totalLength (items : List Bytes) : Nat :=
  (items.map List.length).sum

/-- The run of chunks at the top of a stack: at most nine items, up to the first one that is
empty or longer than 520 bytes. -/
def chunkRun (below : List Bytes) : List Bytes :=
  (below.take XMSS_MAX_CHUNKS).takeWhile isChunk

theorem length_reassemble (below : List Bytes) (n : Nat) :
    (reassemble below n).length = totalLength (below.take n) := by
  simp [reassemble, totalLength, length_flatten]

/-- Below the byte cap the opcode takes the whole run; otherwise it takes at least the cap. -/
theorem countChunks_spec :
    ∀ (items : List Bytes) (n total : Nat),
      (total + totalLength ((items.take n).takeWhile isChunk) < XMSS_MAX_SIG_BYTES →
        items.take (countChunks items n total) = (items.take n).takeWhile isChunk) ∧
      (total < XMSS_MAX_SIG_BYTES →
        XMSS_MAX_SIG_BYTES ≤ total + totalLength ((items.take n).takeWhile isChunk) →
        XMSS_MAX_SIG_BYTES ≤ total + totalLength (items.take (countChunks items n total))) := by
  intro items
  induction items with
  | nil =>
    intro n total
    cases n <;> simp [countChunks, totalLength]
  | cons item rest ih =>
    intro n total
    cases n with
    | zero => simp [countChunks, totalLength]
    | succ n =>
      by_cases hchunk : isChunk item = true
      · simp only [countChunks, hchunk, Bool.not_true, Bool.false_eq_true, if_false,
          take_succ_cons, takeWhile_cons, if_true]
        by_cases hcap : XMSS_MAX_SIG_BYTES ≤ total + item.length
        · -- The cap is reached with this chunk, so the loop stops after it.
          rw [if_pos hcap]
          simp only [totalLength, map_cons, sum_cons, take_succ_cons, take_zero,
            map_nil, sum_nil]
          omega
        · rw [if_neg hcap]
          obtain ⟨hbelow, habove⟩ := ih n (total + item.length)
          simp only [totalLength, map_cons, sum_cons, take_succ_cons,
            ← Nat.add_assoc] at hbelow habove ⊢
          refine ⟨fun h => by rw [hbelow h], fun _ h => ?_⟩
          exact habove (by omega) h
      · simp [countChunks, hchunk, totalLength]

/-- Chunks on top of a stack are counted first, and then the count goes on below them, as long
as neither cap is reached. -/
theorem countChunks_append {items below : List Bytes} (hchunks : ∀ item ∈ items, isChunk item = true) :
    ∀ {n total : Nat}, items.length ≤ n → (total + totalLength items < XMSS_MAX_SIG_BYTES ∨
      (below = [] ∧ total + totalLength items ≤ XMSS_MAX_SIG_BYTES)) →
      countChunks (items ++ below) n total =
        items.length + countChunks below (n - items.length) (total + totalLength items) := by
  induction items with
  | nil =>
    intro n total _ _
    simp [totalLength]
  | cons item items ih =>
    intro n total hcount hcap
    obtain ⟨hitem, hitems⟩ := forall_mem_cons.mp hchunks
    have htotal : totalLength (item :: items) = item.length + totalLength items := by
      simp [totalLength]
    rw [length_cons] at hcount
    rw [htotal, ← Nat.add_assoc] at hcap ⊢
    obtain ⟨n, rfl⟩ : ∃ k, n = k + 1 := ⟨n - 1, by omega⟩
    simp only [cons_append, countChunks, hitem, Bool.not_true, Bool.false_eq_true, if_false]
    split
    next hreached =>
      -- The cap is reached with this chunk: no further one fits, since a chunk is not empty.
      obtain hlt | ⟨rfl, hle⟩ := hcap
      · omega
      cases items with
      | nil => cases n <;> simp [countChunks]
      | cons next items =>
        have hnext := hitems next mem_cons_self
        simp only [isChunk, decide_eq_true_eq] at hnext
        simp only [totalLength, map_cons, sum_cons] at hle
        omega
    next =>
      rw [ih hitems (by omega) hcap, length_cons, Nat.add_sub_add_right]
      omega

/-- A chunk has at most 520 bytes, so a run of nine is short. -/
theorem totalLength_take_le (below : List Bytes) (n total : Nat) :
    totalLength (below.take (countChunks below n total)) ≤ n * 520 := by
  induction n generalizing below total with
  | zero => simp [countChunks, totalLength]
  | succ n ih =>
    cases below with
    | nil => simp [totalLength]
    | cons item rest =>
      simp only [countChunks]
      split
      · simp [totalLength]
      rename_i hchunk
      have hsize : item.length ≤ 520 := by
        simp only [isChunk, Bool.not_eq_true', decide_eq_false_iff_not, not_not] at hchunk
        exact hchunk.2
      split
      · simp only [totalLength, take_succ_cons, take_zero, map_cons, map_nil,
          sum_cons, sum_nil]
        omega
      · have hrest := ih rest (total + item.length)
        simp only [totalLength, take_succ_cons, map_cons, sum_cons] at hrest ⊢
        omega

/-! ### Stacks of chunks -/

theorem castToBool_boolBytes (b : Bool) : castToBool (boolBytes b) = b := by
  cases b <;> decide

variable {below : List Bytes}

/-- A stack with at most nine chunks is one run. -/
theorem chunkRun_eq_self (hchunks : ∀ item ∈ below, isChunk item = true)
    (hcount : below.length ≤ XMSS_MAX_CHUNKS) : chunkRun below = below := by
  unfold chunkRun
  rw [take_of_length_le hcount, takeWhile_eq_self_iff.mpr hchunks]

variable {ctx : EvalContext} {rest : List Bytes}

/-- If the opcode leaves true, then it has verified what the chunks add up to, under the key on
the top of the stack. -/
theorem execXmssCheckSig_verified {m m' : Machine} {pk : Bytes} (hstack : m.stack = pk :: below)
    (h : (execXmssCheckSig ctx m false).result = .ok m') {top : Bytes}
    (htop : m'.stack = top :: rest) (htrue : castToBool top = true) :
    pk.length = 64 ∧ ∃ sig, sig = reassemble below (countChunks below XMSS_MAX_CHUNKS 0) ∧
      ctx.checker.checkXMSSSignature sig pk m.codeHash ctx.sigversion = true ∧
      (execXmssCheckSig ctx m false).uses =
        if 4 ≤ sig.length then [(pk, leafIndexOf sig)] else [] := by
  unfold execXmssCheckSig at h ⊢
  rw [hstack] at h ⊢
  cases below with
  | nil => cases h
  | cons item items =>
    -- With a key of another size, or without a chunk, the opcode leaves false.
    have hnot : ∀ {s : List Bytes}, m' ≠ m.withStack (boolBytes false :: s) := by
      rintro s rfl
      obtain ⟨hfalse, -⟩ := List.cons.inj htop
      rw [← hfalse, castToBool_boolBytes] at htrue
      cases htrue
    simp only at h ⊢
    split at h
    · exact absurd (ok.inj h).symm hnot
    rename_i hpk
    rw [if_neg hpk]
    refine ⟨not_not.mp hpk, _, rfl, ?_⟩
    split at h
    · exact absurd (ok.inj h).symm hnot
    rename_i hpos
    rw [if_neg hpos]
    have hok : ctx.checker.checkXMSSSignature
        (reassemble (item :: items) (countChunks (item :: items) XMSS_MAX_CHUNKS 0)) pk
        m.codeHash ctx.sigversion = true := by
      rw [← ok.inj h] at htop
      obtain ⟨hresult, -⟩ := List.cons.inj htop
      rwa [← hresult, castToBool_boolBytes] at htrue
    refine ⟨hok, ?_⟩
    simp only [hok, true_and]

/-- If the opcode leaves true on a stack of at most nine chunks, then it has verified all of
them as the signature and recorded its leaf. -/
theorem execXmssCheckSig_chunks {m m' : Machine} {pk : Bytes} (hstack : m.stack = pk :: below)
    (hchunks : ∀ item ∈ below, isChunk item = true) (hcount : below.length ≤ XMSS_MAX_CHUNKS)
    (hlen : ∀ sig, ctx.checker.checkXMSSSignature sig pk m.codeHash ctx.sigversion = true →
      sig.length = XMSS_SIG_BYTES) (h : (execXmssCheckSig ctx m false).result = .ok m')
    {top : Bytes} (htop : m'.stack = top :: rest) (htrue : castToBool top = true) :
    pk.length = 64 ∧ below.reverse.flatten.length = XMSS_SIG_BYTES ∧
      (execXmssCheckSig ctx m false).uses = [(pk, leafIndexOf below.reverse.flatten)] := by
  have hcap : XMSS_MAX_SIG_BYTES = 4096 := rfl
  have hsize : XMSS_SIG_BYTES = 2500 := rfl
  obtain ⟨hwhole, hover⟩ := countChunks_spec below XMSS_MAX_CHUNKS 0
  simp only [Nat.zero_add] at hwhole hover
  rw [show (below.take XMSS_MAX_CHUNKS).takeWhile isChunk = below from
    chunkRun_eq_self hchunks hcount] at hwhole hover
  obtain ⟨hpk, sig, hsig, hok, huses⟩ := execXmssCheckSig_verified hstack h htop htrue
  have hlength := hlen sig hok
  -- A verified signature is shorter than the cap, so it has all chunks.
  have htake : below.take (countChunks below XMSS_MAX_CHUNKS 0) = below := by
    by_cases hlt : totalLength below < XMSS_MAX_SIG_BYTES
    · exact hwhole hlt
    · have hge := hover (by decide) (Nat.not_lt.mp hlt)
      rw [hsig, length_reassemble] at hlength
      omega
  rw [reassemble, htake] at hsig
  rw [hsig] at huses hlength
  refine ⟨hpk, hlength, ?_⟩
  rw [huses, if_pos (by omega)]

end AssentianPQE
