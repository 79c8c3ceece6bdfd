import AssentianPQE.Proofs.XmssOwnership

/-!
# `AssentianPQE.Proofs.TemplateSpends`: spends that `SignStep` makes are accepted

The other direction of `ScriptRuns` and `StaticLeaf`: there a spend that succeeds is taken apart,
here a spend is shown to succeed.

* `evalScript_pushAll`: a script of `PushAll` leaves its items, under the rule of minimal pushes.
* `evalScript_templates`: for a signature of up to 4096 bytes, the solution of `SignStep` makes the
  template ask the checker about that signature and that key.
* `execXmssCheckSig_frame_iff`: the opcode leaves what is below the chunks alone exactly when the
  first item there is no chunk itself.
* `verifyScript_xmssTemplate`, `verifyScript_xmssHashTemplate`: a signature that the checker
  accepts, in the chunks of `SignStep`, satisfies the two templates under the standard flags.
-/

set_option autoImplicit false

namespace AssentianPQE

open Lib List Captured

/-! ### One operation -/

variable {item : Bytes} {stack : List Bytes} {script : Script}

section Forward
variable {ctx : EvalContext} {m : Machine}

theorem Captured.bind_result {α β : Type} {x : Captured α} {a : α} (h : x.result = .ok a)
    (f : α → Captured β) : (x >>= f).result = (f a).result := by
  rw [bind_ok h]

/-- An operation that pushes an item in the shortest form: with the item as its data, or with an
opcode for a small number. -/
def IsPush (item : Bytes) (op : ScriptOp) : Prop :=
  op.data.length ≤ MAX_SCRIPT_ELEMENT_SIZE ∧
    ((op.opcode ≤ OP_PUSHDATA4 ∧ op.data = item ∧ checkMinimalPush item op.opcode = true) ∨
      (Opcode.ofByte op.opcode = .pushNum ∧ OP_PUSHDATA4 < op.opcode ∧ op.opcode ≤ OP_16 ∧
        serializeNum (op.opcode.toNat - 0x50 : Int) = item))

theorem IsPush.opcode_le {op : ScriptOp} (h : IsPush item op) : op.opcode ≤ OP_16 := by
  obtain ⟨-, ⟨hop, -, -⟩ | ⟨-, -, hop, -⟩⟩ := h
  · exact UInt8.le_trans hop (by decide)
  · exact hop

/-- A push of the shortest form, on a stack that has room for it. -/
theorem evalOp_push_ok {item : Bytes} {op : ScriptOp} (hpush : IsPush item op)
    (hexec : m.vfExec.allTrue = true)
    (hroom : m.stack.length + m.altstack.length < MAX_STACK_SIZE) :
    (evalOp ctx m op).result =
      .ok { m with stack := item :: m.stack, opcodePos := m.opcodePos + 1 } := by
  have hle : op.opcode.toNat ≤ 96 := hpush.opcode_le
  have hcheck : checkOp ctx m op = .ok m.nOpCount := by
    have hpushOnly : ¬ OP_16 < op.opcode := UInt8.not_lt.mpr hpush.opcode_le
    have hdisabled : isDisabledOpcode op.opcode = false := by
      unfold isDisabledOpcode
      dsimp only
      rw [decide_eq_false_iff_not]
      omega
    have hseparator : op.opcode ≠ OP_CODESEPARATOR := by
      intro heq
      rw [heq] at hle
      exact absurd hle (by decide)
    unfold checkOp
    simp [hpushOnly, hdisabled, hseparator, Nat.not_lt.mpr hpush.1]
  have hexecOp : (execOp ctx m op).result = .ok (m.withStack (item :: m.stack)) := by
    obtain ⟨-, ⟨hop, hdata, hminimal⟩ | ⟨hnum, hop, -, hitem⟩⟩ := hpush
    · unfold execOp execPush
      simp [hexec, hop, hdata, hminimal]
    · unfold execOp execOpcode
      simp only [hexec, UInt8.not_le.mpr hop, and_false, if_false, true_or, if_true, hnum]
      rw [← hitem]
      rfl
  have hlimit : ¬ MAX_STACK_SIZE < m.stack.length + 1 + m.altstack.length := by omega
  unfold evalOp
  rw [bind_result (a := m.nOpCount) hcheck, bind_result hexecOp]
  show finishOp (m.withStack (item :: m.stack)) = _
  exact if_neg hlimit

/-- An opcode above `OP_16` that succeeds, with an operation count below the limit. -/
theorem evalOp_opcode_ok {opcode : UInt8} {rest : Script} {m₁ : Machine}
    (hop : OP_16 < opcode ∧ isDisabledOpcode opcode = false ∧ opcode ≠ OP_CODESEPARATOR)
    (hexec : m.vfExec.allTrue = true) (hcount : m.nOpCount < MAX_OPS_PER_SCRIPT)
    (hlimit : ctx.hasOpLimit = true)
    (hrun : (execOpcode ctx { m with nOpCount := m.nOpCount + 1 } true ⟨opcode, [], rest⟩).result =
      .ok m₁)
    (hroom : m₁.stack.length + m₁.altstack.length ≤ MAX_STACK_SIZE) :
    (evalOp ctx m ⟨opcode, [], rest⟩).result = .ok { m₁ with opcodePos := m₁.opcodePos + 1 } := by
  obtain ⟨hlow, hdisabled, hseparator⟩ := hop
  have hpush : ¬ opcode ≤ OP_PUSHDATA4 := by
    rw [UInt8.not_le]
    exact UInt8.lt_of_le_of_lt (by decide) hlow
  have hcheck : checkOp ctx m ⟨opcode, [], rest⟩ = .ok (m.nOpCount + 1) := by
    have hle : ¬ MAX_OPS_PER_SCRIPT < m.nOpCount + 1 := by omega
    unfold checkOp
    simp [hlow, hlimit, hdisabled, hseparator, hle]
  have hexecOp : (execOp ctx { m with nOpCount := m.nOpCount + 1 } ⟨opcode, [], rest⟩).result =
      .ok m₁ := by
    unfold execOp
    simp only [hexec, hpush, and_false, if_false, true_or, if_true]
    exact hrun
  unfold evalOp
  rw [bind_result (a := m.nOpCount + 1) hcheck, bind_result hexecOp]
  show finishOp m₁ = _
  rw [finishOp, if_neg (Nat.not_lt.mpr hroom)]

/-- A script that parses and closes its conditionals leaves the stack of its operations. -/
theorem evalScript_of_evalOps {exec : ExecData} {m' : Machine}
    (hsize : script.length ≤ MAX_SCRIPT_SIZE) (hparses : parses script = true)
    (hops : (evalOps ctx (ops script) { stack := stack, codeHash := script, exec :=
      { exec with codeseparatorPos := 0xffffffff } }).result = .ok m') (hvf : m'.vfExec = {}) :
    (evalScript ctx stack script exec).result = .ok m'.stack := by
  have hlimit : ¬ (ctx.hasOpLimit = true ∧ MAX_SCRIPT_SIZE < script.length) := by omega
  unfold evalScript
  rw [if_neg hlimit, bind_result hops, hparses]
  show (if ¬ m'.vfExec.size = 0 then _ else _ : Captured (List Bytes)).result = _
  rw [hvf]
  rfl

end Forward

/-! ### Scripts of pushes -/

theorem pushAll_cons (h : 2 ≤ item.length) (items : List Bytes) :
    pushAll (item :: items) = pushBytes item ++ pushAll items := by
  match item, h with
  | [], h => exact absurd h (by decide)
  | [b], h => exact absurd h (Nat.not_le.mpr Nat.one_lt_two)
  | _ :: _ :: _, _ => rfl

/-- A push with the item as its data is read back, in its shortest form unless the item is a small
number. -/
theorem getScriptOp_pushBytes_isPush (hsize : item.length ≤ MAX_SCRIPT_ELEMENT_SIZE)
    (hplain : ∀ b, item = [b] → ¬ (1 ≤ b ∧ b ≤ 16) ∧ b ≠ 0x81) (rest : Script) :
    ∃ op, getScriptOp (pushBytes item ++ rest) = some op ∧ op.rest = rest ∧ IsPush item op := by
  have hmax : MAX_SCRIPT_ELEMENT_SIZE = 520 := rfl
  obtain ⟨opcode, hop, hget⟩ := getScriptOp_pushBytes (b := item) (by omega) rest
  refine ⟨_, hget, rfl, hsize, .inl ⟨hop, rfl, ?_⟩⟩
  have hsmall : ¬ (item.length = 1 ∧ item.headD 0 ≥ 1 ∧ item.headD 0 ≤ 16) ∧
      ¬ (item.length = 1 ∧ item.headD 0 = 0x81) := by
    constructor
    · rintro ⟨hone, hb⟩
      obtain ⟨b, rfl⟩ := length_eq_one_iff.mp hone
      exact (hplain b rfl).1 hb
    · rintro ⟨hone, hb⟩
      obtain ⟨b, rfl⟩ := length_eq_one_iff.mp hone
      exact (hplain b rfl).2 hb
  unfold checkMinimalPush
  rw [if_neg hsmall.1, if_neg hsmall.2]
  unfold pushBytes at hget
  -- The opcode is the first byte of the push.
  split at hget
  next hlt =>
    have heq : opcode = UInt8.ofNat item.length := getScriptOp_opcode hget
    split
    next hzero =>
      rw [hzero] at heq
      exact decide_eq_true heq
    next =>
      rw [if_pos (by omega), heq, UInt8.toNat_ofNat', Nat.mod_eq_of_lt (by omega)]
      exact decide_eq_true rfl
  next hlt =>
    rw [if_neg (by omega), if_neg (by omega)]
    split at hget
    next hle =>
      have heq : opcode = OP_PUSHDATA1 := getScriptOp_opcode hget
      rw [if_pos hle]
      exact decide_eq_true heq
    next hle =>
      rw [if_pos (by omega)] at hget
      have heq : opcode = OP_PUSHDATA2 := getScriptOp_opcode hget
      rw [if_neg hle, if_pos (by omega)]
      exact decide_eq_true heq

/-- The opcodes for the numbers from 1 to 16. -/
theorem isPush_smallNumber {b : UInt8} (hb : 1 ≤ b ∧ b ≤ 16) (rest : Script) :
    IsPush [b] ⟨OP_1 + (b - 1), [], rest⟩ := by
  obtain ⟨n, ⟨hlow, hhigh⟩, rfl⟩ : ∃ n, (1 ≤ n ∧ n ≤ 16) ∧ b = UInt8.ofNat n :=
    ⟨b.toNat, hb, UInt8.ofNat_toNat.symm⟩
  have hop : Opcode.ofByte (OP_1 + (UInt8.ofNat n - 1)) = .pushNum ∧
      OP_PUSHDATA4 < OP_1 + (UInt8.ofNat n - 1) ∧ OP_1 + (UInt8.ofNat n - 1) ≤ OP_16 ∧
      serializeNum ((OP_1 + (UInt8.ofNat n - 1)).toNat - 0x50 : Int) = [UInt8.ofNat n] := by
    interval_cases n <;> exact ⟨rfl, by decide, by decide, by decide⟩
  exact ⟨Nat.zero_le _, .inr hop⟩

/-- `PushAll` writes a push of each item, in its shortest form. -/
theorem getScriptOp_pushAll (hsize : item.length ≤ MAX_SCRIPT_ELEMENT_SIZE) (items : List Bytes) :
    ∃ op, getScriptOp (pushAll (item :: items)) = some op ∧ op.rest = pushAll items ∧
      IsPush item op := by
  match item, hsize with
  | [], hsize => exact getScriptOp_pushBytes_isPush hsize nofun (pushAll items)
  | [b], hsize =>
    have hcons : pushAll ([b] :: items) = (if 1 ≤ b ∧ b ≤ 16 then [OP_1 + (b - 1)]
        else if b = 0x81 then [OP_1NEGATE] else pushBytes [b]) ++ pushAll items := rfl
    rw [hcons]
    split
    next hb =>
      have hpush := isPush_smallNumber hb (pushAll items)
      obtain ⟨-, ⟨-, hdata, -⟩ | ⟨-, hop, -, -⟩⟩ := hpush
      · cases hdata
      · exact ⟨_, if_neg (UInt8.not_le.mpr hop), rfl, isPush_smallNumber hb _⟩
    next hb =>
      split
      next hneg =>
        rw [hneg]
        have hop : OP_PUSHDATA4 < OP_1NEGATE ∧ OP_1NEGATE ≤ OP_16 ∧
            serializeNum (OP_1NEGATE.toNat - 0x50 : Int) = [0x81] := by decide
        exact ⟨⟨OP_1NEGATE, [], pushAll items⟩, rfl, rfl, Nat.zero_le _, .inr ⟨rfl, hop⟩⟩
      next hneg =>
        refine getScriptOp_pushBytes_isPush hsize (fun b' heq => ?_) (pushAll items)
        cases heq
        exact ⟨hb, hneg⟩
  | _ :: _ :: _, hsize => exact getScriptOp_pushBytes_isPush hsize nofun (pushAll items)

theorem evalOps_pushAll {ctx : EvalContext} {items : List Bytes}
    (hitems : ∀ item ∈ items, item.length ≤ MAX_SCRIPT_ELEMENT_SIZE) :
    parses (pushAll items) = true ∧ (∀ op ∈ ops (pushAll items), ∃ item, IsPush item op) ∧
      ∀ m : Machine, m.vfExec.allTrue = true →
        m.stack.length + m.altstack.length + items.length ≤ MAX_STACK_SIZE →
        ∃ m', (evalOps ctx (ops (pushAll items)) m).result = .ok m' ∧
          m'.stack = items.reverse ++ m.stack ∧ m'.vfExec = m.vfExec := by
  induction items with
  | nil => exact ⟨rfl, nofun, fun m _ _ => ⟨m, rfl, rfl, rfl⟩⟩
  | cons item items ih =>
    obtain ⟨hitem, htail⟩ := forall_mem_cons.mp hitems
    obtain ⟨hparses, hpushes, hrun⟩ := ih htail
    obtain ⟨op, hget, hnext, hpush⟩ := getScriptOp_pushAll hitem items
    obtain ⟨hops, hrest⟩ := ops_eq hget
    rw [hops, hrest, hnext]
    refine ⟨hparses, forall_mem_cons.mpr ⟨⟨item, hpush⟩, hpushes⟩, fun m hexec hroom => ?_⟩
    rw [length_cons] at hroom
    have hstep := @evalOp_push_ok ctx m item op hpush hexec (by omega)
    obtain ⟨m', hm', hstack, hvf⟩ :=
      hrun { m with stack := item :: m.stack, opcodePos := m.opcodePos + 1 } hexec
        (by show m.stack.length + 1 + m.altstack.length + items.length ≤ MAX_STACK_SIZE; omega)
    refine ⟨m', (bind_result hstep _).trans hm', ?_, hvf⟩
    rw [hstack, reverse_cons, append_assoc]
    rfl

/-- A script of `PushAll` leaves its items, the last one on top. -/
theorem evalScript_pushAll {ctx : EvalContext} {items : List Bytes} {exec : ExecData}
    (hitems : ∀ item ∈ items, item.length ≤ MAX_SCRIPT_ELEMENT_SIZE)
    (hcount : items.length ≤ MAX_STACK_SIZE) (hsize : (pushAll items).length ≤ MAX_SCRIPT_SIZE) :
    (evalScript ctx [] (pushAll items) exec).result = .ok items.reverse := by
  obtain ⟨hparses, -, hrun⟩ := @evalOps_pushAll ctx items hitems
  obtain ⟨m', hm', hstack, hvf⟩ := hrun
    { stack := [], codeHash := pushAll items,
      exec := { exec with codeseparatorPos := 0xffffffff } } rfl
    (by show 0 + 0 + items.length ≤ MAX_STACK_SIZE; omega)
  rw [evalScript_of_evalOps hsize hparses hm' hvf, hstack, append_nil]

/-- A push takes at most three bytes besides its item. -/
theorem length_pushAll_le {items : List Bytes}
    (hitems : ∀ item ∈ items, item.length ≤ MAX_SCRIPT_ELEMENT_SIZE) :
    (pushAll items).length ≤ totalLength items + 3 * items.length := by
  have hmax : MAX_SCRIPT_ELEMENT_SIZE = 520 := rfl
  have hpush {item : Bytes} (h : item.length ≤ MAX_SCRIPT_ELEMENT_SIZE) :
      (pushBytes item).length ≤ item.length + 3 := by
    unfold pushBytes
    split
    · simp
    · split
      · simp
      · rw [if_pos (by omega), length_cons, length_append, length_leBytes]
        omega
  induction items with
  | nil => simp [pushAll]
  | cons item items ih =>
    obtain ⟨hitem, htail⟩ := forall_mem_cons.mp hitems
    have hfirst : (pushAll (item :: items)).length ≤ item.length + 3 + (pushAll items).length := by
      match item, hitem with
      | [], _ => simp [pushAll, Nat.add_comm]
      | [b], hitem =>
        show ((if _ then _ else if _ then _ else pushBytes [b]) ++ pushAll items).length ≤ _
        rw [length_append]
        refine Nat.add_le_add_right ?_ _
        repeat' split
        · simp
        · simp
        · exact hpush hitem
      | x :: y :: rest, hitem =>
        rw [pushAll_cons (by simp), length_append]
        exact Nat.add_le_add_right (hpush hitem) _
    have hrest := ih htail
    simp only [totalLength, map_cons, sum_cons, length_cons] at hrest ⊢
    omega

/-! ### The chunks of a signature -/

section Chunks
variable {sig : Bytes}

theorem length_sigChunks : (sigChunks sig).length = (sig.length + 499) / 500 := by
  simp [sigChunks, XMSS_SIG_CHUNK_SIZE]

/-- Every chunk but the last has 500 bytes. -/
theorem length_of_mem_sigChunks :
    ∀ chunk ∈ sigChunks sig, ∃ i, 500 * i < sig.length ∧
      chunk.length = min 500 (sig.length - 500 * i) := by
  intro chunk hmem
  obtain ⟨i, hi, rfl⟩ := mem_map.mp hmem
  have hlt : i < (sig.length + 499) / 500 := mem_range.mp hi
  refine ⟨i, by omega, ?_⟩
  simp [XMSS_SIG_CHUNK_SIZE]

theorem flatten_sigChunks : (sigChunks sig).flatten = sig := by
  -- The first `n` chunks are the first `500 * n` bytes.
  have hfront (n : Nat) : ((List.range n).map fun i => (sig.drop (500 * i)).take 500).flatten =
      sig.take (500 * n) := by
    induction n with
    | zero => simp
    | succ n ih =>
      rw [range_succ, map_append, flatten_append, ih, Nat.mul_succ, take_add]
      simp
  unfold sigChunks XMSS_SIG_CHUNK_SIZE
  rw [hfront, take_of_length_le]
  omega

theorem isChunk_of_mem_sigChunks : ∀ chunk ∈ (sigChunks sig).reverse, isChunk chunk = true := by
  intro chunk hmem
  obtain ⟨i, hi, hlen⟩ := length_of_mem_sigChunks chunk (mem_reverse.mp hmem)
  rw [isChunk, decide_eq_true_eq]
  omega

theorem totalLength_sigChunks : totalLength (sigChunks sig) = sig.length := by
  rw [totalLength, ← length_flatten, flatten_sigChunks]

theorem totalLength_reverse_sigChunks : totalLength (sigChunks sig).reverse = sig.length := by
  rw [totalLength, map_reverse, sum_reverse]
  exact totalLength_sigChunks

/-- `OP_XMSS_CHECKSIG` on the chunks of a signature above other items: the chunks at the top of
these items count as the front of the signature. -/
theorem execXmssCheckSig_sigChunks {ctx : EvalContext} {m : Machine} {pk : Bytes}
    {below : List Bytes} (hpk : pk.length = 64) (hpos : 1 ≤ sig.length)
    (hcap : sig.length < XMSS_MAX_SIG_BYTES ∨ (below = [] ∧ sig.length ≤ XMSS_MAX_SIG_BYTES))
    (hstack : m.stack = pk :: ((sigChunks sig).reverse ++ below)) :
    ∃ k, k = countChunks below (XMSS_MAX_CHUNKS - (sigChunks sig).length) sig.length ∧
      (execXmssCheckSig ctx m false).result = .ok (m.withStack
        (boolBytes (ctx.checker.checkXMSSSignature (reassemble below k ++ sig) pk m.codeHash
          ctx.sigversion) :: below.drop k)) := by
  have hbytes : XMSS_MAX_SIG_BYTES = 4096 := rfl
  have hchunks : XMSS_MAX_CHUNKS = 9 := rfl
  have hlen := @length_sigChunks sig
  have hcount := @countChunks_append _ below (@isChunk_of_mem_sigChunks sig) XMSS_MAX_CHUNKS 0
    (by rw [length_reverse]; omega) (by rwa [totalLength_reverse_sigChunks, Nat.zero_add])
  rw [totalLength_reverse_sigChunks, length_reverse, Nat.zero_add] at hcount
  refine ⟨_, rfl, ?_⟩
  generalize countChunks below _ _ = k at hcount ⊢
  have hdrop : ((sigChunks sig).reverse ++ below).drop ((sigChunks sig).length + k) =
      below.drop k := by
    rw [← length_reverse, drop_append, drop_eq_nil_of_le (by omega)]
    simp
  have hsig : reassemble ((sigChunks sig).reverse ++ below) ((sigChunks sig).length + k) =
      reassemble below k ++ sig := by
    unfold reassemble
    rw [← length_reverse, take_append, take_of_length_le (by omega)]
    simp [flatten_sigChunks]
  generalize (sigChunks sig).reverse ++ below = items at hstack hcount hdrop hsig
  cases items with
  | nil =>
    simp only [countChunks, hchunks] at hcount
    omega
  | cons item rest =>
    unfold execXmssCheckSig
    rw [hstack]
    dsimp only
    rw [if_neg (not_not.mpr hpk), hcount, if_neg (by omega), hdrop, hsig]
    rfl

end Chunks

/-! ### The templates -/

theorem length_xmssTemplate_le {pubkey : Bytes} (hpk : pubkey.length = 64) :
    (xmssTemplate pubkey).length ≤ MAX_SCRIPT_SIZE := by
  simp [xmssTemplate, pushBytes, hpk, MAX_SCRIPT_SIZE]

theorem length_xmssHashTemplate_le {hash : Bytes} (hhash : hash.length = 20) :
    (xmssHashTemplate hash).length ≤ MAX_SCRIPT_SIZE := by
  simp [xmssHashTemplate, pushBytes, hhash, MAX_SCRIPT_SIZE]

section Templates
variable {ctx : EvalContext} {sig pk : Bytes}

/-- The end of both templates: the key is on top of the chunks. -/
theorem evalOps_checkSig {m : Machine} {rest : Script} (hlimit : ctx.hasOpLimit = true)
    (hpk : pk.length = 64) (hpos : 1 ≤ sig.length) (hcap : sig.length ≤ XMSS_MAX_SIG_BYTES)
    (hstack : m.stack = pk :: (sigChunks sig).reverse) (halt : m.altstack = [])
    (hvf : m.vfExec = {}) (hcount : m.nOpCount < MAX_OPS_PER_SCRIPT) :
    ∃ m', (evalOps ctx [⟨OP_XMSS_CHECKSIG, [], rest⟩] m).result = .ok m' ∧
      m'.stack = [boolBytes (ctx.checker.checkXMSSSignature sig pk m.codeHash ctx.sigversion)] ∧
      m'.vfExec = {} := by
  obtain ⟨k, hk, hrun⟩ := @execXmssCheckSig_sigChunks sig ctx { m with nOpCount := m.nOpCount + 1 } pk
    [] hpk hpos (.inr ⟨rfl, hcap⟩) (by rw [append_nil]; exact hstack)
  have hzero : k = 0 := by
    rw [hk]
    cases XMSS_MAX_CHUNKS - (sigChunks sig).length <;> rfl
  subst hzero
  have hroom : 1 + m.altstack.length ≤ MAX_STACK_SIZE := by
    rw [halt]
    decide
  have hop := @evalOp_opcode_ok ctx m OP_XMSS_CHECKSIG rest _ (by decide) (by rw [hvf]; rfl) hcount
    hlimit hrun hroom
  exact ⟨_, (bind_result hop _).trans rfl, rfl, hvf⟩

/-- A signature of at most 4096 bytes has at most nine chunks. -/
theorem length_sigChunks_le (hcap : sig.length ≤ XMSS_MAX_SIG_BYTES) :
    (sigChunks sig).reverse.length ≤ 9 := by
  have hbytes : XMSS_MAX_SIG_BYTES = 4096 := rfl
  rw [length_reverse, length_sigChunks]
  omega

theorem evalScript_xmssTemplate_ok {exec : ExecData} (hlimit : ctx.hasOpLimit = true)
    (hpk : pk.length = 64) (hpos : 1 ≤ sig.length) (hcap : sig.length ≤ XMSS_MAX_SIG_BYTES) :
    (evalScript ctx (sigChunks sig).reverse (xmssTemplate pk) exec).result = .ok [boolBytes
      (ctx.checker.checkXMSSSignature sig pk (xmssTemplate pk) ctx.sigversion)] := by
  let m : Machine :=
    { stack := (sigChunks sig).reverse, codeHash := xmssTemplate pk,
      exec := { exec with codeseparatorPos := 0xffffffff } }
  have hpush : IsPush pk ⟨64, pk, [OP_XMSS_CHECKSIG]⟩ := by
    refine ⟨hpk.trans_le (by decide), .inl ⟨(by decide : (64 : UInt8) ≤ OP_PUSHDATA4), rfl, ?_⟩⟩
    unfold checkMinimalPush
    rw [hpk]
    rfl
  have hroom : (sigChunks sig).reverse.length + 0 < MAX_STACK_SIZE :=
    Nat.lt_of_le_of_lt (length_sigChunks_le hcap) (by decide)
  have hpush := @evalOp_push_ok ctx m pk _ hpush rfl hroom
  obtain ⟨m', hm', hstack, hvf⟩ := @evalOps_checkSig ctx sig pk
    { m with stack := pk :: m.stack, opcodePos := m.opcodePos + 1 } [] hlimit hpk hpos hcap rfl rfl rfl
    (by decide : 0 < MAX_OPS_PER_SCRIPT)
  have hops : (evalOps ctx (ops (xmssTemplate pk)) m).result = .ok m' := by
    rw [(xmssTemplate_ops hpk).1]
    exact (bind_result hpush _).trans hm'
  rw [evalScript_of_evalOps (length_xmssTemplate_le hpk) (xmssTemplate_ops hpk).2 hops hvf, hstack]

/-- The part of a P2XMSSHASH script before its last opcode leaves the stack as it is, for the
right key. -/
theorem evalScript_xmssHashTemplate_ok {exec : ExecData} (hlimit : ctx.hasOpLimit = true)
    (hpk : pk.length = 64) (hpos : 1 ≤ sig.length) (hcap : sig.length ≤ XMSS_MAX_SIG_BYTES) :
    (evalScript ctx (pk :: (sigChunks sig).reverse)
      (xmssHashTemplate (ctx.crypto.hash160 pk).data) exec).result = .ok [boolBytes
        (ctx.checker.checkXMSSSignature sig pk (xmssHashTemplate (ctx.crypto.hash160 pk).data)
          ctx.sigversion)] := by
  generalize hhash : (ctx.crypto.hash160 pk).data = hash
  have hlen20 : hash.length = 20 := by
    rw [← hhash]
    exact Blob.length_data _
  have hlen := length_sigChunks_le hcap
  let m : Machine :=
    { stack := pk :: (sigChunks sig).reverse, codeHash := xmssHashTemplate hash,
      exec := { exec with codeseparatorPos := 0xffffffff } }
  let tail : Script := pushBytes hash ++ [OP_EQUALVERIFY, OP_XMSS_CHECKSIG]
  -- The stack never has more than twelve items.
  have hroom (n : Nat) (hn : n ≤ 3) :
      (sigChunks sig).reverse.length + n + 0 < MAX_STACK_SIZE := by
    have hmax : MAX_STACK_SIZE = 1000 := rfl
    omega
  have hdup := @evalOp_opcode_ok ctx m OP_DUP (OP_HASH160 :: tail)
    { m with nOpCount := 1, stack := pk :: pk :: (sigChunks sig).reverse } (by decide) rfl
    (by decide : 0 < MAX_OPS_PER_SCRIPT) hlimit rfl (hroom 2 (by decide)).le
  have hh160 := @evalOp_opcode_ok ctx
    { m with nOpCount := 1, stack := pk :: pk :: (sigChunks sig).reverse, opcodePos := 1 }
    OP_HASH160 tail
    { m with nOpCount := 2, stack := hash :: pk :: (sigChunks sig).reverse, opcodePos := 1 }
    (by decide) rfl (by decide : 1 < MAX_OPS_PER_SCRIPT) hlimit (by rw [← hhash]; rfl)
    (hroom 2 (by decide)).le
  have hpush : IsPush hash ⟨20, hash, [OP_EQUALVERIFY, OP_XMSS_CHECKSIG]⟩ := by
    refine ⟨hlen20.trans_le (by decide), .inl ⟨(by decide : (20 : UInt8) ≤ OP_PUSHDATA4), rfl, ?_⟩⟩
    unfold checkMinimalPush
    rw [hlen20]
    rfl
  have hpush := @evalOp_push_ok ctx
    { m with nOpCount := 2, stack := hash :: pk :: (sigChunks sig).reverse, opcodePos := 2 } hash _
    hpush rfl (hroom 2 (by decide))
  have hequal := @evalOp_opcode_ok ctx
    { m with nOpCount := 2, stack := hash :: hash :: pk :: (sigChunks sig).reverse, opcodePos := 3 }
    OP_EQUALVERIFY [OP_XMSS_CHECKSIG]
    { m with nOpCount := 3, opcodePos := 3 } (by decide) rfl (by decide : 2 < MAX_OPS_PER_SCRIPT)
    hlimit
    (by
      show pushResult _ _ true (decide (hash = hash)) _ = _
      rw [decide_eq_true rfl]
      rfl)
    (hroom 1 (by decide)).le
  obtain ⟨m', hm', hstack, hvf⟩ := @evalOps_checkSig ctx sig pk
    { m with nOpCount := 3, opcodePos := 4 } [] hlimit hpk hpos hcap rfl rfl rfl
    (by decide : 3 < MAX_OPS_PER_SCRIPT)
  have hops : (evalOps ctx (ops (xmssHashTemplate hash)) m).result = .ok m' := by
    rw [(xmssHashTemplate_ops hlen20).1]
    refine (bind_result hdup _).trans ((bind_result hh160 _).trans ?_)
    exact (bind_result hpush _).trans ((bind_result hequal _).trans hm')
  rw [evalScript_of_evalOps (length_xmssHashTemplate_le hlen20) (xmssHashTemplate_ops hlen20).2 hops
    hvf, hstack]

theorem length_le_of_mem_sigChunks :
    ∀ chunk ∈ sigChunks sig, chunk.length ≤ MAX_SCRIPT_ELEMENT_SIZE := by
  have hmax : MAX_SCRIPT_ELEMENT_SIZE = 520 := rfl
  intro chunk hmem
  obtain ⟨i, -, hlen⟩ := length_of_mem_sigChunks chunk hmem
  omega

/-- The items of a solution, with and without the key. -/
theorem evalScript_solution {exec : ExecData} (hcap : sig.length ≤ XMSS_MAX_SIG_BYTES)
    {keys : List Bytes} (hkeys : keys = [] ∨ (keys = [pk] ∧ pk.length = 64)) :
    (evalScript ctx [] (pushAll (sigChunks sig ++ keys)) exec).result =
        .ok (keys.reverse ++ (sigChunks sig).reverse) ∧
      ∀ op ∈ ops (pushAll (sigChunks sig ++ keys)), op.data.length ≤ MAX_SCRIPT_ELEMENT_SIZE ∧
        (op.opcode ≤ OP_PUSHDATA4 → checkMinimalPush op.data op.opcode = true) := by
  have hmax : MAX_SCRIPT_ELEMENT_SIZE = 520 ∧ MAX_SCRIPT_SIZE = 10000 ∧ MAX_STACK_SIZE = 1000 ∧
    XMSS_MAX_SIG_BYTES = 4096 := ⟨rfl, rfl, rfl, rfl⟩
  have hkeyItems : (∀ item ∈ keys, item.length ≤ MAX_SCRIPT_ELEMENT_SIZE) ∧ keys.length ≤ 1 ∧
      totalLength keys ≤ 64 := by
    obtain rfl | ⟨rfl, hpk⟩ := hkeys
    · simp [totalLength]
    · simp [totalLength, hpk, hmax]
  have hitems : ∀ item ∈ sigChunks sig ++ keys, item.length ≤ MAX_SCRIPT_ELEMENT_SIZE :=
    forall_mem_append.mpr ⟨length_le_of_mem_sigChunks, hkeyItems.1⟩
  have hlen := length_sigChunks_le hcap
  rw [length_reverse] at hlen
  have hcount : (sigChunks sig ++ keys).length ≤ 10 := by
    rw [length_append]
    omega
  have hsize := length_pushAll_le hitems
  have htotal : totalLength (sigChunks sig ++ keys) = sig.length + totalLength keys := by
    rw [← totalLength_sigChunks]
    simp [totalLength]
  have hrun := @evalScript_pushAll ctx _ exec hitems (by omega) (by omega)
  rw [reverse_append] at hrun
  refine ⟨hrun, fun op hop => ?_⟩
  obtain ⟨item, hdata, ⟨-, rfl, hminimal⟩ | ⟨-, hnum, -, -⟩⟩ :=
    (@evalOps_pushAll ctx _ hitems).2.1 op hop
  · exact ⟨hdata, fun _ => hminimal⟩
  · exact ⟨hdata, fun hle => absurd hle (UInt8.not_le.mpr hnum)⟩

end Templates

/-- `OP_XMSS_CHECKSIG` on the chunks of a signature above other items verifies that signature and
leaves the other items exactly when the first of them is no chunk. -/
theorem execXmssCheckSig_frame_iff (ctx : EvalContext) (m : Machine) {sig pk : Bytes}
    {below : List Bytes} (rest : Script) (hsig : sig.length = XMSS_SIG_BYTES)
    (hpk : pk.length = 64) (hstack : m.stack = pk :: ((sigChunks sig).reverse ++ below)) :
    (execOpcode ctx m true ⟨OP_XMSS_CHECKSIG, [], rest⟩).result = .ok (m.withStack
        (boolBytes (ctx.checker.checkXMSSSignature sig pk m.codeHash ctx.sigversion) :: below)) ↔
      ∀ item ∈ below.head?, isChunk item = false := by
  have hbytes : XMSS_SIG_BYTES = 2500 ∧ XMSS_MAX_SIG_BYTES = 4096 := ⟨rfl, rfl⟩
  obtain ⟨k, hk, hrun⟩ :=
    @execXmssCheckSig_sigChunks sig ctx m pk below hpk (by omega) (.inl (by omega)) hstack
  have hlen : (sigChunks sig).length = 5 := by
    rw [length_sigChunks, hsig]
    rfl
  rw [hlen] at hk
  -- Without a further chunk nothing below is taken, and otherwise at least one item is.
  have hzero : k = 0 ↔ ∀ item ∈ below.head?, isChunk item = false := by
    rw [hk]
    cases below with
    | nil => simp [countChunks, XMSS_MAX_CHUNKS, XMSS_MAX_SIG_BYTES, XMSS_SIG_CHUNK_SIZE]
    | cons item items =>
      show countChunks (item :: items) (3 + 1) sig.length = 0 ↔ _
      cases hitem : isChunk item
      · simp [countChunks, hitem]
      · simp only [countChunks, hitem]
        simp only [Bool.not_true, Bool.false_eq_true, if_false, head?_cons, Option.mem_some_iff,
          forall_eq', hitem, Bool.true_eq_false, iff_false]
        split <;> simp
  rw [← hzero]
  show (execXmssCheckSig ctx m false).result = _ ↔ _
  rw [hrun]
  constructor
  · intro h
    have hstacks := congrArg (List.length ∘ Machine.stack) (Except.ok.inj h)
    simp only [Function.comp_apply, Machine.withStack, length_cons, length_drop] at hstacks
    by_contra hne
    have hpos : below = [] := length_eq_zero_iff.mp (by omega)
    rw [hpos] at hk
    exact hne (hk.trans rfl)
  · rintro rfl
    rfl

/-- A signature, and the checker that accepts just this one. -/
def onlySig : Bytes := List.replicate XMSS_SIG_BYTES 7

def onlySigContext : EvalContext :=
  ⟨sampleCrypto, {}, { rejectAll with checkXMSSSignature := fun sig _ _ _ => sig = onlySig }, .base⟩

/-- The chunks of the signature and its key, above other items. -/
def onlySigMachine (below : List Bytes) : Machine where
  stack := List.replicate 64 5 :: ((sigChunks onlySig).reverse ++ below)
  codeHash := []
  exec := {}

/-- Above an empty item the signature is accepted, and the item stays. -/
theorem onlySig_above_empty :
    (execOpcode onlySigContext (onlySigMachine [[]]) true ⟨OP_XMSS_CHECKSIG, [], []⟩).result =
      .ok ((onlySigMachine [[]]).withStack [boolBytes true, []]) := by
  have haccept : onlySigContext.checker.checkXMSSSignature onlySig (List.replicate 64 5) [] .base =
      true := by decide +kernel
  have h := @execXmssCheckSig_frame_iff onlySigContext (onlySigMachine [[]]) onlySig
    (List.replicate 64 5) [[]] [] length_replicate length_replicate rfl
  rw [show (onlySigMachine [[]]).codeHash = [] from rfl, show onlySigContext.sigversion = .base from rfl,
    haccept] at h
  exact h.mpr (by decide)

/-- Above the true that an earlier check has left, the accepted signature is refused: that item
is taken as its first chunk, and is gone. -/
theorem onlySig_above_true :
    onlySigContext.checker.checkXMSSSignature onlySig (List.replicate 64 5) [] .base = true ∧
      (execOpcode onlySigContext (onlySigMachine [boolBytes true]) true
        ⟨OP_XMSS_CHECKSIG, [], []⟩).result =
        .ok ((onlySigMachine []).withStack [boolBytes false]) := by
  decide +kernel

/-! ### Spends -/

section Spends
variable {c : Crypto} {checker : SignatureChecker} {sig pk : Bytes}

/-- A spend without a witness, of an output that is neither P2SH nor a witness program. -/
theorem verifyScript_of_evalScript {scriptSig : Script}
    (hsig : (evalScript ⟨c, standardScriptVerifyFlags, checker, .base⟩ [] scriptSig {}).result =
      .ok stack)
    (hscript : (evalScript ⟨c, standardScriptVerifyFlags, checker, .base⟩ stack script {}).result =
      .ok [boolBytes true]) (hp2sh : isPayToScriptHash script = false)
    (hwit : isWitnessProgram script = none) :
    (verifyScript c standardScriptVerifyFlags checker scriptSig script []).result = .ok () := by
  have hbare : (verifyBareWitness c standardScriptVerifyFlags checker scriptSig script []).result =
      .ok false := by
    unfold verifyBareWitness
    rw [hwit]
    rfl
  have hredeem : (verifyRedeem c standardScriptVerifyFlags checker scriptSig script [] stack
      [boolBytes true] false).result = .ok ([boolBytes true], false) := by
    unfold verifyRedeem
    rw [hp2sh]
    rfl
  have htrue : (requireTrue [boolBytes true]).result = .ok () := rfl
  have hpushOnly : ¬ (standardScriptVerifyFlags.sigPushOnly = true ∧
      (!isPushOnly scriptSig) = true) := fun h => absurd h.1 (by decide)
  unfold verifyScript
  rw [if_neg hpushOnly, bind_result hsig, bind_result hscript,
    bind_result htrue, bind_result hbare, bind_result hredeem]
  rfl

/-- A push of a chunk takes three bytes more. -/
theorem length_pushAll_sigChunks (hsig : sig.length = XMSS_SIG_BYTES) (items : List Bytes) :
    (pushAll (sigChunks sig ++ items)).length = 2515 + (pushAll items).length := by
  have hbytes : XMSS_SIG_BYTES = 2500 := rfl
  have hpush {chunk : Bytes} (h : chunk.length = 500) : (pushBytes chunk).length = 503 := by
    simp [pushBytes, h, length_leBytes]
  have hlength : ∀ chunks : List Bytes, (∀ chunk ∈ chunks, chunk.length = 500) →
      (pushAll (chunks ++ items)).length = 503 * chunks.length + (pushAll items).length := by
    intro chunks
    induction chunks with
    | nil =>
      intro _
      simp
    | cons chunk chunks ih =>
      intro hchunks
      have hchunk := hchunks chunk mem_cons_self
      rw [cons_append, pushAll_cons (by omega), length_append, hpush hchunk,
        ih fun i hi => hchunks i (mem_cons_of_mem _ hi), length_cons]
      omega
  have hall : ∀ chunk ∈ sigChunks sig, chunk.length = 500 := by
    intro chunk hmem
    obtain ⟨i, hi, hlen⟩ := length_of_mem_sigChunks chunk hmem
    omega
  rw [hlength _ hall, length_sigChunks, hsig, hbytes]

theorem length_pushAll_key (hpk : pk.length = 64) : (pushAll [pk]).length = 65 := by
  rw [pushAll_cons (by omega), length_append, pushBytes, if_pos (by omega), length_cons,
    hpk]
  rfl

/-- **P2XMSS.** The solution of `SignStep` for a signature that the checker accepts. -/
theorem verifyScript_xmssTemplate (hpk : pk.length = 64) (hsig : sig.length = XMSS_SIG_BYTES)
    (haccept : checker.checkXMSSSignature sig pk (xmssTemplate pk) .base = true) :
    (verifyScript c standardScriptVerifyFlags checker (pushAll (sigChunks sig)) (xmssTemplate pk)
      []).result = .ok () := by
  have hbytes : XMSS_SIG_BYTES = 2500 ∧ XMSS_MAX_SIG_BYTES = 4096 := ⟨rfl, rfl⟩
  obtain ⟨hp2sh, hwit⟩ := xmssTemplate_shape hpk
  obtain ⟨hrun, -⟩ := @evalScript_solution ⟨c, standardScriptVerifyFlags, checker, .base⟩ sig pk {}
    (by omega) [] (.inl rfl)
  rw [append_nil] at hrun
  have hscript := @evalScript_xmssTemplate_ok ⟨c, standardScriptVerifyFlags, checker, .base⟩ sig pk {}
    rfl hpk (by omega) (by omega)
  rw [haccept] at hscript
  exact verifyScript_of_evalScript hrun hscript hp2sh hwit

/-- **P2XMSSHASH.** The key is pushed after the chunks. -/
theorem verifyScript_xmssHashTemplate (hpk : pk.length = 64) (hsig : sig.length = XMSS_SIG_BYTES)
    (haccept : checker.checkXMSSSignature sig pk (xmssHashTemplate (c.hash160 pk).data) .base =
      true) :
    (verifyScript c standardScriptVerifyFlags checker (pushAll (sigChunks sig ++ [pk]))
      (xmssHashTemplate (c.hash160 pk).data) []).result = .ok () := by
  have hbytes : XMSS_SIG_BYTES = 2500 ∧ XMSS_MAX_SIG_BYTES = 4096 := ⟨rfl, rfl⟩
  obtain ⟨hp2sh, hwit⟩ := xmssHashTemplate_shape (Blob.length_data (c.hash160 pk))
  obtain ⟨hrun, -⟩ := @evalScript_solution ⟨c, standardScriptVerifyFlags, checker, .base⟩ sig pk {}
    (by omega) [pk] (.inr ⟨rfl, hpk⟩)
  have hscript := @evalScript_xmssHashTemplate_ok ⟨c, standardScriptVerifyFlags, checker, .base⟩ sig
    pk {} rfl hpk (by omega) (by omega)
  rw [haccept] at hscript
  exact verifyScript_of_evalScript hrun hscript hp2sh hwit

end Spends

end AssentianPQE
