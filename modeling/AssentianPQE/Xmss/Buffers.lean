import AssentianPQE.Script.Interpreter

/-!
# `AssentianPQE.Xmss.Buffers`: the memory that verification touches

The reads and writes of `xmssmt_core_sign_open` (`xmss_commons.c`) and `hash_message`
(`xmss_hash.c`) in the three buffers that `CXMSSKey::Verify` (`xmss_bridge.cpp`) hands over,
for the parameter set of OID 1. Arrays on the stack of the C code have fixed sizes and are
left out.

Lengths are `unsigned long long` in the source: `smlen - sig_bytes` is computed modulo
`2 ^ 64`.
-/

set_option autoImplicit false

namespace AssentianPQE

open Lib

/-- The buffers of `CXMSSKey::Verify`: the signed message, the output and the key. -/
inductive XmssBuffer where
  | sm | m | pk
deriving DecidableEq

/-- One read or write of `length` bytes at `offset`. -/
structure Access where
  buffer : XmssBuffer
  offset : Nat
  length : Nat
deriving DecidableEq

/-- The size of a buffer for a signature and a hash of these lengths. -/
def XmssBuffer.size (sigLength hashLength : Nat) : XmssBuffer → Nat
  | .sm => sigLength + hashLength
  | .m => XMSS_SIG_BYTES + hashLength
  | .pk => 4 + PK_BYTES

/-- `*mlen = smlen - params->sig_bytes`. -/
def openedLength (smlen : Nat) : Nat :=
  (smlen + (2 ^ 64 - XMSS_SIG_BYTES)) % 2 ^ 64

/-- `hash_message` on a message at `m + sig_bytes`: it writes its four inputs in front of the
message and hashes all of it. -/
def hashMessageAccesses (mlen : Nat) : List Access :=
  let prefixLength := XMSS_PADDING_LEN + 3 * XMSS_N
  let start := XMSS_SIG_BYTES - prefixLength
  [⟨.sm, XMSS_INDEX_BYTES, XMSS_N⟩, ⟨.pk, 4, XMSS_N⟩, ⟨.m, start, prefixLength⟩,
    ⟨.m, start, (mlen + prefixLength) % 2 ^ 64⟩]

/-- The accesses of `xmss_sign_open`. `matched` says whether the computed root is the one of
the key: then the message is copied to the front of `m`, otherwise that part is cleared. -/
def signOpenAccesses (smlen : Nat) (matched : Bool) : List Access :=
  let mlen := openedLength smlen
  let wots := XMSS_INDEX_BYTES + XMSS_N
  let auth := wots + WOTS_SIG_BYTES
  [⟨.pk, 0, 4⟩, ⟨.sm, 0, XMSS_INDEX_BYTES⟩, ⟨.sm, XMSS_SIG_BYTES, mlen⟩,
    ⟨.m, XMSS_SIG_BYTES, mlen⟩] ++ (hashMessageAccesses mlen ++
  ([⟨.sm, wots, WOTS_SIG_BYTES⟩, ⟨.pk, 4 + XMSS_N, XMSS_N⟩, ⟨.sm, auth, AUTH_PATH_BYTES⟩,
    ⟨.pk, 4, XMSS_N⟩] ++
  (if matched then [⟨.sm, auth + AUTH_PATH_BYTES, mlen⟩, ⟨.m, 0, mlen⟩] else [⟨.m, 0, mlen⟩])))

/-- A call with a signature and a hash of these lengths stays inside its buffers: the length of
the message does not wrap, and every access ends inside its buffer. -/
def SignOpenSafe (sigLength hashLength : Nat) : Prop :=
  XMSS_SIG_BYTES ≤ sigLength + hashLength ∧
    ∀ matched, ∀ a ∈ signOpenAccesses (sigLength + hashLength) matched,
      a.offset + a.length ≤ a.buffer.size sigLength hashLength

/-! ### Calls from a script -/

/-- The length of the signature that `OP_XMSS_CHECKSIG` hands to `CheckXMSSSignature`, on a
stack with a 64-byte key on top. Without a chunk below the key there is no call. -/
def xmssCallLength : List Bytes → Option Nat
  | pubkey :: below =>
    let nchunks := countChunks below XMSS_MAX_CHUNKS 0
    if pubkey.length ≠ 64 ∨ nchunks = 0 then none
    else some (reassemble below nchunks).length
  | [] => none

/-- The stacks on which a run over these operations executes an XMSS opcode. -/
def xmssExecutions (ctx : EvalContext) : List ScriptOp → Machine → List (List Bytes)
  | [], _ => []
  | op :: ops, m =>
    let here := match checkOp ctx m op with
      | .ok _ => if isXmssOp op ∧ m.vfExec.allTrue then [m.stack] else []
      | .error _ => []
    here ++ match (evalOp ctx m op).result with
      | .ok m' => xmssExecutions ctx ops m'
      | .error _ => []

/-- The stacks on which `EvalScript` executes an XMSS opcode. -/
def scriptXmssExecutions (ctx : EvalContext) (stack : List Bytes) (script : Script)
    (exec : ExecData) : List (List Bytes) :=
  if ctx.hasOpLimit ∧ MAX_SCRIPT_SIZE < script.length then []
  else xmssExecutions ctx (ops script)
    { stack := stack, codeHash := script, exec := { exec with codeseparatorPos := 0xffffffff } }

/-- `CheckXMSSSignature` hashes to 32 bytes. -/
def XMSS_HASH_BYTES : Nat := 32

end AssentianPQE
