import AssentianPQE.Proofs.Chunks
import AssentianPQE.Script.Sighash
import AssentianPQE.Sample
import AssentianPQE.Xmss.Buffers

/-!
# `AssentianPQE.Proofs.SignOpenBuffers`: when verification stays inside its buffers

`OP_XMSS_CHECKSIG` reassembles a signature of any length from 1 byte to the cap of 4096 bytes
plus one chunk, and no function on the way to `xmss_sign_open` tests that length. The C code
expects a signature of 2500 bytes.

* `signOpenSafe_iff`: a call with a 32-byte hash stays inside its buffers exactly for a
  signature of 2468 to 2500 bytes. A shorter one wraps the length of the message, a longer
  one overruns `m`.
* `xmssExecutions_safe_iff`: every call of a script stays inside its buffers exactly when, on
  each stack on which an XMSS opcode is executed with a 64-byte key, the run of chunks below
  the key is empty or has such a length in total.
-/

set_option autoImplicit false

namespace AssentianPQE

open Lib

/-! ### One call -/

/-- The length of the message, for the lengths that a script can give. -/
theorem openedLength_of_le {smlen : Nat} (h : XMSS_SIG_BYTES ≤ smlen) (hlt : smlen < 2 ^ 64) :
    openedLength smlen = smlen - XMSS_SIG_BYTES := by
  have hsig : XMSS_SIG_BYTES = 2500 := rfl
  unfold openedLength
  omega

/-- Every access ends inside its buffer when the message has at most 32 bytes. -/
theorem signOpenAccesses_bound {sigLength mlen : Nat} (matched : Bool)
    (hlen : openedLength (sigLength + XMSS_HASH_BYTES) = mlen)
    (hsm : XMSS_SIG_BYTES + mlen = sigLength + XMSS_HASH_BYTES) (hm : mlen ≤ XMSS_HASH_BYTES) :
    ∀ a ∈ signOpenAccesses (sigLength + XMSS_HASH_BYTES) matched,
      a.offset + a.length ≤ a.buffer.size sigLength XMSS_HASH_BYTES := by
  have hsig : XMSS_SIG_BYTES = 2500 := rfl
  have hhash : XMSS_HASH_BYTES = 32 := rfl
  rw [hsig, hhash] at hsm
  rw [hhash] at hm
  rw [signOpenAccesses, hlen, hashMessageAccesses]
  cases matched <;>
    simp [XmssBuffer.size, XMSS_PADDING_LEN, XMSS_N, XMSS_INDEX_BYTES, WOTS_SIG_BYTES,
      AUTH_PATH_BYTES, PK_BYTES, hsig, hhash] <;>
    omega

/-- A call with a 32-byte hash stays inside its buffers exactly for signatures of 2468 to 2500
bytes. -/
theorem signOpenSafe_iff {sigLength : Nat} (hlt : sigLength < 2 ^ 32) :
    SignOpenSafe sigLength XMSS_HASH_BYTES ↔ 2468 ≤ sigLength ∧ sigLength ≤ 2500 := by
  have hsig : XMSS_SIG_BYTES = 2500 := rfl
  have hhash : XMSS_HASH_BYTES = 32 := rfl
  constructor
  · rintro ⟨hwrap, hacc⟩
    have hlen := openedLength_of_le hwrap (by omega)
    -- The copy of the message to the end of `m`.
    have hcopy := hacc false ⟨.m, XMSS_SIG_BYTES, openedLength (sigLength + XMSS_HASH_BYTES)⟩
      (by simp [signOpenAccesses])
    simp only [XmssBuffer.size, hlen] at hcopy
    omega
  · rintro ⟨hlow, hhigh⟩
    have hwrap : XMSS_SIG_BYTES ≤ sigLength + XMSS_HASH_BYTES := by omega
    have hlen := openedLength_of_le hwrap (by omega)
    exact ⟨hwrap, fun matched => signOpenAccesses_bound matched hlen (by omega) (by omega)⟩

/-! ### The calls of a script -/

/-- The call from one stack stays inside its buffers exactly when the run of chunks below the
key is empty or adds up to 2468 to 2500 bytes. -/
theorem stackCall_safe_iff {pubkey : Bytes} (hkey : pubkey.length = 64) (below : List Bytes) :
    (∀ n, xmssCallLength (pubkey :: below) = some n → SignOpenSafe n XMSS_HASH_BYTES) ↔
      chunkRun below = [] ∨
        (2468 ≤ totalLength (chunkRun below) ∧ totalLength (chunkRun below) ≤ 2500) := by
  have hcap : XMSS_MAX_SIG_BYTES = 4096 := rfl
  obtain ⟨hwhole, hover⟩ := countChunks_spec below XMSS_MAX_CHUNKS 0
  simp only [Nat.zero_add] at hwhole hover
  by_cases hzero : countChunks below XMSS_MAX_CHUNKS 0 = 0
  · -- No chunk, no call: the run is empty as well.
    have hrun : chunkRun below = [] := by
      by_cases hlt : totalLength (chunkRun below) < XMSS_MAX_SIG_BYTES
      · rw [chunkRun, ← hwhole hlt, hzero, List.take_zero]
      · have hge := hover (by decide) (Nat.not_lt.mp hlt)
        rw [hzero, List.take_zero] at hge
        simp [totalLength, hcap] at hge
    simp [xmssCallLength, hzero, hrun]
  · have hcall : xmssCallLength (pubkey :: below) =
        some (totalLength (below.take (countChunks below XMSS_MAX_CHUNKS 0))) := by
      simp [xmssCallLength, hkey, hzero, length_reassemble]
    have hshort := totalLength_take_le below XMSS_MAX_CHUNKS 0
    have hmax : XMSS_MAX_CHUNKS = 9 := rfl
    rw [hcall]
    simp only [Option.some.injEq, forall_eq']
    rw [signOpenSafe_iff (by omega)]
    by_cases hlt : totalLength (chunkRun below) < XMSS_MAX_SIG_BYTES
    · have hsame : below.take (countChunks below XMSS_MAX_CHUNKS 0) = chunkRun below := hwhole hlt
      have hne : chunkRun below ≠ [] := by
        rw [← hsame]
        intro he
        cases below with
        | nil => exact hzero (by simp [countChunks, hmax])
        | cons item rest => simp [hzero] at he
      rw [hsame]
      simp [hne]
    · -- Above the cap both sides are false.
      have hge := hover (by decide) (Nat.not_lt.mp hlt)
      have hrun : chunkRun below ≠ [] := by
        intro he
        rw [he] at hlt
        exact hlt (by decide)
      simp only [hrun, false_or]
      constructor
      · intro h
        omega
      · intro h
        omega

/-- Every XMSS verification that a script starts stays inside its buffers exactly when, on each
stack on which the script executes an XMSS opcode with a 64-byte key, the run of chunks below
the key is empty or adds up to 2468 to 2500 bytes. -/
theorem xmssExecutions_safe_iff (ctx : EvalContext) (stack : List Bytes) (script : Script)
    (exec : ExecData) :
    (∀ s ∈ scriptXmssExecutions ctx stack script exec, ∀ n, xmssCallLength s = some n →
        SignOpenSafe n XMSS_HASH_BYTES) ↔
      ∀ s ∈ scriptXmssExecutions ctx stack script exec, ∀ pubkey below, s = pubkey :: below →
        pubkey.length = 64 → chunkRun below = [] ∨
          (2468 ≤ totalLength (chunkRun below) ∧ totalLength (chunkRun below) ≤ 2500) := by
  refine forall₂_congr fun s _ => ?_
  constructor
  · rintro h pubkey below rfl hkey
    exact (stackCall_safe_iff hkey below).mp h
  intro h n hn
  cases s with
  | nil => cases hn
  | cons pubkey below =>
    by_cases hkey : pubkey.length = 64
    · exact (stackCall_safe_iff hkey below).mpr (h pubkey below rfl hkey) n hn
    · simp [xmssCallLength, hkey] at hn

/-- A script that checks a signature of a 64-byte key. -/
def oneChunkScript : Script :=
  pushBytes (List.replicate 64 0x11) ++ [OP_XMSS_CHECKSIG]

/-- An input that spends such an output with a single byte. -/
def oneChunkInput : TxIn where
  prevout := ⟨nullHash, 0⟩
  scriptSig := pushBytes [0x01]
  nSequence := TxIn.sequenceFinal

/-- The spend. -/
def oneChunkSpend : TxContext where
  tx := { nVersion := 2, vin := [oneChunkInput], vout := [⟨0, []⟩], nLockTime := 0 }
  nIn := 0
  input := oneChunkInput
  amount := 0
  spentOutputs := [⟨0, oneChunkScript⟩]
  xmssChainId := 1

/-- The context in which the two scripts of the spend run. -/
def oneChunkContext : EvalContext :=
  ⟨sampleCrypto, {}, oneChunkSpend.checker sampleCrypto, .base⟩

/-- The input script leaves one byte on the stack. The output script then starts a verification
of a signature of one byte, whose message length wraps. -/
theorem oneChunkScript_unsafe :
    (evalScript oneChunkContext [] oneChunkInput.scriptSig {}).result = .ok [[0x01]] ∧
      scriptXmssExecutions oneChunkContext [[0x01]] oneChunkScript {} =
        [[List.replicate 64 0x11, [0x01]]] ∧
      xmssCallLength [List.replicate 64 0x11, [0x01]] = some 1 ∧
      ¬ SignOpenSafe 1 XMSS_HASH_BYTES := by
  refine ⟨rfl, rfl, by decide, ?_⟩
  rw [signOpenSafe_iff (by decide)]
  decide

end AssentianPQE
