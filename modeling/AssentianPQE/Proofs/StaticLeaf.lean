import AssentianPQE.Proofs.Chunks
import AssentianPQE.Proofs.DisconnectUndoes
import AssentianPQE.Proofs.ScriptRuns
import AssentianPQE.SampleSpend

/-!
# Leaves of a block whose scripts are not run

Where `ConnectBlock` skips the scripts of a block, `ExtractXMSSLeafUse` reads the leaves off
the scripts. `PlainSpend` are the spends on which it finds what a run of the scripts records:

* spends that run no XMSS opcode;
* spends of a P2XMSS or P2XMSSHASH output with pushes of at most nine chunks.

`connectBlock_without_scripts`: a block that has only such spends and is accepted with its
scripts checked is accepted without, with the same coins and the same tables.

`wrappedSpend_not_extracted`: an XMSS script inside P2SH. Its leaf is recorded when the scripts
are run, and not otherwise.
-/

set_option autoImplicit false

namespace AssentianPQE

open Lib List Except

variable {hash pk key : Bytes} {script scriptPubKey : Script} {below : List Bytes}

/-! ### Standard spends -/

/-- A spend of an XMSS output in the form in which the wallet signs it: the chunks of the
signature, and for P2XMSSHASH the key after them. -/
inductive TemplateSpend : Script → Script → Prop where
  | key {scriptSig : Script} {pk : Bytes} {chunks : List Bytes} (hpk : pk.length = 64)
      (hpush : plainPushes scriptSig = some chunks) (hchunks : ∀ item ∈ chunks, isChunk item = true)
      (hcount : chunks.length ≤ XMSS_MAX_CHUNKS) :
      TemplateSpend scriptSig (pushBytes pk ++ [OP_XMSS_CHECKSIG])
  | keyHash {scriptSig : Script} {hash pk : Bytes} {chunks : List Bytes} (hhash : hash.length = 20)
      (hpush : plainPushes scriptSig = some (chunks ++ [pk]))
      (hchunks : ∀ item ∈ chunks, isChunk item = true) (hcount : chunks.length ≤ XMSS_MAX_CHUNKS) :
      TemplateSpend scriptSig
        ([OP_DUP, OP_HASH160] ++ (pushBytes hash ++ [OP_EQUALVERIFY, OP_XMSS_CHECKSIG]))

/-- A spend of which the leaf can be read off the scripts. -/
def PlainSpend (input : TxIn) (scriptPubKey : Script) : Prop :=
  (∀ s ∈ executedScripts input.scriptSig scriptPubKey input.scriptWitness, noXmss s = true) ∨
    TemplateSpend input.scriptSig scriptPubKey

/-- A script of plain pushes leaves its items and has no XMSS opcode. -/
theorem ops_of_plainPushes {script : Script} {items : List Bytes}
    (h : plainPushes script = some items) :
    (ops script).map pushedItem = items ∧ (∀ op ∈ ops script, op.opcode ≤ OP_16) ∧
      ∀ op ∈ ops script, isXmssOp op = false := by
  unfold plainPushes at h
  split at h
  · rename_i hplain
    have hle : ∀ op ∈ ops script, op.opcode ≤ OP_PUSHDATA4 := by
      simpa using hplain.2
    have hsixteen : OP_PUSHDATA4 ≤ OP_16 := by decide
    refine ⟨?_, fun op hop => UInt8.le_trans (hle op hop) hsixteen, fun op hop => ?_⟩
    · rw [← Option.some.inj h]
      refine map_congr_left fun op hop => ?_
      rw [pushedItem, if_pos (hle op hop)]
    · have hop := hle op hop
      simp only [isXmssOp, decide_eq_false_iff_not, not_or]
      constructor <;> intro he <;> rw [he] at hop <;> exact absurd hop (by decide)
  · cases h

/-! ### The output scripts -/

/-- A script that begins with the push of 64 bytes and has the opcode after it. -/
def p2xmssScript (key : Bytes) (rest : Script) : Script :=
  64 :: (key ++ OP_XMSS_CHECKSIG :: rest)

theorem getScriptOp_p2xmssScript (hkey : key.length = 64) (rest : Script) :
    getScriptOp (p2xmssScript key rest) = some ⟨64, key, OP_XMSS_CHECKSIG :: rest⟩ := by
  have htake : takeN 64 (key ++ OP_XMSS_CHECKSIG :: rest) = some (key, OP_XMSS_CHECKSIG :: rest) :=
    takeN_append_of_length hkey _
  have hsize : pushSize 64 (key ++ OP_XMSS_CHECKSIG :: rest) =
      some (64, key ++ OP_XMSS_CHECKSIG :: rest) := by
    rw [pushSize, if_pos (by decide)]
    rfl
  rw [p2xmssScript, getScriptOp, if_pos (by decide), hsize]
  simp only [htake, Option.map_some]

variable {op : ScriptOp}

/-- What is read off a script whose first byte is the size of a push. -/
theorem getScriptOp_direct {opcode : UInt8} {pc : Script} (hcode : opcode < OP_PUSHDATA1)
    (h : getScriptOp (opcode :: pc) = some op) :
    op.data.length = opcode.toNat ∧ pc = op.data ++ op.rest := by
  have hle : opcode ≤ OP_PUSHDATA4 := UInt8.le_trans (UInt8.le_of_lt hcode) (by decide)
  rw [getScriptOp, if_pos hle, pushSize, if_pos hcode] at h
  obtain ⟨p, htake, rfl⟩ := Option.map_eq_some_iff.mp h
  exact takeN_eq_some htake

theorem getScriptOp_opcode {opcode : UInt8} {pc : Script} (h : getScriptOp (opcode :: pc) = some op) :
    op.opcode = opcode := by
  rw [getScriptOp] at h
  split at h
  · split at h
    · cases h
    · obtain ⟨p, -, rfl⟩ := Option.map_eq_some_iff.mp h
      rfl
  · rw [← Option.some.inj h]

/-- The front of a script, from its first operation. -/
theorem ops_eq_cons {s : Script} {rest : List ScriptOp} (h : ops s = op :: rest) :
    getScriptOp s = some op ∧ ops op.rest = rest := by
  cases s with
  | nil => cases h
  | cons opcode pc =>
    cases hop : getScriptOp (opcode :: pc) with
    | none => simp [ops, opsFuel, hop] at h
    | some first =>
      rw [(ops_eq hop).1] at h
      cases h
      exact ⟨rfl, rfl⟩

/-- An opcode without data is one byte. -/
theorem eq_cons_of_getScriptOp {s : Script} (h : getScriptOp s = some op)
    (hcode : ¬ op.opcode ≤ OP_PUSHDATA4) : s = op.opcode :: op.rest := by
  cases s with
  | nil => cases h
  | cons opcode pc =>
    rw [getScriptOp_opcode h] at hcode ⊢
    rw [getScriptOp, if_neg hcode] at h
    cases h
    rfl

/-- The scripts that the P2XMSS branch of `Solver` matches. -/
theorem matchXmss_eq_some :
    matchXmss script = some key ↔ key.length = 64 ∧ ∃ rest, script = p2xmssScript key rest := by
  constructor
  · intro h
    unfold matchXmss at h
    split at h
    · cases h
    rename_i op hop
    split at h
    · rename_i hmatch
      obtain ⟨hcode, hsize, hnext⟩ := hmatch
      obtain rfl : op.data = key := Option.some.inj h
      refine ⟨hsize, op.rest.tail, ?_⟩
      have hrest : op.rest = OP_XMSS_CHECKSIG :: op.rest.tail :=
        eq_cons_of_mem_head? hnext
      -- The operation was read off the front of the script.
      cases script with
      | nil => cases hop
      | cons opcode pc =>
        rw [getScriptOp_opcode hop] at hcode
        subst hcode
        obtain ⟨-, hpc⟩ := getScriptOp_direct (by decide) hop
        rw [p2xmssScript, ← hrest, ← hpc]
    · cases h
  · rintro ⟨hkey, rest, rfl⟩
    rw [matchXmss, getScriptOp_p2xmssScript hkey]
    exact if_pos ⟨rfl, hkey, rfl⟩

/-- No other branch of `Solver` matches such a script. -/
theorem solver_p2xmssScript (hkey : key.length = 64) (rest : Script) :
    solver (p2xmssScript key rest) = (.p2xmss, [key]) := by
  have hlen : (p2xmssScript key rest).length = 66 + rest.length := by
    simp only [p2xmssScript, length_cons, length_append, hkey]
    omega
  have hhead : (p2xmssScript key rest).head? = some 64 := rfl
  have hp2sh : isPayToScriptHash (p2xmssScript key rest) = false := by
    rw [isPayToScriptHash, decide_eq_false_iff_not]
    omega
  have hwit : isWitnessProgram (p2xmssScript key rest) = none := by
    unfold isWitnessProgram
    exact if_pos (by omega)
  have hpubkey : matchPayToPubkey (p2xmssScript key rest) = none := by
    rw [matchPayToPubkey, if_neg]
    rw [hhead]
    rintro ⟨⟨-, h⟩ | ⟨-, h⟩, -⟩ <;> exact absurd h (by decide)
  have hkeyHash : matchPayToPubkeyHash (p2xmssScript key rest) = none := by
    rw [matchPayToPubkeyHash, if_neg (by omega)]
  -- The first push of a multisig script is a number of at most four bytes.
  have hmulti : matchMultisig (p2xmssScript key rest) = none := by
    have hnumber : getScriptNumber ⟨64, key, OP_XMSS_CHECKSIG :: rest⟩ 1
        MAX_PUBKEYS_PER_MULTISIG = none := by
      have hnum : scriptNum key true 4 = none := by rw [scriptNum, if_pos (by omega)]
      have hsmall : ¬ (OP_1 ≤ (64 : UInt8) ∧ (64 : UInt8) ≤ OP_16) := by decide
      have hpush : (0 : UInt8) < 64 ∧ (64 : UInt8) ≤ OP_PUSHDATA4 := by decide
      rw [getScriptNumber, if_neg hsmall, if_pos hpush, hnum]
      simp
    rw [matchMultisig, getScriptOp_p2xmssScript hkey]
    split
    · rfl
    · simp only [hnumber]
  have hxmss : matchXmss (p2xmssScript key rest) = some key :=
    matchXmss_eq_some.mpr ⟨hkey, rest, rfl⟩
  unfold solver solveBare
  rw [hp2sh, hwit, hpubkey, hkeyHash, hmulti, hxmss, hhead]
  rfl

/-- The P2XMSS script of a key, as `SignStep` and the wallet write it. -/
def xmssTemplate (pubkey : Bytes) : Script :=
  pushBytes pubkey ++ [OP_XMSS_CHECKSIG]

/-- The P2XMSSHASH script of the hash of a key. -/
def xmssHashTemplate (hash : Bytes) : Script :=
  [OP_DUP, OP_HASH160] ++ (pushBytes hash ++ [OP_EQUALVERIFY, OP_XMSS_CHECKSIG])

theorem template_eq_p2xmssScript (hkey : key.length = 64) :
    pushBytes key ++ [OP_XMSS_CHECKSIG] = p2xmssScript key [] := by
  rw [pushBytes, if_pos (by rw [hkey]; decide), hkey]
  rfl

/-- The operations of a P2XMSSHASH script before its last opcode. -/
def keyHashOps (hash : Bytes) : List ScriptOp :=
  [⟨OP_DUP, [], (xmssHashTemplate hash).drop 1⟩, ⟨OP_HASH160, [], (xmssHashTemplate hash).drop 2⟩,
    ⟨20, hash, [OP_EQUALVERIFY, OP_XMSS_CHECKSIG]⟩, ⟨OP_EQUALVERIFY, [], [OP_XMSS_CHECKSIG]⟩]

/-- The parts of a P2XMSS script. -/
theorem xmssTemplate_ops (hpk : pk.length = 64) :
    ops (xmssTemplate pk) = [⟨64, pk, [OP_XMSS_CHECKSIG]⟩, ⟨OP_XMSS_CHECKSIG, [], []⟩] ∧
      parses (xmssTemplate pk) = true := by
  have hpush := ops_eq (getScriptOp_p2xmssScript hpk [])
  rw [xmssTemplate, template_eq_p2xmssScript hpk, hpush.1, hpush.2]
  exact ⟨rfl, rfl⟩

theorem xmssTemplate_shape (hpk : pk.length = 64) :
    isPayToScriptHash (xmssTemplate pk) = false ∧ isWitnessProgram (xmssTemplate pk) = none := by
  constructor
  · simp [xmssTemplate, isPayToScriptHash, pushBytes, hpk]
  · simp [xmssTemplate, isWitnessProgram, pushBytes, hpk]

/-- `Solver` finds the key of a P2XMSS script. -/
theorem solver_xmssTemplate (hpk : pk.length = 64) :
    solver (xmssTemplate pk) = (.p2xmss, [pk]) := by
  rw [xmssTemplate, template_eq_p2xmssScript hpk, solver_p2xmssScript hpk]

/-- The parts of a P2XMSSHASH script. -/
theorem xmssHashTemplate_ops (hhash : hash.length = 20) :
    ops (xmssHashTemplate hash) = keyHashOps hash ++ [⟨OP_XMSS_CHECKSIG, [], []⟩] ∧
      parses (xmssHashTemplate hash) = true := by
  have hdup : getScriptOp (xmssHashTemplate hash) =
      some ⟨OP_DUP, [], (xmssHashTemplate hash).drop 1⟩ := rfl
  have hh160 : getScriptOp ((xmssHashTemplate hash).drop 1) =
      some ⟨OP_HASH160, [], (xmssHashTemplate hash).drop 2⟩ := rfl
  have hpush : getScriptOp ((xmssHashTemplate hash).drop 2) =
      some ⟨20, hash, [OP_EQUALVERIFY, OP_XMSS_CHECKSIG]⟩ := by
    simp [xmssHashTemplate, pushBytes, hhash, getScriptOp, pushSize, takeN, OP_PUSHDATA4,
      OP_PUSHDATA1]
  have hlast : ops [OP_EQUALVERIFY, OP_XMSS_CHECKSIG] =
      [⟨OP_EQUALVERIFY, [], [OP_XMSS_CHECKSIG]⟩, ⟨OP_XMSS_CHECKSIG, [], []⟩] := by decide
  rw [(ops_eq hdup).1, (ops_eq hdup).2, (ops_eq hh160).1, (ops_eq hh160).2, (ops_eq hpush).1,
    (ops_eq hpush).2, hlast]
  exact ⟨rfl, rfl⟩

theorem xmssHashTemplate_shape (hhash : hash.length = 20) :
    isPayToScriptHash (xmssHashTemplate hash) = false ∧
      isWitnessProgram (xmssHashTemplate hash) = none := by
  constructor
  · simp [xmssHashTemplate, isPayToScriptHash, pushBytes, hhash]
  · simp [xmssHashTemplate, isWitnessProgram, pushBytes, hhash, OP_DUP, OP_0, OP_16]

/-- `Solver` finds the hash of a P2XMSSHASH script. -/
theorem solver_xmssHashTemplate (hhash : hash.length = 20) :
    solver (xmssHashTemplate hash) = (.p2xmssHash, [hash]) := by
  obtain ⟨hp2sh, hwit⟩ := xmssHashTemplate_shape hhash
  have hscript : xmssHashTemplate hash =
      ([OP_DUP, OP_HASH160, 20] ++ hash ++ [OP_EQUALVERIFY]) ++ [OP_XMSS_CHECKSIG] := by
    simp [xmssHashTemplate, pushBytes, hhash]
  have hkey : matchPayToPubkey (xmssHashTemplate hash) = none := by
    simp [hscript, matchPayToPubkey, hhash]
  have hkeyHash : matchPayToPubkeyHash (xmssHashTemplate hash) = none := by
    simp [hscript, matchPayToPubkeyHash, hhash, OP_XMSS_CHECKSIG, OP_CHECKSIG]
  have hmulti : matchMultisig (xmssHashTemplate hash) = none := by
    rw [matchMultisig, if_pos]
    rw [hscript, getLast?_concat]
    decide
  have hxmss : matchXmss (xmssHashTemplate hash) = none := by
    simp [hscript, matchXmss, getScriptOp, OP_DUP, OP_PUSHDATA4]
  have hxmssHash : matchXmssHash (xmssHashTemplate hash) = some hash := by
    rw [matchXmssHash, (xmssHashTemplate_ops hhash).1]
    simp [keyHashOps, hhash]
  unfold solver solveBare
  rw [hp2sh, hwit, hkey, hkeyHash, hmulti, hxmss, hxmssHash]
  simp [hscript, OP_DUP, OP_RETURN]

/-- The scripts that the P2XMSSHASH branch of `Solver` matches. -/
theorem matchXmssHash_eq_some (h : matchXmssHash script = some hash) :
    hash.length = 20 ∧ script = xmssHashTemplate hash := by
  unfold matchXmssHash at h
  split at h
  · rename_i dup hash160 push equal check rest hops
    split at h
    · rename_i hmatch
      obtain ⟨hdup, hhash160, hpush, hlen, hequal, hcheck, hend⟩ := hmatch
      cases h
      obtain ⟨hread₁, hops⟩ := ops_eq_cons hops
      obtain ⟨hread₂, hops⟩ := ops_eq_cons hops
      obtain ⟨hread₃, hops⟩ := ops_eq_cons hops
      obtain ⟨hread₄, hops⟩ := ops_eq_cons hops
      obtain ⟨hread₅, -⟩ := ops_eq_cons hops
      -- Only the third operation has data.
      have hdata : hash160.rest = 20 :: (push.data ++ push.rest) := by
        cases hpc : hash160.rest with
        | nil =>
          rw [hpc] at hread₃
          cases hread₃
        | cons opcode pc =>
          rw [hpc] at hread₃
          obtain rfl : opcode = 20 := (getScriptOp_opcode hread₃).symm.trans hpush
          rw [← (getScriptOp_direct (by decide) hread₃).2]
      rw [eq_cons_of_getScriptOp hread₁ (by rw [hdup]; decide),
        eq_cons_of_getScriptOp hread₂ (by rw [hhash160]; decide), hdata,
        eq_cons_of_getScriptOp hread₄ (by rw [hequal]; decide),
        eq_cons_of_getScriptOp hread₅ (by rw [hcheck]; decide), hdup, hhash160, hequal, hcheck, hend]
      refine ⟨hlen, ?_⟩
      simp [xmssHashTemplate, pushBytes, hlen]
    · cases h
  · cases h

/-- `Solver` gives the script one of the two XMSS types. -/
def XmssOutput (script : Script) : Prop :=
  (solver script).1 = .p2xmss ∨ (solver script).1 = .p2xmssHash

instance (script : Script) : Decidable (XmssOutput script) :=
  inferInstanceAs (Decidable (_ ∨ _))

theorem XmssOutput.cases (h : XmssOutput script) :
    (∃ key, key.length = 64 ∧ solver script = (.p2xmss, [key]) ∧
      ∃ rest, script = p2xmssScript key rest) ∨
    ∃ hash, hash.length = 20 ∧ solver script = (.p2xmssHash, [hash]) ∧
      script = xmssHashTemplate hash := by
  have hmatch : (∃ key, solver script = (.p2xmss, [key]) ∧ matchXmss script = some key) ∨
      ∃ hash, solver script = (.p2xmssHash, [hash]) ∧ matchXmssHash script = some hash := by
    unfold XmssOutput at h
    unfold solver solveBare at h ⊢
    grind
  rcases hmatch with ⟨key, hsolver, hkey⟩ | ⟨hash, hsolver, hhash⟩
  · obtain ⟨hlen, hrest⟩ := matchXmss_eq_some.mp hkey
    exact .inl ⟨key, hlen, hsolver, hrest⟩
  · obtain ⟨hlen, hscript⟩ := matchXmssHash_eq_some hhash
    exact .inr ⟨hash, hlen, hsolver, hscript⟩

/-! ### Static extraction -/

/-- `Solver` finds P2XMSSHASH in scripts of exactly that form. -/
theorem solver_eq_p2xmssHash_iff :
    solver script = (.p2xmssHash, [hash]) ↔ hash.length = 20 ∧ script = xmssHashTemplate hash := by
  constructor
  · intro h
    rcases XmssOutput.cases (.inr (congrArg Prod.fst h)) with ⟨key, -, hkey, -⟩ | ⟨hash', hlen, hs⟩
    · cases hkey.symm.trans h
    · cases hs.1.symm.trans h
      exact ⟨hlen, hs.2⟩
  · rintro ⟨hlen, rfl⟩
    exact solver_xmssHashTemplate hlen

variable {chunks : List Bytes}

/-- Chunks below the cap are gathered. -/
theorem gatherChunks_eq (hchunks : ∀ item ∈ chunks, isChunk item = true) :
    ∀ {sig : Bytes}, (sig ++ chunks.flatten).length < XMSS_MAX_SIG_BYTES →
      gatherChunks chunks sig = some (sig ++ chunks.flatten) := by
  induction chunks with
  | nil =>
    intro sig _
    simp [gatherChunks]
  | cons chunk rest ih =>
    intro sig hlen
    rw [flatten_cons, ← append_assoc] at hlen ⊢
    have hcap : ¬ XMSS_MAX_SIG_BYTES ≤ (sig ++ chunk).length := by
      rw [length_append] at hlen
      omega
    rw [gatherChunks, hchunks chunk mem_cons_self, if_neg (by simp), if_neg hcap]
    exact ih (fun item hitem => hchunks item (mem_cons_of_mem chunk hitem)) hlen

variable {scriptSig : Script}

/-- The extraction on the parts of a spend. -/
theorem extractXMSSLeafUse_eq {pushes : List Bytes} (hpush : plainPushes scriptSig = some pushes)
    (hne : pushes ≠ []) (hparts : leafUseParts (solver scriptPubKey) pushes = some (pk, chunks))
    (hpk : pk.length = 64) (hchunks : ∀ item ∈ chunks, isChunk item = true)
    (hlen : chunks.flatten.length = XMSS_SIG_BYTES) :
    extractXMSSLeafUse scriptPubKey scriptSig = some (pk, leafIndexOf chunks.flatten) := by
  have hsig : XMSS_SIG_BYTES = 2500 := rfl
  have hcap : XMSS_MAX_SIG_BYTES = 4096 := rfl
  have hgather : gatherChunks chunks [] = some chunks.flatten := by
    rw [gatherChunks_eq hchunks (by rw [nil_append]; omega), nil_append]
  unfold extractXMSSLeafUse
  simp only [hpush, hparts, hgather, hpk]
  rw [if_neg hne, if_neg (by simp), if_neg (by omega)]

/-- A script without XMSS opcodes is no XMSS template. -/
theorem extractXMSSLeafUse_none (h : ∀ op ∈ ops scriptPubKey, isXmssOp op = false) :
    extractXMSSLeafUse scriptPubKey scriptSig = none := by
  have hno : ¬ XmssOutput scriptPubKey := by
    intro hxmss
    rcases hxmss.cases with ⟨key, hlen, -, rest, rfl⟩ | ⟨hash, hlen, -, rfl⟩
    · -- The opcode after the key is the next operation.
      have hget : getScriptOp (OP_XMSS_CHECKSIG :: rest) = some ⟨OP_XMSS_CHECKSIG, [], rest⟩ := rfl
      rw [(ops_eq (getScriptOp_p2xmssScript hlen rest)).1, (ops_eq hget).1] at h
      exact absurd (h ⟨OP_XMSS_CHECKSIG, [], rest⟩ (by simp)) (by simp [isXmssOp])
    · rw [(xmssHashTemplate_ops hlen).1] at h
      exact absurd (h ⟨OP_XMSS_CHECKSIG, [], []⟩ (by simp)) (by simp [isXmssOp])
  have hparts : ∀ pushes, leafUseParts (solver scriptPubKey) pushes = none := by
    intro pushes
    unfold XmssOutput at hno
    unfold leafUseParts
    grind
  unfold extractXMSSLeafUse
  split
  · rfl
  · split
    · rfl
    · rw [hparts]

/-! ### Runs of the templates -/

section Runs
variable {ctx : EvalContext}

/-- The last opcode of both templates, on a stack of a key and at most nine chunks. -/
theorem evalOps_xmss {m m' : Machine} {rest : Script} (hexec : m.vfExec.allTrue = true)
    (hstack : m.stack = pk :: below) (hchunks : ∀ item ∈ below, isChunk item = true)
    (hcount : below.length ≤ XMSS_MAX_CHUNKS)
    (hlen : ∀ sig code, ctx.checker.checkXMSSSignature sig pk code ctx.sigversion = true →
      sig.length = XMSS_SIG_BYTES)
    (h : (evalOps ctx [⟨OP_XMSS_CHECKSIG, [], rest⟩] m).result = .ok m')
    (htrue : (requireTrue m'.stack).result = .ok ()) :
    pk.length = 64 ∧ below.reverse.flatten.length = XMSS_SIG_BYTES ∧
      (evalOps ctx [⟨OP_XMSS_CHECKSIG, [], rest⟩] m).uses =
        [(pk, leafIndexOf below.reverse.flatten)] := by
  obtain ⟨m₂, hop, hnil⟩ := Captured.bind_result_ok h
  have hopcode : ¬ OP_XMSS_CHECKSIG ≤ OP_PUSHDATA4 := by decide
  obtain ⟨m₀, m₁, hm₀, -, hm₁, huses, hstack', -, -⟩ := evalOp_opcode hopcode hexec hop
  rw [← ok.inj hnil, hstack'] at htrue
  unfold requireTrue at htrue
  split at htrue
  · cases htrue
  rename_i top items htop
  split at htrue
  · rename_i hcast
    obtain ⟨hpk, hlength, hleaf⟩ := execXmssCheckSig_chunks (by rw [hm₀, hstack]) hchunks hcount
      (fun sig => hlen sig _) hm₁ htop hcast
    refine ⟨hpk, hlength, ?_⟩
    show (evalOp ctx m _ >>= evalOps ctx []).uses = _
    rw [Captured.bind_ok hop, huses]
    exact (append_nil _).trans hleaf
  · cases htrue

variable {stack' : List Bytes} {exec : ExecData}

/-- The output script of a P2XMSS spend. -/
theorem evalScript_xmssTemplate (hpk : pk.length = 64)
    (hchunks : ∀ item ∈ below, isChunk item = true) (hcount : below.length ≤ XMSS_MAX_CHUNKS)
    (hlen : ∀ sig code, ctx.checker.checkXMSSSignature sig pk code ctx.sigversion = true →
      sig.length = XMSS_SIG_BYTES)
    (h : (evalScript ctx below (xmssTemplate pk) exec).result = .ok stack')
    (htrue : (requireTrue stack').result = .ok ()) :
    below.reverse.flatten.length = XMSS_SIG_BYTES ∧
      (evalScript ctx below (xmssTemplate pk) exec).uses =
        [(pk, leafIndexOf below.reverse.flatten)] := by
  obtain ⟨m, m', rfl, hvf, hops, rfl, -, huses⟩ := evalScript_ok h
  rw [huses]
  rw [(xmssTemplate_ops hpk).1] at hops ⊢
  have hexec : m.vfExec.allTrue = true := by
    rw [hvf]
    rfl
  obtain ⟨m₁, hpush, hxmss⟩ := Captured.bind_result_ok hops
  have hsixteen : (64 : UInt8) ≤ OP_16 := by decide
  have hdata : (64 : UInt8) ≤ OP_PUSHDATA4 := by decide
  obtain ⟨hstack₁, hvf₁, -⟩ := evalOp_push hsixteen hexec hpush
  rw [pushedItem, if_pos hdata] at hstack₁
  obtain ⟨-, hlength, hleaf⟩ := evalOps_xmss (by rw [hvf₁, hexec]) hstack₁ hchunks hcount hlen
    hxmss htrue
  refine ⟨hlength, ?_⟩
  show (evalOp ctx m _ >>= evalOps ctx _).uses = _
  rw [Captured.bind_ok hpush, hleaf, evalOp_uses_nil ctx m rfl, nil_append]

/-- `OP_DUP OP_HASH160 <hash> OP_EQUALVERIFY` leaves the stack as it was. -/
theorem evalOps_keyHash {m m' : Machine} (hexec : m.vfExec.allTrue = true)
    (h : (evalOps ctx (keyHashOps hash) m).result = .ok m') :
    m'.stack = m.stack ∧ m'.vfExec = m.vfExec := by
  obtain ⟨m₁, hdup, h⟩ := Captured.bind_result_ok h
  obtain ⟨m₂, hhash, h⟩ := Captured.bind_result_ok h
  obtain ⟨m₃, hpush, h⟩ := Captured.bind_result_ok h
  obtain ⟨m₄, hequal, h⟩ := Captured.bind_result_ok h
  rw [← ok.inj h]
  have hop₁ : ¬ OP_DUP ≤ OP_PUSHDATA4 := by decide
  have hop₂ : ¬ OP_HASH160 ≤ OP_PUSHDATA4 := by decide
  have hop₃ : (20 : UInt8) ≤ OP_16 := by decide
  have hop₄ : ¬ OP_EQUALVERIFY ≤ OP_PUSHDATA4 := by decide
  -- The four operations in turn.
  obtain ⟨a₁, b₁, ha₁, hva₁, hb₁, -, hs₁, hv₁, -⟩ := evalOp_opcode hop₁ hexec hdup
  have hcode₁ : Opcode.ofByte OP_DUP = .dup := rfl
  simp only [execOpcode, hcode₁, Captured.lift_result, execPlain, execStackOp] at hb₁
  cases hstack : a₁.stack with
  | nil =>
    simp only [hstack] at hb₁
    cases hb₁
  | cons x s =>
    simp only [hstack, ok.injEq] at hb₁
    rw [← hb₁] at hs₁ hv₁
    have hexec₁ : m₁.vfExec.allTrue = true := by
      rw [hv₁]
      exact (congrArg _ hva₁).trans hexec
    obtain ⟨a₂, b₂, ha₂, hva₂, hb₂, -, hs₂, hv₂, -⟩ := evalOp_opcode hop₂ hexec₁ hhash
    have hcode₂ : Opcode.ofByte OP_HASH160 = .hash .hash160 := rfl
    simp only [execOpcode, hcode₂, Captured.lift_result, execPlain, ha₂,
      show m₁.stack = x :: x :: s from hs₁, ok.injEq] at hb₂
    rw [← hb₂] at hs₂ hv₂
    have hexec₂ : m₂.vfExec.allTrue = true := by
      rw [hv₂]
      exact (congrArg _ hva₂).trans hexec₁
    obtain ⟨hs₃, hv₃, -⟩ := evalOp_push hop₃ hexec₂ hpush
    have hexec₃ : m₃.vfExec.allTrue = true := by rw [hv₃, hexec₂]
    obtain ⟨a₄, b₄, ha₄, hva₄, hb₄, -, hs₄, hv₄, -⟩ := evalOp_opcode hop₄ hexec₃ hequal
    have hcode₄ : Opcode.ofByte OP_EQUALVERIFY = .equal true := rfl
    have hstack₃ : a₄.stack = pushedItem ⟨20, hash, [OP_EQUALVERIFY, OP_XMSS_CHECKSIG]⟩ ::
        HashOp.hash160.eval ctx.crypto x :: x :: s := by
      rw [ha₄, hs₃, hs₂]
      rfl
    simp only [execOpcode, hcode₄, Captured.lift_result, execPlain, hstack₃, pushResult,
      Bool.not_true, Bool.false_eq_true, if_false] at hb₄
    split at hb₄
    · rw [← ok.inj hb₄] at hs₄ hv₄
      refine ⟨?_, ?_⟩
      · rw [hs₄, ← ha₁, hstack]
        rfl
      rw [hv₄, ← hva₁]
      show a₄.vfExec = a₁.vfExec
      rw [hva₄, hv₃, hv₂]
      show a₂.vfExec = a₁.vfExec
      rw [hva₂, hv₁]
      rfl
    · cases hb₄

/-- The output script of a P2XMSSHASH spend. -/
theorem evalScript_xmssHashTemplate (hhash : hash.length = 20)
    (hchunks : ∀ item ∈ below, isChunk item = true) (hcount : below.length ≤ XMSS_MAX_CHUNKS)
    (hlen : ∀ sig code, ctx.checker.checkXMSSSignature sig pk code ctx.sigversion = true →
      sig.length = XMSS_SIG_BYTES)
    (h : (evalScript ctx (pk :: below) (xmssHashTemplate hash) exec).result = .ok stack')
    (htrue : (requireTrue stack').result = .ok ()) :
    pk.length = 64 ∧ below.reverse.flatten.length = XMSS_SIG_BYTES ∧
      (evalScript ctx (pk :: below) (xmssHashTemplate hash) exec).uses =
        [(pk, leafIndexOf below.reverse.flatten)] := by
  obtain ⟨m, m', hm, hvf, hops, rfl, -, huses⟩ := evalScript_ok h
  rw [huses]
  rw [(xmssHashTemplate_ops hhash).1] at hops ⊢
  have hexec : m.vfExec.allTrue = true := by
    rw [hvf]
    rfl
  obtain ⟨m₁, hkey, hxmss, huses'⟩ := evalOps_append hops
  obtain ⟨hstack₁, hvf₁⟩ := evalOps_keyHash hexec hkey
  obtain ⟨hpk, hlength, hleaf⟩ := evalOps_xmss (by rw [hvf₁, hexec]) (hstack₁.trans hm) hchunks
    hcount hlen hxmss htrue
  refine ⟨hpk, hlength, huses'.trans ?_⟩
  rw [hleaf, evalOps_uses_nil ctx, nil_append]
  simp only [keyHashOps, mem_cons, not_mem_nil, or_false]
  rintro op (rfl | rfl | rfl | rfl) <;> rfl

end Runs

/-! ### One input -/

/-- The checker accepts only signatures of the right length. -/
theorem length_of_checkXMSSSignature {c : Crypto} {t : TxContext} {sig : Bytes} {code : Script}
    {sigversion : SigVersion} (h : (t.checker c).checkXMSSSignature sig pk code sigversion = true) :
    sig.length = XMSS_SIG_BYTES := by
  change checkXMSSSignature c t sig pk code sigversion = true at h
  unfold checkXMSSSignature at h
  split at h
  · cases h
  split at h
  · cases h
  have hne : (xmssSighash c t sig code sigversion).data ≠ [] := by
    intro hnil
    have hlen := (xmssSighash c t sig code sigversion).length_data
    rw [hnil] at hlen
    cases hlen
  exact ((xmssVerify_iff c hne).mp h).1

/-- A plain spend that verifies records what the extraction finds. -/
theorem uses_of_plainSpend {c : Crypto} {flags : ScriptFlags} {t : TxContext} {input : TxIn}
    (hplain : PlainSpend input scriptPubKey)
    (h : (verifyScript c flags (t.checker c) input.scriptSig scriptPubKey
      input.scriptWitness).result = .ok ()) :
    (verifyScript c flags (t.checker c) input.scriptSig scriptPubKey input.scriptWitness).uses =
      (extractXMSSLeafUse scriptPubKey input.scriptSig).toList := by
  rcases hplain with hnone | htemplate
  · rw [verifyScript_uses_nil hnone, extractXMSSLeafUse_none]
    · rfl
    · exact noXmss_iff.mp (hnone _ (mem_cons_of_mem _ mem_cons_self))
  · cases htemplate with
    | @key pk chunks hpk hpush hchunks hcount =>
      change (verifyScript c flags (t.checker c) input.scriptSig (xmssTemplate pk)
        input.scriptWitness).uses = (extractXMSSLeafUse (xmssTemplate pk) input.scriptSig).toList
      obtain ⟨hitems, hops, hsig⟩ := ops_of_plainPushes hpush
      obtain ⟨hp2sh, hwit⟩ := xmssTemplate_shape hpk
      obtain ⟨stackCopy, stack, hcopy, hstack, htrue, huses⟩ := verifyScript_bare hsig hp2sh hwit h
      -- `scriptSig` leaves the chunks, the last one on top.
      rw [evalScript_pushOnly hops hcopy, hitems, append_nil] at hstack huses
      obtain ⟨hlength, hleaf⟩ := evalScript_xmssTemplate hpk
        (fun item hitem => hchunks item (mem_reverse.mp hitem))
        (by rwa [length_reverse]) (fun _ _ => length_of_checkXMSSSignature) hstack htrue
      rw [reverse_reverse] at hlength hleaf
      have hne : chunks ≠ [] := by
        rintro rfl
        cases hlength
      rw [huses, hleaf, extractXMSSLeafUse_eq hpush hne (by rw [solver_xmssTemplate hpk]; rfl) hpk
        hchunks hlength]
      rfl
    | @keyHash hash pk chunks hhash hpush hchunks hcount =>
      change (verifyScript c flags (t.checker c) input.scriptSig (xmssHashTemplate hash)
        input.scriptWitness).uses =
          (extractXMSSLeafUse (xmssHashTemplate hash) input.scriptSig).toList
      obtain ⟨hitems, hops, hsig⟩ := ops_of_plainPushes hpush
      obtain ⟨hp2sh, hwit⟩ := xmssHashTemplate_shape hhash
      obtain ⟨stackCopy, stack, hcopy, hstack, htrue, huses⟩ := verifyScript_bare hsig hp2sh hwit h
      -- Here the key is above the chunks.
      rw [evalScript_pushOnly hops hcopy, hitems, append_nil, reverse_append] at hstack huses
      obtain ⟨hpk, hlength, hleaf⟩ := evalScript_xmssHashTemplate hhash
        (fun item hitem => hchunks item (mem_reverse.mp hitem))
        (by rwa [length_reverse]) (fun _ _ => length_of_checkXMSSSignature) hstack htrue
      rw [reverse_reverse] at hlength hleaf
      have hparts : leafUseParts (.p2xmssHash, [hash]) (chunks ++ [pk]) = some (pk, chunks) := by
        simp [leafUseParts]
      rw [extractXMSSLeafUse_eq hpush (by simp) (by rw [solver_xmssHashTemplate hhash, hparts]) hpk
        hchunks hlength]
      exact huses.trans hleaf

/-! ### Blocks -/

/-- Every transaction finds plain spends when it is its turn. -/
def PlainSpends (c : Crypto) (nHeight : Nat) : List Transaction → CoinsView → Prop
  | [], _ => True
  | tx :: rest, view =>
    (tx.isCoinBase = false → ∀ i ∈ tx.vin, ∀ coin, view i.prevout = some coin →
      PlainSpend i coin.out.scriptPubKey) ∧
      ∀ view', updateCoins c view tx nHeight = some view' → PlainSpends c nHeight rest view'

/-- Runs over the inputs with their coins, against a function of each input: the leaves agree
in order if they agree for each run that succeeds. -/
theorem flatten_uses_eq {view : CoinsView} {extract : TxIn → Coin → Option (Bytes × Nat)}
    {vin : List TxIn} :
    ∀ {run : Nat → TxIn × Coin → Captured Unit}, (∀ i ∈ vin, (view i.prevout).isSome = true) →
      (∀ x ∈ (vin.zip (vin.filterMap fun i => view i.prevout)).mapIdx run, x.isOk = true) →
      (∀ j, ∀ i ∈ vin, ∀ coin, view i.prevout = some coin → (run j (i, coin)).isOk = true →
        (run j (i, coin)).uses = (extract i coin).toList) →
      (((vin.zip (vin.filterMap fun i => view i.prevout)).mapIdx run).map Captured.uses).flatten =
        vin.filterMap fun i => (view i.prevout).bind (extract i) := by
  induction vin with
  | nil =>
    intro run _ _ _
    rfl
  | cons i rest ih =>
    intro run hin hok heach
    obtain ⟨coin, hcoin⟩ := Option.isSome_iff_exists.mp (hin i mem_cons_self)
    have hspent : (i :: rest).filterMap (fun i => view i.prevout) =
        coin :: rest.filterMap fun i => view i.prevout := filterMap_cons_some hcoin
    rw [hspent, zip_cons_cons, mapIdx_cons] at hok ⊢
    have hfirst := heach 0 i mem_cons_self coin hcoin (hok _ mem_cons_self)
    have hrest := ih (fun a ha => hin a (mem_cons_of_mem i ha))
      (fun x hx => hok x (mem_cons_of_mem _ hx))
      (fun j a ha => heach (j + 1) a (mem_cons_of_mem i ha))
    rw [map_cons, flatten_cons, hfirst, hrest, filterMap_cons, hcoin]
    cases hextract : extract i coin with
    | none => simp [hextract]
    | some use => simp [hextract]

section Blocks
variable {ctx : ConnectContext}

/-- The leaf uses of a transaction whose spends are plain and whose scripts pass. -/
theorem txLeafUses_without_scripts {view : CoinsView} {tx : Transaction}
    (hin : haveInputs view tx = true)
    (hplain : tx.isCoinBase = false → ∀ i ∈ tx.vin, ∀ coin, view i.prevout = some coin →
      PlainSpend i coin.out.scriptPubKey)
    (hpass : scriptsPass { ctx with fScriptChecks := true } view tx = true) :
    txLeafUses { ctx with fScriptChecks := false } view tx =
      txLeafUses { ctx with fScriptChecks := true } view tx := by
  by_cases hskip : !ctx.checkSpendLeafReuse ∨ tx.isCoinBase
  · -- Nothing is recorded, whether the scripts are run or not.
    exact (if_pos hskip).trans (if_pos hskip).symm
  refine (if_neg hskip).trans (Eq.trans ?_ (if_neg hskip).symm)
  rw [if_neg Bool.false_ne_true, if_pos rfl]
  have hcb : tx.isCoinBase = false := by
    cases h : tx.isCoinBase
    · rfl
    · exact absurd (Or.inr h) hskip
  rw [haveInputs, hcb, Bool.false_or, all_eq_true] at hin
  simp only [scriptsPass, hcb, Bool.false_or, Bool.not_true, all_eq_true] at hpass
  symm
  refine flatten_uses_eq hin hpass fun j i hi coin hcoin hok => ?_
  obtain ⟨_, hresult⟩ := Captured.isOk_iff.mp hok
  exact uses_of_plainSpend (hplain hcb i hi coin hcoin) hresult

/-- The loop, run without scripts. -/
theorem connectTxs_without_scripts {txs : List Transaction} :
    ∀ {st st' : ConnectState}, PlainSpends ctx.crypto ctx.nHeight txs st.view →
      connectTxs { ctx with fScriptChecks := true } txs st = .ok st' → st'.queueOk = true →
      connectTxs { ctx with fScriptChecks := false } txs st = .ok st' := by
  induction txs with
  | nil =>
    intro st st' _ h _
    exact h
  | cons tx rest ih =>
    intro st st' hplain h hqueue
    unfold connectTxs at h ⊢
    split at h
    · cases h
    rename_i st₁ hone
    obtain ⟨nFees, nSigOpsCost, queueOk, view, hcheck, hcoins, rfl⟩ := connectTx_ok_iff.mp hone
    -- The verdict never turns positive again, so it is positive here.
    have htrue : queueOk = true := (connectTxs_effect h).2.2 hqueue
    rw [htrue] at hcheck h
    obtain ⟨hpass, hsame⟩ := checkTx_scripts hcheck
    have hcheck' := hsame false ctx.parallel (by simp [scriptsPass])
    have huses := txLeafUses_without_scripts (haveInputs_of_checkTx hcheck) hplain.1 hpass
    have hone' := connectTx_ok_iff.mpr ⟨nFees, nSigOpsCost, true, view, hcheck', hcoins, rfl⟩
    rw [huses] at hone'
    rw [hone']
    exact ih (hplain.2 view hcoins) h hqueue

end Blocks

/-- A block whose spends are plain and that is accepted with its scripts is accepted without
them, with the same coins, undo data and tables. -/
theorem connectBlock_without_scripts {ctx : ConnectContext} {db db' : LeafDB} {view : CoinsView}
    {r : Connected} (hplain : PlainSpends ctx.crypto ctx.nHeight ctx.block.vtx view)
    (h : connectBlock { ctx with fScriptChecks := true } db view = .ok (r, db')) :
    connectBlock { ctx with fScriptChecks := false } db view = .ok (r, db') := by
  have hcoins : ∀ {r : Connected}, connectCoins { ctx with fScriptChecks := true } view = .ok r →
      connectCoins { ctx with fScriptChecks := false } view = .ok r := by
    intro r h
    obtain ⟨hbip, st, htxs, hreward, hqueue, rfl⟩ := connectCoins_ok_iff.mp h
    exact connectCoins_ok_iff.mpr
      ⟨hbip, st, connectTxs_without_scripts hplain htxs hqueue, hreward, hqueue, rfl⟩
  unfold connectBlock at h ⊢
  cases hblock : checkBlock ctx.crypto ctx.params ctx.block (!ctx.fJustCheck) (!ctx.fJustCheck) with
  | error e =>
    simp only [hblock] at h
    cases h
  | ok _ =>
    simp only [hblock] at h ⊢
    by_cases hgenesis : ctx.hash = ctx.params.hashGenesisBlock
    · exact (if_pos hgenesis).trans ((if_pos hgenesis).symm.trans h)
    refine (if_neg hgenesis).trans (Eq.trans ?_ ((if_neg hgenesis).symm.trans h))
    by_cases hprev : ctx.prev = []
    · rw [if_pos hprev, if_pos hprev]
    rw [if_neg hprev, if_neg hprev]
    replace h := (if_neg hprev).symm.trans ((if_neg hgenesis).symm.trans h)
    cases hc : connectCoins { ctx with fScriptChecks := true } view with
    | error e =>
      rw [hc] at h
      cases h
    | ok r' => rw [hcoins hc]

/-! ### Two spends of one key -/

/-- A call of `ConnectBlock` on a block of height 1. -/
def spendCall (block : Block) : ConnectContext where
  crypto := sampleCrypto
  params := sampleParams
  fScriptChecks := true
  parallel := false
  fJustCheck := false
  prev := [sampleGenesis]
  block := block

/-- The result of the call from an empty table and a view with one coin. -/
def spendConnect (fScriptChecks : Bool) (out : TxOut) (block : Block) :
    Except ConnectFailure (Connected × LeafDB) :=
  connectBlock { spendCall block with fScriptChecks := fScriptChecks } LeafDB.empty (sampleView out)

theorem plainSpends_leafSpendBlock :
    PlainSpends (spendCall leafSpendBlock).crypto (spendCall leafSpendBlock).nHeight
      (spendCall leafSpendBlock).block.vtx (sampleView leafSpendOut) := by
  refine ⟨nofun, fun view hview => ⟨fun _ i hi coin hcoin => ?_, fun _ _ => trivial⟩⟩
  -- The coinbase does not touch the coin that is spent.
  have hkept : ((updateCoins sampleCrypto (sampleView leafSpendOut)
      (sampleCoinbase 1 [⟨0, [OP_1]⟩]) 1).bind fun v => v samplePrevout) =
      some ⟨leafSpendOut, 1, false⟩ := by decide +kernel
  have hi' : i.prevout = samplePrevout ∧ i.scriptSig =
      chunkPushes (sampleSignature 5 leafSpendOut leafSpendOut.scriptPubKey) ++ [] := by
    rw [mem_singleton.mp hi]
    exact ⟨rfl, rfl⟩
  have hout : coin.out = leafSpendOut := by
    change updateCoins sampleCrypto (sampleView leafSpendOut) (sampleCoinbase 1 [⟨0, [OP_1]⟩]) 1 =
      some view at hview
    rw [hview, Option.bind_some, ← hi'.1, hcoin] at hkept
    rw [Option.some.inj hkept]
  have hpush : (plainPushes (chunkPushes (sampleSignature 5 leafSpendOut
      leafSpendOut.scriptPubKey) ++ [])).any (fun chunks =>
        chunks.all isChunk && decide (chunks.length ≤ XMSS_MAX_CHUNKS)) = true := by
    decide +kernel
  rw [Option.any_eq_true_iff_get] at hpush
  obtain ⟨hsome, hall⟩ := hpush
  rw [Bool.and_eq_true, all_eq_true, decide_eq_true_eq] at hall
  rw [hout]
  refine .inr ?_
  rw [hi'.2]
  exact .key (sampleKey 3).length_data (Option.some_get hsome).symm hall.1 hall.2

/-- The block with a P2XMSS spend has the same tables either way. -/
theorem connectBlock_without_scripts_leafSpendBlock :
    ∃ r db, spendConnect true leafSpendOut leafSpendBlock = .ok (r, db) ∧
      spendConnect false leafSpendOut leafSpendBlock = .ok (r, db) := by
  have hok : (spendConnect true leafSpendOut leafSpendBlock).toBool = true := by decide +kernel
  cases hconnect : spendConnect true leafSpendOut leafSpendBlock with
  | error e =>
    rw [hconnect] at hok
    cases hok
  | ok p =>
    obtain ⟨r, db⟩ := p
    exact ⟨r, db, rfl, @connectBlock_without_scripts (spendCall leafSpendBlock) _ _ _ _
      plainSpends_leafSpendBlock hconnect⟩

/-- The same XMSS script as a redeem script. -/
def wrappedOut : TxOut := ⟨1000, scriptHashScript (xmssScript (sampleKey 3))⟩

/-- A block that spends it with leaf 5. -/
def wrappedBlock : Block :=
  spendBlock (sampleSpend 5 wrappedOut (xmssScript (sampleKey 3))
    (pushBytes (xmssScript (sampleKey 3))))

/-- A P2SH spend is accepted either way. Its leaf is in the table only if its scripts are run. -/
theorem wrappedSpend_not_extracted :
    (spendConnect true wrappedOut wrappedBlock).toOption.map (fun p =>
        (p.2.leaf (makePoUWLeafKey sampleCrypto (sampleKey 3).data 5)).isSome) = some true ∧
      (spendConnect false wrappedOut wrappedBlock).toOption.map (fun p =>
        (p.2.leaf (makePoUWLeafKey sampleCrypto (sampleKey 3).data 5)).isSome) = some false := by
  decide +kernel

end AssentianPQE
