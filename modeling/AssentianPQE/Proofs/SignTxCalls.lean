import AssentianPQE.Proofs.SignerCalls
import AssentianPQE.Wallet.SignTx
import AssentianPQE.Wallet.Wallet

/-!
# `AssentianPQE.Proofs.SignTxCalls`: the calls of `SignXMSS` in `SignTransaction`

`SignTransaction` of `script/sign.cpp` reaches the keys and the ledger through `SignXMSS` only, at
most once for each input.

`signTransaction_calls`: whatever the inputs are, it leaves the ledger and the signer as a list of
calls of `SignXMSS` does, with the same crash. Every call is for the key of an input.
`signTransaction_kept` is the rule that follows: what each of these calls keeps, the whole of it
keeps.
-/

set_option autoImplicit false

namespace AssentianPQE

open Lib Durable List CXMSSSigner

/-- The ledger and the signer that a call leaves. -/
def signerOf {α : Type} (r : LedgerDir × Option ((α × CXMSSSigner) × Nat)) :
    LedgerDir × Option (CXMSSSigner × Nat) :=
  (r.1, r.2.map fun p => (p.1.2, p.2))

/-- Calls of `SignXMSS`, one after the other. -/
def signCalls (x : XmssKeys) : List SignerCall → CXMSSSigner → Durable LedgerDir CXMSSSigner
  | [], s => pure s
  | call :: calls, s => do
    let (_, s) ← s.signXMSS x call.env call.hash call.pubkey
    signCalls x calls s

/-! ### One call -/

section Call
variable {c : Crypto} {x : XmssKeys} {env : SignEnv}

/-- `SignXMSS` asks the environment for two answers only. -/
theorem signXMSS_eq_call (halone : env.Alone) (hash : Uint256) (pubkey : Bytes) (s : CXMSSSigner) :
    s.signXMSS x env hash pubkey =
      s.signXMSS x (SignerCall.env ⟨env.init, env.claim, hash, pubkey⟩) hash pubkey := by
  unfold signXMSS ensureLedger
  rw [halone 1, halone 2]
  rfl

/-- `SignXMSS` leaves the key ids as they are. -/
theorem keyIdMap_signXMSS (halone : env.Alone) {hash : Uint256} {pubkey : Bytes}
    {s s' : CXMSSSigner} {d d' : LedgerDir} {n n' : Nat} {out : Option (Bytes × UInt32)}
    (h : s.signXMSS x env hash pubkey d n = (d', some ((out, s'), n'))) :
    s'.keyIdMap = s.keyIdMap := by
  have hafter := ((signXMSS_ensures x halone hash pubkey s d).of_eq h).2 out s' rfl
  match out with
  | none =>
    obtain rfl : s' = s := hafter
    rfl
  | some (sig, leaf) =>
    obtain ⟨entry, -, -, -, rfl⟩ := hafter
    unfold retire
    split <;> rfl

/-- `SignStep` makes one call of `SignXMSS`, and it keeps nothing else. -/
theorem signStep_call (halone : env.Alone) (chainId : UInt32) (t : TxContext) {pubkey : Bytes}
    (hlen : pubkey.length = 64) (script : Script) (sigversion : SigVersion) (s : CXMSSSigner)
    (d : LedgerDir) (n : Nat) :
    ∃ hash, signerOf (signStep c x env chainId t pubkey script sigversion s d n) =
      signerOf (s.signXMSS x env hash pubkey d n) := by
  let hash := sighashV2 c (signatureHash c t script SIGHASH_ALL sigversion)
    (s.getXMSSLeafIndex env.status pubkey d) chainId
  refine ⟨hash, ?_⟩
  obtain ⟨f, hcreate, hnone, hsome⟩ : ∃ f, createXMSSSig c x env chainId t pubkey script sigversion
      ∅ s d n = (s.signXMSS x env hash pubkey >>= f) d n ∧
      (∀ s', f (none, s') = pure (none, ∅, s')) ∧ ∀ sig leaf s', f (some (sig, leaf), s') =
        pure (some sig, (∅ : XmssSignatures).insert pubkey sig, s') := by
    unfold createXMSSSig
    rw [Std.ExtTreeMap.getElem?_empty]
    dsimp only
    rw [halone 0]
    exact ⟨_, rfl, fun _ => rfl, fun _ _ _ => rfl⟩
  unfold signStep
  rw [if_neg (not_not.mpr hlen)]
  -- The process dies in the call, the key does not sign, or there is a signature.
  rcases hsign : s.signXMSS x env hash pubkey d n with ⟨d', _ | ⟨⟨_ | ⟨sig, leaf⟩, s'⟩, n'⟩⟩
  · rw [bind_of_none hsign] at hcreate
    rw [bind_of_none hcreate]
    rfl
  · rw [bind_of_some hsign, hnone] at hcreate
    rw [bind_of_some hcreate]
    rfl
  · rw [bind_of_some hsign, hsome] at hcreate
    rw [bind_of_some hcreate]
    dsimp only
    split <;> rfl

end Call

/-! ### Lists of calls -/

section Calls
variable {x : XmssKeys}

theorem alone_env (call : SignerCall) : call.env.Alone :=
  fun _ => rfl

theorem signCalls_singleton (call : SignerCall) (s : CXMSSSigner) (d : LedgerDir) (n : Nat) :
    signCalls x [call] s d n = signerOf (s.signXMSS x call.env call.hash call.pubkey d n) := by
  unfold signCalls
  match hsign : s.signXMSS x call.env call.hash call.pubkey d n with
  | (d', none) =>
    rw [bind_of_none hsign]
    rfl
  | (d', some ((out, s'), n')) =>
    rw [bind_of_some hsign]
    rfl

/-- A list of calls after another one. -/
theorem signCalls_append (calls calls' : List SignerCall) (s : CXMSSSigner) :
    signCalls x (calls ++ calls') s = signCalls x calls s >>= signCalls x calls' := by
  induction calls generalizing s with
  | nil => rfl
  | cons call calls ih =>
    rw [cons_append]
    unfold signCalls
    rw [Durable.bind_assoc]
    congr 1
    funext p
    exact ih p.2

theorem keyIdMap_signCalls (calls : List SignerCall) :
    ∀ {s s' : CXMSSSigner} {d d' : LedgerDir} {n n' : Nat},
      signCalls x calls s d n = (d', some (s', n')) → s'.keyIdMap = s.keyIdMap := by
  induction calls with
  | nil =>
    intro s s' d d' n n' h
    cases h
    rfl
  | cons call calls ih =>
    intro s s' d d' n n' h
    obtain ⟨d₁, ⟨out, s₁⟩, n₁, hsign, hrest⟩ := bind_eq_some h
    exact (ih hrest).trans (keyIdMap_signXMSS (alone_env call) hsign)

/-- The key of a template depends on the key ids only. -/
theorem xmssPubkey_congr {s s' : CXMSSSigner} (h : s'.keyIdMap = s.keyIdMap) (script : Script) :
    xmssPubkey s' script = xmssPubkey s script := by
  unfold xmssPubkey getPubKeyForHash
  rw [h]

/-- What follows a call and returns its signer leaves the same ledger and signer. -/
theorem signerOf_bind_pure {α β : Type} (y : Durable LedgerDir (α × CXMSSSigner))
    (f : α × CXMSSSigner → Durable LedgerDir (β × CXMSSSigner))
    (hf : ∀ p, ∃ b, f p = pure (b, p.2)) (d : LedgerDir) (n : Nat) :
    signerOf ((y >>= f) d n) = signerOf (y d n) := by
  match hy : y d n with
  | (d', none) =>
    rw [bind_of_none hy]
    rfl
  | (d', some (p, n')) =>
    obtain ⟨b, hb⟩ := hf p
    rw [bind_of_some hy, hb]
    rfl

end Calls

/-! ### The inputs -/

namespace SignCall

variable {c : Crypto} {x : XmssKeys} {a : SignCall}

/-- The key that an input is signed with, for an output that it spends. -/
def inputKey (a : SignCall) (c : Crypto) (s : CXMSSSigner) (n : Nat) (out : TxOut) :
    Option Bytes :=
  xmssPubkey s (signPath c (a.data n) out.scriptPubKey).script

/-- One input is signed with one call, or with none. -/
theorem solveInput_calls {n : Nat} (halone : (a.env n).Alone) (txin : TxIn) (out : TxOut)
    (s : CXMSSSigner) (d : LedgerDir) (m : Nat) :
    ∃ calls : List SignerCall, (∀ call ∈ calls, a.inputKey c s n out = some call.pubkey) ∧
      signerOf (a.solveInput c x n txin out s d m) = signCalls x calls s d m := by
  unfold solveInput
  split
  · exact ⟨[], by simp, rfl⟩
  unfold produceSignature
  dsimp only
  cases hkey : xmssPubkey s (signPath c (a.data n) out.scriptPubKey).script with
  | none => exact ⟨[], by simp, rfl⟩
  | some pubkey =>
    dsimp only
    rw [signerOf_bind_pure _ _ fun p => ⟨_, rfl⟩]
    by_cases hlen : pubkey.length = 64
    · obtain ⟨hash, hcall⟩ := signStep_call (c := c) (x := x) halone a.chainId
        (a.context n txin out a.chainId) hlen (signPath c (a.data n) out.scriptPubKey).script
        (signPath c (a.data n) out.scriptPubKey).sigversion s d m
      refine ⟨[⟨(a.env n).init, (a.env n).claim, hash, pubkey⟩], ?_, ?_⟩
      · intro call hmem
        rw [mem_singleton.mp hmem]
        exact hkey
      · rw [hcall, signCalls_singleton, signXMSS_eq_call halone]
    · -- A key of another size is refused before the call.
      refine ⟨[], by simp, ?_⟩
      unfold signStep
      rw [if_pos hlen]
      rfl

theorem signInputs_calls (halone : ∀ n, (a.env n).Alone) (vin : List TxIn) :
    ∀ (n : Nat) (s : CXMSSSigner) (d : LedgerDir) (m : Nat), ∃ calls : List SignerCall,
      (∀ call ∈ calls, ∃ i txin out, vin[i]? = some txin ∧ a.coins txin.prevout = some out ∧
        a.inputKey c s (n + i) out = some call.pubkey) ∧
      signerOf (a.signInputs c x n vin s d m) = signCalls x calls s d m := by
  induction vin with
  | nil =>
    intro n s d m
    exact ⟨[], by simp, rfl⟩
  | cons txin rest ih =>
    intro n s d m
    -- The keys of the inputs after the first one.
    have hshift : ∀ (s' : CXMSSSigner) (calls : List SignerCall), s'.keyIdMap = s.keyIdMap →
        (∀ call ∈ calls, ∃ i txin out, rest[i]? = some txin ∧ a.coins txin.prevout = some out ∧
          a.inputKey c s' (n + 1 + i) out = some call.pubkey) →
        ∀ call ∈ calls, ∃ i txin' out, (txin :: rest)[i]? = some txin' ∧
          a.coins txin'.prevout = some out ∧ a.inputKey c s (n + i) out = some call.pubkey := by
      intro s' calls hmap hcalls call hmem
      obtain ⟨i, txin', out, hget, hcoin, hkey⟩ := hcalls call hmem
      refine ⟨i + 1, txin', out, hget, hcoin, ?_⟩
      rw [inputKey, xmssPubkey_congr hmap] at hkey
      rwa [inputKey, Nat.add_comm i 1, ← Nat.add_assoc]
    unfold signInputs
    cases hcoin : a.coins txin.prevout with
    | none =>
      obtain ⟨calls, hkeys, hcalls⟩ := ih (n + 1) s d m
      refine ⟨calls, hshift s calls rfl hkeys, ?_⟩
      rw [← hcalls]
      exact signerOf_bind_pure _ _ (fun p => ⟨_, rfl⟩) d m
    | some out =>
      obtain ⟨calls, hkeys, hcalls⟩ := solveInput_calls (c := c) (x := x) (halone n) txin out s d m
      have hfirst : ∀ call ∈ calls, ∃ i txin' out, (txin :: rest)[i]? = some txin' ∧
          a.coins txin'.prevout = some out ∧ a.inputKey c s (n + i) out = some call.pubkey :=
        fun call hmem => ⟨0, txin, out, rfl, hcoin, hkeys call hmem⟩
      dsimp only
      match hsolve : a.solveInput c x n txin out s d m with
      | (d', none) =>
        refine ⟨calls, hfirst, ?_⟩
        rw [← hcalls, hsolve, bind_of_none hsolve]
        rfl
      | (d', some ((solution, s'), m')) =>
        rw [hsolve] at hcalls
        have hdone : signCalls x calls s d m = (d', some (s', m')) := hcalls.symm
        obtain ⟨calls', hkeys', hcalls'⟩ := ih (n + 1) s' d' m'
        refine ⟨calls ++ calls', ?_, ?_⟩
        · intro call hmem
          rcases mem_append.mp hmem with hmem | hmem
          · exact hfirst call hmem
          · exact hshift s' calls' (keyIdMap_signCalls calls hdone) hkeys' call hmem
        · rw [bind_of_some hsolve, signCalls_append, bind_of_some hdone, ← hcalls']
          exact signerOf_bind_pure _ _ (fun p => ⟨_, rfl⟩) d' m'

/-- **The calls of `SignTransaction`.** It leaves the ledger and the signer as calls of `SignXMSS`
for keys of its inputs do. -/
theorem signTransaction_calls (halone : ∀ n, (a.env n).Alone) (s : CXMSSSigner) (d : LedgerDir)
    (m : Nat) :
    ∃ calls : List SignerCall,
      (∀ call ∈ calls, ∃ n txin out, a.tx.vin[n]? = some txin ∧ a.coins txin.prevout = some out ∧
        a.inputKey c s n out = some call.pubkey) ∧
      signerOf (a.signTransaction c x s d m) = signCalls x calls s d m := by
  obtain ⟨calls, hkeys, hcalls⟩ := signInputs_calls (c := c) (x := x) halone a.tx.vin 0 s d m
  refine ⟨calls, ?_, ?_⟩
  · intro call hmem
    obtain ⟨i, txin, out, hget, hcoin, hkey⟩ := hkeys call hmem
    rw [Nat.zero_add] at hkey
    exact ⟨i, txin, out, hget, hcoin, hkey⟩
  · rw [← hcalls]
    exact signerOf_bind_pure _ _ (fun p => ⟨_, rfl⟩) d m

/-! ### What the calls keep -/

theorem signCalls_kept {Inv : CXMSSSigner → LedgerDir → Prop} (calls : List SignerCall) :
    (∀ call ∈ calls, ∀ s d, Inv s d →
      (s.signXMSS x call.env call.hash call.pubkey).Ensures d fun d' r =>
        ∀ out, r = some out → Inv out.2 d') →
    ∀ {s : CXMSSSigner} {d : LedgerDir}, Inv s d →
      (signCalls x calls s).Ensures d fun d' r => ∀ s', r = some s' → Inv s' d' := by
  induction calls with
  | nil =>
    intro _ s d h
    refine ensures_pure ?_
    intro s' heq
    rwa [← Option.some.inj heq]
  | cons call calls ih =>
    intro hcalls s d h
    refine ensures_bind (hcalls call mem_cons_self s d h) (by simp) ?_
    intro d₁ p hp
    exact ih (fun call hmem => hcalls call (mem_cons_of_mem _ hmem)) (hp p rfl)

/-- What every call of `SignXMSS` for a key of an input keeps, `SignTransaction` keeps. -/
theorem signTransaction_kept {Inv : CXMSSSigner → LedgerDir → Prop}
    (halone : ∀ n, (a.env n).Alone) {s : CXMSSSigner} {d : LedgerDir} (h : Inv s d)
    (hcall : ∀ (call : SignerCall) (n : Nat) (txin : TxIn) (out : TxOut),
      a.tx.vin[n]? = some txin → a.coins txin.prevout = some out →
      a.inputKey c s n out = some call.pubkey → ∀ s' d', Inv s' d' →
      (s'.signXMSS x call.env call.hash call.pubkey).Ensures d' fun d'' r =>
        ∀ out, r = some out → Inv out.2 d'') :
    (a.signTransaction c x s).Ensures d fun d' r => ∀ out, r = some out → Inv out.2 d' := by
  intro m out hout
  obtain ⟨calls, hkeys, hcalls⟩ := signTransaction_calls (c := c) (x := x) halone s d m
  have hkept := signCalls_kept (x := x) calls (fun call hmem s' d' h' => by
    obtain ⟨n, txin, o, hget, hcoin, hkey⟩ := hkeys call hmem
    exact hcall call n txin o hget hcoin hkey s' d' h') h m
  obtain ⟨p, hp, rfl⟩ := Option.map_eq_some_iff.mp hout
  rw [← hcalls] at hkept
  refine hkept p.1.2 ?_
  unfold signerOf
  rw [hp]
  rfl

end SignCall

end AssentianPQE
