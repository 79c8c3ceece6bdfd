import AssentianPQE.Lib.Durable
import AssentianPQE.Xmss

/-!
# `AssentianPQE.Xmss.Ledger`: the tree ledger

`XMSSMinerState` (`xmss_miner_state.h`) and the ledger of `xmss_tree_ledger.cpp`: one file for
each tree, which mining and wallet code share. Every function of the ledger holds one mutex, so
its calls never overlap, and it keeps nothing in memory.

The functions are programs on the directory `xmss_trees` (`LedgerDir`), which a crash can cut
off before any write. `rename` is one write. What the environment answers to a call is `Io`:
which operations on files fail, and the random bytes. An exception of `fs::rename` counts as a
failure: no caller inside the ledger catches it.

The signing code is a parameter (`XmssKeys`). `SignSpec` is what is assumed about it.
-/

set_option autoImplicit false

namespace AssentianPQE

open Lib

/-! ### The vendored signing code -/

/-- `xmss_keypair` and `xmss_sign` for OID 1. -/
structure XmssKeys where
  /-- The public and the secret key for the random bytes drawn, both with the OID in front. -/
  keypair : Bytes → Option (Bytes × Bytes)
  /-- The signed message, and the secret key after signing. -/
  sign : Bytes → Bytes → Option (Bytes × Bytes)

/-- The index that a secret key stores after its OID, most significant byte first. -/
def skIndex (sk : Bytes) : Nat :=
  readBE ((sk.drop 4).take 4)

/-- What is assumed of `xmss_sign`: it signs with the index stored in the secret key, which the
signature starts with, and increments it in place. -/
structure SignSpec (x : XmssKeys) : Prop where
  signs_index : ∀ sk msg sm sk', x.sign sk msg = some (sm, sk') →
    sm.length = XMSS_SIG_BYTES + msg.length ∧ leafIndexOf sm = skIndex sk
  increments : ∀ sk msg sm sk', x.sign sk msg = some (sm, sk') →
    sk'.length = sk.length ∧ skIndex sk' = skIndex sk + 1

/-! ### `XMSSMinerState` -/

def MINER_SK_BYTES : UInt32 := 2048
def XMSS_MAX_LEAVES : UInt32 := 1023
def STATE_MAGIC : UInt32 := 0x534E5432
def STATE_VERSION : UInt32 := 2
def STATE_VERSION_MIN_COMPAT : UInt32 := 1
def OWNER_STAMP_BYTES : Nat := 16

/-- A four-byte integer, least significant byte first, from the front. -/
def takeU32 (bs : Bytes) : Option (UInt32 × Bytes) :=
  (takeN 4 bs).map fun p => (UInt32.ofNat (readLE p.1), p.2)

/-- `n` bytes from the front. -/
def takeBlob (n : Nat) (bs : Bytes) : Option (Blob n × Bytes) :=
  if h : n ≤ bs.length then some (⟨bs.take n, by rw [List.length_take]; omega⟩, bs.drop n) else none

/-- `XMSSMinerState`. -/
structure XMSSMinerState where
  magic : UInt32 := STATE_MAGIC
  version : UInt32 := STATE_VERSION
  xmssRoot : Uint256
  nextLeafIndex : UInt32 := 0
  skLen : UInt32 := 0
  sk : Bytes
  ownerStamp : Blob OWNER_STAMP_BYTES := Blob.zero OWNER_STAMP_BYTES
deriving DecidableEq

namespace XMSSMinerState

/-- `IsValid`. -/
def isValid (s : XMSSMinerState) : Bool :=
  s.magic = STATE_MAGIC ∧ STATE_VERSION_MIN_COMPAT ≤ s.version ∧ s.version ≤ STATE_VERSION ∧
    s.xmssRoot ≠ nullHash ∧ s.nextLeafIndex < XMSS_MAX_LEAVES ∧ 0 < s.skLen ∧
    s.sk.length = s.skLen.toNat

/-- `IsExhausted`. -/
def isExhausted (s : XMSSMinerState) : Bool :=
  XMSS_MAX_LEAVES ≤ s.nextLeafIndex

/-- `Serialize`. -/
def serialize (s : XMSSMinerState) : Bytes :=
  serU32 s.magic ++ (serU32 s.version ++ (s.xmssRoot.data ++ (serU32 s.nextLeafIndex ++
    (serU32 s.skLen ++ (s.sk ++ s.ownerStamp.data)))))

/-- `Deserialize`. Bytes after the state are ignored. -/
def deserialize (data : Bytes) : Option XMSSMinerState := do
  let (magic, ds) ← takeU32 data
  let (version, ds) ← takeU32 ds
  if magic ≠ STATE_MAGIC then none
  else if version < STATE_VERSION_MIN_COMPAT ∨ STATE_VERSION < version then none
  else do
    let (xmssRoot, ds) ← takeBlob 32 ds
    let (nextLeafIndex, ds) ← takeU32 ds
    let (skLen, ds) ← takeU32 ds
    if skLen = 0 ∨ MINER_SK_BYTES < skLen then none
    else do
      let (sk, ds) ← takeN skLen.toNat ds
      if 2 ≤ version then do
        let (ownerStamp, _) ← takeBlob OWNER_STAMP_BYTES ds
        some ⟨magic, version, xmssRoot, nextLeafIndex, skLen, sk, ownerStamp⟩
      else some ⟨magic, version, xmssRoot, nextLeafIndex, skLen, sk, Blob.zero OWNER_STAMP_BYTES⟩

end XMSSMinerState

/-! ### The directory -/

/-- The directory `xmss_trees`: the ledger files with their temporary files, the file
`.instance_id`, and the sentinels of the operator. -/
structure LedgerDir where
  dat : Uint256 → Option Bytes
  tmp : Uint256 → Option Bytes
  instanceId : Option Bytes
  forceclaim : Uint256 → Bool

/-- A directory without files. -/
def LedgerDir.empty : LedgerDir :=
  ⟨fun _ => none, fun _ => none, none, fun _ => false⟩

/-- What the environment answers to one call. -/
structure Io where
  /-- A ledger file can be opened for reading. -/
  datOpens : Bool := true
  /-- The file `.instance_id` can be opened for reading. -/
  idOpens : Bool := true
  /-- The bytes of a new instance id, and how many of them are written (`none` if the file
  cannot be opened for writing). -/
  freshId : Blob OWNER_STAMP_BYTES
  idWritten : Option Nat := some OWNER_STAMP_BYTES
  /-- The temporary file can be opened for writing. -/
  tmpOpens : Bool := true
  /-- A write that falls short, with the number of bytes written. -/
  shortWrite : Option Nat := none
  fsyncOk : Bool := true
  renameOk : Bool := true

/-- `IsXMSSTreeBlacklisted`. -/
def isXMSSTreeBlacklisted (root : Uint256) : Bool :=
  [0xacb5d0c24eb38273f963955cb84469c17829e58fcbd59b0d685b2e439a26daf8,
    0x7bd2526260a2e8121ba93a0bd3088f4af631e69c330b467b318af8f544fb0964,
    0xf31f80e1428951e88a2562fe4dc7134e835c0cd2b10b1f5f3c7eb8f258a40a1f].any
    fun raw => beBytes 32 raw = root.data

/-- `GetOrCreateInstanceId`. -/
def getOrCreateInstanceId (io : Io) : Durable LedgerDir (Blob OWNER_STAMP_BYTES) := do
  let stored ← Durable.read fun d => d.instanceId.bind fun file =>
    if io.idOpens then (takeBlob OWNER_STAMP_BYTES file).map Prod.fst else none
  match stored, io.idWritten with
  | some id, _ => pure id
  | none, none => pure io.freshId
  | none, some written => do
    -- The file is truncated when it is opened.
    Durable.write fun d => { d with instanceId := some [] }
    Durable.write fun d => { d with instanceId := some (io.freshId.data.take written) }
    pure io.freshId

/-- `LoadLocked`. -/
def loadLocked (io : Io) (root : Uint256) (d : LedgerDir) : Option XMSSMinerState :=
  (d.dat root).bind fun data =>
    if io.datOpens then
      (XMSSMinerState.deserialize data).filter fun state => state.xmssRoot = root
    else none

/-- `SaveLocked`: the temporary file is written and synced, and then takes the place of the
ledger file. -/
def saveLocked (io : Io) (state : XMSSMinerState) : Durable LedgerDir Bool :=
  let root := state.xmssRoot
  let data := state.serialize
  if !io.tmpOpens then pure false
  else do
    Durable.write fun d => { d with tmp := Function.update d.tmp root (some []) }
    match io.shortWrite with
    | some written => do
      Durable.write fun d => { d with tmp := Function.update d.tmp root (some (data.take written)) }
      pure false
    | none => do
      Durable.write fun d => { d with tmp := Function.update d.tmp root (some data) }
      if !io.fsyncOk || !io.renameOk then pure false
      else do
        Durable.write fun d =>
          { d with
            dat := Function.update d.dat root (some data)
            tmp := Function.update d.tmp root none }
        pure true

/-! ### The calls -/

/-- `XMSSTreeLedgerExists`. -/
def xmssTreeLedgerExists (root : Uint256) (d : LedgerDir) : Bool :=
  (d.dat root).isSome

/-- A state as a datadir writes it for the first time. -/
def stampAndSave (io : Io) (state : XMSSMinerState) : Durable LedgerDir Bool := do
  let id ← getOrCreateInstanceId io
  saveLocked io { state with version := STATE_VERSION, ownerStamp := id }

/-- `XMSSTreeLedgerSeedFromActive`. -/
def xmssTreeLedgerSeedFromActive (io : Io) (active : XMSSMinerState) : Durable LedgerDir Bool := do
  if ← Durable.read (xmssTreeLedgerExists active.xmssRoot) then pure false
  else if !active.isValid then pure false
  else stampAndSave io active

/-- `XMSSTreeLedgerInit`. -/
def xmssTreeLedgerInit (io : Io) (fresh : XMSSMinerState) : Durable LedgerDir Bool :=
  if !fresh.isValid then pure false
  else do
    if ← Durable.read (xmssTreeLedgerExists fresh.xmssRoot) then pure true
    else stampAndSave io fresh

/-- The state with which `XMSSTreeLedgerClaimAndSign` signs, and the signed message: the tree
has a leaf left, and the secret key stores the index of that leaf. -/
def signNext (x : XmssKeys) (hash32 : Bytes) (state : XMSSMinerState) :
    Option (Bytes × XMSSMinerState) :=
  if state.isExhausted then none
  else if hash32.length ≠ 32 then none
  else if skIndex state.sk ≠ state.nextLeafIndex.toNat then none
  else
    match x.sign state.sk hash32 with
    | none => none
    | some (sm, sk) =>
      if sm.length < hash32.length then none
      else some (sm, { state with sk := sk, nextLeafIndex := state.nextLeafIndex + 1 })

/-- `XMSSTreeLedgerClaimAndSign` once the datadir owns the tree. The state is saved before the
signature is returned. -/
def signAndSave (x : XmssKeys) (io : Io) (hash32 : Bytes) (state : XMSSMinerState) :
    Durable LedgerDir (Option (Bytes × UInt32)) :=
  match signNext x hash32 state with
  | none => pure none
  | some (sm, next) => do
    if ← saveLocked io next then
      pure (some (sm.take (sm.length - hash32.length), state.nextLeafIndex))
    else pure none

/-- `XMSSTreeLedgerClaimAndSign`: the signature and the leaf that it used. -/
def xmssTreeLedgerClaimAndSign (x : XmssKeys) (io : Io) (root : Uint256) (hash32 : Bytes) :
    Durable LedgerDir (Option (Bytes × UInt32)) :=
  if isXMSSTreeBlacklisted root then pure none
  else do
    match ← Durable.read (loadLocked io root) with
    | none => pure none
    | some state => do
      let id ← getOrCreateInstanceId io
      let owned := { state with version := STATE_VERSION, ownerStamp := id }
      if state.ownerStamp = Blob.zero OWNER_STAMP_BYTES ∨ state.ownerStamp = id then
        signAndSave x io hash32 owned
      else if ← Durable.read fun d => d.forceclaim root then do
        -- The override of the operator is used up.
        Durable.write fun d => { d with forceclaim := Function.update d.forceclaim root false }
        signAndSave x io hash32 owned
      else pure none

/-- `XMSSTreeLedgerStatus`: the next leaf. -/
def xmssTreeLedgerStatus (io : Io) (root : Uint256) (d : LedgerDir) : Option UInt32 :=
  (loadLocked io root d).map XMSSMinerState.nextLeafIndex

/-! ### Runs -/

/-- A leaf that `XMSSTreeLedgerClaimAndSign` has returned with its signature. -/
structure LedgerClaim where
  root : Uint256
  leaf : UInt32
  sig : Bytes
deriving DecidableEq

/-- A directory, with a log of the leaves that were returned, the last one first. No function of
the source reads the log. -/
structure LedgerRun where
  disk : LedgerDir
  returned : List LedgerClaim := []

/-- What can happen to the directory. Every call comes with the number of writes after which its
process dies; the process is then started again. -/
inductive LedgerOp where
  | init (io : Io) (fresh : XMSSMinerState) (crash : Nat)
  | seedFromActive (io : Io) (active : XMSSMinerState) (crash : Nat)
  | claimAndSign (io : Io) (root : Uint256) (hash32 : Bytes) (crash : Nat)
  /-- The operator creates the sentinel of a tree. -/
  | forceclaim (root : Uint256)

/-- After a call of `XMSSTreeLedgerClaimAndSign`. -/
def LedgerRun.note (s : LedgerRun) (root : Uint256) :
    LedgerDir × Option (Option (Bytes × UInt32)) → LedgerRun
  | (disk, some (some (sig, leaf))) => ⟨disk, ⟨root, leaf, sig⟩ :: s.returned⟩
  | (disk, some none) => { s with disk := disk }
  | (disk, none) => { s with disk := disk }

/-- The effect of an operation. -/
def LedgerRun.step (x : XmssKeys) (s : LedgerRun) : LedgerOp → LedgerRun
  | .init io fresh crash => { s with disk := ((xmssTreeLedgerInit io fresh).run s.disk crash).1 }
  | .seedFromActive io active crash =>
    { s with disk := ((xmssTreeLedgerSeedFromActive io active).run s.disk crash).1 }
  | .claimAndSign io root hash32 crash =>
    s.note root ((xmssTreeLedgerClaimAndSign x io root hash32).run s.disk crash)
  | .forceclaim root =>
    { s with disk := { s.disk with forceclaim := Function.update s.disk.forceclaim root true } }

/-- A run on a directory. -/
def ledgerRun (x : XmssKeys) (ops : List LedgerOp) (d : LedgerDir) : LedgerRun :=
  ops.foldl (LedgerRun.step x) { disk := d }

end AssentianPQE
