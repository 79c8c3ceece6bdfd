import AssentianPQE.Xmss.Ledger

/-!
# `AssentianPQE.Wallet.Signer`: `CXMSSSigner`

The keys of a wallet (`wallet/xmss_signer.cpp`), and what it uses of `CXMSSKey`
(`xmss_bridge.cpp`). A signer is memory: it is passed to a function and returned by it. The
functions that call the tree ledger are programs on its directory. `cs_xmss_signer` is held by
one call at a time, but other threads can call the ledger between two calls of the signer to it
(`SignEnv.others`).

The maps of the signer are ordered by their keys, so `SaveState` writes the keys in that order.
Labels are left out: nothing reads them.
-/

set_option autoImplicit false

namespace AssentianPQE

open Lib

def XMSS_PUBKEY_SIZE : Nat := 64

/-! ### `CXMSSKey` -/

/-- The digest size `n` of the parameter sets that `xmss_parse_oid` knows. -/
def xmssParseOid (oid : Nat) : Option Nat :=
  if oid ∈ [13, 14, 15, 19, 20, 21] then some 24
  else if oid ∈ [1, 2, 3, 7, 8, 9, 16, 17, 18] then some 32
  else if oid ∈ [4, 5, 6, 10, 11, 12] then some 64
  else none

/-- `CXMSSKey::GetPubKey`, for a public key with its OID. -/
def getPubKey (pk : Bytes) : Bytes :=
  if pk.length < 4 + 64 then [] else (pk.drop 4).take 64

/-- `CXMSSKey::Load`: the public key with its OID. The length of the secret key is checked up to
the root only, so the public seed can be read from the memory behind it. -/
def loadKey (behind sk : Bytes) : Option Bytes :=
  if sk.length < 4 then none
  else
    match xmssParseOid (readBE (sk.take 4)) with
    | none => none
    | some n =>
      if sk.length < 4 + 4 + 2 * n + n then none
      else some (sk.take 4 ++
        ((sk.drop (4 + 4 + 2 * n)).take n ++ ((sk ++ behind).drop (4 + 4 + 3 * n)).take n))

/-! ### The signer -/

/-- `XMSSKeyEntry`: the secret key of `CXMSSKey`, and the state of the key. -/
structure XMSSKeyEntry where
  sk : Bytes
  leafIndex : UInt32 := 0
  retired : Bool := false
  imported : Bool := false
deriving DecidableEq

/-- `CXMSSSigner`. -/
structure CXMSSSigner where
  xmssKeys : Std.ExtTreeMap Bytes XMSSKeyEntry
  keyIdMap : Blob 20 → Option Bytes

namespace CXMSSSigner

/-- A signer without keys. -/
def empty : CXMSSSigner :=
  ⟨∅, fun _ => none⟩

/-- `GetXMSSKeyID`. -/
def getXMSSKeyID (c : Crypto) (pubkey : Bytes) : Blob 20 :=
  c.hash160 pubkey

/-- An entry and its key id. -/
def insert (c : Crypto) (pubkey : Bytes) (entry : XMSSKeyEntry) (s : CXMSSSigner) : CXMSSSigner :=
  ⟨s.xmssKeys.insert pubkey entry,
    Function.update s.keyIdMap (getXMSSKeyID c pubkey) (some pubkey)⟩

/-- `AddXMSSKey`: the key of `importxmsskey`. -/
def addXMSSKey (c : Crypto) (behind pubkey seckey : Bytes) (s : CXMSSSigner) :
    Option CXMSSSigner :=
  if pubkey.length ≠ XMSS_PUBKEY_SIZE then none
  else if seckey = [] then none
  else
    match loadKey behind seckey with
    | none => none
    | some pk =>
      if getPubKey pk ≠ pubkey then none
      else some (s.insert c pubkey { sk := seckey, imported := true })

/-- `GetPubKeyForHash`, which `GetXMSSPubKey` repeats. -/
def getPubKeyForHash (addrHash : Blob 20) (s : CXMSSSigner) : Bytes :=
  (s.keyIdMap addrHash).getD []

/-- `GetSecKeyForPubkey`. -/
def getSecKeyForPubkey (pubkey : Bytes) (s : CXMSSSigner) : Bytes :=
  ((s.xmssKeys[pubkey]?).map XMSSKeyEntry.sk).getD []

/-- `CountFreshKeys`. -/
def countFreshKeys (s : CXMSSSigner) : Nat :=
  s.xmssKeys.toList.countP fun p => !p.2.retired

end CXMSSSigner

/-! ### Calls to the ledger -/

/-- The root in a public key: its first 32 bytes. -/
def rootOf (pubkey : Bytes) : Uint256 :=
  if h : 32 ≤ pubkey.length then ⟨pubkey.take 32, by rw [List.length_take]; omega⟩ else nullHash

/-- The state of a tree of which no leaf was used. -/
def freshState (root : Uint256) (sk : Bytes) : XMSSMinerState where
  xmssRoot := root
  nextLeafIndex := 0
  skLen := UInt32.ofNat sk.length
  sk := sk

/-- What the environment does while a key signs: its answers to the calls of the ledger, and what
other threads do to the ledger between them. `others 0` is after the next leaf was read,
`others 1` before a ledger is created and `others 2` before the leaf is claimed. -/
structure SignEnv where
  status : Io
  init : Io
  claim : Io
  others : Nat → Durable LedgerDir Unit := fun _ => pure ()

namespace CXMSSSigner

/-- `GenerateKey` for the random bytes drawn: the public key, or no bytes if it fails. A ledger
that cannot be written is not an error. -/
def generateKey (c : Crypto) (x : XmssKeys) (io : Io) (seed : Bytes) (s : CXMSSSigner) :
    Durable LedgerDir (Bytes × CXMSSSigner) :=
  match x.keypair seed with
  | none => pure ([], s)
  | some (pk, sk) =>
    let pubkey := getPubKey pk
    if pubkey.length ≠ XMSS_PUBKEY_SIZE then pure ([], s)
    else do
      let _ ← xmssTreeLedgerInit io (freshState (rootOf pubkey) sk)
      pure (pubkey, s.insert c pubkey { sk := sk })

/-- The part of `SignXMSS` that looks for the ledger of the key. A native key without one gets
one, an imported key is refused. -/
def ensureLedger (env : SignEnv) (pubkey : Bytes) (entry : XMSSKeyEntry) :
    Durable LedgerDir Bool := do
  if ← Durable.read (xmssTreeLedgerExists (rootOf pubkey)) then pure true
  else if entry.imported then pure false
  else do
    env.others 1
    xmssTreeLedgerInit env.init (freshState (rootOf pubkey) entry.sk)

/-- A native key after it has signed with the leaf. -/
def retire (pubkey : Bytes) (entry : XMSSKeyEntry) (leafUsed : UInt32) (s : CXMSSSigner) :
    CXMSSSigner :=
  if entry.imported then s
  else
    { s with xmssKeys :=
        s.xmssKeys.insert pubkey { entry with retired := true, leafIndex := leafUsed + 1 } }

/-- `SignXMSS`: the signature and the leaf that it used. -/
def signXMSS (x : XmssKeys) (env : SignEnv) (hash : Uint256) (pubkey : Bytes) (s : CXMSSSigner) :
    Durable LedgerDir (Option (Bytes × UInt32) × CXMSSSigner) :=
  match s.xmssKeys[pubkey]? with
  | none => pure (none, s)
  | some entry =>
    if pubkey.length ≠ 64 then pure (none, s)
    else if !entry.imported && entry.retired then pure (none, s)
    else do
      if ← ensureLedger env pubkey entry then do
        env.others 2
        match ← xmssTreeLedgerClaimAndSign x env.claim (rootOf pubkey) hash.data with
        | none => pure (none, s)
        | some (sig, leafUsed) => pure (some (sig, leafUsed), s.retire pubkey entry leafUsed)
      else pure (none, s)

/-- `GetXMSSLeafIndex`: the next leaf of the ledger, or the one that is stored with the key. -/
def getXMSSLeafIndex (io : Io) (pubkey : Bytes) (s : CXMSSSigner) (d : LedgerDir) : UInt32 :=
  match s.xmssKeys[pubkey]? with
  | none => 0
  | some entry =>
    if pubkey.length = 64 then (xmssTreeLedgerStatus io (rootOf pubkey) d).getD entry.leafIndex
    else entry.leafIndex

/-- `IsXMSSKeyRetired`. An imported key is retired when its tree has no leaf left, a native one
when a leaf of its tree was used. Without a ledger that can be read the flag of the key counts. -/
def isXMSSKeyRetired (io : Io) (pubkey : Bytes) (s : CXMSSSigner) (d : LedgerDir) : Bool :=
  match s.xmssKeys[pubkey]? with
  | none => false
  | some entry =>
    if pubkey.length = 64 then
      if isXMSSTreeBlacklisted (rootOf pubkey) then true
      else
        match xmssTreeLedgerStatus io (rootOf pubkey) d with
        | some next_leaf => if entry.imported then XMSS_MAX_LEAVES ≤ next_leaf else 1 ≤ next_leaf
        | none => entry.retired
    else entry.retired

/-! ### Persistence -/

/-- The first bytes of a record of version 3 (`QNT3`) and of version 2 (`QNT2`). -/
def magicV3 : Bytes := [0x51, 0x4e, 0x54, 0x33]

@[inherit_doc magicV3]
def magicV2 : Bytes := [0x51, 0x4e, 0x54, 0x32]

/-- A byte string after its size in four bytes, most significant byte first. -/
def sized (bs : Bytes) : Bytes :=
  beBytes 4 bs.length ++ bs

/-- An entry of `SaveState`. -/
def saveEntry (pubkey : Bytes) (entry : XMSSKeyEntry) : Bytes :=
  sized pubkey ++ (beBytes 4 entry.leafIndex.toNat ++
    ((if entry.retired then 1 else 0) :: (if entry.imported then 1 else 0) :: sized entry.sk))

/-- `SaveState`. -/
def saveState (s : CXMSSSigner) : Bytes :=
  magicV3 ++ (beBytes 4 s.xmssKeys.size ++
    (s.xmssKeys.toList.map fun p => saveEntry p.1 p.2).flatten)

/-- The size and the bytes of a byte string, from the front. -/
def takeSized (ds : Bytes) : Option (Bytes × Bytes) := do
  let (size, ds) ← takeN 4 ds
  takeN (readBE size) ds

/-- A flag, which records before version `since` do not have. -/
def takeFlag (since version : Nat) (ds : Bytes) : Option (Bool × Bytes) :=
  if since ≤ version then (takeN 1 ds).map fun p => (p.1 ≠ [0], p.2) else some (false, ds)

/-- An entry of a record, from the front. -/
def takeEntry (version : Nat) (ds : Bytes) : Option ((Bytes × XMSSKeyEntry) × Bytes) := do
  let (pubkey, ds) ← takeSized ds
  let (leafIndex, ds) ← takeN 4 ds
  let (retired, ds) ← takeFlag 2 version ds
  let (imported, ds) ← takeFlag 3 version ds
  let (sk, ds) ← takeSized ds
  some ((pubkey, ⟨sk, UInt32.ofNat (readBE leafIndex), retired, imported⟩), ds)

/-- The migration of `LoadState`: a fresh native key without a ledger gets one. -/
def migrate (io : Io) (pubkey : Bytes) (entry : XMSSKeyEntry) : Durable LedgerDir Unit :=
  if !entry.imported && !entry.retired && pubkey.length = 64 then do
    if ← Durable.read (xmssTreeLedgerExists (rootOf pubkey)) then pure ()
    else do
      let _ ← xmssTreeLedgerInit io (freshState (rootOf pubkey) entry.sk)
      pure ()
  else pure ()

/-- The loop of `LoadState`. On an error the entries before it stay. -/
def loadEntries (c : Crypto) (io : Nat → Io) (version : Nat) :
    Nat → Bytes → CXMSSSigner → Durable LedgerDir (Bool × CXMSSSigner)
  | 0, _, s => pure (true, s)
  | count + 1, ds, s =>
    match takeEntry version ds with
    | none => pure (false, s)
    | some ((pubkey, entry), ds) =>
      if (loadKey [] entry.sk).isNone then pure (false, s)
      else do
        migrate (io count) pubkey entry
        loadEntries c io version count ds (s.insert c pubkey entry)

/-- The version of a record. -/
def recordVersion (data : Bytes) : Nat :=
  if 8 ≤ data.length ∧ data.take 4 = magicV3 then 3
  else if 8 ≤ data.length ∧ data.take 4 = magicV2 then 2
  else 1

/-- `LoadState`: whether it succeeds, and the keys that it leaves. -/
def loadState (c : Crypto) (io : Nat → Io) (data : Bytes) (s : CXMSSSigner) :
    Durable LedgerDir (Bool × CXMSSSigner) :=
  if data.length < 4 then pure (false, s)
  else
    let version := recordVersion data
    match takeN 4 (if 2 ≤ version then data.drop 4 else data) with
    | none => pure (false, empty)
    | some (count, ds) => loadEntries c io version (readBE count) ds empty

end CXMSSSigner

end AssentianPQE
