import AssentianPQE.Lib.Run
import AssentianPQE.Wallet.Signer

/-!
# `AssentianPQE.Wallet.Wallet`: the XMSS keys of `CWallet`

The functions of `wallet/wallet.cpp` and `wallet/rpc/xmss.cpp` that change the keys of the XMSS
signer or the record of them in the wallet database. A wallet is memory. The record is written
whole, from the keys in memory, and is encrypted if the wallet is.

`WalletDir` is what outlives a process: the tree ledger, the record and the master key. Its last
field is a log that no function of the source reads: the keys that `GenerateKey` created, the keys
for which `SignXMSS` returned true, and the writes of the record.

`EncryptSecret` and `DecryptSecret` are parameters, and so is what the other keys of the wallet do.
The master key is in the database in encrypted form, and a passphrase that opens it is always the
right one.
-/

set_option autoImplicit false

namespace AssentianPQE

open Lib

/-! ### The wallet and its database -/

/-- `EncryptSecret` and `DecryptSecret`: a master key, the text and the IV. -/
structure Crypter where
  encryptSecret : Bytes → Bytes → Uint256 → Option Bytes
  decryptSecret : Bytes → Bytes → Uint256 → Option Bytes

/-- What a wallet uses of other code. -/
structure WalletPrims where
  crypto : Crypto
  keys : XmssKeys
  crypter : Crypter

/-- An entry of the log. -/
inductive KeyEvent where
  | created (pubkey : Bytes)
  | signed (pubkey : Bytes)
  | persisted
deriving DecidableEq

/-- The tree ledger, the record `xms` and the master key, and the log. -/
structure WalletDir where
  ledger : LedgerDir
  xmssState : Option Bytes
  masterKey : Option Bytes
  log : List KeyEvent

/-- A datadir without files. -/
def WalletDir.empty : WalletDir :=
  ⟨LedgerDir.empty, none, none, []⟩

/-- `CWallet`: `m_xmss_signer`, the master key of `mapMasterKeys` and `vMasterKey`, which is empty
while the wallet is locked. -/
structure CWallet where
  signer : CXMSSSigner := CXMSSSigner.empty
  mapMasterKeys : Option Bytes := none
  vMasterKey : Option Bytes := none

/-- The environment of a write of the record: the IV, and whether the database takes it. -/
structure PersistEnv where
  iv : Uint256
  writeOk : Bool := true

/-- The environment of a new key that is then written. -/
structure KeyEnv where
  seed : Bytes
  io : Io
  persist : PersistEnv

/-- The environment of reading the record. -/
structure LoadEnv where
  readOk : Bool := true
  io : Nat → Io

/-- A call of `SignXMSS`. -/
structure SignerCall where
  init : Io
  claim : Io
  hash : Uint256
  pubkey : Bytes

/-- No other thread uses the ledger during the call. -/
def SignerCall.env (call : SignerCall) : SignEnv where
  status := call.init
  init := call.init
  claim := call.claim

namespace WalletDir

/-- A program on the ledger. -/
def onLedger {α : Type} (x : Durable LedgerDir α) : Durable WalletDir α :=
  x.on WalletDir.ledger fun l d => { d with ledger := l }

/-- An entry of the log. -/
def note (event : KeyEvent) : Durable WalletDir Unit :=
  Durable.write fun d => { d with log := event :: d.log }

end WalletDir

/-! ### The record -/

/-- `XENC`, the first bytes of an encrypted record. -/
def magicEncrypted : Bytes := [0x58, 0x45, 0x4e, 0x43]

/-- A record is encrypted. -/
def isEncryptedRecord (data : Bytes) : Bool :=
  data.take 4 = magicEncrypted

/-- The text of a record, for a master key or without one. -/
def openRecord (e : Crypter) (vMasterKey : Option Bytes) (data : Bytes) : Option Bytes :=
  if isEncryptedRecord data then
    vMasterKey.bind fun key =>
      (takeBlob 32 (data.drop 4)).bind fun p => e.decryptSecret key p.2 p.1
  else some data

namespace CWallet

/-- `IsCrypted`. -/
def isCrypted (w : CWallet) : Bool :=
  w.mapMasterKeys.isSome

/-- `IsLocked`. -/
def isLocked (w : CWallet) : Bool :=
  w.isCrypted && w.vMasterKey.isNone

/-- The record that `PersistXMSSState` writes, if it can make one. -/
def record (e : Crypter) (iv : Uint256) (w : CWallet) : Option Bytes :=
  if w.isCrypted then
    w.vMasterKey.bind fun key =>
      (e.encryptSecret key w.signer.saveState iv).map fun ciphertext =>
        magicEncrypted ++ (iv.data ++ ciphertext)
  else some w.signer.saveState

variable (k : WalletPrims)

/-- `PersistXMSSState`. A write that fails is not noticed. -/
def persistXMSSState (env : PersistEnv) (w : CWallet) : Durable WalletDir Unit :=
  if w.signer.saveState = [] then pure ()
  else
    match w.record k.crypter env.iv with
    | none => pure ()
    | some data =>
      if env.writeOk then
        Durable.write fun d => { d with xmssState := some data, log := .persisted :: d.log }
      else pure ()

/-- `LoadXMSSStateIfPossible`. -/
def loadXMSSStateIfPossible (env : LoadEnv) (w : CWallet) : Durable WalletDir CWallet := do
  match ← Durable.read fun d => if env.readOk then d.xmssState else none with
  | none => pure w
  | some data =>
    match openRecord k.crypter w.vMasterKey data with
    | none => pure w
    | some plain => do
      let (_, signer) ← WalletDir.onLedger (w.signer.loadState k.crypto env.io plain)
      pure { w with signer := signer }

/-! ### Keys -/

/-- `GenerateKey`, with the key logged. -/
def generateKey (io : Io) (seed : Bytes) (w : CWallet) : Durable WalletDir (Bytes × CWallet) := do
  let (pubkey, signer) ← WalletDir.onLedger (w.signer.generateKey k.crypto k.keys io seed)
  if pubkey = [] then pure ([], { w with signer := signer })
  else do
    WalletDir.note (.created pubkey)
    pure (pubkey, { w with signer := signer })

/-- A new key that is written at once. -/
def generateAndPersist (env : KeyEnv) (w : CWallet) : Durable WalletDir CWallet := do
  let (pubkey, w) ← w.generateKey k env.io env.seed
  if pubkey = [] then pure w
  else do
    w.persistXMSSState k env.persist
    pure w

/-- `EnsureXMSSKeyAvailable`. -/
def ensureXMSSKeyAvailable (env : KeyEnv) (w : CWallet) : Durable WalletDir CWallet :=
  if w.signer.countFreshKeys = 0 then w.generateAndPersist k env else pure w

/-- `getnewxmssaddress`, for a wallet that can get addresses. -/
def getnewxmssaddress (env : KeyEnv) (w : CWallet) : Durable WalletDir CWallet :=
  w.generateAndPersist k env

/-- `importxmsskey`. -/
def importxmsskey (env : PersistEnv) (behind pubkey seckey : Bytes) (w : CWallet) :
    Durable WalletDir CWallet :=
  match w.signer.addXMSSKey k.crypto behind pubkey seckey with
  | none => pure w
  | some signer => do
    let w := { w with signer := signer }
    w.persistXMSSState k env
    pure w

/-! ### Locking -/

/-- `Lock`. -/
def lock (w : CWallet) : CWallet :=
  if w.isCrypted then { w with vMasterKey := none } else w

/-- `Unlock` with the right passphrase. Keys that are in memory are written, otherwise the record
is loaded. -/
def unlock (persist : PersistEnv) (load : LoadEnv) (w : CWallet) : Durable WalletDir CWallet :=
  match w.mapMasterKeys with
  | none => pure w
  | some key =>
    let w := { w with vMasterKey := some key }
    if w.signer.xmssKeys.isEmpty then w.loadXMSSStateIfPossible k load
    else do
      w.persistXMSSState k persist
      pure w

/-- The environment of `EncryptWallet`: the new master key, whether its transaction begins, and
whether the other keys can be set up again. A transaction that cannot be committed ends the
process. -/
structure EncryptEnv where
  masterKey : Bytes
  txnBegins : Bool := true
  setupOk : Bool := true
  persist : PersistEnv
  load : LoadEnv

/-- `EncryptWallet`. -/
def encryptWallet (env : EncryptEnv) (w : CWallet) : Durable WalletDir CWallet :=
  if w.isCrypted then pure w
  else
    let w := { w with mapMasterKeys := some env.masterKey }
    -- The key stays in memory.
    if !env.txnBegins then pure w
    else do
      Durable.write fun d => { d with masterKey := some env.masterKey }
      let w ← w.lock.unlock k env.persist env.load
      pure (if env.setupOk then w.lock else w)

/-- The XMSS part of `Create`, for a database that can be loaded. -/
def create (load : LoadEnv) (ensure : KeyEnv) : Durable WalletDir CWallet := do
  let masterKey ← Durable.read WalletDir.masterKey
  let w ← loadXMSSStateIfPossible k load { mapMasterKeys := masterKey }
  w.ensureXMSSKeyAvailable k ensure

/-! ### Signing -/

/-- The environment of `SignTransaction`: the key before it, the write after it, and the key after
that. -/
structure SignTxEnv where
  before : KeyEnv
  persist : PersistEnv
  after : KeyEnv

/-- The XMSS signer is called (`sign`), with the transaction as the result if every input
verifies. -/
def signWithSigner {α : Type} (env : SignTxEnv)
    (sign : CXMSSSigner → Durable WalletDir (Option α × CXMSSSigner)) (w : CWallet) :
    Durable WalletDir (Option α × CWallet) := do
  match ← sign w.signer with
  | (none, signer) => pure (none, { w with signer := signer })
  | (some tx, signer) => do
    let w := { w with signer := signer }
    w.persistXMSSState k env.persist
    let w ← w.ensureXMSSKeyAvailable k env.after
    pure (some tx, w)

/-- `SignTransaction`. The other keys of the wallet may sign all of it (`managers`). -/
def signTransaction {α : Type} (env : SignTxEnv) (managers : Option α)
    (sign : CXMSSSigner → Durable WalletDir (Option α × CXMSSSigner)) (w : CWallet) :
    Durable WalletDir (Option α × CWallet) :=
  match managers with
  | some tx => pure (some tx, w)
  | none =>
    if w.isCrypted && w.isLocked then pure (none, w)
    else if w.signer.countFreshKeys = 0 then do
      let w ← w.ensureXMSSKeyAvailable k env.before
      w.signWithSigner k env sign
    else w.signWithSigner k env sign

/-- `CommitTransaction`, after the transaction was added to the wallet. -/
def commitTransaction (fBroadcastTransactions : Bool) (env : PersistEnv) (w : CWallet) :
    Durable WalletDir CWallet :=
  if !fBroadcastTransactions then pure w
  else do
    w.persistXMSSState k env
    pure w

end CWallet

/-- `SignXMSS`, with a success logged. -/
def SignerCall.run (k : WalletPrims) (call : SignerCall) (s : CXMSSSigner) :
    Durable WalletDir CXMSSSigner := do
  match ← WalletDir.onLedger (s.signXMSS k.keys call.env call.hash call.pubkey) with
  | (none, s) => pure s
  | (some _, s) => do
    WalletDir.note (.signed call.pubkey)
    pure s

/-- Calls of `SignXMSS`, one after the other. -/
def runCalls (k : WalletPrims) : List SignerCall → CXMSSSigner → Durable WalletDir CXMSSSigner
  | [], s => pure s
  | call :: calls, s => do
    let s ← call.run k s
    runCalls k calls s

/-! ### Runs -/

/-- A wallet and its datadir. There is no wallet while no process runs. -/
structure WalletRun where
  disk : WalletDir
  wallet : Option CWallet := none

/-- The calls. `signTransaction` has the calls of `SignXMSS` that are made for the inputs, and
whether every input verifies in the end. The last calls are those of the signer itself, and the
process can exit after any of them. With a call that writes comes the number of writes after which
the process dies. -/
inductive WalletOp where
  | create (load : LoadEnv) (ensure : KeyEnv) (crash : Nat)
  | encryptWallet (env : CWallet.EncryptEnv) (crash : Nat)
  | lock
  | unlock (persist : PersistEnv) (load : LoadEnv) (crash : Nat)
  | getnewxmssaddress (env : KeyEnv) (crash : Nat)
  | importxmsskey (env : PersistEnv) (behind pubkey seckey : Bytes) (crash : Nat)
  | signTransaction (env : CWallet.SignTxEnv) (managers : Bool) (calls : List SignerCall)
      (complete : Bool) (crash : Nat)
  | commitTransaction (fBroadcastTransactions : Bool) (env : PersistEnv) (crash : Nat)
  | generateKey (io : Io) (seed : Bytes) (crash : Nat)
  | signXMSS (call : SignerCall) (crash : Nat)
  | addXMSSKey (behind pubkey seckey : Bytes)
  | loadState (env : LoadEnv) (crash : Nat)
  | exit

namespace WalletRun

/-- A process that dies loses its wallet. -/
def after {α : Type} (wallet : α → CWallet) (r : WalletDir × Option α) : WalletRun :=
  ⟨r.1, r.2.map wallet⟩

/-- The effect of a call on a wallet. -/
def callStep (k : WalletPrims) (d : WalletDir) (w : CWallet) : WalletOp → Option WalletRun
  | .create .. => none
  | .encryptWallet env crash => some (after id ((w.encryptWallet k env).run d crash))
  | .lock => some ⟨d, some w.lock⟩
  | .unlock persist load crash => some (after id ((w.unlock k persist load).run d crash))
  | .getnewxmssaddress env crash => some (after id ((w.getnewxmssaddress k env).run d crash))
  | .importxmsskey env behind pubkey seckey crash =>
    some (after id ((w.importxmsskey k env behind pubkey seckey).run d crash))
  | .signTransaction env managers calls complete crash =>
    let sign (s : CXMSSSigner) : Durable WalletDir (Option Unit × CXMSSSigner) := do
      let s ← runCalls k calls s
      pure (if complete then some () else none, s)
    some (after Prod.snd
      ((w.signTransaction k env (if managers then some () else none) sign).run d crash))
  | .commitTransaction broadcast env crash =>
    some (after id ((w.commitTransaction k broadcast env).run d crash))
  | .generateKey io seed crash => some (after Prod.snd ((w.generateKey k io seed).run d crash))
  | .signXMSS call crash =>
    some (after (fun s => { w with signer := s }) ((call.run k w.signer).run d crash))
  | .addXMSSKey behind pubkey seckey =>
    some ⟨d, some { w with
      signer := (w.signer.addXMSSKey k.crypto behind pubkey seckey).getD w.signer }⟩
  | .loadState env crash => some (after id ((w.loadXMSSStateIfPossible k env).run d crash))
  | .exit => some ⟨d, none⟩

/-- The effect of a call. A wallet is created when there is none. -/
def step (k : WalletPrims) (op : WalletOp) (s : WalletRun) : Option WalletRun :=
  match s.wallet, op with
  | none, .create load ensure crash =>
    some (after id ((CWallet.create k load ensure).run s.disk crash))
  | none, _ => none
  | some w, op => callStep k s.disk w op

end WalletRun

end AssentianPQE
