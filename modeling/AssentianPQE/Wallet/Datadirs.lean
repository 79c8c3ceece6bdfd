import AssentianPQE.Lib.Run
import AssentianPQE.Wallet.Signer

/-!
# `AssentianPQE.Wallet.Datadirs`: one wallet in two datadirs

Two datadirs with a signer each. The wallet file of one can be copied to the other, the ledger
files cannot, and no sentinel is created. A process that dies loses its signer.
-/

set_option autoImplicit false

namespace AssentianPQE

open Lib

inductive Site where
  | a | b
deriving DecidableEq

/-- The other datadir. -/
def Site.other : Site → Site
  | .a => .b
  | .b => .a

/-- The ledger of a datadir with the leaves that were returned, and its signer. -/
structure Datadir where
  ledger : LedgerRun
  signer : CXMSSSigner := CXMSSSigner.empty

/-- Both datadirs. -/
abbrev Datadirs := Site → Datadir

/-- The calls in a datadir. `restore` loads a record that the other datadir saves. -/
inductive DatadirOp where
  | generateKey (site : Site) (io : Io) (seed : Bytes) (crash : Nat)
  | restore (site : Site) (io : Nat → Io) (crash : Nat)
  | signXMSS (site : Site) (init claim : Io) (hash : Uint256) (pubkey : Bytes) (crash : Nat)

/-- The effect of a call. -/
def Datadirs.step (c : Crypto) (x : XmssKeys) : DatadirOp → Datadirs → Option Datadirs
  | .generateKey site io seed crash, s =>
    let r := ((s site).signer.generateKey c x io seed).run (s site).ledger.disk crash
    some (Function.update s site
      ⟨{ (s site).ledger with disk := r.1 }, (r.2.map Prod.snd).getD CXMSSSigner.empty⟩)
  | .restore site io crash, s =>
    let data := (s site.other).signer.saveState
    let r := ((s site).signer.loadState c io data).run (s site).ledger.disk crash
    some (Function.update s site
      ⟨{ (s site).ledger with disk := r.1 }, (r.2.map Prod.snd).getD CXMSSSigner.empty⟩)
  | .signXMSS site init claim hash pubkey crash, s =>
    let env : SignEnv := { status := init, init := init, claim := claim }
    let r := ((s site).signer.signXMSS x env hash pubkey).run (s site).ledger.disk crash
    some (Function.update s site
      ⟨(s site).ledger.note (rootOf pubkey) (r.1, r.2.map Prod.fst),
        (r.2.map Prod.snd).getD CXMSSSigner.empty⟩)

end AssentianPQE
