import AssentianPQE.Networks
import AssentianPQE.Proofs.LeafTables
import AssentianPQE.Proofs.SeedLists

/-!
# `AssentianPQE.Proofs.BurnedIndex`: the index of burned addresses

`ConnectBlock` enters the address of every failed seed that a coinbase publishes into
`DB_POUW_BURNED_ADDR`. It reads the coinbase with a parser of its own. `CheckPoUW` has read the same
coinbase before it and has compared each root of the list with the one that its seed derives.

* `burnedAddresses_eq`: the two parsers find the same list.
* `verifiedList_of_checkPoUW`: what `CheckPoUW` says about that list at the heights at which seeds
  are verified. No network accepts a v1 proof there.
* `burned_connectBlocks`: the index after a sequence of blocks.
* `burned_index_exact`: the addresses in the index are those of the trees of verified seeds.
-/

set_option autoImplicit false

namespace AssentianPQE

open Lib List

variable {c : Crypto} {params : Params} {nHeight : Int} {leafDB : LeafTable} {block : Block}
  {v : PoUWVerdict}

/-- `IsKnownBurnedPoUWAddress`. -/
def isKnownBurnedPoUWAddress (db : LeafDB) (addr_hash : Uint160) : Bool :=
  db.burned addr_hash

/-! ### The two parsers -/

/-- The entries of a list that can be read. -/
def fslEntries (c : Crypto) (data : Bytes) : List FslEntry :=
  (fslDeserialize c data).getD []

/-- The address that `ConnectBlock` enters for an entry. -/
def burnedAddress (c : Crypto) (e : FslEntry) : Uint160 :=
  c.hash160 (e.xmss_root.data ++ (e.sk_seed.data.drop 64).take 32)

/-- The parser of `ConnectBlock` finds the first list, as the one of `CheckPoUW` does. -/
theorem head?_lists (vout : List TxOut) :
    (vout.filterMap fun out =>
      (opReturnPush out.scriptPubKey).filter fun d => d.take 4 = SEEDS_MAGIC).head? =
        firstFsl vout := by
  have hfilter : (vout.filterMap fun out =>
      (opReturnPush out.scriptPubKey).filter fun d => d.take 4 = SEEDS_MAGIC) =
        (vout.filterMap fun out => opReturnPush out.scriptPubKey).filter fun d =>
          d.take 4 = SEEDS_MAGIC := by
    rw [filter_filterMap]
  rw [hfilter, head?_filter]
  rfl

theorem burnedAddresses_eq (hpouw : params.fPoUW = true) (block : Block) :
    burnedAddresses c params block = ((firstFsl (coinbaseOutputs block)).elim []
      fun data => (fslEntries c data).map (burnedAddress c)) := by
  have hhead := head?_lists (coinbaseOutputs block)
  unfold burnedAddresses
  rw [hpouw, if_neg (by simp)]
  dsimp only
  split
  · rename_i hnone
    rw [coinbaseOutputs, hnone] at hhead
    rw [coinbaseOutputs, ← hhead]
    rfl
  · rename_i d rest hsome
    rw [coinbaseOutputs, hsome] at hhead
    rw [coinbaseOutputs, ← hhead]
    rfl

/-! ### What `CheckPoUW` has verified -/

/-- `CheckPoUW` has verified this list: it is the first one of the coinbase, its Merkle root is the
one in the header, and its entries pass their tests. -/
structure VerifiedList (c : Crypto) (params : Params) (block : Block) (nHeight : Int)
    (entries : List FslEntry) : Prop where
  read : ∃ data, firstFsl (coinbaseOutputs block) = some data ∧ fslDeserialize c data = some entries
  root : fslMerkleRoot c entries = block.commitmentsRoot
  tests : checkFslEntries c params nHeight (setCompact block.nBits).target entries = .ok ()

/-- At the heights at which seeds are verified, every network asks for a v2 proof. -/
structure VerifyHeight (params : Params) (nHeight : Int) : Prop where
  pouw : params.fPoUW = true
  started : 0 ≤ nHeight ∧ ¬ nHeight < params.nPoUWStartHeight
  v2 : params.nPoUWv2StartHeight ≤ nHeight
  seeds : params.nPoUWFSLSeedVerifyHeight ≤ nHeight

theorem verifyHeight_chainParams {hashGenesisBlock : Uint256} {options : ChainOptions}
    {net : ChainType}
    (h : (chainParams hashGenesisBlock options net).nPoUWFSLSeedVerifyHeight ≤ nHeight) :
    VerifyHeight (chainParams hashGenesisBlock options net) nHeight := by
  -- The height is at least 3000, 200, 2147483647 and 1, and v2 proofs are due from 1 on.
  cases net with
  | main =>
    have h : (3000 : Int) ≤ nHeight := h
    exact ⟨rfl, ⟨by omega, show ¬ nHeight < 1 by omega⟩, show (1 : Int) ≤ nHeight by omega, h⟩
  | testnet =>
    have h : (200 : Int) ≤ nHeight := h
    exact ⟨rfl, ⟨by omega, show ¬ nHeight < 1 by omega⟩, show (1 : Int) ≤ nHeight by omega, h⟩
  | signet =>
    have h : (2147483647 : Int) ≤ nHeight := h
    exact ⟨rfl, ⟨by omega, show ¬ nHeight < 1 by omega⟩, show (1 : Int) ≤ nHeight by omega, h⟩
  | regtest =>
    have h : (1 : Int) ≤ nHeight := h
    exact ⟨rfl, ⟨by omega, show ¬ nHeight < 1 by omega⟩, show (1 : Int) ≤ nHeight by omega, h⟩

/-- What `CheckPoUW` accepts then has a v2 proof. -/
theorem VerifyHeight.accepted (h : VerifyHeight params nHeight)
    (hacc : checkPoUW c params leafDB block nHeight = .ok v) :
    ∃ proof coinbase, AcceptedV2 c params leafDB block nHeight proof coinbase := by
  have hv : ∃ proof, v = .v2 proof := by
    unfold checkPoUW at hacc
    rw [h.pouw, if_neg (by simp), if_neg (not_lt.mpr h.started.1),
      if_neg (fun hstart => h.started.2 hstart.2)] at hacc
    split at hacc
    · cases hacc
    split at hacc
    · cases hacc
    split at hacc
    · cases hacc
    · rename_i coinbase _ _ _ _ proof _ _
      cases hbranch : checkPoUWv2Branch c params leafDB block coinbase nHeight proof with
      | error e =>
        rw [hbranch] at hacc
        cases hacc
      | ok u =>
        rw [hbranch] at hacc
        cases hacc
        exact ⟨proof, rfl⟩
    · split at hacc
      · cases hacc
      · rw [if_pos h.v2] at hacc
        cases hacc
  obtain ⟨proof, rfl⟩ := hv
  exact ⟨proof, checkPoUW_v2_iff.mp hacc⟩

/-- The list of a block that was accepted. -/
theorem verifiedList_of_checkPoUW {data : Bytes} (h : VerifyHeight params nHeight)
    (hacc : checkPoUW c params leafDB block nHeight = .ok v)
    (hdata : firstFsl (coinbaseOutputs block) = some data) :
    ∃ entries, fslDeserialize c data = some entries ∧
      VerifiedList c params block nHeight entries := by
  obtain ⟨proof, coinbase, haccepted⟩ := h.accepted hacc
  have hvout : coinbaseOutputs block = coinbase.vout := by
    rw [coinbaseOutputs, haccepted.coinbase_head]
    rfl
  obtain ⟨entries, hentries, hroot, htests⟩ :=
    checkCommitments_list haccepted.commitments (hvout ▸ hdata)
  exact ⟨entries, hentries, ⟨data, hdata, hentries⟩, hroot, htests⟩

/-- The root of a verified entry is the one that its seed derives. -/
theorem VerifiedList.derives {entries : List FslEntry}
    (hlist : VerifiedList c params block nHeight entries) (h : VerifyHeight params nHeight)
    {e : FslEntry} (he : e ∈ entries) :
    c.computeRootFromSeed e.sk_seed.data = some e.xmss_root :=
  (checkFslEntries_ok_iff.mp hlist.tests e he).2 h.seeds

/-- The public key of the tree of a seed: the root that `ComputeRootFromSeed` derives, and the
`PUB_SEED` of the seed. -/
def treePubKey (c : Crypto) (seed : Blob 96) : Option Bytes :=
  (c.computeRootFromSeed seed.data).map fun root => root.data ++ (seed.data.drop 64).take 32

/-- The address of the tree of a verified seed. -/
def VerifiedAddress (c : Crypto) (params : Params) (block : Block) (nHeight : Int)
    (addr_hash : Uint160) : Prop :=
  ∃ entries, VerifiedList c params block nHeight entries ∧
    ∃ e ∈ entries, ∃ pubkey, treePubKey c e.sk_seed = some pubkey ∧ addr_hash = c.hash160 pubkey

/-- `ConnectBlock` enters the addresses of the verified seeds of an accepted block. -/
theorem mem_burnedAddresses_iff (h : VerifyHeight params nHeight)
    (hacc : checkPoUW c params leafDB block nHeight = .ok v) (addr_hash : Uint160) :
    addr_hash ∈ burnedAddresses c params block ↔
      VerifiedAddress c params block nHeight addr_hash := by
  rw [burnedAddresses_eq h.pouw]
  constructor
  · intro hmem
    cases hdata : firstFsl (coinbaseOutputs block) with
    | none =>
      rw [hdata] at hmem
      cases hmem
    | some data =>
      obtain ⟨entries, hentries, hlist⟩ := verifiedList_of_checkPoUW h hacc hdata
      rw [hdata, Option.elim_some, fslEntries, hentries] at hmem
      obtain ⟨e, he, rfl⟩ := mem_map.mp hmem
      refine ⟨entries, hlist, e, he, _, ?_, rfl⟩
      rw [treePubKey, hlist.derives h he]
      rfl
  · rintro ⟨entries, hlist, e, he, pubkey, hpubkey, rfl⟩
    obtain ⟨data, hdata, hentries⟩ := hlist.read
    rw [treePubKey, hlist.derives h he] at hpubkey
    cases hpubkey
    rw [hdata, Option.elim_some, fslEntries, hentries]
    exact mem_map_of_mem he

/-! ### Sequences of blocks -/

/-- Blocks that are connected one after the other, each to a view of the coins. -/
def connectBlocks : List (ConnectContext × CoinsView) → LeafDB → Except ConnectFailure LeafDB
  | [], db => .ok db
  | (ctx, view) :: rest, db =>
    match connectBlock ctx db view with
    | .error e => .error e
    | .ok (_, db) => connectBlocks rest db

/-- A block that is connected, and not only checked, above the genesis block, at a height at which
seeds are verified, and that passes `CheckPoUW`. -/
structure ConnectsVerified (c : Crypto) (params : Params) (ctx : ConnectContext) : Prop where
  crypto : ctx.crypto = c
  params : ctx.params = params
  connects : ctx.fJustCheck = false
  above : ctx.hash ≠ ctx.params.hashGenesisBlock
  seeds : ctx.params.nPoUWFSLSeedVerifyHeight ≤ (ctx.nHeight : Int)
  accepted : ∃ leafDB v, checkPoUW ctx.crypto ctx.params leafDB ctx.block ctx.nHeight = .ok v

theorem foldl_mark_burned (bh : Uint256) (keys : List Uint256) (db : LeafDB) :
    (keys.foldl (fun db key => db.mark key bh) db).burned = db.burned := by
  induction keys generalizing db with
  | nil => rfl
  | cons key keys ih => exact ih (db.mark key bh)

/-- `DB_POUW_BURNED_ADDR` after `ConnectBlock`. -/
theorem markLeaves_burned (c : Crypto) (params : Params) (db : LeafDB) (block : Block)
    (uses : XMSSLeafUses) (addr_hash : Uint160) :
    (markLeaves c params db block uses).burned addr_hash = true ↔
      db.burned addr_hash = true ∨ addr_hash ∈ burnedAddresses c params block := by
  have hcb : ((coinbaseLeafKey c params block).elim db
      fun key => db.mark key (block.getHash c)).burned = db.burned := by
    cases coinbaseLeafKey c params block <;> rfl
  have hburned : (markLeaves c params db block uses).burned addr_hash =
      (db.burned addr_hash || (burnedAddresses c params block).contains addr_hash) := by
    unfold markLeaves
    simp only
    split
    · rw [foldl_mark_burned]
      simp only [hcb]
    · simp only [foldl_mark_burned, hcb]
  rw [hburned, Bool.or_eq_true, contains_iff_mem]

/-- One block: the index gets the addresses of the block. -/
theorem ConnectsVerified.burned {ctx : ConnectContext} (h : ConnectsVerified c params ctx)
    {db db' : LeafDB} {view : CoinsView} {r : Connected}
    (hconnect : connectBlock ctx db view = .ok (r, db')) (addr_hash : Uint160) :
    db'.burned addr_hash = true ↔
      db.burned addr_hash = true ∨ addr_hash ∈ burnedAddresses c params ctx.block := by
  obtain ⟨-, hgenesis | ⟨-, -, -, -, rfl⟩⟩ := (connectBlock_ok_iff h.connects).mp hconnect
  · exact absurd hgenesis.1 h.above
  · rw [← h.crypto, ← h.params]
    exact markLeaves_burned ..

/-- A sequence of blocks. The induction is on the blocks, from any index. -/
theorem burned_connectBlocks {addr_hash : Uint160} :
    ∀ {steps : List (ConnectContext × CoinsView)} {db db' : LeafDB},
      (∀ p ∈ steps, ConnectsVerified c params p.1) → connectBlocks steps db = .ok db' →
      (db'.burned addr_hash = true ↔ db.burned addr_hash = true ∨
        ∃ p ∈ steps, addr_hash ∈ burnedAddresses c params p.1.block) := by
  intro steps
  induction steps with
  | nil =>
    intro db db' _ hrun
    cases hrun
    simp
  | cons p rest ih =>
    intro db db' hsteps hrun
    obtain ⟨ctx, view⟩ := p
    rw [connectBlocks] at hrun
    split at hrun
    · cases hrun
    · rename_i r db₁ hconnect
      have hfirst := (hsteps (ctx, view) mem_cons_self).burned hconnect addr_hash
      rw [ih (fun p hp => hsteps p (mem_cons_of_mem _ hp)) hrun, hfirst,
        exists_mem_cons_iff, or_assoc]

/-- **The index is exact.** For every network and every sequence of blocks at heights at which seeds
are verified, each of which passes `CheckPoUW` and is connected, from an empty index: an address is
known as burned exactly when it is the address of the tree of a seed in a list that `CheckPoUW` has
verified in one of them. -/
theorem burned_index_exact {c : Crypto} {hashGenesisBlock : Uint256} {options : ChainOptions}
    {net : ChainType} {steps : List (ConnectContext × CoinsView)} {db : LeafDB}
    (hsteps : ∀ p ∈ steps,
      ConnectsVerified c (chainParams hashGenesisBlock options net) p.1)
    (hrun : connectBlocks steps LeafDB.empty = .ok db) (addr_hash : Uint160) :
    isKnownBurnedPoUWAddress db addr_hash = true ↔
      ∃ p ∈ steps, VerifiedAddress c (chainParams hashGenesisBlock options net) p.1.block
        p.1.nHeight addr_hash := by
  have hblock : ∀ p ∈ steps,
      (addr_hash ∈ burnedAddresses c (chainParams hashGenesisBlock options net) p.1.block ↔
        VerifiedAddress c (chainParams hashGenesisBlock options net) p.1.block p.1.nHeight
          addr_hash) := by
    intro p hp
    have hstep := hsteps p hp
    obtain ⟨leafDB, v, hacc⟩ := hstep.accepted
    have hseeds := hstep.seeds
    rw [hstep.params] at hseeds
    rw [hstep.crypto, hstep.params] at hacc
    exact mem_burnedAddresses_iff (verifyHeight_chainParams hseeds) hacc addr_hash
  have hnone : LeafDB.empty.burned addr_hash = false := rfl
  rw [isKnownBurnedPoUWAddress, burned_connectBlocks hsteps hrun, hnone]
  simp only [Bool.false_eq_true, false_or]
  exact exists_congr fun p => and_congr_right fun hp => hblock p hp

/-- A block with ten failed seeds, on the genesis block of a regtest chain. -/
def listContext : ConnectContext where
  crypto := seedCrypto
  params := chainParams (sampleGenesisBlock.getHash seedCrypto) {} .regtest
  fScriptChecks := true
  parallel := false
  fJustCheck := false
  prev := [sampleGenesis]
  block := listBlock 1 ownList

/-- A sequence with that block alone, for a chain without coins. -/
def listSteps : List (ConnectContext × CoinsView) :=
  [(listContext, fun _ => none)]

/-- The block is connected, and the address of its first seed is known as burned. -/
theorem burned_index_exact_listBlock :
    ∃ db, connectBlocks listSteps LeafDB.empty = .ok db ∧
      isKnownBurnedPoUWAddress db (burnedAddress seedCrypto (seedEntry 1 200)) = true ∧
      VerifiedAddress seedCrypto listContext.params listContext.block listContext.nHeight
        (burnedAddress seedCrypto (seedEntry 1 200)) := by
  have hrun : (connectBlocks listSteps LeafDB.empty).toOption.any (fun db =>
      isKnownBurnedPoUWAddress db (burnedAddress seedCrypto (seedEntry 1 200))) = true := by
    decide +kernel
  have hacc : (checkPoUW listContext.crypto listContext.params (fun _ => none) listContext.block
      listContext.nHeight).isOk = true := by
    decide +kernel
  have hstep : ConnectsVerified seedCrypto
      (chainParams (sampleGenesisBlock.getHash seedCrypto) {} .regtest) listContext := by
    refine ⟨rfl, rfl, rfl, by decide +kernel, by decide, fun _ => none, ?_⟩
    generalize checkPoUW listContext.crypto listContext.params (fun _ => none) listContext.block
      listContext.nHeight = r at hacc
    cases r with
    | error e => cases hacc
    | ok v => exact ⟨v, rfl⟩
  generalize hend : connectBlocks listSteps LeafDB.empty = r at hrun
  cases r with
  | error e => cases hrun
  | ok db =>
    refine ⟨db, rfl, hrun, ?_⟩
    have hsteps : ∀ p ∈ listSteps, ConnectsVerified seedCrypto
        (chainParams (sampleGenesisBlock.getHash seedCrypto) {} .regtest) p.1 := by
      intro p hp
      rw [mem_singleton.mp hp]
      exact hstep
    obtain ⟨p, hp, hverified⟩ := (burned_index_exact hsteps hend _).mp hrun
    rw [mem_singleton.mp hp] at hverified
    exact hverified

end AssentianPQE
