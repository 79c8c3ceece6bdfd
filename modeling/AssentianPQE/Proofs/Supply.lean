import Mathlib.Algebra.Order.BigOperators.Group.Finset
import Mathlib.Algebra.BigOperators.Intervals
import Mathlib.Data.Int.Interval
import AssentianPQE.Lib.Total
import AssentianPQE.Networks
import AssentianPQE.Proofs.DisconnectUndoes
import AssentianPQE.Sample

/-!
# `AssentianPQE.Proofs.Supply`: no block creates more than its subsidy

The supply is the sum of the values of all coins in the view. A transaction lowers the supply by
its fee, a coinbase raises it by what it pays out, and `ConnectBlock` holds that to the fees and
the subsidy. So along a chain the supply stays below the sum of the subsidies
(`supply_le_subsidies`), and the halving series keeps that sum below `MAX_MONEY`
(`sum_getBlockSubsidy_le`).

A coin that is added where one already is replaces the old one, which lowers the supply. The
bound therefore needs no assumption on transaction ids and does not depend on the BIP 30 test.
-/

set_option autoImplicit false

namespace AssentianPQE

open Lib List Function

variable {view : CoinsView} {tx : Transaction} {ctx : ConnectContext} {params : Params} {k : Nat}

/-! ### The supply of a view -/

/-- The value of a coin. -/
def Coin.amount (coin : Coin) : Int :=
  coin.out.nValue.toInt

/-- The value at an outpoint: zero where there is no coin. -/
def amountAt (view : CoinsView) (o : OutPoint) : Int :=
  (view o).elim 0 Coin.amount

/-- The sum of the values of all unspent coins. -/
noncomputable def supply (view : CoinsView) : Int :=
  total (amountAt view)

/-- A view with finitely many coins, none of a negative value. -/
structure SoundCoins (view : CoinsView) : Prop where
  finite : {o | (view o).isSome}.Finite
  nonneg : ∀ o coin, view o = some coin → 0 ≤ coin.amount

theorem soundCoins_empty : SoundCoins fun _ => none where
  finite := by simp
  nonneg := nofun

theorem supply_empty : supply (fun _ => none) = 0 :=
  total_zero

theorem amountAt_set (view : CoinsView) (o : OutPoint) (coin : Option Coin) :
    amountAt (view.set o coin) = update (amountAt view) o (coin.elim 0 Coin.amount) := by
  funext x
  by_cases hx : x = o
  · subst hx
    simp [amountAt, CoinsView.set]
  · simp [amountAt, CoinsView.set, update_of_ne hx]

namespace SoundCoins

variable {view : CoinsView}

theorem support (h : SoundCoins view) : (amountAt view).support.Finite := by
  refine h.finite.subset fun o ho => ?_
  rw [mem_support, amountAt] at ho
  rw [Set.mem_ofPred_eq, Option.isSome_iff_ne_none]
  intro hnone
  exact ho (by rw [hnone]; rfl)

theorem amountAt_nonneg (h : SoundCoins view) (o : OutPoint) : 0 ≤ amountAt view o := by
  cases ho : view o with
  | none => simp [amountAt, ho]
  | some coin => simpa [amountAt, ho] using h.nonneg o coin ho

theorem set (h : SoundCoins view) (o : OutPoint) (coin : Option Coin)
    (hcoin : ∀ x, coin = some x → 0 ≤ x.amount) : SoundCoins (view.set o coin) where
  finite := by
    refine (h.finite.insert o).subset fun x hx => ?_
    by_cases hxo : x = o
    · exact .inl hxo
    · rw [Set.mem_ofPred_eq, CoinsView.set, update_of_ne hxo] at hx
      exact .inr hx
  nonneg x y hy := by
    by_cases hxo : x = o
    · subst hxo
      rw [CoinsView.set, update_self] at hy
      exact hcoin y hy
    · rw [CoinsView.set, update_of_ne hxo] at hy
      exact h.nonneg x y hy

/-- Setting one entry changes the supply by the difference of the values. -/
theorem supply_set (h : SoundCoins view) (o : OutPoint) (coin : Option Coin) :
    supply (view.set o coin) = supply view - amountAt view o + coin.elim 0 Coin.amount := by
  rw [supply, amountAt_set, total_update h.support]
  rfl

end SoundCoins

/-! ### Transactions -/

/-- Added coins raise the supply by at most their values. -/
theorem addCoins_supply {coins : List (OutPoint × Coin)} {view' : CoinsView}
    (hsound : SoundCoins view) (hcoins : ∀ p ∈ coins, 0 ≤ p.2.amount)
    (h : addCoins view coins = some view') :
    SoundCoins view' ∧ supply view' ≤ supply view + (coins.map fun p => p.2.amount).sum := by
  induction coins generalizing view with
  | nil =>
    cases h
    simpa using hsound
  | cons p coins ih =>
    obtain ⟨o, coin⟩ := p
    have hcoin : 0 ≤ coin.amount := hcoins (o, coin) mem_cons_self
    have hrest : ∀ p ∈ coins, 0 ≤ p.2.amount := fun p hp => hcoins p (mem_cons_of_mem _ hp)
    simp only [map_cons, sum_cons]
    unfold addCoins at h
    split at h
    · -- an output that cannot be spent is left out
      obtain ⟨hsound', hle⟩ := ih hsound hrest h
      exact ⟨hsound', by omega⟩
    · split at h
      · cases h
      have hset : SoundCoins (view.set o (some coin)) :=
        hsound.set o (some coin) fun x hx => by cases hx; exact hcoin
      obtain ⟨hsound', hle⟩ := ih hset hrest h
      have hsupply : supply (view.set o (some coin)) =
          supply view - amountAt view o + coin.amount := hsound.supply_set o (some coin)
      have hold := hsound.amountAt_nonneg o
      exact ⟨hsound', by omega⟩

/-- Spent coins lower the supply by their values. -/
theorem spendInputs_supply {vin : List TxIn} (hsound : SoundCoins view)
    (hnodup : (vin.map TxIn.prevout).Nodup) (hhave : ∀ i ∈ vin, (view i.prevout).isSome = true) :
    SoundCoins (spendInputs view vin) ∧ supply (spendInputs view vin) =
      supply view - ((vin.filterMap fun i => view i.prevout).map Coin.amount).sum := by
  induction vin generalizing view with
  | nil => simpa [spendInputs] using hsound
  | cons i vin ih =>
    rw [map_cons, nodup_cons] at hnodup
    obtain ⟨coin, hcoin⟩ := Option.isSome_iff_exists.mp (hhave i mem_cons_self)
    have hset : SoundCoins (view.set i.prevout none) := hsound.set _ none nofun
    -- the other inputs spend other coins
    have hother : ∀ j ∈ vin, view.set i.prevout none j.prevout = view j.prevout := by
      intro j hj
      have hne : j.prevout ≠ i.prevout := by
        intro heq
        exact hnodup.1 (heq ▸ mem_map_of_mem hj)
      rw [CoinsView.set, update_of_ne hne]
    obtain ⟨hsound', hsupply⟩ := ih hset hnodup.2 fun j hj => by
      rw [hother j hj]
      exact hhave j (mem_cons_of_mem _ hj)
    have hamount : amountAt view i.prevout = coin.amount := by rw [amountAt, hcoin]; rfl
    refine ⟨hsound', ?_⟩
    show supply (spendInputs (view.set i.prevout none) vin) = _
    rw [hsupply, hsound.supply_set, hamount, filterMap_congr hother, filterMap_cons, hcoin,
      map_cons, sum_cons]
    show supply view - coin.amount + 0 - _ = _
    omega

/-- The values of the new coins are the values of the outputs. -/
theorem sum_amount_newCoins (c : Crypto) (tx : Transaction) (nHeight : Nat) :
    ((newCoins c tx nHeight).map fun p => p.2.amount).sum = getValueOut tx := by
  have hmap : (newCoins c tx nHeight).map (fun p => p.2.amount) =
      tx.vout.map fun out => out.nValue.toInt := by
    apply ext_getElem
    · simp [newCoins]
    · intro i _ _
      simp only [newCoins, getElem_map, getElem_mapIdx]
      rfl
  rw [hmap, getValueOut]

/-- What `CheckTransaction` says about the values and the inputs. -/
theorem amounts_of_checkTransaction (h : checkTransaction tx = .ok ()) :
    (∀ out ∈ tx.vout, 0 ≤ out.nValue.toInt) ∧ (tx.vin.map TxIn.prevout).Nodup := by
  have hvalues : ∀ (vout : List TxOut) (n : Int), checkOutputValues vout n = .ok () →
      ∀ out ∈ vout, 0 ≤ out.nValue.toInt := by
    intro vout
    induction vout with
    | nil => intro _ _ out hout; cases hout
    | cons o vout ih =>
      intro n hok out hout
      unfold checkOutputValues at hok
      simp only at hok
      split at hok
      · cases hok
      rename_i hneg
      split at hok
      · cases hok
      split at hok
      · cases hok
      cases mem_cons.mp hout with
      | inl heq =>
        subst heq
        omega
      | inr hrest => exact ih _ hok out hrest
  unfold checkTransaction at h
  split at h
  · cases h
  split at h
  · cases h
  split at h
  · cases h
  split at h
  · cases h
  rename_i hout
  split at h
  · cases h
  · rename_i hnodup
    exact ⟨hvalues _ _ hout, not_not.mp hnodup⟩

theorem sumInputs_eq {nSpendHeight : Nat} {coins : List Coin} {n m : Int}
    (h : sumInputs nSpendHeight coins n = .ok m) : m = n + (coins.map Coin.amount).sum := by
  induction coins generalizing n with
  | nil =>
    cases h
    simp
  | cons coin coins ih =>
    unfold sumInputs at h
    simp only at h
    split at h
    · cases h
    split at h
    · cases h
    · rw [ih h, map_cons, sum_cons]
      show n + coin.amount + _ = _
      omega

/-- The fee of a transaction is what its inputs hold more than its outputs. -/
theorem fee_of_checkTxInputs {nSpendHeight : Nat} {fee : Int}
    (h : checkTxInputs tx view nSpendHeight = .ok fee) :
    haveInputs view tx = true ∧
      fee = ((spentCoins view tx).map Coin.amount).sum - getValueOut tx := by
  unfold checkTxInputs at h
  split at h
  · cases h
  rename_i hhave
  split at h
  · cases h
  rename_i nValueIn hsum
  split at h
  · cases h
  split at h
  · cases h
  · cases h
    rw [sumInputs_eq hsum]
    exact ⟨by simpa using hhave, by omega⟩

/-- The fees after the tests on one transaction. -/
theorem fees_of_checkTx {st : ConnectState} {nFees : Int} {nSigOpsCost : Nat} {queueOk : Bool}
    (h : checkTx ctx st tx = .ok (nFees, nSigOpsCost, queueOk)) :
    (tx.isCoinBase = true ∧ nFees = st.nFees) ∨
      (tx.isCoinBase = false ∧ ∃ fee, checkTxInputs tx st.view ctx.nHeight = .ok fee ∧
        nFees = st.nFees + fee) := by
  unfold checkTx at h
  split at h
  · cases h
  rename_i fees hfees
  simp only at h
  split at h
  · cases h
  split at h
  · cases h
  simp only [Except.ok.injEq, Prod.mk.injEq] at h
  obtain ⟨rfl, -, -⟩ := h
  cases hcb : tx.isCoinBase with
  | true =>
    rw [hcb, if_pos rfl] at hfees
    cases hfees
    exact .inl ⟨rfl, rfl⟩
  | false =>
    rw [hcb, if_neg Bool.false_ne_true] at hfees
    unfold checkSpend at hfees
    split at hfees
    · cases hfees
    rename_i fee hfee
    simp only at hfees
    split at hfees
    · cases hfees
    · split at hfees
      · cases hfees
      · cases hfees
        exact .inr ⟨rfl, fee, hfee, rfl⟩

/-- One turn of the loop: the supply and the fees together grow by what a coinbase pays out, and
do not grow for any other transaction. -/
theorem connectTx_supply {st st' : ConnectState} (hsound : SoundCoins st.view)
    (hcheck : checkTransaction tx = .ok ()) (h : connectTx ctx st tx = .ok st') :
    SoundCoins st'.view ∧ supply st'.view + st'.nFees ≤
      supply st.view + st.nFees + if tx.isCoinBase then getValueOut tx else 0 := by
  obtain ⟨nFees, nSigOpsCost, queueOk, view, htests, hupdate, rfl⟩ := connectTx_ok_iff.mp h
  obtain ⟨hvalues, hnodup⟩ := amounts_of_checkTransaction hcheck
  have hnew : ∀ p ∈ newCoins ctx.crypto tx ctx.nHeight, 0 ≤ p.2.amount := by
    intro p hp
    obtain ⟨j, hj, rfl⟩ := mem_mapIdx.mp hp
    exact hvalues _ (getElem_mem hj)
  unfold updateCoins at hupdate
  cases fees_of_checkTx htests with
  | inl hcoinbase =>
    obtain ⟨hcb, rfl⟩ := hcoinbase
    rw [hcb, if_pos rfl] at hupdate
    obtain ⟨hsound', hle⟩ := addCoins_supply hsound hnew hupdate
    rw [sum_amount_newCoins] at hle
    refine ⟨hsound', ?_⟩
    rw [hcb, if_pos rfl]
    show supply view + st.nFees ≤ _
    omega
  | inr hspend =>
    obtain ⟨hcb, fee, hinputs, rfl⟩ := hspend
    obtain ⟨hhave, hfee⟩ := fee_of_checkTxInputs hinputs
    rw [haveInputs, hcb, Bool.false_or, all_eq_true] at hhave
    rw [hcb, if_neg Bool.false_ne_true] at hupdate
    obtain ⟨hspent, heq⟩ := spendInputs_supply hsound hnodup hhave
    obtain ⟨hsound', hle⟩ := addCoins_supply hspent hnew hupdate
    rw [sum_amount_newCoins, heq] at hle
    refine ⟨hsound', ?_⟩
    rw [hcb, if_neg Bool.false_ne_true, hfee]
    show supply view + (st.nFees + _) ≤ _
    unfold spentCoins
    omega

/-! ### Blocks -/

/-- The loop over transactions that are no coinbases. -/
theorem connectTxs_supply {txs : List Transaction} :
    ∀ {st st' : ConnectState}, SoundCoins st.view →
      (∀ tx ∈ txs, checkTransaction tx = .ok () ∧ tx.isCoinBase = false) →
      connectTxs ctx txs st = .ok st' →
      SoundCoins st'.view ∧ supply st'.view + st'.nFees ≤ supply st.view + st.nFees := by
  induction txs with
  | nil =>
    intro st st' hsound _ h
    cases h
    exact ⟨hsound, Int.le_refl _⟩
  | cons tx rest ih =>
    intro st st' hsound htxs h
    unfold connectTxs at h
    split at h
    · cases h
    rename_i st₁ hone
    obtain ⟨hcheck, hcb⟩ := htxs tx mem_cons_self
    obtain ⟨hsound₁, hle₁⟩ := connectTx_supply hsound hcheck hone
    rw [hcb, if_neg Bool.false_ne_true] at hle₁
    obtain ⟨hsound', hle⟩ := ih hsound₁ (fun t ht => htxs t (mem_cons_of_mem _ ht)) h
    exact ⟨hsound', by omega⟩

/-- A block raises the supply by at most its subsidy. -/
theorem connectCoins_supply {r : Connected} (hsound : SoundCoins view)
    (hblock : checkBlockTxs ctx.block = .ok ()) (h : connectCoins ctx view = .ok r) :
    SoundCoins r.view ∧ supply r.view ≤ supply view + getBlockSubsidy ctx.params ctx.nHeight := by
  obtain ⟨-, st, htxs, hreward, -, rfl⟩ := connectCoins_ok_iff.mp h
  obtain ⟨cb, txs, hvtx, hcb, hrest⟩ := coinbase_of_checkBlockTxs hblock
  have hall := checkTransaction_of_checkBlockTxs hblock
  rw [hvtx] at htxs hreward hall
  unfold connectTxs at htxs
  split at htxs
  · cases htxs
  rename_i st₁ hone
  have hstart : SoundCoins ({ view := view } : ConnectState).view := hsound
  obtain ⟨hsound₁, hle₁⟩ := connectTx_supply hstart (hall cb mem_cons_self) hone
  obtain ⟨hsound', hle⟩ := connectTxs_supply hsound₁
    (fun tx htx => ⟨hall tx (mem_cons_of_mem _ htx), hrest tx htx⟩) htxs
  rw [hcb, if_pos rfl] at hle₁
  simp only [head?_cons, Option.map_some, Option.getD_some] at hreward hle₁
  refine ⟨hsound', ?_⟩
  show supply st.view ≤ _
  omega

/-! ### Subsidies -/

/-- The subsidy after a number of halvings. -/
def subsidyAfter (halvings : Nat) : Nat :=
  if 64 ≤ halvings then 0 else 50 * 100000000 / 2 ^ halvings

/-- Each halving at least halves the subsidy. -/
theorem two_mul_subsidyAfter_le (j : Nat) : 2 * subsidyAfter (j + 1) ≤ subsidyAfter j := by
  unfold subsidyAfter
  split
  · omega
  · rename_i hnext
    rw [if_neg (by omega), Nat.pow_succ, ← Nat.div_div_eq_div_mul]
    omega

/-- `GetBlockSubsidy` counts the halvings by the height. -/
theorem getBlockSubsidy_eq (hk : params.nSubsidyHalvingInterval = k) (nHeight : Nat) :
    getBlockSubsidy params nHeight = subsidyAfter (nHeight / k) := by
  have hdiv : (nHeight : Int).tdiv params.nSubsidyHalvingInterval = (nHeight / k : Nat) := by
    rw [hk]
    rfl
  unfold getBlockSubsidy subsidyAfter
  simp only [hdiv, Int.toNat_natCast]
  by_cases hlast : 64 ≤ nHeight / k
  · rw [if_pos (by exact_mod_cast hlast), if_pos hlast]
    rfl
  · rw [if_neg (by exact_mod_cast hlast), if_neg hlast, COIN]
    norm_cast

/-- All subsidies together are at most a hundred coins for each block of the halving
interval. -/
theorem sum_getBlockSubsidy_le (hk : params.nSubsidyHalvingInterval = k) (hpos : 0 < k) (n : Nat) :
    ∑ h ∈ Finset.range n, getBlockSubsidy params h ≤ 100 * COIN * k := by
  have hsum : ∑ h ∈ Finset.range n, getBlockSubsidy params h =
      ((∑ h ∈ Finset.range n, subsidyAfter (h / k) : Nat) : Int) := by
    rw [Nat.cast_sum]
    exact Finset.sum_congr rfl fun h _ => getBlockSubsidy_eq hk h
  have hle := sum_halving_le two_mul_subsidyAfter_le hpos n
  have hzero : subsidyAfter 0 = 5000000000 := rfl
  rw [hzero] at hle
  rw [hsum, COIN]
  omega

/-! ### Chains -/

/-- The chains, newest block first, that successful calls of `ConnectBlock` build on a genesis
block, with the tables and the coins after them. -/
inductive Reached (c : Crypto) (params : Params) : List Block → LeafDB → CoinsView → Prop
  | genesis (block : Block) (db : LeafDB) (hhash : block.getHash c = params.hashGenesisBlock) :
      Reached c params [block] db fun _ => none
  | connect {chain : List Block} {db db' : LeafDB} {view : CoinsView} {block : Block}
      {fScriptChecks parallel : Bool} {r : Connected} (hchain : Reached c params chain db view)
      (hconnect : connectBlock
        { crypto := c, params := params, fScriptChecks := fScriptChecks, parallel := parallel
          fJustCheck := false, prev := chain.map Block.header, block := block } db view =
        .ok (r, db')) :
      Reached c params (block :: chain) db' r.view

/-- The sum of the subsidies of the heights `1` to `n`. -/
def subsidiesUpTo (params : Params) (n : Nat) : Int :=
  ∑ h ∈ Finset.Icc 1 n, getBlockSubsidy params h

theorem getBlockSubsidy_nonneg (hk : params.nSubsidyHalvingInterval = k) (h : Nat) :
    0 ≤ getBlockSubsidy params h := by
  rw [getBlockSubsidy_eq hk]
  exact Int.natCast_nonneg _

theorem subsidiesUpTo_succ (params : Params) (n : Nat) :
    subsidiesUpTo params (n + 1) = subsidiesUpTo params n + getBlockSubsidy params (n + 1) :=
  Finset.sum_Icc_succ_top (by omega) _

/-- Along a chain the supply stays below the sum of the subsidies. The induction is on the calls
of `ConnectBlock`; the height of a block is the length of the chain below it. -/
theorem supply_le_subsidies {c : Crypto} (hk : params.nSubsidyHalvingInterval = k)
    {chain : List Block} {db : LeafDB} (h : Reached c params chain db view) :
    chain ≠ [] ∧ SoundCoins view ∧ supply view ≤ subsidiesUpTo params (chain.length - 1) := by
  induction h with
  | genesis block db hhash =>
    refine ⟨by simp, soundCoins_empty, ?_⟩
    rw [supply_empty]
    exact Int.le_refl 0
  | @connect chain db db' view block fScriptChecks parallel r hchain hconnect ih =>
    obtain ⟨hne, hsound, hle⟩ := ih
    have hlen : chain.length = chain.length - 1 + 1 := by
      have := length_pos_iff.mpr hne
      omega
    have hsum : subsidiesUpTo params chain.length =
        subsidiesUpTo params (chain.length - 1) + getBlockSubsidy params chain.length := by
      have := subsidiesUpTo_succ params (chain.length - 1)
      rwa [← hlen] at this
    obtain ⟨hcheck, hcases⟩ := (connectBlock_ok_iff rfl).mp hconnect
    have hnonneg := getBlockSubsidy_nonneg hk chain.length
    refine ⟨by simp, ?_⟩
    rw [length_cons, Nat.add_sub_cancel]
    cases hcases with
    | inl hgenesis =>
      -- the genesis block leaves the coins as they are
      obtain ⟨-, rfl, -⟩ := hgenesis
      exact ⟨hsound, by show supply view ≤ _; omega⟩
    | inr hblock =>
      obtain ⟨-, -, hcoins, -, -⟩ := hblock
      obtain ⟨hsound', hle'⟩ := connectCoins_supply hsound (checkBlock_ok_iff.mp hcheck).2.2.2 hcoins
      have hstep : supply r.view ≤ supply view + getBlockSubsidy params chain.length := by
        simpa [ConnectContext.nHeight] using hle'
      exact ⟨hsound', by omega⟩

/-- The halving interval of every network is positive and at most `2100000` blocks. -/
theorem chainParams_interval (hash : Uint256) (options : ChainOptions) (net : ChainType) :
    ∃ k : Nat, (chainParams hash options net).nSubsidyHalvingInterval = k ∧ 0 < k ∧ k ≤ 2100000 := by
  cases net with
  | main => exact ⟨2100000, rfl, by decide, by decide⟩
  | testnet => exact ⟨2100000, rfl, by decide, by decide⟩
  | signet => exact ⟨2100000, rfl, by decide, by decide⟩
  | regtest => exact ⟨150, rfl, by decide, by decide⟩

/-- No inflation. On every network, on every chain that `ConnectBlock` builds on the genesis block,
there are finitely many coins, their values add up to at most the subsidies of the blocks after
genesis, and to at most `MAX_MONEY`. -/
theorem supply_bounded (c : Crypto) (hash : Uint256) (options : ChainOptions) (net : ChainType)
    (chain : List Block) (db : LeafDB) (view : CoinsView)
    (h : Reached c (chainParams hash options net) chain db view) :
    {o | (view o).isSome}.Finite ∧
      supply view ≤ subsidiesUpTo (chainParams hash options net) (chain.length - 1) ∧
      supply view ≤ MAX_MONEY := by
  obtain ⟨k, hk, hpos, hmax⟩ := chainParams_interval hash options net
  obtain ⟨-, hsound, hle⟩ := supply_le_subsidies hk h
  have hrange : subsidiesUpTo (chainParams hash options net) (chain.length - 1) ≤
      ∑ n ∈ Finset.range (chain.length - 1 + 1), getBlockSubsidy (chainParams hash options net) n := by
    refine Finset.sum_le_sum_of_subset_of_nonneg (fun n hn => ?_)
      fun n _ _ => getBlockSubsidy_nonneg hk n
    rw [Finset.mem_Icc] at hn
    exact Finset.mem_range.mpr (by omega)
  have hsum := sum_getBlockSubsidy_le hk hpos (chain.length - 1 + 1)
  have hcap : 100 * COIN * (k : Int) ≤ MAX_MONEY := by
    unfold MAX_MONEY COIN
    omega
  exact ⟨hsound.finite, hle, by omega⟩

/-- A block of height 1 whose coinbase takes the whole subsidy. -/
def rewardBlock : Block :=
  let base : Block :=
    { sampleGenesis with
      hashPrevBlock := sampleGenesis.getHash sampleCrypto
      nTime := 60
      vtx := [sampleCoinbase 1 [⟨5000000000, [OP_1]⟩]] }
  { base with hashMerkleRoot := (blockMerkleRoot sampleCrypto base).1 }

/-- On regtest that block can be connected to the genesis block, and the bounds hold of the coins
after it. -/
theorem supply_bounded_rewardBlock :
    ∃ db view, Reached sampleCrypto
        (chainParams (sampleGenesisBlock.getHash sampleCrypto) {} .regtest)
        [rewardBlock, sampleGenesisBlock] db view ∧
      {o | (view o).isSome}.Finite ∧ supply view ≤ MAX_MONEY := by
  have hconnect : (match connectBlock
      { crypto := sampleCrypto
        params := chainParams (sampleGenesisBlock.getHash sampleCrypto) {} .regtest
        fScriptChecks := true, parallel := false, fJustCheck := false
        prev := [sampleGenesisBlock].map Block.header, block := rewardBlock }
      LeafDB.empty (fun _ => none) with
      | .ok _ => true
      | .error _ => false) = true := by
    decide +kernel
  split at hconnect
  · rename_i out hout
    obtain ⟨r, db⟩ := out
    have hreached := Reached.connect (.genesis sampleGenesisBlock LeafDB.empty
      (chainParams_hashGenesisBlock _ _ _).symm) hout
    obtain ⟨hfinite, -, hmoney⟩ := supply_bounded sampleCrypto
      (sampleGenesisBlock.getHash sampleCrypto) {} .regtest _ _ _ hreached
    exact ⟨db, r.view, hreached, hfinite, hmoney⟩
  · cases hconnect

end AssentianPQE
