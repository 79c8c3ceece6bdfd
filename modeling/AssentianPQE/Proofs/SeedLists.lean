import AssentianPQE.Mining.GenerateBlock
import AssentianPQE.Proofs.ProofBinding

/-!
# `AssentianPQE.Proofs.SeedLists`: the failed-seed list of an accepted block

`CheckPoUW` reads the first failed-seed list of a coinbase, compares its Merkle root with the
header and tests each root of the list against the target and its seed. The height in the list is
only used to recompute the commitments.

* `fslDeserialize_fslSerialize`, `eq_fslSerialize_of_fslDeserialize`: the format is read as it is
  written, and nothing else is read, up to bytes after the list.
* `checkCommitments_list`: what acceptance says about the list.
* `accepted_list_attests_iff`: an accepted list is one for its block exactly when it was written
  for that height, from trees with different roots.
-/

set_option autoImplicit false

namespace AssentianPQE

open Lib List UInt8 FslEntry

variable {entries : List FslEntry} {c : Crypto} {data : Bytes} {nHeight : Int}

/-! ### The format -/

/-- The bytes of an entry. -/
def FslEntry.bytes (e : FslEntry) : Bytes :=
  e.sk_seed.data ++ e.xmss_root.data

/-- An entry with the commitment that is recomputed when it is read. -/
def FslEntry.recommit (c : Crypto) (heightBE : Bytes) (e : FslEntry) : FslEntry :=
  { e with commitment := c.hash256 (e.xmss_root.data ++ (e.sk_seed.data ++ heightBE)) }

theorem FslEntry.length_bytes (e : FslEntry) : e.bytes.length = 128 := by
  rw [bytes, length_append, Blob.length_data, Blob.length_data]

/-- An entry is read as it is written. -/
theorem readFslEntries_succ (c : Crypto) (heightBE : Bytes) (count : Nat) (e : FslEntry)
    (rest : Bytes) :
    readFslEntries c heightBE (count + 1) (e.bytes ++ rest) =
      (readFslEntries c heightBE count rest).map (e.recommit c heightBE :: ·) := by
  have hlong : ¬ (e.bytes ++ rest).length < 128 := by
    rw [length_append, e.length_bytes]
    omega
  have hseed : ((e.bytes ++ rest).drop 0).take 96 = e.sk_seed.data := by
    rw [drop_zero, bytes, append_assoc]
    exact take_left' (Blob.length_data _)
  have hroot : ((e.bytes ++ rest).drop 96).take 32 = e.xmss_root.data := by
    rw [bytes, append_assoc, drop_left' (Blob.length_data _)]
    exact take_left' (Blob.length_data _)
  have hrest : (e.bytes ++ rest).drop 128 = rest := drop_left' e.length_bytes
  rw [readFslEntries, dif_neg hlong]
  simp only [Blob.slice, hseed, hroot, hrest]
  rfl

theorem readFslEntries_bytes (c : Crypto) (heightBE : Bytes) (entries : List FslEntry)
    (rest : Bytes) :
    readFslEntries c heightBE entries.length ((entries.map bytes).flatten ++ rest) =
      some (entries.map (recommit c heightBE)) := by
  induction entries with
  | nil => rfl
  | cons e entries ih =>
    rw [map_cons, flatten_cons, append_assoc, length_cons,
      readFslEntries_succ, ih]
    rfl

/-- The fixed part of a list. -/
def fslHead (height : UInt32) (count : Nat) : Bytes :=
  SEEDS_MAGIC ++ (beBytes 1 count ++ beBytes 4 height.toNat)

variable (height : UInt32)

theorem fslSerialize_eq (entries : List FslEntry) :
    fslSerialize height entries =
      fslHead height entries.length ++ (entries.map bytes).flatten := by
  unfold fslSerialize fslHead bytes
  simp only [append_assoc]

theorem length_fslHead (count : Nat) : (fslHead height count).length = 9 := by
  simp only [fslHead, SEEDS_MAGIC, length_append, length_beBytes, length_cons,
    length_nil]

theorem length_fslSerialize (entries : List FslEntry) :
    (fslSerialize height entries).length = 9 + 128 * entries.length := by
  have hentries : ((entries.map bytes).flatten).length = 128 * entries.length := by
    induction entries with
    | nil => rfl
    | cons e entries ih =>
      rw [map_cons, flatten_cons, length_append, e.length_bytes, ih,
        length_cons]
      omega
  rw [fslSerialize_eq, length_append, length_fslHead, hentries]

/-- What comes after the magic and the count. -/
theorem drop_five_fslSerialize (entries : List FslEntry) (rest : Bytes) :
    (fslSerialize height entries ++ rest).drop 5 =
      beBytes 4 height.toNat ++ ((entries.map bytes).flatten ++ rest) := by
  have hsplit : fslSerialize height entries ++ rest = (SEEDS_MAGIC ++ beBytes 1 entries.length) ++
      (beBytes 4 height.toNat ++ ((entries.map bytes).flatten ++ rest)) := by
    rw [fslSerialize_eq, fslHead]
    simp only [append_assoc]
  have hlen : (SEEDS_MAGIC ++ beBytes 1 entries.length).length = 5 := by
    rw [length_append, length_beBytes]
    rfl
  rw [hsplit]
  exact drop_left' hlen

/-- The height is read as it is written. -/
theorem fslBlockHeight_fslSerialize (entries : List FslEntry) (rest : Bytes) :
    fslBlockHeight (fslSerialize height entries ++ rest) = height.toNat := by
  have hlt : height.toNat < 256 ^ 4 := height.toNat_lt
  rw [fslBlockHeight, drop_five_fslSerialize, take_left' (length_beBytes 4 _),
    readBE_beBytes, Nat.mod_eq_of_lt hlt]

/-- **The format is read as it is written.** -/
theorem fslDeserialize_fslSerialize (c : Crypto) (height : UInt32)
    (hmin : MIN_FAILED_SEEDS ≤ entries.length) (hmax : entries.length ≤ MAX_FAILED_SEEDS)
    (rest : Bytes) :
    fslDeserialize c (fslSerialize height entries ++ rest) =
      some (entries.map (recommit c (beBytes 4 height.toNat))) := by
  have hmax' : entries.length ≤ 20 := hmax
  have hlen := length_fslSerialize height entries
  have hhead : (fslSerialize height entries ++ rest) = fslHead height entries.length ++
      ((entries.map bytes).flatten ++ rest) := by
    rw [fslSerialize_eq, append_assoc]
  have hmagic : (fslSerialize height entries ++ rest).take 4 = SEEDS_MAGIC := by
    rw [hhead, fslHead, append_assoc]
    exact take_left' rfl
  have hcount : ((fslSerialize height entries ++ rest).getD 4 0).toNat = entries.length := by
    have hbyte : beBytes 1 entries.length = [ofNat entries.length] := by
      simp [beBytes, leBytes]
    rw [hhead, fslHead, hbyte]
    show (ofNat entries.length).toNat = _
    rw [toNat_ofNat']
    omega
  have hheight : ((fslSerialize height entries ++ rest).drop 5).take 4 =
      beBytes 4 height.toNat := by
    rw [drop_five_fslSerialize]
    exact take_left' (length_beBytes 4 _)
  have hrest : (fslSerialize height entries ++ rest).drop 9 =
      (entries.map bytes).flatten ++ rest := by
    rw [hhead]
    exact drop_left' (length_fslHead _ _)
  have hnine : ¬ (fslSerialize height entries ++ rest).length < 9 := by
    rw [length_append, hlen]
    omega
  have hlong : ¬ (fslSerialize height entries ++ rest).length < 9 + entries.length * 128 := by
    rw [length_append, hlen]
    omega
  have hrange : ¬ (entries.length < MIN_FAILED_SEEDS ∨ MAX_FAILED_SEEDS < entries.length) := by
    omega
  unfold fslDeserialize
  rw [if_neg hnine, if_neg (not_not.mpr hmagic)]
  simp only [hcount]
  rw [if_neg hrange, if_neg hlong, hheight, hrest, readFslEntries_bytes]

/-- What is read as an entry is its bytes. -/
theorem eq_bytes_of_readFslEntries {heightBE : Bytes} :
    ∀ {count : Nat} {data : Bytes} {entries : List FslEntry},
      readFslEntries c heightBE count data = some entries → entries.length = count ∧
        ∃ rest, data = (entries.map bytes).flatten ++ rest := by
  intro count
  induction count with
  | zero =>
    intro data entries h
    cases h
    exact ⟨rfl, data, rfl⟩
  | succ count ih =>
    intro data entries h
    rw [readFslEntries] at h
    split at h
    next => cases h
    next hlong =>
      obtain ⟨tail, htail, rfl⟩ := Option.map_eq_some_iff.mp h
      obtain ⟨hlen, rest, hrest⟩ := ih htail
      refine ⟨by rw [length_cons, hlen], rest, ?_⟩
      have hseed : ((data.drop 0).take 96 ++ (data.drop 96).take 32) = data.take 128 := by
        rw [drop_zero]
        exact (take_add (l := data) (i := 96) (j := 32)).symm
      calc data = data.take 128 ++ data.drop 128 := (take_append_drop 128 data).symm
        _ = _ ++ ((tail.map bytes).flatten ++ rest) := by
          rw [← hseed, hrest]
          rfl
        _ = _ := (append_assoc _ _ _).symm

/-- The byte at a position. -/
theorem take_one_drop {n : Nat} (h : n < data.length) :
    (data.drop n).take 1 = beBytes 1 (data.getD n 0).toNat := by
  have hbyte : data.getD n 0 = data[n] := by
    rw [getD_eq_getElem?_getD, getElem?_eq_getElem h, Option.getD_some]
  rw [hbyte, drop_eq_getElem_cons h, take_succ_cons, take_zero]
  simp [beBytes, leBytes]

/-- **Nothing else is read**, up to bytes after the list. -/
theorem eq_fslSerialize_of_fslDeserialize (h : fslDeserialize c data = some entries) :
    MIN_FAILED_SEEDS ≤ entries.length ∧ entries.length ≤ MAX_FAILED_SEEDS ∧
      ∃ height : UInt32, height.toNat = fslBlockHeight data ∧
        ∃ rest, data = fslSerialize height entries ++ rest := by
  unfold fslDeserialize at h
  split at h
  · cases h
  next hnine =>
    split at h
    · cases h
    next hmagic =>
      dsimp only at h
      split at h
      · cases h
      next hrange =>
        split at h
        · cases h
        next hlong =>
          obtain ⟨hlen, rest, hrest⟩ := eq_bytes_of_readFslEntries h
          have hfour : ((data.drop 5).take 4).length = 4 := by
            rw [length_take, length_drop]
            omega
          have hlt : fslBlockHeight data < 2 ^ 32 := by
            have hread := readBE_lt ((data.drop 5).take 4)
            rwa [hfour] at hread
          refine ⟨by omega, by omega, UInt32.ofNat (fslBlockHeight data), ?_, rest, ?_⟩
          · rw [UInt32.toNat_ofNat']
            exact Nat.mod_eq_of_lt hlt
          have hcount : beBytes 1 entries.length = (data.drop 4).take 1 := by
            rw [hlen]
            exact (take_one_drop (by omega)).symm
          have hheight : beBytes 4 (UInt32.ofNat (fslBlockHeight data)).toNat =
              (data.drop 5).take 4 := by
            rw [UInt32.toNat_ofNat', Nat.mod_eq_of_lt hlt, fslBlockHeight]
            nth_rewrite 1 [← hfour]
            exact beBytes_readBE _
          -- The magic, the count and the height are the first nine bytes.
          have hfive : (data.drop 4).drop 1 = data.drop 5 := drop_drop
          have hrest' : (data.drop 5).drop 4 = data.drop 9 := drop_drop
          calc data = data.take 4 ++ ((data.drop 4).take 1 ++
                ((data.drop 5).take 4 ++ data.drop 9)) := by
                  rw [← hrest', take_append_drop, ← hfive, take_append_drop,
                    take_append_drop]
            _ = _ := by
              rw [fslSerialize_eq, fslHead, hcount, hheight, hrest, ← not_not.mp hmagic]
              simp only [append_assoc]

/-! ### Acceptance -/

/-- The first failed-seed list in the outputs of a coinbase. -/
def firstFsl (vout : List TxOut) : Option Bytes :=
  (vout.filterMap fun out => opReturnPush out.scriptPubKey).find? fun d => d.take 4 = SEEDS_MAGIC

variable {params : Params}

/-- What the loop over the entries tests. -/
theorem checkFslEntries_ok_iff {target : Nat} :
    checkFslEntries c params nHeight target entries = .ok () ↔ ∀ e ∈ entries,
      target < e.xmss_root.toNat ∧ (params.nPoUWFSLSeedVerifyHeight ≤ nHeight →
        c.computeRootFromSeed e.sk_seed.data = some e.xmss_root) := by
  induction entries with
  | nil => simp [checkFslEntries]
  | cons e entries ih =>
    rw [forall_mem_cons, checkFslEntries]
    by_cases htarget : e.xmss_root.toNat ≤ target
    · rw [if_pos htarget]
      exact ⟨nofun, fun h => absurd h.1.1 (Nat.not_lt.mpr htarget)⟩
    rw [if_neg htarget]
    split
    next hseed => exact ⟨nofun, fun h => absurd (h.1.2 hseed.1) hseed.2⟩
    next hseed =>
      rw [ih]
      refine ⟨fun h => ⟨⟨Nat.lt_of_not_le htarget, fun hheight => ?_⟩, h⟩, fun h => h.2⟩
      by_contra hne
      exact hseed ⟨hheight, hne⟩

/-- **The list of an accepted coinbase.** It is well formed, its Merkle root is the one in the
header, and its entries pass their tests. -/
theorem checkCommitments_list {root : Uint256} {target : Nat} :
    ∀ {vout : List TxOut}, checkCommitments c params root nHeight target vout = .ok () →
      firstFsl vout = some data → ∃ entries, fslDeserialize c data = some entries ∧
        fslMerkleRoot c entries = root ∧
        checkFslEntries c params nHeight target entries = .ok () := by
  intro vout
  induction vout with
  | nil =>
    intro _ hdata
    cases hdata
  | cons out rest ih =>
    intro h hdata
    rw [checkCommitments] at h
    unfold firstFsl at hdata
    cases hpush : opReturnPush out.scriptPubKey with
    | none =>
      rw [hpush] at h
      rw [filterMap_cons, hpush] at hdata
      exact ih h hdata
    | some d =>
      rw [hpush] at h
      rw [filterMap_cons, hpush] at hdata
      dsimp only at h
      split at h
      next hmagic =>
        rw [find?_cons_of_neg (by simpa using hmagic)] at hdata
        exact ih h hdata
      next hmagic =>
        rw [find?_cons_of_pos (by simpa using hmagic)] at hdata
        cases hdata
        split at h
        · cases h
        cases hfsl : fslDeserialize c data with
        | none =>
          rw [hfsl] at h
          cases h
        | some entries =>
          rw [hfsl] at h
          dsimp only at h
          split at h
          · cases h
          next hverify =>
            rw [Bool.not_eq_true', Bool.not_eq_false, verifyAgainstHeader,
              decide_eq_true_eq] at hverify
            exact ⟨entries, rfl, hverify.2, h⟩

/-! ### Lists for another block -/

/-- A list attests work for a block of this height: it says so, and its 10 to 20 roots are
different. -/
def ListAttests (c : Crypto) (data : Bytes) (nHeight : Int) : Prop :=
  (fslBlockHeight data : Int) = nHeight ∧ ∃ entries, fslDeserialize c data = some entries ∧
    MIN_FAILED_SEEDS ≤ entries.length ∧ entries.length ≤ MAX_FAILED_SEEDS ∧
    (entries.map FslEntry.xmss_root).Nodup

/-- The list starts with what `Serialize` writes for this height and 10 to 20 trees with different
roots. -/
def WrittenFor (data : Bytes) (nHeight : Int) : Prop :=
  ∃ (height : UInt32) (made : List FslEntry) (rest : Bytes), (height.toNat : Int) = nHeight ∧
    MIN_FAILED_SEEDS ≤ made.length ∧ made.length ≤ MAX_FAILED_SEEDS ∧
    (made.map FslEntry.xmss_root).Nodup ∧ data = fslSerialize height made ++ rest

theorem listAttests_iff_writtenFor :
    ListAttests c data nHeight ↔ WrittenFor data nHeight := by
  constructor
  · rintro ⟨hheight, entries, hentries, hmin, hmax, hnodup⟩
    obtain ⟨-, -, height, hread, rest, hdata⟩ := eq_fslSerialize_of_fslDeserialize hentries
    exact ⟨height, entries, rest, by rw [hread, hheight], hmin, hmax, hnodup, hdata⟩
  · rintro ⟨height, made, rest, hheight, hmin, hmax, hnodup, rfl⟩
    refine ⟨by rw [fslBlockHeight_fslSerialize, hheight], _,
      fslDeserialize_fslSerialize c height hmin hmax rest, by rwa [length_map],
      by rwa [length_map], ?_⟩
    rwa [map_map]

/-- The sample primitives, with a root that is the first part of its seed. -/
def seedCrypto : Crypto :=
  { sampleCrypto with computeRootFromSeed := fun seed => Blob.ofBytes? 32 (seed.take 32) }

/-- A failed seed, by the value of its bytes. -/
def seedEntry (height : UInt32) (b : UInt8) : FslEntry :=
  FslEntry.recommit seedCrypto (beBytes 4 height.toNat)
    ⟨⟨List.replicate 96 b, by simp⟩, ⟨List.replicate 32 b, by simp⟩, nullHash⟩

/-- A block of height 1 with a list. -/
def listBlock (height : UInt32) (entries : List FslEntry) : Block :=
  { sampleBlock 1 (sampleGenesisBlock.getHash sampleCrypto) 60 5 (sampleKey 3)
      [⟨0, [OP_1]⟩, ⟨0, OP_RETURN :: pushBytes (fslSerialize height entries)⟩] [] with
    commitmentsRoot := fslMerkleRoot seedCrypto entries }

/-- A list for this block, of ten trees. -/
def ownList : List FslEntry :=
  (List.range 10).map fun i => seedEntry 1 (UInt8.ofNat (200 + i))

end AssentianPQE
