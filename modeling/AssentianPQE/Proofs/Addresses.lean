import AssentianPQE.Address.Bech32

/-!
# `AssentianPQE.Proofs.Addresses`: an XMSS address stands for one hash

`XMSSAddr::Decode` reads every address that the wallet writes (`decode_encodeHash`). The other way
round, an accepted string becomes the address of its hash when its letters are made lower case
(`lowerCase_of_decode`): the six characters of the checksum are determined by the others, and the
twenty bytes of the hash by the thirty-two characters before it.

The checksum is linear. Six values at the end enter the state without feedback, so they are added
to what six zeros would have given (`polyMod_append`).
-/

set_option autoImplicit false

namespace AssentianPQE

open Lib List

variable {str hrp : Bytes}

namespace Bech32

/-! ### The checksum -/

/-- A value as a word. -/
def word (v : UInt8) : BitVec 32 :=
  BitVec.ofNat 32 v.toNat

theorem toNat_word (v : UInt8) : (word v).toNat = v.toNat := by
  have := v.toNat_lt
  rw [word, BitVec.toNat_ofNat]
  omega

theorem toNat_xor_lt {a b : BitVec 32} {n : Nat} (ha : a.toNat < 2 ^ n) (hb : b.toNat < 2 ^ n) :
    (a ^^^ b).toNat < 2 ^ n := by
  rw [BitVec.toNat_xor]
  exact Nat.xor_lt_two_pow ha hb

/-- A value enters the state by exclusive or. -/
theorem polyStep_value (c : BitVec 32) (v : UInt8) : polyStep c v = polyStep c 0 ^^^ word v := by
  have hzero : BitVec.ofNat 32 (0 : UInt8).toNat = 0#32 := rfl
  unfold polyStep word
  rw [hzero, BitVec.xor_zero]
  ac_rfl

/-- What is below the top value moves up by five bits. -/
theorem polyStep_xor (a : BitVec 32) {d : BitVec 32} (hd : d.toNat < 2 ^ 25) (v : UInt8) :
    polyStep (a ^^^ d) v = polyStep a v ^^^ d <<< 5 := by
  have hmask : d &&& 0x1ffffff#32 = d := by
    apply BitVec.eq_of_toNat_eq
    rw [BitVec.toNat_and, show (0x1ffffff#32).toNat = 2 ^ 25 - 1 from rfl,
      Nat.and_two_pow_sub_one_eq_mod, Nat.mod_eq_of_lt hd]
  have htop : d >>> 25 = 0#32 := by
    apply BitVec.eq_of_toNat_eq
    rw [BitVec.toNat_ushiftRight, Nat.shiftRight_eq_div_pow, Nat.div_eq_of_lt hd]
    rfl
  have hdist : (a ^^^ d) &&& 0x1ffffff#32 = (a &&& 0x1ffffff#32) ^^^ d := by
    nth_rewrite 2 [← hmask]
    ext i hi
    simp only [BitVec.getElem_and, BitVec.getElem_xor]
    cases a[i] <;> cases d[i] <;> cases (0x1ffffff#32)[i] <;> rfl
  unfold polyStep
  rw [hdist, BitVec.ushiftRight_xor_distrib, htop, BitVec.xor_zero, BitVec.shiftLeft_xor_distrib]
  ac_rfl

/-- Values packed into a word, five bits each, after the bits of `d`. -/
def pack (d : BitVec 32) (vs : Bytes) : BitVec 32 :=
  vs.foldl (fun acc v => acc <<< 5 ^^^ word v) d

/-- The low five bits are free. -/
theorem mul_xor_eq_add (a : Nat) {v : Nat} (hv : v < 32) : a * 32 ^^^ v = a * 32 + v := by
  have hv' : v < 2 ^ 5 := hv
  apply Nat.eq_of_testBit_eq
  intro i
  rw [show a * 32 = 2 ^ 5 * a from Nat.mul_comm a 32, Nat.testBit_xor, Nat.testBit_two_pow_mul,
    Nat.testBit_two_pow_mul_add a hv' i]
  by_cases hi : i < 5
  · simp [hi, Nat.not_le.mpr hi]
  · have hhigh : v.testBit i = false :=
      Nat.testBit_lt_two_pow (Nat.lt_of_lt_of_le hv' (Nat.pow_le_pow_right (by decide) (by omega)))
    simp [hi, Nat.not_lt.mp hi, hhigh]

/-- One value shifted in. -/
theorem toNat_shift_in {d : BitVec 32} {n : Nat} (hn : n + 5 ≤ 30) (hd : d.toNat < 2 ^ n)
    {v : UInt8} (hv : v.toNat < 32) :
    (d <<< 5 ^^^ word v).toNat = d.toNat * 32 + v.toNat ∧
      (d <<< 5 ^^^ word v).toNat < 2 ^ (n + 5) := by
  have hpow : 2 ^ (n + 5) = 2 ^ n * 32 := by rw [Nat.pow_add]
  have hle : 2 ^ (n + 5) ≤ 2 ^ 30 := Nat.pow_le_pow_right (by decide) hn
  have hshift : (d <<< 5).toNat = d.toNat * 32 := by
    rw [BitVec.toNat_shiftLeft, Nat.shiftLeft_eq, Nat.mod_eq_of_lt]
    omega
  have heq : (d <<< 5 ^^^ word v).toNat = d.toNat * 32 + v.toNat := by
    rw [BitVec.toNat_xor, hshift, toNat_word]
    exact mul_xor_eq_add d.toNat hv
  exact ⟨heq, by omega⟩

/-- Values that are packed after few enough bits are digits of a number. -/
theorem toNat_pack : ∀ {vs : Bytes} {d : BitVec 32} {n : Nat}, n + 5 * vs.length ≤ 30 →
    d.toNat < 2 ^ n → (∀ v ∈ vs, v.toNat < 32) →
    (pack d vs).toNat = d.toNat * 32 ^ vs.length + valueBE 32 (vs.map UInt8.toNat) := by
  intro vs
  induction vs with
  | nil =>
    intro d n _ _ _
    simp [pack]
  | cons v vs ih =>
    intro d n hn hd hvs
    rw [length_cons, Nat.mul_add] at hn
    obtain ⟨heq, hlt⟩ := toNat_shift_in (by omega) hd (hvs v mem_cons_self)
    have hrest := ih (d := d <<< 5 ^^^ word v) (n := n + 5) (by omega) hlt
      fun u hu => hvs u (mem_cons_of_mem _ hu)
    show (pack (d <<< 5 ^^^ word v) vs).toNat = _
    rw [hrest, heq, map_cons, valueBE_cons, length_map, length_cons, Nat.pow_succ]
    ring

/-- Values at the end of the input, after `d` was added to the state: they add what they pack to,
as long as nothing reaches the top value. -/
theorem foldl_polyStep : ∀ {vs : Bytes} {c d : BitVec 32}, 5 * vs.length ≤ 30 →
    d.toNat < 2 ^ (30 - 5 * vs.length) → (∀ v ∈ vs, v.toNat < 32) →
    vs.foldl polyStep (c ^^^ d) = (List.replicate vs.length 0).foldl polyStep c ^^^ pack d vs := by
  intro vs
  induction vs with
  | nil =>
    intro c d _ _ _
    rfl
  | cons v vs ih =>
    intro c d hlen hd hvs
    rw [length_cons, Nat.mul_add] at hlen hd
    have hlow : d.toNat < 2 ^ 25 :=
      Nat.lt_of_lt_of_le hd (Nat.pow_le_pow_right (by decide) (by omega))
    obtain ⟨-, hlt⟩ := toNat_shift_in (by omega) hd (hvs v mem_cons_self)
    have hstep : polyStep (c ^^^ d) v = polyStep c 0 ^^^ (d <<< 5 ^^^ word v) := by
      rw [polyStep_xor c hlow, polyStep_value c v]
      ac_rfl
    rw [show 30 - (5 * vs.length + 5 * 1) + 5 = 30 - 5 * vs.length by omega] at hlt
    show vs.foldl polyStep (polyStep (c ^^^ d) v) = _
    rw [hstep, ih (by omega) hlt fun u hu => hvs u (mem_cons_of_mem _ hu)]
    rfl

variable {vs : Bytes}

/-- Six values at the end are added to what six zeros give. -/
theorem polyMod_append (xs : Bytes) (hlen : vs.length = 6) (hvs : ∀ v ∈ vs, v.toNat < 32) :
    polyMod (xs ++ vs) = polyMod (xs ++ List.replicate 6 0) ^^^ pack 0#32 vs := by
  have h := foldl_polyStep (c := xs.foldl polyStep 1#32) (d := 0#32) (by omega)
    (by rw [hlen]; decide) hvs
  rw [BitVec.xor_zero, hlen] at h
  rw [polyMod, polyMod, foldl_append, foldl_append, h]

theorem polyFeedback_lt (c0 : BitVec 32) : (polyFeedback c0).toNat < 2 ^ 30 := by
  have hpart : ∀ (b : Bool) (g : BitVec 32), g.toNat < 2 ^ 30 →
      (if b then g else 0#32).toNat < 2 ^ 30 := by
    intro b g hg
    cases b
    · show (0#32).toNat < 2 ^ 30
      decide
    · exact hg
  unfold polyFeedback
  exact toNat_xor_lt (toNat_xor_lt (toNat_xor_lt (toNat_xor_lt (hpart _ _ (by decide))
    (hpart _ _ (by decide))) (hpart _ _ (by decide))) (hpart _ _ (by decide))) (hpart _ _ (by decide))

/-- The state has thirty bits. -/
theorem polyMod_lt {xs : Bytes} (hxs : ∀ v ∈ xs, v.toNat < 32) : (polyMod xs).toNat < 2 ^ 30 := by
  have hrun : ∀ (vs : Bytes) (c : BitVec 32), (∀ v ∈ vs, v.toNat < 32) → c.toNat < 2 ^ 30 →
      (vs.foldl polyStep c).toNat < 2 ^ 30 := by
    intro vs
    induction vs with
    | nil => exact fun _ _ hc => hc
    | cons v vs ih =>
      intro c hvs hc
      refine ih _ (fun u hu => hvs u (mem_cons_of_mem _ hu)) ?_
      have hlow : ((c &&& 0x1ffffff#32) <<< 5).toNat < 2 ^ 30 := by
        have hmask : (c &&& 0x1ffffff#32).toNat < 2 ^ 25 := by
          rw [BitVec.toNat_and, show (0x1ffffff#32).toNat = 2 ^ 25 - 1 from rfl,
            Nat.and_two_pow_sub_one_eq_mod]
          exact Nat.mod_lt _ (by decide)
        rw [BitVec.toNat_shiftLeft, Nat.shiftLeft_eq]
        omega
      have hword : (BitVec.ofNat 32 v.toNat).toNat < 2 ^ 30 := by
        have hv := hvs v mem_cons_self
        have hw := toNat_word v
        unfold word at hw
        omega
      exact toNat_xor_lt (toNat_xor_lt hlow hword) (polyFeedback_lt _)
  exact hrun xs 1#32 hxs (by decide)

/-- The values of the human-readable part are digits. -/
theorem expandHRP_lt (hrp : Bytes) : ∀ v ∈ expandHRP hrp, v.toNat < 32 := by
  intro v hv
  unfold expandHRP at hv
  rw [mem_append, mem_cons] at hv
  rcases hv with hv | rfl | hv
  · obtain ⟨c, -, rfl⟩ := mem_map.mp hv
    have hc := c.toNat_lt
    rw [UInt8.toNat_shiftRight, show (5 : UInt8).toNat % 8 = 5 from rfl, Nat.shiftRight_eq_div_pow]
    omega
  · decide
  · obtain ⟨c, -, rfl⟩ := mem_map.mp hv
    rw [UInt8.toNat_and, show (0x1f : UInt8).toNat = 2 ^ 5 - 1 from rfl,
      Nat.and_two_pow_sub_one_eq_mod]
    exact Nat.mod_lt _ (by decide)

/-- The word that the checksum has to pack to. -/
def target (encoding : Encoding) (hrp values : Bytes) : BitVec 32 :=
  polyMod (expandHRP hrp ++ values ++ List.replicate 6 0) ^^^ encodingConstant encoding

variable {values : Bytes}

theorem target_lt (encoding : Encoding) (hrp : Bytes) (hvalues : ∀ v ∈ values, v.toNat < 32) :
    (target encoding hrp values).toNat < 2 ^ 30 := by
  have hmod : (polyMod (expandHRP hrp ++ values ++ List.replicate 6 0)).toNat < 2 ^ 30 := by
    refine polyMod_lt fun v hv => ?_
    rw [mem_append, mem_append] at hv
    rcases hv with (hv | hv) | hv
    · exact expandHRP_lt hrp v hv
    · exact hvalues v hv
    · rw [eq_of_mem_replicate hv]
      decide
  exact toNat_xor_lt hmod (by cases encoding <;> decide)

/-- The checksum consists of six digits that pack to that word. -/
theorem createChecksum_spec (encoding : Encoding) (hrp : Bytes)
    (hvalues : ∀ v ∈ values, v.toNat < 32) :
    (createChecksum encoding hrp values).length = 6 ∧
      (∀ v ∈ createChecksum encoding hrp values, v.toNat < 32) ∧
      pack 0#32 (createChecksum encoding hrp values) = target encoding hrp values := by
  have hlt := target_lt encoding hrp hvalues
  have hdigit : ∀ i, (UInt8.ofNat ((target encoding hrp values >>> (5 * (5 - i))) &&& 31#32).toNat).toNat
      = (target encoding hrp values).toNat / 2 ^ (5 * (5 - i)) % 32 := by
    intro i
    rw [UInt8.toNat_ofNat', BitVec.toNat_and, show (31#32).toNat = 2 ^ 5 - 1 from rfl,
      Nat.and_two_pow_sub_one_eq_mod, BitVec.toNat_ushiftRight, Nat.shiftRight_eq_div_pow]
    omega
  have hdigits : (createChecksum encoding hrp values).map UInt8.toNat =
      (List.range 6).map fun i => (target encoding hrp values).toNat / 2 ^ (5 * (5 - i)) % 32 := by
    rw [createChecksum, map_map]
    exact map_congr_left fun i _ => hdigit i
  have hlen : (createChecksum encoding hrp values).length = 6 := by
    rw [createChecksum, length_map, length_range]
  have hsmall : ∀ v ∈ createChecksum encoding hrp values, v.toNat < 32 := by
    intro v hv
    obtain ⟨i, -, rfl⟩ := mem_map.mp hv
    show (UInt8.ofNat ((target encoding hrp values >>> (5 * (5 - i))) &&& 31#32).toNat).toNat < 32
    rw [hdigit]
    exact Nat.mod_lt _ (by decide)
  refine ⟨hlen, hsmall, ?_⟩
  apply BitVec.eq_of_toNat_eq
  rw [toNat_pack (n := 0) (by omega) (by decide) hsmall, hdigits]
  generalize (target encoding hrp values).toNat = m at hlt
  show 0 * 32 ^ _ + valueBE 32 [m / 2 ^ 25 % 32, m / 2 ^ 20 % 32, m / 2 ^ 15 % 32, m / 2 ^ 10 % 32,
    m / 2 ^ 5 % 32, m / 2 ^ 0 % 32] = m
  simp only [valueBE_cons, valueBE_nil, length_cons, length_nil]
  omega

variable {encoding : Encoding}

/-- The checksum is the only one that verifies. -/
theorem polyMod_eq_iff (hvalues : ∀ v ∈ values, v.toNat < 32) (hlen : vs.length = 6)
    (hvs : ∀ v ∈ vs, v.toNat < 32) :
    polyMod (expandHRP hrp ++ (values ++ vs)) = encodingConstant encoding ↔
      vs = createChecksum encoding hrp values := by
  obtain ⟨hlen', hsmall', hpack'⟩ := createChecksum_spec encoding hrp hvalues
  have hsum : polyMod (expandHRP hrp ++ (values ++ vs)) = encodingConstant encoding ↔
      pack 0#32 vs = target encoding hrp values := by
    rw [← append_assoc, polyMod_append _ hlen hvs, target]
    generalize polyMod (expandHRP hrp ++ values ++ List.replicate 6 0) = p
    constructor
    · intro h
      rw [← h, ← BitVec.xor_assoc, BitVec.xor_self, BitVec.zero_xor]
    · intro h
      rw [h, ← BitVec.xor_assoc, BitVec.xor_self, BitVec.zero_xor]
  rw [hsum, ← hpack']
  constructor
  · intro h
    have hvalue := congrArg BitVec.toNat h
    rw [toNat_pack (n := 0) (by omega) (by decide) hvs,
      toNat_pack (n := 0) (by omega) (by decide) hsmall', hlen, hlen'] at hvalue
    have hmap : vs.map UInt8.toNat = (createChecksum encoding hrp values).map UInt8.toNat :=
      valueBE_inj (b := 32) (by decide) (by simp [hlen, hlen']) (by simpa using hvs)
        (by simpa using hsmall') (by omega)
    exact map_injective_iff.mpr (fun _ _ => UInt8.toNat.inj) hmap
  · rintro rfl
    rfl

/-! ### Characters -/

/-- A fact about every character follows from its instances. -/
theorem forall_char {P : UInt8 → Prop} (h : ∀ n < 256, P (UInt8.ofNat n)) (c : UInt8) : P c := by
  have hc := h c.toNat c.toNat_lt
  rwa [UInt8.ofNat_toNat] at hc

/-- What the tables say about a character of the data part. -/
theorem charsetRev_spec (c v : UInt8) (h : charsetRev c = some v) :
    v.toNat < 32 ∧ CHARSET.getD v.toNat 0 = lowerCase c ∧ c ≠ separator := by
  have hall : ∀ c : UInt8, ∀ v ∈ charsetRev c,
      v.toNat < 32 ∧ CHARSET.getD v.toNat 0 = lowerCase c ∧ c ≠ separator :=
    forall_char (by decide +kernel)
  exact hall c v h

/-- A character of the set is printable, is no upper-case letter and no separator, and is read
back. -/
structure SetChar (c : UInt8) : Prop where
  low : 33 ≤ c
  high : c ≤ 126
  upper : isUpper c = false

theorem charset_spec {v : UInt8} (hv : v.toNat < 32) :
    SetChar (CHARSET.getD v.toNat 0) ∧ CHARSET.getD v.toNat 0 ≠ separator ∧
      charsetRev (CHARSET.getD v.toNat 0) = some v := by
  have hall : ∀ n < 32, (33 ≤ CHARSET.getD n 0 ∧ CHARSET.getD n 0 ≤ 126 ∧
      isUpper (CHARSET.getD n 0) = false) ∧ CHARSET.getD n 0 ≠ separator ∧
      charsetRev (CHARSET.getD n 0) = some (UInt8.ofNat n) := by
    decide +kernel
  obtain ⟨⟨h1, h2, h3⟩, h4, h5⟩ := hall v.toNat hv
  rw [UInt8.ofNat_toNat] at h5
  exact ⟨⟨h1, h2, h3⟩, h4, h5⟩

theorem SetChar.lowerCase {c : UInt8} (h : SetChar c) : lowerCase c = c := by
  rw [Bech32.lowerCase, h.upper]
  rfl

/-- Printable characters without upper-case letters pass. -/
theorem checkCharactersFrom_of_setChar (h : ∀ c ∈ str, SetChar c) (lower : Bool) :
    checkCharactersFrom lower false str = true := by
  induction str generalizing lower with
  | nil => rfl
  | cons c str ih =>
    have hc := h c mem_cons_self
    have hrest := fun b => ih (fun d hd => h d (mem_cons_of_mem _ hd)) b
    have hrange : (decide (c < 33) || decide (126 < c)) = false := by
      simpa using ⟨hc.low, hc.high⟩
    unfold checkCharactersFrom
    rw [hc.upper, hrest, hrest, hrange]
    cases isLower c <;> rfl

/-- The values of characters are digits, and the characters of the values are the characters in
lower case. -/
theorem charValues_spec {cs : Bytes} (h : charValues cs = some vs) :
    vs.length = cs.length ∧ (∀ v ∈ vs, v.toNat < 32) ∧
      (vs.map fun v => CHARSET.getD v.toNat 0) = cs.map lowerCase := by
  induction cs generalizing vs with
  | nil =>
    cases h
    simp
  | cons c cs ih =>
    obtain ⟨v, hv, hrest⟩ := Option.bind_eq_some_iff.mp h
    obtain ⟨us, hus, rfl⟩ := Option.map_eq_some_iff.mp hrest
    obtain ⟨hlen, hsmall, hmap⟩ := ih hus
    obtain ⟨hlt, hchar, -⟩ := charsetRev_spec c v hv
    refine ⟨by simp [hlen], ?_, by simp only [map_cons, hchar, hmap]⟩
    intro u hu
    cases mem_cons.mp hu with
    | inl heq => rw [heq]; exact hlt
    | inr hmem => exact hsmall u hmem

/-- The characters of digits are read back. -/
theorem charValues_map (h : ∀ v ∈ vs, v.toNat < 32) :
    charValues (vs.map fun v => CHARSET.getD v.toNat 0) = some vs := by
  induction vs with
  | nil => rfl
  | cons v vs ih =>
    have hv := (charset_spec (h v mem_cons_self)).2.2
    have hrest := ih fun u hu => h u (mem_cons_of_mem _ hu)
    rw [map_cons, charValues, hv, hrest]
    rfl

/-- The last place of a character is where the rest is without it. -/
theorem rfind_append {ch : UInt8} {p d : Bytes} (hd : ch ∉ d) :
    rfind ch (p ++ ch :: d) = some p.length := by
  have hnone : d.reverse.findIdx? (fun x => decide (x = ch)) = none := by
    rw [findIdx?_eq_none_iff]
    intro x hx
    rw [mem_reverse] at hx
    exact decide_eq_false fun heq => hd (heq ▸ hx)
  have hfind : (p ++ ch :: d).reverse.findIdx? (fun x => decide (x = ch)) = some d.length := by
    rw [reverse_append, reverse_cons, append_assoc, findIdx?_append, hnone]
    simp [findIdx?_cons]
  rw [rfind, hfind]
  simp

theorem eq_append_of_rfind {ch : UInt8} {pos : Nat} (h : rfind ch str = some pos) :
    str = str.take pos ++ ch :: str.drop (pos + 1) := by
  obtain ⟨i, hi, rfl⟩ := Option.map_eq_some_iff.mp h
  obtain ⟨hlt, hch, -⟩ := findIdx?_eq_some_iff_getElem.mp hi
  rw [length_reverse] at hlt
  rw [getElem_reverse, decide_eq_true_eq] at hch
  have hpos : str.length - 1 - i < str.length := by omega
  rw [← hch, cons_getElem_drop_succ, take_append_drop]

/-! ### Strings -/

/-- The checksum of a string names one encoding. -/
theorem verifyChecksum_eq_some :
    verifyChecksum hrp values = some encoding ↔
      polyMod (expandHRP hrp ++ values) = encodingConstant encoding := by
  have hne : encodingConstant .bech32 ≠ encodingConstant .bech32m := by decide
  unfold verifyChecksum
  generalize polyMod (expandHRP hrp ++ values) = check
  show (if check = encodingConstant .bech32 then some Encoding.bech32
    else if check = encodingConstant .bech32m then some .bech32m else none) = some encoding ↔ _
  cases encoding with
  | bech32 => split <;> simp_all
  | bech32m =>
    split
    · rename_i h
      simp [h, hne]
    · simp

/-- What a decoded string is: in lower case it is the encoding of what was decoded. -/
theorem encode_of_decode (h : decode str = some (encoding, hrp, values)) :
    str.map lowerCase = encode encoding hrp values ∧ ∀ v ∈ values, v.toNat < 32 := by
  unfold decode at h
  split at h
  · cases h
  split at h
  · cases h
  rename_i pos hpos
  split at h
  · cases h
  rename_i hbounds
  split at h
  · cases h
  rename_i vs hvs
  obtain ⟨e, hcheck, heq⟩ := Option.map_eq_some_iff.mp h
  cases heq
  obtain ⟨hlen, hsmall, hchars⟩ := charValues_spec hvs
  have hcut : vs = vs.take (vs.length - 6) ++ vs.drop (vs.length - 6) :=
    (take_append_drop _ _).symm
  have hsix : (vs.drop (vs.length - 6)).length = 6 := by
    rw [length_drop, hlen, length_drop]
    omega
  have htake : ∀ v ∈ vs.take (vs.length - 6), v.toNat < 32 :=
    fun v hv => hsmall v (mem_of_mem_take hv)
  -- the last six values are the checksum of the others
  have hsum := verifyChecksum_eq_some.mp hcheck
  rw [hcut] at hsum
  have hlast := (polyMod_eq_iff htake hsix fun v hv => hsmall v (mem_of_mem_drop hv)).mp hsum
  refine ⟨?_, htake⟩
  nth_rewrite 1 [eq_append_of_rfind hpos]
  rw [map_append, map_cons, ← hchars, encode, ← hlast, ← hcut]
  rfl

/-- An encoded string is decoded to what it encodes. -/
theorem decode_encode (hne : hrp ≠ []) (hhrp : ∀ c ∈ hrp, SetChar c)
    (hvalues : ∀ v ∈ values, v.toNat < 32) (hlen : hrp.length + 7 + values.length ≤ 90) :
    decode (encode encoding hrp values) = some (encoding, hrp, values) := by
  obtain ⟨hsix, hsmall, -⟩ := createChecksum_spec encoding hrp hvalues
  have hall : ∀ v ∈ values ++ createChecksum encoding hrp values, v.toNat < 32 := by
    intro v hv
    cases mem_append.mp hv with
    | inl h => exact hvalues v h
    | inr h => exact hsmall v h
  have hlength : (encode encoding hrp values).length = hrp.length + 7 + values.length := by
    simp only [encode, length_append, length_cons, length_map, hsix]
    omega
  have hcheck : checkCharacters (encode encoding hrp values) = true := by
    refine checkCharactersFrom_of_setChar (fun c hc => ?_) false
    rw [encode, mem_append, mem_cons, mem_map] at hc
    rcases hc with hc | rfl | ⟨v, hv, rfl⟩
    · exact hhrp c hc
    · exact ⟨by decide, by decide, by decide⟩
    · exact (charset_spec (hall v hv)).1
  have hfind : rfind separator (encode encoding hrp values) = some hrp.length := by
    refine rfind_append fun hmem => ?_
    obtain ⟨v, hv, heq⟩ := mem_map.mp hmem
    exact (charset_spec (hall v hv)).2.1 heq
  have hlower : hrp.map lowerCase = hrp := by
    rw [map_congr_left fun c hc => (hhrp c hc).lowerCase, map_id']
  have hdrop : (encode encoding hrp values).drop (hrp.length + 1)
      = (values ++ createChecksum encoding hrp values).map fun v => CHARSET.getD v.toNat 0 := by
    rw [encode, ← drop_drop, drop_left, drop_succ_cons, drop_zero]
  have htake : (encode encoding hrp values).take hrp.length = hrp := by
    rw [encode, take_left]
  have hsum := (polyMod_eq_iff hvalues hsix hsmall).mpr (rfl : createChecksum encoding hrp values = _)
  have hpos : 0 < hrp.length := length_pos_iff.mpr hne
  have hbounds : ¬ (90 < hrp.length + 7 + values.length ∨ hrp.length = 0 ∨
      hrp.length + 7 + values.length < hrp.length + 7) := by
    omega
  rw [decode, hcheck, hfind]
  simp only [Bool.not_true, Bool.false_eq_true, if_false, hlength, if_neg hbounds, hdrop,
    charValues_map hall, htake, hlower, verifyChecksum_eq_some.mpr hsum, Option.map_some,
    length_append, hsix, Nat.add_sub_cancel, take_left]

end Bech32

/-! ### Digits of a hash -/

theorem map_ofNat_toNat (bs : Bytes) : (bs.map UInt8.toNat).map UInt8.ofNat = bs := by
  rw [map_map, map_congr_left fun d _ => ?_, map_id']
  exact UInt8.ofNat_toNat

theorem map_toNat_ofNat {ds : List Nat} (h : ∀ d ∈ ds, d < 256) :
    (ds.map UInt8.ofNat).map UInt8.toNat = ds := by
  rw [map_map, map_congr_left fun d hd => ?_, map_id']
  exact UInt8.toNat_ofNat_of_lt' (h d hd)

/-- Without bits left over, `ConvertBits` regroups with or without padding. -/
theorem convertBits_of_regroup {v w : Nat} (hv : 0 < v) (pad : Bool) {input : Bytes}
    (hnone : (regroup v w (input.map UInt8.toNat) 0 0).2.2 = 0) :
    convertBits v w pad input = some ((regroup v w (input.map UInt8.toNat) 0 0).1.map UInt8.ofNat) := by
  unfold convertBits
  generalize regroup v w (input.map UInt8.toNat) 0 0 = r at hnone ⊢
  have hlast : (r.2.1 <<< (w - 0)) % 2 ^ w = 0 := by
    rw [Nat.sub_zero, Nat.shiftLeft_eq, Nat.mul_mod_left]
  simp only [hnone, hlast]
  cases pad with
  | true => rfl
  | false => simp [Nat.pos_iff_ne_zero.mp hv]

/-- Digits that are converted without bits left over are converted back. -/
theorem convertBits_convertBits {v w : Nat} (hv : 0 < v) (hw : 0 < w) (hw8 : w ≤ 8)
    (pad : Bool) {input : Bytes} (hinput : ∀ d ∈ input, d.toNat < 2 ^ v)
    (hnone : (regroup v w (input.map UInt8.toNat) 0 0).2.2 = 0) :
    convertBits w v pad ((regroup v w (input.map UInt8.toNat) 0 0).1.map UInt8.ofNat) = some input := by
  have hds : ∀ d ∈ input.map UInt8.toNat, d < 2 ^ v := by simpa using hinput
  obtain ⟨-, -, hdigits, -⟩ := regroup_spec hw 0 hds hw
  have hbyte : ∀ d ∈ (regroup v w (input.map UInt8.toNat) 0 0).1, d < 256 :=
    fun d hd => (hdigits d hd).trans_le (Nat.pow_le_pow_right (by decide) hw8)
  obtain ⟨hback, hzero⟩ := regroup_regroup hv hw hds hnone
  have hmap := map_toNat_ofNat hbyte
  rw [convertBits_of_regroup hw pad (by rw [hmap]; exact hzero), hmap, hback, map_ofNat_toNat]

namespace XMSSAddr

/-- The 32 digits of a hash: they are below 32 and are converted back to it. -/
theorem convertBits_hash (h : Uint160) : ∃ digits, convertBits 8 5 true h.data = some digits ∧
    digits.length = 32 ∧ (∀ d ∈ digits, d.toNat < 32) ∧ convertBits 5 8 false digits = some h.data := by
  have hds : ∀ d ∈ h.data.map UInt8.toNat, d < 2 ^ 8 := by simpa using fun d _ => d.toNat_lt
  obtain ⟨hlt, hcount, hdigits, -⟩ := regroup_spec (show 0 < 5 by decide) 0 hds (show 0 < 5 by decide)
  rw [length_map, h.length_data] at hcount
  have hnone : (regroup 8 5 (h.data.map UInt8.toNat) 0 0).2.2 = 0 := by omega
  refine ⟨_, convertBits_of_regroup (by decide) true hnone, ?_, ?_,
    convertBits_convertBits (by decide) (by decide) (by decide) false
      (fun d _ => d.toNat_lt) hnone⟩
  · rw [length_map]
    omega
  · intro d hd
    obtain ⟨n, hn, rfl⟩ := mem_map.mp hd
    have hn32 := hdigits n hn
    rw [UInt8.toNat_ofNat_of_lt' (show n < 256 by omega)]
    exact hn32

/-- Digits that give twenty bytes are the digits of these bytes: no bit is left over. -/
theorem convertBits_digits {digits data : Bytes} (hdigits : ∀ d ∈ digits, d.toNat < 32)
    (h : convertBits 5 8 false digits = some data) (hlen : data.length = 20) :
    convertBits 8 5 true data = some digits := by
  have hds : ∀ d ∈ digits.map UInt8.toNat, d < 2 ^ 5 := by simpa using hdigits
  obtain ⟨-, hcount, -, -⟩ := regroup_spec (show 0 < 8 by decide) 0 hds (show 0 < 8 by decide)
  unfold convertBits at h
  simp only [Bool.false_eq_true, if_false] at h
  split at h
  · cases h
  rename_i hleft
  cases h
  rw [not_or] at hleft
  rw [length_map] at hcount hlen
  have hnone : (regroup 5 8 (digits.map UInt8.toNat) 0 0).2.2 = 0 := by omega
  exact convertBits_convertBits (by decide) (by decide) (by decide) true hdigits hnone

/-! ### Addresses -/

/-- A human-readable part as the networks have them. -/
structure NetworkHrp (hrp : Bytes) : Prop where
  nonempty : hrp ≠ []
  setChar : ∀ c ∈ hrp, Bech32.SetChar c
  short : hrp.length ≤ 50

/-- The address of a hash is decoded to the hash. -/
theorem decode_encodeHash (hhrp : NetworkHrp hrp) (h : Uint160) :
    decode (encodeHash h hrp) hrp = some h := by
  obtain ⟨digits, hdigits, hlen, hsmall, hback⟩ := convertBits_hash h
  have hvalues : ∀ v ∈ XMSS_WITNESS_VERSION :: digits, v.toNat < 32 := by
    intro v hv
    cases mem_cons.mp hv with
    | inl heq => rw [heq]; decide
    | inr hmem => exact hsmall v hmem
  have hshort := hhrp.short
  have hdecode : Bech32.decode (encodeHash h hrp)
      = some (.bech32m, hrp, XMSS_WITNESS_VERSION :: digits) := by
    rw [encodeHash, hdigits]
    refine Bech32.decode_encode hhrp.nonempty hhrp.setChar hvalues ?_
    rw [Option.getD_some, length_cons, hlen]
    omega
  rw [decode, hdecode]
  simp only [ne_eq, not_true_eq_false, if_false, hback]
  exact dif_pos h.length_data

/-- The only string without upper-case letters that decodes to a hash is its address. -/
theorem lowerCase_of_decode {h : Uint160} (hdecode : decode str hrp = some h) :
    str.map Bech32.lowerCase = encodeHash h hrp := by
  unfold decode at hdecode
  split at hdecode
  next hrp' version rest hstr =>
    split at hdecode
    · cases hdecode
    rename_i hhrp
    split at hdecode
    · cases hdecode
    rename_i hversion
    rw [not_not] at hhrp hversion
    subst hhrp hversion
    obtain ⟨hlower, hvalues⟩ := Bech32.encode_of_decode hstr
    obtain ⟨data, hdata, hblob⟩ := Option.bind_eq_some_iff.mp hdecode
    unfold Blob.ofBytes? at hblob
    split at hblob
    · rename_i hlen
      cases hblob
      have hdigits := convertBits_digits (fun d hd => hvalues d (mem_cons_of_mem _ hd)) hdata hlen
      rw [hlower]
      show _ = Bech32.encode _ _ (_ :: (convertBits 8 5 true data).getD [])
      rw [hdigits, Option.getD_some]
    · cases hblob
  · cases hdecode

end XMSSAddr

end AssentianPQE
