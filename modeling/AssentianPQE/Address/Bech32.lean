import AssentianPQE.Lib.Radix
import AssentianPQE.Primitives

/-!
# `AssentianPQE.Address.Bech32`: Bech32 strings and XMSS addresses

`bech32.cpp`, `ConvertBits` (`util/strencodings.h`) and `XMSSAddr` (`wallet/xmss_address.cpp`).
A string is a list of characters, which are bytes. The words of the checksum are 32-bit words as
in the source.
-/

set_option autoImplicit false

namespace AssentianPQE

open Lib

namespace Bech32

/-- `CHARSET`: `qpzry9x8gf2tvdw0s3jn54khce6mua7l`. -/
def CHARSET : Bytes :=
  [0x71, 0x70, 0x7a, 0x72, 0x79, 0x39, 0x78, 0x38, 0x67, 0x66, 0x32, 0x74, 0x76, 0x64, 0x77, 0x30,
    0x73, 0x33, 0x6a, 0x6e, 0x35, 0x34, 0x6b, 0x68, 0x63, 0x65, 0x36, 0x6d, 0x75, 0x61, 0x37, 0x6c]

/-- `CHARSET_REV`: the value of a character, or `-1`. -/
def CHARSET_REV : List Int :=
  [-1, -1, -1, -1, -1, -1, -1, -1, -1, -1, -1, -1, -1, -1, -1, -1,
    -1, -1, -1, -1, -1, -1, -1, -1, -1, -1, -1, -1, -1, -1, -1, -1,
    -1, -1, -1, -1, -1, -1, -1, -1, -1, -1, -1, -1, -1, -1, -1, -1,
    15, -1, 10, 17, 21, 20, 26, 30, 7, 5, -1, -1, -1, -1, -1, -1,
    -1, 29, -1, 24, 13, 25, 9, 8, 23, -1, 18, 22, 31, 27, 19, -1,
    1, 0, 3, 16, 11, 28, 12, 14, 6, 4, 2, -1, -1, -1, -1, -1,
    -1, 29, -1, 24, 13, 25, 9, 8, 23, -1, 18, 22, 31, 27, 19, -1,
    1, 0, 3, 16, 11, 28, 12, 14, 6, 4, 2, -1, -1, -1, -1, -1]

/-- `Encoding`, without `INVALID`. -/
inductive Encoding where
  | bech32
  | bech32m
deriving DecidableEq

/-- `EncodingConstant`. -/
def encodingConstant : Encoding → BitVec 32
  | .bech32 => 1#32
  | .bech32m => 0x2bc830a3#32

/-! ### Checksums -/

/-- The part of a step of `PolyMod` that depends on the top value `c0`. -/
def polyFeedback (c0 : BitVec 32) : BitVec 32 :=
  (if c0.getLsbD 0 then 0x3b6a57b2#32 else 0#32) ^^^
    (if c0.getLsbD 1 then 0x26508e6d#32 else 0#32) ^^^
    (if c0.getLsbD 2 then 0x1ea119fa#32 else 0#32) ^^^
    (if c0.getLsbD 3 then 0x3d4233dd#32 else 0#32) ^^^
    (if c0.getLsbD 4 then 0x2a1462b3#32 else 0#32)

/-- One step of `PolyMod`. -/
def polyStep (c : BitVec 32) (v_i : UInt8) : BitVec 32 :=
  ((c &&& 0x1ffffff#32) <<< 5 ^^^ BitVec.ofNat 32 v_i.toNat) ^^^ polyFeedback (c >>> 25)

/-- `PolyMod`. -/
def polyMod (v : Bytes) : BitVec 32 :=
  v.foldl polyStep 1#32

/-- `ExpandHRP`. -/
def expandHRP (hrp : Bytes) : Bytes :=
  hrp.map (fun c : UInt8 => c >>> 5) ++ (0 :: hrp.map fun c : UInt8 => c &&& 0x1f)

/-- `VerifyChecksum`: the encoding, unless it is invalid. -/
def verifyChecksum (hrp values : Bytes) : Option Encoding :=
  let check := polyMod (expandHRP hrp ++ values)
  if check = encodingConstant .bech32 then some .bech32
  else if check = encodingConstant .bech32m then some .bech32m
  else none

/-- `CreateChecksum`. -/
def createChecksum (encoding : Encoding) (hrp values : Bytes) : Bytes :=
  let mod := polyMod (expandHRP hrp ++ values ++ List.replicate 6 0) ^^^ encodingConstant encoding
  (List.range 6).map fun i => UInt8.ofNat ((mod >>> (5 * (5 - i))) &&& 31#32).toNat

/-! ### Strings -/

def isLower (c : UInt8) : Bool :=
  0x61 ≤ c ∧ c ≤ 0x7a

def isUpper (c : UInt8) : Bool :=
  0x41 ≤ c ∧ c ≤ 0x5a

/-- `LowerCase`. -/
def lowerCase (c : UInt8) : UInt8 :=
  if isUpper c then c - 0x41 + 0x61 else c

/-- The loop of `CheckCharacters`: printable characters, not of both cases. -/
def checkCharactersFrom : Bool → Bool → Bytes → Bool
  | _, _, [] => true
  | lower, upper, c :: rest =>
    if isLower c then !upper && checkCharactersFrom true upper rest
    else if isUpper c then !lower && checkCharactersFrom lower true rest
    else !(c < 33 || 126 < c) && checkCharactersFrom lower upper rest

/-- `CheckCharacters`. -/
def checkCharacters (str : Bytes) : Bool :=
  checkCharactersFrom false false str

/-- The value of a character of the data part. -/
def charsetRev (c : UInt8) : Option UInt8 :=
  let rev := CHARSET_REV.getD c.toNat (-1)
  if rev = -1 then none else some (UInt8.ofNat rev.toNat)

/-- The values of the data part. -/
def charValues : Bytes → Option Bytes
  | [] => some []
  | c :: rest => (charsetRev c).bind fun v => (charValues rest).map fun vs => v :: vs

/-- `std::string::rfind`: the last place of a character. -/
def rfind (ch : UInt8) (str : Bytes) : Option Nat :=
  (str.reverse.findIdx? (· = ch)).map fun i => str.length - 1 - i

/-- The character `1`. -/
def separator : UInt8 := 0x31

/-- `bech32::Encode`, for a human-readable part without upper-case letters. -/
def encode (encoding : Encoding) (hrp values : Bytes) : Bytes :=
  hrp ++ separator :: (values ++ createChecksum encoding hrp values).map fun c =>
    CHARSET.getD c.toNat 0

/-- `bech32::Decode`: the encoding, the human-readable part and the data without the
checksum. -/
def decode (str : Bytes) : Option (Encoding × Bytes × Bytes) :=
  if !checkCharacters str then none
  else
    match rfind separator str with
    | none => none
    | some pos =>
      if 90 < str.length ∨ pos = 0 ∨ str.length < pos + 7 then none
      else
        match charValues (str.drop (pos + 1)) with
        | none => none
        | some values =>
          let hrp := (str.take pos).map lowerCase
          (verifyChecksum hrp values).map fun encoding =>
            (encoding, hrp, values.take (values.length - 6))

end Bech32

/-- `ConvertBits`. Without padding, the bits that are left over must be fewer than a digit and
zero. -/
def convertBits (frombits tobits : Nat) (pad : Bool) (input : Bytes) : Option Bytes :=
  let r := regroup frombits tobits (input.map UInt8.toNat) 0 0
  let out := r.1.map UInt8.ofNat
  let last := (r.2.1 <<< (tobits - r.2.2)) % 2 ^ tobits
  if pad then some (if r.2.2 = 0 then out else out ++ [UInt8.ofNat last])
  else if frombits ≤ r.2.2 ∨ last ≠ 0 then none
  else some out

/-! ### XMSS addresses -/

namespace XMSSAddr

def XMSS_WITNESS_VERSION : UInt8 := 2
def XMSS_ADDRESS_HASH_SIZE : Nat := 20

/-- The address of a hash, as `XMSSAddr::Encode` and `EncodeDestination` build it. -/
def encodeHash (h : Uint160) (hrp : Bytes) : Bytes :=
  Bech32.encode .bech32m hrp (XMSS_WITNESS_VERSION :: (convertBits 8 5 true h.data).getD [])

/-- `XMSSAddr::Encode`. -/
def encode (c : Crypto) (xmss_pubkey hrp : Bytes) : Bytes :=
  if xmss_pubkey.length ≠ 64 then [] else encodeHash (c.hash160 xmss_pubkey) hrp

/-- `XMSSAddr::Decode`. -/
def decode (str hrp : Bytes) : Option Uint160 :=
  match Bech32.decode str with
  | some (.bech32m, hrp', version :: rest) =>
    if hrp' ≠ hrp then none
    else if version ≠ XMSS_WITNESS_VERSION then none
    else (convertBits 5 8 false rest).bind fun data => Blob.ofBytes? XMSS_ADDRESS_HASH_SIZE data
  | _ => none

end XMSSAddr

end AssentianPQE
