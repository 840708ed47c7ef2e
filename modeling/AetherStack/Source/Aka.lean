import AetherStack.Source.Crypto

/-!
# Authentication vectors

Source: stack/nas/src/aka.cpp:11-152 and include/nas/aka.h. The keyed digest is a parameter
that takes a key of any length, because `kasme` keys it with the 64 octets CK||IK.
`std::array` fields of fixed length are octet lists here; their lengths follow from the
functions that build them. Sequence numbers are the 64-bit integers of the source. The
tokens that carry one, AUTN and AUTS, give back its low 48 bits. Left out is
`hex_prefix`, which feeds the log.
-/
namespace AetherStack.Source

/-- `crypto::hmac_sha256` over a key of any length. -/
abbrev KeyedDigest := Bytes → Bytes → Digest

namespace Aka

def kRandLen : Nat := 16
def kAutnLen : Nat := 16
def kAkLen : Nat := 6
def kAmfLen : Nat := 2
def kMacLen : Nat := 8
def kResLen : Nat := 16
def kAutsLen : Nat := 14
def kSqnMask : UInt64 := 281474976710655
def kCauseMacFailure : UInt8 := 0x14
def kCauseSynchFailure : UInt8 := 0x15
def kAmf : Bytes := [0x80, 0x00]

/-- `AuthVector`: `Vector` of the source. -/
structure AuthVector where
  rand : Bytes
  sqnXorAk : Bytes
  amf : Bytes := kAmf
  mac : Bytes
  xres : Bytes
  ck : Digest
  ik : Digest
  kasme : Digest
  sqn : UInt64
  deriving DecidableEq

section Functions

variable (hmac : KeyedDigest)

/-- HMAC-SHA256(K, label || fields). -/
def f (k : Key256) (label : UInt8) (fields : Bytes) : Digest := hmac k.toList (label :: fields)

/-- Six octets, the most significant first. -/
def sqnBytes (sqn : UInt64) : Bytes :=
  [(sqn >>> 40).toUInt8, (sqn >>> 32).toUInt8, (sqn >>> 24).toUInt8, (sqn >>> 16).toUInt8,
    (sqn >>> 8).toUInt8, sqn.toUInt8]

def f5 (k : Key256) (rand : Bytes) : Bytes := (f hmac k 0x05 rand).toList.take kAkLen

def f1 (k : Key256) (sqn : UInt64) (rand amf : Bytes) : Bytes :=
  (f hmac k 0x01 (sqnBytes sqn ++ rand ++ amf)).toList.take kMacLen

def f2 (k : Key256) (rand : Bytes) : Bytes := (f hmac k 0x02 rand).toList.take kResLen

def f3 (k : Key256) (rand : Bytes) : Digest := f hmac k 0x03 rand

def f4 (k : Key256) (rand : Bytes) : Digest := f hmac k 0x04 rand

/-- KDF(CK||IK, "kasme" || SQN^AK). -/
def kasme (ck ik : Digest) (sqnXorAk : Bytes) : Digest :=
  hmac (ck.toList ++ ik.toList) ([0x6b, 0x61, 0x73, 0x6d, 0x65] ++ sqnXorAk)

def f5s (k : Key256) (rand : Bytes) : Bytes := (f hmac k 0x55 rand).toList.take kAkLen

def f1s (k : Key256) (sqnMs : UInt64) (rand amf : Bytes) : Bytes :=
  (f hmac k 0x51 (sqnBytes sqnMs ++ rand ++ amf)).toList.take kMacLen

/-- The byte loops `a[i] ^ b[i]` over the first six octets. -/
def xorAk (a b : Bytes) : Bytes := List.zipWith (· ^^^ ·) (a.take kAkLen) b

/-- `sqn = (sqn << 8) | octet`, over the unmasked octets. -/
def sqnOfBytes (octets : Bytes) : UInt64 :=
  octets.foldl (fun sqn octet => (sqn <<< 8) ||| octet.toUInt64) 0

def generate (k : Key256) (sqn : UInt64) (rand : Bytes) : AuthVector :=
  let sqn := sqn &&& kSqnMask
  let sqnXorAk := xorAk (sqnBytes sqn) (f5 hmac k rand)
  { rand := rand
    sqn := sqn
    sqnXorAk := sqnXorAk
    mac := f1 hmac k sqn rand kAmf
    xres := f2 hmac k rand
    ck := f3 hmac k rand
    ik := f4 hmac k rand
    kasme := kasme hmac (f3 hmac k rand) (f4 hmac k rand) sqnXorAk }

/-- AUTN = SQN^AK || AMF || MAC. -/
def autn (v : AuthVector) : Bytes := v.sqnXorAk ++ v.amf ++ v.mac

/-- The concealed SQN when the MAC verifies. -/
def verifyAutn (k : Key256) (rand autn : Bytes) : Option UInt64 :=
  let amf := (autn.drop kAkLen).take kAmfLen
  let mac := (autn.drop (kAkLen + kAmfLen)).take kMacLen
  let sqn := sqnOfBytes (xorAk autn (f5 hmac k rand))
  if f1 hmac k sqn rand amf ≠ mac then none else some sqn

def buildAuts (k : Key256) (sqnMs : UInt64) (rand : Bytes) : Bytes :=
  xorAk (sqnBytes (sqnMs &&& kSqnMask)) (f5s hmac k rand) ++
    f1s hmac k (sqnMs &&& kSqnMask) rand kAmf

def verifyAuts (k : Key256) (auts rand : Bytes) : Option UInt64 :=
  let sqnMs := sqnOfBytes (xorAk auts (f5s hmac k rand))
  let macS := (auts.drop kAkLen).take kMacLen
  if f1s hmac k sqnMs rand kAmf ≠ macS then none else some sqnMs

@[simp] theorem length_f2 (k : Key256) (rand : Bytes) : (f2 hmac k rand).length = kResLen := by
  simp [f2, kResLen]

@[simp] theorem length_generate_sqnXorAk (k : Key256) (sqn : UInt64) (rand : Bytes) :
    (generate hmac k sqn rand).sqnXorAk.length = kAkLen := by
  simp [generate, xorAk, sqnBytes, f5, kAkLen]

@[simp] theorem length_autn_generate (k : Key256) (sqn : UInt64) (rand : Bytes) :
    (autn (generate hmac k sqn rand)).length = kAutnLen := by
  simp only [autn, List.length_append, length_generate_sqnXorAk]
  simp [generate, f1, kAmf, kAkLen, kMacLen, kAutnLen]

/-- The user equipment reads back the masked sequence number that the key is bound to. -/
theorem take_autn_generate (k : Key256) (sqn : UInt64) (rand : Bytes) :
    (autn (generate hmac k sqn rand)).take kAkLen = (generate hmac k sqn rand).sqnXorAk := by
  rw [autn, List.append_assoc, List.take_left' (length_generate_sqnXorAk hmac k sqn rand)]

end Functions

/-- Shifting an octet in is multiplying and adding. -/
theorem shift_or_toNat {x : UInt64} (h : x.toNat < 2 ^ 56) (octet : UInt8) :
    ((x <<< 8) ||| octet.toUInt64).toNat = x.toNat * 256 + octet.toNat := by
  have hoctet : octet.toNat < 2 ^ 8 := octet.toNat_lt
  have hshift : (x <<< 8).toNat = x.toNat <<< 8 := by
    rw [UInt64.toNat_shiftLeft]
    refine Nat.mod_eq_of_lt ?_
    have height : (8 : UInt64).toNat % 64 = 8 := rfl
    rw [height, Nat.shiftLeft_eq]
    omega
  rw [UInt64.toNat_or, hshift, UInt8.toNat_toUInt64, ← Nat.shiftLeft_add_eq_or_of_lt hoctet,
    Nat.shiftLeft_eq]

theorem toNat_and_kSqnMask (sqn : UInt64) : (sqn &&& kSqnMask).toNat = sqn.toNat % 2 ^ 48 := by
  have hmask : kSqnMask.toNat = 2 ^ 48 - 1 := rfl
  rw [UInt64.toNat_and, hmask, Nat.and_two_pow_sub_one_eq_mod]

/-- At most eight octets accumulate without loss. -/
theorem toNat_foldl_octets : ∀ (octets : Bytes) (x : UInt64),
    octets.length ≤ 8 → x.toNat < 256 ^ (8 - octets.length) →
    (octets.foldl (fun (sqn : UInt64) octet => (sqn <<< 8) ||| octet.toUInt64) x).toNat =
      octets.foldl (fun n octet => n * 256 + octet.toNat) x.toNat
  | [], _, _, _ => rfl
  | octet :: octets, x, hlen, hx => by
    have hlen' : octets.length + 1 ≤ 8 := hlen
    have hshort : x.toNat < 2 ^ 56 := by
      calc x.toNat < 256 ^ (8 - (octets.length + 1)) := hx
        _ ≤ 256 ^ 7 := Nat.pow_le_pow_right (by decide) (by omega)
    have hpow : 256 ^ (8 - octets.length) = 256 ^ (8 - (octets.length + 1)) * 256 := by
      rw [← Nat.pow_succ]
      congr 1
      omega
    have hx' : x.toNat < 256 ^ (8 - (octets.length + 1)) := hx
    have hoctet := octet.toNat_lt
    have hnext : ((x <<< 8) ||| octet.toUInt64).toNat < 256 ^ (8 - octets.length) := by
      rw [shift_or_toNat hshort, hpow]
      omega
    rw [List.foldl_cons, List.foldl_cons, toNat_foldl_octets octets _ (by omega) hnext,
      shift_or_toNat hshort]

/-- The octet at a shift of the sequence number. -/
theorem toNat_sqnOctet (sqn k : UInt64) (hk : k.toNat < 64) :
    ((sqn >>> k).toUInt8).toNat = sqn.toNat / 2 ^ k.toNat % 256 := by
  rw [UInt64.toNat_toUInt8, UInt64.toNat_shiftRight, Nat.mod_eq_of_lt hk, Nat.shiftRight_eq_div_pow]

/-- A sequence number comes back with its low 48 bits. -/
theorem sqnOfBytes_sqnBytes (sqn : UInt64) : sqnOfBytes (sqnBytes sqn) = sqn &&& kSqnMask := by
  have h40 := toNat_sqnOctet sqn 40 (by decide)
  have h32 := toNat_sqnOctet sqn 32 (by decide)
  have h24 := toNat_sqnOctet sqn 24 (by decide)
  have h16 := toNat_sqnOctet sqn 16 (by decide)
  have h8 := toNat_sqnOctet sqn 8 (by decide)
  have h0 := UInt64.toNat_toUInt8 sqn
  apply UInt64.toNat_inj.mp
  rw [toNat_and_kSqnMask, sqnOfBytes, sqnBytes, toNat_foldl_octets _ _ (by simp) (by simp)]
  simp only [List.foldl_cons, List.foldl_nil, h40, h32, h24, h16, h8, h0]
  simp only [UInt64.reduceToNat]
  omega

theorem and_kSqnMask_and_kSqnMask (sqn : UInt64) :
    (sqn &&& kSqnMask) &&& kSqnMask = sqn &&& kSqnMask := by
  rw [UInt64.and_assoc, UInt64.and_self]

/-- The concealing key cancels, whatever follows the concealed octets. -/
theorem xorAk_xorAk_append {octets ak : Bytes} (rest : Bytes) (h : octets.length = kAkLen)
    (hak : ak.length = kAkLen) : xorAk (xorAk octets ak ++ rest) ak = octets := by
  have hconcealed : (xorAk octets ak).length = kAkLen := by simp [xorAk, h, hak]
  have htaken : octets.take kAkLen = octets := List.take_of_length_le (Nat.le_of_eq h)
  rw [xorAk, List.take_left' hconcealed, xorAk, htaken]
  exact zipWith_xor_cancel octets ak (by omega)

@[simp] theorem length_sqnBytes (sqn : UInt64) : (sqnBytes sqn).length = kAkLen := rfl

@[simp] theorem length_f5 (hmac : KeyedDigest) (k : Key256) (rand : Bytes) :
    (f5 hmac k rand).length = kAkLen := by
  simp [f5, kAkLen]

@[simp] theorem length_f5s (hmac : KeyedDigest) (k : Key256) (rand : Bytes) :
    (f5s hmac k rand).length = kAkLen := by
  simp [f5s, kAkLen]

@[simp] theorem length_f1 (hmac : KeyedDigest) (k : Key256) (sqn : UInt64) (rand amf : Bytes) :
    (f1 hmac k sqn rand amf).length = kMacLen := by
  simp [f1, kMacLen]

@[simp] theorem length_f1s (hmac : KeyedDigest) (k : Key256) (sqn : UInt64) (rand amf : Bytes) :
    (f1s hmac k sqn rand amf).length = kMacLen := by
  simp [f1s, kMacLen]

/-- A generated AUTN verifies and reveals the low 48 bits of the sequence number. -/
theorem verifyAutn_generate (hmac : KeyedDigest) (k : Key256) (sqn : UInt64) (rand : Bytes) :
    verifyAutn hmac k rand (autn (generate hmac k sqn rand)) = some (sqn &&& kSqnMask) := by
  have hconcealed := length_generate_sqnXorAk hmac k sqn rand
  have hsqn : sqnOfBytes (xorAk (autn (generate hmac k sqn rand)) (f5 hmac k rand)) =
      sqn &&& kSqnMask := by
    rw [autn, List.append_assoc, generate, xorAk_xorAk_append _ (length_sqnBytes _)
      (length_f5 hmac k rand), sqnOfBytes_sqnBytes, and_kSqnMask_and_kSqnMask]
  have hamf : ((autn (generate hmac k sqn rand)).drop kAkLen).take kAmfLen = kAmf := by
    rw [autn, List.append_assoc, List.drop_left' hconcealed]
    exact List.take_left' rfl
  have hmac' : ((autn (generate hmac k sqn rand)).drop (kAkLen + kAmfLen)).take kMacLen =
      f1 hmac k (sqn &&& kSqnMask) rand kAmf := by
    have hhead : ((generate hmac k sqn rand).sqnXorAk ++ (generate hmac k sqn rand).amf).length =
        kAkLen + kAmfLen := by
      rw [List.length_append, hconcealed]
      rfl
    rw [autn, List.drop_left' hhead]
    exact List.take_of_length_le (Nat.le_of_eq (length_f1 hmac k _ rand kAmf))
  rw [verifyAutn]
  rw [hsqn, hamf, hmac', if_neg (not_not.mpr rfl)]

/-- A resynchronisation token verifies and reveals the low 48 bits of the phone's number. -/
theorem verifyAuts_buildAuts (hmac : KeyedDigest) (k : Key256) (sqn : UInt64) (rand : Bytes) :
    verifyAuts hmac k (buildAuts hmac k sqn rand) rand = some (sqn &&& kSqnMask) := by
  have hconcealed : (xorAk (sqnBytes (sqn &&& kSqnMask)) (f5s hmac k rand)).length = kAkLen := by
    simp [xorAk]
  have hsqn : sqnOfBytes (xorAk (buildAuts hmac k sqn rand) (f5s hmac k rand)) =
      sqn &&& kSqnMask := by
    rw [buildAuts, xorAk_xorAk_append _ (length_sqnBytes _) (length_f5s hmac k rand),
      sqnOfBytes_sqnBytes, and_kSqnMask_and_kSqnMask]
  have hmacS : ((buildAuts hmac k sqn rand).drop kAkLen).take kMacLen =
      f1s hmac k (sqn &&& kSqnMask) rand kAmf := by
    rw [buildAuts, List.drop_left' hconcealed]
    exact List.take_of_length_le (Nat.le_of_eq (length_f1s hmac k _ rand kAmf))
  rw [verifyAuts]
  rw [hsqn, hmacS, if_neg (not_not.mpr rfl)]

theorem length_buildAuts (hmac : KeyedDigest) (k : Key256) (sqn : UInt64) (rand : Bytes) :
    (buildAuts hmac k sqn rand).length = kAutsLen := by
  rw [buildAuts, List.length_append, length_f1s]
  simp [xorAk, kAkLen, kMacLen, kAutsLen]

end Aka

end AetherStack.Source
