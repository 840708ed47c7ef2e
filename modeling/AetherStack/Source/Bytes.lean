import Mathlib.Tactic

/-!
# Octets and little-endian fields

The stack passes `std::vector<uint8_t>` everywhere; here it is a list of octets.
`putU16`/`getU16` are the two file-local helpers of rlc_am.cpp:9-15; the same
little-endian layout is written out inline in rlc_um.cpp, harq.cpp and the RRC
and NAS codecs. Sixteen-bit values are naturals that the code reduces modulo
`2 ^ 16` at every increment, so the reduction is written where the code wraps.
`putU32`/`getU32` are cn_messages.h:66-82 and the inline TMSI octets of the NAS.
-/
namespace AetherStack.Source

abbrev Bytes := List UInt8

/-- Named once: the tests for equal octet strings all carry this proof. -/
instance : LawfulBEq Bytes := inferInstance

/-- Number of values of a `uint16_t`, the RLC sequence-number space. -/
def snModulus : Nat := 65536

/-- `put_u16`: low octet first. -/
def putU16 (x : Nat) : Bytes := [UInt8.ofNat x, UInt8.ofNat (x >>> 8)]

/-- `get_u16`. The callers check the length first; an absent octet reads as zero. -/
def getU16 (v : Bytes) (off : Nat) : Nat :=
  (v.getD off 0).toNat ||| ((v.getD (off + 1) 0).toNat <<< 8)

/-- Two octets joined by shift and or make the number low octet first. -/
theorem u8_or_shift (lo hi : UInt8) : lo.toNat ||| (hi.toNat <<< 8) = lo.toNat + 256 * hi.toNat := by
  have hlo : lo.toNat < 2 ^ 8 := lo.toNat_lt
  rw [Nat.or_comm, ← Nat.shiftLeft_add_eq_or_of_lt hlo, Nat.shiftLeft_eq]
  omega

theorem getU16_lt (v : Bytes) (off : Nat) : getU16 v off < snModulus := by
  have hlo := (v.getD off 0).toNat_lt
  have hhi := (v.getD (off + 1) 0).toNat_lt
  rw [getU16, u8_or_shift, snModulus]
  omega

/-- Reading back a written field, at any offset, returns the value modulo `2 ^ 16`. -/
theorem getU16_putU16 (pre rest : Bytes) (x : Nat) :
    getU16 (pre ++ (putU16 x ++ rest)) pre.length = x % snModulus := by
  have hlo : (pre ++ (putU16 x ++ rest)).getD pre.length 0 = UInt8.ofNat x := by
    simp [putU16]
  have hhi : (pre ++ (putU16 x ++ rest)).getD (pre.length + 1) 0 = UInt8.ofNat (x >>> 8) := by
    simp [putU16]
  rw [getU16, hlo, hhi, u8_or_shift]
  simp only [UInt8.toNat_ofNat', Nat.shiftRight_eq_div_pow, snModulus]
  omega

/-- Number of values of a `uint32_t`. -/
def u32Modulus : Nat := 4294967296

/-- `cn::put32`, and the four octets of a TMSI in the NAS messages. -/
def putU32 (x : Nat) : Bytes := putU16 x ++ putU16 (x >>> 16)

/-- `cn::get32`. -/
def getU32 (v : Bytes) (off : Nat) : Nat := getU16 v off + getU16 v (off + 2) <<< 16

/-- The two halves of a 32-bit field as a sum. -/
theorem getU32_eq (v : Bytes) (off : Nat) : getU32 v off = getU16 v off + getU16 v (off + 2) * 2 ^ 16 := by
  delta getU32
  rw [Nat.shiftLeft_eq]

@[simp] theorem length_putU16 (x : Nat) : (putU16 x).length = 2 := rfl

@[simp] theorem length_putU32 (x : Nat) : (putU32 x).length = 4 := rfl

theorem getU32_lt (v : Bytes) (off : Nat) : getU32 v off < u32Modulus := by
  have hlow := getU16_lt v off
  have hhigh := getU16_lt v (off + 2)
  simp only [getU32_eq, snModulus, u32Modulus] at hlow hhigh ⊢
  omega

/-- A 32-bit number is read where it was written, cut to 32 bits. -/
theorem getU32_putU32 (pre rest : Bytes) (x : Nat) :
    getU32 (pre ++ (putU32 x ++ rest)) pre.length = x % u32Modulus := by
  have hlow := getU16_putU16 pre (putU16 (x >>> 16) ++ rest) x
  have hhigh := getU16_putU16 (pre ++ putU16 x) rest (x >>> 16)
  simp only [List.append_assoc, List.length_append, length_putU16] at hhigh
  rw [getU32_eq, putU32, List.append_assoc, hlow, hhigh]
  simp only [Nat.shiftRight_eq_div_pow, snModulus, u32Modulus]
  omega

/-! ### Fields at the head of a message -/

section
variable {x y : Nat}

theorem getU16_head (rest : Bytes) (h : x < snModulus) : getU16 (putU16 x ++ rest) 0 = x := by
  have hread := getU16_putU16 [] rest x
  rwa [List.nil_append, Nat.mod_eq_of_lt h] at hread

theorem getU32_head (rest : Bytes) (h : x < u32Modulus) : getU32 (putU32 x ++ rest) 0 = x := by
  have hread := getU32_putU32 [] rest x
  rwa [List.nil_append, Nat.mod_eq_of_lt h] at hread

theorem getU16_fifth (rest : Bytes) (h : y < snModulus) :
    getU16 (putU32 x ++ (putU16 y ++ rest)) 4 = y := by
  have hread := getU16_putU16 (putU32 x) rest y
  rwa [length_putU32, Nat.mod_eq_of_lt h] at hread

end

/-! ### Octets read and written back -/

theorem putU16_getU16 (v : Bytes) (off : Nat) : putU16 (getU16 v off) = [v.getD off 0, v.getD (off + 1) 0] := by
  have hlo := (v.getD off 0).toNat_lt
  have hhi := (v.getD (off + 1) 0).toNat_lt
  rw [getU16, u8_or_shift, putU16]
  refine congrArg₂ _ (UInt8.toNat_inj.mp ?_) (congrArg₂ _ (UInt8.toNat_inj.mp ?_) rfl)
  · rw [UInt8.toNat_ofNat']
    omega
  · rw [UInt8.toNat_ofNat', Nat.shiftRight_eq_div_pow]
    omega

theorem putU32_getU32 (v : Bytes) (off : Nat) :
    putU32 (getU32 v off) = [v.getD off 0, v.getD (off + 1) 0, v.getD (off + 2) 0, v.getD (off + 3) 0] := by
  have hlo := getU16_lt v off
  have hhi := getU16_lt v (off + 2)
  rw [snModulus] at hlo hhi
  have hfirst : putU16 (getU32 v off) = putU16 (getU16 v off) := by
    rw [putU16, putU16, getU32_eq]
    refine congrArg₂ _ (UInt8.toNat_inj.mp ?_) (congrArg₂ _ (UInt8.toNat_inj.mp ?_) rfl)
    · rw [UInt8.toNat_ofNat', UInt8.toNat_ofNat']
      omega
    · rw [UInt8.toNat_ofNat', UInt8.toNat_ofNat', Nat.shiftRight_eq_div_pow, Nat.shiftRight_eq_div_pow]
      omega
  have hsecond : getU32 v off >>> 16 = getU16 v (off + 2) := by
    rw [getU32_eq, Nat.shiftRight_eq_div_pow]
    omega
  rw [putU32, hfirst, hsecond, putU16_getU16, putU16_getU16]
  rfl

end AetherStack.Source
