import Mathlib.Data.Nat.Bitwise
import AetherStack.Source.Fec

/-!
# The checksum one octet at a time

The remainder is linear in XOR. One octet of the loop in `crc16` is one look-up in the
table of the 256 remainders, so a remainder is followed by its two octets.
-/
namespace AetherStack.Source
namespace Fec

/-- A bitwise step over two lists at once is the step over each of them. -/
theorem foldl_zipWith_xor {step : UInt16 → UInt8 → UInt16}
    (hstep : ∀ c d a b, step (c ^^^ d) (a ^^^ b) = step c a ^^^ step d b) {xs ys : Bytes}
    (hlen : xs.length = ys.length) (c d : UInt16) :
    (List.zipWith (· ^^^ ·) xs ys).foldl step (c ^^^ d) = xs.foldl step c ^^^ ys.foldl step d := by
  induction xs generalizing ys c d with
  | nil =>
    obtain rfl : ys = [] := List.length_eq_zero_iff.mp hlen.symm
    rfl
  | cons x xs ih =>
    cases ys with
    | nil => cases hlen
    | cons y ys =>
      rw [List.zipWith_cons_cons, List.foldl_cons, List.foldl_cons, List.foldl_cons, hstep]
      exact ih (Nat.succ.inj hlen) _ _

/-! ## Linearity -/

theorem topBit (c : UInt16) : c &&& 0x8000 = 0 ∨ c &&& 0x8000 = 0x8000 := by
  have htop : (c &&& 0x8000).toNat = 2 ^ 15 * (c.toNat.testBit 15).toNat := by
    rw [UInt16.toNat_and, Nat.mul_comm]
    exact Nat.and_two_pow c.toNat 15
  cases h : c.toNat.testBit 15
  · exact .inl (UInt16.toNat_inj.mp (by rw [htop, h]; rfl))
  · exact .inr (UInt16.toNat_inj.mp (by rw [htop, h]; rfl))

/-- One bit of the division is linear. -/
theorem crcBit_xor (c d : UInt16) : crcBit (c ^^^ d) = crcBit c ^^^ crcBit d := by
  have hself : ∀ x y : UInt16, x ^^^ 0x1021 ^^^ (y ^^^ 0x1021) = x ^^^ y := by
    intro x y
    rw [UInt16.xor_comm y, UInt16.xor_assoc, ← UInt16.xor_assoc 0x1021, UInt16.xor_self, UInt16.zero_xor]
  have hpush : (c ^^^ d) &&& 0x8000 = (c &&& 0x8000) ^^^ (d &&& 0x8000) := by
    apply UInt16.toNat_inj.mp
    simp only [UInt16.toNat_and, UInt16.toNat_xor, Nat.and_xor_distrib_right]
  unfold crcBit
  rw [hpush, UInt16.shiftLeft_xor]
  rcases topBit c with hc | hc <;> rcases topBit d with hd | hd
  · rw [hc, hd]
    rfl
  · rw [hc, hd, if_pos (by decide), if_neg (by decide), if_pos (by decide)]
    exact UInt16.xor_assoc _ _ _
  · rw [hc, hd, if_pos (by decide), if_pos (by decide), if_neg (by decide), UInt16.xor_assoc, UInt16.xor_assoc,
      UInt16.xor_comm (d <<< 1)]
  · rw [hc, hd, if_neg (by decide), if_pos (by decide), if_pos (by decide), hself]

/-- One octet of the division is linear in register and octet. -/
theorem crcByte_xor (c d : UInt16) (a b : UInt8) :
    crcByte (c ^^^ d) (a ^^^ b) = crcByte c a ^^^ crcByte d b := by
  have hloop : ∀ (l : List Nat) (x y : UInt16), l.foldl (fun c _ => crcBit c) (x ^^^ y) =
      l.foldl (fun c _ => crcBit c) x ^^^ l.foldl (fun c _ => crcBit c) y := by
    intro l
    induction l with
    | nil => exact fun _ _ => rfl
    | cons i l ih =>
      intro x y
      rw [List.foldl_cons, crcBit_xor, ih]
      rfl
  have hstart : c ^^^ d ^^^ ((a ^^^ b).toUInt16 <<< 8) =
      c ^^^ (a.toUInt16 <<< 8) ^^^ (d ^^^ (b.toUInt16 <<< 8)) := by
    rw [UInt8.toUInt16_xor, UInt16.shiftLeft_xor, UInt16.xor_assoc, UInt16.xor_assoc,
      ← UInt16.xor_assoc d, UInt16.xor_comm d, UInt16.xor_assoc (a.toUInt16 <<< 8) d]
  rw [crcByte, hstart, hloop]
  rfl

/-- The remainder of a list of octets, from zero. -/
def remainder (data : Bytes) : UInt16 := data.foldl crcByte 0

/-- The checksum of the flipped octets. -/
theorem crc16_xor {data error : Bytes} (hlen : data.length = error.length) :
    crc16 (List.zipWith (· ^^^ ·) data error) = crc16 data ^^^ remainder error := by
  have h := foldl_zipWith_xor crcByte_xor hlen 0xFFFF 0
  rwa [UInt16.xor_zero] at h

/-! ## The table -/

/-- The two octets of a remainder. -/
def high (c : UInt16) : UInt8 := (c >>> 8).toUInt8

def low (c : UInt16) : UInt8 := c.toUInt8

theorem toNat_high (c : UInt16) : (high c).toNat = c.toNat / 256 := by
  have h := c.toNat_lt
  rw [high, UInt16.toNat_toUInt8, UInt16.toNat_shiftRight]
  show c.toNat >>> 8 % 2 ^ 8 = _
  rw [Nat.shiftRight_eq_div_pow]
  omega

theorem toNat_low (c : UInt16) : (low c).toNat = c.toNat % 256 := UInt16.toNat_toUInt8 c

/-- A register is its two octets. -/
theorem eq_of_octets {c d : UInt16} (hlow : low c = low d) (hhigh : high c = high d) : c = d := by
  have h1 := congrArg UInt8.toNat hlow
  have h2 := congrArg UInt8.toNat hhigh
  rw [toNat_low, toNat_low] at h1
  rw [toNat_high, toNat_high] at h2
  exact UInt16.toNat_inj.mp (by omega)

@[simp] theorem low_xor (c d : UInt16) : low (c ^^^ d) = low c ^^^ low d := UInt16.toUInt8_xor c d

@[simp] theorem high_xor (c d : UInt16) : high (c ^^^ d) = high c ^^^ high d := by
  rw [high, UInt16.shiftRight_xor, UInt16.toUInt8_xor]
  rfl

@[simp] theorem low_shiftLeft (c : UInt16) : low (c <<< 8) = 0 := by
  apply UInt8.toNat_inj.mp
  rw [toNat_low, UInt16.toNat_shiftLeft]
  show c.toNat <<< 8 % 2 ^ 16 % 256 = 0
  rw [Nat.shiftLeft_eq]
  omega

@[simp] theorem high_shiftLeft (c : UInt16) : high (c <<< 8) = low c := by
  apply UInt8.toNat_inj.mp
  rw [toNat_high, toNat_low, UInt16.toNat_shiftLeft]
  show c.toNat <<< 8 % 2 ^ 16 / 256 = _
  rw [Nat.shiftLeft_eq]
  omega

theorem forall_octet {P : UInt8 → Prop} (h : ∀ i : Fin 256, P (UInt8.ofNat i.val)) (a : UInt8) : P a := by
  have := h ⟨a.toNat, a.toNat_lt⟩
  rwa [UInt8.ofNat_toNat] at this

/-- The eight steps over one octet, from zero. -/
def table (a : UInt8) : UInt16 := crcByte 0 a

/-- The octet with its upper half folded onto the lower. -/
def folded (a : UInt8) : UInt16 := (a ^^^ (a >>> 4)).toUInt16

/-- The polynomial has three terms below the top, and so has the table. -/
theorem table_eq : ∀ a, table a = folded a ^^^ (folded a <<< 5) ^^^ (folded a <<< 12) :=
  forall_octet (by decide +kernel)

/-- A step on a number without the top bit is a doubling. -/
theorem toNat_crcBit {c : UInt16} (hc : c.toNat < 2 ^ 15) : (crcBit c).toNat = 2 * c.toNat := by
  have htop : c &&& 0x8000 = 0 := by
    apply UInt16.toNat_inj.mp
    rw [UInt16.toNat_and]
    exact (Nat.and_two_pow c.toNat 15).trans (by rw [Nat.testBit_lt_two_pow hc]; rfl)
  rw [crcBit, if_neg (not_not.mpr htop), UInt16.toNat_shiftLeft]
  show c.toNat <<< 1 % 2 ^ 16 = _
  rw [Nat.shiftLeft_eq]
  omega

/-- The low octet is out of reach of the eight steps: it only moves up. -/
theorem crcByte_low (a : UInt8) : crcByte a.toUInt16 0 = a.toUInt16 <<< 8 := by
  have ha := a.toNat_lt
  have hsteps : ∀ n ≤ 8, ((List.range n).foldl (fun c _ => crcBit c) a.toUInt16).toNat = a.toNat * 2 ^ n := by
    intro n
    induction n with
    | zero => exact fun _ => (Nat.mul_one _).symm
    | succ n ih =>
      intro hn
      have hpow : 2 ^ n ≤ 2 ^ 7 := Nat.pow_le_pow_right (by decide) (by omega)
      have hsmall : a.toNat * 2 ^ n < 2 ^ 15 :=
        Nat.lt_of_le_of_lt (Nat.mul_le_mul_left _ hpow) (by omega)
      have hlast := ih (by omega)
      rw [List.range_succ, List.foldl_append, List.foldl_cons, List.foldl_nil,
        toNat_crcBit (by rw [hlast]; exact hsmall), hlast, Nat.pow_succ,
        Nat.mul_comm, Nat.mul_assoc]
  have hstart : a.toUInt16 ^^^ ((0 : UInt8).toUInt16 <<< 8) = a.toUInt16 := UInt16.xor_zero
  apply UInt16.toNat_inj.mp
  rw [crcByte, hstart, hsteps 8 (Nat.le_refl 8), UInt16.toNat_shiftLeft]
  show a.toNat * 2 ^ 8 = a.toNat <<< 8 % 2 ^ 16
  rw [Nat.shiftLeft_eq]
  omega

/-- The bitwise division is the table's. -/
theorem crcByte_eq_table (c : UInt16) (b : UInt8) : crcByte c b = table (high c ^^^ b) ^^^ (c <<< 8) := by
  have hup : ∀ a : UInt8, low (a.toUInt16 <<< 8) = 0 ∧ high (a.toUInt16 <<< 8) = a := by
    intro a
    refine ⟨low_shiftLeft _, (high_shiftLeft _).trans ?_⟩
    exact UInt8.toUInt8_toUInt16 a
  have hsplit : c = ((high c).toUInt16 <<< 8) ^^^ (low c).toUInt16 := by
    refine eq_of_octets ?_ ?_
    · rw [low_xor, (hup _).1, UInt8.zero_xor]
      exact (UInt8.toUInt8_toUInt16 _).symm
    · rw [high_xor, (hup _).2]
      have hzero : high (low c).toUInt16 = 0 := by
        apply UInt8.toNat_inj.mp
        rw [toNat_high, UInt8.toNat_toUInt16]
        exact Nat.div_eq_of_lt (low c).toNat_lt
      rw [hzero, UInt8.xor_zero]
  have hhigh : crcByte ((high c).toUInt16 <<< 8) b = table (high c ^^^ b) := by
    rw [table, crcByte, crcByte, UInt16.zero_xor, UInt8.toUInt16_xor, UInt16.shiftLeft_xor]
  have hlow : (low c).toUInt16 <<< 8 = c <<< 8 := by
    refine eq_of_octets ?_ ?_
    · rw [low_shiftLeft, low_shiftLeft]
    · rw [high_shiftLeft, high_shiftLeft]
      exact UInt8.toUInt8_toUInt16 _
  have hstep := crcByte_xor ((high c).toUInt16 <<< 8) (low c).toUInt16 b 0
  rwa [← hsplit, UInt8.xor_zero, crcByte_low, hhigh, hlow] at hstep

/-- The low octet after one step comes from the table alone. -/
theorem low_crcByte (c : UInt16) (b : UInt8) : low (crcByte c b) = low (table (high c ^^^ b)) := by
  rw [crcByte_eq_table, low_xor, low_shiftLeft, UInt8.xor_zero]

/-- The high octet is the table's, mixed with the low octet before. -/
theorem high_crcByte (c : UInt16) (b : UInt8) :
    high (crcByte c b) = high (table (high c ^^^ b)) ^^^ low c := by
  rw [crcByte_eq_table, high_xor, high_shiftLeft]

theorem table_zero : table 0 = 0 := by decide

/-- No other octet leaves a zero low octet. -/
theorem table_low_zero : ∀ j, low (table j) = 0 → j = 0 := by
  simp only [table_eq]
  exact forall_octet (by decide +kernel)

/-- A zero octet leaves no register zero but the zero one. -/
theorem crcByte_zero {c : UInt16} : crcByte c 0 = 0 ↔ c = 0 := by
  constructor
  · intro h
    have hlow := congrArg low h
    have hhigh := congrArg high h
    rw [low_crcByte, UInt8.xor_zero] at hlow
    have hj := table_low_zero _ hlow
    rw [high_crcByte, UInt8.xor_zero, hj, table_zero] at hhigh
    exact eq_of_octets ((UInt8.zero_xor).symm.trans hhigh) hj
  · rintro rfl
    exact table_zero

theorem foldl_zeros (n : Nat) (c : UInt16) : (List.replicate n 0).foldl crcByte c = 0 ↔ c = 0 := by
  induction n generalizing c with
  | zero => rfl
  | succ n ih => rw [List.replicate_succ, List.foldl_cons, ih, crcByte_zero]

/-- Leading zeros leave the remainder of an error alone. -/
theorem remainder_zeros (n : Nat) (data : Bytes) :
    remainder (List.replicate n 0 ++ data) = remainder data := by
  rw [remainder, List.foldl_append, (foldl_zeros n 0).mpr rfl]
  rfl

/-- Trailing zeros do not hide an error. -/
theorem remainder_append_zeros (n : Nat) (data : Bytes) :
    remainder (data ++ List.replicate n 0) = 0 ↔ remainder data = 0 := by
  rw [remainder, List.foldl_append]
  exact foldl_zeros n _

end Fec
end AetherStack.Source
