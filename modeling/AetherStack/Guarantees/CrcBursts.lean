import AetherStack.Source.CrcTable
import AetherStack.Source.HarqCodec

/-!
# Bursts of errors and the block checksum

A burst is an error confined to 16 consecutive bits in the order of the air, least
significant bit of an octet first. The checksum runs over the octets most significant bit
first and stands behind the payload low octet first, so at the boundary of the two the 16
bits are not consecutive for the code: three patterns are not noticed there, and no other.
-/
namespace AetherStack.Guarantees
open AetherStack.Source
open AetherStack.Source.Fec

/-- The block with the bits of the error flipped. -/
def corrupted (block error : Bytes) : Bytes := List.zipWith (· ^^^ ·) block error

/-- Outside some `width` consecutive bits, in transmission order, the error is zero. -/
def Burst (width : Nat) (error : Bytes) : Prop :=
  ∃ s, (∀ b ∈ (bytesToBits error).take s, b = 0) ∧ ∀ b ∈ (bytesToBits error).drop (s + width), b = 0

/-- The errors that pass: the last octets of the block, from the first that is not zero. The
first two hit one octet of the payload and the checksum, the third two octets of the payload
and the low octet of the checksum. -/
def unnoticed : List Bytes := [[0x89, 0xA1, 0x00], [0x98, 0xB1, 0x02], [0xC8, 0xF7, 0x05, 0x00]]

namespace CrcBursts

/-! ## The test of the receiver on an error -/

theorem crcAttach_eq (payload : Bytes) :
    crcAttach payload = payload ++ [low (crc16 payload), high (crc16 payload)] := by
  have hlow : UInt8.ofNat (crc16 payload).toNat = low (crc16 payload) := by
    apply UInt8.toNat_inj.mp
    rw [UInt8.toNat_ofNat', toNat_low]
  have hhigh : UInt8.ofNat ((crc16 payload).toNat >>> 8) = high (crc16 payload) := by
    have hlt := (crc16 payload).toNat_lt
    apply UInt8.toNat_inj.mp
    rw [UInt8.toNat_ofNat', toNat_high, Nat.shiftRight_eq_div_pow]
    omega
  rw [crcAttach, putU16, hlow, hhigh]

/-- The check accepts exactly the two octets the sender would have appended. -/
theorem crcVerifyStrip_append (payload : Bytes) (f0 f1 : UInt8) : crcVerifyStrip (payload ++ [f0, f1]) =
    if low (crc16 payload) = f0 ∧ high (crc16 payload) = f1 then some payload else none := by
  have hlen : (payload ++ [f0, f1]).length - 2 = payload.length := by simp
  have hfcs : getU16 (payload ++ [f0, f1]) payload.length = f0.toNat + 256 * f1.toNat := by
    rw [getU16, u8_or_shift]
    simp
  rw [crcVerifyStrip, if_neg (by simp), hlen, List.take_left' rfl]
  dsimp only
  rw [hfcs]
  refine if_congr ?_ rfl rfl
  have hlow := toNat_low (crc16 payload)
  have hhigh := toNat_high (crc16 payload)
  have h0 := f0.toNat_lt
  rw [← UInt8.toNat_inj, ← UInt8.toNat_inj]
  omega

/-- The last two octets of the error are the remainder of the others. -/
def Passes (error : Bytes) : Prop :=
  ∃ init, error = init ++ [low (remainder init), high (remainder init)]

/-- By linearity the check sees the error alone. -/
theorem verify_corrupted {payload error : Bytes} (hlen : error.length = (crcAttach payload).length) :
    crcVerifyStrip (corrupted (crcAttach payload) error) = none ↔ ¬ Passes error := by
  have hsize : (crcAttach payload).length = payload.length + 2 := by rw [crcAttach_eq, List.length_append]; rfl
  obtain ⟨e0, e1, hlast⟩ := List.length_eq_two.mp
    (show (error.drop payload.length).length = 2 by rw [List.length_drop]; omega)
  generalize hinit : error.take payload.length = init
  have hinitLen : payload.length = init.length := by rw [← hinit, List.length_take]; omega
  obtain rfl : error = init ++ [e0, e1] := by rw [← hinit, ← hlast, List.take_append_drop]
  have hsplit : corrupted (crcAttach payload) (init ++ [e0, e1]) = corrupted payload init ++
      [low (crc16 payload) ^^^ e0, high (crc16 payload) ^^^ e1] := by
    rw [crcAttach_eq, corrupted, List.zipWith_append hinitLen]
    rfl
  have hpasses : Passes (init ++ [e0, e1]) ↔ low (remainder init) = e0 ∧ high (remainder init) = e1 := by
    constructor
    · rintro ⟨init', h⟩
      obtain ⟨rfl, h⟩ := List.append_inj' h rfl
      simp only [List.cons.injEq, and_true] at h
      exact ⟨h.1.symm, h.2.symm⟩
    · rintro ⟨rfl, rfl⟩
      exact ⟨init, rfl⟩
  rw [hpasses, hsplit, crcVerifyStrip_append, corrupted, crc16_xor hinitLen, low_xor, high_xor]
  simp only [UInt8.xor_right_inj, ite_eq_right_iff, reduceCtorEq, imp_false]

/-! ## The shape of a burst -/

/-- Bit `j` of the octet. -/
def bitAt (a : UInt8) (j : Nat) : UInt8 := (a >>> UInt8.ofNat j) &&& 1

/-- Two octets with one between them: every bit of the later one comes within 16 of every bit of
the earlier one. -/
def Narrow (a c : UInt8) : Prop := ∀ j < 8, ∀ k < 8, bitAt a j ≠ 0 → bitAt c k ≠ 0 → k < j

theorem bitAt_ne_zero {a : UInt8} {j : Nat} (hj : j < 8) : bitAt a j ≠ 0 ↔ a.toNat.testBit j = true := by
  rw [bitAt, ne_eq, ← UInt8.toNat_inj, toNat_bit a hj, Nat.testBit_eq_decide_div_mod_eq, decide_eq_true_iff]
  show ¬ _ = 0 ↔ _
  omega

theorem exists_bit {a : UInt8} {j : Nat} (ha : 2 ^ j ≤ a.toNat) : ∃ k < 8, j ≤ k ∧ bitAt a k ≠ 0 := by
  obtain ⟨k, hjk, hk⟩ := Nat.exists_ge_and_testBit_of_ge_two_pow ha
  have hlt : k < 8 := by
    by_contra hge
    rw [Nat.testBit_lt_two_pow (Nat.lt_of_lt_of_le a.toNat_lt (Nat.pow_le_pow_right (by decide) (Nat.le_of_not_lt hge)))]
      at hk
    cases hk
  exact ⟨k, hlt, hjk, (bitAt_ne_zero hlt).mpr hk⟩

/-- Every set bit of the earlier octet is above the whole later octet. -/
theorem narrow_iff {a c : UInt8} : Narrow a c ↔ ∀ j < 8, a.toNat.testBit j = true → c.toNat < 2 ^ j := by
  constructor
  · intro hnarrow j hj hset
    by_contra hge
    obtain ⟨k, hk, hjk, hset'⟩ := exists_bit (Nat.le_of_not_lt hge)
    have hlt := hnarrow j hj k hk ((bitAt_ne_zero hj).mpr hset) hset'
    omega
  · intro hbelow j hj k hk hset hset'
    by_contra hge
    have hc := hbelow j hj ((bitAt_ne_zero hj).mp hset)
    have hpow : 2 ^ j ≤ 2 ^ k := Nat.pow_le_pow_right (by decide) (Nat.le_of_not_lt hge)
    have hbit := (bitAt_ne_zero hk).mp hset'
    rw [Nat.testBit_lt_two_pow (Nat.lt_of_lt_of_le hc hpow)] at hbit
    cases hbit

instance (a c : UInt8) : Decidable (Narrow a c) := decidable_of_iff _ narrow_iff.symm

theorem exists_bit_of_ne_zero {a : UInt8} (ha : a ≠ 0) : ∃ j < 8, bitAt a j ≠ 0 := by
  have hpos : a.toNat ≠ 0 := fun h => ha (UInt8.toNat_inj.mp h)
  obtain ⟨k, hk, -, hset⟩ := exists_bit (show 2 ^ 0 ≤ a.toNat by omega)
  exact ⟨k, hk, hset⟩

theorem getElem?_bytesToBits {bytes : Bytes} {k j : Nat} {a : UInt8} (ha : bytes[k]? = some a) (hj : j < 8) :
    (bytesToBits bytes)[8 * k + j]? = some (bitAt a j) := by
  induction bytes generalizing k with
  | nil => cases ha
  | cons b bytes ih =>
    have hcons : bytesToBits (b :: bytes) = byteBits b ++ bytesToBits bytes := List.flatMap_cons
    rw [hcons]
    cases k with
    | zero =>
      obtain rfl := Option.some.inj ha
      rw [List.getElem?_append_left (by rw [length_byteBits]; omega), byteBits, List.getElem?_map, Nat.mul_zero,
        Nat.zero_add, List.getElem?_range hj]
      rfl
    | succ k =>
      rw [List.getElem?_append_right (by rw [length_byteBits]; omega), length_byteBits,
        show 8 * (k + 1) + j - 8 = 8 * k + j by omega]
      exact ih ha

/-- Two bits of a burst are less than its width apart. -/
theorem burst_bits {error : Bytes} {width k k' j j' : Nat} {a a' : UInt8} (hburst : Burst width error)
    (ha : error[k]? = some a) (hj : j < 8) (hset : bitAt a j ≠ 0)
    (ha' : error[k']? = some a') (hj' : j' < 8) (hset' : bitAt a' j' ≠ 0) :
    8 * k' + j' < 8 * k + j + width := by
  obtain ⟨s, hbefore, hbehind⟩ := hburst
  have hget := getElem?_bytesToBits ha hj
  have hget' := getElem?_bytesToBits ha' hj'
  have hfrom : s ≤ 8 * k + j := by
    by_contra hlt
    refine hset (hbefore _ (List.mem_of_getElem? (i := 8 * k + j) ?_))
    rw [List.getElem?_take_of_lt (by omega), hget]
  have hto : 8 * k' + j' < s + width := by
    by_contra hge
    refine hset' (hbehind _ (List.mem_of_getElem? (i := 8 * k' + j' - (s + width)) ?_))
    rw [List.getElem?_drop, show s + width + (8 * k' + j' - (s + width)) = 8 * k' + j' by omega, hget']
  omega

/-- An error begins at its first octet that is not zero. -/
theorem leading_zeros {error : Bytes} (hne : ∃ b ∈ error, b ≠ 0) :
    ∃ n a rest, error = List.replicate n 0 ++ a :: rest ∧ a ≠ 0 := by
  induction error with
  | nil => simp at hne
  | cons b error ih =>
    by_cases hb : b = 0
    · obtain ⟨n, a, rest, rfl, ha⟩ := ih (by simpa [hb] using hne)
      exact ⟨n + 1, a, rest, by rw [hb]; rfl, ha⟩
    · exact ⟨0, b, error, rfl, hb⟩

/-- After its first octet a burst reaches two octets further at most. -/
theorem burst_shape {error : Bytes} (hburst : Burst 16 error) (hne : ∃ b ∈ error, b ≠ 0) :
    ∃ n a, a ≠ 0 ∧ (error = List.replicate n 0 ++ [a] ∨ (∃ b, error = List.replicate n 0 ++ [a, b]) ∨
      ∃ b c m, error = List.replicate n 0 ++ a :: b :: c :: List.replicate m 0 ∧ Narrow a c) := by
  obtain ⟨n, a, rest, rfl, ha⟩ := leading_zeros hne
  refine ⟨n, a, ha, ?_⟩
  have hat : ∀ i, (List.replicate n 0 ++ a :: rest)[n + i]? = (a :: rest)[i]? := by
    intro i
    rw [List.getElem?_append_right (by rw [List.length_replicate]; omega), List.length_replicate,
      Nat.add_sub_cancel_left]
  have hfirst : (List.replicate n 0 ++ a :: rest)[n]? = some a := hat 0
  match rest with
  | [] => exact .inl rfl
  | [b] => exact .inr (.inl ⟨b, rfl⟩)
  | b :: c :: rest =>
    have hthird : (List.replicate n 0 ++ a :: b :: c :: rest)[n + 2]? = some c := hat 2
    have hzero : ∀ x ∈ rest, x = 0 := by
      intro x hx
      by_contra hxne
      obtain ⟨i, hi⟩ := List.getElem?_of_mem hx
      obtain ⟨j, hj, hset⟩ := exists_bit_of_ne_zero ha
      obtain ⟨j', hj', hset'⟩ := exists_bit_of_ne_zero hxne
      have hlater : (List.replicate n 0 ++ a :: b :: c :: rest)[n + (i + 3)]? = some x := (hat (i + 3)).trans hi
      have hwidth := burst_bits hburst hfirst hj hset hlater hj' hset'
      omega
    have hnarrow : Narrow a c := by
      intro j hj k hk hset hset'
      have hwidth := burst_bits hburst hfirst hj hset hthird hk hset'
      omega
    refine .inr (.inr ⟨b, c, rest.length, ?_, hnarrow⟩)
    rw [← List.eq_replicate_of_mem hzero]

/-! ## The bursts that pass -/

/-- One octet of the payload, then the checksum. -/
theorem passes_one : ∀ a, a ≠ 0 → Narrow a (high (table a)) →
    [a, low (table a), high (table a)] ∈ unnoticed := by
  simp only [table_eq]
  exact forall_octet (by decide +kernel)

/-- The octet whose table word has the given low octet. -/
def fromLow (v : UInt8) : UInt8 := (v ^^^ (v <<< 5)) ^^^ ((v ^^^ (v <<< 5)) >>> 4)

theorem fromLow_table : ∀ a, fromLow (low (table a)) = a := by
  simp only [table_eq]
  exact forall_octet (by decide +kernel)

/-- Two octets of the payload, then the low octet of the checksum. -/
theorem passes_two : ∀ j, fromLow (high (table j)) ≠ 0 → Narrow (fromLow (high (table j))) (low (table j)) →
    [fromLow (high (table j)), high (table (fromLow (high (table j)))) ^^^ j, low (table j), 0] ∈ unnoticed := by
  simp only [table_eq]
  exact forall_octet (by decide +kernel)

/-- Three octets of the payload. -/
theorem passes_three : ∀ a, a ≠ 0 → ¬ Narrow a (low (table a)) := by
  simp only [table_eq]
  exact forall_octet (by decide +kernel)

/-- Zeros in front leave the remainder at its start. -/
theorem remainder_replicate (n : Nat) : remainder (List.replicate n 0) = remainder [] :=
  (foldl_zeros n 0).mpr rfl

/-- The last two octets of an error that passes are the remainder of what is before them. -/
theorem passes_last {init init' : Bytes} {e0 e1 : UInt8} (h : Passes (init ++ [e0, e1]))
    (hinit : remainder init = remainder init') : e0 = low (remainder init') ∧ e1 = high (remainder init') := by
  obtain ⟨init'', h⟩ := h
  obtain ⟨rfl, h⟩ := List.append_inj' h rfl
  simp only [List.cons.injEq, and_true] at h
  rwa [hinit] at h

/-- A burst of sixteen bits that passes ends the block with one of the patterns. -/
theorem burst_passes {error : Bytes} (hburst : Burst 16 error) (hne : ∃ b ∈ error, b ≠ 0)
    (hpasses : Passes error) : ∃ n, ∃ last ∈ unnoticed, error = List.replicate n 0 ++ last := by
  obtain ⟨n, a, ha, rfl | ⟨b, rfl⟩ | ⟨b, c, m, rfl, hnarrow⟩⟩ := burst_shape hburst hne
  · -- the high octet of the checksum alone
    cases n with
    | zero =>
      obtain ⟨init, h⟩ := hpasses
      have := congrArg List.length h
      simp at this
    | succ n =>
      have hlast : Passes (List.replicate n 0 ++ [0, a]) := by
        rwa [List.replicate_succ', List.append_assoc] at hpasses
      exact absurd (passes_last hlast (remainder_replicate n)).2 ha
  · -- the checksum alone
    exact absurd (passes_last hpasses (remainder_replicate n)).1 ha
  · match m with
    | 0 =>
      have hlast : Passes ((List.replicate n 0 ++ [a]) ++ [b, c]) := by rwa [List.append_assoc]
      obtain ⟨rfl, rfl⟩ := passes_last hlast (remainder_zeros n [a])
      exact ⟨n, _, passes_one a ha hnarrow, rfl⟩
    | 1 =>
      have hlast : Passes ((List.replicate n 0 ++ [a, b]) ++ [c, 0]) := by rwa [List.append_assoc]
      obtain ⟨hc, hzero⟩ := passes_last hlast (remainder_zeros n [a, b])
      have htwo : remainder [a, b] = crcByte (table a) b := rfl
      rw [htwo, low_crcByte] at hc
      rw [htwo, high_crcByte] at hzero
      -- the index of the second look-up gives the three octets back
      generalize hj : high (table a) ^^^ b = j at hc hzero
      have hhigh : high (table j) = low (table a) := UInt8.xor_eq_zero_iff.mp hzero.symm
      have hfirst : fromLow (high (table j)) = a := by rw [hhigh, fromLow_table]
      have hsecond : high (table a) ^^^ j = b := by
        rw [← hj, ← UInt8.xor_assoc, UInt8.xor_self, UInt8.zero_xor]
      have hmem := passes_two j (by rwa [hfirst]) (by rwa [hfirst, ← hc])
      rw [hfirst, hsecond, ← hc] at hmem
      exact ⟨n, _, hmem, rfl⟩
    | m + 2 =>
      exfalso
      have hlast : Passes ((List.replicate n 0 ++ ([a, b, c] ++ List.replicate m 0)) ++ [0, 0]) := by
        rw [List.append_assoc, List.append_assoc]
        rwa [List.replicate_succ', List.replicate_succ', List.append_assoc] at hpasses
      obtain ⟨hlow, hhigh⟩ := passes_last hlast (remainder_zeros n _)
      have hnone : remainder [a, b, c] = 0 :=
        (remainder_append_zeros m _).mp (eq_of_octets hlow.symm hhigh.symm)
      have hthree : remainder [a, b, c] = crcByte (crcByte (table a) b) c := rfl
      rw [hthree] at hnone
      have hlow := congrArg low hnone
      have hhigh := congrArg high hnone
      rw [low_crcByte] at hlow
      have hj := table_low_zero _ hlow
      rw [high_crcByte, hj, table_zero, low_crcByte] at hhigh
      have hj' := table_low_zero _ ((UInt8.zero_xor).symm.trans hhigh)
      rw [high_crcByte, hj', table_zero] at hj
      have hc : c = low (table a) := (UInt8.xor_eq_zero_iff.mp hj).symm.trans UInt8.zero_xor
      rw [hc] at hnarrow
      exact passes_three a ha hnarrow

set_option maxRecDepth 4000 in
/-- And each of the patterns does pass, wherever the block begins. -/
theorem unnoticed_passes (n : Nat) {last : Bytes} (hlast : last ∈ unnoticed) :
    Passes (List.replicate n 0 ++ last) := by
  have hpasses : ∀ (front : Bytes) {e0 e1 : UInt8}, low (remainder front) = e0 → high (remainder front) = e1 →
      Passes (List.replicate n 0 ++ (front ++ [e0, e1])) := by
    rintro front _ _ rfl rfl
    refine ⟨List.replicate n 0 ++ front, ?_⟩
    rw [remainder_zeros, List.append_assoc]
  simp only [unnoticed, List.mem_cons, List.not_mem_nil, or_false] at hlast
  rcases hlast with rfl | rfl | rfl
  · exact hpasses [0x89] (by decide) (by decide)
  · exact hpasses [0x98] (by decide) (by decide)
  · exact hpasses [0xC8, 0xF7] (by decide) (by decide)

end CrcBursts

open CrcBursts

/-- For every payload and every burst over its block: the receiver rejects the block unless the
error is one of three patterns at the boundary of payload and checksum. -/
theorem bursts_rejected {payload error : Bytes} (hlen : error.length = (crcAttach payload).length)
    (hburst : Burst 16 error) (hne : ∃ b ∈ error, b ≠ 0) :
    crcVerifyStrip (corrupted (crcAttach payload) error) = none ↔
      ¬ ∃ n, ∃ last ∈ unnoticed, error = List.replicate n 0 ++ last := by
  rw [verify_corrupted hlen, not_iff_not]
  constructor
  · exact burst_passes hburst hne
  · rintro ⟨n, last, hlast, rfl⟩
    exact unnoticed_passes n hlast

set_option maxRecDepth 4000 in
/-- One bit of the payload and the whole low octet of the checksum. -/
theorem bursts_rejected_two_octets : crcVerifyStrip
    (corrupted (crcAttach [0x00, 0x2A]) [0x00, 0x80, 0xFF, 0x00]) = none :=
  (bursts_rejected (by decide) ⟨15, by decide, by decide⟩ ⟨0x80, by decide, by decide⟩).mpr (by
    rintro ⟨n, last, hlast, h⟩
    have hlen := congrArg List.length h
    simp only [unnoticed, List.mem_cons, List.not_mem_nil, or_false] at hlast
    rcases hlast with rfl | rfl | rfl <;> simp at hlen <;> subst hlen <;> revert h <;> decide)

set_option maxRecDepth 4000 in
/-- A payload of one octet, and an error within it and the low octet of its checksum: the block is
accepted, and the payload is not the one sent. -/
theorem burst_accepted : Burst 16 [0x89, 0xA1, 0x00] ∧
    crcVerifyStrip (corrupted (crcAttach [0x2A]) [0x89, 0xA1, 0x00]) = some [0xA3] :=
  ⟨⟨0, by decide, by decide⟩, by decide⟩

end AetherStack.Guarantees
