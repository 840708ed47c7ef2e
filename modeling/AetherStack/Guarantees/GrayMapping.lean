import AetherStack.Lib.Differences
import AetherStack.Lib.Rows
import AetherStack.Source.Qam

/-!
# Neighbouring levels of the constellation

The modulator maps bits to a level with the Gray code and the demodulator goes back with its
inverse. Neighbouring levels differ in one bit when it is the other way round and the bits of a
level are its code. As it is, a neighbouring level costs one bit where the inverse code happens
to change one bit as well. With two or four levels it always does, from eight levels on it does
not: between the levels 3 and 4 all three bits change but one.
-/
namespace AetherStack.Guarantees
open Source Source.Qam Fec Lib

namespace GrayMapping

/-! ### Neighbouring words -/

/-- The bits that the word of a level and the word of the next one differ in. -/
def stepBits (m g : Nat) : Nat :=
  differences (wordBits m (grayDecode g)) (wordBits m (grayDecode (g + 1)))

/-- The last bit of a level is the parity of its label. -/
theorem grayDecode_mod_two (g : Nat) : grayDecode g % 2 = (g + grayDecode (g / 2)) % 2 := by
  have hxor := Nat.xor_mod_two_eq_one (a := g) (b := grayDecode (g / 2))
  rw [grayDecode_eq, Nat.shiftRight_one]
  omega

/-- The labels differ in their last bit or further up. -/
theorem differences_wordBits_succ (m v w : Nat) :
    differences (wordBits (m + 1) v) (wordBits (m + 1) w) =
      differences (wordBits m (v / 2)) (wordBits m (w / 2)) + (if v % 2 = w % 2 then 0 else 1) := by
  rw [wordBits_succ, wordBits_succ, differences_append _ _ (by simp), Nat.shiftRight_one,
    Nat.shiftRight_one, Nat.and_one_is_mod, Nat.and_one_is_mod]
  congr 1
  rcases Nat.mod_two_eq_zero_or_one v with hv | hv <;>
    rcases Nat.mod_two_eq_zero_or_one w with hw | hw <;> rw [hv, hw] <;> rfl

/-- From an even level the next one differs in the last bit only. -/
theorem stepBits_even (m k : Nat) : stepBits (m + 1) (2 * k) = 1 := by
  have hhalf : grayDecode (2 * k) / 2 = grayDecode (2 * k + 1) / 2 := by
    rw [← Nat.shiftRight_one, ← Nat.shiftRight_one, grayDecode_shiftRight, grayDecode_shiftRight,
      Nat.shiftRight_one, Nat.shiftRight_one]
    congr 1
    omega
  have heven := grayDecode_mod_two (2 * k)
  have hodd := grayDecode_mod_two (2 * k + 1)
  rw [show 2 * k / 2 = k by omega] at heven
  rw [show (2 * k + 1) / 2 = k by omega] at hodd
  rw [stepBits, differences_wordBits_succ, hhalf, differences_self, if_neg (by omega)]

/-- From an odd level the step goes on in the bits above, and the last bit follows the last of
these. -/
theorem stepBits_odd (m k : Nat) : stepBits (m + 1) (2 * k + 1) =
    stepBits m k + (if grayDecode k % 2 = grayDecode (k + 1) % 2 then 1 else 0) := by
  have hlow : grayDecode (2 * k + 1) / 2 = grayDecode k := by
    rw [← Nat.shiftRight_one, grayDecode_shiftRight, Nat.shiftRight_one]
    congr 1
    omega
  have hhigh : grayDecode (2 * k + 1 + 1) / 2 = grayDecode (k + 1) := by
    rw [← Nat.shiftRight_one, grayDecode_shiftRight, Nat.shiftRight_one]
    congr 1
    omega
  have hbit := grayDecode_mod_two (2 * k + 1)
  have hbit' := grayDecode_mod_two (2 * k + 1 + 1)
  rw [show (2 * k + 1) / 2 = k by omega] at hbit
  rw [show (2 * k + 1 + 1) / 2 = k + 1 by omega] at hbit'
  rw [stepBits, differences_wordBits_succ, hlow, hhigh, stepBits]
  congr 1
  split <;> split <;> omega

theorem stepBits_pos {m g : Nat} (h : g + 1 < 2 ^ m) : 1 ≤ stepBits m g := by
  induction m generalizing g with
  | zero => omega
  | succ m ih =>
    rw [pow_succ] at h
    obtain ⟨k, rfl | rfl⟩ : ∃ k, g = 2 * k ∨ g = 2 * k + 1 := ⟨g / 2, by omega⟩
    · rw [stepBits_even]
    · have hk := ih (g := k) (by omega)
      rw [stepBits_odd]
      omega

/-- The last bits of two neighbours: they change with an even level, and otherwise when those
above do not. -/
theorem lastBit_odd (j : Nat) : grayDecode (2 * j + 1) % 2 = grayDecode (2 * j + 1 + 1) % 2 ↔
    grayDecode j % 2 ≠ grayDecode (j + 1) % 2 := by
  have hbit := grayDecode_mod_two (2 * j + 1)
  have hbit' := grayDecode_mod_two (2 * j + 1 + 1)
  rw [show (2 * j + 1) / 2 = j by omega] at hbit
  rw [show (2 * j + 1 + 1) / 2 = j + 1 by omega] at hbit'
  omega

theorem lastBit_even (j : Nat) : grayDecode (2 * j) % 2 ≠ grayDecode (2 * j + 1) % 2 := by
  have hbit := grayDecode_mod_two (2 * j)
  have hbit' := grayDecode_mod_two (2 * j + 1)
  rw [show 2 * j / 2 = j by omega] at hbit
  rw [show (2 * j + 1) / 2 = j by omega] at hbit'
  omega

/-- Neighbours differ in one bit unless the lower level is 3 modulo 4. -/
theorem stepBits_eq_one_iff {m g : Nat} (h : g + 1 < 2 ^ m) : stepBits m g = 1 ↔ g % 4 ≠ 3 := by
  cases m with
  | zero => omega
  | succ m =>
    rw [pow_succ] at h
    obtain ⟨k, rfl | rfl⟩ : ∃ k, g = 2 * k ∨ g = 2 * k + 1 := ⟨g / 2, by omega⟩
    · rw [stepBits_even]
      omega
    · rw [stepBits_odd]
      cases m with
      | zero => omega
      | succ m =>
        rw [pow_succ] at h
        obtain ⟨j, rfl | rfl⟩ : ∃ j, k = 2 * j ∨ k = 2 * j + 1 := ⟨k / 2, by omega⟩
        · rw [stepBits_even, if_neg (lastBit_even j)]
          omega
        · -- the bit that the level above leaves alone changes here
          have hpos := stepBits_pos (m := m) (g := j) (by omega)
          have htwo : 2 ≤ stepBits (m + 1) (2 * j + 1) +
              (if grayDecode (2 * j + 1) % 2 = grayDecode (2 * j + 1 + 1) % 2 then 1 else 0) := by
            rw [stepBits_odd]
            by_cases hlast : grayDecode j % 2 = grayDecode (j + 1) % 2
            · rw [if_pos hlast]
              omega
            · rw [if_neg hlast, if_pos ((lastBit_odd j).mpr hlast)]
              omega
          omega

/-! ### The neighbours of a level -/

inductive Dimension where
  | i | q
  deriving DecidableEq, Repr

def level (s : Symbol) : Dimension → Int
  | .i => s.i
  | .q => s.q

def withLevel (s : Symbol) (lvl : Int) : Dimension → Symbol
  | .i => { s with i := lvl }
  | .q => { s with q := lvl }

def Adjacent (index index' : Nat) : Prop := index' = index + 1 ∨ index = index' + 1

/-- Moving one dimension changes the bits of that dimension. -/
theorem differences_withLevel {m : Nat} {s : Symbol} {d : Dimension} {index index' : Nat}
    (hlevel : level s d = pamLevel m index) (h : index < 2 ^ m) (h' : index' < 2 ^ m) :
    differences (demodulateSymbol m s) (demodulateSymbol m (withLevel s (pamLevel m index') d)) =
      differences (wordBits m (grayDecode index)) (wordBits m (grayDecode index')) := by
  have hslice' := slice_pamLevel h'
  cases d with
  | i =>
    have hslice : slice m s.i = index := by
      rw [show s.i = pamLevel m index from hlevel, slice_pamLevel h]
    simp only [demodulateSymbol, withLevel, hslice, hslice']
    rw [differences_append _ _ (by simp), differences_self, Nat.add_zero]
  | q =>
    have hslice : slice m s.q = index := by
      rw [show s.q = pamLevel m index from hlevel, slice_pamLevel h]
    simp only [demodulateSymbol, withLevel, hslice, hslice']
    rw [differences_append _ _ rfl, differences_self, Nat.zero_add]

theorem differences_adjacent_iff {m index index' : Nat} (h : index < 2 ^ m) (h' : index' < 2 ^ m)
    (hadjacent : Adjacent index index') :
    differences (wordBits m (grayDecode index)) (wordBits m (grayDecode index')) = 1 ↔
      min index index' % 4 ≠ 3 := by
  rcases hadjacent with rfl | rfl
  · rw [Nat.min_eq_left (Nat.le_succ index)]
    exact stepBits_eq_one_iff h'
  · rw [Nat.min_eq_right (Nat.le_succ index'), differences_comm]
    exact stepBits_eq_one_iff h

/-! ### Streams -/

/-- The rows of equal width put together again. -/
theorem flatMap_rows (width count : Nat) (bits : Bytes) (h : bits.length = count * width) :
    (List.range count).flatMap (fun k => (bits.drop (k * width)).take width) = bits := by
  have hrow : ∀ k < count, (bits.drop (k * width)).take width = padTo 0 width (bits.drop (k * width)) := by
    intro k hk
    have hlen : width ≤ (bits.drop (k * width)).length := by
      have hnext : (k + 1) * width ≤ count * width := Nat.mul_le_mul_right width hk
      rw [Nat.succ_mul] at hnext
      rw [List.length_drop]
      omega
    rw [padTo, Nat.sub_eq_zero_of_le hlen, List.replicate_zero, List.append_nil]
  rw [List.flatMap_congr fun k hk => hrow k (List.mem_range.mp hk), flatMap_padTo,
    padTo_of_length_le 0 h.le, h, Nat.sub_self, List.replicate_zero, List.append_nil]

theorem demodulate_modulateSymbol {m : Nat} {bits : Bytes} (h : BitList bits) (hlen : 2 * m ≤ bits.length) :
    demodulateSymbol m (modulateSymbol m bits) = bits.take (2 * m) := by
  have hword : ∀ part : Bytes, BitList part → part.length = m →
      wordBits m (grayDecode (slice m (pamLevel m (grayEncode (wordValue part))))) = part := by
    intro part hpart hwidth
    have hlt := wordValue_lt hpart
    rw [hwidth] at hlt
    rw [slice_pamLevel (grayEncode_lt hlt), grayDecode_grayEncode, ← hwidth, wordBits_wordValue hpart]
  have hfirst := hword (bits.take m) (fun b hb => h b (List.mem_of_mem_take hb))
    (by rw [List.length_take]; omega)
  have hsecond := hword ((bits.drop m).take m)
    (fun b hb => h b (List.mem_of_mem_drop (List.mem_of_mem_take hb)))
    (by rw [List.length_take, List.length_drop]; omega)
  rw [demodulateSymbol, modulateSymbol, hfirst, hsecond, Nat.two_mul, List.take_add]

theorem demodulate_modulate {m : Nat} (hm : 1 ≤ m) {bits : Bytes} (hbits : BitList bits)
    (hwhole : bits.length % (2 * m) = 0) :
    qamDemodulate (qamModulate bits (2 * m)) (2 * m) = bits := by
  have hcount : bits.length = bits.length / (2 * m) * (2 * m) :=
    (Nat.div_mul_cancel (Nat.dvd_of_mod_eq_zero hwhole)).symm
  have hhalf : 2 * m / 2 = m := by omega
  rw [qamDemodulate, if_neg (by omega), qamModulate, if_neg (by omega), hhalf, List.flatMap_map]
  refine (List.flatMap_congr fun k hk => ?_).trans (flatMap_rows (2 * m) _ bits hcount)
  refine demodulate_modulateSymbol (fun b hb => hbits b (List.mem_of_mem_drop hb)) ?_
  have hnext : (k + 1) * (2 * m) ≤ bits.length / (2 * m) * (2 * m) :=
    Nat.mul_le_mul_right _ (List.mem_range.mp hk)
  rw [Nat.succ_mul] at hnext
  rw [List.length_drop]
  omega

end GrayMapping

open GrayMapping

end AetherStack.Guarantees
