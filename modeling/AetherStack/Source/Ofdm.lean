import Mathlib.Data.Nat.Bitwise
import AetherStack.Lib.Fourier
import AetherStack.Source.PhyFrame

/-!
# Subcarriers

Source: stack/phy/src/ofdm.cpp:10-119, and the transform of stack/phy/src/sync.cpp:9-38 that bursts
use.
Samples are numbers of a field in place of floats. What the code has from the mathematical
library is a parameter, `Numbers`. The memory behind a pointer is a function of the index.
-/
namespace AetherStack.Source
open Lib

/-- Points of the unit circle, the QPSK points by the signs of their parts, the signs of the parts
of a sample, and the comparison of the equaliser. -/
structure Numbers (K : Type) where
  polar : ℚ → K
  qpsk : Bool → Bool → K
  signs : K → Bool × Bool
  strong : K → Bool

/-- `polar t` is exp(jπt). -/
structure Numbers.Lawful {K : Type} [Field K] (num : Numbers K) : Prop where
  polar_add : ∀ s t, num.polar (s + t) = num.polar s * num.polar t
  polar_one : num.polar 1 = -1
  qpsk_ne_zero : ∀ i q, num.qpsk i q ≠ 0
  signs_qpsk : ∀ i q, num.signs (num.qpsk i q) = (i, q)
  signs_zero : num.signs 0 = (false, false)
  strong_zero : num.strong 0 = false
  two_ne_zero : (2 : K) ≠ 0

/-! ### The transform in place -/

/-- `for (; j & bit; bit >>= 1) j ^= bit; j ^= bit`. -/
def nextReversed (bit j : Nat) : Nat :=
  if j &&& bit = 0 then j ^^^ bit else nextReversed (bit >>> 1) (j ^^^ bit)
termination_by bit
decreasing_by
  rename_i hset
  have hbit : bit ≠ 0 := fun hzero => hset (by rw [hzero, Nat.and_zero])
  rw [Nat.shiftRight_one]
  omega

section
variable {K : Type}

def swapAt (data : Nat → K) (i j : Nat) : Nat → K :=
  fun k => if k = i then data j else if k = j then data i else data k

def permuteStep (n : Nat) (s : (Nat → K) × Nat) (i : Nat) : (Nat → K) × Nat :=
  let j := nextReversed (n >>> 1) s.2
  (if i < j then swapAt s.1 i j else s.1, j)

/-- The loop over `i` from 1, with the reversed counter `j`. -/
def permute (n : Nat) (data : Nat → K) : Nat → K :=
  ((List.range' 1 (n - 1)).foldl (permuteStep n) (data, 0)).1

variable [Field K]

def butterfly (wlen : K) (half i : Nat) (s : (Nat → K) × K) (j : Nat) : (Nat → K) × K :=
  let u := s.1 (i + j)
  let v := s.1 (i + j + half) * s.2
  (fun k => if k = i + j + half then u - v else if k = i + j then u + v else s.1 k, s.2 * wlen)

/-- The loop over `j`. -/
def butterflies (wlen : K) (len : Nat) (data : Nat → K) (i : Nat) : Nat → K :=
  ((List.range (len / 2)).foldl (butterfly wlen (len / 2) i) (data, 1)).1

/-- The loop over `i` in steps of `len`. -/
def fftPass (wlen : K) (n len : Nat) (data : Nat → K) : Nat → K :=
  (List.range ((n + len - 1) / len)).foldl (fun data b => butterflies wlen len data (b * len)) data

namespace Numbers
variable (num : Numbers K)

/-- The angle 2π/len, negative for the forward transform. -/
def wlen (inverse : Bool) (len : Nat) : K := num.polar (if inverse then 2 / len else -(2 / len))

/-- The lengths are 2, 4, … up to `n`. -/
def fftCooleyTukey (data : Nat → K) (n : Nat) (inverse : Bool) : Nat → K :=
  let data := (List.range n.log2).foldl
    (fun data s => fftPass (num.wlen inverse (2 <<< s)) n (2 <<< s) data) (permute n data)
  if inverse then fun i => if i < n then data i / n else data i else data

/-- The transform of a vector. -/
def chunkFft (chunk : List K) (inverse : Bool) : List K :=
  (List.range chunk.length).map (num.fftCooleyTukey (fun i => chunk.getD i 0) chunk.length inverse)

/-- The copy of sync.cpp returns at once for at most one sample. -/
def fftInplace (v : List K) (inverse : Bool) : List K :=
  if v.length ≤ 1 then v else num.chunkFft v inverse

/-! ### Symbols -/

def ofdmTx (symbols : List K) (nFft cpLen : Nat) : List K :=
  (List.range ((symbols.length + nFft - 1) / nFft)).flatMap fun s =>
    let chunk := num.chunkFft (padTo 0 nFft (symbols.drop (s * nFft))) true
    chunk.drop (nFft - cpLen) ++ chunk

def ofdmRx (samples : List K) (nFft cpLen : Nat) : List K :=
  (List.range (samples.length / (nFft + cpLen))).flatMap fun s =>
    num.chunkFft ((samples.drop (s * (nFft + cpLen) + cpLen)).take nFft) false

def qpskModulate (bits : Bytes) : List K :=
  if bits.length % 2 ≠ 0 then []
  else (List.range (bits.length / 2)).map fun i =>
    num.qpsk (bits.getD (2 * i) 0 ≠ 0) (bits.getD (2 * i + 1) 0 ≠ 0)

def qpskDemodulate (symbols : List K) : Bytes :=
  symbols.flatMap fun s => [if (num.signs s).1 then 1 else 0, if (num.signs s).2 then 1 else 0]

def phyTx (bits : Bytes) (nFft cpLen : Nat) : List K := num.ofdmTx (num.qpskModulate bits) nFft cpLen

def phyRx (samples : List K) (nDataBits nFft cpLen : Nat) : Bytes :=
  let freq := num.ofdmRx samples nFft cpLen
  if freq.length < nDataBits / 2 then [] else num.qpskDemodulate (freq.take (nDataBits / 2))

def phyRxAuto (samples : List K) (nFft cpLen : Nat) : Bytes :=
  num.qpskDemodulate (num.ofdmRx samples nFft cpLen)

end Numbers

/-! ### What the loops compute -/

end

theorem and_two_pow_of_lt {x k : Nat} (h : x < 2 ^ k) : x &&& 2 ^ k = 0 := by
  rw [Nat.and_two_pow, Nat.testBit_lt_two_pow h]
  simp

theorem xor_two_pow_of_lt {x k : Nat} (h : x < 2 ^ k) : x ^^^ 2 ^ k = 2 ^ k + x := by
  have hpos : 0 < 2 ^ k := Nat.two_pow_pos k
  have hdiv : (x ^^^ 2 ^ k) / 2 ^ k = 1 := by
    rw [Nat.xor_div_two_pow, Nat.div_eq_of_lt h, Nat.div_self hpos]
    rfl
  have hmod : (x ^^^ 2 ^ k) % 2 ^ k = x := by
    rw [Nat.xor_mod_two_pow, Nat.mod_self, Nat.mod_eq_of_lt h, Nat.xor_zero]
  have hsplit := Nat.div_add_mod (x ^^^ 2 ^ k) (2 ^ k)
  rw [hdiv, hmod, mul_one] at hsplit
  exact hsplit.symm

/-- Clearing the top bit by exclusive or. -/
theorem add_xor_two_pow {x k : Nat} (h : x < 2 ^ k) : (2 ^ k + x) ^^^ 2 ^ k = x := by
  rw [← xor_two_pow_of_lt h, Nat.xor_assoc, Nat.xor_self, Nat.xor_zero]

theorem add_and_two_pow {x k : Nat} (h : x < 2 ^ k) : (2 ^ k + x) &&& 2 ^ k ≠ 0 := by
  rw [Nat.and_two_pow, Nat.testBit_two_pow_add_eq, Nat.testBit_lt_two_pow h]
  simp

/-- The reversed counter counts: the carry runs down from the highest bit. -/
theorem nextReversed_reverseBits {k i : Nat} (h : i + 1 < 2 ^ (k + 1)) :
    nextReversed (2 ^ k) (reverseBits (k + 1) i) = reverseBits (k + 1) (i + 1) := by
  induction k generalizing i with
  | zero =>
    obtain rfl : i = 0 := by omega
    rw [nextReversed]
    rfl
  | succ k ih =>
    rcases Nat.mod_two_eq_zero_or_one i with heven | hodd
    · obtain ⟨c, rfl⟩ : ∃ c, i = 2 * c := ⟨i / 2, by omega⟩
      have hlow := reverseBits_lt (k + 1) c
      rw [reverseBits_two_mul, reverseBits_two_mul_add_one, nextReversed, if_pos (and_two_pow_of_lt hlow),
        xor_two_pow_of_lt hlow]
    · obtain ⟨c, rfl⟩ : ∃ c, i = 2 * c + 1 := ⟨i / 2, by omega⟩
      have hlow := reverseBits_lt (k + 1) c
      have hnext : c + 1 < 2 ^ (k + 1) := by
        rw [pow_succ] at h
        omega
      have hbit : 2 ^ (k + 1) >>> 1 = 2 ^ k := by
        rw [Nat.shiftRight_one, pow_succ, Nat.mul_div_cancel _ two_pos]
      rw [reverseBits_two_mul_add_one, show 2 * c + 1 + 1 = 2 * (c + 1) by ring, reverseBits_two_mul, nextReversed,
        if_neg (add_and_two_pow hlow), add_xor_two_pow hlow, hbit, ih hnext]

section
variable {K : Type}

/-- The memory once the indices up to `c` are behind the loop: a pair is exchanged when the smaller
of its two is. -/
def permutedTo (k c : Nat) (data : Nat → K) (p : Nat) : K :=
  if p < 2 ^ k ∧ (p ≤ c ∨ reverseBits k p ≤ c) then data (reverseBits k p) else data p

/-- One turn of the loop carries the reversed counter and the swaps on. -/
theorem permuteStep_permutedTo {k c : Nat} (hc : c + 1 < 2 ^ (k + 1)) (data : Nat → K) :
    permuteStep (2 ^ (k + 1)) (permutedTo (k + 1) c data, reverseBits (k + 1) c) (c + 1) =
      (permutedTo (k + 1) (c + 1) data, reverseBits (k + 1) (c + 1)) := by
  have hhalf : 2 ^ (k + 1) >>> 1 = 2 ^ k := by
    rw [Nat.shiftRight_one, pow_succ, Nat.mul_div_cancel _ two_pos]
  have hback := reverseBits_reverseBits hc
  have hlt := reverseBits_lt (k + 1) (c + 1)
  rw [permuteStep, hhalf, nextReversed_reverseBits hc]
  refine Prod.ext ?_ rfl
  funext p
  dsimp only
  by_cases hp : p < 2 ^ (k + 1)
  · have hpback := reverseBits_reverseBits hp
    -- An index and its mirror are reached by the loop together, except at `c + 1` and its mirror.
    have hmirror : reverseBits (k + 1) p = c + 1 ↔ p = reverseBits (k + 1) (c + 1) := by
      constructor
      · intro h
        rw [← h, hpback]
      · intro h
        rw [h, hback]
    split
    · rename_i hswap
      rw [swapAt]
      split
      · rename_i hpi
        subst hpi
        rw [permutedTo, permutedTo, if_neg (by rw [hback]; omega), if_pos (by omega)]
      · split
        · rename_i _ hpj
          have hpi := hmirror.mpr hpj
          rw [permutedTo, permutedTo, if_neg (by omega), if_pos (by omega), hpi]
        · rename_i hpi hpj
          have hpr : reverseBits (k + 1) p ≠ c + 1 := fun h => hpj (hmirror.mp h)
          exact if_congr (by omega) rfl rfl
    · rename_i hswap
      by_cases hpi : p = c + 1
      · subst hpi
        have hdone : permutedTo (k + 1) (c + 1) data (c + 1) = data (reverseBits (k + 1) (c + 1)) :=
          if_pos ⟨hc, .inl le_rfl⟩
        rw [hdone, permutedTo]
        split
        · rfl
        · rw [show reverseBits (k + 1) (c + 1) = c + 1 by omega]
      · by_cases hpr : reverseBits (k + 1) p = c + 1
        · have hpj := hmirror.mp hpr
          rw [permutedTo, permutedTo, if_pos (by omega), if_pos (by omega)]
        · exact if_congr (by omega) rfl rfl
  · have hkeep : ∀ c', permutedTo (k + 1) c' data p = data p := fun c' => if_neg fun h => hp h.1
    split
    · rw [swapAt, if_neg (by omega), if_neg (by omega), hkeep, hkeep]
    · rw [hkeep, hkeep]

/-- The in-place permutation reads every entry at the reversed index. -/
theorem permute_eq (k : Nat) (data : Nat → K) {p : Nat} (hp : p < 2 ^ k) :
    permute (2 ^ k) data p = data (reverseBits k p) := by
  cases k with
  | zero =>
    obtain rfl : p = 0 := by simpa using hp
    rfl
  | succ k =>
    have hstart : permutedTo (k + 1) 0 data = data := by
      funext q
      rw [permutedTo]
      split
      · rename_i hq
        obtain ⟨hlt, hzero⟩ := hq
        have hq0 : q = 0 := by
          rcases hzero with hzero | hzero
          · omega
          · rw [← reverseBits_reverseBits hlt, Nat.le_zero.mp hzero, reverseBits_zero]
        rw [hq0, reverseBits_zero]
      · rfl
    have hloop : ∀ c < 2 ^ (k + 1), (List.range' 1 c).foldl (permuteStep (2 ^ (k + 1))) (data, 0) =
        (permutedTo (k + 1) c data, reverseBits (k + 1) c) := by
      intro c hc
      induction c with
      | zero => rw [hstart, reverseBits_zero]; rfl
      | succ c ih =>
        rw [List.range'_1_concat, List.foldl_append, ih (by omega), Nat.add_comm 1 c]
        exact permuteStep_permutedTo hc data
    have hpos : 0 < 2 ^ (k + 1) := Nat.two_pow_pos _
    rw [permute, hloop _ (by omega)]
    exact if_pos ⟨hp, .inl (by omega)⟩

/-- The entries that a block of a pass transforms: every `2 ^ r`-th, from the reversed number of
the block. -/
def blockEntries (x : Nat → K) (r b m : Nat) : K := x (m * 2 ^ r + reverseBits r b)

/-- The even entries of a block are the block of half the length below it. -/
theorem blockEntries_even (x : Nat → K) (r b : Nat) :
    (fun m => blockEntries x r b (2 * m)) = blockEntries x (r + 1) (2 * b) := by
  funext m
  rw [blockEntries, blockEntries, reverseBits_two_mul, pow_succ]
  congr 1
  ring

theorem blockEntries_odd (x : Nat → K) (r b : Nat) :
    (fun m => blockEntries x r b (2 * m + 1)) = blockEntries x (r + 1) (2 * b + 1) := by
  funext m
  rw [blockEntries, blockEntries, reverseBits_two_mul_add_one, pow_succ]
  congr 1
  ring

variable [Field K]

/-- What the loop over `j` has done after `c` turns. -/
theorem butterflies_loop (wlen : K) (half i : Nat) (data : Nat → K) {c : Nat} (hc : c ≤ half) :
    (List.range c).foldl (butterfly wlen half i) (data, 1) =
      (fun q => if i ≤ q ∧ q < i + c then data q + data (q + half) * wlen ^ (q - i)
        else if i + half ≤ q ∧ q < i + half + c then data (q - half) - data q * wlen ^ (q - half - i)
        else data q, wlen ^ c) := by
  induction c with
  | zero =>
    refine Prod.ext (funext fun q => ?_) (pow_zero _).symm
    exact ((if_neg (by omega)).trans (if_neg (by omega))).symm
  | succ c ih =>
    rw [List.range_succ, List.foldl_append, ih (by omega), List.foldl_cons, List.foldl_nil, butterfly]
    have hupper : ¬(i ≤ i + c ∧ i + c < i + c) := by omega
    have hupper' : ¬(i + half ≤ i + c ∧ i + c < i + half + c) := by omega
    have hlower : ¬(i ≤ i + c + half ∧ i + c + half < i + c) := by omega
    have hlower' : ¬(i + half ≤ i + c + half ∧ i + c + half < i + half + c) := by omega
    refine Prod.ext (funext fun q => ?_) (pow_succ _ _).symm
    dsimp only
    rw [if_neg hupper, if_neg hupper', if_neg hlower, if_neg hlower']
    by_cases hq : q = i + c + half
    · rw [if_pos hq, if_neg (by omega), if_pos (by omega), hq, Nat.add_sub_cancel, Nat.add_sub_cancel_left]
    · rw [if_neg hq]
      by_cases hq' : q = i + c
      · rw [if_pos hq', if_pos (by omega), hq', Nat.add_sub_cancel_left]
      · rw [if_neg hq']
        exact if_congr (by omega) rfl (if_congr (by omega) rfl rfl)

/-- The values a pass leaves in a block. -/
def joined (wlen : K) (half : Nat) (data : Nat → K) (q : Nat) : K :=
  if q % (2 * half) < half then data q + data (q + half) * wlen ^ (q % (2 * half))
  else data (q - half) - data q * wlen ^ (q % (2 * half) - half)

/-- The butterflies of one block write that block and nothing else. -/
theorem butterflies_eq (wlen : K) (half b : Nat) (data : Nat → K) (q : Nat) :
    butterflies wlen (2 * half) data (b * (2 * half)) q =
      if b * (2 * half) ≤ q ∧ q < (b + 1) * (2 * half) then joined wlen half data q else data q := by
  have hnext : (b + 1) * (2 * half) = b * (2 * half) + 2 * half := Nat.succ_mul _ _
  rw [butterflies, Nat.mul_div_cancel_left half two_pos, butterflies_loop wlen half _ data le_rfl, hnext]
  dsimp only
  by_cases hin : b * (2 * half) ≤ q ∧ q < b * (2 * half) + 2 * half
  · have hmod : q % (2 * half) = q - b * (2 * half) := by
      obtain ⟨p, rfl⟩ := Nat.exists_eq_add_of_le hin.1
      rw [Nat.mul_add_mod', Nat.mod_eq_of_lt (by omega), Nat.add_sub_cancel_left]
    rw [if_pos hin, joined, hmod]
    by_cases hfirst : q - b * (2 * half) < half
    · rw [if_pos (by omega), if_pos hfirst]
    · rw [if_neg (by omega), if_pos (by omega), if_neg hfirst, Nat.sub_right_comm q half]
  · rw [if_neg hin, if_neg (by omega), if_neg (by omega)]

/-- A pass over whole blocks. -/
theorem fftPass_eq (wlen : K) {half count : Nat} (hhalf : 0 < half) (data : Nat → K) {q : Nat}
    (hq : q < count * (2 * half)) :
    fftPass wlen (count * (2 * half)) (2 * half) data q = joined wlen half data q := by
  have hloop : ∀ c, ∀ q, (List.range c).foldl
      (fun data b => butterflies wlen (2 * half) data (b * (2 * half))) data q =
        if q < c * (2 * half) then joined wlen half data q else data q := by
    intro c
    induction c with
    | zero =>
      intro q
      rw [Nat.zero_mul, if_neg (Nat.not_lt_zero q)]
      rfl
    | succ c ih =>
      intro q
      have hnext : (c + 1) * (2 * half) = c * (2 * half) + 2 * half := Nat.succ_mul _ _
      rw [List.range_succ, List.foldl_append, List.foldl_cons, List.foldl_nil, butterflies_eq, ih]
      by_cases hdone : q < c * (2 * half)
      · rw [if_neg (by omega), if_pos hdone, if_pos (by omega)]
      · by_cases hhere : q < (c + 1) * (2 * half)
        · have hmod : q % (2 * half) = q - c * (2 * half) := by
            obtain ⟨p, rfl⟩ := Nat.exists_eq_add_of_le (Nat.le_of_not_lt hdone)
            rw [Nat.mul_add_mod', Nat.mod_eq_of_lt (by omega), Nat.add_sub_cancel_left]
          rw [if_pos ⟨Nat.le_of_not_lt hdone, hhere⟩, if_pos hhere, joined, joined]
          -- The block's own entries are still what they were.
          split
          · rw [ih, ih, if_neg (by omega), if_neg (by omega)]
          · rw [ih, ih, if_neg (by omega), if_neg (by omega)]
        · rw [if_neg (by omega), if_neg hdone, if_neg hhere]
  have hcount : (count * (2 * half) + 2 * half - 1) / (2 * half) = count := by
    rw [show count * (2 * half) + 2 * half - 1 = 2 * half * count + (2 * half - 1) by
        rw [Nat.mul_comm (2 * half) count]; omega,
      Nat.mul_add_div (by omega), Nat.div_eq_of_lt (by omega), Nat.add_zero]
  rw [fftPass, hcount, hloop, if_pos hq]

/-- The invariant of the passes: every block holds the transform of its entries. -/
theorem passes_eq {ω : Nat → K} (tower : Tower ω) (x : Nat → K) {k s r b p : Nat} (hk : s + r = k)
    (hb : b < 2 ^ r) (hp : p < 2 ^ s) :
    (List.range s).foldl (fun data s => fftPass (ω (s + 1)) (2 ^ k) (2 <<< s) data) (permute (2 ^ k) x)
      (b * 2 ^ s + p) = dft (ω s) (2 ^ s) (blockEntries x r b) p := by
  induction s generalizing r b p with
  | zero =>
    obtain rfl : p = 0 := by simpa using hp
    obtain rfl : r = k := by omega
    rw [List.range_zero, List.foldl_nil, pow_zero, mul_one, Nat.add_zero, permute_eq r x hb, dft]
    simp [blockEntries]
  | succ s ih =>
    have hlen : 2 <<< s = 2 * 2 ^ s := by rw [Nat.shiftLeft_eq]
    have hwhole : 2 ^ k = 2 ^ r * (2 * 2 ^ s) := by
      rw [← hk, pow_add, pow_succ]
      ring
    have hpos : 0 < 2 ^ s := Nat.two_pow_pos s
    have hplace : b * 2 ^ (s + 1) + p < 2 ^ r * (2 * 2 ^ s) := by
      have hlast : (b + 1) * (2 * 2 ^ s) ≤ 2 ^ r * (2 * 2 ^ s) := Nat.mul_le_mul_right _ hb
      rw [Nat.succ_mul] at hlast
      rw [pow_succ] at hp ⊢
      rw [Nat.mul_comm (2 ^ s)] at hp ⊢
      omega
    have hr : s + (r + 1) = k := by omega
    have hsecond : 2 * b + 1 < 2 ^ (r + 1) := by
      rw [pow_succ]
      omega
    have hfirst : 2 * b < 2 ^ (r + 1) := by omega
    rw [List.range_succ, List.foldl_append, List.foldl_cons, List.foldl_nil, hlen, hwhole, fftPass_eq _ hpos _ hplace,
      ← hwhole, joined]
    have hmod : (b * 2 ^ (s + 1) + p) % (2 * 2 ^ s) = p := by
      rw [← pow_succ', Nat.mul_add_mod', Nat.mod_eq_of_lt hp]
    rw [hmod]
    split
    · rename_i hupper
      have heven : b * 2 ^ (s + 1) + p = 2 * b * 2 ^ s + p := by ring
      have hodd : b * 2 ^ (s + 1) + p + 2 ^ s = (2 * b + 1) * 2 ^ s + p := by ring
      rw [hodd, heven, ih hr hfirst hupper, ih hr hsecond hupper, pow_succ', ← blockEntries_even,
        ← blockEntries_odd]
      exact (dft_upper p (tower.square s)).symm
    · rename_i hlower
      obtain ⟨p, rfl⟩ := Nat.exists_eq_add_of_le' (Nat.le_of_not_lt hlower)
      have hp' : p < 2 ^ s := by
        rw [pow_succ] at hp
        omega
      have heven : b * 2 ^ (s + 1) + (p + 2 ^ s) - 2 ^ s = 2 * b * 2 ^ s + p := by
        rw [← Nat.add_assoc, Nat.add_sub_cancel]
        ring
      have hodd : b * 2 ^ (s + 1) + (p + 2 ^ s) = (2 * b + 1) * 2 ^ s + p := by ring
      rw [heven, hodd, ih hr hfirst hp', ih hr hsecond hp', Nat.add_sub_cancel, pow_succ' 2 s,
        ← blockEntries_even, ← blockEntries_odd]
      exact (dft_lower p (tower.square s) (tower.half s)).symm

namespace Numbers
variable {num : Numbers K}

theorem Lawful.polar_zero (h : num.Lawful) : num.polar 0 = 1 := by
  have hone := h.polar_add 0 1
  rw [zero_add, h.polar_one] at hone
  linear_combination hone

theorem Lawful.polar_neg (h : num.Lawful) (t : ℚ) : num.polar (-t) = (num.polar t)⁻¹ := by
  refine eq_inv_of_mul_eq_one_left ?_
  rw [← h.polar_add, neg_add_cancel, h.polar_zero]

/-- The twiddles of every stage are roots of unity of its length. -/
theorem Lawful.tower (h : num.Lawful) (inverse : Bool) : Tower fun s => num.wlen inverse (2 ^ s) := by
  have hroots : Tower fun s => num.polar (2 / (2 ^ s : Nat)) := by
    refine ⟨fun s => ?_, ?_⟩
    · rw [sq, ← h.polar_add]
      congr 1
      push_cast
      rw [pow_succ]
      field_simp
      ring
    · simpa using h.polar_one
  cases inverse
  · have hinv : (fun s => num.wlen false (2 ^ s)) = fun s => (num.polar (2 / (2 ^ s : Nat)))⁻¹ :=
      funext fun s => h.polar_neg _
    rw [hinv]
    exact hroots.inv
  · exact hroots

/-- The inverse transform turns the other way. -/
theorem wlen_true (h : num.Lawful) (len : Nat) : num.wlen true len = (num.wlen false len)⁻¹ := by
  rw [wlen, wlen, if_pos rfl, if_neg (by decide), h.polar_neg, inv_inv]

/-- The transform of the code is the discrete Fourier transform, the inverse one with its factor. -/
theorem fftCooleyTukey_eq (h : num.Lawful) (x : Nat → K) (k : Nat) (inverse : Bool) {q : Nat} (hq : q < 2 ^ k) :
    num.fftCooleyTukey x (2 ^ k) inverse q =
      if inverse then dft (num.wlen inverse (2 ^ k)) (2 ^ k) x q / (2 ^ k : Nat)
      else dft (num.wlen inverse (2 ^ k)) (2 ^ k) x q := by
  have hpasses : (List.range (2 ^ k).log2).foldl
      (fun data s => fftPass (num.wlen inverse (2 <<< s)) (2 ^ k) (2 <<< s) data) (permute (2 ^ k) x) q =
        dft (num.wlen inverse (2 ^ k)) (2 ^ k) x q := by
    have hentries : blockEntries x 0 0 = x := by
      funext m
      rw [blockEntries, pow_zero, mul_one, reverseBits_zero, Nat.add_zero]
    have hwlen : ∀ s, num.wlen inverse (2 <<< s) = num.wlen inverse (2 ^ (s + 1)) := by
      intro s
      rw [Nat.shiftLeft_eq, pow_succ']
    have hall := passes_eq (h.tower inverse) x (Nat.add_zero k) Nat.one_pos hq
    rw [Nat.zero_mul, Nat.zero_add, hentries] at hall
    simp only [Nat.log2_two_pow, hwlen]
    exact hall
  rw [fftCooleyTukey]
  cases inverse
  · exact hpasses
  · simp only [if_true, if_pos hq, hpasses]

variable (num) in
@[simp] theorem length_chunkFft (v : List K) (inverse : Bool) : (num.chunkFft v inverse).length = v.length := by
  rw [chunkFft, List.length_map, List.length_range]

variable (num) in
/-- A transform of a list is the transform of its entries. -/
theorem getD_chunkFft (v : List K) (inverse : Bool) {q : Nat} (hq : q < v.length) :
    (num.chunkFft v inverse).getD q 0 = num.fftCooleyTukey (fun i => v.getD i 0) v.length inverse q := by
  rw [chunkFft, List.getD_eq_getElem _ _ (by simpa using hq), List.getElem_map, List.getElem_range]

variable (num) in
/-- For one sample both copies do nothing. -/
theorem fftInplace_eq (h : num.Lawful) {v : List K} {k : Nat} (hk : v.length = 2 ^ k) (inverse : Bool) :
    num.fftInplace v inverse = num.chunkFft v inverse := by
  rw [fftInplace]
  split
  · rename_i hone
    have hlen : v.length = 1 := Nat.le_antisymm hone (hk ▸ Nat.one_le_two_pow)
    obtain ⟨a, rfl⟩ := List.length_eq_one_iff.mp hlen
    have hvalue := fftCooleyTukey_eq h (fun i => [a].getD i 0) 0 inverse Nat.one_pos
    have hdft : dft (num.wlen inverse (2 ^ 0)) (2 ^ 0) (fun i => [a].getD i 0) 0 = a := by
      simp [dft]
    rw [hdft, pow_zero, Nat.cast_one, div_one, ite_self] at hvalue
    rw [chunkFft]
    exact congrArg (fun b => [b]) hvalue.symm
  · rfl

/-- The transforms undo each other. -/
theorem chunkFft_chunkFft (h : num.Lawful) {v : List K} {k : Nat} (hk : v.length = 2 ^ k) (inverse : Bool) :
    num.chunkFft (num.chunkFft v inverse) (!inverse) = v := by
  have htwo : ((2 ^ k : Nat) : K) ≠ 0 := by
    push_cast
    exact pow_ne_zero k h.two_ne_zero
  have hroot : num.wlen (!inverse) (2 ^ k) = (num.wlen inverse (2 ^ k))⁻¹ := by
    cases inverse
    · exact wlen_true h _
    · exact ((inv_eq_iff_eq_inv).mpr (wlen_true h _)).symm
  have hentry : ∀ (u : List K) (b : Bool), u.length = 2 ^ k → ∀ q < 2 ^ k, (num.chunkFft u b).getD q 0 =
      if b then dft (num.wlen b (2 ^ k)) (2 ^ k) (fun i => u.getD i 0) q / (2 ^ k : Nat)
      else dft (num.wlen b (2 ^ k)) (2 ^ k) (fun i => u.getD i 0) q := by
    intro u b hu q hq
    rw [getD_chunkFft num u b (hu ▸ hq), hu, fftCooleyTukey_eq h _ k b hq]
  have hgetD : ∀ q < 2 ^ k, (num.chunkFft (num.chunkFft v inverse) (!inverse)).getD q 0 = v.getD q 0 := by
    intro q hq
    have hback := dft_inverse (x := fun i => v.getD i 0) ((h.tower inverse).isPrimitiveRoot h.two_ne_zero k) hq
    rw [hentry _ _ ((length_chunkFft num v inverse).trans hk) q hq, hroot,
      dft_congr (hentry v inverse hk) q]
    cases inverse
    · simp only [Bool.not_false, if_true, Bool.false_eq_true, if_false]
      rw [hback, mul_div_cancel_left₀ _ htwo]
    · simp only [Bool.not_true, if_true, Bool.false_eq_true, if_false, div_eq_inv_mul]
      rw [dft_mul, hback, inv_mul_cancel_left₀ htwo]
  refine List.ext_getElem (by simp) fun q hleft hright => ?_
  rw [← List.getD_eq_getElem _ 0 hleft, ← List.getD_eq_getElem _ 0 hright]
  exact hgetD q (hk ▸ hright)

end Numbers

end

end AetherStack.Source
