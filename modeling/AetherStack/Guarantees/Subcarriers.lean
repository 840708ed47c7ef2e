import Mathlib.Analysis.SpecialFunctions.Complex.Circle
import Mathlib.Analysis.SpecialFunctions.Trigonometric.Bounds
import AetherStack.Guarantees.GrayMapping
import AetherStack.Source.Ofdm

/-!
# Subcarriers are kept

The transform in place is the discrete Fourier transform for every power of two, and forward and
inverse undo each other. What the OFDM transmitter makes of symbols, and of bits, the receiver
turns back. The norm and the rounding of the mapper are here with the other exact numbers.
-/
namespace AetherStack.Guarantees
open Lib Source

namespace BurstChannel

/-- `pam_norm`. -/
noncomputable def pamNorm (bps : Nat) : ℝ := Real.sqrt (3 / (2 * ((2 ^ (bps / 2)) ^ 2 - 1)))

/-- Halves go away from zero. -/
noncomputable def lround (a : ℝ) : Int := if 0 ≤ a then ⌊a + 1 / 2⌋ else ⌈a - 1 / 2⌉

theorem lround_intCast (level : Int) : lround level = level := by
  rw [lround]
  split
  · rw [Int.floor_eq_iff]
    constructor <;> linarith
  · rw [Int.ceil_eq_iff]
    constructor <;> linarith

/-- There is a norm to divide by. -/
theorem pamNorm_pos {bps : Nat} (h : 2 ≤ bps) : 0 < pamNorm bps := by
  have hlevels : (2 : ℝ) ≤ 2 ^ (bps / 2) := by
    calc (2 : ℝ) = 2 ^ 1 := (pow_one _).symm
      _ ≤ 2 ^ (bps / 2) := pow_le_pow_right₀ one_le_two (by omega)
  refine Real.sqrt_pos.mpr (div_pos three_pos ?_)
  nlinarith

end BurstChannel

namespace Subcarriers

/-- Exact numbers: exp(jπt), and 1e-6 for the comparison of the equaliser. -/
noncomputable def exactNumbers : Numbers ℂ where
  polar t := Complex.exp (Real.pi * (t : ℝ) * Complex.I)
  qpsk i q := ⟨(if i then -1 else 1) / Real.sqrt 2, (if q then -1 else 1) / Real.sqrt 2⟩
  signs z := (decide (z.re < 0), decide (z.im < 0))
  strong z := decide (1 / 1000000 < Complex.normSq z)

/-- The exact numbers have the roots of unity and the square root that the code asks for. -/
theorem exactNumbers_lawful : exactNumbers.Lawful where
  polar_add s t := by
    show Complex.exp _ = Complex.exp _ * Complex.exp _
    rw [← Complex.exp_add]
    congr 1
    push_cast
    ring
  polar_one := by
    show Complex.exp _ = -1
    rw [Rat.cast_one, Complex.ofReal_one, mul_one, Complex.exp_pi_mul_I]
  qpsk_ne_zero i q h := by
    have hre : (if i then -1 else 1) / Real.sqrt 2 = (0 : ℝ) := congrArg Complex.re h
    cases i <;> simp at hre
  signs_qpsk i q := by
    have hsqrt : 0 < Real.sqrt 2 := Real.sqrt_pos.mpr two_pos
    have hsign : ∀ b : Bool, decide ((if b then -1 else 1) / Real.sqrt 2 < 0) = b := by
      intro b
      cases b
      · simp only [Bool.false_eq_true, if_false, decide_eq_false_iff_not, not_lt]
        positivity
      · simp only [if_true, decide_eq_true_eq]
        exact div_neg_of_neg_of_pos (by norm_num) hsqrt
    exact Prod.ext (hsign i) (hsign q)
  signs_zero := by simp [exactNumbers]
  strong_zero := by
    show decide (1 / 1000000 < Complex.normSq 0) = false
    norm_num
  two_ne_zero := two_ne_zero

section
variable {K : Type} [Field K] {num : Numbers K} (h : num.Lawful)
include h

/-- One OFDM symbol on its way: the prefix is the end of the symbol, and the receiver skips it. -/
theorem ofdmRx_ofdmTx {k cpLen : Nat} (hcp : cpLen ≤ 2 ^ k) (symbols : List K) :
    num.ofdmRx (num.ofdmTx symbols (2 ^ k) cpLen) (2 ^ k) cpLen =
      padTo 0 ((symbols.length + 2 ^ k - 1) / 2 ^ k * 2 ^ k) symbols := by
  have hpos : 0 < 2 ^ k := Nat.two_pow_pos k
  have hchunk : ∀ s, (num.chunkFft (padTo 0 (2 ^ k) (symbols.drop (s * 2 ^ k))) true).length = 2 ^ k := by
    intro s
    rw [Numbers.length_chunkFft, length_padTo]
  have hpiece : ∀ s ∈ List.range ((symbols.length + 2 ^ k - 1) / 2 ^ k),
      ((num.chunkFft (padTo 0 (2 ^ k) (symbols.drop (s * 2 ^ k))) true).drop (2 ^ k - cpLen) ++
        num.chunkFft (padTo 0 (2 ^ k) (symbols.drop (s * 2 ^ k))) true).length = 2 ^ k + cpLen := by
    intro s _
    rw [List.length_append, List.length_drop, hchunk]
    omega
  have hcount : (num.ofdmTx symbols (2 ^ k) cpLen).length / (2 ^ k + cpLen) =
      (symbols.length + 2 ^ k - 1) / 2 ^ k := by
    rw [Numbers.ofdmTx, length_flatMap_pieces hpiece, List.length_range, Nat.mul_div_cancel _ (by omega)]
  rw [Numbers.ofdmRx, hcount, ← flatMap_padTo]
  refine List.flatMap_congr fun s hs => ?_
  have hbody : ((num.ofdmTx symbols (2 ^ k) cpLen).drop (s * (2 ^ k + cpLen) + cpLen)).take (2 ^ k) =
      num.chunkFft (padTo 0 (2 ^ k) (symbols.drop (s * 2 ^ k))) true := by
    have hlt : s < (List.range ((symbols.length + 2 ^ k - 1) / 2 ^ k)).length := by
      rw [List.length_range]
      exact List.mem_range.mp hs
    have hprefix : ((num.chunkFft (padTo 0 (2 ^ k) (symbols.drop (s * 2 ^ k))) true).drop (2 ^ k - cpLen)).length =
        cpLen := by
      rw [List.length_drop, hchunk]
      omega
    rw [Numbers.ofdmTx, take_drop_flatMap_pieces hpiece hlt (by omega), List.getElem_range, List.drop_left' hprefix,
      List.take_of_length_le (hchunk s).le]
  rw [hbody]
  exact Numbers.chunkFft_chunkFft h (length_padTo 0 (2 ^ k) _) true

theorem qpskDemodulate_qpskModulate {bits : Bytes} (hbits : BitList bits) (heven : bits.length % 2 = 0) :
    num.qpskDemodulate (num.qpskModulate bits) = bits := by
  have hbit : ∀ i, (if decide (bits.getD i 0 ≠ 0) then 1 else 0) = bits.getD i 0 := by
    intro i
    rcases Nat.lt_or_ge i bits.length with hi | hi
    · rw [List.getD_eq_getElem _ _ hi]
      rcases hbits _ (List.getElem_mem hi) with hzero | hone
      · rw [hzero]; rfl
      · rw [hone]; rfl
    · rw [List.getD_eq_default _ _ hi]; rfl
  have hpair : ∀ i < bits.length / 2, [bits.getD (2 * i) 0, bits.getD (2 * i + 1) 0] = (bits.drop (i * 2)).take 2 := by
    intro i hi
    have hfirst : i * 2 < bits.length := by omega
    have hsecond : i * 2 + 1 < bits.length := by omega
    rw [List.drop_eq_getElem_cons hfirst, List.drop_eq_getElem_cons hsecond, Nat.mul_comm 2 i,
      List.getD_eq_getElem _ _ hfirst, List.getD_eq_getElem _ _ hsecond]
    rfl
  rw [Numbers.qpskModulate, if_neg (by omega), Numbers.qpskDemodulate, List.flatMap_map]
  refine (List.flatMap_congr fun i hi => ?_).trans (GrayMapping.flatMap_rows 2 (bits.length / 2) bits (by omega))
  rw [h.signs_qpsk, ← hpair i (List.mem_range.mp hi), hbit, hbit]

theorem qpskDemodulate_zeros (n : Nat) :
    num.qpskDemodulate (List.replicate n 0) = List.replicate (2 * n) 0 := by
  induction n with
  | zero => rfl
  | succ n ih =>
    rw [List.replicate_succ, Numbers.qpskDemodulate, List.flatMap_cons, h.signs_zero]
    exact congrArg ([0, 0] ++ ·) ih

end

end Subcarriers

open Subcarriers

/-- The transform of the code, forward and inverse, is the discrete Fourier transform with and
without its factor, and each undoes the other. -/
theorem fft_is_fourier {v : List ℂ} {k : Nat} (hk : v.length = 2 ^ k) :
    (∀ q < 2 ^ k, (exactNumbers.fftInplace v false).getD q 0 =
      ∑ m ∈ Finset.range (2 ^ k), v.getD m 0 * Complex.exp (-(2 * Real.pi * Complex.I * (m * q / 2 ^ k)))) ∧
    (∀ q < 2 ^ k, (exactNumbers.fftInplace v true).getD q 0 =
      (∑ m ∈ Finset.range (2 ^ k), v.getD m 0 * Complex.exp (2 * Real.pi * Complex.I * (m * q / 2 ^ k))) / 2 ^ k) ∧
    ∀ inverse, exactNumbers.fftInplace (exactNumbers.fftInplace v inverse) (!inverse) = v := by
  have hpower : ∀ m q : Nat, exactNumbers.wlen true (2 ^ k) ^ (m * q) =
      Complex.exp (2 * Real.pi * Complex.I * (m * q / 2 ^ k)) := by
    intro m q
    have hwlen : exactNumbers.wlen true (2 ^ k) =
        Complex.exp (Real.pi * ((2 / (2 ^ k : Nat) : ℚ) : ℝ) * Complex.I) := rfl
    rw [hwlen, ← Complex.exp_nat_mul]
    congr 1
    push_cast
    ring
  have hinverse : ∀ m q : Nat, exactNumbers.wlen false (2 ^ k) ^ (m * q) =
      Complex.exp (-(2 * Real.pi * Complex.I * (m * q / 2 ^ k))) := by
    intro m q
    rw [Complex.exp_neg, ← hpower, Numbers.wlen_true exactNumbers_lawful, inv_pow, inv_inv]
  have hentry : ∀ inverse, ∀ q < 2 ^ k, (exactNumbers.fftInplace v inverse).getD q 0 =
      if inverse then dft (exactNumbers.wlen inverse (2 ^ k)) (2 ^ k) (fun i => v.getD i 0) q / (2 ^ k : Nat)
      else dft (exactNumbers.wlen inverse (2 ^ k)) (2 ^ k) (fun i => v.getD i 0) q := by
    intro inverse q hq
    rw [Numbers.fftInplace_eq _ exactNumbers_lawful hk, Numbers.getD_chunkFft _ _ _ (hk ▸ hq), hk,
      Numbers.fftCooleyTukey_eq exactNumbers_lawful _ k inverse hq]
  refine ⟨fun q hq => ?_, fun q hq => ?_, fun inverse => ?_⟩
  · rw [hentry false q hq, if_neg (by decide), dft]
    simp only [hinverse]
  · rw [hentry true q hq, if_pos rfl, dft]
    simp only [hpower]
    push_cast
    rfl
  · rw [Numbers.fftInplace_eq _ exactNumbers_lawful hk,
      Numbers.fftInplace_eq _ exactNumbers_lawful ((Numbers.length_chunkFft _ _ _).trans hk)]
    exact Numbers.chunkFft_chunkFft exactNumbers_lawful hk inverse

/-- Eight samples. -/
theorem fft_is_fourier_eight :
    exactNumbers.fftInplace (exactNumbers.fftInplace [1, 2, 3, 4, 5, 6, 7, 8] true) false =
      [1, 2, 3, 4, 5, 6, 7, 8] :=
  (fft_is_fourier (k := 3) rfl).2.2 true

/-- Symbols come back with the last OFDM symbol filled up by zeros, for every transform size that
is a power of two and every prefix that fits; bits come back, and with automatic detection
followed by zeros. An odd number of bits is not sent. -/
theorem ofdm_round_trip {k cpLen : Nat} (hcp : cpLen ≤ 2 ^ k) :
    (∀ symbols : List ℂ, exactNumbers.ofdmRx (exactNumbers.ofdmTx symbols (2 ^ k) cpLen) (2 ^ k) cpLen =
      padTo 0 ((symbols.length + 2 ^ k - 1) / 2 ^ k * 2 ^ k) symbols) ∧
    ∀ bits : Bytes, BitList bits →
      exactNumbers.phyRx (exactNumbers.phyTx bits (2 ^ k) cpLen) bits.length (2 ^ k) cpLen =
        (if bits.length % 2 = 0 then bits else []) ∧
      ∃ n, exactNumbers.phyRxAuto (exactNumbers.phyTx bits (2 ^ k) cpLen) (2 ^ k) cpLen =
        (if bits.length % 2 = 0 then bits else []) ++ List.replicate n 0 := by
  have hround := fun symbols => ofdmRx_ofdmTx exactNumbers_lawful hcp symbols
  refine ⟨hround, fun bits hbits => ?_⟩
  have hpos : 0 < 2 ^ k := Nat.two_pow_pos k
  by_cases heven : bits.length % 2 = 0
  · have hlen : (exactNumbers.qpskModulate bits).length = bits.length / 2 := by
      rw [Numbers.qpskModulate, if_neg (by omega), List.length_map, List.length_range]
    have hroom : (exactNumbers.qpskModulate bits).length ≤
        ((exactNumbers.qpskModulate bits).length + 2 ^ k - 1) / 2 ^ k * 2 ^ k := by
      have hsplit := Nat.div_add_mod' ((exactNumbers.qpskModulate bits).length + 2 ^ k - 1) (2 ^ k)
      have hrest := Nat.mod_lt ((exactNumbers.qpskModulate bits).length + 2 ^ k - 1) hpos
      omega
    rw [if_pos heven]
    constructor
    · rw [Numbers.phyRx, Numbers.phyTx, hround, padTo_of_length_le 0 hroom]
      rw [if_neg (by rw [List.length_append, hlen]; omega), List.take_append_of_le_length hlen.ge,
        List.take_of_length_le hlen.le, qpskDemodulate_qpskModulate exactNumbers_lawful hbits heven]
    · refine ⟨2 * (((exactNumbers.qpskModulate bits).length + 2 ^ k - 1) / 2 ^ k * 2 ^ k -
        (exactNumbers.qpskModulate bits).length), ?_⟩
      rw [Numbers.phyRxAuto, Numbers.phyTx, hround, padTo_of_length_le 0 hroom, Numbers.qpskDemodulate,
        List.flatMap_append]
      exact congrArg₂ (· ++ ·) (qpskDemodulate_qpskModulate exactNumbers_lawful hbits heven)
        (qpskDemodulate_zeros exactNumbers_lawful _)
  · have hnone : exactNumbers.qpskModulate bits = [] := if_pos heven
    have hempty : exactNumbers.ofdmRx (exactNumbers.phyTx bits (2 ^ k) cpLen) (2 ^ k) cpLen = [] := by
      rw [Numbers.phyTx, hnone, hround, List.length_nil, Nat.zero_add, Nat.div_eq_of_lt (by omega), Nat.zero_mul]
      rfl
    rw [if_neg heven]
    constructor
    · rw [Numbers.phyRx, hempty, List.take_nil]
      exact ite_self _
    · exact ⟨0, by rw [Numbers.phyRxAuto, hempty]; rfl⟩

/-- Ten bits on four subcarriers. -/
theorem ofdm_round_trip_ten_bits :
    exactNumbers.phyRx (exactNumbers.phyTx [1, 0, 0, 1, 1, 1, 0, 0, 1, 0] 4 1) 10 4 1 =
      [1, 0, 0, 1, 1, 1, 0, 0, 1, 0] :=
  ((ofdm_round_trip (k := 2) (by decide)).2 [1, 0, 0, 1, 1, 1, 0, 0, 1, 0] (by simp [BitList])).1

end AetherStack.Guarantees
