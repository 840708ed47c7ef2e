import Mathlib.Algebra.BigOperators.Intervals
import Mathlib.Algebra.BigOperators.Field
import Mathlib.RingTheory.RootsOfUnity.PrimitiveRoots
import Mathlib.Tactic

/-!
# The discrete Fourier transform

Indices with their bits reversed, the transform of a sequence at a root of unity, and its
rules: the two halves that a butterfly joins, the delay, and the inverse. A `Tower` is a chain of
roots of unity of the orders 1, 2, 4, …, which is what a radix-2 transform uses.
-/
namespace AetherStack.Lib

/-! ### Reversed indices -/

/-- The `k` low bits of `n` in the opposite order. -/
def reverseBits : Nat → Nat → Nat
  | 0, _ => 0
  | k + 1, n => n % 2 * 2 ^ k + reverseBits k (n / 2)

theorem reverseBits_lt (k n : Nat) : reverseBits k n < 2 ^ k := by
  induction k generalizing n with
  | zero => exact Nat.one_pos
  | succ k ih =>
    have hrest := ih (n / 2)
    have hbit : n % 2 * 2 ^ k ≤ 1 * 2 ^ k := Nat.mul_le_mul_right _ (by omega)
    rw [reverseBits, pow_succ]
    omega

/-- An even index has its half reversed, in the lower half. -/
theorem reverseBits_two_mul (k n : Nat) : reverseBits (k + 1) (2 * n) = reverseBits k n := by
  rw [reverseBits, Nat.mul_mod_right, Nat.mul_div_cancel_left n two_pos, zero_mul, zero_add]

theorem reverseBits_two_mul_add_one (k n : Nat) :
    reverseBits (k + 1) (2 * n + 1) = 2 ^ k + reverseBits k n := by
  rw [reverseBits, show (2 * n + 1) % 2 = 1 by omega, show (2 * n + 1) / 2 = n by omega, one_mul]

@[simp] theorem reverseBits_zero (k : Nat) : reverseBits k 0 = 0 := by
  induction k with
  | zero => rfl
  | succ k ih => exact (reverseBits_two_mul k 0).trans ih

/-- The highest bit becomes the lowest. -/
theorem reverseBits_high {k b : Nat} (a : Nat) (hb : b < 2 ^ k) (ha : a < 2) :
    reverseBits (k + 1) (a * 2 ^ k + b) = 2 * reverseBits k b + a := by
  induction k generalizing b with
  | zero =>
    obtain rfl : b = 0 := by simpa using hb
    simp [reverseBits, Nat.mod_eq_of_lt ha]
  | succ k ih =>
    have hshift : a * 2 ^ (k + 1) = 2 * (a * 2 ^ k) := by ring
    have hmod : (a * 2 ^ (k + 1) + b) % 2 = b % 2 := by omega
    have hdiv : (a * 2 ^ (k + 1) + b) / 2 = a * 2 ^ k + b / 2 := by omega
    have hhalf : b / 2 < 2 ^ k := by
      rw [pow_succ] at hb
      omega
    rw [reverseBits, hmod, hdiv, ih hhalf, reverseBits, pow_succ]
    ring

/-- Reversing twice gives the index back. -/
theorem reverseBits_reverseBits {k n : Nat} (h : n < 2 ^ k) : reverseBits k (reverseBits k n) = n := by
  induction k generalizing n with
  | zero =>
    rw [pow_zero, Nat.lt_one_iff] at h
    exact h.symm
  | succ k ih =>
    have hhalf : n / 2 < 2 ^ k := by
      rw [pow_succ] at h
      omega
    rw [reverseBits.eq_2 n k, reverseBits_high _ (reverseBits_lt k _) (Nat.mod_lt _ two_pos), ih hhalf]
    omega

/-! ### Transforms -/

section
variable {K : Type*} [Field K]

/-- The transform of the first `n` entries of `x`, at the frequency `q`. -/
def dft (ω : K) (n : Nat) (x : Nat → K) (q : Nat) : K := ∑ m ∈ Finset.range n, x m * ω ^ (m * q)

variable {ω : K} {n : Nat} {x y : Nat → K}

/-- The transform reads the first `n` values. -/
theorem dft_congr (h : ∀ m < n, x m = y m) (q : Nat) : dft ω n x q = dft ω n y q :=
  Finset.sum_congr rfl fun m hm => by rw [h m (Finset.mem_range.mp hm)]

theorem dft_add (x y : Nat → K) (q : Nat) : dft ω n (fun m => x m + y m) q = dft ω n x q + dft ω n y q := by
  rw [dft, dft, dft, ← Finset.sum_add_distrib]
  exact Finset.sum_congr rfl fun m _ => add_mul _ _ _

theorem dft_mul (a : K) (x : Nat → K) (q : Nat) : dft ω n (fun m => a * x m) q = a * dft ω n x q := by
  rw [dft, dft, Finset.mul_sum]
  exact Finset.sum_congr rfl fun m _ => mul_assoc _ _ _

/-- The even entries and the odd ones. -/
theorem dft_two_mul (q : Nat) : dft ω (2 * n) x q =
    dft (ω ^ 2) n (fun m => x (2 * m)) q + ω ^ q * dft (ω ^ 2) n (fun m => x (2 * m + 1)) q := by
  induction n with
  | zero => simp [dft]
  | succ n ih =>
    simp only [dft] at ih ⊢
    rw [show 2 * (n + 1) = 2 * n + 1 + 1 by ring, Finset.sum_range_succ, Finset.sum_range_succ, ih,
      Finset.sum_range_succ, Finset.sum_range_succ]
    ring

/-- It repeats after `n` frequencies. -/
theorem dft_add_period (h : ω ^ n = 1) (q : Nat) : dft ω n x (q + n) = dft ω n x q := by
  refine Finset.sum_congr rfl fun m _ => ?_
  rw [mul_add, pow_add, mul_comm m n, pow_mul ω n m, h, one_pow, mul_one]

/-- The first output of a butterfly. -/
theorem dft_upper (q : Nat) {ω' : K} (hω : ω ^ 2 = ω') : dft ω (2 * n) x q =
    dft ω' n (fun m => x (2 * m)) q + dft ω' n (fun m => x (2 * m + 1)) q * ω ^ q := by
  rw [dft_two_mul, hω, mul_comm (ω ^ q)]

/-- Its second output, half a period on. -/
theorem dft_lower (q : Nat) {ω' : K} (hω : ω ^ 2 = ω') (hhalf : ω ^ n = -1) : dft ω (2 * n) x (q + n) =
    dft ω' n (fun m => x (2 * m)) q - dft ω' n (fun m => x (2 * m + 1)) q * ω ^ q := by
  have hperiod : ω' ^ n = 1 := by
    rw [← hω, ← pow_mul, mul_comm, pow_mul, hhalf, neg_one_sq]
  rw [dft_two_mul, hω, dft_add_period hperiod, dft_add_period hperiod, pow_add, hhalf]
  ring

/-- A cyclic delay turns every frequency. -/
theorem dft_delay (h : ω ^ n = 1) {d : Nat} (hd : d ≤ n) (q : Nat) :
    dft ω n (fun m => x ((m + (n - d)) % n)) q = ω ^ (d * q) * dft ω n x q := by
  rcases Nat.eq_zero_or_pos n with rfl | hn
  · simp [dft]
  have hturn : ∀ m, ω ^ (m % n * q) = ω ^ (m * q) := by
    intro m
    conv_rhs => rw [← Nat.div_add_mod m n, add_mul, pow_add, mul_assoc, pow_mul, h, one_pow, one_mul]
  rw [dft, dft, Finset.mul_sum]
  refine Finset.sum_nbij' (fun m => (m + (n - d)) % n) (fun m => (m + d) % n) ?_ ?_ ?_ ?_ ?_
  · exact fun m _ => Finset.mem_range.mpr (Nat.mod_lt _ hn)
  · exact fun m _ => Finset.mem_range.mpr (Nat.mod_lt _ hn)
  · intro m hm
    rw [Nat.mod_add_mod, show m + (n - d) + d = m + n by omega, Nat.add_mod_right,
      Nat.mod_eq_of_lt (Finset.mem_range.mp hm)]
  · intro m hm
    rw [Nat.mod_add_mod, show m + d + (n - d) = m + n by omega, Nat.add_mod_right,
      Nat.mod_eq_of_lt (Finset.mem_range.mp hm)]
  · intro m _
    have hwhole : ω ^ (d * q) * ω ^ ((m + (n - d)) * q) = ω ^ (m * q) := by
      rw [← pow_add, ← add_mul, show d + (m + (n - d)) = m + n by omega, add_mul, pow_add, pow_mul ω n, h,
        one_pow, mul_one]
    rw [mul_left_comm, hturn, hwhole]

/-- The transform at the inverse root undoes the transform, up to the factor `n`. -/
theorem dft_inverse (h : IsPrimitiveRoot ω n) {m : Nat} (hm : m < n) :
    dft ω⁻¹ n (dft ω n x) m = n * x m := by
  have hne : ω ≠ 0 := h.ne_zero (by omega)
  have horthogonal : ∀ j < n, ∑ q ∈ Finset.range n, ω ^ (j * q) * ω⁻¹ ^ (q * m) = if j = m then (n : K) else 0 := by
    intro j hj
    have hgeom : ∀ q, ω ^ (j * q) * ω⁻¹ ^ (q * m) = (ω ^ j * ω⁻¹ ^ m) ^ q := by
      intro q
      rw [mul_pow, ← pow_mul, ← pow_mul, mul_comm m q]
    simp only [hgeom]
    split
    · rename_i heq
      rw [heq, inv_pow, mul_inv_cancel₀ (pow_ne_zero _ hne)]
      simp
    · rename_i hdiff
      have hratio : ω ^ j * ω⁻¹ ^ m ≠ 1 := by
        intro hone
        rw [inv_pow, mul_inv_eq_one₀ (pow_ne_zero _ hne)] at hone
        exact hdiff (h.pow_inj hj hm hone)
      have hperiod : (ω ^ j * ω⁻¹ ^ m) ^ n = 1 := by
        rw [mul_pow, ← pow_mul, ← pow_mul, mul_comm j, mul_comm m, pow_mul, pow_mul, inv_pow ω n, h.pow_eq_one,
          inv_one, one_pow, one_pow, mul_one]
      rw [geom_sum_eq hratio, hperiod, sub_self, zero_div]
  calc dft ω⁻¹ n (dft ω n x) m
      = ∑ q ∈ Finset.range n, ∑ j ∈ Finset.range n, x j * (ω ^ (j * q) * ω⁻¹ ^ (q * m)) := by
        refine Finset.sum_congr rfl fun q _ => ?_
        rw [dft, Finset.sum_mul]
        exact Finset.sum_congr rfl fun j _ => mul_assoc _ _ _
    _ = ∑ j ∈ Finset.range n, x j * if j = m then (n : K) else 0 := by
        rw [Finset.sum_comm]
        refine Finset.sum_congr rfl fun j hj => ?_
        rw [← Finset.mul_sum, horthogonal j (Finset.mem_range.mp hj)]
    _ = n * x m := by
        simp only [mul_ite, mul_zero]
        rw [Finset.sum_ite_eq' (Finset.range n) m, if_pos (Finset.mem_range.mpr hm), mul_comm]

/-! ### Roots of the orders of two -/

/-- Roots of unity `ω s` of the order `2 ^ s`, each the square of the next. -/
structure Tower (ω : Nat → K) : Prop where
  square : ∀ s, ω (s + 1) ^ 2 = ω s
  two : ω 1 = -1

namespace Tower

variable {ω : Nat → K}

/-- Half of the way round is -1. -/
theorem half (h : Tower ω) (s : Nat) : ω (s + 1) ^ 2 ^ s = -1 := by
  induction s with
  | zero => rw [pow_zero, pow_one, h.two]
  | succ s ih => rw [pow_succ', pow_mul, h.square, ih]

theorem whole (h : Tower ω) (s : Nat) : ω s ^ 2 ^ s = 1 := by
  rw [← h.square s, ← pow_mul, mul_comm, pow_mul, h.half, neg_one_sq]

theorem isPrimitiveRoot (h : Tower ω) (htwo : (2 : K) ≠ 0) (s : Nat) : IsPrimitiveRoot (ω s) (2 ^ s) := by
  cases s with
  | zero =>
    rw [pow_zero, IsPrimitiveRoot.one_right_iff]
    exact (pow_one _).symm.trans (h.whole 0)
  | succ s =>
    have hhalf : ω (s + 1) ^ 2 ^ s ≠ 1 := by
      rw [h.half]
      intro hneg
      exact htwo (by linear_combination -hneg)
    rw [← orderOf_eq_prime_pow hhalf (h.whole (s + 1))]
    exact IsPrimitiveRoot.orderOf _

theorem inv (h : Tower ω) : Tower fun s => (ω s)⁻¹ where
  square s := by rw [inv_pow, h.square]
  two := by rw [h.two, inv_neg_one]

end Tower

end

end AetherStack.Lib
