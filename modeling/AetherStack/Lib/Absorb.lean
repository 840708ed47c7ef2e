import Mathlib.Tactic

/-!
# Absorbing a stream in blocks

A state takes in a block of `size` elements at a time. What is absorbed of a stream is its
whole blocks, in order; the rest of it waits. Absorbing a stream in two parts, the second
behind what waits of the first, is absorbing it at once.
-/
namespace AetherStack.Lib.Absorb

variable {α σ : Type*} (size : ℕ) (step : σ → List α → σ)

/-- The state behind the first `count` blocks. -/
def blocks (count : ℕ) (s : σ) (xs : List α) : σ :=
  ((List.range count).map fun i => (xs.drop (size * i)).take size).foldl step s

/-- The state behind all whole blocks, and what waits. -/
def absorb (s : σ) (xs : List α) : σ × List α :=
  (blocks size step (xs.length / size) s xs, xs.drop (size * (xs.length / size)))

@[simp] theorem blocks_zero (s : σ) (xs : List α) : blocks size step 0 s xs = s := rfl

/-- The first block is taken first. -/
theorem blocks_succ (count : ℕ) (s : σ) (xs : List α) :
    blocks size step (count + 1) s xs = blocks size step count (step s (xs.take size)) (xs.drop size) := by
  simp only [blocks, List.range_succ_eq_map, List.map_cons, List.foldl_cons, List.map_map, Nat.mul_zero, List.drop_zero]
  congr 1
  apply List.map_congr_left
  intro i _
  rw [List.drop_drop, Function.comp_apply, Nat.succ_eq_add_one, Nat.mul_add, Nat.mul_one, Nat.add_comm]

variable {size step}

theorem absorb_short {xs : List α} (h : xs.length < size) (s : σ) : absorb size step s xs = (s, xs) := by
  rw [absorb, Nat.div_eq_of_lt h, blocks_zero, Nat.mul_zero, List.drop_zero]

/-- A stream of a block or more gives up its first block. -/
theorem absorb_long (hsize : 0 < size) {xs : List α} (h : size ≤ xs.length) (s : σ) :
    absorb size step s xs = absorb size step (step s (xs.take size)) (xs.drop size) := by
  have hcount : xs.length / size = (xs.drop size).length / size + 1 := by
    rw [List.length_drop, Nat.div_eq_sub_div hsize h]
  rw [absorb, hcount, blocks_succ, absorb, List.drop_drop, Nat.mul_add, Nat.mul_one, Nat.add_comm size]

theorem absorb_block (hsize : 0 < size) {xs : List α} (h : xs.length = size) (s : σ) :
    absorb size step s xs = (step s xs, []) := by
  rw [absorb_long hsize (Nat.le_of_eq h.symm), List.take_of_length_le (Nat.le_of_eq h),
    List.drop_eq_nil_of_le (Nat.le_of_eq h), absorb_short hsize]

/-- What waits is shorter than a block. -/
theorem length_absorb (s : σ) (xs : List α) : (absorb size step s xs).2.length = xs.length % size := by
  rw [absorb, List.length_drop, Nat.mod_eq_sub_mul_div]

/-- In two parts or at once, the result is the same. -/
theorem absorb_append (hsize : 0 < size) (s : σ) (xs ys : List α) :
    absorb size step s (xs ++ ys) = absorb size step (absorb size step s xs).1 ((absorb size step s xs).2 ++ ys) := by
  induction hn : xs.length using Nat.strong_induction_on generalizing s xs with
  | _ n ih =>
    subst hn
    by_cases h : xs.length < size
    · rw [absorb_short h]
    · have hlong : size ≤ xs.length := Nat.not_lt.mp h
      have hrest : (xs.drop size).length < xs.length := by
        rw [List.length_drop]
        omega
      rw [absorb_long hsize (by rw [List.length_append]; omega), List.take_append_of_le_length hlong,
        List.drop_append_of_le_length hlong, ih _ hrest _ _ rfl, ← absorb_long hsize hlong]

end AetherStack.Lib.Absorb
