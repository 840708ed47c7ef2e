import Mathlib.Tactic

/-!
# Places where two lists differ

The Hamming distance of two lists, over their common length.
-/
namespace AetherStack.Lib

variable {α β : Type*} [DecidableEq α]

def differences (xs ys : List α) : Nat := (xs.zip ys).countP fun p => p.1 ≠ p.2

@[simp] theorem differences_nil (ys : List α) : differences [] ys = 0 := rfl

theorem differences_cons_cons (x y : α) (xs ys : List α) :
    differences (x :: xs) (y :: ys) = (if x ≠ y then 1 else 0) + differences xs ys := by
  simp only [differences, List.zip_cons_cons, List.countP_cons, decide_eq_true_eq]
  omega

/-- Differences of the parts add up. -/
theorem differences_append {xs xs' : List α} (ys ys' : List α) (h : xs.length = xs'.length) :
    differences (xs ++ ys) (xs' ++ ys') = differences xs xs' + differences ys ys' := by
  rw [differences, List.zip_append h, List.countP_append, differences, differences]

@[simp] theorem differences_self (xs : List α) : differences xs xs = 0 := by
  induction xs with
  | nil => rfl
  | cons x xs ih => simp [differences_cons_cons, ih]

theorem differences_comm (xs ys : List α) : differences xs ys = differences ys xs := by
  induction xs generalizing ys with
  | nil => simp [differences]
  | cons x xs ih =>
    cases ys with
    | nil => rfl
    | cons y ys => simp only [differences_cons_cons, ih, ne_comm (a := x)]

/-- A part differs in no more places than the whole. -/
theorem differences_drop_le {xs ys : List α} (h : xs.length = ys.length) (n : Nat) :
    differences (xs.drop n) (ys.drop n) ≤ differences xs ys := by
  have hsplit := differences_append (xs.drop n) (ys.drop n)
    (show (xs.take n).length = (ys.take n).length by rw [List.length_take, List.length_take, h])
  rw [List.take_append_drop, List.take_append_drop] at hsplit
  omega

/-- Where one block of equal length is replaced, the others do not count. -/
theorem differences_flatMap_set {f : β → List α} {width : Nat} (hwidth : ∀ b, (f b).length = width)
    {l : List β} {k : Nat} {b : β} (hb : l[k]? = some b) (b' : β) :
    differences (l.flatMap f) ((l.set k b').flatMap f) = differences (f b) (f b') := by
  induction l generalizing k with
  | nil => cases hb
  | cons a l ih =>
    cases k with
    | zero =>
      obtain rfl := Option.some.inj hb
      rw [List.set_cons_zero, List.flatMap_cons, List.flatMap_cons,
        differences_append _ _ ((hwidth a).trans (hwidth b').symm), differences_self, Nat.add_zero]
    | succ k =>
      rw [List.set_cons_succ, List.flatMap_cons, List.flatMap_cons, differences_append _ _ rfl,
        differences_self, Nat.zero_add, ih hb]

end AetherStack.Lib
