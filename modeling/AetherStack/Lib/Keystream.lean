import Mathlib.Tactic

/-!
# Key streams made a block at a time

A counter gives a block of the stream and its successor the next block. The text is combined
with a block a turn, the last block as far as the text goes. Element by element this is one
operation with the element of the stream at the same place, so an operation that undoes
itself makes the loop undo itself, at every length.
-/
namespace AetherStack.Lib.Keystream

variable {α σ : Type*} {size : ℕ} (op : α → α → α) (block : σ → Vector α size) (next : σ → σ)

/-- One block a turn; the first argument bounds the number of turns. -/
def mix : ℕ → σ → List α → List α
  | 0, _, _ => []
  | turns + 1, c, text =>
    if text = [] then []
    else List.zipWith op (text.take size) (block c).toList ++ mix turns (next c) (text.drop size)

/-- Element `i` of the stream, there when blocks are not empty. -/
def at? (c : σ) (i : ℕ) : Option α := (block (next^[i / size] c))[i % size]?

theorem at?_of_lt {c : σ} {i : ℕ} (h : i < size) : at? block next c i = (block c)[i]? := by
  rw [at?, Nat.div_eq_of_lt h, Nat.mod_eq_of_lt h]
  rfl

/-- Past a block the stream is that of the next counter. -/
theorem at?_add (hsize : 0 < size) (c : σ) (i : ℕ) : at? block next c (size + i) = at? block next (next c) i := by
  rw [at?, at?, Nat.add_mod_left, Nat.add_div_left _ hsize]
  rfl

theorem isSome_at? (hsize : 0 < size) (c : σ) (i : ℕ) : (at? block next c i).isSome = true := by
  rw [at?, Vector.getElem?_eq_getElem (Nat.mod_lt _ hsize)]
  rfl

/-- The block a turn combines is as long as the piece of text it takes. -/
theorem length_turn (text : List α) (c : σ) :
    (List.zipWith op (text.take size) (block c).toList).length = (text.take size).length := by
  rw [List.length_zipWith, Vector.length_toList, List.length_take]
  omega

variable {op block next}

/-- Element by element the loop is one operation with the stream. -/
theorem getElem?_mix (hsize : 0 < size) {turns : ℕ} {text : List α} (h : text.length ≤ turns) (c : σ) (i : ℕ) :
    (mix op block next turns c text)[i]? = (text[i]?).bind fun x => (at? block next c i).map (op x) := by
  induction turns generalizing c text i with
  | zero =>
    obtain rfl : text = [] := List.length_eq_zero_iff.mp (Nat.le_zero.mp h)
    rfl
  | succ turns ih =>
    rw [mix]
    by_cases hnil : text = []
    · rw [if_pos hnil, hnil]
      rfl
    have hpos := List.length_pos_iff.mpr hnil
    have hrest : (text.drop size).length ≤ turns := by
      rw [List.length_drop]
      omega
    rw [if_neg hnil, List.getElem?_append, length_turn, List.length_take]
    by_cases hin : i < size
    · rw [at?_of_lt block next hin]
      split
      · rw [List.getElem?_zipWith, List.getElem?_take_of_lt hin, Vector.getElem?_toList]
        cases text[i]? with
        | none => rfl
        | some x => cases (block c)[i]? <;> rfl
      · -- past the end of a text that is shorter than a block
        have hend : text.length ≤ i := by omega
        rw [ih hrest, List.getElem?_drop, List.getElem?_eq_none hend, List.getElem?_eq_none (by omega)]
        rfl
    · obtain ⟨j, rfl⟩ := Nat.exists_eq_add_of_le (Nat.not_lt.mp hin)
      rw [if_neg (by omega), ih hrest, List.getElem?_drop, at?_add block next hsize]
      by_cases hend : text.length ≤ size + j
      · rw [List.getElem?_eq_none hend, List.getElem?_eq_none (by omega)]
        rfl
      · rw [Nat.min_eq_left (by omega), Nat.add_sub_cancel_left]

/-- The text keeps its length. -/
theorem length_mix (hsize : 0 < size) {turns : ℕ} {text : List α} (h : text.length ≤ turns) (c : σ) :
    (mix op block next turns c text).length = text.length := by
  induction turns generalizing c text with
  | zero => exact (Nat.le_zero.mp h).symm
  | succ turns ih =>
    rw [mix]
    by_cases hnil : text = []
    · rw [if_pos hnil, hnil]
    · have hpos := List.length_pos_iff.mpr hnil
      have hrest : (text.drop size).length ≤ turns := by
        rw [List.length_drop]
        omega
      rw [if_neg hnil, List.length_append, length_turn, ih hrest, List.length_take, List.length_drop]
      omega

/-- Two turns of an operation that undoes itself give the text back. -/
theorem mix_mix (hsize : 0 < size) (hop : ∀ x k, op (op x k) k = x) {turns : ℕ} {text : List α}
    (h : text.length ≤ turns) (c : σ) :
    mix op block next turns c (mix op block next turns c text) = text := by
  apply List.ext_getElem?
  intro i
  rw [getElem?_mix hsize (by rw [length_mix hsize h]; exact h), getElem?_mix hsize h]
  obtain ⟨k, hk⟩ := Option.isSome_iff_exists.mp (isSome_at? block next hsize c i)
  rw [hk]
  cases text[i]? with
  | none => rfl
  | some x => exact congrArg some (hop x k)

end AetherStack.Lib.Keystream
