import Mathlib.Data.List.TakeDrop
import Mathlib.Tactic

/-!
# Rows of equal width

A sequence that is cut into rows of a fixed width, the last one filled up, and put together
again. The first row may have another width than the rest, since the rows compose.
-/
namespace AetherStack.Lib
variable {α : Type*}

/-- The first `width` entries, filled up with `pad`. -/
def padTo (pad : α) (width : Nat) (l : List α) : List α :=
  l.take width ++ List.replicate (width - l.length) pad

@[simp] theorem length_padTo (pad : α) (width : Nat) (l : List α) : (padTo pad width l).length = width := by
  simp only [padTo, List.length_append, List.length_take, List.length_replicate]
  omega

theorem padTo_take (pad : α) (width : Nat) (l : List α) : padTo pad width (l.take width) = padTo pad width l := by
  rw [padTo, padTo, List.take_take, min_self, List.length_take]
  congr 2
  omega

/-- One row behind another is a longer row. -/
theorem padTo_append (pad : α) (m n : Nat) (l : List α) :
    padTo pad m l ++ padTo pad n (l.drop m) = padTo pad (m + n) l := by
  by_cases hlen : l.length ≤ m
  · rw [padTo, padTo, padTo, List.take_of_length_le hlen, List.drop_eq_nil_of_le hlen,
      List.take_of_length_le (hlen.trans (Nat.le_add_right m n)), List.take_nil, List.nil_append,
      List.append_assoc, List.replicate_append_replicate, List.length_nil]
    congr 2
    omega
  · have hm : m - l.length = 0 := by omega
    have hn : n - (l.drop m).length = m + n - l.length := by
      rw [List.length_drop]
      omega
    rw [padTo, padTo, padTo, hm, hn, List.replicate_zero, List.append_nil, ← List.append_assoc,
      ← List.take_add]

/-- Rows of one width, put together. -/
theorem flatMap_padTo (pad : α) (width count : Nat) (l : List α) :
    (List.range count).flatMap (fun s => padTo pad width (l.drop (s * width))) =
      padTo pad (count * width) l := by
  induction count with
  | zero => simp [padTo]
  | succ count ih =>
    rw [List.range_succ, List.flatMap_append, ih, List.flatMap_singleton, padTo_append, Nat.succ_mul]

/-- Nothing is lost in rows that are long enough. -/
theorem padTo_of_length_le (pad : α) {width : Nat} {l : List α} (h : l.length ≤ width) :
    padTo pad width l = l ++ List.replicate (width - l.length) pad := by
  rw [padTo, List.take_of_length_le h]

/-- A padded row has elements of the row and padding. -/
theorem mem_padTo {pad : α} {width : Nat} {l : List α} {x : α} (h : x ∈ padTo pad width l) :
    x ∈ l ∨ x = pad := by
  rcases List.mem_append.mp h with h | h
  · exact .inl (List.mem_of_mem_take h)
  · exact .inr (List.eq_of_mem_replicate h)

/-! ### Pieces of equal width -/

section
variable {β : Type*} {f : α → List β} {width : Nat} {l : List α}

theorem length_flatMap_pieces (h : ∀ a ∈ l, (f a).length = width) : (l.flatMap f).length = l.length * width := by
  induction l with
  | nil => simp
  | cons a l ih =>
    rw [List.flatMap_cons, List.length_append, h a List.mem_cons_self, ih fun b hb => h b (List.mem_cons_of_mem _ hb),
      List.length_cons, Nat.succ_mul, Nat.add_comm]

/-- Dropping whole pieces drops their elements. -/
theorem drop_flatMap_pieces (h : ∀ a ∈ l, (f a).length = width) (s : Nat) :
    (l.flatMap f).drop (s * width) = (l.drop s).flatMap f := by
  induction s generalizing l with
  | zero => simp
  | succ s ih =>
    cases l with
    | nil => simp
    | cons a l =>
      rw [List.flatMap_cons, Nat.succ_mul, Nat.add_comm, ← List.drop_drop, List.drop_left' (h a List.mem_cons_self),
        ih fun b hb => h b (List.mem_cons_of_mem _ hb), List.drop_succ_cons]

/-- A part of one piece. -/
theorem take_drop_flatMap_pieces (h : ∀ a ∈ l, (f a).length = width) {s off size : Nat} (hs : s < l.length)
    (hsize : off + size ≤ width) :
    ((l.flatMap f).drop (s * width + off)).take size = ((f l[s]).drop off).take size := by
  have hpiece := h l[s] (List.getElem_mem hs)
  rw [← List.drop_drop, drop_flatMap_pieces h, List.drop_eq_getElem_cons hs, List.flatMap_cons,
    List.drop_append_of_le_length (by omega), List.take_append_of_le_length (by rw [List.length_drop]; omega)]

theorem getD_flatMap_pieces (h : ∀ a ∈ l, (f a).length = width) {s c : Nat} (hs : s < l.length) (hc : c < width)
    (d : β) : (l.flatMap f).getD (s * width + c) d = (f l[s]).getD c d := by
  have hpiece := h l[s] (List.getElem_mem hs)
  have hdrop := drop_flatMap_pieces h s
  rw [List.drop_eq_getElem_cons hs, List.flatMap_cons] at hdrop
  rw [List.getD_eq_getElem?_getD, ← List.getElem?_drop, hdrop, List.getElem?_append_left (by omega),
    ← List.getD_eq_getElem?_getD]

end

end AetherStack.Lib
