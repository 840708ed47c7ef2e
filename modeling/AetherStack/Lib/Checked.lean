import Mathlib.Tactic

/-!
# Checked accesses to a buffer

The accesses of a program that does not check them, with a fault where they leave the
buffer: an indexed read, a range between two iterators, and a copy into an array from its
first place. A caller that has compared lengths proves with the lemmas that an access is the
unchecked one.
-/
namespace AetherStack.Lib

variable {α : Type*}

def readAt (v : List α) (i : Nat) : Option α := v[i]?

/-- The elements from `first` up to `last`. -/
def readRange (v : List α) (first last : Nat) : Option (List α) :=
  if first ≤ last ∧ last ≤ v.length then some ((v.drop first).take (last - first)) else none

/-- The elements go to the first places of the array, the others stay. -/
def copyInto {n : Nat} (dst : Vector α n) (src : List α) : Option (Vector α n) :=
  if src.length ≤ n then some (Vector.ofFn fun i : Fin n => (src[i.val]?).getD (dst.get i)) else none

/-- Inside the buffer the access is the unchecked one. -/
theorem readAt_eq_getD {v : List α} {i : Nat} (h : i < v.length) (d : α) :
    readAt v i = some (v.getD i d) := by
  rw [readAt, List.getD_eq_getElem?_getD, List.getElem?_eq_getElem h, Option.getD_some]

theorem readAt_eq_none {v : List α} {i : Nat} (h : v.length ≤ i) : readAt v i = none :=
  List.getElem?_eq_none h

theorem readRange_eq_take {v : List α} {first last : Nat} (hle : first ≤ last)
    (hlast : last ≤ v.length) : readRange v first last = some ((v.drop first).take (last - first)) :=
  if_pos ⟨hle, hlast⟩

/-- The rest of the buffer. -/
theorem readRange_eq_drop {v : List α} {first : Nat} (h : first ≤ v.length) :
    readRange v first v.length = some (v.drop first) := by
  rw [readRange_eq_take h (Nat.le_refl _), List.take_of_length_le (by simp)]

/-- A source that is longer than the array faults. -/
theorem copyInto_eq_none {n : Nat} {dst : Vector α n} {src : List α} (h : n < src.length) :
    copyInto dst src = none :=
  if_neg (by omega)

/-- A source of the array's length replaces it. -/
theorem copyInto_eq_ofFn {n : Nat} (dst : Vector α n) {src : List α} (h : src.length = n) (d : α) :
    copyInto dst src = some (Vector.ofFn fun i : Fin n => src.getD i d) := by
  rw [copyInto, if_pos (Nat.le_of_eq h)]
  refine congrArg (fun f => some (Vector.ofFn f)) (funext fun i => ?_)
  have hi : i.val < src.length := h ▸ i.isLt
  rw [List.getD_eq_getElem?_getD, List.getElem?_eq_getElem hi, Option.getD_some, Option.getD_some]

theorem toList_ofFn_getD {n : Nat} {src : List α} (h : src.length = n) (d : α) :
    (Vector.ofFn fun i : Fin n => src.getD i d).toList = src := by
  subst h
  refine List.ext_getElem (by simp) fun i hi hsrc => ?_
  simp [List.getD_eq_getElem?_getD]

/-- A fault under a condition, and none otherwise. -/
theorem isSome_ite_none {β : Type*} {p : Prop} [Decidable p] {x : β} :
    (if p then none else some x).isSome ↔ ¬p := by
  by_cases hp : p <;> simp [hp]

end AetherStack.Lib
