import Mathlib.Logic.Function.Basic
import Mathlib.Tactic

/-!
# Directories with one key per owner

A directory maps keys to owners. `latest` remembers the key under which each owner was
last entered. When an entry is made only while no other key has that owner, every key of
the directory is the latest one of its owner, so no owner has two keys.
-/
namespace AetherStack.Lib

variable {κ α : Type*} [DecidableEq α]

/-- The latest keys after an optional entry. -/
def noteEntry (latest : α → Option κ) : Option (κ × α) → α → Option κ
  | some (k, a) => Function.update latest a (some k)
  | none => latest

def Current (owner : κ → Option α) (latest : α → Option κ) : Prop :=
  ∀ k a, owner k = some a → latest a = some k

omit [DecidableEq α] in
/-- No owner has two keys. -/
theorem Current.injective {owner : κ → Option α} {latest : α → Option κ} (h : Current owner latest)
    {k k' : κ} {a : α} (hk : owner k = some a) (hk' : owner k' = some a) : k = k' :=
  Option.some.inj ((h k a hk).symm.trans (h k' a hk'))

/-- An entry that finds no other key of its owner keeps the directory current. -/
theorem Current.noteEntry {owner owner' : κ → Option α} {latest : α → Option κ}
    (h : Current owner latest) {entry : Option (κ × α)}
    (once : ∀ k a, entry = some (k, a) → ∀ k', owner k' = some a → k' = k)
    (entered : ∀ k a, owner' k = some a → owner k = some a ∨ entry = some (k, a)) :
    Current owner' (noteEntry latest entry) := by
  intro k a hk
  have hentered := entered k a hk
  cases entry with
  | none =>
    rcases hentered with hold | hnew
    · exact h k a hold
    · cases hnew
  | some kept =>
    obtain ⟨k₀, a₀⟩ := kept
    by_cases ha : a = a₀
    · subst ha
      rw [Lib.noteEntry, Function.update_self]
      rcases hentered with hold | hnew
      · rw [once k₀ a rfl k hold]
      · rw [(Prod.mk.inj (Option.some.inj hnew)).1]
    · rw [Lib.noteEntry, Function.update_of_ne ha]
      rcases hentered with hold | hnew
      · exact h k a hold
      · exact absurd (Prod.mk.inj (Option.some.inj hnew)).2.symm ha

end AetherStack.Lib
