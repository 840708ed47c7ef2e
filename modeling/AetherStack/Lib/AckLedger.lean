import Mathlib.Tactic

/-!
# Counting acknowledgements

A sender keeps the items that wait for an acknowledgement and a count of those acknowledged.
The count is honest when it is at most the number of received items that no longer wait. An
item is counted once, as it stops waiting, so the count stays honest if each item counted was
received.
-/
namespace AetherStack.Lib

structure AckLedger (α : Type*) where
  pending : Finset α
  acked : ℕ

namespace AckLedger

variable {α : Type*} [DecidableEq α] {received arrived : Finset α} {l : AckLedger α}

def Honest (received : Finset α) (l : AckLedger α) : Prop := l.acked ≤ (received \ l.pending).card

theorem Honest.le (h : l.Honest received) : l.acked ≤ received.card :=
  Nat.le_trans h (Finset.card_le_card Finset.sdiff_subset)

/-- Another ledger that waits for no more and counts no more. -/
theorem Honest.mono (h : l.Honest received) (hsub : received ⊆ arrived) {m : AckLedger α}
    (hpending : m.pending ⊆ l.pending) (hacked : m.acked ≤ l.acked) : m.Honest arrived :=
  calc m.acked ≤ l.acked := hacked
    _ ≤ (received \ l.pending).card := h
    _ ≤ (arrived \ m.pending).card := Finset.card_le_card (Finset.sdiff_subset_sdiff hsub hpending)

/-- A new item is not received yet. -/
theorem Honest.send (h : l.Honest received) {x : α} (hx : x ∉ received) :
    Honest received ⟨insert x l.pending, l.acked⟩ := by
  have hsame : received \ insert x l.pending = received \ l.pending := by
    rw [Finset.sdiff_insert, Finset.erase_eq_of_notMem]
    exact fun hmem => hx (Finset.mem_sdiff.mp hmem).1
  exact Nat.le_trans h (Nat.le_of_eq (congrArg Finset.card hsame.symm))

/-- Counting a received item keeps the count honest. -/
theorem Honest.count (h : l.Honest received) {x : α} (hpending : x ∈ l.pending) (hx : x ∈ received) :
    Honest received ⟨l.pending.erase x, l.acked + 1⟩ := by
  have hnot : x ∉ received \ l.pending := fun hmem => (Finset.mem_sdiff.mp hmem).2 hpending
  have hsub : insert x (received \ l.pending) ⊆ received \ l.pending.erase x := by
    intro y hy
    rw [Finset.mem_sdiff, Finset.mem_erase]
    rcases Finset.mem_insert.mp hy with rfl | hy
    · exact ⟨hx, fun hmem => hmem.1 rfl⟩
    · have hold := Finset.mem_sdiff.mp hy
      exact ⟨hold.1, fun hmem => hold.2 hmem.2⟩
  calc l.acked + 1 ≤ (received \ l.pending).card + 1 := Nat.succ_le_succ h
    _ = (insert x (received \ l.pending)).card := (Finset.card_insert_of_notMem hnot).symm
    _ ≤ (received \ l.pending.erase x).card := Finset.card_le_card hsub

end AckLedger

end AetherStack.Lib
