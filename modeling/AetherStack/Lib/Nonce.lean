import Mathlib.Tactic

/-!
# Numbers drawn from counters and used under keys

Several counters hand out numbers of a type that `value` reads as naturals; a use pairs a
number with a key. `live i n` says that the counter `i` is in service and stands at `n`. As
long as each key is used by one counter only, no pair of key and number is used twice.
-/
namespace AetherStack.Lib

variable {κ ν π ι : Type*} {value : ν → Nat}

structure NonceUse (κ ν π ι : Type*) where
  key : κ
  seq : ν
  payload : π
  counter : ι
  deriving DecidableEq

def DistinctNonces (uses : List (NonceUse κ ν π ι)) : Prop :=
  uses.Pairwise fun u u' => ¬ (u.key = u'.key ∧ u.seq = u'.seq)

/-- Every use stays below its counter, and no pair was used twice. -/
structure Numbered (value : ν → Nat) (live : ι → Nat → Prop) (uses : List (NonceUse κ ν π ι)) :
    Prop where
  below : ∀ u ∈ uses, ∀ n, live u.counter n → value u.seq < n
  distinct : DistinctNonces uses

variable {live live' : ι → Nat → Prop} {uses : List (NonceUse κ ν π ι)}

/-- Counters may retire, and new ones that nobody used come into service. -/
theorem Numbered.keep (h : Numbered value live uses)
    (hlive : ∀ i n, live' i n → live i n ∨ ∀ u ∈ uses, u.counter ≠ i) :
    Numbered value live' uses where
  below := by
    intro u hu n hn
    rcases hlive u.counter n hn with hold | hnew
    · exact h.below u hu n hold
    · exact absurd rfl (hnew u hu)
  distinct := h.distinct

/-- The only counter of a key gives its number away and moves on. -/
theorem Numbered.use (h : Numbered value live uses) {key : κ} {seq : ν} {payload : π} {i : ι}
    (hlive : live i (value seq)) (hsole : ∀ u ∈ uses, u.key = key → u.counter = i)
    (hnext : ∀ j n, live' j n → (j = i ∧ value seq < n) ∨ (j ≠ i ∧ live j n)) :
    Numbered value live' (uses ++ [⟨key, seq, payload, i⟩]) where
  below := by
    intro u hu n hn
    rcases List.mem_append.mp hu with hold | hnew
    · rcases hnext u.counter n hn with ⟨hcounter, hlt⟩ | ⟨-, hlive'⟩
      · exact (h.below u hold _ (hcounter ▸ hlive)).trans hlt
      · exact h.below u hold n hlive'
    · obtain rfl := List.mem_singleton.mp hnew
      rcases hnext i n hn with ⟨-, hlt⟩ | ⟨hne, -⟩
      · exact hlt
      · exact absurd rfl hne
  distinct := by
    refine List.pairwise_append.mpr ⟨h.distinct, List.pairwise_singleton _ _, ?_⟩
    rintro u hu u' hu' ⟨hkey, hseq⟩
    obtain rfl := List.mem_singleton.mp hu'
    have hbelow := h.below u hu _ ((hsole u hu hkey).symm ▸ hlive)
    rw [hseq] at hbelow
    exact absurd hbelow (Nat.lt_irrefl _)

end AetherStack.Lib
