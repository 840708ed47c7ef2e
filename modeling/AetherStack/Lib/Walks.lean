import Mathlib.Tactic

/-!
# Weighted walks

A deterministic system with a weight on every step. A walk is a list of labels. A bound that no
single step undercuts bounds every walk; the bound may depend on the number of steps left, so
the same rule gives potentials (constant in it) and the lightest walks of a given length.
-/
namespace AetherStack.Lib

variable {σ α : Type*} (next : σ → α → σ) (weight : σ → α → Nat)

/-- The sum of the weights along the walk. -/
def walkWeight : σ → List α → Nat
  | _, [] => 0
  | s, a :: as => weight s a + walkWeight (next s a) as

@[simp] theorem walkWeight_nil (s : σ) : walkWeight next weight s [] = 0 := rfl

/-- A walk continues where its front ended. -/
theorem walkWeight_append (s : σ) (as bs : List α) : walkWeight next weight s (as ++ bs) =
    walkWeight next weight s as + walkWeight next weight (as.foldl next s) bs := by
  induction as generalizing s with
  | nil => simp
  | cons a as ih =>
    rw [List.cons_append, walkWeight, ih, walkWeight, List.foldl_cons, Nat.add_assoc]

/-- `bound k s` says how light a walk of `k` steps from `s` may be, up to what its last state
is worth. -/
theorem bound_le_walkWeight {S : σ → Prop} {A : α → Prop} (closed : ∀ s a, S s → A a → S (next s a))
    (bound : Nat → σ → Nat)
    (step : ∀ k s a, S s → A a → bound (k + 1) s ≤ weight s a + bound k (next s a))
    {s : σ} (hs : S s) {as : List α} (has : ∀ a ∈ as, A a) :
    bound as.length s ≤ walkWeight next weight s as + bound 0 (as.foldl next s) := by
  induction as generalizing s with
  | nil => exact (Nat.zero_add _).ge
  | cons a as ih =>
    have ha := has a List.mem_cons_self
    have hfirst := step as.length s a hs ha
    have hrest := ih (closed s a hs ha) (fun b hb => has b (List.mem_cons_of_mem a hb))
    rw [List.length_cons, walkWeight, List.foldl_cons]
    omega

end AetherStack.Lib
