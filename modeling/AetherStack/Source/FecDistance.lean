import AetherStack.Lib.Walks
import AetherStack.Source.FecViterbi

/-!
# The distance structure of the convolutional code

The encoder is linear over exclusive or, so two input sequences are as far apart as the output of
their difference is heavy. A difference that leaves the zero state and comes back weighs ten at
least, the free distance. One that does not come back is as light as four over seven steps, the
last information bit and the tail.
-/
namespace AetherStack.Source.Fec
open Lib

/-! ## Linearity -/

/-- One folding of the word in `parity`. -/
def foldWord (k v : Nat) : Nat := v ^^^ (v >>> k)

theorem foldWord_xor (k v w : Nat) : foldWord k (v ^^^ w) = foldWord k v ^^^ foldWord k w := by
  simp only [foldWord, Nat.shiftRight_xor_distrib]
  ac_rfl

theorem parity_eq (v : Nat) :
    parity v = foldWord 1 (foldWord 2 (foldWord 4 (foldWord 8 (foldWord 16 v)))) &&& 1 := rfl

/-- Parity is linear. -/
theorem parity_xor (v w : Nat) : parity (v ^^^ w) = parity v ^^^ parity w := by
  simp only [parity_eq, foldWord_xor, Nat.and_xor_distrib_right]

theorem parity_lt (v : Nat) : parity v < 2 := by
  rw [parity_eq, Nat.and_one_is_mod]
  exact Nat.mod_lt _ (by decide)

/-- The input bit and the state share no place of the register. -/
theorem register_eq_xor {s : Nat} (hs : s < numStates) (u : Nat) : register s u = (u <<< 6) ^^^ s := by
  apply Nat.eq_of_testBit_eq
  intro i
  rw [register, Nat.testBit_or, Nat.testBit_xor, Nat.testBit_shiftLeft]
  by_cases hi : i < 6
  · simp [Nat.not_le.mpr hi]
  · have hhigh : s.testBit i = false := by
      apply Nat.testBit_lt_two_pow
      exact hs.trans_le (Nat.pow_le_pow_right Nat.two_pos (Nat.not_lt.mp hi) : 2 ^ 6 ≤ 2 ^ i)
    simp [hhigh]

theorem xor_lt_numStates {s t : Nat} (hs : s < numStates) (ht : t < numStates) : s ^^^ t < numStates :=
  Nat.xor_lt_two_pow (n := 6) hs ht

/-- The shift register is linear in state and input. -/
theorem register_xor {s t : Nat} (hs : s < numStates) (ht : t < numStates) (u v : Nat) :
    register (s ^^^ t) (u ^^^ v) = register s u ^^^ register t v := by
  rw [register_eq_xor hs, register_eq_xor ht, register_eq_xor (xor_lt_numStates hs ht),
    Nat.shiftLeft_xor_distrib]
  ac_rfl

theorem trellisNext_xor {s t : Nat} (hs : s < numStates) (ht : t < numStates) (u v : Nat) :
    trellisNext (s ^^^ t) (u ^^^ v) = trellisNext s u ^^^ trellisNext t v := by
  rw [trellisNext, register_xor hs ht, Nat.shiftRight_xor_distrib, trellisNext, trellisNext]

/-- The two coded bits of a step. -/
def outputBits (s u : Nat) : Nat × Nat := (trellisOut s u >>> 1, trellisOut s u &&& 1)

theorem outputBits_eq (s u : Nat) :
    outputBits s u = (parity (register s u &&& g1), parity (register s u &&& g2)) := by
  have hsplit : ∀ a < 2, ∀ b < 2, ((a <<< 1) ||| b) >>> 1 = a ∧ ((a <<< 1) ||| b) &&& 1 = b := by
    decide
  obtain ⟨hhigh, hlow⟩ := hsplit _ (parity_lt (register s u &&& g1)) _ (parity_lt (register s u &&& g2))
  rw [outputBits, trellisOut, hhigh, hlow]

theorem outputBits_xor {s t : Nat} (hs : s < numStates) (ht : t < numStates) (u v : Nat) :
    outputBits (s ^^^ t) (u ^^^ v) =
      ((outputBits s u).1 ^^^ (outputBits t v).1, (outputBits s u).2 ^^^ (outputBits t v).2) := by
  simp only [outputBits_eq, register_xor hs ht, Nat.and_xor_distrib_right, parity_xor]

/-! ## Weights -/

def stepWeight (s u : Nat) : Nat := (outputBits s u).1 + (outputBits s u).2

/-- The ones in the output of an input sequence. -/
def pathWeight (s : Nat) (us : List Nat) : Nat := walkWeight trellisNext stepWeight s us

/-- The place by place difference of two input sequences. -/
def difference (us vs : List Nat) : List Nat := List.zipWith (· ^^^ ·) us vs

theorem binary_difference {us vs : List Nat} (hus : Binary us) (hvs : Binary vs) :
    Binary (difference us vs) := by
  intro d hd
  obtain ⟨u, hu, v, hv, rfl⟩ : ∃ u ∈ us, ∃ v ∈ vs, u ^^^ v = d := by
    obtain ⟨i, hi, rfl⟩ := List.mem_iff_getElem.mp hd
    simp only [difference, List.length_zipWith] at hi
    exact ⟨us[i], List.getElem_mem (by omega), vs[i], List.getElem_mem (by omega),
      by simp [difference]⟩
  exact Nat.xor_lt_two_pow (n := 1) (hus u hu) (hvs v hv)

/-- A received pair of bits without erasures. -/
structure Hard (r : Received) : Prop where
  first : r.r0 < 2
  second : r.r1 < 2
  weights : r.w0 = 1 ∧ r.w1 = 1

/-- Without soft values every received pair is a hard one. -/
theorem hard_receivedPairs (coded : Bytes) : ∀ r ∈ receivedPairs coded none, Hard r := by
  have hbit : ∀ c : UInt8, (if c > 0 then 1 else 0) < 2 := by
    intro c
    split <;> decide
  induction coded using List.twoStepInduction with
  | nil => simp [receivedPairs]
  | singleton c => simp [receivedPairs]
  | cons_cons c0 c1 rest ih _ =>
    intro r hr
    rw [receivedPairs] at hr
    rcases List.mem_cons.mp hr with rfl | hr
    · exact ⟨hbit c0, hbit c1, rfl, rfl⟩
    · exact ih r hr

/-- The two coded pairs are no further apart than both are from the received one. -/
theorem stepWeight_le {s t : Nat} (hs : s < numStates) (ht : t < numStates) (u v : Nat) {r : Received}
    (hr : Hard r) :
    stepWeight (s ^^^ t) (u ^^^ v) ≤ branchMetric r s u + branchMetric r t v := by
  have hbits : ∀ a < 2, ∀ b < 2, ∀ c < 2,
      a ^^^ b ≤ (if c ^^^ a ≠ 0 then 1 else 0) + (if c ^^^ b ≠ 0 then 1 else 0) := by
    decide
  have hlt : ∀ s u, (outputBits s u).1 < 2 ∧ (outputBits s u).2 < 2 := by
    intro s u
    rw [outputBits_eq]
    exact ⟨parity_lt _, parity_lt _⟩
  have hfirst := hbits _ (hlt s u).1 _ (hlt t v).1 _ hr.first
  have hsecond := hbits _ (hlt s u).2 _ (hlt t v).2 _ hr.second
  rw [stepWeight, outputBits_xor hs ht, branchMetric, branchMetric, hr.weights.1, hr.weights.2]
  refine (Nat.add_le_add hfirst hsecond).trans (Nat.le_of_eq ?_)
  rw [Nat.add_add_add_comm, outputBits, outputBits]

/-- Two sequences cannot both be near to what was received unless they are near to each other. -/
theorem pathWeight_difference_le {s t : Nat} (hs : s < numStates) (ht : t < numStates)
    {us vs : List Nat} (hus : Binary us) (hvs : Binary vs) {rs : List Received} (hrs : ∀ r ∈ rs, Hard r)
    (hu : us.length = rs.length) (hv : vs.length = rs.length) :
    pathWeight (s ^^^ t) (difference us vs) ≤ pathCost s us rs + pathCost t vs rs := by
  induction rs generalizing s t us vs with
  | nil =>
    obtain rfl : us = [] := List.length_eq_zero_iff.mp hu
    exact Nat.zero_le _
  | cons r rs ih =>
    cases us with
    | nil => cases hu
    | cons u us =>
      cases vs with
      | nil => cases hv
      | cons v vs =>
        have hstep := stepWeight_le hs ht u v (hrs r List.mem_cons_self)
        have hrest := ih (trellisNext_spec s hs u (hus u List.mem_cons_self)).1
          (trellisNext_spec t ht v (hvs v List.mem_cons_self)).1
          (fun w hw => hus w (List.mem_cons_of_mem u hw)) (fun w hw => hvs w (List.mem_cons_of_mem v hw))
          (fun w hw => hrs w (List.mem_cons_of_mem r hw)) (Nat.succ.inj hu) (Nat.succ.inj hv)
        rw [← trellisNext_xor hs ht] at hrest
        rw [pathWeight, difference] at hrest ⊢
        rw [List.zipWith_cons_cons, walkWeight, pathCost, pathCost]
        omega

/-- Two paths end as far apart as their difference ends from zero. -/
theorem pathEnd_difference {s t : Nat} (hs : s < numStates) (ht : t < numStates) {us vs : List Nat}
    (hus : Binary us) (hvs : Binary vs) (hlen : us.length = vs.length) :
    pathEnd (s ^^^ t) (difference us vs) = pathEnd s us ^^^ pathEnd t vs := by
  induction us generalizing s t vs with
  | nil =>
    obtain rfl : vs = [] := List.length_eq_zero_iff.mp hlen.symm
    rfl
  | cons u us ih =>
    cases vs with
    | nil => cases hlen
    | cons v vs =>
      have hrest := ih (trellisNext_spec s hs u (hus u List.mem_cons_self)).1
        (trellisNext_spec t ht v (hvs v List.mem_cons_self)).1
        (fun w hw => hus w (List.mem_cons_of_mem u hw)) (fun w hw => hvs w (List.mem_cons_of_mem v hw))
        (Nat.succ.inj hlen)
      rw [← trellisNext_xor hs ht] at hrest
      exact hrest

/-! ## The free distance -/

/-- The lightest way from each state to the zero state. -/
def homeward : List Nat := [
  0, 2, 3, 3, 3, 5, 4, 4, 5, 3, 6, 6, 6, 4, 5, 5, 7, 5, 4, 4, 6, 6, 7, 7, 6, 6, 5, 5, 5, 7, 6, 6,
  8, 8, 7, 5, 5, 5, 6, 4, 7, 7, 6, 6, 6, 6, 7, 7, 7, 7, 6, 6, 6, 6, 5, 7, 6, 6, 7, 7, 7, 7, 6, 6]

/-- `homeward` falls by at most the weight of the step. -/
theorem homeward_step : ∀ s < numStates, ∀ u < 2,
    homeward.getD s 0 ≤ stepWeight s u + homeward.getD (trellisNext s u) 0 := by
  decide

/-- Every way back to state 0 weighs at least what `homeward` says. -/
theorem homeward_le_pathWeight {s : Nat} (hs : s < numStates) {us : List Nat} (hus : Binary us)
    (hend : pathEnd s us = 0) : homeward.getD s 0 ≤ pathWeight s us := by
  have hbound := bound_le_walkWeight trellisNext stepWeight (S := (· < numStates)) (A := (· < 2))
    (fun s u hs hu => (trellisNext_spec s hs u hu).1) (fun _ s => homeward.getD s 0)
    (fun _ s u hs hu => homeward_step s hs u hu) hs hus
  rw [pathEnd] at hend
  rw [hend] at hbound
  exact hbound

theorem zero_step : trellisNext 0 0 = 0 ∧ stepWeight 0 0 = 0 := by decide

/-- The step that leaves state 0 has weight 2. -/
theorem first_step : trellisNext 0 1 = 32 ∧ stepWeight 0 1 = 2 := by decide

/-- A sequence that is not all zeros and ends in the zero state. -/
theorem free_distance {us : List Nat} (hus : Binary us) (hone : 1 ∈ us) (hend : pathEnd 0 us = 0) :
    10 ≤ pathWeight 0 us := by
  induction us with
  | nil => cases hone
  | cons u us ih =>
    have htail : Binary us := fun v hv => hus v (List.mem_cons_of_mem u hv)
    rw [pathWeight, walkWeight]
    rw [pathEnd, List.foldl_cons] at hend
    obtain hu | hu : u = 0 ∨ u = 1 := by
      have hlt := hus u List.mem_cons_self
      omega
    · subst hu
      rw [zero_step.1] at hend ⊢
      rw [zero_step.2, Nat.zero_add]
      exact ih htail (by simpa using hone) hend
    · subst hu
      rw [first_step.1] at hend ⊢
      rw [first_step.2]
      have hhome := homeward_le_pathWeight (by decide) htail hend
      rw [show homeward.getD 32 0 = 8 from rfl, pathWeight] at hhome
      omega

/-! ## Differences that do not come back -/

/-- The weight of the lightest walk of so many steps from each state. -/
def lightest : Nat → List Nat
  | 0 => List.replicate numStates 0
  | k + 1 => (List.range numStates).map fun s =>
      min (stepWeight s 0 + (lightest k).getD (trellisNext s 0) 0)
        (stepWeight s 1 + (lightest k).getD (trellisNext s 1) 0)

theorem getD_lightest_succ {s : Nat} (hs : s < numStates) (k : Nat) :
    (lightest (k + 1)).getD s 0 = min (stepWeight s 0 + (lightest k).getD (trellisNext s 0) 0)
      (stepWeight s 1 + (lightest k).getD (trellisNext s 1) 0) := by
  rw [lightest, List.getD_eq_getElem?_getD, List.getElem?_map, List.getElem?_range hs]
  rfl

/-- The lightest walk is no heavier than a first step and the lightest walk from there. -/
theorem lightest_step (k : Nat) {s u : Nat} (hs : s < numStates) (hu : u < 2) :
    (lightest (k + 1)).getD s 0 ≤ stepWeight s u + (lightest k).getD (trellisNext s u) 0 := by
  rw [getD_lightest_succ hs]
  obtain rfl | rfl : u = 0 ∨ u = 1 := by omega
  · exact Nat.min_le_left _ _
  · exact Nat.min_le_right _ _

/-- No path of `k` steps or more weighs less than `lightest k`. -/
theorem lightest_le_pathWeight {s : Nat} (hs : s < numStates) {us : List Nat} (hus : Binary us)
    {k : Nat} (hk : k ≤ us.length) : (lightest k).getD s 0 ≤ pathWeight s us := by
  have hfirst : Binary (us.take k) := fun u hu => hus u (List.mem_of_mem_take hu)
  have hbound := bound_le_walkWeight trellisNext stepWeight (S := (· < numStates)) (A := (· < 2))
    (fun s u hs hu => (trellisNext_spec s hs u hu).1) (fun k s => (lightest k).getD s 0)
    (fun k s u hs hu => lightest_step k hs hu) hs hfirst
  have hzero : ∀ t, (lightest 0).getD t 0 = 0 := by
    intro t
    rw [lightest, List.getD_eq_getElem?_getD, List.getElem?_replicate]
    split <;> rfl
  simp only [hzero, List.length_take, Nat.min_eq_left hk] at hbound
  have hsplit := walkWeight_append trellisNext stepWeight s (us.take k) (us.drop k)
  rw [List.take_append_drop] at hsplit
  rw [pathWeight]
  omega

/-- A difference that leaves the zero state, by the steps that are left. -/
theorem open_distance {us : List Nat} (hus : Binary us) :
    (6 ≤ us.length → 4 ≤ pathWeight 0 (1 :: us)) ∧ (10 ≤ us.length → 6 ≤ pathWeight 0 (1 :: us)) ∧
      (17 ≤ us.length → 8 ≤ pathWeight 0 (1 :: us)) := by
  have htable : (lightest 6).getD 32 0 = 2 ∧ (lightest 10).getD 32 0 = 4 ∧
      (lightest 17).getD 32 0 = 6 := by
    decide +kernel
  have hrest : ∀ k ≤ us.length, 2 + (lightest k).getD 32 0 ≤ pathWeight 0 (1 :: us) := by
    intro k hk
    have hle := lightest_le_pathWeight (show 32 < numStates by decide) hus hk
    rw [pathWeight] at hle ⊢
    rw [walkWeight, first_step.1, first_step.2]
    omega
  refine ⟨fun h => ?_, fun h => ?_, fun h => ?_⟩
  · have hle := hrest 6 h
    omega
  · have hle := hrest 10 h
    omega
  · have hle := hrest 17 h
    omega

end AetherStack.Source.Fec
