import AetherStack.Source.Fec

/-!
# The Viterbi decoder finds a cheapest path

A path is a list of input bits from the zero state; its cost against the received pairs
is the sum of its branch metrics. After every step of the forward pass the metric of a
state is the cost of a path into it, the traceback from there reads that path, and no
path into it is cheaper. An uncorrupted codeword has a path of cost zero, and only one:
from any state the two branches have different outputs.
-/
namespace AetherStack.Source.Fec

/-! ## Paths -/

def pathEnd (s : Nat) (us : List Nat) : Nat := us.foldl trellisNext s

def pathCost : Nat → List Nat → List Received → Nat
  | s, u :: us, r :: rs => branchMetric r s u + pathCost (trellisNext s u) us rs
  | _, _, _ => 0

def Binary (us : List Nat) : Prop := ∀ u ∈ us, u < 2

/-- The next state exists, and its top bit is the input that led to it. -/
theorem trellisNext_spec : ∀ s < numStates, ∀ u < 2,
    trellisNext s u < numStates ∧ (trellisNext s u >>> 5) &&& 1 = u := by
  decide

/-- The two branches out of a state never carry the same output. -/
theorem trellisOut_injective : ∀ s < numStates, ∀ u < 2, ∀ v < 2,
    (trellisOut s u >>> 1) ^^^ (trellisOut s v >>> 1) = 0 →
      (trellisOut s u &&& 1) ^^^ (trellisOut s v &&& 1) = 0 → u = v := by
  decide

/-- The table holds two bits for each branch. -/
theorem trellisOut_bits : ∀ s < numStates, ∀ u < 2,
    trellisOut s u >>> 1 < 2 ∧ trellisOut s u &&& 1 < 2 := by
  decide

theorem pathEnd_lt {s : Nat} {us : List Nat} (hs : s < numStates) (hus : Binary us) :
    pathEnd s us < numStates := by
  induction us generalizing s with
  | nil => exact hs
  | cons u us ih =>
    exact ih (trellisNext_spec s hs u (hus u (by simp))).1 (fun v hv => hus v (by simp [hv]))

theorem pathEnd_append (s : Nat) (us : List Nat) (u : Nat) :
    pathEnd s (us ++ [u]) = trellisNext (pathEnd s us) u := by
  simp [pathEnd]

/-- The cost of a path in two parts. -/
theorem pathCost_append_list (s : Nat) {us : List Nat} {rs : List Received}
    (h : us.length = rs.length) (vs : List Nat) (ts : List Received) :
    pathCost s (us ++ vs) (rs ++ ts) = pathCost s us rs + pathCost (pathEnd s us) vs ts := by
  induction us generalizing s rs with
  | nil =>
    obtain rfl : rs = [] := List.length_eq_zero_iff.mp h.symm
    simp [pathCost, pathEnd]
  | cons v us ih =>
    cases rs with
    | nil => simp at h
    | cons r rs =>
      have hrest := ih (trellisNext s v) (show us.length = rs.length by simpa using h)
      simp only [List.cons_append, pathCost, hrest, pathEnd, List.foldl_cons]
      omega

theorem pathCost_append (s : Nat) (us : List Nat) (rs : List Received) (u : Nat) (r : Received)
    (h : us.length = rs.length) :
    pathCost s (us ++ [u]) (rs ++ [r]) =
      pathCost s us rs + branchMetric r (pathEnd s us) u := by
  rw [pathCost_append_list s h]
  rfl

/-! ## One step -/

theorem getD_set (l : List Nat) (i j v d : Nat) (hi : i < l.length) :
    (l.set i v).getD j d = if i = j then v else l.getD j d := by
  simp only [List.getD_eq_getElem?_getD, List.getElem?_set]
  split
  · simp
  · rfl

/-- What the fold over a list of branches leaves behind, from any tables. -/
theorem foldl_relax (pm : List Nat) (r : Received) (branches : List (Nat × Nat)) (front : Front)
    (hbranches : ∀ b ∈ branches, b.1 < numStates ∧ b.2 < 2)
    (hm : front.metric.length = numStates) (hp : front.pred.length = numStates) :
    (branches.foldl (relax pm r) front).metric.length = numStates ∧
    (∀ ns, (branches.foldl (relax pm r) front).metric.getD ns inf ≤ front.metric.getD ns inf) ∧
    (∀ b ∈ branches, pm.getD b.1 inf < inf →
      (branches.foldl (relax pm r) front).metric.getD (trellisNext b.1 b.2) inf ≤
        pm.getD b.1 inf + branchMetric r b.1 b.2) ∧
    ∀ ns, ((branches.foldl (relax pm r) front).metric.getD ns inf = front.metric.getD ns inf ∧
        (branches.foldl (relax pm r) front).pred.getD ns 0 = front.pred.getD ns 0) ∨
      ∃ b ∈ branches, pm.getD b.1 inf < inf ∧ trellisNext b.1 b.2 = ns ∧
        (branches.foldl (relax pm r) front).metric.getD ns inf =
          pm.getD b.1 inf + branchMetric r b.1 b.2 ∧
        (branches.foldl (relax pm r) front).pred.getD ns 0 = b.1 := by
  induction branches generalizing front with
  | nil => exact ⟨hm, fun _ => Nat.le_refl _, by simp, fun _ => .inl ⟨rfl, rfl⟩⟩
  | cons b rest ih =>
    obtain ⟨s, u⟩ := b
    have hrest : ∀ b ∈ rest, b.1 < numStates ∧ b.2 < 2 := fun b hb => hbranches b (by simp [hb])
    obtain ⟨hs, hu⟩ := hbranches (s, u) (by simp)
    have hns := (trellisNext_spec s hs u hu).1
    rw [List.foldl_cons]
    by_cases hinf : pm.getD s inf ≥ inf
    · -- an unreachable state is skipped
      have hskip : relax pm r front (s, u) = front := by simp only [relax, if_pos hinf]
      rw [hskip]
      obtain ⟨h1, h2, h3, h4⟩ := ih front hrest hm hp
      refine ⟨h1, h2, ?_, ?_⟩
      · intro b hb hlt
        rcases List.mem_cons.mp hb with rfl | hb
        · exact absurd hinf (Nat.not_le.mpr hlt)
        · exact h3 b hb hlt
      · intro ns
        rcases h4 ns with hsame | ⟨b, hb, hrestb⟩
        · exact .inl hsame
        · exact .inr ⟨b, by simp [hb], hrestb⟩
    · by_cases hbetter : pm.getD s inf + branchMetric r s u < front.metric.getD (trellisNext s u) inf
      · have htake : relax pm r front (s, u) =
            ⟨front.metric.set (trellisNext s u) (pm.getD s inf + branchMetric r s u),
              front.pred.set (trellisNext s u) s⟩ := by
          simp only [relax, if_neg hinf, if_pos hbetter]
        rw [htake]
        obtain ⟨h1, h2, h3, h4⟩ := ih
          ⟨front.metric.set (trellisNext s u) (pm.getD s inf + branchMetric r s u),
            front.pred.set (trellisNext s u) s⟩ hrest (by simpa using hm) (by simpa using hp)
        simp only [getD_set _ _ _ _ _ (Nat.lt_of_lt_of_eq hns hm.symm),
          getD_set _ _ _ _ _ (Nat.lt_of_lt_of_eq hns hp.symm)] at h2 h4
        refine ⟨h1, ?_, ?_, ?_⟩
        · intro ns
          have := h2 ns
          split at this
          · rename_i heq
            subst heq
            omega
          · exact this
        · intro b hb hlt
          rcases List.mem_cons.mp hb with rfl | hb
          · simpa using h2 (trellisNext s u)
          · exact h3 b hb hlt
        · intro ns
          rcases h4 ns with ⟨hmetric, hpred⟩ | ⟨b, hb, hrestb⟩
          · by_cases heq : trellisNext s u = ns
            · rw [if_pos heq] at hmetric hpred
              exact .inr ⟨(s, u), by simp, by simpa using hinf, heq, hmetric, hpred⟩
            · rw [if_neg heq] at hmetric hpred
              exact .inl ⟨hmetric, hpred⟩
          · exact .inr ⟨b, by simp [hb], hrestb⟩
      · have hkeep : relax pm r front (s, u) = front := by
          simp only [relax, if_neg hinf, if_neg hbetter]
        rw [hkeep]
        obtain ⟨h1, h2, h3, h4⟩ := ih front hrest hm hp
        refine ⟨h1, h2, ?_, ?_⟩
        · intro b hb hlt
          rcases List.mem_cons.mp hb with rfl | hb
          · exact Nat.le_trans (h2 _) (Nat.not_lt.mp hbetter)
          · exact h3 b hb hlt
        · intro ns
          rcases h4 ns with hsame | ⟨b, hb, hrestb⟩
          · exact .inl hsame
          · exact .inr ⟨b, by simp [hb], hrestb⟩

/-- Every state has its two branches in the list. -/
theorem mem_branches {b : Nat × Nat} : b ∈ branches ↔ b.1 < numStates ∧ b.2 < 2 := by
  obtain ⟨s, u⟩ := b
  simp only [branches, List.mem_flatMap, List.mem_range, List.mem_cons, Prod.mk.injEq,
    List.not_mem_nil, or_false]
  constructor
  · rintro ⟨a, ha, ⟨rfl, rfl⟩ | ⟨rfl, rfl⟩⟩
    · exact ⟨ha, by decide⟩
    · exact ⟨ha, by decide⟩
  · intro ⟨hs, hu⟩
    refine ⟨s, hs, ?_⟩
    rcases Nat.lt_or_ge u 1 with h0 | h1
    · exact .inl ⟨rfl, by omega⟩
    · exact .inr ⟨rfl, by omega⟩

/-! ## The forward pass -/

/-- The tables after the pairs `rs`: `metric` is attained by the path the traceback reads,
and no cheaper path exists. -/
structure Survivors (rs : List Received) (pm : List Nat) (hist : List (List Nat)) : Prop where
  attained : ∀ s < numStates, pm.getD s inf < inf → ∃ us, us.length = rs.length ∧ Binary us ∧
    pathEnd 0 us = s ∧ pathCost 0 us rs = pm.getD s inf ∧
    ∀ acc, traceback hist s acc = us.map UInt8.ofNat ++ acc
  minimal : ∀ us, us.length = rs.length → Binary us → pathCost 0 us rs < inf →
    pm.getD (pathEnd 0 us) inf ≤ pathCost 0 us rs

/-- Before the first pair only state 0 is reached. -/
theorem survivors_start : Survivors [] (0 :: List.replicate (numStates - 1) inf) [] where
  attained := by
    intro s hs hlt
    cases s with
    | zero => exact ⟨[], rfl, by simp [Binary], rfl, rfl, fun acc => rfl⟩
    | succ s =>
      have : (0 :: List.replicate (numStates - 1) inf).getD (s + 1) inf = inf := by
        rw [List.getD_cons_succ, List.getD_eq_getElem?_getD, List.getElem?_replicate]
        split <;> rfl
      omega
  minimal := by
    intro us hlen _ _
    obtain rfl : us = [] := List.length_eq_zero_iff.mp hlen
    exact Nat.le_refl _

/-- One pair more. -/
theorem Survivors.step {rs : List Received} {pm : List Nat} {hist : List (List Nat)}
    (h : Survivors rs pm hist) (r : Received) :
    Survivors (rs ++ [r]) (viterbiStep pm r).metric ((viterbiStep pm r).pred :: hist) := by
  obtain ⟨-, -, hle, hwit⟩ := foldl_relax pm r branches Front.start
    (fun b hb => mem_branches.mp hb) (by simp [Front.start]) (by simp [Front.start])
  have hstart : ∀ ns, Front.start.metric.getD ns inf = inf := by
    intro ns
    rw [Front.start, List.getD_eq_getElem?_getD, List.getElem?_replicate]
    split <;> rfl
  constructor
  · intro ns hns hlt
    rcases hwit ns with ⟨hsame, -⟩ | ⟨⟨s, u⟩, hb, hreach, hnext, hmetric, hpred⟩
    · rw [hstart] at hsame
      exact absurd hsame (Nat.ne_of_lt hlt)
    · obtain ⟨hs, hu⟩ := mem_branches.mp hb
      obtain ⟨us, hlen, hbin, hend, hcost, htrace⟩ := h.attained s hs hreach
      refine ⟨us ++ [u], by simp [hlen], ?_, ?_, ?_, ?_⟩
      · intro v hv
        rcases List.mem_append.mp hv with hv | hv
        · exact hbin v hv
        · rwa [List.mem_singleton.mp hv]
      · rw [pathEnd_append, hend]
        exact hnext
      · rw [pathCost_append _ _ _ _ _ hlen, hend, hcost]
        exact hmetric.symm
      · intro acc
        have hbit : (ns >>> 5) &&& 1 = u := by
          rw [← hnext]
          exact (trellisNext_spec s hs u hu).2
        have hp : (viterbiStep pm r).pred.getD ns 0 = s := hpred
        rw [traceback, hp, hbit, htrace]
        simp
  · intro us hlen hbin hlt
    -- split the last input off and use the survivor of the state before it
    rcases List.eq_nil_or_concat us with rfl | ⟨init, u, rfl⟩
    · simp at hlen
    · rw [List.concat_eq_append] at hlen hbin hlt ⊢
      have hinit : init.length = rs.length := by simpa using hlen
      have hbin' : Binary init := fun v hv => hbin v (by simp [hv])
      rw [pathCost_append _ _ _ _ _ hinit] at hlt ⊢
      rw [pathEnd_append]
      have hmin := h.minimal init hinit hbin' (by omega)
      have hmem : (pathEnd 0 init, u) ∈ branches :=
        mem_branches.mpr ⟨pathEnd_lt (by decide) hbin', hbin u (by simp)⟩
      have := hle _ hmem (by simp only; omega)
      exact Nat.le_trans this (by simp only; omega)

/-- Add-compare-select over all pairs keeps the survivors. -/
theorem Survivors.forward {rs : List Received} {pm : List Nat} {hist : List (List Nat)}
    (h : Survivors rs pm hist) (more : List Received) :
    Survivors (rs ++ more) (forward pm hist more).1 (Fec.forward pm hist more).2 := by
  induction more generalizing rs pm hist with
  | nil => simpa [Fec.forward] using h
  | cons r more ih =>
    have := ih (h.step r)
    rwa [List.append_assoc] at this

/-- The traceback starts at the first of the cheapest states. -/
theorem bestState_spec (pm : List Nat) :
    bestState pm < numStates ∧ ∀ s < numStates, pm.getD (bestState pm) inf < pm.getD s inf ∨
      pm.getD (bestState pm) inf = pm.getD s inf ∧ bestState pm ≤ s := by
  have hfold : ∀ k ≤ numStates,
      let best := (List.range k).foldl
        (fun best s => if pm.getD s inf < pm.getD best inf then s else best) 0
      best < numStates ∧ best ≤ k ∧ ∀ s < k, pm.getD best inf < pm.getD s inf ∨
        pm.getD best inf = pm.getD s inf ∧ best ≤ s := by
    intro k
    induction k with
    | zero => exact fun _ => ⟨Nat.succ_pos 63, Nat.le_refl _, fun s hs => absurd hs (Nat.not_lt_zero s)⟩
    | succ k ih =>
      intro hk
      obtain ⟨hlt, hle, hmin⟩ := ih (by omega)
      simp only [List.range_succ, List.foldl_append, List.foldl_cons, List.foldl_nil]
      generalize (List.range k).foldl
        (fun best s => if pm.getD s inf < pm.getD best inf then s else best) 0 = best at hlt hle hmin ⊢
      by_cases hbetter : pm.getD k inf < pm.getD best inf
      · rw [if_pos hbetter]
        refine ⟨hk, Nat.le_succ k, fun s hs => ?_⟩
        rcases Nat.lt_succ_iff_lt_or_eq.mp hs with hs | rfl
        · rcases hmin s hs with h | ⟨h, -⟩
          · exact .inl (hbetter.trans h)
          · exact .inl (h ▸ hbetter)
        · exact .inr ⟨rfl, Nat.le_refl _⟩
      · rw [if_neg hbetter]
        refine ⟨hlt, Nat.le_succ_of_le hle, fun s hs => ?_⟩
        rcases Nat.lt_succ_iff_lt_or_eq.mp hs with hs | rfl
        · exact hmin s hs
        · rcases Nat.lt_or_eq_of_le (Nat.not_lt.mp hbetter) with h | h
          · exact .inl h
          · exact .inr ⟨h, hle⟩
  exact ⟨(hfold numStates (Nat.le_refl _)).1, (hfold numStates (Nat.le_refl _)).2.2⟩

/-- No input sequence is nearer, and none that is as near ends in a lower state. -/
def Nearest (rs : List Received) (vs : List Nat) : Prop :=
  ∀ us, us.length = rs.length → Binary us → pathCost 0 vs rs < pathCost 0 us rs ∨
    pathCost 0 vs rs = pathCost 0 us rs ∧ pathEnd 0 vs ≤ pathEnd 0 us

theorem length_receivedPairs (coded : Bytes) (soft : Option Bytes) :
    (receivedPairs coded soft).length = coded.length / 2 := by
  induction coded, soft using receivedPairs.induct with
  | case1 c0 c1 rest soft ih =>
    rw [receivedPairs, List.length_cons, ih]
    simp only [List.length_cons]
    omega
  | case2 coded soft hshort =>
    rw [receivedPairs.eq_2 _ _ hshort]
    match coded with
    | [] => rfl
    | [c] => simp
    | c0 :: c1 :: rest => exact absurd rfl (hshort c0 c1 rest)

/-- The decoder returns the inputs of a nearest sequence without the last six, where some
sequence is near enough for its metrics. -/
theorem fecDecode_nearest {coded : Bytes} {soft : Option Bytes} (heven : coded.length % 2 = 0)
    (hsteps : tailBits ≤ coded.length / 2) {us : List Nat} (hlen : us.length = coded.length / 2)
    (hus : Binary us) (hfinite : pathCost 0 us (receivedPairs coded soft) < inf) :
    ∃ vs, vs.length = coded.length / 2 ∧ Binary vs ∧ Nearest (receivedPairs coded soft) vs ∧
      fecDecode coded soft = .ok ((vs.map UInt8.ofNat).take (coded.length / 2 - tailBits)) := by
  have hne : ¬ (coded.length % 2 ≠ 0 ∨ coded = []) := by
    rintro (hodd | rfl)
    · exact hodd heven
    · exact absurd hsteps (by decide)
  have hsurv := survivors_start.forward (receivedPairs coded soft)
  have hpairs := length_receivedPairs coded soft
  rw [List.nil_append] at hsurv
  generalize hfwd : forward (0 :: List.replicate (numStates - 1) inf) []
    (receivedPairs coded soft) = res at hsurv
  obtain ⟨hbest, hfirst⟩ := bestState_spec res.1
  -- the cost of any sequence bounds the metric of the state it ends in
  have hle : ∀ ws, ws.length = (receivedPairs coded soft).length → Binary ws →
      pathCost 0 ws (receivedPairs coded soft) < inf →
      res.1.getD (pathEnd 0 ws) inf ≤ pathCost 0 ws (receivedPairs coded soft) := hsurv.minimal
  have hreach : res.1.getD (bestState res.1) inf < inf := by
    have hcost := hle us (hlen.trans hpairs.symm) hus hfinite
    rcases hfirst _ (pathEnd_lt (s := 0) (by decide) hus) with h | ⟨h, -⟩ <;> omega
  obtain ⟨vs, hvlen, hvs, hend, hcost, htrace⟩ := hsurv.attained _ hbest hreach
  refine ⟨vs, hvlen.trans hpairs, hvs, ?_, ?_⟩
  · intro ws hwlen hws
    rw [hcost, hend]
    by_cases hfar : pathCost 0 ws (receivedPairs coded soft) < inf
    · have hmetric := hle ws hwlen hws hfar
      rcases hfirst _ (pathEnd_lt (s := 0) (by decide) hws) with h | ⟨h, hlow⟩
      · exact .inl (h.trans_le hmetric)
      · rcases Nat.lt_or_eq_of_le hmetric with hlt | heq
        · exact .inl (h ▸ hlt)
        · exact .inr ⟨h.trans heq, hlow⟩
    · exact .inl (hreach.trans_le (Nat.not_lt.mp hfar))
  · simp only [fecDecode, if_neg hne, hfwd, htrace, List.append_nil]
    rw [if_neg (Nat.not_lt.mpr hsteps)]

/-! ## Uncorrupted codewords -/

/-- The coded bits of a path, two for each input. -/
def codeword : Nat → List Nat → Bytes
  | _, [] => []
  | s, u :: us =>
    UInt8.ofNat (trellisOut s u >>> 1) :: UInt8.ofNat (trellisOut s u &&& 1) ::
      codeword (trellisNext s u) us

theorem foldl_emit (us : List Nat) (s : Nat) (acc : Bytes) :
    (us.foldl emit (s, acc)).2 = acc ++ codeword s us := by
  induction us generalizing s acc with
  | nil => simp [codeword]
  | cons u us ih =>
    rw [List.foldl_cons, emit, ih, codeword]
    simp

theorem length_codeword (s : Nat) (us : List Nat) : (codeword s us).length = 2 * us.length := by
  induction us generalizing s with
  | nil => rfl
  | cons u us ih =>
    rw [codeword, List.length_cons, List.length_cons, ih, List.length_cons]
    omega

/-- A bit survives the octet it is stored in. -/
private theorem ofNat_pos_iff : ∀ b < 2, (if UInt8.ofNat b > 0 then 1 else 0) = b := by decide

/-- The sent path costs nothing, and it is the only one that does. -/
theorem pathCost_codeword {s : Nat} {us : List Nat} (hs : s < numStates) (hus : Binary us)
    {vs : List Nat} (hvs : Binary vs) (hlen : vs.length = us.length) :
    pathCost s vs (receivedPairs (codeword s us) none) = 0 ↔ vs = us := by
  induction us generalizing s vs with
  | nil =>
    obtain rfl : vs = [] := List.length_eq_zero_iff.mp hlen
    simp [pathCost]
  | cons u us ih =>
    cases vs with
    | nil => simp at hlen
    | cons v vs =>
      have hu := hus u (by simp)
      have hv := hvs v (by simp)
      obtain ⟨hb1, hb2⟩ := trellisOut_bits s hs u hu
      have hbranch : branchMetric ⟨trellisOut s u >>> 1, trellisOut s u &&& 1, 1, 1⟩ s v = 0 ↔
          v = u := by
        simp only [branchMetric]
        constructor
        · intro hzero
          have h1 : (trellisOut s u >>> 1) ^^^ (trellisOut s v >>> 1) = 0 := by
            by_contra hne
            rw [if_pos hne] at hzero
            omega
          have h2 : (trellisOut s u &&& 1) ^^^ (trellisOut s v &&& 1) = 0 := by
            by_contra hne
            rw [if_pos hne] at hzero
            omega
          exact (trellisOut_injective s hs u hu v hv h1 h2).symm
        · rintro rfl
          simp
      have hpair : receivedPairs (codeword s (u :: us)) none =
          ⟨trellisOut s u >>> 1, trellisOut s u &&& 1, 1, 1⟩ ::
            receivedPairs (codeword (trellisNext s u) us) none := by
        rw [codeword, receivedPairs, ofNat_pos_iff _ hb1, ofNat_pos_iff _ hb2]
        rfl
      rw [hpair, pathCost, Nat.add_eq_zero_iff, hbranch, List.cons.injEq]
      constructor
      · rintro ⟨rfl, hrest⟩
        refine ⟨rfl, (ih (trellisNext_spec s hs v hv).1 (fun w hw => hus w (by simp [hw]))
          (fun w hw => hvs w (by simp [hw])) (by simpa using hlen)).mp hrest⟩
      · rintro ⟨rfl, rfl⟩
        exact ⟨rfl, (ih (trellisNext_spec s hs v hv).1 (fun w hw => hus w (by simp [hw]))
          (fun w hw => hvs w (by simp [hw])) rfl).mpr rfl⟩

/-- Decoding the codeword of any path of six or more inputs returns all but the last six. -/
theorem fecDecode_codeword {us : List Nat} (hus : Binary us) (hlen : tailBits ≤ us.length) :
    fecDecode (codeword 0 us) none =
      .ok ((us.map UInt8.ofNat).take (us.length - tailBits)) := by
  have hhalf : (codeword 0 us).length / 2 = us.length := by
    rw [length_codeword]
    omega
  have hzero : pathCost 0 us (receivedPairs (codeword 0 us) none) = 0 :=
    (pathCost_codeword (by decide) hus hus rfl).mpr rfl
  have heven : (codeword 0 us).length % 2 = 0 := by
    rw [length_codeword]
    omega
  have hfinite : pathCost 0 us (receivedPairs (codeword 0 us) none) < inf := by
    rw [hzero]
    decide
  obtain ⟨vs, hvlen, hvs, hnearest, hdecode⟩ :=
    fecDecode_nearest heven (hhalf ▸ hlen) hhalf.symm hus hfinite
  have hcost : pathCost 0 vs (receivedPairs (codeword 0 us) none) = 0 := by
    have hmin := hnearest us (by rw [length_receivedPairs, hhalf]) hus
    omega
  obtain rfl := (pathCost_codeword (by decide) hus hvs (hvlen.trans hhalf)).mp hcost
  rw [hdecode, hhalf]

/-- The decoder inverts the encoder on every list of bits. -/
theorem fecDecode_fecEncode {bits : Bytes} (hbits : ∀ b ∈ bits, b = 0 ∨ b = 1) :
    fecDecode (fecEncode bits) none = .ok bits := by
  have henc : fecEncode bits =
      codeword 0 ((bits.map fun b => if b ≠ 0 then 1 else 0) ++ List.replicate tailBits 0) := by
    rw [fecEncode, foldl_emit, List.nil_append]
  rw [henc, fecDecode_codeword]
  · congr 1
    rw [List.map_append, List.take_left' (by simp), List.map_map]
    refine (List.map_congr_left ?_).trans (List.map_id _)
    intro b hb
    rcases hbits b hb with rfl | rfl <;> rfl
  · intro u hu
    rcases List.mem_append.mp hu with hu | hu
    · obtain ⟨b, -, rfl⟩ := List.mem_map.mp hu
      split <;> decide
    · rw [List.eq_of_mem_replicate hu]
      decide
  · simp

end AetherStack.Source.Fec
