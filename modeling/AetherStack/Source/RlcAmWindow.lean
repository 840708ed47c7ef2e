import AetherStack.Lib.Run
import AetherStack.Source.RlcAmReceiver

/-!
# The window of `AmRx` under arbitrary PDUs

What one call does to the window edge, the holes and the hold area, whatever arrives, as long as
the sequence numbers stay below `n ≤ 65535` and so do not wrap. `Released` is what the release
of the hold area does, and `Window` what every call keeps.
-/
namespace AetherStack.Source.AmRx

/-- The edge advanced by `m` over PDUs that are accepted and gone. -/
structure Released (m : Nat) (r : AmRx) (out : AmOutcome) (next : AmRx × AmOutcome) : Prop where
  edge : next.1.vrNext = r.vrNext + m
  reorder : ∀ sn, next.1.reorder[sn]? =
    if r.vrNext ≤ sn ∧ sn < r.vrNext + m then none else r.reorder[sn]?
  holes : ∀ sn, sn ∈ next.1.holes ↔ sn ∈ r.holes ∧ ¬ (r.vrNext ≤ sn ∧ sn < r.vrNext + m)
  accepted : ∀ sn held, (sn, held) ∈ next.2.accepted ↔
    (sn, held) ∈ out.accepted ∨ (r.vrNext ≤ sn ∧ sn < r.vrNext + m ∧ r.reorder[sn]? = some held)
  present : ∀ sn, r.vrNext ≤ sn → sn < r.vrNext + m → sn ∈ r.reorder
  lost : next.2.lost = out.lost
  seen : next.1.seen = r.seen
  accepts : next.1.accepts = r.accepts + m
  tickAccepts : next.1.tickAccepts = r.tickAccepts
  lastProgressMs : next.1.lastProgressMs = r.lastProgressMs

theorem Released.refl (r : AmRx) (out : AmOutcome) : Released 0 r out (r, out) where
  edge := rfl
  reorder := fun sn => by rw [if_neg (by omega)]
  holes := fun sn => by
    constructor
    · exact fun h => ⟨h, by omega⟩
    · exact fun h => h.1
  accepted := fun sn held => by
    constructor
    · exact .inl
    · rintro (h | ⟨hlow, hhigh, -⟩)
      · exact h
      · omega
  present := fun sn hlow hhigh => by omega
  lost := rfl
  seen := rfl
  accepts := rfl
  tickAccepts := rfl
  lastProgressMs := rfl

theorem mem_reorder_of_getElem? {r : AmRx} {sn : Nat} {held : Held} (h : r.reorder[sn]? = some held) :
    sn ∈ r.reorder := by
  rw [Std.ExtTreeMap.mem_iff_isSome_getElem?, h]
  rfl

/-- What is held after the release was held before it. -/
theorem Released.mem_reorder {m : Nat} {r : AmRx} {out : AmOutcome} {next : AmRx × AmOutcome}
    (h : Released m r out next) {sn : Nat} (hsn : sn ∈ next.1.reorder) : sn ∈ r.reorder := by
  rw [Std.ExtTreeMap.mem_iff_isSome_getElem?, h.reorder sn] at hsn
  split at hsn
  · cases hsn
  · exact Std.ExtTreeMap.mem_iff_isSome_getElem?.mpr hsn

/-- One turn of the release in front of the others. -/
theorem Released.turn {m : Nat} {r : AmRx} {out : AmOutcome} {held : Held} {next : AmRx × AmOutcome}
    (hheld : r.reorder[r.vrNext]? = some held) (hwrap : r.vrNext + 1 < snModulus)
    (h : Released m
      { (r.acceptInOrder r.vrNext held out).1 with
        reorder := (r.acceptInOrder r.vrNext held out).1.reorder.erase r.vrNext }
      (r.acceptInOrder r.vrNext held out).2 next) :
    Released (m + 1) r out next := by
  rw [acceptInOrder_eq] at h
  have hmod : (r.vrNext + 1) % snModulus = r.vrNext + 1 := Nat.mod_eq_of_lt hwrap
  obtain ⟨hedge, hreorder, hholes, haccepted, hpresent, hlost, hseen, haccepts, hticks, hprogress⟩ := h
  simp only [hmod] at hedge hreorder hholes haccepted hpresent
  dsimp only at haccepts
  have herase : ∀ sn : Nat, (r.reorder.erase r.vrNext)[sn]? =
      if sn = r.vrNext then none else r.reorder[sn]? := by
    intro sn
    have hkey : compare r.vrNext sn = .eq ↔ sn = r.vrNext := by
      rw [Nat.compare_eq_eq, eq_comm]
    rw [Std.ExtTreeMap.getElem?_erase]
    simp only [hkey]
  exact {
    edge := by omega
    reorder := fun sn => by
      rw [hreorder sn, herase sn]
      split_ifs <;> first | rfl | omega
    holes := fun sn => by
      rw [hholes sn, Std.ExtTreeSet.mem_erase, ne_eq, Nat.compare_eq_eq]
      constructor
      · rintro ⟨⟨hne, hmem⟩, hout⟩
        exact ⟨hmem, by omega⟩
      · rintro ⟨hmem, hout⟩
        exact ⟨⟨by omega, hmem⟩, by omega⟩
    accepted := fun sn held' => by
      rw [haccepted sn held', herase sn, List.mem_append, List.mem_singleton, Prod.mk.injEq]
      constructor
      · rintro ((hold | ⟨rfl, rfl⟩) | ⟨hlow, hhigh, hget⟩)
        · exact .inl hold
        · exact .inr ⟨le_rfl, by omega, hheld⟩
        · rw [if_neg (by omega)] at hget
          exact .inr ⟨by omega, by omega, hget⟩
      · rintro (hold | ⟨hlow, hhigh, hget⟩)
        · exact .inl (.inl hold)
        · by_cases heq : sn = r.vrNext
          · subst heq
            exact .inl (.inr ⟨rfl, Option.some.inj (hget.symm.trans hheld)⟩)
          · exact .inr ⟨by omega, by omega, by rw [if_neg heq, hget]⟩
    present := fun sn hlow hhigh => by
      by_cases heq : sn = r.vrNext
      · rw [heq]
        exact mem_reorder_of_getElem? hheld
      · exact (Std.ExtTreeMap.mem_erase.mp (hpresent sn (by omega) (by omega))).2
    lost := hlost
    seen := hseen
    accepts := by omega
    tickAccepts := hticks
    lastProgressMs := hprogress }

/-- The numbers in the hold area do not reach the end of the space. -/
def HeldBelow (n : Nat) (r : AmRx) : Prop := ∀ sn ∈ r.reorder, sn < n

/-- Draining moves the edge over a run of held PDUs. -/
theorem drainLoop_released {n : Nat} (hn : n < snModulus) (fuel : Nat) (r : AmRx) (out : AmOutcome)
    (hbelow : HeldBelow n r) : ∃ m, Released m r out (drainLoop fuel r out) := by
  induction fuel generalizing r out with
  | zero => exact ⟨0, .refl r out⟩
  | succ fuel ih =>
    unfold drainLoop
    split
    · exact ⟨0, .refl r out⟩
    · rename_i held hheld
      have hedge := hbelow r.vrNext (mem_reorder_of_getElem? hheld)
      obtain ⟨m, hm⟩ := ih { (r.acceptInOrder r.vrNext held out).1 with
          reorder := (r.acceptInOrder r.vrNext held out).1.reorder.erase r.vrNext }
        (r.acceptInOrder r.vrNext held out).2 (by
          intro sn hsn
          rw [acceptInOrder_reorder] at hsn
          exact hbelow sn (Std.ExtTreeMap.mem_of_mem_erase hsn))
      exact ⟨m + 1, hm.turn hheld (by omega)⟩

/-- The loop leaves nothing in the hold area that is now in order: its fuel suffices. -/
theorem drainLoop_done (fuel : Nat) (r : AmRx) (out : AmOutcome) (h : r.reorder.size ≤ fuel) :
    (drainLoop fuel r out).1.vrNext ∉ (drainLoop fuel r out).1.reorder := by
  induction fuel generalizing r out with
  | zero =>
    have hempty : r.reorder = ∅ := Std.ExtTreeMap.eq_empty_iff_size_eq_zero.mpr (by omega)
    simp [drainLoop, hempty]
  | succ fuel ih =>
    unfold drainLoop
    split
    · rename_i hnone
      rw [Std.ExtTreeMap.mem_iff_isSome_getElem?, hnone]
      exact Bool.false_ne_true
    · rename_i held hheld
      apply ih
      have hmem := mem_reorder_of_getElem? hheld
      have hsize : (r.reorder.erase r.vrNext).size = r.reorder.size - 1 := by
        rw [Std.ExtTreeMap.size_erase, if_pos (Std.ExtTreeMap.mem_iff_contains.mp hmem)]
      dsimp only
      rw [acceptInOrder_reorder, hsize]
      omega

/-! ### Holes -/

/-- The numbers from `sn` on become holes, all of them or until there are too many. -/
theorem recordHoles_range (count sn : Nat) (holes : SnSet) (gaps : Nat) (needed : Bool) :
    ∃ k ≤ count,
      (∀ x, x ∈ (recordHoles count sn (holes, gaps, needed)).1 ↔ x ∈ holes ∨ (sn ≤ x ∧ x < sn + k)) ∧
      (k = count ∨ kMaxHoles ≤ (recordHoles count sn (holes, gaps, needed)).1.size) := by
  induction count generalizing sn holes gaps needed with
  | zero => exact ⟨0, le_rfl, fun x => by simp [recordHoles], .inl rfl⟩
  | succ count ih =>
    unfold recordHoles
    split
    · obtain ⟨k, hk, hmem, hfull⟩ := ih (sn + 1) (holes.insert sn) (gaps + 1) true
      refine ⟨k + 1, by omega, fun x => ?_, ?_⟩
      · rw [hmem x, Std.ExtTreeSet.mem_insert, Nat.compare_eq_eq]
        constructor
        · rintro ((rfl | hx) | hx)
          · exact .inr (by omega)
          · exact .inl hx
          · exact .inr (by omega)
        · rintro (hx | hx)
          · exact .inl (.inr hx)
          · by_cases heq : sn = x
            · exact .inl (.inl heq)
            · exact .inr (by omega)
      · exact hfull.imp (fun heq => by omega) id
    · rename_i hfull
      refine ⟨0, Nat.zero_le _, fun x => ⟨.inl, ?_⟩, .inr (not_lt.mp hfull)⟩
      rintro (hx | hx)
      · exact hx
      · omega

/-! ### The invariant -/

/-- Every hole and every held PDU is of the peer, and no held PDU is next in order. -/
structure Window (n : Nat) (r : AmRx) : Prop where
  edge : r.vrNext ≤ n
  holes : ∀ sn ∈ r.holes, r.vrNext ≤ sn ∧ sn < n
  held : HeldBelow n r
  resting : r.vrNext ∉ r.reorder

theorem window_reset (n : Nat) (r : AmRx) : Window n r.reset where
  edge := Nat.zero_le n
  holes := fun sn h => by simp [reset] at h
  held := fun sn h => by simp [reset] at h
  resting := by simp [reset]

/-- Releasing keeps the holes and the held PDUs where they belong. -/
theorem Released.window {n m : Nat} {r : AmRx} {out : AmOutcome} {next : AmRx × AmOutcome}
    (h : Released m r out next) (edge : r.vrNext ≤ n) (holes : ∀ sn ∈ r.holes, r.vrNext ≤ sn ∧ sn < n)
    (held : HeldBelow n r) (resting : next.1.vrNext ∉ next.1.reorder) : Window n next.1 where
  edge := by
    rw [h.edge]
    cases m with
    | zero => exact edge
    | succ m =>
      have hlast := held _ (h.present (r.vrNext + m) (by omega) (by omega))
      omega
  holes := fun sn hsn => by
    obtain ⟨hmem, hout⟩ := (h.holes sn).mp hsn
    obtain ⟨hlow, hhigh⟩ := holes sn hmem
    rw [h.edge]
    omega
  held := fun sn hsn => by
    rw [Std.ExtTreeMap.mem_iff_isSome_getElem?, h.reorder sn] at hsn
    split at hsn
    · cases hsn
    · exact held sn (Std.ExtTreeMap.mem_iff_isSome_getElem?.mpr hsn)
  resting := resting

/-! ### The duplicate filter -/

theorem mem_markSeen {seen : SnSet} {seq sn : Nat} (h : sn ∈ markSeen seen seq) : sn = seq ∨ sn ∈ seen := by
  have hinsert : sn ∈ seen.insert seq := by
    unfold markSeen at h
    dsimp only at h
    split at h
    · split at h
      · exact Std.ExtTreeSet.mem_of_mem_erase h
      · exact h
    · exact h
  rw [Std.ExtTreeSet.mem_insert, Nat.compare_eq_eq] at hinsert
  exact hinsert.imp Eq.symm id

/-- The filter forgets no number that is above another one. -/
theorem mem_markSeen_of_lt {seen : SnSet} {seq low sn : Nat} (hlow : low ∈ seen.insert seq)
    (h : sn ∈ seen.insert seq) (hlt : low < sn) : sn ∈ markSeen seen seq := by
  unfold markSeen
  dsimp only
  split
  · split
    · rename_i smallest hmin
      have hle := (Std.ExtTreeSet.min?_eq_some_iff_mem_and_forall.mp hmin).2 low hlow
      rw [Nat.isLE_compare] at hle
      refine Std.ExtTreeSet.mem_erase.mpr ⟨?_, h⟩
      rw [ne_eq, Nat.compare_eq_eq]
      omega
    · exact h
  · exact h

/-! ### A PDU -/

theorem mem_insert_reorder {r : AmRx} {seq sn : Nat} {held : Held} :
    sn ∈ r.reorder.insert seq held ↔ sn = seq ∨ sn ∈ r.reorder := by
  rw [Std.ExtTreeMap.mem_insert, Nat.compare_eq_eq, eq_comm]

/-- Accepting the PDU at the edge is releasing it as if it had been held. -/
theorem acceptAndDrain_released {n : Nat} (hn : n < snModulus) {r : AmRx} {d : AmDataPdu}
    (hseq : d.seq = r.vrNext) (hlt : d.seq < n) (h : HeldBelow n r) (hrest : r.vrNext ∉ r.reorder) :
    ∃ m, Released (m + 1) { r with reorder := r.reorder.insert d.seq ⟨d.fi, d.payload⟩ } {}
      (r.acceptAndDrain d) := by
  have herase : (r.reorder.insert r.vrNext ⟨d.fi, d.payload⟩).erase r.vrNext = r.reorder := by
    refine Std.ExtTreeMap.ext_getElem? fun sn => ?_
    rw [Std.ExtTreeMap.getElem?_erase, Std.ExtTreeMap.getElem?_insert]
    split
    · rename_i heq
      rw [Nat.compare_eq_eq.mp heq] at hrest
      rw [Std.ExtTreeMap.getElem?_eq_none hrest]
    · rfl
  obtain ⟨m, hm⟩ := drainLoop_released hn (r.acceptInOrder d.seq ⟨d.fi, d.payload⟩ {}).1.reorder.size
    (r.acceptInOrder d.seq ⟨d.fi, d.payload⟩ {}).1 (r.acceptInOrder d.seq ⟨d.fi, d.payload⟩ {}).2 (by
      intro sn hsn
      rw [acceptInOrder_reorder] at hsn
      exact h sn hsn)
  have hheld : (r.reorder.insert d.seq ⟨d.fi, d.payload⟩)[r.vrNext]? = some ⟨d.fi, d.payload⟩ := by
    rw [hseq]
    exact Std.ExtTreeMap.getElem?_insert_self
  refine ⟨m, Released.turn hheld (by show r.vrNext + 1 < _; omega) ?_⟩
  rw [acceptAndDrain, drainReorder]
  convert hm using 1
  · rw [acceptInOrder_eq, acceptInOrder_eq, hseq]
    simp only [herase, reassembler]
  · rw [acceptInOrder_eq, acceptInOrder_eq, hseq]
    simp only [reassembler]

theorem acceptAndDrain_resting (r : AmRx) (d : AmDataPdu) :
    (r.acceptAndDrain d).1.vrNext ∉ (r.acceptAndDrain d).1.reorder :=
  drainLoop_done _ _ _ le_rfl

/-- What a PDU does that is neither a duplicate nor stale, but for the poll bit. -/
def handleNew (r : AmRx) (d : AmDataPdu) : AmRx × AmOutcome :=
  if d.seq > r.vrNext then holdAhead { r with seen := markSeen r.seen d.seq } d
  else acceptAndDrain { r with seen := markSeen r.seen d.seq } d

/-- The four things that can become of a PDU. -/
theorem rxData_cases (r : AmRx) (d : AmDataPdu) :
    (d.seq ∈ r.seen ∧ r.rxData d = (r, {})) ∨
    (d.seq ∉ r.seen ∧ d.seq < r.vrNext ∧ r.rxData d = ({ r with seen := markSeen r.seen d.seq }, {})) ∨
    (d.seq ∉ r.seen ∧ r.vrNext ≤ d.seq ∧ (r.rxData d).1 = (r.handleNew d).1 ∧
      (r.rxData d).2.accepted = (r.handleNew d).2.accepted ∧ (r.rxData d).2.lost = (r.handleNew d).2.lost) := by
  unfold rxData
  split
  · rename_i hseen
    exact .inl ⟨hseen, rfl⟩
  · rename_i hnew
    dsimp only
    split
    · rename_i hstale
      exact .inr (.inl ⟨hnew, hstale, rfl⟩)
    · rename_i hahead
      refine .inr (.inr ⟨hnew, not_lt.mp hahead, ?_⟩)
      unfold handleNew
      split <;> split <;> exact ⟨rfl, rfl, rfl⟩

theorem holdAhead_reorder (r : AmRx) (d : AmDataPdu) : (r.holdAhead d).1.reorder =
    if r.reorder.size < kMaxReorder then r.reorder.insert d.seq ⟨d.fi, d.payload⟩ else r.reorder := by
  unfold holdAhead
  dsimp only
  split <;> rfl

/-- The gap in front of the PDU becomes holes, up to the bound on their number. -/
theorem holdAhead_holes (r : AmRx) (d : AmDataPdu) : ∃ k ≤ d.seq - r.vrNext,
    (∀ sn, sn ∈ (r.holdAhead d).1.holes ↔ sn ∈ r.holes ∨ (r.vrNext ≤ sn ∧ sn < r.vrNext + k)) ∧
    (k = d.seq - r.vrNext ∨ kMaxHoles ≤ (r.holdAhead d).1.holes.size) := by
  have hholes : (r.holdAhead d).1.holes =
      (recordHoles (d.seq - r.vrNext) r.vrNext (r.holes, r.gaps, false)).1 := by
    unfold holdAhead
    dsimp only
    split <;> rfl
  rw [hholes]
  exact recordHoles_range _ _ _ _ _

/-- Nothing is accepted, and the clockwork stands still. -/
theorem holdAhead_frame (r : AmRx) (d : AmDataPdu) :
    (r.holdAhead d).1.vrNext = r.vrNext ∧ (r.holdAhead d).1.seen = r.seen ∧
      (r.holdAhead d).1.accepts = r.accepts ∧ (r.holdAhead d).1.tickAccepts = r.tickAccepts ∧
      (r.holdAhead d).1.lastProgressMs = r.lastProgressMs ∧ (r.holdAhead d).2.accepted = [] := by
  unfold holdAhead
  dsimp only
  split <;> exact ⟨rfl, rfl, rfl, rfl, rfl, rfl⟩

theorem Window.withSeen {n : Nat} {r : AmRx} (h : Window n r) (seen : SnSet) :
    Window n { r with seen := seen } :=
  ⟨h.edge, h.holes, h.held, h.resting⟩

/-- A PDU held ahead keeps the window. -/
theorem holdAhead_window {n : Nat} {r : AmRx} {d : AmDataPdu} (h : Window n r) (hlt : d.seq < n)
    (hahead : r.vrNext < d.seq) : Window n (r.holdAhead d).1 := by
  obtain ⟨hedge, -⟩ := r.holdAhead_frame d
  obtain ⟨k, hk, hholes, -⟩ := r.holdAhead_holes d
  have hheld : ∀ sn ∈ (r.holdAhead d).1.reorder, sn = d.seq ∨ sn ∈ r.reorder := by
    intro sn hsn
    rw [holdAhead_reorder] at hsn
    split at hsn
    · exact mem_insert_reorder.mp hsn
    · exact .inr hsn
  constructor
  · rw [hedge]
    exact h.edge
  · intro sn hsn
    rw [hedge]
    rcases (hholes sn).mp hsn with hold | hnew
    · exact h.holes sn hold
    · omega
  · intro sn hsn
    rcases hheld sn hsn with rfl | hold
    · exact hlt
    · exact h.held sn hold
  · intro hmem
    rw [hedge] at hmem
    rcases hheld _ hmem with heq | hold
    · omega
    · exact h.resting hold

theorem acceptAndDrain_window {n : Nat} (hn : n < snModulus) {r : AmRx} {d : AmDataPdu} (h : Window n r)
    (hseq : d.seq = r.vrNext) (hlt : d.seq < n) : Window n (r.acceptAndDrain d).1 := by
  obtain ⟨m, hm⟩ := acceptAndDrain_released hn hseq hlt h.held h.resting
  refine hm.window h.edge h.holes (fun sn hsn => ?_) (r.acceptAndDrain_resting d)
  rcases mem_insert_reorder.mp hsn with rfl | hold
  · exact hlt
  · exact h.held sn hold

theorem rxData_window {n : Nat} (hn : n < snModulus) {r : AmRx} {d : AmDataPdu} (h : Window n r)
    (hlt : d.seq < n) : Window n (r.rxData d).1 := by
  have hseen := h.withSeen (markSeen r.seen d.seq)
  rcases r.rxData_cases d with ⟨-, heq⟩ | ⟨-, -, heq⟩ | ⟨-, hge, heq, -⟩
  · rw [heq]
    exact h
  · rw [heq]
    exact hseen
  · rw [heq, handleNew]
    split
    · rename_i hahead
      exact holdAhead_window hseen hlt hahead
    · exact acceptAndDrain_window hn hseen (by dsimp only; omega) hlt

/-- A new PDU ahead of the edge. -/
theorem rxData_hold {r : AmRx} {d : AmDataPdu} (hnew : d.seq ∉ r.seen) (hahead : r.vrNext < d.seq) :
    (r.rxData d).1 = (holdAhead { r with seen := markSeen r.seen d.seq } d).1 ∧
      (r.rxData d).2.accepted = [] := by
  have hhandled : r.handleNew d = holdAhead { r with seen := markSeen r.seen d.seq } d := if_pos hahead
  rcases r.rxData_cases d with ⟨hseen, -⟩ | ⟨-, hstale, -⟩ | ⟨-, -, hstate, haccepted, -⟩
  · exact absurd hseen hnew
  · exact absurd hstale (not_lt.mpr hahead.le)
  · rw [hstate, haccepted, hhandled]
    exact ⟨rfl, (holdAhead_frame _ d).2.2.2.2.2⟩

/-- A new PDU at the edge is released with what waits behind it. -/
theorem rxData_edge {n : Nat} (hn : n < snModulus) {r : AmRx} (h : Window n r) {d : AmDataPdu}
    (hnew : d.seq ∉ r.seen) (hseq : d.seq = r.vrNext) (hlt : d.seq < n) :
    ∃ m, Released (m + 1) { r with
      seen := markSeen r.seen d.seq, reorder := r.reorder.insert d.seq ⟨d.fi, d.payload⟩ } {} (r.rxData d) := by
  have hhandled : r.handleNew d = acceptAndDrain { r with seen := markSeen r.seen d.seq } d :=
    if_neg (by omega)
  obtain ⟨m, hm⟩ := acceptAndDrain_released (r := { r with seen := markSeen r.seen d.seq }) hn hseq hlt h.held
    h.resting
  rcases r.rxData_cases d with ⟨hseen, -⟩ | ⟨-, hstale, -⟩ | ⟨-, -, hstate, haccepted, hlost⟩
  · exact absurd hseen hnew
  · exact absurd hstale (by omega)
  · rw [hhandled] at hstate haccepted hlost
    refine ⟨m, ?_⟩
    constructor
    · rw [hstate]
      exact hm.edge
    · rw [hstate]
      exact hm.reorder
    · rw [hstate]
      exact hm.holes
    · rw [haccepted]
      exact hm.accepted
    · exact hm.present
    · rw [hlost]
      exact hm.lost
    · rw [hstate]
      exact hm.seen
    · rw [hstate]
      exact hm.accepts
    · rw [hstate]
      exact hm.tickAccepts
    · rw [hstate]
      exact hm.lastProgressMs

/-- What becomes of a PDU, by its number. -/
theorem rxData_trichotomy (r : AmRx) (d : AmDataPdu) :
    (d.seq ∈ r.seen ∧ r.rxData d = (r, {})) ∨
    (d.seq ∉ r.seen ∧ d.seq < r.vrNext ∧ r.rxData d = ({ r with seen := markSeen r.seen d.seq }, {})) ∨
    (d.seq ∉ r.seen ∧ r.vrNext < d.seq) ∨ (d.seq ∉ r.seen ∧ d.seq = r.vrNext) := by
  rcases r.rxData_cases d with hseen | hstale | ⟨hnew, hge, -⟩
  · exact .inl hseen
  · exact .inr (.inl hstale)
  · rcases hge.lt_or_eq with hahead | hedge
    · exact .inr (.inr (.inl ⟨hnew, hahead⟩))
    · exact .inr (.inr (.inr ⟨hnew, hedge.symm⟩))

/-! ### The reordering timeout -/

/-- The timeout of `tick`: holes, and no progress noted for the time given. A tick that notes
progress is not due. -/
def TimeoutDue (r : AmRx) (nowMs : UInt32) : Prop :=
  r.cfg.tReorderMs ≠ 0 ∧ r.accepts = r.tickAccepts ∧ ¬ r.holes.isEmpty = true ∧ 0 ≤ r.lastProgressMs ∧
    clock r.cfg.tReorderMs ≤ clock nowMs - r.lastProgressMs

instance (r : AmRx) (nowMs : UInt32) : Decidable (TimeoutDue r nowMs) :=
  inferInstanceAs (Decidable (_ ∧ _ ∧ _ ∧ _ ∧ _))

theorem clock_pos {t : UInt32} (h : t ≠ 0) : 0 < clock t := by
  have hne : t.toNat ≠ 0 := fun hzero => h (UInt32.toNat_inj.mp hzero)
  unfold clock
  omega

theorem tick_of_not_due {r : AmRx} {nowMs : UInt32} (h : ¬ TimeoutDue r nowMs) :
    r.tick nowMs = (if r.cfg.tReorderMs = 0 then r else r.noteProgress (clock nowMs), {}) := by
  unfold tick
  split
  · rfl
  · rename_i hset
    dsimp only
    rw [if_pos]
    unfold noteProgress
    split
    · refine .inr (.inr ?_)
      have hpos := clock_pos hset
      dsimp only
      omega
    · rename_i hnone
      simp only [TimeoutDue, not_and, not_le] at h
      by_cases hholes : r.holes.isEmpty = true
      · exact .inl hholes
      · by_cases hstarted : 0 ≤ r.lastProgressMs
        · exact .inr (.inr (h hset (not_not.mp hnone) hholes hstarted))
        · exact .inr (.inl (not_le.mp hstarted))

/-- The edge behind the last hole, and the holes forgotten. -/
def skipTo (r : AmRx) (edge : Nat) (now : Int) : AmRx :=
  { r with vrNext := edge, holes := ∅, collecting := false, partialSdu := [], lastProgressMs := now }

/-- The body of a due timeout. -/
theorem tick_eq_of_due {r : AmRx} {nowMs : UInt32} (hdue : TimeoutDue r nowMs) :
    r.tick nowMs =
      (((r.skipTo (r.holes.toList.foldl (fun _ sn => (sn + 1) % snModulus) r.vrNext) (clock nowMs)).drainReorder
          { lost := r.holes.toList }).1,
        { ((r.skipTo (r.holes.toList.foldl (fun _ sn => (sn + 1) % snModulus) r.vrNext)
            (clock nowMs)).drainReorder { lost := r.holes.toList }).2 with statusNeeded := true }) := by
  obtain ⟨hset, hidle, hholes, hstarted, hold⟩ := hdue
  have hnote : r.noteProgress (clock nowMs) = r := by
    unfold noteProgress
    rw [if_neg (not_not.mpr hidle)]
  have hwait : ¬ (r.holes.isEmpty = true ∨ r.lastProgressMs < 0 ∨
      clock nowMs - r.lastProgressMs < clock r.cfg.tReorderMs) := by
    rintro (hempty | hnone | hearly)
    · exact hholes hempty
    · omega
    · omega
  unfold tick
  rw [if_neg hset]
  dsimp only
  rw [hnote, if_neg hwait]
  rfl

/-- The skip ends one behind the last hole. -/
theorem exists_last_hole {r : AmRx} (h : ¬ r.holes.isEmpty = true) :
    ∃ last ∈ r.holes, (∀ sn ∈ r.holes, sn ≤ last) ∧
      r.holes.toList.foldl (fun _ sn => (sn + 1) % snModulus) r.vrNext = (last + 1) % snModulus := by
  have hne : r.holes.toList ≠ [] := by
    rw [ne_eq, Std.ExtTreeSet.toList_eq_nil_iff]
    intro hempty
    rw [hempty] at h
    exact h rfl
  refine ⟨r.holes.toList.getLast hne, Std.ExtTreeSet.mem_toList.mp (List.getLast_mem hne), fun sn hsn => ?_,
    foldl_const_last _ _ _ hne⟩
  have hordered : r.holes.toList.Pairwise (· ≤ ·) :=
    r.holes.ordered_toList.imp fun hlt => (Nat.compare_eq_lt.mp hlt).le
  exact hordered.rel_getLast (Std.ExtTreeSet.mem_toList.mpr hsn)

/-- A due timeout skips the holes and releases what was behind them. -/
theorem tick_of_due {n : Nat} (hn : n < snModulus) {r : AmRx} (h : Window n r) {nowMs : UInt32}
    (hdue : TimeoutDue r nowMs) :
    ∃ last ∈ r.holes, (∀ sn ∈ r.holes, sn ≤ last) ∧ ∃ m,
      Released m (r.skipTo (last + 1) (clock nowMs)) { lost := r.holes.toList } (r.tick nowMs) ∧
      (r.tick nowMs).1.vrNext ∉ (r.tick nowMs).1.reorder := by
  obtain ⟨last, hlast, hmax, hfold⟩ := exists_last_hole hdue.2.2.1
  have hbound := (h.holes last hlast).2
  have hmod : (last + 1) % snModulus = last + 1 := Nat.mod_eq_of_lt (by omega)
  have htick := tick_eq_of_due hdue
  rw [hfold, hmod] at htick
  obtain ⟨m, hm⟩ := drainLoop_released hn (r.skipTo (last + 1) (clock nowMs)).reorder.size
    (r.skipTo (last + 1) (clock nowMs)) { lost := r.holes.toList } h.held
  refine ⟨last, hlast, hmax, m, ?_, ?_⟩
  · rw [htick]
    exact ⟨hm.edge, hm.reorder, hm.holes, hm.accepted, hm.present, hm.lost, hm.seen, hm.accepts, hm.tickAccepts,
      hm.lastProgressMs⟩
  · rw [htick]
    exact drainLoop_done _ _ _ le_rfl

theorem noteProgress_window {n : Nat} {r : AmRx} (h : Window n r) (now : Int) :
    Window n (r.noteProgress now) := by
  unfold noteProgress
  split
  · exact ⟨h.edge, h.holes, h.held, h.resting⟩
  · exact h

/-- A tick keeps the window, also where it skips. -/
theorem tick_window {n : Nat} (hn : n < snModulus) {r : AmRx} (h : Window n r) (nowMs : UInt32) :
    Window n (r.tick nowMs).1 := by
  by_cases hdue : TimeoutDue r nowMs
  · obtain ⟨last, hlast, -, m, hm, hrest⟩ := tick_of_due hn h hdue
    refine hm.window ?_ (fun sn hsn => ?_) h.held hrest
    · have hbound := (h.holes last hlast).2
      exact hbound
    · exact absurd hsn Std.ExtTreeSet.not_mem_empty
  · rw [tick_of_not_due hdue]
    dsimp only
    split
    · exact h
    · exact noteProgress_window h _

theorem mem_holes_drainLoop {fuel : Nat} {r : AmRx} {out : AmOutcome} {sn : Nat}
    (h : sn ∈ (drainLoop fuel r out).1.holes) : sn ∈ r.holes := by
  induction fuel generalizing r out with
  | zero => exact h
  | succ fuel ih =>
    unfold drainLoop at h
    split at h
    · exact h
    · rename_i held _
      dsimp only at h
      have hmem := ih h
      dsimp only at hmem
      rw [acceptInOrder_eq] at hmem
      exact Std.ExtTreeSet.mem_of_mem_erase hmem

/-- Draining takes no stamp. -/
theorem drainLoop_progress (fuel : Nat) (r : AmRx) (out : AmOutcome) :
    (drainLoop fuel r out).1.lastProgressMs = r.lastProgressMs := by
  induction fuel generalizing r out with
  | zero => rfl
  | succ fuel ih =>
    unfold drainLoop
    split
    · rfl
    · rw [ih]
      rw [acceptInOrder_eq]

/-- Progress is noted by ticks only. -/
theorem rx_progress (r : AmRx) (pdu : Bytes) : (r.rx pdu).1.lastProgressMs = r.lastProgressMs := by
  unfold rx
  split
  · rfl
  · rename_i d _
    rcases r.rxData_cases d with ⟨-, heq⟩ | ⟨-, -, heq⟩ | ⟨-, -, heq, -⟩
    · rw [heq]
    · rw [heq]
    · rw [heq, handleNew]
      split
      · exact (holdAhead_frame _ d).2.2.2.2.1
      · rw [acceptAndDrain, drainReorder, drainLoop_progress, acceptInOrder_eq]

/-- All holes are given up together, and a tick with no due timeout gives up none. -/
theorem tick_lost (r : AmRx) (nowMs : UInt32) :
    (r.tick nowMs).2.lost = if TimeoutDue r nowMs then r.holes.toList else [] := by
  split
  · rename_i hdue
    rw [tick_eq_of_due hdue]
    exact drainLoop_lost _ _ _
  · rename_i hdue
    rw [tick_of_not_due hdue]

/-- After a due timeout there are no holes. -/
theorem not_mem_holes_tick {r : AmRx} {nowMs : UInt32} (hdue : TimeoutDue r nowMs) (sn : Nat) :
    sn ∉ (r.tick nowMs).1.holes := by
  rw [tick_eq_of_due hdue]
  exact fun hmem => absurd (mem_holes_drainLoop hmem) Std.ExtTreeSet.not_mem_empty

/-! ### Runs -/

/-- The calls on a receiver. -/
inductive Call where
  | rx (pdu : Bytes)
  | tick (nowMs : UInt32)
  deriving DecidableEq, Repr

def call (r : AmRx) : Call → AmRx × AmOutcome
  | .rx pdu => r.rx pdu
  | .tick nowMs => r.tick nowMs

/-- A PDU of a peer that has sent `n` of them. -/
def Call.Below (n : Nat) : Call → Prop
  | .rx pdu => ∀ d ∈ decodeData pdu, d.seq < n
  | .tick _ => True

instance (n : Nat) : (c : Call) → Decidable (c.Below n)
  | .rx pdu => inferInstanceAs (Decidable (∀ d ∈ decodeData pdu, d.seq < n))
  | .tick _ => inferInstanceAs (Decidable True)

/-- Only the peer's PDUs arrive, in any order, any number of times and with any content. -/
def step (n : Nat) (r : AmRx) (c : Call) : Option AmRx := if c.Below n then some (r.call c).1 else none

theorem step_eq_some {n : Nat} {r r' : AmRx} {c : Call} (h : step n r c = some r') :
    c.Below n ∧ (r.call c).1 = r' := by
  unfold step at h
  split at h
  · rename_i hbelow
    exact ⟨hbelow, Option.some.inj h⟩
  · cases h

/-- A PDU below `n` keeps the window. -/
theorem rx_window {n : Nat} (hn : n < snModulus) {r : AmRx} (h : Window n r) {pdu : Bytes}
    (hbelow : (Call.rx pdu).Below n) : Window n (r.rx pdu).1 := by
  unfold rx
  split
  · exact h
  · rename_i d hd
    exact rxData_window hn h (hbelow d hd)

theorem call_window {n : Nat} (hn : n < snModulus) {r : AmRx} (h : Window n r) {c : Call}
    (hbelow : c.Below n) : Window n (r.call c).1 := by
  cases c with
  | rx pdu => exact rx_window hn h hbelow
  | tick nowMs => exact tick_window hn h nowMs

end AetherStack.Source.AmRx
