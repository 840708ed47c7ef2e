import AetherStack.Guarantees.AmTimeout

/-!
# The reordering timeout and the edge

Two ticks that are the timeout apart move the edge past the lowest hole, whatever arrives out of
order in between. They do so if a PDU has been accepted in order since the reset: the time of the
last progress is only set by progress, and while there has been none the timeout never runs. A
receiver that loses its very first PDU waits for it for good.
-/
namespace AetherStack.Guarantees
open Source Source.AmRx Lib

/-- How far a call moves the edge, which is less than the whole number space. -/
def advance (r r' : AmRx) : Nat := (r'.vrNext + snModulus - r.vrNext) % snModulus

/-- How far the calls move the edge, every turn of the number space included. -/
def advanced : AmRx → List Call → Nat
  | _, [] => 0
  | r, c :: calls => advance r (r.call c).1 + advanced (r.call c).1 calls

/-- No PDU is accepted in order on its arrival. -/
def Quiet (s : TimedAmRx) : Call → Prop
  | .rx pdu => (s.rx.rx pdu).2.accepted = []
  | .tick _ => True

instance (s : TimedAmRx) : (c : Call) → Decidable (Quiet s c)
  | .rx pdu => inferInstanceAs (Decidable ((s.rx.rx pdu).2.accepted = []))
  | .tick _ => inferInstanceAs (Decidable True)

namespace AmUnblocking

variable {r : AmRx}

/-! ### Where the holes are -/

/-- The holes are the first missing numbers, at most 256 and none of them the last of the space. -/
structure Ranged (r : AmRx) : Prop where
  edge : r.vrNext < snModulus
  holes : ∀ sn ∈ r.holes, r.vrNext ≤ sn ∧ sn + 1 < snModulus ∧ ∀ y, r.vrNext ≤ y → y < sn → y ∈ r.holes
  few : r.holes.size ≤ kMaxHoles
  held : r.reorder.size ≤ kMaxReorder

theorem ranged_reset (r : AmRx) : Ranged r.reset where
  edge := by simp [reset, snModulus]
  holes := fun sn hsn => absurd hsn Std.ExtTreeSet.not_mem_empty
  few := by simp [reset]
  held := by simp [reset]

/-- A range of numbers that are all in a set is no longer than the set. -/
theorem length_le_size {holes : SnSet} (low : Nat) {count : Nat} (h : ∀ y, low ≤ y → y < low + count → y ∈ holes) :
    count ≤ holes.size := by
  have hsub : List.range' low count ⊆ holes.toList := by
    intro y hy
    obtain ⟨hlow, hhigh⟩ := List.mem_range'_1.mp hy
    exact Std.ExtTreeSet.mem_toList.mpr (h y hlow hhigh)
  have hle := (List.Nodup.subperm List.nodup_range' hsub).length_le
  rwa [List.length_range', Std.ExtTreeSet.length_toList] at hle

/-- The last hole is less than 256 numbers away. -/
theorem Ranged.near (h : Ranged r) {sn : Nat} (hsn : sn ∈ r.holes) : sn < r.vrNext + kMaxHoles := by
  obtain ⟨hlow, -, hclosed⟩ := h.holes sn hsn
  have hsize : sn + 1 - r.vrNext ≤ r.holes.size := by
    refine length_le_size r.vrNext fun y hy hlt => ?_
    by_cases heq : y = sn
    · rw [heq]
      exact hsn
    · exact hclosed y hy (by omega)
  have hfew := h.few
  omega

/-- The table of holes does not grow beyond its limit. -/
theorem recordHoles_size (count sn : Nat) (holes : SnSet) (gaps : Nat) (needed : Bool)
    (h : holes.size ≤ kMaxHoles) : (recordHoles count sn (holes, gaps, needed)).1.size ≤ kMaxHoles := by
  induction count generalizing sn holes gaps needed with
  | zero => exact h
  | succ count ih =>
    unfold recordHoles
    split
    · rename_i hroom
      exact ih _ _ _ _ (Std.ExtTreeSet.size_insert_le.trans hroom)
    · exact h

theorem Ranged.accept (h : Ranged r) (held : Held) (out : AmOutcome) :
    Ranged (r.acceptInOrder r.vrNext held out).1 := by
  rw [acceptInOrder_eq]
  refine ⟨Nat.mod_lt _ (by decide), fun sn hsn => ?_, ?_, h.held⟩
  · rw [Std.ExtTreeSet.mem_erase, ne_eq, Nat.compare_eq_eq] at hsn
    obtain ⟨hlow, hlast, hclosed⟩ := h.holes sn hsn.2
    have hmod : (r.vrNext + 1) % snModulus = r.vrNext + 1 := Nat.mod_eq_of_lt (by omega)
    dsimp only
    rw [hmod]
    refine ⟨by omega, hlast, fun y hy hlt => ?_⟩
    rw [Std.ExtTreeSet.mem_erase, ne_eq, Nat.compare_eq_eq]
    exact ⟨by omega, hclosed y (by omega) hlt⟩
  · exact Std.ExtTreeSet.size_erase_le.trans h.few

/-- The release moves the edge over what it accepts, at most as often as something is held. -/
theorem drainLoop_moves (fuel : Nat) (out : AmOutcome) (h : Ranged r) :
    Ranged (drainLoop fuel r out).1 ∧ ∃ m ≤ fuel, (drainLoop fuel r out).1.vrNext = (r.vrNext + m) % snModulus ∧
      (drainLoop fuel r out).1.accepts = r.accepts + m ∧ (drainLoop fuel r out).1.tickAccepts = r.tickAccepts := by
  induction fuel generalizing r out with
  | zero => exact ⟨h, 0, le_rfl, (Nat.mod_eq_of_lt h.edge).symm, rfl, rfl⟩
  | succ fuel ih =>
    unfold drainLoop
    split
    · exact ⟨h, 0, Nat.zero_le _, (Nat.mod_eq_of_lt h.edge).symm, rfl, rfl⟩
    · rename_i held _
      have haccepted := h.accept held out
      have hturn : Ranged { (r.acceptInOrder r.vrNext held out).1 with
          reorder := (r.acceptInOrder r.vrNext held out).1.reorder.erase r.vrNext } :=
        ⟨haccepted.edge, haccepted.holes, haccepted.few, Std.ExtTreeMap.size_erase_le.trans haccepted.held⟩
      obtain ⟨hranged, m, hm, hedge, haccepts, hticks⟩ := ih (r.acceptInOrder r.vrNext held out).2 hturn
      refine ⟨hranged, m + 1, by omega, ?_, ?_, ?_⟩
      · rw [hedge, acceptInOrder_eq]
        dsimp only
        rw [Nat.mod_add_mod, Nat.add_right_comm, Nat.add_assoc]
      · rw [haccepts, acceptInOrder_eq]
        dsimp only
        omega
      · rw [hticks, acceptInOrder_eq]

theorem holdAhead_ranged (h : Ranged r) {d : AmDataPdu} (hseq : d.seq < snModulus) (hahead : r.vrNext < d.seq) :
    Ranged (r.holdAhead d).1 := by
  have hholes : (r.holdAhead d).1.holes =
      (recordHoles (d.seq - r.vrNext) r.vrNext (r.holes, r.gaps, false)).1 := by
    unfold holdAhead
    dsimp only
    split <;> rfl
  obtain ⟨hmem, hclosed⟩ := recordHoles_spec (d.seq - r.vrNext) r.vrNext r.holes r.gaps false r.vrNext le_rfl
    (fun y hy hlt => absurd hlt (not_lt.mpr hy)) (fun sn hsn => (h.holes sn hsn).2.2)
  refine ⟨?_, fun sn hsn => ?_, ?_, ?_⟩
  · rw [(holdAhead_frame r d).1]
    exact h.edge
  · rw [(holdAhead_frame r d).1]
    rw [hholes] at hsn ⊢
    rcases hmem sn hsn with hold | hnew
    · obtain ⟨hlow, hlast, -⟩ := h.holes sn hold
      exact ⟨hlow, hlast, hclosed sn hsn⟩
    · exact ⟨hnew.1, by omega, hclosed sn hsn⟩
  · rw [hholes]
    exact recordHoles_size _ _ _ _ _ h.few
  · rw [holdAhead_reorder]
    split
    · rename_i hroom
      exact Std.ExtTreeMap.size_insert_le.trans hroom
    · exact h.held

theorem Ranged.withSeen (h : Ranged r) (seen : SnSet) : Ranged { r with seen := seen } :=
  ⟨h.edge, h.holes, h.few, h.held⟩

/-- In-order acceptance raises the count of acceptances and leaves that of the last tick. -/
theorem acceptAndDrain_moves (h : Ranged r) {d : AmDataPdu} (hseq : d.seq = r.vrNext) :
    Ranged (r.acceptAndDrain d).1 ∧ r.accepts ≤ (r.acceptAndDrain d).1.accepts ∧
      (r.acceptAndDrain d).1.tickAccepts = r.tickAccepts := by
  unfold acceptAndDrain drainReorder
  rw [hseq]
  obtain ⟨hranged, m, -, -, haccepts, hticks⟩ := drainLoop_moves
    (r.acceptInOrder r.vrNext ⟨d.fi, d.payload⟩ {}).1.reorder.size
    (r.acceptInOrder r.vrNext ⟨d.fi, d.payload⟩ {}).2 (h.accept ⟨d.fi, d.payload⟩ {})
  refine ⟨hranged, ?_, ?_⟩
  · rw [haccepts, acceptInOrder_eq]
    dsimp only
    omega
  · rw [hticks, acceptInOrder_eq]

/-- The loop hands up more, behind what was handed up before. -/
theorem drainLoop_accepted (fuel : Nat) (r : AmRx) (out : AmOutcome) :
    ∃ more, (drainLoop fuel r out).2.accepted = out.accepted ++ more := by
  induction fuel generalizing r out with
  | zero => exact ⟨[], (List.append_nil _).symm⟩
  | succ fuel ih =>
    unfold drainLoop
    split
    · exact ⟨[], (List.append_nil _).symm⟩
    · rename_i held _
      obtain ⟨more, hmore⟩ := ih { (r.acceptInOrder r.vrNext held out).1 with
        reorder := (r.acceptInOrder r.vrNext held out).1.reorder.erase r.vrNext } (r.acceptInOrder r.vrNext held out).2
      refine ⟨(r.vrNext, held) :: more, hmore.trans ?_⟩
      rw [acceptInOrder_eq]
      exact List.append_assoc _ _ _

theorem acceptAndDrain_accepts (r : AmRx) (d : AmDataPdu) :
    ∃ more, (r.acceptAndDrain d).2.accepted = (d.seq, ⟨d.fi, d.payload⟩) :: more := by
  obtain ⟨more, hmore⟩ := drainLoop_accepted (r.acceptInOrder d.seq ⟨d.fi, d.payload⟩ {}).1.reorder.size
    (r.acceptInOrder d.seq ⟨d.fi, d.payload⟩ {}).1 (r.acceptInOrder d.seq ⟨d.fi, d.payload⟩ {}).2
  refine ⟨more, hmore.trans ?_⟩
  rw [acceptInOrder_eq]
  rfl

/-- Progress has been noted if and only if a tick has seen some. -/
structure Noted (r : AmRx) : Prop where
  behind : r.tickAccepts ≤ r.accepts
  noted : 0 ≤ r.lastProgressMs ↔ 0 < r.tickAccepts

theorem rx_ranged (h : Ranged r) (pdu : Bytes) : Ranged (r.rx pdu).1 := by
  unfold rx
  split
  · exact h
  · rename_i d hd
    have hlt : d.seq < snModulus := by
      unfold decodeData at hd
      split at hd
      · cases hd
      · dsimp only at hd
        split at hd
        · cases hd
        · obtain rfl := Option.some.inj hd
          exact getU16_lt pdu 1
    have hseen := h.withSeen (markSeen r.seen d.seq)
    rcases r.rxData_cases d with ⟨-, heq⟩ | ⟨-, -, heq⟩ | ⟨-, hge, heq, -⟩
    · rw [heq]
      exact h
    · rw [heq]
      exact hseen
    · rw [heq, handleNew]
      split
      · rename_i hahead
        exact holdAhead_ranged hseen hlt hahead
      · exact (acceptAndDrain_moves hseen (by dsimp only; omega)).1

/-- A reception can only raise the count of acceptances, and the count of the last tick is a tick's
to write. -/
theorem rx_counts (h : Ranged r) (pdu : Bytes) :
    r.accepts ≤ (r.rx pdu).1.accepts ∧ (r.rx pdu).1.tickAccepts = r.tickAccepts := by
  unfold rx
  split
  · exact ⟨le_rfl, rfl⟩
  · rename_i d hd
    rcases r.rxData_cases d with ⟨-, heq⟩ | ⟨-, -, heq⟩ | ⟨-, hge, heq, -⟩
    · rw [heq]
      exact ⟨le_rfl, rfl⟩
    · rw [heq]
      exact ⟨le_rfl, rfl⟩
    · rw [heq, handleNew]
      split
      · obtain ⟨-, -, haccepts, hticks, -⟩ := holdAhead_frame { r with seen := markSeen r.seen d.seq } d
        exact ⟨haccepts.ge, hticks⟩
      · exact (acceptAndDrain_moves (d := d) (h.withSeen (markSeen r.seen d.seq)) (by dsimp only; omega)).2

/-- A PDU that is not accepted leaves the edge, the clockwork and the holes there are. -/
theorem rx_quiet {pdu : Bytes} (hnone : (r.rx pdu).2.accepted = []) :
    (r.rx pdu).1.vrNext = r.vrNext ∧ (r.rx pdu).1.accepts = r.accepts ∧
      (r.rx pdu).1.tickAccepts = r.tickAccepts ∧ ∀ sn ∈ r.holes, sn ∈ (r.rx pdu).1.holes := by
  unfold rx at hnone ⊢
  split
  · exact ⟨rfl, rfl, rfl, fun sn hsn => hsn⟩
  · rename_i d hd
    rw [hd] at hnone
    rcases r.rxData_cases d with ⟨-, heq⟩ | ⟨-, -, heq⟩ | ⟨-, hge, heq, haccepted, -⟩
    · rw [heq]
      exact ⟨rfl, rfl, rfl, fun sn hsn => hsn⟩
    · rw [heq]
      exact ⟨rfl, rfl, rfl, fun sn hsn => hsn⟩
    · dsimp only at hnone
      rw [heq]
      rw [haccepted] at hnone
      unfold handleNew at hnone ⊢
      split
      · obtain ⟨hedge, -, haccepts, hticks, -⟩ := holdAhead_frame { r with seen := markSeen r.seen d.seq } d
        obtain ⟨k, -, hholes, -⟩ := holdAhead_holes { r with seen := markSeen r.seen d.seq } d
        exact ⟨hedge, haccepts, hticks, fun sn hsn => (hholes sn).mpr (.inl hsn)⟩
      · rename_i hatEdge
        rw [if_neg hatEdge] at hnone
        obtain ⟨more, hmore⟩ := acceptAndDrain_accepts { r with seen := markSeen r.seen d.seq } d
        rw [hmore] at hnone
        cases hnone

/-! ### The timeout -/

/-- A due timeout leaves the holes behind. -/
theorem tick_passes (h : Ranged r) {nowMs : UInt32} (hdue : TimeoutDue r nowMs) :
    Ranged (r.tick nowMs).1 ∧ (∀ sn ∈ r.holes, sn < r.vrNext + advance r (r.tick nowMs).1) ∧
      r.accepts ≤ (r.tick nowMs).1.accepts ∧ (r.tick nowMs).1.tickAccepts = r.tickAccepts := by
  obtain ⟨last, hlast, hmax, hfold⟩ := exists_last_hole hdue.2.2.1
  obtain ⟨hlow, hspace, -⟩ := h.holes last hlast
  have hnear := h.near hlast
  have hheld := h.held
  have hedge := h.edge
  have hmod : (last + 1) % snModulus = last + 1 := Nat.mod_eq_of_lt hspace
  have htick := tick_eq_of_due hdue
  rw [hfold, hmod] at htick
  have hskipped : Ranged (r.skipTo (last + 1) (clock nowMs)) :=
    ⟨hspace, fun sn hsn => absurd hsn Std.ExtTreeSet.not_mem_empty, by simp [skipTo], h.held⟩
  obtain ⟨hranged, m, hm, hmoved, haccepts, hticks⟩ :=
    drainLoop_moves r.reorder.size { lost := r.holes.toList } hskipped
  have hstate : (r.tick nowMs).1 =
      (drainLoop r.reorder.size (r.skipTo (last + 1) (clock nowMs)) { lost := r.holes.toList }).1 := by
    rw [htick]
    rfl
  rw [hstate]
  refine ⟨hranged, fun sn hsn => ?_, ?_, hticks⟩
  · have hle := hmax sn hsn
    rw [advance, hmoved]
    have hedge' : (r.skipTo (last + 1) (clock nowMs)).vrNext = last + 1 := rfl
    rw [hedge']
    simp only [snModulus, kMaxHoles, kMaxReorder] at hnear hheld hedge hspace ⊢
    omega
  · rw [haccepts]
    exact Nat.le_add_right _ _

theorem tick_ranged (h : Ranged r) (nowMs : UInt32) : Ranged (r.tick nowMs).1 := by
  by_cases hdue : TimeoutDue r nowMs
  · exact (tick_passes h hdue).1
  · rw [tick_of_not_due hdue]
    dsimp only
    split
    · exact h
    · unfold noteProgress
      split
      · exact ⟨h.edge, h.holes, h.few, h.held⟩
      · exact h

theorem clock_nonneg (nowMs : UInt32) : 0 ≤ clock nowMs := Int.natCast_nonneg _

theorem noted_reset (r : AmRx) : Noted r.reset where
  behind := le_rfl
  noted := by simp [reset]

theorem rx_noted (hr : Ranged r) (h : Noted r) (pdu : Bytes) : Noted (r.rx pdu).1 := by
  obtain ⟨haccepts, hticks⟩ := rx_counts hr pdu
  refine ⟨?_, ?_⟩
  · rw [hticks]
    exact h.behind.trans haccepts
  · rw [hticks, rx_progress]
    exact h.noted

theorem noteProgress_noted (h : Noted r) (nowMs : UInt32) : Noted (r.noteProgress (clock nowMs)) := by
  unfold noteProgress
  split
  · rename_i hmoved
    refine ⟨le_rfl, iff_of_true (clock_nonneg nowMs) ?_⟩
    have hbehind := h.behind
    dsimp only
    omega
  · exact h

theorem tick_noted (hr : Ranged r) (h : Noted r) (nowMs : UInt32) : Noted (r.tick nowMs).1 := by
  by_cases hdue : TimeoutDue r nowMs
  · obtain ⟨-, -, haccepts, hticks⟩ := tick_passes hr hdue
    have hprogress : (r.tick nowMs).1.lastProgressMs = clock nowMs := by
      rw [tick_eq_of_due hdue]
      exact drainLoop_progress _ _ _
    refine ⟨?_, ?_⟩
    · rw [hticks]
      exact h.behind.trans haccepts
    · rw [hticks, hprogress]
      exact iff_of_true (clock_nonneg nowMs) (h.noted.mp hdue.2.2.2.1)
  · rw [tick_of_not_due hdue]
    dsimp only
    split
    · exact h
    · exact noteProgress_noted h nowMs

/-! ### Runs -/

theorem step_rx {s s' : TimedAmRx} {c : Call} (h : s.step c = some s') : s'.rx = (s.rx.call c).1 := by
  cases c with
  | rx pdu =>
    obtain rfl := Option.some.inj h
    rfl
  | tick nowMs =>
    obtain ⟨-, rfl⟩ := TimedAmRx.step_tick h
    rfl

/-- What every run keeps. -/
structure Sound (s : TimedAmRx) : Prop where
  ranged : Ranged s.rx
  noted : Noted s.rx
  progress : s.rx.lastProgressMs ≤ s.lastTick

theorem sound_reset (r : AmRx) : Sound { rx := r.reset } :=
  ⟨ranged_reset r, noted_reset r, (TimedAmRx.aged_reset r).progress⟩

/-- Step lemma for the timed receiver: the ranges and what the ticks have noted. -/
theorem step_sound {s s' : TimedAmRx} {c : Call} (h : Sound s) (hstep : s.step c = some s') : Sound s' := by
  refine ⟨?_, ?_, TimedAmRx.step_progress h.progress hstep⟩
  · rw [step_rx hstep]
    cases c with
    | rx pdu => exact rx_ranged h.ranged pdu
    | tick nowMs => exact tick_ranged h.ranged nowMs
  · rw [step_rx hstep]
    cases c with
    | rx pdu => exact rx_noted h.ranged h.noted pdu
    | tick nowMs => exact tick_noted h.ranged h.noted nowMs

theorem run_sound {s s' : TimedAmRx} {calls : List Call} (h : Sound s)
    (run : runFrom TimedAmRx.step s calls = some s') : Sound s' :=
  runFrom_invariant Sound (fun _ _ _ hs hstep => step_sound hs hstep) h run

theorem call_cfg (r : AmRx) (c : Call) : (r.call c).1.cfg = r.cfg := by
  cases c with
  | rx pdu => exact rx_cfg r pdu
  | tick nowMs => exact tick_cfg r nowMs

theorem run_cfg {s s' : TimedAmRx} {calls : List Call} (run : runFrom TimedAmRx.step s calls = some s') :
    s'.rx.cfg = s.rx.cfg := by
  refine runFrom_invariant (fun t => t.rx.cfg = s.rx.cfg) (fun t c t' ht hstep => ?_) rfl run
  rw [step_rx hstep, call_cfg]
  exact ht

theorem advance_of_eq (h : Ranged r) {r' : AmRx} (hedge : r'.vrNext = r.vrNext) : advance r r' = 0 := by
  have hlt := h.edge
  rw [advance, hedge, Nat.add_sub_cancel_left, Nat.mod_self]

/-- No progress since the reset, and none noted. -/
def Stuck (r : AmRx) : Prop := r.accepts = 0 ∧ r.tickAccepts = 0 ∧ r.lastProgressMs < 0

/-- Nothing accepted since the reset: the progress is still at -1. -/
theorem Noted.stuck (h : Noted r) (hnone : r.accepts = 0) : Stuck r := by
  have hbehind := h.behind
  have hticks : r.tickAccepts = 0 := by omega
  refine ⟨hnone, hticks, ?_⟩
  by_contra hstarted
  have hpos := h.noted.mp (not_lt.mp hstarted)
  omega

/-- Without an acceptance a tick cannot skip, so the edge stays. -/
theorem call_stuck {s : TimedAmRx} (h : Stuck s.rx) {c : Call} (hquiet : Quiet s c) :
    (s.rx.call c).1.vrNext = s.rx.vrNext ∧ Stuck (s.rx.call c).1 := by
  obtain ⟨haccepts, hticks, hprogress⟩ := h
  cases c with
  | rx pdu =>
    obtain ⟨hedge, haccepts', hticks', -⟩ := rx_quiet hquiet
    exact ⟨hedge, haccepts'.trans haccepts, hticks'.trans hticks, (rx_progress s.rx pdu).symm ▸ hprogress⟩
  | tick nowMs =>
    have hdue : ¬ TimeoutDue s.rx nowMs := fun hdue => not_le.mpr hprogress hdue.2.2.2.1
    have hsame : (s.rx.tick nowMs).1 = s.rx := by
      rw [tick_of_not_due hdue]
      dsimp only
      split
      · rfl
      · unfold noteProgress
        rw [if_neg (not_not.mpr (haccepts.trans hticks.symm))]
    show (s.rx.tick nowMs).1.vrNext = _ ∧ Stuck (s.rx.tick nowMs).1
    rw [hsame]
    exact ⟨rfl, haccepts, hticks, hprogress⟩

/-- Run lemma: a receiver that never accepted anything stays at the first hole. -/
theorem stuck_run {s s' : TimedAmRx} {calls : List Call} (hsound : Sound s) (h : Stuck s.rx)
    (run : runFrom TimedAmRx.step s calls = some s') (hquiet : StepsMeet TimedAmRx.step Quiet s calls) :
    advanced s.rx calls = 0 := by
  induction calls generalizing s with
  | nil => rfl
  | cons c calls ih =>
    obtain ⟨t, hstep, hrest⟩ := runFrom_cons_eq_some.mp run
    obtain ⟨hedge, hstuck⟩ := call_stuck h hquiet.1
    have hmore := ih (step_sound hsound hstep) (step_rx hstep ▸ hstuck) hrest (hquiet.2 t hstep)
    rw [step_rx hstep] at hmore
    rw [advanced, advance_of_eq hsound.ranged hedge, hmore]

/-- A noted progress that is no later than `start`, nothing accepted since, and a hole. -/
structure Waits (start : UInt32) (sn : Nat) (r : AmRx) : Prop where
  settled : r.accepts = r.tickAccepts
  started : 0 ≤ r.lastProgressMs
  since : r.lastProgressMs ≤ start.toNat
  hole : sn ∈ r.holes

/-- Without progress since `start` a hole is due once the timeout has passed. -/
theorem Waits.due {start nowMs : UInt32} {sn : Nat} (h : Waits start sn r) (hset : r.cfg.tReorderMs ≠ 0)
    (hlater : start.toNat + r.cfg.tReorderMs.toNat ≤ nowMs.toNat) : TimeoutDue r nowMs := by
  have hsince := h.since
  refine ⟨hset, h.settled, fun hempty => ?_, h.started, ?_⟩
  · have hhole := h.hole
    rw [Std.ExtTreeSet.isEmpty_iff.mp hempty] at hhole
    exact Std.ExtTreeSet.not_mem_empty hhole
  · unfold clock
    omega

/-- The first tick: the hole is passed over, or it waits from now on. -/
theorem tick_waits {start : UInt32} {sn : Nat} (hr : Ranged r) (hn : Noted r) (hset : r.cfg.tReorderMs ≠ 0)
    (hpos : 0 < r.accepts) (hbefore : r.lastProgressMs ≤ start.toNat) (hsn : sn ∈ r.holes) :
    sn < r.vrNext + advance r (r.tick start).1 ∨
      ((r.tick start).1.vrNext = r.vrNext ∧ Waits start sn (r.tick start).1) := by
  by_cases hdue : TimeoutDue r start
  · exact .inl ((tick_passes hr hdue).2.1 sn hsn)
  · right
    rw [tick_of_not_due hdue]
    dsimp only
    rw [if_neg hset]
    unfold noteProgress
    split
    · exact ⟨rfl, rfl, clock_nonneg start, le_rfl, hsn⟩
    · rename_i hidle
      have hsettled := not_not.mp hidle
      exact ⟨rfl, hsettled, hn.noted.mpr (by omega), hbefore, hsn⟩

/-- The calls in between: the hole is passed over, or it waits on. -/
theorem call_waits {s : TimedAmRx} {start : UInt32} {sn : Nat} {c : Call} (hr : Ranged s.rx)
    (h : Waits start sn s.rx) (hquiet : Quiet s c) :
    sn < s.rx.vrNext + advance s.rx (s.rx.call c).1 ∨
      ((s.rx.call c).1.vrNext = s.rx.vrNext ∧ Waits start sn (s.rx.call c).1) := by
  cases c with
  | rx pdu =>
    obtain ⟨hedge, haccepts, hticks, hholes⟩ := rx_quiet hquiet
    right
    refine ⟨hedge, ?_, ?_, ?_, hholes sn h.hole⟩
    · exact haccepts.trans (h.settled.trans hticks.symm)
    · exact (rx_progress s.rx pdu).symm ▸ h.started
    · exact (rx_progress s.rx pdu).symm ▸ h.since
  | tick nowMs =>
    by_cases hdue : TimeoutDue s.rx nowMs
    · exact .inl ((tick_passes hr hdue).2.1 sn h.hole)
    · right
      have hsame : (s.rx.tick nowMs).1 = s.rx := by
        rw [tick_of_not_due hdue]
        dsimp only
        split
        · rfl
        · unfold noteProgress
          rw [if_neg (not_not.mpr h.settled)]
      show (s.rx.tick nowMs).1.vrNext = _ ∧ Waits start sn (s.rx.tick nowMs).1
      rw [hsame]
      exact ⟨rfl, h⟩

theorem waits_run {s s' : TimedAmRx} {start nowMs : UInt32} {sn : Nat} {calls : List Call} (hsound : Sound s)
    (hset : s.rx.cfg.tReorderMs ≠ 0) (hlater : start.toNat + s.rx.cfg.tReorderMs.toNat ≤ nowMs.toNat)
    (h : Waits start sn s.rx) (run : runFrom TimedAmRx.step s (calls ++ [.tick nowMs]) = some s')
    (hquiet : StepsMeet TimedAmRx.step Quiet s (calls ++ [.tick nowMs])) :
    sn < s.rx.vrNext + advanced s.rx (calls ++ [.tick nowMs]) := by
  induction calls generalizing s with
  | nil =>
    have hpassed := (tick_passes hsound.ranged (h.due hset hlater)).2.1 sn h.hole
    rw [List.nil_append, advanced, advanced, Nat.add_zero]
    exact hpassed
  | cons c calls ih =>
    obtain ⟨t, hstep, hrest⟩ := runFrom_cons_eq_some.mp run
    rw [List.cons_append, advanced]
    rcases call_waits hsound.ranged h hquiet.1 with hpassed | ⟨hedge, hwaits⟩
    · omega
    · have hcfg : t.rx.cfg = s.rx.cfg := by rw [step_rx hstep, call_cfg]
      have hmore := ih (step_sound hsound hstep) (hcfg ▸ hset) (hcfg ▸ hlater) (step_rx hstep ▸ hwaits) hrest
        (hquiet.2 t hstep)
      rw [step_rx hstep, hedge] at hmore
      omega

end AmUnblocking

open AmUnblocking

/-- For every reachable state with a hole, and any two ticks that are the timeout apart, with nothing
accepted in order on arrival in between: the edge moves past the lowest hole if and only if a PDU
has been accepted in order since the reset. -/
theorem am_timeout_unblocks_iff (r : AmRx) (calls between : List Call) (start nowMs : UInt32) {s s' : TimedAmRx}
    {lowest : Nat} (hset : r.cfg.tReorderMs ≠ 0) (run : runFrom TimedAmRx.step { rx := r.reset } calls = some s)
    (hlowest : s.rx.holes.toList.head? = some lowest)
    (hlater : start.toNat + r.cfg.tReorderMs.toNat ≤ nowMs.toNat)
    (ticks : runFrom TimedAmRx.step s (.tick start :: (between ++ [.tick nowMs])) = some s')
    (hquiet : StepsMeet TimedAmRx.step Quiet s (.tick start :: (between ++ [.tick nowMs]))) :
    lowest < s.rx.vrNext + advanced s.rx (.tick start :: (between ++ [.tick nowMs])) ↔ 0 < s.rx.accepts := by
  have hsound := run_sound (sound_reset r) run
  have hcfg : s.rx.cfg = r.cfg := run_cfg run
  have hhole : lowest ∈ s.rx.holes := Std.ExtTreeSet.mem_toList.mp (List.mem_of_head? hlowest)
  constructor
  · intro hpassed
    by_contra hnone
    have hstuck := hsound.noted.stuck (Nat.eq_zero_of_not_pos hnone)
    rw [stuck_run hsound hstuck ticks hquiet] at hpassed
    have hlow := (hsound.ranged.holes lowest hhole).1
    omega
  · intro hpos
    obtain ⟨t, hstep, hrest⟩ := runFrom_cons_eq_some.mp ticks
    have hbefore : s.rx.lastProgressMs ≤ start.toNat := by
      have hprogress := hsound.progress
      have hmonotone := (TimedAmRx.step_tick hstep).1
      omega
    have hafter : t.rx = (s.rx.tick start).1 := step_rx hstep
    rw [advanced]
    rcases tick_waits hsound.ranged hsound.noted (hcfg ▸ hset) hpos hbefore hhole with hpassed | ⟨hedge, hwaits⟩
    · show lowest < s.rx.vrNext + (advance s.rx (s.rx.tick start).1 + _)
      omega
    · have htcfg : t.rx.cfg = r.cfg := by rw [hafter, tick_cfg, hcfg]
      have hmore := waits_run (step_sound hsound hstep) (htcfg ▸ hset) (htcfg ▸ hlater) (hafter ▸ hwaits) hrest
        (hquiet.2 t hstep)
      rw [hafter, hedge] at hmore
      show lowest < s.rx.vrNext + (_ + advanced (s.rx.tick start).1 (between ++ [.tick nowMs]))
      omega

/-- PDU 1 is missing. -/
theorem am_timeout_unblocks_one_gap : ∃ s : TimedAmRx,
    runFrom TimedAmRx.step { rx := AmRx.reset { cfg := {} } }
      [.rx (AmTx.buildPdu 0 0 [10]), .rx (AmTx.buildPdu 2 0 [12])] = some s ∧
    1 < s.rx.vrNext + advanced s.rx [.tick 7, .rx (AmTx.buildPdu 3 0 [13]), .tick 1007] :=
  ⟨_, rfl, (am_timeout_unblocks_iff { cfg := {} }
    [.rx (AmTx.buildPdu 0 0 [10]), .rx (AmTx.buildPdu 2 0 [12])] [.rx (AmTx.buildPdu 3 0 [13])] 7 1007 (by decide) rfl
    (by decide) (by decide) rfl (by decide)).mpr (by decide)⟩

/-- The very first PDU is lost: after an hour its number is still waited for. -/
theorem am_timeout_blocks : ∃ s : TimedAmRx,
    runFrom TimedAmRx.step { rx := AmRx.reset { cfg := {} } } [.rx (AmTx.buildPdu 1 0 [11])] = some s ∧
    s.rx.holes.toList = [0] ∧ s.rx.cfg.tReorderMs = 1000 ∧
    ((s.rx.tick 0).1.tick 3600000).1.vrNext = 0 ∧ ((s.rx.tick 0).1.tick 3600000).1.holes.toList = [0] :=
  ⟨_, rfl, by decide, rfl, by decide, by decide⟩

end AetherStack.Guarantees
