import AetherStack.Guarantees.AmStatusReport

/-!
# The reordering timeout of acknowledged mode

The timeout gives up every hole and goes on behind the last one. A gap that is recorded while
PDUs are held covers their numbers as well, and then the timeout passes over them; a PDU that
found the hold area full is passed over too, although it was received. The age of the holes is
not kept: a tick looks at the last progress only, which may be older than they are.
-/
namespace AetherStack.Guarantees
open Source Source.AmRx Lib

namespace AmTimeout

variable {n : Nat} {r : AmRx}

/-! ### Held PDUs -/

/-- A held PDU is accepted, or it waits ahead of the edge, after the tick. -/
def KeepsHeld (r : AmRx) : Call → Prop
  | .rx _ => True
  | .tick nowMs => ∀ (sn : Nat) (held : Held), r.reorder[sn]? = some held →
      (sn, held) ∈ (r.tick nowMs).2.accepted ∨
        ((r.tick nowMs).1.reorder[sn]? = some held ∧ (r.tick nowMs).1.vrNext ≤ sn)

/-- A timeout finds the held PDUs behind the holes. -/
def HeldBehindHoles (r : AmRx) : Call → Prop
  | .rx _ => True
  | .tick nowMs => TimeoutDue r nowMs → ∀ sn ∈ r.reorder, ∀ hole ∈ r.holes, hole < sn

/-- A tick accepts or keeps what is held, and the numbers it skips were never received. -/
def SkipsUnreceived (s : AmRxLog) : Call → Prop
  | .rx _ => True
  | .tick nowMs => KeepsHeld s.rx (.tick nowMs) ∧
      ∀ sn, s.rx.vrNext ≤ sn → sn < (s.rx.tick nowMs).1.vrNext →
        (∀ held, (sn, held) ∉ (s.rx.tick nowMs).2.accepted) → sn ∉ s.received

/-- A timeout finds what was received and is not behind the edge behind the holes. -/
def ReceivedBehindHoles (s : AmRxLog) : Call → Prop
  | .rx _ => True
  | .tick nowMs => TimeoutDue s.rx nowMs → ∀ sn ∈ s.received, s.rx.vrNext ≤ sn → ∀ hole ∈ s.rx.holes, hole < sn

instance (s : AmRxLog) : (c : Call) → Decidable (ReceivedBehindHoles s c)
  | .rx _ => inferInstanceAs (Decidable True)
  | .tick nowMs =>
    decidable_of_iff (TimeoutDue s.rx nowMs → ∀ sn ∈ s.received.toList, s.rx.vrNext ≤ sn →
        ∀ hole ∈ s.rx.holes.toList, hole < sn) (by
      simp only [ReceivedBehindHoles, Std.ExtTreeSet.mem_toList])

def Ahead (r : AmRx) : Prop := ∀ sn ∈ r.reorder, r.vrNext ≤ sn

/-- What a release leaves is above the new edge. -/
theorem Released.ahead {m : Nat} {out : AmOutcome} {next : AmRx × AmOutcome} (h : Released m r out next)
    (held : Ahead r) : Ahead next.1 := by
  intro sn hsn
  have hlow := held sn (h.mem_reorder hsn)
  rw [Std.ExtTreeMap.mem_iff_isSome_getElem?, h.reorder sn] at hsn
  split at hsn
  · cases hsn
  · rw [h.edge]
    omega

theorem rxData_ahead (hn : n < snModulus) (hw : Window n r) (h : Ahead r) {d : AmDataPdu} (hlt : d.seq < n) :
    Ahead (r.rxData d).1 := by
  rcases r.rxData_trichotomy d with ⟨-, heq⟩ | ⟨-, -, heq⟩ | ⟨hnew, hahead⟩ | ⟨hnew, hseq⟩
  · rw [heq]
    exact h
  · rw [heq]
    exact h
  · obtain ⟨hedge, -⟩ := holdAhead_frame { r with seen := markSeen r.seen d.seq } d
    rw [(rxData_hold hnew hahead).1]
    intro sn hsn
    rw [hedge]
    rw [holdAhead_reorder] at hsn
    split at hsn
    · rcases mem_insert_reorder.mp hsn with rfl | hold
      · exact hahead.le
      · exact h sn hold
    · exact h sn hsn
  · obtain ⟨m, hm⟩ := rxData_edge hn hw hnew hseq hlt
    refine Released.ahead hm fun sn hsn => ?_
    rcases mem_insert_reorder.mp hsn with rfl | hold
    · exact hseq.ge
    · exact h sn hold

/-- What the skip and the release make of a held PDU. -/
theorem keepsHeld_iff (hn : n < snModulus) (hw : Window n r) (h : Ahead r) (c : Call) :
    KeepsHeld r c ↔ HeldBehindHoles r c := by
  cases c with
  | rx pdu => exact Iff.rfl
  | tick nowMs =>
    by_cases hdue : TimeoutDue r nowMs
    · obtain ⟨last, hlast, hmax, m, hm, -⟩ := tick_of_due hn hw hdue
      have hedge : (r.tick nowMs).1.vrNext = last + 1 + m := hm.edge
      have haccepted : ∀ sn held, (sn, held) ∈ (r.tick nowMs).2.accepted ↔
          last + 1 ≤ sn ∧ sn < last + 1 + m ∧ r.reorder[sn]? = some held := by
        intro sn held
        rw [hm.accepted sn held]
        simp only [skipTo, List.not_mem_nil, false_or]
      constructor
      · intro hkeeps _ sn hsn hole hhole
        obtain ⟨held, hheld⟩ := Option.isSome_iff_exists.mp (Std.ExtTreeMap.mem_iff_isSome_getElem?.mp hsn)
        have hle := hmax hole hhole
        rcases hkeeps sn held hheld with hdone | ⟨-, hwaits⟩
        · have hlow := ((haccepted sn held).mp hdone).1
          omega
        · omega
      · intro hbehind sn held hheld
        have hlow := hbehind hdue sn (mem_reorder_of_getElem? hheld) last hlast
        by_cases hreleased : sn < last + 1 + m
        · exact .inl ((haccepted sn held).mpr ⟨hlow, hreleased, hheld⟩)
        · refine .inr ⟨?_, by omega⟩
          rw [hm.reorder sn, if_neg]
          · exact hheld
          · exact fun hboth => hreleased hboth.2
    · refine ⟨fun _ hd => absurd hd hdue, fun _ sn held hheld => .inr ?_⟩
      rw [tick_of_not_due hdue]
      have hlow := h sn (mem_reorder_of_getElem? hheld)
      dsimp only
      split
      · exact ⟨hheld, hlow⟩
      · unfold noteProgress
        split
        · exact ⟨hheld, hlow⟩
        · exact ⟨hheld, hlow⟩

/-- Step lemma: a call under the condition leaves every held number above the edge. -/
theorem call_ahead (hn : n < snModulus) (hw : Window n r) (h : Ahead r) {c : Call} (hbelow : c.Below n)
    (hc : HeldBehindHoles r c) : Ahead (r.call c).1 := by
  cases c with
  | rx pdu =>
    show Ahead (r.rx pdu).1
    unfold rx
    split
    · exact h
    · rename_i d hd
      exact rxData_ahead hn hw h (hbelow d hd)
  | tick nowMs =>
    show Ahead (r.tick nowMs).1
    by_cases hdue : TimeoutDue r nowMs
    · obtain ⟨last, hlast, -, m, hm, -⟩ := tick_of_due hn hw hdue
      refine Released.ahead hm fun sn hsn => ?_
      exact hc hdue sn hsn last hlast
    · rw [tick_of_not_due hdue]
      dsimp only
      split
      · exact h
      · unfold noteProgress
        split <;> exact h

/-- What is held was received. -/
def HeldReceived (s : AmRxLog) : Prop := ∀ sn ∈ s.rx.reorder, sn ∈ s.received

/-- Only the PDU that came can be newly held. -/
theorem mem_reorder_rxData (hn : n < snModulus) (hw : Window n r) {d : AmDataPdu} (hlt : d.seq < n) {sn : Nat}
    (hsn : sn ∈ (r.rxData d).1.reorder) : sn = d.seq ∨ sn ∈ r.reorder := by
  rcases r.rxData_trichotomy d with ⟨-, heq⟩ | ⟨-, -, heq⟩ | ⟨hnew, hahead⟩ | ⟨hnew, hseq⟩
  · exact .inr (by rwa [heq] at hsn)
  · exact .inr (by rwa [heq] at hsn)
  · rw [(rxData_hold hnew hahead).1, holdAhead_reorder] at hsn
    split at hsn
    · exact mem_insert_reorder.mp hsn
    · exact .inr hsn
  · obtain ⟨m, hm⟩ := rxData_edge hn hw hnew hseq hlt
    exact mem_insert_reorder.mp (hm.mem_reorder hsn)

theorem mem_reorder_tick (hn : n < snModulus) (hw : Window n r) {nowMs : UInt32} {sn : Nat}
    (hsn : sn ∈ (r.tick nowMs).1.reorder) : sn ∈ r.reorder := by
  by_cases hdue : TimeoutDue r nowMs
  · obtain ⟨last, -, -, m, hm, -⟩ := tick_of_due hn hw hdue
    exact hm.mem_reorder hsn
  · rw [tick_of_not_due hdue] at hsn
    dsimp only at hsn
    split at hsn
    · exact hsn
    · unfold noteProgress at hsn
      split at hsn <;> exact hsn

theorem HeldReceived.step_kept {s s' : AmRxLog} (hn : n < snModulus) (hw : Window n s.rx) (h : HeldReceived s) {c : Call}
    (hstep : AmRxLog.step n s c = some s') : HeldReceived s' := by
  unfold AmRxLog.step at hstep
  split at hstep
  · rename_i hbelow
    obtain rfl := Option.some.inj hstep
    intro sn hsn
    cases c with
    | rx pdu =>
      simp only [call, rx] at hsn ⊢
      cases hd : decodeData pdu with
      | none =>
        rw [hd] at hsn
        exact h sn hsn
      | some d =>
        rw [hd] at hsn
        rw [Option.map_some, Option.getD_some, Std.ExtTreeSet.mem_insert, Nat.compare_eq_eq]
        exact (mem_reorder_rxData hn hw (hbelow d hd) hsn).imp Eq.symm (h sn)
    | tick nowMs => exact h sn (mem_reorder_tick hn hw hsn)
  · cases hstep

/-- A timeout passes over everything up to the last hole; what it accepts lies behind. -/
theorem skipsUnreceived_iff {s : AmRxLog} (hn : n < snModulus) (hw : Window n s.rx) (h : Ahead s.rx)
    (hheld : HeldReceived s) (c : Call) : SkipsUnreceived s c ↔ ReceivedBehindHoles s c := by
  cases c with
  | rx pdu => exact Iff.rfl
  | tick nowMs =>
    by_cases hdue : TimeoutDue s.rx nowMs
    · obtain ⟨last, hlast, hmax, m, hm, -⟩ := tick_of_due hn hw hdue
      have hedge : (s.rx.tick nowMs).1.vrNext = last + 1 + m := hm.edge
      constructor
      · rintro ⟨-, hskips⟩ _ sn hsn hlow hole hhole
        by_contra hfront
        have hbound := hmax hole hhole
        refine hskips sn hlow (by omega) (fun held hmem => ?_) hsn
        rcases (hm.accepted sn held).mp hmem with hnone | ⟨hbehind, -, -⟩
        · exact List.not_mem_nil hnone
        · dsimp only [skipTo] at hbehind
          omega
      · intro hbehind
        refine ⟨(keepsHeld_iff hn hw h _).mpr fun _ sn hsn => hbehind hdue sn (hheld sn hsn) (h sn hsn), ?_⟩
        intro sn hlow hhigh hskipped hsn
        have hlast := hbehind hdue sn hsn hlow last hlast
        obtain ⟨held, hget⟩ := Option.isSome_iff_exists.mp
          (Std.ExtTreeMap.mem_iff_isSome_getElem?.mp (hm.present sn (by dsimp only [skipTo]; omega) (by
            dsimp only [skipTo]
            omega)))
        exact hskipped held ((hm.accepted sn held).mpr (.inr ⟨by dsimp only [skipTo]; omega, by
          dsimp only [skipTo]
          omega, hget⟩))
    · refine ⟨fun _ hd => absurd hd hdue, fun _ => ⟨(keepsHeld_iff hn hw h _).mpr fun hd => absurd hd hdue, ?_⟩⟩
      intro sn hlow hhigh
      rw [tick_of_not_due hdue] at hhigh
      dsimp only at hhigh
      split at hhigh
      · omega
      · unfold noteProgress at hhigh
        split at hhigh
        · dsimp only at hhigh
          omega
        · omega

end AmTimeout

open AmTimeout

/-- For every run of a receiver whose peer sent less than 65536 PDUs: the ticks keep what is held and
skip only what was never received, if and only if every timeout finds the received PDUs behind the
holes. -/
theorem am_resync_keeps_held_iff {n : Nat} (hn : n < snModulus) (r : AmRx) (calls : List Call) :
    StepsMeet (AmRxLog.step n) SkipsUnreceived { rx := r.reset } calls ↔
      StepsMeet (AmRxLog.step n) ReceivedBehindHoles { rx := r.reset } calls := by
  refine stepsMeet_congr (fun s => Window n s.rx ∧ Ahead s.rx ∧ HeldReceived s)
    (fun s c h => skipsUnreceived_iff hn h.1 h.2.1 h.2.2 c) ?_
    ⟨window_reset n r, fun sn hsn => absurd hsn Std.ExtTreeMap.not_mem_empty,
      fun sn hsn => absurd hsn Std.ExtTreeMap.not_mem_empty⟩ calls
  rintro s c s' ⟨hw, h, hheld⟩ hc hstep
  have hkept := hheld.step_kept hn hw hstep
  unfold AmRxLog.step at hstep
  split at hstep
  · rename_i hbelow
    obtain rfl := Option.some.inj hstep
    refine ⟨call_window hn hw hbelow, call_ahead hn hw h hbelow ?_, hkept⟩
    cases c with
    | rx pdu => trivial
    | tick nowMs => exact fun hdue sn hsn => hc hdue sn (hheld sn hsn) (h sn hsn)
  · cases hstep

/-- One gap: the timeout gives up PDU 1 and releases PDU 2. -/
theorem am_resync_keeps_held_one_gap :
    StepsMeet (AmRxLog.step 3) SkipsUnreceived { rx := AmRx.reset { cfg := {} } }
      [.rx (AmTx.buildPdu 0 0 [10]), .tick 0, .rx (AmTx.buildPdu 2 0 [12]), .tick 1000] :=
  (am_resync_keeps_held_iff (by decide) { cfg := {} } _).mpr (by decide)

/-- PDUs 1 and 3 are missing, 2 and 4 are held: the holes are 1, 2 and 3, and after the timeout the
edge is past PDU 2, which stays in the hold area for good. -/
theorem am_resync_strands_held : ∃ r : AmRx,
    runFrom (step 5) (AmRx.reset { cfg := {} })
      [.rx (AmTx.buildPdu 0 0 [10]), .tick 0, .rx (AmTx.buildPdu 2 0 [12]), .rx (AmTx.buildPdu 4 0 [14])] = some r ∧
    r.reorder[2]? = some ⟨0, [12]⟩ ∧ r.holes.toList = [1, 2, 3] ∧
    (r.tick 1000).2.accepted = [(4, ⟨0, [14]⟩)] ∧ (r.tick 1000).1.vrNext = 5 ∧
    (r.tick 1000).1.reorder[2]? = some ⟨0, [12]⟩ ∧ ¬ KeepsHeld r (.tick 1000) := by
  refine ⟨_, rfl, by decide, by decide, by decide, by decide, by decide,
    fun hkeeps => ?_⟩
  rcases hkeeps 2 ⟨0, [12]⟩ (by decide) with haccepted | ⟨-, hahead⟩
  · revert haccepted
    decide
  · revert hahead
    decide

/-! ### The age of a hole -/

/-- A receiver with the time of its last tick and, of a hole that a tick has found, the time of
the first one. -/
structure TimedAmRx where
  rx : AmRx
  lastTick : Nat := 0
  since : Nat → Option Nat := fun _ => none

namespace TimedAmRx

/-- From when on a tick counts the age of a number. -/
def firstTick (s : TimedAmRx) (nowMs : UInt32) (sn : Nat) : Nat := (s.since sn).getD nowMs.toNat

/-- Any PDU may arrive; the times of the ticks do not decrease. -/
def step (s : TimedAmRx) : Call → Option TimedAmRx
  | .rx pdu =>
    some { s with
      rx := (s.rx.rx pdu).1
      since := fun sn => if sn ∈ s.rx.holes then s.since sn else none }
  | .tick nowMs =>
    if nowMs.toNat < s.lastTick then none
    else
      some {
        rx := (s.rx.tick nowMs).1
        lastTick := nowMs.toNat
        since := fun sn => some (s.firstTick nowMs sn) }

/-- What a tick gives up was a hole for the time of the reordering timeout. -/
def NeverEarly (s : TimedAmRx) : Call → Prop
  | .rx _ => True
  | .tick nowMs => ∀ sn ∈ (s.rx.tick nowMs).2.lost,
      s.firstTick nowMs sn + s.rx.cfg.tReorderMs.toNat ≤ nowMs.toNat

/-- The first tick behind the recording of a hole notes progress as well, if there ever was some
before this millisecond. -/
def GapsSeeProgress (s : TimedAmRx) : Call → Prop
  | .rx _ => True
  | .tick nowMs => s.rx.cfg.tReorderMs ≠ 0 → ∀ sn ∈ s.rx.holes, s.since sn = none →
      s.rx.accepts ≠ s.rx.tickAccepts ∨ s.rx.lastProgressMs < 0 ∨ s.rx.lastProgressMs = clock nowMs

instance (s : TimedAmRx) : (c : Call) → Decidable (GapsSeeProgress s c)
  | .rx _ => inferInstanceAs (Decidable True)
  | .tick nowMs =>
    decidable_of_iff (s.rx.cfg.tReorderMs ≠ 0 → ∀ sn ∈ s.rx.holes.toList, s.since sn = none →
        s.rx.accepts ≠ s.rx.tickAccepts ∨ s.rx.lastProgressMs < 0 ∨ s.rx.lastProgressMs = clock nowMs) (by
      simp only [GapsSeeProgress, Std.ExtTreeSet.mem_toList])

/-- No hole that a tick has found is younger than the last progress. -/
structure Aged (s : TimedAmRx) : Prop where
  progress : s.rx.lastProgressMs ≤ s.lastTick
  found : ∀ sn ∈ s.rx.holes, ∀ t, s.since sn = some t →
    t ≤ s.lastTick ∧ (s.rx.cfg.tReorderMs ≠ 0 → s.rx.lastProgressMs < 0 ∨ (t : Int) ≤ s.rx.lastProgressMs)

theorem aged_reset (r : AmRx) : Aged { rx := r.reset } where
  progress := by simp [reset]
  found := fun sn hsn => absurd hsn Std.ExtTreeSet.not_mem_empty

/-- An enabled tick. -/
theorem step_tick {s s' : TimedAmRx} {nowMs : UInt32} (h : s.step (.tick nowMs) = some s') :
    s.lastTick ≤ nowMs.toNat ∧ s' =
      { rx := (s.rx.tick nowMs).1, lastTick := nowMs.toNat, since := fun sn => some (s.firstTick nowMs sn) } := by
  simp only [step] at h
  split at h
  · cases h
  · rename_i hlater
    exact ⟨not_lt.mp hlater, (Option.some.inj h).symm⟩

/-- The last progress is not behind the last tick. -/
theorem step_progress {s s' : TimedAmRx} {c : Call} (h : s.rx.lastProgressMs ≤ s.lastTick)
    (hstep : s.step c = some s') : s'.rx.lastProgressMs ≤ s'.lastTick := by
  cases c with
  | rx pdu =>
    obtain rfl := Option.some.inj hstep
    show (s.rx.rx pdu).1.lastProgressMs ≤ s.lastTick
    rw [rx_progress]
    exact h
  | tick nowMs =>
    obtain ⟨hlater, rfl⟩ := step_tick hstep
    show (s.rx.tick nowMs).1.lastProgressMs ≤ (nowMs.toNat : Int)
    by_cases hdue : TimeoutDue s.rx nowMs
    · rw [tick_eq_of_due hdue]
      exact (drainLoop_progress _ _ _).le
    · rw [tick_of_not_due hdue]
      dsimp only
      split
      · omega
      · unfold noteProgress
        split
        · exact le_rfl
        · omega

theorem step_aged {s s' : TimedAmRx} {c : Call} (h : Aged s) (hc : GapsSeeProgress s c)
    (hstep : s.step c = some s') : Aged s' := by
  refine ⟨step_progress h.progress hstep, ?_⟩
  cases c with
  | rx pdu =>
    obtain rfl := Option.some.inj hstep
    intro sn hsn t ht
    dsimp only at ht ⊢
    split at ht
    · rename_i hold
      rw [rx_progress, rx_cfg]
      exact h.found sn hold t ht
    · cases ht
  | tick nowMs =>
    obtain ⟨hlater, rfl⟩ := step_tick hstep
    intro sn hsn t ht
    dsimp only at hsn ht ⊢
    by_cases hdue : TimeoutDue s.rx nowMs
    · exact absurd hsn (not_mem_holes_tick hdue sn)
    · have hhole : sn ∈ s.rx.holes := by
        rw [tick_of_not_due hdue] at hsn
        revert hsn
        dsimp only
        split
        · exact id
        · unfold noteProgress
          split <;> exact id
      rw [firstTick, Option.some.injEq] at ht
      -- the hole is found now, or it was found before
      cases hsince : s.since sn with
      | none =>
        rw [hsince, Option.getD_none] at ht
        refine ⟨ht.ge, fun hset => ?_⟩
        rw [tick_cfg] at hset
        rw [tick_of_not_due hdue]
        dsimp only
        rw [if_neg hset, noteProgress]
        have hcases := hc hset sn hhole hsince
        split
        · right
          rw [← ht]
          exact le_rfl
        · rename_i hidle
          rcases hcases with hprogress | hnone | hnow
          · exact absurd hprogress hidle
          · exact .inl hnone
          · refine .inr ?_
            rw [hnow, ← ht]
            exact le_rfl
      | some t₀ =>
        rw [hsince, Option.getD_some] at ht
        subst ht
        obtain ⟨hbefore, haged⟩ := h.found sn hhole t₀ hsince
        refine ⟨by omega, fun hset => ?_⟩
        rw [tick_cfg] at hset
        rw [tick_of_not_due hdue]
        dsimp only
        rw [if_neg hset, noteProgress]
        split
        · right
          show (t₀ : Int) ≤ clock nowMs
          unfold clock
          omega
        · exact haged hset

/-- What has waited since a progress within the timeout is not given up. -/
theorem neverEarly_of_gapsSeeProgress {s : TimedAmRx} {c : Call} (h : Aged s) (hc : GapsSeeProgress s c) :
    NeverEarly s c := by
  cases c with
  | rx pdu => trivial
  | tick nowMs =>
    intro sn hsn
    rw [tick_lost] at hsn
    split at hsn
    · rename_i hdue
      obtain ⟨hset, hidle, -, hstarted, hold⟩ := hdue
      have hhole : sn ∈ s.rx.holes := Std.ExtTreeSet.mem_toList.mp hsn
      have hpos := clock_pos hset
      simp only [clock] at hold hpos
      cases hsince : s.since sn with
      | none =>
        rcases hc hset sn hhole hsince with hprogress | hnone | hnow
        · exact absurd hidle hprogress
        · omega
        · rw [clock] at hnow
          omega
      | some t =>
        rw [firstTick, hsince, Option.getD_some]
        have haged := (h.found sn hhole t hsince).2 hset
        omega
    · exact absurd hsn List.not_mem_nil

/-- Where the condition fails, a tick gives a hole up too early, now or when the timeout is due. -/
theorem exists_early {s : TimedAmRx} (hprogress : s.rx.lastProgressMs ≤ s.lastTick) {nowMs : UInt32}
    (hlater : s.lastTick ≤ nowMs.toNat) (hnot : ¬ GapsSeeProgress s (.tick nowMs))
    (hspace : s.rx.lastProgressMs + s.rx.cfg.tReorderMs.toNat < 2 ^ 32) :
    ∃ later : UInt32, ¬ StepsMeet step NeverEarly s [.tick nowMs, .tick later] := by
  simp only [GapsSeeProgress, not_forall, not_or, not_lt, not_not] at hnot
  obtain ⟨hset, sn, hhole, hsince, hidle, hstarted, hnow⟩ := hnot
  have hpos := clock_pos hset
  have hholes : ¬ s.rx.holes.isEmpty = true := by
    rw [Std.ExtTreeSet.isEmpty_iff]
    intro hempty
    rw [hempty] at hhole
    exact Std.ExtTreeSet.not_mem_empty hhole
  simp only [clock] at hpos hnow
  by_cases hdue : TimeoutDue s.rx nowMs
  · refine ⟨0, fun hmeets => ?_⟩
    have hage := hmeets.1 sn (by rw [tick_lost, if_pos hdue]; exact Std.ExtTreeSet.mem_toList.mpr hhole)
    rw [firstTick, hsince, Option.getD_none] at hage
    omega
  · -- the tick changes nothing but the age, and the timeout runs from the old progress on
    have hsame : (s.rx.tick nowMs).1 = s.rx := by
      rw [tick_of_not_due hdue]
      dsimp only
      rw [if_neg hset, noteProgress, if_neg (not_not.mpr hidle)]
    have htime : (UInt32.ofNat (s.rx.lastProgressMs.toNat + s.rx.cfg.tReorderMs.toNat)).toNat =
        s.rx.lastProgressMs.toNat + s.rx.cfg.tReorderMs.toNat := by
      rw [UInt32.toNat_ofNat', Nat.mod_eq_of_lt (by omega)]
    refine ⟨UInt32.ofNat (s.rx.lastProgressMs.toNat + s.rx.cfg.tReorderMs.toNat), fun hmeets => ?_⟩
    have hfirst : s.step (.tick nowMs) = some
        { rx := s.rx, lastTick := nowMs.toNat, since := fun sn => some (s.firstTick nowMs sn) } := by
      rw [step, if_neg (not_lt.mpr hlater), hsame]
    have hdue' : TimeoutDue s.rx (UInt32.ofNat (s.rx.lastProgressMs.toNat + s.rx.cfg.tReorderMs.toNat)) := by
      refine ⟨hset, hidle, hholes, hstarted, ?_⟩
      simp only [clock, htime]
      omega
    have hage := (hmeets.2 _ hfirst).1 sn (by
      rw [tick_lost, if_pos hdue']
      exact Std.ExtTreeSet.mem_toList.mpr hhole)
    simp only [firstTick, hsince, Option.getD_none, Option.getD_some, htime] at hage
    omega

end TimedAmRx

open TimedAmRx

/-- For every run: if the first tick behind the recording of a hole always notes progress, no tick
gives a hole up before it is as old as the reordering timeout. And where the condition fails the
defect is near: that tick or a later one gives a hole up too early. -/
theorem am_timeout_never_early (r : AmRx) (calls : List Call) :
    (StepsMeet TimedAmRx.step GapsSeeProgress { rx := r.reset } calls →
      StepsMeet TimedAmRx.step NeverEarly { rx := r.reset } calls) ∧
    ∀ (s : TimedAmRx) (nowMs : UInt32), runFrom TimedAmRx.step { rx := r.reset } calls = some s →
      s.lastTick ≤ nowMs.toNat → ¬ GapsSeeProgress s (.tick nowMs) →
      s.rx.lastProgressMs + s.rx.cfg.tReorderMs.toNat < 2 ^ 32 →
      ∃ later : UInt32, ¬ StepsMeet TimedAmRx.step NeverEarly s [.tick nowMs, .tick later] := by
  constructor
  · intro hmeets
    exact hmeets.of_invariant Aged (fun _ _ _ h hc hstep => step_aged h hc hstep)
      (fun _ _ h hc => neverEarly_of_gapsSeeProgress h hc) (aged_reset r)
  · intro s nowMs hrun hlater hnot hspace
    have hprogress : s.rx.lastProgressMs ≤ s.lastTick :=
      runFrom_invariant (fun s => s.rx.lastProgressMs ≤ s.lastTick)
        (fun _ _ _ h hstep => step_progress h hstep) (aged_reset r).progress hrun
    exact exists_early hprogress hlater hnot hspace

/-- PDU 1 is given up a second after the tick that found it missing. -/
theorem am_timeout_never_early_one_gap :
    StepsMeet TimedAmRx.step NeverEarly { rx := AmRx.reset { cfg := {} } }
      [.rx (AmTx.buildPdu 0 0 [10]), .rx (AmTx.buildPdu 2 0 [12]), .tick 7, .tick 1007] :=
  (am_timeout_never_early { cfg := {} } _).1 (by decide)

/-- After five idle seconds a hole is given up by the first tick that finds it. -/
theorem am_timeout_early : ∃ s : TimedAmRx,
    runFrom TimedAmRx.step { rx := AmRx.reset { cfg := {} } }
      [.rx (AmTx.buildPdu 0 0 [10]), .tick 0, .tick 5000, .rx (AmTx.buildPdu 2 0 [12])] = some s ∧
    (s.rx.tick 5001).2.lost = [1] ∧ s.firstTick 5001 1 = 5001 ∧ s.rx.cfg.tReorderMs = 1000 ∧
    ¬ NeverEarly s (.tick 5001) := by
  refine ⟨_, rfl, by decide, by decide, rfl, fun hearly => ?_⟩
  have hage := hearly 1 (by decide)
  revert hage
  decide

end AetherStack.Guarantees
