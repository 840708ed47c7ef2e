import AetherStack.Lib.Run
import AetherStack.Source.RlcUmWindow

/-!
# The age of what the reordering timeout of unacknowledged mode skips

One timer serves all holes. It is started for the first PDU that is held, and a PDU received in
order lets it run while anything is held. When the hole it was started for is filled and another
one is left, the later hole is skipped at the deadline of the filled one.
-/
namespace AetherStack.Guarantees
open Source Source.UmRx Lib

/-- A call on the receiver at a time in milliseconds; the receiver sees the low 32 bits. -/
inductive TimedUmCall where
  | rx (nowMs : Nat) (pdu : Bytes)
  | tick (nowMs : Nat)
  | poll
  | reset
  deriving DecidableEq, Repr

/-- The held PDU `later` waits for the number `sn`, which has not been received. -/
def WaitsFor (r : UmRx) (later sn : Nat) : Prop :=
  later ∈ r.buffer ∧ sn ∉ r.buffer ∧ sn < snModulus ∧ r.distance sn < r.distance later

instance (r : UmRx) (later sn : Nat) : Decidable (WaitsFor r later sn) :=
  inferInstanceAs (Decidable (_ ∧ _))

/-- What a timeout at this time skips. -/
def Skips (r : UmRx) (nowMs : UInt32) (sn : Nat) : Prop :=
  r.Due nowMs ∧ sn < snModulus ∧ ∃ resume ∈ r.buffer.minKey?, r.distance sn < r.distance resume

/-- A receiver with the time of its last call, the time since when a held PDU has been waiting for
a number, and the time at which the timer was started last. -/
structure TimedUmRx where
  rx : UmRx
  now : Nat := 0
  since : Nat → Nat → Option Nat := fun _ _ => none
  started : Nat := 0

namespace TimedUmRx

/-- A call at `nowMs` leaves the receiver `r`. -/
def after (s : TimedUmRx) (nowMs : Nat) (r : UmRx) (started : Nat) : TimedUmRx where
  rx := r
  now := nowMs
  since later sn := if WaitsFor r later sn then some ((s.since later sn).getD nowMs) else none
  started := started

/-- Any PDU may arrive; the times do not decrease. -/
def step (s : TimedUmRx) : TimedUmCall → Option TimedUmRx
  | .rx nowMs pdu =>
    if nowMs < s.now then none
    else
      some (s.after nowMs (s.rx.rx (UInt32.ofNat nowMs) pdu) (if s.rx.timerRunning then s.started else nowMs))
  | .tick nowMs =>
    if nowMs < s.now then none
    else
      some (s.after nowMs (s.rx.tick (UInt32.ofNat nowMs))
        (if s.rx.Due (UInt32.ofNat nowMs) then nowMs else s.started))
  | .poll => some (s.after s.now s.rx.poll.1 s.started)
  | .reset => some (s.after s.now s.rx.reset s.started)

/-- For what a tick skips, a later PDU has been waiting for the time of the reordering timeout. -/
def NeverEarly (s : TimedUmRx) : TimedUmCall → Prop
  | .tick nowMs => s.now ≤ nowMs → ∀ sn, Skips s.rx (UInt32.ofNat nowMs) sn →
      ∃ later, ∃ t ∈ s.since later sn, t + s.rx.cfg.tReorderMs.toNat ≤ nowMs
  | .rx _ _ => True
  | .poll => True
  | .reset => True

/-- A held PDU waits for a number behind the edge as well. -/
def WaitsFurther (r : UmRx) (later : Nat) : Prop :=
  ∃ i < r.distance later, 0 < i ∧ (r.vrNext + i) % snModulus ∉ r.buffer

instance (r : UmRx) (later : Nat) : Decidable (WaitsFurther r later) :=
  inferInstanceAs (Decidable (∃ i < _, _))

/-- A held PDU has been waiting since the timer was started, or for the whole timeout. -/
def Ripe (s : TimedUmRx) (nowMs later : Nat) : Prop :=
  ∃ t ∈ s.since later s.rx.vrNext, t ≤ s.started ∨ t + s.rx.cfg.tReorderMs.toNat ≤ nowMs

instance (s : TimedUmRx) (nowMs later : Nat) : Decidable (Ripe s nowMs later) :=
  inferInstanceAs (Decidable (∃ t ∈ s.since later s.rx.vrNext, _))

/-- When the PDU next in order arrives under a running timer and leaves a hole, a PDU that the
timer was started for waits for it too. A timeout finds the held numbers on one side of the wrap,
and its time is at most half the range of the clock. -/
def HoleTimed (s : TimedUmRx) : TimedUmCall → Prop
  | .rx nowMs pdu => s.rx.TakesNext pdu → s.rx.timerRunning = true →
      (∃ later ∈ s.rx.buffer.keys, WaitsFurther s.rx later) →
      ∃ later ∈ s.rx.buffer.keys, WaitsFurther s.rx later ∧ Ripe s nowMs later
  | .tick nowMs => s.rx.Due (UInt32.ofNat nowMs) →
      s.rx.cfg.tReorderMs.toNat ≤ 2 ^ 31 ∧ s.rx.Unsplit
  | .poll => True
  | .reset => True

instance (s : TimedUmRx) : (c : TimedUmCall) → Decidable (HoleTimed s c)
  | .rx nowMs pdu => inferInstanceAs (Decidable (s.rx.TakesNext pdu → s.rx.timerRunning = true →
      (∃ later ∈ s.rx.buffer.keys, WaitsFurther s.rx later) →
      ∃ later ∈ s.rx.buffer.keys, WaitsFurther s.rx later ∧ Ripe s nowMs later))
  | .tick nowMs => inferInstanceAs (Decidable (s.rx.Due (UInt32.ofNat nowMs) → _ ∧ _))
  | .poll => inferInstanceAs (Decidable True)
  | .reset => inferInstanceAs (Decidable True)

/-! ### Held PDUs over a call -/

/-- Every number a held PDU waits for after a call is one it waited for before. -/
def KeepsWaiting (r r' : UmRx) : Prop :=
  ∀ later ∈ r.buffer, ∀ sn, WaitsFor r' later sn → WaitsFor r later sn

variable {r r' : UmRx} {s s' : TimedUmRx}

/-- What is held waits for the edge at least. -/
theorem waitsFor_edge (h : Ahead r) {later : Nat} (hlater : later ∈ r.buffer) : WaitsFor r later r.vrNext := by
  refine ⟨hlater, h.edge_free, h.edge_lt, ?_⟩
  rw [distance_edge h.edge_lt]
  exact h.distance_pos hlater

/-- As the edge moves on, what waits further ahead goes on waiting. -/
theorem keepsWaiting_of_moved {m : Nat} (h : Ahead r) (hm : Moved m r r') : KeepsWaiting r r' := by
  rintro later - sn ⟨hlater, hmissing, hsn, hlt⟩
  obtain ⟨hold, hle⟩ := (hm.held later).mp hlater
  have hnear := (h.held later hold).2
  rw [hm.distance h.edge_lt hle] at hlt
  have hdist : r.distance sn = r'.distance sn + m := by
    have hedge := h.edge_lt
    have hedge' := hm.edge
    unfold UmRx.distance at hlt hnear hle ⊢
    rw [hedge'] at hlt ⊢
    rw [snModulus] at hsn hedge hlt hnear hle ⊢
    omega
  refine ⟨hold, fun hin => hmissing ((hm.held sn).mpr ⟨hin, by omega⟩), hsn, by omega⟩

/-- What stays held after the PDU next in order is what waits for a further number. -/
theorem waitsFurther_iff {m : Nat} (h : Ahead r) (hm : Passed m r r') {later : Nat} (hlater : later ∈ r.buffer) :
    WaitsFurther r later ↔ later ∈ r'.buffer := by
  rw [hm.held]
  constructor
  · rintro ⟨i, hi, hipos, hmissing⟩
    refine ⟨hlater, ?_⟩
    by_contra hlt
    exact hmissing (hm.taken i (by omega) hipos)
  · rintro ⟨-, hle⟩
    have hnear := (h.held later hlater).2
    have hedge : (r.vrNext + m) % snModulus ∉ r.buffer := by
      intro hin
      apply hm.ahead.edge_free
      rw [hm.edge, hm.held]
      refine ⟨hin, ?_⟩
      rw [distance_add h.edge_lt (by rw [snModulus]; omega)]
    refine ⟨m, ?_, hm.pos, hedge⟩
    rcases Nat.lt_or_eq_of_le hle with hlt | heq
    · exact hlt
    · exfalso
      apply hedge
      have hsame : (r.vrNext + m) % snModulus = later := by
        have hlt := (h.held later hlater).1
        have hvr := h.edge_lt
        unfold UmRx.distance at heq
        rw [snModulus] at heq hlt hvr ⊢
        omega
      rwa [hsame]

/-! ### The invariant -/

/-- A held PDU has been waiting for all its numbers since it arrived, and under a running timer one
of them has been waiting since the timer was started, or for the whole timeout. -/
structure Aged (s : TimedUmRx) : Prop where
  ahead : Ahead s.rx
  only : ∀ later sn t, s.since later sn = some t → WaitsFor s.rx later sn
  arrived : ∀ later ∈ s.rx.buffer, ∃ t ≤ s.now, ∀ sn, WaitsFor s.rx later sn → s.since later sn = some t
  deadline : s.rx.timerRunning = true →
    s.started ≤ s.now ∧ s.rx.timerDeadline = UInt32.ofNat (s.started + s.rx.cfg.tReorderMs.toNat)
  ripe : s.rx.timerRunning = true → ∃ later ∈ s.rx.buffer, Ripe s s.now later

theorem aged_reset (r : UmRx) : Aged { rx := r.reset } where
  ahead := ⟨⟨by simp [UmRx.reset, snModulus], fun sn hsn => absurd hsn Std.ExtTreeMap.not_mem_empty⟩,
    Std.ExtTreeMap.not_mem_empty⟩
  only := by simp
  arrived := fun sn hsn => absurd hsn Std.ExtTreeMap.not_mem_empty
  deadline := by simp [UmRx.reset]
  ripe := by simp [UmRx.reset]

theorem waitsFor_of_since {nowMs started later sn t : Nat} (h : (s.after nowMs r started).since later sn = some t) :
    WaitsFor r later sn := by
  simp only [after] at h
  split at h
  · assumption
  · cases h

/-- A held PDU keeps its age over a call; a new one arrives at it. -/
theorem Aged.since_after (h : Aged s) (hkeeps : KeepsWaiting s.rx r) {nowMs : Nat} (hlater : s.now ≤ nowMs)
    (started later : Nat) : ∃ t ≤ nowMs,
      (∀ sn, WaitsFor r later sn → (s.after nowMs r started).since later sn = some t) ∧
      (later ∈ s.rx.buffer → ∀ sn, WaitsFor s.rx later sn → s.since later sn = some t) := by
  by_cases hold : later ∈ s.rx.buffer
  · obtain ⟨t, ht, hall⟩ := h.arrived later hold
    refine ⟨t, by omega, fun sn hwaits => ?_, fun _ => hall⟩
    simp only [after, if_pos hwaits, hall sn (hkeeps later hold sn hwaits), Option.getD_some]
  · refine ⟨nowMs, le_rfl, fun sn hwaits => ?_, fun hin => absurd hin hold⟩
    have hnone : s.since later sn = none := by
      cases hsince : s.since later sn with
      | none => rfl
      | some t => exact absurd (h.only later sn t hsince).1 hold
    simp only [after, if_pos hwaits, hnone, Option.getD_none]

/-- The parts of the invariant that do not speak of the timer. -/
theorem Aged.after (h : Aged s) (hahead : Ahead r) (hkeeps : KeepsWaiting s.rx r) {nowMs started : Nat}
    (hlater : s.now ≤ nowMs)
    (hdeadline : r.timerRunning = true →
      started ≤ nowMs ∧ r.timerDeadline = UInt32.ofNat (started + r.cfg.tReorderMs.toNat))
    (hripe : r.timerRunning = true → ∃ later ∈ r.buffer, Ripe (s.after nowMs r started) nowMs later) :
    Aged (s.after nowMs r started) where
  ahead := hahead
  only := fun _ _ _ ht => waitsFor_of_since ht
  arrived := by
    intro later _
    obtain ⟨t, ht, hall, -⟩ := h.since_after hkeeps hlater started later
    exact ⟨t, ht, hall⟩
  deadline := hdeadline
  ripe := hripe

/-- The timer is started now. -/
theorem Aged.ripe_started (h : Aged s) (hahead : Ahead r) (hkeeps : KeepsWaiting s.rx r) {nowMs later : Nat}
    (hlater : s.now ≤ nowMs) (hin : later ∈ r.buffer) : Ripe (s.after nowMs r nowMs) nowMs later := by
  obtain ⟨t, ht, hall, -⟩ := h.since_after hkeeps hlater nowMs later
  exact ⟨t, hall _ (waitsFor_edge hahead hin), .inl ht⟩

/-- The timer runs on for a PDU that stays held. -/
theorem Aged.ripe_after (h : Aged s) (hahead : Ahead r) (hkeeps : KeepsWaiting s.rx r) {nowMs later : Nat}
    (hlater : s.now ≤ nowMs) (hcfg : r.cfg = s.rx.cfg) (hold : later ∈ s.rx.buffer) (hin : later ∈ r.buffer)
    (hripe : Ripe s nowMs later) : Ripe (s.after nowMs r s.started) nowMs later := by
  obtain ⟨t, -, hall, hsame⟩ := h.since_after hkeeps hlater s.started later
  obtain ⟨t', ht', hcases⟩ := hripe
  obtain rfl : t = t' := Option.some.inj ((hsame hold _ (waitsFor_edge h.ahead hold)).symm.trans ht')
  refine ⟨t, hall _ (waitsFor_edge hahead hin), ?_⟩
  show t ≤ s.started ∨ t + r.cfg.tReorderMs.toNat ≤ nowMs
  rwa [hcfg]

/-- With time a held PDU only gets riper. -/
theorem Ripe.mono {nowMs nowMs' later : Nat} (h : Ripe s nowMs later) (hle : nowMs ≤ nowMs') : Ripe s nowMs' later := by
  obtain ⟨t, ht, hcases⟩ := h
  exact ⟨t, ht, by omega⟩

theorem keepsWaiting_of_subset (hvr : r'.vrNext = r.vrNext) (hsub : ∀ sn ∈ r.buffer, sn ∈ r'.buffer) :
    KeepsWaiting r r' := by
  rintro later hold sn ⟨-, hmissing, hsn, hlt⟩
  unfold UmRx.distance at hlt
  rw [hvr] at hlt
  exact ⟨hold, fun hin => hmissing (hsub sn hin), hsn, hlt⟩

theorem keepsWaiting_of_empty (hempty : r'.buffer = ∅) : KeepsWaiting r r' := by
  rintro later - sn ⟨hin, -⟩
  rw [hempty] at hin
  exact absurd hin Std.ExtTreeMap.not_mem_empty

/-! ### One call -/

theorem step_rx {nowMs : Nat} {pdu : Bytes} (h : s.step (.rx nowMs pdu) = some s') : s.now ≤ nowMs ∧
    s' = s.after nowMs (s.rx.rx (UInt32.ofNat nowMs) pdu) (if s.rx.timerRunning then s.started else nowMs) := by
  simp only [step] at h
  split at h
  · cases h
  · rename_i hlater
    exact ⟨not_lt.mp hlater, (Option.some.inj h).symm⟩

theorem step_tick {nowMs : Nat} (h : s.step (.tick nowMs) = some s') : s.now ≤ nowMs ∧
    s' = s.after nowMs (s.rx.tick (UInt32.ofNat nowMs)) (if s.rx.Due (UInt32.ofNat nowMs) then nowMs else s.started) := by
  simp only [step] at h
  split at h
  · cases h
  · rename_i hlater
    exact ⟨not_lt.mp hlater, (Option.some.inj h).symm⟩

/-- The deadline is that of the full clock, cut to 32 bits. -/
theorem deadline_eq (nowMs : Nat) (tReorderMs : UInt32) :
    UInt32.ofNat nowMs + tReorderMs = UInt32.ofNat (nowMs + tReorderMs.toNat) := by
  rw [UInt32.ofNat_add, UInt32.ofNat_toNat]

/-- Calls that leave window and timer alone. -/
theorem Aged.kept (h : Aged s) (hvr : r.vrNext = s.rx.vrNext) (hbuffer : r.buffer = s.rx.buffer)
    (hrunning : r.timerRunning = s.rx.timerRunning) (hdeadline : r.timerDeadline = s.rx.timerDeadline)
    (hcfg : r.cfg = s.rx.cfg) {nowMs started : Nat} (hlater : s.now ≤ nowMs)
    (hstarted : s.rx.timerRunning = true → started = s.started) : Aged (s.after nowMs r started) := by
  have hahead := h.ahead.congr hvr hbuffer
  have hkeeps : KeepsWaiting s.rx r := keepsWaiting_of_subset hvr fun sn hsn => hbuffer ▸ hsn
  refine h.after hahead hkeeps hlater (fun hrun => ?_) fun hrun => ?_
  · rw [hrunning] at hrun
    obtain ⟨hbefore, heq⟩ := h.deadline hrun
    rw [hstarted hrun, hdeadline, hcfg]
    exact ⟨by omega, heq⟩
  · rw [hrunning] at hrun
    obtain ⟨later, hin, hripe⟩ := h.ripe hrun
    rw [hstarted hrun]
    exact ⟨later, hbuffer ▸ hin, h.ripe_after hahead hkeeps hlater hcfg hin (hbuffer ▸ hin) (hripe.mono hlater)⟩

/-- A hole that opens starts the timer, or the one that runs is older. -/
theorem rx_aged (h : Aged s) {nowMs : Nat} {pdu : Bytes} (hc : HoleTimed s (.rx nowMs pdu)) (hlater : s.now ≤ nowMs) :
    Aged (s.after nowMs (s.rx.rx (UInt32.ofNat nowMs) pdu) (if s.rx.timerRunning then s.started else nowMs)) := by
  have hcfg := s.rx.rx_cfg (UInt32.ofNat nowMs) pdu
  cases rx_step h.ahead (UInt32.ofNat nowMs) pdu with
  | kept hvr hbuffer hrunning hdeadline =>
    exact h.kept hvr hbuffer hrunning hdeadline hcfg hlater fun hrun => if_pos hrun
  | jumped hedge hbuffer hstopped =>
    refine h.after (ahead_of_empty hedge hbuffer) (keepsWaiting_of_empty hbuffer) hlater ?_ ?_ <;>
      · rw [hstopped]
        simp
  | inOrder m htakes hm =>
    have hkeeps := keepsWaiting_of_moved h.ahead hm.toMoved
    refine h.after hm.ahead hkeeps hlater (fun hrun => ?_) fun hrun => ?_
    · obtain ⟨hrun', -⟩ := hm.running.mp hrun
      obtain ⟨hbefore, heq⟩ := h.deadline hrun'
      rw [if_pos hrun', hm.deadline, hcfg]
      exact ⟨by omega, heq⟩
    · -- the condition names a PDU that stays held and is old enough
      obtain ⟨hrun', left, hleft⟩ := hm.running.mp hrun
      have hleft' := ((hm.held left).mp hleft).1
      have hfurther := (waitsFurther_iff h.ahead hm hleft').mpr hleft
      obtain ⟨later, hin, hfurther', hripe⟩ :=
        hc htakes hrun' ⟨left, Std.ExtTreeMap.mem_keys.mpr hleft', hfurther⟩
      rw [Std.ExtTreeMap.mem_keys] at hin
      have hstays := (waitsFurther_iff h.ahead hm hin).mp hfurther'
      rw [if_pos hrun']
      exact ⟨later, hstays, h.ripe_after hm.ahead hkeeps hlater hcfg hin hstays hripe⟩
  | held sn new hsn hnear hvr hbuffer hrunning hdeadline =>
    have hsub : ∀ sn' ∈ s.rx.buffer, sn' ∈ (s.rx.rx (UInt32.ofNat nowMs) pdu).buffer := by
      intro sn' hin
      rw [hbuffer, Std.ExtTreeMap.mem_insert]
      exact .inr hin
    have hkeeps := keepsWaiting_of_subset hvr hsub
    have hahead := h.ahead.insert new hsn hnear hvr hbuffer
    by_cases hrun : s.rx.timerRunning = true
    · rw [if_pos hrun]
      rw [if_pos hrun] at hdeadline
      obtain ⟨hbefore, heq⟩ := h.deadline hrun
      obtain ⟨later, hin, hripe⟩ := h.ripe hrun
      refine h.after hahead hkeeps hlater (fun _ => ?_) fun _ => ?_
      · rw [hdeadline, hcfg]
        exact ⟨by omega, heq⟩
      · exact ⟨later, hsub later hin, h.ripe_after hahead hkeeps hlater hcfg hin (hsub later hin) (hripe.mono hlater)⟩
    · rw [if_neg hrun]
      rw [if_neg hrun, deadline_eq] at hdeadline
      refine h.after hahead hkeeps hlater (fun _ => ?_) fun _ => ?_
      · rw [hdeadline, hcfg]
        exact ⟨le_rfl, rfl⟩
      · have hin : sn ∈ (s.rx.rx (UInt32.ofNat nowMs) pdu).buffer := by
          rw [hbuffer, Std.ExtTreeMap.mem_insert, Nat.compare_eq_eq]
          exact .inl rfl
        exact ⟨sn, hin, h.ripe_started hahead hkeeps hlater hin⟩

theorem tick_aged (h : Aged s) {nowMs : Nat} (hc : HoleTimed s (.tick nowMs)) (hlater : s.now ≤ nowMs) :
    Aged (s.after nowMs (s.rx.tick (UInt32.ofNat nowMs))
      (if s.rx.Due (UInt32.ofNat nowMs) then nowMs else s.started)) := by
  have hcfg := (s.rx.tick_kept (UInt32.ofNat nowMs)).1
  by_cases hdue : s.rx.Due (UInt32.ofNat nowMs)
  · have hstopped : Ahead { s.rx with timerRunning := false } := h.ahead.congr rfl rfl
    obtain ⟨m, hm, hahead, hrunning⟩ := onReorderTimeout_moved hstopped (hc hdue).2 (UInt32.ofNat nowMs) rfl
    have hmoved : Moved m s.rx (s.rx.tick (UInt32.ofNat nowMs)) := by
      rw [tick_due hdue]
      exact ⟨hm.edge, hm.held⟩
    rw [← tick_due hdue] at hahead hrunning
    have hkeeps := keepsWaiting_of_moved h.ahead hmoved
    rw [if_pos hdue]
    refine h.after hahead hkeeps hlater (fun hrun => ?_) fun hrun => ?_
    · rw [(hrunning hrun).2, hcfg]
      exact ⟨le_rfl, deadline_eq nowMs _⟩
    · obtain ⟨later, hin⟩ := (hrunning hrun).1
      exact ⟨later, hin, h.ripe_started hahead hkeeps hlater hin⟩
  · rw [if_neg hdue]
    rw [tick_not_due hdue]
    exact h.kept rfl rfl rfl rfl rfl hlater fun _ => rfl

/-- Step lemma under the condition. -/
theorem step_aged {c : TimedUmCall} (h : Aged s) (hc : HoleTimed s c) (hstep : s.step c = some s') : Aged s' := by
  cases c with
  | rx nowMs pdu =>
    obtain ⟨hlater, rfl⟩ := step_rx hstep
    exact rx_aged h hc hlater
  | tick nowMs =>
    obtain ⟨hlater, rfl⟩ := step_tick hstep
    exact tick_aged h hc hlater
  | poll =>
    obtain rfl := Option.some.inj hstep
    exact h.kept (r := s.rx.poll.1) rfl rfl rfl rfl rfl le_rfl fun _ => rfl
  | reset =>
    obtain rfl := Option.some.inj hstep
    exact h.after (ahead_of_empty (by simp [UmRx.reset, snModulus]) rfl) (keepsWaiting_of_empty rfl) le_rfl
      (by simp [UmRx.reset]) (by simp [UmRx.reset])

/-! ### The age of what is skipped -/

/-- The comparison of `tick` is that of the times. -/
theorem started_add_le (h : Aged s) {nowMs : Nat} (hlater : s.now ≤ nowMs) (hdue : s.rx.Due (UInt32.ofNat nowMs))
    (hrange : s.rx.cfg.tReorderMs.toNat ≤ 2 ^ 31) : s.started + s.rx.cfg.tReorderMs.toNat ≤ nowMs := by
  obtain ⟨hrun, hreached⟩ := hdue
  obtain ⟨hbefore, heq⟩ := h.deadline hrun
  rw [heq, UInt32.toNat_sub, UInt32.toNat_ofNat', UInt32.toNat_ofNat'] at hreached
  omega

/-- What the timer was started for has waited its time. -/
theorem neverEarly_of_holeTimed {c : TimedUmCall} (h : Aged s) (hc : HoleTimed s c) : NeverEarly s c := by
  cases c with
  | tick nowMs =>
    rintro hbefore sn ⟨hdue, hsn, resume, hmin, hlt⟩
    have hrange := hc hdue
    have hreached := started_add_le h hbefore hdue hrange.1
    have hnearest := hrange.2.nearest h.ahead.edge_lt hmin fun sn' hin => (h.ahead.held sn' hin).1
    obtain ⟨later, hin, t, ht, hcases⟩ := h.ripe hdue.1
    have hwaits : WaitsFor s.rx later sn := by
      refine ⟨hin, fun hheld => ?_, hsn, hlt.trans_le (hnearest later hin)⟩
      have := hnearest sn hheld
      omega
    obtain ⟨t', -, hall⟩ := h.arrived later hin
    obtain rfl : t' = t := Option.some.inj ((hall _ (waitsFor_edge h.ahead hin)).symm.trans ht)
    exact ⟨later, t', hall sn hwaits, by omega⟩
  | rx nowMs pdu => trivial
  | poll => trivial
  | reset => trivial

/-- The time of a call, or that of the last one. -/
def timeOf (s : TimedUmRx) : TimedUmCall → Nat
  | .rx nowMs _ => nowMs
  | .tick nowMs => nowMs
  | .poll => s.now
  | .reset => s.now

/-- A timeout that finds the held numbers on both sides of the wrap skips one of them. -/
theorem early_of_split (h : Aged s) {nowMs : Nat} (hlater : s.now ≤ nowMs) (hdue : s.rx.Due (UInt32.ofNat nowMs))
    (hsplit : ¬ s.rx.Unsplit) : ¬ NeverEarly s (.tick nowMs) := by
  simp only [Unsplit, not_forall, not_not] at hsplit
  obtain ⟨low, hlow, high, hhigh, hbelow, habove⟩ := hsplit
  rw [Std.ExtTreeMap.mem_keys] at hlow hhigh
  obtain ⟨resume, hmin⟩ := Option.isSome_iff_exists.mp
    (Std.ExtTreeMap.isSome_minKey?_iff_ne_empty.mpr (Std.ExtTreeMap.ne_empty_of_mem hlow))
  have hle : resume ≤ low :=
    Nat.isLE_compare.mp (Std.ExtTreeMap.minKey?_le_of_mem hlow (Option.get_of_eq_some _ hmin))
  have hlt := (h.ahead.held high hhigh).1
  intro hnever
  have hskips : Skips s.rx (UInt32.ofNat nowMs) high := by
    refine ⟨hdue, hlt, resume, hmin, ?_⟩
    have hedge := h.ahead.edge_lt
    unfold UmRx.distance
    rw [snModulus] at hlt hedge ⊢
    omega
  obtain ⟨later, t, ht, -⟩ := hnever hlater high hskips
  exact (h.only later high t ht).2.1 hhigh

/-- After a PDU that violates the condition, the next due tick is early. -/
theorem early_after_rx (h : Aged s) {nowMs : Nat} {pdu : Bytes} (hlater : s.now ≤ nowMs)
    (hnot : ¬ HoleTimed s (.rx nowMs pdu)) (hspace : nowMs < s.started + s.rx.cfg.tReorderMs.toNat + 2 ^ 31) :
    ∃ time, ¬ StepsMeet step NeverEarly s [.rx nowMs pdu, .tick time] := by
  obtain ⟨htakes, hrun, ⟨left, hleft, hfurther⟩, hunripe⟩ : s.rx.TakesNext pdu ∧ s.rx.timerRunning = true ∧
      (∃ later ∈ s.rx.buffer.keys, WaitsFurther s.rx later) ∧
      ¬ ∃ later ∈ s.rx.buffer.keys, WaitsFurther s.rx later ∧ Ripe s nowMs later := by
    simpa only [HoleTimed, Classical.not_imp] using hnot
  obtain ⟨hbefore, hdeadline⟩ := h.deadline hrun
  obtain ⟨m, hm⟩ := rx_takesNext h.ahead htakes (UInt32.ofNat nowMs)
  have hkeeps := keepsWaiting_of_moved h.ahead hm.toMoved
  have hstep : s.step (.rx nowMs pdu) = some (s.after nowMs (s.rx.rx (UInt32.ofNat nowMs) pdu) s.started) := by
    rw [step, if_neg (not_lt.mpr hlater), if_pos hrun]
  have hleft' := (waitsFurther_iff h.ahead hm (Std.ExtTreeMap.mem_keys.mp hleft)).mp hfurther
  -- the timer runs on, and is due at its old deadline or now
  have hdue : (s.rx.rx (UInt32.ofNat nowMs) pdu).Due
      (UInt32.ofNat (max nowMs (s.started + s.rx.cfg.tReorderMs.toNat))) := by
    refine ⟨hm.running.mpr ⟨hrun, left, hleft'⟩, ?_⟩
    rw [hm.deadline, hdeadline, UInt32.toNat_sub, UInt32.toNat_ofNat', UInt32.toNat_ofNat']
    omega
  refine ⟨max nowMs (s.started + s.rx.cfg.tReorderMs.toNat), fun hmeets => ?_⟩
  obtain ⟨resume, hmin⟩ := Option.isSome_iff_exists.mp
    (Std.ExtTreeMap.isSome_minKey?_iff_ne_empty.mpr (Std.ExtTreeMap.ne_empty_of_mem hleft'))
  have hskips : Skips (s.rx.rx (UInt32.ofNat nowMs) pdu)
      (UInt32.ofNat (max nowMs (s.started + s.rx.cfg.tReorderMs.toNat))) (s.rx.rx (UInt32.ofNat nowMs) pdu).vrNext := by
    refine ⟨hdue, hm.ahead.edge_lt, resume, hmin, ?_⟩
    rw [distance_edge hm.ahead.edge_lt]
    exact hm.ahead.distance_pos (Std.ExtTreeMap.minKey?_mem hmin)
  obtain ⟨later, t, ht, hage⟩ := (hmeets.2 _ hstep).1 (le_max_left _ _) _ hskips
  -- the PDU named by the tick stays held, so it is not ripe
  have hwaits : WaitsFor (s.rx.rx (UInt32.ofNat nowMs) pdu) later (s.rx.rx (UInt32.ofNat nowMs) pdu).vrNext :=
    waitsFor_of_since ht
  have hin := ((hm.held later).mp hwaits.1).1
  obtain ⟨t', -, hall, hsame⟩ := h.since_after hkeeps hlater s.started later
  obtain rfl : t' = t := Option.some.inj ((hall _ hwaits).symm.trans ht)
  refine hunripe ⟨later, Std.ExtTreeMap.mem_keys.mpr hin, (waitsFurther_iff h.ahead hm hin).mpr hwaits.1, t', ?_, ?_⟩
  · exact hsame hin _ (waitsFor_edge h.ahead hin)
  · have hage' : t' + (s.rx.rx (UInt32.ofNat nowMs) pdu).cfg.tReorderMs.toNat ≤
        max nowMs (s.started + s.rx.cfg.tReorderMs.toNat) := hage
    rw [rx_cfg] at hage'
    omega

/-- Where the condition fails, a tick at the inherited deadline skips early. -/
theorem exists_early (h : Aged s) {c : TimedUmCall} (hlater : s.now ≤ s.timeOf c) (hnot : ¬ HoleTimed s c)
    (hrange : s.rx.cfg.tReorderMs.toNat ≤ 2 ^ 31)
    (hspace : s.timeOf c < s.started + s.rx.cfg.tReorderMs.toNat + 2 ^ 31) :
    ∃ time, ¬ StepsMeet step NeverEarly s [c, .tick time] := by
  cases c with
  | rx nowMs pdu => exact early_after_rx h hlater hnot hspace
  | tick nowMs =>
    obtain ⟨hdue, hsplit⟩ : s.rx.Due (UInt32.ofNat nowMs) ∧ ¬ s.rx.Unsplit := by
      simpa only [HoleTimed, Classical.not_imp, hrange, true_and] using hnot
    exact ⟨nowMs, fun hmeets => early_of_split h hlater hdue hsplit hmeets.1⟩
  | poll => exact absurd trivial hnot
  | reset => exact absurd trivial hnot

end TimedUmRx

open TimedUmRx

/-- For every run: if a PDU received in order never leaves a hole to a timer that was started for
PDUs now delivered, and no timeout finds the held numbers across the wrap, then a number is skipped
only when a later PDU has been waiting for it for the time of the reordering timeout. And where the
condition fails the defect is near: this call or a later tick skips a number too early. -/
theorem um_timeout_never_early (r : UmRx) (calls : List TimedUmCall)
    (meets : StepsMeet step HoleTimed { rx := r.reset } calls) :
    StepsMeet step NeverEarly { rx := r.reset } calls ∧
    ∀ (s : TimedUmRx) (c : TimedUmCall), runFrom step { rx := r.reset } calls = some s →
      s.now ≤ s.timeOf c → ¬ HoleTimed s c → s.rx.cfg.tReorderMs.toNat ≤ 2 ^ 31 →
      s.timeOf c < s.started + s.rx.cfg.tReorderMs.toNat + 2 ^ 31 →
      ∃ time, ¬ StepsMeet step NeverEarly s [c, .tick time] := by
  constructor
  · exact meets.of_invariant Aged (fun _ _ _ h hc hstep => step_aged h hc hstep)
      (fun _ _ h hc => neverEarly_of_holeTimed h hc) (aged_reset r)
  · intro s c hrun hlater hnot hrange hspace
    have haged : Aged s := runFrom_invariant_of_meets Aged (fun _ _ _ h hc hstep => step_aged h hc hstep)
      (aged_reset r) meets hrun
    exact exists_early haged hlater hnot hrange hspace

/-- PDUs 2 and 3 are held when PDU 0 arrives, and wait for PDU 1 from the start of the timer on. -/
theorem um_timeout_never_early_one_gap :
    StepsMeet step NeverEarly { rx := UmRx.reset { cfg := {} } }
      [.rx 0 (UmTx.buildPdu 2 0 [12]), .rx 35 (UmTx.buildPdu 3 0 [13]), .rx 39 (UmTx.buildPdu 0 0 [10]), .tick 40] :=
  (um_timeout_never_early { cfg := {} } _ (by decide)).1

/-- PDU 1 starts the timer, PDU 3 arrives, then PDU 0: PDU 2 is skipped five milliseconds after PDU 3 has
shown it missing. -/
theorem um_timeout_early : ∃ s : TimedUmRx,
    runFrom step { rx := UmRx.reset { cfg := {} } }
      [.rx 0 (UmTx.buildPdu 1 0 [11]), .rx 35 (UmTx.buildPdu 3 0 [13]), .rx 39 (UmTx.buildPdu 0 0 [10])] = some s ∧
    s.rx.vrNext = 2 ∧ s.since 3 2 = some 35 ∧ s.rx.cfg.tReorderMs = 40 ∧ (s.rx.tick 40).vrNext = 4 ∧
    (s.rx.tick 40).dropped = 1 ∧ ¬ NeverEarly s (.tick 40) := by
  obtain ⟨s, hrun, hedge, hsince, honly, hcfg, hnow, hdue, hkeys, hskip⟩ : ∃ s : TimedUmRx,
      runFrom step { rx := UmRx.reset { cfg := {} } }
        [.rx 0 (UmTx.buildPdu 1 0 [11]), .rx 35 (UmTx.buildPdu 3 0 [13]), .rx 39 (UmTx.buildPdu 0 0 [10])] = some s ∧
      s.rx.vrNext = 2 ∧ s.since 3 2 = some 35 ∧ (∀ later t, s.since later 2 = some t → WaitsFor s.rx later 2) ∧
      s.rx.cfg.tReorderMs = 40 ∧ s.now = 39 ∧ s.rx.Due 40 ∧ s.rx.buffer.keys = [3] ∧ (({ s.rx with timerRunning := false }.skipTo 3).deliverReady.vrNext = 4 ∧
        ({ s.rx with timerRunning := false }.skipTo 3).deliverReady.dropped = 1) :=
    ⟨_, rfl, by decide, by decide, fun _ _ ht => waitsFor_of_since ht, rfl, rfl, by decide, by decide, by decide⟩
  have hmin : s.rx.buffer.minKey? = some 3 := by
    rw [Std.ExtTreeMap.minKey?_eq_head?_keys, hkeys]
    rfl
  refine ⟨s, hrun, hedge, hsince, hcfg, ?_, ?_, fun hnever => ?_⟩
  · rw [tick_due hdue, onReorderTimeout, hmin]
    dsimp only
    split <;> exact hskip.1
  · rw [tick_due hdue, onReorderTimeout, hmin]
    dsimp only
    split <;> exact hskip.2
  · have hskips : Skips s.rx (UInt32.ofNat 40) 2 := by
      refine ⟨hdue, by decide, 3, hmin, ?_⟩
      simp [UmRx.distance, hedge, snModulus]
    obtain ⟨later, t, ht, hage⟩ := hnever (by omega) 2 hskips
    -- PDU 3 alone is held
    have hin : later ∈ s.rx.buffer.keys := Std.ExtTreeMap.mem_keys.mpr (honly later t ht).1
    rw [hkeys] at hin
    obtain rfl := List.mem_singleton.mp hin
    obtain rfl := Option.some.inj (hsince.symm.trans ht)
    rw [hcfg] at hage
    revert hage
    decide

end AetherStack.Guarantees
