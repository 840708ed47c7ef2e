import AetherStack.Guarantees.UeSecurity

/-!
# The timers behind a random access

`UeNode` arms the response window from the state callback of `RachUe`, so a change of state
leaves a timer behind. A retransmission of MSG1 is no change of state: `on_rar_timeout` sends
from the backoff timer, which is gone by then, and arms nothing. The entity then waits for a
MSG2 that nothing limits, unless the backoff of an older attempt is still pending.
-/
namespace AetherStack.Guarantees
open Source Source.Core Lib Source.Mac Source.Rrc

/-- The state of random access, and how many response windows and backoffs are pending. -/
structure RachView where
  state : RachState
  window : Nat
  backoffs : Nat

def rachView (u : UeNode) : RachView :=
  ⟨u.rach.state, u.timers.count .rachWindow, u.timers.count .backoff⟩

/-- A state that waits has a timer whose callback gives up or tries again. -/
def RachGuarded (u : UeNode) : Prop :=
  match u.rach.state with
  | .waitRar => .rachWindow ∈ u.timers ∨ .backoff ∈ u.timers
  | .waitContentionResolve => .rachWindow ∈ u.timers
  | .idle | .connected => True

/-- A backoff that sends MSG1 again leaves another timer of the random access pending. -/
def RetryGuarded (u : UeNode) : UeEvent → Prop
  | .fire .backoff => .backoff ∈ u.timers → u.rach.state = .waitRar →
      u.rach.preambleTxCount + 1 ≤ u.rach.maxPreambleTransmissions →
      .rachWindow ∈ u.timers ∨ .backoff ∈ u.timers.erase .backoff
  | _ => True

instance (u : UeNode) : Decidable (RachGuarded u) := by
  unfold RachGuarded
  split <;> infer_instance

instance (u : UeNode) (e : UeEvent) : Decidable (RetryGuarded u e) := by
  unfold RetryGuarded
  split <;> infer_instance

namespace RachView

/-- At most one window, and none in IDLE. -/
structure WellArmed (v : RachView) : Prop where
  single : v.window ≤ 1
  idle : v.state = .idle → v.window = 0

def Guarded (v : RachView) : Prop :=
  (v.state = .waitRar → 0 < v.window + v.backoffs) ∧
    (v.state = .waitContentionResolve → 0 < v.window)

/-- What the procedures and the received messages do to it. -/
inductive Move : RachView → RachView → Prop where
  | start {v : RachView} (idle : v.state = .idle) :
      Move v { v with state := .waitRar, window := v.window - 1 + 1 }
  | answered {v : RachView} (wait : v.state = .waitRar) :
      Move v { v with state := .waitContentionResolve, window := v.window - 1 + 1 }
  | resolved {v : RachView} (wait : v.state = .waitContentionResolve) :
      Move v { v with state := .connected }
  | stopped {v : RachView} : Move v { v with state := .idle, window := v.window - 1 }

abbrev Moves := Relation.ReflTransGen Move

/-- A step that does not show in the view is no move. -/
theorem Moves.of_eq {v w : RachView} (h : v = w) : Moves v w := h ▸ .refl

/-- Each move arms what it needs. -/
theorem WellArmed.move {v w : RachView} (h : v.WellArmed) (hmove : Move v w) : w.WellArmed := by
  have hsingle := h.single
  cases hmove with
  | start | answered =>
    constructor
    · dsimp only
      omega
    · intro hidle
      cases hidle
  | resolved =>
    constructor
    · exact h.single
    · intro hidle
      cases hidle
  | stopped =>
    constructor
    · dsimp only
      omega
    · intro _
      dsimp only
      omega

theorem WellArmed.moves {v w : RachView} (h : v.WellArmed) (hmoves : Moves v w) :
    w.WellArmed := by
  induction hmoves with
  | refl => exact h
  | tail _ hmove ih => exact ih.move hmove

/-- After a move the attempt is guarded. -/
theorem Move.guarded {v w : RachView} (hmove : Move v w) : w.Guarded := by
  cases hmove with
  | start | answered =>
    constructor
    · intro _
      dsimp only
      omega
    · intro _
      dsimp only
      omega
  | resolved | stopped =>
    constructor
    · intro hwait
      cases hwait
    · intro hwait
      cases hwait

/-- Moves one after the other keep it so. -/
theorem Guarded.moves {v w : RachView} (h : v.Guarded) (hmoves : Moves v w) : w.Guarded := by
  induction hmoves with
  | refl => exact h
  | tail _ hmove _ => exact hmove.guarded

end RachView

open RachView

theorem rachGuarded_iff (u : UeNode) : RachGuarded u ↔ (rachView u).Guarded := by
  unfold RachGuarded RachView.Guarded rachView
  cases u.rach.state <;> simp [List.count_pos_iff]

/-! ## What leaves random access alone -/

section Frame

variable (digest : KeyedDigest) (u : UeNode)

/-- Neither does a loop whose turns do not show. -/
theorem rachView_foldl {α : Type} {f : UeNode → α → UeNode}
    (hf : ∀ u a, rachView (f u a) = rachView u) (l : List α) (u : UeNode) :
    rachView (l.foldl f u) = rachView u := by
  induction l generalizing u with
  | nil => rfl
  | cons a l ih => exact (ih (f u a)).trans (hf u a)

/-- The other timers do not show. -/
theorem rachView_schedule {t : UeTimer} (hwindow : t ≠ .rachWindow) (hbackoff : t ≠ .backoff) :
    rachView (u.schedule t) = rachView u := by
  simp only [rachView, UeNode.schedule, List.count_cons_of_ne hwindow,
    List.count_cons_of_ne hbackoff]

theorem rachView_cancel {t : UeTimer} (hwindow : t ≠ .rachWindow) (hbackoff : t ≠ .backoff) :
    rachView (u.cancel t) = rachView u := by
  simp only [rachView, UeNode.cancel, List.count_erase_of_ne hwindow.symm,
    List.count_erase_of_ne hbackoff.symm]

/-- Nor does what is sent. -/
theorem rachView_uplinkSend (lcid : UInt8) (sdu : Bytes) :
    rachView (u.uplinkSend digest lcid sdu) = rachView u := by
  unfold UeNode.uplinkSend
  split <;> rfl

theorem rachView_rrcSend (pdu : Bytes) : rachView (u.rrcSend digest pdu) = rachView u := by
  unfold UeNode.rrcSend
  split
  · exact rachView_uplinkSend digest u _ _
  · rfl

theorem rachView_nasSend (pdu : Bytes) : rachView (u.nasSend digest pdu) = rachView u :=
  rachView_uplinkSend digest _ _ _

theorem rachView_scheduleAttachRetry : rachView u.scheduleAttachRetry = rachView u := by
  unfold UeNode.scheduleAttachRetry
  split
  · rfl
  · exact rachView_schedule u (by decide) (by decide)

theorem rachView_startMeasurements : rachView u.startMeasurements = rachView u := by
  unfold UeNode.startMeasurements
  split
  · rfl
  · exact rachView_schedule u (by decide) (by decide)

theorem rachView_stopMeasurements : rachView u.stopMeasurements = rachView u :=
  rachView_cancel u (by decide) (by decide)

theorem rachView_pumpLoop (fuel : Nat) (u : UeNode) :
    rachView (UeNode.pumpLoop digest fuel u) = rachView u := by
  induction fuel generalizing u with
  | zero => rfl
  | succ fuel ih =>
    unfold UeNode.pumpLoop
    split
    · split
      · rfl
      · rw [ih, rachView_uplinkSend]
        rfl
    · rfl

theorem rachView_pumpAppBearers : rachView (u.pumpAppBearers digest) = rachView u := by
  unfold UeNode.pumpAppBearers
  split
  · rfl
  · exact rachView_pumpLoop digest _ _

theorem rachView_pumpHarq : rachView u.pumpHarq = rachView u := by
  unfold UeNode.pumpHarq
  exact rachView_foldl (fun u e => show rachView (u.sendFrame _ _ _) = rachView u from rfl) _ _

theorem rachView_sendAck (rnti : Nat) (res : HarqResult) :
    rachView (u.sendAck rnti res) = rachView u := by
  unfold UeNode.sendAck
  split <;> rfl

theorem rachView_applyHandover (targetCell newCrnti : Nat) :
    rachView (u.applyHandover digest targetCell newCrnti) = rachView u := by
  unfold UeNode.applyHandover
  dsimp only
  rw [rachView_uplinkSend]
  rfl

theorem rachView_handleHarqAck (sdu : Bytes) : rachView (u.handleHarqAck sdu) = rachView u := by
  unfold UeNode.handleHarqAck
  split
  · dsimp only
    split
    · rfl
    · split <;> rfl
  · rfl

theorem rachView_sleep : rachView (u.sleep digest) = rachView u := by
  unfold UeNode.sleep
  split
  · rfl
  · exact rachView_foldl (rachView_rrcSend digest) _ _

theorem rachView_reportCqi (cqi : UInt8) : rachView (u.reportCqi cqi) = rachView u := by
  unfold UeNode.reportCqi
  split <;> rfl

theorem rachView_handleNasSdu (sdu : Bytes) :
    rachView (u.handleNasSdu digest sdu) = rachView u := by
  unfold UeNode.handleNasSdu
  split
  · rfl
  · rename_i pdu _
    have hanswered := rachView_foldl (rachView_nasSend digest) (u.nas.onMessage digest pdu).2
      { u with nas := (u.nas.onMessage digest pdu).1 }
    have hmeasured (v : UeNode) :
        rachView (if v.registered then v.startMeasurements else v) = rachView v := by
      split
      · exact rachView_startMeasurements v
      · rfl
    refine (hmeasured _).trans ?_
    split
    · exact hanswered
    · exact hanswered

theorem rachView_receiveData {rnti : Nat} {payload : Bytes} {r : UeNode × List (UInt8 × Bytes)}
    (h : u.receiveData rnti payload = .ok r) : rachView r.1 = rachView u := by
  unfold UeNode.receiveData at h
  dsimp only at h
  have hclock : rachView (if rnti ≠ rntiBroadcast then { u with lastDlMs := u.nowMs } else u) =
      rachView u := by
    split <;> rfl
  split at h
  · split at h
    · cases h
    · obtain rfl := Except.ok.inj h
      exact (rachView_sendAck _ _ _).trans hclock
  · obtain rfl := Except.ok.inj h
    exact hclock

end Frame

/-! ## Random access itself -/

section RandomAccess

variable (u : UeNode)

theorem rachView_schedule_window :
    rachView u.scheduleRachWindowTimer =
      { rachView u with window := (rachView u).window - 1 + 1 } := by
  simp only [rachView, UeNode.scheduleRachWindowTimer, UeNode.schedule, UeNode.cancel,
    List.count_cons_self, List.count_erase_self]
  rw [List.count_cons_of_ne (by decide), List.count_erase_of_ne (by decide)]

theorem rachView_cancel_window :
    rachView (u.cancel .rachWindow) = { rachView u with window := (rachView u).window - 1 } := by
  simp only [rachView, UeNode.cancel, List.count_erase_self]
  rw [List.count_erase_of_ne (by decide)]

theorem startRach_of_idle {u : UeNode} (h : u.rach.state = .idle) :
    u.startRach = u.runRach
      ({ u.rach with
          state := .waitRar, preambleTxCount := 1, assignedRaRnti := 0, assignedCrnti := 0 },
        [.state .waitRar, u.rach.msg1]) := by
  rw [UeNode.startRach, RachUe.startRach, if_neg (not_not.mpr h)]

/-- An idle entity sends a preamble and waits under its window. -/
theorem startRach_view {u : UeNode} (h : u.rach.state = .idle) :
    rachView u.startRach =
      { rachView u with state := .waitRar, window := (rachView u).window - 1 + 1 } := by
  rw [startRach_of_idle h]
  exact rachView_schedule_window { u with
    rach := { u.rach with
      state := .waitRar, preambleTxCount := 1, assignedRaRnti := 0, assignedCrnti := 0 }
    crntiCache := 0 }

/-- From any state, starting is a move or nothing. -/
theorem startRach_moves : Moves (rachView u) (rachView u.startRach) := by
  by_cases hidle : u.rach.state = .idle
  · rw [startRach_view hidle]
    exact .single (.start hidle)
  · have hstays : u.startRach = u := by
      rw [UeNode.startRach, RachUe.startRach, if_pos hidle]
      rfl
    rw [hstays]

theorem startRach_moves_of {v w : UeNode} (h : rachView w = rachView v) :
    Moves (rachView v) (rachView w.startRach) :=
  h ▸ startRach_moves w

/-- The callback of a state machine that goes to IDLE. -/
theorem idle_moves (rach : RachUe) :
    Moves (rachView u)
      (rachView (({ u with rach := { rach with state := .idle } } : UeNode).onRachOutput
        (.state .idle))) := by
  have hview : rachView (({ u with rach := { rach with state := .idle } } : UeNode).onRachOutput
      (.state .idle)) = { rachView u with state := .idle, window := (rachView u).window - 1 } :=
    (rachView_scheduleAttachRetry _).trans (rachView_cancel_window _)
  exact .single (hview ▸ .stopped)

theorem rachForceIdle_moves : Moves (rachView u) (rachView u.rachForceIdle) := by
  unfold UeNode.rachForceIdle RachUe.forceIdle
  split
  · exact .refl
  · exact idle_moves u u.rach

theorem rachForceIdle_moves_of {v w : UeNode} (h : rachView w = rachView v) :
    Moves (rachView v) (rachView w.rachForceIdle) :=
  h ▸ rachForceIdle_moves w

/-- The answer ends the first wait and begins the second. -/
theorem rarReceived_moves (raRnti : Nat) (ccch : Bytes) :
    Moves (rachView u) (rachView (u.runRach (u.rach.onRarReceived raRnti ccch))) := by
  unfold RachUe.onRarReceived
  split
  · exact .refl
  · rename_i hwait
    have hview : rachView ({ u with rach := { u.rach with
        state := .waitContentionResolve, assignedRaRnti := raRnti } } :
          UeNode).scheduleRachWindowTimer =
        { rachView u with state := .waitContentionResolve, window := (rachView u).window - 1 + 1 } :=
      rachView_schedule_window _
    exact .single (hview ▸ .answered (not_not.mp (not_or.mp hwait).1))

/-- MSG4 ends the second wait. -/
theorem handleContentionResolve_moves (payload : Bytes) :
    Moves (rachView u) (rachView (u.handleContentionResolve payload)) := by
  have hrun : Moves (rachView u) (rachView (u.runRach
      (u.rach.onContentionResolve (getU16 payload 1) (getU16 payload 3)))) := by
    unfold RachUe.onContentionResolve
    split
    · exact .refl
    · rename_i hwait
      exact .single (.resolved (not_not.mp (not_or.mp hwait).1))
  unfold UeNode.handleContentionResolve
  dsimp only
  split
  · exact hrun
  · exact hrun

end RandomAccess

theorem foldl_moves {α : Type} {f : UeNode → α → UeNode}
    (hf : ∀ u a, Moves (rachView u) (rachView (f u a))) (l : List α) (u : UeNode) :
    Moves (rachView u) (rachView (l.foldl f u)) := by
  induction l generalizing u with
  | nil => exact .refl
  | cons a l ih => exact (hf u a).trans (ih (f u a))

/-! ## The procedures -/

section Procedures

variable (digest : KeyedDigest) (u : UeNode)

/-- The beginning of an attach is at most a start. -/
theorem maybeStartAttach_moves :
    Moves (rachView u) (rachView (u.maybeStartAttach digest)) := by
  unfold UeNode.maybeStartAttach
  split
  · exact .refl
  · split
    · exact startRach_moves { u with pendingCcch := u.reestReqPdu }
    · refine startRach_moves_of ?_
      split
      · exact rachView_foldl (rachView_rrcSend digest) _ _
      · refine (rachView_schedule _ (by decide) (by decide)).trans ?_
        exact rachView_foldl (rachView_rrcSend digest) _ _

theorem maybeStartAttach_moves_of {v w : UeNode} (h : Moves (rachView v) (rachView w)) :
    Moves (rachView v) (rachView (w.maybeStartAttach digest)) :=
  h.trans (maybeStartAttach_moves digest w)

theorem attach_moves : Moves (rachView u) (rachView (u.attach digest)) :=
  maybeStartAttach_moves digest { u with attachRequested := true }

/-- `stop_measurements` and the reset of the connection, behind a forced IDLE. -/
theorem dropConnection_moves_of {v w : UeNode} (h : Moves (rachView v) (rachView w)) :
    Moves (rachView v) (rachView w.stopMeasurements.dropConnection) := by
  have hview : rachView w.stopMeasurements.dropConnection = rachView w :=
    rachView_stopMeasurements w
  exact hview ▸ h

theorem abortAttach_moves : Moves (rachView u) (rachView u.abortAttach) :=
  dropConnection_moves_of (rachForceIdle_moves
    { u with attachRequested := false, attachGuardRunning := false, pendingCcch := [] })

theorem wake_moves : Moves (rachView u) (rachView u.wake) := by
  unfold UeNode.wake
  split
  · exact .refl
  · have hidle := rachForceIdle_moves { u with
      pendingCcch := RrcMessage.encode { msgType := .resumeRequest, value := putU32 u.rrc.resumeId }
      rrc := u.rrc.startResume }
    refine hidle.trans (startRach_moves_of ?_)
    split
    · rfl
    · exact rachView_schedule _ (by decide) (by decide)

theorem maybeWakeForActivity_moves :
    Moves (rachView u) (rachView u.maybeWakeForActivity) := by
  unfold UeNode.maybeWakeForActivity
  split
  · exact wake_moves u
  · exact .refl

theorem detach_moves : Moves (rachView u) (rachView (u.detach digest)) := by
  unfold UeNode.detach
  split
  · exact .refl
  · split
    · exact wake_moves { u with detachAfterResume := true }
    · dsimp only
      have hasked : rachView (u.nas.sendDetach.2.foldl (UeNode.nasSend digest)
          { u with nas := u.nas.sendDetach.1 }) = rachView u :=
        rachView_foldl (rachView_nasSend digest) _ _
      generalize u.nas.sendDetach.2.foldl (UeNode.nasSend digest) _ = asked at hasked ⊢
      have hreleased : rachView (asked.rrc.release.2.foldl (UeNode.rrcSend digest)
          { asked with rrc := asked.rrc.release.1 }) = rachView u :=
        (rachView_foldl (rachView_rrcSend digest) _ _).trans hasked
      generalize asked.rrc.release.2.foldl (UeNode.rrcSend digest) _ = released at hreleased ⊢
      exact dropConnection_moves_of (rachForceIdle_moves_of hreleased)

theorem onResumed_moves (newCrnti : Nat) :
    Moves (rachView u) (rachView (u.onResumed digest newCrnti)) := by
  have hpumped := rachView_pumpAppBearers digest { u with
    resumeGuardRunning := false, crntiCache := newCrnti
    harqTx := u.harqTx.reset, harqRx := u.harqRx.reset }
  unfold UeNode.onResumed
  dsimp only
  split
  · refine .trans (Moves.of_eq ?_) (detach_moves digest _)
    exact hpumped.symm
  · exact Moves.of_eq hpumped.symm

theorem onResumeFailed_moves : Moves (rachView u) (rachView (u.onResumeFailed digest)) := by
  have hidle := rachForceIdle_moves { u with resumeGuardRunning := false, crntiCache := 0 }
  exact maybeStartAttach_moves_of digest hidle

theorem onRrcOutput_moves (out : RrcOutput) :
    Moves (rachView u) (rachView (u.onRrcOutput digest out)) := by
  cases out with
  | send pdu => exact Moves.of_eq (rachView_rrcSend digest u pdu).symm
  | suspended resumeId => exact .refl
  | resumed ok newCrnti =>
    cases ok with
    | true => exact onResumed_moves digest u newCrnti
    | false => exact onResumeFailed_moves digest u

/-- The end of `declare_rlf`: the guard of the re-establishment, then random access. -/
theorem reestablish_moves_of {v w : UeNode} (h : Moves (rachView v) (rachView w)) :
    Moves (rachView v) (rachView
      { (w.cancel .reestGuard).schedule .reestGuard with attachRequested := true }.startRach) := by
  refine h.trans (startRach_moves_of ?_)
  have hguard := rachView_schedule (w.cancel .reestGuard) (t := .reestGuard) (by decide) (by decide)
  exact hguard.trans (rachView_cancel w (by decide) (by decide))

theorem declareRlf_moves : Moves (rachView u) (rachView u.declareRlf) := by
  have hidle := rachForceIdle_moves { u with
    preRlfCrnti := u.crntiCache, reestablishPending := true }.resetAirSide
  exact reestablish_moves_of hidle

theorem reestablishFailed_moves :
    Moves (rachView u) (rachView (u.reestablishFailed digest)) := by
  have hidle := rachForceIdle_moves { u with
    reestablishPending := false, nas := u.nas.forceDeregistered
    upSecOn := false, pdcpSeq := 0, crntiCache := 0 }
  exact maybeStartAttach_moves_of digest hidle

theorem watchdog_moves : Moves (rachView u) (rachView u.watchdog) := by
  unfold UeNode.watchdog
  split
  · exact declareRlf_moves u
  · exact .refl

/-! ### Received messages -/

theorem handleSysinfoSdu_moves (lcid : UInt8) (sdu : Bytes) (broadcast : Bool) :
    Moves (rachView u) (rachView (u.handleSysinfoSdu digest lcid sdu broadcast)) := by
  unfold UeNode.handleSysinfoSdu
  split
  · exact maybeStartAttach_moves digest { u with mibOk := true }
  · split
    · exact maybeStartAttach_moves digest ({ u with sib1Ok := true }.hearCell (UeNode.sib1CellId sdu))
    · split
      · split
        · exact .refl
        · split
          · exact wake_moves u
          · split
            · exact attach_moves digest u
            · exact .refl
      · exact .refl

theorem handleCcchSdu_moves (sdu : Bytes) :
    Moves (rachView u) (rachView (u.handleCcchSdu digest sdu)) := by
  unfold UeNode.handleCcchSdu
  dsimp only
  split
  · split
    · exact .refl
    · exact Moves.of_eq (rachView_applyHandover digest u _ _).symm
  · split
    · exact .refl
    · exact .refl
  · split
    · exact reestablishFailed_moves digest u
    · exact .refl
  · have hanswered := foldl_moves (onRrcOutput_moves digest) (u.rrc.onMessage sdu).2
      { u with rrc := (u.rrc.onMessage sdu).1 }
    split
    · refine hanswered.trans (Moves.of_eq (Eq.symm ?_))
      refine (rachView_startMeasurements _).trans ?_
      exact rachView_foldl (rachView_nasSend digest) _ _
    · exact hanswered

theorem handleDedicatedSdu_moves (lcid : UInt8) (sdu : Bytes) :
    Moves (rachView u) (rachView (u.handleDedicatedSdu digest lcid sdu)) := by
  unfold UeNode.handleDedicatedSdu
  split
  · exact handleCcchSdu_moves digest u sdu
  · split
    · exact Moves.of_eq (rachView_handleNasSdu digest u sdu).symm
    · split
      · exact Moves.of_eq (rachView_handleHarqAck u sdu).symm
      · split
        · split
          · exact .refl
          · exact .refl
        · split
          · exact .refl
          · exact .refl

theorem handleSdu_moves (rnti : Nat) (s : UInt8 × Bytes) :
    Moves (rachView u) (rachView (UeNode.handleSdu digest rnti u s)) := by
  unfold UeNode.handleSdu
  split
  · exact handleSysinfoSdu_moves digest u _ _ _
  · split
    · exact handleDedicatedSdu_moves digest u _ _
    · exact .refl

/-- Whatever is received, the view makes moves. -/
theorem handleAirFrame_moves {u v : UeNode} {f : AirFrame}
    (h : u.handleAirFrame digest f = .ok v) : Moves (rachView u) (rachView v) := by
  unfold UeNode.handleAirFrame at h
  split at h
  · split at h
    · obtain rfl := Except.ok.inj h
      exact rarReceived_moves u _ _
    · obtain rfl := Except.ok.inj h
      exact .refl
  · split at h
    · obtain rfl := Except.ok.inj h
      exact handleContentionResolve_moves u _
    · obtain rfl := Except.ok.inj h
      exact .refl
  · split at h
    · obtain rfl := Except.ok.inj h
      exact .refl
    · unfold UeNode.handleDataPdu at h
      split at h
      · cases h
      · rename_i r sdus hreceive
        obtain rfl := Except.ok.inj h
        rw [← rachView_receiveData u hreceive]
        exact foldl_moves (fun u s => handleSdu_moves digest u f.rnti s) sdus r
  · obtain rfl := Except.ok.inj h
    exact .refl
  · obtain rfl := Except.ok.inj h
    exact .refl

theorem sendAppData_moves (payload : Bytes) :
    Moves (rachView u) (rachView (u.sendAppData payload)) := by
  unfold UeNode.sendAppData
  split
  · exact .refl
  · exact maybeWakeForActivity_moves u

end Procedures

/-! ## Timers -/

section Timers

variable (digest : KeyedDigest) (u : UeNode)

theorem onTimer_moves {t : UeTimer} (hwindow : t ≠ .rachWindow) (hbackoff : t ≠ .backoff) :
    Moves (rachView u) (rachView (u.onTimer digest t)) := by
  cases t with
  | rachWindow => exact absurd rfl hwindow
  | backoff => exact absurd rfl hbackoff
  | attachRetry =>
    simp only [UeNode.onTimer]
    split
    · exact .refl
    · exact maybeStartAttach_moves digest { u with rrc := u.rrc.forceIdle, crntiCache := 0 }
  | attachGuard =>
    simp only [UeNode.onTimer]
    split
    · exact .refl
    · exact abortAttach_moves { u with attachGuardRunning := false }
  | resumeGuard =>
    simp only [UeNode.onTimer]
    split
    · exact .refl
    · split
      · exact .refl
      · have hidle := rachForceIdle_moves { u with resumeGuardRunning := false }
        exact maybeStartAttach_moves_of digest hidle
  | reestGuard =>
    simp only [UeNode.onTimer]
    split
    · exact reestablishFailed_moves digest u
    · exact .refl
  | measurement =>
    simp only [UeNode.onTimer]
    split
    · exact Moves.of_eq (rachView_uplinkSend digest u _ _).symm
    · exact .refl

theorem fire_moves {t : UeTimer} (hwindow : t ≠ .rachWindow) (hbackoff : t ≠ .backoff) :
    Moves (rachView u) (rachView (u.fire digest t)) := by
  unfold UeNode.fire
  split
  · exact .refl
  · split
    · exact onTimer_moves digest u hwindow hbackoff
    · have hfired := onTimer_moves digest (u.cancel t) hwindow hbackoff
      rwa [rachView_cancel u hwindow hbackoff] at hfired

variable {u}

/-- A timer that is not pending does not fire. -/
theorem fire_of_not_pending {t : UeTimer} (h : t ∉ u.timers) : u.fire digest t = u :=
  if_pos h

theorem fire_of_pending {t : UeTimer} (h : t ∈ u.timers) (ht : t ≠ .measurement) :
    u.fire digest t = (u.cancel t).onTimer digest t := by
  rw [UeNode.fire, if_neg (not_not.mpr h), if_neg ht]

theorem rachView_cancel_backoff (u : UeNode) :
    rachView (u.cancel .backoff) = { rachView u with backoffs := (rachView u).backoffs - 1 } := by
  simp only [rachView, UeNode.cancel, List.count_erase_self]
  rw [List.count_erase_of_ne (by decide)]

theorem rachView_schedule_backoff (u : UeNode) :
    rachView (u.schedule .backoff) = { rachView u with backoffs := (rachView u).backoffs + 1 } := by
  simp only [rachView, UeNode.schedule, List.count_cons_self]
  rw [List.count_cons_of_ne (by decide)]

theorem rachView_toIdle (u : UeNode) (rach : RachUe) :
    rachView (u.runRach ({ rach with state := .idle }, [.state .idle])) =
      { rachView u with state := .idle, window := (rachView u).window - 1 } :=
  (rachView_scheduleAttachRetry _).trans (rachView_cancel_window _)

/-- The response window lets a backoff follow, or gives up. -/
theorem fireWindow_view (h : .rachWindow ∈ u.timers) :
    rachView (u.fire digest .rachWindow) =
      match u.rach.state with
      | .waitRar => ⟨.waitRar, (rachView u).window - 1, (rachView u).backoffs + 1⟩
      | .waitContentionResolve => ⟨.idle, (rachView u).window - 1 - 1, (rachView u).backoffs⟩
      | .idle | .connected => { rachView u with window := (rachView u).window - 1 } := by
  rw [fire_of_pending digest h (by decide)]
  have hcancel := rachView_cancel_window u
  have hrach : (u.cancel .rachWindow).rach = u.rach := rfl
  simp only [UeNode.onTimer, hrach]
  cases hstate : u.rach.state with
  | idle => exact hcancel
  | connected => exact hcancel
  | waitRar =>
    dsimp only
    rw [rachView_schedule_backoff, hcancel]
    simp only [rachView, hstate]
  | waitContentionResolve =>
    dsimp only
    rw [RachUe.onContentionResolveTimeout, if_neg (not_not.mpr hstate), rachView_toIdle, hcancel]

/-- A backoff sends MSG1 again and leaves no timer of its own, or gives up. -/
theorem fireBackoff_view (h : .backoff ∈ u.timers) :
    rachView (u.fire digest .backoff) =
      if u.rach.state = .waitRar ∧
          ¬ u.rach.preambleTxCount + 1 ≤ u.rach.maxPreambleTransmissions then
        ⟨.idle, (rachView u).window - 1, (rachView u).backoffs - 1⟩
      else { rachView u with backoffs := (rachView u).backoffs - 1 } := by
  rw [fire_of_pending digest h (by decide)]
  have hcancel := rachView_cancel_backoff u
  have hrach : (u.cancel .backoff).rach = u.rach := rfl
  simp only [UeNode.onTimer, hrach]
  unfold RachUe.onRarTimeout
  split
  · rename_i hother
    rw [if_neg (fun hgone => hother hgone.1)]
    exact hcancel
  · rename_i hwait
    split
    · rename_i hagain
      rw [if_neg (fun hgone => hgone.2 hagain)]
      exact hcancel
    · rename_i hgone
      rw [if_pos ⟨not_not.mp hwait, hgone⟩]
      have hidle := rachView_toIdle (u.cancel .backoff) { u.rach with preambleTxCount := 0 }
      rw [hcancel] at hidle
      exact hidle

theorem fireWindow_wellArmed (h : (rachView u).WellArmed) :
    (rachView (u.fire digest .rachWindow)).WellArmed := by
  by_cases hpending : .rachWindow ∈ u.timers
  · have hsingle := h.single
    rw [fireWindow_view digest hpending]
    split
    · constructor
      · dsimp only
        omega
      · intro hidle
        cases hidle
    · constructor
      · dsimp only
        omega
      · intro _
        dsimp only
        omega
    · constructor
      · dsimp only
        omega
      · intro _
        dsimp only
        omega
    · constructor
      · dsimp only
        omega
      · intro _
        dsimp only
        omega
  · rwa [fire_of_not_pending digest hpending]

/-- The window ends in a backoff, or in IDLE. -/
theorem fireWindow_guarded (h : (rachView u).Guarded) :
    (rachView (u.fire digest .rachWindow)).Guarded := by
  by_cases hpending : .rachWindow ∈ u.timers
  · rw [fireWindow_view digest hpending]
    split
    · constructor
      · intro _
        exact Nat.lt_of_lt_of_le (Nat.succ_pos _) (Nat.le_add_left _ _)
      · intro hwait
        cases hwait
    · constructor
      · intro hwait
        cases hwait
      · intro hwait
        cases hwait
    · rename_i hstate
      constructor
      · intro hwait
        exact absurd (hstate.symm.trans hwait) (by decide)
      · intro hwait
        exact absurd (hstate.symm.trans hwait) (by decide)
    · rename_i hstate
      constructor
      · intro hwait
        exact absurd (hstate.symm.trans hwait) (by decide)
      · intro hwait
        exact absurd (hstate.symm.trans hwait) (by decide)
  · rwa [fire_of_not_pending digest hpending]

/-- After the backoff the preamble is repeated under a new window, or given up. -/
theorem fireBackoff_wellArmed (h : (rachView u).WellArmed) :
    (rachView (u.fire digest .backoff)).WellArmed := by
  by_cases hpending : .backoff ∈ u.timers
  · have hsingle := h.single
    rw [fireBackoff_view digest hpending]
    split
    · constructor
      · dsimp only
        omega
      · intro _
        dsimp only
        omega
    · exact ⟨h.single, h.idle⟩
  · rwa [fire_of_not_pending digest hpending]

/-- A backoff leaves the random access guarded exactly if it does not send, or another timer is
pending. -/
theorem fireBackoff_guarded (h : (rachView u).Guarded) :
    (rachView (u.fire digest .backoff)).Guarded ↔ RetryGuarded u (.fire .backoff) := by
  by_cases hpending : .backoff ∈ u.timers
  · rw [fireBackoff_view digest hpending]
    by_cases hresend : u.rach.state = .waitRar ∧
        u.rach.preambleTxCount + 1 ≤ u.rach.maxPreambleTransmissions
    · obtain ⟨hwait, hagain⟩ := hresend
      rw [if_neg fun hgone => hgone.2 hagain]
      have hleft : 0 < (rachView u).window + ((rachView u).backoffs - 1) ↔
          .rachWindow ∈ u.timers ∨ .backoff ∈ u.timers.erase .backoff := by
        rw [← List.count_pos_iff, ← List.count_pos_iff, List.count_erase_self]
        exact Nat.add_pos_iff_pos_or_pos
      constructor
      · intro hguarded _ _ _
        exact hleft.mp (hguarded.1 hwait)
      · intro hretry
        refine ⟨fun _ => hleft.mpr (hretry hpending hwait hagain), fun hother => ?_⟩
        exact absurd (hwait.symm.trans hother) (by decide)
    · refine ⟨fun _ _ hwait hagain => absurd ⟨hwait, hagain⟩ hresend, fun _ => ?_⟩
      split
      · constructor
        · intro hwait
          cases hwait
        · intro hwait
          cases hwait
      · rename_i hstays
        constructor
        · intro hwait
          exact absurd ⟨hwait, fun hagain => hresend ⟨hwait, hagain⟩⟩ hstays
        · exact h.2
  · rw [fire_of_not_pending digest hpending]
    exact ⟨fun _ hpending' => absurd hpending' hpending, fun _ => h⟩

end Timers

/-! ## Runs -/

section Runs

variable {digest : KeyedDigest} {u v : UeNode} {e : UeEvent}

/-- Step lemma: every event but the two timers of random access makes moves. -/
theorem step_moves (h : u.step digest e = some v) (hwindow : e ≠ .fire .rachWindow)
    (hbackoff : e ≠ .fire .backoff) : Moves (rachView u) (rachView v) := by
  cases e with
  | air f => exact handleAirFrame_moves digest (UeNode.handleAirFrame_of_step h)
  | fire t =>
    obtain rfl := Option.some.inj h
    refine fire_moves digest u ?_ ?_
    · rintro rfl
      exact hwindow rfl
    · rintro rfl
      exact hbackoff rfl
  | attach =>
    obtain rfl := Option.some.inj h
    exact attach_moves digest u
  | detach =>
    obtain rfl := Option.some.inj h
    exact detach_moves digest u
  | sleep =>
    obtain rfl := Option.some.inj h
    exact Moves.of_eq (rachView_sleep digest u).symm
  | wake =>
    obtain rfl := Option.some.inj h
    exact wake_moves u
  | sendAppData payload =>
    obtain rfl := Option.some.inj h
    exact sendAppData_moves u payload
  | wakeForActivity =>
    obtain rfl := Option.some.inj h
    exact maybeWakeForActivity_moves u
  | sendSdu q sdu force =>
    obtain rfl := Option.some.inj h
    exact .refl
  | reportCqi cqi =>
    obtain rfl := Option.some.inj h
    exact Moves.of_eq (rachView_reportCqi u cqi).symm
  | clock nowMs =>
    obtain rfl := Option.some.inj h
    exact .refl
  | pumpHarq =>
    obtain rfl := Option.some.inj h
    exact Moves.of_eq (rachView_pumpHarq u).symm
  | serviceBearer q =>
    obtain rfl := Option.some.inj h
    exact .refl
  | pump =>
    obtain rfl := Option.some.inj h
    exact Moves.of_eq (rachView_pumpAppBearers digest u).symm
  | watchdog =>
    obtain rfl := Option.some.inj h
    exact watchdog_moves u

/-- Step lemma for all events. -/
theorem step_wellArmed (hu : (rachView u).WellArmed) (h : u.step digest e = some v) :
    (rachView v).WellArmed := by
  by_cases hwindow : e = .fire .rachWindow
  · subst hwindow
    obtain rfl := Option.some.inj h
    exact fireWindow_wellArmed digest hu
  · by_cases hbackoff : e = .fire .backoff
    · subst hbackoff
      obtain rfl := Option.some.inj h
      exact fireBackoff_wellArmed digest hu
    · exact hu.moves (step_moves h hwindow hbackoff)

/-- Whatever the step, the random access is guarded behind it exactly if a retry was. -/
theorem step_guarded (hu : RachGuarded u) (h : u.step digest e = some v) :
    RachGuarded v ↔ RetryGuarded u e := by
  rw [rachGuarded_iff] at hu ⊢
  by_cases hbackoff : e = .fire .backoff
  · subst hbackoff
    obtain rfl := Option.some.inj h
    exact fireBackoff_guarded digest hu
  · have hretry : RetryGuarded u e := by
      unfold RetryGuarded
      split
      · exact absurd rfl hbackoff
      · trivial
    refine iff_of_true ?_ hretry
    by_cases hwindow : e = .fire .rachWindow
    · subst hwindow
      obtain rfl := Option.some.inj h
      exact fireWindow_guarded digest hu
    · exact hu.moves (step_moves h hwindow hbackoff)

theorem wellArmed_make (config : UeNodeConfig) : (rachView (UeNode.make config)).WellArmed where
  single := Nat.zero_le 1
  idle := fun _ => rfl

theorem wellArmed_reachable {config : UeNodeConfig} {events : List UeEvent}
    (run : runFrom (UeNode.step digest) (UeNode.make config) events = some u) :
    (rachView u).WellArmed :=
  runFrom_invariant (fun u => (rachView u).WellArmed) (fun _ _ _ => step_wellArmed)
    (wellArmed_make config) run

/-- Along a run an attempt is unguarded from the first retry on that finds no timer. -/
theorem always_guarded_iff (digest : KeyedDigest) (config : UeNodeConfig)
    (events : List UeEvent) :
    Always (UeNode.step digest) RachGuarded (UeNode.make config) events ↔
      StepsMeet (UeNode.step digest) RetryGuarded (UeNode.make config) events := by
  refine always_iff_meets_of_step (fun u => (rachView u).WellArmed) (fun _ _ _ => step_wellArmed)
    (fun _ _ _ _ => step_guarded) ?_ (wellArmed_make config) trivial events
  intro s e hblocked
  unfold RetryGuarded
  split
  · cases hblocked
  · trivial

end Runs

/-! ## A random access that nobody answers -/

def msg1Count (u : UeNode) : Nat := u.air.countP (·.type = .msg1Prach)

def IsRachTimer (t : UeTimer) : Prop := t = .rachWindow ∨ t = .backoff

/-- No timer of the random access is pending. -/
def TimersDrained (u : UeNode) : Prop := .rachWindow ∉ u.timers ∧ .backoff ∉ u.timers

instance (u : UeNode) : Decidable (TimersDrained u) := by
  unfold TimersDrained
  infer_instance

/-- Random access starts and hears nothing: whatever the order in which its timers fire, it ends
in IDLE with as many MSG1s as configured. -/
def Completes (digest : KeyedDigest) (u : UeNode) : Prop :=
  ∀ fires : List UeTimer, (∀ t ∈ fires, IsRachTimer t) →
    TimersDrained (fires.foldl (UeNode.fire digest) u.startRach) →
    (fires.foldl (UeNode.fire digest) u.startRach).rach.state = .idle ∧
      msg1Count (fires.foldl (UeNode.fire digest) u.startRach) =
        msg1Count u + u.rach.maxPreambleTransmissions.toNat

/-- How many MSG1s the attempt that started in `u` has sent when it is in `v`: each is paid for
by a backoff, the first by the start. -/
structure Attempt (u v : UeNode) (sent : Nat) : Prop where
  frames : msg1Count v = msg1Count u + sent
  limit : v.rach.maxPreambleTransmissions = u.rach.maxPreambleTransmissions
  waiting : v.rach.state = .waitRar →
    sent + (rachView v).backoffs + (rachView v).window = u.timers.count .backoff + 2 ∧
      (u.rach.maxPreambleTransmissions = 255 ∨ v.rach.preambleTxCount.toNat = sent ∧
        0 < sent ∧ sent ≤ max 1 u.rach.maxPreambleTransmissions.toNat)
  ended : v.rach.state ≠ .waitRar →
    v.rach.state = .idle ∧ u.rach.maxPreambleTransmissions ≠ 255 ∧
      sent = max 1 u.rach.maxPreambleTransmissions.toNat ∧
      sent ≤ u.timers.count .backoff + 1

section Attempt

variable {digest : KeyedDigest} {u v : UeNode} {sent : Nat}

/-- An attempt begins with one preamble. -/
theorem startRach_attempt (h : (rachView u).WellArmed) (hidle : u.rach.state = .idle) :
    Attempt u u.startRach 1 := by
  have hview := startRach_view hidle
  have hstart := startRach_of_idle hidle
  rw [show (rachView u).window = 0 from h.idle hidle] at hview
  constructor
  · rw [hstart]
    exact List.countP_append
  · rw [hstart]
    rfl
  · intro _
    refine ⟨?_, .inr ⟨?_, Nat.one_pos, Nat.le_max_left _ _⟩⟩
    · rw [hview]
      show 1 + u.timers.count .backoff + (0 - 1 + 1) = _
      omega
    · rw [hstart]
      rfl
  · intro hother
    rw [hstart] at hother
    exact absurd rfl hother

theorem fireWindow_attempt (h : Attempt u v sent) :
    Attempt u (v.fire digest .rachWindow) sent := by
  by_cases hpending : .rachWindow ∈ v.timers
  · have hview := fireWindow_view digest hpending
    have hpos := List.count_pos_iff.mpr hpending
    by_cases hwait : v.rach.state = .waitRar
    · have hfire : v.fire digest .rachWindow = (v.cancel .rachWindow).schedule .backoff := by
        rw [fire_of_pending digest hpending (by decide)]
        simp only [UeNode.onTimer]
        rw [show (v.cancel .rachWindow).rach.state = .waitRar from hwait]
      rw [hwait] at hview
      constructor
      · rw [hfire]
        exact h.frames
      · rw [hfire]
        exact h.limit
      · intro _
        obtain ⟨hpaid, hcounted⟩ := h.waiting hwait
        rw [hview]
        refine ⟨?_, ?_⟩
        · have hwindow : 0 < (rachView v).window := hpos
          dsimp only
          omega
        · rw [hfire]
          exact hcounted
      · intro hother
        rw [hfire] at hother
        exact absurd hwait hother
    · have hfire : v.fire digest .rachWindow = v.cancel .rachWindow := by
        rw [fire_of_pending digest hpending (by decide)]
        simp only [UeNode.onTimer]
        rw [show (v.cancel .rachWindow).rach.state = .idle from (h.ended hwait).1]
      rw [hfire]
      exact ⟨h.frames, h.limit, fun hwait' => absurd hwait' hwait, h.ended⟩
  · rwa [fire_of_not_pending digest hpending]

theorem runRach_idle (w : UeNode) (rach : RachUe) :
    (w.runRach (rach, [.state .idle])).air = w.air ∧
      (w.runRach (rach, [.state .idle])).rach = rach := by
  show (UeNode.scheduleAttachRetry _).air = w.air ∧ (UeNode.scheduleAttachRetry _).rach = rach
  unfold UeNode.scheduleAttachRetry
  split
  · exact ⟨rfl, rfl⟩
  · exact ⟨rfl, rfl⟩

/-- The counter goes on with the preambles until it has reached the limit. -/
theorem counted_again {count limit : UInt8}
    (h : limit = 255 ∨ count.toNat = sent ∧ 0 < sent ∧ sent ≤ max 1 limit.toNat)
    (hagain : count + 1 ≤ limit) :
    limit = 255 ∨
      (count + 1).toNat = sent + 1 ∧ 0 < sent + 1 ∧ sent + 1 ≤ max 1 limit.toNat := by
  rcases h with hmax | ⟨hcount, hpos, hsent⟩
  · exact .inl hmax
  · by_cases hmax : limit = 255
    · exact .inl hmax
    · have hlimit : limit.toNat ≠ 255 := fun h => hmax (UInt8.toNat_inj.mp h)
      have hbound := limit.toNat_lt
      rw [UInt8.le_iff_toNat_le, UInt8.toNat_add, hcount] at hagain
      rw [UInt8.toNat_add, hcount]
      have hone : (1 : UInt8).toNat = 1 := rfl
      omega

/-- The attempts are used up: with 255 of them the counter wraps and they never are. -/
theorem counted_over {count limit : UInt8}
    (h : limit = 255 ∨ count.toNat = sent ∧ 0 < sent ∧ sent ≤ max 1 limit.toNat)
    (hover : ¬ count + 1 ≤ limit) : limit ≠ 255 ∧ sent = max 1 limit.toNat := by
  have hbound := limit.toNat_lt
  have hcounter := (count + 1).toNat_lt
  rw [UInt8.le_iff_toNat_le] at hover
  have hmax : limit ≠ 255 := by
    intro hlimit
    have hall : limit.toNat = 255 := congrArg UInt8.toNat hlimit
    omega
  rcases h with hall | ⟨hcount, hpos, hsent⟩
  · exact absurd hall hmax
  · refine ⟨hmax, ?_⟩
    rw [UInt8.toNat_add, hcount] at hover
    have hone : (1 : UInt8).toNat = 1 := rfl
    omega

theorem fireBackoff_attempt (h : Attempt u v sent) :
    ∃ sent', Attempt u (v.fire digest .backoff) sent' := by
  by_cases hpending : .backoff ∈ v.timers
  · have hview := fireBackoff_view digest hpending
    have hpos : 0 < (rachView v).backoffs := List.count_pos_iff.mpr hpending
    have hfire : v.fire digest .backoff =
        (v.cancel .backoff).runRach v.rach.onRarTimeout := by
      rw [fire_of_pending digest hpending (by decide)]
      rfl
    by_cases hwait : v.rach.state = .waitRar
    · obtain ⟨hpaid, hcounted⟩ := h.waiting hwait
      by_cases hagain : v.rach.preambleTxCount + 1 ≤ v.rach.maxPreambleTransmissions
      · rw [if_neg fun hgone => hgone.2 hagain] at hview
        have hcall : v.rach.onRarTimeout =
            ({ v.rach with preambleTxCount := v.rach.preambleTxCount + 1 }, [v.rach.msg1]) := by
          rw [RachUe.onRarTimeout, if_neg (not_not.mpr hwait), if_pos hagain]
        rw [hcall] at hfire
        refine ⟨sent + 1, ?_, ?_, ?_, ?_⟩
        · rw [hfire, ← Nat.add_assoc, ← h.frames]
          exact List.countP_append
        · rw [hfire]
          exact h.limit
        · intro _
          rw [hview]
          refine ⟨?_, ?_⟩
          · dsimp only
            omega
          · rw [hfire]
            exact counted_again hcounted (h.limit ▸ hagain)
        · rw [hfire]
          intro hother
          exact absurd hwait hother
      · rw [if_pos ⟨hwait, hagain⟩] at hview
        have hcall : v.rach.onRarTimeout =
            ({ v.rach with state := .idle, preambleTxCount := 0 }, [.state .idle]) := by
          rw [RachUe.onRarTimeout, if_neg (not_not.mpr hwait), if_neg hagain]
        rw [hcall] at hfire
        refine ⟨sent, ?_, ?_, ?_, ?_⟩
        · rw [hfire, msg1Count, (runRach_idle _ _).1]
          exact h.frames
        · rw [hfire, (runRach_idle _ _).2]
          exact h.limit
        · intro hwait'
          rw [hfire, (runRach_idle _ _).2] at hwait'
          cases hwait'
        · intro _
          rw [hfire, (runRach_idle _ _).2]
          obtain ⟨hlimit, hall⟩ := counted_over hcounted (h.limit ▸ hagain)
          exact ⟨rfl, hlimit, hall, by omega⟩
    · have hcall : v.rach.onRarTimeout = (v.rach, []) := by
        rw [RachUe.onRarTimeout, if_pos hwait]
      rw [hcall] at hfire
      rw [hfire]
      exact ⟨sent, h.frames, h.limit, fun hwait' => absurd hwait' hwait, h.ended⟩
  · rw [fire_of_not_pending digest hpending]
    exact ⟨sent, h⟩

/-- Run lemma over the timers of the attempt. -/
theorem fires_attempt (digest : KeyedDigest) (fires : List UeTimer)
    (hfires : ∀ t ∈ fires, IsRachTimer t) (h : Attempt u v sent) : ∃ sent', Attempt u (fires.foldl (UeNode.fire digest) v) sent' := by
  induction fires generalizing v sent with
  | nil => exact ⟨sent, h⟩
  | cons t fires ih =>
    obtain ⟨sent', hnext⟩ : ∃ sent', Attempt u (v.fire digest t) sent' := by
      rcases hfires t List.mem_cons_self with rfl | rfl
      · exact ⟨sent, fireWindow_attempt h⟩
      · exact fireBackoff_attempt h
    exact ih (fun t ht => hfires t (List.mem_cons_of_mem _ ht)) hnext

/-- The timers of the random access run out. -/
theorem exists_drained (digest : KeyedDigest) (v : UeNode) :
    ∃ fires : List UeTimer, (∀ t ∈ fires, IsRachTimer t) ∧
      TimersDrained (fires.foldl (UeNode.fire digest) v) := by
  induction hleft : 2 * (rachView v).window + (rachView v).backoffs using Nat.strong_induction_on
    generalizing v with
  | _ left ih =>
    have hnext (t : UeTimer) (ht : IsRachTimer t)
        (hless : 2 * (rachView (v.fire digest t)).window + (rachView (v.fire digest t)).backoffs <
          left) :
        ∃ fires : List UeTimer, (∀ t ∈ fires, IsRachTimer t) ∧
          TimersDrained (fires.foldl (UeNode.fire digest) v) := by
      obtain ⟨fires, hfires, hdrained⟩ := ih _ hless _ rfl
      refine ⟨t :: fires, ?_, hdrained⟩
      simpa [ht] using hfires
    by_cases hwindow : .rachWindow ∈ v.timers
    · refine hnext .rachWindow (.inl rfl) ?_
      have hpos : 0 < (rachView v).window := List.count_pos_iff.mpr hwindow
      rw [fireWindow_view digest hwindow]
      split <;> dsimp only <;> omega
    · by_cases hbackoff : .backoff ∈ v.timers
      · refine hnext .backoff (.inr rfl) ?_
        have hpos : 0 < (rachView v).backoffs := List.count_pos_iff.mpr hbackoff
        rw [fireBackoff_view digest hbackoff]
        split <;> dsimp only <;> omega
      · exact ⟨[], by simp, hwindow, hbackoff⟩

theorem completes_iff (digest : KeyedDigest) (h : (rachView u).WellArmed)
    (hidle : u.rach.state = .idle) :
    Completes digest u ↔ u.rach.maxPreambleTransmissions ≠ 0 ∧
      u.rach.maxPreambleTransmissions ≠ 255 ∧
      u.rach.maxPreambleTransmissions.toNat ≤ u.timers.count .backoff + 1 := by
  have hzero : u.rach.maxPreambleTransmissions ≠ 0 ↔
      u.rach.maxPreambleTransmissions.toNat ≠ 0 := UInt8.toNat_inj.not.symm
  have hstart := startRach_attempt h hidle
  constructor
  · intro hcompletes
    obtain ⟨fires, hfires, hdrained⟩ := exists_drained digest u.startRach
    obtain ⟨sent, hattempt⟩ := fires_attempt digest fires hfires hstart
    obtain ⟨hstate, hcount⟩ := hcompletes fires hfires hdrained
    obtain ⟨-, hlimit, hall, hpaid⟩ := hattempt.ended (by rw [hstate]; decide)
    have hframes := hattempt.frames
    rw [hzero]
    exact ⟨by omega, hlimit, by omega⟩
  · rintro ⟨hnonzero, hlimit, hpaid⟩ fires hfires hdrained
    obtain ⟨sent, hattempt⟩ := fires_attempt digest fires hfires hstart
    have hwindow : (rachView (fires.foldl (UeNode.fire digest) u.startRach)).window = 0 :=
      List.count_eq_zero.mpr hdrained.1
    have hbackoffs : (rachView (fires.foldl (UeNode.fire digest) u.startRach)).backoffs = 0 :=
      List.count_eq_zero.mpr hdrained.2
    by_cases hwait : (fires.foldl (UeNode.fire digest) u.startRach).rach.state = .waitRar
    · -- still waiting, so every backoff there was has sent
      obtain ⟨hall, hcounted⟩ := hattempt.waiting hwait
      rcases hcounted with hmax | ⟨-, -, hsent⟩
      · exact absurd hmax hlimit
      · omega
    · obtain ⟨hstate, -, hall, -⟩ := hattempt.ended hwait
      refine ⟨hstate, ?_⟩
      rw [hattempt.frames]
      have hpos := hzero.mp hnonzero
      omega

end Attempt

namespace RachGuard
open UeRun

/-- Random access is guarded in every state of a run exactly if each backoff that sends MSG1
again leaves another timer pending. A random access nobody answers sends as many MSG1s as
configured exactly if the backoffs that older attempts left behind make up for those it does not
arm. -/
theorem random_access_guarded_iff (digest : KeyedDigest) (config : UeNodeConfig)
    (events : List UeEvent) :
    (Always (UeNode.step digest) RachGuarded (UeNode.make config) events ↔
      StepsMeet (UeNode.step digest) RetryGuarded (UeNode.make config) events) ∧
    ∀ u, runFrom (UeNode.step digest) (UeNode.make config) events = some u →
      u.rach.state = .idle →
      (Completes digest u ↔ u.rach.maxPreambleTransmissions ≠ 0 ∧
        u.rach.maxPreambleTransmissions ≠ 255 ∧
        u.rach.maxPreambleTransmissions.toNat ≤ u.timers.count .backoff + 1) :=
  ⟨always_guarded_iff digest config events,
    fun _ run hidle => completes_iff digest (wellArmed_reachable run) hidle⟩

/-- A cell that answers no preamble: after the second MSG1 of the first attach the node waits for
MSG2 with no timer pending but the guard of the attach. -/
theorem second_msg1_unguarded :
    ∃ u, runFrom (UeNode.step nullDigest) (UeNode.make subscriber)
        (systemInfo ++ [.attach, .fire .rachWindow, .fire .backoff]) = some u ∧
      u.rach.state = .waitRar ∧ u.timers = [.attachGuard] ∧ ¬ RachGuarded u ∧
      msg1Count u = 2 ∧ u.rach.maxPreambleTransmissions = 3 := by
  have hrun : ∃ u ∈ runFrom (UeNode.step nullDigest) (UeNode.make subscriber)
      (systemInfo ++ [.attach, .fire .rachWindow, .fire .backoff]),
      u.rach.state = .waitRar ∧ u.timers = [.attachGuard] ∧ ¬ RachGuarded u ∧
        msg1Count u = 2 ∧ u.rach.maxPreambleTransmissions = 3 := by
    decide
  exact hrun

end RachGuard

end AetherStack.Guarantees
