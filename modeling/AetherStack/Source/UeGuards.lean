import AetherStack.Source.TimerList
import AetherStack.Source.UeCore

/-!
# The procedure guards of `UeNode` on the clock

Source: stack/core/src/timer_list.cpp:6-70 and the two guards of ue_node.cpp:206-247 and 333-370,
namespace `core`. `UeNode` leaves open
when a pending timer fires. Here the guards of an attach and of a resume have the deadlines
`TimerList` gives them, and fire when these are due; the other timers stay open. The SDUs of a
data frame are handled one event each.
-/
namespace AetherStack.Source.Core
open Lib Mac Rrc

structure TimedUe where
  node : UeNode
  lastNow : UInt32 := 0
  attachGuards : List UInt32 := []
  resumeGuards : List UInt32 := []
  rnti : Nat := 0
  sdus : List (UInt8 × Bytes) := []

inductive TimedEvent where
  | call (e : UeEvent)
  | sdu
  | tick (nowMs : UInt32)
  | attachGuard (deadline : UInt32)
  | resumeGuard (deadline : UInt32)
  deriving DecidableEq, Repr

namespace TimedUe

def make (config : UeNodeConfig) : TimedUe := { node := UeNode.make config }

def due (t : TimedUe) (deadline : UInt32) : Prop := 0 ≤ clockDiff t.node.nowMs deadline

instance (t : TimedUe) (deadline : UInt32) : Decidable (t.due deadline) := by
  unfold due
  infer_instance

/-- The head of `tick`: the clock of the node, and the anchor of later deadlines. -/
def clock (t : TimedUe) (nowMs : UInt32) : TimedUe :=
  let now := max nowMs t.node.nowMs
  { t with
    node := { t.node with nowMs := now }
    lastNow := if 0 < clockDiff now t.lastNow then now else t.lastNow }

variable (attachGuardMs : UInt32)

/-- The node after a call. A guard that it armed has its deadline from `last_now_`. -/
def settle (t : TimedUe) (node : UeNode) : TimedUe :=
  let attaches := node.timers.count .attachGuard - t.attachGuards.length
  let resumes := node.timers.count .resumeGuard - t.resumeGuards.length
  { t with
    node := node
    attachGuards := t.attachGuards ++ List.replicate attaches (t.lastNow + attachGuardMs)
    resumeGuards := t.resumeGuards ++ List.replicate resumes (t.lastNow + 4 * attachGuardMs) }

/-- Calls of the node. The clock and the two guards have events of their own. -/
def call (digest : KeyedDigest) (t : TimedUe) : UeEvent → Option TimedUe
  | .clock _ | .fire .attachGuard | .fire .resumeGuard => none
  | .air f =>
    if f.type = .data ∧ (f.rnti = t.node.crntiCache ∨ f.rnti = rntiBroadcast) then
      match t.node.receiveData f.rnti f.payload with
      | .error _ => none
      | .ok r => some ({ t with rnti := f.rnti, sdus := r.2 }.settle attachGuardMs r.1)
    else (t.node.step digest (.air f)).map (t.settle attachGuardMs)
  | e => (t.node.step digest e).map (t.settle attachGuardMs)

/-- A frame is handled to its end before anything else happens. -/
def step (digest : KeyedDigest) (t : TimedUe) : TimedEvent → Option TimedUe
  | .sdu =>
    match t.sdus with
    | [] => none
    | s :: rest =>
      some ({ t with sdus := rest }.settle attachGuardMs (UeNode.handleSdu digest t.rnti t.node s))
  | .call e => if t.sdus = [] then t.call attachGuardMs digest e else none
  | .tick nowMs => if t.sdus = [] then some (t.clock nowMs) else none
  | .attachGuard deadline =>
    if t.sdus = [] ∧ deadline ∈ t.attachGuards ∧ t.due deadline then
      some ({ t with attachGuards := t.attachGuards.erase deadline }.settle attachGuardMs
        (t.node.fire digest .attachGuard))
    else none
  | .resumeGuard deadline =>
    if t.sdus = [] ∧ deadline ∈ t.resumeGuards ∧ t.due deadline then
      some ({ t with resumeGuards := t.resumeGuards.erase deadline }.settle attachGuardMs
        (t.node.fire digest .resumeGuard))
    else none

end TimedUe

/-! ## The clock of the node

Only a tick moves it. -/

namespace UeNode

section Clock

variable (digest : KeyedDigest) (u : UeNode)

theorem foldl_nowMs {α : Type} {f : UeNode → α → UeNode}
    (hf : ∀ u a, (f u a).nowMs = u.nowMs) (l : List α) (u : UeNode) :
    (l.foldl f u).nowMs = u.nowMs := by
  induction l generalizing u with
  | nil => rfl
  | cons a l ih => exact (ih (f u a)).trans (hf u a)

@[simp] theorem uplinkSend_nowMs (lcid : UInt8) (sdu : Bytes) :
    (u.uplinkSend digest lcid sdu).nowMs = u.nowMs := by
  unfold uplinkSend
  split <;> rfl

@[simp] theorem rrcSend_nowMs (pdu : Bytes) : (u.rrcSend digest pdu).nowMs = u.nowMs := by
  unfold rrcSend
  split
  · exact uplinkSend_nowMs digest u _ _
  · rfl

@[simp] theorem nasSend_nowMs (pdu : Bytes) : (u.nasSend digest pdu).nowMs = u.nowMs :=
  uplinkSend_nowMs digest _ _ _

@[simp] theorem scheduleAttachRetry_nowMs : u.scheduleAttachRetry.nowMs = u.nowMs := by
  unfold scheduleAttachRetry
  split <;> rfl

@[simp] theorem onRachOutput_nowMs (out : RachOutput) : (u.onRachOutput out).nowMs = u.nowMs := by
  cases out with
  | state new =>
    cases new with
    | idle => exact scheduleAttachRetry_nowMs (u.cancel .rachWindow)
    | waitRar | waitContentionResolve | connected => rfl
  | msg1 pdu | msg3 pdu => rfl

@[simp] theorem runRach_nowMs (call : RachUe × List RachOutput) :
    (u.runRach call).nowMs = u.nowMs :=
  foldl_nowMs onRachOutput_nowMs call.2 { u with rach := call.1 }

@[simp] theorem startRach_nowMs : u.startRach.nowMs = u.nowMs := runRach_nowMs u _

@[simp] theorem rachForceIdle_nowMs : u.rachForceIdle.nowMs = u.nowMs := runRach_nowMs u _

@[simp] theorem startMeasurements_nowMs : u.startMeasurements.nowMs = u.nowMs := by
  unfold startMeasurements
  split <;> rfl

@[simp] theorem maybeStartAttach_nowMs : (u.maybeStartAttach digest).nowMs = u.nowMs := by
  unfold maybeStartAttach
  split
  · rfl
  · split
    · exact startRach_nowMs _
    · refine (startRach_nowMs _).trans ?_
      split
      · exact foldl_nowMs (rrcSend_nowMs digest) _ _
      · exact foldl_nowMs (rrcSend_nowMs digest) _ _

@[simp] theorem abortAttach_nowMs : u.abortAttach.nowMs = u.nowMs :=
  rachForceIdle_nowMs _

@[simp] theorem wake_nowMs : u.wake.nowMs = u.nowMs := by
  unfold wake
  split
  · rfl
  · refine (startRach_nowMs _).trans ?_
    split
    · exact rachForceIdle_nowMs _
    · exact rachForceIdle_nowMs _

@[simp] theorem maybeWakeForActivity_nowMs : u.maybeWakeForActivity.nowMs = u.nowMs := by
  unfold maybeWakeForActivity
  split
  · exact wake_nowMs u
  · rfl

@[simp] theorem detach_nowMs : (u.detach digest).nowMs = u.nowMs := by
  unfold detach
  split
  · rfl
  · split
    · exact wake_nowMs _
    · have hdropped (v : UeNode) : ({ v with pendingCcch := [], attachRequested := false } :
          UeNode).stopMeasurements.dropConnection.nowMs = v.nowMs := rfl
      refine (hdropped _).trans ((rachForceIdle_nowMs _).trans ?_)
      refine (foldl_nowMs (rrcSend_nowMs digest) _ _).trans ?_
      exact foldl_nowMs (nasSend_nowMs digest) _ _

@[simp] theorem pumpAppBearers_nowMs : (u.pumpAppBearers digest).nowMs = u.nowMs := by
  have hloop (fuel : Nat) (u : UeNode) : (pumpLoop digest fuel u).nowMs = u.nowMs := by
    induction fuel generalizing u with
    | zero => rfl
    | succ fuel ih =>
      unfold pumpLoop
      split
      · split
        · rfl
        · rw [ih, uplinkSend_nowMs]
      · rfl
  unfold pumpAppBearers
  split
  · rfl
  · exact hloop _ u

@[simp] theorem onRrcOutput_nowMs (out : RrcOutput) :
    (u.onRrcOutput digest out).nowMs = u.nowMs := by
  cases out with
  | send pdu => exact rrcSend_nowMs digest u pdu
  | suspended resumeId => rfl
  | resumed ok newCrnti =>
    cases ok with
    | true =>
      have hpumped := pumpAppBearers_nowMs digest { u with
        resumeGuardRunning := false, crntiCache := newCrnti
        harqTx := u.harqTx.reset, harqRx := u.harqRx.reset }
      simp only [onRrcOutput, onResumed]
      split
      · exact (detach_nowMs digest _).trans hpumped
      · exact hpumped
    | false => exact (maybeStartAttach_nowMs digest _).trans (rachForceIdle_nowMs _)

@[simp] theorem declareRlf_nowMs : u.declareRlf.nowMs = u.nowMs :=
  (startRach_nowMs _).trans (rachForceIdle_nowMs _)

@[simp] theorem reestablishFailed_nowMs : (u.reestablishFailed digest).nowMs = u.nowMs :=
  (maybeStartAttach_nowMs digest _).trans (rachForceIdle_nowMs _)

theorem onTimer_nowMs (t : UeTimer) : (u.onTimer digest t).nowMs = u.nowMs := by
  cases t with
  | rachWindow =>
    simp only [onTimer]
    split
    · rfl
    · exact runRach_nowMs u _
    · rfl
  | backoff => exact runRach_nowMs u _
  | attachRetry =>
    simp only [onTimer]
    split
    · rfl
    · exact maybeStartAttach_nowMs digest _
  | attachGuard =>
    simp only [onTimer]
    split
    · rfl
    · exact abortAttach_nowMs _
  | resumeGuard =>
    simp only [onTimer]
    split
    · rfl
    · split
      · rfl
      · exact (maybeStartAttach_nowMs digest _).trans (rachForceIdle_nowMs _)
  | reestGuard =>
    simp only [onTimer]
    split
    · exact reestablishFailed_nowMs digest u
    · rfl
  | measurement =>
    simp only [onTimer]
    split
    · exact uplinkSend_nowMs digest u _ _
    · rfl

theorem fire_nowMs (t : UeTimer) : (u.fire digest t).nowMs = u.nowMs := by
  unfold fire
  split
  · rfl
  · split
    · exact onTimer_nowMs digest u t
    · exact onTimer_nowMs digest (u.cancel t) t

theorem handleSysinfoSdu_nowMs (lcid : UInt8) (sdu : Bytes) (broadcast : Bool) :
    (u.handleSysinfoSdu digest lcid sdu broadcast).nowMs = u.nowMs := by
  unfold handleSysinfoSdu
  split
  · exact maybeStartAttach_nowMs digest _
  · split
    · exact maybeStartAttach_nowMs digest _
    · split
      · split
        · rfl
        · split
          · exact wake_nowMs u
          · split
            · exact maybeStartAttach_nowMs digest _
            · rfl
      · rfl

theorem handleCcchSdu_nowMs (sdu : Bytes) : (u.handleCcchSdu digest sdu).nowMs = u.nowMs := by
  unfold handleCcchSdu
  dsimp only
  split
  · split
    · rfl
    · exact uplinkSend_nowMs digest _ _ _
  · split <;> rfl
  · split
    · exact reestablishFailed_nowMs digest u
    · rfl
  · have hanswered := foldl_nowMs (onRrcOutput_nowMs digest) (u.rrc.onMessage sdu).2
      { u with rrc := (u.rrc.onMessage sdu).1 }
    split
    · refine (startMeasurements_nowMs _).trans ?_
      exact (foldl_nowMs (nasSend_nowMs digest) _ _).trans hanswered
    · exact hanswered

theorem handleNasSdu_nowMs (sdu : Bytes) : (u.handleNasSdu digest sdu).nowMs = u.nowMs := by
  unfold handleNasSdu
  split
  · rfl
  · rename_i pdu _
    have hanswered := foldl_nowMs (nasSend_nowMs digest) (u.nas.onMessage digest pdu).2
      { u with nas := (u.nas.onMessage digest pdu).1 }
    have hmeasured (v : UeNode) :
        (if v.registered then v.startMeasurements else v).nowMs = v.nowMs := by
      split
      · exact startMeasurements_nowMs v
      · rfl
    refine (hmeasured _).trans ?_
    split
    · exact hanswered
    · exact hanswered

theorem handleSdu_nowMs (rnti : Nat) (s : UInt8 × Bytes) :
    (handleSdu digest rnti u s).nowMs = u.nowMs := by
  unfold handleSdu
  split
  · exact handleSysinfoSdu_nowMs digest u _ _ _
  · split
    · unfold handleDedicatedSdu
      split
      · exact handleCcchSdu_nowMs digest u _
      · split
        · exact handleNasSdu_nowMs digest u _
        · split
          · unfold handleHarqAck
            split
            · dsimp only
              split
              · rfl
              · split <;> rfl
            · rfl
          · split
            · split <;> rfl
            · split <;> rfl
    · rfl

variable {u}

theorem receiveData_nowMs {rnti : Nat} {payload : Bytes} {r : UeNode × List (UInt8 × Bytes)}
    (h : u.receiveData rnti payload = .ok r) : r.1.nowMs = u.nowMs := by
  have hack (v : UeNode) (res : HarqResult) : (v.sendAck rnti res).nowMs = v.nowMs := by
    unfold sendAck
    split <;> rfl
  unfold receiveData at h
  dsimp only at h
  have hclock : (if rnti ≠ rntiBroadcast then { u with lastDlMs := u.nowMs } else u).nowMs =
      u.nowMs := by
    split <;> rfl
  split at h
  · split at h
    · cases h
    · obtain rfl := Except.ok.inj h
      exact (hack _ _).trans hclock
  · obtain rfl := Except.ok.inj h
    exact hclock

theorem handleAirFrame_nowMs {v : UeNode} {f : AirFrame}
    (h : u.handleAirFrame digest f = .ok v) : v.nowMs = u.nowMs := by
  unfold handleAirFrame at h
  split at h
  · split at h
    · obtain rfl := Except.ok.inj h
      exact runRach_nowMs u _
    · obtain rfl := Except.ok.inj h
      rfl
  · split at h
    · obtain rfl := Except.ok.inj h
      unfold handleContentionResolve
      dsimp only
      split
      · exact runRach_nowMs u _
      · exact runRach_nowMs u _
    · obtain rfl := Except.ok.inj h
      rfl
  · split at h
    · obtain rfl := Except.ok.inj h
      rfl
    · unfold handleDataPdu at h
      split at h
      · cases h
      · rename_i r sdus hreceive
        obtain rfl := Except.ok.inj h
        exact (foldl_nowMs (fun u s => handleSdu_nowMs digest u f.rnti s) sdus r).trans
          (receiveData_nowMs hreceive)
  · obtain rfl := Except.ok.inj h
    rfl
  · obtain rfl := Except.ok.inj h
    rfl

/-- Only a tick moves the clock. -/
theorem step_nowMs {v : UeNode} {e : UeEvent} (h : u.step digest e = some v)
    (hclock : ∀ nowMs, e ≠ .clock nowMs) : v.nowMs = u.nowMs := by
  cases e with
  | clock nowMs => exact absurd rfl (hclock nowMs)
  | air f => exact handleAirFrame_nowMs digest (handleAirFrame_of_step h)
  | fire t =>
    obtain rfl := Option.some.inj h
    exact fire_nowMs digest u t
  | attach =>
    obtain rfl := Option.some.inj h
    exact maybeStartAttach_nowMs digest _
  | detach =>
    obtain rfl := Option.some.inj h
    exact detach_nowMs digest u
  | sleep =>
    obtain rfl := Option.some.inj h
    unfold sleep
    split
    · rfl
    · exact foldl_nowMs (rrcSend_nowMs digest) _ _
  | wake =>
    obtain rfl := Option.some.inj h
    exact wake_nowMs u
  | sendAppData payload =>
    obtain rfl := Option.some.inj h
    unfold sendAppData
    split
    · rfl
    · exact maybeWakeForActivity_nowMs u
  | wakeForActivity =>
    obtain rfl := Option.some.inj h
    exact maybeWakeForActivity_nowMs u
  | sendSdu q sdu force | serviceBearer q =>
    obtain rfl := Option.some.inj h
    rfl
  | reportCqi cqi =>
    obtain rfl := Option.some.inj h
    unfold reportCqi
    split <;> rfl
  | pumpHarq =>
    obtain rfl := Option.some.inj h
    have hsent (u : UeNode) (e : HarqEvent) :
        (u.sendFrame .data u.crntiCache e.coded).nowMs = u.nowMs := rfl
    exact foldl_nowMs hsent _ _
  | pump =>
    obtain rfl := Option.some.inj h
    exact pumpAppBearers_nowMs digest u
  | watchdog =>
    obtain rfl := Option.some.inj h
    unfold watchdog
    split
    · exact declareRlf_nowMs u
    · rfl

end Clock

end UeNode

namespace TimedUe

variable {attachGuardMs : UInt32} {digest : KeyedDigest}

/-- What a call can do: a frame for the node leaves its SDUs, everything else is a step. -/
theorem call_cases {t t' : TimedUe} {e : UeEvent} (h : t.call attachGuardMs digest e = some t') :
    (∀ nowMs, e ≠ .clock nowMs) ∧
      ((∃ f r, e = .air f ∧ f.type = .data ∧
          (f.rnti = t.node.crntiCache ∨ f.rnti = rntiBroadcast) ∧
          t.node.receiveData f.rnti f.payload = .ok r ∧
          t' = { t with rnti := f.rnti, sdus := r.2 }.settle attachGuardMs r.1) ∨
        (t.node.step digest e).map (t.settle attachGuardMs) = some t') := by
  cases e with
  | clock nowMs => cases h
  | air f =>
    refine ⟨fun nowMs heq => UeEvent.noConfusion heq, ?_⟩
    unfold call at h
    dsimp only at h
    split at h
    · rename_i hdata
      split at h
      · cases h
      · rename_i r hreceive
        exact .inl ⟨f, r, rfl, hdata.1, hdata.2, hreceive, (Option.some.inj h).symm⟩
    · exact .inr h
  | fire timer =>
    refine ⟨fun nowMs heq => UeEvent.noConfusion heq, .inr ?_⟩
    cases timer with
    | attachGuard => cases h
    | resumeGuard => cases h
    | _ => exact h
  | _ => exact ⟨fun nowMs heq => UeEvent.noConfusion heq, .inr h⟩

end TimedUe

end AetherStack.Source.Core
