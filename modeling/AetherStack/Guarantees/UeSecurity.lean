import AetherStack.Source.UeCore

/-!
# The security state of the UE

Outside a registration the UE must not encipher: an ATTACH_REQUEST or AUTH_RESPONSE under
the key of the last session is garbage to the network. Of all procedures only the two that
give up a resume, the RESUME_FAILURE branch and the resume guard, deregister and leave
`up_sec_on_` as it is. As long as neither finds security on, the flag follows the
registration, and a registration that authenticated uses its own key.
-/
namespace AetherStack.Guarantees
open Source Source.Core Lib Source.Mac Source.Rrc

/-- The part of the node that decides how NAS is sent. -/
structure SecurityContext where
  nas : Nas.NasUe
  upSecOn : Bool
  upKey : Key256
  nasSent : List (Bytes × Bool)

def security (u : UeNode) : SecurityContext := ⟨u.nas, u.upSecOn, u.upKey, u.nasSent⟩

/-- A NAS PDU that opens or authenticates a session. -/
def OpensSession (pdu : Bytes) : Prop :=
  (NasMessage.decode pdu).msgType = .attachRequest ∨ (NasMessage.decode pdu).msgType = .authResponse

instance (pdu : Bytes) : Decidable (OpensSession pdu) := by
  unfold OpensSession
  infer_instance

namespace SecurityContext

/-- No NAS PDU that opens a session was enciphered. -/
def Clear (c : SecurityContext) : Prop := ∀ s ∈ c.nasSent, OpensSession s.1 → s.2 = false

structure Sound (c : SecurityContext) : Prop where
  off : c.nas.state ≠ .registered → c.upSecOn = false
  keyed : c.nas.state = .registered → c.nas.authenticated = true → c.upKey = c.nas.sessionKey
  clear : c.Clear

variable {c : SecurityContext}

/-- Leaving the registration with security off. -/
theorem Clear.deregister (h : c.Clear) {nas : Nas.NasUe} (hstate : nas.state = .deregistered) :
    Sound { c with nas := nas, upSecOn := false } where
  off := fun _ => rfl
  keyed := by
    intro hreg
    rw [hstate] at hreg
    cases hreg
  clear := h

/-- A message that opens a session must not have gone out enciphered. -/
theorem Clear.sent (h : c.Clear) {pdu : Bytes} (hpdu : OpensSession pdu → c.upSecOn = false) :
    Clear { c with nasSent := c.nasSent ++ [(pdu, c.upSecOn)] } := by
  intro s hs
  rcases List.mem_append.mp hs with hs | hs
  · exact h s hs
  · obtain rfl := List.mem_singleton.mp hs
    exact hpdu

end SecurityContext

/-! ## What leaves the security context alone -/

section Frame

variable (digest : KeyedDigest) (u : UeNode)

/-- A loop whose turns leave the security alone leaves it alone. -/
theorem security_foldl {α : Type} {f : UeNode → α → UeNode}
    (hf : ∀ u a, security (f u a) = security u) (l : List α) (u : UeNode) :
    security (l.foldl f u) = security u := by
  induction l generalizing u with
  | nil => rfl
  | cons a l ih => exact (ih (f u a)).trans (hf u a)

@[simp] theorem security_sendFrame (type : AirFrameType) (rnti : Nat) (payload : Bytes) :
    security (u.sendFrame type rnti payload) = security u := rfl

@[simp] theorem security_uplinkSend (lcid : UInt8) (sdu : Bytes) :
    security (u.uplinkSend digest lcid sdu) = security u := by
  unfold UeNode.uplinkSend
  split <;> rfl

@[simp] theorem security_rrcSend (pdu : Bytes) :
    security (u.rrcSend digest pdu) = security u := by
  unfold UeNode.rrcSend
  split
  · exact security_uplinkSend digest u _ _
  · rfl

@[simp] theorem security_scheduleAttachRetry : security u.scheduleAttachRetry = security u := by
  unfold UeNode.scheduleAttachRetry
  split <;> rfl

@[simp] theorem security_onRachOutput (out : RachOutput) :
    security (u.onRachOutput out) = security u := by
  cases out with
  | state new =>
    cases new with
    | idle => exact security_scheduleAttachRetry _
    | waitRar | waitContentionResolve | connected => rfl
  | msg1 pdu | msg3 pdu => rfl

@[simp] theorem security_runRach (call : RachUe × List RachOutput) :
    security (u.runRach call) = security u :=
  security_foldl security_onRachOutput call.2 _

@[simp] theorem security_startRach : security u.startRach = security u := security_runRach u _

@[simp] theorem security_rachForceIdle : security u.rachForceIdle = security u :=
  security_runRach u _

@[simp] theorem security_maybeStartAttach :
    security (u.maybeStartAttach digest) = security u := by
  unfold UeNode.maybeStartAttach
  split
  · rfl
  · split
    · exact security_startRach _
    · dsimp only
      rw [security_startRach]
      split
      · exact security_foldl (security_rrcSend digest) _ _
      · exact security_foldl (security_rrcSend digest) _ _

@[simp] theorem security_attach : security (u.attach digest) = security u :=
  security_maybeStartAttach digest _

@[simp] theorem security_wake : security u.wake = security u := by
  unfold UeNode.wake
  split
  · rfl
  · dsimp only
    rw [security_startRach]
    split
    · exact security_rachForceIdle _
    · exact security_rachForceIdle _

@[simp] theorem security_startMeasurements : security u.startMeasurements = security u := by
  unfold UeNode.startMeasurements
  split <;> rfl

theorem security_pumpLoop (fuel : Nat) (u : UeNode) :
    security (UeNode.pumpLoop digest fuel u) = security u := by
  induction fuel generalizing u with
  | zero => rfl
  | succ fuel ih =>
    unfold UeNode.pumpLoop
    split
    · split
      · rfl
      · rw [ih, security_uplinkSend]
        rfl
    · rfl

@[simp] theorem security_pumpAppBearers :
    security (u.pumpAppBearers digest) = security u := by
  unfold UeNode.pumpAppBearers
  split
  · rfl
  · exact security_pumpLoop digest _ _

@[simp] theorem security_pumpHarq : security u.pumpHarq = security u := by
  unfold UeNode.pumpHarq
  exact security_foldl (fun u e => security_sendFrame u _ _ _) _ _

@[simp] theorem security_sendAck (rnti : Nat) (res : HarqResult) :
    security (u.sendAck rnti res) = security u := by
  unfold UeNode.sendAck
  split <;> rfl

@[simp] theorem security_applyHandover (targetCell newCrnti : Nat) :
    security (u.applyHandover digest targetCell newCrnti) = security u := by
  unfold UeNode.applyHandover
  dsimp only
  rw [security_uplinkSend]
  rfl

@[simp] theorem security_declareRlf : security u.declareRlf = security u := by
  unfold UeNode.declareRlf
  dsimp only
  rw [security_startRach]
  exact security_rachForceIdle _

@[simp] theorem security_watchdog : security u.watchdog = security u := by
  unfold UeNode.watchdog
  split
  · exact security_declareRlf u
  · rfl

@[simp] theorem security_handleHarqAck (sdu : Bytes) :
    security (u.handleHarqAck sdu) = security u := by
  unfold UeNode.handleHarqAck
  split
  · dsimp only
    split
    · rfl
    · split <;> rfl
  · rfl

theorem security_handleSysinfoSdu (lcid : UInt8) (sdu : Bytes) (broadcast : Bool) :
    security (u.handleSysinfoSdu digest lcid sdu broadcast) = security u := by
  unfold UeNode.handleSysinfoSdu
  split
  · exact security_maybeStartAttach digest _
  · split
    · exact security_maybeStartAttach digest _
    · split
      · split
        · rfl
        · split
          · exact security_wake u
          · split
            · exact security_attach digest u
            · rfl
      · rfl

theorem security_receiveData {rnti : Nat} {payload : Bytes} {r : UeNode × List (UInt8 × Bytes)}
    (h : u.receiveData rnti payload = .ok r) : security r.1 = security u := by
  unfold UeNode.receiveData at h
  dsimp only at h
  have hclock : security (if rnti ≠ rntiBroadcast then { u with lastDlMs := u.nowMs } else u) =
      security u := by
    split <;> rfl
  split at h
  · split at h
    · cases h
    · obtain rfl := Except.ok.inj h
      exact (security_sendAck _ _ _).trans hclock
  · obtain rfl := Except.ok.inj h
    exact hclock

theorem security_handleContentionResolve (payload : Bytes) :
    security (u.handleContentionResolve payload) = security u := by
  unfold UeNode.handleContentionResolve
  dsimp only
  split
  · exact security_runRach u _
  · exact security_runRach u _

theorem security_sleep : security (u.sleep digest) = security u := by
  unfold UeNode.sleep
  split
  · rfl
  · exact security_foldl (security_rrcSend digest) _ _

@[simp] theorem security_maybeWakeForActivity :
    security u.maybeWakeForActivity = security u := by
  unfold UeNode.maybeWakeForActivity
  split
  · exact security_wake u
  · rfl

theorem security_sendAppData (payload : Bytes) : security (u.sendAppData payload) = security u := by
  unfold UeNode.sendAppData
  split
  · rfl
  · exact security_maybeWakeForActivity u

theorem security_reportCqi (cqi : UInt8) : security (u.reportCqi cqi) = security u := by
  unfold UeNode.reportCqi
  split <;> rfl

end Frame

/-! ## The procedures -/

section Procedures

variable {digest : KeyedDigest} {u : UeNode}

/-- What NAS sends is recorded, with the security it was sent under. -/
theorem security_nasSend (digest : KeyedDigest) (u : UeNode) (pdu : Bytes) :
    security (u.nasSend digest pdu) =
      { security u with nasSent := u.nasSent ++ [(pdu, u.upSecOn)] } :=
  security_uplinkSend digest _ _ _

/-- NAS sends with security off are in the clear, whatever they say. -/
theorem nasSend_foldl_clear (digest : KeyedDigest) (pdus : List Bytes) {u : UeNode} (hclear : (security u).Clear)
    (hoff : u.upSecOn = false) :
    ∃ log, security (pdus.foldl (UeNode.nasSend digest) u) = { security u with nasSent := log } ∧
      (security (pdus.foldl (UeNode.nasSend digest) u)).Clear := by
  induction pdus generalizing u with
  | nil => exact ⟨_, rfl, hclear⟩
  | cons pdu pdus ih =>
    have hsec := security_nasSend digest u pdu
    have hnext : (security (u.nasSend digest pdu)).Clear := by
      rw [hsec]
      exact hclear.sent fun _ => hoff
    have hoff' : (u.nasSend digest pdu).upSecOn = false :=
      (congrArg SecurityContext.upSecOn hsec).trans hoff
    obtain ⟨log, hlog, hkept⟩ := ih hnext hoff'
    refine ⟨log, ?_, hkept⟩
    rw [List.foldl_cons, hlog, hsec]

theorem forceDeregistered_state (n : Nas.NasUe) : n.forceDeregistered.state = .deregistered := by
  unfold Nas.NasUe.forceDeregistered
  split
  · assumption
  · rfl

/-- An aborted attach ends security with the registration. -/
theorem abortAttach_sound (h : (security u).Sound) : (security u.abortAttach).Sound := by
  have hidle := security_rachForceIdle
    { u with attachRequested := false, attachGuardRunning := false, pendingCcch := [] }
  rw [← show security { u with
    attachRequested := false, attachGuardRunning := false, pendingCcch := [] } = security u from rfl,
    ← hidle] at h
  exact h.clear.deregister (forceDeregistered_state _)

theorem reestablishFailed_sound (h : (security u).Sound) :
    (security (u.reestablishFailed digest)).Sound := by
  unfold UeNode.reestablishFailed
  dsimp only
  rw [security_maybeStartAttach]
  have hoff := h.clear.deregister (forceDeregistered_state u.nas)
  have hidle := security_rachForceIdle { u with
    reestablishPending := false, nas := u.nas.forceDeregistered
    upSecOn := false, pdcpSeq := 0, crntiCache := 0 }
  exact hidle ▸ hoff

/-- Deregistering with security off already. -/
theorem forceDeregistered_sound (h : (security u).Sound) (hoff : u.upSecOn = false) :
    SecurityContext.Sound { security u with nas := u.nas.forceDeregistered } := by
  have hnew := h.clear.deregister (forceDeregistered_state u.nas)
  rwa [← hoff] at hnew

/-- A failed resume does not, so security has to be off before. -/
theorem onResumeFailed_sound (h : (security u).Sound) (hoff : u.upSecOn = false) :
    (security (u.onResumeFailed digest)).Sound := by
  unfold UeNode.onResumeFailed
  dsimp only
  rw [security_maybeStartAttach]
  have hidle := security_rachForceIdle { u with resumeGuardRunning := false, crntiCache := 0 }
  have hsound : (security ({ u with resumeGuardRunning := false, crntiCache := 0 } :
      UeNode).rachForceIdle).Sound := hidle ▸ h
  have hoff' := (congrArg SecurityContext.upSecOn hidle).trans hoff
  exact forceDeregistered_sound hsound hoff'

theorem decode_encode_msgType (t : NasMessageType) (value : Bytes) :
    (NasMessage.decode (NasMessage.encode ⟨t, value⟩)).msgType = .ofOctet t.toOctet := by
  have hlen : ¬ (NasMessage.encode ⟨t, value⟩).length < 3 := by
    simp [NasMessage.encode, putU16]
  rw [NasMessage.decode, if_neg hlen]
  rfl

/-- A DETACH opens no session. -/
theorem not_opensSession_detach (value : Bytes) :
    ¬ OpensSession (NasMessage.encode ⟨.detach, value⟩) := by
  unfold OpensSession
  rw [decode_encode_msgType]
  decide

theorem security_drop (v : UeNode) :
    security ({ v with pendingCcch := [], attachRequested := false } :
      UeNode).stopMeasurements.dropConnection = { security v with upSecOn := false } := rfl

/-- The DETACH goes out under the old flag; what `detach` does after it turns security off
and leaves the rest of the context alone. -/
theorem security_detachConnected (u : UeNode) (pdus : List Bytes) (rrc : RrcUe) :
    security ({ ({ pdus.foldl (UeNode.rrcSend digest) { u with rrc := rrc } with
        crntiCache := 0 } : UeNode).rachForceIdle with
      pendingCcch := [], attachRequested := false } : UeNode).stopMeasurements.dropConnection =
      { security u with upSecOn := false } := by
  rw [security_drop, security_rachForceIdle]
  have hsent := security_foldl (security_rrcSend digest) pdus { u with rrc := rrc }
  exact congrArg (fun c : SecurityContext => { c with upSecOn := false }) hsent

/-- A DETACH goes out under the old security, which then ends. -/
theorem detach_sound (h : (security u).Sound) : (security (u.detach digest)).Sound := by
  unfold UeNode.detach
  split
  · exact h
  · split
    · rw [security_wake]
      exact h
    · rename_i hreg _
      have hstate : u.nas.state ≠ .deregistered := by
        intro hdereg
        simp [UeNode.registered, hdereg] at hreg
      dsimp only [Nas.NasUe.sendDetach]
      rw [if_neg hstate, security_detachConnected, List.foldl_cons, List.foldl_nil, security_nasSend]
      have hclear : SecurityContext.Clear { security u with nasSent := u.nasSent ++
          [(NasMessage.encode { msgType := .detach, value := putU32 u.nas.assignedTmsi },
            u.upSecOn)] } :=
        h.clear.sent fun hopens => absurd hopens (not_opensSession_detach _)
      refine hclear.deregister ?_
      rfl

theorem onResumed_sound (h : (security u).Sound) (newCrnti : Nat) :
    (security (u.onResumed digest newCrnti)).Sound := by
  unfold UeNode.onResumed
  dsimp only
  have hpumped := security_pumpAppBearers digest { u with
    resumeGuardRunning := false, crntiCache := newCrnti
    harqTx := u.harqTx.reset, harqRx := u.harqRx.reset }
  have hsound : (security (UeNode.pumpAppBearers digest { u with
      resumeGuardRunning := false, crntiCache := newCrnti
      harqTx := u.harqTx.reset, harqRx := u.harqRx.reset })).Sound := hpumped ▸ h
  split
  · exact detach_sound hsound
  · exact hsound

/-- Only a registering UE listens to NAS. -/
theorem onMessage_of_not_registering {n : Nas.NasUe} (h : n.state ≠ .registering)
    (digest : KeyedDigest) (pdu : Bytes) : n.onMessage digest pdu = (n, []) := by
  unfold Nas.NasUe.onMessage
  dsimp only
  split
  · simp [Nas.NasUe.onAuthRequest, Nas.NasUe.challengeVerdict, h]
  · simp [Nas.NasUe.onAttachAccept, h]
  · rw [if_pos h]
  · rfl

/-- Behind a NAS message security goes on with the key of the registration. -/
theorem armed_sound {v : UeNode} (hclear : (security v).Clear)
    (hon : v.upSecOn = true → v.nas.state = .registered ∧
      (v.nas.authenticated = true → v.upKey = v.nas.sessionKey)) :
    (security (if v.nas.state = .registered ∧ v.nas.authenticated ∧ !v.upSecOn then
      { v with upKey := v.nas.sessionKey, upSecOn := true } else v)).Sound := by
  split
  · rename_i harm
    exact ⟨fun hnot => absurd harm.1 hnot, fun _ _ => rfl, hclear⟩
  · rename_i harm
    refine ⟨fun hnot => ?_, fun hreg hauth => ?_, hclear⟩
    · by_contra hsec
      exact hnot (hon (Bool.of_not_eq_false hsec)).1
    · have hsec : v.upSecOn = true := by
        by_contra hoff
        exact harm ⟨hreg, hauth, by simpa using hoff⟩
      exact (hon hsec).2 hauth

/-- Security comes on with the registration, under its own key. -/
theorem handleNasSdu_sound (h : (security u).Sound) (sdu : Bytes) :
    (security (u.handleNasSdu digest sdu)).Sound := by
  unfold UeNode.handleNasSdu
  split
  · exact h
  · rename_i pdu _
    have hmeasured : ∀ v : UeNode, (security v).Sound →
        (security (if v.registered then v.startMeasurements else v)).Sound := by
      intro v hv
      split
      · rwa [security_startMeasurements]
      · exact hv
    apply hmeasured
    by_cases hstate : u.nas.state = .registering
    · have hoff : u.upSecOn = false := by
        apply h.off
        show u.nas.state ≠ .registered
        rw [hstate]
        decide
      have hclear : (security { u with nas := (u.nas.onMessage digest pdu).1 }).Clear := h.clear
      obtain ⟨log, hlog, hkept⟩ :=
        nasSend_foldl_clear digest (u.nas.onMessage digest pdu).2 hclear hoff
      refine armed_sound hkept fun hsec => ?_
      have hstill := (congrArg SecurityContext.upSecOn hlog).trans hoff
      exact absurd (hsec.symm.trans hstill) (by decide)
    · rw [onMessage_of_not_registering hstate]
      refine armed_sound h.clear fun hsec => ?_
      have hreg : u.nas.state = .registered := by
        by_contra hnot
        exact absurd (hsec.symm.trans (h.off hnot)) (by decide)
      exact ⟨hreg, h.keyed hreg⟩

/-- The ATTACH_REQUEST of a deregistered UE is in the clear. -/
theorem requestAttach_sound (digest : KeyedDigest) (v : UeNode) (h : (security v).Sound)
    (hdereg : v.nas.state = .deregistered) :
    (security ((v.nas.sendAttachRequest v.config.imsi).2.foldl (UeNode.nasSend digest)
      { v with nas := (v.nas.sendAttachRequest v.config.imsi).1 })).Sound := by
  have hoff : v.upSecOn = false := by
    apply h.off
    show v.nas.state ≠ .registered
    rw [hdereg]
    decide
  have hstate : (v.nas.sendAttachRequest v.config.imsi).1.state ≠ .registered := by
    simp [Nas.NasUe.sendAttachRequest, hdereg]
  have hclear : (security { v with nas := (v.nas.sendAttachRequest v.config.imsi).1 }).Clear :=
    h.clear
  obtain ⟨log, hlog, hkept⟩ :=
    nasSend_foldl_clear digest (v.nas.sendAttachRequest v.config.imsi).2 hclear hoff
  rw [hlog] at hkept ⊢
  exact ⟨fun _ => hoff, fun hreg => absurd hreg hstate, hkept⟩

/-- A CCCH message keeps the context sound unless it fails a resume with security on. -/
theorem handleCcchSdu_sound (h : (security u).Sound) {sdu : Bytes}
    (kept : (RrcMessage.decode sdu).msgType = .resumeFailure → u.rrc.state = .connecting →
      u.upSecOn = false) :
    (security (u.handleCcchSdu digest sdu)).Sound := by
  unfold UeNode.handleCcchSdu
  dsimp only
  split
  · split
    · exact h
    · rw [security_applyHandover]
      exact h
  · split
    · exact h
    · exact h
  · split
    · exact reestablishFailed_sound h
    · exact h
  · have hanswered : (security ((u.rrc.onMessage sdu).2.foldl (UeNode.onRrcOutput digest)
        { u with rrc := (u.rrc.onMessage sdu).1 })).Sound := by
      have hmoved : ∀ r : RrcUe, (security { u with rrc := r }).Sound := fun _ => h
      have hanswer := RrcUe.onMessage_answer u.rrc sdu
      generalize u.rrc.onMessage sdu = answered at hanswer ⊢
      cases hanswer with
      | ignored | released => exact h
      | suspended from_connected id => exact h
      | setup from_connecting crnti pdu =>
        show (security (UeNode.rrcSend digest _ pdu)).Sound
        rw [security_rrcSend]
        exact h
      | resumed is_ok from_connecting crnti stored => exact onResumed_sound (hmoved _) crnti
      | failed is_failure from_connecting =>
        exact onResumeFailed_sound (hmoved _) (kept is_failure from_connecting)
    generalize (u.rrc.onMessage sdu).2.foldl (UeNode.onRrcOutput digest)
      { u with rrc := (u.rrc.onMessage sdu).1 } = v at hanswered ⊢
    split
    · rename_i hattach
      rw [security_startMeasurements]
      exact requestAttach_sound digest { v with harqRx := v.harqRx.reset } hanswered hattach.2.1
    · exact hanswered

end Procedures

/-! ## Runs -/

namespace UeRun

/-- An SDU that fails a resume finds security off. -/
def ResumeKept (rnti : Nat) (u : UeNode) (s : UInt8 × Bytes) : Prop :=
  rnti ≠ rntiBroadcast → s.1 = lcidCcch → (RrcMessage.decode s.2).msgType = .resumeFailure →
    u.rrc.state = .connecting → u.upSecOn = false

instance (rnti : Nat) (u : UeNode) (s : UInt8 × Bytes) : Decidable (ResumeKept rnti u s) := by
  unfold ResumeKept
  infer_instance

/-- No resume is given up, by the network or by the guard, while security is on. -/
def SecurityCondition (digest : KeyedDigest) (u : UeNode) : UeEvent → Prop
  | .air f => u.SdusMeet digest ResumeKept f
  | .fire t => t = .resumeGuard → t ∈ u.timers → u.resumeGuardRunning = true →
      u.rrc.state ≠ .connected → u.upSecOn = false
  | _ => True

instance (digest : KeyedDigest) (u : UeNode) :
    (e : UeEvent) → Decidable (SecurityCondition digest u e)
  | .air f => inferInstanceAs (Decidable (u.SdusMeet digest ResumeKept f))
  | .fire t => inferInstanceAs (Decidable (t = .resumeGuard → t ∈ u.timers →
      u.resumeGuardRunning = true → u.rrc.state ≠ .connected → u.upSecOn = false))
  | .attach | .detach | .sleep | .wake | .sendAppData _ | .wakeForActivity | .sendSdu _ _ _
  | .reportCqi _ | .clock _ | .pumpHarq | .serviceBearer _ | .pump | .watchdog => isTrue trivial

variable {digest : KeyedDigest} {u : UeNode}

theorem handleSdu_sound (h : (security u).Sound) {rnti : Nat} {s : UInt8 × Bytes}
    (kept : ResumeKept rnti u s) : (security (UeNode.handleSdu digest rnti u s)).Sound := by
  unfold UeNode.handleSdu
  split
  · rw [security_handleSysinfoSdu]
    exact h
  · split
    · rename_i hdedicated
      unfold UeNode.handleDedicatedSdu
      split
      · rename_i hccch
        exact handleCcchSdu_sound h (kept hdedicated.1 hccch)
      · split
        · exact handleNasSdu_sound h s.2
        · split
          · rw [security_handleHarqAck]
            exact h
          · split
            · split
              · exact h
              · exact h
            · split
              · exact h
              · exact h
    · exact h

theorem onTimer_sound (h : (security u).Sound) {t : UeTimer}
    (kept : t = .resumeGuard → u.resumeGuardRunning = true → u.rrc.state ≠ .connected →
      u.upSecOn = false) : (security (u.onTimer digest t)).Sound := by
  cases t with
  | rachWindow =>
    unfold UeNode.onTimer
    dsimp only
    split
    · exact h
    · rw [security_runRach]
      exact h
    · exact h
  | backoff =>
    show (security (u.runRach _)).Sound
    rw [security_runRach]
    exact h
  | attachRetry =>
    unfold UeNode.onTimer
    dsimp only
    split
    · exact h
    · rw [security_maybeStartAttach]
      exact h
  | attachGuard =>
    have hstopped : (security { u with attachGuardRunning := false }).Sound := h
    unfold UeNode.onTimer
    dsimp only
    split
    · exact h
    · exact abortAttach_sound hstopped
  | resumeGuard =>
    unfold UeNode.onTimer
    dsimp only
    split
    · exact h
    · rename_i hrunning
      split
      · exact h
      · rename_i hconnected
        have hoff := kept rfl (by simpa using hrunning) hconnected
        rw [security_maybeStartAttach]
        have hidle := security_rachForceIdle { u with resumeGuardRunning := false }
        have hsound : (security ({ u with resumeGuardRunning := false } :
            UeNode).rachForceIdle).Sound := hidle ▸ h
        exact forceDeregistered_sound hsound ((congrArg SecurityContext.upSecOn hidle).trans hoff)
  | reestGuard =>
    unfold UeNode.onTimer
    dsimp only
    split
    · exact reestablishFailed_sound h
    · exact h
  | measurement =>
    unfold UeNode.onTimer UeNode.sendMeasurementReport
    dsimp only
    split
    · rw [security_uplinkSend]
      exact h
    · exact h

/-- Step lemma under the condition. -/
theorem step_sound {u' : UeNode} {e : UeEvent} (h : (security u).Sound)
    (cond : SecurityCondition digest u e) (hstep : u.step digest e = some u') :
    (security u').Sound := by
  cases e with
  | attach =>
    obtain rfl := Option.some.inj hstep
    rwa [security_attach]
  | detach =>
    obtain rfl := Option.some.inj hstep
    exact detach_sound h
  | sleep =>
    obtain rfl := Option.some.inj hstep
    rwa [security_sleep]
  | wake =>
    obtain rfl := Option.some.inj hstep
    rwa [security_wake]
  | sendAppData payload =>
    obtain rfl := Option.some.inj hstep
    rwa [security_sendAppData]
  | wakeForActivity =>
    obtain rfl := Option.some.inj hstep
    rwa [security_maybeWakeForActivity]
  | sendSdu q sdu force =>
    obtain rfl := Option.some.inj hstep
    exact h
  | reportCqi cqi =>
    obtain rfl := Option.some.inj hstep
    rwa [security_reportCqi]
  | air f =>
    refine UeNode.handleAirFrame_invariant (fun v => (security v).Sound) ?_ ?_ ?_ ?_ h cond
      (UeNode.handleAirFrame_of_step hstep)
    · intro raRnti _
      rwa [security_runRach]
    · intro payload _ _
      rwa [security_handleContentionResolve]
    · intro r hreceive
      rwa [security_receiveData u hreceive]
    · intro v s _ hv kept
      exact handleSdu_sound hv kept
  | clock nowMs =>
    obtain rfl := Option.some.inj hstep
    exact h
  | fire t =>
    obtain rfl := Option.some.inj hstep
    unfold UeNode.fire
    split
    · exact h
    · rename_i hpending
      have hkept := fun hguard => cond hguard (not_not.mp hpending)
      split
      · exact onTimer_sound h hkept
      · exact onTimer_sound (u := u.cancel t) h hkept
  | pumpHarq =>
    obtain rfl := Option.some.inj hstep
    rwa [security_pumpHarq]
  | serviceBearer q =>
    obtain rfl := Option.some.inj hstep
    exact h
  | pump =>
    obtain rfl := Option.some.inj hstep
    rwa [security_pumpAppBearers]
  | watchdog =>
    obtain rfl := Option.some.inj hstep
    rwa [security_watchdog]

theorem sound_make (config : UeNodeConfig) : (security (UeNode.make config)).Sound where
  off := fun _ => rfl
  keyed := by
    intro hreg
    simp only [security, UeNode.make] at hreg
    split at hreg <;> cases hreg
  clear := by
    intro s hs
    cases hs

/-! ### Frames for examples -/

/-- A MAC PDU with one SDU, outside HARQ. -/
def downlink (rnti : Nat) (lcid : UInt8) (sdu : Bytes) : UeEvent :=
  .air { type := .data, rnti := rnti, payload := buildPdu [(lcid, sdu)] }

def systemInfo : List UeEvent :=
  [downlink rntiBroadcast lcidMib [10, 0, 0, 0, 0],
    downlink rntiBroadcast lcidSib1 [11, 52, 0, 1, 0, 1, 0]]

/-- MSG2 and MSG4 for the default preamble. -/
def randomAccess (crnti : Nat) : List UeEvent :=
  [.air { type := .msg2Rar, payload := 2 :: (putU16 0x430A ++ [12, 5]) },
    .air { type := .msg4Cr, payload := 4 :: (putU16 crnti ++ putU16 0x430A) }]

def rrcDownlink (rnti : Nat) (type : RrcMessageType) (value : Bytes) : UeEvent :=
  downlink rnti lcidCcch (RrcMessage.encode ⟨type, value⟩)

def nasDownlink (rnti : Nat) (type : NasMessageType) (value : Bytes) : UeEvent :=
  downlink rnti lcidNasDcch (Pdcp.tx (NasMessage.encode ⟨type, value⟩))

/-- A digest under which every MAC and mask is zero. -/
def nullDigest : KeyedDigest := fun _ _ => Vector.replicate 32 0

def subscriber : UeNodeConfig :=
  { imsi := [1], usimKey := some (Vector.replicate 32 0), measPeriodMs := 0 }

/-- An attach with authentication under C-RNTI 1. -/
def attachRun : List UeEvent :=
  systemInfo ++ .attach :: randomAccess 1 ++
    [rrcDownlink 1 .setup [1, 0],
      nasDownlink 1 .authRequest (List.replicate 16 0 ++ [0, 0, 0, 0, 0, 1] ++ List.replicate 10 0),
      nasDownlink 1 .attachAccept [1, 0, 1, 0]]

end UeRun

open UeRun in
/-- Every run of a UE in which no resume is given up with security on: outside a registration
security is off, no ATTACH_REQUEST and no AUTH_RESPONSE was enciphered, and an authenticated
registration uses its own key. -/
theorem ue_security_follows_registration (digest : KeyedDigest) (config : UeNodeConfig)
    {events : List UeEvent} {u : UeNode}
    (run : runFrom (UeNode.step digest) (UeNode.make config) events = some u)
    (kept : StepsMeet (UeNode.step digest) (SecurityCondition digest) (UeNode.make config) events) :
    (u.nas.state ≠ .registered → u.upSecOn = false) ∧
      (∀ s ∈ u.nasSent, OpensSession s.1 → s.2 = false) ∧
      (u.nas.state = .registered → u.nas.authenticated = true → u.upKey = u.nas.sessionKey) := by
  have hsound : (security u).Sound :=
    runFrom_invariant_of_meets (fun u => (security u).Sound) (fun _ _ _ => step_sound)
      (sound_make config) kept run
  exact ⟨hsound.off, hsound.clear, hsound.keyed⟩

open UeRun in
/-- An attach with authentication ends registered, with security on. -/
theorem ue_security_follows_registration_attach :
    ∃ u, runFrom (UeNode.step nullDigest) (UeNode.make subscriber) attachRun = some u ∧
      (u.nas.state = .registered ∧ u.nas.authenticated = true ∧ u.upSecOn = true) ∧
      u.upKey = u.nas.sessionKey := by
  have hrun : ∃ u ∈ runFrom (UeNode.step nullDigest) (UeNode.make subscriber) attachRun,
      u.nas.state = .registered ∧ u.nas.authenticated = true ∧ u.upSecOn = true := by
    decide
  obtain ⟨u, hu, hreg⟩ := hrun
  have hsecure := ue_security_follows_registration nullDigest subscriber hu (by decide)
  exact ⟨u, hu, hreg, hsecure.2.2 hreg.1 hreg.2.1⟩

open UeRun in
/-- The UE is suspended, wakes, and the cell has lost its context: it is deregistered with
security on, and its next ATTACH_REQUEST is enciphered under the old key. -/
theorem ue_security_survives_resume_failure :
    ∃ u, runFrom (UeNode.step nullDigest) (UeNode.make subscriber)
        (attachRun ++ [rrcDownlink 1 .release [1, 0, 1, 7, 0, 1, 0], .wake] ++ randomAccess 2 ++
          rrcDownlink 2 .resumeFailure [] :: randomAccess 3 ++ [rrcDownlink 3 .setup [3, 0]]) =
        some u ∧
      (u.nas.state ≠ .registered ∧ u.upSecOn = true) ∧
      ∃ s ∈ u.nasSent, OpensSession s.1 ∧ s.2 = true := by
  have hrun : ∃ u ∈ runFrom (UeNode.step nullDigest) (UeNode.make subscriber)
      (attachRun ++ [rrcDownlink 1 .release [1, 0, 1, 7, 0, 1, 0], .wake] ++ randomAccess 2 ++
        rrcDownlink 2 .resumeFailure [] :: randomAccess 3 ++ [rrcDownlink 3 .setup [3, 0]]),
      (u.nas.state ≠ .registered ∧ u.upSecOn = true) ∧
        ∃ s ∈ u.nasSent, OpensSession s.1 ∧ s.2 = true := by
    decide
  exact hrun

end AetherStack.Guarantees
