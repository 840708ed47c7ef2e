import AetherStack.Guarantees.AttachFrames
import AetherStack.Guarantees.CellView
import AetherStack.Source.UeNode

/-!
# A UE and its user plane

The `UeNode` of the network is a part of the whole `UeNode`: clock, connection, security and
bearers, without HARQ, timers and the octets of RRC and NAS. Here it is read off the whole node,
and what sends, receives, resets and suspends does to it is what the part does
(ue_node.cpp:101-180, 249-372, 720-780, 1757-1779 and 1935-2032). How the procedures are chosen is
in the whole node only.
-/
namespace AetherStack.Guarantees
open Source Source.Core Mac Rrc Lib

def rrcState : UeState → RrcState
  | .idle => .idle
  | .connecting => .connecting
  | .connected => .connected
  | .inactive => .inactive

/-- Clock, connection, security and bearers of a UE. -/
structure UePlane where
  nowMs : UInt32
  rrc : RrcState
  crntiCache : Nat
  upKey : Key256
  upSecOn : Bool
  pdcpSeq : UInt64
  bearers : BearerSet

/-- The user plane of the part. -/
def planeOf (v : Source.UeNode) : UePlane :=
  ⟨v.nowMs, v.rrc, v.crntiCache, v.upKey, v.upSecOn, v.pdcpSeq, v.bearers⟩

/-- The user plane of the whole node. -/
def plane (u : Core.UeNode) : UePlane :=
  ⟨u.nowMs, rrcState u.rrc.state, u.crntiCache, u.upKey, u.upSecOn, u.pdcpSeq, u.bearers⟩

section
variable {u : Core.UeNode} {v : Source.UeNode}

/-- The two sides have the same fields. -/
theorem plane_eq_iff : plane u = planeOf v ↔
    u.nowMs = v.nowMs ∧ rrcState u.rrc.state = v.rrc ∧ u.crntiCache = v.crntiCache ∧
      u.upKey = v.upKey ∧ u.upSecOn = v.upSecOn ∧ u.pdcpSeq = v.pdcpSeq ∧
      u.bearers = v.bearers := by
  rw [plane, planeOf, UePlane.mk.injEq]

theorem inactive_iff (h : plane u = planeOf v) : u.rrc.inactive = true ↔ v.rrc = .inactive := by
  rw [← (plane_eq_iff.mp h).2.1, RrcUe.inactive, decide_eq_true_iff]
  cases u.rrc.state <;> simp [rrcState]

theorem enqueueAppPdu_eq : Core.UeNode.enqueueAppPdu = Source.UeNode.enqueueAppPdu := rfl

/-- A SDU is cut and queued alike. -/
theorem plane_sendSdu (h : plane u = planeOf v) (q : Qci) (sdu : Bytes) (force : Bool) :
    plane (u.sendSdu q sdu force) = planeOf (v.sendSdu q sdu force).1 := by
  obtain ⟨hnow, hrrc, hcrnti, hkey, hsec, hseq, hbearers⟩ := plane_eq_iff.mp h
  refine plane_eq_iff.mpr ⟨hnow, hrrc, hcrnti, hkey, hsec, hseq, ?_⟩
  rw [Core.UeNode.sendSdu, hbearers, hnow, enqueueAppPdu_eq]
  rfl

/-- Serving bearers one after the other changes the bearers only. -/
theorem foldl_serviceBearer (qs : List Qci) (u : Core.UeNode) :
    qs.foldl Core.UeNode.serviceBearer u =
      { u with
        bearers := qs.foldl (BearerSet.serviceBearer Core.UeNode.enqueueAppPdu u.nowMs)
          u.bearers } := by
  induction qs generalizing u with
  | nil => rfl
  | cons q qs ih => rw [List.foldl_cons, ih]; rfl

/-- The clock and the service of the four bearers are the tick of the part. -/
theorem plane_tick (h : plane u = planeOf v) (nowMs : UInt32) :
    plane ([Qci.sig, .bestEffort, .voice, .video].foldl Core.UeNode.serviceBearer
      { u with nowMs := max nowMs u.nowMs }) = planeOf (v.tick nowMs) := by
  obtain ⟨hnow, hrrc, hcrnti, hkey, hsec, hseq, hbearers⟩ := plane_eq_iff.mp h
  rw [foldl_serviceBearer]
  refine plane_eq_iff.mpr ⟨congrArg (max nowMs) hnow, hrrc, hcrnti, hkey, hsec, hseq, ?_⟩
  rw [hnow, hbearers, enqueueAppPdu_eq]
  unfold Source.UeNode.tick BearerSet.serviceAll
  rfl

variable (digest : KeyedDigest)

/-- A SDU that goes out becomes the block of the part, sealed with the same key and counter, and HARQ
gets its octets. -/
theorem plane_uplinkSend (h : plane u = planeOf v) (lcid : UInt8) (sdu : Bytes) :
    plane (u.uplinkSend digest lcid sdu) =
        planeOf (v.uplinkSend (Core.UeNode.pdcpHmac digest) lcid sdu).1 ∧
      ((u.uplinkSend digest lcid sdu).harqTx, (u.uplinkSend digest lcid sdu).air) =
        handOver (u.harqTx, u.air) (v.uplinkSend (Core.UeNode.pdcpHmac digest) lcid sdu).2 := by
  obtain ⟨hnow, hrrc, hcrnti, hkey, hsec, hseq, hbearers⟩ := plane_eq_iff.mp h
  unfold Core.UeNode.uplinkSend Source.UeNode.uplinkSend
  by_cases hsealed : (v.upSecOn && cipheredLcid lcid) = true
  · rw [if_pos hsealed, if_pos (by rw [hsec]; exact hsealed)]
    refine ⟨plane_eq_iff.mpr ⟨hnow, hrrc, hcrnti, hkey, hsec, congrArg (· + 1) hseq, hbearers⟩, ?_⟩
    rw [handOver, ← hcrnti, ← hkey, ← hseq]
    rfl
  · rw [if_neg hsealed, if_neg (by rw [hsec]; exact hsealed)]
    refine ⟨plane_eq_iff.mpr ⟨hnow, hrrc, hcrnti, hkey, hsec, hseq, hbearers⟩, ?_⟩
    rw [handOver, ← hcrnti]
    rfl

/-- The pump is turns of the part, and hands HARQ their blocks. -/
theorem pumpLoop_turns (h : plane u = planeOf v) (hawake : v.rrc ≠ .inactive) (fuel : Nat) :
    ∃ blocks v', Turns (Source.UeNode.pumpAppBearers (Core.UeNode.pdcpHmac digest)) v blocks v' ∧
      plane (Core.UeNode.pumpLoop digest fuel u) = planeOf v' ∧
      ((Core.UeNode.pumpLoop digest fuel u).harqTx, (Core.UeNode.pumpLoop digest fuel u).air) =
        blocks.foldl handOver (u.harqTx, u.air) := by
  induction fuel generalizing u v with
  | zero => exact ⟨[], v, .nil v, h, rfl⟩
  | succ fuel ih =>
    unfold Core.UeNode.pumpLoop
    split
    · cases hpop : u.bearers.popNext with
      | none => exact ⟨[], v, .nil v, h, rfl⟩
      | some taken =>
        obtain ⟨p, bearers⟩ := taken
        obtain ⟨hnow, hrrc, hcrnti, hkey, hsec, hseq, hbearers⟩ := plane_eq_iff.mp h
        have hpopped : plane { u with bearers := bearers } = planeOf { v with bearers := bearers } :=
          plane_eq_iff.mpr ⟨hnow, hrrc, hcrnti, hkey, hsec, hseq, rfl⟩
        obtain ⟨hsent, hover⟩ := plane_uplinkSend digest hpopped p.lcid p.bytes
        have hturn : v.pumpAppBearers (Core.UeNode.pdcpHmac digest) =
            some ({ v with bearers := bearers }.uplinkSend (Core.UeNode.pdcpHmac digest) p.lcid
              p.bytes) := by
          unfold Source.UeNode.pumpAppBearers
          rw [if_neg hawake, ← hbearers, hpop]
        have hstill : (Source.UeNode.uplinkSend (Core.UeNode.pdcpHmac digest)
            { v with bearers := bearers } p.lcid p.bytes).1.rrc ≠ .inactive := by
          unfold Source.UeNode.uplinkSend
          split <;> exact hawake
        obtain ⟨blocks, v', hturns, hplane, hhanded⟩ := ih hsent hstill
        refine ⟨_ :: blocks, v', .cons hturn hturns, hplane, ?_⟩
        rw [List.foldl_cons]
        rw [hover] at hhanded
        exact hhanded
    · exact ⟨[], v, .nil v, h, rfl⟩

/-! ### Reception -/

/-- No channel carries both data and STATUS. -/
theorem qciOfStatusLcid_of_data {lcid : UInt8} {q : Qci} (h : qciOfLcid lcid = some q) :
    qciOfStatusLcid lcid = none := by
  have hdata : lcid = lcidAppSig ∨ lcid = lcidAppVoice ∨ lcid = lcidAppVideo ∨
      lcid = lcidAppDtch := by
    unfold qciOfLcid at h
    split_ifs at h <;> simp_all
  rcases hdata with rfl | rfl | rfl | rfl <;> rfl

/-- Data and STATUS reach the bearers alike. -/
theorem plane_handleDedicatedSdu (h : plane u = planeOf v) {lcid : UInt8}
    (hbearer : (qciOfLcid lcid).isSome ∨ (qciOfStatusLcid lcid).isSome) (sdu : Bytes) :
    plane (u.handleDedicatedSdu digest lcid sdu) =
      planeOf (v.handleDedicatedSdu (Core.UeNode.pdcpHmac digest) lcid sdu) := by
  obtain ⟨hnow, hrrc, hcrnti, hkey, hsec, hseq, hbearers⟩ := plane_eq_iff.mp h
  have hccch : lcid ≠ lcidCcch := by rintro rfl; revert hbearer; decide
  have hnas : lcid ≠ lcidNasDcch := by rintro rfl; revert hbearer; decide
  have hack : lcid ≠ lcidHarqAck := by rintro rfl; revert hbearer; decide
  have hopened : openSdu (Core.UeNode.pdcpHmac digest) u.upSecOn u.upKey sdu =
      openSdu (Core.UeNode.pdcpHmac digest) v.upSecOn v.upKey sdu := by rw [hsec, hkey]
  unfold Core.UeNode.handleDedicatedSdu Source.UeNode.handleDedicatedSdu Source.UeNode.rxInput
  rw [if_neg hccch, if_neg hnas, if_neg hack]
  cases hq : qciOfLcid lcid with
  | some q =>
    simp only [hopened]
    cases openSdu (Core.UeNode.pdcpHmac digest) v.upSecOn v.upKey sdu with
    | none =>
      simp only [Option.map_none, qciOfStatusLcid_of_data hq]
      exact h
    | some pdu =>
      refine plane_eq_iff.mpr ⟨hnow, hrrc, hcrnti, hkey, hsec, hseq, ?_⟩
      dsimp only [Option.map_some]
      rw [hnow, hbearers, enqueueAppPdu_eq]
  | none =>
    dsimp only
    cases qciOfStatusLcid lcid with
    | none => exact h
    | some q =>
      refine plane_eq_iff.mpr ⟨hnow, hrrc, hcrnti, hkey, hsec, hseq, ?_⟩
      dsimp only
      rw [hnow, hbearers, enqueueAppPdu_eq]

/-! ### Resets and suspension -/

/-- Stopping random access leaves the user plane alone, and the entity idle. -/
theorem rachForceIdle_eq (u : Core.UeNode) : ∃ rach timers,
    u.rachForceIdle = { u with rach := rach, timers := timers } ∧ rach.state = .idle := by
  unfold Core.UeNode.rachForceIdle RachUe.forceIdle
  split
  · rename_i hidle
    exact ⟨u.rach, u.timers, rfl, hidle⟩
  · simp only [Core.UeNode.runRach, List.foldl_cons, List.foldl_nil, Core.UeNode.onRachOutput,
      Core.UeNode.scheduleAttachRetry]
    split
    · exact ⟨_, _, rfl, rfl⟩
    · exact ⟨_, _, rfl, rfl⟩

theorem rrcState_forceIdle (r : RrcUe) : rrcState r.forceIdle.state = .idle := by
  unfold RrcUe.forceIdle
  split
  · rename_i hidle
    rw [hidle]
    rfl
  · rfl

/-- An aborted attach. -/
theorem plane_abortAttach (h : plane u = planeOf v) : plane u.abortAttach = planeOf v.abortAttach := by
  obtain ⟨hnow, -, -, hkey, -, -, hbearers⟩ := plane_eq_iff.mp h
  obtain ⟨rach, timers, heq, -⟩ := rachForceIdle_eq
    { u with attachRequested := false, attachGuardRunning := false, pendingCcch := [] }
  unfold Core.UeNode.abortAttach
  dsimp only
  rw [heq]
  exact plane_eq_iff.mpr ⟨hnow, rrcState_forceIdle u.rrc, rfl, hkey, rfl, rfl,
    congrArg BearerSet.resetBearers hbearers⟩

/-- A lost radio link. -/
theorem plane_declareRlf (h : plane u = planeOf v) : plane u.declareRlf = planeOf v.declareRlf := by
  obtain ⟨hnow, -, -, hkey, hsec, hseq, hbearers⟩ := plane_eq_iff.mp h
  obtain ⟨rach, timers, heq, hidle⟩ := rachForceIdle_eq
    { u with preRlfCrnti := u.crntiCache, reestablishPending := true }.resetAirSide
  unfold Core.UeNode.declareRlf
  dsimp only
  rw [heq, StackAttach.startRach_eq (by exact hidle)]
  exact plane_eq_iff.mpr ⟨hnow, rrcState_forceIdle u.rrc, rfl, hkey, hsec, hseq,
    congrArg BearerSet.resetBearers hbearers⟩

/-- A handover; the HO_COMPLETE behind it goes out in the clear. -/
theorem plane_applyHandover (h : plane u = planeOf v) (targetCell newCrnti : Nat) :
    plane (u.applyHandover digest targetCell newCrnti) = planeOf (v.applyHandover newCrnti) := by
  obtain ⟨hnow, -, -, hkey, hsec, -, hbearers⟩ := plane_eq_iff.mp h
  have hreset : plane { ({ u with
      servingCell := targetCell, crntiCache := newCrnti
      rrc := u.rrc.restoreConnected newCrnti }.resetAirSide : Core.UeNode) with pdcpSeq := 0 } =
      planeOf (v.applyHandover newCrnti) :=
    plane_eq_iff.mpr ⟨hnow, rfl, rfl, hkey, hsec, rfl, congrArg BearerSet.resetBearers hbearers⟩
  refine (plane_uplinkSend digest hreset lcidCcch _).1.trans ?_
  unfold Source.UeNode.uplinkSend
  rw [if_neg (by simp [show cipheredLcid lcidCcch = false from rfl])]

/-- A resume is asked for: the kept context stays, the C-RNTI goes. -/
theorem plane_wake (h : plane u = planeOf v) : plane u.wake = planeOf v.wake := by
  obtain ⟨hnow, hrrc, hcrnti, hkey, hsec, hseq, hbearers⟩ := plane_eq_iff.mp h
  unfold Core.UeNode.wake Source.UeNode.wake
  by_cases hinactive : v.rrc = .inactive
  · have hstate : u.rrc.state = .inactive := by
      simpa [RrcUe.inactive] using (inactive_iff h).mpr hinactive
    obtain ⟨rach, timers, heq, hidle⟩ := rachForceIdle_eq { u with
      pendingCcch := RrcMessage.encode
        { msgType := .resumeRequest, value := putU32 u.rrc.resumeId }
      rrc := u.rrc.startResume }
    rw [if_neg (by simp [(inactive_iff h).mpr hinactive]), if_neg (not_not.mpr hinactive)]
    dsimp only
    rw [heq]
    have hresumed : rrcState u.rrc.startResume.state = .connecting := by
      rw [RrcUe.startResume, if_neg (not_not.mpr hstate)]
      rfl
    split
    · rw [StackAttach.startRach_eq (by exact hidle)]
      exact plane_eq_iff.mpr ⟨hnow, hresumed, rfl, hkey, hsec, hseq, hbearers⟩
    · rw [StackAttach.startRach_eq (by exact hidle)]
      exact plane_eq_iff.mpr ⟨hnow, hresumed, rfl, hkey, hsec, hseq, hbearers⟩
  · rw [if_pos (by simpa using mt (inactive_iff h).mp hinactive), if_pos hinactive]
    exact h

/-- A RELEASE is handled by the RRC entity and its callback; no attach follows where the UE is not
connected behind it. -/
theorem handleCcchSdu_release {sdu : Bytes} {answer : RrcUe × List RrcOutput}
    (hrelease : (RrcMessage.decode sdu).msgType = .release)
    (hanswer : u.rrc.onRelease (RrcMessage.decode sdu).value = answer)
    (hstate : (answer.2.foldl (Core.UeNode.onRrcOutput digest)
      { u with rrc := answer.1 }).rrc.state ≠ .connected) :
    plane (u.handleCcchSdu digest sdu) =
      plane (answer.2.foldl (Core.UeNode.onRrcOutput digest) { u with rrc := answer.1 }) := by
  have hmessage : u.rrc.onMessage sdu = answer := by
    unfold RrcUe.onMessage
    dsimp only
    rw [hrelease, ← hanswer]
  unfold Core.UeNode.handleCcchSdu
  dsimp only
  split
  · rename_i htype
    cases hrelease.symm.trans htype
  · rename_i htype
    cases hrelease.symm.trans htype
  · rename_i htype
    cases hrelease.symm.trans htype
  · rw [hmessage]
    refine (congrArg plane (if_neg ?_)).trans rfl
    rintro ⟨-, -, hconnected⟩
    exact hstate hconnected

/-- A RELEASE with a resume identity: a connected UE is suspended, any other goes idle. -/
theorem plane_release (h : plane u = planeOf v) {sdu : Bytes}
    (hrelease : (RrcMessage.decode sdu).msgType = .release)
    (hlen : 7 ≤ (RrcMessage.decode sdu).value.length)
    (hflag : (RrcMessage.decode sdu).value.getD 2 0 &&& 1 ≠ 0) :
    plane (u.handleCcchSdu digest sdu) = planeOf v.onRelease := by
  obtain ⟨hnow, hrrc, hcrnti, hkey, hsec, hseq, hbearers⟩ := plane_eq_iff.mp h
  unfold Source.UeNode.onRelease
  by_cases hconnected : u.rrc.state = .connected
  · have hother : v.rrc = .connected := by rw [← hrrc, hconnected]; rfl
    rw [if_neg (not_not.mpr hother), handleCcchSdu_release digest hrelease
      (if_pos ⟨hlen, hflag, hconnected⟩) (fun hstate => UeState.noConfusion hstate)]
    exact plane_eq_iff.mpr ⟨hnow, rfl, rfl, hkey, hsec, hseq, hbearers⟩
  · have hother : v.rrc ≠ .connected := by
      rw [← hrrc]
      intro hstate
      revert hconnected hstate
      cases u.rrc.state <;> simp [rrcState]
    rw [if_pos hother, handleCcchSdu_release digest hrelease
      (if_neg fun hsuspends => hconnected hsuspends.2.2) (fun hstate => UeState.noConfusion hstate)]
    exact plane_eq_iff.mpr ⟨hnow, rfl, hcrnti, hkey, hsec, hseq, hbearers⟩

/-- RRC messages go out in the clear or wait for MSG3: the user plane is as before. -/
theorem plane_rrcSend (u : Core.UeNode) (pdu : Bytes) :
    plane (u.rrcSend digest pdu) = plane u ∧ (u.rrcSend digest pdu).rach = u.rach := by
  unfold Core.UeNode.rrcSend Core.UeNode.uplinkSend
  split
  · rw [if_neg (by simp [show cipheredLcid lcidCcch = false from rfl])]
    exact ⟨rfl, rfl⟩
  · exact ⟨rfl, rfl⟩

theorem plane_foldl_rrcSend (pdus : List Bytes) (u : Core.UeNode) :
    plane (pdus.foldl (Core.UeNode.rrcSend digest) u) = plane u ∧
      (pdus.foldl (Core.UeNode.rrcSend digest) u).rach = u.rach := by
  induction pdus generalizing u with
  | nil => exact ⟨rfl, rfl⟩
  | cons pdu pdus ih =>
    obtain ⟨hplane, hrach⟩ := plane_rrcSend digest u pdu
    exact ⟨(ih _).1.trans hplane, (ih _).2.trans hrach⟩

/-- NAS messages may be sealed: the counter goes on, the rest stays. -/
theorem plane_foldl_nasSend (pdus : List Bytes) (u : Core.UeNode) : ∃ seq,
    plane (pdus.foldl (Core.UeNode.nasSend digest) u) = { plane u with pdcpSeq := seq } := by
  induction pdus generalizing u with
  | nil => exact ⟨u.pdcpSeq, rfl⟩
  | cons pdu pdus ih =>
    obtain ⟨seq, hrest⟩ := ih (u.nasSend digest pdu)
    refine ⟨seq, hrest.trans ?_⟩
    unfold Core.UeNode.nasSend Core.UeNode.uplinkSend
    dsimp only
    split <;> rfl

/-- A registered UE that is awake leaves: the DETACH is sent, then everything is fresh. -/
theorem plane_detach (h : plane u = planeOf v) (hregistered : u.registered = true)
    (hawake : v.rrc ≠ .inactive) (detachPdu : Bytes) :
    plane (u.detach digest) =
      planeOf (v.detach (Core.UeNode.pdcpHmac digest) detachPdu).1 := by
  obtain ⟨hnow, hrrc, hcrnti, hkey, hsec, hseq, hbearers⟩ := plane_eq_iff.mp h
  unfold Core.UeNode.detach
  rw [if_neg (by simp [hregistered]), if_neg (by simpa using mt (inactive_iff h).mp hawake)]
  dsimp only
  generalize hasked : u.nas.sendDetach.2.foldl (Core.UeNode.nasSend digest)
    { u with nas := u.nas.sendDetach.1 } = asked
  obtain ⟨seq, hfirst⟩ := plane_foldl_nasSend digest u.nas.sendDetach.2
    { u with nas := u.nas.sendDetach.1 }
  rw [hasked] at hfirst
  obtain ⟨hanow, harrc, -, hakey, -, -, habearers⟩ := UePlane.mk.inj hfirst
  generalize hreleased : asked.rrc.release.2.foldl (Core.UeNode.rrcSend digest)
    { asked with rrc := asked.rrc.release.1 } = released
  have hthen := (plane_foldl_rrcSend digest asked.rrc.release.2
    { asked with rrc := asked.rrc.release.1 }).1
  rw [hreleased] at hthen
  obtain ⟨hrnow, hrrrc, -, hrkey, -, -, hrbearers⟩ := UePlane.mk.inj hthen
  obtain ⟨rach, timers, heq, -⟩ := rachForceIdle_eq { released with crntiCache := 0 }
  rw [heq]
  have hidle : rrcState asked.rrc.release.1.state = if v.rrc = .connected then .idle else v.rrc := by
    rw [← hrrc, ← show rrcState asked.rrc.state = rrcState u.rrc.state from harrc, RrcUe.release]
    cases hstate : asked.rrc.state <;> simp [rrcState, hstate]
  exact plane_eq_iff.mpr ⟨(hrnow.trans hanow).trans hnow, hrrrc.trans hidle, rfl,
    (hrkey.trans hakey).trans hkey, rfl, rfl,
    congrArg BearerSet.resetBearers ((hrbearers.trans habearers).trans hbearers)⟩

/-- The start of an attach from an idle random access: a re-establishment is asked for again, else a
connection is set up. -/
theorem plane_maybeStartAttach (h : plane u = planeOf v)
    (hready : u.attachRequested = true ∧ u.hasSystemInfo = true) (hidle : u.rach.state = .idle)
    (hother : v.rachActive = false) (hpending : u.reestablishPending = v.reestablishPending) :
    plane (u.maybeStartAttach digest) = planeOf v.maybeStartAttach := by
  obtain ⟨hnow, hrrc, hcrnti, hkey, hsec, hseq, hbearers⟩ := plane_eq_iff.mp h
  unfold Core.UeNode.maybeStartAttach Source.UeNode.maybeStartAttach
  by_cases hstate : u.rrc.state = .idle
  · have hfree : v.rrc = .idle := by rw [← hrrc, hstate]; rfl
    have hgoes : ¬ ((!u.attachRequested || !u.hasSystemInfo || u.rach.state ≠ .idle ||
        u.rrc.state ≠ .idle) = true) := by simp [hready.1, hready.2, hidle, hstate]
    have hgoes' : ¬ (v.rachActive = true ∨ v.rrc ≠ .idle) := by simp [hother, hfree]
    rw [if_neg hgoes, if_neg hgoes']
    by_cases hagain : u.reestablishPending = true
    · rw [if_pos hagain, if_pos (hpending ▸ hagain), StackAttach.startRach_eq (by exact hidle)]
      exact plane_eq_iff.mpr ⟨hnow, hrrc, rfl, hkey, hsec, hseq, hbearers⟩
    · have hasks : ∀ w : Core.UeNode, plane w = { plane u with rrc := .connecting } →
          w.rach.state = .idle →
          plane (if w.attachGuardRunning then w
            else { w with attachGuardRunning := true }.schedule .attachGuard).startRach =
          planeOf { v with rrc := .connecting, pendingCcch := some .setupRequest }.startRach := by
        intro w hw hrach
        obtain ⟨hwnow, hwrrc, -, hwkey, hwsec, hwseq, hwbearers⟩ := UePlane.mk.inj hw
        split
        · rw [StackAttach.startRach_eq (by exact hrach)]
          exact plane_eq_iff.mpr ⟨hwnow.trans hnow, hwrrc, rfl, hwkey.trans hkey,
            hwsec.trans hsec, hwseq.trans hseq, hwbearers.trans hbearers⟩
        · rw [StackAttach.startRach_eq (by exact hrach)]
          exact plane_eq_iff.mpr ⟨hwnow.trans hnow, hwrrc, rfl, hwkey.trans hkey,
            hwsec.trans hsec, hwseq.trans hseq, hwbearers.trans hbearers⟩
      have hconnecting : ∀ cellId, rrcState (u.rrc.startConnection cellId).1.state = .connecting := by
        intro cellId
        rw [RrcUe.startConnection, if_neg (not_not.mpr hstate)]
        rfl
      rw [if_neg hagain, if_neg (by rwa [← hpending])]
      dsimp only
      refine hasks _ ((plane_foldl_rrcSend digest _ _).1.trans ?_) ?_
      · exact congrArg (fun rrc => { plane u with rrc := rrc }) (hconnecting _)
      · rw [(plane_foldl_rrcSend digest _ _).2]
        exact hidle
  · have hbusy : v.rrc ≠ .idle := by
      rw [← hrrc]
      intro hother
      revert hstate hother
      cases u.rrc.state <;> simp [rrcState]
    rw [if_pos (by simp [hstate]), if_pos (.inr hbusy)]
    exact h

/-- A re-establishment that failed: security goes, and a UE that may attach does so. -/
theorem plane_reestablishFailed (h : plane u = planeOf v)
    (hready : u.attachRequested = true ∧ u.hasSystemInfo = true) :
    plane (u.reestablishFailed digest) = planeOf v.reestablishFailed.maybeStartAttach := by
  obtain ⟨hnow, -, -, hkey, -, -, hbearers⟩ := plane_eq_iff.mp h
  obtain ⟨rach, timers, heq, hidle⟩ := rachForceIdle_eq { u with
    reestablishPending := false, nas := u.nas.forceDeregistered
    upSecOn := false, pdcpSeq := 0, crntiCache := 0 }
  unfold Core.UeNode.reestablishFailed
  dsimp only
  rw [heq]
  refine plane_maybeStartAttach digest ?_ hready hidle rfl rfl
  exact plane_eq_iff.mpr ⟨hnow, rrcState_forceIdle u.rrc, rfl, hkey, rfl, rfl, hbearers⟩

end

/-! ### Runs of the user plane -/

/-- What moves the user plane of a UE: SDUs, ticks, the pump, data and STATUS that come in, and the
procedures that reset or suspend it. -/
inductive PlaneEvent where
  | sendSdu (q : Qci) (sdu : Bytes) (force : Bool)
  | tick (nowMs : UInt32)
  | pump
  | receive (lcid : UInt8) (sdu : Bytes)
  | handover (targetCell newCrnti : Nat)
  | radioLinkFailure
  | abortAttach
  | wake
  | release (sdu : Bytes)
  | detach
  | reestablishFailed

namespace PlaneEvent

/-- Data and STATUS come on their channels, a RELEASE has a resume identity, only a registered UE
that is awake detaches, and a UE whose re-establishment failed may attach. -/
def Allowed (u : Core.UeNode) : PlaneEvent → Prop
  | .receive lcid _ => (qciOfLcid lcid).isSome ∨ (qciOfStatusLcid lcid).isSome
  | .release sdu =>
    (RrcMessage.decode sdu).msgType = .release ∧ 7 ≤ (RrcMessage.decode sdu).value.length ∧
      (RrcMessage.decode sdu).value.getD 2 0 &&& 1 ≠ 0
  | .detach => u.registered = true ∧ u.rrc.inactive = false
  | .reestablishFailed => u.attachRequested = true ∧ u.hasSystemInfo = true
  | _ => True

instance (u : Core.UeNode) (e : PlaneEvent) : Decidable (e.Allowed u) := by
  cases e <;> unfold Allowed <;> infer_instance

variable (digest : KeyedDigest)

/-- The event in the whole node. -/
def act (u : Core.UeNode) : PlaneEvent → Core.UeNode
  | .sendSdu q sdu force => u.sendSdu q sdu force
  | .tick nowMs => [Qci.sig, .bestEffort, .voice, .video].foldl Core.UeNode.serviceBearer
      { u with nowMs := max nowMs u.nowMs }
  | .pump => u.pumpAppBearers digest
  | .receive lcid sdu => u.handleDedicatedSdu digest lcid sdu
  | .handover targetCell newCrnti => u.applyHandover digest targetCell newCrnti
  | .radioLinkFailure => u.declareRlf
  | .abortAttach => u.abortAttach
  | .wake => u.wake
  | .release sdu => u.handleCcchSdu digest sdu
  | .detach => u.detach digest
  | .reestablishFailed => u.reestablishFailed digest

def step (u : Core.UeNode) (e : PlaneEvent) : Option Core.UeNode :=
  if e.Allowed u then some (e.act digest u) else none

/-- The event in the part: a pump is some turns of the scheduler. -/
inductive Part (hmac : Hmac) (v : Source.UeNode) : PlaneEvent → Source.UeNode → Prop
  | sendSdu (q : Qci) (sdu : Bytes) (force : Bool) :
      Part hmac v (.sendSdu q sdu force) (v.sendSdu q sdu force).1
  | tick (nowMs : UInt32) : Part hmac v (.tick nowMs) (v.tick nowMs)
  | pump {blocks : List AirBlock} {v' : Source.UeNode}
      (turns : Turns (Source.UeNode.pumpAppBearers hmac) v blocks v') : Part hmac v .pump v'
  | receive (lcid : UInt8) (sdu : Bytes) :
      Part hmac v (.receive lcid sdu) (v.handleDedicatedSdu hmac lcid sdu)
  | handover (targetCell newCrnti : Nat) :
      Part hmac v (.handover targetCell newCrnti) (v.applyHandover newCrnti)
  | radioLinkFailure : Part hmac v .radioLinkFailure v.declareRlf
  | abortAttach : Part hmac v .abortAttach v.abortAttach
  | wake : Part hmac v .wake v.wake
  | release (sdu : Bytes) : Part hmac v (.release sdu) v.onRelease
  | detach (detachPdu : Bytes) : Part hmac v .detach (v.detach hmac detachPdu).1
  | reestablishFailed : Part hmac v .reestablishFailed v.reestablishFailed.maybeStartAttach

inductive PartRun (hmac : Hmac) : Source.UeNode → List PlaneEvent → Source.UeNode → Prop
  | nil (v : Source.UeNode) : PartRun hmac v [] v
  | cons {v v' v'' : Source.UeNode} {e : PlaneEvent} {es : List PlaneEvent}
      (first : Part hmac v e v') (rest : PartRun hmac v' es v'') : PartRun hmac v (e :: es) v''

end PlaneEvent

section
variable (digest : KeyedDigest) {u u' : Core.UeNode} {v : Source.UeNode}

/-- The pump of a UE that sleeps does nothing on either side. -/
theorem pump_turns (h : plane u = planeOf v) :
    ∃ blocks v', Turns (Source.UeNode.pumpAppBearers (Core.UeNode.pdcpHmac digest)) v blocks v' ∧
      plane (u.pumpAppBearers digest) = planeOf v' ∧
      ((u.pumpAppBearers digest).harqTx, (u.pumpAppBearers digest).air) =
        blocks.foldl handOver (u.harqTx, u.air) := by
  unfold Core.UeNode.pumpAppBearers
  by_cases hinactive : v.rrc = .inactive
  · rw [if_pos ((inactive_iff h).mpr hinactive)]
    exact ⟨[], v, .nil v, h, rfl⟩
  · rw [if_neg (mt (inactive_iff h).mp hinactive)]
    exact pumpLoop_turns digest h hinactive _

/-- Step lemma: the part follows every event. -/
theorem plane_step (h : plane u = planeOf v) {e : PlaneEvent} (hstep : e.step digest u = some u') :
    ∃ v', PlaneEvent.Part (Core.UeNode.pdcpHmac digest) v e v' ∧ plane u' = planeOf v' := by
  unfold PlaneEvent.step at hstep
  split at hstep
  case isFalse => cases hstep
  rename_i hallowed
  obtain rfl := Option.some.inj hstep
  cases e with
  | sendSdu q sdu force => exact ⟨_, .sendSdu q sdu force, plane_sendSdu h q sdu force⟩
  | tick nowMs => exact ⟨_, .tick nowMs, plane_tick h nowMs⟩
  | pump =>
    obtain ⟨blocks, v', hturns, hplane, -⟩ := pump_turns digest h
    exact ⟨v', .pump hturns, hplane⟩
  | receive lcid sdu => exact ⟨_, .receive lcid sdu, plane_handleDedicatedSdu digest h hallowed sdu⟩
  | handover targetCell newCrnti =>
    exact ⟨_, .handover targetCell newCrnti, plane_applyHandover digest h targetCell newCrnti⟩
  | radioLinkFailure => exact ⟨_, .radioLinkFailure, plane_declareRlf h⟩
  | abortAttach => exact ⟨_, .abortAttach, plane_abortAttach h⟩
  | wake => exact ⟨_, .wake, plane_wake h⟩
  | release sdu =>
    exact ⟨_, .release sdu, plane_release digest h hallowed.1 hallowed.2.1 hallowed.2.2⟩
  | detach =>
    have hawake : v.rrc ≠ .inactive := fun hinactive =>
      Bool.false_ne_true (hallowed.2.symm.trans ((inactive_iff h).mpr hinactive))
    exact ⟨_, .detach [], plane_detach digest h hallowed.1 hawake []⟩
  | reestablishFailed =>
    exact ⟨_, .reestablishFailed, plane_reestablishFailed digest h hallowed⟩

/-- Run lemma. -/
theorem plane_run {events : List PlaneEvent} (h : plane u = planeOf v)
    (run : runFrom (PlaneEvent.step digest) u events = some u') :
    ∃ v', PlaneEvent.PartRun (Core.UeNode.pdcpHmac digest) v events v' ∧ plane u' = planeOf v' := by
  induction events generalizing u v with
  | nil =>
    obtain rfl := Option.some.inj run
    exact ⟨v, .nil v, h⟩
  | cons e es ih =>
    obtain ⟨w, hstep, hrest⟩ := runFrom_cons_eq_some.mp run
    obtain ⟨v', hpart, hplane⟩ := plane_step digest h hstep
    obtain ⟨v'', hparts, hend⟩ := ih hplane hrest
    exact ⟨v'', .cons hpart hparts, hend⟩

end

end AetherStack.Guarantees
