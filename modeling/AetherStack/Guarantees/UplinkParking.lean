import AetherStack.Guarantees.UplinkFrames

/-!
# Uplink parking

Under the condition of `UplinkFrames`, what waits in a bearer queue of a UE without a C-RNTI
stays there, in order, and the first pump with a C-RNTI sends it on that C-RNTI, the oldest
PDU of each queue first, until the queues are empty or every HARQ process is busy.
-/
namespace AetherStack.Guarantees
open Source Source.Core Lib Source.Mac Source.Rrc

/-! ## Steps that leave the queues alone -/

/-- The bearers, and what a ping reads beside them. -/
def waiting (u : UeNode) : BearerSet × UInt32 × UInt32 := (u.bearers, u.nowMs, u.appTxSeq)

/-- The bearers stay as they are, and no C-RNTI comes from nowhere. -/
structure Parks (u u' : UeNode) : Prop where
  kept : waiting u' = waiting u
  crnti : u.crntiCache = 0 → u'.crntiCache = 0

section Parked

variable (digest : KeyedDigest) {u v w : UeNode}

theorem Parks.refl (u : UeNode) : Parks u u := ⟨rfl, id⟩

theorem Parks.trans (h : Parks u v) (h' : Parks v w) : Parks u w :=
  ⟨h'.kept.trans h.kept, fun hzero => h'.crnti (h.crnti hzero)⟩

/-- A loop whose turns park is one that parks. -/
theorem parks_foldl {α : Type} {f : UeNode → α → UeNode} (hf : ∀ u a, Parks u (f u a)) (l : List α)
    (u : UeNode) : Parks u (l.foldl f u) := by
  induction l generalizing u with
  | nil => exact .refl u
  | cons a l ih => exact (hf u a).trans (ih (f u a))

theorem uplinkSend_parks (u : UeNode) (lcid : UInt8) (sdu : Bytes) :
    Parks u (u.uplinkSend digest lcid sdu) := by
  unfold UeNode.uplinkSend
  split
  · exact ⟨rfl, id⟩
  · exact ⟨rfl, id⟩

theorem rrcSend_parks (u : UeNode) (pdu : Bytes) : Parks u (u.rrcSend digest pdu) := by
  unfold UeNode.rrcSend
  split
  · exact uplinkSend_parks digest u _ _
  · exact ⟨rfl, id⟩

theorem scheduleAttachRetry_parks (u : UeNode) : Parks u u.scheduleAttachRetry := by
  unfold UeNode.scheduleAttachRetry
  split
  · exact .refl u
  · exact ⟨rfl, id⟩

theorem onRachOutput_parks (u : UeNode) (out : RachOutput) : Parks u (u.onRachOutput out) := by
  cases out with
  | state new =>
    cases new with
    | idle =>
      have hcancelled : Parks u (u.cancel .rachWindow) := ⟨rfl, id⟩
      exact hcancelled.trans (scheduleAttachRetry_parks _)
    | waitRar => exact ⟨rfl, fun _ => rfl⟩
    | waitContentionResolve | connected => exact ⟨rfl, id⟩
  | msg1 pdu | msg3 pdu => exact ⟨rfl, id⟩

theorem runRach_parks (u : UeNode) (call : RachUe × List RachOutput) : Parks u (u.runRach call) := by
  have hmoved : Parks u { u with rach := call.1 } := ⟨rfl, id⟩
  exact hmoved.trans (parks_foldl onRachOutput_parks call.2 _)

theorem Parks.startRach (h : Parks u v) : Parks u v.startRach := h.trans (runRach_parks v _)

theorem Parks.rachForceIdle (h : Parks u v) : Parks u v.rachForceIdle := h.trans (runRach_parks v _)

theorem Parks.rrcSends (h : Parks u v) (pdus : List Bytes) :
    Parks u (pdus.foldl (UeNode.rrcSend digest) v) :=
  h.trans (parks_foldl (rrcSend_parks digest) pdus v)

theorem Parks.bearers (h : Parks u v) : v.bearers = u.bearers := congrArg Prod.fst h.kept

theorem Parks.same (h : Parks u v) (hwaiting : waiting w = waiting v)
    (hcrnti : w.crntiCache = v.crntiCache) : Parks u w :=
  ⟨hwaiting.trans h.kept, fun hzero => hcrnti.trans (h.crnti hzero)⟩

theorem Parks.maybeStartAttach (h : Parks u v) : Parks u (v.maybeStartAttach digest) := by
  unfold UeNode.maybeStartAttach
  split
  · exact h
  · split
    · apply Parks.startRach
      exact h.same rfl rfl
    · dsimp only
      apply Parks.startRach
      split
      · apply Parks.rrcSends
        exact h.same rfl rfl
      · have hsent := (h.same (w := { v.selectServingCell.targetServingCell with
            pendingCcch := []
            rrc := (v.rrc.startConnection v.selectServingCell.servingCell).1 }) rfl rfl).rrcSends
          digest (v.rrc.startConnection v.selectServingCell.servingCell).2
        exact hsent.same rfl rfl

theorem Parks.wake (h : Parks u v) : Parks u v.wake := by
  unfold UeNode.wake
  split
  · exact h
  · dsimp only
    generalize RrcMessage.encode _ = request
    have hidle : Parks u ({ v with pendingCcch := request, rrc := v.rrc.startResume } :
        UeNode).rachForceIdle := by
      apply Parks.rachForceIdle
      exact h.same rfl rfl
    apply Parks.startRach
    split
    · exact hidle.same rfl rfl
    · exact hidle.same rfl rfl

theorem Parks.maybeWakeForActivity (h : Parks u v) : Parks u v.maybeWakeForActivity := by
  unfold UeNode.maybeWakeForActivity
  split
  · exact h.wake
  · exact h

theorem handleSysinfoSdu_parks (u : UeNode) (lcid : UInt8) (sdu : Bytes) (broadcast : Bool) :
    Parks u (u.handleSysinfoSdu digest lcid sdu broadcast) := by
  unfold UeNode.handleSysinfoSdu
  split
  · apply Parks.maybeStartAttach
    exact ⟨rfl, id⟩
  · split
    · apply Parks.maybeStartAttach
      exact ⟨rfl, id⟩
    · split
      · split
        · exact .refl u
        · split
          · exact (Parks.refl u).wake
          · split
            · apply Parks.maybeStartAttach
              exact ⟨rfl, id⟩
            · exact .refl u
      · exact .refl u

theorem sendFrame_parks (u : UeNode) (type : AirFrameType) (rnti : Nat) (payload : Bytes) :
    Parks u (u.sendFrame type rnti payload) := ⟨rfl, id⟩

theorem sendAck_parks (u : UeNode) (rnti : Nat) (res : HarqResult) :
    Parks u (u.sendAck rnti res) := by
  unfold UeNode.sendAck
  split
  · exact .refl u
  · exact ⟨rfl, id⟩

theorem receiveData_parks {rnti : Nat} {payload : Bytes} {r : UeNode × List (UInt8 × Bytes)}
    (h : u.receiveData rnti payload = .ok r) : Parks u r.1 := by
  unfold UeNode.receiveData at h
  dsimp only at h
  have hclock : Parks u (if rnti ≠ rntiBroadcast then { u with lastDlMs := u.nowMs } else u) := by
    split
    · exact ⟨rfl, id⟩
    · exact .refl u
  generalize (if rnti ≠ rntiBroadcast then { u with lastDlMs := u.nowMs } else u) = v at hclock h
  split at h
  · split at h
    · cases h
    · rename_i harqRx res _
      obtain rfl := Except.ok.inj h
      exact (hclock.same (w := { v with harqRx := harqRx }) rfl rfl).trans (sendAck_parks _ _ _)
  · obtain rfl := Except.ok.inj h
    exact hclock

theorem pumpHarq_parks (u : UeNode) : Parks u u.pumpHarq := by
  have hpolled : Parks u { u with harqTx := (u.harqTx.pollTimeouts u.nowMs).1 } := ⟨rfl, id⟩
  exact hpolled.trans (parks_foldl (fun v e => sendFrame_parks v _ _ _) _ _)

theorem reestablishFailed_parks (u : UeNode) : Parks u (u.reestablishFailed digest) := by
  unfold UeNode.reestablishFailed
  dsimp only
  apply Parks.maybeStartAttach
  have hdown : Parks u { u with
      reestablishPending := false, nas := u.nas.forceDeregistered
      upSecOn := false, pdcpSeq := 0, crntiCache := 0 } := ⟨rfl, fun _ => rfl⟩
  exact hdown.rachForceIdle.same rfl rfl

end Parked

/-! ## Queues without a C-RNTI -/

section Queues

variable {digest : KeyedDigest} {u u' : UeNode}

/-- With room a push goes to the end and loses nothing. -/
theorem pushBounded_prefix {limit : Nat} {queue : List AppPdu} (hroom : queue.length < limit)
    (p : AppPdu) : queue <+: BearerSet.pushBounded limit queue p := by
  unfold BearerSet.pushBounded
  rw [if_neg (by omega)]
  exact List.prefix_append queue [p]

theorem length_pushBounded_le (limit : Nat) (queue : List AppPdu) (p : AppPdu) :
    (BearerSet.pushBounded limit queue p).length ≤ queue.length + 1 := by
  unfold BearerSet.pushBounded
  split <;> simp

/-- Every queue of a bearer set is a prefix of what it becomes. -/
def Extends (s s' : BearerSet) : Prop := ∀ q, (s.bearer q).queue <+: (s'.bearer q).queue

theorem enqueueAppPdu_extends {s : BearerSet} {q : Qci} (hroom : (s.bearer q).queue.length < 64)
    (lcid : UInt8) (pdu : Bytes) :
    Extends s (UeNode.enqueueAppPdu s q lcid pdu) ∧
      ((UeNode.enqueueAppPdu s q lcid pdu).bearer q).queue.length ≤
        (s.bearer q).queue.length + 1 := by
  unfold UeNode.enqueueAppPdu BearerSet.withQueue
  refine ⟨fun q' => ?_, ?_⟩
  · by_cases hq : q' = q
    · subst hq
      rw [BearerSet.setBearer_self]
      exact pushBounded_prefix hroom _
    · rw [BearerSet.setBearer_of_ne s _ hq]
  · rw [BearerSet.setBearer_self]
    exact length_pushBounded_le _ _ _

/-- With room for all of them, the PDUs are appended. -/
theorem enqueueData_extends {s : BearerSet} {q : Qci} {pdus : List Bytes}
    (hroom : (s.bearer q).queue.length + pdus.length ≤ 64) :
    Extends s (BearerSet.enqueueData UeNode.enqueueAppPdu s q pdus) ∧
      ((BearerSet.enqueueData UeNode.enqueueAppPdu s q pdus).bearer q).queue.length ≤
        (s.bearer q).queue.length + pdus.length := by
  unfold BearerSet.enqueueData
  induction pdus generalizing s with
  | nil => exact ⟨fun q' => List.prefix_rfl, le_rfl⟩
  | cons pdu pdus ih =>
    simp only [List.length_cons] at hroom
    obtain ⟨hfirst, hlength⟩ := enqueueAppPdu_extends (s := s) (q := q) (by omega) (lcidOf q)
      (Pdcp.tx pdu)
    obtain ⟨hrest, hlength'⟩ := ih (s := UeNode.enqueueAppPdu s q (lcidOf q) (Pdcp.tx pdu))
      (by omega)
    refine ⟨fun q' => (hfirst q').trans (hrest q'), ?_⟩
    simp only [List.foldl_cons, List.length_cons]
    omega

theorem sendSdu_extends {s : BearerSet} {nowMs : UInt32} {q : Qci} {sdu : Bytes} {force : Bool}
    (hroom : (s.bearer q).queue.length + (RlcTx.send q (s.bearer q).tx nowMs sdu force).2.length ≤ 64) :
    Extends s (s.sendSdu UeNode.enqueueAppPdu nowMs q sdu force).1 := by
  have hadded : Extends (s.withTx q (RlcTx.send q (s.bearer q).tx nowMs sdu force).1) _ :=
    (enqueueData_extends (by rwa [BearerSet.withTx_queue])).1
  intro q'
  have hq' := hadded q'
  rwa [BearerSet.withTx_queue] at hq'

theorem enqueueStatus_extends {s : BearerSet} {q : Qci} (status : Option Bytes)
    (hroom : (s.bearer q).queue.length + status.toList.length ≤ 64) :
    Extends s (BearerSet.enqueueStatus UeNode.enqueueAppPdu s q status) := by
  cases status with
  | none => exact fun q' => List.prefix_rfl
  | some status =>
    simp only [Option.toList_some, List.length_singleton] at hroom
    exact (enqueueAppPdu_extends (by omega) _ status).1

theorem enqueueData_rx (s : BearerSet) (q : Qci) (pdus : List Bytes) (q' : Qci) :
    ((BearerSet.enqueueData UeNode.enqueueAppPdu s q pdus).bearer q').rx = (s.bearer q').rx := by
  unfold BearerSet.enqueueData
  induction pdus generalizing s with
  | nil => rfl
  | cons pdu pdus ih =>
    rw [List.foldl_cons, ih]
    exact BearerSet.withQueue_rx _ q'

theorem serviceBearer_extends {s : BearerSet} {nowMs : UInt32} {q : Qci}
    (hroom : (s.bearer q).queue.length + ((RlcTx.tick q (s.bearer q).tx nowMs).2.length +
      (RlcRx.tick q (s.bearer q).rx nowMs).2.status.toList.length) ≤ 64) :
    Extends s (BearerSet.serviceBearer UeNode.enqueueAppPdu nowMs s q) := by
  have hroom' : ((s.withTx q (RlcTx.tick q (s.bearer q).tx nowMs).1).bearer q).queue.length +
      (RlcTx.tick q (s.bearer q).tx nowMs).2.length ≤ 64 := by
    rw [BearerSet.withTx_queue]
    omega
  obtain ⟨hprobed, hlength⟩ := enqueueData_extends hroom'
  have hrx := enqueueData_rx (s.withTx q (RlcTx.tick q (s.bearer q).tx nowMs).1) q
    (RlcTx.tick q (s.bearer q).tx nowMs).2 q
  rw [BearerSet.withTx_queue] at hlength
  rw [BearerSet.withTx_rx] at hrx
  unfold BearerSet.serviceBearer
  dsimp only
  generalize BearerSet.enqueueData UeNode.enqueueAppPdu
    (s.withTx q (RlcTx.tick q (s.bearer q).tx nowMs).1) q
    (RlcTx.tick q (s.bearer q).tx nowMs).2 = probed at hprobed hlength hrx ⊢
  have hstatus : Extends (probed.withRx q (RlcRx.tick q (probed.bearer q).rx nowMs).1) _ :=
    enqueueStatus_extends (q := q) (RlcRx.tick q (probed.bearer q).rx nowMs).2.status (by
      rw [BearerSet.withRx_queue, hrx]
      omega)
  intro q'
  have hbefore := hprobed q'
  have hafter := hstatus q'
  rw [BearerSet.withTx_queue] at hbefore
  rw [BearerSet.withRx_queue] at hafter
  exact hbefore.trans hafter

theorem Parks.extends (h : Parks u u') : Extends u.bearers u'.bearers := by
  intro q
  rw [h.bearers]

/-- Empty queues are extended by anything. -/
theorem extends_of_empty (h : ∀ q, queueOf u q = []) (s : BearerSet) : Extends u.bearers s := by
  intro q
  rw [show (u.bearers.bearer q).queue = [] from h q]
  exact List.nil_prefix

theorem handleSdu_parks (digest : KeyedDigest) (hzero : u.crntiCache = 0) {rnti : Nat} {s : UInt8 × Bytes}
    (kept : SduKept rnti u s) : Parks u (UeNode.handleSdu digest rnti u s) := by
  unfold UeNode.handleSdu
  split
  · exact handleSysinfoSdu_parks digest u _ _ _
  · rename_i hother
    obtain ⟨hmib, hsib1, hpaging⟩ : s.1 ≠ lcidMib ∧ s.1 ≠ lcidSib1 ∧ s.1 ≠ lcidPaging := by
      simpa [not_or] using hother
    split
    · rename_i hdedicated
      exact absurd hzero (kept hmib hsib1 hpaging hdedicated.1 hdedicated.2).1
    · exact .refl u

theorem air_extends (hzero : u.crntiCache = 0) {f : AirFrame} (kept : u.SdusMeet digest SduKept f)
    (hair : u.handleAirFrame digest f = .ok u') : Extends u.bearers u'.bearers := by
  -- a UE that is handed data keeps its state; MSG4 assigns the C-RNTI and is followed by none
  have hparked : u'.bearers = u.bearers ∧ (f.type = .data → u'.crntiCache = 0) := by
    refine UeNode.handleAirFrame_invariant
      (fun v => v.bearers = u.bearers ∧ (f.type = .data → v.crntiCache = 0)) ?_ ?_ ?_ ?_
      ⟨rfl, fun _ => hzero⟩ kept hair
    · intro raRnti _
      have hrach := runRach_parks u (u.rach.onRarReceived raRnti u.pendingCcch)
      exact ⟨hrach.bearers, fun _ => hrach.crnti hzero⟩
    · intro payload htype _
      refine ⟨?_, fun hdata => absurd (htype.symm.trans hdata) (by decide)⟩
      unfold UeNode.handleContentionResolve
      dsimp only
      split
      · exact (runRach_parks u _).bearers
      · exact (runRach_parks u _).bearers
    · intro r hreceive
      have hreceived := receiveData_parks hreceive
      exact ⟨hreceived.bearers, fun _ => hreceived.crnti hzero⟩
    · intro v s hdata hv hkept
      have hsdu := handleSdu_parks digest (hv.2 hdata) hkept
      exact ⟨hsdu.bearers.trans hv.1, fun _ => hsdu.crnti (hv.2 hdata)⟩
  intro q
  rw [hparked.1]

/-- While the UE has no C-RNTI a timer takes nothing out of the queues. -/
theorem onTimer_extends (hzero : u.crntiCache = 0) {t : UeTimer} (kept : TimerKept u t) :
    Extends u.bearers (u.onTimer digest t).bearers := by
  cases t with
  | rachWindow =>
    apply Parks.extends
    unfold UeNode.onTimer
    dsimp only
    split
    · exact ⟨rfl, id⟩
    · exact runRach_parks u _
    · exact .refl u
  | backoff => exact (runRach_parks u _).extends
  | attachRetry =>
    apply Parks.extends
    unfold UeNode.onTimer
    dsimp only
    split
    · exact .refl u
    · apply Parks.maybeStartAttach
      exact ⟨rfl, fun _ => rfl⟩
  | attachGuard =>
    unfold UeNode.onTimer
    dsimp only
    split
    · exact (Parks.refl u).extends
    · rename_i hnot
      exact extends_of_empty (kept (Bool.eq_false_of_not_eq_true hnot) hzero) _
  | resumeGuard =>
    apply Parks.extends
    unfold UeNode.onTimer
    dsimp only
    split
    · exact .refl u
    · split
      · exact ⟨rfl, id⟩
      · apply Parks.maybeStartAttach
        have hstopped : Parks u { u with resumeGuardRunning := false } := ⟨rfl, id⟩
        exact hstopped.rachForceIdle.same rfl rfl
  | reestGuard =>
    apply Parks.extends
    unfold UeNode.onTimer
    dsimp only
    split
    · exact reestablishFailed_parks digest u
    · exact .refl u
  | measurement =>
    apply Parks.extends
    unfold UeNode.onTimer UeNode.sendMeasurementReport
    dsimp only
    split
    · exact uplinkSend_parks digest u _ _
    · exact .refl u

theorem sendAppData_extends {payload : Bytes}
    (hroom : u.registered = true → (queueOf u .bestEffort).length +
      (RlcTx.send .bestEffort (u.bearers.bearer .bestEffort).tx u.nowMs
        (putU32 (u.appTxSeq + 1).toNat ++ payload) false).2.length ≤ 64) :
    Extends u.bearers (u.sendAppData payload).bearers := by
  unfold UeNode.sendAppData
  split
  · exact (Parks.refl u).extends
  · rename_i hreg
    have hawake := (Parks.refl u).maybeWakeForActivity.kept
    have hroom' := hroom (by simpa using hreg)
    simp only [waiting, Prod.mk.injEq] at hawake
    obtain ⟨hbearers, hclock, hseq⟩ := hawake
    unfold UeNode.sendSdu
    dsimp only
    rw [hbearers, hclock, hseq]
    exact sendSdu_extends hroom'

/-- Without a C-RNTI no step takes anything from a queue or puts anything before it. -/
theorem step_extends {e : UeEvent} (h : Linked (link u)) (hzero : u.crntiCache = 0)
    (kept : UplinkKept digest u e) (hstep : u.step digest e = some u') :
    Extends u.bearers u'.bearers := by
  cases e with
  | attach =>
    obtain rfl := Option.some.inj hstep
    apply Parks.extends
    apply Parks.maybeStartAttach
    exact ⟨rfl, id⟩
  | detach =>
    obtain rfl := Option.some.inj hstep
    unfold UeNode.detach
    split
    · exact (Parks.refl u).extends
    · rename_i hreg
      split
      · apply Parks.extends
        apply Parks.wake
        exact ⟨rfl, id⟩
      · rename_i hactive
        exact absurd hzero (kept (by simpa using hreg) (by simpa using hactive))
  | sleep =>
    obtain rfl := Option.some.inj hstep
    apply Parks.extends
    unfold UeNode.sleep
    split
    · exact .refl u
    · exact (Parks.refl u).rrcSends digest _
  | wake =>
    obtain rfl := Option.some.inj hstep
    exact (Parks.refl u).wake.extends
  | sendAppData payload =>
    obtain rfl := Option.some.inj hstep
    exact sendAppData_extends fun hreg => kept hreg hzero
  | wakeForActivity =>
    obtain rfl := Option.some.inj hstep
    exact (Parks.refl u).maybeWakeForActivity.extends
  | sendSdu q sdu force =>
    obtain rfl := Option.some.inj hstep
    exact sendSdu_extends (kept hzero)
  | reportCqi cqi =>
    obtain rfl := Option.some.inj hstep
    unfold UeNode.reportCqi
    split
    · exact fun q => List.prefix_rfl
    · exact (Parks.refl u).extends
  | air f => exact air_extends hzero kept (UeNode.handleAirFrame_of_step hstep)
  | clock nowMs =>
    obtain rfl := Option.some.inj hstep
    exact fun q => List.prefix_rfl
  | fire t =>
    obtain rfl := Option.some.inj hstep
    unfold UeNode.fire
    split
    · exact (Parks.refl u).extends
    · rename_i hpending
      have hkept := kept (not_not.mp hpending)
      split
      · exact onTimer_extends hzero hkept
      · refine onTimer_extends (u := u.cancel t) hzero ?_
        cases t <;> exact hkept
  | pumpHarq =>
    obtain rfl := Option.some.inj hstep
    exact (pumpHarq_parks u).extends
  | serviceBearer q =>
    obtain rfl := Option.some.inj hstep
    exact serviceBearer_extends (kept hzero)
  | pump =>
    obtain rfl := Option.some.inj hstep
    cases hactive : u.rrc.inactive with
    | true =>
      unfold UeNode.pumpAppBearers
      rw [if_pos hactive]
      exact (Parks.refl u).extends
    | false => exact extends_of_empty (kept hactive hzero) _
  | watchdog =>
    obtain rfl := Option.some.inj hstep
    unfold UeNode.watchdog
    split
    · rename_i hlost
      exact absurd hzero (h.connected hlost.2.2.1)
    · exact (Parks.refl u).extends

end Queues

/-! ## The pump with a C-RNTI -/

/-- A frame that carries a queued PDU on this C-RNTI. -/
def CarriedBy (digest : KeyedDigest) (crnti : Nat) (p : AppPdu) (f : AirFrame) : Prop :=
  f.type = .data ∧ f.rnti = crnti ∧ ∃ sealed proc ndi, Sealed digest p.bytes sealed ∧
    f.payload = linkEncode (buildPdu [(p.lcid, sealed)]) proc ndi

/-- The PDUs that were taken from the queue of a bearer, in the order they were taken; those
without a bearer are control PDUs. -/
def takenFrom (q : Qci) (taken : List (Option Qci × AppPdu)) : List AppPdu :=
  (taken.filter fun t => t.1 = some q).map Prod.snd

/-- The queues lost their heads to frames on this C-RNTI, in the order of each queue. -/
structure SentOn (digest : KeyedDigest) (u u' : UeNode) : Prop where
  sent : ∃ taken frames, u'.air = u.air ++ frames ∧
    List.Forall₂ (fun t f => CarriedBy digest u.crntiCache t.2 f) taken frames ∧
    ∀ q, queueOf u q = takenFrom q taken ++ queueOf u' q
  done : (∀ q, queueOf u' q = []) ∨ u'.harqTx.cfg.numProcesses.toNat ≤ u'.harqTx.inFlight

section Pump

variable {digest : KeyedDigest} {s s' : BearerSet} {p : AppPdu}

theorem queued_setBearer (s : BearerSet) {q : Qci} {p : AppPdu} {rest : List AppPdu}
    (hqueue : (s.bearer q).queue = p :: rest) :
    UeNode.queued s = UeNode.queued (s.setBearer q { s.bearer q with queue := rest }) + 1 := by
  cases q <;> simp [UeNode.queued, BearerSet.setBearer, hqueue] <;> omega

/-- A pop takes the head of one queue. -/
theorem popNext_takes (h : s.popNext = some (p, s')) :
    UeNode.queued s = UeNode.queued s' + 1 ∧
      ∃ source, ∀ q, (s.bearer q).queue = takenFrom q [(source, p)] ++ (s'.bearer q).queue := by
  unfold BearerSet.popNext at h
  split at h
  · rename_i rest hctrl
    simp only [Option.some.injEq, Prod.mk.injEq] at h
    obtain ⟨rfl, rfl⟩ := h
    refine ⟨?_, none, fun q => by simp [takenFrom]⟩
    simp only [UeNode.queued, hctrl, List.length_cons]
    omega
  · split at h
    · cases h
    · rename_i q since _
      split at h
      · cases h
      · rename_i head rest hqueue
        simp only [Option.some.injEq, Prod.mk.injEq] at h
        obtain ⟨rfl, rfl⟩ := h
        refine ⟨queued_setBearer s hqueue, some q, fun q' => ?_⟩
        by_cases hq : q' = q
        · subst hq
          simp [takenFrom, hqueue]
        · simp [takenFrom, BearerSet.setBearer_of_ne s _ hq, Ne.symm hq]

theorem empty_of_queued_zero (h : UeNode.queued s = 0) (q : Qci) : (s.bearer q).queue = [] := by
  unfold UeNode.queued at h
  simp only [List.map_cons, List.map_nil, List.sum_cons, List.sum_nil] at h
  apply List.eq_nil_of_length_eq_zero
  cases q <;> omega

/-- With a free process an SDU goes out in one frame. -/
theorem uplinkSend_accepted (digest : KeyedDigest) (u : UeNode) (hwhole : Whole u.harqTx)
    (hfree : u.harqTx.inFlight < u.harqTx.cfg.numProcesses.toNat) (p : AppPdu) :
    ∃ f, CarriedBy digest u.crntiCache p f ∧
      (u.uplinkSend digest p.lcid p.bytes).air = u.air ++ [f] := by
  obtain ⟨v, sealed, hsealed, hlink, hsend⟩ := uplinkSend_eq digest u p.lcid p.bytes
  have hharq : v.harqTx = u.harqTx := congrArg LinkState.harqTx hlink
  have hair : v.air = u.air := congrArg LinkState.air hlink
  have hcrnti : v.crntiCache = u.crntiCache := congrArg LinkState.crnti hlink
  obtain ⟨event, hevent⟩ := send_accepts hwhole hfree (buildPdu [(p.lcid, sealed)])
  obtain ⟨proc, ndi, hcoded⟩ := send_coded hevent
  refine ⟨⟨.data, u.crntiCache, event.coded⟩, ⟨rfl, rfl, sealed, proc, ndi, hsealed, hcoded⟩, ?_⟩
  rw [hsend]
  unfold UeNode.transmit
  dsimp only
  rw [hharq, hair, hcrnti, hevent]
  rfl

theorem uplinkSend_keeps (digest : KeyedDigest) (u : UeNode) (lcid : UInt8) (sdu : Bytes)
    (hwhole : Whole u.harqTx) :
    (u.uplinkSend digest lcid sdu).bearers = u.bearers ∧
      (u.uplinkSend digest lcid sdu).crntiCache = u.crntiCache ∧
      Whole (u.uplinkSend digest lcid sdu).harqTx := by
  unfold UeNode.uplinkSend
  split
  · exact ⟨rfl, rfl, send_whole hwhole _⟩
  · exact ⟨rfl, rfl, send_whole hwhole _⟩

/-- What was taken from a queue, one PDU at a time. -/
theorem takenFrom_cons (q : Qci) (t : Option Qci × AppPdu) (taken : List (Option Qci × AppPdu)) :
    takenFrom q (t :: taken) = takenFrom q [t] ++ takenFrom q taken := by
  unfold takenFrom
  rw [← List.map_append, ← List.filter_append]
  rfl

/-- The pump sends the oldest first, until queues or processes are exhausted. -/
theorem pumpLoop_drains (fuel : Nat) {u : UeNode} (hwhole : Whole u.harqTx)
    (hfuel : UeNode.queued u.bearers ≤ fuel) : SentOn digest u (UeNode.pumpLoop digest fuel u) := by
  induction fuel generalizing u with
  | zero =>
    refine ⟨⟨[], [], (List.append_nil _).symm, .nil, fun q => rfl⟩, .inl fun q => ?_⟩
    exact empty_of_queued_zero (Nat.le_zero.mp hfuel) q
  | succ fuel ih =>
    unfold UeNode.pumpLoop
    split
    · rename_i hfree
      split
      · rename_i hpop
        exact ⟨⟨[], [], (List.append_nil _).symm, .nil, fun q => rfl⟩, .inl (BearerSet.popNext_none hpop)⟩
      · rename_i p bearers hpop
        obtain ⟨hcount, source, htaken⟩ := popNext_takes hpop
        obtain ⟨f, hcarried, hair⟩ :=
          uplinkSend_accepted digest { u with bearers := bearers } hwhole hfree p
        obtain ⟨hbearers, hcrnti, hwhole'⟩ :=
          uplinkSend_keeps digest { u with bearers := bearers } p.lcid p.bytes hwhole
        generalize UeNode.uplinkSend digest { u with bearers := bearers } p.lcid p.bytes = v
          at hair hbearers hcrnti hwhole' ⊢
        dsimp only at hbearers hcrnti hcarried hair
        have hrest : SentOn digest v (UeNode.pumpLoop digest fuel v) := by
          apply ih hwhole'
          rw [hbearers]
          omega
        refine ⟨?_, hrest.done⟩
        obtain ⟨taken, frames, hframes, hall, hqueues⟩ := hrest.sent
        refine ⟨(source, p) :: taken, f :: frames, ?_, .cons hcarried ?_, fun q => ?_⟩
        · rw [hframes, hair]
          exact List.append_assoc _ _ _
        · rw [hcrnti] at hall
          exact hall
        · have hq := hqueues q
          rw [queueOf, hbearers] at hq
          rw [queueOf, htaken q, hq, takenFrom_cons q (source, p) taken, List.append_assoc]
    · rename_i hfull
      exact ⟨⟨[], [], (List.append_nil _).symm, .nil, fun q => rfl⟩, .inr (not_lt.mp hfull)⟩

/-- What a queue has lost is on the air. -/
theorem SentOn.exists_frame {u u' : UeNode} (h : SentOn digest u u') {q : Qci}
    (hmem : p ∈ queueOf u q) (hempty : queueOf u' q = []) :
    ∃ f ∈ u'.air, CarriedBy digest u.crntiCache p f := by
  obtain ⟨taken, frames, hair, hall, hqueues⟩ := h.sent
  have htaken : p ∈ takenFrom q taken := by
    rw [hqueues q, hempty, List.append_nil] at hmem
    exact hmem
  obtain ⟨t, ht, rfl⟩ := List.mem_map.mp htaken
  obtain ⟨i, hi, rfl⟩ := List.mem_iff_getElem.mp (List.mem_of_mem_filter ht)
  refine ⟨frames.get ⟨i, hall.length_eq ▸ hi⟩, ?_, hall.get hi (hall.length_eq ▸ hi)⟩
  rw [hair]
  exact List.mem_append_right _ (List.get_mem _ _)

end Pump

/-! ## Runs -/

/-- The invariant of the frames, along a run. -/
theorem linked_run {digest : KeyedDigest} {config : UeNodeConfig} {events : List UeEvent} {u : UeNode}
    (run : runFrom (UeNode.step digest) (UeNode.make config) events = some u)
    (kept : StepsMeet (UeNode.step digest) (UplinkKept digest) (UeNode.make config) events) :
    Linked (link u) :=
  runFrom_invariant_of_meets (fun u => Linked (link u)) (fun _ _ _ => step_linked)
    (linked_make config) kept run

/-- A stretch of steps without a C-RNTI keeps every queue as the head of what it becomes. -/
theorem extends_run {digest : KeyedDigest} {events : List UeEvent} {u u' : UeNode}
    (h : Linked (link u)) (run : runFrom (UeNode.step digest) u events = some u')
    (kept : StepsMeet (UeNode.step digest)
      (fun u e => u.crntiCache = 0 ∧ UplinkKept digest u e) u events) :
    Extends u.bearers u'.bearers := by
  have hrun : Linked (link u') ∧ Extends u.bearers u'.bearers :=
    runFrom_invariant_of_meets (fun v => Linked (link v) ∧ Extends u.bearers v.bearers)
      (fun v e v' hv hkept hstep => ⟨step_linked hv.1 hkept.2 hstep,
        fun q => (hv.2 q).trans (step_extends hv.1 hkept.1 hkept.2 hstep q)⟩)
      ⟨h, fun q => List.prefix_rfl⟩ kept run
  exact hrun.2

/-- Every run of a UE whose steps meet the condition: frames with user data have a C-RNTI; what
is queued without a C-RNTI stays at the head of its queue for as long as there is none; and a
pump with a C-RNTI sends the queues on it, in order, until they are empty or HARQ is full. -/
theorem uplink_waits_for_crnti (digest : KeyedDigest) (config : UeNodeConfig)
    {events : List UeEvent} {u : UeNode}
    (run : runFrom (UeNode.step digest) (UeNode.make config) events = some u)
    (kept : StepsMeet (UeNode.step digest) (UplinkKept digest) (UeNode.make config) events) :
    (∀ f ∈ u.air, f.type = .data → CarriesUser f.payload → f.rnti ≠ 0) ∧
      (∀ later u', StepsMeet (UeNode.step digest)
          (fun u e => u.crntiCache = 0 ∧ UplinkKept digest u e) u later →
        runFrom (UeNode.step digest) u later = some u' → ∀ q, queueOf u q <+: queueOf u' q) ∧
      (u.crntiCache ≠ 0 → u.rrc.inactive = false → SentOn digest u (u.pumpAppBearers digest)) := by
  have hlinked := linked_run run kept
  refine ⟨hlinked.frames, fun later u' hlater hrun => extends_run hlinked hrun hlater, ?_⟩
  intro _ hactive
  unfold UeNode.pumpAppBearers
  rw [if_neg (by simp [hactive])]
  exact pumpLoop_drains _ hlinked.whole le_rfl

open UeRun in
/-- A suspended UE takes a ping: the ping waits, and no frame with user data is without a
C-RNTI. -/
theorem uplink_waits_for_crnti_ping :
    ∃ u, runFrom (UeNode.step nullDigest) (UeNode.make subscriber)
        (attachRun ++ [rrcDownlink 1 .release [1, 0, 1, 7, 0, 1, 0], .sendAppData [9]]) = some u ∧
      (u.crntiCache = 0 ∧ queueOf u .bestEffort ≠ []) ∧
      ∀ f ∈ u.air, f.type = .data → CarriesUser f.payload → f.rnti ≠ 0 := by
  have hrun : ∃ u ∈ runFrom (UeNode.step nullDigest) (UeNode.make subscriber)
      (attachRun ++ [rrcDownlink 1 .release [1, 0, 1, 7, 0, 1, 0], .sendAppData [9]]),
      u.crntiCache = 0 ∧ queueOf u .bestEffort ≠ [] := by
    decide
  obtain ⟨u, hu, hparked⟩ := hrun
  have hkept : StepsMeet (UeNode.step nullDigest) (UplinkKept nullDigest) (UeNode.make subscriber)
      (attachRun ++ [rrcDownlink 1 .release [1, 0, 1, 7, 0, 1, 0], .sendAppData [9]]) := by
    decide
  exact ⟨u, hu, hparked, (uplink_waits_for_crnti nullDigest subscriber hu hkept).1⟩

open UeRun in
/-- The same ping, and a tick before the resume is through: it goes out with RNTI 0. -/
theorem uplink_ping_without_crnti :
    ∃ u, runFrom (UeNode.step nullDigest) (UeNode.make subscriber)
        (attachRun ++
          [rrcDownlink 1 .release [1, 0, 1, 7, 0, 1, 0], .sendAppData [9], .pump]) = some u ∧
      ∃ f ∈ u.air, f.type = .data ∧ CarriesUser f.payload ∧ f.rnti = 0 := by
  -- the ping waits in its queue, and the pump does not look at the C-RNTI
  have hrun : ∃ u ∈ runFrom (UeNode.step nullDigest) (UeNode.make subscriber)
      (attachRun ++ [rrcDownlink 1 .release [1, 0, 1, 7, 0, 1, 0], .sendAppData [9]]),
      u.crntiCache = 0 ∧ u.rrc.inactive = false ∧
        (∃ p ∈ queueOf u .bestEffort, userLcid p.lcid = true) ∧
        queueOf (u.pumpAppBearers nullDigest) .bestEffort = [] := by
    decide
  obtain ⟨u, hu, hcrnti, hactive, ⟨p, hp, huser⟩, hempty⟩ := hrun
  have hkept : StepsMeet (UeNode.step nullDigest) (UplinkKept nullDigest) (UeNode.make subscriber)
      (attachRun ++ [rrcDownlink 1 .release [1, 0, 1, 7, 0, 1, 0], .sendAppData [9]]) := by
    decide
  have hsent : SentOn nullDigest u (u.pumpAppBearers nullDigest) := by
    unfold UeNode.pumpAppBearers
    rw [if_neg (by simp [hactive])]
    exact pumpLoop_drains _ (linked_run hu hkept).whole le_rfl
  obtain ⟨f, hf, hdata, hrnti, sealed, proc, ndi, -, hpayload⟩ := hsent.exists_frame hp hempty
  refine ⟨u.pumpAppBearers nullDigest, ?_, f, hf, hdata,
    ⟨p.lcid, sealed, proc, ndi, huser, hpayload⟩, hrnti.trans hcrnti⟩
  rw [List.append_cons _ (rrcDownlink 1 .release [1, 0, 1, 7, 0, 1, 0]), List.append_cons,
    runFrom_append_eq_some]
  refine ⟨u, ?_, rfl⟩
  rw [List.append_assoc]
  exact hu

end AetherStack.Guarantees
