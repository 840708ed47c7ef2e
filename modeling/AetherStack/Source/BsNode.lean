import AetherStack.Source.UserPlane

/-!
# `BsNode`: the downlink flow of a UE

Source: stack/core/src/bs_node.cpp:327-406, 532-793 and 1365-1387 and the `DlFlow` of
include/core/bs_node.h. The functions below are those of one flow; the flow table is part of the
system model. As at the UE, HARQ, link adaptation, the core-network links and the applications are
left out: an SDU for a bearer arrives from the echo, the forwarding or the UPF path alike. The flow
of the whole node extends this one and calls its functions.
-/
namespace AetherStack.Source

structure DlFlow where
  bearers : BearerSet := BearerSet.make
  upKey : Key256 := Vector.replicate 32 0
  secOn : Bool := false
  dlSeq : UInt64 := 0
  suspended : Bool := false

namespace DlFlow

/-- `downlink_send`: a data channel queues at its bearer, the rest at the control queue. The
security decision is taken here. -/
def queuePdu (limit : Nat) (secOn : Bool) (s : BearerSet) (lcid : UInt8) (sdu : Bytes) : BearerSet :=
  let p : AppPdu := { lcid := lcid, cipher := secOn && cipheredLcid lcid, bytes := sdu }
  match qciOfLcid lcid with
  | some q => s.withQueue q (BearerSet.pushBounded limit (s.bearer q).queue p)
  | none => { s with ctrl := BearerSet.pushBounded limit s.ctrl p }

def downlinkSend (limit : Nat) (f : DlFlow) (lcid : UInt8) (sdu : Bytes) : DlFlow :=
  { f with bearers := queuePdu limit f.secOn f.bearers lcid sdu }

/-- `downlink_send` as the bearer services of the flow call it. -/
def enqueue (limit : Nat) (f : DlFlow) : BearerSet.Enqueue := fun s _ lcid sdu =>
  queuePdu limit f.secOn s lcid sdu

/-- An SDU for the UE, from the echo, the forwarding or the UPF. -/
def sendSdu (limit : Nat) (f : DlFlow) (nowMs : UInt32) (q : Qci) (sdu : Bytes) :
    DlFlow × List Bytes :=
  let sent := f.bearers.sendSdu (f.enqueue limit) nowMs q sdu false
  ({ f with bearers := sent.1 }, sent.2)

/-- `SESSION_KEY`, and the second half of the NAS send callback. -/
def armSecurity (f : DlFlow) (key : Key256) : DlFlow := { f with upKey := key, secOn := true }

/-- The NAS send callback: the message is queued first, security comes on behind it. -/
def sendNas (limit : Nat) (f : DlFlow) (nasPdu : Bytes) (newKey : Option Key256) : DlFlow :=
  let f := f.downlinkSend limit Mac.lcidNasDcch (Pdcp.tx nasPdu)
  match newKey with
  | none => f
  | some key => f.armSecurity key

/-- The flow's turn in `pump_flows`. -/
def pumpFlow (limit : Nat) (f : DlFlow) (nowMs : UInt32) : DlFlow :=
  { f with bearers := f.bearers.serviceAll (f.enqueue limit) nowMs }

/-- One turn of the loop in `schedule_downlink`: a suspended flow drains its control queue
only, and ciphering happens at the drain. -/
def scheduleDownlink (hmac : Hmac) (f : DlFlow) (rnti : Nat) : Option (DlFlow × AirBlock) :=
  if f.suspended && f.bearers.ctrl.isEmpty then none
  else
    match f.bearers.popNext with
    | none => none
    | some (p, bearers) =>
      if p.cipher then
        some ({ f with bearers := bearers, dlSeq := f.dlSeq + 1 },
          { rnti := rnti, lcid := p.lcid, sdu := Pdcp.protect hmac f.upKey f.dlSeq p.bytes
            origin := p.bytes, sealed := some (f.upKey, f.dlSeq) })
      else
        some ({ f with bearers := bearers },
          { rnti := rnti, lcid := p.lcid, sdu := p.bytes, origin := p.bytes })

/-- The PDU a data block gives to the receiving entity. -/
def rxInput (hmac : Hmac) (f : DlFlow) (lcid : UInt8) (sdu : Bytes) : Option (Qci × Bytes) :=
  match qciOfLcid lcid with
  | none => none
  | some q => (openSdu hmac f.secOn f.upKey sdu).map fun pdu => (q, pdu)

/-- User-plane activity of a UE that was suspended un-parks its flow. -/
def noteActivity (f : DlFlow) (lcid : UInt8) : DlFlow :=
  if cipheredLcid lcid then { f with suspended := false } else f

/-- `handle_dl_data` for the data and STATUS channels. -/
def handleData (hmac : Hmac) (limit : Nat) (f : DlFlow) (nowMs : UInt32) (lcid : UInt8)
    (sdu : Bytes) : DlFlow :=
  let f := f.noteActivity lcid
  match f.rxInput hmac lcid sdu with
  | some (q, pdu) => { f with bearers := f.bearers.receivePdu (f.enqueue limit) nowMs q pdu }
  | none =>
    match qciOfStatusLcid lcid with
    | some q => { f with bearers := f.bearers.receiveStatus (f.enqueue limit) nowMs q sdu }
    | none => f

/-- Suspension parks the data path and keeps it. -/
def suspend (f : DlFlow) : DlFlow := { f with suspended := true }

/-- The re-establishment callback: the flow goes on under a new C-RNTI, un-parked. -/
def migrate (f : DlFlow) : DlFlow := { f with suspended := false }

/-- `prepare_handover`: the flow of the new C-RNTI takes over the source's security. -/
def adoptSecurity (f source : DlFlow) : DlFlow :=
  { f with upKey := source.upKey, secOn := source.secOn }

/-! ### Operations that take no SDU -/

inductive Operation where
  | sendNas (nasPdu : Bytes) (newKey : Option Key256)
  | sendCcch (rrcPdu : Bytes)
  | armSecurity (key : Key256)
  | pump
  | suspend

def operate (limit : Nat) (f : DlFlow) (nowMs : UInt32) : Operation → DlFlow
  | .sendNas nasPdu newKey => f.sendNas limit nasPdu newKey
  | .sendCcch rrcPdu => f.downlinkSend limit Mac.lcidCcch rrcPdu
  | .armSecurity key => f.armSecurity key
  | .pump => f.pumpFlow limit nowMs
  | .suspend => f.suspend

/-! ### What the user plane does to a flow -/

/-- One turn of the downlink scheduler sends one PDU of the queues, and spends a counter value when
it ciphers it. -/
theorem scheduleDownlink_cases {hmac : Hmac} {f f' : DlFlow} {rnti : Nat} {b : AirBlock}
    (h : f.scheduleDownlink hmac rnti = some (f', b)) :
    ∃ p, f.bearers.popNext = some (p, f'.bearers) ∧
      (b.rnti = rnti ∧ b.lcid = p.lcid ∧ b.origin = p.bytes ∧ b.Genuine hmac) ∧
      ((p.cipher = true ∧ b.sealed = some (f.upKey, f.dlSeq) ∧ f'.dlSeq = f.dlSeq + 1) ∨
        (b.sealed = none ∧ f'.dlSeq = f.dlSeq)) := by
  unfold scheduleDownlink at h
  split at h
  · cases h
  · split at h
    · cases h
    · rename_i p bearers hpop
      split at h
      · rename_i hcipher
        obtain ⟨rfl, rfl⟩ := Prod.mk.inj (Option.some.inj h)
        exact ⟨p, hpop, ⟨rfl, rfl, rfl, rfl⟩, .inl ⟨hcipher, rfl, rfl⟩⟩
      · obtain ⟨rfl, rfl⟩ := Prod.mk.inj (Option.some.inj h)
        exact ⟨p, hpop, ⟨rfl, rfl, rfl, rfl⟩, .inr ⟨rfl, rfl⟩⟩

theorem noteActivity_bearers (f : DlFlow) (lcid : UInt8) :
    (f.noteActivity lcid).bearers = f.bearers ∧ (f.noteActivity lcid).dlSeq = f.dlSeq := by
  unfold noteActivity
  split <;> exact ⟨rfl, rfl⟩

theorem noteActivity_rxInput (hmac : Hmac) (f : DlFlow) (lcid lcid' : UInt8) (sdu : Bytes) :
    (f.noteActivity lcid).rxInput hmac lcid' sdu = f.rxInput hmac lcid' sdu := by
  unfold noteActivity
  split <;> rfl

/-- Uplink data goes into at most one RLC entity, and never moves the downlink counter. -/
theorem handleData_cases (hmac : Hmac) (limit : Nat) (f : DlFlow) (nowMs : UInt32) (lcid : UInt8)
    (sdu : Bytes) :
    (f.handleData hmac limit nowMs lcid sdu).dlSeq = f.dlSeq ∧
    ((∃ q pdu, f.rxInput hmac lcid sdu = some (q, pdu) ∧
      (f.handleData hmac limit nowMs lcid sdu).bearers =
        f.bearers.receivePdu ((f.noteActivity lcid).enqueue limit) nowMs q pdu) ∨
    (∃ q, (f.handleData hmac limit nowMs lcid sdu).bearers =
      f.bearers.receiveStatus ((f.noteActivity lcid).enqueue limit) nowMs q sdu) ∨
    (f.handleData hmac limit nowMs lcid sdu).bearers = f.bearers) := by
  obtain ⟨hbearers, hseq⟩ := f.noteActivity_bearers lcid
  unfold handleData
  dsimp only
  rw [noteActivity_rxInput, hbearers]
  cases f.rxInput hmac lcid sdu with
  | some input => exact ⟨hseq, .inl ⟨input.1, input.2, rfl, rfl⟩⟩
  | none =>
    cases qciOfStatusLcid lcid with
    | some q => exact ⟨hseq, .inr (.inl ⟨q, rfl⟩)⟩
    | none => exact ⟨hseq, .inr (.inr hbearers)⟩

/-! ### How a flow queues -/

theorem queuePdu_entities (limit : Nat) (secOn : Bool) (s : BearerSet) (lcid : UInt8)
    (sdu : Bytes) (q : Qci) :
    ((queuePdu limit secOn s lcid sdu).bearer q).tx = (s.bearer q).tx ∧
      ((queuePdu limit secOn s lcid sdu).bearer q).rx = (s.bearer q).rx := by
  unfold queuePdu
  dsimp only
  split
  · exact ⟨BearerSet.withQueue_tx _ q, BearerSet.withQueue_rx _ q⟩
  · exact ⟨rfl, rfl⟩

/-- What enters a queue is an RLC PDU that `P` allows. -/
theorem queuePdu_carries {P : Qci → Bytes → Prop} {s : BearerSet} (h : s.Carries P) (limit : Nat)
    (secOn : Bool) {lcid : UInt8} {sdu : Bytes}
    (hlegit : ∀ q, qciOfLcid lcid = some q → ∃ pdu, sdu = Pdcp.tx pdu ∧ P q pdu) :
    (queuePdu limit secOn s lcid sdu).Carries P := by
  unfold queuePdu
  dsimp only
  split
  · rename_i q hq
    apply h.withQueue
    intro p hp
    rcases BearerSet.mem_pushBounded hp with hold | rfl
    · exact .inl (.inr ⟨q, hold⟩)
    · exact .inr hlegit
  · rename_i hnone
    refine ⟨fun p hp => ?_, fun p hp => ?_, h.held⟩
    · rcases BearerSet.mem_pushBounded hp with hold | rfl
      · exact h.ctrl p hold
      · exact hnone
    · rcases hp with hctrl | hq
      · rcases BearerSet.mem_pushBounded hctrl with hold | rfl
        · exact h.queued p (.inl hold)
        · exact hlegit
      · exact h.queued p (.inr hq)

theorem enqueues (limit : Nat) (f : DlFlow) : BearerSet.Enqueues (f.enqueue limit) where
  entities := fun s _ lcid bytes q' => queuePdu_entities limit f.secOn s lcid bytes q'
  carries := fun _ _ _ _ _ h hlegit => queuePdu_carries h limit f.secOn hlegit

/-- A SDU on a control channel touches no RLC entity. -/
theorem downlinkSend_ctrl (limit : Nat) (f : DlFlow) {lcid : UInt8} (sdu : Bytes)
    (hnone : qciOfLcid lcid = none) (q : Qci) :
    ((f.downlinkSend limit lcid sdu).bearers.bearer q).tx = (f.bearers.bearer q).tx ∧
      ((f.downlinkSend limit lcid sdu).bearers.bearer q).rx = (f.bearers.bearer q).rx ∧
      ∀ P, f.bearers.Carries P → (f.downlinkSend limit lcid sdu).bearers.Carries P := by
  obtain ⟨htx, hrx⟩ := queuePdu_entities limit f.secOn f.bearers lcid sdu q
  refine ⟨htx, hrx, fun P h => queuePdu_carries h limit f.secOn fun q' hq' => ?_⟩
  rw [hnone] at hq'
  cases hq'

/-- None of them numbers a PDU or changes the downlink counter, what the flow may still send
stays the same, and a receiver sees its timer at most. -/
theorem operate_spec (limit : Nat) (f : DlFlow) (nowMs : UInt32) (op : Operation) :
    (f.operate limit nowMs op).dlSeq = f.dlSeq ∧
      (∀ P, f.bearers.Carries P → (f.operate limit nowMs op).bearers.Carries P) ∧
      ∀ q, RlcTx.nextSn q ((f.operate limit nowMs op).bearers.bearer q).tx =
          RlcTx.nextSn q (f.bearers.bearer q).tx ∧
        ∀ Q : RlcRx q → Prop, (∀ r, Q r → Q (RlcRx.tick q r nowMs).1) →
          Q (f.bearers.bearer q).rx → Q ((f.operate limit nowMs op).bearers.bearer q).rx := by
  cases op with
  | sendNas nasPdu newKey =>
    have hnone : qciOfLcid Mac.lcidNasDcch = none := rfl
    have hsend := f.downlinkSend_ctrl limit (Pdcp.tx nasPdu) hnone
    dsimp only [operate, sendNas]
    cases newKey <;>
      exact ⟨rfl, (hsend .sig).2.2, fun q => ⟨congrArg (RlcTx.nextSn q) (hsend q).1,
        fun Q _ hQ => by rw [← (hsend q).2.1] at hQ; exact hQ⟩⟩
  | sendCcch rrcPdu =>
    have hnone : qciOfLcid Mac.lcidCcch = none := rfl
    have hsend := f.downlinkSend_ctrl limit rrcPdu hnone
    exact ⟨rfl, (hsend .sig).2.2, fun q => ⟨congrArg (RlcTx.nextSn q) (hsend q).1,
      fun Q _ hQ => by rw [← (hsend q).2.1] at hQ; exact hQ⟩⟩
  | armSecurity key => exact ⟨rfl, fun P h => h, fun q => ⟨rfl, fun Q _ hQ => hQ⟩⟩
  | pump =>
    refine ⟨rfl, fun P h => (enqueues limit f).serviceAll_carries h nowMs, fun q => ⟨?_, ?_⟩⟩
    · exact ((enqueues limit f).serviceAll_entities _ nowMs q (fun _ => True) (by simp)).1
    · exact fun Q htick => ((enqueues limit f).serviceAll_entities _ nowMs q Q htick).2
  | suspend => exact ⟨rfl, fun P h => h, fun q => ⟨rfl, fun Q _ hQ => hQ⟩⟩

/-! ### What a flow may still send -/

variable {P P' : Qci → Bytes → Prop} {f f' : DlFlow}

/-- Sending a SDU adds the PDUs it was cut into, and no others. -/
theorem sendSdu_carries (h : f.bearers.Carries P) (hmono : ∀ q pdu, P q pdu → P' q pdu) (limit : Nat)
    (nowMs : UInt32) (q : Qci) (sdu : Bytes)
    (hnew : ∀ pdu ∈ (f.sendSdu limit nowMs q sdu).2, P' q pdu) :
    (f.sendSdu limit nowMs q sdu).1.bearers.Carries P' :=
  (enqueues limit f).sendSdu_carries h hmono nowMs q sdu false hnew

/-- Receiving produces retransmissions only, of PDUs the flow holds already. -/
theorem handleData_carries (h : f.bearers.Carries P) (hmac : Hmac) (limit : Nat) (nowMs : UInt32)
    (lcid : UInt8) (sdu : Bytes) : (f.handleData hmac limit nowMs lcid sdu).bearers.Carries P := by
  have henq := enqueues limit (f.noteActivity lcid)
  rcases (f.handleData_cases hmac limit nowMs lcid sdu).2 with ⟨q, pdu, -, heq⟩ | ⟨q, heq⟩ | heq
  · rw [heq]
    exact henq.receivePdu_carries h nowMs q pdu
  · rw [heq]
    exact henq.receiveStatus_carries h nowMs q sdu
  · rw [heq]
    exact h

/-- What the scheduler puts on the air was carried by the flow. -/
theorem scheduleDownlink_carries {hmac : Hmac} {rnti : Nat} {b : AirBlock} (h : f.bearers.Carries P)
    (hsched : f.scheduleDownlink hmac rnti = some (f', b)) :
    f'.bearers.Carries P ∧
      ∀ q, qciOfLcid b.lcid = some q → ∃ pdu, b.origin = Pdcp.tx pdu ∧ P q pdu := by
  obtain ⟨p, hpop, ⟨-, hlcid, horigin, -⟩, -⟩ := scheduleDownlink_cases hsched
  refine ⟨h.popNext hpop, fun q hq => ?_⟩
  rw [hlcid] at hq
  rw [horigin]
  exact h.queued p (BearerSet.popNext_spec hpop).1 q hq

end DlFlow

end AetherStack.Source
