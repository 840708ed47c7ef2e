import AetherStack.Lib.Run
import AetherStack.Source.BsCore

/-!
# `BsNode`: uplink, downlink scheduling and the steps of the node

Source: stack/core/src/bs_node.cpp:281-446 (tick, sweeps and scheduler) and 479-890 (frames,
logical channels). `handle_dl_data` is in two parts, what comes before its loop and one turn
of the loop, so that a step of the node can be a whole frame or one of its SDUs. A HARQ block
that makes the decoder throw has no step: the exception leaves the node.

The broadcast timer is an event of its own: a tick in which it is due, `tickDue`, is a broadcast
and a tick (`tickDue_eq`). The loops over the flows run over the flows that were there when they
began.
-/
namespace AetherStack.Source.Core
open Mac Rrc

namespace BsNode

section
variable (w : World)

def pdcpHmac : Hmac := fun key => w.digest key.toList

/-! ### Callbacks of RRC and NAS -/

/-- The re-establishment callback: flow and mapping follow the context. -/
def moveFlow (n : BsNode) (oldRnti newRnti : Nat) : BsNode :=
  match n.flows[oldRnti]? with
  | none => n
  | some f =>
    (n.eraseFlow oldRnti).putFlow newRnti { f with
      suspended := false
      harqTx := f.harqTx.reset
      harqRx := f.harqRx.reset
      lastActivityMs := n.nowMs }

def moveTmsi (n : BsNode) (oldRnti newRnti : Nat) : BsNode :=
  match n.tmsiToCrnti.firstMatch (w.order n .tmsiToCrnti) fun r => r = oldRnti with
  | none => n
  | some (tmsi, _) => { n with tmsiToCrnti := n.tmsiToCrnti.insert tmsi newRnti }

def parkFlow (n : BsNode) (rnti : Nat) : BsNode :=
  let f := n.flow rnti
  n.putFlow rnti { f with suspended := true, harqTx := f.harqTx.reset, harqRx := f.harqRx.reset }

def onRrcOutput (n : BsNode) : RrcBsOutput → BsNode
  | .send rnti pdu => n.downlinkSend rnti lcidCcch pdu
  | .reest oldRnti newRnti => (n.moveFlow oldRnti newRnti).moveTmsi w oldRnti newRnti
  | .suspended rnti => n.parkFlow rnti

/-- A call of the RRC entity with the callbacks it makes. -/
def runRrc (n : BsNode) (call : RrcBs × List RrcBsOutput) : BsNode :=
  call.2.foldl (onRrcOutput w) { n with rrc := call.1 }

/-- The send callback of the registrar: the message goes to the C-RNTI of the TMSI, else to
the one of the uplink frame, and security comes on behind it. -/
def onNasSend (rnti : Nat) (n : BsNode) (sent : Nat × Bytes) : BsNode :=
  let learnt := n.learnCrnti sent.1 rnti
  let n := learnt.1.downlinkSend learnt.2 lcidNasDcch (Pdcp.tx sent.2)
  match n.nas.sessionKeys[sent.1]? with
  | none => n
  | some key => n.armSecurity learnt.2 key

/-! ### Logical channels -/

/-- The best cell of a MEAS_REPORT [n:1]{[cell_id:2][strength:1]}, when the serving one is
not in it. -/
def measTarget (cellId : Nat) (value : Bytes) : Option Nat :=
  let entries := (List.range (value.getD 0 0).toNat).filter fun i => 3 + 3 * i < value.length
  let best := entries.foldl (fun (best : Bool × Nat × UInt8) i =>
    let cell := getU16 value (1 + 3 * i)
    let strength := value.getD (3 + 3 * i) 0
    if cell = cellId then (true, best.2)
    else if strength > best.2.2 then (best.1, cell, strength) else best) (false, 0, 0)
  if best.1 = true ∨ best.2.1 = 0 then none else some best.2.1

def onMeasReport (n : BsNode) (rnti : Nat) (value : Bytes) : BsNode :=
  if !n.config.autoHandover then n
  else
    match measTarget n.config.cellId value with
    | none => n
    | some targetCell => n.requestHandover w rnti targetCell

/-- HO_COMPLETE [new_crnti:2], at the source and at the target. -/
def onHoComplete (n : BsNode) (value : Bytes) : BsNode :=
  if value.length < 2 then n
  else
    let newCrnti := getU16 value 0
    let n := n.completeHo w newCrnti
    match n.hoPrepared[newCrnti]? with
    | none => n
    | some ctx =>
      if n.config.xn then n.record .xn ⟨.other 43, putU32 ctx.tmsi ++ putU16 newCrnti⟩ else n

def handleCcchSdu (n : BsNode) (rnti : Nat) (sdu : Bytes) : BsNode :=
  let msg := RrcMessage.decode sdu
  match msg.msgType with
  | .measReport => n.onMeasReport w rnti msg.value
  | .hoComplete => n.onHoComplete w msg.value
  | _ => n.runRrc w (n.rrc.handleMessage (w.order n .rrcContexts) rnti sdu)

/-- `cn_send_nas`: the first NAS of a UE without TMSI is an INITIAL_UE_MSG. -/
def cnSendNas (n : BsNode) (tmsi rnti : Nat) (nasPdu : Bytes) : BsNode :=
  if tmsi = 0 then n.send w .amf ⟨.initialUeMsg, putU16 rnti ++ nasPdu⟩
  else
    n.send w .amf ⟨.uplinkNas, putU32 tmsi ++ putU16 rnti ++ putU16 nasPdu.length ++ nasPdu⟩

/-- The clean-up after a DETACH: mappings, conferences of the TMSI's owner if NAS still has
it, and the flow. -/
def tearDown (n : BsNode) (rnti tmsi : Nat) : BsNode :=
  let n := { n with tmsiToCrnti := n.tmsiToCrnti.filter fun _ crnti => crnti ≠ rnti }
  let n := match n.nas.findUe tmsi with
    | none => n
    | some ctx => n.purgeConfMember ctx.imsi
  n.eraseFlow rnti

def handleNasPdu (n : BsNode) (rnti : Nat) (nasPdu : Bytes) : BsNode :=
  let detach := (NasMessage.decode nasPdu).msgType = .detach
  if n.coreSeparated then
    let tmsi := n.tmsiForCrnti w rnti
    let n := n.cnSendNas w tmsi rnti nasPdu
    if detach then n.tearDown rnti tmsi else n
  else
    let handled := n.nas.handleMessage w.digest (w.order n .pendingAuth) (w.rand n.nas) 0 nasPdu
    let n := handled.2.foldl (onNasSend rnti) { n with nas := handled.1 }
    if detach then n.tearDown rnti (n.tmsiForCrnti w rnti) else n

def handleNasSdu (n : BsNode) (rnti : Nat) (sdu : Bytes) : BsNode :=
  let n := n.touchFlow rnti
  match openSdu (pdcpHmac w) (n.flow rnti).secOn (n.flow rnti).upKey sdu with
  | none => n
  | some nasPdu => n.handleNasPdu w rnti nasPdu

/-- One SDU from an uplink bearer: to the UPF, to the conference, to the peer UE here or at
the other cell, or back. -/
def handleUlAppSdu (rnti : Nat) (n : BsNode) (data : Bytes) : BsNode :=
  if n.config.upf then
    n.send w .upf ⟨.other 32, putU32 (n.tmsiForCrnti w rnti) ++ putU16 rnti ++ data⟩
  else
    match decodeU2u data with
    | none => n.sendSdu rnti .bestEffort data
    | some pkt =>
      if pkt.confId ≠ 0 ∧ pkt.ack = false ∧ pkt.kind = .voice then n.bridgeConfMedia w rnti pkt
      else
        let n := if pkt.kind = .sig then n.snoopConfSig pkt else n
        match n.forwardU2uDl w pkt data rnti with
        | some n => n
        | none =>
          if n.config.xn then
            n.record .xn ⟨.other 42, UInt8.ofNat pkt.dstImsi.length :: (pkt.dstImsi ++ data)⟩
          else n.sendSdu rnti .bestEffort data

/-- What a receiving entity returned: its SDUs go up, then its STATUS is queued. -/
def onRlcOutcome (n : BsNode) (rnti : Nat) (q : Qci) (out : RlcOutcome) : BsNode :=
  let n := out.delivered.foldl (handleUlAppSdu w rnti) n
  match out.status with
  | none => n
  | some status => n.downlinkSend rnti (statusLcidOf q) status

def handleAppSdu (n : BsNode) (rnti : Nat) (q : Qci) (sdu : Bytes) : BsNode :=
  let n := n.touchFlow rnti
  match openSdu (pdcpHmac w) (n.flow rnti).secOn (n.flow rnti).upKey sdu with
  | none => n
  | some pdu =>
    let received := RlcRx.rx q ((n.flow rnti).bearers.bearer q).rx n.nowMs pdu
    (n.putBearers rnti ((n.flow rnti).bearers.withRx q received.1)).onRlcOutcome w rnti q received.2

def handleStatusSdu (n : BsNode) (rnti : Nat) (q : Qci) (sdu : Bytes) : BsNode :=
  let f := n.flow rnti
  n.putBearers rnti
    (f.bearers.receiveStatus (f.toDlFlow.enqueue n.config.maxDlQueuePerUe) n.nowMs q sdu)

def handleHarqAck (n : BsNode) (rnti : Nat) (sdu : Bytes) : BsNode :=
  if sdu.length < 2 then n
  else
    let proc := (sdu.getD 0 0 &&& 0x7F).toNat
    let f := n.flow rnti
    let harqTx := f.harqTx.advance n.nowMs
    if sdu.getD 1 0 ≠ 0 then n.putFlow rnti { f with harqTx := harqTx.onAck proc }
    else
      let nacked := harqTx.onNack proc
      let n := n.putFlow rnti { f with harqTx := nacked.1 }
      nacked.2.elim n fun e => n.sendFrame .data rnti e.coded

def handleCqiReport (n : BsNode) (rnti : Nat) (sdu : Bytes) : BsNode :=
  let cqi := (sdu.getD 0 0 &&& 0x1F).toNat
  n.putFlow rnti { n.flow rnti with cqi := cqi, mcs := if cqi ≥ 14 then 1 else 0 }

/-- NAS and data are user-plane activity; it brings a parked UE back. -/
def noteActivity (n : BsNode) (rnti : Nat) (lcid : UInt8) : BsNode :=
  if cipheredLcid lcid then
    let f := n.flow rnti
    let active := n.putFlow rnti { f with lastActivityMs := n.nowMs, suspended := false }
    if f.suspended then { active with rrc := n.rrc.reactivateContext rnti } else active
  else n

/-- One turn of the loop of `handle_dl_data`. -/
def handleSdu (rnti : Nat) (n : BsNode) (entry : UInt8 × Bytes) : BsNode :=
  let lcid := entry.1
  let sdu := entry.2
  if sdu = [] then n
  else
    let n := n.noteActivity rnti lcid
    if lcid = lcidCcch then n.handleCcchSdu w rnti sdu
    else if lcid = lcidNasDcch then n.handleNasSdu w rnti sdu
    else if lcid = lcidHarqAck then n.handleHarqAck rnti sdu
    else if lcid = lcidCqiReport then n.handleCqiReport rnti sdu
    else
      match qciOfLcid lcid with
      | some q => n.handleAppSdu w rnti q sdu
      | none =>
        match qciOfStatusLcid lcid with
        | some q => n.handleStatusSdu rnti q sdu
        | none => n

/-! ### Frames -/

def sendAck (n : BsNode) (rnti : Nat) (res : HarqResult) : BsNode :=
  if res.needFeedback = false ∨ rnti = 0 ∨ rnti = rntiBroadcast ∨ res.proc = 0x7F then n
  else
    let f := n.flow rnti
    (n.putFlow rnti { f with harqTx := f.harqTx.advance n.nowMs }).sendFrame .data rnti
      (buildPdu [(lcidHarqAck, [res.proc &&& 0x7F, if res.ack then 1 else 0])])

/-- The measured uplink of a burst feeds power control; -100 stands for no measurement. -/
def noteSnr (n : BsNode) (rnti : Nat) (snr : ℚ) : BsNode :=
  if snr > -90 then
    let f := n.flow rnti
    n.putFlow rnti { f with
      ulSnrEwma :=
        if f.ulSnrEwma < -90 then snr else f.ulSnrEwma + 3 / 10 * (snr - f.ulSnrEwma) }
  else n

/-- `handle_dl_data` up to its loop, with the SDUs the loop runs over. A HARQ block is taken
from a C-RNTI with a context only. -/
def receiveData (n : BsNode) (rnti : Nat) (payload : Bytes) (snr : ℚ) :
    Except Fec.DecodeError (BsNode × List (UInt8 × Bytes)) :=
  let n := n.noteSnr rnti snr
  if isHarqFramed payload then
    if (n.rrc.findUe rnti).isNone then .ok (n, [])
    else
      match (n.flow rnti).harqRx.receive payload with
      | .error e => .error e
      | .ok (harqRx, res) =>
        .ok ((n.putFlow rnti { n.flow rnti with harqRx := harqRx }).sendAck rnti res,
          if res.delivered then parsePdu res.macPdu else [])
  else .ok (n, parsePdu payload)

def handleDlData (n : BsNode) (rnti : Nat) (payload : Bytes) (snr : ℚ) :
    Except Fec.DecodeError BsNode :=
  match n.receiveData rnti payload snr with
  | .error e => .error e
  | .ok (n, sdus) => .ok (sdus.foldl (handleSdu w rnti) n)

def onRachOutput (n : BsNode) : RachBsOutput → BsNode
  | .msg2 pdu => n.sendFrame .msg2Rar 0 pdu
  | .msg4 pdu => n.sendFrame .msg4Cr 0 pdu
  | .ccch crnti payload =>
    n.runRrc w (n.rrc.handleMessage (w.order n .rrcContexts) crnti payload)

/-- A call of the RACH entity with the callbacks it makes. -/
def runRach (n : BsNode) (call : RachBs × List RachBsOutput) : BsNode :=
  call.2.foldl (onRachOutput w) { n with rach := call.1 }

def handleAirFrame (n : BsNode) (frame : AirFrame) (snr : ℚ) : Except Fec.DecodeError BsNode :=
  match frame.type with
  | .msg1Prach =>
    .ok (if frame.payload.length ≥ 2 then
      n.runRach w (n.rach.onPrachReceived (frame.payload.getD 1 0)) else n)
  | .msg3Ccch =>
    .ok (if frame.payload.length ≥ 4 then
      n.runRach w (n.rach.onMsg3Received (getU16 frame.payload 1) frame.payload) else n)
  | .data => n.handleDlData w frame.rnti frame.payload snr
  | .msg2Rar | .msg4Cr => .ok n

/-! ### Tick -/

def sweepTpcFlow (n : BsNode) (rnti : Nat) : BsNode :=
  match n.flows[rnti]? with
  | none => n
  | some f =>
    let err := 23 - f.ulSnrEwma
    if f.suspended ∨ f.ulSnrEwma < -90 ∨ n.nowMs - f.lastTpcMs < 500 ∨ (-2 ≤ err ∧ err ≤ 2) then n
    else
      (n.putFlow rnti { f with lastTpcMs := n.nowMs }).downlinkSend rnti lcidTpc
        [if err > 2 then 1 else 0xFF]

def sweepTpc (n : BsNode) : BsNode := (w.order n .flows).foldl sweepTpcFlow n

/-- The context of a parked UE that never came back goes; a quiet one is suspended. -/
def sweepInactiveFlow (n : BsNode) (rnti : Nat) : BsNode :=
  match n.flows[rnti]? with
  | none => n
  | some f =>
    let quietMs := n.nowMs - f.lastActivityMs
    if f.suspended ∧ quietMs > 5 * n.config.inactiveMs then
      let tmsi := n.tmsiForCrnti w rnti
      { n.eraseFlow rnti with
        rrc := n.rrc.releaseContext rnti
        tmsiToCrnti := if tmsi ≠ 0 then n.tmsiToCrnti.erase tmsi else n.tmsiToCrnti }
    else if f.suspended = false ∧ f.lastActivityMs ≠ 0 ∧ n.rrc.isUeConnected rnti ∧
        quietMs > n.config.inactiveMs then
      n.runRrc w (n.rrc.suspendContext rnti)
    else n

def sweepInactive (n : BsNode) : BsNode :=
  if n.config.inactiveMs = 0 then n else (w.order n .flows).foldl (sweepInactiveFlow w) n

/-- One bearer's turn in `pump_flows`: probe, then reordering timer. -/
def serviceBearer (rnti : Nat) (n : BsNode) (q : Qci) : BsNode :=
  let f := n.flow rnti
  let probed := RlcTx.tick q (f.bearers.bearer q).tx n.nowMs
  let n := n.putBearers rnti (BearerSet.enqueueData
    (f.toDlFlow.enqueue n.config.maxDlQueuePerUe) (f.bearers.withTx q probed.1) q probed.2)
  let f := n.flow rnti
  let ticked := RlcRx.tick q (f.bearers.bearer q).rx n.nowMs
  (n.putBearers rnti (f.bearers.withRx q ticked.1)).onRlcOutcome w rnti q ticked.2

def pumpFlow (n : BsNode) (rnti : Nat) : BsNode :=
  match n.flows[rnti]? with
  | none => n
  | some f =>
    let polled := f.harqTx.pollTimeouts n.nowMs
    let n := polled.2.foldl (fun n e => n.sendFrame .data rnti e.coded)
      (n.putFlow rnti { f with harqTx := polled.1 })
    [Qci.sig, .bestEffort, .voice, .video].foldl (serviceBearer w rnti) n

def queued (s : BearerSet) : Nat :=
  s.ctrl.length + ([Qci.sig, .voice, .video, .bestEffort].map fun q =>
    (s.bearer q).queue.length).sum

/-- The `while` loop over one flow in `schedule_downlink`; every turn takes a queued PDU. -/
def drainLoop (rnti : Nat) : Nat → BsNode → BsNode
  | 0, n => n
  | fuel + 1, n =>
    let f := n.flow rnti
    if f.harqTx.inFlight < f.harqTx.cfg.numProcesses.toNat ∧
        (f.suspended = false ∨ f.bearers.ctrl ≠ []) then
      match f.bearers.popNext with
      | none => n
      | some (p, bearers) =>
        let sdu := if p.cipher then Pdcp.protect (pdcpHmac w) f.upKey f.dlSeq p.bytes else p.bytes
        let sent := f.harqTx.send (buildPdu [(p.lcid, sdu)])
        let n := n.putFlow rnti { f with
          bearers := bearers, harqTx := sent.1, dlSeq := if p.cipher then f.dlSeq + 1 else f.dlSeq }
        match sent.2 with
        | none => n
        | some e => drainLoop rnti fuel (n.sendFrame .data rnti e.coded)
    else n

def drainFlow (n : BsNode) (rnti : Nat) : BsNode :=
  match n.flows[rnti]? with
  | none => n
  | some f => drainLoop w rnti (queued f.bearers) n

def scheduleDownlink (n : BsNode) : BsNode :=
  let n := (w.order n .flows).foldl (pumpFlow w) n
  (w.order n .flows).foldl (drainFlow w) n

def eraseDeferred (n : BsNode) : BsNode :=
  { n.pendingFlowErase.foldl eraseFlow n with pendingFlowErase := [] }

def tick (n : BsNode) (nowMs : UInt32) : BsNode :=
  let n := { n with nowMs := max nowMs n.nowMs }.eraseDeferred
  ((n.sweepTpc w).sweepInactive w).scheduleDownlink w

/-- MIB and SIB1, with the one-shot paging record, to everybody. -/
def broadcastSib (n : BsNode) : BsNode :=
  if n.broadcasting && n.sibEnabled then
    let entries := [(lcidMib, RrcBs.mibPdu), (lcidSib1, n.rrc.sib1Pdu)] ++
      if n.pagingTarget ≠ [] then [(lcidPaging, n.pagingTarget)] else []
    { n with pagingTarget := [] }.sendFrame .data rntiBroadcast (linkEncode (buildPdu entries) 0x7F 1)
  else n

/-- The tick in which `sibs` SIB timers are due: `timers_.tick` stands between the deferred erasures
and the sweeps. -/
def tickDue (n : BsNode) (nowMs : UInt32) (sibs : Nat) : BsNode :=
  let n := broadcastSib^[sibs] { n with nowMs := max nowMs n.nowMs }.eraseDeferred
  ((n.sweepTpc w).sweepInactive w).scheduleDownlink w

/-- Erasing flows one after the other is one filter. -/
theorem foldl_eraseFlow (n : BsNode) (rs : List Nat) :
    rs.foldl eraseFlow n = { n with flows := rs.foldl (fun flows r => flows.erase r) n.flows } := by
  induction rs generalizing n with
  | nil => rfl
  | cons r rs ih => rw [List.foldl_cons, List.foldl_cons, ih]; rfl

/-- A broadcast looks at neither the flows nor the clock. -/
theorem broadcastSib_eraseDeferred (n : BsNode) (nowMs : UInt32) :
    broadcastSib { n with nowMs := max nowMs n.nowMs }.eraseDeferred =
      eraseDeferred { n.broadcastSib with nowMs := max nowMs n.broadcastSib.nowMs } := by
  simp only [eraseDeferred, foldl_eraseFlow, broadcastSib]
  split <;> rfl

/-- A tick with `sibs` broadcasts due is those broadcasts, then the tick. -/
theorem tickDue_eq (n : BsNode) (nowMs : UInt32) (sibs : Nat) :
    n.tickDue w nowMs sibs = (broadcastSib^[sibs] n).tick w nowMs := by
  have herased : broadcastSib^[sibs] { n with nowMs := max nowMs n.nowMs }.eraseDeferred =
      eraseDeferred { broadcastSib^[sibs] n with nowMs := max nowMs (broadcastSib^[sibs] n).nowMs } := by
    induction sibs with
    | zero => rfl
    | succ sibs ih =>
      rw [Function.iterate_succ_apply', Function.iterate_succ_apply', ih]
      exact broadcastSib_eraseDeferred _ nowMs
  rw [tickDue, herased]
  rfl

/-! ### Steps -/

/-- What can happen to a node, with the answers the links and the coordinator give during it.
`receive` is `handle_dl_data` up to its loop, `sdu` one turn of the loop. -/
inductive Event where
  | frame (frame : AirFrame) (snr : ℚ)
  | receive (rnti : Nat) (payload : Bytes) (snr : ℚ)
  | sdu (rnti : Nat) (lcid : UInt8) (sdu : Bytes)
  | tick (nowMs : UInt32)
  | link (link : Link) (m : CnMessage)
  | requestHandover (crnti targetCell : Nat)
  | prepareHandover (ctx : HoContext)
  | page (imsi : Imsi)
  | broadcast
  | setSib (broadcasting enabled : Bool)

def handle (n : BsNode) : Event → Option BsNode
  | .frame frame snr => (n.handleAirFrame w frame snr).toOption
  | .receive rnti payload snr => (n.receiveData rnti payload snr).toOption.map Prod.fst
  | .sdu rnti lcid sdu => some (handleSdu w rnti n (lcid, sdu))
  | .tick nowMs => some (n.tick w nowMs)
  | .link link m => some (n.handleLinkMessage w link m)
  | .requestHandover crnti targetCell => some (n.requestHandover w crnti targetCell)
  | .prepareHandover ctx => some (n.prepareHandover ctx)
  | .page imsi => some (n.page imsi)
  | .broadcast => some n.broadcastSib
  | .setSib broadcasting enabled =>
    some { n with broadcasting := broadcasting, sibEnabled := enabled }

/-- One event, with what the links and the coordinator answer while it is handled. -/
structure Step where
  event : Event
  script : List (List CnMessage) := []
  answers : List (Option Nat) := []

/-- The node as a step finds it. -/
def answered (n : BsNode) (s : Step) : BsNode := { n with script := s.script, answers := s.answers }

def step (n : BsNode) (s : Step) : Option BsNode := (n.answered s).handle w s.event

end

end BsNode

end AetherStack.Source.Core
