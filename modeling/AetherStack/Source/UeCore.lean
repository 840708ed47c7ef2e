import AetherStack.Lib.Run
import AetherStack.Source.UserPlane
import AetherStack.Source.RadioFrames
import AetherStack.Source.Harq
import AetherStack.Source.RrcUe
import AetherStack.Source.RachUe
import AetherStack.Source.NasUe

/-!
# `UeNode` with its state machines

Source: stack/core/src/ue_node.cpp:12-388, 478-780 and 1757-2032 and include/core/ue_node.h,
namespace `core`. The node
here owns the RACH, RRC and NAS entities, HARQ and the bearers with their octets, and its
timers; the frames it gives to `air_send_` collect in `air`. `nasSent` records the NAS PDUs
and whether they were enciphered, and is read by no function.

A timer is its callback: of each kind that the node ever cancels there is at most one, and
when a pending one fires is left to the run. The applications above the bearers, power
control, the ping statistics and the log are left out: what dialogs, streams and the
measured channel quality put on a bearer comes from outside, as an event.
-/
namespace AetherStack.Source.Core
open Mac Rrc

/-- `usimKey` is what the process gives to `set_usim_key` at its start. -/
structure UeNodeConfig where
  imsi : Bytes
  usimKey : Option Key256 := none
  preambleIndex : UInt8 := 10
  maxPreambleTransmissions : UInt8 := 3
  measPeriodMs : UInt32 := 500
  radioLinkFailureMs : UInt32 := 0
  deriving DecidableEq, Repr

inductive UeTimer where
  | rachWindow | backoff | attachRetry | attachGuard | resumeGuard | reestGuard | measurement
  deriving DecidableEq, Repr

structure NeighborCell where
  cellId : Nat
  rxCount : UInt32 := 0
  lastSeenMs : UInt32 := 0
  deriving DecidableEq, Repr

structure UeNode where
  config : UeNodeConfig
  nowMs : UInt32 := 0
  rach : RachUe := {}
  rrc : RrcUe := {}
  nas : Nas.NasUe := {}
  harqTx : HarqTx := HarqTx.init {}
  harqRx : HarqRx := {}
  bearers : BearerSet := BearerSet.make
  timers : List UeTimer := []
  crntiCache : Nat := 0
  pendingCcch : Bytes := []
  mibOk : Bool := false
  sib1Ok : Bool := false
  attachRequested : Bool := false
  attachGuardRunning : Bool := false
  resumeGuardRunning : Bool := false
  detachAfterResume : Bool := false
  reestablishPending : Bool := false
  preRlfCrnti : Nat := 0
  reestReqPdu : Bytes := []
  cells : List NeighborCell := []
  servingCell : Nat := 0
  lastDlMs : UInt32 := 0
  upKey : Key256 := Vector.replicate 32 0
  upSecOn : Bool := false
  pdcpSeq : UInt64 := 0
  appTxSeq : UInt32 := 0
  air : List AirFrame := []
  nasSent : List (Bytes × Bool) := []

namespace UeNode

def make (config : UeNodeConfig) : UeNode :=
  { config := config
    rach := { preambleIndex := config.preambleIndex
              maxPreambleTransmissions := config.maxPreambleTransmissions }
    nas := match config.usimKey with
      | none => {}
      | some key => Nas.NasUe.setUsimKey {} key }

def registered (u : UeNode) : Bool := u.nas.state = .registered

def hasSystemInfo (u : UeNode) : Bool := u.mibOk && u.sib1Ok

/-! ### Frames and timers -/

def sendFrame (u : UeNode) (type : AirFrameType) (rnti : Nat) (payload : Bytes) : UeNode :=
  { u with air := u.air ++ [⟨type, rnti, payload⟩] }

def schedule (u : UeNode) (t : UeTimer) : UeNode := { u with timers := t :: u.timers }

def cancel (u : UeNode) (t : UeTimer) : UeNode := { u with timers := u.timers.erase t }

/-- The keyed digest as `pdcp::protect` calls it. -/
def pdcpHmac (digest : KeyedDigest) : Hmac := fun key => digest key.toList

variable (digest : KeyedDigest)

/-- The second half of `uplink_send`: a MAC PDU for HARQ, and its frame if a process is free. -/
def transmit (u : UeNode) (lcid : UInt8) (sdu : Bytes) : UeNode :=
  let sent := u.harqTx.send (buildPdu [(lcid, sdu)])
  { u with
    harqTx := sent.1
    air := u.air ++ sent.2.toList.map fun event => ⟨.data, u.crntiCache, event.coded⟩ }

def uplinkSend (u : UeNode) (lcid : UInt8) (sdu : Bytes) : UeNode :=
  if u.upSecOn && cipheredLcid lcid then
    { u with pdcpSeq := u.pdcpSeq + 1 }.transmit lcid
      (Pdcp.protect (pdcpHmac digest) u.upKey u.pdcpSeq sdu)
  else u.transmit lcid sdu

def enqueueAppPdu : BearerSet.Enqueue := fun s q lcid pdu =>
  s.withQueue q (BearerSet.pushBounded 64 (s.bearer q).queue { lcid := lcid, bytes := pdu })

def queued (s : BearerSet) : Nat :=
  s.ctrl.length + ([Qci.sig, .voice, .video, .bestEffort].map fun q =>
    (s.bearer q).queue.length).sum

/-- The `while` loop of `pump_app_bearers`; every turn takes a queued PDU. -/
def pumpLoop : Nat → UeNode → UeNode
  | 0, u => u
  | fuel + 1, u =>
    if u.harqTx.inFlight < u.harqTx.cfg.numProcesses.toNat then
      match u.bearers.popNext with
      | none => u
      | some (p, bearers) => pumpLoop fuel ({ u with bearers := bearers }.uplinkSend digest p.lcid p.bytes)
    else u

def pumpAppBearers (u : UeNode) : UeNode :=
  if u.rrc.inactive then u else pumpLoop digest (queued u.bearers) u

def pumpHarq (u : UeNode) : UeNode :=
  let polled := u.harqTx.pollTimeouts u.nowMs
  polled.2.foldl (fun u e => u.sendFrame .data u.crntiCache e.coded) { u with harqTx := polled.1 }

def sendAck (u : UeNode) (rnti : Nat) (res : HarqResult) : UeNode :=
  if res.needFeedback = false ∨ rnti = 0 ∨ rnti = rntiBroadcast ∨ res.proc = 0x7F then u
  else
    { u with harqTx := u.harqTx.advance u.nowMs }.sendFrame .data rnti
      (buildPdu [(lcidHarqAck, [res.proc &&& 0x7F, if res.ack then 1 else 0])])

/-- The send callback of NAS. -/
def nasSend (u : UeNode) (pdu : Bytes) : UeNode :=
  { u with nasSent := u.nasSent ++ [(pdu, u.upSecOn)] }.uplinkSend digest lcidNasDcch (Pdcp.tx pdu)

/-- The send callback of RRC: without a C-RNTI the PDU waits to ride MSG3. -/
def rrcSend (u : UeNode) (pdu : Bytes) : UeNode :=
  if u.crntiCache ≠ 0 then u.uplinkSend digest lcidCcch pdu else { u with pendingCcch := pdu }

/-! ### Random access -/

/-- Both response windows use one timer. -/
def scheduleRachWindowTimer (u : UeNode) : UeNode := (u.cancel .rachWindow).schedule .rachWindow

def scheduleAttachRetry (u : UeNode) : UeNode :=
  if !u.attachRequested || u.registered then u else u.schedule .attachRetry

def onRachOutput (u : UeNode) : RachOutput → UeNode
  | .state .waitRar => { u with crntiCache := 0 }.scheduleRachWindowTimer
  | .state .waitContentionResolve => u.scheduleRachWindowTimer
  | .state .idle => (u.cancel .rachWindow).scheduleAttachRetry
  | .state .connected => u
  | .msg1 pdu => u.sendFrame .msg1Prach 0 pdu
  | .msg3 pdu => u.sendFrame .msg3Ccch 0 pdu

/-- A call of the RACH entity with the callbacks it makes. -/
def runRach (u : UeNode) (call : RachUe × List RachOutput) : UeNode :=
  call.2.foldl onRachOutput { u with rach := call.1 }

def rachForceIdle (u : UeNode) : UeNode := u.runRach u.rach.forceIdle

def startRach (u : UeNode) : UeNode := u.runRach u.rach.startRach

/-- `set_preamble_index(preamble_for_cell(…, serving_cell_))`. -/
def targetServingCell (u : UeNode) : UeNode :=
  { u with rach := { u.rach with
      preambleIndex := preambleForCell u.config.preambleIndex u.servingCell } }

/-! ### Connection procedures -/

/-- The cell heard most often, the first of them in the order of the list. -/
def selectServingCell (u : UeNode) : UeNode :=
  let best := u.cells.foldl (fun (best : Nat × UInt32) c =>
    if c.rxCount > best.2 then (c.cellId, c.rxCount) else best) (0, 0)
  let serving := if best.1 ≠ 0 then best.1 else u.servingCell
  { u with servingCell := if serving = 0 then 1 else serving }

def maybeStartAttach (u : UeNode) : UeNode :=
  if !u.attachRequested || !u.hasSystemInfo || u.rach.state ≠ .idle || u.rrc.state ≠ .idle then u
  else if u.reestablishPending then { u with pendingCcch := u.reestReqPdu }.startRach
  else
    let u := { u.selectServingCell.targetServingCell with pendingCcch := [] }
    let started := u.rrc.startConnection u.servingCell
    let u := started.2.foldl (rrcSend digest) { u with rrc := started.1 }
    let u := if u.attachGuardRunning then u
      else { u with attachGuardRunning := true }.schedule .attachGuard
    u.startRach

def attach (u : UeNode) : UeNode := { u with attachRequested := true }.maybeStartAttach digest

def startMeasurements (u : UeNode) : UeNode :=
  if .measurement ∈ u.timers ∨ u.config.measPeriodMs = 0 then u else u.schedule .measurement

def stopMeasurements (u : UeNode) : UeNode := u.cancel .measurement

/-- What `abort_attach` and `detach` end with: the air side and the security are fresh. -/
def dropConnection (u : UeNode) : UeNode :=
  { u with
    harqTx := u.harqTx.reset, harqRx := u.harqRx.reset, bearers := u.bearers.resetBearers
    upSecOn := false, pdcpSeq := 0 }

def abortAttach (u : UeNode) : UeNode :=
  let u := { u with attachRequested := false, attachGuardRunning := false, pendingCcch := [] }
  let u := u.rachForceIdle
  { u with
    rrc := u.rrc.forceIdle, crntiCache := 0
    nas := u.nas.forceDeregistered }.stopMeasurements.dropConnection

/-- Resume with RACH and a RESUME_REQUEST in MSG3. -/
def wake (u : UeNode) : UeNode :=
  if !u.rrc.inactive then u
  else
    let request := RrcMessage.encode { msgType := .resumeRequest, value := putU32 u.rrc.resumeId }
    let u := { u with pendingCcch := request, rrc := u.rrc.startResume }
    let u := u.rachForceIdle.targetServingCell
    let u := if u.resumeGuardRunning then u
      else { u with resumeGuardRunning := true }.schedule .resumeGuard
    u.startRach

/-- Before the DETACH the source hangs up: `stop_streams(true)` queues a BYE, CANCEL or DECLINE for
every dialog and flushes the queues with `pump_app_bearers`. This is left out here: dialogs are not
part of this node, and in a run the flush is a `pump` in front of the `detach`, on the C-RNTI that
is still cached. Only the detach nested in `onResumed` has no event in front of it. -/
def detach (u : UeNode) : UeNode :=
  if !u.registered then u
  else if u.rrc.inactive then { u with detachAfterResume := true }.wake
  else
    let asked := u.nas.sendDetach
    let u := asked.2.foldl (nasSend digest) { u with nas := asked.1 }
    let released := u.rrc.release
    let u := released.2.foldl (rrcSend digest) { u with rrc := released.1 }
    let u := { u with crntiCache := 0 }.rachForceIdle
    { u with pendingCcch := [], attachRequested := false }.stopMeasurements.dropConnection

def sleep (u : UeNode) : UeNode :=
  if !u.registered || u.rrc.state ≠ .connected then u
  else u.rrc.requestSuspend.foldl (rrcSend digest) u

/-- The suspend callback: context, keys and bearers stay. -/
def onSuspended (u : UeNode) : UeNode :=
  { u with harqTx := u.harqTx.reset, harqRx := u.harqRx.reset, crntiCache := 0 }

/-- The resume callback with RESUME_OK. -/
def onResumed (u : UeNode) (newCrnti : Nat) : UeNode :=
  let u := { u with
    resumeGuardRunning := false, crntiCache := newCrnti
    harqTx := u.harqTx.reset, harqRx := u.harqRx.reset }
  let u := u.pumpAppBearers digest
  if u.detachAfterResume then { u with detachAfterResume := false }.detach digest else u

/-- The resume callback with RESUME_FAILURE: attach again. -/
def onResumeFailed (u : UeNode) : UeNode :=
  let u := { u with resumeGuardRunning := false, crntiCache := 0 }.rachForceIdle
  { u with nas := u.nas.forceDeregistered, attachRequested := true }.maybeStartAttach digest

def onRrcOutput (u : UeNode) : RrcOutput → UeNode
  | .send pdu => u.rrcSend digest pdu
  | .suspended _ => u.onSuspended
  | .resumed true newCrnti => u.onResumed digest newCrnti
  | .resumed false _ => u.onResumeFailed digest

/-- The air side of a handover or a lost link is fresh; security stays. -/
def resetAirSide (u : UeNode) : UeNode :=
  { u with
    harqTx := u.harqTx.reset, harqRx := u.harqRx.reset, bearers := u.bearers.resetBearers }

def applyHandover (u : UeNode) (targetCell newCrnti : Nat) : UeNode :=
  let u := { u with
    servingCell := targetCell, crntiCache := newCrnti, rrc := u.rrc.restoreConnected newCrnti }
  { u.resetAirSide with pdcpSeq := 0 }.uplinkSend digest lcidCcch
    (RrcMessage.encode { msgType := .hoComplete, value := putU16 newCrnti })

def declareRlf (u : UeNode) : UeNode :=
  let u := { u with preRlfCrnti := u.crntiCache, reestablishPending := true }.resetAirSide
  let u := u.rachForceIdle
  let request := RrcMessage.encode
    { msgType := .reestablishmentRequest, value := putU16 u.preRlfCrnti ++ putU16 u.servingCell }
  let u := { u with
    rrc := u.rrc.forceIdle, crntiCache := 0, reestReqPdu := request, pendingCcch := request }
  let u := (u.cancel .reestGuard).schedule .reestGuard
  { u with attachRequested := true }.startRach

def reestablishFailed (u : UeNode) : UeNode :=
  let u := { u with
    reestablishPending := false, nas := u.nas.forceDeregistered
    upSecOn := false, pdcpSeq := 0, crntiCache := 0 }
  let u := u.rachForceIdle
  { u with rrc := u.rrc.forceIdle }.maybeStartAttach digest

def sendMeasurementReport (u : UeNode) : UeNode :=
  let audible := u.cells.filter fun c => u.nowMs - c.lastSeenMs ≤ 800
  let value := UInt8.ofNat audible.length :: audible.flatMap fun c =>
    putU16 c.cellId ++ [UInt8.ofNat (min c.rxCount.toNat 255)]
  u.uplinkSend digest lcidCcch (RrcMessage.encode { msgType := .measReport, value := value })

/-! ### Timers -/

def onTimer (u : UeNode) : UeTimer → UeNode
  | .rachWindow =>
    match u.rach.state with
    | .waitRar => u.schedule .backoff
    | .waitContentionResolve => u.runRach u.rach.onContentionResolveTimeout
    | _ => u
  | .backoff => u.runRach u.rach.onRarTimeout
  | .attachRetry =>
    if !u.attachRequested || u.registered || u.rach.state ≠ .idle then u
    else { u with rrc := u.rrc.forceIdle, crntiCache := 0 }.maybeStartAttach digest
  | .attachGuard =>
    let u := { u with attachGuardRunning := false }
    if u.registered then u else u.abortAttach
  | .resumeGuard =>
    if !u.resumeGuardRunning then u
    else
      let u := { u with resumeGuardRunning := false }
      if u.rrc.state = .connected then u
      else
        let u := u.rachForceIdle
        { u with
          rrc := u.rrc.forceIdle, nas := u.nas.forceDeregistered
          attachRequested := true }.maybeStartAttach digest
  | .reestGuard => if u.reestablishPending then u.reestablishFailed digest else u
  | .measurement =>
    if u.rrc.state = .connected ∧ u.cells ≠ [] then u.sendMeasurementReport digest else u

/-- A one-shot timer is gone before its callback runs. -/
def fire (u : UeNode) (t : UeTimer) : UeNode :=
  if t ∉ u.timers then u
  else (if t = .measurement then u else u.cancel t).onTimer digest t

/-- The radio-link-failure watchdog at the end of `tick`. -/
def watchdog (u : UeNode) : UeNode :=
  if u.config.radioLinkFailureMs ≠ 0 ∧ !u.reestablishPending ∧ u.rrc.state = .connected ∧
      u.lastDlMs ≠ 0 ∧ u.nowMs - u.lastDlMs > u.config.radioLinkFailureMs then
    u.declareRlf
  else u

/-! ### Reception -/

/-- The cell id of a SIB1 of seven octets or more; a SIB1 without one is of cell 1. -/
def sib1CellId (data : Bytes) : Nat :=
  let pos := 1 + ((data.drop 1).takeWhile (· ≠ 0)).length
  let pos := if pos < data.length then pos + 1 else pos
  if pos + 3 < data.length then getU16 data (pos + 2) else 1

def hearCell (u : UeNode) (cellId : Nat) : UeNode :=
  let cells := if u.cells.any fun c => c.cellId = cellId then u.cells
    else u.cells ++ [{ cellId := cellId }]
  { u with
    cells := cells.map fun c =>
      if c.cellId = cellId then { c with rxCount := c.rxCount + 1, lastSeenMs := u.nowMs } else c
    servingCell := if u.servingCell = 0 then cellId else u.servingCell }

def handleSysinfoSdu (u : UeNode) (lcid : UInt8) (sdu : Bytes) (broadcast : Bool) : UeNode :=
  if lcid = lcidMib ∧ sdu.length ≥ 5 then { u with mibOk := true }.maybeStartAttach digest
  else if lcid = lcidSib1 ∧ sdu.length ≥ 7 then
    ({ u with sib1Ok := true }.hearCell (sib1CellId sdu)).maybeStartAttach digest
  else if lcid = lcidPaging ∧ broadcast then
    if sdu ≠ u.config.imsi then u
    else if u.rrc.inactive then u.wake
    else if !u.registered then u.attach digest
    else u
  else u

def handleCcchSdu (u : UeNode) (sdu : Bytes) : UeNode :=
  let msg := RrcMessage.decode sdu
  match msg.msgType with
  | .hoCommand =>
    let target := getU16 msg.value 0
    if msg.value.length < 4 ∨ !u.cells.any fun c => c.cellId = target then u
    else u.applyHandover digest target (getU16 msg.value 2)
  | .reestablishmentOk =>
    if !u.reestablishPending ∨ msg.value.length < 2 then u
    else
      let newCrnti := getU16 msg.value 0
      { u with
        reestablishPending := false, crntiCache := newCrnti
        rrc := u.rrc.restoreConnected newCrnti, harqRx := u.harqRx.reset }
  | .reestablishmentFailure => if u.reestablishPending then u.reestablishFailed digest else u
  | _ =>
    let answered := u.rrc.onMessage sdu
    let u := answered.2.foldl (onRrcOutput digest) { u with rrc := answered.1 }
    let u := { u with harqRx := u.harqRx.reset }
    if u.attachRequested ∧ u.nas.state = .deregistered ∧ u.rrc.state = .connected then
      let asked := u.nas.sendAttachRequest u.config.imsi
      (asked.2.foldl (nasSend digest) { u with nas := asked.1 }).startMeasurements
    else u

/-- A NAS message, and security on when it registers an authenticated UE. -/
def handleNasSdu (u : UeNode) (sdu : Bytes) : UeNode :=
  match openSdu (pdcpHmac digest) u.upSecOn u.upKey sdu with
  | none => u
  | some pdu =>
    let answered := u.nas.onMessage digest pdu
    let u := answered.2.foldl (nasSend digest) { u with nas := answered.1 }
    let u := if u.nas.state = .registered ∧ u.nas.authenticated ∧ !u.upSecOn then
        { u with upKey := u.nas.sessionKey, upSecOn := true }
      else u
    if u.registered then u.startMeasurements else u

def handleHarqAck (u : UeNode) (sdu : Bytes) : UeNode :=
  match sdu with
  | p :: a :: _ =>
    let proc := (p &&& 0x7F).toNat
    let u := { u with harqTx := u.harqTx.advance u.nowMs }
    if a ≠ 0 then { u with harqTx := u.harqTx.onAck proc }
    else
      let answered := u.harqTx.onNack proc
      let u := { u with harqTx := answered.1 }
      match answered.2 with
      | none => u
      | some event => u.sendFrame .data u.crntiCache event.coded
  | _ => u

def handleDedicatedSdu (u : UeNode) (lcid : UInt8) (sdu : Bytes) : UeNode :=
  if lcid = lcidCcch then u.handleCcchSdu digest sdu
  else if lcid = lcidNasDcch then u.handleNasSdu digest sdu
  else if lcid = lcidHarqAck then u.handleHarqAck sdu
  else
    match qciOfLcid lcid with
    | some q =>
      match openSdu (pdcpHmac digest) u.upSecOn u.upKey sdu with
      | none => u
      | some pdu => { u with bearers := u.bearers.receivePdu enqueueAppPdu u.nowMs q pdu }
    | none =>
      match qciOfStatusLcid lcid with
      | some q => { u with bearers := u.bearers.receiveStatus enqueueAppPdu u.nowMs q sdu }
      | none => u

def handleSdu (rnti : Nat) (u : UeNode) (s : UInt8 × Bytes) : UeNode :=
  if s.1 = lcidMib ∨ s.1 = lcidSib1 ∨ s.1 = lcidPaging then
    u.handleSysinfoSdu digest s.1 s.2 (rnti = rntiBroadcast)
  else if rnti ≠ rntiBroadcast ∧ s.2 ≠ [] then u.handleDedicatedSdu digest s.1 s.2
  else u

/-- The head of `handle_data_pdu`: HARQ transport blocks are decoded and acknowledged, other
payloads are MAC PDUs. What is left to handle are the SDUs of the PDU. -/
def receiveData (u : UeNode) (rnti : Nat) (payload : Bytes) :
    Except Fec.DecodeError (UeNode × List (UInt8 × Bytes)) :=
  let u := if rnti ≠ rntiBroadcast then { u with lastDlMs := u.nowMs } else u
  if isHarqFramed payload then
    match u.harqRx.receive payload with
    | .error e => .error e
    | .ok (harqRx, res) =>
      .ok ({ u with harqRx := harqRx }.sendAck rnti res,
        if res.delivered then parsePdu res.macPdu else [])
  else .ok (u, parsePdu payload)

def handleDataPdu (u : UeNode) (rnti : Nat) (payload : Bytes) : Except Fec.DecodeError UeNode :=
  match u.receiveData rnti payload with
  | .error e => .error e
  | .ok (u, sdus) => .ok (sdus.foldl (handleSdu digest rnti) u)

/-- The C-RNTI of a MSG4 is taken when the entity took the message. -/
def handleContentionResolve (u : UeNode) (payload : Bytes) : UeNode :=
  let crnti := getU16 payload 1
  let u := u.runRach (u.rach.onContentionResolve crnti (getU16 payload 3))
  if u.rach.state = .connected then { u with crntiCache := crnti } else u

def handleAirFrame (u : UeNode) (f : AirFrame) : Except Fec.DecodeError UeNode :=
  match f.type with
  | .msg2Rar =>
    if u.rach.state = .waitRar ∧ f.payload.length ≥ 5 then
      .ok (u.runRach (u.rach.onRarReceived (getU16 f.payload 1) u.pendingCcch))
    else .ok u
  | .msg4Cr =>
    if u.rach.state = .waitContentionResolve ∧ f.payload.length ≥ 5 then
      .ok (u.handleContentionResolve f.payload)
    else .ok u
  | .data =>
    if f.rnti ≠ u.crntiCache ∧ f.rnti ≠ rntiBroadcast then .ok u
    else u.handleDataPdu digest f.rnti f.payload
  | .msg1Prach | .msg3Ccch => .ok u

/-- The bits of a burst; what is no frame is dropped. -/
def onAirBits (u : UeNode) (bits : Bytes) : Except Fec.DecodeError UeNode :=
  match unpackAirBits bits with
  | none => .ok u
  | some bytes =>
    match decodeFrame bytes with
    | none => .ok u
    | some f => u.handleAirFrame digest f

/-! ### Bearers -/

/-- What an application hands to the bearer of its class. -/
def sendSdu (u : UeNode) (q : Qci) (sdu : Bytes) (force : Bool) : UeNode :=
  { u with bearers := (u.bearers.sendSdu enqueueAppPdu u.nowMs q sdu force).1 }

def maybeWakeForActivity (u : UeNode) : UeNode := if u.rrc.inactive then u.wake else u

/-- One ping on the default bearer, behind its sequence number. -/
def sendAppData (u : UeNode) (payload : Bytes) : UeNode :=
  if !u.registered then u
  else
    let u := u.maybeWakeForActivity
    let u := { u with appTxSeq := u.appTxSeq + 1 }
    u.sendSdu .bestEffort (putU32 u.appTxSeq.toNat ++ payload) false

def serviceBearer (u : UeNode) (q : Qci) : UeNode :=
  { u with bearers := BearerSet.serviceBearer enqueueAppPdu u.nowMs u.bearers q }

/-- A changed channel quality is reported while connected. -/
def reportCqi (u : UeNode) (cqi : UInt8) : UeNode :=
  if u.rrc.state = .connected then
    { u with bearers := { u.bearers with
        ctrl := u.bearers.ctrl ++ [{ lcid := lcidCqiReport, bytes := [cqi] }] } }
  else u

end UeNode

/-! ## Runs -/

/-- Commands, received frames and the parts of a tick. A tick is the clock, the timers that
are due, HARQ timeouts, the service of each bearer, the pump and the watchdog, in this
order; between them and behind a reception the applications may send. -/
inductive UeEvent where
  | attach
  | detach
  | sleep
  | wake
  | sendAppData (payload : Bytes)
  | wakeForActivity
  | sendSdu (q : Qci) (sdu : Bytes) (force : Bool)
  | reportCqi (cqi : UInt8)
  | air (f : AirFrame)
  | clock (nowMs : UInt32)
  | fire (t : UeTimer)
  | pumpHarq
  | serviceBearer (q : Qci)
  | pump
  | watchdog
  deriving DecidableEq, Repr

/-- A decoding exception leaves the process, so the run ends. -/
def UeNode.step (digest : KeyedDigest) (u : UeNode) : UeEvent → Option UeNode
  | .attach => some (u.attach digest)
  | .detach => some (u.detach digest)
  | .sleep => some (u.sleep digest)
  | .wake => some u.wake
  | .sendAppData payload => some (u.sendAppData payload)
  | .wakeForActivity => some u.maybeWakeForActivity
  | .sendSdu q sdu force => some (u.sendSdu q sdu force)
  | .reportCqi cqi => some (u.reportCqi cqi)
  | .air f => (u.handleAirFrame digest f).toOption
  | .clock nowMs => some { u with nowMs := max nowMs u.nowMs }
  | .fire t => some (u.fire digest t)
  | .pumpHarq => some u.pumpHarq
  | .serviceBearer q => some (u.serviceBearer q)
  | .pump => some (u.pumpAppBearers digest)
  | .watchdog => some u.watchdog

namespace UeNode
open Lib

/-- Every SDU of a received frame meets a condition in the state that handles it. -/
def SdusMeet (digest : KeyedDigest) (C : Nat → UeNode → UInt8 × Bytes → Prop) (u : UeNode)
    (f : AirFrame) : Prop :=
  if f.type = .data ∧ (f.rnti = u.crntiCache ∨ f.rnti = rntiBroadcast) then
    match u.receiveData f.rnti f.payload with
    | .error _ => True
    | .ok r => StepsMeet (fun u s => some (handleSdu digest f.rnti u s)) (C f.rnti) r.1 r.2
  else True

instance {digest : KeyedDigest} {C : Nat → UeNode → UInt8 × Bytes → Prop}
    [∀ rnti u s, Decidable (C rnti u s)] (u : UeNode) (f : AirFrame) :
    Decidable (SdusMeet digest C u f) := by
  unfold SdusMeet
  split
  · split <;> infer_instance
  · infer_instance

theorem handleAirFrame_of_step {digest : KeyedDigest} {u u' : UeNode} {f : AirFrame}
    (h : u.step digest (.air f) = some u') : u.handleAirFrame digest f = .ok u' := by
  cases hair : u.handleAirFrame digest f with
  | error e => simp [UeNode.step, hair, Except.toOption] at h
  | ok v =>
    simp only [UeNode.step, hair, Except.toOption, Option.some.injEq] at h
    rw [h]

/-- The invariant rule for a received frame: what random access preserves, what the head of
the reception preserves, and what one SDU preserves. -/
theorem handleAirFrame_invariant {digest : KeyedDigest} (Inv : UeNode → Prop)
    {C : Nat → UeNode → UInt8 × Bytes → Prop} {u u' : UeNode} {f : AirFrame}
    (rar : ∀ raRnti, u.rach.state = .waitRar →
      Inv (u.runRach (u.rach.onRarReceived raRnti u.pendingCcch)))
    (resolve : ∀ payload, f.type = .msg4Cr → u.rach.state = .waitContentionResolve →
      Inv (u.handleContentionResolve payload))
    (receive : ∀ r, u.receiveData f.rnti f.payload = .ok r → Inv r.1)
    (sdu : ∀ v s, f.type = .data → Inv v → C f.rnti v s → Inv (handleSdu digest f.rnti v s))
    (start : Inv u) (meets : SdusMeet digest C u f)
    (step : u.handleAirFrame digest f = .ok u') : Inv u' := by
  unfold handleAirFrame at step
  split at step
  · split at step
    · rename_i hwait
      obtain rfl := Except.ok.inj step
      exact rar _ hwait.1
    · obtain rfl := Except.ok.inj step
      exact start
  · rename_i htype
    split at step
    · rename_i hwait
      obtain rfl := Except.ok.inj step
      exact resolve _ htype hwait.1
    · obtain rfl := Except.ok.inj step
      exact start
  · rename_i htype
    split at step
    · obtain rfl := Except.ok.inj step
      exact start
    · rename_i hmine
      have haddressed : f.rnti = u.crntiCache ∨ f.rnti = rntiBroadcast := by
        by_contra hother
        exact hmine (not_or.mp hother)
      rw [SdusMeet, if_pos ⟨htype, haddressed⟩] at meets
      unfold handleDataPdu at step
      split at step
      · cases step
      · rename_i r sdus hreceive
        rw [hreceive] at meets
        obtain rfl := Except.ok.inj step
        exact runFrom_invariant_of_meets Inv
          (fun v s v' hv hc hstep => by
            obtain rfl := Option.some.inj hstep
            exact sdu v s htype hv hc)
          (receive _ hreceive) meets (runFrom_total _ _ _)
  · obtain rfl := Except.ok.inj step
    exact start
  · obtain rfl := Except.ok.inj step
    exact start

end UeNode

end AetherStack.Source.Core
