import AetherStack.Source.BsCell
import AetherStack.Source.Harq
import AetherStack.Source.MacPdu
import AetherStack.Source.RachBs
import AetherStack.Source.RrcBs
import AetherStack.Source.Amf
import AetherStack.Source.U2u

/-!
# `BsNode` with its tables

Source: stack/core/src/bs_node.cpp:13-275, 795-812, 892-1201 and 1258-1387 and
include/core/bs_node.h, namespace `core`. The node
owns the RACH, RRC and NAS entities, the flows with their HARQ entities and bearers, and the
tables of mobility and conferences. Frames it gives to `air_send_` collect in `air`, messages
it gives to a link in `sent`; `hoLog` records the steps of the handovers. No function reads
these three.

The loops over an `unordered_map` run in an order the standard leaves open: `World.order`
gives it, for every table and state. A link may deliver what its peer answers inside
`send()`: `script` holds these answers, one list for each send that is answered, and an empty
script is a link that delivers later. `answers` is what `ho_coordinator_` returns to its
next calls. Signal-to-noise ratios are exact here. The log, `established` flags and
statistics are left out.
-/
namespace AetherStack.Source.Core
open Mac Rrc

/-- The last four fields are the wiring: `set_ho_coordinator`, `attach_core`, `attach_xn`. -/
structure BsNodeConfig where
  maxDlQueuePerUe : Nat := 64
  cellId : Nat := 1
  plmnId : Bytes := [52, 54, 48, 48, 49]
  tac : Nat := 1
  autoHandover : Bool := true
  crntiBase : Nat := 1
  inactiveMs : UInt32 := 0
  hoCoordinator : Bool := false
  amf : Bool := false
  upf : Bool := false
  xn : Bool := false
  deriving DecidableEq, Repr

structure DlFlow extends AetherStack.Source.DlFlow where
  harqTx : HarqTx := HarqTx.init {}
  harqRx : HarqRx := {}
  cqi : Int := -1
  mcs : Nat := 0
  ulSnrEwma : ℚ := -100
  lastTpcMs : UInt32 := 0
  lastActivityMs : UInt32 := 0

structure InitiatedHo where
  targetCell : Nat
  newCrnti : Nat
  deriving DecidableEq, Repr

structure PendingXnHo where
  sourceCrnti : Nat
  targetCell : Nat
  deriving DecidableEq, Repr

inductive Link where
  | amf | upf | xn
  deriving DecidableEq, Repr

/-- The steps of the handovers of a source: the preparation leaves, the HO_COMMAND is queued,
the completion releases. -/
inductive HoEntry where
  | started (source targetCell : Nat)
  | commanded (source targetCell newCrnti : Nat)
  | completed (source newCrnti : Nat)
  deriving DecidableEq, Repr

structure BsNode where
  config : BsNodeConfig
  nowMs : UInt32 := 0
  rach : RachBs
  rrc : RrcBs
  nas : NasBs
  flows : Std.ExtTreeMap Nat DlFlow := ∅
  tmsiToCrnti : TmsiMap Nat := ∅
  initiatedHo : Std.ExtTreeMap Nat InitiatedHo := ∅
  hoPrepared : Std.ExtTreeMap Nat HoContext := ∅
  nextHoCrnti : Nat
  pendingXnHo : TmsiMap PendingXnHo := ∅
  confs : ConfTable := ∅
  pagingTarget : Bytes := []
  pendingFlowErase : List Nat := []
  broadcasting : Bool := false
  sibEnabled : Bool := true
  air : List AirFrame := []
  sent : List (Link × CnMessage) := []
  hoLog : List HoEntry := []
  script : List (List CnMessage) := []
  answers : List (Option Nat) := []

/-- The tables that are searched or swept by a loop. -/
inductive Table where
  | rrcContexts | nasContexts | pendingAuth | tmsiToCrnti | initiatedHo | flows
  deriving DecidableEq, Repr

namespace BsNode

def make (config : BsNodeConfig) (keys : Bytes → Option Key256) : BsNode :=
  { config := config
    rach := { cellId := config.cellId, nextCrnti := config.crntiBase }
    rrc := RrcBs.make config.cellId config.plmnId config.tac config.crntiBase
    nas := { keys := keys }
    nextHoCrnti := (config.crntiBase + 0x1000) % snModulus }

def keysOf (n : BsNode) : Table → List Nat
  | .rrcContexts => n.rrc.ueContexts.keys
  | .nasContexts => n.nas.ueContexts.keys
  | .pendingAuth => n.nas.pendingAuth.keys
  | .tmsiToCrnti => n.tmsiToCrnti.keys
  | .initiatedHo => n.initiatedHo.keys
  | .flows => n.flows.keys

end BsNode

/-- What the node does not decide itself: the digest of the crypto library, the RAND drawn for
a challenge and the order of iteration. -/
structure World where
  digest : KeyedDigest
  rand : NasBs → Rand
  order : BsNode → Table → List Nat
  perm : ∀ n t, (order n t).Perm (n.keysOf t)

/-- A world for concrete runs: loops in the order of the keys, no secret worth the name. -/
def World.plain : World where
  digest := fun _ _ => Vector.replicate 32 0
  rand := fun _ => Vector.replicate 16 0
  order := fun n t => n.keysOf t
  perm := fun _ _ => .refl _

namespace BsNode

def coreSeparated (n : BsNode) : Bool := n.config.amf

/-! ### Flows and frames -/

def sendFrame (n : BsNode) (type : AirFrameType) (rnti : Nat) (payload : Bytes) : BsNode :=
  { n with air := n.air ++ [⟨type, rnti, payload⟩] }

/-- What `flow(rnti)` refers to; the node that has it is `touchFlow`. -/
def flow (n : BsNode) (rnti : Nat) : DlFlow := (n.flows[rnti]?).getD {}

def putFlow (n : BsNode) (rnti : Nat) (f : DlFlow) : BsNode :=
  { n with flows := n.flows.insert rnti f }

def eraseFlow (n : BsNode) (rnti : Nat) : BsNode := { n with flows := n.flows.erase rnti }

def touchFlow (n : BsNode) (rnti : Nat) : BsNode := n.putFlow rnti (n.flow rnti)

def putBearers (n : BsNode) (rnti : Nat) (bearers : BearerSet) : BsNode :=
  n.putFlow rnti { n.flow rnti with bearers := bearers }

def downlinkSend (n : BsNode) (rnti : Nat) (lcid : UInt8) (sdu : Bytes) : BsNode :=
  n.putBearers rnti
    (Source.DlFlow.queuePdu n.config.maxDlQueuePerUe (n.flow rnti).secOn (n.flow rnti).bearers lcid sdu)

/-- An SDU for a bearer of the UE: the entity cuts it, the PDUs are queued. -/
def sendSdu (n : BsNode) (rnti : Nat) (q : Qci) (sdu : Bytes) : BsNode :=
  n.putBearers rnti
    ((n.flow rnti).toDlFlow.sendSdu n.config.maxDlQueuePerUe n.nowMs q sdu).1.bearers

def armSecurity (n : BsNode) (rnti : Nat) (key : Key256) : BsNode :=
  n.putFlow rnti { n.flow rnti with upKey := key, secOn := true }

/-! ### Identities -/

section
variable (w : World)

/-- The first TMSI that maps to `crnti`, zero when there is none. -/
def tmsiForCrnti (n : BsNode) (crnti : Nat) : Nat :=
  ((n.tmsiToCrnti.firstMatch (w.order n .tmsiToCrnti) fun r => r = crnti).map Prod.fst).getD 0

def crntiForImsi (n : BsNode) (imsi : Imsi) : Nat :=
  match n.nas.findUeByImsi (w.order n .nasContexts) imsi with
  | none => 0
  | some ctx => (n.tmsiToCrnti[ctx.tmsi]?).getD 0

/-! ### UE-to-UE forwarding and conferences -/

def page (n : BsNode) (imsi : Imsi) : BsNode := { n with pagingTarget := imsi }

/-- A packet for the flow of `rnti`; a parked UE is paged. -/
def deliver (n : BsNode) (rnti : Nat) (imsi : Imsi) (q : Qci) (data : Bytes) : BsNode :=
  (if (n.flow rnti).suspended then n.page imsi else n).sendSdu rnti q data

/-- `forward_u2u_dl`: nothing when the IMSI is not served here or is the sender. -/
def forwardU2uDl (n : BsNode) (pkt : U2uPacket) (data : Bytes) (excludeRnti : Nat) : Option BsNode :=
  let dstRnti := n.crntiForImsi w pkt.dstImsi
  if dstRnti = 0 ∨ dstRnti = excludeRnti ∨ dstRnti ∉ n.flows then none
  else some (n.deliver dstRnti pkt.dstImsi (qciOf pkt.kind) data)

/-- One member's copy of a conference packet. -/
def bridgeMember (srcRnti : Nat) (pkt : U2uPacket) (n : BsNode) (imsi : Imsi) : BsNode :=
  let dstRnti := n.crntiForImsi w imsi
  if imsi = pkt.srcImsi ∨ dstRnti = 0 ∨ dstRnti = srcRnti ∨ dstRnti ∉ n.flows then n
  else n.deliver dstRnti imsi .voice (encodeU2u { pkt with dstImsi := imsi })

def bridgeConfMedia (n : BsNode) (srcRnti : Nat) (pkt : U2uPacket) : BsNode :=
  match n.confs[pkt.confId]? with
  | none => n
  | some c => c.members.foldl (bridgeMember w srcRnti pkt) n

def snoopConfSig (n : BsNode) (pkt : U2uPacket) : BsNode :=
  match decodeSig pkt.payload with
  | none => n
  | some msg =>
    if msg.confId = 0 then n else { n with confs := n.confs.snoopSig pkt.srcImsi pkt.dstImsi msg }

def purgeConfMember (n : BsNode) (imsi : Imsi) : BsNode :=
  { n with confs := n.confs.purgeMember imsi }

/-! ### Mobility -/

/-- HO_COMMAND [target_cell:2][new_crnti:2]. -/
def hoCommandPdu (targetCell newCrnti : Nat) : Bytes :=
  RrcMessage.encode { msgType := .hoCommand, value := putU16 targetCell ++ putU16 newCrnti }

/-- The HO_COMMAND is queued and the handover recorded with the new C-RNTI. -/
def commandHo (n : BsNode) (source targetCell newCrnti : Nat) : BsNode :=
  { n.downlinkSend source lcidCcch (hoCommandPdu targetCell newCrnti) with
    initiatedHo := n.initiatedHo.insert source ⟨targetCell, newCrnti⟩
    hoLog := n.hoLog ++ [.commanded source targetCell newCrnti] }

/-- The target side; the new C-RNTI is the counter before the call. -/
def prepareHandover (n : BsNode) (ctx : HoContext) : BsNode :=
  let newCrnti := n.nextHoCrnti
  { n.putFlow newCrnti { n.flow newCrnti with upKey := ctx.upKey, secOn := ctx.secOn } with
    nextHoCrnti := (n.nextHoCrnti + 1) % snModulus
    rrc := n.rrc.admitConnected newCrnti
    tmsiToCrnti := if ctx.tmsi ≠ 0 then n.tmsiToCrnti.insert ctx.tmsi newCrnti else n.tmsiToCrnti
    nas := if ctx.imsi ≠ [] then n.nas.adoptUe ctx.tmsi ctx.imsi else n.nas
    hoPrepared := n.hoPrepared.insert newCrnti ctx }

def record (n : BsNode) (link : Link) (m : CnMessage) : BsNode :=
  { n with sent := n.sent ++ [(link, m)] }

/-- The context of a source goes, its flow at the next tick. -/
def releaseHoSource (n : BsNode) (oldRnti : Nat) : BsNode :=
  let tmsi := n.tmsiForCrnti w oldRnti
  let n :=
    if tmsi = 0 then n
    else
      let n := { n with nas := n.nas.releaseUe tmsi, tmsiToCrnti := n.tmsiToCrnti.erase tmsi }
      if n.config.amf then n.record .amf ⟨.other 8, putU32 tmsi⟩ else n
  { n.touchFlow oldRnti with
    rrc := n.rrc.releaseContext oldRnti
    pendingFlowErase := n.pendingFlowErase ++ [oldRnti] }

/-- The source of the handover to `newCrnti`, if there is one; C-RNTI 0 stands for none. -/
def completingSource (n : BsNode) (newCrnti : Nat) : Option Nat :=
  if newCrnti = 0 then none
  else
    (TmsiMap.firstMatch n.initiatedHo (w.order n .initiatedHo) fun ho => ho.newCrnti = newCrnti).map
      Prod.fst

def completeHo (n : BsNode) (newCrnti : Nat) : BsNode :=
  match n.completingSource w newCrnti with
  | none => n
  | some source =>
    let n := n.releaseHoSource w source
    { n with
      initiatedHo := n.initiatedHo.erase source
      hoLog := n.hoLog ++ [.completed source newCrnti] }

/-! ### Messages of the links -/

/-- The C-RNTI of a TMSI, learnt from the message when it is new. -/
def learnCrnti (n : BsNode) (tmsi rnti : Nat) : BsNode × Nat :=
  match n.tmsiToCrnti[tmsi]? with
  | some r => (n, r)
  | none => ({ n with tmsiToCrnti := n.tmsiToCrnti.insert tmsi rnti }, rnti)

/-- The 32 octets of a key. -/
def keyAt (value : Bytes) (off : Nat) : Key256 := Vector.ofFn fun i : Fin 32 => value.getD (off + i) 0

def onDownlinkNas (n : BsNode) (value : Bytes) : BsNode :=
  if value.length < 10 then n
  else
    let learnt := n.learnCrnti (getU32 value 0) (getU16 value 4)
    learnt.1.downlinkSend learnt.2 lcidNasDcch (Pdcp.tx (value.drop 8))

def onSessionKey (n : BsNode) (value : Bytes) : BsNode :=
  if value.length < 38 then n
  else
    let learnt := n.learnCrnti (getU32 value 0) (getU16 value 4)
    learnt.1.armSecurity learnt.2 (keyAt value 6)

/-- {tmsi:4}{tgt:2}{sec:1}{key:32}{imsi_len:1}{imsi}, for the named target only. -/
def hoCommandContext (cellId : Nat) (value : Bytes) : Option HoContext :=
  let imsiLen := (value.getD 39 0).toNat
  if value.length < 6 ∨ getU16 value 4 ≠ cellId ∨ value.length < 40 ∨ value.length < 40 + imsiLen then
    none
  else
    some {
      tmsi := getU32 value 0
      secOn := value.getD 6 0 ≠ 0
      upKey := keyAt value 7
      imsi := (value.drop 40).take imsiLen }

def onHoCommand (n : BsNode) (value : Bytes) : BsNode :=
  match hoCommandContext n.config.cellId value with
  | none => n
  | some ctx =>
    let m : CnMessage := ⟨.hoNotify, putU32 ctx.tmsi ++ putU16 n.nextHoCrnti⟩
    if n.config.amf then (n.prepareHandover ctx).record .amf m else n.prepareHandover ctx

/-- The source that a HO_PREPARED {tmsi:4}{tgt:2}{new_rnti:2} answers. -/
def preparedSource (n : BsNode) (tmsi targetCell : Nat) : Option Nat :=
  (w.order n .initiatedHo).find? fun source =>
    (n.initiatedHo[source]?).any fun ho => ho.targetCell = targetCell ∧ n.tmsiForCrnti w source = tmsi

def onHoPrepared (n : BsNode) (value : Bytes) : BsNode :=
  if value.length < 8 then n
  else
    match n.preparedSource w (getU32 value 0) (getU16 value 4) with
    | none => n
    | some source => n.commandHo source (getU16 value 4) (getU16 value 6)

def onDlData (n : BsNode) (value : Bytes) : BsNode :=
  if value.length < 6 then n else n.sendSdu (getU16 value 4) .bestEffort (value.drop 6)

def handleCnMessage (n : BsNode) (m : CnMessage) : BsNode :=
  match m.msgType with
  | .downlinkNas => n.onDownlinkNas m.value
  | .sessionKey => n.onSessionKey m.value
  | .hoCommand => n.onHoCommand m.value
  | .hoPrepared => n.onHoPrepared w m.value
  | .other 33 => n.onDlData m.value
  | _ => n

/-- {tmsi:4}{from:2}{to:2}{sec:1}{key:32}{imsi_len:1}{imsi}. -/
def xnPrepareContext (cellId : Nat) (value : Bytes) : Option HoContext :=
  let imsiLen := (value.getD 41 0).toNat
  if value.length < 41 ∨ getU16 value 6 ≠ cellId then none
  else
    some {
      tmsi := getU32 value 0
      secOn := value.getD 8 0 ≠ 0
      upKey := keyAt value 9
      imsi := if value.length ≥ 42 + imsiLen then (value.drop 42).take imsiLen else [] }

def onXnPrepare (n : BsNode) (value : Bytes) : BsNode :=
  match xnPrepareContext n.config.cellId value with
  | none => n
  | some ctx =>
    (n.prepareHandover ctx).record .xn ⟨.other 41, putU32 ctx.tmsi ++ putU16 n.nextHoCrnti⟩

/-- {tmsi:4}{new_rnti:2}: a refusal, C-RNTI 0, changes nothing. -/
def onXnPrepareAck (n : BsNode) (value : Bytes) : BsNode :=
  if value.length < 6 then n
  else
    match n.pendingXnHo[getU32 value 0]? with
    | none => n
    | some p =>
      if getU16 value 4 = 0 then n
      else
        { n with pendingXnHo := n.pendingXnHo.erase (getU32 value 0) }.commandHo
          p.sourceCrnti p.targetCell (getU16 value 4)

def onXnComplete (n : BsNode) (value : Bytes) : BsNode :=
  if value.length < 6 then n else n.completeHo w (getU16 value 4)

/-- {imsi_len:1}{imsi}{sdu}. -/
def onXnFwdData (n : BsNode) (value : Bytes) : BsNode :=
  let imsiLen := (value.getD 0 0).toNat
  if value.length < 2 ∨ value.length < 1 + imsiLen then n
  else
    let data := value.drop (1 + imsiLen)
    match decodeU2u data with
    | none => n
    | some pkt => (n.forwardU2uDl w pkt data 0).getD n

def handleXnMessage (n : BsNode) (m : CnMessage) : BsNode :=
  match m.msgType with
  | .other 40 => n.onXnPrepare m.value
  | .other 41 => n.onXnPrepareAck m.value
  | .other 42 => n.onXnFwdData w m.value
  | .other 43 => n.onXnComplete w m.value
  | _ => n

/-- What a peer may answer while it handles a message. -/
def answersTo : CnMsgType → CnMsgType → Bool
  | .initialUeMsg, .downlinkNas | .initialUeMsg, .sessionKey => true
  | .uplinkNas, .downlinkNas | .uplinkNas, .sessionKey => true
  | .hoRequired, .hoCommand | .hoRequired, .hoPrepared => true
  | .other 32, .other 33 => true
  | .other 40, .other 41 => true
  | _, _ => false

def handleLinkMessage (n : BsNode) : Link → CnMessage → BsNode
  | .xn, m => n.handleXnMessage w m
  | .amf, m | .upf, m => n.handleCnMessage w m

/-- `send()` of a message that the peer answers. -/
def send (n : BsNode) (link : Link) (m : CnMessage) : BsNode :=
  match n.script with
  | [] => n.record link m
  | replies :: rest =>
    (replies.filter fun r => answersTo m.msgType r.msgType).foldl
      (fun n r => n.handleLinkMessage w link r) ({ n with script := rest }.record link m)

/-! ### Source side of a handover -/

def hoContext (n : BsNode) (crnti : Nat) : HoContext :=
  let tmsi := n.tmsiForCrnti w crnti
  { tmsi := tmsi
    secOn := (n.flow crnti).secOn
    upKey := (n.flow crnti).upKey
    imsi := ((n.nas.findUe tmsi).map fun ue => ue.imsi).getD [] }

/-- {sec:1}{key:32}{imsi_len:1}{imsi}. -/
def contextBlob (ctx : HoContext) : Bytes :=
  (if ctx.secOn then 1 else 0) :: (ctx.upKey.toList ++ UInt8.ofNat ctx.imsi.length :: ctx.imsi)

/-- The Xn path records first, an answer may come inside the send. -/
def requestXn (n : BsNode) (crnti targetCell : Nat) : BsNode :=
  if crnti ∈ n.initiatedHo then n
  else
    let ctx := n.hoContext w crnti
    let pending : BsNode := { n with
      pendingXnHo := n.pendingXnHo.insert ctx.tmsi ⟨crnti, targetCell⟩
      initiatedHo := n.initiatedHo.insert crnti ⟨targetCell, 0⟩
      hoLog := n.hoLog ++ [.started crnti targetCell] }
    pending.send w .xn
      ⟨.other 40, putU32 ctx.tmsi ++ putU16 n.config.cellId ++ putU16 targetCell ++ contextBlob ctx⟩

/-- The AMF path records after the send. -/
def requestAmf (n : BsNode) (crnti targetCell : Nat) : BsNode :=
  let ctx := n.hoContext w crnti
  let started : BsNode := { n with hoLog := n.hoLog ++ [.started crnti targetCell] }
  let n := started.send w .amf
    ⟨.hoRequired, putU32 ctx.tmsi ++ putU16 targetCell ++ contextBlob ctx⟩
  { n with initiatedHo := n.initiatedHo.insert crnti ⟨targetCell, 0⟩ }

/-- The coordinator answers at once; a refusal leaves everything as it is. -/
def requestCoordinator (n : BsNode) (crnti targetCell : Nat) : BsNode :=
  match n.answers with
  | [] => n
  | none :: rest => { n with answers := rest }
  | some newCrnti :: rest =>
    let started : BsNode :=
      { n with answers := rest, hoLog := n.hoLog ++ [.started crnti targetCell] }
    started.commandHo crnti targetCell newCrnti

def requestHandover (n : BsNode) (crnti targetCell : Nat) : BsNode :=
  if crnti ∉ n.flows then n
  else if n.config.hoCoordinator then n.requestCoordinator crnti targetCell
  else if n.config.amf then n.requestAmf w crnti targetCell
  else if n.config.xn then n.requestXn w crnti targetCell
  else n

end

end BsNode

end AetherStack.Source.Core
