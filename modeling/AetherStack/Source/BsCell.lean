import AetherStack.Source.BsNode
import AetherStack.Source.NasBs

/-!
# `BsNode`: who is served, and under which identities

Source: stack/core/src/bs_node.cpp (the NAS send callback 73-98, the NAS uplink 629-682,
`tmsi_for_crnti`, `request_handover`, `prepare_handover`) and
stack/mac/src/rach_bs.cpp:42-72 with the SETUP_REQUEST branch of stack/rrc/src/rrc_bs.cpp.
The embedded registrar, the map from TMSI to C-RNTI and the flows of one cell, without
the separated core. As in the system model a flow that was never touched is the default one.

The cell is a part of the whole node and runs with it (`cell_of_node`); frames, RRC and the user
plane are left out here. A NAS PDU arrives here already deciphered; `tmsi_for_crnti` walks an
unordered map, so its order is an argument.
-/
namespace AetherStack.Source

structure HoContext where
  tmsi : Nat := 0
  imsi : Bytes := []
  upKey : Key256 := Vector.replicate 32 0
  secOn : Bool := false

structure BsCell where
  nas : NasBs
  tmsiToCrnti : TmsiMap Nat := ∅
  flows : Nat → DlFlow := fun _ => {}
  hoPrepared : Nat → Option HoContext := fun _ => none
  nextCrnti : Nat
  nextHoCrnti : Nat
  maxDlQueuePerUe : Nat := 64

namespace BsCell

/-- A cell with its C-RNTI base and subscriber database: RACH allocates from the base,
handover from 0x1000 above it. -/
def make (crntiBase : Nat) (db : Bytes → Option Key256) : BsCell :=
  { nas := { keys := db }
    nextCrnti := crntiBase
    nextHoCrnti := (crntiBase + 0x1000) % snModulus }

/-- RRC SETUP [c_rnti:2]. -/
def setupMessage (crnti : Nat) : Bytes := 2 :: (putU16 2 ++ putU16 crnti)

/-- MSG3 with a SETUP_REQUEST: a C-RNTI is allocated and RRC SETUP queued on its flow. -/
def onMsg3 (c : BsCell) : BsCell :=
  { c with
    nextCrnti := (c.nextCrnti + 1) % snModulus
    flows := Function.update c.flows c.nextCrnti
      ((c.flows c.nextCrnti).downlinkSend c.maxDlQueuePerUe Mac.lcidCcch
        (setupMessage c.nextCrnti)) }

/-- The C-RNTI a NAS message for `tmsi` goes to: the one it maps to, else the uplink's. -/
def replyCrnti (c : BsCell) (ulCrnti tmsi : Nat) : Nat := (c.tmsiToCrnti[tmsi]?).getD ulCrnti

/-- The send callback of the registrar, which has already changed its tables. -/
def onNasSend (c : BsCell) (ulCrnti : Nat) (sent : Nat × Bytes) : BsCell :=
  let crnti := c.replyCrnti ulCrnti sent.1
  { c with
    tmsiToCrnti := if c.tmsiToCrnti.contains sent.1 then c.tmsiToCrnti
      else c.tmsiToCrnti.insert sent.1 ulCrnti
    flows := Function.update c.flows crnti
      ((c.flows crnti).sendNas c.maxDlQueuePerUe sent.2 (c.nas.sessionKeys[sent.1]?)) }

/-- A NAS PDU on the uplink of `rnti`. A DETACH also ends the mapping and the flow of the
C-RNTI it came on. -/
def onNasUplink (hmac : KeyedDigest) (c : BsCell) (rnti : Nat) (order : List Nat) (rand : Rand)
    (pdu : Bytes) : BsCell :=
  let handled := c.nas.handleMessage hmac order rand 0 pdu
  let c := handled.2.foldl (fun c sent => c.onNasSend rnti sent) { c with nas := handled.1 }
  if (NasMessage.decode pdu).msgType = .detach then
    { c with
      tmsiToCrnti := c.tmsiToCrnti.filter fun _ crnti => crnti ≠ rnti
      flows := Function.update c.flows rnti {} }
  else c

/-- The first TMSI that maps to `crnti`, zero when there is none. -/
def tmsiForCrnti (c : BsCell) (order : List Nat) (crnti : Nat) : Nat :=
  ((c.tmsiToCrnti.firstMatch order fun r => r = crnti).map Prod.fst).getD 0

/-- The context `request_handover` sends to the target. -/
def hoContext (c : BsCell) (order : List Nat) (crnti : Nat) : HoContext :=
  let tmsi := c.tmsiForCrnti order crnti
  { tmsi := tmsi
    secOn := (c.flows crnti).secOn
    upKey := (c.flows crnti).upKey
    imsi := ((c.nas.findUe tmsi).map fun ue => ue.imsi).getD [] }

/-- The target side: a C-RNTI of the handover range, its flow with the security of the
source, the mapping and the registration under the TMSI of the source. -/
def prepareHandover (c : BsCell) (ctx : HoContext) : BsCell :=
  let newCrnti := c.nextHoCrnti
  { c with
    nextHoCrnti := (c.nextHoCrnti + 1) % snModulus
    flows := Function.update c.flows newCrnti
      { c.flows newCrnti with upKey := ctx.upKey, secOn := ctx.secOn }
    tmsiToCrnti := if ctx.tmsi ≠ 0 then c.tmsiToCrnti.insert ctx.tmsi newCrnti else c.tmsiToCrnti
    nas := if ctx.imsi ≠ [] then c.nas.adoptUe ctx.tmsi ctx.imsi else c.nas
    hoPrepared := Function.update c.hoPrepared newCrnti (some ctx) }

end BsCell

end AetherStack.Source
