import AetherStack.Lib.Checked
import AetherStack.Source.BsCore

/-!
# The message handlers with checked accesses

Source: `BsNode::handle_cn_message` and `BsNode::handle_xn_message` of
stack/core/src/bs_node.cpp:124-242 and 1070-1153, `Amf::handle` of stack/cn/src/amf.cpp:21-322,
and stack/cn/src/upf.cpp:6-60. The handlers are written again with every index, iterator range and
copy of the source as a checked access; `none` is an access outside its buffer. The size guards are
those of the source, and everything that is no access is the model of the handler. The sinks of the
UPF are the list of what they were given, and the log is left out; its handler without the checks is
`Upf.handle`.
-/
namespace AetherStack.Source
open Lib

/-- `get16` without a check of its own. -/
def readU16 (v : Bytes) (off : Nat) : Option Nat := do
  let lo ← readAt v off
  let hi ← readAt v (off + 1)
  some (lo.toNat ||| (hi.toNat <<< 8))

def readU32 (v : Bytes) (off : Nat) : Option Nat := do
  let low ← readU16 v off
  let high ← readU16 v (off + 2)
  some (low + high <<< 16)

theorem readU16_eq {v : Bytes} {off : Nat} (h : off + 2 ≤ v.length) :
    readU16 v off = some (getU16 v off) := by
  rw [readU16, readAt_eq_getD (by omega) 0, readAt_eq_getD (by omega) 0]
  rfl

theorem readU32_eq {v : Bytes} {off : Nat} (h : off + 4 ≤ v.length) :
    readU32 v off = some (getU32 v off) := by
  rw [readU32, readU16_eq (by omega), readU16_eq (by omega)]
  rfl

namespace Core
open Mac

namespace BsNode

section
variable (w : World)

def checkedDownlinkNas (n : BsNode) (value : Bytes) : Option BsNode :=
  if value.length < 10 then some n
  else do
    let tmsi ← readU32 value 0
    let rnti ← readU16 value 4
    let learnt := n.learnCrnti tmsi rnti
    let nasPdu ← readRange value 8 value.length
    some (learnt.1.downlinkSend learnt.2 lcidNasDcch (Pdcp.tx nasPdu))

/-- The copy ends where the message does. -/
def checkedSessionKey (n : BsNode) (value : Bytes) : Option BsNode :=
  if value.length < 38 then some n
  else do
    let tmsi ← readU32 value 0
    let rnti ← readU16 value 4
    let learnt := n.learnCrnti tmsi rnti
    let octets ← readRange value 6 value.length
    let key ← copyInto (learnt.1.flow learnt.2).upKey octets
    some (learnt.1.armSecurity learnt.2 key)

def checkedHoCommandContext (cellId : Nat) (value : Bytes) : Option (Option HoContext) :=
  if value.length < 6 then some none
  else do
    let tmsi ← readU32 value 0
    let targetCell ← readU16 value 4
    if targetCell ≠ cellId then some none
    else if value.length < 40 then some none
    else do
      let secOn ← readAt value 6
      let octets ← readRange value 7 39
      let key ← copyInto (Vector.replicate 32 0) octets
      let imsiLen ← readAt value 39
      if value.length < 40 + imsiLen.toNat then some none
      else do
        let imsi ← readRange value 40 (40 + imsiLen.toNat)
        some (some { tmsi := tmsi, secOn := secOn ≠ 0, upKey := key, imsi := imsi })

def checkedHoCommand (n : BsNode) (value : Bytes) : Option BsNode := do
  match ← checkedHoCommandContext n.config.cellId value with
  | none => some n
  | some ctx =>
    let m : CnMessage := ⟨.hoNotify, putU32 ctx.tmsi ++ putU16 n.nextHoCrnti⟩
    some (if n.config.amf then (n.prepareHandover ctx).record .amf m else n.prepareHandover ctx)

def checkedHoPrepared (n : BsNode) (value : Bytes) : Option BsNode :=
  if value.length < 8 then some n
  else do
    let tmsi ← readU32 value 0
    let targetCell ← readU16 value 4
    let newCrnti ← readU16 value 6
    match n.preparedSource w tmsi targetCell with
    | none => some n
    | some source => some (n.commandHo source targetCell newCrnti)

def checkedDlData (n : BsNode) (value : Bytes) : Option BsNode :=
  if value.length < 6 then some n
  else do
    let rnti ← readU16 value 4
    let data ← readRange value 6 value.length
    some (n.sendSdu rnti .bestEffort data)

def checkedHandleCnMessage (n : BsNode) (m : CnMessage) : Option BsNode :=
  match m.msgType with
  | .downlinkNas => n.checkedDownlinkNas m.value
  | .sessionKey => n.checkedSessionKey m.value
  | .hoCommand => n.checkedHoCommand m.value
  | .hoPrepared => n.checkedHoPrepared w m.value
  | .other 33 => n.checkedDlData m.value
  | _ => some n

/-- The length octet of the IMSI stands at 41, behind a guard of 41 octets. -/
def checkedXnPrepareContext (cellId : Nat) (value : Bytes) : Option (Option HoContext) :=
  if value.length < 41 then some none
  else do
    let tmsi ← readU32 value 0
    let _fromCell ← readU16 value 4
    let toCell ← readU16 value 6
    if toCell ≠ cellId then some none
    else do
      let secOn ← readAt value 8
      let octets ← readRange value 9 41
      let key ← copyInto (Vector.replicate 32 0) octets
      let imsiLen ← readAt value 41
      let imsi ←
        if value.length ≥ 42 + imsiLen.toNat then readRange value 42 (42 + imsiLen.toNat)
        else some []
      some (some { tmsi := tmsi, secOn := secOn ≠ 0, upKey := key, imsi := imsi })

def checkedXnPrepare (n : BsNode) (value : Bytes) : Option BsNode := do
  match ← checkedXnPrepareContext n.config.cellId value with
  | none => some n
  | some ctx =>
    some ((n.prepareHandover ctx).record .xn ⟨.other 41, putU32 ctx.tmsi ++ putU16 n.nextHoCrnti⟩)

def checkedXnPrepareAck (n : BsNode) (value : Bytes) : Option BsNode :=
  if value.length < 6 then some n
  else do
    let tmsi ← readU32 value 0
    let newCrnti ← readU16 value 4
    match n.pendingXnHo[tmsi]? with
    | none => some n
    | some p =>
      some (if newCrnti = 0 then n
        else
          { n with pendingXnHo := n.pendingXnHo.erase tmsi }.commandHo
            p.sourceCrnti p.targetCell newCrnti)

def checkedXnComplete (n : BsNode) (value : Bytes) : Option BsNode :=
  if value.length < 6 then some n
  else do
    let newCrnti ← readU16 value 4
    some (n.completeHo w newCrnti)

def checkedXnFwdData (n : BsNode) (value : Bytes) : Option BsNode :=
  if value.length < 2 then some n
  else do
    let imsiLen ← readAt value 0
    if value.length < 1 + imsiLen.toNat then some n
    else do
      let data ← readRange value (1 + imsiLen.toNat) value.length
      match decodeU2u data with
      | none => some n
      | some pkt => some ((n.forwardU2uDl w pkt data 0).getD n)

def checkedHandleXnMessage (n : BsNode) (m : CnMessage) : Option BsNode :=
  match m.msgType with
  | .other 40 => n.checkedXnPrepare m.value
  | .other 41 => n.checkedXnPrepareAck m.value
  | .other 42 => n.checkedXnFwdData w m.value
  | .other 43 => n.checkedXnComplete w m.value
  | _ => some n

end

end BsNode

end Core

namespace Amf

section
variable (hmac : KeyedDigest)

def checkedInitialUeMsg (a : Amf) (rand : Rand) (value : Bytes) : Option (Amf × List CnMessage) :=
  if value.length < 3 then some (a, [])
  else do
    let rnti ← readU16 value 0
    let nas := NasMessage.decode (← readRange value 2 value.length)
    if nas.msgType ≠ .attachRequest then some (a, [])
    else
      let newTmsi := a.nextTmsi
      let a := { a with nextTmsi := (a.nextTmsi + 1) % u32Modulus }
      let ctx : AmfUeContext := { imsi := nas.value, tmsi := newTmsi, servingRnti := rnti }
      match a.keys nas.value with
      | some k => some (a.issueChallenge hmac rand k ctx)
      | none =>
        some ({ a with ueContexts := a.ueContexts.insert newTmsi { ctx with registered := true } },
          [downlinkNas newTmsi rnti (NasBs.acceptMessage newTmsi)])

def checkedAuthFailure (a : Amf) (rand : Rand) (tmsi rnti : Nat) (value : Bytes) :
    Option (Amf × List CnMessage) :=
  if value.length < 2 then some (a, [])
  else do
    let len ← readAt value 1
    let imsiLen := len.toNat
    if value.length < 2 + imsiLen then some (a, [])
    else do
      let cause ← readAt value 0
      let fimsi ← readRange value 2 (2 + imsiLen)
      match a.pendingAuth[tmsi]? with
      | none => some (a, [])
      | some ctx =>
        if ctx.imsi ≠ fimsi then some (a, [])
        else if cause = Aka.kCauseSynchFailure ∧ value.length ≥ 2 + imsiLen + Aka.kAutsLen then do
          let octets ← readRange value (2 + imsiLen) (2 + imsiLen + Aka.kAutsLen)
          let auts ← copyInto (Vector.replicate Aka.kAutsLen 0) octets
          let k := (a.keys fimsi).getD (Vector.replicate 32 0)
          let a := a.indexKey fimsi
          match Aka.verifyAuts hmac k auts.toList
              (a.pendingRand.getD tmsi (List.replicate 16 0)) with
          | some sqnMs =>
            some ({ a.dropChallenge tmsi with
              sqn := Function.update a.sqn fimsi (sqnMs &&& Aka.kSqnMask) }.issueChallenge
                hmac rand k { imsi := fimsi, tmsi := tmsi, servingRnti := rnti })
          | none => some (a.dropChallenge tmsi, [])
        else some (a.dropChallenge tmsi, [])

/-- The comparison reads as many octets of the expected response as of the received one. -/
def checkedAuthResponse (a : Amf) (tmsi rnti : Nat) (res : Bytes) :
    Option (Amf × List CnMessage) :=
  match a.pendingAuth[tmsi]? with
  | none => some (a, [])
  | some ctx => do
    let xres ← readRange (a.pendingRnti.getD tmsi []) 0 res.length
    if xres = res then
      let done := a.dropChallenge tmsi
      some ({ done with ueContexts := done.ueContexts.insert ctx.tmsi { ctx with registered := true } },
        [downlinkNas ctx.tmsi rnti (NasBs.acceptMessage ctx.tmsi),
          ⟨.sessionKey, putU32 ctx.tmsi ++ putU16 rnti ++
            (a.sessionKeys.getD ctx.tmsi (Vector.replicate 32 0)).toList⟩])
    else some (a.dropChallenge tmsi, [downlinkNas tmsi rnti (NasBs.rejectMessage tmsi)])

def checkedUplinkNas (a : Amf) (rand : Rand) (value : Bytes) : Option (Amf × List CnMessage) :=
  if value.length < 10 then some (a, [])
  else do
    let tmsi ← readU32 value 0
    let rnti ← readU16 value 4
    let nas := NasMessage.decode (← readRange value 8 value.length)
    match nas.msgType with
    | .authFailure => a.checkedAuthFailure hmac rand tmsi rnti nas.value
    | .authResponse =>
      if nas.value.length = Aka.kResLen then a.checkedAuthResponse tmsi rnti nas.value
      else some (a, [])
    | .detach => some (a.releaseUe tmsi, [])
    | _ => some (a, [])

def checkedHoNotify (a : Amf) (value : Bytes) : Option (Amf × List CnMessage) :=
  if value.length < 6 then some (a, [])
  else do
    let tmsi ← readU32 value 0
    let newRnti ← readU16 value 4
    let tail ← readRange value 4 value.length
    some ({ a with
        ueContexts :=
          match a.ueContexts[tmsi]? with
          | some ctx => a.ueContexts.insert tmsi { ctx with servingRnti := newRnti }
          | none => a.ueContexts
        hoTarget := a.hoTarget.erase tmsi },
      [⟨.hoPrepared, putU32 tmsi ++ putU16 (a.hoTarget.getD tmsi 0) ++ tail⟩])

/-- The cell of a NG_SETUP is read for the log. -/
def checkedHandle (a : Amf) (rand : Rand) (msg : CnMessage) : Option (Amf × List CnMessage) :=
  match msg.msgType with
  | .ngSetup => do
    let _cell ← if msg.value.length ≥ 2 then readU16 msg.value 0 else some 0
    some (a, [⟨.ngSetupOk, []⟩])
  | .initialUeMsg => a.checkedInitialUeMsg hmac rand msg.value
  | .uplinkNas => a.checkedUplinkNas hmac rand msg.value
  | .hoRequired =>
    if msg.value.length < 8 then some (a, [])
    else do
      let tmsi ← readU32 msg.value 0
      let targetCell ← readU16 msg.value 4
      some ({ a with hoTarget := a.hoTarget.insert tmsi targetCell }, [⟨.hoCommand, msg.value⟩])
  | .hoNotify => a.checkedHoNotify msg.value
  | _ => some (a, [])

end

end Amf

structure UpfRoute where
  rnti : Nat := 0
  gnbCell : Nat := 0
  deriving DecidableEq, Repr

/-- The table of routes; the PDUs given to the uplink sink collect in `sunk`. -/
structure Upf where
  routes : TmsiMap UpfRoute := ∅
  sunk : List (Nat × Bytes) := []

namespace Upf

def checkedHandle (u : Upf) (msg : CnMessage) : Option Upf :=
  match msg.msgType with
  | .other 32 =>
    if msg.value.length < 6 then some u
    else do
      let tmsi ← readU32 msg.value 0
      let rnti ← readU16 msg.value 4
      let pdu ← readRange msg.value 6 msg.value.length
      some {
        routes := u.routes.insert tmsi { (u.routes[tmsi]?).getD {} with rnti := rnti }
        sunk := u.sunk ++ [(tmsi, pdu)] }
  | .other 34 =>
    if msg.value.length < 8 then some u
    else do
      let tmsi ← readU32 msg.value 0
      let newRnti ← readU16 msg.value 4
      let gnbCell ← readU16 msg.value 6
      some { u with routes := u.routes.insert tmsi ⟨newRnti, gnbCell⟩ }
  | _ => some u

end Upf

end AetherStack.Source
