import AetherStack.Source.NasBs

/-!
# The AMF of the separated core

Source: stack/cn/src/amf.cpp:21-322, include/cn/amf.h and the envelope of
include/cn/cn_messages.h. The registrar of the core finds a pending challenge by the
TMSI of the envelope, over three tables that are edited side by side: `pending_auth_`,
`pending_rnti_` (which holds the expected responses) and `pending_rand_`. Where the
source indexes a table with `operator[]`, an absent entry reads as its default; for
`keys_` the default is also written back, the other tables drop the entry right after.
The RAND that `amf_rand` (lines 9-14) draws is an argument. The log is left out.
-/
namespace AetherStack.Source

inductive CnMsgType where
  | ngSetup
  | ngSetupOk
  | initialUeMsg
  | uplinkNas
  | downlinkNas
  | sessionKey
  | hoRequired
  | hoCommand
  | hoNotify
  | hoPrepared
  | other (octet : UInt8)
  deriving DecidableEq, Repr

structure CnMessage where
  msgType : CnMsgType
  value : Bytes
  deriving DecidableEq, Repr

structure AmfUeContext where
  imsi : Bytes
  tmsi : Nat
  registered : Bool := false
  servingRnti : Nat
  deriving DecidableEq, Repr

structure Amf where
  ueContexts : TmsiMap AmfUeContext := ∅
  pendingAuth : TmsiMap AmfUeContext := ∅
  pendingRnti : TmsiMap Bytes := ∅
  sqn : Bytes → UInt64 := fun _ => 0
  pendingRand : TmsiMap Bytes := ∅
  hoTarget : TmsiMap Nat := ∅
  keys : Bytes → Option Key256
  sessionKeys : TmsiMap Key256 := ∅
  nextTmsi : Nat := 0x00010001

namespace Amf

def releaseUe (a : Amf) (tmsi : Nat) : Amf :=
  { a with
    ueContexts := a.ueContexts.erase tmsi
    pendingAuth := a.pendingAuth.erase tmsi
    pendingRnti := a.pendingRnti.erase tmsi
    sessionKeys := a.sessionKeys.erase tmsi }

/-- {tmsi:4}{rnti:2}{len:2} ++ nas_pdu. -/
def downlinkNas (tmsi rnti : Nat) (pdu : Bytes) : CnMessage :=
  ⟨.downlinkNas, putU32 tmsi ++ putU16 rnti ++ putU16 pdu.length ++ pdu⟩

/-- The three erasures that end a challenge. -/
def dropChallenge (a : Amf) (tmsi : Nat) : Amf :=
  { a with
    pendingAuth := a.pendingAuth.erase tmsi
    pendingRnti := a.pendingRnti.erase tmsi
    pendingRand := a.pendingRand.erase tmsi }

/-- `keys_[imsi]`: an absent key is entered as the zero key. -/
def indexKey (a : Amf) (imsi : Bytes) : Amf :=
  { a with keys := Function.update a.keys imsi (some ((a.keys imsi).getD (Vector.replicate 32 0))) }

/-- Indexing a subscriber that is there writes nothing. -/
theorem indexKey_eq_self {a : Amf} {imsi : Bytes} {k : Key256} (h : a.keys imsi = some k) :
    a.indexKey imsi = a := by
  rw [indexKey, h, Option.getD_some, ← h, Function.update_eq_self]

section Handlers

variable (hmac : KeyedDigest)

def challengeVector (a : Amf) (rand : Rand) (k : Key256) (imsi : Bytes) : Aka.AuthVector :=
  Aka.generate hmac k ((a.sqn imsi + 1) &&& Aka.kSqnMask) rand.toList

/-- The block that both the first challenge and the resynchronisation run through. -/
def issueChallenge (a : Amf) (rand : Rand) (k : Key256) (ctx : AmfUeContext) :
    Amf × List CnMessage :=
  let av := a.challengeVector hmac rand k ctx.imsi
  ({ a with
      sqn := Function.update a.sqn ctx.imsi (a.sqn ctx.imsi + 1)
      pendingAuth := a.pendingAuth.insert ctx.tmsi ctx
      sessionKeys := a.sessionKeys.insert ctx.tmsi av.kasme
      pendingRnti := a.pendingRnti.insert ctx.tmsi av.xres
      pendingRand := a.pendingRand.insert ctx.tmsi av.rand },
    [downlinkNas ctx.tmsi ctx.servingRnti (NasBs.challengeMessage av)])

/-- INITIAL_UE_MSG {rnti:2} ++ nas_pdu. -/
def onInitialUeMsg (a : Amf) (rand : Rand) (value : Bytes) : Amf × List CnMessage :=
  if value.length < 3 then (a, [])
  else
    let rnti := getU16 value 0
    let nas := NasMessage.decode (value.drop 2)
    if nas.msgType ≠ .attachRequest then (a, [])
    else
      let newTmsi := a.nextTmsi
      let a := { a with nextTmsi := (a.nextTmsi + 1) % u32Modulus }
      let ctx : AmfUeContext := { imsi := nas.value, tmsi := newTmsi, servingRnti := rnti }
      match a.keys nas.value with
      | some k => a.issueChallenge hmac rand k ctx
      | none =>
        ({ a with ueContexts := a.ueContexts.insert newTmsi { ctx with registered := true } },
          [downlinkNas newTmsi rnti (NasBs.acceptMessage newTmsi)])

/-- AUTH_FAILURE [cause][imsi_len][imsi][AUTS], for the challenge pending under `tmsi`. -/
def onAuthFailure (a : Amf) (rand : Rand) (tmsi rnti : Nat) (value : Bytes) :
    Amf × List CnMessage :=
  let imsiLen := (value.getD 1 0).toNat
  if value.length < 2 ∨ value.length < 2 + imsiLen then (a, [])
  else
    let fimsi := (value.drop 2).take imsiLen
    match a.pendingAuth[tmsi]? with
    | none => (a, [])
    | some ctx =>
      if ctx.imsi ≠ fimsi then (a, [])
      else if value.getD 0 0 = Aka.kCauseSynchFailure ∧
          value.length ≥ 2 + imsiLen + Aka.kAutsLen then
        let auts := (value.drop (2 + imsiLen)).take Aka.kAutsLen
        let k := (a.keys fimsi).getD (Vector.replicate 32 0)
        let a := a.indexKey fimsi
        match Aka.verifyAuts hmac k auts (a.pendingRand.getD tmsi (List.replicate 16 0)) with
        | some sqnMs =>
          { a.dropChallenge tmsi with
            sqn := Function.update a.sqn fimsi (sqnMs &&& Aka.kSqnMask) }.issueChallenge
              hmac rand k { imsi := fimsi, tmsi := tmsi, servingRnti := rnti }
        | none => (a.dropChallenge tmsi, [])
      else (a.dropChallenge tmsi, [])

/-- AUTH_RESPONSE [RES:16], for the challenge pending under `tmsi`. -/
def onAuthResponse (a : Amf) (tmsi rnti : Nat) (res : Bytes) : Amf × List CnMessage :=
  match a.pendingAuth[tmsi]? with
  | none => (a, [])
  | some ctx =>
    if a.pendingRnti.getD tmsi [] = res then
      let done := a.dropChallenge tmsi
      ({ done with ueContexts := done.ueContexts.insert ctx.tmsi { ctx with registered := true } },
        [downlinkNas ctx.tmsi rnti (NasBs.acceptMessage ctx.tmsi),
          ⟨.sessionKey, putU32 ctx.tmsi ++ putU16 rnti ++
            (a.sessionKeys.getD ctx.tmsi (Vector.replicate 32 0)).toList⟩])
    else (a.dropChallenge tmsi, [downlinkNas tmsi rnti (NasBs.rejectMessage tmsi)])

/-- UPLINK_NAS {tmsi:4}{rnti:2}{len:2} ++ nas_pdu. -/
def onUplinkNas (a : Amf) (rand : Rand) (value : Bytes) : Amf × List CnMessage :=
  if value.length < 10 then (a, [])
  else
    let tmsi := getU32 value 0
    let rnti := getU16 value 4
    let nas := NasMessage.decode (value.drop 8)
    match nas.msgType with
    | .authFailure => a.onAuthFailure hmac rand tmsi rnti nas.value
    | .authResponse =>
      if nas.value.length = Aka.kResLen then a.onAuthResponse tmsi rnti nas.value else (a, [])
    | .detach => (a.releaseUe tmsi, [])
    | _ => (a, [])

/-- HO_NOTIFY {tmsi:4}{new_rnti:2}: the serving identity moves, the registration stays. -/
def onHoNotify (a : Amf) (value : Bytes) : Amf × List CnMessage :=
  if value.length < 6 then (a, [])
  else
    let tmsi := getU32 value 0
    let newRnti := getU16 value 4
    ({ a with
        ueContexts :=
          match a.ueContexts[tmsi]? with
          | some ctx => a.ueContexts.insert tmsi { ctx with servingRnti := newRnti }
          | none => a.ueContexts
        hoTarget := a.hoTarget.erase tmsi },
      [⟨.hoPrepared, putU32 tmsi ++ putU16 (a.hoTarget.getD tmsi 0) ++ value.drop 4⟩])

def handle (a : Amf) (rand : Rand) (msg : CnMessage) : Amf × List CnMessage :=
  match msg.msgType with
  | .ngSetup => (a, [⟨.ngSetupOk, []⟩])
  | .initialUeMsg => a.onInitialUeMsg hmac rand msg.value
  | .uplinkNas => a.onUplinkNas hmac rand msg.value
  | .hoRequired =>
    if msg.value.length < 8 then (a, [])
    else
      ({ a with hoTarget := a.hoTarget.insert (getU32 msg.value 0) (getU16 msg.value 4) },
        [⟨.hoCommand, msg.value⟩])
  | .hoNotify => a.onHoNotify msg.value
  | _ => (a, [])

/-- The NAS message inside an UPLINK_NAS envelope. -/
def uplinkMessage (value : Bytes) : NasMessage := NasMessage.decode (value.drop 8)

/-- Everything `handle` can do to the registrar, with the guards of each branch. -/
inductive Handled (a : Amf) (rand : Rand) (msg : CnMessage) : Amf → List CnMessage → Prop
  | kept (hoTarget : TmsiMap Nat) (out : List CnMessage) :
    Handled a rand msg { a with hoTarget := hoTarget } out
  | challenged {imsi : Bytes} {k : Key256} (rnti : Nat) :
    msg.msgType = .initialUeMsg →
    a.keys imsi = some k →
    Handled a rand msg
      ({ a with nextTmsi := (a.nextTmsi + 1) % u32Modulus }.issueChallenge hmac rand k
        { imsi := imsi, tmsi := a.nextTmsi, servingRnti := rnti }).1
      ({ a with nextTmsi := (a.nextTmsi + 1) % u32Modulus }.issueChallenge hmac rand k
        { imsi := imsi, tmsi := a.nextTmsi, servingRnti := rnti }).2
  | openAccess (rnti : Nat) (out : List CnMessage) :
    msg.msgType = .initialUeMsg →
    (NasMessage.decode (msg.value.drop 2)).msgType = .attachRequest →
    3 ≤ msg.value.length →
    a.keys (NasMessage.decode (msg.value.drop 2)).value = none →
    Handled a rand msg
      { a with
        nextTmsi := (a.nextTmsi + 1) % u32Modulus
        ueContexts := a.ueContexts.insert a.nextTmsi
          { imsi := (NasMessage.decode (msg.value.drop 2)).value, tmsi := a.nextTmsi,
            registered := true, servingRnti := rnti } }
      out
  | resynchronised {ctx : AmfUeContext} (sqn : Bytes → UInt64) (tmsi rnti : Nat) :
    a.pendingAuth[tmsi]? = some ctx →
    Handled a rand msg
      ({ (a.indexKey ctx.imsi).dropChallenge tmsi with sqn := sqn }.issueChallenge hmac rand
        ((a.keys ctx.imsi).getD (Vector.replicate 32 0))
        { imsi := ctx.imsi, tmsi := tmsi, servingRnti := rnti }).1
      ({ (a.indexKey ctx.imsi).dropChallenge tmsi with sqn := sqn }.issueChallenge hmac rand
        ((a.keys ctx.imsi).getD (Vector.replicate 32 0))
        { imsi := ctx.imsi, tmsi := tmsi, servingRnti := rnti }).2
  | refused {ctx : AmfUeContext} (tmsi : Nat) :
    a.pendingAuth[tmsi]? = some ctx →
    Handled a rand msg ((a.indexKey ctx.imsi).dropChallenge tmsi) []
  | dropped (tmsi : Nat) (out : List CnMessage) : Handled a rand msg (a.dropChallenge tmsi) out
  | accepted {ctx : AmfUeContext} (out : List CnMessage) :
    msg.msgType = .uplinkNas →
    10 ≤ msg.value.length →
    (uplinkMessage msg.value).msgType = .authResponse →
    (uplinkMessage msg.value).value.length = Aka.kResLen →
    a.pendingAuth[getU32 msg.value 0]? = some ctx →
    a.pendingRnti.getD (getU32 msg.value 0) [] = (uplinkMessage msg.value).value →
    Handled a rand msg
      { a.dropChallenge (getU32 msg.value 0) with
        ueContexts := a.ueContexts.insert ctx.tmsi { ctx with registered := true } }
      out
  | released (tmsi : Nat) : Handled a rand msg (a.releaseUe tmsi) []
  | moved {ctx : AmfUeContext} (tmsi newRnti : Nat) (hoTarget : TmsiMap Nat)
      (out : List CnMessage) :
    a.ueContexts[tmsi]? = some ctx →
    Handled a rand msg
      { a with
        ueContexts := a.ueContexts.insert tmsi { ctx with servingRnti := newRnti }
        hoTarget := hoTarget }
      out

theorem onUplinkNas_handled (a : Amf) (rand : Rand) {msg : CnMessage}
    (htype : msg.msgType = .uplinkNas) :
    Handled hmac a rand msg (a.onUplinkNas hmac rand msg.value).1
      (a.onUplinkNas hmac rand msg.value).2 := by
  dsimp only [onUplinkNas]
  split
  · exact .kept a.hoTarget []
  · rename_i hlen
    split
    · dsimp only [onAuthFailure]
      split
      · exact .kept a.hoTarget []
      · split
        · exact .kept a.hoTarget []
        · rename_i ctx hpending
          split
          · exact .kept a.hoTarget []
          · rename_i himsi
            rw [ne_eq, not_not] at himsi
            rw [← himsi]
            split
            · split
              · exact .resynchronised _ _ _ hpending
              · exact .refused _ hpending
            · exact .dropped _ []
    · rename_i hnas
      split
      · rename_i hres
        unfold onAuthResponse
        split
        · exact .kept a.hoTarget []
        · rename_i ctx hpending
          split
          · rename_i hmatch
            exact .accepted _ htype (by omega) hnas hres hpending hmatch
          · exact .dropped _ _
      · exact .kept a.hoTarget []
    · exact .released _
    · exact .kept a.hoTarget []

/-- Every message is one of these cases. -/
theorem handle_handled (a : Amf) (rand : Rand) (msg : CnMessage) :
    Handled hmac a rand msg (a.handle hmac rand msg).1 (a.handle hmac rand msg).2 := by
  unfold handle
  split
  · exact .kept a.hoTarget _
  · rename_i htype
    dsimp only [onInitialUeMsg]
    split
    · exact .kept a.hoTarget []
    · rename_i hlen
      split
      · exact .kept a.hoTarget []
      · rename_i hnas
        rw [ne_eq, not_not] at hnas
        split
        · rename_i hkey
          exact .challenged _ htype hkey
        · rename_i hkey
          exact .openAccess _ _ htype hnas (by omega) hkey
  · rename_i htype
    exact onUplinkNas_handled hmac a rand htype
  · split
    · exact .kept a.hoTarget []
    · exact .kept _ _
  · dsimp only [onHoNotify]
    split
    · exact .kept a.hoTarget []
    · split
      · rename_i hctx
        exact .moved _ _ _ _ hctx
      · exact .kept _ _
  · exact .kept a.hoTarget []

end Handlers

end Amf

end AetherStack.Source
