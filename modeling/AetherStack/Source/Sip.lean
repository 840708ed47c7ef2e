import AetherStack.Source.Bytes

/-!
# SIP-lite call control of a `UeNode`

Source: stack/app/src/u2u.cpp:15-53 (the signalling payload) and
stack/core/src/ue_node.cpp:857-1240 and 1325-1442 (the dialogs). A dialog reference of the
source is the index of the entry here, so a lookup that finds the wrong entry is visible.
The answers of `registered()` and the cached C-RNTI are arguments of the commands that read
them. Media streams, bearers and log texts are left out: no branch of the call control
depends on them. What the streams read of the dialogs is in `MediaUe`.
-/
namespace AetherStack.Source

abbrev Imsi := Bytes

/-! ## Signalling payloads -/

inductive MediaKind where
  | msg | voice | video | sig
  deriving DecidableEq, Repr

inductive SigMethod where
  | invite | ringing180 | ok200 | ack | bye | okBye | busy486 | decline603 | cancel
  deriving DecidableEq, Repr

structure SigMessage where
  method : SigMethod
  callId : UInt32
  media : MediaKind
  confId : UInt32 := 0
  deriving DecidableEq, Repr

def MediaKind.code : MediaKind → UInt8
  | .msg => 0
  | .voice => 1
  | .video => 2
  | .sig => 3

def SigMethod.code : SigMethod → UInt8
  | .invite => 1
  | .ringing180 => 2
  | .ok200 => 3
  | .ack => 4
  | .bye => 5
  | .okBye => 6
  | .busy486 => 7
  | .decline603 => 8
  | .cancel => 9

/-- An unknown method is not a signalling payload. -/
def SigMethod.ofCode? (code : UInt8) : Option SigMethod :=
  [.invite, .ringing180, .ok200, .ack, .bye, .okBye, .busy486, .decline603, .cancel].find?
    fun m : SigMethod => m.code = code

/-- Anything above VIDEO reads as VOICE. -/
def MediaKind.ofCode (code : UInt8) : MediaKind :=
  if code = 0 then .msg else if code = 2 then .video else .voice

def encodeSig (m : SigMessage) : Bytes :=
  m.method.code :: (putU32 m.callId.toNat ++ m.media.code ::
    if m.confId ≠ 0 then putU32 m.confId.toNat else [])

def decodeSig (payload : Bytes) : Option SigMessage :=
  if payload.length < 6 then none
  else
    (SigMethod.ofCode? (payload.getD 0 0)).map fun method =>
      { method := method
        callId := UInt32.ofNat (getU32 payload 1)
        media := MediaKind.ofCode (payload.getD 5 0)
        confId := if 10 ≤ payload.length then UInt32.ofNat (getU32 payload 6) else 0 }

theorem ofNat_getU32_putU32 (pre rest : Bytes) (x : UInt32) :
    UInt32.ofNat (getU32 (pre ++ (putU32 x.toNat ++ rest)) pre.length) = x := by
  have hlt : x.toNat < u32Modulus := x.toNat_lt
  rw [getU32_putU32, Nat.mod_eq_of_lt hlt]
  exact UInt32.ofNat_toNat

/-- A message comes out as it went in, but for a media kind above VIDEO. -/
theorem decodeSig_encodeSig (m : SigMessage) :
    decodeSig (encodeSig m) = some { m with media := MediaKind.ofCode m.media.code } := by
  obtain ⟨method, callId, media, confId⟩ := m
  have hlen : ¬ (encodeSig ⟨method, callId, media, confId⟩).length < 6 := by
    simp [encodeSig]
    omega
  have hmethod : SigMethod.ofCode? ((encodeSig ⟨method, callId, media, confId⟩).getD 0 0) =
      some method := by
    cases method <;> rfl
  have hcall : UInt32.ofNat (getU32 (encodeSig ⟨method, callId, media, confId⟩) 1) = callId :=
    ofNat_getU32_putU32 [method.code] _ callId
  have hconf : (if 10 ≤ (encodeSig ⟨method, callId, media, confId⟩).length then
      UInt32.ofNat (getU32 (encodeSig ⟨method, callId, media, confId⟩) 6) else 0) = confId := by
    by_cases hzero : confId = 0
    · simp [encodeSig, hzero]
    · rw [if_pos (by simp [encodeSig, hzero])]
      have hread := ofNat_getU32_putU32 (method.code :: (putU32 callId.toNat ++ [media.code])) []
        confId
      simpa [encodeSig, hzero] using hread
  simp only [decodeSig, if_neg hlen, hmethod, hcall, hconf, Option.map_some]
  rfl

/-! ## Dialogs and their timers -/

inductive CallState where
  | idle | outgoingRinging | incomingRinging | established
  deriving DecidableEq, Repr

/-- `startedHere` is not in the source and nothing reads it: it tells the dialogs of
`start_call` and `start_conf` from those of a received INVITE. -/
structure CallDialog where
  state : CallState := .idle
  peer : Imsi
  kind : MediaKind := .voice
  callId : UInt32 := 0
  confId : UInt32 := 0
  got180 : Bool := false
  firstResponseTimer : Nat := 0
  noanswerTimer : Nat := 0
  autoanswerTimer : Nat := 0
  startedHere : Bool
  deriving DecidableEq, Repr

def CallDialog.key (d : CallDialog) : Imsi × UInt32 := (d.peer, d.callId)

inductive DialogTimerKind where
  | firstResponse | noAnswer | autoAnswer
  deriving DecidableEq, Repr

/-- What the callback of a one-shot timer captured. -/
structure DialogTimer where
  kind : DialogTimerKind
  peer : Imsi
  callId : UInt32
  deriving DecidableEq, Repr

def DialogTimer.key (t : DialogTimer) : Imsi × UInt32 := (t.peer, t.callId)

/-- A signalling packet handed to `send_u2u`. -/
structure SigPacket where
  dst : Imsi
  payload : Bytes
  deriving DecidableEq, Repr

/-- The call-control members of `UeNode`, with the pending one-shot timers of its dialogs. -/
structure SipUe where
  imsi : Imsi
  dialogs : List CallDialog := []
  nextCallId : UInt32 := 1
  nextConfSeq : UInt32 := 1
  autoanswerMs : UInt32 := 4000
  lastCallFail : String := ""
  timers : List (Nat × DialogTimer) := []
  nextTimerId : Nat := 1
  deriving DecidableEq, Repr

def sendSigTo (method : SigMethod) (dst : Imsi) (callId : UInt32) (media : MediaKind)
    (confId : UInt32) : SigPacket :=
  ⟨dst, encodeSig { method := method, callId := callId, media := media, confId := confId }⟩

def CallDialog.sendSig (d : CallDialog) (method : SigMethod) : SigPacket :=
  sendSigTo method d.peer d.callId d.kind d.confId

namespace SipUe

def findDialog (u : SipUe) (peer : Imsi) (callId : UInt32) : Option Nat :=
  u.dialogs.findIdx? fun d => d.peer = peer ∧ d.callId = callId

/-- The established dialog of the kind if there is one, else any of the kind. -/
def findDialogByKind (u : SipUe) (kind : MediaKind) : Option Nat :=
  (u.dialogs.findIdx? fun d => d.kind = kind ∧ d.state = .established) <|>
    u.dialogs.findIdx? fun d => d.kind = kind

def findIncomingRinging (u : SipUe) : Option Nat :=
  u.dialogs.findIdx? fun d => d.state = .incomingRinging

def schedule (u : SipUe) (t : DialogTimer) : SipUe × Nat :=
  ({ u with timers := u.timers ++ [(u.nextTimerId, t)], nextTimerId := u.nextTimerId + 1 },
    u.nextTimerId)

/-- `TimerList::cancel`; the dialogs hold 0 for no timer and never cancel it. -/
def cancelTimer (u : SipUe) (id : Nat) : SipUe :=
  if id = 0 then u else { u with timers := u.timers.eraseP fun t => t.1 = id }

def setDialog (u : SipUe) (i : Nat) (d : CallDialog) : SipUe :=
  { u with dialogs := u.dialogs.set i d }

def cancelDialogTimers (u : SipUe) (i : Nat) (d : CallDialog) : SipUe :=
  (((u.cancelTimer d.firstResponseTimer).cancelTimer d.noanswerTimer).cancelTimer
    d.autoanswerTimer).setDialog i
      { d with firstResponseTimer := 0, noanswerTimer := 0, autoanswerTimer := 0 }

def eraseDialog (u : SipUe) (i : Nat) (d : CallDialog) : SipUe :=
  let u := u.cancelDialogTimers i d
  { u with dialogs := u.dialogs.eraseIdx i }

def failCall (u : SipUe) (i : Nat) (d : CallDialog) (reason : String) : SipUe :=
  { u with lastCallFail := reason }.eraseDialog i d

/-- The body `start_call` and `start_conf` share: push the dialog, INVITE, arm its timers. -/
def startDialog (u : SipUe) (kind : MediaKind) (dst : Imsi) (confId : UInt32) :
    SipUe × List SigPacket :=
  let callId := u.nextCallId
  let first := u.schedule ⟨.firstResponse, dst, callId⟩
  let ring := first.1.schedule ⟨.noAnswer, dst, callId⟩
  let d : CallDialog :=
    { state := .outgoingRinging, peer := dst, kind := kind, callId := callId, confId := confId
      firstResponseTimer := first.2, noanswerTimer := ring.2, startedHere := true }
  ({ ring.1 with nextCallId := callId + 1, dialogs := u.dialogs ++ [d] }, [d.sendSig .invite])

def startCall (u : SipUe) (registered : Bool) (kind : MediaKind) (dst : Imsi) :
    SipUe × List SigPacket :=
  if registered = false then (u, [])
  else if kind = .msg ∨ kind = .sig then (u, [])
  else if (u.findDialogByKind kind).isSome then ({ u with lastCallFail := "busy" }, [])
  else u.startDialog kind dst 0

/-- Both parties get a dialog of their own with the shared conference number. -/
def startConf (u : SipUe) (registered : Bool) (crnti : UInt16) (imsiB imsiC : Imsi) :
    SipUe × List SigPacket :=
  if registered = false then (u, [])
  else if u.dialogs ≠ [] then ({ u with lastCallFail := "busy" }, [])
  else
    let confId := (UInt32.ofNat crnti.toNat <<< 16) ||| u.nextConfSeq
    let toB := { u with nextConfSeq := u.nextConfSeq + 1 }.startDialog .voice imsiB confId
    let toC := toB.1.startDialog .voice imsiC confId
    (toC.1, toB.2 ++ toC.2)

/-- 200 OK, and the dialog is established. -/
def acceptCall (u : SipUe) (i : Nat) (d : CallDialog) : SipUe × List SigPacket :=
  let u := u.cancelDialogTimers i d
  (u.setDialog i { d with
      state := .established, firstResponseTimer := 0, noanswerTimer := 0, autoanswerTimer := 0 },
    [d.sendSig .ok200])

def answer (u : SipUe) : SipUe × List SigPacket :=
  match u.findIncomingRinging with
  | none => (u, [])
  | some i =>
    match u.dialogs[i]? with
    | none => (u, [])
    | some d => u.acceptCall i d

def decline (u : SipUe) : SipUe × List SigPacket :=
  match u.findIncomingRinging with
  | none => (u, [])
  | some i =>
    match u.dialogs[i]? with
    | none => (u, [])
    | some d => (u.eraseDialog i d, [d.sendSig .decline603])

/-- BYE when established, CANCEL while our INVITE rings, 603 while the peer's rings. -/
def endDialog (u : SipUe) (i : Nat) (d : CallDialog) : SipUe × List SigPacket :=
  match d.state with
  | .idle => (u, [])
  | .outgoingRinging => (u.eraseDialog i d, [d.sendSig .cancel])
  | .incomingRinging => (u.eraseDialog i d, [d.sendSig .decline603])
  | .established => (u.eraseDialog i d, [d.sendSig .bye])

/-- The dialog `end_call()` hangs up. -/
def endCallTarget (u : SipUe) : Option Nat :=
  (u.dialogs.findIdx? fun d => d.state = .established) <|> u.findDialogByKind .voice <|>
    u.findDialogByKind .video

/-- The dialog `end_call(kind)` hangs up: the only one there is if none has the kind. -/
def endCallKindTarget (u : SipUe) (kind : MediaKind) : Option Nat :=
  u.findDialogByKind kind <|> if u.dialogs.length = 1 then some 0 else none

def endTarget (u : SipUe) (target : Option Nat) : SipUe × List SigPacket :=
  match target with
  | none => (u, [])
  | some i =>
    match u.dialogs[i]? with
    | none => (u, [])
    | some d => u.endDialog i d

def endCall (u : SipUe) : SipUe × List SigPacket := u.endTarget u.endCallTarget

def endCallKind (u : SipUe) (kind : MediaKind) : SipUe × List SigPacket :=
  u.endTarget (u.endCallKindTarget kind)

/-- The re-scanning loop of `end_conf`: every turn but the last erases a dialog. -/
def endConfLoop : Nat → SipUe → SipUe × List SigPacket
  | 0, u => (u, [])
  | fuel + 1, u =>
    match u.dialogs.findIdx? fun d => d.confId ≠ 0 with
    | none => (u, [])
    | some i =>
      let ended := u.endTarget (some i)
      let more := endConfLoop fuel ended.1
      (more.1, ended.2 ++ more.2)

def endConf (u : SipUe) : SipUe × List SigPacket := endConfLoop u.dialogs.length u

/-- `stop_streams`: drop every dialog, with signalling before a detach. -/
def stopStreamsLoop (notify : Bool) : Nat → SipUe → SipUe × List SigPacket
  | 0, u => (u, [])
  | fuel + 1, u =>
    match u.dialogs[0]? with
    | none => (u, [])
    | some d =>
      let sent := match d.state with
        | .established => d.sendSig .bye
        | .outgoingRinging => d.sendSig .cancel
        | _ => d.sendSig .decline603
      let more := stopStreamsLoop notify fuel (u.eraseDialog 0 d)
      (more.1, (if notify then [sent] else []) ++ more.2)

def stopStreams (u : SipUe) (notify : Bool) : SipUe × List SigPacket :=
  stopStreamsLoop notify u.dialogs.length u

/-- The callback of a one-shot timer; `TimerList::tick` removed it before. -/
def onTimer (u : SipUe) (t : DialogTimer) : SipUe × List SigPacket :=
  match u.findDialog t.peer t.callId with
  | none => (u, [])
  | some i =>
    match u.dialogs[i]? with
    | none => (u, [])
    | some d =>
      match t.kind with
      | .firstResponse =>
        let d := { d with firstResponseTimer := 0 }
        let u := u.setDialog i d
        if d.state = .outgoingRinging ∧ d.got180 = false then
          (u.failCall i d "unreachable", [d.sendSig .cancel])
        else (u, [])
      | .noAnswer =>
        let d := { d with noanswerTimer := 0 }
        let u := u.setDialog i d
        if d.state = .outgoingRinging then (u.failCall i d "timeout", [d.sendSig .cancel])
        else (u, [])
      | .autoAnswer =>
        let d := { d with autoanswerTimer := 0 }
        let u := u.setDialog i d
        if d.state = .incomingRinging then u.acceptCall i d else (u, [])

/-- A pending timer fires. -/
def fire (u : SipUe) (id : Nat) : SipUe × List SigPacket :=
  match u.timers.find? fun t => t.1 = id with
  | none => (u, [])
  | some t => { u with timers := u.timers.eraseP fun t => t.1 = id }.onTimer t.2

/-- The INVITE branch for a sender and call number without a dialog. -/
def inviteNew (u : SipUe) (src : Imsi) (msg : SigMessage) : SipUe × List SigPacket :=
  if u.dialogs ≠ [] then (u, [sendSigTo .busy486 src msg.callId msg.media msg.confId])
  else
    let armed := if u.autoanswerMs > 0 then u.schedule ⟨.autoAnswer, src, msg.callId⟩ else (u, 0)
    let d : CallDialog :=
      { state := .incomingRinging, peer := src, kind := msg.media, callId := msg.callId
        confId := msg.confId, autoanswerTimer := armed.2, startedHere := false }
    ({ armed.1 with dialogs := u.dialogs ++ [d] }, [d.sendSig .ringing180])

/-- `handle_sig` for a dialog that was found. -/
def handleSigFound (u : SipUe) (i : Nat) (d : CallDialog) (method : SigMethod) :
    SipUe × List SigPacket :=
  match method with
  | .invite => (u, [d.sendSig (if d.state = .established then .ok200 else .ringing180)])
  | .ringing180 =>
    if d.state = .outgoingRinging then
      ((u.cancelTimer d.firstResponseTimer).setDialog i
        { d with got180 := true, firstResponseTimer := 0 }, [])
    else (u, [])
  | .ok200 =>
    -- `begin_media`: ACK and open the media gates
    if d.state = .outgoingRinging then
      ((u.cancelDialogTimers i d).setDialog i { d with
          state := .established, firstResponseTimer := 0, noanswerTimer := 0
          autoanswerTimer := 0 },
        [d.sendSig .ack])
    else (u, [])
  | .ack => (u, [])
  | .bye =>
    if d.state = .established then (u.eraseDialog i d, [d.sendSig .okBye]) else (u, [])
  | .okBye => (u, [])
  | .busy486 => if d.state = .outgoingRinging then (u.failCall i d "busy", []) else (u, [])
  | .decline603 => if d.state = .outgoingRinging then (u.failCall i d "declined", []) else (u, [])
  | .cancel => if d.state = .incomingRinging then (u.eraseDialog i d, []) else (u, [])

def handleSig (u : SipUe) (src : Imsi) (msg : SigMessage) : SipUe × List SigPacket :=
  match u.findDialog src msg.callId with
  | some i =>
    match u.dialogs[i]? with
    | none => (u, [])
    | some d => u.handleSigFound i d msg.method
  | none =>
    match msg.method with
    | .invite => u.inviteNew src msg
    | .bye => (u, [sendSigTo .okBye src msg.callId msg.media 0])
    | _ => (u, [])

/-- `handle_u2u` for a signalling packet: never our own, and undecodable ones are ignored. -/
def onSig (u : SipUe) (src : Imsi) (payload : Bytes) : SipUe × List SigPacket :=
  if src = u.imsi then (u, [])
  else
    match decodeSig payload with
    | none => (u, [])
    | some msg => u.handleSig src msg

end SipUe

/-- What the user, the node and the timers may ask of the call control. -/
inductive SipCommand where
  | startCall (registered : Bool) (kind : MediaKind) (dst : Imsi)
  | startConf (registered : Bool) (crnti : UInt16) (imsiB imsiC : Imsi)
  | answer
  | decline
  | endCall
  | endCallKind (kind : MediaKind)
  | endConf
  | stopStreams (notify : Bool)
  | setAutoanswer (ms : UInt32)
  | fire (id : Nat)
  deriving DecidableEq, Repr

def SipUe.command (u : SipUe) : SipCommand → SipUe × List SigPacket
  | .startCall registered kind dst => u.startCall registered kind dst
  | .startConf registered crnti imsiB imsiC => u.startConf registered crnti imsiB imsiC
  | .answer => u.answer
  | .decline => u.decline
  | .endCall => u.endCall
  | .endCallKind kind => u.endCallKind kind
  | .endConf => u.endConf
  | .stopStreams notify => u.stopStreams notify
  | .setAutoanswer ms => ({ u with autoanswerMs := ms }, [])
  | .fire id => u.fire id

end AetherStack.Source
