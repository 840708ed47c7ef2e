import AetherStack.Lib.Run
import AetherStack.Source.SipDialogs
import AetherStack.Guarantees.CallProtocol

/-!
# Two UEs agree on their calls

Two `UeNode`s with their signalling in flight, delivered reliably and in order in each
direction. Seen under one call number, every step of the pair is a move of `CallProtocol`,
so its invariant holds for every number and the two sides agree whenever nothing is in
flight. Calls to other subscribers leave the pair; nobody else calls in.
-/
namespace AetherStack.Guarantees
open Source Lib CallProtocol

/-! ## One number at a time -/

def phaseOfState : CallState → Phase
  | .idle => .none
  | .outgoingRinging => .outgoing
  | .incomingRinging => .incoming
  | .established => .established

def phaseOf (u : SipUe) (k : Imsi × UInt32) : Phase :=
  match Keyed.lookup CallDialog.key u.dialogs k with
  | none => .none
  | some d => phaseOfState d.state

/-- The messages that move a party; 180, ACK and the 200 to a BYE do not. -/
def moving : SigMethod → List Msg
  | .invite => [.invite]
  | .ok200 => [.ok]
  | .bye => [.bye]
  | .busy486 | .decline603 => [.refuse]
  | .cancel => [.cancel]
  | .ringing180 | .ack | .okBye => []

/-- What a payload says under number `n`. -/
def readAs (n : UInt32) (payload : Bytes) : List Msg :=
  match decodeSig payload with
  | none => []
  | some m => if m.callId = n then moving m.method else []

def spoken (n : UInt32) (payloads : List Bytes) : List Msg := payloads.flatMap (readAs n)

/-- The payloads of the packets for one destination. -/
def addressed (dst : Imsi) (packets : List SigPacket) : List Bytes :=
  (packets.filter fun p => p.dst = dst).map SigPacket.payload

/-- What an operation says to `k.1` under number `k.2`. -/
def saidTo (k : Imsi × UInt32) (packets : List SigPacket) : List Msg :=
  spoken k.2 (addressed k.1 packets)

@[simp] theorem spoken_append (n : UInt32) (a b : List Bytes) :
    spoken n (a ++ b) = spoken n a ++ spoken n b := by
  simp [spoken]

@[simp] theorem saidTo_nil (k : Imsi × UInt32) : saidTo k [] = [] := rfl

/-- A message is heard in its own call only, and only if it moves a call. -/
theorem readAs_encodeSig (n : UInt32) (m : SigMessage) :
    readAs n (encodeSig m) = if m.callId = n then moving m.method else [] := by
  simp [readAs, decodeSig_encodeSig]

theorem saidTo_sendSigTo (k : Imsi × UInt32) (method : SigMethod) (dst : Imsi) (callId : UInt32)
    (media : MediaKind) (confId : UInt32) :
    saidTo k [sendSigTo method dst callId media confId] =
      if (dst, callId) = k then moving method else [] := by
  obtain ⟨peer, n⟩ := k
  by_cases hdst : dst = peer
  · simp [saidTo, addressed, spoken, sendSigTo, hdst, readAs_encodeSig]
  · simp [saidTo, addressed, spoken, sendSigTo, hdst]

theorem saidTo_sendSig (k : Imsi × UInt32) (d : CallDialog) (method : SigMethod) :
    saidTo k [d.sendSig method] = if d.key = k then moving method else [] :=
  saidTo_sendSigTo k method d.peer d.callId d.kind d.confId

/-! ## What the operations do under one key -/

section Focus

variable {u : SipUe}

/-- With distinct keys the phase of a call is that of its dialog. -/
theorem phaseOf_getElem? (h : u.WellKeyed) {i : Nat} {d : CallDialog}
    (hi : u.dialogs[i]? = some d) : phaseOf u d.key = phaseOfState d.state := by
  rw [phaseOf, Keyed.lookup_getElem? h.keys hi]

/-- Erasing a dialog ends its call and no other. -/
theorem phaseOf_of_erase (h : u.WellKeyed) {i : Nat} {d : CallDialog}
    (hi : u.dialogs[i]? = some d) {u' : SipUe} (hdialogs : u'.dialogs = u.dialogs.eraseIdx i)
    (k : Imsi × UInt32) : phaseOf u' k = if d.key = k then .none else phaseOf u k := by
  rw [phaseOf, hdialogs, Keyed.lookup_eraseIdx h.keys hi, phaseOf]
  by_cases hk : d.key = k <;> simp [hk]

/-- Writing a dialog moves its call and no other. -/
theorem phaseOf_of_set (h : u.WellKeyed) {i : Nat} {d d' : CallDialog}
    (hi : u.dialogs[i]? = some d) {u' : SipUe} (hdialogs : u'.dialogs = u.dialogs.set i d')
    (hkey : d'.key = d.key) (k : Imsi × UInt32) :
    phaseOf u' k = if d.key = k then phaseOfState d'.state else phaseOf u k := by
  rw [phaseOf, hdialogs, Keyed.lookup_set h.keys hi hkey, phaseOf]
  by_cases hk : d.key = k <;> simp [hk]

/-- A dialog under a free key begins its call and no other. -/
theorem phaseOf_of_push {d : CallDialog} (hfree : ∀ e ∈ u.dialogs, e.key ≠ d.key) {u' : SipUe}
    (hdialogs : u'.dialogs = u.dialogs ++ [d]) (k : Imsi × UInt32) :
    phaseOf u' k = if d.key = k then phaseOfState d.state else phaseOf u k := by
  rw [phaseOf, hdialogs, Keyed.lookup_append, Keyed.lookup_singleton, phaseOf]
  by_cases hk : d.key = k
  · subst hk
    rw [Keyed.lookup_eq_none.mpr hfree]
    simp
  · simp [hk]

theorem phaseOf_congr {u' : SipUe} (hdialogs : u'.dialogs = u.dialogs) (k : Imsi × UInt32) :
    phaseOf u' k = phaseOf u k := by
  rw [phaseOf, phaseOf, hdialogs]

end Focus

/-! ## Commands -/

/-- The commands and timers of a call between two UEs. -/
inductive CallCommand where
  | startCall (registered : Bool) (kind : MediaKind) (dst : Imsi)
  | answer
  | decline
  | endCall
  | endCallKind (kind : MediaKind)
  | setAutoanswer (ms : UInt32)
  | fire (id : Nat)
  deriving DecidableEq, Repr

def CallCommand.toSip : CallCommand → SipCommand
  | .startCall registered kind dst => .startCall registered kind dst
  | .answer => .answer
  | .decline => .decline
  | .endCall => .endCall
  | .endCallKind kind => .endCallKind kind
  | .setAutoanswer ms => .setAutoanswer ms
  | .fire id => .fire id

namespace CallCommand

/-- The dialog the callback of a timer finds, with the timer. -/
def firedAt (u : SipUe) (id : Nat) : Option (DialogTimer × CallDialog) := do
  let t ← u.timers.find? fun t => t.1 = id
  let i ← u.findDialog t.2.peer t.2.callId
  let d ← u.dialogs[i]?
  some (t.2, d)

/-- The ringing call a command gives up on. -/
def givesUp (u : SipUe) : CallCommand → Option CallDialog
  | .endCall => (u.endCallTarget.bind (u.dialogs[·]?)).filter (·.state = .outgoingRinging)
  | .endCallKind kind =>
    ((u.endCallKindTarget kind).bind (u.dialogs[·]?)).filter (·.state = .outgoingRinging)
  | .fire id => (firedAt u id).bind fun t =>
      if t.2.state = .outgoingRinging ∧
        (t.1.kind = .noAnswer ∨ t.1.kind = .firstResponse ∧ t.2.got180 = false) then some t.2
      else none
  | _ => none

/-- The ringing call a command answers. -/
def answers (u : SipUe) : CallCommand → Option CallDialog
  | .answer => u.findIncomingRinging.bind (u.dialogs[·]?)
  | .fire id => (firedAt u id).bind fun t =>
      if t.2.state = .incomingRinging ∧ t.1.kind = .autoAnswer then some t.2 else none
  | _ => none

/-- A `start_call` that goes ahead. -/
def Starts (u : SipUe) (registered : Bool) (kind : MediaKind) : Prop :=
  registered = true ∧ kind ≠ .msg ∧ kind ≠ .sig ∧ u.findDialogByKind kind = none

instance (u : SipUe) (registered : Bool) (kind : MediaKind) :
    Decidable (Starts u registered kind) :=
  inferInstanceAs (Decidable (registered = true ∧ kind ≠ .msg ∧ kind ≠ .sig ∧
    u.findDialogByKind kind = none))

/-- The dialog table after the command is the one before it, up to the timers. -/
def Keeps (u u' : SipUe) : Prop :=
  u'.dialogs = u.dialogs ∨ ∃ (i : Nat) (d d' : CallDialog), u.dialogs[i]? = some d ∧
    d'.key = d.key ∧ d'.state = d.state ∧ u'.dialogs = u.dialogs.set i d'

def hangUp : CallState → SigMethod
  | .outgoingRinging => .cancel
  | .established => .bye
  | _ => .decline603

/-- What a command comes to. -/
inductive Turn (u : SipUe) (c : CallCommand) : SipUe → List SigPacket → Prop where
  | keep {u' : SipUe} (keeps : Keeps u u') (next : u'.nextCallId = u.nextCallId) : Turn u c u' []
  | start (registered : Bool) (kind : MediaKind) (dst : Imsi)
      (asked : c = .startCall registered kind dst) (goes : Starts u registered kind) :
      Turn u c (u.startDialog kind dst 0).1 (u.startDialog kind dst 0).2
  | accept {u' : SipUe} {i : Nat} {d d' : CallDialog} (found : u.dialogs[i]? = some d)
      (ringing : d.state = .incomingRinging) (asked : answers u c = some d)
      (same : d'.key = d.key) (est : d'.state = .established)
      (dialogs : u'.dialogs = u.dialogs.set i d') (next : u'.nextCallId = u.nextCallId) :
      Turn u c u' [d.sendSig .ok200]
  | leave {u' : SipUe} {i : Nat} {d : CallDialog} (found : u.dialogs[i]? = some d)
      (busy : d.state ≠ .idle) (asked : d.state = .outgoingRinging → givesUp u c = some d)
      (dialogs : u'.dialogs = u.dialogs.eraseIdx i) (next : u'.nextCallId = u.nextCallId) :
      Turn u c u' [d.sendSig (hangUp d.state)]

section Turns

variable {u : SipUe} {c : CallCommand}

theorem Turn.nothing (u : SipUe) (c : CallCommand) : Turn u c u [] := .keep (.inl rfl) rfl

theorem startCall_turn (u : SipUe) (registered : Bool) (kind : MediaKind) (dst : Imsi) :
    Turn u (.startCall registered kind dst) (u.startCall registered kind dst).1
      (u.startCall registered kind dst).2 := by
  unfold SipUe.startCall
  split
  · exact .nothing u _
  · rename_i hregistered
    split
    · exact .nothing u _
    · rename_i hkind
      split
      · exact .keep (.inl rfl) rfl
      · rename_i hfree
        obtain ⟨hmsg, hsig⟩ := not_or.mp hkind
        exact .start registered kind dst rfl
          ⟨by simpa using hregistered, hmsg, hsig, by simpa using hfree⟩

theorem acceptCall_turn {i : Nat} {d : CallDialog} (hi : u.dialogs[i]? = some d)
    (ringing : d.state = .incomingRinging) (asked : answers u c = some d) :
    Turn u c (u.acceptCall i d).1 (u.acceptCall i d).2 := by
  refine .accept hi ringing asked ?_ ?_ (SipUe.cancelDialogTimers_setDialog u i d _) ?_
  · rfl
  · rfl
  · exact SipUe.cancelDialogTimers_nextCallId u i d

theorem findIncomingRinging_state {i : Nat} (h : u.findIncomingRinging = some i) {d : CallDialog}
    (hi : u.dialogs[i]? = some d) : d.state = .incomingRinging := by
  obtain ⟨hlt, hp, -⟩ := List.findIdx?_eq_some_iff_getElem.mp h
  rw [List.getElem?_eq_getElem hlt] at hi
  obtain rfl := Option.some.inj hi
  exact of_decide_eq_true hp

theorem answer_turn (u : SipUe) : Turn u .answer u.answer.1 u.answer.2 := by
  unfold SipUe.answer
  split
  · exact .nothing u _
  · rename_i i hi
    split
    · exact .nothing u _
    · rename_i d hd
      exact acceptCall_turn hd (findIncomingRinging_state hi hd) (by simp [answers, hi, hd])

theorem decline_turn (u : SipUe) : Turn u .decline u.decline.1 u.decline.2 := by
  unfold SipUe.decline
  split
  · exact .nothing u _
  · rename_i i hi
    split
    · exact .nothing u _
    · rename_i d hd
      have hstate := findIncomingRinging_state hi hd
      have hturn : Turn u .decline (u.eraseDialog i d) [d.sendSig (hangUp d.state)] :=
        .leave hd (by simp [hstate]) (by simp [hstate]) (SipUe.eraseDialog_dialogs u i d)
          (SipUe.eraseDialog_nextCallId u i d)
      rwa [hstate] at hturn

theorem endTarget_turn {target : Option Nat}
    (asked : ∀ d, target.bind (u.dialogs[·]?) = some d → d.state = .outgoingRinging →
      givesUp u c = some d) :
    Turn u c (u.endTarget target).1 (u.endTarget target).2 := by
  unfold SipUe.endTarget
  split
  · exact .nothing u _
  · rename_i i
    split
    · exact .nothing u _
    · rename_i d hd
      have hleave : d.state ≠ .idle → Turn u c (u.eraseDialog i d) [d.sendSig (hangUp d.state)] :=
        fun hbusy => .leave hd hbusy (asked d (by simpa using hd))
          (SipUe.eraseDialog_dialogs u i d) (SipUe.eraseDialog_nextCallId u i d)
      unfold SipUe.endDialog
      cases hstate : d.state with
      | idle => exact .nothing u _
      | outgoingRinging | incomingRinging | established =>
        have hturn := hleave (by simp [hstate])
        rwa [hstate] at hturn

/-- Clearing a timer field and then failing the call erases the dialog. -/
theorem failCall_leave {v : SipUe} (hv : v.dialogs = u.dialogs) (hn : v.nextCallId = u.nextCallId)
    {i : Nat} {d d' : CallDialog} (hi : u.dialogs[i]? = some d) (hsig : d'.sendSig = d.sendSig)
    (ringing : d.state = .outgoingRinging) (asked : givesUp u c = some d) (reason : String) :
    Turn u c ((v.setDialog i d').failCall i d' reason) [d'.sendSig .cancel] := by
  have hdialogs : ((v.setDialog i d').failCall i d' reason).dialogs = u.dialogs.eraseIdx i := by
    simp [SipUe.failCall, List.eraseIdx_set_eq, hv]
  have hnext : ((v.setDialog i d').failCall i d' reason).nextCallId = u.nextCallId := by
    simp [SipUe.failCall, SipUe.setDialog, hn]
  have hturn := Turn.leave (c := c) hi (by simp [ringing]) (fun _ => asked) hdialogs hnext
  rw [hsig]
  rwa [ringing] at hturn

theorem onTimer_turn {v : SipUe} (hv : v.dialogs = u.dialogs) (hn : v.nextCallId = u.nextCallId)
    {id : Nat} {t : Nat × DialogTimer} (ht : (u.timers.find? fun t => t.1 = id) = some t) :
    Turn u (.fire id) (v.onTimer t.2).1 (v.onTimer t.2).2 := by
  have hsame : Turn u (.fire id) v [] := .keep (.inl hv) hn
  have hfind : v.findDialog t.2.peer t.2.callId = u.findDialog t.2.peer t.2.callId := by
    rw [SipUe.findDialog, SipUe.findDialog, hv]
  unfold SipUe.onTimer
  split
  · exact hsame
  · rename_i i hi
    split
    · exact hsame
    · rename_i d hd
      rw [hv] at hd
      have hfired : firedAt u id = some (t.2, d) := by
        simp [firedAt, ht, ← hfind, hi, hd]
      have hkeep : ∀ d' : CallDialog, d'.key = d.key → d'.state = d.state →
          Turn u (.fire id) (v.setDialog i d') [] := by
        intro d' hkey hstate
        exact .keep (.inr ⟨i, d, d', hd, hkey, hstate, by rw [SipUe.setDialog_dialogs, hv]⟩) hn
      split
      · rename_i hkind
        dsimp only
        split
        · rename_i hring
          have hgives : givesUp u (.fire id) = some d := by
            simp [givesUp, hfired, hkind, hring.1, hring.2]
          refine failCall_leave hv hn hd ?_ hring.1 hgives _
          rfl
        · exact hkeep _ rfl rfl
      · rename_i hkind
        dsimp only
        split
        · rename_i hring
          have hgives : givesUp u (.fire id) = some d := by
            simp [givesUp, hfired, hkind, hring]
          refine failCall_leave hv hn hd ?_ hring hgives _
          rfl
        · exact hkeep _ rfl rfl
      · rename_i hkind
        dsimp only
        split
        · rename_i hring
          have hdialogs : ((v.setDialog i { d with autoanswerTimer := 0 }).acceptCall i
              { d with autoanswerTimer := 0 }).1.dialogs = u.dialogs.set i
                { d with
                  state := .established, firstResponseTimer := 0, noanswerTimer := 0
                  autoanswerTimer := 0 } := by
            simp [SipUe.acceptCall, hv]
          have hanswers : answers u (.fire id) = some d := by
            simp [answers, hfired, hkind, hring]
          have hnext : ((v.setDialog i { d with autoanswerTimer := 0 }).acceptCall i
              { d with autoanswerTimer := 0 }).1.nextCallId = u.nextCallId := by
            simp [SipUe.acceptCall, SipUe.setDialog, hn]
          show Turn u (.fire id) _ [d.sendSig .ok200]
          refine .accept hd hring hanswers ?_ ?_ hdialogs hnext
          · rfl
          · rfl
        · exact hkeep _ rfl rfl

theorem fire_turn (u : SipUe) (id : Nat) :
    Turn u (.fire id) (u.fire id).1 (u.fire id).2 := by
  unfold SipUe.fire
  split
  · exact .nothing u _
  · rename_i t ht
    apply onTimer_turn _ _ ht
    · rfl
    · rfl

/-- Every command is a turn of the call protocol. -/
theorem command_turn (u : SipUe) (c : CallCommand) :
    Turn u c (u.command c.toSip).1 (u.command c.toSip).2 := by
  cases c with
  | startCall registered kind dst => exact startCall_turn u registered kind dst
  | answer => exact answer_turn u
  | decline => exact decline_turn u
  | endCall =>
    apply endTarget_turn
    intro d hd hstate
    simp [givesUp, hd, hstate]
  | endCallKind kind =>
    apply endTarget_turn
    intro d hd hstate
    simp [givesUp, hd, hstate]
  | setAutoanswer ms => exact .keep (.inl rfl) rfl
  | fire id => exact fire_turn u id

theorem acceptCall_imsi (u : SipUe) (i : Nat) (d : CallDialog) :
    (u.acceptCall i d).1.imsi = u.imsi := by
  simp [SipUe.acceptCall, SipUe.setDialog]

theorem onTimer_imsi (u : SipUe) (t : DialogTimer) : (u.onTimer t).1.imsi = u.imsi := by
  unfold SipUe.onTimer
  split
  · rfl
  · split
    · rfl
    · split
      all_goals
        dsimp only
        split
        · simp [SipUe.failCall, SipUe.setDialog, acceptCall_imsi]
        · rfl

theorem endTarget_imsi (u : SipUe) (target : Option Nat) :
    (u.endTarget target).1.imsi = u.imsi := by
  unfold SipUe.endTarget
  split
  · rfl
  · split
    · rfl
    · unfold SipUe.endDialog
      split <;> simp

theorem command_imsi (u : SipUe) (c : CallCommand) : (u.command c.toSip).1.imsi = u.imsi := by
  cases c with
  | startCall registered kind dst =>
    simp only [toSip, SipUe.command, SipUe.startCall]
    split
    · rfl
    · split
      · rfl
      · split <;> rfl
  | answer =>
    simp only [toSip, SipUe.command, SipUe.answer]
    split
    · rfl
    · split
      · rfl
      · exact acceptCall_imsi _ _ _
  | decline =>
    simp only [toSip, SipUe.command, SipUe.decline]
    split
    · rfl
    · split
      · rfl
      · exact SipUe.eraseDialog_imsi _ _ _
  | endCall => exact endTarget_imsi u _
  | endCallKind kind => exact endTarget_imsi u _
  | setAutoanswer ms => rfl
  | fire id =>
    simp only [toSip, SipUe.command, SipUe.fire]
    split
    · rfl
    · exact onTimer_imsi _ _

end Turns

end CallCommand

/-! ## Received signalling -/

def NoIdle (u : SipUe) : Prop := ∀ d ∈ u.dialogs, d.state ≠ .idle

/-- The phase a dialog is in after a message. -/
def phaseAfter (state : CallState) : SigMethod → Phase
  | .ok200 => if state = .outgoingRinging then .established else phaseOfState state
  | .bye => if state = .established then .none else phaseOfState state
  | .busy486 | .decline603 => if state = .outgoingRinging then .none else phaseOfState state
  | .cancel => if state = .incomingRinging then .none else phaseOfState state
  | .invite | .ringing180 | .ack | .okBye => phaseOfState state

/-- The part of the reply that moves the other side. -/
def replyTo (state : CallState) (method : SigMethod) : List Msg :=
  if state = .established ∧ method = .invite then [.ok] else []

section Received

variable {u : SipUe}

theorem phaseOf_handleSigFound (h : u.WellKeyed) {i : Nat} {d : CallDialog}
    (hi : u.dialogs[i]? = some d) (method : SigMethod) (k : Imsi × UInt32) :
    phaseOf (u.handleSigFound i d method).1 k =
      if d.key = k then phaseAfter d.state method else phaseOf u k := by
  have hself : d.key = k → phaseOf u k = phaseOfState d.state := by
    intro hk
    rw [← hk, phaseOf_getElem? h hi]
  have hsame : phaseOf u k = if d.key = k then phaseOfState d.state else phaseOf u k := by
    split
    · exact hself (by assumption)
    · rfl
  have herase : ∀ {u' : SipUe}, u'.dialogs = u.dialogs.eraseIdx i →
      phaseOf u' k = if d.key = k then .none else phaseOf u k :=
    fun hdialogs => phaseOf_of_erase h hi hdialogs k
  cases method with
  | invite | ack | okBye => exact hsame
  | ringing180 =>
    unfold SipUe.handleSigFound
    dsimp only
    split
    · have hset := SipUe.cancelTimer_setDialog u d.firstResponseTimer i
        { d with got180 := true, firstResponseTimer := 0 }
      exact phaseOf_of_set h hi hset rfl k
    · exact hsame
  | ok200 =>
    unfold SipUe.handleSigFound phaseAfter
    dsimp only
    split
    · have hset := SipUe.cancelDialogTimers_setDialog u i d { d with
        state := .established, firstResponseTimer := 0, noanswerTimer := 0, autoanswerTimer := 0 }
      exact phaseOf_of_set h hi hset rfl k
    · exact hsame
  | bye =>
    unfold SipUe.handleSigFound phaseAfter
    dsimp only
    split
    · exact herase (SipUe.eraseDialog_dialogs u i d)
    · exact hsame
  | busy486 | decline603 =>
    unfold SipUe.handleSigFound phaseAfter
    dsimp only
    split
    · exact herase (by simp [SipUe.failCall])
    · exact hsame
  | cancel =>
    unfold SipUe.handleSigFound phaseAfter
    dsimp only
    split
    · exact herase (SipUe.eraseDialog_dialogs u i d)
    · exact hsame

theorem saidTo_handleSigFound (u : SipUe) (i : Nat) (d : CallDialog) (method : SigMethod)
    (k : Imsi × UInt32) : saidTo k (u.handleSigFound i d method).2 =
      if d.key = k then replyTo d.state method else [] := by
  cases method with
  | invite =>
    rw [SipUe.handleSigFound, saidTo_sendSig]
    by_cases hest : d.state = .established <;> simp [hest, replyTo, moving]
  | ringing180 | ack | okBye | busy486 | decline603 | cancel =>
    simp [SipUe.handleSigFound, replyTo, apply_ite Prod.snd]
  | ok200 | bye =>
    simp only [SipUe.handleSigFound, replyTo, apply_ite Prod.snd]
    split <;> simp [saidTo_sendSig, moving]

/-- What a received message does: under its own key a `receive` of the protocol if it is one
that moves a party, under every other key nothing. -/
structure Heard (u : SipUe) (src : Imsi) (msg : SigMessage) (r : SipUe × List SigPacket) :
    Prop where
  others : ∀ k, (src, msg.callId) ≠ k → phaseOf r.1 k = phaseOf u k ∧ saidTo k r.2 = []
  still : moving msg.method = [] → phaseOf r.1 (src, msg.callId) = phaseOf u (src, msg.callId) ∧
    saidTo (src, msg.callId) r.2 = []
  moved : ∀ m, moving msg.method = [m] →
    (phaseOf r.1 (src, msg.callId), saidTo (src, msg.callId) r.2) ∈
      receive (phaseOf u (src, msg.callId)) m

/-- Messages that move no call leave the phase and are not answered. -/
theorem phaseAfter_still {state : CallState} {method : SigMethod} (h : moving method = []) :
    phaseAfter state method = phaseOfState state ∧ replyTo state method = [] := by
  cases method <;> simp_all [moving, phaseAfter, replyTo]

/-- The others are received as the protocol receives them. -/
theorem phaseAfter_moved {state : CallState} (hidle : state ≠ .idle) {method : SigMethod} {m : Msg}
    (h : moving method = [m]) :
    (phaseAfter state method, replyTo state method) ∈ receive (phaseOfState state) m := by
  cases method with
  | invite | ok200 | bye | busy486 | decline603 | cancel =>
    obtain rfl := List.singleton_inj.mp h
    cases state with
    | idle => exact absurd rfl hidle
    | outgoingRinging | incomingRinging | established => decide
  | ringing180 | ack | okBye => cases h

theorem handleSigFound_heard (h : u.WellKeyed) (hidle : NoIdle u) {i : Nat} {d : CallDialog}
    (hi : u.dialogs[i]? = some d) {src : Imsi} {msg : SigMessage}
    (hkey : d.key = (src, msg.callId)) : Heard u src msg (u.handleSigFound i d msg.method) := by
  have hbefore : phaseOf u (src, msg.callId) = phaseOfState d.state := by
    rw [← hkey, phaseOf_getElem? h hi]
  have hphase := phaseOf_handleSigFound h hi msg.method
  have hsaid := saidTo_handleSigFound u i d msg.method
  refine ⟨fun k hk => ?_, fun hstill => ?_, fun m hm => ?_⟩
  · rw [hphase, hsaid, hkey, if_neg hk, if_neg hk]
    exact ⟨rfl, rfl⟩
  · rw [hphase, hsaid, if_pos hkey, if_pos hkey, hbefore]
    exact phaseAfter_still hstill
  · rw [hphase, hsaid, if_pos hkey, if_pos hkey, hbefore]
    exact phaseAfter_moved (hidle d (List.mem_of_getElem? hi)) hm

/-- The two outcomes of an INVITE without a dialog. -/
theorem inviteNew_cases (u : SipUe) (src : Imsi) (msg : SigMessage) :
    u.inviteNew src msg = (u, [sendSigTo .busy486 src msg.callId msg.media msg.confId]) ∨
    (u.dialogs = [] ∧ ∃ d : CallDialog, d.key = (src, msg.callId) ∧ d.state = .incomingRinging ∧
      (u.inviteNew src msg).1.dialogs = u.dialogs ++ [d] ∧
      (u.inviteNew src msg).2 = [d.sendSig .ringing180]) := by
  unfold SipUe.inviteNew
  split
  · exact .inl rfl
  · rename_i hempty
    exact .inr ⟨not_ne_iff.mp hempty, _, rfl, rfl, rfl, rfl⟩

theorem inviteNew_heard {src : Imsi} {msg : SigMessage}
    (hnone : phaseOf u (src, msg.callId) = .none) (hinvite : msg.method = .invite) :
    Heard u src msg (u.inviteNew src msg) := by
  have hmoves : ∀ m, moving msg.method = [m] → m = .invite := by
    intro m hm
    rw [hinvite] at hm
    exact (List.singleton_inj.mp hm).symm
  have hmoving : moving msg.method ≠ [] := by
    rw [hinvite]
    decide
  rcases inviteNew_cases u src msg with hbusy | ⟨hempty, d, hkey, hstate, hdialogs, hsent⟩
  · rw [hbusy]
    refine ⟨fun k hk => ?_, fun hstill => absurd hstill hmoving, fun m hm => ?_⟩
    · rw [saidTo_sendSigTo, if_neg hk]
      exact ⟨rfl, rfl⟩
    · rw [hmoves m hm, saidTo_sendSigTo, if_pos rfl, hnone]
      decide
  · have hphase := phaseOf_of_push (by simp [hempty]) hdialogs
    refine ⟨fun k hk => ?_, fun hstill => absurd hstill hmoving, fun m hm => ?_⟩
    · rw [hphase, hsent, saidTo_sendSig, hkey, if_neg hk, if_neg hk]
      exact ⟨rfl, rfl⟩
    · rw [hmoves m hm, hphase, hsent, saidTo_sendSig, if_pos hkey, if_pos hkey, hstate, hnone]
      decide

theorem phaseOf_eq_none {src : Imsi} {callId : UInt32} (h : u.findDialog src callId = none) :
    phaseOf u (src, callId) = .none := by
  rw [phaseOf, Keyed.lookup_eq_none.mpr (SipUe.findDialog_eq_none.mp h)]

/-- A message is heard in the call it names, and the answers are those of the protocol. -/
theorem handleSig_heard (h : u.WellKeyed) (hidle : NoIdle u) (src : Imsi) (msg : SigMessage) :
    Heard u src msg (u.handleSig src msg) := by
  unfold SipUe.handleSig
  split
  · rename_i i hfind
    obtain ⟨d, hd, hkey⟩ := SipUe.findDialog_some hfind
    rw [hd]
    exact handleSigFound_heard h hidle hd hkey
  · rename_i hfind
    have hnone := phaseOf_eq_none hfind
    cases hmethod : msg.method with
    | invite => exact inviteNew_heard hnone hmethod
    | bye =>
      refine ⟨fun k _ => ⟨rfl, ?_⟩, fun _ => ⟨rfl, ?_⟩, fun m hm => ?_⟩
      · rw [saidTo_sendSigTo]
        exact ite_self _
      · rw [saidTo_sendSigTo]
        exact ite_self _
      · obtain rfl : Msg.bye = m := by simpa [moving, hmethod] using hm
        rw [saidTo_sendSigTo, hnone]
        simp [moving, receive]
    | ringing180 | ok200 | ack | okBye | busy486 | decline603 | cancel =>
      refine ⟨fun k _ => ⟨rfl, rfl⟩, fun _ => ⟨rfl, rfl⟩, fun m hm => ?_⟩
      rw [hnone]
      show (Phase.none, []) ∈ receive .none m
      rw [hmethod] at hm
      revert hm
      cases m <;> decide

/-- What stays the same on one UE across messages: its number and its call counter. -/
theorem handleSig_frame (u : SipUe) (src : Imsi) (msg : SigMessage) :
    (u.handleSig src msg).1.imsi = u.imsi ∧ (u.handleSig src msg).1.nextCallId = u.nextCallId := by
  unfold SipUe.handleSig
  split
  · split
    · exact ⟨rfl, rfl⟩
    · unfold SipUe.handleSigFound
      split
      case h_1 | h_4 | h_6 => exact ⟨rfl, rfl⟩
      all_goals
        split
        · simp [SipUe.failCall, SipUe.setDialog]
        · exact ⟨rfl, rfl⟩
  · split
    · unfold SipUe.inviteNew
      split
      · exact ⟨rfl, rfl⟩
      · dsimp only
        split <;> exact ⟨rfl, rfl⟩
    · exact ⟨rfl, rfl⟩
    · exact ⟨rfl, rfl⟩

theorem noIdle_of_erase (h : NoIdle u) {i : Nat} {u' : SipUe}
    (hdialogs : u'.dialogs = u.dialogs.eraseIdx i) : NoIdle u' := by
  intro d hd
  rw [hdialogs] at hd
  exact h d (List.mem_of_mem_eraseIdx hd)

theorem noIdle_of_set (h : NoIdle u) {i : Nat} {d' : CallDialog} {u' : SipUe}
    (hdialogs : u'.dialogs = u.dialogs.set i d') (hstate : d'.state ≠ .idle) : NoIdle u' := by
  intro d hd
  rw [hdialogs] at hd
  rcases List.mem_or_eq_of_mem_set hd with hd | rfl
  · exact h d hd
  · exact hstate

theorem noIdle_of_push (h : NoIdle u) {d' : CallDialog} {u' : SipUe}
    (hdialogs : u'.dialogs = u.dialogs ++ [d']) (hstate : d'.state ≠ .idle) : NoIdle u' := by
  intro d hd
  rw [hdialogs, List.mem_append, List.mem_singleton] at hd
  rcases hd with hd | rfl
  · exact h d hd
  · exact hstate

theorem handleSigFound_noIdle (h : NoIdle u) {i : Nat} {d : CallDialog}
    (hi : u.dialogs[i]? = some d) (method : SigMethod) :
    NoIdle (u.handleSigFound i d method).1 := by
  have hd := h d (List.mem_of_getElem? hi)
  cases method with
  | invite | ack | okBye => exact h
  | ringing180 =>
    unfold SipUe.handleSigFound
    dsimp only
    split
    · exact noIdle_of_set h (SipUe.cancelTimer_setDialog u d.firstResponseTimer i _) hd
    · exact h
  | ok200 =>
    unfold SipUe.handleSigFound
    dsimp only
    split
    · exact noIdle_of_set h (SipUe.cancelDialogTimers_setDialog u i d _) (by simp)
    · exact h
  | bye | cancel =>
    unfold SipUe.handleSigFound
    dsimp only
    split
    · exact noIdle_of_erase h (SipUe.eraseDialog_dialogs u i d)
    · exact h
  | busy486 | decline603 =>
    unfold SipUe.handleSigFound
    dsimp only
    split
    · apply noIdle_of_erase h
      simp [SipUe.failCall]
      rfl
    · exact h

theorem handleSig_noIdle (h : NoIdle u) (src : Imsi) (msg : SigMessage) :
    NoIdle (u.handleSig src msg).1 := by
  unfold SipUe.handleSig
  split
  · split
    · exact h
    · rename_i hi
      exact handleSigFound_noIdle h hi msg.method
  · split
    · rcases inviteNew_cases u src msg with hbusy | ⟨-, d, -, hstate, hdialogs, -⟩
      · rw [hbusy]
        exact h
      · exact noIdle_of_push h hdialogs (by simp [hstate])
    · exact h
    · exact h

end Received

/-! ## The pair -/

/-- A UE and the signalling payloads on their way to it. -/
structure Endpoint where
  ue : SipUe
  inbox : List Bytes := []
  deriving DecidableEq

inductive UeAction where
  | command (c : CallCommand)
  | deliver
  deriving DecidableEq, Repr

inductive Side where
  | a | b
  deriving DecidableEq, Repr

structure CallPair where
  a : Endpoint
  b : Endpoint
  deriving DecidableEq

namespace CallPair

/-- What one UE does, and what of it is on its way to the other. -/
def act (me other : Endpoint) : UeAction → Option (Endpoint × Endpoint)
  | .command c =>
    let done := me.ue.command c.toSip
    some ({ me with ue := done.1 },
      { other with inbox := other.inbox ++ addressed other.ue.imsi done.2 })
  | .deliver =>
    match me.inbox with
    | [] => none
    | payload :: rest =>
      let done := me.ue.onSig other.ue.imsi payload
      some (⟨done.1, rest⟩, { other with inbox := other.inbox ++ addressed other.ue.imsi done.2 })

def step (s : CallPair) : Side × UeAction → Option CallPair
  | (.a, e) => (act s.a s.b e).map fun r => ⟨r.1, r.2⟩
  | (.b, e) => (act s.b s.a e).map fun r => ⟨r.2, r.1⟩

def init (imsiA imsiB : Imsi) (autoanswerA autoanswerB : UInt32) : CallPair :=
  ⟨{ ue := { imsi := imsiA, autoanswerMs := autoanswerA } },
    { ue := { imsi := imsiB, autoanswerMs := autoanswerB } }⟩

/-- A call is given up only before the other side answered it, answered only while no
CANCEL for it is on its way, and started only under a number that is free with its peer,
before the 32-bit counter has run over. -/
def Orderly (me other : Endpoint) : UeAction → Prop
  | .deliver => True
  | .command c =>
    (∀ d ∈ c.givesUp me.ue, d.peer = other.ue.imsi →
      phaseOf other.ue (me.ue.imsi, d.callId) ≠ .established) ∧
    (∀ d ∈ c.answers me.ue, .cancel ∉ spoken d.callId me.inbox) ∧
    match c with
    | .startCall registered kind dst => CallCommand.Starts me.ue registered kind →
        me.ue.nextCallId ≠ 0 ∧ me.ue.findDialog dst me.ue.nextCallId = none
    | _ => True

instance (me other : Endpoint) : (e : UeAction) → Decidable (Orderly me other e)
  | .deliver => isTrue trivial
  | .command c => by
    unfold Orderly
    cases c <;> infer_instance

def Condition (s : CallPair) : Side × UeAction → Prop
  | (.a, e) => Orderly s.a s.b e
  | (.b, e) => Orderly s.b s.a e

instance (s : CallPair) : (e : Side × UeAction) → Decidable (Condition s e)
  | (.a, e) => inferInstanceAs (Decidable (Orderly s.a s.b e))
  | (.b, e) => inferInstanceAs (Decidable (Orderly s.b s.a e))

/-- The UE has an established call with this peer and number. -/
def Established (u : SipUe) (peer : Imsi) (callId : UInt32) : Prop :=
  ∃ d ∈ u.dialogs, d.peer = peer ∧ d.callId = callId ∧ d.state = .established

instance (u : SipUe) (peer : Imsi) (callId : UInt32) : Decidable (Established u peer callId) :=
  inferInstanceAs (Decidable (∃ d ∈ u.dialogs, d.peer = peer ∧ d.callId = callId ∧
    d.state = .established))

/-! ## Every step is a move of the protocol -/

/-- The number has been handed to a call of this UE. -/
def used (u : SipUe) (n : UInt32) : Bool := u.nextCallId = 0 || n < u.nextCallId

def party (me other : Endpoint) (n : UInt32) : Party :=
  ⟨phaseOf me.ue (other.ue.imsi, n), used me.ue n, spoken n other.inbox⟩

structure Sound (me other : Endpoint) : Prop where
  keyed : me.ue.WellKeyed
  keyed' : other.ue.WellKeyed
  busy : NoIdle me.ue
  busy' : NoIdle other.ue
  distinct : me.ue.imsi ≠ other.ue.imsi
  consistent : ∀ n, Consistent (party me other n) (party other me n)

theorem Sound.swap {me other : Endpoint} (h : Sound me other) : Sound other me :=
  ⟨h.keyed', h.keyed, h.busy', h.busy, h.distinct.symm, fun n => (h.consistent n).swap⟩

theorem sound_init {imsiA imsiB : Imsi} (distinct : imsiA ≠ imsiB) (autoanswerA autoanswerB : UInt32) :
    Sound (init imsiA imsiB autoanswerA autoanswerB).a
      (init imsiA imsiB autoanswerA autoanswerB).b where
  keyed := SipUe.wellKeyed_initial imsiA autoanswerA
  keyed' := SipUe.wellKeyed_initial imsiB autoanswerB
  busy := by simp [NoIdle, init]
  busy' := by simp [NoIdle, init]
  distinct := distinct
  consistent := by
    intro n
    have hempty : ∀ x y : Bool, Consistent ⟨.none, x, []⟩ ⟨.none, y, []⟩ := by
      intro x y
      constructor <;> revert x y <;> decide
    exact hempty _ _

/-- The counter moves on: exactly the number taken becomes used. -/
theorem used_succ {u u' : SipUe} (hpos : u.nextCallId ≠ 0)
    (hnext : u'.nextCallId = u.nextCallId + 1) (n : UInt32) :
    used u' n = (used u n || n = u.nextCallId) := by
  have hmax := u.nextCallId.toNat_lt
  have hn := n.toNat_lt
  have hpos' : u.nextCallId.toNat ≠ 0 := fun h => hpos (UInt32.toNat_inj.mp h)
  simp only [used, hnext, hpos, decide_false, Bool.false_or, UInt32.lt_iff_toNat_lt,
    ← UInt32.toNat_inj, UInt32.toNat_add, UInt32.toNat_one, UInt32.toNat_zero]
  by_cases hwrap : u.nextCallId.toNat + 1 < 2 ^ 32
  · rw [Nat.mod_eq_of_lt hwrap]
    simp only [Nat.add_eq_zero_iff, one_ne_zero, and_false, decide_false, Bool.false_or]
    rw [Bool.eq_iff_iff]
    simp only [decide_eq_true_eq, Bool.or_eq_true]
    omega
  · have heq : (u.nextCallId.toNat + 1) % 2 ^ 32 = 0 := by omega
    rw [heq, Bool.eq_iff_iff]
    simp only [decide_true, Bool.true_or, decide_eq_true_eq, Bool.or_eq_true, true_iff]
    omega

/-- A command that leaves a phase alone and says nothing under it. -/
theorem party_keep {me other : Endpoint} {u' : SipUe} {packets : List SigPacket} {n : UInt32}
    (hphase : phaseOf u' (other.ue.imsi, n) = phaseOf me.ue (other.ue.imsi, n))
    (hused : used u' n = used me.ue n) (hsaid : saidTo (other.ue.imsi, n) packets = []) :
    party { me with ue := u' }
      { other with inbox := other.inbox ++ addressed other.ue.imsi packets } n =
      party me other n := by
  have hspoken : spoken n (addressed other.ue.imsi packets) = [] := hsaid
  simp only [party, hphase, hused, spoken_append, hspoken, List.append_nil]

/-- A command under its own number. -/
theorem party_act {me other : Endpoint} {u' : SipUe} {packets : List SigPacket} {n : UInt32}
    {p : Phase} {msgs : List Msg} (hphase : phaseOf u' (other.ue.imsi, n) = p)
    (hused : used u' n = used me.ue n) (hsaid : saidTo (other.ue.imsi, n) packets = msgs) :
    party { me with ue := u' }
      { other with inbox := other.inbox ++ addressed other.ue.imsi packets } n =
      (party me other n).become p msgs := by
  have hspoken : spoken n (addressed other.ue.imsi packets) = msgs := hsaid
  simp only [party, Party.become, hphase, hused, spoken_append, hspoken]

theorem startDialog_pushes (u : SipUe) (kind : MediaKind) (dst : Imsi) :
    ∃ d : CallDialog, (u.startDialog kind dst 0).1.dialogs = u.dialogs ++ [d] ∧
      d.key = (dst, u.nextCallId) ∧ d.state = .outgoingRinging :=
  ⟨_, rfl, rfl, rfl⟩

/-- The phases and messages of a command are moves of the protocol for every number. -/
theorem command_consistent {me other : Endpoint} (h : Sound me other) {c : CallCommand}
    (orderly : Orderly me other (.command c)) (n : UInt32) :
    Consistent
      (party { me with ue := (me.ue.command c.toSip).1 } { other with
        inbox := other.inbox ++ addressed other.ue.imsi (me.ue.command c.toSip).2 } n)
      (party other me n) := by
  have hcons := h.consistent n
  obtain ⟨hgive, hanswer, hstart⟩ := orderly
  have hturn := CallCommand.command_turn me.ue c
  generalize (me.ue.command c.toSip).1 = u' at hturn ⊢
  generalize (me.ue.command c.toSip).2 = packets at hturn ⊢
  cases hturn with
  | keep keeps next =>
    have hused : used u' n = used me.ue n := by rw [used, used, next]
    rw [party_keep _ hused rfl]
    · exact hcons
    · rcases keeps with hsame | ⟨i, d, d', hi, hkey, hstate, hdialogs⟩
      · exact phaseOf_congr hsame _
      · rw [phaseOf_of_set h.keyed hi hdialogs hkey, hstate]
        split
        · rename_i hk
          rw [← hk, phaseOf_getElem? h.keyed hi]
        · rfl
  | start registered kind dst asked goes =>
    subst asked
    obtain ⟨hpos, hfree⟩ := hstart goes
    obtain ⟨d, hdialogs, hkey, hstate⟩ := startDialog_pushes me.ue kind dst
    have hphase := phaseOf_of_push (hkey ▸ SipUe.findDialog_eq_none.mp hfree) hdialogs
      (other.ue.imsi, n)
    rw [hkey, hstate] at hphase
    have hused : used (me.ue.startDialog kind dst 0).1 n =
        (used me.ue n || n = me.ue.nextCallId) := used_succ hpos rfl n
    have hsaid : spoken n (addressed other.ue.imsi (me.ue.startDialog kind dst 0).2) =
        if (dst, me.ue.nextCallId) = (other.ue.imsi, n) then [.invite] else [] :=
      saidTo_sendSigTo (other.ue.imsi, n) .invite dst me.ue.nextCallId kind 0
    by_cases hk : (dst, me.ue.nextCallId) = (other.ue.imsi, n)
    · obtain ⟨hdst, hn⟩ := Prod.mk.inj hk
      have hnone : phaseOf me.ue (other.ue.imsi, n) = .none := by
        rw [← hk]
        exact phaseOf_eq_none hfree
      have hfresh : used me.ue n = false := by
        rw [used, ← hn]
        simp [hpos]
      have hmove : ({ (party me other n).become .outgoing [.invite] with used := true },
          party other me n) ∈ moves (party me other n) (party other me n) := by
        simp [moves, party, hnone, hfresh]
      have hnext := hcons.move hmove
      rw [if_pos hk] at hphase hsaid
      simpa [party, Party.become, hphase, hused, hsaid, hn, phaseOfState] using hnext
    · rw [if_neg hk] at hphase hsaid
      by_cases hn : n = me.ue.nextCallId
      · -- the number went to a call with somebody else
        have hnext := hcons.take
        simp only [party, hphase, hused, hsaid, spoken_append, List.append_nil]
        simpa [party, hn] using hnext
      · simpa [party, hphase, hused, hsaid, hn] using hcons
  | @accept _ i d d' found ringing asked same est dialogs next =>
    have hused : used u' n = used me.ue n := by rw [used, used, next]
    have hphase := phaseOf_of_set h.keyed found dialogs same (other.ue.imsi, n)
    have hsaid := saidTo_sendSig (other.ue.imsi, n) d .ok200
    by_cases hk : d.key = (other.ue.imsi, n)
    · rw [if_pos hk] at hphase hsaid
      have hring : phaseOf me.ue (other.ue.imsi, n) = .incoming := by
        rw [← hk, phaseOf_getElem? h.keyed found, ringing]
        rfl
      have hclear : Msg.cancel ∉ spoken n me.inbox := by
        have hcall : d.callId = n := congrArg Prod.snd hk
        rw [← hcall]
        exact hanswer d asked
      rw [est] at hphase
      rw [party_act hphase hused hsaid]
      have hmove : ((party me other n).become .established [.ok], party other me n) ∈
          moves (party me other n) (party other me n) := by
        simp [moves, party, hring, hclear]
      exact hcons.move hmove
    · rw [if_neg hk] at hphase hsaid
      rw [party_keep hphase hused hsaid]
      exact hcons
  | @leave _ i d found busy asked dialogs next =>
    have hused : used u' n = used me.ue n := by rw [used, used, next]
    have hphase := phaseOf_of_erase h.keyed found dialogs (other.ue.imsi, n)
    have hsaid := saidTo_sendSig (other.ue.imsi, n) d (CallCommand.hangUp d.state)
    by_cases hk : d.key = (other.ue.imsi, n)
    · rw [if_pos hk] at hphase hsaid
      have hbefore : phaseOf me.ue (other.ue.imsi, n) = phaseOfState d.state := by
        rw [← hk, phaseOf_getElem? h.keyed found]
      rw [party_act hphase hused hsaid]
      have hmove : ((party me other n).become .none (moving (CallCommand.hangUp d.state)),
          party other me n) ∈ moves (party me other n) (party other me n) := by
        cases hstate : d.state with
        | idle => exact absurd hstate busy
        | outgoingRinging =>
          have hlate : phaseOf other.ue (me.ue.imsi, n) ≠ .established := by
            have hcall : d.callId = n := congrArg Prod.snd hk
            rw [← hcall]
            exact hgive d (asked hstate) (congrArg Prod.fst hk)
          rw [hstate] at hbefore
          simp [moves, party, hbefore, hlate, phaseOfState, moving, CallCommand.hangUp]
        | incomingRinging | established =>
          rw [hstate] at hbefore
          simp [moves, party, hbefore, phaseOfState, moving, CallCommand.hangUp]
      exact hcons.move hmove
    · rw [if_neg hk] at hphase hsaid
      rw [party_keep hphase hused hsaid]
      exact hcons

theorem command_noIdle {u : SipUe} (h : NoIdle u) (c : CallCommand) :
    NoIdle (u.command c.toSip).1 := by
  have hturn := CallCommand.command_turn u c
  generalize (u.command c.toSip).1 = u' at hturn ⊢
  generalize (u.command c.toSip).2 = packets at hturn
  cases hturn with
  | keep keeps next =>
    rcases keeps with hsame | ⟨i, d, d', hi, -, hstate, hdialogs⟩
    · rwa [NoIdle, hsame]
    · exact noIdle_of_set h hdialogs (hstate ▸ h d (List.mem_of_getElem? hi))
  | start registered kind dst asked goes =>
    obtain ⟨d, hdialogs, -, hstate⟩ := startDialog_pushes u kind dst
    exact noIdle_of_push h hdialogs (by simp [hstate])
  | accept found ringing asked same est dialogs next =>
    exact noIdle_of_set h dialogs (by simp [est])
  | leave found busy asked dialogs next => exact noIdle_of_erase h dialogs

theorem command_wellKeyed {me other : Endpoint} (h : me.ue.WellKeyed) {c : CallCommand}
    (orderly : Orderly me other (.command c)) : (me.ue.command c.toSip).1.WellKeyed := by
  cases c with
  | startCall registered kind dst =>
    have hturn := CallCommand.startCall_turn me.ue registered kind dst
    show (me.ue.startCall registered kind dst).1.WellKeyed
    unfold SipUe.startCall
    split
    · exact h
    · rename_i hregistered
      split
      · exact h
      · rename_i hkind
        split
        · exact h.withFailure _
        · rename_i hfree
          obtain ⟨hmsg, hsig⟩ := not_or.mp hkind
          have hgoes : CallCommand.Starts me.ue registered kind :=
            ⟨by simpa using hregistered, hmsg, hsig, by simpa using hfree⟩
          have hnumber := (orderly.2.2 hgoes).2
          exact SipUe.startDialog_wellKeyed h kind dst (SipUe.findDialog_eq_none.mp hnumber) 0
  | answer => exact SipUe.answer_wellKeyed h
  | decline => exact SipUe.decline_wellKeyed h
  | endCall => exact SipUe.endTarget_wellKeyed h _
  | endCallKind kind => exact SipUe.endTarget_wellKeyed h _
  | setAutoanswer ms => exact ⟨h.keys, h.ids, h.nextPos, h.fields, h.first, h.ring, h.auto, h.pending⟩
  | fire id => exact SipUe.fire_wellKeyed h id

/-- Step lemma for the commands, the timers among them. -/
theorem command_sound {me other : Endpoint} (h : Sound me other) {c : CallCommand}
    (orderly : Orderly me other (.command c)) :
    Sound { me with ue := (me.ue.command c.toSip).1 } { other with
      inbox := other.inbox ++ addressed other.ue.imsi (me.ue.command c.toSip).2 } where
  keyed := command_wellKeyed h.keyed orderly
  keyed' := h.keyed'
  busy := command_noIdle h.busy c
  busy' := h.busy'
  distinct := by
    rw [CallCommand.command_imsi]
    exact h.distinct
  consistent := by
    intro n
    have hparty : party { other with
        inbox := other.inbox ++ addressed other.ue.imsi (me.ue.command c.toSip).2 }
        { me with ue := (me.ue.command c.toSip).1 } n = party other me n := by
      simp only [party, CallCommand.command_imsi]
    rw [hparty]
    exact command_consistent h orderly n

/-! ## Deliveries -/

/-- One call sees the delivery as a reception of the protocol, every other call as nothing. -/
theorem deliver_consistent {me other : Endpoint} (h : Sound me other) {payload : Bytes}
    {rest : List Bytes} (hinbox : me.inbox = payload :: rest) (n : UInt32) :
    Consistent
      (party ⟨(me.ue.onSig other.ue.imsi payload).1, rest⟩ { other with
        inbox := other.inbox ++ addressed other.ue.imsi (me.ue.onSig other.ue.imsi payload).2 } n)
      (party other ⟨me.ue, rest⟩ n) := by
  have hcons := h.consistent n
  have hspoken : spoken n me.inbox = readAs n payload ++ spoken n rest := by
    rw [hinbox]
    rfl
  have hother : other.ue.imsi ≠ me.ue.imsi := h.distinct.symm
  cases hdecode : decodeSig payload with
  | none =>
    have hread : readAs n payload = [] := by rw [readAs, hdecode]
    have hsame : me.ue.onSig other.ue.imsi payload = (me.ue, []) := by
      simp [SipUe.onSig, hdecode]
    rw [hsame]
    simpa [party, hspoken, hread, addressed] using hcons
  | some msg =>
    have hsig : me.ue.onSig other.ue.imsi payload = me.ue.handleSig other.ue.imsi msg := by
      simp [SipUe.onSig, hdecode, hother]
    rw [hsig]
    have hheard := handleSig_heard h.keyed h.busy other.ue.imsi msg
    have hnext := (handleSig_frame me.ue other.ue.imsi msg).2
    generalize me.ue.handleSig other.ue.imsi msg = done at hheard hnext ⊢
    have hused : used done.1 n = used me.ue n := by rw [used, used, hnext]
    have hquiet : phaseOf done.1 (other.ue.imsi, n) = phaseOf me.ue (other.ue.imsi, n) →
        saidTo (other.ue.imsi, n) done.2 = [] → readAs n payload = [] →
        Consistent
          (party ⟨done.1, rest⟩
            { other with inbox := other.inbox ++ addressed other.ue.imsi done.2 } n)
          (party other ⟨me.ue, rest⟩ n) := by
      intro hphase hsaid hread
      have hsaid' : spoken n (addressed other.ue.imsi done.2) = [] := hsaid
      simpa [party, hspoken, hread, hphase, hused, hsaid'] using hcons
    have hread : readAs n payload = if msg.callId = n then moving msg.method else [] := by
      rw [readAs, hdecode]
    by_cases hn : msg.callId = n
    · rw [if_pos hn] at hread
      subst hn
      cases hmoving : moving msg.method with
      | nil =>
        obtain ⟨hphase, hsaid⟩ := hheard.still hmoving
        exact hquiet hphase hsaid (hread.trans hmoving)
      | cons m more =>
        have hone : moving msg.method = [m] := by
          cases hmethod : msg.method <;> simp_all [moving]
        have hmove : ((party me other msg.callId).become
            (phaseOf done.1 (other.ue.imsi, msg.callId))
            (saidTo (other.ue.imsi, msg.callId) done.2),
            party other ⟨me.ue, rest⟩ msg.callId) ∈
            moves (party me other msg.callId) (party other me msg.callId) := by
          have hsent : (party other me msg.callId).sent = m :: spoken msg.callId rest := by
            rw [party, hspoken, hread, hone]
            rfl
          rw [moves, hsent]
          refine List.mem_append_right _ (List.mem_map.mpr ⟨_, hheard.moved m hone, rfl⟩)
        have hresult := hcons.move hmove
        simpa [party, Party.become, hused, saidTo] using hresult
    · rw [if_neg hn] at hread
      have hkey : (other.ue.imsi, msg.callId) ≠ (other.ue.imsi, n) := by
        intro heq
        exact hn (Prod.mk.inj heq).2
      obtain ⟨hphase, hsaid⟩ := hheard.others _ hkey
      exact hquiet hphase hsaid hread

/-- Step lemma for a delivery. -/
theorem deliver_sound {me other : Endpoint} (h : Sound me other) {payload : Bytes}
    {rest : List Bytes} (hinbox : me.inbox = payload :: rest) :
    Sound ⟨(me.ue.onSig other.ue.imsi payload).1, rest⟩ { other with
      inbox := other.inbox ++ addressed other.ue.imsi (me.ue.onSig other.ue.imsi payload).2 } := by
  have himsi : (me.ue.onSig other.ue.imsi payload).1.imsi = me.ue.imsi := by
    unfold SipUe.onSig
    split
    · rfl
    · split
      · rfl
      · exact (handleSig_frame _ _ _).1
  have hbusy : NoIdle (me.ue.onSig other.ue.imsi payload).1 := by
    unfold SipUe.onSig
    split
    · exact h.busy
    · split
      · exact h.busy
      · exact handleSig_noIdle h.busy _ _
  refine ⟨SipUe.onSig_wellKeyed h.keyed _ _, h.keyed', hbusy, h.busy', ?_, fun n => ?_⟩
  · rw [himsi]
    exact h.distinct
  · have hparty : party { other with
        inbox := other.inbox ++ addressed other.ue.imsi (me.ue.onSig other.ue.imsi payload).2 }
        ⟨(me.ue.onSig other.ue.imsi payload).1, rest⟩ n = party other ⟨me.ue, rest⟩ n := by
      simp only [party, himsi]
    rw [hparty]
    exact deliver_consistent h hinbox n

/-! ## Runs -/

theorem act_sound {me other : Endpoint} (h : Sound me other) {e : UeAction}
    (orderly : Orderly me other e) {r : Endpoint × Endpoint} (hact : act me other e = some r) :
    Sound r.1 r.2 := by
  cases e with
  | command c =>
    obtain rfl := Option.some.inj hact
    exact command_sound h orderly
  | deliver =>
    cases hinbox : me.inbox with
    | nil => simp [act, hinbox] at hact
    | cons payload rest =>
      simp only [act, hinbox, Option.some.injEq] at hact
      obtain rfl := hact
      exact deliver_sound h hinbox

theorem step_sound {s s' : CallPair} {e : Side × UeAction} (h : Sound s.a s.b)
    (cond : Condition s e) (hstep : step s e = some s') : Sound s'.a s'.b := by
  obtain ⟨side, e⟩ := e
  cases side with
  | a =>
    obtain ⟨r, hact, rfl⟩ := Option.map_eq_some_iff.mp hstep
    exact act_sound h cond hact
  | b =>
    obtain ⟨r, hact, rfl⟩ := Option.map_eq_some_iff.mp hstep
    exact (act_sound h.swap cond hact).swap

/-- With distinct keys a call is established when it is in that phase. -/
theorem established_iff {u : SipUe} (h : u.WellKeyed) (peer : Imsi) (callId : UInt32) :
    Established u peer callId ↔ phaseOf u (peer, callId) = .established := by
  constructor
  · rintro ⟨d, hd, rfl, rfl, hstate⟩
    obtain ⟨i, hi⟩ := List.mem_iff_getElem?.mp hd
    have hphase := phaseOf_getElem? h hi
    rw [hstate] at hphase
    exact hphase
  · intro hphase
    unfold phaseOf at hphase
    split at hphase
    · exact absurd hphase (by decide)
    · rename_i d hlookup
      obtain ⟨hd, hkey⟩ := Keyed.lookup_mem hlookup
      refine ⟨d, hd, congrArg Prod.fst hkey, congrArg Prod.snd hkey, ?_⟩
      cases hstate : d.state <;> simp_all [phaseOfState]

end CallPair

open CallPair in
/-- Two UEs from their first state, any orderly interleaving of commands, timers and
deliveries: when nothing is in flight, A is in a call with B under a number exactly when B is
in that call with A. -/
theorem call_agreement {imsiA imsiB : Imsi} (distinct : imsiA ≠ imsiB)
    (autoanswerA autoanswerB : UInt32) {events : List (Side × UeAction)} {s : CallPair}
    (run : runFrom step (init imsiA imsiB autoanswerA autoanswerB) events = some s)
    (orderly : StepsMeet step Condition (init imsiA imsiB autoanswerA autoanswerB) events)
    (delivered : s.a.inbox = [] ∧ s.b.inbox = []) (callId : UInt32) :
    Established s.a.ue s.b.ue.imsi callId ↔ Established s.b.ue s.a.ue.imsi callId := by
  have hsound : Sound s.a s.b :=
    runFrom_invariant_of_meets (fun s => Sound s.a s.b) (fun _ _ _ => step_sound)
      (sound_init distinct autoanswerA autoanswerB) orderly run
  rw [established_iff hsound.keyed, established_iff hsound.keyed']
  apply (hsound.consistent callId).agree
  · rw [party, delivered.2]
    rfl
  · rw [party, delivered.1]
    rfl

open CallPair in
/-- A call answered and set up on both sides. -/
theorem call_agreement_answered :
    ∃ s, runFrom step (init [1] [2] 4000 4000)
        [(.a, .command (.startCall true .voice [2])), (.b, .deliver), (.b, .command .answer),
          (.a, .deliver), (.a, .deliver), (.b, .deliver)] = some s ∧
      Established s.a.ue [2] 1 ∧
      (Established s.a.ue s.b.ue.imsi 1 ↔ Established s.b.ue s.a.ue.imsi 1) := by
  have hrun : ∃ s ∈ runFrom step (init [1] [2] 4000 4000)
      [(.a, .command (.startCall true .voice [2])), (.b, .deliver), (.b, .command .answer),
        (.a, .deliver), (.a, .deliver), (.b, .deliver)],
      (s.a.inbox = [] ∧ s.b.inbox = []) ∧ Established s.a.ue [2] 1 := by
    decide
  obtain ⟨s, hs, hdelivered, hest⟩ := hrun
  exact ⟨s, hs, hest, call_agreement (by decide) 4000 4000 hs (by decide) hdelivered 1⟩

open CallPair in
/-- The caller hangs up while the 200 is on its way to it: its CANCEL finds an established
call and the 200 finds none, so B stays in a call that A does not have. -/
theorem call_agreement_crossing :
    ∃ s, runFrom step (init [1] [2] 4000 4000)
        [(.a, .command (.startCall true .voice [2])), (.b, .deliver), (.b, .command .answer),
          (.a, .command .endCall), (.a, .deliver), (.a, .deliver), (.b, .deliver)] = some s ∧
      s.a.inbox = [] ∧ s.b.inbox = [] ∧
      ¬ (Established s.a.ue s.b.ue.imsi 1 ↔ Established s.b.ue s.a.ue.imsi 1) := by
  have hrun : ∃ s ∈ runFrom step (init [1] [2] 4000 4000)
      [(.a, .command (.startCall true .voice [2])), (.b, .deliver), (.b, .command .answer),
        (.a, .command .endCall), (.a, .deliver), (.a, .deliver), (.b, .deliver)],
      s.a.inbox = [] ∧ s.b.inbox = [] ∧
        ¬ (Established s.a.ue s.b.ue.imsi 1 ↔ Established s.b.ue s.a.ue.imsi 1) := by
    decide
  exact hrun

end AetherStack.Guarantees
