import AetherStack.Source.Bytes

/-!
# RRC of the user equipment

Source: stack/rrc/src/rrc_ue.cpp:8-179, include/rrc/rrc_ue.h and the messages of
stack/rrc/src/rrc_messages.cpp:53-72. As in NAS the type octet is cast without a check. The
callbacks of the entity are what a call returns beside the new state; a callback is the
last thing its branch of `on_message` does, and the other calls only send. The stored MIB
and SIB1 are read by nobody and left out.
-/
namespace AetherStack.Source.Rrc

inductive RrcMessageType where
  | setupRequest
  | setup
  | setupComplete
  | release
  | measReport
  | hoCommand
  | hoComplete
  | reestablishmentRequest
  | reestablishmentOk
  | reestablishmentFailure
  | resumeRequest
  | resumeOk
  | resumeFailure
  | unassigned (octet : UInt8)
  deriving DecidableEq, Repr

namespace RrcMessageType

def toOctet : RrcMessageType → UInt8
  | setupRequest => 1
  | setup => 2
  | setupComplete => 3
  | release => 4
  | measReport => 20
  | hoCommand => 21
  | hoComplete => 22
  | reestablishmentRequest => 23
  | reestablishmentOk => 24
  | reestablishmentFailure => 25
  | resumeRequest => 30
  | resumeOk => 31
  | resumeFailure => 32
  | unassigned octet => octet

/-- The `static_cast` of `decode`. -/
def ofOctet (octet : UInt8) : RrcMessageType :=
  if octet = 1 then setupRequest
  else if octet = 2 then setup
  else if octet = 3 then setupComplete
  else if octet = 4 then release
  else if octet = 20 then measReport
  else if octet = 21 then hoCommand
  else if octet = 22 then hoComplete
  else if octet = 23 then reestablishmentRequest
  else if octet = 24 then reestablishmentOk
  else if octet = 25 then reestablishmentFailure
  else if octet = 30 then resumeRequest
  else if octet = 31 then resumeOk
  else if octet = 32 then resumeFailure
  else unassigned octet

end RrcMessageType

structure RrcMessage where
  msgType : RrcMessageType := .setupRequest
  value : Bytes := []
  deriving DecidableEq, Repr

namespace RrcMessage

def encode (m : RrcMessage) : Bytes := m.msgType.toOctet :: (putU16 m.value.length ++ m.value)

/-- Too short a PDU is a SETUP_REQUEST; one shorter than its length field loses its value. -/
def decode (data : Bytes) : RrcMessage :=
  if data.length < 3 then {}
  else
    let len := getU16 data 1
    { msgType := .ofOctet (data.getD 0 0)
      value := if data.length ≥ 3 + len then (data.drop 3).take len else [] }

/-- A message whose length fits the field comes back as it was. -/
theorem decode_encode {m : RrcMessage} (htype : RrcMessageType.ofOctet m.msgType.toOctet = m.msgType)
    (hlen : m.value.length < snModulus) : decode m.encode = m := by
  have hfield : getU16 m.encode 1 = m.value.length := by
    have hread := getU16_putU16 [m.msgType.toOctet] m.value m.value.length
    rwa [Nat.mod_eq_of_lt hlen] at hread
  have hsize : m.encode.length = 3 + m.value.length := by
    simp [encode]
    omega
  have hdrop : m.encode.drop 3 = m.value := by simp [encode, putU16]
  unfold decode
  rw [if_neg (by omega)]
  simp only [hfield, hdrop, if_pos (Nat.le_of_eq hsize.symm), List.take_length]
  cases m with
  | mk msgType value =>
    simp only [encode, List.getD_cons_zero]
    rw [htype]

end RrcMessage

inductive UeState where
  | idle | connecting | connected | inactive
  deriving DecidableEq, Repr

structure RrcUe where
  state : UeState := .idle
  assignedCrnti : Nat := 0
  resumeId : Nat := 0
  suspendedCrnti : Nat := 0
  deriving DecidableEq, Repr

inductive RrcOutput where
  | send (pdu : Bytes)
  | suspended (resumeId : Nat)
  | resumed (ok : Bool) (newCrnti : Nat)
  deriving DecidableEq, Repr

namespace RrcUe

def inactive (r : RrcUe) : Bool := r.state = .inactive

def restoreConnected (r : RrcUe) (crnti : Nat) : RrcUe :=
  { r with assignedCrnti := crnti, state := .connected }

/-- The SetupRequest names the cell it is for; cell 0 is any cell. -/
def startConnection (r : RrcUe) (cellId : Nat) : RrcUe × List Bytes :=
  if r.state ≠ .idle then (r, [])
  else
    ({ r with state := .connecting },
      [RrcMessage.encode
        { msgType := .setupRequest, value := if cellId ≠ 0 then putU16 cellId else [0] }])

def release (r : RrcUe) : RrcUe × List Bytes :=
  if r.state ≠ .connected then (r, [])
  else
    ({ r with state := .idle, assignedCrnti := 0 },
      [RrcMessage.encode { msgType := .release, value := putU16 r.assignedCrnti }])

def requestSuspend (r : RrcUe) : List Bytes :=
  if r.state ≠ .connected then []
  else [RrcMessage.encode { msgType := .release, value := putU16 r.assignedCrnti ++ [2] }]

def forceIdle (r : RrcUe) : RrcUe :=
  if r.state = .idle then r
  else { r with state := .idle, assignedCrnti := 0, resumeId := 0, suspendedCrnti := 0 }

def startResume (r : RrcUe) : RrcUe :=
  if r.state ≠ .inactive then r else { r with state := .connecting }

def onSetup (r : RrcUe) (value : Bytes) : RrcUe × List RrcOutput :=
  if r.state ≠ .connecting then (r, [])
  else
    let crnti := if value.length ≥ 2 then getU16 value 0 else r.assignedCrnti
    ({ r with state := .connected, assignedCrnti := crnti },
      [.send (RrcMessage.encode { msgType := .setupComplete, value := putU16 crnti })])

/-- RELEASE [crnti:2][flags:1][resume_id:4]: bit 0 of the flags suspends a connected UE. -/
def onRelease (r : RrcUe) (value : Bytes) : RrcUe × List RrcOutput :=
  if value.length ≥ 7 ∧ (value.getD 2 0 &&& 1) ≠ 0 ∧ r.state = .connected then
    let id := getU32 value 3
    ({ r with suspendedCrnti := r.assignedCrnti, resumeId := id, state := .inactive },
      [.suspended id])
  else ({ r with assignedCrnti := 0, state := .idle }, [])

def onResumeOk (r : RrcUe) (value : Bytes) : RrcUe × List RrcOutput :=
  if r.state ≠ .connecting ∨ r.resumeId = 0 then (r, [])
  else
    let crnti := if value.length ≥ 2 then getU16 value 0 else r.assignedCrnti
    ({ state := .connected, assignedCrnti := crnti, suspendedCrnti := 0, resumeId := 0 },
      [.resumed true crnti])

def onResumeFailure (r : RrcUe) : RrcUe × List RrcOutput :=
  if r.state ≠ .connecting then (r, [])
  else ({}, [.resumed false 0])

def onMessage (r : RrcUe) (pdu : Bytes) : RrcUe × List RrcOutput :=
  let msg := RrcMessage.decode pdu
  match msg.msgType with
  | .setup => r.onSetup msg.value
  | .release => r.onRelease msg.value
  | .resumeOk => r.onResumeOk msg.value
  | .resumeFailure => r.onResumeFailure
  | _ => (r, [])

/-- What a received message comes to. -/
inductive Answer (r : RrcUe) (msg : RrcMessage) : RrcUe × List RrcOutput → Prop where
  | ignored : Answer r msg (r, [])
  | setup (from_connecting : r.state = .connecting) (crnti : Nat) (pdu : Bytes) :
      Answer r msg ({ r with state := .connected, assignedCrnti := crnti }, [.send pdu])
  | suspended (from_connected : r.state = .connected) (id : Nat) :
      Answer r msg
        ({ r with suspendedCrnti := r.assignedCrnti, resumeId := id, state := .inactive },
          [.suspended id])
  | released : Answer r msg ({ r with assignedCrnti := 0, state := .idle }, [])
  | resumed (is_ok : msg.msgType = .resumeOk) (from_connecting : r.state = .connecting)
      (crnti : Nat) (stored : 2 ≤ msg.value.length → crnti = getU16 msg.value 0) :
      Answer r msg
        ({ state := .connected, assignedCrnti := crnti, suspendedCrnti := 0, resumeId := 0 },
          [.resumed true crnti])
  | failed (is_failure : msg.msgType = .resumeFailure) (from_connecting : r.state = .connecting) :
      Answer r msg ({}, [.resumed false 0])

/-- What the UE does with a RRC message is what `Answer` lists. -/
theorem onMessage_answer (r : RrcUe) (pdu : Bytes) :
    Answer r (RrcMessage.decode pdu) (r.onMessage pdu) := by
  unfold onMessage
  dsimp only
  split
  · unfold onSetup
    split
    · exact .ignored
    · rename_i hstate
      exact .setup (not_ne_iff.mp hstate) _ _
  · unfold onRelease
    split
    · rename_i hsuspend
      exact .suspended hsuspend.2.2 _
    · exact .released
  · rename_i htype
    unfold onResumeOk
    split
    · exact .ignored
    · rename_i hstate
      refine .resumed htype (not_ne_iff.mp (not_or.mp hstate).1) _ fun hlen => ?_
      rw [if_pos hlen]
  · rename_i htype
    unfold onResumeFailure
    split
    · exact .ignored
    · rename_i hstate
      exact .failed htype (not_ne_iff.mp hstate)
  · exact .ignored

end RrcUe

end AetherStack.Source.Rrc
