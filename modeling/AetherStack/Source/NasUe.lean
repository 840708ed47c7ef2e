import AetherStack.Source.Aka
import AetherStack.Source.NasMessages

/-!
# The NAS of the user equipment

Source: stack/nas/src/nas_ue.cpp:19-165 and include/nas/nas_ue.h. The send callback is the
list of encoded PDUs a call hands to it. `challengeVerdict` is the chain of checks at
the head of the AUTH_REQUEST branch, taken out because the branches only differ in
what is sent and stored. The node model of `UeNode` has a NAS without octets; the entity
here has them and lives in the namespace of the source, `nas`. The log is left out.
-/
namespace AetherStack.Source.Nas

inductive NasUeState where
  | deregistered
  | registering
  | registered
  deriving DecidableEq, Repr

structure NasUe where
  state : NasUeState := .deregistered
  imsi : Bytes := []
  assignedTmsi : Nat := 0
  usimKey : Key256 := Vector.replicate 32 0
  sessionKey : Key256 := Vector.replicate 32 0
  hasUsim : Bool := false
  authenticated : Bool := false
  authPending : Bool := false
  sqnMs : UInt64 := 0
  deriving DecidableEq

/-- What the checks on an AUTH_REQUEST come to. -/
inductive ChallengeVerdict where
  | ignored
  | macFailure
  | synchFailure
  | accepted (sqn : UInt64)
  deriving DecidableEq, Repr

namespace NasUe

def setUsimKey (u : NasUe) (k : Key256) : NasUe := { u with usimKey := k, hasUsim := true }

def sendAttachRequest (u : NasUe) (imsi : Bytes) : NasUe × List Bytes :=
  if u.state ≠ .deregistered then (u, [])
  else
    ({ u with imsi := imsi, authenticated := false, authPending := false, state := .registering },
      [NasMessage.encode { msgType := .attachRequest, value := imsi }])

def sendDetach (u : NasUe) : NasUe × List Bytes :=
  if u.state = .deregistered then (u, [])
  else
    ({ u with assignedTmsi := 0, state := .deregistered },
      [NasMessage.encode { msgType := .detach, value := putU32 u.assignedTmsi }])

def forceDeregistered (u : NasUe) : NasUe :=
  if u.state = .deregistered then u
  else { u with assignedTmsi := 0, authenticated := false, authPending := false,
                state := .deregistered }

section Authentication

variable (hmac : KeyedDigest)

def challengeVerdict (u : NasUe) (value : Bytes) : ChallengeVerdict :=
  if u.state ≠ .registering ∨ u.hasUsim = false ∨ value.length ≠ 2 * Aka.kRandLen then .ignored
  else
    match Aka.verifyAutn hmac u.usimKey (value.take Aka.kRandLen) (value.drop Aka.kRandLen) with
    | none => .macFailure
    | some sqn => if sqn ≤ u.sqnMs then .synchFailure else .accepted sqn

/-- `send_failure`: [cause][imsi_len][imsi][AUTS]. -/
def failureMessage (u : NasUe) (cause : UInt8) (auts : Bytes) : Bytes :=
  NasMessage.encode
    { msgType := .authFailure
      value := [cause, UInt8.ofNat u.imsi.length] ++ u.imsi ++ auts }

def onAuthRequest (u : NasUe) (value : Bytes) : NasUe × List Bytes :=
  let rand := value.take Aka.kRandLen
  let autn := value.drop Aka.kRandLen
  match u.challengeVerdict hmac value with
  | .ignored => (u, [])
  | .macFailure => (u, [u.failureMessage Aka.kCauseMacFailure []])
  | .synchFailure =>
    (u, [u.failureMessage Aka.kCauseSynchFailure (Aka.buildAuts hmac u.usimKey u.sqnMs rand)])
  | .accepted sqn =>
    ({ u with
        sqnMs := sqn
        sessionKey := Aka.kasme hmac (Aka.f3 hmac u.usimKey rand) (Aka.f4 hmac u.usimKey rand)
          (autn.take Aka.kAkLen)
        authPending := true },
      [NasMessage.encode { msgType := .authResponse, value := Aka.f2 hmac u.usimKey rand }])

/-- The value of an accepted ATTACH_ACCEPT shorter than a TMSI keeps the old one. -/
def onAttachAccept (u : NasUe) (value : Bytes) : NasUe :=
  if u.state ≠ .registering then u
  else
    { u with
      assignedTmsi := if value.length ≥ 4 then getU32 value 0 else u.assignedTmsi
      authenticated := u.authPending || u.authenticated
      authPending := false
      state := .registered }

def onMessage (u : NasUe) (pdu : Bytes) : NasUe × List Bytes :=
  let msg := NasMessage.decode pdu
  match msg.msgType with
  | .authRequest => u.onAuthRequest hmac msg.value
  | .attachAccept => (u.onAttachAccept msg.value, [])
  | .attachReject =>
    if u.state ≠ .registering then (u, []) else ({ u with state := .deregistered }, [])
  | _ => (u, [])

/-- Everything an AUTH_REQUEST can do: a failure report changes nothing, and an answered
challenge has a sequence number above the highest one accepted so far. -/
theorem onAuthRequest_cases (u : NasUe) (value : Bytes) :
    ((∀ sqn, u.challengeVerdict hmac value ≠ .accepted sqn) ∧
      ∃ out, u.onAuthRequest hmac value = (u, out)) ∨
    (∃ sqn, u.challengeVerdict hmac value = .accepted sqn ∧ u.state = .registering ∧
      Aka.verifyAutn hmac u.usimKey (value.take Aka.kRandLen) (value.drop Aka.kRandLen) =
        some sqn ∧ u.sqnMs < sqn ∧
      u.onAuthRequest hmac value =
        ({ u with
            sqnMs := sqn
            sessionKey := Aka.kasme hmac (Aka.f3 hmac u.usimKey (value.take Aka.kRandLen))
              (Aka.f4 hmac u.usimKey (value.take Aka.kRandLen))
              ((value.drop Aka.kRandLen).take Aka.kAkLen)
            authPending := true },
          [NasMessage.encode { msgType := .authResponse
                               value := Aka.f2 hmac u.usimKey (value.take Aka.kRandLen) }])) := by
  unfold onAuthRequest
  cases hverdict : u.challengeVerdict hmac value with
  | ignored => exact .inl ⟨by simp, _, rfl⟩
  | macFailure => exact .inl ⟨by simp, _, rfl⟩
  | synchFailure => exact .inl ⟨by simp, _, rfl⟩
  | accepted sqn =>
    unfold challengeVerdict at hverdict
    split at hverdict
    · cases hverdict
    · rename_i hchecked
      simp only [not_or, not_not] at hchecked
      split at hverdict
      · cases hverdict
      · rename_i sqn' hverify
        split at hverdict
        · cases hverdict
        · rename_i hfresh
          obtain rfl : sqn' = sqn := by simpa using hverdict
          exact .inr ⟨sqn', rfl, hchecked.1, hverify, UInt64.not_le.mp hfresh, rfl⟩

end Authentication

end NasUe

end AetherStack.Source.Nas
