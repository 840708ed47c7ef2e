import AetherStack.Guarantees.Authentication
import AetherStack.Source.NasUe

/-!
# Key agreement of one subscriber and one registrar

The NAS of a user equipment and of a base station exchange messages over a channel that
keeps every message ever sent: a delivery picks any of them, so messages may be lost,
duplicated, delayed and reordered, but not forged. The drawn RANDs are pairwise distinct
and the keyed digest is arbitrary.

A duplicated ATTACH_REQUEST opens a second challenge; the user equipment answers both and
keeps the key of the last one, while the ATTACH_ACCEPT it takes may be for the first. The
AUTH_REQUEST does not name the TMSI, so it cannot tell. The result is about the runs in
which the accept that ends an attach is for the challenge answered last, and in which no
response passes for another challenge than the one it answers.

Messages carry what the statements need to say about their origin and the code does not
send: the RAND a response answers, and the RAND of the challenge an accept concludes.
-/
namespace AetherStack.Guarantees
open Source Lib

structure AkaUplink where
  pdu : Bytes
  answers : Option Bytes := none

structure AkaDownlink where
  pdu : Bytes
  accepts : Option Bytes := none

structure AkaLink where
  ue : Nas.NasUe
  bs : NasBs
  ul : List AkaUplink := []
  dl : List AkaDownlink := []
  answered : List Bytes := []

inductive AkaEvent where
  | attach
  | detach
  | abort
  | deliverUl (i : Nat) (order : List Nat) (rand : Rand) (tmsi : Nat)
  | deliverDl (i : Nat)

namespace AkaLink

def start (imsi : Bytes) (k : Key256) : AkaLink :=
  { ue := ({} : Nas.NasUe).setUsimKey k
    bs := { keys := fun i => if i = imsi then some k else none } }

/-- The value [RAND || AUTN] when the PDU is an AUTH_REQUEST. -/
def requestValue (pdu : Bytes) : Option Bytes :=
  let msg := NasMessage.decode pdu
  if msg.msgType = .authRequest then some msg.value else none

/-- The challenges sent so far. -/
def requests (s : AkaLink) : List Bytes := s.dl.filterMap fun m => requestValue m.pdu

def randOf (value : Bytes) : Bytes := value.take Aka.kRandLen

section Steps

variable (hmac : KeyedDigest)

/-- The RAND the user equipment answers when it gets the PDU. -/
def answeredRand (ue : Nas.NasUe) (pdu : Bytes) : Option Bytes :=
  (requestValue pdu).bind fun value =>
    match ue.challengeVerdict hmac value with
    | .accepted _ => some (randOf value)
    | _ => none

/-- The RAND of the pending challenge that the PDU concludes. -/
def concludedRand (bs : NasBs) (order : List Nat) (pdu : Bytes) : Option Bytes :=
  let msg := NasMessage.decode pdu
  if msg.msgType = .authResponse ∧ msg.value.length = Aka.kResLen then
    (bs.answeredChallenge order msg.value).map fun found => found.2.rand
  else none

def receiveUl (s : AkaLink) (order : List Nat) (rand : Rand) (tmsi : Nat) (pdu : Bytes) : AkaLink :=
  { s with
    bs := (s.bs.handleMessage hmac order rand tmsi pdu).1
    dl := s.dl ++ (s.bs.handleMessage hmac order rand tmsi pdu).2.map fun sent =>
      ⟨sent.2, concludedRand s.bs order pdu⟩ }

def receiveDl (s : AkaLink) (pdu : Bytes) : AkaLink :=
  { s with
    ue := (s.ue.onMessage hmac pdu).1
    ul := s.ul ++ (s.ue.onMessage hmac pdu).2.map fun sent => ⟨sent, answeredRand hmac s.ue pdu⟩
    answered := (answeredRand hmac s.ue pdu).toList ++ s.answered }

/-- A RAND that this call draws has not been drawn before. -/
def DrawsFresh (s : AkaLink) (order : List Nat) (rand : Rand) (tmsi : Nat) (pdu : Bytes) : Prop :=
  ∀ sent ∈ (s.bs.handleMessage hmac order rand tmsi pdu).2, requestValue sent.2 ≠ none →
    rand.toList ∉ s.requests.map randOf

instance (s : AkaLink) (order : List Nat) (rand : Rand) (tmsi : Nat) (pdu : Bytes) :
    Decidable (DrawsFresh hmac s order rand tmsi pdu) :=
  inferInstanceAs (Decidable (∀ sent ∈ _, _ → _))

def step (imsi : Bytes) (s : AkaLink) : AkaEvent → Option AkaLink
  | .attach =>
    some { s with
      ue := (s.ue.sendAttachRequest imsi).1
      ul := s.ul ++ (s.ue.sendAttachRequest imsi).2.map fun sent => ⟨sent, none⟩ }
  | .detach =>
    some { s with
      ue := s.ue.sendDetach.1
      ul := s.ul ++ s.ue.sendDetach.2.map fun sent => ⟨sent, none⟩ }
  | .abort => some { s with ue := s.ue.forceDeregistered }
  | .deliverUl i order rand tmsi =>
    (s.ul[i]?).bind fun u =>
      if order.Perm s.bs.pendingAuth.keys ∧ DrawsFresh hmac s order rand tmsi u.pdu then
        some (s.receiveUl hmac order rand tmsi u.pdu)
      else none
  | .deliverDl i => (s.dl[i]?).map fun m => s.receiveDl hmac m.pdu

/-- The accept that ends an answered attach is for the challenge answered last, and a
response concludes no other challenge than the one it answers. -/
def Orderly (s : AkaLink) : AkaEvent → Prop
  | .deliverUl i order _ _ => ∀ u ∈ s.ul[i]?, ∀ r ∈ concludedRand s.bs order u.pdu,
      u.answers = some r
  | .deliverDl i => ∀ m ∈ s.dl[i]?, (NasMessage.decode m.pdu).msgType = .attachAccept →
      s.ue.state = .registering → s.ue.authPending = true → m.accepts = s.answered.head?
  | _ => True

instance (s : AkaLink) : (e : AkaEvent) → Decidable (s.Orderly e)
  | .deliverUl i _ _ _ => inferInstanceAs (Decidable (∀ u ∈ s.ul[i]?, ∀ r ∈ _, _ = _))
  | .deliverDl i => inferInstanceAs (Decidable (∀ m ∈ s.dl[i]?, _ → _ → _ → _))
  | .attach => isTrue trivial
  | .detach => isTrue trivial
  | .abort => isTrue trivial

/-- Registered and authenticated means that the registrar holds the same key for the TMSI. -/
def KeysAgree (s : AkaLink) : Prop :=
  s.ue.state = .registered → s.ue.authenticated = true →
    s.bs.sessionKeys[s.ue.assignedTmsi]? = some s.ue.sessionKey

/-- The key the user equipment derives from a challenge. -/
def keyOf (k : Key256) (value : Bytes) : Key256 :=
  Aka.kasme hmac (Aka.f3 hmac k (randOf value)) (Aka.f4 hmac k (randOf value))
    ((value.drop Aka.kRandLen).take Aka.kAkLen)

/-- An accept for `t` that concluded the challenge `r` still speaks for the key of `t`, or
`r` is no longer the challenge answered last. -/
structure Concluded (k : Key256) (s : AkaLink) (t : Nat) (r : Bytes) : Prop where
  answered : r ∈ s.answered
  key : s.answered.head? = some r →
    ∃ v ∈ s.requests, randOf v = r ∧ s.bs.sessionKeys[t]? = some (keyOf hmac k v)
  superseded : ∀ ctx, s.bs.pendingAuth[t]? = some ctx → ctx.rand ∈ s.answered →
    s.answered.head? ≠ some r

structure Agreement (k : Key256) (s : AkaLink) : Prop where
  usim : s.ue.usimKey = k
  keys : ∀ i k', s.bs.keys i = some k' → k' = k
  nextTmsi : s.bs.nextTmsi < u32Modulus
  distinct : ∀ v ∈ s.requests, ∀ v' ∈ s.requests, randOf v = randOf v' → v = v'
  pending : ∀ t ctx, s.bs.pendingAuth[t]? = some ctx → ctx.tmsi = t ∧ t < u32Modulus ∧
    ctx.k = k ∧ ∃ v ∈ s.requests, randOf v = ctx.rand ∧ ctx.sessionK = keyOf hmac k v
  answeredOnce : ∀ r ∈ s.answered, ∃ v ∈ s.requests, randOf v = r ∧
    ∃ sqn, Aka.verifyAutn hmac k (randOf v) (v.drop Aka.kRandLen) = some sqn ∧ sqn ≤ s.ue.sqnMs
  ueKey : ∀ r, s.answered.head? = some r →
    ∃ v ∈ s.requests, randOf v = r ∧ s.ue.sessionKey = keyOf hmac k v
  responses : ∀ u ∈ s.ul, ∀ r, u.answers = some r → r ∈ s.answered
  accepts : ∀ m ∈ s.dl, ∀ r, m.accepts = some r →
    (NasMessage.decode m.pdu).msgType = .attachAccept →
    ∃ t, (NasMessage.decode m.pdu).value = putU32 t ∧ t < u32Modulus ∧ Concluded hmac k s t r
  waiting : s.ue.authPending = true → s.answered ≠ []
  unverified : s.ue.state = .registering → s.ue.authenticated = false
  agreed : s.KeysAgree
  settled : s.ue.state = .registered → s.ue.authenticated = true →
    ∀ ctx, s.bs.pendingAuth[s.ue.assignedTmsi]? = some ctx → ctx.rand ∉ s.answered

end Steps

variable {hmac : KeyedDigest} {k : Key256} {s s' : AkaLink}

theorem agreement_start (imsi : Bytes) : Agreement hmac k (start imsi k) where
  usim := rfl
  keys := by
    intro i k' hkey
    dsimp only [start] at hkey
    split at hkey
    · exact (Option.some.inj hkey).symm
    · cases hkey
  nextTmsi := by simp [start, u32Modulus]
  distinct := by simp [start, requests]
  pending := by simp [start]
  answeredOnce := by simp [start]
  ueKey := by simp [start]
  responses := by simp [start]
  accepts := by simp [start]
  waiting := by simp [start, Nas.NasUe.setUsimKey]
  unverified := by simp [start, Nas.NasUe.setUsimKey]
  agreed := by simp [start, KeysAgree, Nas.NasUe.setUsimKey]
  settled := by simp [start, Nas.NasUe.setUsimKey]

/-! ## Steps of the user equipment -/

/-- A step that answers no challenge. What the user equipment takes over from an accept is
left to the caller. -/
theorem Agreement.of_ue (h : Agreement hmac k s) {ue : Nas.NasUe} {sent : List AkaUplink}
    (husim : ue.usimKey = s.ue.usimKey) (hsqn : ue.sqnMs = s.ue.sqnMs)
    (hkey : ue.sessionKey = s.ue.sessionKey) (hsent : ∀ u ∈ sent, u.answers = none)
    (hwaiting : ue.authPending = true → s.ue.authPending = true)
    (hunverified : ue.state = .registering → ue.authenticated = false)
    (hagreed : ue.state = .registered → ue.authenticated = true →
      s.bs.sessionKeys[ue.assignedTmsi]? = some s.ue.sessionKey ∧
      ∀ ctx, s.bs.pendingAuth[ue.assignedTmsi]? = some ctx → ctx.rand ∉ s.answered) :
    Agreement hmac k { s with ue := ue, ul := s.ul ++ sent } where
  usim := husim.trans h.usim
  keys := h.keys
  nextTmsi := h.nextTmsi
  distinct := h.distinct
  pending := h.pending
  answeredOnce := by
    intro r hr
    rw [hsqn]
    exact h.answeredOnce r hr
  ueKey := by
    intro r hr
    rw [hkey]
    exact h.ueKey r hr
  responses := by
    intro u hu r hanswers
    rcases List.mem_append.mp hu with hold | hnew
    · exact h.responses u hold r hanswers
    · rw [hsent u hnew] at hanswers
      cases hanswers
  accepts := by
    intro m hm r hr htype
    obtain ⟨t, hvalue, hlt, hconcluded⟩ := h.accepts m hm r hr htype
    exact ⟨t, hvalue, hlt, hconcluded.answered, hconcluded.key, hconcluded.superseded⟩
  waiting := fun hpending => h.waiting (hwaiting hpending)
  unverified := hunverified
  agreed := by
    intro hstate hauth
    rw [hkey]
    exact (hagreed hstate hauth).1
  settled := fun hstate hauth => (hagreed hstate hauth).2

/-- A user equipment that is registered and authenticated after the step already was. -/
theorem Agreement.of_idle_ue (h : Agreement hmac k s) {ue : Nas.NasUe} {sent : List AkaUplink}
    (husim : ue.usimKey = s.ue.usimKey) (hsqn : ue.sqnMs = s.ue.sqnMs)
    (hkey : ue.sessionKey = s.ue.sessionKey) (hsent : ∀ u ∈ sent, u.answers = none)
    (hwaiting : ue.authPending = true → s.ue.authPending = true)
    (hunverified : ue.state = .registering → ue.authenticated = false)
    (hregistered : ue.state = .registered → ue = s.ue) :
    Agreement hmac k { s with ue := ue, ul := s.ul ++ sent } := by
  refine h.of_ue husim hsqn hkey hsent hwaiting hunverified ?_
  intro hstate hauth
  obtain rfl : ue = s.ue := hregistered hstate
  exact ⟨h.agreed hstate hauth, h.settled hstate hauth⟩

theorem Agreement.attach (h : Agreement hmac k s) (imsi : Bytes) :
    Agreement hmac k { s with
      ue := (s.ue.sendAttachRequest imsi).1
      ul := s.ul ++ (s.ue.sendAttachRequest imsi).2.map fun sent => ⟨sent, none⟩ } := by
  unfold Nas.NasUe.sendAttachRequest
  split
  · exact h.of_idle_ue rfl rfl rfl (by simp) (fun hp => hp) h.unverified (fun _ => rfl)
  · exact h.of_idle_ue rfl rfl rfl (by simp) (by simp) (by simp) (by simp)

theorem Agreement.detach (h : Agreement hmac k s) :
    Agreement hmac k { s with
      ue := s.ue.sendDetach.1
      ul := s.ul ++ s.ue.sendDetach.2.map fun sent => ⟨sent, none⟩ } := by
  unfold Nas.NasUe.sendDetach
  split
  · exact h.of_idle_ue rfl rfl rfl (by simp) (fun hp => hp) h.unverified (fun _ => rfl)
  · exact h.of_idle_ue rfl rfl rfl (by simp) (fun hp => hp) (by simp) (by simp)

theorem Agreement.abort (h : Agreement hmac k s) :
    Agreement hmac k { s with ue := s.ue.forceDeregistered } := by
  have hidle : Agreement hmac k { s with ue := s.ue.forceDeregistered, ul := s.ul ++ [] } := by
    unfold Nas.NasUe.forceDeregistered
    split
    · exact h.of_idle_ue rfl rfl rfl (by simp) (fun hp => hp) h.unverified (fun _ => rfl)
    · exact h.of_idle_ue rfl rfl rfl (by simp) (by simp) (by simp) (by simp)
  simpa using hidle

theorem mem_requests {m : AkaDownlink} {value : Bytes} (hm : m ∈ s.dl)
    (hvalue : requestValue m.pdu = some value) : value ∈ s.requests :=
  List.mem_filterMap.mpr ⟨m, hm, hvalue⟩

/-- A challenge that is answered now has not been answered before: its sequence number is
above the highest one accepted. -/
theorem Agreement.not_answered (h : Agreement hmac k s) {value : Bytes} {sqn : UInt64}
    (hvalue : value ∈ s.requests)
    (hverify : Aka.verifyAutn hmac k (randOf value) (value.drop Aka.kRandLen) = some sqn)
    (hfresh : s.ue.sqnMs < sqn) : randOf value ∉ s.answered := by
  intro hmem
  obtain ⟨v, hv, hrand, sqn', hverify', hle⟩ := h.answeredOnce _ hmem
  obtain rfl := h.distinct v hv value hvalue hrand
  obtain rfl : sqn = sqn' := Option.some.inj (hverify.symm.trans hverify')
  exact absurd hfresh (UInt64.not_lt.mpr hle)

/-- The user equipment answers a challenge and takes over its key. -/
theorem Agreement.answer (h : Agreement hmac k s) {value response : Bytes} {sqn : UInt64}
    (hvalue : value ∈ s.requests) (hstate : s.ue.state = .registering)
    (hverify : Aka.verifyAutn hmac k (randOf value) (value.drop Aka.kRandLen) = some sqn)
    (hfresh : s.ue.sqnMs < sqn) :
    Agreement hmac k { s with
      ue := { s.ue with sqnMs := sqn, sessionKey := keyOf hmac k value, authPending := true }
      ul := s.ul ++ [⟨response, some (randOf value)⟩]
      answered := randOf value :: s.answered } where
  usim := h.usim
  keys := h.keys
  nextTmsi := h.nextTmsi
  distinct := h.distinct
  pending := h.pending
  answeredOnce := by
    intro r hr
    rcases List.mem_cons.mp hr with rfl | hold
    · exact ⟨value, hvalue, rfl, sqn, hverify, UInt64.le_refl _⟩
    · obtain ⟨v, hv, hrand, sqn', hverify', hle⟩ := h.answeredOnce r hold
      exact ⟨v, hv, hrand, sqn', hverify', UInt64.le_of_lt (UInt64.lt_of_le_of_lt hle hfresh)⟩
  ueKey := by
    intro r hr
    obtain rfl : randOf value = r := by simpa using hr
    exact ⟨value, hvalue, rfl, rfl⟩
  responses := by
    intro u hu r hr
    rcases List.mem_append.mp hu with hold | hnew
    · exact List.mem_cons_of_mem _ (h.responses u hold r hr)
    · obtain rfl := List.mem_singleton.mp hnew
      obtain rfl := Option.some.inj hr
      exact List.mem_cons_self
  accepts := by
    intro m hm r hr htype
    obtain ⟨t, hput, hlt, hconcluded⟩ := h.accepts m hm r hr htype
    -- the accept was for an earlier answer, so it is not for this one
    have hother : some (randOf value) ≠ some r := by
      intro heq
      rw [Option.some.injEq] at heq
      exact h.not_answered hvalue hverify hfresh (heq ▸ hconcluded.answered)
    refine ⟨t, hput, hlt, List.mem_cons_of_mem _ hconcluded.answered, ?_, ?_⟩
    · intro hhead
      exact absurd hhead hother
    · intro _ _ _
      exact hother
  waiting := by simp
  unverified := h.unverified
  agreed := by
    intro hregistered
    dsimp only at hregistered
    rw [hstate] at hregistered
    cases hregistered
  settled := by
    intro hregistered
    dsimp only at hregistered
    rw [hstate] at hregistered
    cases hregistered

/-- A challenge on the wire is one the network issued, so the UE's answer and key belong to it. -/
theorem Agreement.receiveRequest (h : Agreement hmac k s) {m : AkaDownlink} (hm : m ∈ s.dl)
    (htype : (NasMessage.decode m.pdu).msgType = .authRequest) :
    Agreement hmac k (s.receiveDl hmac m.pdu) := by
  have hvalue : requestValue m.pdu = some (NasMessage.decode m.pdu).value := by
    simp [requestValue, htype]
  have hmessage : s.ue.onMessage hmac m.pdu =
      s.ue.onAuthRequest hmac (NasMessage.decode m.pdu).value := by
    simp [Nas.NasUe.onMessage, htype]
  unfold receiveDl
  rw [hmessage]
  rcases s.ue.onAuthRequest_cases hmac (NasMessage.decode m.pdu).value with
    ⟨hrefused, out, hout⟩ | ⟨sqn, hverdict, hstate, hverify, hfresh, hout⟩
  · have hnone : answeredRand hmac s.ue m.pdu = none := by
      rw [answeredRand, hvalue, Option.bind_some]
      cases hverdict : s.ue.challengeVerdict hmac (NasMessage.decode m.pdu).value with
      | accepted sqn => exact absurd hverdict (hrefused sqn)
      | _ => rfl
    rw [hout, hnone]
    exact h.of_idle_ue rfl rfl rfl (by simp) (fun hp => hp) h.unverified (fun _ => rfl)
  · have hsome : answeredRand hmac s.ue m.pdu =
        some (randOf (NasMessage.decode m.pdu).value) := by
      simp [answeredRand, hvalue, hverdict]
    rw [hout, hsome]
    obtain rfl := h.usim
    exact h.answer (mem_requests hm hvalue) hstate hverify hfresh

/-- The user equipment takes an accept: the challenge it concluded is the last one answered,
so its key is the one of the registrar, and no pending challenge for the TMSI has been
answered. -/
theorem Agreement.receiveAccept (h : Agreement hmac k s) {m : AkaDownlink} (hm : m ∈ s.dl)
    (htype : (NasMessage.decode m.pdu).msgType = .attachAccept)
    (horderly : s.ue.state = .registering → s.ue.authPending = true →
      m.accepts = s.answered.head?) :
    Agreement hmac k { s with
      ue := s.ue.onAttachAccept (NasMessage.decode m.pdu).value, ul := s.ul ++ [] } := by
  by_cases hstate : s.ue.state = .registering
  · have haccept : s.ue.onAttachAccept (NasMessage.decode m.pdu).value =
        { s.ue with
          assignedTmsi :=
            if (NasMessage.decode m.pdu).value.length ≥ 4 then getU32 (NasMessage.decode m.pdu).value 0
            else s.ue.assignedTmsi
          authenticated := s.ue.authPending || s.ue.authenticated
          authPending := false
          state := .registered } := by
      rw [Nas.NasUe.onAttachAccept, if_neg (not_not.mpr hstate)]
    rw [haccept]
    refine h.of_ue rfl rfl rfl (by simp) (by simp) (by simp) ?_
    intro _ hauth
    dsimp only at hauth ⊢
    rw [h.unverified hstate, Bool.or_false] at hauth
    obtain ⟨r, rest, hanswered⟩ := List.exists_cons_of_ne_nil (h.waiting hauth)
    have hhead : s.answered.head? = some r := by rw [hanswered, List.head?_cons]
    obtain ⟨t, hvalue, hlt, hconcluded⟩ :=
      h.accepts m hm r ((horderly hstate hauth).trans hhead) htype
    have htmsi : getU32 (putU32 t) 0 = t := by
      have hread := getU32_putU32 [] [] t
      rwa [List.nil_append, List.append_nil, List.length_nil, Nat.mod_eq_of_lt hlt] at hread
    rw [hvalue, length_putU32, if_pos (Nat.le_refl 4), htmsi]
    obtain ⟨v, hv, hrand, hkey⟩ := h.ueKey r hhead
    obtain ⟨v', hv', hrand', hkey'⟩ := hconcluded.key hhead
    obtain rfl := h.distinct v hv v' hv' (hrand.trans hrand'.symm)
    refine ⟨hkey'.trans (congrArg some hkey.symm), ?_⟩
    intro ctx hpending hmem
    exact hconcluded.superseded ctx hpending hmem hhead
  · have hignored : s.ue.onAttachAccept (NasMessage.decode m.pdu).value = s.ue := by
      rw [Nas.NasUe.onAttachAccept, if_pos hstate]
    rw [hignored]
    exact h.of_idle_ue rfl rfl rfl (by simp) (fun hp => hp) h.unverified (fun _ => rfl)

/-- An accept that answers the last challenge leaves both sides with its key. -/
theorem Agreement.receiveDl (h : Agreement hmac k s) {m : AkaDownlink} (hm : m ∈ s.dl)
    (horderly : (NasMessage.decode m.pdu).msgType = .attachAccept → s.ue.state = .registering →
      s.ue.authPending = true → m.accepts = s.answered.head?) :
    Agreement hmac k (s.receiveDl hmac m.pdu) := by
  by_cases hrequest : (NasMessage.decode m.pdu).msgType = .authRequest
  · exact h.receiveRequest hm hrequest
  · have hnone : answeredRand hmac s.ue m.pdu = none := by
      simp [answeredRand, requestValue, hrequest]
    unfold AkaLink.receiveDl
    rw [hnone]
    unfold Nas.NasUe.onMessage
    dsimp only
    split
    · rename_i htype
      exact absurd htype hrequest
    · rename_i htype
      exact h.receiveAccept hm htype (horderly htype)
    · split
      · exact h.of_idle_ue rfl rfl rfl (by simp) (fun hp => hp) h.unverified (fun _ => rfl)
      · exact h.of_idle_ue rfl rfl rfl (by simp) (fun hp => hp) (by simp) (by simp)
    · exact h.of_idle_ue rfl rfl rfl (by simp) (fun hp => hp) h.unverified (fun _ => rfl)

/-! ## Steps of the registrar -/

theorem requestValue_of_type {pdu : Bytes}
    (h : (NasMessage.decode pdu).msgType ≠ .authRequest) : requestValue pdu = none := by
  rw [requestValue, if_neg h]

/-- A step that issues no challenge, concludes none and keeps every session key. -/
theorem Agreement.of_quiet (h : Agreement hmac k s) {bs : NasBs} {sent : List AkaDownlink}
    (hkeys : bs.keys = s.bs.keys) (hnext : bs.nextTmsi < u32Modulus)
    (hsession : bs.sessionKeys = s.bs.sessionKeys)
    (hpending : bs.pendingAuth.Within s.bs.pendingAuth)
    (hsent : ∀ m ∈ sent, (NasMessage.decode m.pdu).msgType ≠ .authRequest ∧
      ((NasMessage.decode m.pdu).msgType = .attachAccept → m.accepts = none)) :
    Agreement hmac k { s with bs := bs, dl := s.dl ++ sent } := by
  have hrequests : ({ s with bs := bs, dl := s.dl ++ sent } : AkaLink).requests = s.requests := by
    have hnone : sent.filterMap (fun m => requestValue m.pdu) = [] := by
      rw [List.filterMap_eq_nil_iff]
      intro m hm
      exact requestValue_of_type (hsent m hm).1
    rw [requests, List.filterMap_append, hnone, List.append_nil, requests]
  constructor
  · exact h.usim
  · intro i k' hkey
    exact h.keys i k' (hkeys ▸ hkey)
  · exact hnext
  · rw [hrequests]
    exact h.distinct
  · rw [hrequests]
    intro t ctx hget
    exact h.pending t ctx (hpending t ctx hget)
  · rw [hrequests]
    exact h.answeredOnce
  · rw [hrequests]
    exact h.ueKey
  · exact h.responses
  · intro m hm r hr htype
    rcases List.mem_append.mp hm with hold | hnew
    · obtain ⟨t, hput, hlt, hconcluded⟩ := h.accepts m hold r hr htype
      refine ⟨t, hput, hlt, hconcluded.answered, ?_, ?_⟩
      · rw [hrequests]
        dsimp only
        rw [hsession]
        exact hconcluded.key
      · intro ctx hget
        exact hconcluded.superseded ctx (hpending t ctx hget)
    · rw [(hsent m hnew).2 htype] at hr
      cases hr
  · exact h.waiting
  · exact h.unverified
  · intro hstate hauth
    dsimp only
    rw [hsession]
    exact h.agreed hstate hauth
  · intro hstate hauth ctx hget
    exact h.settled hstate hauth ctx (hpending _ ctx hget)

/-- The value of the AUTH_REQUEST that `send_challenge` sends. -/
def challengeValue (hmac : KeyedDigest) (c : NasBs) (rand : Rand) (ctx : NasUeContext) : Bytes :=
  rand.toList ++ Aka.autn (c.challengeVector hmac rand ctx)

theorem randOf_challengeValue (c : NasBs) (rand : Rand) (ctx : NasUeContext) :
    randOf (challengeValue hmac c rand ctx) = rand.toList :=
  List.take_left' (by simp [Aka.kRandLen])

theorem drop_challengeValue (c : NasBs) (rand : Rand) (ctx : NasUeContext) :
    (challengeValue hmac c rand ctx).drop Aka.kRandLen =
      Aka.autn (c.challengeVector hmac rand ctx) :=
  List.drop_left' (by simp [Aka.kRandLen])

/-- Both sides derive the same key from a challenge. -/
theorem keyOf_challengeValue (c : NasBs) (rand : Rand) (ctx : NasUeContext) :
    keyOf hmac ctx.k (challengeValue hmac c rand ctx) = (c.challenged hmac rand ctx).sessionK := by
  rw [keyOf, randOf_challengeValue, drop_challengeValue, NasBs.challengeVector,
    Aka.take_autn_generate]
  rfl

theorem requestValue_challengeMessage (c : NasBs) (rand : Rand) (ctx : NasUeContext) :
    requestValue (NasBs.challengeMessage (c.challengeVector hmac rand ctx)) =
      some (challengeValue hmac c rand ctx) := by
  simp [requestValue, NasBs.challengeVector, challengeValue]

/-- A new challenge has a RAND nobody has answered. -/
theorem Agreement.challenge (h : Agreement hmac k s) {c : NasBs} {ctx : NasUeContext} {rand : Rand}
    {accepts : Option Bytes} (hkeys : c.keys = s.bs.keys) (hnext : c.nextTmsi < u32Modulus)
    (hsession : c.sessionKeys = s.bs.sessionKeys)
    (hpending : c.pendingAuth.Within s.bs.pendingAuth) (hctx : ctx.k = k)
    (htmsi : ctx.tmsi < u32Modulus) (hfresh : rand.toList ∉ s.requests.map randOf) :
    Agreement hmac k { s with
      bs := (c.sendChallenge hmac rand ctx).1
      dl := s.dl ++ (c.sendChallenge hmac rand ctx).2.map fun sent => ⟨sent.2, accepts⟩ } := by
  have hrequests : ({ s with
      bs := (c.sendChallenge hmac rand ctx).1
      dl := s.dl ++ (c.sendChallenge hmac rand ctx).2.map fun sent => ⟨sent.2, accepts⟩ } :
      AkaLink).requests = s.requests ++ [challengeValue hmac c rand ctx] := by
    simp [requests, NasBs.sendChallenge, requestValue_challengeMessage]
  have hold : ∀ v ∈ s.requests, v ∈ s.requests ++ [challengeValue hmac c rand ctx] :=
    fun v hv => List.mem_append_left _ hv
  have hnew : ∀ v ∈ s.requests, randOf v ≠ randOf (challengeValue hmac c rand ctx) := by
    intro v hv heq
    rw [randOf_challengeValue] at heq
    exact hfresh (List.mem_map.mpr ⟨v, hv, heq⟩)
  -- an answered RAND belongs to an older request
  have hunanswered : (c.challenged hmac rand ctx).rand ∉ s.answered := by
    intro hmem
    obtain ⟨v, hv, hrand, -⟩ := h.answeredOnce _ hmem
    exact hfresh (List.mem_map.mpr ⟨v, hv, hrand⟩)
  -- so a pending challenge that has been answered was pending before
  have hwas : ∀ (t : Nat) (p : NasUeContext),
      (c.sendChallenge hmac rand ctx).1.pendingAuth[t]? = some p → p.rand ∈ s.answered →
      s.bs.pendingAuth[t]? = some p := by
    intro t p hget hmem
    dsimp only [NasBs.sendChallenge] at hget
    rw [TmsiMap.getElem?_insert_eq] at hget
    split at hget
    · obtain rfl := Option.some.inj hget
      exact absurd hmem hunanswered
    · exact hpending t p hget
  constructor
  · exact h.usim
  · intro i k' hkey
    exact h.keys i k' (hkeys ▸ hkey)
  · exact hnext
  · rw [hrequests]
    intro v hv v' hv' hrand
    rcases List.mem_append.mp hv with hv | hv <;> rcases List.mem_append.mp hv' with hv' | hv'
    · exact h.distinct v hv v' hv' hrand
    · obtain rfl := List.mem_singleton.mp hv'
      exact absurd hrand (hnew v hv)
    · obtain rfl := List.mem_singleton.mp hv
      exact absurd hrand.symm (hnew v' hv')
    · rw [List.mem_singleton.mp hv, List.mem_singleton.mp hv']
  · rw [hrequests]
    intro t p hget
    dsimp only [NasBs.sendChallenge] at hget
    rw [TmsiMap.getElem?_insert_eq] at hget
    split at hget
    · rename_i ht
      obtain rfl := Option.some.inj hget
      subst ht
      refine ⟨rfl, htmsi, hctx, challengeValue hmac c rand ctx, by simp,
        randOf_challengeValue c rand ctx, ?_⟩
      rw [← hctx, keyOf_challengeValue]
    · obtain ⟨ht, hlt, hk, v, hv, hrand, hkey⟩ := h.pending t p (hpending t p hget)
      exact ⟨ht, hlt, hk, v, hold v hv, hrand, hkey⟩
  · rw [hrequests]
    intro r hr
    obtain ⟨v, hv, hrest⟩ := h.answeredOnce r hr
    exact ⟨v, hold v hv, hrest⟩
  · rw [hrequests]
    intro r hr
    obtain ⟨v, hv, hrest⟩ := h.ueKey r hr
    exact ⟨v, hold v hv, hrest⟩
  · exact h.responses
  · intro m hm r hr htype
    rcases List.mem_append.mp hm with hm | hm
    · obtain ⟨t, hput, hlt, hconcluded⟩ := h.accepts m hm r hr htype
      refine ⟨t, hput, hlt, hconcluded.answered, ?_, ?_⟩
      · rw [hrequests]
        intro hhead
        obtain ⟨v, hv, hrand, hkey⟩ := hconcluded.key hhead
        exact ⟨v, hold v hv, hrand, (congrArg (·[t]?) hsession).trans hkey⟩
      · intro p hget hmem
        exact hconcluded.superseded p (hwas t p hget hmem) hmem
    · simp only [NasBs.sendChallenge, List.map_cons, List.map_nil, List.mem_singleton] at hm
      subst hm
      simp [NasBs.challengeVector] at htype
  · exact h.waiting
  · exact h.unverified
  · intro hstate hauth
    exact (congrArg (·[s.ue.assignedTmsi]?) hsession).trans (h.agreed hstate hauth)
  · intro hstate hauth p hget hmem
    exact h.settled hstate hauth p (hwas _ p hget hmem) hmem

/-- The registrar concludes an answered challenge: the key of its TMSI changes, and every
older accept for that TMSI is for a challenge no longer the last one answered. -/
theorem Agreement.conclude (h : Agreement hmac k s) {t : Nat} {ctx : NasUeContext}
    {ueContexts : TmsiMap NasUeContext} (hpending : s.bs.pendingAuth[t]? = some ctx)
    (hanswered : ctx.rand ∈ s.answered) :
    Agreement hmac k { s with
      bs := { s.bs with
        pendingAuth := s.bs.pendingAuth.erase t
        ueContexts := ueContexts
        sessionKeys := s.bs.sessionKeys.insert t ctx.sessionK }
      dl := s.dl ++ [⟨NasBs.acceptMessage ctx.tmsi, some ctx.rand⟩] } := by
  obtain ⟨htmsi, hlt, -, v, hv, hrand, hkey⟩ := h.pending t ctx hpending
  have hrequests : ({ s with
      bs := { s.bs with
        pendingAuth := s.bs.pendingAuth.erase t
        ueContexts := ueContexts
        sessionKeys := s.bs.sessionKeys.insert t ctx.sessionK }
      dl := s.dl ++ [⟨NasBs.acceptMessage ctx.tmsi, some ctx.rand⟩] } : AkaLink).requests =
      s.requests := by
    simp [requests, requestValue]
  constructor
  · exact h.usim
  · exact h.keys
  · exact h.nextTmsi
  · rw [hrequests]
    exact h.distinct
  · rw [hrequests]
    intro t' p hget
    exact h.pending t' p (TmsiMap.within_erase _ _ _ _ hget)
  · rw [hrequests]
    exact h.answeredOnce
  · rw [hrequests]
    exact h.ueKey
  · exact h.responses
  · intro m hm r hr htype
    rcases List.mem_append.mp hm with hm | hm
    · obtain ⟨t', hput, hlt', hconcluded⟩ := h.accepts m hm r hr htype
      refine ⟨t', hput, hlt', hconcluded.answered, ?_, ?_⟩
      · rw [hrequests]
        intro hhead
        dsimp only
        rw [TmsiMap.getElem?_insert_eq]
        split
        · rename_i ht
          subst ht
          exact absurd hhead (hconcluded.superseded ctx hpending hanswered)
        · exact hconcluded.key hhead
      · intro p hget
        exact hconcluded.superseded p (TmsiMap.within_erase _ _ _ _ hget)
    · obtain rfl := List.mem_singleton.mp hm
      obtain rfl := Option.some.inj hr
      refine ⟨t, by simp [htmsi], hlt, hanswered, ?_, ?_⟩
      · rw [hrequests]
        intro _
        refine ⟨v, hv, hrand, ?_⟩
        rw [← hkey]
        exact Std.ExtTreeMap.getElem?_insert_self
      · intro p hget
        simp at hget
  · exact h.waiting
  · exact h.unverified
  · intro hstate hauth
    dsimp only at hstate hauth ⊢
    rw [TmsiMap.getElem?_insert_eq]
    split
    · rename_i ht
      subst ht
      exact absurd hanswered (h.settled hstate hauth ctx hpending)
    · exact h.agreed hstate hauth
  · intro hstate hauth p hget
    exact h.settled hstate hauth p (TmsiMap.within_erase _ _ _ _ hget)

/-- The network concludes with the key of the challenge that was answered. -/
theorem Agreement.receiveUl (h : Agreement hmac k s) {u : AkaUplink} (hu : u ∈ s.ul)
    {order : List Nat} {rand : Rand} {tmsi : Nat}
    (hfresh : DrawsFresh hmac s order rand tmsi u.pdu)
    (horderly : ∀ r, concludedRand s.bs order u.pdu = some r → u.answers = some r) :
    Agreement hmac k (s.receiveUl hmac order rand tmsi u.pdu) := by
  have hnext : (s.bs.nextTmsi + 1) % u32Modulus < u32Modulus := Nat.mod_lt _ (by simp [u32Modulus])
  have hhandled := NasBs.handleMessage_handled hmac s.bs order rand tmsi u.pdu
  unfold DrawsFresh at hfresh
  unfold AkaLink.receiveUl
  generalize s.bs.handleMessage hmac order rand tmsi u.pdu = res at hhandled hfresh
  obtain ⟨bs, out⟩ := res
  cases hhandled with
  | ignored => exact h.of_quiet rfl h.nextTmsi rfl (TmsiMap.within_refl _) (by simp)
  | rejected htype hlen hnone hsingle =>
    exact h.of_quiet rfl h.nextTmsi rfl (TmsiMap.within_empty _) (by simp)
  | dropped t htype => exact h.of_quiet rfl h.nextTmsi rfl (TmsiMap.within_erase _ _) (by simp)
  | detached t htype => exact h.of_quiet rfl h.nextTmsi rfl (TmsiMap.within_refl _) (by simp)
  | openAccess htype hkey =>
    refine h.of_quiet rfl hnext rfl (TmsiMap.within_refl _) ?_
    simp [concludedRand, htype]
  | accepted htype hlen hfound =>
    rename_i t ctx
    have hconcluded : concludedRand s.bs order u.pdu = some ctx.rand := by
      simp [concludedRand, htype, hlen, hfound]
    rw [hconcluded]
    exact h.conclude (NasBs.mem_of_answeredChallenge hfound).1
      (h.responses u hu ctx.rand (horderly ctx.rand hconcluded))
  | resynchronised sqn htype hfound =>
    rename_i t ctx
    obtain ⟨htmsi, hlt, hk, -⟩ := h.pending t ctx (NasBs.mem_of_failedChallenge hfound)
    refine h.challenge rfl h.nextTmsi rfl (TmsiMap.within_erase _ _) hk ?_ ?_
    · rw [htmsi]
      exact hlt
    · exact hfresh _ (List.mem_singleton.mpr rfl) (by simp [requestValue_challengeMessage])
  | challenged htype hkey =>
    refine h.challenge rfl hnext rfl (TmsiMap.within_refl _) (h.keys _ _ hkey) h.nextTmsi ?_
    exact hfresh _ (List.mem_singleton.mpr rfl) (by simp [requestValue_challengeMessage])

/-- Step lemma under `Orderly`. -/
theorem Agreement.step_preserved (h : Agreement hmac k s) {imsi : Bytes} {e : AkaEvent}
    (horderly : s.Orderly e) (hstep : step hmac imsi s e = some s') : Agreement hmac k s' := by
  cases e with
  | attach =>
    obtain rfl := Option.some.inj hstep
    exact h.attach imsi
  | detach =>
    obtain rfl := Option.some.inj hstep
    exact h.detach
  | abort =>
    obtain rfl := Option.some.inj hstep
    exact h.abort
  | deliverUl i order rand tmsi =>
    obtain ⟨u, hu, hif⟩ := Option.bind_eq_some_iff.mp hstep
    split at hif
    · rename_i henabled
      obtain rfl := Option.some.inj hif
      exact h.receiveUl (List.mem_of_getElem? hu) henabled.2 fun r hr => horderly u hu r hr
    · cases hif
  | deliverDl i =>
    obtain ⟨m, hm, rfl⟩ := Option.map_eq_some_iff.mp hstep
    exact h.receiveDl (List.mem_of_getElem? hm) (horderly m hm)

/-- In every run in which the accept that ends an answered attach is for the challenge
answered last, and no response concludes another challenge than its own, a registered and
authenticated user equipment and the registrar hold the same key. -/
theorem aka_keys_agree (hmac : KeyedDigest) (imsi : Bytes) (k : Key256) (events : List AkaEvent)
    (s : AkaLink) (run : runFrom (step hmac imsi) (start imsi k) events = some s)
    (meets : StepsMeet (step hmac imsi) Orderly (start imsi k) events) : s.KeysAgree :=
  (runFrom_invariant_of_meets (Agreement hmac k)
    (fun _ _ _ h horderly hstep => h.step_preserved horderly hstep)
    (agreement_start imsi) meets run).agreed

/-! ## Two runs -/

/-- A digest that returns the digested octets behind the label. -/
def echoDigest : KeyedDigest := fun _ data => Vector.ofFn fun i : Fin 32 => data.getD (i.val + 1) 0

def subscriberKey : Key256 := Vector.replicate 32 1

/-- Attach, challenge, response, accept. -/
def plainAttach : List AkaEvent :=
  [.attach, .deliverUl 0 [] (Vector.replicate 16 1) 0, .deliverDl 0,
    .deliverUl 1 [65537] (Vector.replicate 16 2) 0, .deliverDl 1]

theorem aka_keys_agree_plain :
    ∃ s, runFrom (step echoDigest [1]) (start [1] subscriberKey) plainAttach = some s ∧
      s.ue.state = .registered ∧ s.ue.authenticated = true ∧ s.KeysAgree := by
  have hrun := Option.some_get (show (runFrom (step echoDigest [1]) (start [1] subscriberKey)
    plainAttach).isSome by decide)
  exact ⟨_, hrun.symm, by decide, by decide,
    aka_keys_agree echoDigest [1] subscriberKey plainAttach _ hrun.symm (by decide)⟩

/-- The ATTACH_REQUEST arrives twice; the user equipment answers both challenges and takes
the accept of the first. -/
def duplicatedAttach : List AkaEvent :=
  [.attach, .deliverUl 0 [] (Vector.replicate 16 1) 0,
    .deliverUl 0 [65537] (Vector.replicate 16 2) 0, .deliverDl 0, .deliverDl 1,
    .deliverUl 1 [65537, 65538] (Vector.replicate 16 3) 0, .deliverDl 2]

theorem aka_keys_differ_after_duplicate :
    ∃ s, runFrom (step echoDigest [1]) (start [1] subscriberKey) duplicatedAttach = some s ∧
      ¬ s.KeysAgree := by
  refine ⟨(runFrom (step echoDigest [1]) (start [1] subscriberKey) duplicatedAttach).get
    (by decide), (Option.some_get _).symm, ?_⟩
  intro hagree
  exact absurd (hagree (by decide) (by decide)) (by decide)

end AkaLink

end AetherStack.Guarantees
