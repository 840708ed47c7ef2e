import AetherStack.Lib.Run
import AetherStack.Source.NasUe
import AetherStack.Source.NasBs

/-!
# Completeness of the authenticated attach

One user equipment attaches at a registrar that knows its key and has no challenge
pending, over two channels that deliver every message once and in order. The digest is
arbitrary and the registrar draws any RAND at each message it handles.

At most one message is in flight, so the run is a chain of stages: request, challenge,
answer, accept, with one detour over AUTH_FAILURE and AUTS when the challenge is not
fresh. The bound on the number of the user equipment keeps its successor, which the
registrar challenges with after the detour, from wrapping to zero.
-/
namespace AetherStack.Guarantees
open Source Lib

structure AttachRun where
  ue : Nas.NasUe
  bs : NasBs
  ul : List Bytes := []
  dl : List Bytes := []
  failures : Nat := 0

inductive AttachDelivery where
  | uplink (order : List Nat) (rand : Rand) (tmsi : Nat)
  | downlink

namespace AttachRun

def start (imsi : Bytes) (ue : Nas.NasUe) (bs : NasBs) : AttachRun :=
  { ue := (ue.sendAttachRequest imsi).1, bs := bs, ul := (ue.sendAttachRequest imsi).2 }

def isAuthFailure (pdu : Bytes) : Bool := (NasMessage.decode pdu).msgType = .authFailure

def Quiescent (s : AttachRun) : Prop := s.ul = [] ∧ s.dl = []

/-- Registered and authenticated, with one session key on both sides. -/
def Attached (s : AttachRun) : Prop :=
  s.ue.state = .registered ∧ s.ue.authenticated = true ∧
    s.bs.sessionKeys[s.ue.assignedTmsi]? = some s.ue.sessionKey

section Steps

variable (hmac : KeyedDigest)

def step (s : AttachRun) : AttachDelivery → Option AttachRun
  | .uplink order rand tmsi =>
    match s.ul with
    | [] => none
    | pdu :: rest =>
      if order.Perm s.bs.pendingAuth.keys then
        some { s with
          bs := (s.bs.handleMessage hmac order rand tmsi pdu).1
          ul := rest
          dl := s.dl ++ (s.bs.handleMessage hmac order rand tmsi pdu).2.map Prod.snd }
      else none
  | .downlink =>
    match s.dl with
    | [] => none
    | pdu :: rest =>
      some { s with
        ue := (s.ue.onMessage hmac pdu).1
        ul := s.ul ++ (s.ue.onMessage hmac pdu).2
        dl := rest
        failures := s.failures + (s.ue.onMessage hmac pdu).2.countP isAuthFailure }

/-- The user equipment has asked for an attach and answered no challenge yet. -/
structure Attaching (imsi : Bytes) (k : Key256) (u : Nas.NasUe) : Prop where
  state : u.state = .registering
  imsi : u.imsi = imsi
  key : u.usimKey = k
  usim : u.hasUsim = true
  sqn : u.sqnMs.toNat < 2 ^ 48 - 1

/-- The one pending challenge of the registrar. -/
structure Challenging (imsi : Bytes) (k : Key256) (b : NasBs) (t : Nat) (ctx : NasUeContext)
    (sqn : UInt64) (drawn : Rand) : Prop where
  sole : ∀ t', b.pendingAuth[t']? = if t = t' then some ctx else none
  tmsi : ctx.tmsi = t
  bound : t < u32Modulus
  imsi : ctx.imsi = imsi
  key : ctx.k = k
  rand : ctx.rand = drawn.toList
  xres : ctx.xres = Aka.f2 hmac k drawn.toList
  sessionK : ctx.sessionK = (Aka.generate hmac k sqn drawn.toList).kasme

def responseMessage (k : Key256) (rand : Rand) : Bytes :=
  NasMessage.encode { msgType := .authResponse, value := Aka.f2 hmac k rand.toList }

/-- Where a run stands after so many deliveries. -/
inductive Stage (imsi : Bytes) (k : Key256) : Nat → AttachRun → Prop
  | requested {u : Nas.NasUe} {b : NasBs} :
    Attaching imsi k u → b.keys imsi = some k → b.pendingAuth = ∅ → b.nextTmsi < u32Modulus →
    Stage imsi k 0
      { ue := u, bs := b, ul := [NasMessage.encode { msgType := .attachRequest, value := imsi }] }
  | challenged {u : Nas.NasUe} {b : NasBs} {t : Nat} {ctx : NasUeContext} {sqn : UInt64}
      {rand : Rand} :
    Attaching imsi k u → Challenging hmac imsi k b t ctx sqn rand →
    Stage imsi k 1
      { ue := u, bs := b
        dl := [NasBs.challengeMessage (Aka.generate hmac k sqn rand.toList)] }
  | refused {u : Nas.NasUe} {b : NasBs} {t : Nat} {ctx : NasUeContext} {sqn : UInt64}
      {rand : Rand} :
    Attaching imsi k u → Challenging hmac imsi k b t ctx sqn rand →
    Stage imsi k 2
      { ue := u, bs := b, failures := 1
        ul := [u.failureMessage Aka.kCauseSynchFailure
          (Aka.buildAuts hmac k u.sqnMs rand.toList)] }
  | resynchronised {u : Nas.NasUe} {b : NasBs} {t : Nat} {ctx : NasUeContext} {sqn : UInt64}
      {rand : Rand} :
    Attaching imsi k u → Challenging hmac imsi k b t ctx sqn rand →
    u.sqnMs < sqn &&& Aka.kSqnMask →
    Stage imsi k 3
      { ue := u, bs := b, failures := 1
        dl := [NasBs.challengeMessage (Aka.generate hmac k sqn rand.toList)] }
  | answered {n failures : Nat} {u : Nas.NasUe} {b : NasBs} {t : Nat} {ctx : NasUeContext}
      {sqn : UInt64} {rand : Rand} :
    n ≤ 4 → failures ≤ 1 → u.state = .registering → u.authPending = true →
    u.sessionKey = ctx.sessionK → Challenging hmac imsi k b t ctx sqn rand →
    Stage imsi k n { ue := u, bs := b, failures := failures, ul := [responseMessage hmac k rand] }
  | accepted {n failures t : Nat} {u : Nas.NasUe} {b : NasBs} :
    n ≤ 5 → failures ≤ 1 → u.state = .registering → u.authPending = true → t < u32Modulus →
    b.sessionKeys[t]? = some u.sessionKey →
    Stage imsi k n { ue := u, bs := b, failures := failures, dl := [NasBs.acceptMessage t] }
  | attached {n failures : Nat} {u : Nas.NasUe} {b : NasBs} :
    n ≤ 6 → failures ≤ 1 → Attached { ue := u, bs := b } →
    Stage imsi k n { ue := u, bs := b, failures := failures }

end Steps

variable {hmac : KeyedDigest} {imsi : Bytes} {k : Key256}

/-! ## The registrar -/

/-- A challenge leaves it as the only pending one, whatever was pending for the TMSI. -/
theorem sendChallenge_challenging (hmac : KeyedDigest) (b : NasBs) (ctx : NasUeContext)
    (rand : Rand) (hothers : ∀ t', ctx.tmsi ≠ t' → b.pendingAuth[t']? = none) (hbound : ctx.tmsi < u32Modulus)
    (himsi : ctx.imsi = imsi) (hkey : ctx.k = k) :
    Challenging hmac imsi k (b.sendChallenge hmac rand ctx).1 ctx.tmsi
        (b.challenged hmac rand ctx) ((b.sqn imsi + 1) &&& Aka.kSqnMask) rand ∧
      (b.sendChallenge hmac rand ctx).2 = [(ctx.tmsi, NasBs.challengeMessage
        (Aka.generate hmac k ((b.sqn imsi + 1) &&& Aka.kSqnMask) rand.toList))] := by
  subst himsi hkey
  refine ⟨?_, rfl⟩
  constructor
  · intro t'
    rw [NasBs.sendChallenge, TmsiMap.getElem?_insert_eq]
    split
    · rfl
    · rename_i hne
      exact hothers t' hne
  · rfl
  · exact hbound
  all_goals rfl

/-- A subscriber with a key is challenged, under the next TMSI. -/
theorem handleMessage_attachRequest {b : NasBs} (order : List Nat) (rand : Rand) (tmsi : Nat)
    (himsi : imsi.length ≤ 255) (hkey : b.keys imsi = some k) :
    b.handleMessage hmac order rand tmsi
        (NasMessage.encode { msgType := .attachRequest, value := imsi }) =
      ({ b with nextTmsi := (b.nextTmsi + 1) % u32Modulus } : NasBs).sendChallenge hmac rand
        { imsi := imsi, tmsi := b.nextTmsi, k := k } := by
  have hdecode : NasMessage.decode (NasMessage.encode { msgType := .attachRequest, value := imsi }) =
      ⟨.attachRequest, imsi⟩ :=
    NasMessage.decode_encode (by simp) (by simp [snModulus]; omega)
  simp only [NasBs.handleMessage, hdecode, NasBs.onAttachRequest, hkey]

/-- The token of a refused challenge sets the number to that of the user equipment. -/
theorem handleMessage_authFailure {u : Nas.NasUe} {b : NasBs} {t : Nat} {ctx : NasUeContext}
    {sqn : UInt64} {drawn : Rand} {order : List Nat} (rand : Rand) (tmsi : Nat)
    (himsi : imsi.length ≤ 255) (hue : u.imsi = imsi)
    (hchallenging : Challenging hmac imsi k b t ctx sqn drawn)
    (horder : order.Perm b.pendingAuth.keys) :
    b.handleMessage hmac order rand tmsi (u.failureMessage Aka.kCauseSynchFailure
        (Aka.buildAuts hmac k u.sqnMs drawn.toList)) =
      ({ b with
          pendingAuth := b.pendingAuth.erase t
          sqn := Function.update b.sqn imsi
            ((u.sqnMs &&& Aka.kSqnMask) &&& Aka.kSqnMask) } : NasBs).sendChallenge hmac rand ctx := by
  subst hue
  have hauts := Aka.length_buildAuts hmac k u.sqnMs drawn.toList
  have hoctet : (UInt8.ofNat u.imsi.length).toNat = u.imsi.length := by
    rw [UInt8.toNat_ofNat']
    exact Nat.mod_eq_of_lt (by omega)
  generalize hvalue : [Aka.kCauseSynchFailure, UInt8.ofNat u.imsi.length] ++ u.imsi ++
    Aka.buildAuts hmac k u.sqnMs drawn.toList = value
  have hlength : value.length = 2 + u.imsi.length + Aka.kAutsLen := by
    simp [← hvalue, hauts]
    omega
  have hcause : value.getD 0 0 = Aka.kCauseSynchFailure := by simp [← hvalue]
  have himsiLen : (value.getD 1 0).toNat = u.imsi.length := by simp [← hvalue, hoctet]
  have hfailureImsi : NasBs.failureImsi value = u.imsi := by
    rw [NasBs.failureImsi, himsiLen, ← hvalue]
    simp
  have htoken : (value.drop (2 + u.imsi.length)).take Aka.kAutsLen =
      Aka.buildAuts hmac k u.sqnMs drawn.toList := by
    rw [← hvalue, List.drop_left' (by simp; omega)]
    exact List.take_of_length_le (Nat.le_of_eq hauts)
  have hdecode : NasMessage.decode (u.failureMessage Aka.kCauseSynchFailure
      (Aka.buildAuts hmac k u.sqnMs drawn.toList)) = ⟨.authFailure, value⟩ := by
    rw [Nas.NasUe.failureMessage, hvalue]
    refine NasMessage.decode_encode (by simp) ?_
    rw [hlength, snModulus, Aka.kAutsLen]
    omega
  have hfound : b.failedChallenge order u.imsi = some (t, ctx) :=
    TmsiMap.firstMatch_sole horder hchallenging.sole (by simpa using hchallenging.imsi)
  have hverify : Aka.verifyAuts hmac ctx.k (Aka.buildAuts hmac k u.sqnMs drawn.toList) ctx.rand =
      some (u.sqnMs &&& Aka.kSqnMask) := by
    rw [hchallenging.key, hchallenging.rand, Aka.verifyAuts_buildAuts]
  have hparsed : ¬(value.length < 2 ∨ value.length < 2 + u.imsi.length) := by omega
  have hsynch : value.getD 0 0 = Aka.kCauseSynchFailure ∧
      value.length ≥ 2 + u.imsi.length + Aka.kAutsLen := ⟨hcause, by omega⟩
  simp only [NasBs.handleMessage, hdecode, NasBs.onAuthFailure, himsiLen, hfailureImsi, hfound,
    htoken, hverify]
  rw [if_neg hparsed, if_pos hsynch]

/-- The right answer to the one pending challenge is accepted. -/
theorem handleMessage_authResponse {b : NasBs} {t : Nat} {ctx : NasUeContext} {sqn : UInt64}
    {drawn : Rand} {order : List Nat} (rand : Rand) (tmsi : Nat)
    (hchallenging : Challenging hmac imsi k b t ctx sqn drawn)
    (horder : order.Perm b.pendingAuth.keys) :
    b.handleMessage hmac order rand tmsi (responseMessage hmac k drawn) =
      ({ b with
          pendingAuth := b.pendingAuth.erase t
          ueContexts := b.ueContexts.insert ctx.tmsi { ctx with registered := true }
          sessionKeys := b.sessionKeys.insert t ctx.sessionK },
        [(ctx.tmsi, NasBs.acceptMessage ctx.tmsi)]) := by
  have hdecode : NasMessage.decode (responseMessage hmac k drawn) =
      ⟨.authResponse, Aka.f2 hmac k drawn.toList⟩ :=
    NasMessage.decode_encode (by simp) (by simp [Aka.kResLen, snModulus])
  have hfound : b.answeredChallenge order (Aka.f2 hmac k drawn.toList) = some (t, ctx) :=
    TmsiMap.firstMatch_sole horder hchallenging.sole (by simpa using hchallenging.xres)
  have hlen : ¬(Aka.f2 hmac k drawn.toList).length ≠ Aka.kResLen := by simp
  simp only [NasBs.handleMessage, hdecode, NasBs.onAuthResponse, hfound]
  rw [if_neg hlen]

/-! ## The user equipment -/

/-- A challenge with a fresh number is answered, any other one is refused with a token. -/
theorem onMessage_challenge {u : Nas.NasUe} (hue : Attaching imsi k u) (sqn : UInt64)
    (rand : Rand) :
    u.onMessage hmac (NasBs.challengeMessage (Aka.generate hmac k sqn rand.toList)) =
      if sqn &&& Aka.kSqnMask ≤ u.sqnMs then
        (u, [u.failureMessage Aka.kCauseSynchFailure (Aka.buildAuts hmac k u.sqnMs rand.toList)])
      else
        ({ u with
            sqnMs := sqn &&& Aka.kSqnMask
            sessionKey := (Aka.generate hmac k sqn rand.toList).kasme
            authPending := true },
          [responseMessage hmac k rand]) := by
  generalize hautn : Aka.autn (Aka.generate hmac k sqn rand.toList) = autn
  have hrand : (rand.toList ++ autn).take Aka.kRandLen = rand.toList :=
    List.take_left' rand.length_toList
  have hrest : (rand.toList ++ autn).drop Aka.kRandLen = autn :=
    List.drop_left' rand.length_toList
  have hlength : (rand.toList ++ autn).length = 2 * Aka.kRandLen := by
    simp [← hautn, Aka.kAutnLen, Aka.kRandLen]
  have hverify : Aka.verifyAutn hmac k rand.toList autn = some (sqn &&& Aka.kSqnMask) := by
    rw [← hautn, Aka.verifyAutn_generate]
  have hconcealed : autn.take Aka.kAkLen = (Aka.generate hmac k sqn rand.toList).sqnXorAk := by
    rw [← hautn, Aka.take_autn_generate]
  have hchecks : ¬(u.state ≠ .registering ∨ u.hasUsim = false ∨
      (rand.toList ++ autn).length ≠ 2 * Aka.kRandLen) := by
    simp [hue.state, hue.usim, hlength]
  have hverdict : u.challengeVerdict hmac (rand.toList ++ autn) =
      if sqn &&& Aka.kSqnMask ≤ u.sqnMs then .synchFailure
      else .accepted (sqn &&& Aka.kSqnMask) := by
    rw [Nas.NasUe.challengeVerdict, if_neg hchecks, hrand, hrest, hue.key, hverify]
  simp only [Nas.NasUe.onMessage, NasBs.decode_challengeMessage, hautn, Nas.NasUe.onAuthRequest,
    hverdict]
  by_cases hstale : sqn &&& Aka.kSqnMask ≤ u.sqnMs
  · simp only [if_pos hstale, hrand, hue.key]
  · simp only [if_neg hstale, hrand, hrest, hconcealed, hue.key]
    rfl

/-- A UE that has answered takes the TMSI and is registered with its session key. -/
theorem onMessage_accept {u : Nas.NasUe} {t : Nat} (hstate : u.state = .registering)
    (hpending : u.authPending = true) (hbound : t < u32Modulus) :
    u.onMessage hmac (NasBs.acceptMessage t) =
      ({ u with assignedTmsi := t, authenticated := true, authPending := false,
                state := .registered }, []) := by
  have htmsi : getU32 (putU32 t) 0 = t := by
    have hread := getU32_putU32 [] [] t
    rw [List.nil_append, List.append_nil, Nat.mod_eq_of_lt hbound] at hread
    exact hread
  simp only [Nas.NasUe.onMessage, NasBs.decode_acceptMessage, Nas.NasUe.onAttachAccept, hstate,
    hpending, htmsi]
  simp

@[simp] theorem isAuthFailure_failureMessage (u : Nas.NasUe) (cause : UInt8) (auts : Bytes) :
    isAuthFailure (u.failureMessage cause auts) = true := by
  have htype : (NasMessage.decode (u.failureMessage cause auts)).msgType = .authFailure := by
    rw [Nas.NasUe.failureMessage, NasMessage.encode, NasMessage.decode,
      if_neg (by simp [putU16])]
    rfl
  simp [isAuthFailure, htype]

@[simp] theorem isAuthFailure_responseMessage (rand : Rand) :
    isAuthFailure (responseMessage hmac k rand) = false := by
  have hdecode : NasMessage.decode (responseMessage hmac k rand) =
      ⟨.authResponse, Aka.f2 hmac k rand.toList⟩ :=
    NasMessage.decode_encode (by simp) (by simp [Aka.kResLen, snModulus])
  simp [isAuthFailure, hdecode]

/-! ## Stages -/

/-- Before the first delivery the attempt is at stage 0. -/
theorem stage_start {u : Nas.NasUe} {b : NasBs} (hstate : u.state = .deregistered)
    (hkey : u.usimKey = k) (husim : u.hasUsim = true) (hsqn : u.sqnMs.toNat < 2 ^ 48 - 1)
    (hkeys : b.keys imsi = some k) (hpending : b.pendingAuth = ∅)
    (hnext : b.nextTmsi < u32Modulus) : Stage hmac imsi k 0 (start imsi u b) := by
  have hattaching : Attaching imsi k
      { u with imsi := imsi, authenticated := false, authPending := false, state := .registering } :=
    ⟨rfl, rfl, hkey, husim, hsqn⟩
  rw [start, Nas.NasUe.sendAttachRequest, if_neg (not_not.mpr hstate)]
  exact .requested hattaching hkeys hpending hnext

/-- After a refusal the registrar challenges with the successor of the number it was told. -/
theorem fresh_after_resynchronisation {sqn : UInt64} (h : sqn.toNat < 2 ^ 48 - 1) :
    sqn < ((((sqn &&& Aka.kSqnMask) &&& Aka.kSqnMask) + 1) &&& Aka.kSqnMask) &&& Aka.kSqnMask := by
  rw [UInt64.lt_iff_toNat_lt]
  simp only [Aka.toNat_and_kSqnMask, UInt64.toNat_add, UInt64.toNat_one]
  omega

/-- Every delivery is the next stage. -/
theorem Stage.step {n : Nat} {s s' : AttachRun} {e : AttachDelivery}
    (himsi : imsi.length ≤ 255) (h : Stage hmac imsi k n s) (hstep : s.step hmac e = some s') :
    Stage hmac imsi k (n + 1) s' := by
  cases h with
  | @requested u b hue hkeys hpending hnext =>
    cases e with
    | downlink => cases hstep
    | uplink order rand tmsi =>
      simp only [AttachRun.step] at hstep
      split at hstep
      · obtain rfl := Option.some.inj hstep
        rw [handleMessage_attachRequest order rand tmsi himsi hkeys]
        obtain ⟨hchallenging, hsent⟩ := sendChallenge_challenging hmac
          { b with nextTmsi := (b.nextTmsi + 1) % u32Modulus }
          { imsi := imsi, tmsi := b.nextTmsi, k := k } rand (by simp [hpending]) hnext rfl rfl
        rw [hsent]
        exact .challenged hue hchallenging
      · cases hstep
  | @challenged u b t ctx sqn drawn hue hchallenging =>
    cases e with
    | uplink order rand tmsi => cases hstep
    | downlink =>
      simp only [AttachRun.step, onMessage_challenge hue] at hstep
      obtain rfl := Option.some.inj hstep
      split
      · exact .refused hue hchallenging
      · exact .answered (by omega) (by simp) hue.state rfl hchallenging.sessionK.symm hchallenging
  | @refused u b t ctx sqn drawn hue hchallenging =>
    cases e with
    | downlink => cases hstep
    | uplink order rand tmsi =>
      simp only [AttachRun.step] at hstep
      split at hstep
      · rename_i horder
        obtain rfl := Option.some.inj hstep
        rw [handleMessage_authFailure rand tmsi himsi hue.imsi hchallenging horder]
        have hothers : ∀ t', ctx.tmsi ≠ t' → (b.pendingAuth.erase t)[t']? = none := by
          intro t' hne
          rw [TmsiMap.getElem?_erase_eq, hchallenging.sole, ← hchallenging.tmsi, if_neg hne,
            if_neg hne]
        obtain ⟨hchallenging', hsent⟩ := sendChallenge_challenging hmac
          { b with
            pendingAuth := b.pendingAuth.erase t
            sqn := Function.update b.sqn imsi ((u.sqnMs &&& Aka.kSqnMask) &&& Aka.kSqnMask) }
          ctx rand hothers (hchallenging.tmsi ▸ hchallenging.bound) hchallenging.imsi hchallenging.key
        rw [hsent]
        refine .resynchronised hue hchallenging' ?_
        dsimp only
        rw [Function.update_self]
        exact fresh_after_resynchronisation hue.sqn
      · cases hstep
  | @resynchronised u b t ctx sqn drawn hue hchallenging hfresh =>
    cases e with
    | uplink order rand tmsi => cases hstep
    | downlink =>
      simp only [AttachRun.step, onMessage_challenge hue, if_neg (UInt64.not_le.mpr hfresh)]
        at hstep
      obtain rfl := Option.some.inj hstep
      exact .answered (by omega) (by simp) hue.state rfl hchallenging.sessionK.symm hchallenging
  | @answered _ failures u b t ctx sqn drawn hn hfailures hstate hpending hkey hchallenging =>
    cases e with
    | downlink => cases hstep
    | uplink order rand tmsi =>
      simp only [AttachRun.step] at hstep
      split at hstep
      · rename_i horder
        obtain rfl := Option.some.inj hstep
        rw [handleMessage_authResponse rand tmsi hchallenging horder, hchallenging.tmsi]
        refine .accepted (by omega) hfailures hstate hpending hchallenging.bound ?_
        rw [TmsiMap.getElem?_insert_eq, if_pos rfl, hkey]
      · cases hstep
  | @accepted _ failures t u b hn hfailures hstate hpending hbound hkey =>
    cases e with
    | uplink order rand tmsi => cases hstep
    | downlink =>
      simp only [AttachRun.step, onMessage_accept hstate hpending hbound] at hstep
      obtain rfl := Option.some.inj hstep
      exact .attached (by omega) (by simpa using hfailures) ⟨rfl, rfl, hkey⟩
  | attached => cases e <;> cases hstep

theorem Stage.run {n : Nat} {s s' : AttachRun} {es : List AttachDelivery}
    (himsi : imsi.length ≤ 255) (h : Stage hmac imsi k n s)
    (hrun : runFrom (AttachRun.step hmac) s es = some s') :
    Stage hmac imsi k (n + es.length) s' :=
  runFrom_history (fun es s => Stage hmac imsi k (n + es.length) s)
    (fun es t e t' _ hstage hstep => by
      have hnext := hstage.step himsi hstep
      rwa [List.length_append, List.length_singleton, ← Nat.add_assoc])
    h hrun

/-- At most six deliveries, and at most one of them is a failure. -/
theorem Stage.bounds {n : Nat} {s : AttachRun} (h : Stage hmac imsi k n s) :
    n ≤ 6 ∧ s.failures ≤ 1 := by
  cases h with
  | answered hn hfailures => exact ⟨by omega, hfailures⟩
  | accepted hn hfailures => exact ⟨by omega, hfailures⟩
  | attached hn hfailures => exact ⟨hn, hfailures⟩
  | _ => exact ⟨by omega, by simp⟩

/-- The only stage with nothing left to deliver is the attached one. -/
theorem Stage.attached_of_quiescent {n : Nat} {s : AttachRun} (h : Stage hmac imsi k n s)
    (hquiet : s.Quiescent) : s.Attached := by
  cases h with
  | attached _ _ hattached => exact hattached
  | requested => exact absurd hquiet.1 (List.cons_ne_nil _ _)
  | challenged => exact absurd hquiet.2 (List.cons_ne_nil _ _)
  | refused => exact absurd hquiet.1 (List.cons_ne_nil _ _)
  | resynchronised => exact absurd hquiet.2 (List.cons_ne_nil _ _)
  | answered => exact absurd hquiet.1 (List.cons_ne_nil _ _)
  | accepted => exact absurd hquiet.2 (List.cons_ne_nil _ _)

/-- While a message is in flight it can be delivered, with any RAND. -/
theorem step_of_not_quiescent {s : AttachRun} (h : ¬s.Quiescent) (rand : Rand) :
    (∃ order tmsi, (s.step hmac (.uplink order rand tmsi)).isSome) ∨
      (s.step hmac .downlink).isSome := by
  rcases hul : s.ul with _ | ⟨pdu, rest⟩
  · rcases hdl : s.dl with _ | ⟨pdu, rest⟩
    · exact absurd ⟨hul, hdl⟩ h
    · right
      simp only [AttachRun.step, hdl, Option.isSome_some]
  · left
    refine ⟨s.bs.pendingAuth.keys, 0, ?_⟩
    simp only [AttachRun.step, hul]
    rw [if_pos (List.Perm.refl _), Option.isSome_some]

/-- Every run of an attach delivers at most six messages, one of them an AUTH_FAILURE at
most, can go on until nothing is in flight, and then has ended in an authenticated
registration with one session key. The two tokens give back the number modulo `2 ^ 48`. -/
theorem authenticated_attach_completes (hmac : KeyedDigest) (imsi : Bytes) (k : Key256)
    (u : Nas.NasUe) (b : NasBs) (himsi : imsi.length ≤ 255) (hstate : u.state = .deregistered)
    (hkey : u.usimKey = k) (husim : u.hasUsim = true) (hsqn : u.sqnMs.toNat < 2 ^ 48 - 1)
    (hkeys : b.keys imsi = some k) (hpending : b.pendingAuth = ∅)
    (hnext : b.nextTmsi < u32Modulus) :
    (∀ es s, runFrom (step hmac) (start imsi u b) es = some s →
      es.length ≤ 6 ∧ s.failures ≤ 1 ∧ (s.Quiescent → s.Attached) ∧
      (¬s.Quiescent → ∀ rand,
        (∃ order tmsi, (s.step hmac (.uplink order rand tmsi)).isSome) ∨
          (s.step hmac .downlink).isSome)) ∧
    (∀ (sqn : UInt64) (rand : Bytes),
      (Aka.verifyAutn hmac k rand (Aka.autn (Aka.generate hmac k sqn rand))).map UInt64.toNat =
          some (sqn.toNat % 2 ^ 48) ∧
        (Aka.verifyAuts hmac k (Aka.buildAuts hmac k sqn rand) rand).map UInt64.toNat =
          some (sqn.toNat % 2 ^ 48)) := by
  constructor
  · intro es s hrun
    have hstage : Stage hmac imsi k (0 + es.length) s :=
      (stage_start hstate hkey husim hsqn hkeys hpending hnext).run himsi hrun
    obtain ⟨hlength, hfailures⟩ := hstage.bounds
    exact ⟨by omega, hfailures, hstage.attached_of_quiescent, step_of_not_quiescent⟩
  · intro sqn rand
    rw [Aka.verifyAutn_generate, Aka.verifyAuts_buildAuts, Option.map_some,
      Aka.toNat_and_kSqnMask]
    exact ⟨rfl, rfl⟩

/-- A user equipment ahead of the registrar, and the six deliveries of its attach. -/
def aheadUe : Nas.NasUe := { ({} : Nas.NasUe).setUsimKey (Vector.replicate 32 1) with sqnMs := 7 }

def knowingRegistrar : NasBs := { keys := fun _ => some (Vector.replicate 32 1) }

def detour : List AttachDelivery :=
  let rand : Rand := Vector.replicate 16 5
  [.uplink [] rand 0, .downlink, .uplink [knowingRegistrar.nextTmsi] rand 0, .downlink,
    .uplink [knowingRegistrar.nextTmsi] rand 0, .downlink]

theorem authenticated_attach_completes_ahead :
    (runFrom (step fun _ _ => Vector.replicate 32 0) (start [0x31] aheadUe knowingRegistrar)
        detour).isSome ∧
      ∀ es s, runFrom (step fun _ _ => Vector.replicate 32 0)
          (start [0x31] aheadUe knowingRegistrar) es = some s →
        es.length ≤ 6 ∧ s.failures ≤ 1 ∧ (s.Quiescent → s.Attached) := by
  refine ⟨by decide, fun es s hrun => ?_⟩
  obtain ⟨hlength, hfailures, hattached, -⟩ := (authenticated_attach_completes
    (fun _ _ => Vector.replicate 32 0) [0x31] (Vector.replicate 32 1) aheadUe knowingRegistrar
    (by decide) rfl rfl rfl (by decide) rfl rfl (by decide)).1 es s hrun
  exact ⟨hlength, hfailures, hattached⟩

end AttachRun

end AetherStack.Guarantees
