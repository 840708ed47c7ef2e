import AetherStack.Source.Aka
import AetherStack.Source.NasMessages
import Std.Data.ExtTreeMap

/-!
# The NAS of the base station

Source: stack/nas/src/nas_bs.cpp:26-225 and include/nas/nas_bs.h. The tables keyed by TMSI are
finite maps; two of the loops over an `unordered_map` stop at the first entry that matches, in an
order the standard leaves open, so that order (the keys, in the order of the iteration) is an
argument of the functions that contain them. The RAND that `default_rand` (lines 12-17) draws for
a new vector is an argument too. Tables keyed by IMSI are total functions: an absent subscriber
has no key and sequence number zero, as `operator[]` makes it.

Messages go out as (TMSI, PDU) pairs, the arguments of the send callback. The log is left out.
-/
namespace AetherStack.Source

abbrev TmsiMap (β : Type) := Std.ExtTreeMap Nat β

/-- Sixteen octets, the type of the RAND source. -/
abbrev Rand := Vector UInt8 16

structure NasUeContext where
  imsi : Bytes := []
  tmsi : Nat := 0
  registered : Bool := false
  k : Key256 := Vector.replicate 32 0
  xres : Bytes := []
  sessionK : Key256 := Vector.replicate 32 0
  rand : Bytes := List.replicate 16 0
  deriving DecidableEq

structure NasBs where
  ueContexts : TmsiMap NasUeContext := ∅
  sessionKeys : TmsiMap Key256 := ∅
  pendingAuth : TmsiMap NasUeContext := ∅
  keys : Bytes → Option Key256
  sqn : Bytes → UInt64 := fun _ => 0
  nextTmsi : Nat := 0x00010001

/-- The first entry of a table that satisfies `p`, in the order of iteration. -/
def TmsiMap.firstMatch {β : Type} (m : TmsiMap β) (order : List Nat) (p : β → Bool) :
    Option (Nat × β) :=
  order.findSome? fun t => (m[t]?).bind fun v => if p v then some (t, v) else none

/-- A match found is an entry that passes the test. -/
theorem TmsiMap.firstMatch_some {β : Type} {m : TmsiMap β} {order : List Nat} {p : β → Bool}
    {t : Nat} {v : β} (h : m.firstMatch order p = some (t, v)) : m[t]? = some v ∧ p v = true := by
  obtain ⟨t', -, hbind⟩ := List.exists_of_findSome?_eq_some h
  obtain ⟨v', hget, hif⟩ := Option.bind_eq_some_iff.mp hbind
  split at hif
  · rename_i hp
    simp only [Option.some.injEq, Prod.mk.injEq] at hif
    obtain ⟨rfl, rfl⟩ := hif
    exact ⟨hget, hp⟩
  · cases hif

/-- A search that finds nothing has seen every entry. -/
theorem TmsiMap.firstMatch_none {β : Type} {m : TmsiMap β} {order : List Nat} {p : β → Bool}
    (horder : order.Perm m.keys) (h : m.firstMatch order p = none) {t : Nat} {v : β}
    (hget : m[t]? = some v) : p v = false := by
  have hmem : t ∈ order := by
    rw [horder.mem_iff, Std.ExtTreeMap.mem_keys]
    exact Std.ExtTreeMap.mem_iff_isSome_getElem?.mpr (by rw [hget]; rfl)
  have hnone := List.findSome?_eq_none_iff.mp h t hmem
  rw [hget, Option.bind_some] at hnone
  by_contra hp
  rw [if_pos (by simpa using hp)] at hnone
  cases hnone

/-- A search in a table of one entry, in the only order there is. -/
theorem TmsiMap.firstMatch_sole {β : Type} {m : TmsiMap β} {order : List Nat} {p : β → Bool}
    {t : Nat} {v : β} (horder : order.Perm m.keys)
    (hsole : ∀ t', m[t']? = if t = t' then some v else none) (hp : p v = true) :
    m.firstMatch order p = some (t, v) := by
  have hget : m[t]? = some v := by rw [hsole, if_pos rfl]
  cases hfound : m.firstMatch order p with
  | none =>
    have hmiss := firstMatch_none horder hfound hget
    rw [hp] at hmiss
    cases hmiss
  | some found =>
    have hentry := (firstMatch_some hfound).1
    rw [hsole] at hentry
    split at hentry
    · rename_i ht
      obtain rfl := Option.some.inj hentry
      rw [ht]
    · cases hentry

/-- In a map of one entry the order of the walk does not matter. -/
theorem TmsiMap.firstMatch_sole_eq {β : Type} {m : TmsiMap β} {order : List Nat} (p : β → Bool)
    {t : Nat} {v : β} (horder : order.Perm m.keys)
    (hsole : ∀ t', m[t']? = if t = t' then some v else none) :
    m.firstMatch order p = if p v = true then some (t, v) else none := by
  split
  · rename_i hp
    exact firstMatch_sole horder hsole hp
  · rename_i hp
    cases hfound : m.firstMatch order p with
    | none => rfl
    | some found =>
      obtain ⟨hentry, hmatch⟩ := firstMatch_some hfound
      rw [hsole] at hentry
      split at hentry
      · obtain rfl := Option.some.inj hentry
        exact absurd hmatch hp
      · cases hentry

/-- Every entry of `m` stands in `m'`. -/
def TmsiMap.Within {β : Type} (m m' : TmsiMap β) : Prop :=
  ∀ (t : Nat) (v : β), m[t]? = some v → m'[t]? = some v

theorem TmsiMap.within_refl {β : Type} (m : TmsiMap β) : TmsiMap.Within m m := fun _ _ h => h

theorem TmsiMap.within_empty {β : Type} (m : TmsiMap β) : TmsiMap.Within ∅ m := by
  intro t v h
  simp at h

theorem TmsiMap.within_erase {β : Type} (m : TmsiMap β) (t : Nat) :
    TmsiMap.Within (m.erase t) m := by
  intro t' v h
  rw [Std.ExtTreeMap.getElem?_erase] at h
  split at h
  · cases h
  · exact h

/-- Lookup after an insertion, with the keys compared as numbers. -/
theorem TmsiMap.getElem?_insert_eq {β : Type} (m : TmsiMap β) (t t' : Nat) (v : β) :
    (m.insert t v)[t']? = if t = t' then some v else m[t']? := by
  simp [Std.ExtTreeMap.getElem?_insert]

theorem TmsiMap.getElem?_erase_eq {β : Type} (m : TmsiMap β) (t t' : Nat) :
    (m.erase t)[t']? = if t = t' then none else m[t']? := by
  simp [Std.ExtTreeMap.getElem?_erase]

namespace NasBs

def setSubscriberSqn (b : NasBs) (imsi : Bytes) (sqn : UInt64) : NasBs :=
  { b with sqn := Function.update b.sqn imsi sqn }

/-- `adopt_ue`: the key argument is ignored, an existing key is kept. -/
def adoptUe (b : NasBs) (tmsi : Nat) (imsi : Bytes) : NasBs :=
  { b with
    ueContexts := b.ueContexts.insert tmsi { imsi := imsi, tmsi := tmsi, registered := true }
    sessionKeys :=
      if b.sessionKeys.contains tmsi then b.sessionKeys
      else b.sessionKeys.insert tmsi (Vector.replicate 32 0) }

def releaseUe (b : NasBs) (tmsi : Nat) : NasBs :=
  { b with ueContexts := b.ueContexts.erase tmsi, sessionKeys := b.sessionKeys.erase tmsi }

def findUe (b : NasBs) (tmsi : Nat) : Option NasUeContext := b.ueContexts[tmsi]?

def findUeByImsi (b : NasBs) (order : List Nat) (imsi : Bytes) : Option NasUeContext :=
  (b.ueContexts.firstMatch order fun ctx => ctx.imsi = imsi ∧ ctx.registered).map Prod.snd

def acceptMessage (tmsi : Nat) : Bytes :=
  NasMessage.encode { msgType := .attachAccept, value := putU32 tmsi }

def rejectMessage (tmsi : Nat) : Bytes :=
  NasMessage.encode { msgType := .attachReject, value := putU32 tmsi }

/-- AUTH_REQUEST [RAND || AUTN]. -/
def challengeMessage (v : Aka.AuthVector) : Bytes :=
  NasMessage.encode { msgType := .authRequest, value := v.rand ++ Aka.autn v }

@[simp] theorem decode_acceptMessage (tmsi : Nat) :
    NasMessage.decode (acceptMessage tmsi) = ⟨.attachAccept, putU32 tmsi⟩ :=
  NasMessage.decode_encode (by simp) (by simp [snModulus])

@[simp] theorem decode_rejectMessage (tmsi : Nat) :
    NasMessage.decode (rejectMessage tmsi) = ⟨.attachReject, putU32 tmsi⟩ :=
  NasMessage.decode_encode (by simp) (by simp [snModulus])

section Handlers

variable (hmac : KeyedDigest)

@[simp] theorem decode_challengeMessage (k : Key256) (sqn : UInt64) (rand : Rand) :
    NasMessage.decode (challengeMessage (Aka.generate hmac k sqn rand.toList)) =
      ⟨.authRequest, rand.toList ++ Aka.autn (Aka.generate hmac k sqn rand.toList)⟩ := by
  refine NasMessage.decode_encode (by simp) ?_
  have hrand : (Aka.generate hmac k sqn rand.toList).rand = rand.toList := rfl
  simp [hrand, Aka.kAutnLen, snModulus]

/-- The vector `send_challenge` builds for `ctx`, from the advanced sequence number. -/
def challengeVector (b : NasBs) (rand : Rand) (ctx : NasUeContext) : Aka.AuthVector :=
  Aka.generate hmac ctx.k ((b.sqn ctx.imsi + 1) &&& Aka.kSqnMask) rand.toList

/-- The copy of `ctx` that waits for the answer. -/
def challenged (b : NasBs) (rand : Rand) (ctx : NasUeContext) : NasUeContext :=
  let v := b.challengeVector hmac rand ctx
  { ctx with rand := v.rand, xres := v.xres, sessionK := v.kasme }

def sendChallenge (b : NasBs) (rand : Rand) (ctx : NasUeContext) : NasBs × List (Nat × Bytes) :=
  ({ b with
      sqn := Function.update b.sqn ctx.imsi (b.sqn ctx.imsi + 1)
      pendingAuth := b.pendingAuth.insert ctx.tmsi (b.challenged hmac rand ctx) },
    [(ctx.tmsi, challengeMessage (b.challengeVector hmac rand ctx))])

/-- The challenge an AUTH_RESPONSE answers, found by its content. -/
def answeredChallenge (b : NasBs) (order : List Nat) (res : Bytes) : Option (Nat × NasUeContext) :=
  b.pendingAuth.firstMatch order fun ctx => ctx.xres = res

def onAuthResponse (b : NasBs) (order : List Nat) (res : Bytes) : NasBs × List (Nat × Bytes) :=
  if res.length ≠ Aka.kResLen then (b, [])
  else
    match b.answeredChallenge order res with
    | none =>
      -- with a single outstanding challenge the wrong answer is attributed to it
      match b.pendingAuth.toList with
      | [(_, doomed)] => ({ b with pendingAuth := ∅ }, [(doomed.tmsi, rejectMessage doomed.tmsi)])
      | _ => (b, [])
    | some (authTmsi, ctx) =>
      ({ b with
          pendingAuth := b.pendingAuth.erase authTmsi
          ueContexts := b.ueContexts.insert ctx.tmsi { ctx with registered := true }
          sessionKeys := b.sessionKeys.insert authTmsi ctx.sessionK },
        [(ctx.tmsi, acceptMessage ctx.tmsi)])

def failedChallenge (b : NasBs) (order : List Nat) (imsi : Bytes) : Option (Nat × NasUeContext) :=
  b.pendingAuth.firstMatch order fun ctx => ctx.imsi = imsi

/-- The IMSI of [cause][imsi_len][imsi][AUTS]. -/
def failureImsi (value : Bytes) : Bytes := (value.drop 2).take (value.getD 1 0).toNat

/-- [cause][imsi_len][imsi][AUTS]; a valid AUTS resynchronises and challenges again. -/
def onAuthFailure (b : NasBs) (order : List Nat) (rand : Rand) (value : Bytes) :
    NasBs × List (Nat × Bytes) :=
  let imsiLen := (value.getD 1 0).toNat
  if value.length < 2 ∨ value.length < 2 + imsiLen then (b, [])
  else
    let imsi := failureImsi value
    match b.failedChallenge order imsi with
    | none => (b, [])
    | some (t, ctx) =>
      let dropped := { b with pendingAuth := b.pendingAuth.erase t }
      if value.getD 0 0 = Aka.kCauseSynchFailure ∧ value.length ≥ 2 + imsiLen + Aka.kAutsLen then
        let auts := (value.drop (2 + imsiLen)).take Aka.kAutsLen
        match Aka.verifyAuts hmac ctx.k auts ctx.rand with
        | some sqnMs =>
          { dropped with sqn := Function.update b.sqn imsi (sqnMs &&& Aka.kSqnMask) }.sendChallenge
            hmac rand ctx
        | none => (dropped, [])
      else (dropped, [])

def onAttachRequest (b : NasBs) (rand : Rand) (imsi : Bytes) : NasBs × List (Nat × Bytes) :=
  let newTmsi := b.nextTmsi
  let b := { b with nextTmsi := (b.nextTmsi + 1) % u32Modulus }
  let ctx : NasUeContext := { imsi := imsi, tmsi := newTmsi }
  match b.keys imsi with
  | some k => b.sendChallenge hmac rand { ctx with k := k }
  | none =>
    ({ b with ueContexts := b.ueContexts.insert newTmsi { ctx with registered := true } },
      [(newTmsi, acceptMessage newTmsi)])

def onDetach (b : NasBs) (tmsi : Nat) (value : Bytes) : NasBs :=
  { b with ueContexts := b.ueContexts.erase (if value.length ≥ 4 then getU32 value 0 else tmsi) }

def handleMessage (b : NasBs) (order : List Nat) (rand : Rand) (tmsi : Nat) (pdu : Bytes) :
    NasBs × List (Nat × Bytes) :=
  let msg := NasMessage.decode pdu
  match msg.msgType with
  | .authResponse => b.onAuthResponse order msg.value
  | .authFailure => b.onAuthFailure hmac order rand msg.value
  | .attachRequest => b.onAttachRequest hmac rand msg.value
  | .detach => (b.onDetach tmsi msg.value, [])
  | _ => (b, [])

/-- Everything `handle_message` can do, with the guards of each branch. -/
inductive Handled (b : NasBs) (order : List Nat) (rand : Rand) (pdu : Bytes) :
    NasBs → List (Nat × Bytes) → Prop
  | ignored : Handled b order rand pdu b []
  | rejected {t : Nat} {doomed : NasUeContext} :
    (NasMessage.decode pdu).msgType = .authResponse →
    (NasMessage.decode pdu).value.length = Aka.kResLen →
    b.answeredChallenge order (NasMessage.decode pdu).value = none →
    b.pendingAuth.toList = [(t, doomed)] →
    Handled b order rand pdu { b with pendingAuth := ∅ } [(doomed.tmsi, rejectMessage doomed.tmsi)]
  | accepted {t : Nat} {ctx : NasUeContext} :
    (NasMessage.decode pdu).msgType = .authResponse →
    (NasMessage.decode pdu).value.length = Aka.kResLen →
    b.answeredChallenge order (NasMessage.decode pdu).value = some (t, ctx) →
    Handled b order rand pdu
      { b with
        pendingAuth := b.pendingAuth.erase t
        ueContexts := b.ueContexts.insert ctx.tmsi { ctx with registered := true }
        sessionKeys := b.sessionKeys.insert t ctx.sessionK }
      [(ctx.tmsi, acceptMessage ctx.tmsi)]
  | dropped (t : Nat) :
    (NasMessage.decode pdu).msgType = .authFailure →
    Handled b order rand pdu { b with pendingAuth := b.pendingAuth.erase t } []
  | resynchronised {t : Nat} {ctx : NasUeContext} (sqn : Bytes → UInt64) :
    (NasMessage.decode pdu).msgType = .authFailure →
    b.failedChallenge order (failureImsi (NasMessage.decode pdu).value) = some (t, ctx) →
    Handled b order rand pdu
      ({ b with pendingAuth := b.pendingAuth.erase t, sqn := sqn }.sendChallenge hmac rand ctx).1
      ({ b with pendingAuth := b.pendingAuth.erase t, sqn := sqn }.sendChallenge hmac rand ctx).2
  | challenged {k : Key256} :
    (NasMessage.decode pdu).msgType = .attachRequest →
    b.keys (NasMessage.decode pdu).value = some k →
    Handled b order rand pdu
      ({ b with nextTmsi := (b.nextTmsi + 1) % u32Modulus }.sendChallenge hmac rand
        { imsi := (NasMessage.decode pdu).value, tmsi := b.nextTmsi, k := k }).1
      ({ b with nextTmsi := (b.nextTmsi + 1) % u32Modulus }.sendChallenge hmac rand
        { imsi := (NasMessage.decode pdu).value, tmsi := b.nextTmsi, k := k }).2
  | openAccess :
    (NasMessage.decode pdu).msgType = .attachRequest →
    b.keys (NasMessage.decode pdu).value = none →
    Handled b order rand pdu
      { b with
        nextTmsi := (b.nextTmsi + 1) % u32Modulus
        ueContexts := b.ueContexts.insert b.nextTmsi
          { imsi := (NasMessage.decode pdu).value, tmsi := b.nextTmsi, registered := true } }
      [(b.nextTmsi, acceptMessage b.nextTmsi)]
  | detached (t : Nat) :
    (NasMessage.decode pdu).msgType = .detach →
    Handled b order rand pdu { b with ueContexts := b.ueContexts.erase t } []

/-- An answer is matched to a pending challenge that expects it. -/
theorem mem_of_answeredChallenge {b : NasBs} {order : List Nat} {res : Bytes} {t : Nat}
    {ctx : NasUeContext} (h : b.answeredChallenge order res = some (t, ctx)) :
    b.pendingAuth[t]? = some ctx ∧ ctx.xres = res := by
  have hfound := TmsiMap.firstMatch_some h
  exact ⟨hfound.1, by simpa using hfound.2⟩

/-- A failure is matched to a pending challenge. -/
theorem mem_of_failedChallenge {b : NasBs} {order : List Nat} {imsi : Bytes} {t : Nat}
    {ctx : NasUeContext} (h : b.failedChallenge order imsi = some (t, ctx)) :
    b.pendingAuth[t]? = some ctx :=
  (TmsiMap.firstMatch_some h).1

/-- What the registrar does with a PDU is what `Handled` lists. -/
theorem handleMessage_handled (b : NasBs) (order : List Nat) (rand : Rand) (tmsi : Nat)
    (pdu : Bytes) :
    Handled hmac b order rand pdu (b.handleMessage hmac order rand tmsi pdu).1
      (b.handleMessage hmac order rand tmsi pdu).2 := by
  dsimp only [handleMessage]
  split
  · rename_i htype
    unfold onAuthResponse
    split
    · exact .ignored
    · rename_i hlen
      split
      · rename_i hnone
        split
        · rename_i hsingle
          exact .rejected htype (not_not.mp hlen) hnone hsingle
        · exact .ignored
      · rename_i hfound
        exact .accepted htype (not_not.mp hlen) hfound
  · rename_i htype
    dsimp only [onAuthFailure]
    split
    · exact .ignored
    · split
      · exact .ignored
      · rename_i hfound
        split
        · split
          · exact .resynchronised _ htype hfound
          · exact .dropped _ htype
        · exact .dropped _ htype
  · rename_i htype
    dsimp only [onAttachRequest]
    split
    · rename_i hkey
      exact .challenged htype hkey
    · rename_i hkey
      exact .openAccess htype hkey
  · rename_i htype
    exact .detached _ htype
  · exact .ignored

end Handlers

end NasBs

end AetherStack.Source
