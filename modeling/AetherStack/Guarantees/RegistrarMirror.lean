import AetherStack.Lib.Run
import AetherStack.Source.BsUplink

/-!
# The AMF against the registrar inside the base station

The AMF took over what `NasBs` owned, and the plan of the separation asks for the same
authentication, registration and key delivery. One UE sends NAS PDUs: the base station
tunnels each to the AMF over the in-memory link, which answers inside `send()`, and the
registrar is handed the same PDU. Both start with the same subscribers and counters and
draw the same RANDs.

The AMF looks for an ATTACH_REQUEST in the INITIAL_UE_MSG only, and takes the TMSI of the
envelope for that of the UE; the registrar takes an ATTACH_REQUEST at any time, and the
TMSI that a DETACH names. `Twin` relates the two over what they agree on.
-/
namespace AetherStack.Guarantees
open Source Source.Core Lib

namespace RegistrarMirror

/-- What the base station puts a PDU into, by the TMSI it knows for the C-RNTI. -/
def envelope (known : Option Nat) (rnti : Nat) (pdu : Bytes) : CnMessage :=
  match known with
  | none => ⟨.initialUeMsg, putU16 rnti ++ pdu⟩
  | some t => ⟨.uplinkNas, putU32 t ++ putU16 rnti ++ putU16 pdu.length ++ pdu⟩

/-- The NAS PDU of a DOWNLINK_NAS. -/
def downlinkPdu (m : CnMessage) : Option Bytes :=
  if m.msgType = .downlinkNas then some (m.value.drop 8) else none

/-- The TMSI is behind a counter that has not come round to zero again, or has just done so. -/
def Passed (nextTmsi t : Nat) : Prop := t < nextTmsi ∨ nextTmsi = 0

/-- A DOWNLINK_NAS or SESSION_KEY for the UE. -/
structure Names (rnti t : Nat) (m : CnMessage) : Prop where
  tmsi : getU32 m.value 0 = t
  rnti : getU16 m.value 4 = rnti
  type : m.msgType = .downlinkNas ∧ 10 ≤ m.value.length ∨
    m.msgType = .sessionKey ∧ 38 ≤ m.value.length

/-- What a context says about the registration. -/
def amfEntry (ctx : AmfUeContext) : Bytes × Nat × Bool := (ctx.imsi, ctx.tmsi, ctx.registered)

def nasEntry (ctx : NasUeContext) : Bytes × Nat × Bool := (ctx.imsi, ctx.tmsi, ctx.registered)

/-- The one challenge outstanding, in the four tables of the AMF and the one of the registrar. -/
structure SameChallenge (a : Amf) (b : NasBs) (t : Nat) (ctx : NasUeContext) : Prop where
  sole : ∀ t' : Nat, b.pendingAuth[t']? = if t = t' then some ctx else none
  auth : ∃ ctxA, (∀ t' : Nat, a.pendingAuth[t']? = if t = t' then some ctxA else none) ∧
    ctxA.imsi = ctx.imsi ∧ ctxA.tmsi = t
  tmsi : ctx.tmsi = t
  key : a.keys ctx.imsi = some ctx.k
  response : a.pendingRnti[t]? = some ctx.xres
  rand : a.pendingRand[t]? = some ctx.rand
  sessionK : a.sessionKeys[t]? = some ctx.sessionK
  unregistered : b.ueContexts[t]? = none

structure NonePending (a : Amf) (b : NasBs) : Prop where
  amf : ∀ t : Nat, a.pendingAuth[t]? = none
  nas : ∀ t : Nat, b.pendingAuth[t]? = none

/-- The two registrars apart from the challenges, when the base station knows the UE under
`known`. -/
structure Tables (known : Option Nat) (a : Amf) (b : NasBs) : Prop where
  keys : a.keys = b.keys
  sqn : a.sqn = b.sqn
  next : a.nextTmsi = b.nextTmsi
  bound : b.nextTmsi < u32Modulus
  inUse : ∀ t, known = some t → t ≠ 0 ∧ t < u32Modulus ∧ Passed b.nextTmsi t
  contexts : ∀ t : Nat, (a.ueContexts[t]?).map amfEntry = (b.ueContexts[t]?).map nasEntry
  sole : ∀ t, t ∈ b.ueContexts → known = some t
  amfKeys : ∀ t, t ∈ a.sessionKeys → Passed b.nextTmsi t
  nasKeys : ∀ t, t ∈ b.sessionKeys → Passed b.nextTmsi t
  sessionKeys : ∀ t : Nat, t ∈ b.ueContexts → a.sessionKeys[t]? = b.sessionKeys[t]?

structure Twin (known : Option Nat) (a : Amf) (b : NasBs) : Prop extends Tables known a b where
  pending : NonePending a b ∨ ∃ t ctx, known = some t ∧ SameChallenge a b t ctx

/-- The TMSI that a DETACH names, zero when its value is too short. -/
def detachedTmsi (value : Bytes) : Nat := if value.length ≥ 4 then getU32 value 0 else 0

/-- The condition on an uplink PDU. -/
structure Mirrors (known : Option Nat) (b : NasBs) (pdu : Bytes) : Prop where
  attach : (NasMessage.decode pdu).msgType = .attachRequest →
    known = none ∧ pdu ≠ [] ∧ b.nextTmsi ≠ 0
  detach : (NasMessage.decode pdu).msgType = .detach → ∀ t, known = some t →
    b.pendingAuth.keys = [] ∧
      (detachedTmsi (NasMessage.decode pdu).value = t ∨ t ∉ b.ueContexts)

/-- What an uplink PDU has led to on both sides. -/
structure Answered (known known' : Option Nat) (rnti : Nat) (amf : Amf × List CnMessage)
    (nas : NasBs × List (Nat × Bytes)) : Prop where
  twin : Twin known' amf.1 nas.1
  downlinks : amf.2.filterMap downlinkPdu = nas.2.map Prod.snd
  named : ∀ m ∈ amf.2, ∃ t, known' = some t ∧ Names rnti t m
  learnt : known' = known ∨ known = none ∧ amf.2 ≠ []

/-! ## Envelopes -/

section
variable {hmac : KeyedDigest} {known : Option Nat} {a : Amf} {b : NasBs} {rnti t : Nat} {pdu : Bytes}

theorem two_le_length_of_msgType (h : (NasMessage.decode pdu).msgType ≠ .attachRequest) :
    2 ≤ pdu.length := by
  by_contra hshort
  rw [NasMessage.decode, if_pos (by omega)] at h
  exact h rfl

/-- An INITIAL_UE_MSG reaches the registrar with its C-RNTI. -/
theorem handle_initial (hmac : KeyedDigest) (a : Amf) (rnti : Nat) (rand : Rand) (hpdu : pdu ≠ []) :
    a.handle hmac rand (envelope none rnti pdu) =
      a.onInitialUeMsg hmac rand (putU16 rnti ++ pdu) ∧
      ¬(putU16 rnti ++ pdu).length < 3 ∧ (putU16 rnti ++ pdu).drop 2 = pdu := by
  refine ⟨rfl, ?_, rfl⟩
  have hpos := List.length_pos_iff.mpr hpdu
  rw [List.length_append, length_putU16]
  omega

/-- The AMF takes nothing but an ATTACH_REQUEST from a UE without TMSI. -/
theorem handle_initial_ignored (rand : Rand)
    (h : (NasMessage.decode pdu).msgType ≠ .attachRequest) :
    a.handle hmac rand (envelope none rnti pdu) = (a, []) := by
  have hpdu : pdu ≠ [] := by
    rintro rfl
    exact h rfl
  obtain ⟨hhandle, hlen, hdrop⟩ := handle_initial hmac a rnti rand hpdu
  rw [hhandle, Amf.onInitialUeMsg, if_neg hlen]
  exact if_pos h

/-- With a TMSI the message goes to the handler of its type. -/
theorem handle_uplink (rand : Rand) (ht : t < u32Modulus) (hrnti : rnti < snModulus)
    (hlen : 2 ≤ pdu.length) :
    a.handle hmac rand (envelope (some t) rnti pdu) =
      match (NasMessage.decode pdu).msgType with
      | .authFailure => a.onAuthFailure hmac rand t rnti (NasMessage.decode pdu).value
      | .authResponse =>
        if (NasMessage.decode pdu).value.length = Aka.kResLen then
          a.onAuthResponse t rnti (NasMessage.decode pdu).value
        else (a, [])
      | .detach => (a.releaseUe t, [])
      | _ => (a, []) := by
  have hvalue : putU32 t ++ putU16 rnti ++ putU16 pdu.length ++ pdu =
      putU32 t ++ (putU16 rnti ++ (putU16 pdu.length ++ pdu)) := by simp
  have hlong : ¬(putU32 t ++ (putU16 rnti ++ (putU16 pdu.length ++ pdu))).length < 10 := by
    simp only [List.length_append, length_putU32, length_putU16]
    omega
  have hdrop : (putU32 t ++ (putU16 rnti ++ (putU16 pdu.length ++ pdu))).drop 8 = pdu := rfl
  have hhandle : a.handle hmac rand (envelope (some t) rnti pdu) =
      a.onUplinkNas hmac rand (putU32 t ++ putU16 rnti ++ putU16 pdu.length ++ pdu) := rfl
  rw [hhandle, hvalue, Amf.onUplinkNas, if_neg hlong]
  cases htype : (NasMessage.decode pdu).msgType <;>
    simp only [getU32_head _ ht, getU16_fifth _ hrnti, hdrop, htype]

/-- The answers of the AMF name the UE and carry their PDU behind eight octets. -/
theorem names_downlinkNas (ht : t < u32Modulus) (hrnti : rnti < snModulus) (hlen : 2 ≤ pdu.length) :
    Names rnti t (Amf.downlinkNas t rnti pdu) := by
  have hvalue : (Amf.downlinkNas t rnti pdu).value =
      putU32 t ++ (putU16 rnti ++ (putU16 pdu.length ++ pdu)) := by simp [Amf.downlinkNas]
  refine ⟨?_, ?_, .inl ⟨rfl, ?_⟩⟩
  · rw [hvalue, getU32_head _ ht]
  · rw [hvalue, getU16_fifth _ hrnti]
  · rw [hvalue]
    simp only [List.length_append, length_putU32, length_putU16]
    omega

@[simp] theorem downlinkPdu_downlinkNas : downlinkPdu (Amf.downlinkNas t rnti pdu) = some pdu := rfl

theorem length_encode (m : NasMessage) : 2 ≤ m.encode.length := by
  simp [NasMessage.encode, putU16]

end

/-! ## Challenges -/

section
variable {hmac : KeyedDigest} {known : Option Nat} {a : Amf} {b : NasBs} {rnti t : Nat} {pdu : Bytes}

theorem NonePending.empty (h : NonePending a b) : b.pendingAuth = ∅ := by
  ext t v
  rw [h.nas]
  simp

/-- Without a challenge the registrar has nothing to answer to a response or a failure. -/
theorem NonePending.ignored (hmac : KeyedDigest) (h : NonePending a b) (order : List Nat) (rand : Rand) :
    (∀ res, b.onAuthResponse order res = (b, [])) ∧
      ∀ value, b.onAuthFailure hmac order rand value = (b, []) := by
  have hnone : ∀ p : NasUeContext → Bool, b.pendingAuth.firstMatch order p = none := by
    intro p
    rw [TmsiMap.firstMatch, List.findSome?_eq_none_iff]
    intro t ht
    rw [h.nas, Option.bind_none]
  constructor
  · intro res
    have hlist : b.pendingAuth.toList = [] := by
      rw [h.empty]
      rfl
    rw [NasBs.onAuthResponse]
    split
    · rfl
    · simp only [NasBs.answeredChallenge, hnone, hlist]
  · intro value
    rw [NasBs.onAuthFailure]
    dsimp only
    split
    · rfl
    · simp only [NasBs.failedChallenge, hnone]

/-- One challenge is pending, and it is the same on both sides. -/
theorem SameChallenge.toList {ctx : NasUeContext} (h : SameChallenge a b t ctx) :
    b.pendingAuth.toList = [(t, ctx)] := by
  have hsingle : b.pendingAuth = (∅ : TmsiMap NasUeContext).insert t ctx := by
    ext t' v
    rw [h.sole, TmsiMap.getElem?_insert_eq]
    simp
  rw [hsingle]
  rfl

/-- Both challenge for the same vector, and it is then the one outstanding. -/
theorem issueChallenge_sameChallenge (hmac : KeyedDigest) (rand : Rand) {k : Key256} {ctxA : AmfUeContext}
    {ctx : NasUeContext} (hsqn : a.sqn = b.sqn) (himsi : ctxA.imsi = ctx.imsi)
    (htmsi : ctxA.tmsi = t) (htmsi' : ctx.tmsi = t) (hk : ctx.k = k) (hkey : a.keys ctx.imsi = some k)
    (hothers : ∀ t' : Nat, t ≠ t' → a.pendingAuth[t']? = none ∧ b.pendingAuth[t']? = none)
    (hunregistered : b.ueContexts[t]? = none) :
    SameChallenge (a.issueChallenge hmac rand k ctxA).1 (b.sendChallenge hmac rand ctx).1 t
        (b.challenged hmac rand ctx) ∧
      (a.issueChallenge hmac rand k ctxA).2 = [Amf.downlinkNas t ctxA.servingRnti
        (NasBs.challengeMessage (b.challengeVector hmac rand ctx))] ∧
      (b.sendChallenge hmac rand ctx).2 =
        [(t, NasBs.challengeMessage (b.challengeVector hmac rand ctx))] := by
  have hvector : a.challengeVector hmac rand k ctxA.imsi = b.challengeVector hmac rand ctx := by
    rw [Amf.challengeVector, NasBs.challengeVector, hsqn, himsi, hk]
  subst htmsi
  refine ⟨?_, ?_, ?_⟩
  · constructor
    · intro t'
      rw [NasBs.sendChallenge, TmsiMap.getElem?_insert_eq, htmsi']
      split
      · rfl
      · rename_i hne
        exact (hothers t' hne).2
    · refine ⟨ctxA, fun t' => ?_, himsi, rfl⟩
      rw [Amf.issueChallenge, TmsiMap.getElem?_insert_eq]
      split
      · rfl
      · rename_i hne
        exact (hothers t' hne).1
    · exact htmsi'
    · exact hkey.trans (congrArg some hk.symm)
    · simp only [Amf.issueChallenge, hvector, TmsiMap.getElem?_insert_eq]
      rfl
    · simp only [Amf.issueChallenge, hvector, TmsiMap.getElem?_insert_eq]
      rfl
    · simp only [Amf.issueChallenge, hvector, TmsiMap.getElem?_insert_eq]
      rfl
    · exact hunregistered
  · simp only [Amf.issueChallenge, hvector]
  · simp only [NasBs.sendChallenge, htmsi']

end

/-! ## One uplink PDU -/

section
variable {hmac : KeyedDigest} {known : Option Nat} {a : Amf} {b : NasBs} {rnti t : Nat} {pdu : Bytes}

theorem answered_none (h : Twin known a b) : Answered known known rnti (a, []) (b, []) :=
  ⟨h, rfl, by simp, .inl rfl⟩

/-- The counter moves past the TMSI it hands out. -/
theorem Passed.advance {next : Nat} (h : Passed next t) (hnext : next ≠ 0)
    (hbound : next < u32Modulus) : Passed ((next + 1) % u32Modulus) t := by
  unfold Passed at h ⊢
  unfold u32Modulus at hbound ⊢
  omega

theorem passed_self {next : Nat} (hbound : next < u32Modulus) :
    Passed ((next + 1) % u32Modulus) next := by
  unfold Passed
  unfold u32Modulus at hbound ⊢
  omega

/-- Before a TMSI is known nobody is registered. -/
theorem Twin.unregistered (h : Twin none a b) (t : Nat) : b.ueContexts[t]? = none := by
  rw [Std.ExtTreeMap.getElem?_eq_none]
  intro hmem
  cases h.sole t hmem

theorem Twin.nonePending (h : Twin none a b) : NonePending a b := by
  rcases h.pending with hnone | ⟨t, ctx, hknown, -⟩
  · exact hnone
  · cases hknown

/-- A new TMSI is behind no key. -/
theorem Twin.fresh (h : Twin none a b) (hnext : b.nextTmsi ≠ 0) :
    b.nextTmsi ∉ a.sessionKeys ∧ b.nextTmsi ∉ b.sessionKeys := by
  have hself : ¬ Passed b.nextTmsi b.nextTmsi := by
    rintro (hlt | hzero)
    · exact absurd hlt (Nat.lt_irrefl _)
    · exact hnext hzero
  exact ⟨fun hmem => hself (h.amfKeys _ hmem), fun hmem => hself (h.nasKeys _ hmem)⟩

theorem onInitialUeMsg_attach (rand : Rand) (hrnti : rnti < snModulus) (hpdu : pdu ≠ [])
    (hattach : (NasMessage.decode pdu).msgType = .attachRequest) :
    a.handle hmac rand (envelope none rnti pdu) =
      match a.keys (NasMessage.decode pdu).value with
      | some k =>
        ({ a with nextTmsi := (a.nextTmsi + 1) % u32Modulus } : Amf).issueChallenge hmac rand k
          { imsi := (NasMessage.decode pdu).value, tmsi := a.nextTmsi, servingRnti := rnti }
      | none =>
        ({ a with
            nextTmsi := (a.nextTmsi + 1) % u32Modulus
            ueContexts := a.ueContexts.insert a.nextTmsi
              { imsi := (NasMessage.decode pdu).value, tmsi := a.nextTmsi, registered := true,
                servingRnti := rnti } },
          [Amf.downlinkNas a.nextTmsi rnti (NasBs.acceptMessage a.nextTmsi)]) := by
  obtain ⟨hhandle, hlen, hdrop⟩ := handle_initial hmac a rnti rand hpdu
  rw [hhandle, Amf.onInitialUeMsg, if_neg hlen]
  simp only [hdrop, getU16_head _ hrnti, hattach]
  rfl

/-- Both hand out the TMSI of the counter. -/
theorem Twin.allocate (h : Twin none a b) (hnext : b.nextTmsi ≠ 0) :
    Tables (some b.nextTmsi) { a with nextTmsi := (b.nextTmsi + 1) % u32Modulus }
      { b with nextTmsi := (b.nextTmsi + 1) % u32Modulus } where
  keys := h.keys
  sqn := h.sqn
  next := rfl
  bound := Nat.mod_lt _ (by decide)
  inUse := by
    rintro t ⟨⟩
    exact ⟨hnext, h.bound, passed_self h.bound⟩
  contexts := h.contexts
  sole := fun t ht => nomatch h.sole t ht
  amfKeys := fun t ht => (h.amfKeys t ht).advance hnext h.bound
  nasKeys := fun t ht => (h.nasKeys t ht).advance hnext h.bound
  sessionKeys := fun t ht => nomatch h.sole t ht

/-- The UE is challenged under its TMSI, the first time or again. -/
theorem Tables.challenge (h : Tables (some t) a b) {rand : Rand} {k : Key256}
    (ctxA : AmfUeContext) {ctx : NasUeContext} (hrnti : rnti < snModulus)
    (hknown : known = some t ∨ known = none) (himsi : ctxA.imsi = ctx.imsi) (htmsi : ctxA.tmsi = t)
    (htmsi' : ctx.tmsi = t) (hserving : ctxA.servingRnti = rnti) (hk : ctx.k = k)
    (hkey : b.keys ctx.imsi = some k)
    (hothers : ∀ t' : Nat, t ≠ t' → a.pendingAuth[t']? = none ∧ b.pendingAuth[t']? = none)
    (hunregistered : b.ueContexts[t]? = none) :
    Answered known (some t) rnti (a.issueChallenge hmac rand k ctxA)
      (b.sendChallenge hmac rand ctx) := by
  obtain ⟨-, hbound, hpassed⟩ := h.inUse t rfl
  obtain ⟨hsame, houtA, houtB⟩ := issueChallenge_sameChallenge hmac rand h.sqn himsi
    htmsi htmsi' hk ((congrFun h.keys _).trans hkey) hothers hunregistered
  have htables : Tables (some t) (a.issueChallenge hmac rand k ctxA).1
      (b.sendChallenge hmac rand ctx).1 := by
    constructor
    · exact h.keys
    · rw [Amf.issueChallenge, NasBs.sendChallenge, h.sqn, himsi]
    · exact h.next
    · exact h.bound
    · exact h.inUse
    · exact h.contexts
    · exact h.sole
    · intro t' ht'
      rcases Std.ExtTreeMap.mem_insert.mp ht' with heq | hold
      · rw [compare_eq_iff_eq, htmsi] at heq
        exact heq ▸ hpassed
      · exact h.amfKeys t' hold
    · exact h.nasKeys
    · intro t' ht'
      obtain rfl : t = t' := Option.some.inj (h.sole t' ht')
      rw [Std.ExtTreeMap.mem_iff_isSome_getElem?] at ht'
      rw [show (b.sendChallenge hmac rand ctx).1.ueContexts = b.ueContexts from rfl,
        hunregistered] at ht'
      cases ht'
  refine ⟨⟨htables, .inr ⟨t, _, rfl, hsame⟩⟩, ?_, ?_, ?_⟩
  · rw [houtA, houtB]
    rfl
  · rw [houtA, hserving]
    intro m hm
    obtain rfl := List.mem_singleton.mp hm
    exact ⟨t, rfl, names_downlinkNas hbound hrnti (length_encode _)⟩
  · rw [houtA]
    exact hknown.imp Eq.symm fun hnone => ⟨hnone, List.cons_ne_nil _ _⟩

/-- A subscriber without a key is registered at once. -/
theorem Tables.openAccess (h : Tables (some t) a b) (imsi : Bytes) (hrnti : rnti < snModulus)
    (hnone : NonePending a b) (hfreshA : t ∉ a.sessionKeys) (hfreshB : t ∉ b.sessionKeys) :
    Answered none (some t) rnti
      ({ a with
          ueContexts := a.ueContexts.insert t
            { imsi := imsi, tmsi := t, registered := true, servingRnti := rnti } },
        [Amf.downlinkNas t rnti (NasBs.acceptMessage t)])
      ({ b with ueContexts := b.ueContexts.insert t { imsi := imsi, tmsi := t, registered := true } },
        [(t, NasBs.acceptMessage t)]) := by
  obtain ⟨-, hbound, -⟩ := h.inUse t rfl
  have hkeys : a.sessionKeys[t]? = b.sessionKeys[t]? := by
    rw [Std.ExtTreeMap.getElem?_eq_none hfreshA, Std.ExtTreeMap.getElem?_eq_none hfreshB]
  refine ⟨⟨⟨h.keys, h.sqn, h.next, h.bound, h.inUse, ?_, ?_, h.amfKeys, h.nasKeys, ?_⟩,
    .inl ⟨hnone.amf, hnone.nas⟩⟩, rfl, ?_, .inr ⟨rfl, List.cons_ne_nil _ _⟩⟩
  · intro t'
    rw [TmsiMap.getElem?_insert_eq, TmsiMap.getElem?_insert_eq]
    split
    · rfl
    · exact h.contexts t'
  · intro t' ht'
    rcases Std.ExtTreeMap.mem_insert.mp ht' with heq | hold
    · exact congrArg some (compare_eq_iff_eq.mp heq)
    · exact h.sole t' hold
  · intro t' ht'
    rcases Std.ExtTreeMap.mem_insert.mp ht' with heq | hold
    · rwa [compare_eq_iff_eq.mp heq] at hkeys
    · exact h.sessionKeys t' hold
  · intro m hm
    obtain rfl := List.mem_singleton.mp hm
    exact ⟨t, rfl, names_downlinkNas hbound hrnti (length_encode _)⟩

/-- Both registrars challenge, accept or refuse alike. -/
theorem Twin.attach (h : Twin none a b) (order : List Nat) (rand : Rand) (hrnti : rnti < snModulus)
    (hattach : (NasMessage.decode pdu).msgType = .attachRequest) (hpdu : pdu ≠ [])
    (hnext : b.nextTmsi ≠ 0) :
    Answered none (some b.nextTmsi) rnti (a.handle hmac rand (envelope none rnti pdu))
      (b.handleMessage hmac order rand 0 pdu) := by
  have hbs : b.handleMessage hmac order rand 0 pdu =
      b.onAttachRequest hmac rand (NasMessage.decode pdu).value := by
    simp only [NasBs.handleMessage, hattach]
  rw [onInitialUeMsg_attach rand hrnti hpdu hattach, hbs, NasBs.onAttachRequest, h.next,
    congrFun h.keys]
  have hnone := h.nonePending
  obtain ⟨hfreshA, hfreshB⟩ := h.fresh hnext
  have hallocated := h.allocate hnext
  cases hkey : b.keys (NasMessage.decode pdu).value with
  | some k =>
    exact hallocated.challenge _ hrnti (.inr rfl) rfl rfl rfl rfl rfl hkey
      (fun t' _ => ⟨hnone.amf t', hnone.nas t'⟩) (h.unregistered _)
  | none =>
    exact hallocated.openAccess _ hrnti ⟨hnone.amf, hnone.nas⟩ hfreshA hfreshB

/-! ### Answers to a challenge -/

/-- A search for another challenge than the one outstanding finds nothing. -/
theorem SameChallenge.failedChallenge {ctx : NasUeContext} (h : SameChallenge a b t ctx)
    {order : List Nat} (horder : order.Perm b.pendingAuth.keys) (imsi : Bytes) :
    b.failedChallenge order imsi = if ctx.imsi = imsi then some (t, ctx) else none := by
  rw [NasBs.failedChallenge, TmsiMap.firstMatch_sole_eq _ horder h.sole]
  simp only [decide_eq_true_eq]

/-- With one challenge pending the order of the search is of no matter. -/
theorem SameChallenge.answeredChallenge {ctx : NasUeContext} (h : SameChallenge a b t ctx)
    {order : List Nat} (horder : order.Perm b.pendingAuth.keys) (res : Bytes) :
    b.answeredChallenge order res = if ctx.xres = res then some (t, ctx) else none := by
  rw [NasBs.answeredChallenge, TmsiMap.firstMatch_sole_eq _ horder h.sole]
  simp only [decide_eq_true_eq]

/-- The challenge is erased on both sides. -/
theorem SameChallenge.dropped {ctx : NasUeContext} (h : SameChallenge a b t ctx) :
    (∀ t' : Nat, (a.pendingAuth.erase t)[t']? = none) ∧
      ∀ t' : Nat, (b.pendingAuth.erase t)[t']? = none := by
  obtain ⟨ctxA, hsoleA, -, -⟩ := h.auth
  constructor
  · intro t'
    rw [TmsiMap.getElem?_erase_eq, hsoleA]
    split <;> rfl
  · intro t'
    rw [TmsiMap.getElem?_erase_eq, h.sole]
    split <;> rfl

/-- A reported failure leads to the same challenge or to none. -/
theorem Twin.authFailure (h : Twin (some t) a b) {order : List Nat} (rand : Rand)
    (hrnti : rnti < snModulus) (horder : order.Perm b.pendingAuth.keys) (value : Bytes) :
    Answered (some t) (some t) rnti (a.onAuthFailure hmac rand t rnti value)
      (b.onAuthFailure hmac order rand value) := by
  rcases h.pending with hnone | ⟨_, ctx, hknown, hsame⟩
  · have hamf : a.onAuthFailure hmac rand t rnti value = (a, []) := by
      rw [Amf.onAuthFailure]
      dsimp only
      split
      · rfl
      · rw [hnone.amf]
    rw [hamf, (hnone.ignored hmac order rand).2]
    exact answered_none h
  · obtain rfl := Option.some.inj hknown
    obtain ⟨ctxA, hsoleA, himsiA, htmsiA⟩ := hsame.auth
    obtain ⟨hdropA, hdropB⟩ := hsame.dropped
    have hpendingA : a.pendingAuth[t]? = some ctxA := by rw [hsoleA, if_pos rfl]
    rw [Amf.onAuthFailure, NasBs.onAuthFailure]
    dsimp only
    split
    · exact answered_none h
    · rw [hpendingA, hsame.failedChallenge horder]
      dsimp only
      rw [himsiA, NasBs.failureImsi]
      by_cases himsi : ctx.imsi = (value.drop 2).take (value.getD 1 0).toNat
      · rw [← himsi, if_neg (not_not.mpr rfl), if_pos rfl]
        have hrand : a.pendingRand.getD t (List.replicate 16 0) = ctx.rand := by
          rw [Std.ExtTreeMap.getD_eq_getD_getElem?, hsame.rand, Option.getD_some]
        have hdropped : Twin (some t) (a.dropChallenge t)
            { b with pendingAuth := b.pendingAuth.erase t } :=
          ⟨⟨h.keys, h.sqn, h.next, h.bound, h.inUse, h.contexts, h.sole, h.amfKeys, h.nasKeys,
            h.sessionKeys⟩, .inl ⟨hdropA, hdropB⟩⟩
        rw [Amf.indexKey_eq_self hsame.key, hsame.key, Option.getD_some, hrand]
        dsimp only
        generalize Aka.verifyAuts hmac ctx.k
          ((value.drop (2 + (value.getD 1 0).toNat)).take Aka.kAutsLen) ctx.rand = verdict
        split
        · cases verdict with
          | none => exact answered_none hdropped
          | some sqnMs =>
            have htables : Tables (some t)
                { a.dropChallenge t with
                  sqn := Function.update a.sqn ctx.imsi (sqnMs &&& Aka.kSqnMask) }
                { b with
                  pendingAuth := b.pendingAuth.erase t
                  sqn := Function.update b.sqn ctx.imsi (sqnMs &&& Aka.kSqnMask) } :=
              ⟨h.keys, by rw [h.sqn], h.next, h.bound, h.inUse, h.contexts, h.sole, h.amfKeys,
                h.nasKeys, h.sessionKeys⟩
            exact htables.challenge { imsi := ctx.imsi, tmsi := t, servingRnti := rnti } hrnti
              (.inl rfl) rfl rfl hsame.tmsi rfl rfl
              ((congrFun h.keys _).symm.trans hsame.key) (fun t' _ => ⟨hdropA t', hdropB t'⟩)
              hsame.unregistered
        · exact answered_none hdropped
      · rw [if_pos himsi, if_neg himsi]
        exact answered_none h

/-- The registrations and keys after an accepted response. -/
theorem Twin.accept {ctx : NasUeContext} {ctxA : AmfUeContext} (h : Twin (some t) a b)
    (hsame : SameChallenge a b t ctx) (himsi : ctxA.imsi = ctx.imsi) (htmsi : ctxA.tmsi = t) :
    Twin (some t)
      { a.dropChallenge t with ueContexts := a.ueContexts.insert t { ctxA with registered := true } }
      { b with
        pendingAuth := b.pendingAuth.erase t
        ueContexts := b.ueContexts.insert t { ctx with registered := true }
        sessionKeys := b.sessionKeys.insert t ctx.sessionK } := by
  obtain ⟨hdropA, hdropB⟩ := hsame.dropped
  obtain ⟨-, -, hpassed⟩ := h.inUse t rfl
  have hsole : ∀ t', t' ∈ b.ueContexts.insert t { ctx with registered := true } → t' = t := by
    intro t' ht'
    rcases Std.ExtTreeMap.mem_insert.mp ht' with heq | hold
    · exact (compare_eq_iff_eq.mp heq).symm
    · exact (Option.some.inj (h.sole t' hold)).symm
  refine ⟨⟨h.keys, h.sqn, h.next, h.bound, h.inUse, ?_, ?_, h.amfKeys, ?_, ?_⟩,
    .inl ⟨hdropA, hdropB⟩⟩
  · intro t'
    rw [TmsiMap.getElem?_insert_eq, TmsiMap.getElem?_insert_eq]
    split
    · simp [amfEntry, nasEntry, himsi, htmsi, hsame.tmsi]
    · exact h.contexts t'
  · intro t' ht'
    rw [hsole t' ht']
  · intro t' ht'
    rcases Std.ExtTreeMap.mem_insert.mp ht' with heq | hold
    · exact compare_eq_iff_eq.mp heq ▸ hpassed
    · exact h.nasKeys t' hold
  · intro t' ht'
    obtain rfl := hsole t' ht'
    rw [TmsiMap.getElem?_insert_eq, if_pos rfl]
    exact hsame.sessionK

theorem names_sessionKey (ht : t < u32Modulus) (hrnti : rnti < snModulus) (k : Key256) :
    Names rnti t ⟨.sessionKey, putU32 t ++ putU16 rnti ++ k.toList⟩ := by
  rw [List.append_assoc]
  refine ⟨getU32_head _ ht, getU16_fifth _ hrnti, .inr ⟨rfl, ?_⟩⟩
  simp

/-- A right answer registers on both sides, a wrong one on neither. -/
theorem Twin.authResponse (h : Twin (some t) a b) {order : List Nat} (hrnti : rnti < snModulus)
    (horder : order.Perm b.pendingAuth.keys) (res : Bytes) :
    Answered (some t) (some t) rnti
      (if res.length = Aka.kResLen then a.onAuthResponse t rnti res else (a, []))
      (b.onAuthResponse order res) := by
  by_cases hlen : res.length = Aka.kResLen
  swap
  · rw [if_neg hlen, NasBs.onAuthResponse, if_pos hlen]
    exact answered_none h
  rw [if_pos hlen]
  rcases h.pending with hnone | ⟨_, ctx, hknown, hsame⟩
  · rw [Amf.onAuthResponse, hnone.amf, (hnone.ignored (fun _ _ => Vector.replicate 32 0) order
      (Vector.replicate 16 0)).1]
    exact answered_none h
  · obtain rfl := Option.some.inj hknown
    obtain ⟨ctxA, hsoleA, himsiA, htmsiA⟩ := hsame.auth
    obtain ⟨hdropA, hdropB⟩ := hsame.dropped
    obtain ⟨-, hbound, -⟩ := h.inUse t rfl
    have hpendingA : a.pendingAuth[t]? = some ctxA := by rw [hsoleA, if_pos rfl]
    have hxres : a.pendingRnti.getD t [] = ctx.xres := by
      rw [Std.ExtTreeMap.getD_eq_getD_getElem?, hsame.response, Option.getD_some]
    by_cases hres : ctx.xres = res
    · have hamf : a.onAuthResponse t rnti res =
          ({ a.dropChallenge t with
              ueContexts := a.ueContexts.insert t { ctxA with registered := true } },
            [Amf.downlinkNas t rnti (NasBs.acceptMessage t),
              ⟨.sessionKey, putU32 t ++ putU16 rnti ++
                (a.sessionKeys.getD t (Vector.replicate 32 0)).toList⟩]) := by
        rw [Amf.onAuthResponse, hpendingA]
        dsimp only
        rw [hxres, if_pos hres, ← htmsiA]
        rfl
      have hnas : b.onAuthResponse order res =
          ({ b with
              pendingAuth := b.pendingAuth.erase t
              ueContexts := b.ueContexts.insert t { ctx with registered := true }
              sessionKeys := b.sessionKeys.insert t ctx.sessionK },
            [(t, NasBs.acceptMessage t)]) := by
        rw [NasBs.onAuthResponse, if_neg (not_not.mpr hlen), hsame.answeredChallenge horder,
          if_pos hres, ← hsame.tmsi]
      rw [hamf, hnas]
      refine ⟨h.accept hsame himsiA htmsiA, rfl, ?_, .inl rfl⟩
      intro m hm
      refine ⟨t, rfl, ?_⟩
      rcases List.mem_cons.mp hm with rfl | hlast
      · exact names_downlinkNas hbound hrnti (length_encode _)
      · obtain rfl := List.mem_singleton.mp hlast
        exact names_sessionKey hbound hrnti _
    · have hamf : a.onAuthResponse t rnti res =
          (a.dropChallenge t, [Amf.downlinkNas t rnti (NasBs.rejectMessage t)]) := by
        rw [Amf.onAuthResponse, hpendingA]
        dsimp only
        rw [hxres, if_neg hres]
      have hnas : b.onAuthResponse order res =
          ({ b with pendingAuth := ∅ }, [(t, NasBs.rejectMessage t)]) := by
        rw [NasBs.onAuthResponse, if_neg (not_not.mpr hlen), hsame.answeredChallenge horder,
          if_neg hres, hsame.toList, ← hsame.tmsi]
      rw [hamf, hnas]
      refine ⟨⟨⟨h.keys, h.sqn, h.next, h.bound, h.inUse, h.contexts, h.sole, h.amfKeys, h.nasKeys,
        h.sessionKeys⟩, .inl ⟨hdropA, by simp⟩⟩, rfl, ?_, .inl rfl⟩
      intro m hm
      obtain rfl := List.mem_singleton.mp hm
      exact ⟨t, rfl, names_downlinkNas hbound hrnti (length_encode _)⟩

/-! ### DETACH -/

/-- A DETACH ends both registrations where the TMSI it names is the one that is known. -/
theorem Twin.detach (hmac : KeyedDigest) (h : Twin known a b) (order : List Nat) (rand : Rand) (hrnti : rnti < snModulus)
    (hdetach : (NasMessage.decode pdu).msgType = .detach) (hmirrors : Mirrors known b pdu) :
    ∃ a' b', a.handle hmac rand (envelope known rnti pdu) = (a', []) ∧
      b.handleMessage hmac order rand 0 pdu = (b', []) ∧ Twin none a' b' := by
  have hattach : (NasMessage.decode pdu).msgType ≠ .attachRequest := by
    rw [hdetach]
    decide
  have hbs : b.handleMessage hmac order rand 0 pdu =
      ({ b with ueContexts := b.ueContexts.erase (detachedTmsi (NasMessage.decode pdu).value) },
        []) := by
    simp only [NasBs.handleMessage, hdetach]
    rfl
  rw [hbs]
  generalize hvalue : detachedTmsi (NasMessage.decode pdu).value = v
  cases known with
  | none =>
    refine ⟨a, _, handle_initial_ignored rand hattach, rfl, ?_⟩
    have hsame : b.ueContexts.erase v = b.ueContexts := by
      ext t ctx
      rw [TmsiMap.getElem?_erase_eq, h.unregistered, ite_self]
    rw [hsame]
    exact h
  | some t =>
    obtain ⟨-, hbound, -⟩ := h.inUse t rfl
    obtain ⟨hkeys, hnamed⟩ := hmirrors.detach hdetach t rfl
    rw [hvalue] at hnamed
    have hnone : NonePending a b := by
      rcases h.pending with hnone | ⟨_, ctx, -, hsame⟩
      · exact hnone
      · have hlist := Std.ExtTreeMap.map_fst_toList_eq_keys (t := b.pendingAuth)
        rw [hsame.toList, hkeys] at hlist
        cases hlist
    have hgone : ∀ t' : Nat, (b.ueContexts.erase v)[t']? = none := by
      intro t'
      rw [TmsiMap.getElem?_erase_eq]
      split
      · rfl
      · rename_i hne
        rw [Std.ExtTreeMap.getElem?_eq_none]
        intro hmem
        obtain rfl : t = t' := Option.some.inj (h.sole t' hmem)
        exact hnamed.elim hne (fun hunregistered => hunregistered hmem)
    have hgoneA : ∀ t' : Nat, (a.ueContexts.erase t)[t']? = none := by
      intro t'
      rw [TmsiMap.getElem?_erase_eq]
      split
      · rfl
      · rename_i hne
        have hnas : b.ueContexts[t']? = none := by
          rw [Std.ExtTreeMap.getElem?_eq_none]
          exact fun hmem => hne (Option.some.inj (h.sole t' hmem))
        have hentry := h.contexts t'
        rw [hnas] at hentry
        exact Option.map_eq_none_iff.mp hentry
    have hamf : a.handle hmac rand (envelope (some t) rnti pdu) = (a.releaseUe t, []) := by
      rw [handle_uplink rand hbound hrnti (two_le_length_of_msgType hattach), hdetach]
    refine ⟨_, _, hamf, rfl, ⟨?_, .inl ⟨?_, hnone.nas⟩⟩⟩
    · refine ⟨h.keys, h.sqn, h.next, h.bound, (fun _ hnew => nomatch hnew), ?_, ?_, ?_, h.nasKeys, ?_⟩
      · intro t'
        rw [Amf.releaseUe, hgone, hgoneA]
        rfl
      · intro t' hmem
        rw [Std.ExtTreeMap.mem_iff_isSome_getElem?, hgone] at hmem
        cases hmem
      · intro t' hmem
        exact h.amfKeys t' (Std.ExtTreeMap.mem_of_mem_erase hmem)
      · intro t' hmem
        rw [Std.ExtTreeMap.mem_iff_isSome_getElem?, hgone] at hmem
        cases hmem
    · intro t'
      rw [Amf.releaseUe, TmsiMap.getElem?_erase_eq, hnone.amf, ite_self]

/-! ### Any other PDU -/

/-- Step lemma over the types of a NAS message. -/
theorem Twin.answer (hmac : KeyedDigest) (h : Twin known a b) {order : List Nat} (rand : Rand)
    (hrnti : rnti < snModulus) (horder : order.Perm b.pendingAuth.keys)
    (hdetach : (NasMessage.decode pdu).msgType ≠ .detach) (hmirrors : Mirrors known b pdu) :
    ∃ known', Answered known known' rnti (a.handle hmac rand (envelope known rnti pdu))
      (b.handleMessage hmac order rand 0 pdu) := by
  by_cases hattach : (NasMessage.decode pdu).msgType = .attachRequest
  · obtain ⟨rfl, hpdu, hnext⟩ := hmirrors.attach hattach
    exact ⟨_, h.attach order rand hrnti hattach hpdu hnext⟩
  refine ⟨known, ?_⟩
  cases known with
  | none =>
    have hignored := h.nonePending.ignored hmac order rand
    have hbs : b.handleMessage hmac order rand 0 pdu = (b, []) := by
      rw [NasBs.handleMessage]
      split
      · exact hignored.1 _
      · exact hignored.2 _
      · exact absurd ‹_› hattach
      · exact absurd ‹_› hdetach
      · rfl
    rw [handle_initial_ignored rand hattach, hbs]
    exact answered_none h
  | some t =>
    obtain ⟨-, hbound, -⟩ := h.inUse t rfl
    rw [handle_uplink rand hbound hrnti (two_le_length_of_msgType hattach), NasBs.handleMessage]
    cases htype : (NasMessage.decode pdu).msgType with
    | authResponse => exact h.authResponse hrnti horder _
    | authFailure => exact h.authFailure rand hrnti horder _
    | attachRequest => exact absurd htype hattach
    | detach => exact absurd htype hdetach
    | _ => exact answered_none h

end

/-! ## The base station in between -/

/-- The base station with the AMF behind it, and the registrar that is handed the same PDUs. -/
structure Tunnel where
  node : BsNode
  amf : Amf
  bs : NasBs
  amfOut : List Bytes := []
  bsOut : List Bytes := []

structure UplinkNas where
  pdu : Bytes
  rand : Rand
  order : List Nat

/-- The C-RNTI of the UE is the only one that is mapped, if any is. -/
def Knows (rnti : Nat) (n : BsNode) (known : Option Nat) : Prop :=
  ∀ t : Nat, n.tmsiToCrnti[t]? = if known = some t then some rnti else none

section
variable (w : World) (rnti : Nat)

/-- The messages for the core that the PDU makes the base station send. -/
def tunnelled (n : BsNode) (pdu : Bytes) : List CnMessage :=
  (({ n with script := [] }.handleNasPdu w rnti pdu).sent.drop n.sent.length).map Prod.snd

def amfAnswers (rand : Rand) (a : Amf) (ms : List CnMessage) : Amf × List CnMessage :=
  ms.foldl (fun acc m => ((acc.1.handle w.digest rand m).1,
    acc.2 ++ (acc.1.handle w.digest rand m).2)) (a, [])

def next (s : Tunnel) (e : UplinkNas) : Tunnel :=
  let amf := amfAnswers w e.rand s.amf (tunnelled w rnti s.node e.pdu)
  let nas := s.bs.handleMessage w.digest e.order e.rand 0 e.pdu
  { node := { s.node with script := [amf.2] }.handleNasPdu w rnti e.pdu
    amf := amf.1
    bs := nas.1
    amfOut := s.amfOut ++ amf.2.filterMap downlinkPdu
    bsOut := s.bsOut ++ nas.2.map Prod.snd }

def step (s : Tunnel) (e : UplinkNas) : Option Tunnel :=
  if e.order.Perm s.bs.pendingAuth.keys then some (next w rnti s e) else none

def start (config : BsNodeConfig) (keys : Bytes → Option Key256) (sqn : Bytes → UInt64)
    (nextTmsi : Nat) : Tunnel :=
  { node := BsNode.make config keys
    amf := { keys := keys, sqn := sqn, nextTmsi := nextTmsi }
    bs := { keys := keys, sqn := sqn, nextTmsi := nextTmsi } }

/-- The TMSI the base station finds for the UE; zero stands for none. -/
def knownTmsi (n : BsNode) : Option Nat :=
  if n.tmsiForCrnti w rnti = 0 then none else some (n.tmsiForCrnti w rnti)

/-- The condition on a step. -/
def MirroredAt (s : Tunnel) (e : UplinkNas) : Prop := Mirrors (knownTmsi w rnti s.node) s.bs e.pdu

end

def amfRegistered (a : Amf) : Set (Bytes × Nat) :=
  {p | ∃ ctx, a.ueContexts[p.2]? = some ctx ∧ ctx.registered = true ∧ ctx.imsi = p.1}

def nasRegistered (b : NasBs) : Set (Bytes × Nat) :=
  {p | ∃ ctx, b.ueContexts[p.2]? = some ctx ∧ ctx.registered = true ∧ ctx.imsi = p.1}

/-- The same downlink PDUs so far, the same registrations, and the same key for each. -/
structure Agree (s : Tunnel) : Prop where
  downlinks : s.amfOut = s.bsOut
  registered : amfRegistered s.amf = nasRegistered s.bs
  sessionKeys : ∀ p ∈ nasRegistered s.bs, s.amf.sessionKeys[p.2]? = s.bs.sessionKeys[p.2]?

section
variable {w : World} {rnti t : Nat} {n : BsNode} {known : Option Nat} {pdu : Bytes}

/-- The base station finds the TMSI it has learnt. -/
theorem Knows.tmsiForCrnti (h : Knows rnti n known) : n.tmsiForCrnti w rnti = known.getD 0 := by
  rw [BsNode.tmsiForCrnti]
  cases known with
  | some t =>
    have hsole : ∀ t' : Nat, n.tmsiToCrnti[t']? = if t = t' then some rnti else none := by
      intro t'
      rw [h t']
      simp
    rw [TmsiMap.firstMatch_sole (w.perm n .tmsiToCrnti) hsole (by simp)]
    rfl
  | none =>
    cases hfound : n.tmsiToCrnti.firstMatch (w.order n .tmsiToCrnti) fun r => r = rnti with
    | none => rfl
    | some found =>
      have hentry := (TmsiMap.firstMatch_some hfound).1
      rw [h] at hentry
      cases hentry

theorem Knows.knownTmsi (h : Knows rnti n known) (hzero : known ≠ some 0) :
    knownTmsi w rnti n = known := by
  rw [RegistrarMirror.knownTmsi, h.tmsiForCrnti]
  cases known with
  | none => rfl
  | some t => exact if_neg fun ht => hzero (congrArg some ht)

/-- An answer teaches the TMSI it names. -/
theorem Knows.learn {m : CnMessage} (h : Knows rnti n known) (hknown : known = none ∨ known = some t)
    (hnames : Names rnti t m) :
    Knows rnti (n.handleLinkMessage w .amf m) (some t) ∧
      (n.handleLinkMessage w .amf m).config = n.config := by
  have hlearn : Knows rnti (n.learnCrnti t rnti).1 (some t) ∧
      (n.learnCrnti t rnti).1.config = n.config := by
    rw [BsNode.learnCrnti, h t]
    rcases hknown with rfl | rfl
    · refine ⟨fun t' => ?_, rfl⟩
      have hinsert : (n.tmsiToCrnti.insert t rnti)[t']? =
          if t = t' then some rnti else n.tmsiToCrnti[t']? := TmsiMap.getElem?_insert_eq _ _ _ _
      have hold := h t'
      simp only [reduceCtorEq, if_false] at hold ⊢
      rw [hinsert, hold]
      simp
    · rw [if_pos rfl]
      exact ⟨h, rfl⟩
  rcases hnames.type with ⟨htype, hlen⟩ | ⟨htype, hlen⟩
  · have hhandle : n.handleLinkMessage w .amf m = n.onDownlinkNas m.value := by
      simp only [BsNode.handleLinkMessage, BsNode.handleCnMessage, htype]
    rw [hhandle, BsNode.onDownlinkNas, if_neg (by omega), hnames.tmsi, hnames.rnti]
    exact hlearn
  · have hhandle : n.handleLinkMessage w .amf m = n.onSessionKey m.value := by
      simp only [BsNode.handleLinkMessage, BsNode.handleCnMessage, htype]
    rw [hhandle, BsNode.onSessionKey, if_neg (by omega), hnames.tmsi, hnames.rnti]
    exact hlearn

/-- Messages that name this UE teach its TMSI and no other. -/
theorem Knows.learnAll {ms : List CnMessage} (h : Knows rnti n known)
    (hknown : known = none ∨ known = some t) (hnames : ∀ m ∈ ms, Names rnti t m) :
    Knows rnti (ms.foldl (fun n m => n.handleLinkMessage w .amf m) n)
        (if ms = [] then known else some t) ∧
      (ms.foldl (fun n m => n.handleLinkMessage w .amf m) n).config = n.config := by
  induction ms generalizing n known with
  | nil => exact ⟨h, rfl⟩
  | cons m ms ih =>
    obtain ⟨hlearnt, hconfig⟩ := h.learn (w := w) hknown (hnames m List.mem_cons_self)
    obtain ⟨hrest, hconfig'⟩ := ih hlearnt (.inr rfl)
      fun m' hm' => hnames m' (List.mem_cons_of_mem _ hm')
    rw [List.foldl_cons, if_neg (List.cons_ne_nil _ _)]
    rw [ite_self] at hrest
    exact ⟨hrest, hconfig'.trans hconfig⟩

/-- The tear-down after a DETACH forgets the UE. -/
theorem Knows.tearDown (h : Knows rnti n known) (tmsi : Nat) :
    Knows rnti (n.tearDown rnti tmsi) none ∧ (n.tearDown rnti tmsi).config = n.config := by
  have hmap : (n.tearDown rnti tmsi).tmsiToCrnti =
      n.tmsiToCrnti.filter fun _ crnti => crnti ≠ rnti := by
    rw [BsNode.tearDown]
    dsimp only
    split <;> rfl
  have hconfig : (n.tearDown rnti tmsi).config = n.config := by
    rw [BsNode.tearDown]
    dsimp only
    split <;> rfl
  refine ⟨fun t => ?_, hconfig⟩
  rw [hmap, Std.ExtTreeMap.getElem?_filter', h t]
  split <;> simp

/-- What the base station does with a PDU whose UE it knows under `known`. -/
theorem handleNasPdu_separated (n : BsNode) (hamf : n.config.amf = true)
    (hknows : Knows rnti n known) (hzero : known ≠ some 0) :
    n.handleNasPdu w rnti pdu =
      if (NasMessage.decode pdu).msgType = .detach then
        (n.send w .amf (envelope known rnti pdu)).tearDown rnti (known.getD 0)
      else n.send w .amf (envelope known rnti pdu) := by
  have hsend : n.cnSendNas w (known.getD 0) rnti pdu =
      n.send w .amf (envelope known rnti pdu) := by
    rw [BsNode.cnSendNas]
    cases known with
    | none => rfl
    | some t => exact if_neg fun ht => hzero (congrArg some ht)
  have hseparated : n.coreSeparated = true := hamf
  rw [BsNode.handleNasPdu, if_pos hseparated]
  simp only [hknows.tmsiForCrnti, hsend]

theorem sent_handleNasPdu (w : World) (pdu : Bytes) (hknows : Knows rnti n known)
    (hscript : n.script = []) (hamf : n.config.amf = true) (hzero : known ≠ some 0) :
    (n.handleNasPdu w rnti pdu).sent = n.sent ++ [(.amf, envelope known rnti pdu)] := by
  have hsend : (n.send w .amf (envelope known rnti pdu)).sent =
      n.sent ++ [(.amf, envelope known rnti pdu)] := by
    rw [BsNode.send, hscript]
    rfl
  rw [handleNasPdu_separated n hamf hknows hzero]
  split
  · rw [BsNode.tearDown]
    dsimp only
    split <;> exact hsend
  · exact hsend

/-- What the base station puts around a NAS PDU. -/
theorem tunnelled_eq (hamf : n.config.amf = true) (hknows : Knows rnti n known)
    (hzero : known ≠ some 0) : tunnelled w rnti n pdu = [envelope known rnti pdu] := by
  have hunanswered : Knows rnti { n with script := [] } known := hknows
  have hsent := sent_handleNasPdu w pdu hunanswered rfl hamf hzero
  rw [tunnelled, hsent, List.drop_left]
  rfl

/-- What the UE is known under after the PDU, which the core answers with `replies`. -/
theorem Knows.handleNasPdu (hknows : Knows rnti n known) (w : World) (known' : Option Nat)
    (pdu : Bytes) {replies : List CnMessage} (hscript : n.script = [replies]) (hamf : n.config.amf = true)
    (hzero : known ≠ some 0) (hnamed : ∀ m ∈ replies, ∃ t, known' = some t ∧ Names rnti t m)
    (hdetach : (NasMessage.decode pdu).msgType = .detach → replies = [] ∧ known' = none)
    (hlearnt : (NasMessage.decode pdu).msgType ≠ .detach →
      known' = known ∨ known = none ∧ replies ≠ []) :
    Knows rnti (n.handleNasPdu w rnti pdu) known' ∧
      (n.handleNasPdu w rnti pdu).config = n.config := by
  have hfilter : replies.filter
      (fun r => BsNode.answersTo (envelope known rnti pdu).msgType r.msgType) = replies := by
    rw [List.filter_eq_self]
    intro m hm
    obtain ⟨t, -, hnames⟩ := hnamed m hm
    cases known <;> rcases hnames.type with ⟨htype, -⟩ | ⟨htype, -⟩ <;> rw [htype] <;> rfl
  have hrecorded : Knows rnti (({ n with script := [] } : BsNode).record .amf
      (envelope known rnti pdu)) known := hknows
  have hsend : n.send w .amf (envelope known rnti pdu) =
      replies.foldl (fun n m => n.handleLinkMessage w .amf m)
        (({ n with script := [] } : BsNode).record .amf (envelope known rnti pdu)) := by
    rw [BsNode.send, hscript]
    dsimp only
    rw [hfilter]
  rw [handleNasPdu_separated n hamf hknows hzero, hsend]
  split
  · rename_i htype
    obtain ⟨rfl, rfl⟩ := hdetach htype
    exact hrecorded.tearDown _
  · rename_i htype
    cases known' with
    | none =>
      obtain rfl : replies = [] := by
        rw [List.eq_nil_iff_forall_not_mem]
        intro m hm
        obtain ⟨t, hnone, -⟩ := hnamed m hm
        cases hnone
      obtain rfl : none = known := (hlearnt htype).resolve_right fun h => h.2 rfl
      exact ⟨hrecorded, rfl⟩
    | some t =>
      have hnames : ∀ m ∈ replies, Names rnti t m := by
        intro m hm
        obtain ⟨t', heq, hnames⟩ := hnamed m hm
        rwa [Option.some.inj heq]
      have hknown : known = none ∨ known = some t :=
        (hlearnt htype).elim (fun h => .inr h.symm) (fun h => .inl h.1)
      obtain ⟨hlearnt', hconfig⟩ := hrecorded.learnAll (w := w) hknown hnames
      refine ⟨?_, hconfig⟩
      split at hlearnt'
      · rename_i hnil
        rwa [(hlearnt htype).resolve_right fun h => h.2 hnil]
      · exact hlearnt'

/-! ## Runs -/

/-- The simulation relation of the two systems. -/
structure Mirror (rnti : Nat) (s : Tunnel) (known : Option Nat) : Prop where
  separated : s.node.config.amf = true
  knows : Knows rnti s.node known
  twin : Twin known s.amf s.bs
  downlinks : s.amfOut = s.bsOut

/-- Step lemma for the pair of registrars with the base station in between. -/
theorem Mirror.step {s s' : Tunnel} {e : UplinkNas} (hrnti : rnti < snModulus)
    (h : Mirror rnti s known) (hmirrored : MirroredAt w rnti s e)
    (hstep : step w rnti s e = some s') : ∃ known', Mirror rnti s' known' := by
  have hzero : known ≠ some 0 := by
    rintro rfl
    exact (h.twin.inUse 0 rfl).1 rfl
  rw [MirroredAt, h.knows.knownTmsi hzero] at hmirrored
  rw [RegistrarMirror.step] at hstep
  split at hstep
  swap
  · cases hstep
  rename_i horder
  obtain rfl := Option.some.inj hstep
  have hanswers : amfAnswers w e.rand s.amf (tunnelled w rnti s.node e.pdu) =
      s.amf.handle w.digest e.rand (envelope known rnti e.pdu) := by
    rw [tunnelled_eq h.separated h.knows hzero]
    rfl
  by_cases hdetach : (NasMessage.decode e.pdu).msgType = .detach
  · obtain ⟨a', b', hamf, hnas, htwin⟩ := h.twin.detach w.digest e.order e.rand hrnti
      hdetach hmirrored
    have hanswered : Knows rnti { s.node with script := [[]] } known := h.knows
    obtain ⟨hknows, hconfig⟩ := hanswered.handleNasPdu w none e.pdu rfl h.separated hzero (by simp)
      (fun _ => ⟨rfl, rfl⟩) (fun hother => absurd hdetach hother)
    refine ⟨none, ?_⟩
    rw [next, hanswers, hamf, hnas]
    exact ⟨hconfig ▸ h.separated, hknows, htwin, congrArg (· ++ []) h.downlinks⟩
  · obtain ⟨known', hanswered⟩ := h.twin.answer w.digest e.rand hrnti horder hdetach
      hmirrored
    have hbefore : Knows rnti { s.node with
        script := [(s.amf.handle w.digest e.rand (envelope known rnti e.pdu)).2] } known := h.knows
    obtain ⟨hknows, hconfig⟩ := hbefore.handleNasPdu w known' e.pdu rfl h.separated hzero
      hanswered.named (fun htype => absurd htype hdetach) (fun _ => hanswered.learnt)
    refine ⟨known', ?_⟩
    rw [next, hanswers]
    refine ⟨hconfig ▸ h.separated, hknows, hanswered.twin, ?_⟩
    dsimp only
    rw [h.downlinks, hanswered.downlinks]

theorem mirror_start {config : BsNodeConfig} {keys : Bytes → Option Key256} {sqn : Bytes → UInt64}
    {nextTmsi : Nat} (hamf : config.amf = true) (hnext : nextTmsi < u32Modulus) :
    Mirror rnti (start config keys sqn nextTmsi) none := by
  refine ⟨hamf, fun t => ?_, ⟨?_, .inl ⟨?_, ?_⟩⟩, rfl⟩
  · simp [start, BsNode.make]
  · refine ⟨rfl, rfl, rfl, hnext, (fun _ hnew => nomatch hnew), ?_, ?_, ?_, ?_, ?_⟩ <;> simp [start]
  · simp [start]
  · simp [start]

theorem Mirror.agree {s : Tunnel} (h : Mirror rnti s known) : Agree s := by
  refine ⟨h.downlinks, ?_, ?_⟩
  · ext ⟨imsi, t⟩
    have hentry := h.twin.contexts t
    simp only [amfRegistered, nasRegistered, Set.mem_ofPred_eq]
    cases hamf : s.amf.ueContexts[t]? with
    | none =>
      rw [hamf] at hentry
      have hnas := Option.map_eq_none_iff.mp hentry.symm
      simp [hnas]
    | some ctxA =>
      rw [hamf] at hentry
      obtain ⟨ctx, hnas, hsame⟩ := Option.map_eq_some_iff.mp hentry.symm
      simp only [amfEntry, nasEntry, Prod.mk.injEq] at hsame
      simp [hnas, hsame]
  · rintro ⟨imsi, t⟩ ⟨ctx, hctx, -⟩
    refine h.twin.sessionKeys t ?_
    rw [Std.ExtTreeMap.mem_iff_isSome_getElem?, hctx]
    rfl

/-- In every run whose PDUs all meet the condition, the AMF and the registrar have sent the
same downlink PDUs and hold the same registrations with the same keys. -/
theorem amf_mirrors_registrar (w : World) (rnti : Nat) (hrnti : rnti < snModulus)
    (config : BsNodeConfig) (hamf : config.amf = true) (keys : Bytes → Option Key256)
    (sqn : Bytes → UInt64) (nextTmsi : Nat) (hnext : nextTmsi < u32Modulus) (es : List UplinkNas)
    (s : Tunnel)
    (hmeets : StepsMeet (step w rnti) (MirroredAt w rnti) (start config keys sqn nextTmsi) es)
    (hrun : runFrom (step w rnti) (start config keys sqn nextTmsi) es = some s) : Agree s := by
  obtain ⟨known, hmirror⟩ := runFrom_invariant_of_meets (fun s => ∃ known, Mirror rnti s known)
    (fun s e s' hinv hcond hstep => hinv.elim fun _ hmirror => hmirror.step hrnti hcond hstep)
    ⟨none, mirror_start hamf hnext⟩ hmeets hrun
  exact hmirror.agree

/-! A UE that knows another key: its response is refused, and it asks again. -/

def separatedConfig : BsNodeConfig := { amf := true }

def oneSubscriber : Bytes → Option Key256 :=
  fun imsi => if imsi = [0x31] then some (Vector.replicate 32 1) else none

def requestPdu : Bytes := NasMessage.encode { msgType := .attachRequest, value := [0x31] }

def wrongResponsePdu : Bytes :=
  NasMessage.encode { msgType := .authResponse, value := List.replicate 16 9 }

def refusedAttach : List UplinkNas :=
  [⟨requestPdu, Vector.replicate 16 5, []⟩,
    ⟨wrongResponsePdu, Vector.replicate 16 5, [0x00010001]⟩]

theorem amf_mirrors_registrar_refused :
    ∃ s, runFrom (step World.plain 1) (start separatedConfig oneSubscriber (fun _ => 0) 0x00010001)
        refusedAttach = some s ∧ s.bsOut.length = 2 ∧ Agree s := by
  have hrun : ((runFrom (step World.plain 1)
      (start separatedConfig oneSubscriber (fun _ => 0) 0x00010001) refusedAttach).map
        fun s => s.bsOut.length) = some 2 := by decide
  have hmeets : StepsMeet (step World.plain 1) (MirroredAt World.plain 1)
      (start separatedConfig oneSubscriber (fun _ => 0) 0x00010001) refusedAttach := by
    refine ⟨⟨fun _ => ⟨by decide, by decide, by decide⟩, fun h => ?_⟩, fun s hs => ?_⟩
    · exact absurd h (by decide)
    · refine ⟨⟨fun h => ?_, fun h => ?_⟩, fun _ _ => trivial⟩
      · exact absurd h (by decide)
      · exact absurd h (by decide)
  obtain ⟨s, hs, hlength⟩ := Option.map_eq_some_iff.mp hrun
  exact ⟨s, hs, hlength, amf_mirrors_registrar World.plain 1 (by decide) separatedConfig rfl
    oneSubscriber (fun _ => 0) 0x00010001 (by decide) refusedAttach s hmeets hs⟩

/-- The registrar challenges the second request, the AMF does not see it. -/
theorem amf_ignores_second_attach :
    ∃ s, runFrom (step World.plain 1) (start separatedConfig oneSubscriber (fun _ => 0) 0x00010001)
        (refusedAttach ++ [⟨requestPdu, Vector.replicate 16 6, []⟩]) = some s ∧ ¬ Agree s := by
  have hrun : ((runFrom (step World.plain 1)
      (start separatedConfig oneSubscriber (fun _ => 0) 0x00010001)
      (refusedAttach ++ [⟨requestPdu, Vector.replicate 16 6, []⟩])).map
        fun s => (s.amfOut.length, s.bsOut.length)) = some (2, 3) := by decide
  obtain ⟨s, hs, hlengths⟩ := Option.map_eq_some_iff.mp hrun
  refine ⟨s, hs, fun hagree => ?_⟩
  rw [hagree.downlinks] at hlengths
  simp at hlengths
  omega

end

end RegistrarMirror

end AetherStack.Guarantees
