import AetherStack.Source.NasBs
import AetherStack.Source.NasUe
import AetherStack.Source.RrcBs

/-!
# Incomplete control PDUs

`decode` cannot fail: of an incomplete PDU it keeps the type, or makes up the default one, and
drops the value. What each of the four entities does with such a message is told here for every
state and every PDU. A branch that reads its value mostly stops at the missing length; one that
does not need a value runs as for a whole message.
-/
namespace AetherStack.Guarantees
open Source Source.Rrc

/-- Shorter than the header, or than its length field says. -/
def Incomplete (pdu : Bytes) : Prop := pdu.length < 3 ∨ pdu.length < 3 + getU16 pdu 1

instance (pdu : Bytes) : Decidable (Incomplete pdu) :=
  inferInstanceAs (Decidable (pdu.length < 3 ∨ pdu.length < 3 + getU16 pdu 1))

namespace MalformedPdu

variable {pdu : Bytes}

/-- A proper prefix of a message is incomplete. -/
theorem incomplete_prefix {octet : UInt8} {value : Bytes} (hlen : value.length < snModulus) {k : Nat}
    (hk : k < (octet :: (putU16 value.length ++ value)).length) :
    Incomplete ((octet :: (putU16 value.length ++ value)).take k) := by
  by_cases hheader : k < 3
  · exact .inl (by simp; omega)
  · refine .inr ?_
    have hfield : getU16 ((octet :: (putU16 value.length ++ value)).take k) 1 = value.length := by
      have hsplit : (octet :: (putU16 value.length ++ value)).take k =
          [octet] ++ (putU16 value.length ++ value.take (k - 3)) := by
        obtain ⟨j, rfl⟩ : ∃ j, k = j + 3 := ⟨k - 3, by omega⟩
        simp [putU16]
      have hread := getU16_putU16 [octet] (value.take (k - 3)) value.length
      rw [hsplit]
      rw [List.length_singleton, Nat.mod_eq_of_lt hlen] at hread
      exact hread
    rw [hfield]
    simp only [List.length_cons, List.length_append, length_putU16, List.length_take] at hk ⊢
    omega

/-- An incomplete PDU has no value, whatever its type octet says. -/
theorem nas_decode (h : Incomplete pdu) : (NasMessage.decode pdu).value = [] := by
  unfold NasMessage.decode
  split
  · rfl
  · rename_i hlen
    exact if_neg (not_le.mpr (h.resolve_left hlen))

theorem rrc_decode (h : Incomplete pdu) : (RrcMessage.decode pdu).value = [] := by
  unfold RrcMessage.decode
  split
  · rfl
  · rename_i hlen
    exact if_neg (not_le.mpr (h.resolve_left hlen))

/-! ### NAS -/

/-- An ATTACH_REQUEST needs no value, and a DETACH falls back to the TMSI of the caller. -/
def NasBsIgnores (b : NasBs) (tmsi : Nat) (type : NasMessageType) : Prop :=
  type ≠ .attachRequest ∧ (type = .detach → tmsi ∉ b.ueContexts)

/-- A UE that registers takes an ATTACH_ACCEPT without TMSI, and an ATTACH_REJECT has no value. -/
def NasUeIgnores (u : Nas.NasUe) (type : NasMessageType) : Prop :=
  u.state = .registering → type ≠ .attachAccept ∧ type ≠ .attachReject

/-- Erasing changes nothing exactly where nothing is. -/
theorem erase_eq_self {β : Type} {m : TmsiMap β} {t : Nat} : m.erase t = m ↔ t ∉ m := by
  constructor
  · intro h hmem
    rw [← h, Std.ExtTreeMap.mem_erase] at hmem
    exact hmem.1 (by simp)
  · intro h
    refine Std.ExtTreeMap.ext_getElem? fun t' => ?_
    rw [TmsiMap.getElem?_erase_eq]
    split
    · rename_i heq
      subst heq
      exact (Std.ExtTreeMap.getElem?_eq_none h).symm
    · rfl

/-- An attach always answers. -/
theorem onAttachRequest_answers (hmac : KeyedDigest) (b : NasBs) (rand : Rand) (imsi : Bytes) :
    (b.onAttachRequest hmac rand imsi).2 ≠ [] := by
  unfold NasBs.onAttachRequest
  dsimp only
  split
  · exact List.cons_ne_nil _ _
  · exact List.cons_ne_nil _ _

theorem nasBs_ignores_iff (hmac : KeyedDigest) (b : NasBs) (order : List Nat) (rand : Rand) (tmsi : Nat)
    (h : Incomplete pdu) :
    b.handleMessage hmac order rand tmsi pdu = (b, []) ↔
      NasBsIgnores b tmsi (NasMessage.decode pdu).msgType := by
  simp only [NasBs.handleMessage, nas_decode h, NasBsIgnores]
  split
  · rename_i htype
    simp [htype, NasBs.onAuthResponse, Aka.kResLen]
  · rename_i htype
    simp [htype, NasBs.onAuthFailure]
  · rename_i htype
    simp only [htype, ne_eq, not_true_eq_false, false_and, iff_false]
    exact fun heq => onAttachRequest_answers hmac b rand [] (congrArg Prod.snd heq)
  · rename_i htype
    simp only [htype, ne_eq, reduceCtorEq, not_false_eq_true, true_and, forall_const, Prod.mk.injEq, and_true]
    have herase : b.onDetach tmsi [] = { b with ueContexts := b.ueContexts.erase tmsi } := rfl
    rw [herase]
    constructor
    · exact fun heq => erase_eq_self.mp (congrArg NasBs.ueContexts heq)
    · exact fun hnone => by rw [erase_eq_self.mpr hnone]
  · rename_i hattach hdetach
    simp only [true_iff]
    exact ⟨hattach, fun htype => absurd htype hdetach⟩

theorem nasUe_ignores_iff (hmac : KeyedDigest) (u : Nas.NasUe) (h : Incomplete pdu) :
    u.onMessage hmac pdu = (u, []) ↔ NasUeIgnores u (NasMessage.decode pdu).msgType := by
  simp only [Nas.NasUe.onMessage, nas_decode h, NasUeIgnores]
  split
  · rename_i htype
    simp [htype, Nas.NasUe.onAuthRequest, Nas.NasUe.challengeVerdict, Aka.kRandLen]
  · rename_i htype
    simp only [htype, Nas.NasUe.onAttachAccept, Prod.mk.injEq, and_true]
    split
    · rename_i hstate
      simp [hstate]
    · rename_i hstate
      rw [not_not] at hstate
      refine ⟨fun heq => ?_, fun hne => absurd rfl (hne hstate).1⟩
      have hregistered := congrArg Nas.NasUe.state heq
      rw [hstate] at hregistered
      cases hregistered
  · rename_i htype
    simp only [htype]
    split
    · rename_i hstate
      simp [hstate]
    · rename_i hstate
      rw [not_not] at hstate
      refine ⟨fun heq => ?_, fun hne => absurd rfl (hne hstate).2⟩
      have hderegistered := congrArg Nas.NasUe.state (congrArg Prod.fst heq)
      rw [hstate] at hderegistered
      cases hderegistered
  · rename_i haccept hreject
    simp only [true_iff]
    exact fun _ => ⟨haccept, hreject⟩

/-! ### RRC -/

/-- A SETUP_REQUEST and a REESTABLISHMENT_REQUEST are always answered; identity 0 is owned by a
cell with base 0 only; SETUP_COMPLETE and RELEASE act on the C-RNTI of the caller. -/
structure RrcBsIgnores (r : RrcBs) (rnti : Nat) (type : RrcMessageType) : Prop where
  setup : type ≠ .setupRequest
  reestablishment : type ≠ .reestablishmentRequest
  resume : type = .resumeRequest → r.crntiBase ≠ 0
  complete : type = .setupComplete → ∀ ctx, r.findUe rnti = some ctx → ctx.state = .connected
  release : type = .release → ∀ ctx, r.findUe rnti = some ctx → ctx.state = .idle

structure RrcUeIgnores (r : RrcUe) (type : RrcMessageType) : Prop where
  setup : type = .setup → r.state ≠ .connecting
  release : type = .release → r.state = .idle ∧ r.assignedCrnti = 0
  resumeOk : type = .resumeOk → r.state = .connecting → r.resumeId = 0
  resumeFailure : type = .resumeFailure → r.state ≠ .connecting

/-- Writing a context changes nothing when it was the one that stood there. -/
theorem putUe_eq_self {r : RrcBs} {rnti : Nat} {ctx ctx' : BsUeContext} (h : r.findUe rnti = some ctx) :
    r.putUe rnti ctx' = r ↔ ctx' = ctx := by
  constructor
  · intro heq
    have hget := r.findUe_putUe_eq rnti rnti ctx'
    rw [heq, h, if_pos rfl] at hget
    exact (Option.some.inj hget).symm
  · rintro rfl
    have hsame : r.ueContexts.insert rnti ctx' = r.ueContexts := by
      refine Std.ExtTreeMap.ext_getElem? fun s => ?_
      have hget := r.findUe_putUe_eq rnti s ctx'
      simp only [RrcBs.findUe, RrcBs.putUe] at hget h
      rw [hget]
      split
      · rename_i heq
        rw [← heq, h]
      · rfl
    rw [RrcBs.putUe, hsame]

/-- Without an identity the request names identity 0, which a cell of base 0 would own. -/
theorem onResumeRequest_empty (r : RrcBs) (order : List Nat) (rnti : Nat) :
    r.onResumeRequest order rnti [] = (r, []) ↔ r.crntiBase ≠ 0 := by
  have howns : r.ownsResumeId 0 = true ↔ r.crntiBase = 0 := by
    simp [RrcBs.ownsResumeId]
  have hid : getU32 [] 0 = 0 := rfl
  simp only [RrcBs.onResumeRequest, hid]
  split
  · rename_i hforeign
    rw [Bool.not_eq_true', ← Bool.not_eq_true, howns] at hforeign
    exact ⟨fun _ => hforeign, fun _ => rfl⟩
  · rename_i hown
    rw [Bool.not_eq_true', Bool.not_eq_false, howns] at hown
    refine ⟨fun heq => ?_, fun hne => absurd hown hne⟩
    -- a failure or an OK goes out
    split at heq
    · cases congrArg Prod.snd heq
    · cases congrArg Prod.snd heq

theorem onReestablishmentRequest_empty (r : RrcBs) (rnti : Nat) :
    (r.onReestablishmentRequest rnti []).2 = [.send rnti (RrcBs.reply .reestablishmentFailure [])] := by
  simp only [RrcBs.onReestablishmentRequest, List.length_nil, ge_iff_le, nonpos_iff_eq_zero,
    OfNat.ofNat_ne_zero, if_false, true_or, if_true]
  split <;> rfl

/-- A RELEASE without flags sets the context idle. -/
theorem onRelease_empty (r : RrcBs) (rnti : Nat) :
    r.onRelease rnti [] = (r, []) ↔ ∀ ctx, r.findUe rnti = some ctx → ctx.state = .idle := by
  simp only [RrcBs.onRelease, List.length_nil, ge_iff_le, nonpos_iff_eq_zero, OfNat.ofNat_ne_zero,
    false_and, if_false]
  split
  · rename_i hnone
    simp [hnone]
  · rename_i ctx hfind
    simp only [Prod.mk.injEq, and_true, putUe_eq_self hfind, hfind, Option.some.injEq]
    constructor
    · rintro heq _ rfl
      exact (congrArg BsUeContext.state heq).symm
    · intro hidle
      rw [← hidle ctx rfl]

theorem onSetupComplete_eq_self (r : RrcBs) (rnti : Nat) :
    r.onSetupComplete rnti = r ↔ ∀ ctx, r.findUe rnti = some ctx → ctx.state = .connected := by
  unfold RrcBs.onSetupComplete
  split
  · rename_i hnone
    simp [hnone]
  · rename_i ctx hfind
    simp only [putUe_eq_self hfind, hfind, Option.some.injEq]
    constructor
    · rintro heq _ rfl
      exact (congrArg BsUeContext.state heq).symm
    · intro hconnected
      rw [← hconnected ctx rfl]

theorem rrcBs_ignores_iff (r : RrcBs) (order : List Nat) (rnti : Nat) (h : Incomplete pdu) :
    r.handleMessage order rnti pdu = (r, []) ↔ RrcBsIgnores r rnti (RrcMessage.decode pdu).msgType := by
  simp only [RrcBs.handleMessage, rrc_decode h]
  split
  · rename_i htype
    rw [htype]
    refine ⟨fun heq => ?_, fun hi => absurd rfl hi.setup⟩
    simp [RrcBs.onSetupRequest, RrcBs.foreignCell] at heq
  · rename_i htype
    rw [htype, Prod.mk.injEq, and_iff_left rfl, onSetupComplete_eq_self]
    exact ⟨fun hc => ⟨nofun, nofun, nofun, fun _ => hc, nofun⟩, fun hi => hi.complete rfl⟩
  · rename_i htype
    rw [htype, onRelease_empty]
    exact ⟨fun hc => ⟨nofun, nofun, nofun, nofun, fun _ => hc⟩, fun hi => hi.release rfl⟩
  · rename_i htype
    rw [htype, onResumeRequest_empty]
    exact ⟨fun hc => ⟨nofun, nofun, fun _ => hc, nofun, nofun⟩, fun hi => hi.resume rfl⟩
  · rename_i htype
    rw [htype]
    refine ⟨fun heq => ?_, fun hi => absurd rfl hi.reestablishment⟩
    have hsent := onReestablishmentRequest_empty r rnti
    rw [heq] at hsent
    cases hsent
  · rename_i hsetup hcomplete hrelease hresume hreest
    simp only [true_iff]
    exact ⟨hsetup, hreest, fun ht => absurd ht hresume, fun ht => absurd ht hcomplete,
      fun ht => absurd ht hrelease⟩

theorem rrcUe_ignores_iff (r : RrcUe) (h : Incomplete pdu) :
    r.onMessage pdu = (r, []) ↔ RrcUeIgnores r (RrcMessage.decode pdu).msgType := by
  simp only [RrcUe.onMessage, rrc_decode h]
  split
  · rename_i htype
    rw [htype, RrcUe.onSetup]
    split
    · rename_i hstate
      exact ⟨fun _ => ⟨fun _ => hstate, nofun, nofun, nofun⟩, fun _ => rfl⟩
    · rename_i hstate
      exact ⟨fun heq => (nomatch congrArg Prod.snd heq), fun hi => absurd (hi.setup rfl) hstate⟩
  · rename_i htype
    have hplain : r.onRelease [] = ({ r with assignedCrnti := 0, state := .idle }, []) := by
      simp [RrcUe.onRelease]
    rw [htype, hplain, Prod.mk.injEq, and_iff_left rfl]
    constructor
    · intro heq
      refine ⟨nofun, fun _ => ⟨?_, ?_⟩, nofun, nofun⟩
      · exact (congrArg RrcUe.state heq).symm
      · exact (congrArg RrcUe.assignedCrnti heq).symm
    · intro hi
      obtain ⟨hidle, hzero⟩ := hi.release rfl
      obtain ⟨state, assignedCrnti, resumeId, suspendedCrnti⟩ := r
      subst hidle hzero
      rfl
  · rename_i htype
    rw [htype, RrcUe.onResumeOk]
    split
    · rename_i hignored
      exact ⟨fun _ => ⟨nofun, nofun, fun _ hstate => hignored.resolve_left (not_not.mpr hstate), nofun⟩,
        fun _ => rfl⟩
    · rename_i haccepted
      rw [not_or, not_not] at haccepted
      exact ⟨fun heq => (nomatch congrArg Prod.snd heq),
        fun hi => absurd (hi.resumeOk rfl haccepted.1) haccepted.2⟩
  · rename_i htype
    rw [htype, RrcUe.onResumeFailure]
    split
    · rename_i hstate
      exact ⟨fun _ => ⟨nofun, nofun, nofun, fun _ => hstate⟩, fun _ => rfl⟩
    · rename_i hstate
      exact ⟨fun heq => (nomatch congrArg Prod.snd heq), fun hi => absurd (hi.resumeFailure rfl) hstate⟩
  · rename_i hsetup hrelease hok hfailure
    simp only [true_iff]
    exact ⟨fun ht => absurd ht hsetup, fun ht => absurd ht hrelease, fun ht => absurd ht hok,
      fun ht => absurd ht hfailure⟩

end MalformedPdu

open MalformedPdu

/-- For every incomplete PDU, proper prefixes of encodings among them, and every state of the
four entities: the PDU has no effect if and only if its type octet, or the default type of a
header that is cut, is one the entity ignores in that state. -/
theorem incomplete_pdu_ignored_iff (pdu : Bytes) :
    (∀ (octet : UInt8) (value : Bytes) (k : Nat), value.length < snModulus →
      k < (octet :: (putU16 value.length ++ value)).length →
      pdu = (octet :: (putU16 value.length ++ value)).take k → Incomplete pdu) ∧
    (Incomplete pdu →
      (∀ (hmac : KeyedDigest) (b : NasBs) (order : List Nat) (rand : Rand) (tmsi : Nat),
        b.handleMessage hmac order rand tmsi pdu = (b, []) ↔
          NasBsIgnores b tmsi (NasMessage.decode pdu).msgType) ∧
      (∀ (hmac : KeyedDigest) (u : Nas.NasUe), u.onMessage hmac pdu = (u, []) ↔
        NasUeIgnores u (NasMessage.decode pdu).msgType) ∧
      (∀ (r : RrcBs) (order : List Nat) (rnti : Nat), r.handleMessage order rnti pdu = (r, []) ↔
        RrcBsIgnores r rnti (RrcMessage.decode pdu).msgType) ∧
      ∀ r : RrcUe, r.onMessage pdu = (r, []) ↔ RrcUeIgnores r (RrcMessage.decode pdu).msgType) := by
  constructor
  · rintro octet value k hlen hk rfl
    exact incomplete_prefix hlen hk
  · intro h
    exact ⟨fun hmac b order rand tmsi => nasBs_ignores_iff hmac b order rand tmsi h,
      fun hmac u => nasUe_ignores_iff hmac u h, fun r order rnti => rrcBs_ignores_iff r order rnti h,
      fun r => rrcUe_ignores_iff r h⟩

/-- The empty PDU registers a subscriber without IMSI and starts a connection; the first three
octets of an ATTACH_ACCEPT register the UE, those of a suspend RELEASE release it. -/
theorem incomplete_pdu_acts :
    Incomplete [] ∧ Incomplete [2, 4, 0] ∧ Incomplete [4, 7, 0] ∧
    (∀ (hmac : KeyedDigest) (order : List Nat) (rand : Rand),
      (NasBs.handleMessage hmac { keys := fun _ => none } order rand 0 []).1.ueContexts.keys = [0x00010001]) ∧
    (∀ hmac : KeyedDigest,
      (Nas.NasUe.onMessage hmac { state := .registering } [2, 4, 0]).1.state = .registered) ∧
    (((RrcBs.make 1 [] 1 1).admitConnected 5).handleMessage [] 5 []).1.findUe 5 =
      some { cRnti := 5, state := .connecting } ∧
    (RrcUe.onMessage { state := .connected, assignedCrnti := 5 } [4, 7, 0]).1.state = .idle := by
  refine ⟨by decide, by decide, by decide, fun hmac order rand => ?_, fun hmac => ?_, ?_, ?_⟩
  · rfl
  · rfl
  · decide
  · decide

end AetherStack.Guarantees
