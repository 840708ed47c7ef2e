import AetherStack.Lib.Run
import AetherStack.Source.Amf

/-!
# Key material in the AMF

Three tables say what challenge is outstanding for a TMSI, and `session_keys_` has its key
before the answer has come. A failed challenge erases the three entries and not the key; a
DETACH erases the key and two of the three. `Hygienic` says that the three tables have the same
TMSIs and that no key outlives both its challenge and its registration; `Ordered` is what every
message keeps anyway.
-/
namespace AetherStack.Guarantees
open Source Lib

namespace AmfHygiene

/-- The pending tables go together, and every key is of a TMSI that is pending or registered. -/
structure Hygienic (a : Amf) : Prop where
  responses : ∀ t, t ∈ a.pendingRnti ↔ t ∈ a.pendingAuth
  rands : ∀ t, t ∈ a.pendingRand ↔ t ∈ a.pendingAuth
  keys : ∀ t, t ∈ a.sessionKeys → t ∈ a.pendingAuth ∨ t ∈ a.ueContexts

structure Ordered (a : Amf) : Prop where
  keyed : ∀ (t : Nat) (ctx : AmfUeContext), a.pendingAuth[t]? = some ctx → ctx.tmsi = t
  armed : ∀ t, t ∈ a.pendingAuth → t ∈ a.sessionKeys

/-- An UPLINK_NAS message with its TMSI and its NAS message. -/
structure Uplink (msg : CnMessage) (t : Nat) (nas : NasMessage) : Prop where
  type : msg.msgType = .uplinkNas
  length : 10 ≤ msg.value.length
  tmsi : getU32 msg.value 0 = t
  nas : Amf.uplinkMessage msg.value = nas

def Detaches (msg : CnMessage) (t : Nat) : Prop := ∃ nas, Uplink msg t nas ∧ nas.msgType = .detach

/-- An AUTH_RESPONSE that is not the expected one. -/
def Mismatches (a : Amf) (t : Nat) (nas : NasMessage) : Prop :=
  nas.msgType = .authResponse ∧ nas.value.length = Aka.kResLen ∧ a.pendingRnti.getD t [] ≠ nas.value

/-- An AUTH_FAILURE for the subscriber. -/
def Reports (imsi : Bytes) (nas : NasMessage) : Prop :=
  nas.msgType = .authFailure ∧ 2 + (nas.value.getD 1 0).toNat ≤ nas.value.length ∧
    imsi = (nas.value.drop 2).take (nas.value.getD 1 0).toNat

section
variable (hmac : KeyedDigest)

/-- It comes with an AUTS that is accepted, so that another challenge follows. -/
def Resynchronises (a : Amf) (t : Nat) (imsi : Bytes) (nas : NasMessage) : Prop :=
  nas.value.getD 0 0 = Aka.kCauseSynchFailure ∧
    2 + (nas.value.getD 1 0).toNat + Aka.kAutsLen ≤ nas.value.length ∧
    (Aka.verifyAuts hmac ((a.keys imsi).getD (Vector.replicate 32 0))
      ((nas.value.drop (2 + (nas.value.getD 1 0).toNat)).take Aka.kAutsLen)
      (a.pendingRand.getD t (List.replicate 16 0))).isSome

/-- The message ends the challenge outstanding for `t` without success. -/
def Fails (a : Amf) (msg : CnMessage) (t : Nat) : Prop :=
  ∃ nas ctx, Uplink msg t nas ∧ a.pendingAuth[t]? = some ctx ∧
    (Mismatches a t nas ∨ Reports ctx.imsi nas ∧ ¬ Resynchronises hmac a t ctx.imsi nas)

/-- The condition on a message. -/
structure Tidies (a : Amf) (msg : CnMessage) : Prop where
  detach : ∀ t, Detaches msg t → t ∉ a.pendingAuth
  failure : ∀ t, Fails hmac a msg t → t ∈ a.ueContexts

end

variable {a a' : Amf} {t : Nat} {msg : CnMessage} {nas : NasMessage}

theorem Uplink.unique {t' : Nat} {nas' : NasMessage} (h : Uplink msg t nas) (h' : Uplink msg t' nas') :
    t' = t ∧ nas' = nas :=
  ⟨h'.tmsi.symm.trans h.tmsi, h'.nas.symm.trans h.nas⟩

/-! ### The writers -/

theorem mem_erase_iff {β : Type} {m : TmsiMap β} {t t' : Nat} : t' ∈ m.erase t ↔ t' ≠ t ∧ t' ∈ m := by
  rw [Std.ExtTreeMap.mem_erase, ne_eq, compare_eq_iff_eq, eq_comm]

theorem mem_insert_iff {β : Type} {m : TmsiMap β} {t t' : Nat} {v : β} :
    t' ∈ m.insert t v ↔ t' = t ∨ t' ∈ m := by
  rw [Std.ExtTreeMap.mem_insert, compare_eq_iff_eq, eq_comm]

/-- A message that leaves the tables with key material alone and registers at most. -/
theorem Hygienic.of_tables (h : Hygienic a) (hauth : a'.pendingAuth = a.pendingAuth)
    (hrnti : a'.pendingRnti = a.pendingRnti) (hrand : a'.pendingRand = a.pendingRand)
    (hkeys : a'.sessionKeys = a.sessionKeys) (hue : ∀ t, t ∈ a.ueContexts → t ∈ a'.ueContexts) :
    Hygienic a' := by
  refine ⟨fun t => ?_, fun t => ?_, fun t ht => ?_⟩
  · rw [hrnti, hauth]
    exact h.responses t
  · rw [hrand, hauth]
    exact h.rands t
  · rw [hkeys] at ht
    rw [hauth]
    exact (h.keys t ht).imp_right (hue t)

theorem Ordered.of_tables (h : Ordered a) (hauth : a'.pendingAuth = a.pendingAuth)
    (hkeys : a'.sessionKeys = a.sessionKeys) : Ordered a' := by
  refine ⟨fun t ctx hctx => ?_, fun t ht => ?_⟩
  · exact h.keyed t ctx (hauth ▸ hctx)
  · rw [hkeys]
    exact h.armed t (hauth ▸ ht)

/-- All four tables are written under the one TMSI. -/
theorem issueChallenge_hygienic (hmac : KeyedDigest) (rand : Rand) (k : Key256) (ctx : AmfUeContext)
    (hresponses : ∀ t, t ∈ a.pendingRnti ↔ t ∈ a.pendingAuth)
    (hrands : ∀ t, t ∈ a.pendingRand ↔ t ∈ a.pendingAuth)
    (hkeys : ∀ t, t ≠ ctx.tmsi → t ∈ a.sessionKeys → t ∈ a.pendingAuth ∨ t ∈ a.ueContexts) :
    Hygienic (a.issueChallenge hmac rand k ctx).1 := by
  refine ⟨fun t => ?_, fun t => ?_, fun t ht => ?_⟩
  · exact mem_insert_iff.trans ((or_congr_right (hresponses t)).trans mem_insert_iff.symm)
  · exact mem_insert_iff.trans ((or_congr_right (hrands t)).trans mem_insert_iff.symm)
  · by_cases heq : t = ctx.tmsi
    · exact .inl (mem_insert_iff.mpr (.inl heq))
    · have hold := (mem_insert_iff.mp ht).resolve_left heq
      exact (hkeys t heq hold).imp_left fun hp => mem_insert_iff.mpr (.inr hp)

theorem issueChallenge_ordered (hmac : KeyedDigest) (h : Ordered a) (rand : Rand) (k : Key256)
    (ctx : AmfUeContext) : Ordered (a.issueChallenge hmac rand k ctx).1 := by
  refine ⟨fun t ctx' hctx => ?_, fun t ht => ?_⟩
  · simp only [Amf.issueChallenge, TmsiMap.getElem?_insert_eq] at hctx
    split at hctx
    · rename_i heq
      obtain rfl := Option.some.inj hctx
      exact heq
    · exact h.keyed t ctx' hctx
  · rcases mem_insert_iff.mp ht with rfl | hold
    · exact mem_insert_iff.mpr (.inl rfl)
    · exact mem_insert_iff.mpr (.inr (h.armed t hold))

theorem dropChallenge_ordered (h : Ordered a) (t : Nat) : Ordered (a.dropChallenge t) := by
  refine ⟨fun t' ctx hctx => ?_, fun t' ht' => h.armed t' (mem_erase_iff.mp ht').2⟩
  simp only [Amf.dropChallenge, TmsiMap.getElem?_erase_eq] at hctx
  split at hctx
  · cases hctx
  · exact h.keyed t' ctx hctx

/-- A dropped challenge leaves its key, which then has to be of a registered TMSI. -/
theorem dropChallenge_hygienic (hordered : Ordered a) (h : Hygienic a) (hpending : t ∈ a.pendingAuth) :
    Hygienic (a.dropChallenge t) ↔ t ∈ a.ueContexts := by
  constructor
  · intro hafter
    refine (hafter.keys t (hordered.armed t hpending)).resolve_left fun hp => ?_
    exact (mem_erase_iff.mp hp).1 rfl
  · intro hregistered
    refine ⟨fun t' => ?_, fun t' => ?_, fun t' ht' => ?_⟩
    · exact mem_erase_iff.trans ((and_congr_right fun _ => h.responses t').trans mem_erase_iff.symm)
    · exact mem_erase_iff.trans ((and_congr_right fun _ => h.rands t').trans mem_erase_iff.symm)
    · by_cases heq : t' = t
      · exact .inr (heq ▸ hregistered)
      · exact (h.keys t' ht').imp_left fun hp => mem_erase_iff.mpr ⟨heq, hp⟩

/-- A DETACH leaves the RAND of an outstanding challenge. -/
theorem releaseUe_hygienic (h : Hygienic a) : Hygienic (a.releaseUe t) ↔ t ∉ a.pendingAuth := by
  constructor
  · intro hafter hpending
    have hrand : t ∈ (a.releaseUe t).pendingRand := (h.rands t).mpr hpending
    exact (mem_erase_iff.mp ((hafter.rands t).mp hrand)).1 rfl
  · intro hnone
    refine ⟨fun t' => ?_, fun t' => ?_, fun t' ht' => ?_⟩
    · exact mem_erase_iff.trans ((and_congr_right fun _ => h.responses t').trans mem_erase_iff.symm)
    · refine (h.rands t').trans ⟨fun hp => mem_erase_iff.mpr ⟨?_, hp⟩, fun hp => (mem_erase_iff.mp hp).2⟩
      rintro rfl
      exact hnone hp
    · obtain ⟨hne, hkey⟩ := mem_erase_iff.mp ht'
      exact (h.keys t' hkey).imp (fun hp => mem_erase_iff.mpr ⟨hne, hp⟩) fun hr => mem_erase_iff.mpr ⟨hne, hr⟩

theorem releaseUe_ordered (h : Ordered a) (t : Nat) : Ordered (a.releaseUe t) := by
  refine ⟨fun t' ctx hctx => ?_, fun t' ht' => ?_⟩
  · simp only [Amf.releaseUe, TmsiMap.getElem?_erase_eq] at hctx
    split at hctx
    · cases hctx
    · exact h.keyed t' ctx hctx
  · obtain ⟨hne, hp⟩ := mem_erase_iff.mp ht'
    exact mem_erase_iff.mpr ⟨hne, h.armed t' hp⟩

/-! ### One message -/

section
variable (hmac : KeyedDigest)

/-- Step lemma: a challenge stands under its own TMSI and has a session key. -/
theorem handle_ordered (h : Ordered a) (rand : Rand) (msg : CnMessage) :
    Ordered (a.handle hmac rand msg).1 := by
  have hhandled := a.handle_handled hmac rand msg
  revert hhandled
  generalize (a.handle hmac rand msg).1 = a'
  generalize (a.handle hmac rand msg).2 = out
  intro hhandled
  cases hhandled with
  | kept => exact h.of_tables rfl rfl
  | challenged =>
    refine issueChallenge_ordered hmac ?_ rand _ _
    exact h.of_tables rfl rfl
  | openAccess => exact h.of_tables rfl rfl
  | resynchronised sqn tmsi =>
    refine issueChallenge_ordered hmac ?_ rand _ _
    exact (dropChallenge_ordered h tmsi).of_tables rfl rfl
  | refused tmsi => exact (dropChallenge_ordered h tmsi).of_tables rfl rfl
  | dropped tmsi => exact dropChallenge_ordered h tmsi
  | accepted => exact (dropChallenge_ordered h _).of_tables rfl rfl
  | released tmsi => exact releaseUe_ordered h tmsi
  | moved => exact h.of_tables rfl rfl

/-- Only an UPLINK_NAS can leave something behind. -/
theorem tidies_of_not_uplink (hne : ¬ ∃ nas, Uplink msg (getU32 msg.value 0) nas) : Tidies hmac a msg := by
  have hnone : ∀ t nas, ¬ Uplink msg t nas := by
    rintro t nas hu
    obtain rfl := hu.tmsi
    exact hne ⟨nas, hu⟩
  refine ⟨?_, ?_⟩
  · rintro t ⟨nas, hu, -⟩
    exact absurd hu (hnone t nas)
  · rintro t ⟨nas, ctx, hu, -⟩
    exact absurd hu (hnone t nas)

/-- The condition, spelt out for the NAS message that came. -/
theorem tidies_uplink (hu : Uplink msg t nas) :
    Tidies hmac a msg ↔ (nas.msgType = .detach → t ∉ a.pendingAuth) ∧
      ∀ ctx, a.pendingAuth[t]? = some ctx →
        Mismatches a t nas ∨ Reports ctx.imsi nas ∧ ¬ Resynchronises hmac a t ctx.imsi nas →
        t ∈ a.ueContexts := by
  constructor
  · intro h
    exact ⟨fun htype => h.detach t ⟨nas, hu, htype⟩, fun ctx hctx hfails => h.failure t ⟨nas, ctx, hu, hctx, hfails⟩⟩
  · rintro ⟨hdetach, hfailure⟩
    refine ⟨?_, ?_⟩
    · rintro t' ⟨nas', hu', htype⟩
      obtain ⟨rfl, rfl⟩ := hu.unique hu'
      exact hdetach htype
    · rintro t' ⟨nas', ctx, hu', hctx, hfails⟩
      obtain ⟨rfl, rfl⟩ := hu.unique hu'
      exact hfailure ctx hctx hfails

theorem mem_of_pending {ctx : AmfUeContext} (h : a.pendingAuth[t]? = some ctx) : t ∈ a.pendingAuth :=
  Std.ExtTreeMap.mem_iff_isSome_getElem?.mpr (by rw [h]; rfl)

/-- The answered challenge goes, its key is of a registered TMSI now. -/
theorem accepted_hygienic (hordered : Ordered a) (h : Hygienic a) {ctx ctx' : AmfUeContext}
    (hctx : a.pendingAuth[t]? = some ctx) : Hygienic { a.dropChallenge t with
      ueContexts := (a.dropChallenge t).ueContexts.insert ctx.tmsi ctx' } := by
  obtain rfl := hordered.keyed t ctx hctx
  refine ⟨fun t' => ?_, fun t' => ?_, fun t' ht' => ?_⟩
  · exact mem_erase_iff.trans ((and_congr_right fun _ => h.responses t').trans mem_erase_iff.symm)
  · exact mem_erase_iff.trans ((and_congr_right fun _ => h.rands t').trans mem_erase_iff.symm)
  · by_cases heq : t' = ctx.tmsi
    · exact .inr (mem_insert_iff.mpr (.inl heq))
    · exact (h.keys t' ht').imp (fun hp => mem_erase_iff.mpr ⟨heq, hp⟩) fun hr => mem_insert_iff.mpr (.inr hr)

/-- A wrong answer drops the challenge but not its key, which is wanted only where the TMSI is
registered. -/
theorem onAuthResponse_hygienic (hordered : Ordered a) (h : Hygienic a) (rnti : Nat)
    (htype : nas.msgType = .authResponse) :
    Hygienic (if nas.value.length = Aka.kResLen then a.onAuthResponse t rnti nas.value else (a, [])).1 ↔
      ∀ ctx, a.pendingAuth[t]? = some ctx →
        Mismatches a t nas ∨ Reports ctx.imsi nas ∧ ¬ Resynchronises hmac a t ctx.imsi nas →
        t ∈ a.ueContexts := by
  have hnoreport : ∀ imsi, ¬ Reports imsi nas := by
    rintro imsi ⟨hfailure, -⟩
    rw [htype] at hfailure
    cases hfailure
  split
  · rename_i hlen
    unfold Amf.onAuthResponse
    split
    · rename_i hnone
      exact ⟨fun _ ctx hctx => absurd (hnone.symm.trans hctx) nofun, fun _ => h⟩
    · rename_i ctx hctx
      split
      · rename_i hmatch
        refine ⟨fun _ ctx' _ hfails => ?_, fun _ => accepted_hygienic hordered h hctx⟩
        rcases hfails with ⟨-, -, hwrong⟩ | ⟨hreports, -⟩
        · exact absurd hmatch hwrong
        · exact absurd hreports (hnoreport _)
      · rename_i hwrong
        rw [dropChallenge_hygienic hordered h (mem_of_pending hctx)]
        exact ⟨fun hr _ _ _ => hr, fun hall => hall ctx hctx (.inl ⟨htype, hlen, hwrong⟩)⟩
  · rename_i hlen
    refine ⟨fun _ ctx _ hfails => ?_, fun _ => h⟩
    rcases hfails with ⟨-, hlen', -⟩ | ⟨hreports, -⟩
    · exact absurd hlen' hlen
    · exact absurd hreports (hnoreport _)

theorem onAuthFailure_hygienic (hordered : Ordered a) (h : Hygienic a) (rand : Rand) (rnti : Nat)
    (htype : nas.msgType = .authFailure) :
    Hygienic (a.onAuthFailure hmac rand t rnti nas.value).1 ↔
      ∀ ctx, a.pendingAuth[t]? = some ctx →
        Mismatches a t nas ∨ Reports ctx.imsi nas ∧ ¬ Resynchronises hmac a t ctx.imsi nas →
        t ∈ a.ueContexts := by
  have hnomismatch : ¬ Mismatches a t nas := by
    rintro ⟨hresponse, -⟩
    rw [htype] at hresponse
    cases hresponse
  dsimp only [Amf.onAuthFailure]
  split
  · rename_i hshort
    refine ⟨fun _ ctx _ hfails => ?_, fun _ => h⟩
    obtain ⟨-, hlen, -⟩ := (hfails.resolve_left hnomismatch).1
    omega
  · rename_i hlen
    push Not at hlen
    split
    · rename_i hnone
      exact ⟨fun _ ctx hctx => absurd (hnone.symm.trans hctx) nofun, fun _ => h⟩
    · rename_i ctx hctx
      have honly : ∀ ctx', a.pendingAuth[t]? = some ctx' → ctx' = ctx :=
        fun ctx' hctx' => Option.some.inj (hctx'.symm.trans hctx)
      split
      · rename_i hother
        refine ⟨fun _ ctx' hctx' hfails => ?_, fun _ => h⟩
        obtain ⟨-, -, himsi⟩ := (hfails.resolve_left hnomismatch).1
        rw [honly ctx' hctx'] at himsi
        exact absurd himsi hother
      · rename_i himsi
        rw [not_not] at himsi
        have hreports : Reports ctx.imsi nas := ⟨htype, hlen.2, himsi⟩
        have hdrop : Hygienic (a.dropChallenge t) ↔ t ∈ a.ueContexts :=
          dropChallenge_hygienic hordered h (mem_of_pending hctx)
        have hfail : ¬ Resynchronises hmac a t ctx.imsi nas → (Hygienic (a.dropChallenge t) ↔
            ∀ ctx, a.pendingAuth[t]? = some ctx →
              Mismatches a t nas ∨ Reports ctx.imsi nas ∧ ¬ Resynchronises hmac a t ctx.imsi nas →
              t ∈ a.ueContexts) := fun hno =>
          hdrop.trans ⟨fun hr _ _ _ => hr, fun hall => hall ctx hctx (.inr ⟨hreports, hno⟩)⟩
        split
        · rename_i hsynch
          rw [← himsi]
          split
          · rename_i sqnMs hverify
            refine ⟨fun _ ctx' hctx' hfails => ?_, fun _ => ?_⟩
            · refine absurd ?_ (hfails.resolve_left hnomismatch).2
              rw [honly ctx' hctx']
              exact ⟨hsynch.1, hsynch.2, Option.isSome_iff_exists.mpr ⟨sqnMs, hverify⟩⟩
            · -- the tables under `t` are written again before the call ends
              refine issueChallenge_hygienic hmac rand _ _ (fun t' => ?_) (fun t' => ?_) fun t' hne ht' => ?_
              · exact mem_erase_iff.trans ((and_congr_right fun _ => h.responses t').trans mem_erase_iff.symm)
              · exact mem_erase_iff.trans ((and_congr_right fun _ => h.rands t').trans mem_erase_iff.symm)
              · exact (h.keys t' ht').imp_left fun hp => mem_erase_iff.mpr ⟨hne, hp⟩
          · rename_i hverify
            have hno : ¬ Resynchronises hmac a t ctx.imsi nas := by
              rintro ⟨-, -, hsome⟩
              obtain ⟨sqnMs, hsqn⟩ := Option.isSome_iff_exists.mp hsome
              exact nomatch hverify.symm.trans hsqn
            have hsame : Hygienic ((a.indexKey ctx.imsi).dropChallenge t) ↔ Hygienic (a.dropChallenge t) :=
              ⟨fun hh => ⟨hh.responses, hh.rands, hh.keys⟩, fun hh => ⟨hh.responses, hh.rands, hh.keys⟩⟩
            exact hsame.trans (hfail hno)
        · rename_i hplain
          exact hfail fun hr => hplain ⟨hr.1, hr.2.1⟩

theorem onUplinkNas_hygienic (hordered : Ordered a) (h : Hygienic a) (rand : Rand)
    (htype : msg.msgType = .uplinkNas) :
    Hygienic (a.onUplinkNas hmac rand msg.value).1 ↔ Tidies hmac a msg := by
  dsimp only [Amf.onUplinkNas]
  split
  · rename_i hshort
    refine ⟨fun _ => tidies_of_not_uplink hmac ?_, fun _ => h⟩
    rintro ⟨nas, hu⟩
    exact absurd hu.length (not_le.mpr hshort)
  · rename_i hlen
    have hu : Uplink msg (getU32 msg.value 0) (Amf.uplinkMessage msg.value) :=
      ⟨htype, not_lt.mp hlen, rfl, rfl⟩
    rw [tidies_uplink hmac hu]
    have hdecode : NasMessage.decode (msg.value.drop 8) = Amf.uplinkMessage msg.value := rfl
    rw [hdecode]
    generalize Amf.uplinkMessage msg.value = nas at hu ⊢
    have hquiet : nas.msgType ≠ .authFailure → nas.msgType ≠ .authResponse →
        ∀ ctx, ¬ (Mismatches a (getU32 msg.value 0) nas ∨ Reports ctx nas ∧
          ¬ Resynchronises hmac a (getU32 msg.value 0) ctx nas) := by
      rintro hf hr ctx (⟨hm, -⟩ | ⟨⟨hm, -⟩, -⟩)
      · exact hr hm
      · exact hf hm
    split
    · rename_i hnas
      rw [onAuthFailure_hygienic hmac hordered h rand _ hnas]
      simp [hnas]
    · rename_i hnas
      rw [onAuthResponse_hygienic hmac hordered h _ hnas]
      simp [hnas]
    · rename_i hnas
      rw [releaseUe_hygienic h]
      refine ⟨fun hnone => ⟨fun _ => hnone, fun ctx _ hfails => ?_⟩, fun hall => hall.1 hnas⟩
      exact absurd hfails (hquiet (by rw [hnas]; nofun) (by rw [hnas]; nofun) ctx.imsi)
    · rename_i hf hr hd
      refine ⟨fun _ => ⟨fun hdetach => absurd hdetach hd, fun ctx _ hfails => ?_⟩, fun _ => h⟩
      exact absurd hfails (hquiet hf hr ctx.imsi)

/-- Step lemma, in both directions: a message keeps the tables clean exactly when it `Tidies`. -/
theorem handle_hygienic (hordered : Ordered a) (h : Hygienic a) (rand : Rand) (msg : CnMessage) :
    Hygienic (a.handle hmac rand msg).1 ↔ Tidies hmac a msg := by
  have hother : msg.msgType ≠ .uplinkNas → Tidies hmac a msg := by
    intro hne
    refine tidies_of_not_uplink hmac ?_
    rintro ⟨nas, hu⟩
    exact hne hu.type
  have hkept : ∀ a', Hygienic a' → msg.msgType ≠ .uplinkNas → (Hygienic a' ↔ Tidies hmac a msg) :=
    fun _ ha' hne => ⟨fun _ => hother hne, fun _ => ha'⟩
  unfold Amf.handle
  split
  · rename_i htype
    exact hkept _ h (by rw [htype]; nofun)
  · rename_i htype
    refine hkept _ ?_ (by rw [htype]; nofun)
    dsimp only [Amf.onInitialUeMsg]
    split
    · exact h
    · split
      · exact h
      · split
        · exact issueChallenge_hygienic hmac rand _ _ h.responses h.rands fun t _ => h.keys t
        · exact h.of_tables rfl rfl rfl rfl fun t ht => mem_insert_iff.mpr (.inr ht)
  · rename_i htype
    exact onUplinkNas_hygienic hmac hordered h rand htype
  · rename_i htype
    refine hkept _ ?_ (by rw [htype]; nofun)
    split
    · exact h
    · exact h.of_tables rfl rfl rfl rfl fun _ ht => ht
  · rename_i htype
    refine hkept _ ?_ (by rw [htype]; nofun)
    dsimp only [Amf.onHoNotify]
    split
    · exact h
    · refine h.of_tables rfl rfl rfl rfl fun t ht => ?_
      dsimp only
      split
      · exact mem_insert_iff.mpr (.inr ht)
      · exact ht
  · rename_i hngSetup hinitial huplink hrequired hnotify
    exact hkept _ h huplink

end

end AmfHygiene

open AmfHygiene

/-- Along a run of messages, every state of the AMF is hygienic if and only if no DETACH comes
for a TMSI with a challenge outstanding and every challenge that fails is one of a registered
TMSI. -/
theorem amf_hygienic_iff (hmac : KeyedDigest) (keys : Bytes → Option Key256)
    (messages : List (Rand × CnMessage)) :
    Always (fun a m => some (a.handle hmac m.1 m.2).1) Hygienic { keys := keys } messages ↔
      StepsMeet (fun a m => some (a.handle hmac m.1 m.2).1) (fun a m => Tidies hmac a m.2)
        { keys := keys } messages := by
  have hordered : Ordered { keys := keys } := by
    refine ⟨fun t ctx hctx => ?_, fun t ht => ?_⟩
    · cases hctx
    · simp at ht
  have hinit : Hygienic { keys := keys } := by
    refine ⟨fun t => ?_, fun t => ?_, fun t ht => ?_⟩
    · simp
    · simp
    · simp at ht
  exact always_iff_meets Ordered (fun a m h => handle_ordered hmac h m.1 m.2)
    (fun a m h h' => handle_hygienic hmac h h' m.1 m.2) hordered hinit messages

namespace AmfHygiene

def home : Amf := { keys := fun imsi => if imsi = [7] then some (Vector.replicate 32 1) else none }

/-- The subscriber attaches under C-RNTI 1 and is challenged. -/
def attach : CnMessage :=
  ⟨.initialUeMsg, putU16 1 ++ NasMessage.encode { msgType := .attachRequest, value := [7] }⟩

/-- A NAS message of the subscriber under the TMSI it was given. -/
def uplink (m : NasMessage) : CnMessage :=
  ⟨.uplinkNas, putU32 0x00010001 ++ putU16 1 ++ putU16 m.encode.length ++ m.encode⟩

def runs (messages : List CnMessage) : Amf :=
  messages.foldl (fun a m => (a.handle (fun _ _ => Vector.replicate 32 0) (Vector.replicate 16 0) m).1) home

end AmfHygiene

/-- A DETACH leaves the RAND of the challenge, a wrong response and a MAC failure its key. -/
theorem amf_leaves_key_material :
    (runs [attach, uplink { msgType := .detach }]).pendingRand.keys = [0x00010001] ∧
    (runs [attach, uplink { msgType := .detach }]).pendingAuth.keys = [] ∧
    (runs [attach, uplink { msgType := .authResponse, value := List.replicate 16 1 }]).sessionKeys.keys =
      [0x00010001] ∧
    (runs [attach, uplink { msgType := .authFailure, value := [20, 1, 7] }]).sessionKeys.keys =
      [0x00010001] ∧
    ∀ m ∈ [attach, uplink { msgType := .authResponse, value := List.replicate 16 1 },
        uplink { msgType := .authFailure, value := [20, 1, 7] }],
      (runs [attach, m]).ueContexts.keys = [] ∧ (m ≠ attach → (runs [attach, m]).pendingAuth.keys = []) := by
  decide

end AetherStack.Guarantees
