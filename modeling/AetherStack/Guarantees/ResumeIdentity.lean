import AetherStack.Lib.Run
import AetherStack.Source.RrcBs

/-!
# The identities of suspended contexts

A suspension issues `(c_rnti << 16) | seq` and the sequence number, 32 bits wide, counts every
suspension of the cell. From the 65536th on its high half runs into the C-RNTI. `Identified`
says of a state that every suspended context still has its own C-RNTI there, which keeps the
identities apart; a call keeps it exactly when the identity it issues, if it does, is
`Issuable`.
-/
namespace AetherStack.Guarantees
open Source Source.Rrc Lib

/-- The calls of an `RrcBs`; `order` is the order its contexts are searched in. -/
inductive RrcBsCall where
  | message (order : List Nat) (rnti : UInt16) (pdu : Bytes)
  | suspendContext (rnti : UInt16)
  | reactivateContext (rnti : UInt16)
  | admitConnected (crnti : UInt16)
  | releaseContext (rnti : UInt16)

namespace ResumeIdentity

def call (r : RrcBs) : RrcBsCall → RrcBs
  | .message order rnti pdu => (r.handleMessage order rnti.toNat pdu).1
  | .suspendContext rnti => (r.suspendContext rnti.toNat).1
  | .reactivateContext rnti => r.reactivateContext rnti.toNat
  | .admitConnected crnti => r.admitConnected crnti.toNat
  | .releaseContext rnti => r.releaseContext rnti.toNat

/-- The UE asks to be suspended. -/
def asksToSuspend (pdu : Bytes) : Bool :=
  let msg := RrcMessage.decode pdu
  msg.msgType = .release ∧ 3 ≤ msg.value.length ∧ (msg.value.getD 2 0 &&& 2) ≠ 0

/-- A call that suspends a context, and its C-RNTI. -/
inductive Suspends (r : RrcBs) : RrcBsCall → Nat → Prop
  | asked {order : List Nat} {rnti : UInt16} {pdu : Bytes} :
    asksToSuspend pdu = true → r.isUeConnected rnti.toNat = true →
    Suspends r (.message order rnti pdu) rnti.toNat
  | quiet {rnti : UInt16} :
    r.isUeConnected rnti.toNat = true → Suspends r (.suspendContext rnti) rnti.toNat

/-- The next identity is one for `rnti`: the sequence number stays out of the C-RNTI, which is
in the range of the cell. -/
structure Issuable (r : RrcBs) (rnti : Nat) : Prop where
  room : rnti ||| r.nextResumeSeq.toNat >>> 16 = rnti
  owned : r.crntiBase ≤ rnti ∧ rnti < r.crntiBase + 0x2000
  nonzero : rnti ≠ 0 ∨ r.nextResumeSeq ≠ 0

def IssuesWell (r : RrcBs) (c : RrcBsCall) : Prop := ∀ rnti, Suspends r c rnti → Issuable r rnti

def Suspended (r : RrcBs) (rnti : Nat) (ctx : BsUeContext) : Prop :=
  r.findUe rnti = some ctx ∧ ctx.state = .inactive

/-- The identity of a suspended context. -/
structure OwnIdentity (r : RrcBs) (rnti resumeId : Nat) : Prop where
  nonzero : resumeId ≠ 0
  issuer : resumeId >>> 16 = rnti
  owned : r.ownsResumeId resumeId = true

def Identified (r : RrcBs) : Prop :=
  ∀ rnti ctx, Suspended r rnti ctx → OwnIdentity r rnti ctx.resumeId

variable {r r' : RrcBs} {rnti : Nat} {ctx : BsUeContext}

/-! ### One call -/

/-- Every suspended context was there before. -/
def Shrinks (r r' : RrcBs) : Prop :=
  r'.crntiBase = r.crntiBase ∧ ∀ rnti ctx, Suspended r' rnti ctx → Suspended r rnti ctx

/-- A write of a context that is not suspended. -/
theorem shrinks_putUe (hbase : r'.crntiBase = r.crntiBase)
    (hfind : ∀ s, r'.findUe s = r.findUe s ∨ r'.findUe s = none) (key : Nat)
    (hstate : ctx.state ≠ .inactive) : Shrinks r (r'.putUe key ctx) := by
  refine ⟨hbase, fun s ctx' h => ?_⟩
  obtain ⟨hget, hinactive⟩ := h
  rw [RrcBs.findUe_putUe_eq] at hget
  split at hget
  · obtain rfl := Option.some.inj hget
    exact absurd hinactive hstate
  · rcases hfind s with heq | hnone
    · exact ⟨heq ▸ hget, hinactive⟩
    · rw [hnone] at hget
      cases hget

theorem shrinks_migrate (oldRnti key : Nat) (ok : RrcMessageType) (hstate : ctx.state ≠ .inactive) :
    Shrinks r (r.migrate oldRnti key ctx ok).1 := by
  refine shrinks_putUe ?_ (fun s => ?_) _ hstate
  · unfold RrcBs.assign
    split <;> rfl
  · rw [RrcBs.findUe_releaseContext_eq, RrcBs.findUe_assign]
    split
    · exact .inr rfl
    · exact .inl rfl

/-- What suspends is a RELEASE; every other message leaves suspended contexts or ends them. -/
theorem shrinks_handled {msg : RrcMessage} {outputs : List RrcBsOutput}
    (h : RrcBs.Handled r rnti msg r' outputs) (hplain : msg.msgType ≠ .release) : Shrinks r r' := by
  have hassign : ∀ s, (r.assign rnti).1.findUe s = r.findUe s := r.findUe_assign rnti
  cases h with
  | ignored => exact ⟨rfl, fun _ _ h => h⟩
  | refused => exact ⟨rfl, fun _ _ h => h⟩
  | setup =>
    refine shrinks_putUe ?_ (fun s => .inl (hassign s)) _ nofun
    unfold RrcBs.assign
    split <;> rfl
  | completed => exact shrinks_putUe rfl (fun _ => .inl rfl) _ nofun
  | released htype => exact absurd htype hplain
  | suspended htype => exact absurd htype hplain
  | resumed => exact shrinks_migrate _ _ _ nofun
  | reestablished _ _ hstate => exact shrinks_migrate _ _ _ (by rw [hstate]; nofun)

/-- A suspension writes one identity, and nothing else into a suspended context. -/
structure IssuedTo (r : RrcBs) (rnti : Nat) (r' : RrcBs) : Prop where
  base : r'.crntiBase = r.crntiBase
  issued : ∃ ctx, Suspended r' rnti ctx ∧ ctx.resumeId = RrcBs.resumeIdentity rnti r.nextResumeSeq
  others : ∀ s ctx, s ≠ rnti → Suspended r' s ctx → Suspended r s ctx

/-- A suspension issues the identity at its own C-RNTI. -/
theorem suspendContext_issued (h : r.isUeConnected rnti = true) :
    IssuedTo r rnti (r.suspendContext rnti).1 := by
  obtain ⟨ctx, hfind, hstate⟩ := RrcBs.isUeConnected_iff.mp h
  have hcall : (r.suspendContext rnti).1 = { r.putUe rnti { ctx with
      state := .inactive, resumeId := RrcBs.resumeIdentity rnti r.nextResumeSeq } with
        nextResumeSeq := r.nextResumeSeq + 1 } := by
    simp [RrcBs.suspendContext, hfind, hstate]
  have hget : ∀ s, (r.suspendContext rnti).1.findUe s = if rnti = s then some { ctx with
      state := .inactive, resumeId := RrcBs.resumeIdentity rnti r.nextResumeSeq } else r.findUe s := by
    intro s
    rw [hcall]
    exact r.findUe_putUe_eq rnti s _
  refine ⟨by rw [hcall]; rfl, ⟨_, ⟨(hget rnti).trans (if_pos rfl), rfl⟩, rfl⟩, fun s ctx' hne h => ?_⟩
  have hs := h.1
  rw [hget, if_neg hne.symm] at hs
  exact ⟨hs, h.2⟩

/-- A call that does not find its UE connected suspends nobody. -/
theorem suspendContext_shrinks (h : ¬ r.isUeConnected rnti = true) :
    Shrinks r (r.suspendContext rnti).1 := by
  unfold RrcBs.suspendContext
  split
  · exact ⟨rfl, fun _ _ h => h⟩
  · rename_i ctx hfind
    split
    · exact ⟨rfl, fun _ _ h => h⟩
    · rename_i hstate
      exact absurd (RrcBs.isUeConnected_iff.mpr ⟨ctx, hfind, not_not.mp hstate⟩) h

theorem reactivateContext_shrinks : Shrinks r (r.reactivateContext rnti) := by
  unfold RrcBs.reactivateContext
  split
  · exact ⟨rfl, fun _ _ h => h⟩
  · split
    · exact ⟨rfl, fun _ _ h => h⟩
    · exact shrinks_putUe rfl (fun _ => .inl rfl) _ nofun

theorem releaseContext_shrinks : Shrinks r (r.releaseContext rnti) := by
  refine ⟨rfl, fun s ctx h => ?_⟩
  obtain ⟨hget, hstate⟩ := h
  rw [RrcBs.findUe_releaseContext_eq] at hget
  split at hget
  · cases hget
  · exact ⟨hget, hstate⟩

/-- A RELEASE without the flag ends a context, with it asks for a suspension. -/
theorem handleMessage_release (r : RrcBs) (rnti : Nat) {pdu : Bytes} (order : List Nat)
    (htype : (RrcMessage.decode pdu).msgType = .release) :
    if asksToSuspend pdu then (r.handleMessage order rnti pdu).1 = (r.suspendContext rnti).1
    else Shrinks r (r.handleMessage order rnti pdu).1 := by
  simp only [RrcBs.handleMessage, htype, RrcBs.onRelease, asksToSuspend, ge_iff_le, true_and,
    decide_eq_true_eq]
  split
  · rfl
  · split
    · exact ⟨rfl, fun _ _ h => h⟩
    · exact shrinks_putUe rfl (fun _ => .inl rfl) _ nofun

/-- Every call suspends one UE or none. -/
theorem call_suspends (r : RrcBs) (c : RrcBsCall) :
    (Shrinks r (call r c) ∧ ∀ rnti, ¬ Suspends r c rnti) ∨
      ∃ rnti, (∀ s, Suspends r c s ↔ s = rnti) ∧ rnti < snModulus ∧ IssuedTo r rnti (call r c) := by
  cases c with
  | message order rnti pdu =>
    by_cases htype : (RrcMessage.decode pdu).msgType = .release
    · have hrelease := handleMessage_release r rnti.toNat order htype
      by_cases hasks : asksToSuspend pdu = true
      · rw [if_pos hasks] at hrelease
        by_cases hconnected : r.isUeConnected rnti.toNat = true
        · refine .inr ⟨rnti.toNat, fun s => ⟨?_, ?_⟩, rnti.toNat_lt, ?_⟩
          · rintro ⟨-, -⟩
            rfl
          · rintro rfl
            exact .asked hasks hconnected
          · rw [call, hrelease]
            exact suspendContext_issued hconnected
        · refine .inl ⟨?_, ?_⟩
          · rw [call, hrelease]
            exact suspendContext_shrinks hconnected
          · rintro s ⟨-, hc⟩
            exact hconnected hc
      · rw [if_neg hasks] at hrelease
        refine .inl ⟨hrelease, ?_⟩
        rintro s ⟨ha, -⟩
        exact hasks ha
    · refine .inl ⟨shrinks_handled (r.handleMessage_handled order rnti.toNat pdu) htype, ?_⟩
      rintro s ⟨hasks, -⟩
      exact htype (of_decide_eq_true hasks).1
  | suspendContext rnti =>
    by_cases hconnected : r.isUeConnected rnti.toNat = true
    · refine .inr ⟨rnti.toNat, fun s => ⟨?_, ?_⟩, rnti.toNat_lt, suspendContext_issued hconnected⟩
      · rintro ⟨-⟩
        rfl
      · rintro rfl
        exact .quiet hconnected
    · refine .inl ⟨suspendContext_shrinks hconnected, ?_⟩
      intro s hs
      cases hs with
      | quiet hc => exact hconnected hc
  | reactivateContext => exact .inl ⟨reactivateContext_shrinks, nofun⟩
  | admitConnected => exact .inl ⟨shrinks_putUe rfl (fun _ => .inl rfl) _ nofun, nofun⟩
  | releaseContext => exact .inl ⟨releaseContext_shrinks, nofun⟩

/-! ### Identities along a run -/

theorem ownsResumeId_iff {resumeId : Nat} :
    r.ownsResumeId resumeId = true ↔
      r.crntiBase ≤ resumeId >>> 16 ∧ resumeId >>> 16 < r.crntiBase + 0x2000 := by
  simp [RrcBs.ownsResumeId]

/-- Identity 0 is that of C-RNTI 0 at sequence number 0 alone. -/
theorem resumeIdentity_eq_zero (seq : UInt32) (h : rnti < snModulus) :
    RrcBs.resumeIdentity rnti seq = 0 ↔ rnti = 0 ∧ seq = 0 := by
  have hshift : (rnti <<< 16) % u32Modulus = rnti <<< 16 := by
    refine Nat.mod_eq_of_lt ?_
    simp only [Nat.shiftLeft_eq, u32Modulus, snModulus] at h ⊢
    omega
  rw [RrcBs.resumeIdentity, hshift, Nat.or_eq_zero_iff, Nat.shiftLeft_eq, ← UInt32.toNat_inj]
  simp

/-- The identity is one of `rnti` exactly when it was issuable. -/
theorem ownIdentity_iff (h : rnti < snModulus) :
    OwnIdentity r rnti (RrcBs.resumeIdentity rnti r.nextResumeSeq) ↔ Issuable r rnti := by
  have hhigh := RrcBs.resumeIdentity_high r.nextResumeSeq h
  have hzero := resumeIdentity_eq_zero r.nextResumeSeq h
  constructor
  · rintro ⟨hnonzero, hissuer, howned⟩
    rw [ownsResumeId_iff, hissuer] at howned
    rw [hhigh] at hissuer
    rw [ne_eq, hzero, not_and_or] at hnonzero
    exact ⟨hissuer, howned, hnonzero⟩
  · rintro ⟨hroom, howned, hnonzero⟩
    have hissuer : RrcBs.resumeIdentity rnti r.nextResumeSeq >>> 16 = rnti := by rw [hhigh, hroom]
    refine ⟨?_, hissuer, ?_⟩
    · rw [ne_eq, hzero, not_and_or]
      exact hnonzero
    · rw [ownsResumeId_iff, hissuer]
      exact howned

theorem OwnIdentity.congr {resumeId : Nat} (hbase : r'.crntiBase = r.crntiBase)
    (h : OwnIdentity r rnti resumeId) : OwnIdentity r' rnti resumeId := by
  refine ⟨h.nonzero, h.issuer, ?_⟩
  rw [ownsResumeId_iff, hbase]
  exact ownsResumeId_iff.mp h.owned

/-- Step lemma, in both directions. -/
theorem call_identified (h : Identified r) (c : RrcBsCall) : Identified (call r c) ↔ IssuesWell r c := by
  rcases call_suspends r c with ⟨⟨hbase, hshrinks⟩, hnone⟩ | ⟨rnti, honly, hlt, hissued⟩
  · refine ⟨fun _ rnti hs => absurd hs (hnone rnti), fun _ s ctx hs => ?_⟩
    exact (h s ctx (hshrinks s ctx hs)).congr hbase
  · obtain ⟨ctx, hctx, hid⟩ := hissued.issued
    constructor
    · intro hafter s hs
      obtain rfl := (honly s).mp hs
      have hown := (hafter s ctx hctx).congr hissued.base.symm
      rw [hid] at hown
      exact (ownIdentity_iff hlt).mp hown
    · intro hwell s ctx' hs
      by_cases heq : s = rnti
      · subst heq
        obtain rfl : ctx = ctx' := Option.some.inj (hctx.1.symm.trans hs.1)
        rw [hid]
        exact ((ownIdentity_iff hlt).mpr (hwell s ((honly s).mpr rfl))).congr hissued.base
      · exact (h s ctx' (hissued.others s ctx' heq hs)).congr hissued.base

/-! ### What identities are for -/

/-- The context goes on under the C-RNTI of the MAC, connected; every other one stands. -/
structure Restored (r : RrcBs) (oldRnti rnti : Nat) (ctx : BsUeContext) (r' : RrcBs) : Prop where
  restored : r'.findUe rnti =
    some { ctx with cRnti := rnti, state := .connected, resumeId := 0 }
  left : oldRnti ≠ rnti → r'.findUe oldRnti = none
  others : ∀ s, s ≠ rnti → s ≠ oldRnti → r'.findUe s = r.findUe s

/-- A RESUME_REQUEST with that identity. -/
def RequestsResume (pdu : Bytes) (resumeId : Nat) : Prop :=
  (RrcMessage.decode pdu).msgType = .resumeRequest ∧ getU32 (RrcMessage.decode pdu).value 0 = resumeId

/-- Identities are of their own C-RNTI and distinct, the request with an identity restores its
context whatever the order of the search, and a cell with another range lets it pass by. -/
structure Unique (r : RrcBs) : Prop where
  identified : Identified r
  distinct : ∀ rnti rnti' ctx ctx', Suspended r rnti ctx → Suspended r rnti' ctx' →
    ctx.resumeId = ctx'.resumeId → rnti = rnti'
  resumes : ∀ rnti ctx order (macRnti : UInt16) pdu, Suspended r rnti ctx →
    order.Perm r.ueContexts.keys → RequestsResume pdu ctx.resumeId →
    Restored r rnti (r.assign macRnti.toNat).2 ctx (r.handleMessage order macRnti.toNat pdu).1
  foreign : ∀ rnti ctx (other : RrcBs), Suspended r rnti ctx →
    r.crntiBase + 0x2000 ≤ other.crntiBase ∨ other.crntiBase + 0x2000 ≤ r.crntiBase →
    other.ownsResumeId ctx.resumeId = false

/-- The search finds the one context with the identity. -/
theorem findSuspended_unique (h : Identified r) {order : List Nat} (hperm : order.Perm r.ueContexts.keys)
    (hs : Suspended r rnti ctx) : r.findSuspended order ctx.resumeId = some (rnti, ctx) := by
  cases hfound : r.findSuspended order ctx.resumeId with
  | some found =>
    obtain ⟨s, ctx'⟩ := found
    obtain ⟨hfind, hstate, hid⟩ := RrcBs.findSuspended_some hfound
    have hissuer := (h s ctx' ⟨hfind, hstate⟩).issuer
    rw [hid, (h rnti ctx hs).issuer] at hissuer
    subst hissuer
    rw [Option.some.inj (hs.1.symm.trans hfind)]
  | none =>
    have hmem : rnti ∈ order := by
      rw [hperm.mem_iff, Std.ExtTreeMap.mem_keys, Std.ExtTreeMap.mem_iff_isSome_getElem?]
      exact Option.isSome_iff_exists.mpr ⟨ctx, hs.1⟩
    have hnone := List.findSome?_eq_none_iff.mp hfound rnti hmem
    rw [hs.1, Option.bind_some, if_pos ⟨hs.2, rfl⟩] at hnone
    cases hnone

/-- Identities that carry their own C-RNTI are distinct and owned by the cell. -/
theorem Identified.unique (h : Identified r) : Unique r where
  identified := h
  distinct := by
    intro rnti rnti' ctx ctx' hs hs' heq
    rw [← (h rnti ctx hs).issuer, heq, (h rnti' ctx' hs').issuer]
  resumes := by
    intro rnti ctx order macRnti pdu hs hperm hpdu
    have hhandled : r.handleMessage order macRnti.toNat pdu =
        r.migrate rnti macRnti.toNat { ctx with state := .connected, resumeId := 0 } .resumeOk := by
      simp [RrcBs.handleMessage, hpdu.1, RrcBs.onResumeRequest, hpdu.2, (h rnti ctx hs).owned,
        findSuspended_unique h hperm hs]
    rw [hhandled]
    have hget : ∀ s, (r.migrate rnti macRnti.toNat
        { ctx with state := .connected, resumeId := 0 } .resumeOk).1.findUe s =
          if (r.assign macRnti.toNat).2 = s then some { ctx with
            cRnti := (r.assign macRnti.toNat).2, state := .connected, resumeId := 0 }
          else if rnti = s then none else r.findUe s := by
      intro s
      simp only [RrcBs.migrate, RrcBs.findUe_putUe_eq, RrcBs.findUe_releaseContext_eq, RrcBs.findUe_assign]
    refine ⟨?_, fun hne => ?_, fun s hne hold => ?_⟩
    · rw [hget, if_pos rfl]
    · rw [hget, if_neg hne.symm, if_pos rfl]
    · rw [hget, if_neg hne.symm, if_neg hold.symm]
  foreign := by
    intro rnti ctx other hs hdisjoint
    have howned := ownsResumeId_iff.mp (h rnti ctx hs).owned
    rw [Bool.eq_false_iff, ne_eq, ownsResumeId_iff]
    omega

end ResumeIdentity

open ResumeIdentity

/-- Along a run of calls, every state keeps its identities unique and each resumed by its own
cell if and only if every suspension issues an identity whose sequence number stays out of the
C-RNTI, for a C-RNTI of the cell. -/
theorem resume_ids_unique_iff (cellId : UInt16) (plmnId : Bytes) (tac crntiBase : UInt16)
    (calls : List RrcBsCall) :
    Always (fun r c => some (call r c)) Unique
        (RrcBs.make cellId.toNat plmnId tac.toNat crntiBase.toNat) calls ↔
      StepsMeet (fun r c => some (call r c)) IssuesWell
        (RrcBs.make cellId.toNat plmnId tac.toNat crntiBase.toNat) calls := by
  have hinit : Identified (RrcBs.make cellId.toNat plmnId tac.toNat crntiBase.toNat) := by
    rintro rnti ctx ⟨hfind, -⟩
    cases hfind
  refine always_iff_meets (fun _ => True) (fun _ _ _ => trivial)
    (fun r c _ hr => ⟨fun h => ?_, fun h => ?_⟩) trivial hinit.unique calls
  · exact (call_identified hr.identified c).mp h.identified
  · exact ((call_identified hr.identified c).mpr h).unique

namespace ResumeIdentity

/-- A UE that is suspended and comes back by its own uplink, over and over. -/
def blinks (rnti : UInt16) : Nat → List RrcBsCall
  | 0 => []
  | n + 1 => .suspendContext rnti :: .reactivateContext rnti :: blinks rnti n

/-- One UE stays suspended while another one blinks until the counter comes to 0x10001. -/
def collision : List RrcBsCall :=
  [.admitConnected 2, .admitConnected 3, .suspendContext 3] ++ (blinks 2 0xFFFF ++ [.suspendContext 2])

/-- A turn only moves the counter. -/
theorem blink (hfind : r.findUe 2 = some ⟨2, .connected, 0⟩) :
    (call (call r (.suspendContext 2)) (.reactivateContext 2)).nextResumeSeq = r.nextResumeSeq + 1 ∧
      ∀ s, (call (call r (.suspendContext 2)) (.reactivateContext 2)).findUe s = r.findUe s := by
  have hsuspended : call r (.suspendContext 2) = { r.putUe 2 ⟨2, .inactive,
      RrcBs.resumeIdentity 2 r.nextResumeSeq⟩ with nextResumeSeq := r.nextResumeSeq + 1 } := by
    simp [call, RrcBs.suspendContext, hfind]
  have hback : call (call r (.suspendContext 2)) (.reactivateContext 2) =
      (call r (.suspendContext 2)).putUe 2 ⟨2, .connected, 0⟩ := by
    have hget : (call r (.suspendContext 2)).findUe 2 =
        some ⟨2, .inactive, RrcBs.resumeIdentity 2 r.nextResumeSeq⟩ := by
      rw [hsuspended]
      exact (r.findUe_putUe_eq _ _ _).trans (if_pos rfl)
    generalize call r (.suspendContext 2) = r' at hget ⊢
    simp [call, RrcBs.reactivateContext, hget]
  refine ⟨by rw [hback, hsuspended]; rfl, fun s => ?_⟩
  rw [hback, RrcBs.findUe_putUe_eq]
  by_cases heq : 2 = s
  · rw [if_pos heq, ← heq, hfind]
  · rw [if_neg heq, hsuspended]
    exact (r.findUe_putUe_eq _ _ _).trans (if_neg heq)

/-- Each suspension takes one sequence number, so any number can be reached. -/
theorem blinks_counted (n : Nat) (hfind : r.findUe 2 = some ⟨2, .connected, 0⟩) :
    ∃ r', runFrom (fun r c => some (call r c)) r (blinks 2 n) = some r' ∧
      r'.nextResumeSeq = r.nextResumeSeq + UInt32.ofNat n ∧ ∀ s, r'.findUe s = r.findUe s := by
  induction n generalizing r with
  | zero => exact ⟨r, rfl, by simp, fun _ => rfl⟩
  | succ n ih =>
    obtain ⟨hseq, hkept⟩ := blink hfind
    obtain ⟨r', hrun, hseq', hkept'⟩ := ih ((hkept 2).trans hfind)
    refine ⟨r', hrun, ?_, fun s => (hkept' s).trans (hkept s)⟩
    rw [hseq', hseq, UInt32.ofNat_add, UInt32.add_assoc, UInt32.add_comm 1]
    rfl

end ResumeIdentity

/-- Two suspended contexts with one identity. -/
theorem resume_id_issued_twice :
    ∃ r ctx ctx', runFrom (fun r c => some (call r c)) (RrcBs.make 1 [] 1 1) collision = some r ∧
      Suspended r 2 ctx ∧ Suspended r 3 ctx' ∧ ctx.resumeId = 0x30001 ∧ ctx'.resumeId = 0x30001 := by
  obtain ⟨start, hstart, hfind, hthird, hseq⟩ : ∃ start,
      runFrom (fun r c => some (call r c)) (RrcBs.make 1 [] 1 1)
        [.admitConnected 2, .admitConnected 3, .suspendContext 3] = some start ∧
      start.findUe 2 = some ⟨2, .connected, 0⟩ ∧ start.findUe 3 = some ⟨3, .inactive, 0x30001⟩ ∧
      start.nextResumeSeq = 2 :=
    ⟨_, rfl, by decide, by decide, rfl⟩
  obtain ⟨r, hrun, hcount, hkept⟩ := blinks_counted 0xFFFF hfind
  have hlast : r.nextResumeSeq = 0x10001 := by
    rw [hcount, hseq]
    rfl
  have hsuspended : call r (.suspendContext 2) =
      { r.putUe 2 ⟨2, .inactive, 0x30001⟩ with nextResumeSeq := r.nextResumeSeq + 1 } := by
    have hid : RrcBs.resumeIdentity 2 r.nextResumeSeq = 0x30001 := by
      rw [hlast]
      rfl
    simp [call, RrcBs.suspendContext, (hkept 2).trans hfind, hid]
  refine ⟨call r (.suspendContext 2), ⟨2, .inactive, 0x30001⟩, ⟨3, .inactive, 0x30001⟩, ?_, ?_, ?_, rfl, rfl⟩
  · refine runFrom_append_eq_some.mpr ⟨start, hstart, runFrom_append_eq_some.mpr ⟨r, hrun, rfl⟩⟩
  · refine ⟨?_, rfl⟩
    rw [hsuspended]
    exact (r.findUe_putUe_eq 2 2 _).trans (if_pos rfl)
  · refine ⟨?_, rfl⟩
    rw [hsuspended]
    exact ((r.findUe_putUe_eq 2 3 _).trans (if_neg (by decide))).trans ((hkept 3).trans hthird)

end AetherStack.Guarantees
