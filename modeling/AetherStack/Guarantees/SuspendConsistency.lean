import AetherStack.Source.BsTables

/-!
# Suspension in RRC and in the flows

That a UE is suspended stands twice: in its RRC context, with the resume identity, and in its
flow. The suspend and resume paths write both. SETUP_COMPLETE and a plain RELEASE write the
context whatever state it is in; a SETUP_REQUEST, a re-establishment and an admission make a
context at a C-RNTI whose flow may be parked from before; and the deferred clean-up after a
handover erases a flow without looking at the context. As long as none of them meets a
suspended UE, both layers agree.
-/
namespace AetherStack.Guarantees
open Source Source.Core Lib Source.Mac Source.Rrc

/-- A context is INACTIVE exactly when its flow is there and parked, and has a resume identity
exactly when it is INACTIVE. -/
def SuspendConsistent (n : BsNode) : Prop :=
  ∀ r ctx, n.rrc.findUe r = some ctx →
    (ctx.state = .inactive ↔ ∃ f, n.flows[r]? = some f ∧ f.suspended = true) ∧
      (ctx.resumeId ≠ 0 ↔ ctx.state = .inactive)

namespace Suspension

def Parked (n : BsNode) (r : Nat) : Prop := (n.flow r).suspended = true

instance (n : BsNode) (r : Nat) : Decidable (Parked n r) := by
  unfold Parked
  infer_instance

theorem parked_iff {n : BsNode} {r : Nat} :
    Parked n r ↔ ∃ f, n.flows[r]? = some f ∧ f.suspended = true := by
  unfold Parked BsNode.flow
  cases n.flows[r]? <;> simp

/-- `SuspendConsistent` for one C-RNTI. -/
def Agrees (n : BsNode) (r : Nat) (ctx : BsUeContext) : Prop :=
  (ctx.state = .inactive ↔ Parked n r) ∧ (ctx.resumeId ≠ 0 ↔ ctx.state = .inactive)

/-- Consistency, context by context. -/
theorem consistent_iff {n : BsNode} :
    SuspendConsistent n ↔ ∀ r ctx, n.rrc.findUe r = some ctx → Agrees n r ctx := by
  simp only [SuspendConsistent, Agrees, parked_iff]

/-- A context that is not suspended agrees with a flow that is not parked. -/
theorem agrees_of_active {n : BsNode} {r : Nat} {ctx : BsUeContext} (hparked : ¬ Parked n r)
    (hstate : ctx.state ≠ .inactive) (hid : ctx.resumeId = 0) : Agrees n r ctx :=
  ⟨iff_of_false hstate hparked, iff_of_false (fun h => h hid) hstate⟩

/-! ## What leaves the suspensions alone -/

/-- Every context that is there was there, and its flow is parked as it was. -/
def Keeps (n n' : BsNode) : Prop :=
  ∀ r ctx, n'.rrc.findUe r = some ctx → n.rrc.findUe r = some ctx ∧ (Parked n' r ↔ Parked n r)

section Frame

variable (w : World) {n n' n'' : BsNode}

theorem Keeps.refl (n : BsNode) : Keeps n n := fun _ _ h => ⟨h, .rfl⟩

theorem Keeps.trans (h : Keeps n n') (h' : Keeps n' n'') : Keeps n n'' := by
  intro r ctx hctx
  obtain ⟨hmid, hparked⟩ := h' r ctx hctx
  obtain ⟨hold, hparked'⟩ := h r ctx hmid
  exact ⟨hold, hparked.trans hparked'⟩

/-- A step that keeps both marks keeps them consistent. -/
theorem Keeps.consistent (h : Keeps n n') (hn : SuspendConsistent n) : SuspendConsistent n' := by
  rw [consistent_iff] at hn ⊢
  intro r ctx hctx
  obtain ⟨hold, hparked⟩ := h r ctx hctx
  obtain ⟨hstate, hid⟩ := hn r ctx hold
  exact ⟨hstate.trans hparked.symm, hid⟩

theorem keeps_of_tables (hrrc : n'.rrc = n.rrc) (hflows : n'.flows = n.flows) : Keeps n n' := by
  intro r ctx hctx
  rw [hrrc] at hctx
  refine ⟨hctx, ?_⟩
  rw [parked_iff, parked_iff, hflows]

/-- The user plane parks nothing. -/
theorem parked_of_serves (h : BsNode.Serves (fun _ => True) n n') (r : Nat) :
    Parked n' r ↔ Parked n r := by
  have hserved := h fun _ _ _ _ _ _ => trivial
  have hparked : (n'.flow r).suspended = (n.flow r).suspended :=
    congrArg Prod.fst (hserved.parked r)
  rw [Parked, Parked, hparked]

theorem keeps_of_serves (h : BsNode.Serves (fun _ => True) n n') : Keeps n n' := by
  have hserved := h fun _ _ _ _ _ _ => trivial
  intro r ctx hctx
  rw [show n'.rrc = n.rrc from congrArg Control.rrc hserved.control] at hctx
  exact ⟨hctx, parked_of_serves h r⟩

theorem downlinkSend_keeps (n : BsNode) (rnti : Nat) (lcid : UInt8) (sdu : Bytes) :
    Keeps n (n.downlinkSend rnti lcid sdu) :=
  keeps_of_serves (BsNode.downlinkSend_serves lcid sdu (.inr trivial))

theorem armSecurity_keeps (n : BsNode) (rnti : Nat) (key : Key256) :
    Keeps n (n.armSecurity rnti key) :=
  keeps_of_serves (BsNode.armSecurity_serves key (.inr trivial))

theorem touchFlow_keeps (n : BsNode) (rnti : Nat) : Keeps n (n.touchFlow rnti) :=
  keeps_of_serves (BsNode.touchFlow_serves (.inr trivial))

theorem record_keeps (n : BsNode) (link : Link) (m : CnMessage) : Keeps n (n.record link m) :=
  keeps_of_tables rfl rfl

theorem learnCrnti_keeps (n : BsNode) (tmsi rnti : Nat) : Keeps n (n.learnCrnti tmsi rnti).1 := by
  unfold BsNode.learnCrnti
  split
  · exact .refl n
  · exact keeps_of_tables rfl rfl

/-- A context that goes is not asked about any more. -/
theorem releaseContext_keeps (n : BsNode) (rnti : Nat) :
    Keeps n { n with rrc := n.rrc.releaseContext rnti } := by
  intro r ctx hctx
  rw [RrcBs.findUe_releaseContext_eq] at hctx
  split at hctx
  · cases hctx
  · exact ⟨hctx, .rfl⟩

theorem parked_eraseFlow (n : BsNode) (rnti r : Nat) :
    Parked (n.eraseFlow rnti) r ↔ r ≠ rnti ∧ Parked n r := by
  rw [parked_iff, parked_iff, BsNode.eraseFlow]
  simp only [Std.ExtTreeMap.getElem?_erase, compare_eq_iff_eq]
  by_cases heq : rnti = r
  · simp [heq]
  · simp [heq, Ne.symm heq]

/-- A flow may go where no context is suspended. -/
theorem eraseFlow_keeps {rnti : Nat}
    (hactive : ∀ ctx, n.rrc.findUe rnti = some ctx → ¬ Parked n rnti) :
    Keeps n (n.eraseFlow rnti) := by
  intro r ctx hctx
  refine ⟨hctx, ?_⟩
  rw [parked_eraseFlow]
  constructor
  · exact fun h => h.2
  · intro hparked
    refine ⟨?_, hparked⟩
    rintro rfl
    exact hactive ctx hctx hparked

/-! ### Messages of the links -/

theorem onDownlinkNas_keeps (n : BsNode) (value : Bytes) : Keeps n (n.onDownlinkNas value) := by
  unfold BsNode.onDownlinkNas
  split
  · exact .refl n
  · exact (learnCrnti_keeps n _ _).trans (downlinkSend_keeps _ _ _ _)

theorem onSessionKey_keeps (n : BsNode) (value : Bytes) : Keeps n (n.onSessionKey value) := by
  unfold BsNode.onSessionKey
  split
  · exact .refl n
  · exact (learnCrnti_keeps n _ _).trans (armSecurity_keeps _ _ _)

theorem commandHo_keeps (n : BsNode) (source targetCell newCrnti : Nat) :
    Keeps n (n.commandHo source targetCell newCrnti) := by
  have hqueued := downlinkSend_keeps n source lcidCcch (BsNode.hoCommandPdu targetCell newCrnti)
  exact hqueued.trans (keeps_of_tables rfl rfl)

theorem releaseHoSource_keeps (n : BsNode) (oldRnti : Nat) :
    Keeps n (n.releaseHoSource w oldRnti) := by
  unfold BsNode.releaseHoSource
  dsimp only
  refine Keeps.trans ?_ ((touchFlow_keeps _ oldRnti).trans
    ((releaseContext_keeps _ oldRnti).trans (keeps_of_tables rfl rfl)))
  split
  · exact .refl n
  · split
    · exact keeps_of_tables rfl rfl
    · exact keeps_of_tables rfl rfl

theorem completeHo_keeps (n : BsNode) (newCrnti : Nat) : Keeps n (n.completeHo w newCrnti) := by
  unfold BsNode.completeHo
  split
  · exact .refl n
  · exact (releaseHoSource_keeps w n _).trans (keeps_of_tables rfl rfl)

theorem onHoPrepared_keeps (n : BsNode) (value : Bytes) : Keeps n (n.onHoPrepared w value) := by
  unfold BsNode.onHoPrepared
  split
  · exact .refl n
  · split
    · exact .refl n
    · exact commandHo_keeps n _ _ _

theorem onXnPrepareAck_keeps (n : BsNode) (value : Bytes) : Keeps n (n.onXnPrepareAck value) := by
  unfold BsNode.onXnPrepareAck
  split
  · exact .refl n
  · split
    · exact .refl n
    · split
      · exact .refl n
      · have hpending : Keeps n { n with
            pendingXnHo := n.pendingXnHo.erase (getU32 value 0) } := keeps_of_tables rfl rfl
        exact hpending.trans (commandHo_keeps _ _ _ _)

/-- A message whose answers leave the suspensions alone. -/
theorem send_keeps (n : BsNode) {link : Link} {m : CnMessage}
    (hreply : ∀ r, BsNode.answersTo m.msgType r.msgType = true →
      ∀ n' : BsNode, Keeps n' (n'.handleLinkMessage w link r)) : Keeps n (n.send w link m) :=
  BsNode.send_rel w Keeps .refl .trans n (fun _ _ => keeps_of_tables rfl rfl)
    fun _ _ r _ hanswer => hreply r hanswer

theorem sendNas_keeps (n : BsNode) {m : CnMessage}
    (htype : m.msgType = .initialUeMsg ∨ m.msgType = .uplinkNas) : Keeps n (n.send w .amf m) := by
  refine send_keeps w n fun r hanswer n' => ?_
  rcases BsNode.answersTo_nas htype hanswer with hr | hr
  · simp only [BsNode.handleLinkMessage, BsNode.handleCnMessage, hr]
    exact onDownlinkNas_keeps n' r.value
  · simp only [BsNode.handleLinkMessage, BsNode.handleCnMessage, hr]
    exact onSessionKey_keeps n' r.value

theorem requestXn_keeps (n : BsNode) (crnti targetCell : Nat) :
    Keeps n (n.requestXn w crnti targetCell) := by
  unfold BsNode.requestXn
  split
  · exact .refl n
  · dsimp only
    refine Keeps.trans (keeps_of_tables rfl rfl) (send_keeps w _ fun r hanswer n' => ?_)
    simp only [BsNode.handleLinkMessage, BsNode.handleXnMessage,
      BsNode.answersTo_xnPrepare hanswer]
    exact onXnPrepareAck_keeps n' r.value

theorem requestCoordinator_keeps (n : BsNode) (crnti targetCell : Nat) :
    Keeps n (n.requestCoordinator crnti targetCell) := by
  unfold BsNode.requestCoordinator
  split
  · exact .refl n
  · exact keeps_of_tables rfl rfl
  · rename_i newCrnti rest _
    have hstarted : Keeps n { n with
        answers := rest, hoLog := n.hoLog ++ [.started crnti targetCell] } :=
      keeps_of_tables rfl rfl
    exact hstarted.trans (commandHo_keeps _ _ _ _)

/-! ### NAS -/

theorem onNasSend_keeps (rnti : Nat) (n : BsNode) (sent : Nat × Bytes) :
    Keeps n (BsNode.onNasSend rnti n sent) := by
  have hqueued := (learnCrnti_keeps n sent.1 rnti).trans
    (downlinkSend_keeps _ (n.learnCrnti sent.1 rnti).2 lcidNasDcch (Pdcp.tx sent.2))
  unfold BsNode.onNasSend
  dsimp only
  split
  · exact hqueued
  · exact hqueued.trans (armSecurity_keeps _ _ _)

/-- The clean-up of a DETACH comes from a UE that is not parked. -/
theorem tearDown_keeps {rnti : Nat} (hactive : ∀ ctx, n.rrc.findUe rnti = some ctx → ¬ Parked n rnti)
    (tmsi : Nat) : Keeps n (n.tearDown rnti tmsi) := by
  unfold BsNode.tearDown
  dsimp only
  split
  · have hmapped : Keeps n { n with
        tmsiToCrnti := n.tmsiToCrnti.filter fun _ crnti => crnti ≠ rnti } :=
      keeps_of_tables rfl rfl
    exact hmapped.trans (eraseFlow_keeps hactive)
  · rename_i ctx _
    have hmapped : Keeps n (BsNode.purgeConfMember { n with
        tmsiToCrnti := n.tmsiToCrnti.filter fun _ crnti => crnti ≠ rnti } ctx.imsi) :=
      keeps_of_tables rfl rfl
    exact hmapped.trans (eraseFlow_keeps hactive)

/-- A UE that is not suspended stays so. -/
theorem Keeps.active (h : Keeps n n') {rnti : Nat}
    (hactive : ∀ ctx, n.rrc.findUe rnti = some ctx → ¬ Parked n rnti) (ctx : BsUeContext)
    (hctx : n'.rrc.findUe rnti = some ctx) : ¬ Parked n' rnti := by
  obtain ⟨hold, hparked⟩ := h rnti ctx hctx
  exact hparked.not.mpr (hactive ctx hold)

/-- NAS touches neither mark; a DETACH erases a flow that is not parked. -/
theorem handleNasPdu_keeps {rnti : Nat}
    (hactive : ∀ ctx, n.rrc.findUe rnti = some ctx → ¬ Parked n rnti) (nasPdu : Bytes) :
    Keeps n (n.handleNasPdu w rnti nasPdu) := by
  unfold BsNode.handleNasPdu
  dsimp only
  split
  · have hsent : Keeps n (n.cnSendNas w (n.tmsiForCrnti w rnti) rnti nasPdu) := by
      unfold BsNode.cnSendNas
      split
      · exact sendNas_keeps w n (.inl rfl)
      · exact sendNas_keeps w n (.inr rfl)
    split
    · exact hsent.trans (tearDown_keeps (hsent.active hactive) _)
    · exact hsent
  · have hnas : Keeps n { n with nas := (n.nas.handleMessage w.digest (w.order n .pendingAuth)
        (w.rand n.nas) 0 nasPdu).1 } := keeps_of_tables rfl rfl
    have hsent := hnas.trans (foldl_rel Keeps.refl Keeps.trans (onNasSend_keeps rnti) _
      (n.nas.handleMessage w.digest (w.order n .pendingAuth) (w.rand n.nas) 0 nasPdu).2)
    split
    · exact hsent.trans (tearDown_keeps (hsent.active hactive) _)
    · exact hsent

theorem handleNasSdu_keeps {rnti : Nat}
    (hactive : ∀ ctx, n.rrc.findUe rnti = some ctx → ¬ Parked n rnti) (sdu : Bytes) :
    Keeps n (n.handleNasSdu w rnti sdu) := by
  have htouched := touchFlow_keeps n rnti
  unfold BsNode.handleNasSdu
  dsimp only
  split
  · exact htouched
  · exact htouched.trans (handleNasPdu_keeps w (htouched.active hactive) _)

end Frame

/-! ## What moves a suspension -/

/-- The condition on an SDU for a context: it is not INACTIVE. -/
def Awake (n : BsNode) (rnti : Nat) : Prop :=
  ∀ ctx ∈ n.rrc.findUe rnti, ctx.state ≠ .inactive

instance (n : BsNode) (rnti : Nat) : Decidable (Awake n rnti) := by
  unfold Awake
  infer_instance

/-- The identity that a suspension of the context would take is not zero. -/
def FreshIdentity (n : BsNode) (rnti : Nat) : Prop :=
  n.rrc.isUeConnected rnti = true → RrcBs.resumeIdentity rnti n.rrc.nextResumeSeq ≠ 0

instance (n : BsNode) (rnti : Nat) : Decidable (FreshIdentity n rnti) := by
  unfold FreshIdentity
  infer_instance

/-- The condition on an RRC message. -/
def RrcMeets (n : BsNode) (rnti : Nat) (msg : RrcMessage) : Prop :=
  match msg.msgType with
  | .setupRequest => n.rrc.foreignCell msg.value = false → ¬ Parked n (n.rrc.assign rnti).2
  | .setupComplete => Awake n rnti
  | .release =>
    if msg.value.length ≥ 3 ∧ (msg.value.getD 2 0 &&& 2) ≠ 0 then FreshIdentity n rnti
    else Awake n rnti
  | .reestablishmentRequest =>
    msg.value.length ≥ 2 → n.rrc.isUeConnected (getU16 msg.value 0) = true →
      getU16 msg.value 0 ∈ n.flows ∨ ¬ Parked n (n.rrc.assign rnti).2
  | _ => True

instance (n : BsNode) (rnti : Nat) (msg : RrcMessage) : Decidable (RrcMeets n rnti msg) := by
  unfold RrcMeets
  split <;> infer_instance

section Rrc

variable (w : World) {n : BsNode}

theorem parked_putFlow (n : BsNode) (rnti r : Nat) (f : Core.DlFlow) :
    Parked (n.putFlow rnti f) r ↔ if r = rnti then f.suspended = true else Parked n r := by
  unfold Parked
  split
  · rename_i heq
    rw [heq, BsNode.flow_putFlow_self]
  · rename_i hne
    rw [BsNode.flow_putFlow_of_ne n f hne]

theorem parked_downlinkSend (n : BsNode) (rnti : Nat) (lcid : UInt8) (sdu : Bytes) (r : Nat) :
    Parked (n.downlinkSend rnti lcid sdu) r ↔ Parked n r :=
  parked_of_serves (BsNode.downlinkSend_serves lcid sdu (.inr trivial)) r

/-- A flow that moves is un-parked on the way. -/
theorem parked_moveFlow (n : BsNode) (oldRnti newRnti r : Nat) :
    Parked (n.moveFlow oldRnti newRnti) r ↔
      if oldRnti ∈ n.flows then r ≠ newRnti ∧ r ≠ oldRnti ∧ Parked n r else Parked n r := by
  unfold BsNode.moveFlow
  split
  · rename_i hnone
    rw [if_neg]
    rw [Std.ExtTreeMap.mem_iff_isSome_getElem?, hnone]
    decide
  · rename_i f hsome
    rw [if_pos (BsNode.mem_of_getElem? hsome).1, parked_putFlow, parked_eraseFlow]
    split
    · rename_i heq
      simp [heq]
    · rename_i hne
      simp [hne]

theorem parked_moveTmsi (n : BsNode) (oldRnti newRnti r : Nat) :
    Parked (n.moveTmsi w oldRnti newRnti) r ↔ Parked n r := by
  unfold BsNode.moveTmsi
  split
  · rfl
  · rfl

theorem moveFlow_rrc (n : BsNode) (oldRnti newRnti : Nat) :
    (n.moveFlow oldRnti newRnti).rrc = n.rrc := by
  unfold BsNode.moveFlow
  split <;> rfl

theorem moveTmsi_rrc (n : BsNode) (oldRnti newRnti : Nat) :
    (n.moveTmsi w oldRnti newRnti).rrc = n.rrc := by
  unfold BsNode.moveTmsi
  split <;> rfl

/-- A context is written where it agrees with the flow. -/
theorem putUe_consistent (h : SuspendConsistent n) {rrc : RrcBs} {rnti : Nat} {ctx : BsUeContext}
    (hrrc : ∀ s, s ≠ rnti → ∀ ctx', rrc.findUe s = some ctx' → n.rrc.findUe s = some ctx')
    (hagrees : Agrees n rnti ctx) :
    SuspendConsistent { n with rrc := rrc.putUe rnti ctx } := by
  rw [consistent_iff] at h ⊢
  intro r ctx' hctx
  rw [RrcBs.findUe_putUe_eq] at hctx
  split at hctx
  · rename_i heq
    subst heq
    obtain rfl := Option.some.inj hctx
    exact hagrees
  · rename_i hne
    exact h r ctx' (hrrc r (Ne.symm hne) ctx' hctx)

theorem assign_findUe (r : RrcBs) (rnti s : Nat) {ctx : BsUeContext}
    (h : (r.assign rnti).1.findUe s = some ctx) : r.findUe s = some ctx := by
  rwa [RrcBs.findUe_assign] at h

/-- A new context needs a C-RNTI whose flow is not parked. -/
theorem onSetupRequest_consistent (h : SuspendConsistent n) {rnti : Nat} {value : Bytes}
    (hfree : n.rrc.foreignCell value = false → ¬ Parked n (n.rrc.assign rnti).2) :
    SuspendConsistent (n.runRrc w (n.rrc.onSetupRequest rnti value)) := by
  unfold RrcBs.onSetupRequest
  split
  · exact h
  · rename_i hown
    have hagrees : Agrees n (n.rrc.assign rnti).2
        { cRnti := (n.rrc.assign rnti).2, state := .connecting } :=
      agrees_of_active (hfree (by simpa using hown)) (fun hstate => by cases hstate) rfl
    have hput := putUe_consistent h (fun s _ _ hs => assign_findUe n.rrc rnti s hs) hagrees
    exact (downlinkSend_keeps _ _ _ _).consistent hput

/-- A context that is not suspended may change its state as long as it is not to INACTIVE. -/
theorem putState_consistent (h : SuspendConsistent n) {rnti : Nat} {ctx : BsUeContext}
    (hctx : n.rrc.findUe rnti = some ctx) (hawake : Awake n rnti) {state : UeState}
    (hstate : state ≠ .inactive) :
    SuspendConsistent { n with rrc := n.rrc.putUe rnti { ctx with state := state } } := by
  refine putUe_consistent h (fun _ _ _ hs => hs) ?_
  obtain ⟨hparked, hid⟩ := consistent_iff.mp h rnti ctx hctx
  have hactive := hawake ctx hctx
  exact agrees_of_active (hparked.not.mp hactive) hstate (not_not.mp (hid.not.mpr hactive))

/-- A suspension sets both marks, with an identity nobody else has. -/
theorem suspendContext_consistent (h : SuspendConsistent n) {rnti : Nat}
    (hfresh : FreshIdentity n rnti) :
    SuspendConsistent (n.runRrc w (n.rrc.suspendContext rnti)) := by
  unfold RrcBs.suspendContext
  split
  · exact h
  · rename_i ctx hctx
    split
    · exact h
    · rename_i hstate
      have hconnected : n.rrc.isUeConnected rnti = true :=
        RrcBs.isUeConnected_iff.mpr ⟨ctx, hctx, not_not.mp hstate⟩
      rw [consistent_iff] at h ⊢
      intro r ctx' hctx'
      have hparked : Parked (n.runRrc w
          ({ n.rrc.putUe rnti { ctx with
              state := .inactive
              resumeId := RrcBs.resumeIdentity rnti n.rrc.nextResumeSeq } with
              nextResumeSeq := n.rrc.nextResumeSeq + 1 },
            [.send rnti (RrcBs.suspendRelease rnti
              (RrcBs.resumeIdentity rnti n.rrc.nextResumeSeq)), .suspended rnti])) r ↔
          r = rnti ∨ Parked n r := by
        refine (parked_putFlow _ rnti r _).trans ?_
        split
        · rename_i heq
          exact iff_of_true rfl (.inl heq)
        · rename_i hne
          exact (parked_downlinkSend _ _ _ _ r).trans (or_iff_right hne).symm
      have hfind : ((n.rrc.putUe rnti { ctx with
          state := .inactive
          resumeId := RrcBs.resumeIdentity rnti n.rrc.nextResumeSeq }).findUe r) = some ctx' :=
        hctx'
      rw [RrcBs.findUe_putUe_eq] at hfind
      split at hfind
      · rename_i heq
        obtain rfl := Option.some.inj hfind
        exact ⟨iff_of_true rfl (hparked.mpr (.inl heq.symm)), iff_of_true (hfresh hconnected) rfl⟩
      · rename_i hne
        obtain ⟨hstate', hid⟩ := h r ctx' hfind
        exact ⟨hstate'.trans ((hparked.trans (or_iff_right (Ne.symm hne))).symm), hid⟩

/-- The context and its flow move together, and neither is suspended behind it. -/
theorem migrate_consistent (h : SuspendConsistent n) {oldRnti rnti : Nat} {ctx : BsUeContext}
    (ok : RrcMessageType) (hstate : ctx.state = .connected) (hid : ctx.resumeId = 0)
    (hflow : oldRnti ∈ n.flows ∨ ¬ Parked n (n.rrc.assign rnti).2) :
    SuspendConsistent (n.runRrc w (n.rrc.migrate oldRnti rnti ctx ok)) := by
  obtain ⟨base, hbase⟩ : ∃ base : BsNode, base = { n with
      rrc := ((n.rrc.assign rnti).1.releaseContext oldRnti).putUe (n.rrc.assign rnti).2
        { ctx with cRnti := (n.rrc.assign rnti).2 } } := ⟨_, rfl⟩
  have hrun : n.runRrc w (n.rrc.migrate oldRnti rnti ctx ok) =
      ((base.moveFlow oldRnti (n.rrc.assign rnti).2).moveTmsi w oldRnti
        (n.rrc.assign rnti).2).downlinkSend (n.rrc.assign rnti).2 lcidCcch
        (RrcBs.reply ok (putU16 (n.rrc.assign rnti).2)) := by
    rw [hbase]
    rfl
  rw [hrun]
  generalize (n.rrc.assign rnti).2 = newRnti at hflow hbase ⊢
  refine (downlinkSend_keeps _ _ _ _).consistent ?_
  rw [consistent_iff] at h ⊢
  intro r ctx' hctx'
  rw [moveTmsi_rrc, moveFlow_rrc, hbase, RrcBs.findUe_putUe_eq] at hctx'
  have hparked : Parked ((base.moveFlow oldRnti newRnti).moveTmsi w oldRnti newRnti) r ↔
      if oldRnti ∈ n.flows then r ≠ newRnti ∧ r ≠ oldRnti ∧ Parked n r else Parked n r := by
    rw [parked_moveTmsi, parked_moveFlow, hbase]
    rfl
  split at hctx'
  · rename_i heq
    subst heq
    obtain rfl := Option.some.inj hctx'
    refine agrees_of_active ?_ (fun hinactive => ?_) hid
    · rw [hparked]
      split
      · exact fun hmoved => hmoved.1 rfl
      · rename_i habsent
        exact hflow.resolve_left habsent
    · exact absurd (hstate.symm.trans hinactive) (by decide)
  · rename_i hnew
    rw [RrcBs.findUe_releaseContext_eq] at hctx'
    split at hctx'
    · cases hctx'
    · rename_i hold
      obtain ⟨hagrees, hid'⟩ := h r ctx' (assign_findUe n.rrc rnti r hctx')
      refine ⟨hagrees.trans ?_, hid'⟩
      rw [hparked]
      split
      · exact ⟨fun hpark => ⟨Ne.symm hnew, Ne.symm hold, hpark⟩, fun hmoved => hmoved.2.2⟩
      · rfl

/-- A resume clears both. -/
theorem onResumeRequest_consistent (h : SuspendConsistent n) (order : List Nat) (rnti : Nat)
    (value : Bytes) : SuspendConsistent (n.runRrc w (n.rrc.onResumeRequest order rnti value)) := by
  unfold RrcBs.onResumeRequest
  dsimp only
  split
  · exact h
  · split
    · exact (downlinkSend_keeps n _ _ _).consistent h
    · rename_i oldRnti ctx hfound
      obtain ⟨hfind, hstate, -⟩ := RrcBs.findSuspended_some hfound
      -- the flow of a suspended context is there to be moved
      obtain ⟨f, hflow, -⟩ := (h oldRnti ctx hfind).1.mp hstate
      exact migrate_consistent w h _ rfl rfl (.inl (BsNode.mem_of_getElem? hflow).1)

theorem onReestablishmentRequest_consistent (h : SuspendConsistent n) {rnti : Nat} {value : Bytes}
    (hmoves : value.length ≥ 2 → n.rrc.isUeConnected (getU16 value 0) = true →
      getU16 value 0 ∈ n.flows ∨ ¬ Parked n (n.rrc.assign rnti).2) :
    SuspendConsistent (n.runRrc w (n.rrc.onReestablishmentRequest rnti value)) := by
  have hrefused : SuspendConsistent
      (n.runRrc w (n.rrc, [.send rnti (RrcBs.reply .reestablishmentFailure [])])) :=
    (downlinkSend_keeps n _ _ _).consistent h
  unfold RrcBs.onReestablishmentRequest
  dsimp only
  by_cases hlen : value.length ≥ 2
  · simp only [if_pos hlen]
    split
    · exact hrefused
    · rename_i ctx hctx
      split
      · exact hrefused
      · rename_i hknown
        push Not at hknown
        obtain ⟨hparked, hid⟩ := consistent_iff.mp h _ ctx hctx
        have hactive : ctx.state ≠ .inactive := by
          rw [hknown.2]
          decide
        have hconnected : n.rrc.isUeConnected (getU16 value 0) = true :=
          RrcBs.isUeConnected_iff.mpr ⟨ctx, hctx, hknown.2⟩
        exact migrate_consistent w h _ hknown.2 (not_not.mp (hid.not.mpr hactive))
          (hmoves hlen hconnected)
  · simp only [if_neg hlen]
    split
    · exact hrefused
    · rw [if_pos (.inl trivial)]
      exact hrefused

/-- The whole of `handle_message`. -/
theorem handleRrc_consistent (h : SuspendConsistent n) (rnti : Nat) (pdu : Bytes)
    (hmeets : RrcMeets n rnti (RrcMessage.decode pdu)) :
    SuspendConsistent
      (n.runRrc w (n.rrc.handleMessage (w.order n .rrcContexts) rnti pdu)) := by
  unfold RrcMeets at hmeets
  unfold RrcBs.handleMessage
  dsimp only
  generalize RrcMessage.decode pdu = msg at hmeets ⊢
  split
  · rename_i htype
    rw [htype] at hmeets
    exact onSetupRequest_consistent w h hmeets
  · rename_i htype
    rw [htype] at hmeets
    unfold RrcBs.onSetupComplete
    split
    · exact h
    · rename_i ctx hctx
      exact putState_consistent h hctx hmeets (by decide)
  · rename_i htype
    rw [htype] at hmeets
    dsimp only at hmeets
    unfold RrcBs.onRelease
    split
    · rename_i hasked
      rw [if_pos hasked] at hmeets
      exact suspendContext_consistent w h hmeets
    · rename_i hplain
      rw [if_neg hplain] at hmeets
      split
      · exact h
      · rename_i ctx hctx
        exact putState_consistent h hctx hmeets (by decide)
  · exact onResumeRequest_consistent w h _ rnti _
  · rename_i htype
    rw [htype] at hmeets
    exact onReestablishmentRequest_consistent w h hmeets
  · exact h

end Rrc

/-! ## Activity, admission and mobility -/

section Uplink

variable (w : World) {n n' : BsNode}

/-- Reactivation takes a suspended context back and leaves the others. -/
theorem findUe_reactivateContext (r : RrcBs) (rnti s : Nat) :
    (r.reactivateContext rnti).findUe s = (r.findUe s).map fun ctx =>
      if rnti = s ∧ ctx.state = .inactive then { ctx with state := .connected, resumeId := 0 }
      else ctx := by
  unfold RrcBs.reactivateContext
  split
  · rename_i hnone
    by_cases heq : rnti = s
    · subst heq
      rw [hnone]
      rfl
    · simp [heq]
  · rename_i ctx hctx
    split
    · rename_i hactive
      by_cases heq : rnti = s
      · subst heq
        simp [hctx, hactive]
      · simp [heq]
    · rename_i hinactive
      rw [RrcBs.findUe_putUe_eq]
      split
      · rename_i heq
        subst heq
        simp [hctx, not_not.mp hinactive]
      · rename_i hne
        simp [hne]

/-- User-plane activity brings both layers back. -/
theorem noteActivity_consistent (h : SuspendConsistent n) (rnti : Nat) (lcid : UInt8) :
    SuspendConsistent (n.noteActivity rnti lcid) ∧
      (cipheredLcid lcid = true → ¬ Parked (n.noteActivity rnti lcid) rnti) := by
  unfold BsNode.noteActivity
  dsimp only
  split
  · have hunparked (m : BsNode) (hflows : m.flows = (n.putFlow rnti { n.flow rnti with
        lastActivityMs := n.nowMs, suspended := false }).flows) (r : Nat) :
        Parked m r ↔ r ≠ rnti ∧ Parked n r := by
      have hput := parked_putFlow n rnti r { n.flow rnti with
        lastActivityMs := n.nowMs, suspended := false }
      rw [parked_iff] at hput ⊢
      rw [hflows, hput]
      split
      · rename_i heq
        simp [heq]
      · rename_i hne
        simp [hne]
    split
    · refine ⟨?_, fun _ hparked => ((hunparked _ rfl rnti).mp hparked).1 rfl⟩
      rw [consistent_iff] at h ⊢
      intro r ctx hctx
      rw [findUe_reactivateContext] at hctx
      obtain ⟨old, hold, rfl⟩ := Option.map_eq_some_iff.mp hctx
      obtain ⟨hstate, hid⟩ := h r old hold
      by_cases heq : rnti = r
      · subst heq
        have hparked := (hunparked { n.putFlow rnti { n.flow rnti with
          lastActivityMs := n.nowMs, suspended := false } with
            rrc := n.rrc.reactivateContext rnti } rfl rnti).not.mpr fun hboth => hboth.1 rfl
        split
        · exact agrees_of_active hparked (fun hinactive => by cases hinactive) rfl
        · rename_i hactive
          have hactive' : old.state ≠ .inactive := fun hinactive => hactive ⟨rfl, hinactive⟩
          exact agrees_of_active hparked hactive' (not_not.mp (hid.not.mpr hactive'))
      · rw [if_neg fun hboth => heq hboth.1]
        refine ⟨hstate.trans ?_, hid⟩
        exact ((hunparked _ rfl r).trans (and_iff_right (Ne.symm heq))).symm
    · rename_i hactive
      refine ⟨?_, fun _ hparked => ((hunparked _ rfl rnti).mp hparked).1 rfl⟩
      have hkept : Keeps n (n.putFlow rnti { n.flow rnti with
          lastActivityMs := n.nowMs, suspended := false }) := by
        refine fun r ctx hctx => ⟨hctx, (hunparked _ rfl r).trans ?_⟩
        refine ⟨fun hboth => hboth.2, fun hparked => ⟨?_, hparked⟩⟩
        rintro rfl
        exact hactive hparked
      exact hkept.consistent h
  · rename_i hplain
    exact ⟨h, fun hciphered => absurd hciphered hplain⟩

/-- The condition on an admission: no flow is parked at the C-RNTI it takes. -/
def AdmissionFree (n : BsNode) : Prop := ¬ Parked n n.nextHoCrnti

/-- An admission needs a C-RNTI that is free of a parked flow. -/
theorem prepareHandover_consistent (h : SuspendConsistent n) (hfree : AdmissionFree n)
    (ctx : HoContext) : SuspendConsistent (n.prepareHandover ctx) := by
  have hflow : Keeps n (n.putFlow n.nextHoCrnti
      { n.flow n.nextHoCrnti with upKey := ctx.upKey, secOn := ctx.secOn }) :=
    keeps_of_serves (BsNode.putFlow_serves (.inr trivial) rfl rfl)
  have hparked : ¬ Parked (n.putFlow n.nextHoCrnti
      { n.flow n.nextHoCrnti with upKey := ctx.upKey, secOn := ctx.secOn }) n.nextHoCrnti := by
    rw [parked_putFlow, if_pos rfl]
    exact hfree
  have hagrees : Agrees (n.putFlow n.nextHoCrnti
      { n.flow n.nextHoCrnti with upKey := ctx.upKey, secOn := ctx.secOn }) n.nextHoCrnti
      { cRnti := n.nextHoCrnti, state := .connected } :=
    agrees_of_active hparked (fun hstate => by cases hstate) rfl
  exact putUe_consistent (hflow.consistent h) (fun _ _ _ hs => hs) hagrees

/-- The condition on a message of a link. -/
def LinkMeets (n : BsNode) (link : Link) (m : CnMessage) : Prop :=
  match link, m.msgType with
  | .xn, .other 40 => (BsNode.xnPrepareContext n.config.cellId m.value).isSome → AdmissionFree n
  | .xn, _ => True
  | .amf, .hoCommand | .upf, .hoCommand =>
    (BsNode.hoCommandContext n.config.cellId m.value).isSome → AdmissionFree n
  | _, _ => True

theorem handleCnMessage_consistent (h : SuspendConsistent n) (m : CnMessage)
    (hmeets : m.msgType = .hoCommand →
      (BsNode.hoCommandContext n.config.cellId m.value).isSome → AdmissionFree n) :
    SuspendConsistent (n.handleCnMessage w m) := by
  unfold BsNode.handleCnMessage
  split
  · exact (onDownlinkNas_keeps n m.value).consistent h
  · exact (onSessionKey_keeps n m.value).consistent h
  · rename_i htype
    unfold BsNode.onHoCommand
    split
    · exact h
    · rename_i ctx hctx
      have hadmitted := prepareHandover_consistent h (hmeets htype (by rw [hctx]; rfl)) ctx
      dsimp only
      split
      · exact (record_keeps _ _ _).consistent hadmitted
      · exact hadmitted
  · exact (onHoPrepared_keeps w n m.value).consistent h
  · exact (keeps_of_serves (BsNode.onDlData_serves n trivial)).consistent h
  · exact h

theorem handleLinkMessage_consistent (h : SuspendConsistent n) (link : Link) (m : CnMessage)
    (hmeets : LinkMeets n link m) : SuspendConsistent (n.handleLinkMessage w link m) := by
  cases link with
  | amf =>
    refine handleCnMessage_consistent w h m fun htype => ?_
    simpa only [LinkMeets, htype] using hmeets
  | upf =>
    refine handleCnMessage_consistent w h m fun htype => ?_
    simpa only [LinkMeets, htype] using hmeets
  | xn =>
    simp only [BsNode.handleLinkMessage, BsNode.handleXnMessage]
    split
    · rename_i htype
      simp only [LinkMeets, htype] at hmeets
      unfold BsNode.onXnPrepare
      split
      · exact h
      · rename_i ctx hctx
        exact (record_keeps _ _ _).consistent
          (prepareHandover_consistent h (hmeets (by rw [hctx]; rfl)) ctx)
    · exact (onXnPrepareAck_keeps n m.value).consistent h
    · exact (keeps_of_serves (BsNode.onXnFwdData_serves w n m.value)).consistent h
    · unfold BsNode.onXnComplete
      split
      · exact h
      · exact (completeHo_keeps w n _).consistent h
    · exact h

/-- The condition on a send: what is answered inside it finds the admissions free. -/
def SendMeets (n : BsNode) (link : Link) (m : CnMessage) : Prop :=
  match n.script with
  | [] => True
  | replies :: rest =>
    StepsMeet (fun n r => some (n.handleLinkMessage w link r)) (fun n r => LinkMeets n link r)
      ({ n with script := rest }.record link m)
      (replies.filter fun r => BsNode.answersTo m.msgType r.msgType)

/-- The answers inside a `send` are messages like any other. -/
theorem send_consistent (h : SuspendConsistent n) {link : Link} {m : CnMessage}
    (hmeets : SendMeets w n link m) : SuspendConsistent (n.send w link m) := by
  unfold SendMeets at hmeets
  unfold BsNode.send
  split
  · exact (record_keeps n link m).consistent h
  · rename_i replies rest hscript
    rw [hscript] at hmeets
    have hrecorded : SuspendConsistent ({ n with script := rest }.record link m) :=
      (keeps_of_tables rfl rfl : Keeps n _).consistent h
    exact runFrom_invariant_of_meets SuspendConsistent
      (fun _ r _ hn hr hstep => Option.some.inj hstep ▸ handleLinkMessage_consistent w hn link r hr)
      hrecorded hmeets (runFrom_total _ _ _)

/-- The condition on a handover request: it goes to the AMF, and what the AMF answers inside
the send finds the admissions free. -/
def HandoverMeets (n : BsNode) (crnti targetCell : Nat) : Prop :=
  crnti ∈ n.flows → n.config.hoCoordinator = false → n.config.amf = true →
    SendMeets w { n with hoLog := n.hoLog ++ [.started crnti targetCell] } .amf
      ⟨.hoRequired, putU32 (n.hoContext w crnti).tmsi ++ putU16 targetCell ++
        BsNode.contextBlob (n.hoContext w crnti)⟩

theorem requestHandover_consistent (h : SuspendConsistent n) {crnti targetCell : Nat}
    (hmeets : HandoverMeets w n crnti targetCell) :
    SuspendConsistent (n.requestHandover w crnti targetCell) := by
  unfold BsNode.requestHandover
  split
  · exact h
  · rename_i hflow
    split
    · exact (requestCoordinator_keeps n crnti targetCell).consistent h
    · rename_i hcoordinator
      split
      · rename_i hamf
        have hstarted : SuspendConsistent { n with
            hoLog := n.hoLog ++ [.started crnti targetCell] } := h
        have hsent := send_consistent w hstarted
          (hmeets (not_not.mp hflow) (by simpa using hcoordinator) hamf)
        exact (keeps_of_tables rfl rfl : Keeps _ _).consistent hsent
      · split
        · exact (requestXn_keeps w n crnti targetCell).consistent h
        · exact h

end Uplink

/-! ## Steps -/

section Steps

variable (w : World) {n n' : BsNode}

/-- The condition on an SDU: only RRC and what moves a handover can break the agreement. -/
def SduMeets (rnti : Nat) (n : BsNode) (entry : UInt8 × Bytes) : Prop :=
  entry.1 = lcidCcch →
    match (RrcMessage.decode entry.2).msgType with
    | .measReport =>
      n.config.autoHandover = true →
        ∀ targetCell ∈ BsNode.measTarget n.config.cellId (RrcMessage.decode entry.2).value,
          HandoverMeets w n rnti targetCell
    | .hoComplete => True
    | _ => RrcMeets n rnti (RrcMessage.decode entry.2)

/-- Step lemma for one SDU of the uplink. -/
theorem handleSdu_consistent {rnti : Nat} {entry : UInt8 × Bytes} (h : SuspendConsistent n)
    (hmeets : SduMeets w rnti n entry) :
    SuspendConsistent (BsNode.handleSdu w rnti n entry) := by
  have hturn := BsNode.handleSdu_turn w n rnti entry
  revert hturn
  generalize BsNode.handleSdu w rnti n entry = n'
  intro hturn
  cases hturn with
  | empty => exact h
  | moved hmoves _ _ hmoved =>
    cases hmoved with
    | unmoved => exact h
    | requested htype hauto htarget =>
      have hrequest := hmeets rfl
      simp only [htype] at hrequest
      exact requestHandover_consistent w h (hrequest hauto _ htarget)
    | completed => exact (completeHo_keeps w n _).consistent h
    | notified =>
      exact ((completeHo_keeps w n _).trans (record_keeps _ _ _)).consistent h
  | @rrc sdu hplain =>
    refine handleRrc_consistent w h rnti sdu ?_
    have hrrc := hmeets rfl
    dsimp only at hrrc
    split at hrrc
    · rename_i htype
      exact absurd ⟨rfl, .inl htype⟩ hplain
    · rename_i htype
      exact absurd ⟨rfl, .inr htype⟩ hplain
    · exact hrrc
  | nas =>
    obtain ⟨hactive, hunparked⟩ := noteActivity_consistent h rnti lcidNasDcch
    exact (handleNasSdu_keeps w (fun _ _ => hunparked rfl) _).consistent hactive
  | harqAck => exact (keeps_of_serves (BsNode.handleHarqAck_serves trivial n _)).consistent h
  | cqiReport => exact (keeps_of_serves (BsNode.handleCqiReport_serves trivial n _)).consistent h
  | @app lcid =>
    have hactive := (noteActivity_consistent h rnti lcid).1
    exact (keeps_of_serves (BsNode.handleAppSdu_serves w trivial _ _ _)).consistent hactive
  | status => exact (keeps_of_serves (BsNode.handleStatusSdu_serves trivial n _ _)).consistent h
  | unassigned => exact h

/-- The condition on a flow's turn in `sweep_inactive`: it suspends with a fresh identity. -/
def SweepMeets (n : BsNode) (rnti : Nat) : Prop :=
  ∀ f ∈ n.flows[rnti]?, f.suspended = false → f.lastActivityMs ≠ 0 →
    n.nowMs - f.lastActivityMs > n.config.inactiveMs → FreshIdentity n rnti

/-- The sweep suspends a UE with both marks and releases it with both. -/
theorem sweepInactiveFlow_consistent (h : SuspendConsistent n) {rnti : Nat}
    (hmeets : SweepMeets n rnti) : SuspendConsistent (n.sweepInactiveFlow w rnti) := by
  unfold BsNode.sweepInactiveFlow
  split
  · exact h
  · rename_i f hflow
    dsimp only
    split
    · -- both layers lose the UE
      have hkept : Keeps n { n.eraseFlow rnti with rrc := n.rrc.releaseContext rnti } := by
        intro r ctx hctx
        rw [RrcBs.findUe_releaseContext_eq] at hctx
        split at hctx
        · cases hctx
        · rename_i hne
          exact ⟨hctx, (parked_eraseFlow n rnti r).trans (and_iff_right (Ne.symm hne))⟩
      exact (hkept.trans (keeps_of_tables rfl rfl)).consistent h
    · split
      · rename_i hquiet
        exact suspendContext_consistent w h
          (hmeets f hflow hquiet.1 hquiet.2.1 hquiet.2.2.2)
      · exact h

/-- The condition on a tick: no deferred erasure meets an INACTIVE context, and the sweep
suspends with fresh identities. -/
def TickMeets (n : BsNode) (nowMs : UInt32) : Prop :=
  let begun := { n with nowMs := max nowMs n.nowMs }
  let swept := begun.eraseDeferred.sweepTpc w
  (∀ r ∈ n.pendingFlowErase, Awake n r) ∧
    (swept.config.inactiveMs ≠ 0 →
      StepsMeet (fun n r => some (n.sweepInactiveFlow w r)) SweepMeets swept (w.order swept .flows))

/-- The deferred erasures are harmless as long as their UEs are awake. -/
theorem eraseFlows_consistent (rntis : List Nat) (h : SuspendConsistent n)
    (hawake : ∀ r ∈ rntis, Awake n r) : SuspendConsistent (rntis.foldl BsNode.eraseFlow n) := by
  induction rntis generalizing n with
  | nil => exact h
  | cons r rntis ih =>
    have hkept : Keeps n (n.eraseFlow r) := by
      refine eraseFlow_keeps fun ctx hctx => ?_
      exact (consistent_iff.mp h r ctx hctx).1.not.mp (hawake r List.mem_cons_self ctx hctx)
    exact ih (hkept.consistent h) fun s hs => hawake s (List.mem_cons_of_mem r hs)

/-- Step lemma for a tick. -/
theorem tick_consistent (h : SuspendConsistent n) {nowMs : UInt32}
    (hmeets : TickMeets w n nowMs) : SuspendConsistent (n.tick w nowMs) := by
  obtain ⟨hdeferred, hsweep⟩ := hmeets
  have herased : SuspendConsistent ({ n with nowMs := max nowMs n.nowMs } : BsNode).eraseDeferred :=
    (keeps_of_tables rfl rfl : Keeps _ _).consistent
      (eraseFlows_consistent (n := { n with nowMs := max nowMs n.nowMs }) n.pendingFlowErase h
        hdeferred)
  have htpc := (keeps_of_serves (BsNode.sweepTpc_serves w _)).consistent herased
  unfold BsNode.tick
  dsimp only
  refine (keeps_of_serves (BsNode.scheduleDownlink_serves w _)).consistent ?_
  unfold BsNode.sweepInactive
  split
  · exact htpc
  · rename_i hinactive
    exact runFrom_invariant_of_meets SuspendConsistent
      (fun _ _ _ hn hr hstep => Option.some.inj hstep ▸ sweepInactiveFlow_consistent w hn hr)
      htpc (hsweep hinactive) (runFrom_total _ _ _)

/-- The condition on what random access hands to RRC. -/
def AccessMeets (n : BsNode) : RachBsOutput → Prop
  | .ccch crnti payload => RrcMeets n crnti (RrcMessage.decode payload)
  | .msg2 _ | .msg4 _ => True

instance (n : BsNode) (out : RachBsOutput) : Decidable (AccessMeets n out) := by
  unfold AccessMeets
  split <;> infer_instance

/-- The condition on a frame. -/
def FrameMeets (n : BsNode) (f : AirFrame) (snr : ℚ) : Prop :=
  match f.type with
  | .msg3Ccch => f.payload.length ≥ 4 →
    ∀ out ∈ (n.rach.onMsg3Received (getU16 f.payload 1) f.payload).2, AccessMeets n out
  | .data =>
    match n.receiveData f.rnti f.payload snr with
    | .error _ => True
    | .ok r => BsNode.SdusMeet w f.rnti (SduMeets w f.rnti) r.1 r.2
  | _ => True

theorem onMsg3Received_consistent (h : SuspendConsistent n) (raRnti : Nat) (msg3 : Bytes)
    (hmeets : ∀ out ∈ (n.rach.onMsg3Received raRnti msg3).2, AccessMeets n out) :
    SuspendConsistent (n.runRach w (n.rach.onMsg3Received raRnti msg3)) := by
  unfold RachBs.onMsg3Received at hmeets ⊢
  split
  · exact h
  · rename_i ctx hctx
    rw [hctx] at hmeets
    dsimp only [BsNode.runRach, List.foldl, BsNode.onRachOutput] at hmeets ⊢
    split
    · rename_i hlong
      rw [if_pos hlong] at hmeets
      have hccch : RrcMeets n n.rach.nextCrnti (RrcMessage.decode (msg3.drop 3)) :=
        hmeets _ (List.mem_cons_of_mem _ List.mem_cons_self)
      dsimp only [List.foldl, BsNode.onRachOutput]
      refine handleRrc_consistent w ?_ n.rach.nextCrnti (msg3.drop 3) hccch
      exact h
    · exact h

/-- Step lemma for a frame. -/
theorem handleAirFrame_consistent (h : SuspendConsistent n) {f : AirFrame} {snr : ℚ}
    (hmeets : FrameMeets w n f snr) (hhandle : n.handleAirFrame w f snr = .ok n') :
    SuspendConsistent n' := by
  unfold FrameMeets at hmeets
  unfold BsNode.handleAirFrame at hhandle
  split at hhandle
  · obtain rfl := Except.ok.inj hhandle
    split
    · unfold RachBs.onPrachReceived
      split
      · exact h
      · exact h
    · exact h
  · rename_i htype
    rw [htype] at hmeets
    obtain rfl := Except.ok.inj hhandle
    split
    · rename_i hlong
      exact onMsg3Received_consistent w h _ _ (hmeets hlong)
    · exact h
  · rename_i htype
    rw [htype] at hmeets
    dsimp only at hmeets
    unfold BsNode.handleDlData at hhandle
    split at hhandle
    · cases hhandle
    · rename_i m sdus hreceive
      rw [hreceive] at hmeets
      obtain rfl := Except.ok.inj hhandle
      have hreceived : SuspendConsistent m :=
        (keeps_of_serves (BsNode.receiveData_serves trivial hreceive)).consistent h
      exact BsNode.handleSdus_invariant w SuspendConsistent
        (fun _ _ hm hentry => handleSdu_consistent w hm hentry) hreceived hmeets
  · obtain rfl := Except.ok.inj hhandle
    exact h
  · obtain rfl := Except.ok.inj hhandle
    exact h

/-- The condition on a step. -/
def StepMeets (n : BsNode) (s : BsNode.Step) : Prop :=
  match s.event with
  | .frame f snr => FrameMeets w (n.answered s) f snr
  | .sdu rnti lcid sdu => SduMeets w rnti (n.answered s) (lcid, sdu)
  | .tick nowMs => TickMeets w (n.answered s) nowMs
  | .link link m => LinkMeets (n.answered s) link m
  | .requestHandover crnti targetCell => HandoverMeets w (n.answered s) crnti targetCell
  | .prepareHandover _ => AdmissionFree (n.answered s)
  | _ => True

/-- Step lemma for every event. -/
theorem step_consistent {s : BsNode.Step} (h : SuspendConsistent n) (hmeets : StepMeets w n s)
    (hstep : n.step w s = some n') : SuspendConsistent n' := by
  have hstart : SuspendConsistent (n.answered s) := h
  obtain ⟨event, script, answers⟩ := s
  unfold BsNode.step at hstep
  unfold StepMeets at hmeets
  cases event with
  | frame f snr => exact handleAirFrame_consistent w hstart hmeets (ok_of_toOption hstep)
  | receive rnti payload snr =>
    obtain ⟨⟨m, sdus⟩, hreceive, rfl⟩ := Option.map_eq_some_iff.mp hstep
    exact (keeps_of_serves
      (BsNode.receiveData_serves trivial (ok_of_toOption hreceive))).consistent hstart
  | sdu rnti lcid sdu =>
    obtain rfl := Option.some.inj hstep
    exact handleSdu_consistent w hstart hmeets
  | tick nowMs =>
    obtain rfl := Option.some.inj hstep
    exact tick_consistent w hstart hmeets
  | link link m =>
    obtain rfl := Option.some.inj hstep
    exact handleLinkMessage_consistent w hstart link m hmeets
  | requestHandover crnti targetCell =>
    obtain rfl := Option.some.inj hstep
    exact requestHandover_consistent w hstart hmeets
  | prepareHandover ctx =>
    obtain rfl := Option.some.inj hstep
    exact prepareHandover_consistent hstart hmeets ctx
  | page imsi =>
    obtain rfl := Option.some.inj hstep
    exact hstart
  | broadcast =>
    obtain rfl := Option.some.inj hstep
    exact (keeps_of_serves (BsNode.broadcastSib_serves _)).consistent hstart
  | setSib broadcasting enabled =>
    obtain rfl := Option.some.inj hstep
    exact hstart

end Steps

end Suspension

open Suspension

/-- In every run in which no SETUP_COMPLETE and no plain RELEASE meets an INACTIVE context, no
SETUP_REQUEST, re-establishment without a flow or admission meets a parked flow, no deferred
erasure meets an INACTIVE context and no suspension takes the identity 0: RRC and the flows
agree on who is suspended. -/
theorem suspension_consistent (w : World) (config : BsNodeConfig) (keys : Bytes → Option Key256)
    {steps : List BsNode.Step} {n : BsNode}
    (hrun : runFrom (BsNode.step w) (BsNode.make config keys) steps = some n)
    (hmeets : StepsMeet (BsNode.step w) (StepMeets w) (BsNode.make config keys) steps) :
    SuspendConsistent n := by
  have hinit : SuspendConsistent (BsNode.make config keys) := by
    intro r ctx hctx
    simp [BsNode.make, RrcBs.make, RrcBs.findUe] at hctx
  exact runFrom_invariant_of_meets SuspendConsistent (fun _ _ _ => step_consistent w) hinit hmeets
    hrun

namespace Suspension

/-- Random access with the message in MSG3. -/
def accessWith (msg : RrcMessage) : List BsNode.Step :=
  [{ event := .frame ⟨.msg1Prach, 0, [1, 0]⟩ (-100) },
    { event := .frame ⟨.msg3Ccch, 0, 3 :: (putU16 0x4300 ++ msg.encode)⟩ (-100) }]

/-- An RRC message of the UE with C-RNTI 1. -/
def uplinkRrc (msg : RrcMessage) : BsNode.Step := { event := .sdu 1 lcidCcch msg.encode }

def setupComplete : BsNode.Step := uplinkRrc { msgType := .setupComplete }

/-- UE 1 comes to the cell and asks to be suspended. -/
def parked : List BsNode.Step :=
  accessWith { msgType := .setupRequest, value := putU16 1 } ++
    [setupComplete, uplinkRrc { msgType := .release, value := putU16 1 ++ [2] }]

def resumed : List BsNode.Step :=
  accessWith { msgType := .resumeRequest, value := putU32 (RrcBs.resumeIdentity 1 1) }

end Suspension

/-- A UE is suspended under C-RNTI 1 and resumes under C-RNTI 2. -/
theorem suspension_consistent_resumed :
    ∃ n n', runFrom (BsNode.step .plain) (BsNode.make {} fun _ => none) parked = some n ∧
      runFrom (BsNode.step .plain) (BsNode.make {} fun _ => none) (parked ++ resumed) = some n' ∧
      n.rrc.findUe 1 = some { cRnti := 1, state := .inactive, resumeId := 65537 } ∧
      n'.rrc.findUe 2 = some { cRnti := 2, state := .connected } ∧ SuspendConsistent n' := by
  obtain ⟨n', hrun, hmeets, hresumed⟩ : ∃ n',
      runFrom (BsNode.step .plain) (BsNode.make {} fun _ => none) (parked ++ resumed) = some n' ∧
      StepsMeet (BsNode.step .plain) (StepMeets .plain) (BsNode.make {} fun _ => none)
        (parked ++ resumed) ∧
      n'.rrc.findUe 2 = some { cRnti := 2, state := .connected } := by
    refine ⟨_, rfl, ?_, by decide⟩
    refine .cons trivial rfl (.cons (fun _ => ?_) rfl (.cons (fun _ => ?_) rfl
      (.cons (fun _ => ?_) rfl (.cons trivial rfl (.cons (fun _ => ?_) rfl trivial)))))
    · decide
    · change RrcMeets _ _ _
      decide
    · change RrcMeets _ _ _
      decide
    · decide
  exact ⟨_, n', rfl, hrun, by decide, hresumed,
    suspension_consistent .plain {} (fun _ => none) hrun hmeets⟩

/-- A second SETUP_COMPLETE connects the context of a suspended UE: its flow stays parked and
its resume identity stays. -/
theorem suspension_broken_by_late_setup_complete :
    ∃ n, runFrom (BsNode.step .plain) (BsNode.make {} fun _ => none)
        (parked ++ [setupComplete]) = some n ∧
      n.rrc.findUe 1 = some { cRnti := 1, state := .connected, resumeId := 65537 } ∧
      Parked n 1 ∧ ¬ SuspendConsistent n := by
  refine ⟨_, rfl, by decide, by decide, fun hconsistent => ?_⟩
  have hinactive := (hconsistent 1 { cRnti := 1, state := .connected, resumeId := 65537 }
    (by decide)).2.mp (by decide)
  cases hinactive

end AetherStack.Guarantees
