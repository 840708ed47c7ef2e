import AetherStack.Source.BsTables

/-!
# DATA frames of UEs that are not of the cell

The check for a context of the sender stands before the HARQ receiver only. A frame that is
not HARQ-framed, or that comes with a measurement, reaches `flow(rnti)`, the handlers of the
logical channels and RRC whoever sent it. `Ignored` lists the SDUs that do nothing there, and
`Silent` the frames made of them.
-/
namespace AetherStack.Guarantees
open Source Source.Mac Source.Rrc Source.Core Lib

namespace ForeignFrames

/-- What a frame of somebody else should do: no table changes and nothing is sent. -/
structure LeftAlone (n n' : BsNode) : Prop where
  flows : n'.flows = n.flows
  tmsiToCrnti : n'.tmsiToCrnti = n.tmsiToCrnti
  rrcContexts : n'.rrc.ueContexts = n.rrc.ueContexts
  nasContexts : n'.nas.ueContexts = n.nas.ueContexts
  initiatedHo : n'.initiatedHo = n.initiatedHo
  air : n'.air = n.air
  sent : n'.sent = n.sent

/-- A MEAS_REPORT that asks for no handover. -/
def NoTrigger (n : BsNode) (rnti : Nat) (value : Bytes) : Prop :=
  rnti ∉ n.flows ∨ n.config.autoHandover = false ∨
    BsNode.measTarget n.config.cellId value = none ∨
    n.config.hoCoordinator = false ∧ n.config.amf = false ∧ n.config.xn = false

/-- A HO_COMPLETE of a C-RNTI no handover knows. -/
def NoHandover (w : World) (n : BsNode) (value : Bytes) : Prop :=
  value.length < 2 ∨
    n.completingSource w (getU16 value 0) = none ∧
      (getU16 value 0 ∉ n.hoPrepared ∨ n.config.xn = false)

def IgnoredRrc (w : World) (n : BsNode) (rnti : Nat) (msg : RrcMessage) : Prop :=
  match msg.msgType with
  | .measReport => NoTrigger n rnti msg.value
  | .hoComplete => NoHandover w n msg.value
  | .setupRequest => n.rrc.foreignCell msg.value = true
  | .resumeRequest => n.rrc.ownsResumeId (getU32 msg.value 0) = false
  | .reestablishmentRequest => False
  | _ => True

/-- A logical channel that `handle_dl_data` has no branch for. -/
def Unassigned (lcid : UInt8) : Prop :=
  lcid ≠ lcidCcch ∧ lcid ≠ lcidNasDcch ∧ lcid ≠ lcidHarqAck ∧ lcid ≠ lcidCqiReport ∧
    qciOfLcid lcid = none ∧ qciOfStatusLcid lcid = none

def Ignored (w : World) (n : BsNode) (rnti : Nat) (entry : UInt8 × Bytes) : Prop :=
  entry.2 = [] ∨ Unassigned entry.1 ∨ (entry.1 = lcidHarqAck ∧ entry.2.length < 2) ∨
    (entry.1 = lcidCcch ∧ IgnoredRrc w n rnti (RrcMessage.decode entry.2))

/-- No measurement, and either HARQ-framed or made of SDUs that do nothing. -/
def Silent (w : World) (n : BsNode) (rnti : Nat) (payload : Bytes) (snr : ℚ) : Prop :=
  snr ≤ -90 ∧ (isHarqFramed payload = true ∨ ∀ entry ∈ parsePdu payload, Ignored w n rnti entry)

variable (w : World) {n m : BsNode} {rnti : Nat}

/-! ### What is ignored -/

/-- The messages that are ignored change nothing at all. -/
theorem handleCcchSdu_ignored {sdu : Bytes} (hctx : n.rrc.findUe rnti = none)
    (h : IgnoredRrc w n rnti (RrcMessage.decode sdu)) : n.handleCcchSdu w rnti sdu = n := by
  unfold BsNode.handleCcchSdu
  dsimp only [RrcBs.handleMessage]
  generalize RrcMessage.decode sdu = msg at h ⊢
  unfold IgnoredRrc at h
  split
  · rename_i htype
    simp only [htype] at h
    unfold BsNode.onMeasReport
    split
    · rfl
    · rename_i hauto
      split
      · rfl
      · rename_i targetCell htarget
        unfold BsNode.requestHandover
        rcases h with hflow | hoff | hnone | ⟨hcoordinator, hamf, hxn⟩
        · rw [if_pos hflow]
        · simp [hoff] at hauto
        · rw [hnone] at htarget
          cases htarget
        · simp [hcoordinator, hamf, hxn]
  · rename_i htype
    simp only [htype] at h
    unfold BsNode.onHoComplete
    split
    · rfl
    · rename_i hlen
      rcases h with hshort | ⟨hsource, hprepared⟩
      · exact absurd hshort hlen
      · dsimp only
        have hcomplete : n.completeHo w (getU16 msg.value 0) = n := by
          simp only [BsNode.completeHo, hsource]
        rw [hcomplete]
        split
        · rfl
        · rename_i ctx hget
          have hknown : getU16 msg.value 0 ∈ n.hoPrepared :=
            Std.ExtTreeMap.mem_iff_isSome_getElem?.mpr (by rw [hget]; rfl)
          rw [if_neg]
          rcases hprepared with hnot | hxn
          · exact absurd hknown hnot
          · rw [hxn]
            decide
  · cases htype : msg.msgType <;> simp only [htype] at h ⊢ <;>
      simp_all [RrcBs.onSetupRequest, RrcBs.onSetupComplete, RrcBs.onRelease, RrcBs.suspendContext,
        RrcBs.onResumeRequest, BsNode.runRrc]

theorem cipheredLcid_eq_false {lcid : UInt8} (h : Unassigned lcid ∨ lcid = lcidHarqAck ∨ lcid = lcidCcch) :
    cipheredLcid lcid = false := by
  rcases h with ⟨-, hnas, -, -, hdata, -⟩ | rfl | rfl
  · simp [cipheredLcid, hnas, hdata]
  · decide
  · decide

theorem handleSdu_ignored {entry : UInt8 × Bytes} (hctx : n.rrc.findUe rnti = none)
    (h : Ignored w n rnti entry) : BsNode.handleSdu w rnti n entry = n := by
  obtain ⟨lcid, sdu⟩ := entry
  by_cases hempty : sdu = []
  · simp only [BsNode.handleSdu, hempty, if_true]
  · have hquiet : cipheredLcid lcid = false → n.noteActivity rnti lcid = n := by
      intro hplain
      simp only [BsNode.noteActivity, hplain, Bool.false_eq_true, if_false]
    simp only [BsNode.handleSdu, if_neg hempty]
    rcases h with hnone | hfree | ⟨rfl, hshort⟩ | ⟨rfl, hrrc⟩
    · exact absurd hnone hempty
    · rw [hquiet (cipheredLcid_eq_false (.inl hfree))]
      obtain ⟨hccch, hnas, hack, hcqi, hdata, hstatus⟩ := hfree
      simp only [if_neg hccch, if_neg hnas, if_neg hack, if_neg hcqi, hdata, hstatus]
    · rw [hquiet (cipheredLcid_eq_false (.inr (.inl rfl)))]
      have hack : n.handleHarqAck rnti sdu = n := by
        simp only [BsNode.handleHarqAck, if_pos hshort]
      rw [hack]
      rfl
    · rw [hquiet (cipheredLcid_eq_false (.inr (.inr rfl))), if_pos rfl]
      exact handleCcchSdu_ignored w hctx hrrc

/-- Run lemma over the SDUs of a PDU. -/
theorem handleSdus_ignored (hctx : n.rrc.findUe rnti = none) (sdus : List (UInt8 × Bytes))
    (h : ∀ entry ∈ sdus, Ignored w n rnti entry) :
    sdus.foldl (BsNode.handleSdu w rnti) n = n := by
  induction sdus with
  | nil => rfl
  | cons entry sdus ih =>
    rw [List.foldl_cons, handleSdu_ignored w hctx (h entry List.mem_cons_self)]
    exact ih fun entry' hentry' => h entry' (List.mem_cons_of_mem _ hentry')

/-- Without a context the HARQ receiver is not reached, so no block can make it throw. -/
theorem receiveData_foreign {payload : Bytes} {snr : ℚ} (hctx : n.rrc.findUe rnti = none) :
    n.receiveData rnti payload snr =
      .ok (n.noteSnr rnti snr, if isHarqFramed payload then [] else parsePdu payload) := by
  have hsame : (n.noteSnr rnti snr).rrc = n.rrc := by
    unfold BsNode.noteSnr
    split <;> rfl
  simp only [BsNode.receiveData, hsame, hctx, Option.isNone_none, if_true]
  split <;> rfl

/-- Under the condition a foreign frame leaves the node as it was. -/
theorem handleDlData_silent {payload : Bytes} {snr : ℚ} (hctx : n.rrc.findUe rnti = none)
    (h : Silent w n rnti payload snr) : n.handleDlData w rnti payload snr = .ok n := by
  have hsnr : n.noteSnr rnti snr = n := by
    rw [BsNode.noteSnr, if_neg (not_lt.mpr h.1)]
  simp only [BsNode.handleDlData, receiveData_foreign hctx, hsnr]
  split
  · rfl
  · rename_i hframed
    rcases h.2 with hharq | hsdus
    · exact absurd hharq hframed
    · rw [handleSdus_ignored w hctx _ hsdus]

/-! ### A flow that was opened stays -/

/-- The flow of `rnti`, once there, is there after the step. -/
def Stays (rnti : Nat) (n n' : BsNode) : Prop := rnti ∈ n.flows → rnti ∈ n'.flows

theorem Stays.refl (n : BsNode) : Stays rnti n n := fun h => h

theorem Stays.trans {n' : BsNode} (h : Stays rnti n m) (h' : Stays rnti m n') : Stays rnti n n' :=
  fun hmem => h' (h hmem)

theorem stays_of_flows (h : m.flows = n.flows) : Stays rnti n m := fun hmem => h ▸ hmem

/-- The user plane erases no flow. -/
theorem stays_of_serves (h : BsNode.Serves (fun _ => True) n m) : Stays rnti n m :=
  (h fun _ _ _ _ _ _ => trivial).kept rnti

theorem putFlow_stays (n : BsNode) (r : Nat) (f : Core.DlFlow) : Stays rnti n (n.putFlow r f) :=
  fun hmem => BsNode.mem_putFlow.mpr (.inr hmem)

theorem downlinkSend_stays (n : BsNode) (r : Nat) (lcid : UInt8) (sdu : Bytes) :
    Stays rnti n (n.downlinkSend r lcid sdu) :=
  putFlow_stays n r _

theorem commandHo_stays (n : BsNode) (source targetCell newCrnti : Nat) :
    Stays rnti n (n.commandHo source targetCell newCrnti) :=
  downlinkSend_stays n source _ _

theorem prepareHandover_stays (n : BsNode) (ctx : HoContext) : Stays rnti n (n.prepareHandover ctx) :=
  putFlow_stays n n.nextHoCrnti _

theorem learnCrnti_flows (n : BsNode) (tmsi r : Nat) : (n.learnCrnti tmsi r).1.flows = n.flows := by
  unfold BsNode.learnCrnti
  split <;> rfl

theorem completeHo_stays (n : BsNode) (newCrnti : Nat) : Stays rnti n (n.completeHo w newCrnti) := by
  have hrelease : ∀ source, Stays rnti n (n.releaseHoSource w source) := by
    intro source hmem
    unfold BsNode.releaseHoSource
    dsimp only
    split
    · exact putFlow_stays n source _ hmem
    · split
      · exact BsNode.mem_putFlow.mpr (.inr hmem)
      · exact BsNode.mem_putFlow.mpr (.inr hmem)
  unfold BsNode.completeHo
  split
  · exact .refl n
  · exact hrelease _

theorem handleCnMessage_stays (n : BsNode) (msg : CnMessage) :
    Stays rnti n (n.handleCnMessage w msg) := by
  unfold BsNode.handleCnMessage
  split
  · unfold BsNode.onDownlinkNas
    split
    · exact .refl n
    · exact (stays_of_flows (learnCrnti_flows n _ _)).trans (downlinkSend_stays _ _ _ _)
  · unfold BsNode.onSessionKey
    split
    · exact .refl n
    · exact (stays_of_flows (learnCrnti_flows n _ _)).trans (putFlow_stays _ _ _)
  · unfold BsNode.onHoCommand
    split
    · exact .refl n
    · dsimp only
      split
      · exact prepareHandover_stays n _
      · exact prepareHandover_stays n _
  · unfold BsNode.onHoPrepared
    split
    · exact .refl n
    · split
      · exact .refl n
      · exact commandHo_stays n _ _ _
  · exact stays_of_serves (BsNode.onDlData_serves n trivial)
  · exact .refl n

theorem handleXnMessage_stays (n : BsNode) (msg : CnMessage) :
    Stays rnti n (n.handleXnMessage w msg) := by
  unfold BsNode.handleXnMessage
  split
  · unfold BsNode.onXnPrepare
    split
    · exact .refl n
    · exact prepareHandover_stays n _
  · unfold BsNode.onXnPrepareAck
    split
    · exact .refl n
    · split
      · exact .refl n
      · split
        · exact .refl n
        · exact commandHo_stays _ _ _ _
  · exact stays_of_serves (BsNode.onXnFwdData_serves w n msg.value)
  · unfold BsNode.onXnComplete
    split
    · exact .refl n
    · exact completeHo_stays w n _
  · exact .refl n

theorem send_stays (n : BsNode) (link : Link) (msg : CnMessage) : Stays rnti n (n.send w link msg) := by
  refine BsNode.send_rel w (Stays rnti) .refl .trans n (fun rest _ => .refl n) ?_
  intro _ _ r _ _ n'
  cases link with
  | xn => exact handleXnMessage_stays w n' r
  | amf => exact handleCnMessage_stays w n' r
  | upf => exact handleCnMessage_stays w n' r

theorem requestHandover_stays (n : BsNode) (crnti targetCell : Nat) :
    Stays rnti n (n.requestHandover w crnti targetCell) := by
  unfold BsNode.requestHandover
  split
  · exact .refl n
  · split
    · unfold BsNode.requestCoordinator
      split
      · exact .refl n
      · exact .refl n
      · exact commandHo_stays _ _ _ _
    · split
      · exact send_stays w { n with hoLog := n.hoLog ++ [.started crnti targetCell] } _ _
      · split
        · unfold BsNode.requestXn
          split
          · exact .refl n
          · exact send_stays w { n with
              pendingXnHo := n.pendingXnHo.insert (n.hoContext w crnti).tmsi ⟨crnti, targetCell⟩
              initiatedHo := n.initiatedHo.insert crnti ⟨targetCell, 0⟩
              hoLog := n.hoLog ++ [.started crnti targetCell] } _ _
        · exact .refl n

theorem assign_snd (r : RrcBs) (hne : rnti ≠ 0) : (r.assign rnti).2 = rnti := by
  rw [RrcBs.assign, if_pos hne]

/-- A migration to a C-RNTI answers there, which makes its flow. -/
theorem migrate_opens (hne : rnti ≠ 0) (n : BsNode) (oldRnti : Nat) (ctx : BsUeContext)
    (ok : RrcMessageType) : rnti ∈ (n.runRrc w (n.rrc.migrate oldRnti rnti ctx ok)).flows := by
  unfold RrcBs.migrate
  simp only [BsNode.runRrc, List.foldl_cons, List.foldl_nil, BsNode.onRrcOutput, assign_snd _ hne]
  exact BsNode.mem_downlinkSend _ _

theorem suspendContext_stays (n : BsNode) (r : Nat) :
    Stays rnti n (n.runRrc w (n.rrc.suspendContext r)) := by
  unfold RrcBs.suspendContext
  split
  · exact .refl n
  · split
    · exact .refl n
    · exact fun hmem => putFlow_stays _ r _ (BsNode.mem_putFlow.mpr (.inr hmem))

theorem handleRrc_stays (hne : rnti ≠ 0) (n : BsNode) (pdu : Bytes) :
    Stays rnti n (n.runRrc w (n.rrc.handleMessage (w.order n .rrcContexts) rnti pdu)) := by
  have hhandled := n.rrc.handleMessage_handled (w.order n .rrcContexts) rnti pdu
  revert hhandled
  generalize n.rrc.handleMessage (w.order n .rrcContexts) rnti pdu = call
  obtain ⟨rrc, outputs⟩ := call
  intro hhandled
  dsimp only at hhandled
  cases hhandled with
  | ignored => exact .refl n
  | refused type => exact downlinkSend_stays _ _ _ _
  | setup =>
    intro _
    simp only [BsNode.runRrc, List.foldl_cons, List.foldl_nil, BsNode.onRrcOutput, assign_snd _ hne]
    exact BsNode.mem_downlinkSend _ _
  | completed => exact .refl n
  | released => exact .refl n
  | suspended => exact suspendContext_stays w n rnti
  | resumed => exact fun _ => migrate_opens w hne n _ _ _
  | reestablished => exact fun _ => migrate_opens w hne n _ _ _

theorem noteActivity_stays (n : BsNode) (lcid : UInt8) : Stays rnti n (n.noteActivity rnti lcid) := by
  unfold BsNode.noteActivity
  split
  · dsimp only
    split
    · exact putFlow_stays n rnti _
    · exact putFlow_stays n rnti _
  · exact .refl n

theorem moved_stays {n' : BsNode} {msg : RrcMessage} (h : BsNode.Moved w rnti n msg n') :
    Stays rnti n n' := by
  cases h with
  | unmoved => exact .refl n
  | requested => exact requestHandover_stays w n rnti _
  | completed => exact completeHo_stays w n _
  | notified => exact completeHo_stays w n _

/-- No SDU but a NAS message takes a flow away. -/
theorem handleSdu_stays (hne : rnti ≠ 0) (n : BsNode) {entry : UInt8 × Bytes}
    (hnas : entry.1 ≠ lcidNasDcch) : Stays rnti n (BsNode.handleSdu w rnti n entry) := by
  have hturn := BsNode.handleSdu_turn w n rnti entry
  revert hturn
  generalize BsNode.handleSdu w rnti n entry = n'
  intro hturn
  cases hturn with
  | empty => exact .refl n
  | moved _ _ _ hmoved => exact moved_stays w hmoved
  | rrc => exact handleRrc_stays w hne n _
  | nas => exact absurd rfl hnas
  | harqAck => exact stays_of_serves (BsNode.handleHarqAck_serves trivial n _)
  | cqiReport => exact stays_of_serves (BsNode.handleCqiReport_serves trivial n _)
  | app =>
    exact (noteActivity_stays n _).trans (stays_of_serves (BsNode.handleAppSdu_serves w trivial _ _ _))
  | status => exact stays_of_serves (BsNode.handleStatusSdu_serves trivial n _ _)
  | unassigned => exact .refl n

/-! ### What is not ignored shows -/

/-- All that a frame can do and leave the flow of its sender closed: complete handovers. -/
structure Shrunk (rnti : Nat) (n n' : BsNode) : Prop where
  context : n.rrc.findUe rnti = none → n'.rrc.findUe rnti = none
  sent : n.sent <+: n'.sent
  initiatedHo : ∀ s, s ∈ n'.initiatedHo → s ∈ n.initiatedHo

theorem Shrunk.refl (n : BsNode) : Shrunk rnti n n := ⟨id, List.prefix_refl _, fun _ h => h⟩

theorem Shrunk.trans {n' : BsNode} (h : Shrunk rnti n m) (h' : Shrunk rnti m n') :
    Shrunk rnti n n' :=
  ⟨fun hctx => h'.context (h.context hctx), h.sent.trans h'.sent,
    fun s hs => h.initiatedHo s (h'.initiatedHo s hs)⟩

/-- A message was sent, or a handover was completed. -/
def Shows (n n' : BsNode) : Prop :=
  n.sent.length < n'.sent.length ∨ ∃ s ∈ n.initiatedHo, s ∉ n'.initiatedHo

theorem completeHo_shrunk (n : BsNode) (newCrnti : Nat) : Shrunk rnti n (n.completeHo w newCrnti) := by
  have hrelease : ∀ source, Shrunk rnti n (n.releaseHoSource w source) := by
    intro source
    have herased : n.rrc.findUe rnti = none → (n.rrc.releaseContext source).findUe rnti = none := by
      intro hctx
      rw [RrcBs.findUe] at hctx ⊢
      rw [RrcBs.releaseContext, Std.ExtTreeMap.getElem?_erase, hctx, ite_self]
    unfold BsNode.releaseHoSource
    dsimp only
    split
    · exact ⟨herased, List.prefix_refl _, fun _ h => h⟩
    · split
      · exact ⟨herased, List.prefix_append _ _, fun _ h => h⟩
      · exact ⟨herased, List.prefix_refl _, fun _ h => h⟩
  unfold BsNode.completeHo
  split
  · exact .refl n
  · rename_i source _
    refine (hrelease source).trans ⟨id, List.prefix_refl _, fun s hs => ?_⟩
    exact Std.ExtTreeMap.mem_of_mem_erase hs

/-- A completion shows: the handover is no longer recorded. -/
theorem completeHo_shows {newCrnti source : Nat} (h : n.completingSource w newCrnti = some source) :
    Shows n (n.completeHo w newCrnti) := by
  obtain ⟨-, ho, hget, -⟩ := BsNode.completingSource_some w h
  refine .inr ⟨source, Std.ExtTreeMap.mem_iff_isSome_getElem?.mpr (by rw [hget]; rfl), ?_⟩
  simp [BsNode.completeHo, h]

theorem record_shrunk (n : BsNode) (link : Link) (msg : CnMessage) :
    Shrunk rnti n (n.record link msg) :=
  ⟨id, List.prefix_append _ _, fun _ hs => hs⟩

theorem Shows.shrunk {n' : BsNode} {r : Nat} (h : Shows n m) (h' : Shrunk r m n') : Shows n n' := by
  rcases h with hsent | ⟨s, hs, hgone⟩
  · exact .inl (lt_of_lt_of_le hsent h'.sent.length_le)
  · exact .inr ⟨s, hs, fun hback => hgone (h'.initiatedHo s hback)⟩

/-- A HO_COMPLETE of a handover that is known here shows in the tables. -/
theorem onHoComplete_shows {value : Bytes} (h : ¬ NoHandover w n value) :
    Shrunk rnti n (n.onHoComplete w value) ∧ Shows n (n.onHoComplete w value) := by
  unfold NoHandover at h
  push Not at h
  obtain ⟨hlen, hknown⟩ := h
  have hcomplete : Shrunk rnti n (n.completeHo w (getU16 value 0)) :=
    completeHo_shrunk w n (getU16 value 0)
  simp only [BsNode.onHoComplete, if_neg (not_lt.mpr hlen)]
  cases hsource : n.completingSource w (getU16 value 0) with
  | some source =>
    have hshows := completeHo_shows w hsource
    split
    · exact ⟨hcomplete, hshows⟩
    · split
      · exact ⟨hcomplete.trans (record_shrunk _ _ _), hshows.shrunk (r := rnti) (record_shrunk _ _ _)⟩
      · exact ⟨hcomplete, hshows⟩
  | none =>
    -- nothing completes here, but the cell prepared this handover and tells its peer
    obtain ⟨hprepared, hxn⟩ := hknown hsource
    have hsame : n.completeHo w (getU16 value 0) = n := by
      simp only [BsNode.completeHo, hsource]
    obtain ⟨ctx, hctx⟩ :=
      Option.isSome_iff_exists.mp (Std.ExtTreeMap.mem_iff_isSome_getElem?.mp hprepared)
    simp only [hsame, hctx, if_pos (eq_true_of_ne_false hxn)]
    exact ⟨record_shrunk _ _ _, .inl (by simp [BsNode.record])⟩

/-- Every other RRC message is answered, and the answer opens a flow. -/
theorem handleRrc_opens (hne : rnti ≠ 0) {pdu : Bytes}
    (hplain : ¬ BsNode.MovesHandover lcidCcch pdu)
    (h : ¬ IgnoredRrc w n rnti (RrcMessage.decode pdu)) :
    rnti ∈ (n.runRrc w (n.rrc.handleMessage (w.order n .rrcContexts) rnti pdu)).flows := by
  unfold IgnoredRrc at h
  unfold BsNode.MovesHandover at hplain
  unfold RrcBs.handleMessage
  dsimp only
  generalize RrcMessage.decode pdu = msg at h hplain ⊢
  have hrefused : ∀ answer : Bytes,
      rnti ∈ (n.runRrc w (n.rrc, [.send rnti answer])).flows :=
    fun _ => BsNode.mem_downlinkSend _ _
  cases htype : msg.msgType <;> simp only [htype, not_true_eq_false] at h ⊢
  case measReport => exact absurd ⟨rfl, .inl htype⟩ hplain
  case hoComplete => exact absurd ⟨rfl, .inr htype⟩ hplain
  case setupRequest =>
    rw [RrcBs.onSetupRequest, if_neg h]
    simp only [assign_snd _ hne]
    exact BsNode.mem_downlinkSend _ _
  case resumeRequest =>
    unfold RrcBs.onResumeRequest
    dsimp only
    rw [if_neg (by simpa using h)]
    split
    · exact hrefused _
    · exact migrate_opens w hne n _ _ _
  case reestablishmentRequest =>
    unfold RrcBs.onReestablishmentRequest
    dsimp only
    generalize (if msg.value.length ≥ 2 then getU16 msg.value 0 else 0) = oldRnti
    split
    · exact hrefused _
    · split
      · exact hrefused _
      · exact migrate_opens w hne n _ _ _

theorem handleHarqAck_opens {sdu : Bytes} (h : 2 ≤ sdu.length) :
    rnti ∈ (n.handleHarqAck rnti sdu).flows := by
  simp only [BsNode.handleHarqAck, if_neg (not_lt.mpr h)]
  split
  · exact BsNode.mem_putFlow.mpr (.inl rfl)
  · cases (((n.flow rnti).harqTx.advance n.nowMs).onNack (sdu.getD 0 0 &&& 0x7F).toNat).2 with
    | none => exact BsNode.mem_putFlow.mpr (.inl rfl)
    | some e => exact BsNode.mem_putFlow.mpr (.inl rfl)

theorem noteActivity_opens (n : BsNode) {lcid : UInt8} {q : Qci} (h : qciOfLcid lcid = some q) :
    rnti ∈ (n.noteActivity rnti lcid).flows := by
  have hciphered : cipheredLcid lcid = true := by simp [cipheredLcid, h]
  simp only [BsNode.noteActivity, hciphered, if_true]
  split
  · exact BsNode.mem_putFlow.mpr (.inl rfl)
  · exact BsNode.mem_putFlow.mpr (.inl rfl)

/-- One SDU of a sender without context and flow that is not on the NAS channel. -/
theorem handleSdu_foreign (hne : rnti ≠ 0) (hctx : n.rrc.findUe rnti = none) (hflow : rnti ∉ n.flows)
    {entry : UInt8 × Bytes} (hnas : entry.1 ≠ lcidNasDcch) :
    rnti ∈ (BsNode.handleSdu w rnti n entry).flows ∨
      Shrunk rnti n (BsNode.handleSdu w rnti n entry) ∧
        (¬ Ignored w n rnti entry → Shows n (BsNode.handleSdu w rnti n entry)) := by
  by_cases hignored : Ignored w n rnti entry
  · rw [handleSdu_ignored w hctx hignored]
    exact .inr ⟨.refl n, fun hnot => absurd hignored hnot⟩
  · have hturn := BsNode.handleSdu_turn w n rnti entry
    revert hturn
    generalize BsNode.handleSdu w rnti n entry = n'
    intro hturn
    cases hturn with
    | empty => exact absurd (.inl rfl) hignored
    | @moved sdu _ hmoves _ heq _ =>
      have hrrc : ¬ IgnoredRrc w n rnti (RrcMessage.decode sdu) :=
        fun h => hignored (.inr (.inr (.inr ⟨rfl, h⟩)))
      subst heq
      unfold IgnoredRrc at hrrc
      unfold BsNode.handleCcchSdu
      rcases hmoves.2 with htype | htype
      · simp only [htype] at hrrc
        exact absurd (.inl hflow) hrrc
      · simp only [htype] at hrrc ⊢
        obtain ⟨hshrunk, hshows⟩ := onHoComplete_shows w hrrc
        exact .inr ⟨hshrunk, fun _ => hshows⟩
    | rrc hplain =>
      exact .inl (handleRrc_opens w hne hplain fun h => hignored (.inr (.inr (.inr ⟨rfl, h⟩))))
    | nas => exact absurd rfl hnas
    | harqAck =>
      refine .inl (handleHarqAck_opens (not_lt.mp fun hshort => ?_))
      exact hignored (.inr (.inr (.inl ⟨rfl, hshort⟩)))
    | cqiReport => exact .inl (BsNode.mem_putFlow.mpr (.inl rfl))
    | app hq =>
      exact .inl (stays_of_serves (BsNode.handleAppSdu_serves w trivial _ _ _)
        (noteActivity_opens n hq))
    | status => exact .inl (BsNode.mem_putFlow.mpr (.inl rfl))
    | unassigned hccch hnas hack hcqi hdata hstatus =>
      exact absurd (.inr (.inl ⟨hccch, hnas, hack, hcqi, hdata, hstatus⟩)) hignored

/-- What shows, or has opened the flow, is not undone by the SDUs that follow. -/
theorem handleSdus_disturbed (hne : rnti ≠ 0) (hctx : n.rrc.findUe rnti = none)
    (sdus : List (UInt8 × Bytes)) (hnas : ∀ entry ∈ sdus, entry.1 ≠ lcidNasDcch)
    (h : rnti ∈ m.flows ∨ Shrunk rnti n m ∧ Shows n m) :
    rnti ∈ (sdus.foldl (BsNode.handleSdu w rnti) m).flows ∨
      Shows n (sdus.foldl (BsNode.handleSdu w rnti) m) := by
  induction sdus generalizing m with
  | nil => exact h.imp id And.right
  | cons entry sdus ih =>
    rw [List.foldl_cons]
    have hentry := hnas entry List.mem_cons_self
    refine ih (fun entry' hentry' => hnas entry' (List.mem_cons_of_mem _ hentry')) ?_
    by_cases hopen : rnti ∈ m.flows
    · exact .inl (handleSdu_stays w hne m hentry hopen)
    · rcases h with habs | ⟨hshrunk, hshows⟩
      · exact absurd habs hopen
      · rcases handleSdu_foreign w hne (hshrunk.context hctx) hopen hentry with hopened | ⟨hstep, -⟩
        · exact .inl hopened
        · exact .inr ⟨hshrunk.trans hstep, hshows.shrunk hstep⟩

/-- The SDUs before the first that is not ignored do nothing; that one shows. -/
theorem handleSdus_foreign (hne : rnti ≠ 0) (hctx : n.rrc.findUe rnti = none) (hflow : rnti ∉ n.flows)
    (sdus : List (UInt8 × Bytes)) (hnas : ∀ entry ∈ sdus, entry.1 ≠ lcidNasDcch)
    (h : ∃ entry ∈ sdus, ¬ Ignored w n rnti entry) :
    rnti ∈ (sdus.foldl (BsNode.handleSdu w rnti) n).flows ∨
      Shows n (sdus.foldl (BsNode.handleSdu w rnti) n) := by
  induction sdus with
  | nil =>
    obtain ⟨entry, hentry, -⟩ := h
    cases hentry
  | cons entry sdus ih =>
    have hrest := fun entry' hentry' => hnas entry' (List.mem_cons_of_mem _ hentry')
    rw [List.foldl_cons]
    by_cases hignored : Ignored w n rnti entry
    · rw [handleSdu_ignored w hctx hignored]
      refine ih hrest ?_
      obtain ⟨entry', hmem, hnot⟩ := h
      rcases List.mem_cons.mp hmem with rfl | hmem
      · exact absurd hignored hnot
      · exact ⟨entry', hmem, hnot⟩
    · refine handleSdus_disturbed w hne hctx sdus hrest ?_
      refine (handleSdu_foreign w hne hctx hflow (hnas entry List.mem_cons_self)).imp id ?_
      exact fun hstep => ⟨hstep.1, hstep.2 hignored⟩

/-- A flow that was not there, or a table that shows the frame, is a change. -/
theorem not_leftAlone_of_disturbed {n' : BsNode} (hflow : rnti ∉ n.flows)
    (h : rnti ∈ n'.flows ∨ Shows n n') : ¬ LeftAlone n n' := by
  intro halone
  rcases h with hopened | hsent | ⟨s, hs, hgone⟩
  · exact hflow (halone.flows ▸ hopened)
  · rw [halone.sent] at hsent
    exact lt_irrefl _ hsent
  · rw [halone.initiatedHo] at hgone
    exact hgone hs

end ForeignFrames

open ForeignFrames

/-- A silent frame of a C-RNTI without context leaves the cell alone. Conversely, if the
C-RNTI has no flow either, only a silent frame does, among those without NAS. -/
theorem foreign_frame_isolated (w : World) (n : BsNode) (rnti : Nat) (payload : Bytes) (snr : ℚ)
    (hctx : n.rrc.findUe rnti = none) :
    (Silent w n rnti payload snr →
      ∃ n', n.handleDlData w rnti payload snr = .ok n' ∧ LeftAlone n n') ∧
    (rnti ≠ 0 → rnti ∉ n.flows → (∀ entry ∈ parsePdu payload, entry.1 ≠ lcidNasDcch) →
      (∃ n', n.handleDlData w rnti payload snr = .ok n' ∧ LeftAlone n n') →
      Silent w n rnti payload snr) := by
  refine ⟨fun hsilent => ⟨n, handleDlData_silent w hctx hsilent, rfl, rfl, rfl, rfl, rfl, rfl, rfl⟩,
    fun hne hflow hnas ⟨n', hhandle, halone⟩ => ?_⟩
  simp only [BsNode.handleDlData, receiveData_foreign hctx] at hhandle
  obtain rfl := Except.ok.inj hhandle
  by_contra hloud
  refine not_leftAlone_of_disturbed hflow ?_ halone
  by_cases hsnr : snr ≤ -90
  · have hquiet : n.noteSnr rnti snr = n := by rw [BsNode.noteSnr, if_neg (not_lt.mpr hsnr)]
    unfold Silent at hloud
    push Not at hloud
    obtain ⟨hplain, hsdu⟩ := hloud hsnr
    rw [hquiet, if_neg hplain]
    exact handleSdus_foreign w hne hctx hflow _ hnas hsdu
  · -- a measurement opens the flow before anything else
    have hopened : rnti ∈ (n.noteSnr rnti snr).flows := by
      rw [BsNode.noteSnr, if_pos (not_le.mp hsnr)]
      exact BsNode.mem_putFlow.mpr (.inl rfl)
    refine handleSdus_disturbed w hne hctx _ (fun entry hentry => ?_) (.inl hopened)
    split at hentry
    · cases hentry
    · exact hnas entry hentry

/-- A RELEASE from a UE of the cell with base 0x4001. -/
theorem foreign_frame_isolated_release :
    ∃ n', (BsNode.make {} fun _ => none).handleDlData .plain 0x4005
        (buildPdu [(lcidCcch, RrcMessage.encode { msgType := .release, value := putU16 0x4005 })])
        (-100) = .ok n' ∧ LeftAlone (BsNode.make {} fun _ => none) n' := by
  refine (foreign_frame_isolated .plain (BsNode.make {} fun _ => none) 0x4005 _ (-100) ?_).1 ⟨?_, .inr ?_⟩
  · decide
  · norm_num
  · have hsdus : parsePdu (buildPdu
        [(lcidCcch, RrcMessage.encode { msgType := .release, value := putU16 0x4005 })]) =
        [(lcidCcch, RrcMessage.encode { msgType := .release, value := putU16 0x4005 })] := by
      decide
    rw [hsdus, List.forall_mem_singleton]
    refine .inr (.inr (.inr ⟨rfl, ?_⟩))
    have hdecode : RrcMessage.decode (RrcMessage.encode { msgType := .release, value := putU16 0x4005 }) =
        { msgType := .release, value := putU16 0x4005 } := by
      decide
    rw [hdecode]
    trivial

/-- A HARQ acknowledgement from that UE is not HARQ-framed: a new cell opens a flow for it. -/
theorem foreign_harq_ack_opens_flow :
    ∃ n', (BsNode.make {} fun _ => none).handleDlData .plain 0x4005
        (buildPdu [(lcidHarqAck, [0, 1])]) (-100) = .ok n' ∧
      (BsNode.make {} fun _ => none).rrc.findUe 0x4005 = none ∧
      0x4005 ∈ n'.flows ∧ ¬ LeftAlone (BsNode.make {} fun _ => none) n' := by
  have hsdus : parsePdu (buildPdu [(lcidHarqAck, [0, 1])]) = [(lcidHarqAck, [0, 1])] := by
    decide
  have hopened : 0x4005 ∈ ((BsNode.make {} fun _ => none).handleHarqAck 0x4005 [0, 1]).flows :=
    handleHarqAck_opens (by decide)
  refine ⟨(BsNode.make {} fun _ => none).handleHarqAck 0x4005 [0, 1], ?_, by decide, hopened,
    not_leftAlone_of_disturbed Std.ExtTreeMap.not_mem_empty (.inl hopened)⟩
  have hplain : isHarqFramed (buildPdu [(lcidHarqAck, [0, 1])]) = false := by decide
  have hsnr : (BsNode.make {} fun _ => none).noteSnr 0x4005 (-100) = BsNode.make {} fun _ => none := by
    rw [BsNode.noteSnr, if_neg (by norm_num)]
  simp only [BsNode.handleDlData, BsNode.receiveData, hsnr, hplain, hsdus]
  rfl

end AetherStack.Guarantees
