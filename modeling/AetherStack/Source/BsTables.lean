import AetherStack.Source.BsEffects

/-!
# The C-RNTIs in the tables of a `BsNode`

`Holds n r`: some table of the node names `r`. `Grows R n n'`: as long as the links answer
with C-RNTIs in `R`, from `n` to `n'` only C-RNTIs in `R` are new and neither counter has
moved; `Admits R n n'` says of a step in addition that it leaves the handovers alone.
-/
namespace AetherStack.Source.Core
open Mac Rrc

/-- The source side of the handovers. -/
structure Mobility where
  config : BsNodeConfig
  initiatedHo : Std.ExtTreeMap Nat InitiatedHo
  pendingXnHo : TmsiMap PendingXnHo
  hoLog : List HoEntry
  xnSignals : List CnMessage

def Control.mobility (c : Control) : Mobility :=
  ⟨c.config, c.initiatedHo, c.pendingXnHo, c.hoLog, c.xnSignals⟩

namespace BsNode

def mobility (n : BsNode) : Mobility := n.control.mobility

inductive Holds (n : BsNode) : Nat → Prop
  | context {r : Nat} : r ∈ n.rrc.ueContexts → Holds n r
  | flow {r : Nat} : r ∈ n.flows → Holds n r
  | mapped {t r : Nat} : n.tmsiToCrnti[t]? = some r → Holds n r
  | initiated {r : Nat} : r ∈ n.initiatedHo → Holds n r
  | pending {t : Nat} {p : PendingXnHo} : n.pendingXnHo[t]? = some p → Holds n p.sourceCrnti

/-- A C-RNTI is held by the tables alone. -/
theorem Holds.congr {n n' : BsNode} {r : Nat} (h : n'.Holds r) (hrrc : n'.rrc = n.rrc)
    (hflows : n'.flows = n.flows) (htmsi : n'.tmsiToCrnti = n.tmsiToCrnti)
    (hho : n'.initiatedHo = n.initiatedHo) (hxn : n'.pendingXnHo = n.pendingXnHo) : n.Holds r := by
  cases h with
  | context h => exact .context (hrrc ▸ h)
  | flow h => exact .flow (hflows ▸ h)
  | mapped h => exact .mapped (htmsi ▸ h)
  | initiated h => exact .initiated (hho ▸ h)
  | pending h => exact .pending (hxn ▸ h)

structure Grown (R : Nat → Prop) (n n' : BsNode) : Prop where
  config : n'.config = n.config
  rach : n'.rach = n.rach
  nextHoCrnti : n'.nextHoCrnti = n.nextHoCrnti
  crntiBase : n'.rrc.crntiBase = n.rrc.crntiBase
  held : ∀ r, n'.Holds r → n.Holds r ∨ R r
  script : n'.script <:+ n.script

structure Admitted (R : Nat → Prop) (n n' : BsNode) : Prop extends Grown R n n' where
  mobility : n'.mobility = n.mobility

def Grows (R : Nat → Prop) (n n' : BsNode) : Prop := n.Answers R → Grown R n n'

def Admits (R : Nat → Prop) (n n' : BsNode) : Prop := n.Answers R → Admitted R n n'

variable {R : Nat → Prop} {n n' n'' : BsNode}

theorem Grows.refl (n : BsNode) : Grows R n n :=
  fun _ => ⟨rfl, rfl, rfl, rfl, fun _ h => .inl h, List.suffix_refl _⟩

theorem Grown.trans (h : Grown R n n') (h' : Grown R n' n'') : Grown R n n'' where
  config := h'.config.trans h.config
  rach := h'.rach.trans h.rach
  nextHoCrnti := h'.nextHoCrnti.trans h.nextHoCrnti
  crntiBase := h'.crntiBase.trans h.crntiBase
  held := fun r hr => (h'.held r hr).elim (h.held r) .inr
  script := h'.script.trans h.script

theorem Grows.trans (h : Grows R n n') (h' : Grows R n' n'') : Grows R n n'' :=
  fun hans => (h hans).trans (h' (hans.of_suffix (h hans).script))

/-- What is held need not be brought in. -/
theorem Grows.absorb (rnti : Nat) (h : Grows (fun r => R r ∨ r = rnti) n n') (hheld : n.Holds rnti) :
    Grows R n n' := by
  intro hans
  have hgrown := h fun replies hreplies m hm r hr => .inl (hans replies hreplies m hm r hr)
  refine { hgrown with held := fun r hr => ?_ }
  rcases hgrown.held r hr with hold | hR | rfl
  · exact .inl hold
  · exact .inr hR
  · exact .inl hheld

theorem Admits.refl (n : BsNode) : Admits R n n := fun hans => ⟨Grows.refl n hans, rfl⟩

theorem Admits.trans (h : Admits R n n') (h' : Admits R n' n'') : Admits R n n'' := by
  intro hans
  have hfirst := h hans
  have hthen := h' (hans.of_suffix hfirst.script)
  exact ⟨hfirst.toGrown.trans hthen.toGrown, hthen.mobility.trans hfirst.mobility⟩

theorem Admits.grows (h : Admits R n n') : Grows R n n' := fun hans => (h hans).toGrown

/-- Serving the queues admits nobody. -/
theorem Serves.admits (h : Serves R n n') : Admits R n n' := by
  intro hans
  obtain ⟨hcontrol, hopened, -, -, hscript⟩ := h hans
  have hrrc : n'.rrc = n.rrc := congrArg Control.rrc hcontrol
  have htmsi : n'.tmsiToCrnti = n.tmsiToCrnti := congrArg Control.tmsiToCrnti hcontrol
  have hho : n'.initiatedHo = n.initiatedHo := congrArg Control.initiatedHo hcontrol
  have hxn : n'.pendingXnHo = n.pendingXnHo := congrArg Control.pendingXnHo hcontrol
  refine ⟨⟨congrArg Control.config hcontrol, congrArg Control.rach hcontrol,
    congrArg Control.nextHoCrnti hcontrol, by rw [hrrc], fun r hr => ?_, hscript⟩,
    congrArg Control.mobility hcontrol⟩
  cases hr with
  | context hctx => exact .inl (.context (hrrc ▸ hctx))
  | flow hflow => exact (hopened r hflow).imp .flow id
  | mapped ht => exact .inl (.mapped (htmsi ▸ ht))
  | initiated hs => exact .inl (.initiated (hho ▸ hs))
  | pending hp => exact .inl (.pending (hxn ▸ hp))

/-! ### Writes to one table -/

/-- A context may be opened where the C-RNTI is held or named. -/
theorem admits_rrc (n : BsNode) {rrc : RrcBs} (hbase : rrc.crntiBase = n.rrc.crntiBase)
    (hkeys : ∀ r, r ∈ rrc.ueContexts → n.Holds r ∨ R r) : Admits R n { n with rrc := rrc } := by
  intro _
  refine ⟨⟨rfl, rfl, rfl, hbase, fun r hr => ?_, List.suffix_refl _⟩, rfl⟩
  cases hr with
  | context hctx => exact hkeys r hctx
  | flow h => exact .inl (.flow h)
  | mapped h => exact .inl (.mapped h)
  | initiated h => exact .inl (.initiated h)
  | pending h => exact .inl (.pending h)

theorem admits_flows (n : BsNode) {flows : Std.ExtTreeMap Nat DlFlow}
    (hkeys : ∀ r, r ∈ flows → n.Holds r ∨ R r) : Admits R n { n with flows := flows } := by
  intro _
  refine ⟨⟨rfl, rfl, rfl, rfl, fun r hr => ?_, List.suffix_refl _⟩, rfl⟩
  cases hr with
  | context h => exact .inl (.context h)
  | flow hflow => exact hkeys r hflow
  | mapped h => exact .inl (.mapped h)
  | initiated h => exact .inl (.initiated h)
  | pending h => exact .inl (.pending h)

theorem admits_tmsi (n : BsNode) {tmsiToCrnti : TmsiMap Nat}
    (hvalues : ∀ t r : Nat, tmsiToCrnti[t]? = some r → n.Holds r ∨ R r) :
    Admits R n { n with tmsiToCrnti := tmsiToCrnti } := by
  intro _
  refine ⟨⟨rfl, rfl, rfl, rfl, fun r hr => ?_, List.suffix_refl _⟩, rfl⟩
  cases hr with
  | context h => exact .inl (.context h)
  | flow h => exact .inl (.flow h)
  | mapped h => exact hvalues _ r h
  | initiated h => exact .inl (.initiated h)
  | pending h => exact .inl (.pending h)

/-- A step that writes none of the tables with C-RNTIs. -/
theorem grows_of_tables (hconfig : n'.config = n.config) (hrach : n'.rach = n.rach)
    (hnext : n'.nextHoCrnti = n.nextHoCrnti) (hrrc : n'.rrc = n.rrc) (hflows : n'.flows = n.flows)
    (htmsi : n'.tmsiToCrnti = n.tmsiToCrnti) (hho : n'.initiatedHo = n.initiatedHo)
    (hxn : n'.pendingXnHo = n.pendingXnHo) (hscript : n'.script <:+ n.script) : Grows R n n' := by
  intro _
  exact ⟨hconfig, hrach, hnext, by rw [hrrc], fun r hr => .inl (hr.congr hrrc hflows htmsi hho hxn),
    hscript⟩

/-- A step that leaves the tables alone names nobody. -/
theorem admits_of_tables (hmobility : n'.mobility = n.mobility)
    (htables : n'.rach = n.rach ∧ n'.nextHoCrnti = n.nextHoCrnti ∧ n'.rrc = n.rrc ∧
      n'.flows = n.flows ∧ n'.tmsiToCrnti = n.tmsiToCrnti)
    (hscript : n'.script <:+ n.script) : Admits R n n' := by
  intro hans
  refine ⟨grows_of_tables (congrArg Mobility.config hmobility) htables.1 htables.2.1 htables.2.2.1
    htables.2.2.2.1 htables.2.2.2.2 (congrArg Mobility.initiatedHo hmobility)
    (congrArg Mobility.pendingXnHo hmobility) hscript hans, hmobility⟩

theorem eraseFlow_admits (n : BsNode) (rnti : Nat) : Admits R n (n.eraseFlow rnti) :=
  admits_flows n fun _ hr => .inl (Holds.flow (Std.ExtTreeMap.mem_of_mem_erase hr))

theorem putFlow_admits {rnti : Nat} (f : DlFlow) (h : n.Holds rnti ∨ R rnti) :
    Admits R n (n.putFlow rnti f) := by
  refine admits_flows n fun r hr => ?_
  have hcases : r = rnti ∨ r ∈ n.flows := mem_putFlow.mp hr
  rcases hcases with rfl | hold
  · exact h
  · exact .inl (Holds.flow hold)

theorem downlinkSend_admits {rnti : Nat} (lcid : UInt8) (sdu : Bytes)
    (h : n.Holds rnti ∨ R rnti) : Admits R n (n.downlinkSend rnti lcid sdu) :=
  putFlow_admits _ h

theorem insertTmsi_admits {t rnti : Nat} (h : n.Holds rnti ∨ R rnti) :
    Admits R n { n with tmsiToCrnti := n.tmsiToCrnti.insert t rnti } := by
  refine admits_tmsi n fun t' r hr => ?_
  rw [TmsiMap.getElem?_insert_eq] at hr
  split at hr
  · obtain rfl := Option.some.inj hr
    exact h
  · exact .inl (Holds.mapped hr)

theorem eraseTmsi_admits (n : BsNode) (t : Nat) :
    Admits R n { n with tmsiToCrnti := n.tmsiToCrnti.erase t } := by
  refine admits_tmsi n fun t' r hr => ?_
  rw [TmsiMap.getElem?_erase_eq] at hr
  split at hr
  · cases hr
  · exact .inl (Holds.mapped hr)

theorem releaseContext_admits (n : BsNode) (rnti : Nat) :
    Admits R n { n with rrc := n.rrc.releaseContext rnti } :=
  admits_rrc n rfl fun _ hr => .inl (Holds.context (Std.ExtTreeMap.mem_of_mem_erase hr))

/-! ### RRC -/

section
variable (w : World)

/-- A flow moves to the C-RNTI that the message came from. -/
theorem moveFlow_admits (n : BsNode) (oldRnti : Nat) {newRnti : Nat} (h : R newRnti) :
    Admits R n (n.moveFlow oldRnti newRnti) := by
  unfold moveFlow
  split
  · exact .refl n
  · exact (eraseFlow_admits n oldRnti).trans (putFlow_admits _ (.inr h))

theorem moveTmsi_admits (n : BsNode) (oldRnti : Nat) {newRnti : Nat} (h : R newRnti) :
    Admits R n (n.moveTmsi w oldRnti newRnti) := by
  unfold moveTmsi
  split
  · exact .refl n
  · exact insertTmsi_admits (.inr h)

/-- Re-establishment moves identity and flow to the C-RNTI it answers. -/
theorem onReest_admits (n : BsNode) (oldRnti : Nat) {newRnti : Nat} (h : R newRnti) :
    Admits R n (n.onRrcOutput w (.reest oldRnti newRnti)) :=
  (moveFlow_admits n oldRnti h).trans (moveTmsi_admits w _ oldRnti h)

/-- What an event of `rnti` brings in: `rnti` itself, or anything when RRC allocates. -/
def Names (R : Nat → Prop) (rnti : Nat) : Prop := R rnti ∧ (rnti = 0 → ∀ r, R r)

/-- The C-RNTI that RRC assigns is named by the message. -/
theorem Names.assign {rnti : Nat} (h : Names R rnti) (r : RrcBs) : R (r.assign rnti).2 := by
  unfold RrcBs.assign
  split
  · exact h.1
  · rename_i hzero
    exact h.2 (not_ne_iff.mp hzero) _

theorem assign_fst (r : RrcBs) (rnti : Nat) :
    (r.assign rnti).1.ueContexts = r.ueContexts ∧ (r.assign rnti).1.crntiBase = r.crntiBase := by
  unfold RrcBs.assign
  split <;> exact ⟨rfl, rfl⟩

theorem mem_putUe {rrc : RrcBs} {rnti r : Nat} {ctx : BsUeContext} :
    r ∈ (rrc.putUe rnti ctx).ueContexts ↔ r = rnti ∨ r ∈ rrc.ueContexts := by
  rw [RrcBs.putUe, Std.ExtTreeMap.mem_insert, compare_eq_iff_eq, eq_comm]

theorem mem_of_findUe {rrc : RrcBs} {rnti : Nat} {ctx : BsUeContext}
    (h : rrc.findUe rnti = some ctx) : rnti ∈ rrc.ueContexts :=
  Std.ExtTreeMap.mem_iff_isSome_getElem?.mpr (by rw [RrcBs.findUe] at h; rw [h]; rfl)

theorem putUe_admits {rnti : Nat} (ctx : BsUeContext) (h : n.Holds rnti ∨ R rnti) :
    Admits R n { n with rrc := n.rrc.putUe rnti ctx } := by
  refine admits_rrc n rfl fun r hr => ?_
  rcases mem_putUe.mp hr with rfl | hold
  · exact h
  · exact .inl (.context hold)

/-- The call changes the contexts, then its callbacks run one after the other. -/
theorem runRrc_admits {rrc : RrcBs} {outputs : List RrcBsOutput}
    (hrrc : Admits R n { n with rrc := rrc })
    (houtputs : ∀ m : BsNode, m.rrc = rrc → m.config = n.config →
      Admits R m (outputs.foldl (onRrcOutput w) m)) : Admits R n (n.runRrc w (rrc, outputs)) :=
  hrrc.trans (houtputs _ rfl rfl)

/-- A suspension keeps the C-RNTI that it parks. -/
theorem suspendContext_admits (n : BsNode) (rnti : Nat) :
    Admits R n (n.runRrc w (n.rrc.suspendContext rnti)) := by
  unfold RrcBs.suspendContext
  split
  · exact .refl n
  · rename_i ctx hfind
    split
    · exact .refl n
    · refine runRrc_admits w (admits_rrc n rfl fun r hr => ?_) fun m hm _ => ?_
      · rcases mem_putUe.mp hr with rfl | hold
        · exact .inl (.context (mem_of_findUe hfind))
        · exact .inl (.context hold)
      · -- the context stays in the table, so both callbacks meet a C-RNTI that is held
        have hheld : rnti ∈ m.rrc.ueContexts := by
          rw [hm]
          exact mem_putUe.mpr (.inl rfl)
        simp only [List.foldl_cons, List.foldl_nil, onRrcOutput]
        refine Admits.trans ?_ (putFlow_admits _ (.inl (.context hheld)))
        exact downlinkSend_admits _ _ (.inl (.context hheld))

/-- A context that migrates goes to the C-RNTI that asked for it. -/
theorem migrate_admits {rnti : Nat} (hR : Names R rnti) (n : BsNode) (oldRnti : Nat)
    (ctx : BsUeContext) (ok : RrcMessageType) :
    Admits R n (n.runRrc w (n.rrc.migrate oldRnti rnti ctx ok)) := by
  obtain ⟨hkeys, hbase⟩ := assign_fst n.rrc rnti
  have hnamed := hR.assign n.rrc
  unfold RrcBs.migrate
  refine runRrc_admits w (admits_rrc n hbase fun r hr => ?_) fun m _ _ => ?_
  · rcases mem_putUe.mp hr with rfl | hold
    · exact .inr hnamed
    · rw [RrcBs.releaseContext, hkeys] at hold
      exact .inl (.context (Std.ExtTreeMap.mem_of_mem_erase hold))
  · simp only [List.foldl_cons, List.foldl_nil]
    refine Admits.trans (onReest_admits w m oldRnti hnamed) ?_
    exact downlinkSend_admits _ _ (.inr hnamed)

/-- No RRC message brings in a C-RNTI but the one it came from or names. -/
theorem handleRrc_admits {rnti : Nat} (hR : Names R rnti) (n : BsNode) (pdu : Bytes) :
    Admits R n (n.runRrc w (n.rrc.handleMessage (w.order n .rrcContexts) rnti pdu)) := by
  have hhandled := n.rrc.handleMessage_handled (w.order n .rrcContexts) rnti pdu
  revert hhandled
  generalize n.rrc.handleMessage (w.order n .rrcContexts) rnti pdu = call
  obtain ⟨rrc, outputs⟩ := call
  intro hhandled
  dsimp only at hhandled
  cases hhandled with
  | ignored => exact .refl n
  | refused type => exact downlinkSend_admits _ _ (.inr hR.1)
  | setup htype hown =>
    obtain ⟨hkeys, hbase⟩ := assign_fst n.rrc rnti
    refine runRrc_admits w (admits_rrc n hbase fun r hr => ?_) fun m _ _ => ?_
    · rcases mem_putUe.mp hr with rfl | hold
      · exact .inr (hR.assign n.rrc)
      · exact .inl (.context (hkeys ▸ hold))
    · exact downlinkSend_admits _ _ (.inr (hR.assign n.rrc))
  | completed htype hfind => exact putUe_admits _ (.inl (.context (mem_of_findUe hfind)))
  | released htype hfind => exact putUe_admits _ (.inl (.context (mem_of_findUe hfind)))
  | suspended htype hsome => exact suspendContext_admits w n rnti
  | resumed htype howns hfind hstate hid => exact migrate_admits w hR n _ _ _
  | reestablished htype hfind hstate => exact migrate_admits w hR n _ _ _

/-! ### NAS -/

/-- A message brings in the C-RNTI it names, unless its TMSI has one. -/
theorem learnCrnti_admits (n : BsNode) (tmsi : Nat) {rnti : Nat} (h : R rnti) :
    Admits R n (n.learnCrnti tmsi rnti).1 ∧
      ((n.learnCrnti tmsi rnti).1.Holds (n.learnCrnti tmsi rnti).2) := by
  unfold learnCrnti
  split
  · rename_i r hr
    exact ⟨.refl n, .mapped hr⟩
  · refine ⟨insertTmsi_admits (.inr h), .mapped (t := tmsi) ?_⟩
    simp

/-- Arming a key needs a flow, and opens one for a C-RNTI that is held. -/
theorem armSecurity_admits {rnti : Nat} (key : Key256) (h : n.Holds rnti) :
    Admits R n (n.armSecurity rnti key) :=
  putFlow_admits _ (.inl h)

/-- NAS answers the C-RNTI that it heard. -/
theorem onNasSend_admits {rnti : Nat} (hR : R rnti) (n : BsNode) (sent : Nat × Bytes) :
    Admits R n (onNasSend rnti n sent) := by
  obtain ⟨hlearn, hheld⟩ := learnCrnti_admits n sent.1 hR
  have hsend : Admits R n ((n.learnCrnti sent.1 rnti).1.downlinkSend
      (n.learnCrnti sent.1 rnti).2 lcidNasDcch (Pdcp.tx sent.2)) :=
    hlearn.trans (downlinkSend_admits _ _ (.inl hheld))
  unfold onNasSend
  dsimp only
  split
  · exact hsend
  · exact hsend.trans (armSecurity_admits _ (.flow (mem_downlinkSend _ _)))

theorem tearDown_admits (n : BsNode) (rnti tmsi : Nat) : Admits R n (n.tearDown rnti tmsi) := by
  have hfilter : Admits R n
      { n with tmsiToCrnti := n.tmsiToCrnti.filter fun _ crnti => crnti ≠ rnti } := by
    refine admits_tmsi n fun t r hr => .inl (.mapped (t := t) ?_)
    rw [Std.ExtTreeMap.getElem?_filter'] at hr
    exact (Option.filter_eq_some_iff.mp hr).1
  unfold tearDown
  dsimp only
  refine hfilter.trans ?_
  split
  · exact eraseFlow_admits _ rnti
  · refine Admits.trans ?_ (eraseFlow_admits _ rnti)
    exact admits_of_tables rfl ⟨rfl, rfl, rfl, rfl, rfl⟩ (List.suffix_refl _)

/-- The AMF answers an uplink NAS message with DOWNLINK_NAS and SESSION_KEY. -/
theorem answersTo_nas {sent t : CnMsgType} (hsent : sent = .initialUeMsg ∨ sent = .uplinkNas)
    (h : answersTo sent t = true) : t = .downlinkNas ∨ t = .sessionKey := by
  rcases hsent with rfl | rfl
  · unfold answersTo at h
    split at h <;> simp_all
  · unfold answersTo at h
    split at h <;> simp_all

/-- The AMF answers HANDOVER_REQUIRED with the command for the target and for the source. -/
theorem answersTo_hoRequired {t : CnMsgType} (h : answersTo .hoRequired t = true) :
    t = .hoCommand ∨ t = .hoPrepared := by
  unfold answersTo at h
  split at h <;> simp_all

theorem onDownlinkNas_admits (n : BsNode) {value : Bytes} (h : R (getU16 value 4)) :
    Admits R n (n.onDownlinkNas value) := by
  obtain ⟨hlearn, hheld⟩ := learnCrnti_admits n (getU32 value 0) h
  unfold onDownlinkNas
  split
  · exact .refl n
  · exact hlearn.trans (downlinkSend_admits _ _ (.inl hheld))

theorem onSessionKey_admits (n : BsNode) {value : Bytes} (h : R (getU16 value 4)) :
    Admits R n (n.onSessionKey value) := by
  obtain ⟨hlearn, hheld⟩ := learnCrnti_admits n (getU32 value 0) h
  unfold onSessionKey
  split
  · exact .refl n
  · exact hlearn.trans (armSecurity_admits _ hheld)

theorem send_nas_admits (n : BsNode) {m : CnMessage}
    (hm : m.msgType = .initialUeMsg ∨ m.msgType = .uplinkNas) : Admits R n (n.send w .amf m) := by
  intro hans
  refine send_rel w (Admits R) .refl .trans n
    (fun rest hrest => (script_record_serves hrest (.inl (by decide))).admits) ?_ hans
  intro replies hreplies r hr hanswer n'
  have hnamed : ∀ c, namedCrnti r = some c → R c := hans replies hreplies r hr
  simp only [handleLinkMessage, handleCnMessage]
  rcases answersTo_nas hm hanswer with htype | htype
  · simp only [htype]
    exact onDownlinkNas_admits n' (hnamed _ (by simp only [namedCrnti, htype]))
  · simp only [htype]
    exact onSessionKey_admits n' (hnamed _ (by simp only [namedCrnti, htype]))

theorem cnSendNas_admits (n : BsNode) (tmsi rnti : Nat) (nasPdu : Bytes) :
    Admits R n (n.cnSendNas w tmsi rnti nasPdu) := by
  unfold cnSendNas
  split
  · exact send_nas_admits w n (.inl rfl)
  · exact send_nas_admits w n (.inr rfl)

/-- NAS brings in the C-RNTI that it came from, and no other. -/
theorem handleNasPdu_admits {rnti : Nat} (hR : R rnti) (n : BsNode) (nasPdu : Bytes) :
    Admits R n (n.handleNasPdu w rnti nasPdu) := by
  unfold handleNasPdu
  dsimp only
  split
  · have hsend := cnSendNas_admits (R := R) w n (n.tmsiForCrnti w rnti) rnti nasPdu
    split
    · exact hsend.trans (tearDown_admits _ _ _)
    · exact hsend
  · have hnas : Admits R n { n with nas := (n.nas.handleMessage w.digest
        (w.order n .pendingAuth) (w.rand n.nas) 0 nasPdu).1 } :=
      admits_of_tables rfl ⟨rfl, rfl, rfl, rfl, rfl⟩ (List.suffix_refl _)
    have hsent := hnas.trans (Lib.foldl_rel .refl .trans
      (fun n sent => onNasSend_admits hR n sent) _
      (n.nas.handleMessage w.digest (w.order n .pendingAuth) (w.rand n.nas) 0 nasPdu).2)
    split
    · exact hsent.trans (tearDown_admits _ _ _)
    · exact hsent

theorem handleNasSdu_admits {rnti : Nat} (hR : R rnti) (n : BsNode) (sdu : Bytes) :
    Admits R n (n.handleNasSdu w rnti sdu) := by
  have htouch : Admits R n (n.touchFlow rnti) := putFlow_admits _ (.inr hR)
  unfold handleNasSdu
  dsimp only
  split
  · exact htouch
  · exact htouch.trans (handleNasPdu_admits w hR _ _)

/-! ### Uplink SDUs -/

theorem mem_reactivateContext {rrc : RrcBs} {rnti r : Nat} :
    r ∈ (rrc.reactivateContext rnti).ueContexts ↔ r ∈ rrc.ueContexts := by
  unfold RrcBs.reactivateContext
  split
  · rfl
  · rename_i ctx hfind
    split
    · rfl
    · rw [mem_putUe]
      refine ⟨fun h => h.elim (fun heq => ?_) id, .inr⟩
      rw [heq]
      exact mem_of_findUe hfind

theorem reactivateContext_base (rrc : RrcBs) (rnti : Nat) :
    (rrc.reactivateContext rnti).crntiBase = rrc.crntiBase := by
  unfold RrcBs.reactivateContext
  split
  · rfl
  · split <;> rfl

theorem noteActivity_admits {rnti : Nat} (hR : R rnti) (n : BsNode) (lcid : UInt8) :
    Admits R n (n.noteActivity rnti lcid) := by
  unfold noteActivity
  split
  · dsimp only
    have hput : Admits R n (n.putFlow rnti
        { n.flow rnti with lastActivityMs := n.nowMs, suspended := false }) :=
      putFlow_admits _ (.inr hR)
    split
    · refine hput.trans (admits_rrc _ (reactivateContext_base _ _) fun r hr => .inl (.context ?_))
      exact mem_reactivateContext.mp hr
    · exact hput
  · exact .refl n

/-! ### Tick -/

theorem eraseDeferred_admits (n : BsNode) : Admits R n n.eraseDeferred := by
  have herase := Lib.foldl_rel (Admits.refl (R := R)) .trans
    (fun n rnti => eraseFlow_admits n rnti) n n.pendingFlowErase
  exact herase.trans (admits_of_tables rfl ⟨rfl, rfl, rfl, rfl, rfl⟩ (List.suffix_refl _))

theorem sweepInactiveFlow_admits (n : BsNode) (rnti : Nat) :
    Admits R n (sweepInactiveFlow w n rnti) := by
  unfold sweepInactiveFlow
  split
  · exact .refl n
  · dsimp only
    split
    · refine Admits.trans (eraseFlow_admits n rnti) ?_
      refine Admits.trans (releaseContext_admits (n.eraseFlow rnti) rnti) ?_
      split
      · exact eraseTmsi_admits _ _
      · exact .refl _
    · split
      · exact suspendContext_admits w n rnti
      · exact .refl n

/-- The inactivity sweep parks flows, and opens none. -/
theorem sweepInactive_admits (n : BsNode) : Admits R n (n.sweepInactive w) := by
  unfold sweepInactive
  split
  · exact .refl n
  · exact Lib.foldl_rel .refl .trans (fun n rnti => sweepInactiveFlow_admits w n rnti) n _

/-- A tick names nobody. -/
theorem tick_admits (n : BsNode) (nowMs : UInt32) :
    Admits R n (n.tick w nowMs) := by
  have hnow : Admits R n
      ({ n with nowMs := max nowMs n.nowMs }.eraseDeferred) := by
    refine Admits.trans ?_ (eraseDeferred_admits _)
    exact admits_of_tables rfl ⟨rfl, rfl, rfl, rfl, rfl⟩ (List.suffix_refl _)
  unfold tick
  dsimp only
  refine hnow.trans ?_
  refine Admits.trans ?_ (scheduleDownlink_serves w _).admits
  exact (sweepTpc_serves w _).admits.trans (sweepInactive_admits w _)

/-! ### Handovers -/

theorem grows_initiated (n : BsNode) {initiatedHo : Std.ExtTreeMap Nat InitiatedHo}
    {hoLog : List HoEntry} (hkeys : ∀ s, s ∈ initiatedHo → n.Holds s ∨ R s) :
    Grows R n { n with initiatedHo := initiatedHo, hoLog := hoLog } := by
  intro _
  refine ⟨rfl, rfl, rfl, rfl, fun r hr => ?_, List.suffix_refl _⟩
  cases hr with
  | context h => exact .inl (.context h)
  | flow h => exact .inl (.flow h)
  | mapped h => exact .inl (.mapped h)
  | initiated h => exact hkeys r h
  | pending h => exact .inl (.pending h)

theorem grows_pending (n : BsNode) {pendingXnHo : TmsiMap PendingXnHo}
    (hsources : ∀ (t : Nat) (p : PendingXnHo), pendingXnHo[t]? = some p →
      n.Holds p.sourceCrnti ∨ R p.sourceCrnti) :
    Grows R n { n with pendingXnHo := pendingXnHo } := by
  intro _
  refine ⟨rfl, rfl, rfl, rfl, fun r hr => ?_, List.suffix_refl _⟩
  cases hr with
  | context h => exact .inl (.context h)
  | flow h => exact .inl (.flow h)
  | mapped h => exact .inl (.mapped h)
  | initiated h => exact .inl (.initiated h)
  | pending h => exact hsources _ _ h

/-- A handover may be recorded for a source that is held. -/
theorem insertInitiated_grows {source : Nat} (ho : InitiatedHo) (hoLog : List HoEntry)
    (h : n.Holds source ∨ R source) :
    Grows R n { n with initiatedHo := n.initiatedHo.insert source ho, hoLog := hoLog } := by
  refine grows_initiated n fun s hs => ?_
  rw [Std.ExtTreeMap.mem_insert, compare_eq_iff_eq] at hs
  rcases hs with rfl | hold
  · exact h
  · exact .inl (.initiated hold)

/-- A handover command records its source. -/
theorem commandHo_grows {source : Nat} (targetCell newCrnti : Nat)
    (h : n.Holds source ∨ R source) : Grows R n (n.commandHo source targetCell newCrnti) := by
  have hsend : Grows R n (n.downlinkSend source lcidCcch (hoCommandPdu targetCell newCrnti)) :=
    (downlinkSend_admits _ _ h).grows
  exact hsend.trans (insertInitiated_grows _ _ (.inl (.flow (mem_downlinkSend _ _))))

/-- The source an acknowledgement is for is held by its pending entry. -/
theorem onXnPrepareAck_grows (n : BsNode) (value : Bytes) : Grows R n (n.onXnPrepareAck value) := by
  unfold onXnPrepareAck
  split
  · exact .refl n
  · split
    · exact .refl n
    · rename_i p hp
      split
      · exact .refl n
      · refine Grows.absorb p.sourceCrnti ?_ (.pending hp)
        refine Grows.trans (grows_pending n fun t q hq => ?_) (commandHo_grows _ _ (.inr (.inr rfl)))
        rw [TmsiMap.getElem?_erase_eq] at hq
        split at hq
        · cases hq
        · exact .inl (.pending hq)

/-- The source that leaves may be named no longer. -/
theorem releaseHoSource_grows {oldRnti : Nat} (h : R oldRnti) :
    Grows R n (n.releaseHoSource w oldRnti) := by
  have hfinish : ∀ m : BsNode, Grows R m { m.touchFlow oldRnti with
      rrc := m.rrc.releaseContext oldRnti
      pendingFlowErase := m.pendingFlowErase ++ [oldRnti] } := by
    intro m
    have htouch : Admits R m (m.touchFlow oldRnti) := putFlow_admits _ (.inr h)
    refine (htouch.trans (releaseContext_admits (m.touchFlow oldRnti) oldRnti)).grows.trans ?_
    exact grows_of_tables rfl rfl rfl rfl rfl rfl rfl rfl (List.suffix_refl _)
  unfold releaseHoSource
  dsimp only
  split
  · exact hfinish n
  · have hnas : Admits R n { n with nas := n.nas.releaseUe (n.tmsiForCrnti w oldRnti) } :=
      admits_of_tables rfl ⟨rfl, rfl, rfl, rfl, rfl⟩ (List.suffix_refl _)
    have hreleased := hnas.trans (eraseTmsi_admits _ (n.tmsiForCrnti w oldRnti))
    split
    · refine hreleased.grows.trans (Grows.trans ?_ (hfinish _))
      exact (record_serves _ (.inl (by decide))).admits.grows
    · exact hreleased.grows.trans (hfinish _)

/-- A completion finds the record that names its C-RNTI, and never one for C-RNTI 0. -/
theorem completingSource_some {newCrnti source : Nat} (h : n.completingSource w newCrnti = some source) :
    newCrnti ≠ 0 ∧ ∃ ho, n.initiatedHo[source]? = some ho ∧ ho.newCrnti = newCrnti := by
  unfold completingSource at h
  split at h
  · cases h
  · rename_i hzero
    obtain ⟨⟨s, ho⟩, hfound, rfl⟩ := Option.map_eq_some_iff.mp h
    obtain ⟨hget, hmatch⟩ := TmsiMap.firstMatch_some hfound
    exact ⟨hzero, ho, hget, by simpa using hmatch⟩

theorem holds_of_initiated {source : Nat} {ho : InitiatedHo} (h : n.initiatedHo[source]? = some ho) :
    n.Holds source :=
  .initiated (Std.ExtTreeMap.mem_iff_isSome_getElem?.mpr (by rw [h]; rfl))

/-- Completing a handover drops its record. -/
theorem completeHo_grows (n : BsNode) (newCrnti : Nat) : Grows R n (n.completeHo w newCrnti) := by
  unfold completeHo
  split
  · exact .refl n
  · rename_i source hsource
    obtain ⟨-, ho, hget, -⟩ := completingSource_some w hsource
    dsimp only
    refine Grows.absorb source ?_ (holds_of_initiated hget)
    refine Grows.trans (releaseHoSource_grows w (.inr rfl)) ?_
    exact grows_initiated _ fun s hs => .inl (.initiated (Std.ExtTreeMap.mem_of_mem_erase hs))

/-- HO_PREPARED names the source through the table. -/
theorem preparedSource_some {tmsi targetCell source : Nat}
    (h : n.preparedSource w tmsi targetCell = some source) :
    ∃ ho, n.initiatedHo[source]? = some ho ∧ ho.targetCell = targetCell ∧
      n.tmsiForCrnti w source = tmsi := by
  have hfound := List.find?_some h
  cases hget : n.initiatedHo[source]? with
  | none =>
    rw [hget] at hfound
    cases hfound
  | some ho =>
    rw [hget] at hfound
    exact ⟨ho, rfl, by simpa using hfound⟩

/-- An answer over Xn commands the source that had asked. -/
theorem onHoPrepared_grows (n : BsNode) (value : Bytes) : Grows R n (n.onHoPrepared w value) := by
  unfold onHoPrepared
  split
  · exact .refl n
  · split
    · exact .refl n
    · rename_i source hsource
      obtain ⟨ho, hget, -⟩ := preparedSource_some w hsource
      exact commandHo_grows _ _ (.inl (holds_of_initiated hget))

theorem answersTo_xnPrepare {t : CnMsgType} (h : answersTo (.other 40) t = true) : t = .other 41 := by
  unfold answersTo at h
  split at h <;> simp_all

theorem record_grows (n : BsNode) (link : Link) (m : CnMessage) : Grows R n (n.record link m) :=
  grows_of_tables rfl rfl rfl rfl rfl rfl rfl rfl (List.suffix_refl _)

/-- A request over Xn is made for a C-RNTI with a flow. -/
theorem requestXn_grows {crnti : Nat} (targetCell : Nat) (h : crnti ∈ n.flows) :
    Grows R n (n.requestXn w crnti targetCell) := by
  unfold requestXn
  split
  · exact .refl n
  · dsimp only
    have hpending : Grows R n { n with
        pendingXnHo := n.pendingXnHo.insert (n.hoContext w crnti).tmsi ⟨crnti, targetCell⟩ } := by
      refine grows_pending n fun t p hp => ?_
      rw [TmsiMap.getElem?_insert_eq] at hp
      split at hp
      · obtain rfl := Option.some.inj hp
        exact .inl (.flow h)
      · exact .inl (.pending hp)
    have hinitiated := hpending.trans (insertInitiated_grows ⟨targetCell, 0⟩
      (n.hoLog ++ [.started crnti targetCell]) (.inl (.flow h)))
    refine hinitiated.trans (send_rel w (Grows R) .refl .trans _ (fun rest hrest => ?_) ?_)
    · exact grows_of_tables rfl rfl rfl rfl rfl rfl rfl rfl hrest
    · intro replies _ r _ hanswer n'
      have htype : r.msgType = .other 41 := answersTo_xnPrepare hanswer
      have hhandle : n'.handleLinkMessage w .xn r = n'.onXnPrepareAck r.value := by
        simp only [handleLinkMessage, handleXnMessage, htype]
      rw [hhandle]
      exact onXnPrepareAck_grows n' r.value

theorem requestCoordinator_grows {crnti : Nat} (targetCell : Nat) (h : crnti ∈ n.flows) :
    Grows R n (n.requestCoordinator crnti targetCell) := by
  unfold requestCoordinator
  split
  · exact .refl n
  · exact grows_of_tables rfl rfl rfl rfl rfl rfl rfl rfl (List.suffix_refl _)
  · rename_i newCrnti rest hanswers
    dsimp only
    have hstarted : Grows R n { n with
        answers := rest, hoLog := n.hoLog ++ [.started crnti targetCell] } :=
      grows_of_tables rfl rfl rfl rfl rfl rfl rfl rfl (List.suffix_refl _)
    exact hstarted.trans (commandHo_grows _ _ (.inl (.flow h)))

/-! ### One turn of the loop over the SDUs of a frame -/

/-- The two messages on the common channel that move a handover. -/
def MovesHandover (lcid : UInt8) (sdu : Bytes) : Prop :=
  lcid = lcidCcch ∧ ((RrcMessage.decode sdu).msgType = .measReport ∨
    (RrcMessage.decode sdu).msgType = .hoComplete)

/-- What a MEAS_REPORT or a HO_COMPLETE can do. -/
inductive Moved (w : World) (rnti : Nat) (n : BsNode) (msg : RrcMessage) : BsNode → Prop
  | unmoved : Moved w rnti n msg n
  | requested {targetCell : Nat} :
    msg.msgType = .measReport →
    n.config.autoHandover = true →
    measTarget n.config.cellId msg.value = some targetCell →
    Moved w rnti n msg (n.requestHandover w rnti targetCell)
  | completed : msg.msgType = .hoComplete → Moved w rnti n msg (n.completeHo w (getU16 msg.value 0))
  | notified (tmsi : Nat) :
    msg.msgType = .hoComplete →
    Moved w rnti n msg ((n.completeHo w (getU16 msg.value 0)).record .xn
      ⟨.other 43, putU32 tmsi ++ putU16 (getU16 msg.value 0)⟩)

/-- Everything one SDU can do, by its logical channel. -/
inductive Turn (w : World) (rnti : Nat) (n : BsNode) : UInt8 × Bytes → BsNode → Prop
  | empty (lcid : UInt8) : Turn w rnti n (lcid, []) n
  | moved {sdu : Bytes} {n' : BsNode} :
    MovesHandover lcidCcch sdu → sdu ≠ [] → n' = n.handleCcchSdu w rnti sdu →
    Moved w rnti n (RrcMessage.decode sdu) n' →
    Turn w rnti n (lcidCcch, sdu) n'
  | rrc {sdu : Bytes} :
    ¬ MovesHandover lcidCcch sdu →
    Turn w rnti n (lcidCcch, sdu)
      (n.runRrc w (n.rrc.handleMessage (w.order n .rrcContexts) rnti sdu))
  | nas {sdu : Bytes} :
    sdu ≠ [] →
    Turn w rnti n (lcidNasDcch, sdu) ((n.noteActivity rnti lcidNasDcch).handleNasSdu w rnti sdu)
  | harqAck {sdu : Bytes} : Turn w rnti n (lcidHarqAck, sdu) (n.handleHarqAck rnti sdu)
  | cqiReport {sdu : Bytes} : Turn w rnti n (lcidCqiReport, sdu) (n.handleCqiReport rnti sdu)
  | app {lcid : UInt8} {q : Qci} {sdu : Bytes} :
    qciOfLcid lcid = some q →
    Turn w rnti n (lcid, sdu) ((n.noteActivity rnti lcid).handleAppSdu w rnti q sdu)
  | status {lcid : UInt8} {q : Qci} {sdu : Bytes} :
    qciOfStatusLcid lcid = some q → Turn w rnti n (lcid, sdu) (n.handleStatusSdu rnti q sdu)
  | unassigned {lcid : UInt8} {sdu : Bytes} :
    lcid ≠ lcidCcch → lcid ≠ lcidNasDcch → lcid ≠ lcidHarqAck → lcid ≠ lcidCqiReport →
    qciOfLcid lcid = none → qciOfStatusLcid lcid = none → Turn w rnti n (lcid, sdu) n

theorem handleCcchSdu_moved (n : BsNode) (rnti : Nat) {sdu : Bytes} (h : MovesHandover lcidCcch sdu) :
    Moved w rnti n (RrcMessage.decode sdu) (n.handleCcchSdu w rnti sdu) := by
  unfold handleCcchSdu
  dsimp only
  rcases h.2 with htype | htype
  · simp only [htype, onMeasReport]
    split
    · exact .unmoved
    · rename_i hauto
      split
      · exact .unmoved
      · rename_i targetCell htarget
        exact .requested htype (by simpa using hauto) htarget
  · simp only [htype, onHoComplete]
    split
    · exact .unmoved
    · split
      · exact .completed htype
      · split
        · exact .notified _ htype
        · exact .completed htype

/-- Only NAS and data are user-plane activity. -/
theorem noteActivity_plain (n : BsNode) (rnti : Nat) {lcid : UInt8} (hnas : lcid ≠ lcidNasDcch)
    (hdata : qciOfLcid lcid = none) : n.noteActivity rnti lcid = n := by
  simp [noteActivity, cipheredLcid, hnas, hdata]

/-- One SDU of a MAC PDU either moves a handover or serves the C-RNTI it came from. -/
theorem handleSdu_turn (n : BsNode) (rnti : Nat) (entry : UInt8 × Bytes) :
    Turn w rnti n entry (handleSdu w rnti n entry) := by
  obtain ⟨lcid, sdu⟩ := entry
  unfold handleSdu
  dsimp only
  split
  · rename_i hempty
    rw [hempty]
    exact .empty lcid
  · rename_i hempty
    split
    · rename_i hccch
      subst hccch
      rw [noteActivity_plain n rnti (by decide) (by decide)]
      by_cases hmoves : MovesHandover lcidCcch sdu
      · exact .moved hmoves hempty rfl (handleCcchSdu_moved w n rnti hmoves)
      · have hrrc : n.handleCcchSdu w rnti sdu =
            n.runRrc w (n.rrc.handleMessage (w.order n .rrcContexts) rnti sdu) := by
          unfold handleCcchSdu
          dsimp only
          split
          · rename_i htype
            exact absurd ⟨rfl, .inl htype⟩ hmoves
          · rename_i htype
            exact absurd ⟨rfl, .inr htype⟩ hmoves
          · rfl
        rw [hrrc]
        exact .rrc hmoves
    · rename_i hccch
      split
      · rename_i hnas
        subst hnas
        exact .nas hempty
      · rename_i hnas
        split
        · rename_i hack
          subst hack
          rw [noteActivity_plain n rnti (by decide) (by decide)]
          exact .harqAck
        · rename_i hack
          split
          · rename_i hcqi
            subst hcqi
            rw [noteActivity_plain n rnti (by decide) (by decide)]
            exact .cqiReport
          · rename_i hcqi
            split
            · rename_i q hq
              exact .app hq
            · rename_i hdata
              rw [noteActivity_plain n rnti hnas hdata]
              split
              · rename_i q hq
                exact .status hq
              · rename_i hstatus
                exact .unassigned hccch hnas hack hcqi hdata hstatus

theorem handleSdu_moved (n : BsNode) (rnti : Nat) (entry : UInt8 × Bytes)
    (h : MovesHandover entry.1 entry.2) :
    Moved w rnti n (RrcMessage.decode entry.2) (handleSdu w rnti n entry) := by
  obtain ⟨lcid, sdu⟩ := entry
  obtain rfl : lcid = lcidCcch := h.1
  by_cases hempty : sdu = []
  · rw [hempty]
    exact .unmoved
  · have hquiet : n.noteActivity rnti lcidCcch = n :=
      noteActivity_plain n rnti (by decide) (by decide)
    have hccch : handleSdu w rnti n (lcidCcch, sdu) = n.handleCcchSdu w rnti sdu := by
      simp [handleSdu, hempty, hquiet]
    rw [hccch]
    exact handleCcchSdu_moved w n rnti h

/-- A SDU that is no handover message brings in its own C-RNTI at most. -/
theorem handleSdu_admits {rnti : Nat} (hR : Names R rnti) (n : BsNode) (entry : UInt8 × Bytes)
    (hplain : ¬ MovesHandover entry.1 entry.2) : Admits R n (handleSdu w rnti n entry) := by
  have hturn := handleSdu_turn w n rnti entry
  revert hturn
  generalize handleSdu w rnti n entry = n'
  intro hturn
  cases hturn with
  | empty => exact .refl n
  | moved hmoves => exact absurd hmoves hplain
  | rrc => exact handleRrc_admits w hR n _
  | nas => exact (noteActivity_admits hR.1 n _).trans (handleNasSdu_admits w hR.1 _ _)
  | harqAck => exact (handleHarqAck_serves hR.1 n _).admits
  | cqiReport => exact (handleCqiReport_serves hR.1 n _).admits
  | app => exact (noteActivity_admits hR.1 n _).trans (handleAppSdu_serves w hR.1 _ _ _).admits
  | status => exact (handleStatusSdu_serves hR.1 n _ _).admits
  | unassigned => exact .refl n

/-- Every SDU of a frame meets the condition when its turn comes. -/
def SdusMeet (rnti : Nat) (C : BsNode → UInt8 × Bytes → Prop) : BsNode → List (UInt8 × Bytes) → Prop
  | _, [] => True
  | n, entry :: sdus => C n entry ∧ SdusMeet rnti C (handleSdu w rnti n entry) sdus

/-- Over the SDUs of one PDU, what each preserves under its condition is kept. -/
theorem handleSdus_invariant {rnti : Nat} {C : BsNode → UInt8 × Bytes → Prop} (Inv : BsNode → Prop)
    (preserved : ∀ n entry, Inv n → C n entry → Inv (handleSdu w rnti n entry)) {n : BsNode}
    {sdus : List (UInt8 × Bytes)} (start : Inv n) (meets : SdusMeet w rnti C n sdus) :
    Inv (sdus.foldl (handleSdu w rnti) n) := by
  induction sdus generalizing n with
  | nil => exact start
  | cons entry sdus ih => exact ih (preserved n entry start meets.1) meets.2

/-! ### What leaves the handovers alone -/

theorem mobility_of_admits (h : Admits (fun _ => True) n n') : n'.mobility = n.mobility :=
  (h fun _ _ _ _ _ _ => trivial).mobility

theorem mobility_of_serves (h : Serves (fun _ => True) n n') : n'.mobility = n.mobility :=
  mobility_of_admits h.admits

theorem handleRrc_mobility (n : BsNode) (rnti : Nat) (pdu : Bytes) :
    (n.runRrc w (n.rrc.handleMessage (w.order n .rrcContexts) rnti pdu)).mobility = n.mobility :=
  mobility_of_admits (handleRrc_admits w ⟨trivial, fun _ _ => trivial⟩ n pdu)

theorem onPrachReceived_mobility (n : BsNode) (preamble : UInt8) :
    (n.runRach w (n.rach.onPrachReceived preamble)).mobility = n.mobility := by
  unfold RachBs.onPrachReceived
  split <;> rfl

theorem onMsg3Received_mobility (n : BsNode) (raRnti : Nat) (msg3 : Bytes) :
    (n.runRach w (n.rach.onMsg3Received raRnti msg3)).mobility = n.mobility := by
  unfold RachBs.onMsg3Received
  split
  · rfl
  · dsimp only [runRach, List.foldl, onRachOutput]
    split
    · exact (handleRrc_mobility w _ n.rach.nextCrnti _).trans rfl
    · rfl

end

end BsNode

end AetherStack.Source.Core
