import AetherStack.Guarantees.ConferenceTable
import AetherStack.Source.BsTables

/-!
# What a detached UE leaves behind

DETACH goes to NAS and tears the flow down (bs_node.cpp 625-682), RELEASE goes to RRC and sets
the context idle (rrc_bs.cpp 84-97). Neither erases an RRC context, a session key or a handover
under way, so nothing is left of a UE only if others have cleared these: `Cleared` is what the
last of the two messages has to find. The places that erase an RRC context are the completion of
a handover, a migration to another C-RNTI and the sweep over parked flows; `Lingers` is why none
of them meets the context of a UE that has sent one of the two messages, as long as nobody names
that UE.
-/
namespace AetherStack.Guarantees
open Source Source.Mac Source.Rrc Source.Core Lib

namespace DetachResidue

/-- What is promised of a UE with IMSI `x`, C-RNTI `r` and TMSI `t` that has gone. -/
structure NothingLeft (x : Imsi) (r t : Nat) (n : BsNode) : Prop where
  flow : r ∉ n.flows
  rrcContext : r ∉ n.rrc.ueContexts
  mapping : ∀ tmsi : Nat, n.tmsiToCrnti[tmsi]? ≠ some r
  nasContext : t ∉ n.nas.ueContexts
  sessionKey : t ∉ n.nas.sessionKeys
  initiatedHo : r ∉ n.initiatedHo
  conference : ∀ (id : Nat) (c : Conference), n.confs[id]? = some c → c.host ≠ x ∧ x ∉ c.members

variable (w : World) {r : Nat} {n n' n'' : BsNode}

/-! ### Steps that spare a C-RNTI -/

/-- The context of `r` stands and its flow, if it is still there, is parked as it was. -/
structure Spared (r : Nat) (n n' : BsNode) : Prop where
  config : n'.config = n.config
  context : n'.rrc.findUe r = n.rrc.findUe r
  parked : n'.parked r = n.parked r ∨ n'.parked r = (false, 0)

theorem Spared.refl (n : BsNode) : Spared r n n := ⟨rfl, rfl, .inl rfl⟩

theorem Spared.trans (h : Spared r n n') (h' : Spared r n' n'') : Spared r n n'' := by
  refine ⟨h'.config.trans h.config, h'.context.trans h.context, ?_⟩
  rcases h'.parked with hsame | hreset
  · exact h.parked.imp hsame.trans hsame.trans
  · exact .inr hreset

/-- The user plane spares every context. -/
theorem spared_of_serves (h : BsNode.Serves (fun _ => True) n n') : Spared r n n' := by
  obtain ⟨hcontrol, -, -, hparked, -⟩ := h fun _ _ _ _ _ _ => trivial
  refine ⟨congrArg Control.config hcontrol, ?_, .inl (hparked r)⟩
  have hrrc : n'.rrc = n.rrc := congrArg Control.rrc hcontrol
  rw [hrrc]

/-- A step that writes neither RRC nor the flows. -/
theorem spared_of_tables (hconfig : n'.config = n.config) (hrrc : n'.rrc = n.rrc)
    (hflows : n'.flows = n.flows) : Spared r n n' :=
  ⟨hconfig, by rw [hrrc], .inl (by simp only [BsNode.parked, BsNode.flow, hflows])⟩

theorem putFlow_spared (n : BsNode) {rnti : Nat} (f : Core.DlFlow) (h : rnti ≠ r) :
    Spared r n (n.putFlow rnti f) :=
  ⟨rfl, rfl, .inl (by rw [BsNode.parked, BsNode.flow_putFlow_of_ne n f h.symm, BsNode.parked])⟩

theorem eraseFlow_spared (n : BsNode) (rnti : Nat) : Spared r n (n.eraseFlow rnti) := by
  refine ⟨rfl, rfl, ?_⟩
  by_cases heq : rnti = r
  · subst heq
    exact .inr (by simp [BsNode.parked, BsNode.flow, BsNode.eraseFlow])
  · exact .inl (by simp [BsNode.parked, BsNode.flow, BsNode.eraseFlow,
      Std.ExtTreeMap.getElem?_erase, heq])

theorem downlinkSend_spared (n : BsNode) (rnti : Nat) (lcid : UInt8) (sdu : Bytes) :
    Spared r n (n.downlinkSend rnti lcid sdu) :=
  spared_of_serves (BsNode.downlinkSend_serves _ _ (.inr trivial))

theorem armSecurity_spared (n : BsNode) (rnti : Nat) (key : Key256) :
    Spared r n (n.armSecurity rnti key) :=
  spared_of_serves (BsNode.armSecurity_serves _ (.inr trivial))

/-- RRC may change as long as the context stands. -/
theorem spared_rrc (n : BsNode) {rrc : RrcBs} (h : rrc.findUe r = n.rrc.findUe r) :
    Spared r n { n with rrc := rrc } :=
  ⟨rfl, h, .inl rfl⟩

theorem learnCrnti_spared (n : BsNode) (tmsi rnti : Nat) : Spared r n (n.learnCrnti tmsi rnti).1 := by
  unfold BsNode.learnCrnti
  split
  · exact .refl n
  · exact spared_of_tables rfl rfl rfl

theorem onNasSend_spared (rnti : Nat) (n : BsNode) (sent : Nat × Bytes) :
    Spared r n (BsNode.onNasSend rnti n sent) := by
  have hsend := (learnCrnti_spared (r := r) n sent.1 rnti).trans
    (downlinkSend_spared _ (n.learnCrnti sent.1 rnti).2 lcidNasDcch (Pdcp.tx sent.2))
  unfold BsNode.onNasSend
  dsimp only
  split
  · exact hsend
  · exact hsend.trans (armSecurity_spared _ _ _)

theorem tearDown_spared (n : BsNode) (rnti tmsi : Nat) : Spared r n (n.tearDown rnti tmsi) := by
  unfold BsNode.tearDown
  dsimp only
  refine Spared.trans ?_ (eraseFlow_spared _ rnti)
  split
  · exact spared_of_tables rfl rfl rfl
  · exact spared_of_tables rfl rfl rfl

/-- In the integrated core every NAS message spares the context of everybody. -/
theorem handleNasSdu_spared (hcore : n.config.amf = false) (rnti : Nat) (sdu : Bytes) :
    Spared r n (n.handleNasSdu w rnti sdu) := by
  have htouch : Spared r n (n.touchFlow rnti) :=
    spared_of_serves (BsNode.touchFlow_serves (.inr trivial))
  unfold BsNode.handleNasSdu
  dsimp only
  split
  · exact htouch
  · rename_i nasPdu _
    refine htouch.trans ?_
    have hlocal : (n.touchFlow rnti).coreSeparated = false := hcore
    generalize n.touchFlow rnti = m at hlocal
    unfold BsNode.handleNasPdu
    simp only [hlocal, Bool.false_eq_true, if_false]
    have hsent : Spared r m ((m.nas.handleMessage w.digest (w.order m .pendingAuth) (w.rand m.nas) 0
        nasPdu).2.foldl (BsNode.onNasSend rnti) { m with nas := (m.nas.handleMessage w.digest
          (w.order m .pendingAuth) (w.rand m.nas) 0 nasPdu).1 }) := by
      refine Spared.trans ?_ (Lib.foldl_rel .refl .trans (onNasSend_spared rnti) _ _)
      exact spared_of_tables rfl rfl rfl
    split
    · exact hsent.trans (tearDown_spared _ _ _)
    · exact hsent

theorem noteActivity_spared (n : BsNode) {rnti : Nat} (lcid : UInt8) (h : rnti ≠ r) :
    Spared r n (n.noteActivity rnti lcid) := by
  have hreactivated : (n.rrc.reactivateContext rnti).findUe r = n.rrc.findUe r := by
    unfold RrcBs.reactivateContext
    split
    · rfl
    · split
      · rfl
      · exact (RrcBs.findUe_putUe_eq _ _ _ _).trans (if_neg h)
  unfold BsNode.noteActivity
  split
  · dsimp only
    split
    · refine (putFlow_spared n _ h).trans (spared_rrc _ ?_)
      exact hreactivated
    · exact putFlow_spared n _ h
  · exact .refl n

/-- A completion spares a C-RNTI that is not its source. -/
theorem completeHo_spared (n : BsNode) {newCrnti : Nat} (h : n.completingSource w newCrnti ≠ some r) :
    Spared r n (n.completeHo w newCrnti) := by
  unfold BsNode.completeHo
  split
  · exact .refl n
  · rename_i source hsource
    have hne : source ≠ r := fun heq => h (heq ▸ hsource)
    have hfinish : ∀ m : BsNode, Spared r m { m.touchFlow source with
        rrc := m.rrc.releaseContext source
        pendingFlowErase := m.pendingFlowErase ++ [source] } := by
      intro m
      refine (putFlow_spared m (m.flow source) hne).trans ⟨rfl, ?_, .inl rfl⟩
      exact (RrcBs.findUe_releaseContext_eq _ _ _).trans (if_neg hne)
    have hrelease : Spared r n (n.releaseHoSource w source) := by
      unfold BsNode.releaseHoSource
      dsimp only
      split
      · exact hfinish n
      · split
        · refine Spared.trans ?_ (hfinish _)
          exact spared_of_tables rfl rfl rfl
        · refine Spared.trans ?_ (hfinish _)
          exact spared_of_tables rfl rfl rfl
    exact hrelease.trans (spared_of_tables rfl rfl rfl)

/-! ### Handovers and links -/

theorem commandHo_spared (n : BsNode) (source targetCell newCrnti : Nat) :
    Spared r n (n.commandHo source targetCell newCrnti) :=
  (downlinkSend_spared n source _ _).trans (spared_of_tables rfl rfl rfl)

/-- A preparation spares a C-RNTI that is not drawn. -/
theorem prepareHandover_spared (n : BsNode) (ctx : HoContext) (h : n.nextHoCrnti ≠ r) :
    Spared r n (n.prepareHandover ctx) := by
  refine (putFlow_spared n { n.flow n.nextHoCrnti with upKey := ctx.upKey, secOn := ctx.secOn }
    h).trans ⟨rfl, ?_, .inl rfl⟩
  exact (RrcBs.findUe_putUe_eq _ _ _ _).trans (if_neg h)

theorem onXnPrepareAck_spared (n : BsNode) (value : Bytes) : Spared r n (n.onXnPrepareAck value) := by
  unfold BsNode.onXnPrepareAck
  split
  · exact .refl n
  · split
    · exact .refl n
    · split
      · exact .refl n
      · refine Spared.trans ?_ (commandHo_spared _ _ _ _)
        exact spared_of_tables rfl rfl rfl

/-- The answers inside the send are acknowledgements. -/
theorem sendXnPrepare_spared (n : BsNode) (value : Bytes) :
    Spared r n (n.send w .xn ⟨.other 40, value⟩) := by
  refine BsNode.send_rel w (Spared r) .refl .trans n (fun _ _ => spared_of_tables rfl rfl rfl) ?_
  intro _ _ reply _ hanswer m
  have hack : m.handleLinkMessage w .xn reply = m.onXnPrepareAck reply.value := by
    simp only [BsNode.handleLinkMessage, BsNode.handleXnMessage, BsNode.answersTo_xnPrepare hanswer]
  rw [hack]
  exact onXnPrepareAck_spared m reply.value

theorem requestHandover_spared (hcore : n.config.amf = false) (crnti targetCell : Nat) :
    Spared r n (n.requestHandover w crnti targetCell) := by
  unfold BsNode.requestHandover
  split
  · exact .refl n
  · split
    · unfold BsNode.requestCoordinator
      split
      · exact .refl n
      · exact spared_of_tables rfl rfl rfl
      · refine Spared.trans ?_ (commandHo_spared _ _ _ _)
        exact spared_of_tables rfl rfl rfl
    · rw [if_neg (by rw [hcore]; decide)]
      split
      · unfold BsNode.requestXn
        split
        · exact .refl n
        · refine Spared.trans ?_ (sendXnPrepare_spared w _ _)
          exact spared_of_tables rfl rfl rfl
      · exact .refl n

theorem handleXnMessage_spared (n : BsNode) {m : CnMessage}
    (hprepare : m.msgType = .other 40 → n.nextHoCrnti ≠ r)
    (hcomplete : m.msgType = .other 43 → n.completingSource w (getU16 m.value 4) ≠ some r) :
    Spared r n (n.handleXnMessage w m) := by
  unfold BsNode.handleXnMessage
  split
  · rename_i htype
    unfold BsNode.onXnPrepare
    split
    · exact .refl n
    · exact (prepareHandover_spared n _ (hprepare htype)).trans (spared_of_tables rfl rfl rfl)
  · exact onXnPrepareAck_spared n m.value
  · exact spared_of_serves (BsNode.onXnFwdData_serves w n m.value)
  · rename_i htype
    unfold BsNode.onXnComplete
    split
    · exact .refl n
    · exact completeHo_spared w n (hcomplete htype)
  · exact .refl n

theorem handleCnMessage_spared (n : BsNode) {m : CnMessage}
    (hprepare : m.msgType = .hoCommand → n.nextHoCrnti ≠ r) :
    Spared r n (n.handleCnMessage w m) := by
  unfold BsNode.handleCnMessage
  split
  · unfold BsNode.onDownlinkNas
    split
    · exact .refl n
    · exact (learnCrnti_spared n _ _).trans (downlinkSend_spared _ _ _ _)
  · unfold BsNode.onSessionKey
    split
    · exact .refl n
    · exact (learnCrnti_spared n _ _).trans (armSecurity_spared _ _ _)
  · rename_i htype
    unfold BsNode.onHoCommand
    split
    · exact .refl n
    · have hprepared := fun ctx => prepareHandover_spared n ctx (hprepare htype)
      dsimp only
      split
      · exact (hprepared _).trans (spared_of_tables rfl rfl rfl)
      · exact hprepared _
  · unfold BsNode.onHoPrepared
    split
    · exact .refl n
    · split
      · exact .refl n
      · exact commandHo_spared n _ _ _
  · exact spared_of_serves (BsNode.onDlData_serves n trivial)
  · exact .refl n

/-! ### A context that nobody erases -/

/-- The context of `r` is there, and nothing would park it: it is not suspended, and either it
is not CONNECTED or its flow shows no activity. -/
def Lingers (r : Nat) (n : BsNode) : Prop :=
  n.config.amf = false ∧ (n.parked r).1 = false ∧
    ∃ ctx, n.rrc.findUe r = some ctx ∧ ctx.state ≠ .inactive ∧
      (ctx.state ≠ .connected ∨ (n.parked r).2 = 0)

/-- What spares the context lets it linger. -/
theorem Spared.lingers (h : Spared r n n') (hn : Lingers r n) : Lingers r n' := by
  obtain ⟨hcore, hawake, ctx, hctx, hinactive, hquiet⟩ := hn
  refine ⟨h.config ▸ hcore, ?_, ctx, h.context.trans hctx, hinactive, ?_⟩
  · rcases h.parked with hsame | hreset
    · rw [hsame, hawake]
    · rw [hreset]
  · rcases h.parked with hsame | hreset
    · rw [hsame]
      exact hquiet
    · exact .inr (by rw [hreset])

theorem moveFlow_spared (n : BsNode) (oldRnti : Nat) {newRnti : Nat} (h : newRnti ≠ r) :
    Spared r n (n.moveFlow oldRnti newRnti) := by
  unfold BsNode.moveFlow
  split
  · exact .refl n
  · exact (eraseFlow_spared n oldRnti).trans (putFlow_spared _ _ h)

theorem moveTmsi_spared (n : BsNode) (oldRnti newRnti : Nat) :
    Spared r n (n.moveTmsi w oldRnti newRnti) := by
  unfold BsNode.moveTmsi
  split
  · exact .refl n
  · exact spared_of_tables rfl rfl rfl

/-- The call of RRC keeps the context, then its callbacks run one after the other. -/
theorem runRrc_spared {rrc : RrcBs} {outputs : List RrcBsOutput} (hrrc : rrc.findUe r = n.rrc.findUe r)
    (houtputs : ∀ m : BsNode, Spared r m (outputs.foldl (BsNode.onRrcOutput w) m)) :
    Spared r n (n.runRrc w (rrc, outputs)) :=
  (spared_rrc n hrrc).trans (houtputs _)

theorem suspendContext_spared (n : BsNode) {rnti : Nat} (h : rnti ≠ r) :
    Spared r n (n.runRrc w (n.rrc.suspendContext rnti)) := by
  unfold RrcBs.suspendContext
  split
  · exact .refl n
  · split
    · exact .refl n
    · refine runRrc_spared w ((RrcBs.findUe_putUe_eq _ _ _ _).trans (if_neg h)) fun m => ?_
      simp only [List.foldl_cons, List.foldl_nil, BsNode.onRrcOutput]
      exact (downlinkSend_spared m _ _ _).trans (putFlow_spared _ _ h)

/-- A migration that neither starts nor ends at `r`. -/
theorem migrate_spared (n : BsNode) {oldRnti rnti : Nat} (ctx : BsUeContext) (ok : RrcMessageType)
    (hold : oldRnti ≠ r) (hnew : (n.rrc.assign rnti).2 ≠ r) :
    Spared r n (n.runRrc w (n.rrc.migrate oldRnti rnti ctx ok)) := by
  have hfind : (((n.rrc.assign rnti).1.releaseContext oldRnti).putUe (n.rrc.assign rnti).2
      { ctx with cRnti := (n.rrc.assign rnti).2 }).findUe r = n.rrc.findUe r := by
    rw [RrcBs.findUe_putUe_eq, if_neg hnew, RrcBs.findUe_releaseContext_eq, if_neg hold,
      RrcBs.findUe_assign]
  refine runRrc_spared w hfind fun m => ?_
  simp only [List.foldl_cons, List.foldl_nil, BsNode.onRrcOutput]
  refine Spared.trans ?_ (downlinkSend_spared _ _ _ _)
  exact (moveFlow_spared m oldRnti hnew).trans (moveTmsi_spared w _ _ _)

/-- An RRC message of another UE: it has a C-RNTI of its own, and does not ask to
re-establish `r`. -/
structure OtherRrc (r : Nat) (n : BsNode) (rnti : Nat) (msg : RrcMessage) : Prop where
  sender : rnti ≠ r
  assigned : (n.rrc.assign rnti).2 ≠ r
  old : msg.msgType = .reestablishmentRequest → getU16 msg.value 0 ≠ r

/-- RRC messages of other C-RNTIs leave the context where it is. -/
theorem handleRrc_lingers {rnti : Nat} {pdu : Bytes} (h : OtherRrc r n rnti (RrcMessage.decode pdu))
    (hn : Lingers r n) :
    Lingers r (n.runRrc w (n.rrc.handleMessage (w.order n .rrcContexts) rnti pdu)) := by
  refine Spared.lingers ?_ hn
  have hhandled := n.rrc.handleMessage_handled (w.order n .rrcContexts) rnti pdu
  revert hhandled
  generalize n.rrc.handleMessage (w.order n .rrcContexts) rnti pdu = call
  obtain ⟨rrc, outputs⟩ := call
  intro hhandled
  dsimp only at hhandled
  cases hhandled with
  | ignored => exact .refl n
  | refused type => exact downlinkSend_spared _ _ _ _
  | setup =>
    have hfind : ((n.rrc.assign rnti).1.putUe (n.rrc.assign rnti).2
        { cRnti := (n.rrc.assign rnti).2, state := .connecting }).findUe r = n.rrc.findUe r := by
      rw [RrcBs.findUe_putUe_eq, if_neg h.assigned, RrcBs.findUe_assign]
    exact runRrc_spared w hfind fun m => downlinkSend_spared m _ _ _
  | completed => exact spared_rrc n ((RrcBs.findUe_putUe_eq _ _ _ _).trans (if_neg h.sender))
  | released => exact spared_rrc n ((RrcBs.findUe_putUe_eq _ _ _ _).trans (if_neg h.sender))
  | suspended => exact suspendContext_spared w n h.sender
  | resumed _ _ hfind hstate =>
    -- the context of `r` is not suspended, so it is not the one that is resumed
    refine migrate_spared w n _ _ (fun heq => ?_) h.assigned
    obtain ⟨-, -, ctx, hctx, hinactive, -⟩ := hn
    rw [heq, hctx] at hfind
    obtain rfl := Option.some.inj hfind
    exact hinactive hstate
  | reestablished htype => exact migrate_spared w n _ _ (h.old htype) h.assigned

/-! ### Tick -/

/-- The sweep passes the flow of `r` by. -/
theorem sweepInactiveFlow_lingers (hn : Lingers r n) (rnti : Nat) :
    Lingers r (BsNode.sweepInactiveFlow w n rnti) := by
  unfold BsNode.sweepInactiveFlow
  split
  · exact hn
  · rename_i f hf
    by_cases heq : rnti = r
    · subst heq
      have hflow : n.flow rnti = f := (BsNode.mem_of_getElem? hf).2
      obtain ⟨hcore, hawake, ctx, hctx, hinactive, hquiet⟩ := hn
      have hlingers : Lingers rnti n := ⟨hcore, hawake, ctx, hctx, hinactive, hquiet⟩
      simp only [BsNode.parked, hflow] at hawake hquiet
      dsimp only
      rw [if_neg fun hpast => by simp [hawake] at hpast, if_neg]
      · exact hlingers
      · rintro ⟨-, hactive, hconnected, -⟩
        rcases hquiet with hstate | hzero
        · simp [RrcBs.isUeConnected, hctx, hstate] at hconnected
        · exact hactive hzero
    · refine Spared.lingers ?_ hn
      dsimp only
      split
      · refine (eraseFlow_spared n rnti).trans ⟨rfl, ?_, .inl rfl⟩
        exact (RrcBs.findUe_releaseContext_eq _ _ _).trans (if_neg heq)
      · split
        · exact suspendContext_spared w n heq
        · exact .refl n

/-- A context that lingers is out of reach of the sweeps. -/
theorem tick_lingers (hn : Lingers r n) (nowMs : UInt32) : Lingers r (n.tick w nowMs) := by
  have hnow : Lingers r ({ n with nowMs := max nowMs n.nowMs }.eraseDeferred) := by
    refine Spared.lingers ?_ hn
    have hclock : Spared r n { n with nowMs := max nowMs n.nowMs } := spared_of_tables rfl rfl rfl
    have herased := hclock.trans (Lib.foldl_rel .refl .trans (fun n rnti => eraseFlow_spared n rnti)
      { n with nowMs := max nowMs n.nowMs } n.pendingFlowErase)
    exact herased.trans (spared_of_tables rfl rfl rfl)
  have htpc := (spared_of_serves (BsNode.sweepTpc_serves w _)).lingers hnow
  have hswept : Lingers r (BsNode.sweepInactive w (BsNode.sweepTpc w
      ({ n with nowMs := max nowMs n.nowMs }.eraseDeferred))) := by
    revert htpc
    generalize BsNode.sweepTpc w ({ n with nowMs := max nowMs n.nowMs }.eraseDeferred) = m
    intro hm
    unfold BsNode.sweepInactive
    split
    · exact hm
    · generalize w.order m .flows = order
      clear * - hm
      induction order generalizing m with
      | nil => exact hm
      | cons rnti order ih => exact ih _ (sweepInactiveFlow_lingers w hm rnti)
  exact (spared_of_serves (BsNode.scheduleDownlink_serves w _)).lingers hswept

/-! ### Traffic of other UEs -/

/-- An SDU of another UE: its RRC messages are as above, and a HO_COMPLETE is not of a handover
of `r`. -/
structure OtherSdu (r rnti : Nat) (n : BsNode) (entry : UInt8 × Bytes) : Prop where
  sender : rnti ≠ r
  rrc : entry.1 = lcidCcch → OtherRrc r n rnti (RrcMessage.decode entry.2)
  completion : entry.1 = lcidCcch → (RrcMessage.decode entry.2).msgType = .hoComplete →
    n.completingSource w (getU16 (RrcMessage.decode entry.2).value 0) ≠ some r

/-- An event that is not of the UE with C-RNTI `r` and does not name it. Only the tick, requests
for a handover and what comes before the loop of `handle_dl_data` may concern it. -/
def Elsewhere (r : Nat) (n : BsNode) : BsNode.Event → Prop
  | .frame f snr =>
    match f.type with
    | .data =>
      ∀ m sdus, n.receiveData f.rnti f.payload snr = .ok (m, sdus) →
        BsNode.SdusMeet w f.rnti (OtherSdu w r f.rnti) m sdus
    | .msg3Ccch => OtherRrc r n n.rach.nextCrnti (RrcMessage.decode (f.payload.drop 3))
    | _ => True
  | .sdu rnti lcid sdu => OtherSdu w r rnti n (lcid, sdu)
  | .link .xn m =>
    (m.msgType = .other 40 → n.nextHoCrnti ≠ r) ∧
      (m.msgType = .other 43 → n.completingSource w (getU16 m.value 4) ≠ some r)
  | .link _ m => m.msgType = .hoCommand → n.nextHoCrnti ≠ r
  | .prepareHandover _ => n.nextHoCrnti ≠ r
  | _ => True

theorem handleSdu_lingers {rnti : Nat} {entry : UInt8 × Bytes} (h : OtherSdu w r rnti n entry)
    (hn : Lingers r n) : Lingers r (BsNode.handleSdu w rnti n entry) := by
  have hturn := BsNode.handleSdu_turn w n rnti entry
  revert hturn
  generalize BsNode.handleSdu w rnti n entry = n'
  intro hturn
  cases hturn with
  | empty => exact hn
  | moved _ _ _ hmoved =>
    cases hmoved with
    | unmoved => exact hn
    | requested => exact (requestHandover_spared w hn.1 rnti _).lingers hn
    | completed htype => exact (completeHo_spared w n (h.completion rfl htype)).lingers hn
    | notified _ htype =>
      exact ((completeHo_spared w n (h.completion rfl htype)).trans
        (spared_of_tables rfl rfl rfl)).lingers hn
  | rrc => exact handleRrc_lingers w (h.rrc rfl) hn
  | nas =>
    have hactive := noteActivity_spared n lcidNasDcch h.sender
    have hcore : (n.noteActivity rnti lcidNasDcch).config.amf = false := by
      rw [hactive.config]
      exact hn.1
    exact (hactive.trans (handleNasSdu_spared w hcore rnti _)).lingers hn
  | harqAck => exact (spared_of_serves (BsNode.handleHarqAck_serves trivial n _)).lingers hn
  | cqiReport => exact (spared_of_serves (BsNode.handleCqiReport_serves trivial n _)).lingers hn
  | app =>
    exact ((noteActivity_spared n _ h.sender).trans
      (spared_of_serves (BsNode.handleAppSdu_serves w trivial _ _ _))).lingers hn
  | status => exact (spared_of_serves (BsNode.handleStatusSdu_serves trivial n _ _)).lingers hn
  | unassigned => exact hn

theorem handleAirFrame_lingers {f : AirFrame} {snr : ℚ}
    (hdata : f.type = .data → ∀ m sdus, n.receiveData f.rnti f.payload snr = .ok (m, sdus) →
      BsNode.SdusMeet w f.rnti (OtherSdu w r f.rnti) m sdus)
    (hmsg3 : f.type = .msg3Ccch →
      OtherRrc r n n.rach.nextCrnti (RrcMessage.decode (f.payload.drop 3)))
    (hn : Lingers r n) (h : n.handleAirFrame w f snr = .ok n') : Lingers r n' := by
  have hframe : ∀ (m : BsNode) (type : AirFrameType) (pdu : Bytes), Spared r m (m.sendFrame type 0 pdu) :=
    fun m type pdu => spared_of_serves (BsNode.sendFrame_serves m type 0 pdu)
  unfold BsNode.handleAirFrame at h
  split at h
  · obtain rfl := Except.ok.inj h
    split
    · unfold RachBs.onPrachReceived
      split
      · exact hn
      · refine Spared.lingers (Spared.trans ?_ (hframe _ _ _)) hn
        exact spared_of_tables rfl rfl rfl
    · exact hn
  · rename_i htype
    obtain rfl := Except.ok.inj h
    split
    · unfold RachBs.onMsg3Received
      split
      · exact hn
      · rename_i ctx _
        dsimp only [BsNode.runRach, List.foldl, BsNode.onRachOutput]
        have htaken : Lingers r ({ n with rach := { n.rach with
            nextCrnti := (n.rach.nextCrnti + 1) % snModulus
            ueContexts := n.rach.ueContexts.insert (getU16 f.payload 1)
              { ctx with cRnti := n.rach.nextCrnti, rachComplete := true } } }.sendFrame .msg4Cr 0
            (RachBs.msg4Pdu n.rach.nextCrnti (getU16 f.payload 1))) := by
          refine Spared.lingers (Spared.trans ?_ (hframe _ _ _)) hn
          exact spared_of_tables rfl rfl rfl
        split
        · obtain ⟨hsender, hassigned, hold⟩ := hmsg3 htype
          exact handleRrc_lingers w ⟨hsender, hassigned, hold⟩ htaken
        · exact htaken
    · exact hn
  · rename_i htype
    unfold BsNode.handleDlData at h
    split at h
    · cases h
    · rename_i m sdus hreceive
      obtain rfl := Except.ok.inj h
      have hreceived : Lingers r m :=
        (spared_of_serves (BsNode.receiveData_serves trivial hreceive)).lingers hn
      exact BsNode.handleSdus_invariant w (Lingers r) (fun _ _ hm hother => handleSdu_lingers w hother hm)
        hreceived (hdata htype m sdus hreceive)
  · obtain rfl := Except.ok.inj h
    exact hn
  · obtain rfl := Except.ok.inj h
    exact hn

theorem handle_lingers {e : BsNode.Event} (hn : Lingers r n) (h : Elsewhere w r n e)
    (hstep : n.handle w e = some n') : Lingers r n' := by
  cases e with
  | frame f snr =>
    unfold Elsewhere at h
    refine handleAirFrame_lingers w (fun htype => ?_) (fun htype => ?_) hn (ok_of_toOption hstep)
    · simp only [htype] at h
      exact h
    · simp only [htype] at h
      exact h
  | receive rnti payload snr =>
    obtain ⟨⟨m, sdus⟩, hreceive, rfl⟩ := Option.map_eq_some_iff.mp hstep
    exact (spared_of_serves (BsNode.receiveData_serves trivial (ok_of_toOption hreceive))).lingers hn
  | sdu rnti lcid sdu =>
    obtain rfl := Option.some.inj hstep
    exact handleSdu_lingers w h hn
  | tick nowMs =>
    obtain rfl := Option.some.inj hstep
    exact tick_lingers w hn nowMs
  | link link m =>
    obtain rfl := Option.some.inj hstep
    cases link with
    | xn => exact (handleXnMessage_spared w n h.1 h.2).lingers hn
    | amf => exact (handleCnMessage_spared w n h).lingers hn
    | upf => exact (handleCnMessage_spared w n h).lingers hn
  | requestHandover crnti targetCell =>
    obtain rfl := Option.some.inj hstep
    exact (requestHandover_spared w hn.1 crnti targetCell).lingers hn
  | prepareHandover ctx =>
    obtain rfl := Option.some.inj hstep
    exact (prepareHandover_spared n ctx h).lingers hn
  | page imsi =>
    obtain rfl := Option.some.inj hstep
    exact (spared_of_tables rfl rfl rfl).lingers hn
  | broadcast =>
    obtain rfl := Option.some.inj hstep
    exact (spared_of_serves (BsNode.broadcastSib_serves n)).lingers hn
  | setSib broadcasting enabled =>
    obtain rfl := Option.some.inj hstep
    exact (spared_of_tables rfl rfl rfl).lingers hn

/-- A step of the others. -/
def OtherStep (r : Nat) (n : BsNode) (s : BsNode.Step) : Prop := Elsewhere w r (n.answered s) s.event

/-- Step lemma: as long as the events are elsewhere the context lingers. -/
theorem step_lingers {s : BsNode.Step} (hn : Lingers r n) (h : OtherStep w r n s)
    (hstep : n.step w s = some n') : Lingers r n' := by
  have hstart : Lingers r (n.answered s) := (spared_of_tables rfl rfl rfl).lingers hn
  exact handle_lingers w hstart h hstep

/-! ### The two messages of the UE -/

/-- A UE that is in the cell and not parked. -/
def Present (r : Nat) (n : BsNode) : Prop :=
  n.config.amf = false ∧ (n.flow r).suspended = false ∧
    ∃ ctx, n.rrc.findUe r = some ctx ∧ ctx.state ≠ .inactive

theorem Lingers.present (h : Lingers r n) : Present r n := by
  obtain ⟨hcore, hawake, ctx, hctx, hinactive, -⟩ := h
  exact ⟨hcore, hawake, ctx, hctx, hinactive⟩

/-- An NAS SDU that opens to a DETACH. -/
structure IsDetach (r : Nat) (n : BsNode) (entry : UInt8 × Bytes) : Prop where
  lcid : entry.1 = lcidNasDcch
  nonempty : entry.2 ≠ []
  opens : ∃ pdu, openSdu (BsNode.pdcpHmac w) (n.flow r).secOn (n.flow r).upKey entry.2 = some pdu ∧
    (NasMessage.decode pdu).msgType = .detach

/-- An RRC RELEASE that does not ask for a suspension. -/
structure IsRelease (entry : UInt8 × Bytes) : Prop where
  lcid : entry.1 = lcidCcch
  type : (RrcMessage.decode entry.2).msgType = .release
  plain : (RrcMessage.decode entry.2).value.getD 2 0 &&& 2 = 0

/-- A DETACH goes to NAS, after it has been noted as activity. -/
theorem handleSdu_detach {entry : UInt8 × Bytes} (h : IsDetach w r n entry) :
    BsNode.handleSdu w r n entry = (n.noteActivity r lcidNasDcch).handleNasSdu w r entry.2 := by
  have hccch : lcidNasDcch ≠ lcidCcch := by decide
  simp only [BsNode.handleSdu, if_neg h.nonempty, h.lcid, if_neg hccch, if_true]

/-- RELEASE changes at most the state of the context. -/
theorem handleSdu_release {entry : UInt8 × Bytes} (h : IsRelease entry) :
    BsNode.handleSdu w r n entry =
      ((n.rrc.findUe r).map fun ctx => { n with rrc := n.rrc.putUe r { ctx with state := .idle } }).getD n := by
  obtain ⟨lcid, sdu⟩ := entry
  obtain ⟨rfl, htype, hplain⟩ := h
  dsimp only at htype hplain
  have hsdu : sdu ≠ [] := by
    rintro rfl
    cases htype
  have hquiet : n.noteActivity r lcidCcch = n :=
    BsNode.noteActivity_plain n r (by decide) (by decide)
  have hflag : ¬ ((RrcMessage.decode sdu).value.length ≥ 3 ∧
      (RrcMessage.decode sdu).value.getD 2 0 &&& 2 ≠ 0) := fun hboth => hboth.2 hplain
  simp only [BsNode.handleSdu, if_neg hsdu, if_true, hquiet, BsNode.handleCcchSdu, htype,
    RrcBs.handleMessage, RrcBs.onRelease, if_neg hflag]
  cases n.rrc.findUe r with
  | none => rfl
  | some ctx => rfl

/-! ### What the second message finds -/

/-- The NAS PDU in an SDU of `r`. -/
def nasPduOf (r : Nat) (n : BsNode) (sdu : Bytes) : Bytes :=
  (openSdu (BsNode.pdcpHmac w) (n.flow r).secOn (n.flow r).upKey sdu).getD []

/-- The TMSI that a DETACH names; without one in its value it is 0. -/
def namedTmsi (r : Nat) (n : BsNode) (sdu : Bytes) : Nat :=
  let value := (NasMessage.decode (nasPduOf w r n sdu)).value
  if value.length ≥ 4 then getU32 value 0 else 0

/-- The node that tears the UE down: NAS has handled the DETACH. -/
def atTearDown (r : Nat) (n : BsNode) (sdu : Bytes) : BsNode :=
  { (n.noteActivity r lcidNasDcch).touchFlow r with
    nas := { n.nas with ueContexts := n.nas.ueContexts.erase (namedTmsi w r n sdu) } }

/-- The context that is still found for the C-RNTI; its conferences are purged. -/
def foundContext (r : Nat) (n : BsNode) (sdu : Bytes) : Option NasUeContext :=
  (atTearDown w r n sdu).nas.findUe ((atTearDown w r n sdu).tmsiForCrnti w r)

theorem noteActivity_tables (n : BsNode) (r : Nat) :
    (n.noteActivity r lcidNasDcch).config = n.config ∧ (n.noteActivity r lcidNasDcch).nas = n.nas ∧
      (n.noteActivity r lcidNasDcch).initiatedHo = n.initiatedHo ∧
      (n.noteActivity r lcidNasDcch).confs = n.confs ∧
      ((n.noteActivity r lcidNasDcch).flow r).secOn = (n.flow r).secOn ∧
      ((n.noteActivity r lcidNasDcch).flow r).upKey = (n.flow r).upKey ∧
      ∀ r', r' ∈ (n.noteActivity r lcidNasDcch).rrc.ueContexts ↔ r' ∈ n.rrc.ueContexts := by
  have hciphered : cipheredLcid lcidNasDcch = true := by decide
  unfold BsNode.noteActivity
  rw [if_pos hciphered]
  dsimp only
  split
  · refine ⟨rfl, rfl, rfl, rfl, ?_, ?_, fun r' => BsNode.mem_reactivateContext⟩
    · show ((n.putFlow r _).flow r).secOn = _
      rw [BsNode.flow_putFlow_self]
    · show ((n.putFlow r _).flow r).upKey = _
      rw [BsNode.flow_putFlow_self]
  · refine ⟨rfl, rfl, rfl, rfl, ?_, ?_, fun r' => Iff.rfl⟩
    · rw [BsNode.flow_putFlow_self]
    · rw [BsNode.flow_putFlow_self]

/-- Without a core a DETACH ends with the tear-down of its C-RNTI. -/
theorem handleSdu_tearDown (hcore : n.config.amf = false) {entry : UInt8 × Bytes} (h : IsDetach w r n entry) :
    BsNode.handleSdu w r n entry = (atTearDown w r n entry.2).tearDown r
      ((atTearDown w r n entry.2).tmsiForCrnti w r) := by
  obtain ⟨pdu, hopens, hdetach⟩ := h.opens
  obtain ⟨hconfig, hnas, -, -, hsec, hkey, -⟩ := noteActivity_tables n r
  have hlocal : ((n.noteActivity r lcidNasDcch).touchFlow r).coreSeparated = false := by
    show (n.noteActivity r lcidNasDcch).config.amf = false
    rw [hconfig]
    exact hcore
  have hopened : openSdu (BsNode.pdcpHmac w) (((n.noteActivity r lcidNasDcch).touchFlow r).flow r).secOn
      (((n.noteActivity r lcidNasDcch).touchFlow r).flow r).upKey entry.2 = some pdu := by
    rw [BsNode.touchFlow, BsNode.flow_putFlow_self, hsec, hkey]
    exact hopens
  have hpdu : nasPduOf w r n entry.2 = pdu := by rw [nasPduOf, hopens, Option.getD_some]
  have hhandled : ∀ order rand, ((n.noteActivity r lcidNasDcch).touchFlow r).nas.handleMessage w.digest order
      rand 0 pdu = (n.nas.onDetach 0 (NasMessage.decode pdu).value, []) := by
    intro order rand
    show (n.noteActivity r lcidNasDcch).nas.handleMessage w.digest order rand 0 pdu = _
    rw [hnas]
    simp only [NasBs.handleMessage, hdetach]
  rw [handleSdu_detach w h]
  simp only [BsNode.handleNasSdu, hopened, BsNode.handleNasPdu, hlocal, Bool.false_eq_true, if_false,
    hdetach, if_true, hhandled, List.foldl_nil]
  simp only [atTearDown, namedTmsi, hpdu, NasBs.onDetach]

/-- What is gone when the last of the two messages comes. Neither of them erases an RRC context, a
session key or a handover under way, so others must have; RELEASE erases nothing, and DETACH only the
NAS context it names and the conferences of a context it still finds. -/
structure Cleared (x : Imsi) (r t : Nat) (m : BsNode) (last : UInt8 × Bytes) : Prop where
  rrcContext : r ∉ m.rrc.ueContexts
  sessionKey : t ∉ m.nas.sessionKeys
  initiatedHo : r ∉ m.initiatedHo
  release : last.1 = lcidCcch → r ∉ m.flows ∧ (∀ tmsi : Nat, m.tmsiToCrnti[tmsi]? ≠ some r) ∧
    t ∉ m.nas.ueContexts ∧ ConferenceTable.Apart x m.confs
  detach : last.1 = lcidNasDcch → (t ∈ m.nas.ueContexts → namedTmsi w r m last.2 = t) ∧
    ∀ (id : Nat) (c : Conference), m.confs[id]? = some c → c.host = x ∨ x ∈ c.members →
      ∃ ctx, foundContext w r m last.2 = some ctx ∧ (ctx.imsi = x ∨ ¬ ConferenceTable.Outlives ctx.imsi c)

/-- The tables behind the clean-up. -/
theorem tearDown_tables (n : BsNode) (r tmsi : Nat) :
    (n.tearDown r tmsi).config = n.config ∧ (n.tearDown r tmsi).rrc = n.rrc ∧
      (n.tearDown r tmsi).nas = n.nas ∧ (n.tearDown r tmsi).initiatedHo = n.initiatedHo ∧
      (n.tearDown r tmsi).flows = n.flows.erase r ∧
      (n.tearDown r tmsi).tmsiToCrnti = n.tmsiToCrnti.filter (fun _ crnti => crnti ≠ r) ∧
      (n.tearDown r tmsi).confs =
        ((n.nas.findUe tmsi).map fun ctx => n.confs.purgeMember ctx.imsi).getD n.confs := by
  unfold BsNode.tearDown
  dsimp only
  cases n.nas.findUe tmsi with
  | none => exact ⟨rfl, rfl, rfl, rfl, rfl, rfl, rfl⟩
  | some ctx => exact ⟨rfl, rfl, rfl, rfl, rfl, rfl, rfl⟩

/-- The conferences of `x` after the clean-up. -/
theorem apart_tearDown_iff (x : Imsi) (confs : ConfTable) (found : Option NasUeContext) :
    ConferenceTable.Apart x ((found.map fun ctx => confs.purgeMember ctx.imsi).getD confs) ↔
      ∀ (id : Nat) (c : Conference), confs[id]? = some c → c.host = x ∨ x ∈ c.members →
        ∃ ctx, found = some ctx ∧ (ctx.imsi = x ∨ ¬ ConferenceTable.Outlives ctx.imsi c) := by
  cases found with
  | none =>
    refine ⟨fun h id c hc hpart => ?_, fun h id c hc => ?_⟩
    · exact absurd hpart (not_or.mpr (h id c hc))
    · exact not_or.mp fun hpart => by
        obtain ⟨ctx, hnone, -⟩ := h id c hc hpart
        cases hnone
  | some ctx =>
    rw [Option.map_some, Option.getD_some, ConferenceTable.apart_purgeMember_iff]
    constructor
    · rintro (hsame | hrest) id c hc hpart
      · exact ⟨ctx, rfl, .inl hsame⟩
      · exact ⟨ctx, rfl, .inr fun houtlives => absurd hpart (not_or.mpr (hrest id c hc houtlives))⟩
    · intro h
      by_cases hsame : ctx.imsi = x
      · exact .inl hsame
      · refine .inr fun id c hc houtlives => not_or.mp fun hpart => ?_
        obtain ⟨ctx', heq, hcases⟩ := h id c hc hpart
        obtain rfl := Option.some.inj heq
        rcases hcases with hx | hnot
        · exact hsame hx
        · exact hnot houtlives

/-- After a DETACH nothing is left exactly when what it does not reach was gone before. -/
theorem nothingLeft_detach_iff {x : Imsi} {t : Nat} {m : BsNode} (hcore : m.config.amf = false)
    {last : UInt8 × Bytes} (h : IsDetach w r m last) :
    NothingLeft x r t (BsNode.handleSdu w r m last) ↔ Cleared w x r t m last := by
  obtain ⟨-, -, hho, hconfs, -, -, hrrc⟩ := noteActivity_tables m r
  have hccch : last.1 ≠ lcidCcch := by rw [h.lcid]; decide
  obtain ⟨-, hrrc', hnas', hho', hflows', hmap', hconfs'⟩ := tearDown_tables (atTearDown w r m last.2) r
    ((atTearDown w r m last.2).tmsiForCrnti w r)
  have hparties := apart_tearDown_iff x m.confs (foundContext w r m last.2)
  have hcontext : t ∉ (m.nas.ueContexts.erase (namedTmsi w r m last.2)) ↔
      (t ∈ m.nas.ueContexts → namedTmsi w r m last.2 = t) := by
    rw [Std.ExtTreeMap.mem_erase, not_and, ne_eq, compare_eq_iff_eq]
    exact ⟨fun h hmem => by_contra fun hne => h hne hmem, fun h hne hmem => hne (h hmem)⟩
  rw [handleSdu_tearDown w hcore h]
  have hfound : ((atTearDown w r m last.2).tearDown r ((atTearDown w r m last.2).tmsiForCrnti w r)).confs =
      ((foundContext w r m last.2).map fun ctx => m.confs.purgeMember ctx.imsi).getD m.confs := by
    rw [hconfs', show (atTearDown w r m last.2).confs = m.confs from hconfs]
    rfl
  constructor
  · intro hleft
    refine ⟨?_, ?_, ?_, fun heq => absurd heq hccch, fun _ => ⟨?_, ?_⟩⟩
    · have hgone := hleft.rrcContext
      rw [hrrc'] at hgone
      exact fun hmem => hgone ((hrrc r).mpr hmem)
    · have hgone := hleft.sessionKey
      rw [hnas'] at hgone
      exact hgone
    · have hgone := hleft.initiatedHo
      rw [hho'] at hgone
      exact hho ▸ hgone
    · have hgone := hleft.nasContext
      rw [hnas'] at hgone
      exact hcontext.mp hgone
    · have hgone : ConferenceTable.Apart x _ := hleft.conference
      rw [hfound] at hgone
      exact hparties.mp hgone
  · intro hcleared
    obtain ⟨hnamed, hrest⟩ := hcleared.detach h.lcid
    constructor
    · rw [hflows']
      simp
    · rw [hrrc']
      exact fun hmem => hcleared.rrcContext ((hrrc r).mp hmem)
    · intro tmsi
      rw [hmap']
      simp [Std.ExtTreeMap.getElem?_filter]
    · rw [hnas']
      exact hcontext.mpr hnamed
    · rw [hnas']
      exact hcleared.sessionKey
    · rw [hho']
      exact fun hmem => hcleared.initiatedHo (hho ▸ hmem)
    · have hgone := hparties.mpr hrest
      rw [← hfound] at hgone
      exact hgone

/-- A RELEASE erases nothing, so everything has to be gone before it. -/
theorem nothingLeft_release_iff {x : Imsi} {t : Nat} {m : BsNode} {last : UInt8 × Bytes} (h : IsRelease last) :
    NothingLeft x r t (BsNode.handleSdu w r m last) ↔ Cleared w x r t m last := by
  have hdcch : last.1 ≠ lcidNasDcch := by rw [h.lcid]; decide
  have hbefore : NothingLeft x r t (BsNode.handleSdu w r m last) ↔ NothingLeft x r t m := by
    rw [handleSdu_release w h]
    cases hctx : m.rrc.findUe r with
    | none => exact Iff.rfl
    | some ctx =>
      constructor
      · intro hleft
        exact absurd (BsNode.mem_putUe.mpr (.inl rfl)) hleft.rrcContext
      · intro hleft
        exact absurd (BsNode.mem_of_findUe hctx) hleft.rrcContext
  rw [hbefore]
  constructor
  · intro hleft
    exact ⟨hleft.rrcContext, hleft.sessionKey, hleft.initiatedHo,
      fun _ => ⟨hleft.flow, hleft.mapping, hleft.nasContext, hleft.conference⟩, fun heq => absurd heq hdcch⟩
  · intro hcleared
    obtain ⟨hflow, hmapping, hnas, hconfs⟩ := hcleared.release h.lcid
    exact ⟨hflow, hcleared.rrcContext, hmapping, hnas, hcleared.sessionKey, hcleared.initiatedHo, hconfs⟩

/-! ### The context of a UE that is in the cell -/

theorem noteActivity_present (hn : Present r n) :
    n.noteActivity r lcidNasDcch =
      n.putFlow r { n.flow r with lastActivityMs := n.nowMs, suspended := false } := by
  have hciphered : cipheredLcid lcidNasDcch = true := by decide
  simp only [BsNode.noteActivity, hciphered, if_true, hn.2.1, Bool.false_eq_true, if_false]

theorem tearDown_parked (n : BsNode) (tmsi : Nat) : (n.tearDown r tmsi).parked r = (false, 0) := by
  simp [BsNode.tearDown, BsNode.parked, BsNode.flow, BsNode.eraseFlow]

/-- DETACH erases the flow and leaves RRC alone. -/
theorem handleSdu_detach_keeps (hn : Present r n) {entry : UInt8 × Bytes} (h : IsDetach w r n entry) :
    (BsNode.handleSdu w r n entry).config = n.config ∧ (BsNode.handleSdu w r n entry).rrc = n.rrc ∧
      (BsNode.handleSdu w r n entry).parked r = (false, 0) := by
  obtain ⟨hconfig, hrrc, -⟩ := tearDown_tables (atTearDown w r n entry.2) r
    ((atTearDown w r n entry.2).tmsiForCrnti w r)
  have hactive : (n.noteActivity r lcidNasDcch).config = n.config ∧ (n.noteActivity r lcidNasDcch).rrc = n.rrc := by
    rw [noteActivity_present hn]
    exact ⟨rfl, rfl⟩
  rw [handleSdu_tearDown w hn.1 h]
  exact ⟨hconfig.trans hactive.1, hrrc.trans hactive.2, tearDown_parked _ _⟩

/-- After the first of the two messages the context lingers. -/
theorem first_lingers (hn : Present r n) {entry : UInt8 × Bytes}
    (h : IsDetach w r n entry ∨ IsRelease entry) : Lingers r (BsNode.handleSdu w r n entry) := by
  obtain ⟨hcore, hawake, ctx, hctx, hinactive⟩ := id hn
  rcases h with hdetach | hrelease
  · obtain ⟨hconfig, hrrc, hparked⟩ := handleSdu_detach_keeps w hn hdetach
    refine ⟨?_, by rw [hparked], ctx, ?_, hinactive, .inr (by rw [hparked])⟩
    · rw [hconfig]
      exact hcore
    · rw [hrrc]
      exact hctx
  · rw [handleSdu_release w hrelease, hctx, Option.map_some, Option.getD_some]
    refine ⟨hcore, hawake, { ctx with state := .idle }, ?_, nofun, .inl nofun⟩
    simp [RrcBs.putUe, RrcBs.findUe]

/-- The second message does not erase it either. -/
theorem second_keeps (hn : Lingers r n) {entry : UInt8 × Bytes}
    (h : IsDetach w r n entry ∨ IsRelease entry) :
    r ∈ (BsNode.handleSdu w r n entry).rrc.ueContexts := by
  obtain ⟨-, -, ctx, hctx, -⟩ := hn.present
  rcases h with hdetach | hrelease
  · rw [(handleSdu_detach_keeps w hn.present hdetach).2.1]
    exact BsNode.mem_of_findUe hctx
  · rw [handleSdu_release w hrelease, hctx, Option.map_some, Option.getD_some]
    exact BsNode.mem_putUe.mpr (.inl rfl)

end DetachResidue

open DetachResidue

namespace DetachResidue

def rrcSdu (type : RrcMessageType) (value : Bytes) : UInt8 × Bytes :=
  (lcidCcch, RrcMessage.encode { msgType := type, value := value })

def nasSdu (type : NasMessageType) (value : Bytes) : UInt8 × Bytes :=
  (lcidNasDcch, Pdcp.tx (NasMessage.encode { msgType := type, value := value }))

def ofUe (entry : UInt8 × Bytes) : BsNode.Step := { event := .sdu 1 entry.1 entry.2 }

/-- A UE with IMSI [49] and C-RNTI 1 attaches to a cell with open access. -/
def attach : List BsNode.Step :=
  [{ event := .frame ⟨.msg1Prach, 0, [1, 0]⟩ (-100) },
    { event := .frame ⟨.msg3Ccch, 0, 3 :: (putU16 0x4300 ++ (rrcSdu .setupRequest (putU16 1)).2)⟩ (-100) },
    ofUe (rrcSdu .setupComplete []), ofUe (nasSdu .attachRequest [49])]

def detach : UInt8 × Bytes := nasSdu .detach (putU32 0x10001)

def release : UInt8 × Bytes := rrcSdu .release (putU16 1)

theorem isDetach_detach {n : BsNode}
    (h : openSdu (BsNode.pdcpHmac .plain) (n.flow 1).secOn (n.flow 1).upKey detach.2 =
      some (NasMessage.encode { msgType := .detach, value := putU32 0x10001 })) :
    IsDetach .plain 1 n detach :=
  ⟨rfl, by decide, _, h, by decide⟩

theorem isRelease_release : IsRelease release := ⟨rfl, by decide, by decide⟩

end DetachResidue

end AetherStack.Guarantees
