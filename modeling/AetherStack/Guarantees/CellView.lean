import AetherStack.Guarantees.HandoverIsolation
import AetherStack.Source.BsEffects

/-!
# A base station and its parts

`BsCell` and `DlFlow` are parts of `BsNode`: registrar, identities and C-RNTI counters of a cell,
and the data path of one UE. Here both are read off the whole node, and its functions on them are
those of the parts (bs_node.cpp:73-98, 342-367, 629-682 and 1258-1387, rach_bs.cpp:42-69). HARQ,
timers, RRC and the separated core are in the whole node only.
-/
namespace AetherStack.Guarantees
open Source Source.Core Mac Rrc Lib

/-! ### The cell -/

/-- Registrar, identities, flows and C-RNTI counters of a base station. -/
def cell (n : BsNode) : BsCell where
  nas := n.nas
  tmsiToCrnti := n.tmsiToCrnti
  flows := fun r => (n.flow r).toDlFlow
  hoPrepared := fun r => n.hoPrepared[r]?
  nextCrnti := n.rach.nextCrnti
  nextHoCrnti := n.nextHoCrnti
  maxDlQueuePerUe := n.config.maxDlQueuePerUe

theorem cell_putFlow (n : BsNode) (rnti : Nat) (f : Core.DlFlow) :
    cell (n.putFlow rnti f) =
      { cell n with flows := Function.update (cell n).flows rnti f.toDlFlow } := by
  have hflows : (fun r => ((n.putFlow rnti f).flow r).toDlFlow) =
      Function.update (cell n).flows rnti f.toDlFlow := by
    funext r
    by_cases hr : r = rnti
    · subst hr
      rw [BsNode.flow_putFlow_self, Function.update_self]
    · rw [BsNode.flow_putFlow_of_ne n f hr, Function.update_of_ne hr]
      rfl
  simp only [cell, hflows]
  rfl

/-- An erased flow is the default one again. -/
theorem cell_eraseFlow (n : BsNode) (rnti : Nat) :
    cell (n.eraseFlow rnti) = { cell n with flows := Function.update (cell n).flows rnti {} } := by
  have hflows : (fun r => ((n.eraseFlow rnti).flow r).toDlFlow) =
      Function.update (cell n).flows rnti {} := by
    funext r
    by_cases hr : r = rnti
    · subst hr
      rw [Function.update_self, BsNode.flow, BsNode.eraseFlow, Std.ExtTreeMap.getElem?_erase_self]
      rfl
    · have hcmp : rnti ≠ r := fun heq => hr heq.symm
      rw [Function.update_of_ne hr, BsNode.flow, BsNode.eraseFlow, Std.ExtTreeMap.getElem?_erase,
        if_neg (by simpa using hcmp)]
      rfl
  simp only [cell, hflows]
  rfl

theorem cell_downlinkSend (n : BsNode) (rnti : Nat) (lcid : UInt8) (sdu : Bytes) :
    cell (n.downlinkSend rnti lcid sdu) =
      { cell n with
        flows := Function.update (cell n).flows rnti
          (((cell n).flows rnti).downlinkSend (cell n).maxDlQueuePerUe lcid sdu) } :=
  cell_putFlow n rnti _

theorem cell_armSecurity (n : BsNode) (rnti : Nat) (key : Key256) :
    cell (n.armSecurity rnti key) =
      { cell n with
        flows := Function.update (cell n).flows rnti (((cell n).flows rnti).armSecurity key) } :=
  cell_putFlow n rnti _

/-- The send callback of the registrar: identity, message and key are as in the part. -/
theorem cell_onNasSend (n : BsNode) (rnti : Nat) (sent : Nat × Bytes) :
    cell (BsNode.onNasSend rnti n sent) = (cell n).onNasSend rnti sent := by
  have hlearnt : cell (n.learnCrnti sent.1 rnti).1 =
        { cell n with
          tmsiToCrnti := if n.tmsiToCrnti.contains sent.1 then n.tmsiToCrnti
            else n.tmsiToCrnti.insert sent.1 rnti } ∧
      (n.learnCrnti sent.1 rnti).2 = (cell n).replyCrnti rnti sent.1 := by
    unfold BsNode.learnCrnti BsCell.replyCrnti
    rw [← Std.ExtTreeMap.isSome_getElem?_eq_contains]
    cases hknown : n.tmsiToCrnti[sent.1]? with
    | none => exact ⟨rfl, by simp [cell, hknown]⟩
    | some r => exact ⟨rfl, by simp [cell, hknown]⟩
  obtain ⟨hcell, hcrnti⟩ := hlearnt
  have hnas : (n.learnCrnti sent.1 rnti).1.nas = n.nas := congrArg BsCell.nas hcell
  unfold BsNode.onNasSend BsCell.onNasSend
  dsimp only
  rw [show ((n.learnCrnti sent.1 rnti).1.downlinkSend (n.learnCrnti sent.1 rnti).2 lcidNasDcch
      (Pdcp.tx sent.2)).nas = n.nas from hnas, hcrnti, show (cell n).nas = n.nas from rfl]
  cases n.nas.sessionKeys[sent.1]? with
  | none => rw [cell_downlinkSend, hcell]; rfl
  | some key =>
    simp only [cell_armSecurity, cell_downlinkSend, hcell, Function.update_self,
      Function.update_idem]
    rfl

variable (w : World)

theorem cell_foldl_onNasSend (rnti : Nat) (out : List (Nat × Bytes)) (n : BsNode) :
    cell (out.foldl (BsNode.onNasSend rnti) n) =
      out.foldl (fun c sent => c.onNasSend rnti sent) (cell n) := by
  induction out generalizing n with
  | nil => rfl
  | cons sent out ih => rw [List.foldl_cons, List.foldl_cons, ih, cell_onNasSend]

/-- The conferences that a departure may end are no part of the cell. -/
theorem cell_tearDown (n : BsNode) (rnti tmsi : Nat) :
    cell (n.tearDown rnti tmsi) =
      { cell n with
        tmsiToCrnti := (cell n).tmsiToCrnti.filter fun _ crnti => crnti ≠ rnti
        flows := Function.update (cell n).flows rnti {} } := by
  unfold BsNode.tearDown
  dsimp only
  rw [cell_eraseFlow]
  split <;> rfl

/-- With the registrar inside the node, a NAS PDU is handled as in the part. -/
theorem cell_handleNasPdu (n : BsNode) (hembedded : n.config.amf = false) (rnti : Nat)
    (pdu : Bytes) :
    cell (n.handleNasPdu w rnti pdu) =
      (cell n).onNasUplink w.digest rnti (w.order n .pendingAuth) (w.rand n.nas) pdu := by
  unfold BsNode.handleNasPdu BsCell.onNasUplink
  dsimp only
  rw [if_neg (by simp [BsNode.coreSeparated, hembedded])]
  split
  · rw [cell_tearDown, cell_foldl_onNasSend]
    rfl
  · exact cell_foldl_onNasSend _ _ _

/-- The context that a source hands over. -/
theorem hoContext_cell (n : BsNode) (crnti : Nat) :
    n.hoContext w crnti = (cell n).hoContext (w.order n .tmsiToCrnti) crnti := rfl

/-- The target side of a handover. -/
theorem cell_prepareHandover (n : BsNode) (ctx : HoContext) :
    cell (n.prepareHandover ctx) = (cell n).prepareHandover ctx := by
  have hprepared : (fun r => (n.hoPrepared.insert n.nextHoCrnti ctx)[r]?) =
      Function.update (cell n).hoPrepared n.nextHoCrnti (some ctx) := by
    funext r
    by_cases hr : r = n.nextHoCrnti
    · subst hr
      rw [Function.update_self, Std.ExtTreeMap.getElem?_insert_self]
    · have hcmp : n.nextHoCrnti ≠ r := fun heq => hr heq.symm
      rw [Function.update_of_ne hr, Std.ExtTreeMap.getElem?_insert, if_neg (by simpa using hcmp)]
      rfl
  have hcell : cell (n.prepareHandover ctx) =
      { (cell n).prepareHandover ctx with
        flows := (cell (n.putFlow n.nextHoCrnti
          { n.flow n.nextHoCrnti with upKey := ctx.upKey, secOn := ctx.secOn })).flows
        hoPrepared := fun r => (n.hoPrepared.insert n.nextHoCrnti ctx)[r]? } := rfl
  rw [hcell, hprepared, cell_putFlow]
  rfl

/-- MSG3 with a SETUP_REQUEST of the cell, for a preamble that it has answered. -/
structure AsksForSetup (n : BsNode) (msg3 : Bytes) : Prop where
  answered : getU16 msg3 1 ∈ n.rach.ueContexts
  carries : 3 < msg3.length
  setup : (RrcMessage.decode (msg3.drop 3)).msgType = .setupRequest
  own : n.rrc.foreignCell (RrcMessage.decode (msg3.drop 3)).value = false
  nonzero : n.rach.nextCrnti ≠ 0

instance (n : BsNode) (msg3 : Bytes) : Decidable (AsksForSetup n msg3) :=
  decidable_of_iff
    (getU16 msg3 1 ∈ n.rach.ueContexts ∧ 3 < msg3.length ∧
      (RrcMessage.decode (msg3.drop 3)).msgType = .setupRequest ∧
      n.rrc.foreignCell (RrcMessage.decode (msg3.drop 3)).value = false ∧ n.rach.nextCrnti ≠ 0)
    ⟨fun h => ⟨h.1, h.2.1, h.2.2.1, h.2.2.2.1, h.2.2.2.2⟩,
      fun h => ⟨h.answered, h.carries, h.setup, h.own, h.nonzero⟩⟩

theorem cell_msg3 (n : BsNode) {msg3 : Bytes} (h : AsksForSetup n msg3) :
    cell (n.runRach w (n.rach.onMsg3Received (getU16 msg3 1) msg3)) = (cell n).onMsg3 := by
  obtain ⟨ctx, hctx⟩ := Option.isSome_iff_exists.mp
    (Std.ExtTreeMap.mem_iff_isSome_getElem?.mp h.answered)
  have hassign : ∀ r : RrcBs, r.assign n.rach.nextCrnti = (r, n.rach.nextCrnti) := fun r =>
    if_pos h.nonzero
  have hcall : n.rach.onMsg3Received (getU16 msg3 1) msg3 =
      ({ n.rach with
          nextCrnti := (n.rach.nextCrnti + 1) % snModulus
          ueContexts := n.rach.ueContexts.insert (getU16 msg3 1)
            { ctx with cRnti := n.rach.nextCrnti, rachComplete := true } },
        [.msg4 (RachBs.msg4Pdu n.rach.nextCrnti (getU16 msg3 1)),
          .ccch n.rach.nextCrnti (msg3.drop 3)]) := by
    unfold RachBs.onMsg3Received
    rw [hctx]
    dsimp only
    rw [if_pos h.carries]
  have hrrc : ∀ order, n.rrc.handleMessage order n.rach.nextCrnti (msg3.drop 3) =
      (n.rrc.putUe n.rach.nextCrnti { cRnti := n.rach.nextCrnti, state := .connecting },
        [.send n.rach.nextCrnti (BsCell.setupMessage n.rach.nextCrnti)]) := by
    intro order
    unfold RrcBs.handleMessage
    dsimp only
    rw [h.setup]
    dsimp only
    rw [RrcBs.onSetupRequest, if_neg (by rw [h.own]; exact Bool.false_ne_true), hassign]
    rfl
  rw [hcall]
  simp only [BsNode.runRach, List.foldl_cons, List.foldl_nil, BsNode.onRachOutput]
  rw [show (BsNode.sendFrame { n with rach := _ } .msg4Cr 0 _).rrc = n.rrc from rfl, hrrc,
    BsNode.runRrc, List.foldl_cons, List.foldl_nil, BsNode.onRrcOutput, cell_downlinkSend]
  rfl

/-! ### Runs of a cell -/

/-- What a node does in the runs of `CellRun`: a handover comes in, a MSG3 asks for a connection,
a NAS PDU other than a DETACH is handled. -/
inductive NodeEvent where
  | prepare (ctx : HoContext)
  | msg3 (payload : Bytes) (snr : ℚ)
  | nas (rnti : Nat) (pdu : Bytes)

namespace NodeEvent

/-- The event as the part sees it. -/
def seen (n : BsNode) : NodeEvent → CellEvent
  | .prepare ctx => .prepare ctx
  | .msg3 _ _ => .msg3
  | .nas rnti pdu => .nas rnti (w.order n .pendingAuth) (w.rand n.nas) pdu

/-- One event, on a node with the registrar inside. -/
def step (n : BsNode) : NodeEvent → Option BsNode
  | .prepare ctx => some (n.prepareHandover ctx)
  | .msg3 payload snr =>
    if AsksForSetup n payload then (n.handleAirFrame w ⟨.msg3Ccch, 0, payload⟩ snr).toOption
    else none
  | .nas rnti pdu =>
    if n.config.amf = false ∧ (NasMessage.decode pdu).msgType ≠ .detach then
      some (n.handleNasPdu w rnti pdu)
    else none

/-- The events of a run as the part sees them. -/
def seenAlong : BsNode → List NodeEvent → List CellEvent
  | _, [] => []
  | n, e :: es => e.seen w n :: ((step w n e).map fun n' => seenAlong n' es).getD []

/-- Step lemma: what the node does is what the part does. -/
theorem step_cell {n n' : BsNode} {e : NodeEvent} (h : step w n e = some n') :
    CellRun.step w.digest (cell n) (e.seen w n) = some (cell n') := by
  cases e with
  | prepare ctx =>
    obtain rfl := Option.some.inj h
    rw [cell_prepareHandover]
    rfl
  | msg3 payload snr =>
    dsimp only [step] at h
    split at h
    · rename_i hasks
      have hlen : payload.length ≥ 4 := hasks.carries
      simp only [BsNode.handleAirFrame, if_pos hlen, Except.toOption, Option.some.injEq] at h
      rw [← h, cell_msg3 w n hasks]
      rfl
    · cases h
  | nas rnti pdu =>
    dsimp only [step] at h
    split at h
    · rename_i henabled
      obtain rfl := Option.some.inj h
      rw [cell_handleNasPdu w n henabled.1]
      exact if_pos ⟨w.perm n .pendingAuth, henabled.2⟩
    · cases h

/-- Run lemma: a run of the node is a run of the part. -/
theorem run_cell {n n' : BsNode} {events : List NodeEvent}
    (run : runFrom (step w) n events = some n') :
    runFrom (CellRun.step w.digest) (cell n) (seenAlong w n events) = some (cell n') := by
  induction events generalizing n with
  | nil =>
    obtain rfl := Option.some.inj run
    rfl
  | cons e es ih =>
    obtain ⟨m, hstep, hrest⟩ := runFrom_cons_eq_some.mp run
    refine runFrom_cons_eq_some.mpr ⟨cell m, step_cell w hstep, ?_⟩
    rw [hstep]
    exact ih hrest

end NodeEvent

/-! ### Schedulers -/

/-- Some turns of a scheduler, with the block each of them makes. -/
inductive Turns {σ : Type} (turn : σ → Option (σ × AirBlock)) : σ → List AirBlock → σ → Prop
  | nil (s : σ) : Turns turn s [] s
  | cons {s s' s'' : σ} {b : AirBlock} {blocks : List AirBlock} (first : turn s = some (s', b))
      (rest : Turns turn s' blocks s'') : Turns turn s (b :: blocks) s''

/-- A block goes to HARQ, which makes a frame of it if a process is free. -/
def handOver (s : HarqTx × List AirFrame) (b : AirBlock) : HarqTx × List AirFrame :=
  let sent := s.1.send (buildPdu [(b.lcid, b.sdu)])
  (sent.1, s.2 ++ sent.2.toList.map fun event => ⟨.data, b.rnti, event.coded⟩)

/-- One turn of the drain loop, before HARQ: the PDU at the head makes the block of the part. -/
theorem drain_turn (rnti : Nat) {f : Core.DlFlow} (t : HarqTx) {p : AppPdu} {bearers : BearerSet}
    (hopen : f.suspended = false ∨ f.bearers.ctrl ≠ [])
    (hpop : f.bearers.popNext = some (p, bearers)) :
    ∃ b : AirBlock, b.rnti = rnti ∧ b.lcid = p.lcid ∧
      b.sdu = (if p.cipher then Pdcp.protect (BsNode.pdcpHmac w) f.upKey f.dlSeq p.bytes
        else p.bytes) ∧
      f.toDlFlow.scheduleDownlink (BsNode.pdcpHmac w) rnti =
        some (({ f with
          bearers := bearers, harqTx := t
          dlSeq := if p.cipher then f.dlSeq + 1 else f.dlSeq } : Core.DlFlow).toDlFlow, b) := by
  have hserves : ¬ (f.suspended && f.bearers.ctrl.isEmpty) = true := by
    rw [Bool.and_eq_true, List.isEmpty_iff]
    rintro ⟨hsuspended, hctrl⟩
    rcases hopen with hawake | hwaiting
    · rw [hsuspended] at hawake
      cases hawake
    · exact hwaiting hctrl
  unfold Source.DlFlow.scheduleDownlink
  rw [if_neg hserves, hpop]
  dsimp only
  split
  · exact ⟨_, rfl, rfl, rfl, rfl⟩
  · exact ⟨_, rfl, rfl, rfl, rfl⟩

/-- The drain loop of one flow is turns of the part, and hands HARQ their blocks. -/
theorem drainLoop_turns (rnti fuel : Nat) (n : BsNode) :
    ∃ blocks, Turns (fun f => f.scheduleDownlink (BsNode.pdcpHmac w) rnti)
        (n.flow rnti).toDlFlow blocks ((BsNode.drainLoop w rnti fuel n).flow rnti).toDlFlow ∧
      (((BsNode.drainLoop w rnti fuel n).flow rnti).harqTx, (BsNode.drainLoop w rnti fuel n).air) =
        blocks.foldl handOver ((n.flow rnti).harqTx, n.air) := by
  induction fuel generalizing n with
  | zero => exact ⟨[], .nil _, rfl⟩
  | succ fuel ih =>
    unfold BsNode.drainLoop
    dsimp only
    split
    · rename_i hroom
      cases hpop : (n.flow rnti).bearers.popNext with
      | none => exact ⟨[], .nil _, rfl⟩
      | some taken =>
        obtain ⟨p, bearers⟩ := taken
        dsimp only
        generalize hsdu : (if p.cipher then Pdcp.protect (BsNode.pdcpHmac w) (n.flow rnti).upKey
          (n.flow rnti).dlSeq p.bytes else p.bytes) = sdu
        generalize hsent : (n.flow rnti).harqTx.send (buildPdu [(p.lcid, sdu)]) = sent
        obtain ⟨b, hrnti, hlcid, hblock, hturn⟩ := drain_turn w rnti sent.1 hroom.2 hpop
        have hover : handOver ((n.flow rnti).harqTx, n.air) b = (sent.1,
            n.air ++ sent.2.toList.map fun event => ⟨.data, rnti, event.coded⟩) := by
          rw [handOver, hlcid, hblock, hsdu, hsent, hrnti]
        cases hframe : sent.2 with
        | none =>
          refine ⟨[b], .cons hturn ?_, ?_⟩
          · rw [BsNode.flow_putFlow_self]
            exact .nil _
          · rw [List.foldl_cons, hover, hframe, BsNode.flow_putFlow_self]
            simp [BsNode.putFlow]
        | some event =>
          obtain ⟨blocks, hturns, hhanded⟩ := ih (BsNode.sendFrame (n.putFlow rnti { n.flow rnti with
            bearers := bearers, harqTx := sent.1
            dlSeq := if p.cipher then (n.flow rnti).dlSeq + 1 else (n.flow rnti).dlSeq })
            .data rnti event.coded)
          rw [show ∀ m : BsNode, (m.sendFrame .data rnti event.coded).flow rnti = m.flow rnti from
            fun _ => rfl, BsNode.flow_putFlow_self] at hturns hhanded
          refine ⟨b :: blocks, .cons hturn hturns, ?_⟩
          rw [List.foldl_cons, hover, hframe]
          exact hhanded
    · exact ⟨[], .nil _, rfl⟩

theorem drainFlow_turns (n : BsNode) (rnti : Nat) :
    ∃ blocks, Turns (fun f => f.scheduleDownlink (BsNode.pdcpHmac w) rnti)
        ((cell n).flows rnti) blocks ((cell (n.drainFlow w rnti)).flows rnti) ∧
      (((n.drainFlow w rnti).flow rnti).harqTx, (n.drainFlow w rnti).air) =
        blocks.foldl handOver ((n.flow rnti).harqTx, n.air) := by
  unfold BsNode.drainFlow
  split
  · exact ⟨[], .nil _, rfl⟩
  · exact drainLoop_turns w rnti _ n

end AetherStack.Guarantees
