import AetherStack.Source.BsTables

/-!
# The source's record of a handover

`initiated_ho_` holds, for each source C-RNTI with a handover under way, the target cell and
the C-RNTI the HO_COMMAND named. Only the Xn path looks into it before it starts a handover;
the coordinator and the AMF path start another one and, in the AMF's case, overwrite the
record with C-RNTI 0. `Recorded` is what holds as long as no such request meets a record.
-/
namespace AetherStack.Guarantees
open Source Source.Mac Source.Rrc Source.Core Lib

namespace HandoverRecord

/-! ### Reading the log -/

/-- The last HO_COMMAND for a source, until its completion. -/
def lastCommand (log : List HoEntry) (source : Nat) : Option InitiatedHo :=
  log.foldl (fun last entry =>
    match entry with
    | .started _ _ => last
    | .commanded s targetCell newCrnti => if s = source then some ⟨targetCell, newCrnti⟩ else last
    | .completed s _ => if s = source then none else last) none

/-- The handovers of a source that have started and not been completed. -/
def inFlight (log : List HoEntry) (source : Nat) : Nat :=
  log.foldl (fun count entry =>
    match entry with
    | .started s _ => if s = source then count + 1 else count
    | .commanded _ _ _ => count
    | .completed s _ => if s = source then 0 else count) 0

variable (log : List HoEntry) (s source targetCell newCrnti : Nat)

@[simp] theorem lastCommand_started :
    lastCommand (log ++ [.started s targetCell]) source = lastCommand log source := by
  simp [lastCommand]

@[simp] theorem lastCommand_commanded :
    lastCommand (log ++ [.commanded s targetCell newCrnti]) source =
      if s = source then some ⟨targetCell, newCrnti⟩ else lastCommand log source := by
  simp [lastCommand]

@[simp] theorem lastCommand_completed :
    lastCommand (log ++ [.completed s newCrnti]) source =
      if s = source then none else lastCommand log source := by
  simp [lastCommand]

@[simp] theorem inFlight_started :
    inFlight (log ++ [.started s targetCell]) source =
      if s = source then inFlight log source + 1 else inFlight log source := by
  simp [inFlight]

@[simp] theorem inFlight_commanded :
    inFlight (log ++ [.commanded s targetCell newCrnti]) source = inFlight log source := by
  simp [inFlight]

@[simp] theorem inFlight_completed :
    inFlight (log ++ [.completed s newCrnti]) source =
      if s = source then 0 else inFlight log source := by
  simp [inFlight]

end HandoverRecord

namespace HandoverRecord

/-! ### The invariant -/

/-- The record of one source: it has the last command, and without it nothing is in flight. -/
structure Matches (log : List HoEntry) (record : Option InitiatedHo) (source : Nat) : Prop where
  command : ∀ ho, lastCommand log source = some ho → record = some ho
  once : inFlight log source ≤ 1
  idle : record = none → inFlight log source = 0

def Recorded (n : BsNode) : Prop := ∀ s : Nat, Matches n.hoLog n.initiatedHo[s]? s

variable {n n' n'' : BsNode}

theorem Recorded.congr (h : Recorded n) (hho : n'.initiatedHo = n.initiatedHo)
    (hlog : n'.hoLog = n.hoLog) : Recorded n' := by
  intro s
  rw [hho, hlog]
  exact h s

/-- The steps that leave the handovers alone. -/
theorem Recorded.of_mobility (h : Recorded n) (hmobility : n'.mobility = n.mobility) : Recorded n' :=
  h.congr (congrArg Mobility.initiatedHo hmobility) (congrArg Mobility.hoLog hmobility)

theorem getElem?_insertHo (m : Std.ExtTreeMap Nat InitiatedHo) (s s' : Nat) (ho : InitiatedHo) :
    (m.insert s ho)[s']? = if s = s' then some ho else m[s']? := by
  simp [Std.ExtTreeMap.getElem?_insert]

theorem getElem?_eraseHo (m : Std.ExtTreeMap Nat InitiatedHo) (s s' : Nat) :
    (m.erase s)[s']? = if s = s' then none else m[s']? := by
  simp [Std.ExtTreeMap.getElem?_erase]

/-- Record and command are written together. -/
theorem Matches.commanded {s : Nat} (h : Matches n.hoLog n.initiatedHo[s]? s)
    (source targetCell newCrnti : Nat) :
    Matches (n.commandHo source targetCell newCrnti).hoLog
      (n.commandHo source targetCell newCrnti).initiatedHo[s]? s := by
  simp only [BsNode.commandHo, getElem?_insertHo]
  by_cases heq : source = s
  · refine ⟨fun ho hlast => ?_, ?_, fun hnone => ?_⟩
    · simpa [heq] using hlast
    · rw [inFlight_commanded]
      exact h.once
    · simp [heq] at hnone
  · rw [if_neg heq]
    refine ⟨fun ho hlast => h.command ho ?_, ?_, fun hnone => ?_⟩
    · simpa [heq] using hlast
    · rw [inFlight_commanded]
      exact h.once
    · rw [inFlight_commanded]
      exact h.idle hnone

theorem Recorded.commandHo (h : Recorded n) (source targetCell newCrnti : Nat) :
    Recorded (n.commandHo source targetCell newCrnti) :=
  fun s => (h s).commanded source targetCell newCrnti

/-- A handover of `source` has started and is not recorded yet. -/
structure Starting (source : Nat) (n : BsNode) : Prop where
  free : source ∉ n.initiatedHo
  uncommanded : lastCommand n.hoLog source = none
  started : inFlight n.hoLog source = 1
  others : ∀ s : Nat, s ≠ source → Matches n.hoLog n.initiatedHo[s]? s

/-- Without a record no command is out and nothing is in flight, so a handover can start. -/
theorem Recorded.start (h : Recorded n) {source : Nat} (hfree : source ∉ n.initiatedHo)
    (targetCell : Nat) (hho : n'.initiatedHo = n.initiatedHo)
    (hlog : n'.hoLog = n.hoLog ++ [.started source targetCell]) : Starting source n' := by
  have hnone : n.initiatedHo[source]? = none := by simpa using hfree
  refine ⟨hho ▸ hfree, ?_, ?_, fun s hne => ?_⟩
  · rw [hlog, lastCommand_started]
    cases hlast : lastCommand n.hoLog source with
    | none => rfl
    | some ho =>
      have hrecord := (h source).command ho hlast
      rw [hnone] at hrecord
      cases hrecord
  · rw [hlog, inFlight_started, if_pos rfl, (h source).idle hnone]
  · have hs := h s
    rw [hho, hlog]
    refine ⟨fun ho hlast => hs.command ho ?_, ?_, fun hno => ?_⟩
    · rwa [lastCommand_started] at hlast
    · rw [inFlight_started, if_neg hne.symm]
      exact hs.once
    · rw [inFlight_started, if_neg hne.symm]
      exact hs.idle hno

/-- The record completes the start. -/
theorem Starting.recorded {source : Nat} (h : Starting source n) (ho : InitiatedHo)
    (hho : n'.initiatedHo = n.initiatedHo.insert source ho) (hlog : n'.hoLog = n.hoLog) :
    Recorded n' := by
  intro s
  rw [hho, hlog, getElem?_insertHo]
  by_cases heq : source = s
  · subst heq
    rw [if_pos rfl]
    refine ⟨fun ho' hlast => ?_, h.started.le, nofun⟩
    rw [h.uncommanded] at hlast
    cases hlast
  · rw [if_neg heq]
    exact h.others s (Ne.symm heq)

/-- The command of another source may come in between. -/
theorem Starting.command {source other : Nat} (h : Starting source n) (hknown : other ∈ n.initiatedHo)
    (targetCell newCrnti : Nat) : Starting source (n.commandHo other targetCell newCrnti) := by
  have hne : other ≠ source := fun heq => h.free (heq ▸ hknown)
  refine ⟨?_, ?_, ?_, fun s hs => ?_⟩
  · simp only [BsNode.commandHo, Std.ExtTreeMap.mem_insert, compare_eq_iff_eq]
    exact not_or.mpr ⟨hne, h.free⟩
  · simp only [BsNode.commandHo, lastCommand_commanded, if_neg hne]
    exact h.uncommanded
  · simp only [BsNode.commandHo, inFlight_commanded]
    exact h.started
  · exact h.others s hs |>.commanded _ _ _

/-- Or the command of the same source, which records it. -/
theorem Starting.commanded {source : Nat} (h : Starting source n) (targetCell newCrnti : Nat) :
    Recorded (n.commandHo source targetCell newCrnti) := by
  intro s
  by_cases heq : source = s
  · subst heq
    simp only [BsNode.commandHo, getElem?_insertHo, if_true]
    refine ⟨fun ho hlast => ?_, ?_, nofun⟩
    · simpa using hlast
    · rw [inFlight_commanded]
      exact h.started.le
  · exact (h.others s (Ne.symm heq)).commanded _ _ _

section
variable (w : World)

/-! ### Completions -/

/-- The context that a completion releases, and all that it releases. -/
structure Released (source newCrnti : Nat) (n n' : BsNode) : Prop where
  rrc : n'.rrc.ueContexts = n.rrc.ueContexts.erase source
  nas : ∀ t : Nat, t ≠ n.tmsiForCrnti w source → n'.nas.ueContexts[t]? = n.nas.ueContexts[t]?
  initiatedHo : n'.initiatedHo = n.initiatedHo.erase source
  hoLog : n'.hoLog = n.hoLog ++ [.completed source newCrnti]

/-- A completion releases its source and forgets the handover. -/
theorem completeHo_released {source newCrnti : Nat}
    (h : n.completingSource w newCrnti = some source) :
    Released w source newCrnti n (n.completeHo w newCrnti) := by
  have hnas : ∀ t : Nat, t ≠ n.tmsiForCrnti w source →
      (n.nas.releaseUe (n.tmsiForCrnti w source)).ueContexts[t]? = n.nas.ueContexts[t]? := by
    intro t hne
    rw [NasBs.releaseUe, TmsiMap.getElem?_erase_eq, if_neg hne.symm]
  simp only [BsNode.completeHo, h, BsNode.releaseHoSource]
  split
  · exact ⟨rfl, fun _ _ => rfl, rfl, rfl⟩
  · split
    · exact ⟨rfl, hnas, rfl, rfl⟩
    · exact ⟨rfl, hnas, rfl, rfl⟩

theorem Recorded.completeHo (h : Recorded n) (newCrnti : Nat) : Recorded (n.completeHo w newCrnti) := by
  cases hsource : n.completingSource w newCrnti with
  | none =>
    rw [BsNode.completeHo, hsource]
    exact h
  | some source =>
    have hreleased := completeHo_released w hsource
    intro s
    have hs := h s
    rw [hreleased.initiatedHo, hreleased.hoLog, getElem?_eraseHo]
    by_cases heq : source = s
    · refine ⟨fun ho hlast => ?_, ?_, fun _ => ?_⟩
      · simp [heq] at hlast
      · simp [heq]
      · simp [heq]
    · rw [if_neg heq]
      refine ⟨fun ho hlast => hs.command ho ?_, ?_, fun hnone => ?_⟩
      · simpa [heq] using hlast
      · rw [inFlight_completed, if_neg heq]
        exact hs.once
      · rw [inFlight_completed, if_neg heq]
        exact hs.idle hnone

/-! ### Requests -/

theorem Recorded.onHoPrepared (h : Recorded n) (value : Bytes) : Recorded (n.onHoPrepared w value) := by
  unfold BsNode.onHoPrepared
  split
  · exact h
  · split
    · exact h
    · exact h.commandHo _ _ _

theorem Recorded.onXnPrepareAck (h : Recorded n) (value : Bytes) : Recorded (n.onXnPrepareAck value) := by
  unfold BsNode.onXnPrepareAck
  split
  · exact h
  · split
    · exact h
    · split
      · exact h
      · refine Recorded.commandHo ?_ _ _ _
        exact h.congr rfl rfl

theorem onHoCommand_tables (n : BsNode) (value : Bytes) :
    (n.onHoCommand value).initiatedHo = n.initiatedHo ∧ (n.onHoCommand value).hoLog = n.hoLog := by
  unfold BsNode.onHoCommand
  split
  · exact ⟨rfl, rfl⟩
  · dsimp only
    split <;> exact ⟨rfl, rfl⟩

/-- Over Xn the guard keeps a second request out. -/
theorem Recorded.requestXn (h : Recorded n) (crnti targetCell : Nat) :
    Recorded (n.requestXn w crnti targetCell) := by
  unfold BsNode.requestXn
  split
  · exact h
  · rename_i hfree
    dsimp only
    have hstarting : Starting crnti { n with
        pendingXnHo := n.pendingXnHo.insert (n.hoContext w crnti).tmsi ⟨crnti, targetCell⟩
        hoLog := n.hoLog ++ [.started crnti targetCell] } :=
      h.start hfree targetCell rfl rfl
    refine BsNode.send_rel w (fun m m' => Recorded m → Recorded m') (fun _ hm => hm)
      (fun hfirst hthen hm => hthen (hfirst hm)) _ (fun _ _ hm => hm.congr rfl rfl) ?_
      (hstarting.recorded ⟨targetCell, 0⟩ rfl rfl)
    intro _ _ reply _ hanswer m hm
    have hack : m.handleLinkMessage w .xn reply = m.onXnPrepareAck reply.value := by
      simp only [BsNode.handleLinkMessage, BsNode.handleXnMessage, BsNode.answersTo_xnPrepare hanswer]
    rw [hack]
    exact hm.onXnPrepareAck reply.value

/-- What the AMF answers inside the send meets a handover that is not recorded yet. -/
theorem Starting.answer {source : Nat} (h : Starting source n) {reply : CnMessage}
    (hanswer : BsNode.answersTo .hoRequired reply.msgType = true) :
    Starting source (n.handleLinkMessage w .amf reply) := by
  simp only [BsNode.handleLinkMessage, BsNode.handleCnMessage]
  rcases BsNode.answersTo_hoRequired hanswer with htype | htype
  · simp only [htype]
    obtain ⟨hho, hlog⟩ := onHoCommand_tables n reply.value
    refine ⟨hho ▸ h.free, hlog ▸ h.uncommanded, hlog ▸ h.started, fun s hs => ?_⟩
    rw [hho, hlog]
    exact h.others s hs
  · simp only [htype, BsNode.onHoPrepared]
    split
    · exact h
    · split
      · exact h
      · rename_i other hother
        obtain ⟨ho, hget, -⟩ := BsNode.preparedSource_some w hother
        have hknown : other ∈ n.initiatedHo :=
          Std.ExtTreeMap.mem_iff_isSome_getElem?.mpr (by rw [hget]; rfl)
        exact h.command hknown _ _

/-- Over the AMF the record is written after the send, so none may be there before. -/
theorem Recorded.requestAmf (h : Recorded n) {crnti : Nat} (targetCell : Nat)
    (hfree : crnti ∉ n.initiatedHo) : Recorded (n.requestAmf w crnti targetCell) := by
  unfold BsNode.requestAmf
  dsimp only
  have hstarting : Starting crnti { n with hoLog := n.hoLog ++ [.started crnti targetCell] } :=
    h.start hfree targetCell rfl rfl
  refine (?_ : Starting crnti _).recorded ⟨targetCell, 0⟩ rfl rfl
  refine BsNode.send_rel w (fun m m' => Starting crnti m → Starting crnti m') (fun _ hm => hm)
    (fun hfirst hthen hm => hthen (hfirst hm)) _ (fun _ _ hm => ?_) ?_ hstarting
  · exact ⟨hm.free, hm.uncommanded, hm.started, hm.others⟩
  · exact fun _ _ reply _ hanswer m hm => hm.answer w hanswer

theorem Recorded.requestCoordinator (h : Recorded n) {crnti : Nat} (targetCell : Nat)
    (hfree : crnti ∉ n.initiatedHo ∨ n.answers.head?.join = none) :
    Recorded (n.requestCoordinator crnti targetCell) := by
  unfold BsNode.requestCoordinator
  split
  · exact h
  · exact h.congr rfl rfl
  · rename_i newCrnti rest hanswers
    have habsent : crnti ∉ n.initiatedHo := by
      rcases hfree with hfree | hrefused
      · exact hfree
      · rw [hanswers] at hrefused
        cases hrefused
    have hstarting : Starting crnti { n with
        answers := rest, hoLog := n.hoLog ++ [.started crnti targetCell] } :=
      h.start habsent targetCell rfl rfl
    exact hstarting.commanded targetCell newCrnti

/-- A request that meets a record goes no further: on the Xn path by its own check, at a
coordinator that refuses, or for want of a path. -/
def Unrepeated (n : BsNode) (crnti : Nat) : Prop :=
  crnti ∈ n.flows → crnti ∈ n.initiatedHo →
    if n.config.hoCoordinator then n.answers.head?.join = none else n.config.amf = false

/-- Step lemma for the request, on all three paths. -/
theorem Recorded.requestHandover (h : Recorded n) {crnti : Nat} (targetCell : Nat)
    (honce : Unrepeated n crnti) : Recorded (n.requestHandover w crnti targetCell) := by
  unfold Unrepeated at honce
  unfold BsNode.requestHandover
  split
  · exact h
  · rename_i hflow
    have hthere := honce (not_not.mp hflow)
    split
    · rename_i hcoordinator
      refine h.requestCoordinator targetCell ?_
      by_cases hknown : crnti ∈ n.initiatedHo
      · have hrefused := hthere hknown
        rw [if_pos hcoordinator] at hrefused
        exact .inr hrefused
      · exact .inl hknown
    · rename_i hcoordinator
      split
      · rename_i hamf
        refine h.requestAmf w targetCell fun hknown => ?_
        have hoff := hthere hknown
        rw [if_neg hcoordinator, hamf] at hoff
        cases hoff
      · split
        · exact h.requestXn w crnti targetCell
        · exact h

/-! ### Steps -/

/-- The condition on an SDU: a MEAS_REPORT that asks for a handover meets no record. -/
def SduOnce (rnti : Nat) (n : BsNode) (entry : UInt8 × Bytes) : Prop :=
  entry.1 = lcidCcch → (RrcMessage.decode entry.2).msgType = .measReport →
    n.config.autoHandover = true →
    (BsNode.measTarget n.config.cellId (RrcMessage.decode entry.2).value).isSome → Unrepeated n rnti

/-- The condition on a step. -/
def StepOnce (n : BsNode) (s : BsNode.Step) : Prop :=
  match s.event with
  | .frame f snr =>
    f.type = .data → ∀ m sdus, (n.answered s).receiveData f.rnti f.payload snr = .ok (m, sdus) →
      BsNode.SdusMeet w f.rnti (SduOnce f.rnti) m sdus
  | .sdu rnti lcid sdu => SduOnce rnti (n.answered s) (lcid, sdu)
  | .requestHandover crnti _ => Unrepeated (n.answered s) crnti
  | _ => True

theorem Recorded.handleSdu {rnti : Nat} {entry : UInt8 × Bytes} (h : Recorded n)
    (hentry : SduOnce rnti n entry) : Recorded (BsNode.handleSdu w rnti n entry) := by
  by_cases hmoves : BsNode.MovesHandover entry.1 entry.2
  · have hmoved := BsNode.handleSdu_moved w n rnti entry hmoves
    revert hmoved
    generalize BsNode.handleSdu w rnti n entry = n'
    intro hmoved
    cases hmoved with
    | unmoved => exact h
    | requested htype hauto htarget =>
      exact h.requestHandover w _ (hentry hmoves.1 htype hauto (by rw [htarget]; rfl))
    | completed => exact h.completeHo w _
    | notified => exact (h.completeHo w _).congr rfl rfl
  · exact h.of_mobility (BsNode.mobility_of_admits
      (BsNode.handleSdu_admits w ⟨trivial, fun _ _ => trivial⟩ n entry hmoves))

theorem Recorded.handleLinkMessage (h : Recorded n) (link : Link) (m : CnMessage) :
    Recorded (n.handleLinkMessage w link m) := by
  have hcore : Recorded (n.handleCnMessage w m) := by
    unfold BsNode.handleCnMessage
    split
    · exact h.of_mobility (BsNode.mobility_of_admits (BsNode.onDownlinkNas_admits n trivial))
    · exact h.of_mobility (BsNode.mobility_of_admits (BsNode.onSessionKey_admits n trivial))
    · exact h.congr (onHoCommand_tables n m.value).1 (onHoCommand_tables n m.value).2
    · exact h.onHoPrepared w m.value
    · exact h.of_mobility (BsNode.mobility_of_serves (BsNode.onDlData_serves n trivial))
    · exact h
  cases link with
  | amf => exact hcore
  | upf => exact hcore
  | xn =>
    simp only [BsNode.handleLinkMessage, BsNode.handleXnMessage]
    split
    · unfold BsNode.onXnPrepare
      split
      · exact h
      · exact h.congr rfl rfl
    · exact h.onXnPrepareAck m.value
    · exact h.of_mobility (BsNode.mobility_of_serves (BsNode.onXnFwdData_serves w n m.value))
    · unfold BsNode.onXnComplete
      split
      · exact h
      · exact h.completeHo w _
    · exact h

theorem Recorded.handleAirFrame (h : Recorded n) {f : AirFrame} {snr : ℚ}
    (hdata : f.type = .data → ∀ m sdus, n.receiveData f.rnti f.payload snr = .ok (m, sdus) →
      BsNode.SdusMeet w f.rnti (SduOnce f.rnti) m sdus)
    (hhandle : n.handleAirFrame w f snr = .ok n') : Recorded n' := by
  unfold BsNode.handleAirFrame at hhandle
  split at hhandle
  · obtain rfl := Except.ok.inj hhandle
    split
    · exact h.of_mobility (BsNode.onPrachReceived_mobility w n _)
    · exact h
  · obtain rfl := Except.ok.inj hhandle
    split
    · exact h.of_mobility (BsNode.onMsg3Received_mobility w n _ _)
    · exact h
  · rename_i htype
    unfold BsNode.handleDlData at hhandle
    split at hhandle
    · cases hhandle
    · rename_i m sdus hreceive
      obtain rfl := Except.ok.inj hhandle
      have hreceived : Recorded m :=
        h.of_mobility (BsNode.mobility_of_serves (BsNode.receiveData_serves trivial hreceive))
      exact BsNode.handleSdus_invariant w Recorded (fun _ _ hm => hm.handleSdu w) hreceived
        (hdata htype m sdus hreceive)
  · obtain rfl := Except.ok.inj hhandle
    exact h
  · obtain rfl := Except.ok.inj hhandle
    exact h

/-- Step lemma: as long as no request repeats a handover in progress, the record is the last
command. -/
theorem step_recorded {s : BsNode.Step} (h : Recorded n) (honce : StepOnce w n s)
    (hstep : n.step w s = some n') : Recorded n' := by
  have hstart : Recorded (n.answered s) := h.congr rfl rfl
  obtain ⟨event, script, answers⟩ := s
  unfold BsNode.step at hstep
  unfold StepOnce at honce
  cases event with
  | frame f snr => exact hstart.handleAirFrame w honce (ok_of_toOption hstep)
  | receive rnti payload snr =>
    obtain ⟨⟨m, sdus⟩, hreceive, rfl⟩ := Option.map_eq_some_iff.mp hstep
    exact hstart.of_mobility
      (BsNode.mobility_of_serves (BsNode.receiveData_serves trivial (ok_of_toOption hreceive)))
  | sdu rnti lcid sdu =>
    obtain rfl := Option.some.inj hstep
    exact hstart.handleSdu w honce
  | tick nowMs =>
    obtain rfl := Option.some.inj hstep
    exact hstart.of_mobility (BsNode.mobility_of_admits (BsNode.tick_admits w _ nowMs))
  | link link m =>
    obtain rfl := Option.some.inj hstep
    exact hstart.handleLinkMessage w link m
  | requestHandover crnti targetCell =>
    obtain rfl := Option.some.inj hstep
    exact hstart.requestHandover w targetCell honce
  | prepareHandover ctx =>
    obtain rfl := Option.some.inj hstep
    exact hstart.congr rfl rfl
  | page imsi =>
    obtain rfl := Option.some.inj hstep
    exact hstart.congr rfl rfl
  | broadcast =>
    obtain rfl := Option.some.inj hstep
    exact hstart.of_mobility (BsNode.mobility_of_serves (BsNode.broadcastSib_serves _))
  | setSib broadcasting enabled =>
    obtain rfl := Option.some.inj hstep
    exact hstart.congr rfl rfl

/-! ### The arrival of a completion -/

/-- A HO_COMPLETE or XN_HO_COMPLETE for the C-RNTI `newCrnti`. -/
inductive Completion (newCrnti : Nat) : BsNode.Event → Prop
  | frame {rnti : Nat} {sdu : Bytes} :
    (RrcMessage.decode sdu).msgType = .hoComplete →
    2 ≤ (RrcMessage.decode sdu).value.length →
    getU16 (RrcMessage.decode sdu).value 0 = newCrnti →
    Completion newCrnti (.sdu rnti lcidCcch sdu)
  | link {value : Bytes} :
    6 ≤ value.length → getU16 value 4 = newCrnti →
    Completion newCrnti (.link .xn ⟨.other 43, value⟩)

/-- No other source waits for the C-RNTI. -/
def OnlySource (n : BsNode) (source newCrnti : Nat) : Prop :=
  ∀ (s : Nat) (ho : InitiatedHo), n.initiatedHo[s]? = some ho → ho.newCrnti = newCrnti → s = source

/-- The completion of a recorded C-RNTI finds its source, if there is only the one. -/
theorem completingSource_only {source targetCell newCrnti : Nat} (hne : newCrnti ≠ 0)
    (hrecord : n.initiatedHo[source]? = some ⟨targetCell, newCrnti⟩)
    (honly : OnlySource n source newCrnti) : n.completingSource w newCrnti = some source := by
  cases hfound : n.completingSource w newCrnti with
  | some other =>
    obtain ⟨-, ho, hget, hmatch⟩ := BsNode.completingSource_some w hfound
    rw [honly other ho hget hmatch]
  | none =>
    rw [BsNode.completingSource, if_neg hne, Option.map_eq_none_iff] at hfound
    have hnone := TmsiMap.firstMatch_none (w.perm n .initiatedHo) hfound hrecord
    simp at hnone

/-- The completion message, over the air or over Xn, releases that source. -/
theorem completion_releases {e : BsNode.Event} {source targetCell newCrnti : Nat}
    (hne : newCrnti ≠ 0) (he : Completion newCrnti e)
    (hrecord : n.initiatedHo[source]? = some ⟨targetCell, newCrnti⟩)
    (honly : OnlySource n source newCrnti) (hstep : n.handle w e = some n') :
    Released w source newCrnti n n' := by
  have hreleased := completeHo_released w (completingSource_only w hne hrecord honly)
  cases he with
  | @frame rnti sdu htype hlen hcrnti =>
    obtain rfl := Option.some.inj hstep
    have hsdu : sdu ≠ [] := by
      rintro rfl
      cases htype
    have hquiet : n.noteActivity rnti lcidCcch = n :=
      BsNode.noteActivity_plain n rnti (by decide) (by decide)
    simp only [BsNode.handleSdu, if_neg hsdu, if_true, hquiet, BsNode.handleCcchSdu, htype,
      BsNode.onHoComplete, if_neg (not_lt.mpr hlen), hcrnti]
    split
    · exact hreleased
    · split
      · exact ⟨hreleased.rrc, hreleased.nas, hreleased.initiatedHo, hreleased.hoLog⟩
      · exact hreleased
  | link hlen hcrnti =>
    obtain rfl := Option.some.inj hstep
    simp only [BsNode.handleLinkMessage, BsNode.handleXnMessage, BsNode.onXnComplete,
      if_neg (not_lt.mpr hlen), hcrnti]
    exact hreleased

end

end HandoverRecord

open HandoverRecord

/-- In every run without a repeated request, at most one handover of each source is in flight
and the record has its last command; the completion then releases that source and no other,
unless another source waits for the same C-RNTI. -/
theorem handover_record_kept (w : World) (config : BsNodeConfig) (keys : Bytes → Option Key256)
    {steps : List BsNode.Step} {n : BsNode}
    (hrun : runFrom (BsNode.step w) (BsNode.make config keys) steps = some n)
    (honce : StepsMeet (BsNode.step w) (StepOnce w) (BsNode.make config keys) steps) (source : Nat) :
    inFlight n.hoLog source ≤ 1 ∧
    (∀ ho, lastCommand n.hoLog source = some ho → n.initiatedHo[source]? = some ho) ∧
    ∀ ho, lastCommand n.hoLog source = some ho → ho.newCrnti ≠ 0 →
      OnlySource n source ho.newCrnti → ∀ s n', Completion ho.newCrnti s.event →
      n.step w s = some n' → Released w source ho.newCrnti (n.answered s) n' := by
  have hinit : Recorded (BsNode.make config keys) := by
    intro s
    refine ⟨fun ho hlast => ?_, Nat.zero_le _, fun _ => rfl⟩
    cases hlast
  have hrecorded : Recorded n :=
    runFrom_invariant_of_meets Recorded (fun _ _ _ => step_recorded w) hinit honce hrun
  have hmatches := hrecorded source
  exact ⟨hmatches.once, hmatches.command, fun ho hlast hne honly s n' hs hstep =>
    completion_releases w hne hs (hmatches.command ho hlast) honly hstep⟩

namespace HandoverRecord

/-- A UE with C-RNTI 1 comes to the cell. -/
def access : List BsNode.Step :=
  [{ event := .frame ⟨.msg1Prach, 0, [1, 0]⟩ (-100) },
    { event := .frame ⟨.msg3Ccch, 0, 3 :: (putU16 0x4300 ++
        RrcMessage.encode { msgType := .setupRequest, value := putU16 1 })⟩ (-100) }]

def request : BsNode.Step := { event := .requestHandover 1 2 }

/-- The acknowledgement of cell 2 over Xn. -/
def acknowledged : BsNode.Step :=
  { event := .link .xn ⟨.other 41, putU32 0 ++ putU16 0x5001⟩ }

def completed : BsNode.Step := { event := .link .xn ⟨.other 43, putU32 0 ++ putU16 0x5001⟩ }

/-- The core gives C-RNTI 1 the TMSI 7, and later the answer of cell 2. -/
def assigned : BsNode.Step :=
  { event := .link .amf ⟨.downlinkNas, putU32 7 ++ putU16 1 ++ putU16 2 ++ [0, 0]⟩ }

def prepared : BsNode.Step :=
  { event := .link .amf ⟨.hoPrepared, putU32 7 ++ putU16 2 ++ putU16 0x5001⟩ }

end HandoverRecord

/-- A handover over Xn from the request to the XN_HO_COMPLETE. -/
theorem handover_record_kept_xn :
    ∃ n n', runFrom (BsNode.step .plain) (BsNode.make { xn := true } fun _ => none)
        (access ++ [request, acknowledged]) = some n ∧
      n.step .plain completed = some n' ∧ 1 ∈ n.rrc.ueContexts ∧
      n.initiatedHo[1]? = some ⟨2, 0x5001⟩ ∧ Released .plain 1 0x5001 (n.answered completed) n' := by
  have hrun : ∃ n, runFrom (BsNode.step .plain) (BsNode.make { xn := true } fun _ => none)
        (access ++ [request, acknowledged]) = some n ∧
      StepsMeet (BsNode.step .plain) (StepOnce .plain) (BsNode.make { xn := true } fun _ => none)
        (access ++ [request, acknowledged]) ∧
      1 ∈ n.rrc.ueContexts ∧ lastCommand n.hoLog 1 = some ⟨2, 0x5001⟩ ∧ n.initiatedHo.keys = [1] := by
    refine ⟨_, rfl, ?_, by decide, by decide, by decide⟩
    refine .cons nofun rfl (.cons nofun rfl (.cons ?_ rfl (.cons trivial rfl trivial)))
    exact fun _ hknown => absurd hknown (by decide)
  obtain ⟨n, hrun, honce, hctx, hlast, hkeys⟩ := hrun
  have hkept := handover_record_kept .plain { xn := true } (fun _ => none) hrun honce 1
  have honly : OnlySource n 1 0x5001 := by
    intro s ho hget _
    have hmem : s ∈ n.initiatedHo.keys :=
      Std.ExtTreeMap.mem_keys.mpr (Std.ExtTreeMap.mem_iff_isSome_getElem?.mpr (by rw [hget]; rfl))
    rw [hkeys] at hmem
    exact List.mem_singleton.mp hmem
  exact ⟨n, _, hrun, rfl, hctx, hkept.2.1 _ hlast,
    hkept.2.2 _ hlast (by decide) honly completed _ (.link (by decide) (by decide)) rfl⟩

/-- A repeated request on the AMF path overwrites the C-RNTI of the command that is out. -/
theorem handover_record_overwritten :
    ∃ n, runFrom (BsNode.step .plain) (BsNode.make { amf := true } fun _ => none)
        (access ++ [assigned, request, prepared, request]) = some n ∧
      lastCommand n.hoLog 1 = some ⟨2, 0x5001⟩ ∧ n.initiatedHo[1]? = some ⟨2, 0⟩ ∧
      inFlight n.hoLog 1 = 2 := by
  refine ⟨_, rfl, ?_⟩
  decide

end AetherStack.Guarantees
