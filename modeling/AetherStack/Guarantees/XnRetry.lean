import AetherStack.Lib.Keyed
import AetherStack.Guarantees.HandoverRecord

/-!
# A handover over a lossy Xn link

A source whose handovers go over Xn, and the messages of their preparations in flight. The link
delivers later, in any order, and may lose a message; the target answers with any C-RNTI, zero
being a refusal, and ignoring a preparation is the same as losing it. A frame comes as its
receipt and then its SDUs, with anything in between.

The guard against a second handover is set when the preparation leaves, and only an
acknowledgement takes it back. `Backing` is why every guard has a message in flight as long as
none fails, and a failure leaves the guard set for good.
-/
namespace AetherStack.Guarantees
open Source Source.Mac Source.Rrc Source.Core Lib

/-- `flight` are the XN_HO_PREPARE and XN_HO_PREPARE_ACK in flight. -/
structure XnSource where
  node : BsNode
  flight : List CnMessage := []

inductive XnEvent where
  | node (event : BsNode.Event)
  | answer (index newCrnti : Nat)
  | acknowledge (index : Nat)
  | lose (index : Nat)

namespace XnSource

/-- The preparations a step of the node sends. -/
def prepares (n n' : BsNode) : List CnMessage :=
  ((BsNode.xnSignalsOf n'.sent).drop (BsNode.xnSignalsOf n.sent).length).filter fun m =>
    m.msgType = .other 40

/-- What a node without an AMF meets: no acknowledgement but those in flight, and from the
core data of the UPF only. -/
def Meets : BsNode.Event → Bool
  | .frame f _ => f.type ≠ .data
  | .link .xn m => m.msgType ≠ .other 41
  | .link .upf m => m.msgType = .other 33
  | .link .amf _ => false
  | _ => true

/-- The TMSI of a message of the preparation. -/
def tmsiOf (m : CnMessage) : Nat := getU32 m.value 0

def ackOf (tmsi newCrnti : Nat) : CnMessage := ⟨.other 41, putU32 tmsi ++ putU16 newCrnti⟩

def step (w : World) (x : XnSource) : XnEvent → Option XnSource
  | .node event =>
    if Meets event then
      (x.node.step w { event := event }).map fun n => ⟨n, x.flight ++ prepares x.node n⟩
    else none
  | .answer index newCrnti =>
    match x.flight[index]? with
    | none => none
    | some m =>
      if m.msgType = .other 40 then
        some { x with flight := x.flight.set index (ackOf (tmsiOf m) newCrnti) }
      else none
  | .acknowledge index =>
    match x.flight[index]? with
    | none => none
    | some m =>
      if m.msgType = .other 41 then
        (x.node.step w { event := .link .xn m }).map fun n => ⟨n, x.flight.eraseIdx index⟩
      else none
  | .lose index =>
    if index < x.flight.length then some { x with flight := x.flight.eraseIdx index } else none

/-- `s` is guarded: a handover without a C-RNTI is recorded for it, or its acknowledgement
awaited. -/
def Guarded (n : BsNode) (s : Nat) : Prop :=
  (∃ targetCell, n.initiatedHo[s]? = some ⟨targetCell, 0⟩) ∨
    ∃ (t : Nat) (p : PendingXnHo), n.pendingXnHo[t]? = some p ∧ p.sourceCrnti = s

/-- A message in flight is for `s`: its TMSI is the one the acknowledgement for `s` is awaited
under. -/
def InFlightFor (x : XnSource) (s : Nat) : Prop :=
  ∃ m ∈ x.flight, ∃ p, x.node.pendingXnHo[tmsiOf m]? = some p ∧ p.sourceCrnti = s

/-- A step that fails an attempt: a loss, or a refusal that arrives. -/
def Fails (x : XnSource) : XnEvent → Prop
  | .acknowledge index => ∃ m, x.flight[index]? = some m ∧ getU16 m.value 4 = 0
  | .lose _ => True
  | _ => False

/-- A request that goes out awaits its acknowledgement under a TMSI of 32 bits that no other
handover uses. -/
def OwnTmsi (w : World) (n : BsNode) (crnti : Nat) : Prop :=
  crnti ∈ n.flows → crnti ∉ n.initiatedHo →
    (n.hoContext w crnti).tmsi < u32Modulus ∧ (n.hoContext w crnti).tmsi ∉ n.pendingXnHo

def OwnTmsis (w : World) (n : BsNode) : BsNode.Event → Prop
  | .requestHandover crnti _ => OwnTmsi w n crnti
  | .sdu rnti lcid sdu =>
    lcid = lcidCcch → (RrcMessage.decode sdu).msgType = .measReport → OwnTmsi w n rnti
  | _ => True

/-- The condition on a step. -/
def Clean (w : World) (x : XnSource) (e : XnEvent) : Prop :=
  ¬ Fails x e ∧
  match e with
  | .node event => OwnTmsis w (x.node.answered { event := event }) event
  | _ => True

/-! ### The invariant -/

structure Backing (n : BsNode) (flight : List CnMessage) : Prop where
  path : n.config.hoCoordinator = false ∧ n.config.amf = false ∧ n.config.xn = true
  distinct : (flight.map tmsiOf).Nodup
  awaited : ∀ t, t ∈ flight.map tmsiOf ↔ t ∈ n.pendingXnHo
  record : ∀ (t : Nat) (p : PendingXnHo), n.pendingXnHo[t]? = some p →
    n.initiatedHo[p.sourceCrnti]? = some ⟨p.targetCell, 0⟩
  guard : ∀ (s targetCell : Nat), n.initiatedHo[s]? = some ⟨targetCell, 0⟩ →
    ∃ t : Nat, n.pendingXnHo[t]? = some ⟨s, targetCell⟩
  source : ∀ (t t' : Nat) (p p' : PendingXnHo), n.pendingXnHo[t]? = some p →
    n.pendingXnHo[t']? = some p' → p.sourceCrnti = p'.sourceCrnti → t = t'
  whole : ∀ m ∈ flight, m.msgType = .other 41 → 6 ≤ m.value.length

variable {n n' : BsNode} {x x' : XnSource} {flight : List CnMessage}

theorem Backing.congr (h : Backing n flight) (hconfig : n'.config = n.config)
    (hho : n'.initiatedHo = n.initiatedHo) (hxn : n'.pendingXnHo = n.pendingXnHo) :
    Backing n' flight := by
  obtain ⟨hpath, hdistinct, hawaited, hrecord, hguard, hsource, hwhole⟩ := h
  refine ⟨by rw [hconfig]; exact hpath, hdistinct, ?_, ?_, ?_, ?_, hwhole⟩
  · rw [hxn]
    exact hawaited
  · rw [hxn, hho]
    exact hrecord
  · rw [hxn, hho]
    exact hguard
  · rw [hxn]
    exact hsource

/-- No preparation is among what was sent. -/
theorem prepares_nil (signals : List CnMessage)
    (hsent : BsNode.xnSignalsOf n'.sent = BsNode.xnSignalsOf n.sent ++ signals)
    (htypes : ∀ m ∈ signals, m.msgType ≠ .other 40) : prepares n n' = [] := by
  rw [prepares, hsent, List.drop_left, List.filter_eq_nil_iff]
  simpa using htypes

theorem xnSignalsOf_xn (sent : List (Link × CnMessage)) {m : CnMessage}
    (h : m.msgType ≠ .other 42) :
    BsNode.xnSignalsOf (sent ++ [(.xn, m)]) = BsNode.xnSignalsOf sent ++ [m] := by
  simp [BsNode.xnSignalsOf, h]

/-- The steps that leave the handovers alone. -/
theorem Backing.of_mobility (h : Backing n flight) (hmobility : n'.mobility = n.mobility) :
    Backing n' (flight ++ prepares n n') := by
  have hsignals : BsNode.xnSignalsOf n'.sent = BsNode.xnSignalsOf n.sent :=
    congrArg Mobility.xnSignals hmobility
  rw [prepares_nil [] (by rw [hsignals, List.append_nil]) (by simp), List.append_nil]
  exact h.congr (congrArg Mobility.config hmobility) (congrArg Mobility.initiatedHo hmobility)
    (congrArg Mobility.pendingXnHo hmobility)

/-! ### A handover starts -/

/-- A preparation begins with its TMSI. -/
theorem tmsiOf_prepare {tmsi : Nat} (h : tmsi < u32Modulus) (rest : Bytes) :
    tmsiOf ⟨.other 40, putU32 tmsi ++ rest⟩ = tmsi := by
  have hread := getU32_putU32 [] rest tmsi
  rw [List.nil_append, List.length_nil] at hread
  rw [tmsiOf, hread, Nat.mod_eq_of_lt h]

/-- Guard, awaited acknowledgement and preparation come together. -/
theorem Backing.start (h : Backing n flight) {s t targetCell : Nat} {m : CnMessage}
    (hfree : s ∉ n.initiatedHo) (hown : t ∉ n.pendingXnHo) (htmsi : tmsiOf m = t)
    (htype : m.msgType = .other 40) (hconfig : n'.config = n.config)
    (hho : n'.initiatedHo = n.initiatedHo.insert s ⟨targetCell, 0⟩)
    (hxn : n'.pendingXnHo = n.pendingXnHo.insert t ⟨s, targetCell⟩) : Backing n' (flight ++ [m]) := by
  have hnone : n.initiatedHo[s]? = none := by simpa using hfree
  have hnew : t ∉ flight.map tmsiOf := fun hmem => hown ((h.awaited t).mp hmem)
  have hother : ∀ (t' : Nat) (p : PendingXnHo), n.pendingXnHo[t']? = some p → p.sourceCrnti ≠ s := by
    intro t' p hp heq
    have hrecord := h.record t' p hp
    rw [heq, hnone] at hrecord
    cases hrecord
  refine ⟨by rw [hconfig]; exact h.path, ?_, fun t' => ?_, fun t' p hp => ?_, fun s' cell hs' => ?_,
    fun t₁ t₂ p₁ p₂ h₁ h₂ heq => ?_, fun m' hm' hack => ?_⟩
  · rw [List.map_append, List.map_singleton, htmsi]
    exact List.nodup_append.mpr ⟨h.distinct, List.nodup_singleton t, by
      intro a ha b hb heq
      rw [List.mem_singleton] at hb
      exact hnew (hb ▸ heq ▸ ha)⟩
  · rw [hxn, List.map_append, List.map_singleton, htmsi, List.mem_append, List.mem_singleton,
      Std.ExtTreeMap.mem_insert, compare_eq_iff_eq, h.awaited t']
    exact or_comm.trans (or_congr_left eq_comm)
  · rw [hxn, TmsiMap.getElem?_insert_eq] at hp
    rw [hho, HandoverRecord.getElem?_insertHo]
    split at hp
    · obtain rfl := Option.some.inj hp
      rw [if_pos rfl]
    · rw [if_neg (hother t' p hp).symm]
      exact h.record t' p hp
  · rw [hho, HandoverRecord.getElem?_insertHo] at hs'
    simp only [hxn, TmsiMap.getElem?_insert_eq]
    split at hs'
    · rename_i heq
      obtain rfl := InitiatedHo.mk.inj (Option.some.inj hs') |>.1
      exact ⟨t, by rw [if_pos rfl, heq]⟩
    · obtain ⟨t', ht'⟩ := h.guard s' cell hs'
      refine ⟨t', ?_⟩
      rw [if_neg, ht']
      rintro rfl
      exact hown (Std.ExtTreeMap.mem_iff_isSome_getElem?.mpr (by rw [ht']; rfl))
  · rw [hxn, TmsiMap.getElem?_insert_eq] at h₁ h₂
    split at h₁ <;> split at h₂
    · omega
    · obtain rfl := Option.some.inj h₁
      exact absurd heq.symm (hother t₂ p₂ h₂)
    · obtain rfl := Option.some.inj h₂
      exact absurd heq (hother t₁ p₁ h₁)
    · exact h.source t₁ t₂ p₁ p₂ h₁ h₂ heq
  · rcases List.mem_append.mp hm' with hold | hlast
    · exact h.whole m' hold hack
    · rw [List.mem_singleton.mp hlast, htype] at hack
      cases hack

section
variable (w : World)

/-- On this path a request is one over Xn. -/
theorem requestHandover_xn (hpath : n.config.hoCoordinator = false ∧ n.config.amf = false ∧
    n.config.xn = true) {crnti : Nat} (hflow : crnti ∈ n.flows) (targetCell : Nat) :
    n.requestHandover w crnti targetCell = n.requestXn w crnti targetCell := by
  simp [BsNode.requestHandover, hflow, hpath]

/-- Everything a request writes when no answer comes inside the send. -/
structure Requested (n : BsNode) (s targetCell : Nat) (m : CnMessage) (n' : BsNode) : Prop where
  config : n'.config = n.config
  initiatedHo : n'.initiatedHo = n.initiatedHo.insert s ⟨targetCell, 0⟩
  pendingXnHo : n'.pendingXnHo = n.pendingXnHo.insert (n.hoContext w s).tmsi ⟨s, targetCell⟩
  sent : n'.sent = n.sent ++ [(.xn, m)]
  prepare : m.msgType = .other 40
  tmsi : (n.hoContext w s).tmsi < u32Modulus → tmsiOf m = (n.hoContext w s).tmsi

/-- A source that is free sends a preparation and sets its guard. -/
theorem requestXn_requested (hscript : n.script = []) {s : Nat} (hfree : s ∉ n.initiatedHo)
    (targetCell : Nat) : ∃ m, Requested w n s targetCell m (n.requestXn w s targetCell) := by
  simp only [BsNode.requestXn, if_neg hfree, BsNode.send, hscript, List.append_assoc]
  exact ⟨_, rfl, rfl, rfl, rfl, rfl, fun hsmall => tmsiOf_prepare hsmall _⟩

theorem Requested.prepares {s targetCell : Nat} {m : CnMessage} (h : Requested w n s targetCell m n') :
    prepares n n' = [m] := by
  have h42 : m.msgType ≠ .other 42 := by
    rw [h.prepare]
    decide
  rw [XnSource.prepares, h.sent, xnSignalsOf_xn _ h42, List.drop_left]
  simp [h.prepare]

/-- The new guard has its preparation in flight. -/
theorem Backing.requestHandover (h : Backing n flight) (hscript : n.script = []) {crnti : Nat}
    (targetCell : Nat) (hown : OwnTmsi w n crnti) :
    Backing (n.requestHandover w crnti targetCell)
      (flight ++ prepares n (n.requestHandover w crnti targetCell)) := by
  have hidle : Backing n (flight ++ prepares n n) := h.of_mobility rfl
  by_cases hflow : crnti ∈ n.flows
  · rw [requestHandover_xn w h.path hflow]
    by_cases hfree : crnti ∈ n.initiatedHo
    · rw [BsNode.requestXn, if_pos hfree]
      exact hidle
    · obtain ⟨hsmall, habsent⟩ := hown hflow hfree
      obtain ⟨m, hm⟩ := requestXn_requested w hscript hfree targetCell
      rw [hm.prepares]
      exact h.start hfree habsent (hm.tmsi hsmall) hm.prepare hm.config hm.initiatedHo hm.pendingXnHo
  · rw [BsNode.requestHandover, if_pos hflow]
    exact hidle

/-- A completion meets a record with a C-RNTI, so no acknowledgement is awaited for it. -/
theorem Backing.completeHo (h : Backing n flight) (newCrnti : Nat) :
    Backing (n.completeHo w newCrnti) flight ∧ (n.completeHo w newCrnti).sent = n.sent := by
  cases hsource : n.completingSource w newCrnti with
  | none =>
    rw [BsNode.completeHo, hsource]
    exact ⟨h, rfl⟩
  | some source =>
    obtain ⟨hne, ho, hget, rfl⟩ := BsNode.completingSource_some w hsource
    have hamf := h.path.2.1
    have htables : (n.completeHo w ho.newCrnti).config = n.config ∧
        (n.completeHo w ho.newCrnti).initiatedHo = n.initiatedHo.erase source ∧
        (n.completeHo w ho.newCrnti).pendingXnHo = n.pendingXnHo ∧
        (n.completeHo w ho.newCrnti).sent = n.sent := by
      simp only [BsNode.completeHo, hsource, BsNode.releaseHoSource, hamf]
      split
      · exact ⟨rfl, rfl, rfl, rfl⟩
      · exact ⟨rfl, rfl, rfl, rfl⟩
    obtain ⟨hconfig, hho, hxn, hsent⟩ := htables
    refine ⟨?_, hsent⟩
    obtain ⟨hpath, hdistinct, hawaited, hrecord, hguard, hdifferent, hwhole⟩ := h
    refine ⟨by rw [hconfig]; exact hpath, hdistinct, by rw [hxn]; exact hawaited, fun t p hp => ?_,
      fun s cell hs => ?_, by rw [hxn]; exact hdifferent, hwhole⟩
    · rw [hxn] at hp
      have hkept := hrecord t p hp
      rw [hho, Std.ExtTreeMap.getElem?_erase, if_neg, hkept]
      rw [compare_eq_iff_eq]
      rintro rfl
      rw [hget] at hkept
      exact hne (congrArg InitiatedHo.newCrnti (Option.some.inj hkept))
    · rw [hho, Std.ExtTreeMap.getElem?_erase] at hs
      split at hs
      · cases hs
      · rw [hxn]
        exact hguard s cell hs

/-- A step that sends no preparation. -/
theorem Backing.quiet (h : Backing n' flight) (hsent : n'.sent = n.sent) :
    Backing n' (flight ++ prepares n n') := by
  rw [prepares_nil [] (by rw [hsent, List.append_nil]) (by simp), List.append_nil]
  exact h

/-- Other messages in flight back nothing and take nothing. -/
theorem Backing.recorded (h : Backing n' flight) (hsent : n'.sent = n.sent) {m : CnMessage}
    (h40 : m.msgType ≠ .other 40) (h42 : m.msgType ≠ .other 42) :
    Backing (n'.record .xn m) (flight ++ prepares n (n'.record .xn m)) := by
  have hsignals : BsNode.xnSignalsOf (n'.record .xn m).sent = BsNode.xnSignalsOf n.sent ++ [m] := by
    rw [BsNode.record, xnSignalsOf_xn _ h42, hsent]
  rw [prepares_nil [m] hsignals (by simpa using h40), List.append_nil]
  exact h.congr rfl rfl rfl

theorem Backing.handleSdu (h : Backing n flight) (hscript : n.script = []) {rnti : Nat}
    {entry : UInt8 × Bytes}
    (hown : entry.1 = lcidCcch → (RrcMessage.decode entry.2).msgType = .measReport → OwnTmsi w n rnti) :
    Backing (BsNode.handleSdu w rnti n entry) (flight ++ prepares n (BsNode.handleSdu w rnti n entry)) := by
  by_cases hmoves : BsNode.MovesHandover entry.1 entry.2
  · have hmoved := BsNode.handleSdu_moved w n rnti entry hmoves
    revert hmoved
    generalize BsNode.handleSdu w rnti n entry = n'
    intro hmoved
    cases hmoved with
    | unmoved => exact h.of_mobility rfl
    | requested htype => exact h.requestHandover w hscript _ (hown hmoves.1 htype)
    | completed =>
      obtain ⟨hcomplete, hsent⟩ := h.completeHo w (getU16 (RrcMessage.decode entry.2).value 0)
      exact hcomplete.quiet hsent
    | notified =>
      obtain ⟨hcomplete, hsent⟩ := h.completeHo w (getU16 (RrcMessage.decode entry.2).value 0)
      exact hcomplete.recorded hsent (by simp) (by simp)
  · exact h.of_mobility (BsNode.mobility_of_admits
      (BsNode.handleSdu_admits w ⟨trivial, fun _ _ => trivial⟩ n entry hmoves))

theorem Backing.handleLinkMessage (h : Backing n flight) {link : Link} {m : CnMessage}
    (hmeets : Meets (.link link m) = true) :
    Backing (n.handleLinkMessage w link m) (flight ++ prepares n (n.handleLinkMessage w link m)) := by
  cases link with
  | amf => cases hmeets
  | upf =>
    have htype : m.msgType = .other 33 := of_decide_eq_true hmeets
    simp only [BsNode.handleLinkMessage, BsNode.handleCnMessage, htype]
    exact h.of_mobility (BsNode.mobility_of_serves (BsNode.onDlData_serves n trivial))
  | xn =>
    have htype : m.msgType ≠ .other 41 := of_decide_eq_true hmeets
    simp only [BsNode.handleLinkMessage, BsNode.handleXnMessage]
    split
    · unfold BsNode.onXnPrepare
      split
      · exact h.quiet rfl
      · rename_i ctx hctx
        have hprepared : Backing (n.prepareHandover ctx) flight := h.congr rfl rfl rfl
        exact hprepared.recorded rfl (by simp) (by simp)
    · rename_i hack
      exact absurd hack htype
    · exact h.of_mobility (BsNode.mobility_of_serves (BsNode.onXnFwdData_serves w n m.value))
    · unfold BsNode.onXnComplete
      split
      · exact h.quiet rfl
      · obtain ⟨hcomplete, hsent⟩ := h.completeHo w (getU16 m.value 4)
        exact hcomplete.quiet hsent
    · exact h.quiet rfl

theorem Backing.handleAirFrame (h : Backing n flight) {f : AirFrame} {snr : ℚ} (hdata : f.type ≠ .data)
    (hhandle : n.handleAirFrame w f snr = .ok n') : Backing n' (flight ++ prepares n n') := by
  unfold BsNode.handleAirFrame at hhandle
  split at hhandle
  · obtain rfl := Except.ok.inj hhandle
    split
    · exact h.of_mobility (BsNode.onPrachReceived_mobility w n _)
    · exact h.of_mobility rfl
  · obtain rfl := Except.ok.inj hhandle
    split
    · exact h.of_mobility (BsNode.onMsg3Received_mobility w n _ _)
    · exact h.of_mobility rfl
  · rename_i htype
    exact absurd htype hdata
  · obtain rfl := Except.ok.inj hhandle
    exact h.of_mobility rfl
  · obtain rfl := Except.ok.inj hhandle
    exact h.of_mobility rfl

/-- Step lemma for the events of the source. -/
theorem handle_backing (h : Backing n flight) (hscript : n.script = []) {e : BsNode.Event}
    (hmeets : Meets e = true) (hown : OwnTmsis w n e) (hhandle : n.handle w e = some n') :
    Backing n' (flight ++ prepares n n') := by
  cases e with
  | frame f snr => exact h.handleAirFrame w (of_decide_eq_true hmeets) (ok_of_toOption hhandle)
  | receive rnti payload snr =>
    obtain ⟨⟨m, sdus⟩, hreceive, rfl⟩ := Option.map_eq_some_iff.mp hhandle
    exact h.of_mobility
      (BsNode.mobility_of_serves (BsNode.receiveData_serves trivial (ok_of_toOption hreceive)))
  | sdu rnti lcid sdu =>
    obtain rfl := Option.some.inj hhandle
    exact h.handleSdu w hscript hown
  | tick nowMs =>
    obtain rfl := Option.some.inj hhandle
    exact h.of_mobility (BsNode.mobility_of_admits (BsNode.tick_admits w _ nowMs))
  | link link m =>
    obtain rfl := Option.some.inj hhandle
    exact h.handleLinkMessage w hmeets
  | requestHandover crnti targetCell =>
    obtain rfl := Option.some.inj hhandle
    exact h.requestHandover w hscript targetCell hown
  | prepareHandover ctx =>
    obtain rfl := Option.some.inj hhandle
    exact h.of_mobility rfl
  | page imsi =>
    obtain rfl := Option.some.inj hhandle
    exact h.of_mobility rfl
  | broadcast =>
    obtain rfl := Option.some.inj hhandle
    exact h.of_mobility (BsNode.mobility_of_serves (BsNode.broadcastSib_serves _))
  | setSib broadcasting enabled =>
    obtain rfl := Option.some.inj hhandle
    exact h.of_mobility rfl

/-! ### Messages in flight -/

theorem tmsiOf_ackOf (m : CnMessage) (newCrnti : Nat) : tmsiOf (ackOf (tmsiOf m) newCrnti) = tmsiOf m := by
  have hread := getU32_putU32 [] (putU16 newCrnti) (tmsiOf m)
  rw [List.nil_append, List.length_nil] at hread
  rw [ackOf, tmsiOf, hread, tmsiOf, Nat.mod_eq_of_lt (getU32_lt _ _)]

/-- An answer stands where its preparation stood. -/
theorem Backing.answer (h : Backing n flight) {index newCrnti : Nat} {m : CnMessage}
    (hm : flight[index]? = some m) : Backing n (flight.set index (ackOf (tmsiOf m) newCrnti)) := by
  have hkeys : (flight.set index (ackOf (tmsiOf m) newCrnti)).map tmsiOf = flight.map tmsiOf :=
    Keyed.map_key_set hm (tmsiOf_ackOf m newCrnti)
  refine ⟨h.path, by rw [hkeys]; exact h.distinct, by rw [hkeys]; exact h.awaited, h.record, h.guard,
    h.source, fun m' hm' htype => ?_⟩
  rcases List.mem_or_eq_of_mem_set hm' with hold | rfl
  · exact h.whole m' hold htype
  · simp [ackOf]

/-- A message in flight finds the guard it is for. -/
theorem Backing.awaiting (h : Backing n flight) {m : CnMessage} (hm : m ∈ flight) :
    ∃ p, n.pendingXnHo[tmsiOf m]? = some p := by
  have hmem := (h.awaited (tmsiOf m)).mp (List.mem_map_of_mem hm)
  exact Option.isSome_iff_exists.mp (Std.ExtTreeMap.mem_iff_isSome_getElem?.mp hmem)

/-- The acknowledgement takes its own pending entry away and gives the record its C-RNTI. -/
theorem Backing.accepted (h : Backing n flight) {index newCrnti : Nat} {m : CnMessage} {p : PendingXnHo}
    (hm : flight[index]? = some m) (hp : n.pendingXnHo[tmsiOf m]? = some p) (hne : newCrnti ≠ 0)
    (hconfig : n'.config = n.config)
    (hho : n'.initiatedHo = n.initiatedHo.insert p.sourceCrnti ⟨p.targetCell, newCrnti⟩)
    (hxn : n'.pendingXnHo = n.pendingXnHo.erase (tmsiOf m)) :
    Backing n' (flight.eraseIdx index) := by
  obtain ⟨pre, post, rfl, herase, -⟩ := Keyed.exists_split hm
  obtain ⟨hpre, hpost, hnodup⟩ := Keyed.nodup_split h.distinct
  rw [herase]
  have hbefore : ∀ m' ∈ pre ++ post, m' ∈ pre ++ m :: post := fun m' hm' =>
    List.mem_append.mpr ((List.mem_append.mp hm').imp_right (List.mem_cons_of_mem m))
  have hrest : ∀ m' ∈ pre ++ post, tmsiOf m' ≠ tmsiOf m := fun m' hm' =>
    (List.mem_append.mp hm').elim (hpre m') (hpost m')
  have hpending : ∀ (t : Nat) (q : PendingXnHo), n'.pendingXnHo[t]? = some q →
      t ≠ tmsiOf m ∧ n.pendingXnHo[t]? = some q := by
    intro t q hq
    rw [hxn, TmsiMap.getElem?_erase_eq] at hq
    split at hq
    · cases hq
    · rename_i hother
      exact ⟨Ne.symm hother, hq⟩
  refine ⟨by rw [hconfig]; exact h.path, hnodup, fun t => ⟨fun ht => ?_, fun ht => ?_⟩, fun t q hq => ?_,
    fun s cell hs => ?_, fun t t' q q' hq hq' => ?_, fun m' hm' => ?_⟩
  · obtain ⟨m', hm', rfl⟩ := List.mem_map.mp ht
    have hold := (h.awaited (tmsiOf m')).mp (List.mem_map_of_mem (hbefore m' hm'))
    rw [hxn, Std.ExtTreeMap.mem_erase]
    exact ⟨by simpa using (hrest m' hm').symm, hold⟩
  · rw [hxn, Std.ExtTreeMap.mem_erase] at ht
    obtain ⟨m', hm', rfl⟩ := List.mem_map.mp ((h.awaited t).mpr ht.2)
    refine List.mem_map_of_mem ?_
    rcases List.mem_append.mp hm' with hbefore | hafter
    · exact List.mem_append_left _ hbefore
    · rcases List.mem_cons.mp hafter with rfl | hlater
      · exact absurd ht.1 (by simp)
      · exact List.mem_append_right _ hlater
  · obtain ⟨hother, hold⟩ := hpending t q hq
    have hne' : p.sourceCrnti ≠ q.sourceCrnti := fun heq => hother (h.source t _ q p hold hp heq.symm)
    rw [hho, HandoverRecord.getElem?_insertHo, if_neg hne']
    exact h.record t q hold
  · rw [hho, HandoverRecord.getElem?_insertHo] at hs
    split at hs
    · exact absurd (congrArg InitiatedHo.newCrnti (Option.some.inj hs)) hne
    · rename_i hsource
      obtain ⟨t, ht⟩ := h.guard s cell hs
      refine ⟨t, ?_⟩
      rw [hxn, TmsiMap.getElem?_erase_eq, if_neg, ht]
      rintro rfl
      rw [hp] at ht
      exact hsource (congrArg PendingXnHo.sourceCrnti (Option.some.inj ht))
  · exact h.source t t' q q' (hpending t q hq).2 (hpending t' q' hq').2
  · exact h.whole m' (hbefore m' hm')

/-- An acknowledgement that accepts takes the guard with it. -/
theorem Backing.acknowledge (h : Backing n flight) {index : Nat} {m : CnMessage}
    (hm : flight[index]? = some m) (htype : m.msgType = .other 41) (haccepts : getU16 m.value 4 ≠ 0) :
    Backing (n.handleLinkMessage w .xn m) (flight.eraseIdx index) := by
  obtain ⟨p, hp⟩ := h.awaiting (List.mem_of_getElem? hm)
  have hwhole := h.whole m (List.mem_of_getElem? hm) htype
  have hget : n.pendingXnHo[getU32 m.value 0]? = some p := hp
  simp only [BsNode.handleLinkMessage, BsNode.handleXnMessage, htype, BsNode.onXnPrepareAck,
    if_neg (not_lt.mpr hwhole), hget, if_neg haccepts]
  exact h.accepted hm hp haccepts rfl rfl rfl

/-- A refusal changes nothing. -/
theorem refused_unchanged (n : BsNode) {m : CnMessage} (htype : m.msgType = .other 41)
    (hrefuses : getU16 m.value 4 = 0) : n.handleLinkMessage w .xn m = n := by
  simp only [BsNode.handleLinkMessage, BsNode.handleXnMessage, htype, BsNode.onXnPrepareAck, hrefuses]
  split
  · rfl
  · split <;> rfl

/-! ### Steps -/

/-- Step lemma for the source and its link. -/
theorem step_backing (h : Backing x.node x.flight) {e : XnEvent} (hclean : Clean w x e)
    (hstep : step w x e = some x') : Backing x'.node x'.flight := by
  cases e with
  | node event =>
    simp only [step] at hstep
    split at hstep
    · rename_i hmeets
      obtain ⟨n, hhandle, rfl⟩ := Option.map_eq_some_iff.mp hstep
      have hstart : Backing (x.node.answered { event := event }) x.flight := h.congr rfl rfl rfl
      have hhandled := handle_backing w hstart rfl hmeets hclean.2 hhandle
      exact hhandled
    · cases hstep
  | answer index newCrnti =>
    simp only [step] at hstep
    split at hstep
    · cases hstep
    · rename_i m hm
      split at hstep
      · obtain rfl := Option.some.inj hstep
        exact h.answer hm
      · cases hstep
  | acknowledge index =>
    simp only [step] at hstep
    split at hstep
    · cases hstep
    · rename_i m hm
      split at hstep
      · rename_i htype
        obtain ⟨n, hhandle, rfl⟩ := Option.map_eq_some_iff.mp hstep
        obtain rfl := Option.some.inj hhandle
        have hstart : Backing (x.node.answered { event := .link .xn m }) x.flight := h.congr rfl rfl rfl
        exact hstart.acknowledge w hm htype fun hzero => hclean.1 ⟨m, hm, hzero⟩
      · cases hstep
  | lose index => exact absurd trivial hclean.1

/-- A guard has its message in flight. -/
theorem Backing.inFlight (h : Backing x.node x.flight) {s : Nat} (hguarded : Guarded x.node s) :
    InFlightFor x s := by
  have hpending : ∃ (t : Nat) (p : PendingXnHo), x.node.pendingXnHo[t]? = some p ∧ p.sourceCrnti = s := by
    rcases hguarded with ⟨targetCell, hrecord⟩ | hpending
    · obtain ⟨t, ht⟩ := h.guard s targetCell hrecord
      exact ⟨t, _, ht, rfl⟩
    · exact hpending
  obtain ⟨t, p, hp, hsource⟩ := hpending
  have hmem : t ∈ x.node.pendingXnHo := Std.ExtTreeMap.mem_iff_isSome_getElem?.mpr (by rw [hp]; rfl)
  obtain ⟨m, hm, rfl⟩ := List.mem_map.mp ((h.awaited t).mpr hmem)
  exact ⟨m, hm, p, hp, hsource⟩

/-- A guard without a message in flight is for good: a request finds the record. -/
structure Stuck (x : XnSource) (s : Nat) : Prop where
  guarded : Guarded x.node s
  silent : ¬ InFlightFor x s
  ignored : ∀ targetCell, x.node.requestHandover w s targetCell = x.node

/-- The message that is lost or refused was the only one for its source. -/
theorem Backing.stuck (h : Backing n flight) {index : Nat} {m : CnMessage} (hm : flight[index]? = some m)
    (hpath : n'.config = n.config) (hho : n'.initiatedHo = n.initiatedHo)
    (hxn : n'.pendingXnHo = n.pendingXnHo) : ∃ s, Stuck w ⟨n', flight.eraseIdx index⟩ s := by
  obtain ⟨p, hp⟩ := h.awaiting (List.mem_of_getElem? hm)
  have hrecord := h.record _ p hp
  refine ⟨p.sourceCrnti, .inl ⟨p.targetCell, hho ▸ hrecord⟩, ?_, fun targetCell => ?_⟩
  · rintro ⟨m', hm', q, hq, hsource⟩
    simp only [hxn] at hm' hq
    have heq := h.source _ _ q p hq hp hsource
    obtain ⟨pre, post, rfl, herase, -⟩ := Keyed.exists_split hm
    obtain ⟨hpre, hpost, -⟩ := Keyed.nodup_split h.distinct
    rw [herase] at hm'
    exact (List.mem_append.mp hm').elim (fun hb => hpre m' hb heq) fun hb => hpost m' hb heq
  · have hknown : p.sourceCrnti ∈ n'.initiatedHo := by
      rw [hho]
      exact Std.ExtTreeMap.mem_iff_isSome_getElem?.mpr (by rw [hrecord]; rfl)
    have hpath' := h.path
    rw [← hpath] at hpath'
    by_cases hflow : p.sourceCrnti ∈ n'.flows
    · rw [requestHandover_xn w hpath' hflow, BsNode.requestXn, if_pos hknown]
    · rw [BsNode.requestHandover, if_pos hflow]

/-- The first failure leaves a guard without a message. -/
theorem fails_stuck (h : Backing x.node x.flight) {e : XnEvent} (hfails : Fails x e)
    (hstep : step w x e = some x') : ∃ s, Stuck w x' s := by
  cases e with
  | node => cases hfails
  | answer => cases hfails
  | acknowledge index =>
    obtain ⟨m, hm, hzero⟩ := hfails
    simp only [step, hm] at hstep
    split at hstep
    · rename_i htype
      obtain ⟨n, hhandle, rfl⟩ := Option.map_eq_some_iff.mp hstep
      obtain rfl := Option.some.inj hhandle
      simp only [refused_unchanged w _ htype hzero]
      exact h.stuck w hm rfl rfl rfl
    · cases hstep
  | lose index =>
    simp only [step] at hstep
    split at hstep
    · rename_i hindex
      obtain rfl := Option.some.inj hstep
      exact h.stuck w (List.getElem?_eq_getElem hindex) rfl rfl rfl
    · cases hstep

end

end XnSource

open XnSource

/-- In every run without a failed attempt a guarded source has a message in flight for it, and
a request for any other source sends a preparation; but the first attempt that fails leaves
its source guarded with nothing in flight, and no request for it does anything again. -/
theorem xn_guard_backed (w : World) (config : BsNodeConfig) (keys : Bytes → Option Key256)
    (hpath : config.hoCoordinator = false ∧ config.amf = false ∧ config.xn = true)
    {events : List XnEvent} {x : XnSource}
    (hrun : runFrom (step w) ⟨BsNode.make config keys, []⟩ events = some x)
    (hclean : StepsMeet (step w) (Clean w) ⟨BsNode.make config keys, []⟩ events) :
    (∀ s, Guarded x.node s → InFlightFor x s) ∧
    (∀ s targetCell x', s ∈ x.node.flows → s ∉ x.node.initiatedHo →
      step w x (.node (.requestHandover s targetCell)) = some x' →
      ∃ m, m.msgType = .other 40 ∧ x'.flight = x.flight ++ [m]) ∧
    ∀ e x', Fails x e → step w x e = some x' → ∃ s, Stuck w x' s := by
  have hinit : Backing (BsNode.make config keys) [] := by
    refine ⟨hpath, List.nodup_nil, fun t => ?_, fun t p hp => ?_, fun s cell hs => ?_,
      fun t t' p p' hp => ?_, fun m hm => ?_⟩
    · simp [BsNode.make]
    · cases hp
    · cases hs
    · cases hp
    · cases hm
  have hbacking : Backing x.node x.flight :=
    runFrom_invariant_of_meets (fun x => Backing x.node x.flight) (fun _ _ _ h => step_backing w h) hinit
      hclean hrun
  refine ⟨fun s => hbacking.inFlight, fun s targetCell x' hflow hfree hstep => ?_, fun e x' =>
    fails_stuck w hbacking⟩
  simp only [step, Meets, if_true] at hstep
  obtain ⟨n, hhandle, rfl⟩ := Option.map_eq_some_iff.mp hstep
  obtain rfl := Option.some.inj hhandle
  have hstart : Backing (x.node.answered { event := .requestHandover s targetCell }) x.flight :=
    hbacking.congr rfl rfl rfl
  obtain ⟨m, hm⟩ := requestXn_requested w (n := x.node.answered { event := .requestHandover s targetCell })
    rfl hfree targetCell
  rw [requestHandover_xn w hstart.path hflow]
  exact ⟨m, hm.prepare, congrArg (x.flight ++ ·) hm.prepares⟩

namespace XnSource

def source : XnSource := ⟨BsNode.make { xn := true } fun _ => none, []⟩

/-- A UE comes to the cell and its handover to cell 2 is prepared. -/
def attempt : List XnEvent :=
  (HandoverRecord.access.map fun s => .node s.event) ++ [.node (.requestHandover 1 2)]

end XnSource

/-- The preparation is answered, the answer still in flight. -/
theorem xn_guard_backed_answered :
    ∃ x, runFrom (step .plain) XnSource.source (attempt ++ [.answer 0 0x5001]) = some x ∧
      Guarded x.node 1 ∧ InFlightFor x 1 := by
  have hrun : ∃ x, runFrom (step .plain) XnSource.source (attempt ++ [.answer 0 0x5001]) = some x ∧
      StepsMeet (step .plain) (Clean .plain) XnSource.source (attempt ++ [.answer 0 0x5001]) ∧
      x.node.initiatedHo[1]? = some ⟨2, 0⟩ := by
    refine ⟨_, rfl, ?_, by decide⟩
    refine .cons ⟨id, trivial⟩ rfl (.cons ⟨id, trivial⟩ rfl (.cons ⟨id, ?_⟩ rfl
      (.cons ⟨id, trivial⟩ rfl trivial)))
    intro _ _
    decide
  obtain ⟨x, hrun, hclean, hrecord⟩ := hrun
  have hbacked := xn_guard_backed .plain { xn := true } (fun _ => none) ⟨rfl, rfl, rfl⟩ hrun hclean
  have hguarded : Guarded x.node 1 := .inl ⟨2, hrecord⟩
  exact ⟨x, hrun, hguarded, hbacked.1 1 hguarded⟩

/-- The preparation is lost: the guard stays, and a second request sends nothing. -/
theorem lost_prepare_guards_for_good :
    ∃ x, runFrom (step .plain) XnSource.source (attempt ++ [.lose 0]) = some x ∧
      x.flight = [] ∧ Guarded x.node 1 ∧ 1 ∈ x.node.flows ∧
      ∃ x', step .plain x (.node (.requestHandover 1 2)) = some x' ∧
        x'.flight = [] ∧ x'.node.sent = x.node.sent := by
  refine ⟨_, rfl, by decide, .inl ⟨2, by decide⟩, by decide, _, rfl, ?_⟩
  decide

end AetherStack.Guarantees
