import AetherStack.Guarantees.NetworkControl

/-!
# What the receiving entities of the bearers are given

Over one base station, through attach, traffic, suspension and re-establishment: a PDU that
reaches `AmRx::rx` or `UmRx::rx` was produced by the peer's transmitter of the bearer since
the receiver was created or last reset.

Two things break it. A block enciphered for a receiver that is not armed with its key passes
for a clear one. And an endpoint that starts afresh meets a peer that does not: after a radio
link failure the flow still holds what it had for the UE, and an attach that follows a failed
resume finds the UE's queues as they were.
-/
namespace AetherStack.Guarantees
open Source Lib

/-- Nothing waits on a data channel or may be sent there again. -/
def Drained (bearers : BearerSet) : Prop := bearers.Carries fun _ _ => False

namespace Network

/-- The procedures considered here: no detach, no handover. -/
def Stationary : NetworkEvent → Prop
  | .ueDetach _ | .ueHandover _ | .bsPrepareHandover _ _ | .bsDetach _ => False
  | _ => True

def InputCondition (hmac : Hmac) (s : Network) (e : NetworkEvent) : Prop :=
  Stationary e ∧
  match e with
  | .ueReceive index => ∀ b q, s.downlink[index]? = some b → qciOfLcid b.lcid = some q →
    b.Opens hmac s.ue.upSecOn s.ue.upKey
  | .bsReceive index _ => ∀ b q, s.uplink[index]? = some b → qciOfLcid b.lcid = some q →
    b.Opens hmac (s.flows b.rnti).secOn (s.flows b.rnti).upKey
  | .ueRlf => s.contexts s.ue.crntiCache = true → Drained (s.flows s.ue.crntiCache).bearers
  | .ueAbort => s.ue.reestablishPending = true → s.contexts s.ue.preRlfCrnti = true →
    Drained (s.flows s.ue.preRlfCrnti).bearers
  | .bsMsg3 crnti known => s.FreshCrnti (.bsMsg3 crnti known) ∧
    (s.ue.pendingCcch = some .setupRequest → Drained s.ue.bearers)
  | _ => True

/-- The event gives `pdu` to a receiving entity whose peer has produced `produced`. -/
def RxInput (hmac : Hmac) (s : Network) (pdu : Bytes) (produced : List Bytes) :
    NetworkEvent → Prop
  | .ueReceive index => ∃ b q, s.downlink[index]? = some b ∧ b.rnti = s.ue.crntiCache ∧
    s.ue.rxInput hmac b.lcid b.sdu = some (q, pdu) ∧ produced = s.dlLog b.rnti q
  | .bsReceive index _ => ∃ b q, s.uplink[index]? = some b ∧ s.contexts b.rnti = true ∧
    (s.flows b.rnti).rxInput hmac b.lcid b.sdu = some (q, pdu) ∧ produced = s.ulLog b.rnti q
  | _ => False

/-- A data block carries a PDU of the log. -/
def Logged (log : Nat → Qci → List Bytes) (b : AirBlock) : Prop :=
  ∀ q, qciOfLcid b.lcid = some q → ∃ pdu, b.origin = Pdcp.tx pdu ∧ pdu ∈ log b.rnti q

structure InputsSound (hmac : Hmac) (s : Network) : Prop where
  allocated : s.Allocated
  ulGenuine : ∀ b ∈ s.uplink, b.Genuine hmac
  dlGenuine : ∀ b ∈ s.downlink, b.Genuine hmac
  ueQueues : s.ue.bearers.Carries fun _ _ => True
  ulSent : ∀ b ∈ s.uplink, s.contexts b.rnti = true → Logged s.ulLog b
  ulHeld : ∀ rnti, s.Anchored rnti → s.contexts rnti = true →
    s.ue.bearers.Carries fun q pdu => pdu ∈ s.ulLog rnti q
  dlSent : ∀ b ∈ s.downlink, s.Reaches b.rnti → Logged s.dlLog b
  dlHeld : ∀ rnti, s.Anchored rnti → s.contexts rnti = true ∨ s.Reaches rnti →
    (s.flows rnti).bearers.Carries fun q pdu => pdu ∈ s.dlLog rnti q

variable {hmac : Hmac} {s s' : Network}

theorem inputsSound_init (limit : Nat) : (init limit).InputsSound hmac where
  allocated := allocated_init limit
  ulGenuine := by simp [init]
  dlGenuine := by simp [init]
  ueQueues := BearerSet.carries_make _
  ulSent := by simp [init]
  ulHeld := fun _ _ _ => BearerSet.carries_make _
  dlSent := by simp [init]
  dlHeld := fun _ _ _ => BearerSet.carries_make _

/-- Steps of the UE that keep what it may send and lead to no new context. -/
theorem InputsSound.of_ue (h : s.InputsSound hmac) (halloc : s'.Allocated)
    (hbearers : ∀ P, s.ue.bearers.Carries P → s'.ue.bearers.Carries P)
    (hanchored : ∀ rnti, s'.Anchored rnti → s.Anchored rnti)
    (hreaches : ∀ rnti, s'.Reaches rnti → s.Reaches rnti)
    (hflows : s'.flows = s.flows) (hcontexts : s'.contexts = s.contexts)
    (huplink : s'.uplink = s.uplink) (hdownlink : s'.downlink = s.downlink)
    (hulLog : s'.ulLog = s.ulLog) (hdlLog : s'.dlLog = s.dlLog) : s'.InputsSound hmac where
  allocated := halloc
  ulGenuine := by rw [huplink]; exact h.ulGenuine
  dlGenuine := by rw [hdownlink]; exact h.dlGenuine
  ueQueues := hbearers _ h.ueQueues
  ulSent := by rw [huplink, hcontexts, hulLog]; exact h.ulSent
  ulHeld := by
    intro rnti hanchor hctx
    rw [hcontexts] at hctx
    rw [hulLog]
    exact hbearers _ (h.ulHeld rnti (hanchored rnti hanchor) hctx)
  dlSent := by
    rw [hdownlink, hdlLog]
    exact fun b hb hreach => h.dlSent b hb (hreaches _ hreach)
  dlHeld := by
    rw [hflows, hdlLog, hcontexts]
    exact fun rnti hanchor hserved =>
      h.dlHeld rnti (hanchored rnti hanchor) (hserved.imp id (hreaches rnti))

/-- A block of the UE. -/
theorem InputsSound.transmitUl (h : s.InputsSound hmac) {u : UeNode} {b : AirBlock}
    (halloc : (s.transmitUl (u, b)).Allocated) (hgenuine : b.Genuine hmac)
    (hrnti : b.rnti = s.ue.crntiCache)
    (hcontrol : u.crntiCache = s.ue.crntiCache ∧ u.rachActive = s.ue.rachActive ∧
      ∀ rnti, Kept u rnti → Kept s.ue rnti)
    (hcarries : ∀ P, s.ue.bearers.Carries P → u.bearers.Carries P ∧
      ∀ q, qciOfLcid b.lcid = some q → ∃ pdu, b.origin = Pdcp.tx pdu ∧ P q pdu) :
    (s.transmitUl (u, b)).InputsSound hmac := by
  have hreaches : ∀ rnti, (s.transmitUl (u, b)).Reaches rnti → s.Reaches rnti := by
    rintro rnti ⟨hne, hcur | ⟨hactive, hc⟩⟩
    · exact ⟨hne, .inl (hcur.trans hcontrol.1)⟩
    · exact ⟨hne, .inr ⟨hcontrol.2.1.symm.trans hactive, hc⟩⟩
  have hanchored : ∀ rnti, (s.transmitUl (u, b)).Anchored rnti → s.Anchored rnti :=
    fun rnti hanchor => hanchor.imp (hreaches rnti) (hcontrol.2.2 rnti)
  refine ⟨halloc, fun b' hb' => ?_, h.dlGenuine, (hcarries _ h.ueQueues).1, fun b' hb' hctx => ?_,
    fun rnti hanchor hctx => (hcarries _ (h.ulHeld rnti (hanchored rnti hanchor) hctx)).1,
    fun b' hb' hreach => h.dlSent b' hb' (hreaches _ hreach),
    fun rnti hanchor hserved =>
      h.dlHeld rnti (hanchored rnti hanchor) (hserved.imp id (hreaches rnti))⟩
  · rcases List.mem_append.mp hb' with hold | hnew
    · exact h.ulGenuine b' hold
    · rw [List.mem_singleton.mp hnew]
      exact hgenuine
  · rcases List.mem_append.mp hb' with hold | hnew
    · exact h.ulSent b' hold hctx
    · obtain rfl := List.mem_singleton.mp hnew
      have hne := h.allocated.ne_zero (h.allocated.issued_of_context hctx)
      exact (hcarries _ (h.ulHeld b'.rnti (anchored_crnti hne hrnti) hctx)).2

/-- The UE starts afresh: only contexts it still names matter, and their flows are drained. -/
theorem InputsSound.reset (h : s.InputsSound hmac) (halloc : s'.Allocated)
    (hbearers : s'.ue.bearers = s.ue.bearers.resetBearers)
    (hreaches : ∀ rnti, ¬ s'.Reaches rnti)
    (hdrained : ∀ rnti, Kept s'.ue rnti → s.contexts rnti = true → Drained (s.flows rnti).bearers)
    (hflows : s'.flows = s.flows) (hcontexts : s'.contexts = s.contexts)
    (huplink : s'.uplink = s.uplink) (hdownlink : s'.downlink = s.downlink)
    (hulLog : s'.ulLog = s.ulLog) : s'.InputsSound hmac where
  allocated := halloc
  ulGenuine := by rw [huplink]; exact h.ulGenuine
  dlGenuine := by rw [hdownlink]; exact h.dlGenuine
  ueQueues := by rw [hbearers]; exact h.ueQueues.resetBearers _
  ulSent := by rw [huplink, hcontexts, hulLog]; exact h.ulSent
  ulHeld := by
    rw [hbearers]
    exact fun rnti _ _ => h.ueQueues.resetBearers _
  dlSent := fun b _ hreach => absurd hreach (hreaches _)
  dlHeld := by
    intro rnti hanchor hserved
    rw [hflows]
    rcases hanchor with hreach | hkept
    · exact absurd hreach (hreaches rnti)
    · rcases hserved with hctx | hreach
      · rw [hcontexts] at hctx
        exact (hdrained rnti hkept hctx).mono fun _ _ hfalse => hfalse.elim
      · exact absurd hreach (hreaches rnti)

/-- Steps of one flow. -/
theorem InputsSound.of_flow (h : s.InputsSound hmac) (halloc : s'.Allocated) {rnti : Nat}
    (hflow : s.Anchored rnti → s.contexts rnti = true ∨ s.Reaches rnti →
      (s'.flows rnti).bearers.Carries fun q pdu => pdu ∈ s'.dlLog rnti q)
    (hflows : ∀ rnti', rnti' ≠ rnti → s'.flows rnti' = s.flows rnti')
    (hue : s'.ue = s.ue) (hmsg4 : s'.msg4 = s.msg4) (hcontexts : s'.contexts = s.contexts)
    (huplink : s'.uplink = s.uplink)
    (hdownlink : ∀ b ∈ s'.downlink, b ∈ s.downlink ∨ (b.Genuine hmac ∧ (s.Reaches b.rnti → Logged s'.dlLog b)))
    (hulLog : s'.ulLog = s.ulLog)
    (hdlLog : ∀ rnti q pdu, pdu ∈ s.dlLog rnti q → pdu ∈ s'.dlLog rnti q)
    : s'.InputsSound hmac := by
  have hreaches : ∀ r, s'.Reaches r ↔ s.Reaches r := by
    intro r
    rw [Reaches, Reaches, hue, hmsg4]
  have hanchored : ∀ r, s'.Anchored r ↔ s.Anchored r := by
    intro r
    rw [Anchored, Anchored, hreaches, hue]
  constructor
  · exact halloc
  · rw [huplink]
    exact h.ulGenuine
  · intro b hb
    exact (hdownlink b hb).elim (h.dlGenuine b) And.left
  · rw [hue]
    exact h.ueQueues
  · rw [huplink, hcontexts, hulLog]
    exact h.ulSent
  · intro r hanchor hctx
    rw [hcontexts] at hctx
    rw [hue, hulLog]
    exact h.ulHeld r ((hanchored r).mp hanchor) hctx
  · intro b hb hreach
    rw [hreaches] at hreach
    rcases hdownlink b hb with hold | ⟨-, hnew⟩
    · intro q hq
      obtain ⟨pdu, horigin, hpdu⟩ := h.dlSent b hold hreach q hq
      exact ⟨pdu, horigin, hdlLog _ _ _ hpdu⟩
    · exact hnew hreach
  · intro r hanchor hserved
    rw [hanchored] at hanchor
    rw [hreaches, hcontexts] at hserved
    by_cases hr : r = rnti
    · subst hr
      exact hflow hanchor hserved
    · rw [hflows r hr]
      exact (h.dlHeld r hanchor hserved).mono (hdlLog r)

/-- MSG4 and what comes with it: elsewhere contexts and flows only go. -/
theorem InputsSound.sendMsg4 (h : s.InputsSound hmac) (halloc : s'.Allocated) {c : Nat}
    (hzero : c ≠ 0) (hfresh : c ∉ s.issued)
    (hcontexts : ∀ rnti, rnti ≠ c → s'.contexts rnti = true →
      s.contexts rnti = true ∧ s'.ulLog rnti = s.ulLog rnti)
    (hflows : ∀ rnti, rnti ≠ c → s'.flows rnti = s.flows rnti ∨ s'.flows rnti = {})
    (hdlLog : ∀ rnti, rnti ≠ c → s'.dlLog rnti = s.dlLog rnti)
    (hul : s'.contexts c = true → s.ue.bearers.Carries fun q pdu => pdu ∈ s'.ulLog c q)
    (hdl : (s'.flows c).bearers.Carries fun q pdu => pdu ∈ s'.dlLog c q)
    (hue : s'.ue = s.ue) (hmsg4 : s'.msg4 = some c) (huplink : s'.uplink = s.uplink)
    (hdownlink : s'.downlink = s.downlink) : s'.InputsSound hmac := by
  constructor
  · exact halloc
  · rw [huplink]
    exact h.ulGenuine
  · rw [hdownlink]
    exact h.dlGenuine
  · rw [hue]
    exact h.ueQueues
  · intro b hb hctx
    rw [huplink] at hb
    obtain ⟨hctx', hlog⟩ := hcontexts _ (h.allocated.uplink_ne hzero hfresh hb) hctx
    intro q hq
    rw [hlog]
    exact h.ulSent b hb hctx' q hq
  · intro rnti hanchor hctx
    rw [hue]
    by_cases hrnti : rnti = c
    · subst hrnti
      exact hul hctx
    · obtain ⟨hctx', hlog⟩ := hcontexts rnti hrnti hctx
      rw [hlog]
      exact h.ulHeld rnti (anchored_of_msg4 hue hmsg4 hrnti hanchor) hctx'
  · intro b hb hreach
    rw [hdownlink] at hb
    have hne := h.allocated.downlink_ne hfresh hb
    intro q hq
    rw [hdlLog _ hne]
    exact h.dlSent b hb (reaches_of_msg4 hue hmsg4 hne hreach) q hq
  · intro rnti hanchor hserved
    by_cases hrnti : rnti = c
    · subst hrnti
      exact hdl
    · rcases hflows rnti hrnti with hsame | hempty
      · rw [hsame, hdlLog rnti hrnti]
        apply h.dlHeld rnti (anchored_of_msg4 hue hmsg4 hrnti hanchor)
        exact hserved.imp (fun hctx => (hcontexts rnti hrnti hctx).1)
          (reaches_of_msg4 hue hmsg4 hrnti)
      · rw [hempty]
        exact BearerSet.carries_make _

/-- A context that is new or moved meets entities that start afresh, or its own. -/
theorem InputsSound.answerMsg3 (h : s.InputsSound hmac) {c : Nat} (known : Bool)
    (halloc : (s.answerMsg3 c known).Allocated) (hrach : s.ue.rachActive = true) (hzero : c ≠ 0)
    (hfresh : c ∉ s.issued)
    (hdrained : s.ue.pendingCcch = some .setupRequest → Drained s.ue.bearers) :
    (s.answerMsg3 c known).InputsSound hmac := by
  have hempty : (s.flows c).bearers.Carries fun q pdu => pdu ∈ s.dlLog c q := by
    rw [h.allocated.flows c hfresh]
    exact BearerSet.carries_make _
  have hnocontext : s.contexts c ≠ true := fun hctx => hfresh (h.allocated.issued_of_context hctx)
  rcases s.answerMsg3_cases c known with ⟨hsetup, heq⟩ | ⟨old, hrequest, hctx, heq⟩ | heq
  · rw [heq] at halloc ⊢
    refine h.sendMsg4 halloc hzero hfresh (fun rnti hrnti hctx => ?_) (fun _ _ => .inl rfl)
      (fun _ _ => rfl) (fun _ => ?_) hempty rfl rfl rfl rfl
    · refine ⟨(update_true hctx).resolve_left hrnti, ?_⟩
      simp [admitUe, Network.sendMsg4, hrnti]
    · exact (hdrained hsetup).mono fun _ _ hfalse => hfalse.elim
  · obtain ⟨hin, hanchor⟩ := h.allocated.requested hrach hrequest hctx
    have hne : old ≠ c := by
      rintro rfl
      exact hfresh hin
    rw [heq] at halloc ⊢
    refine h.sendMsg4 halloc hzero hfresh (fun rnti hrnti hctx => ?_) (fun rnti hrnti => ?_)
      (fun rnti hrnti => ?_) (fun _ => ?_) ?_ rfl rfl rfl rfl
    · obtain ⟨hold, hctx'⟩ := update_false ((update_true hctx).resolve_left hrnti)
      refine ⟨hctx', ?_⟩
      simp [moveFlow, Network.sendMsg4, Network.eraseFlow, hrnti, hold]
    · by_cases hold : rnti = old
      · subst hold
        right
        simp [moveFlow, Network.eraseFlow, setFlow, hrnti]
      · left
        simp [moveFlow, Network.sendMsg4, Network.eraseFlow, setFlow, hrnti, hold]
    · simp [moveFlow, Network.sendMsg4, hrnti]
    · have hheld := h.ulHeld old hanchor hctx
      simpa [moveFlow, Network.sendMsg4] using hheld
    · have hheld := h.dlHeld old hanchor (.inl hctx)
      simpa [moveFlow, Network.sendMsg4, DlFlow.migrate] using hheld
  · rw [heq] at halloc ⊢
    exact h.sendMsg4 halloc hzero hfresh (fun _ _ hctx => ⟨hctx, rfl⟩) (fun _ _ => .inl rfl)
      (fun _ _ => rfl) (fun hctx => absurd hctx hnocontext) hempty rfl rfl rfl rfl

/-- New PDUs of the UE enter every log. -/
theorem InputsSound.ueSend (h : s.InputsSound hmac) (q : Qci) (sdu : Bytes) (force : Bool)
    (halloc : ({ s with ue := (s.ue.sendSdu q sdu force).1 }.produceUl q
      (s.ue.sendSdu q sdu force).2).Allocated) :
    ({ s with ue := (s.ue.sendSdu q sdu force).1 }.produceUl q
      (s.ue.sendSdu q sdu force).2).InputsSound hmac := by
  refine ⟨halloc, h.ulGenuine, h.dlGenuine, ?_, fun b hb hctx q' hq' => ?_,
    fun rnti hanchor hctx => ?_, h.dlSent, h.dlHeld⟩
  · exact UeNode.sendSdu_carries h.ueQueues (fun _ _ _ => trivial) q sdu force fun _ _ => trivial
  · obtain ⟨pdu, horigin, hpdu⟩ := h.ulSent b hb hctx q' hq'
    exact ⟨pdu, horigin, List.mem_append_left _ hpdu⟩
  · refine UeNode.sendSdu_carries (h.ulHeld rnti hanchor hctx) (fun q' pdu hpdu => ?_) q sdu force
      fun pdu hpdu => ?_
    · exact List.mem_append_left _ hpdu
    · exact List.mem_append_right _ (by rwa [if_pos rfl])

theorem InputsSound.bsRelease (h : s.InputsSound hmac) (rnti : Nat)
    (halloc : ({ s.eraseFlow rnti with
      contexts := Function.update s.contexts rnti false } : Network).Allocated) :
    ({ s.eraseFlow rnti with
      contexts := Function.update s.contexts rnti false } : Network).InputsSound hmac := by
  refine ⟨halloc, h.ulGenuine, h.dlGenuine, h.ueQueues, fun b hb hctx => ?_,
    fun r hanchor hctx => ?_, h.dlSent, fun r hanchor hserved => ?_⟩
  · obtain ⟨hne, hctx'⟩ := update_false hctx
    intro q hq
    simpa [Network.eraseFlow, hne] using h.ulSent b hb hctx' q hq
  · obtain ⟨hne, hctx'⟩ := update_false hctx
    simpa [Network.eraseFlow, setFlow, hne] using h.ulHeld r hanchor hctx'
  · by_cases hr : r = rnti
    · subst hr
      simpa [Network.eraseFlow, setFlow] using BearerSet.carries_make _
    · have hheld := h.dlHeld r hanchor (hserved.imp (fun hctx => (update_false hctx).2) id)
      simpa [Network.eraseFlow, setFlow, hr] using hheld

/-- The condition includes that C-RNTIs are fresh. -/
theorem freshCrnti_of_inputCondition {e : NetworkEvent} (h : s.InputCondition hmac e) :
    s.FreshCrnti e := by
  cases e with
  | bsMsg3 crnti known => exact h.2.1
  | bsPrepareHandover source crnti => exact h.1.elim
  | _ => trivial

/-- Step lemma under the condition. -/
theorem InputsSound.step (h : s.InputsSound hmac) {e : NetworkEvent}
    (hcond : s.InputCondition hmac e) (hstep : step hmac s e = some s') : s'.InputsSound hmac := by
  have halloc := h.allocated.step (freshCrnti_of_inputCondition hcond) hstep
  obtain ⟨hstationary, hcond⟩ := hcond
  cases transition_of_step hmac hstep with
  | ueSend q sdu force => exact h.ueSend q sdu force halloc
  | ueTick nowMs =>
    exact h.of_ue halloc (fun P hP => UeNode.tick_carries hP nowMs) (fun _ ha => ha)
      (fun _ hr => hr) rfl rfl rfl rfl rfl rfl
  | uePump u b hpump =>
    obtain ⟨p, bearers, -, hsend⟩ := UeNode.pumpAppBearers_cases hpump
    obtain ⟨⟨hrnti, -, -, hgenuine⟩, hcases⟩ := UeNode.uplinkSend_cases hsend
    refine h.transmitUl halloc hgenuine hrnti ?_ fun P hP => UeNode.pumpAppBearers_carries hP hpump
    rcases hcases with ⟨-, -, -, rfl⟩ | ⟨-, rfl⟩
    · exact ⟨rfl, rfl, fun _ hk => hk⟩
    · exact ⟨rfl, rfl, fun _ hk => hk⟩
  | ueSendNas nasPdu u b hsend =>
    obtain ⟨⟨hrnti, hlcid, -, hgenuine⟩, hcases⟩ := UeNode.uplinkSend_cases hsend
    have hnone : ∀ q, qciOfLcid b.lcid ≠ some q := by
      intro q
      rw [hlcid]
      exact nofun
    rcases hcases with ⟨-, -, -, rfl⟩ | ⟨-, rfl⟩
    · exact h.transmitUl halloc hgenuine hrnti ⟨rfl, rfl, fun _ hk => hk⟩
        fun P hP => ⟨hP, fun q hq => absurd hq (hnone q)⟩
    · exact h.transmitUl halloc hgenuine hrnti ⟨rfl, rfl, fun _ hk => hk⟩
        fun P hP => ⟨hP, fun q hq => absurd hq (hnone q)⟩
  | ueReceive index b =>
    have hcarries : ∀ P, s.ue.bearers.Carries P →
        (s.ue.handleDedicatedSdu hmac b.lcid b.sdu).bearers.Carries P :=
      fun P hP => UeNode.handleDedicatedSdu_carries hP b.lcid b.sdu
    rcases s.ue.handleDedicatedSdu_cases hmac b.lcid b.sdu with ⟨q, pdu, -, heq⟩ | ⟨q, heq⟩ | heq
    all_goals
      rw [heq] at hcarries halloc ⊢
      exact h.of_ue halloc hcarries (fun _ ha => ha) (fun _ hr => hr) rfl rfl rfl rfl rfl rfl
  | ueProcedure p =>
    refine h.of_ue halloc (fun P hP => ?_)
      (fun _ => anchored_of_retreat (retreats_procedure s.ue p) (s.keepsMsg4_procedure p))
      (fun _ => reaches_of_retreat (retreats_procedure s.ue p) (s.keepsMsg4_procedure p))
      rfl rfl rfl rfl rfl rfl
    have hbearers := (s.ue.procedure_bearers p).1
    dsimp only [setUe]
    rwa [hbearers]
  | ueResolve c hmsg4 hrach =>
    have hreaches : ∀ rnti,
        ({ s.setUe (s.ue.onContentionResolve c) with msg4 := none } : Network).Reaches rnti →
          s.Reaches rnti := by
      rintro rnti ⟨hne, hcur | ⟨-, hc⟩⟩
      · refine ⟨hne, .inr ⟨hrach, ?_⟩⟩
        rw [hmsg4, show rnti = c from hcur]
      · cases hc
    refine h.of_ue halloc (fun P hP => hP) (fun rnti ha => ha.imp (hreaches rnti) ?_) hreaches
      rfl rfl rfl rfl rfl rfl
    rintro ⟨hne, hsusp | ⟨hactive, -⟩ | hpre⟩
    · exact ⟨hne, .inl hsusp⟩
    · cases hactive
    · exact ⟨hne, .inr (.inr hpre)⟩
  | ueReestablishFailed =>
    have hkeeps : KeepsMsg4 s (s.setUe s.ue.reestablishFailed).restartCounter :=
      fun c hactive => (by cases hactive)
    exact h.of_ue halloc (fun P hP => hP)
      (fun _ => anchored_of_retreat (retreats_reestablishFailed s.ue) hkeeps)
      (fun _ => reaches_of_retreat (retreats_reestablishFailed s.ue) hkeeps) rfl rfl rfl rfl rfl rfl
  | ueAbort =>
    refine h.reset halloc rfl ?_ ?_ rfl rfl rfl rfl rfl
    · rintro rnti ⟨hne, hcur | ⟨hactive, -⟩⟩
      · exact hne hcur
      · cases hactive
    · rintro rnti ⟨hne, ⟨hrrc, -⟩ | ⟨hactive, -⟩ | ⟨hpending, hrnti⟩⟩ hctx
      · cases hrrc
      · cases hactive
      · rw [hrnti] at hctx ⊢
        exact hcond hpending hctx
  | ueDetach => exact hstationary.elim
  | ueHandover => exact hstationary.elim
  | ueRlf =>
    refine h.reset halloc rfl ?_ ?_ rfl rfl rfl rfl rfl
    · rintro rnti ⟨hne, hcur | ⟨-, hc⟩⟩
      · exact hne hcur
      · cases hc
    · intro rnti hkept hctx
      rw [kept_declareRlf hkept] at hctx ⊢
      exact hcond hctx
  | bsMsg3 c known hrach => exact h.answerMsg3 known halloc hrach hcond.1.1 hcond.1.2 hcond.2
  | bsSend rnti nowMs q sdu =>
    refine h.of_flow halloc (fun ha hs => ?_) (fun _ hne => setFlow_of_ne _ hne) rfl rfl rfl rfl
      (fun _ hb => .inl hb) rfl fun _ _ _ hpdu => List.mem_append_left _ hpdu
    refine (setFlow_self s rnti _).symm ▸ DlFlow.sendSdu_carries (h.dlHeld rnti ha hs)
      (fun _ _ hpdu => List.mem_append_left _ hpdu) s.maxDlQueuePerUe nowMs q sdu
      fun pdu hpdu => ?_
    exact List.mem_append_right _ (by rwa [if_pos ⟨rfl, rfl⟩])
  | bsOperate rnti nowMs op =>
    refine h.of_flow halloc (fun ha hs => ?_) (fun _ hne => setFlow_of_ne _ hne) rfl rfl rfl rfl
      (fun _ hb => .inl hb) rfl fun _ _ _ hpdu => hpdu
    rw [setFlow_self]
    exact ((s.flows rnti).operate_spec _ nowMs op).2.1 _ (h.dlHeld rnti ha hs)
  | bsSchedule rnti f b hsched =>
    obtain ⟨p, -, ⟨hrnti, -, -, hgenuine⟩, -⟩ := DlFlow.scheduleDownlink_cases hsched
    have hself : (s.transmitDl rnti (f, b)).flows rnti = f := setFlow_self s rnti f
    have hcarries := fun ha hs => DlFlow.scheduleDownlink_carries (h.dlHeld rnti ha hs) hsched
    refine h.of_flow halloc (fun ha hs => hself.symm ▸ (hcarries ha hs).1)
      (fun _ hne => setFlow_of_ne _ hne) rfl rfl rfl rfl (fun b' hb' => ?_) rfl
      fun _ _ _ hpdu => hpdu
    rcases List.mem_append.mp hb' with hold | hnew
    · exact .inl hold
    · obtain rfl := List.mem_singleton.mp hnew
      refine .inr ⟨hgenuine, fun hreach q hq => ?_⟩
      rw [hrnti] at hreach ⊢
      exact (hcarries (.inl hreach) (.inr hreach)).2 q hq
  | bsReceive index nowMs b hget hcontext =>
    refine h.of_flow halloc (fun ha hs => ?_) (fun _ hne => setFlow_of_ne _ hne) rfl rfl rfl rfl
      (fun _ hb => .inl hb) rfl fun _ _ _ hpdu => hpdu
    rw [setFlow_self]
    exact DlFlow.handleData_carries (h.dlHeld b.rnti ha hs) hmac _ nowMs b.lcid b.sdu
  | bsPrepareHandover => exact hstationary.elim
  | bsDetach => exact hstationary.elim
  | bsRelease rnti => exact h.bsRelease rnti halloc

theorem rxInput_cases {q : Qci} {lcid : UInt8} {pdu : Bytes} {opened : Option Bytes}
    (h : (match qciOfLcid lcid with
      | none => none
      | some q => opened.map fun pdu => (q, pdu)) = some (q, pdu)) :
    qciOfLcid lcid = some q ∧ opened = some pdu := by
  split at h
  · cases h
  · rename_i q' hq'
    obtain ⟨pdu', hopened, heq⟩ := Option.map_eq_some_iff.mp h
    obtain ⟨rfl, rfl⟩ := Prod.mk.inj heq
    exact ⟨hq', hopened⟩

/-- What is received in a sound state was produced by the peer. -/
theorem InputsSound.rxInput (h : s.InputsSound hmac) {e : NetworkEvent}
    (hcond : s.InputCondition hmac e) {pdu : Bytes} {produced : List Bytes}
    (hinput : s.RxInput hmac pdu produced e) : pdu ∈ produced := by
  cases e with
  | ueReceive index =>
    obtain ⟨b, q, hget, haddr, hrx, rfl⟩ := hinput
    obtain ⟨hq, hopened⟩ := rxInput_cases hrx
    have hb := List.mem_of_getElem? hget
    have hne := h.allocated.ne_zero (h.allocated.downlink b hb)
    obtain ⟨pdu', horigin, hmem⟩ := h.dlSent b hb ⟨hne, .inl haddr⟩ q hq
    rw [(h.dlGenuine b hb).opened (hcond.2 b q hget hq) horigin hopened]
    exact hmem
  | bsReceive index nowMs =>
    obtain ⟨b, q, hget, hctx, hrx, rfl⟩ := hinput
    obtain ⟨hq, hopened⟩ := rxInput_cases hrx
    have hb := List.mem_of_getElem? hget
    obtain ⟨pdu', horigin, hmem⟩ := h.ulSent b hb hctx q hq
    rw [(h.ulGenuine b hb).opened (hcond.2 b q hget hq) horigin hopened]
    exact hmem
  | _ => exact hinput.elim

/-- In every run under the condition, a receiving entity is given only what its peer has
produced for it. -/
theorem rlc_inputs_were_produced (hmac : Hmac) (limit : Nat) {events : List NetworkEvent}
    {s : Network} (meets : StepsMeet (step hmac) (InputCondition hmac) (init limit) events)
    (run : runFrom (step hmac) (init limit) events = some s) {e : NetworkEvent}
    (hcond : s.InputCondition hmac e) {pdu : Bytes} {produced : List Bytes}
    (hinput : s.RxInput hmac pdu produced e) : pdu ∈ produced := by
  have hsound := runFrom_invariant_of_meets (InputsSound hmac)
    (fun _ _ _ h hcond hstep => h.step hcond hstep) (inputsSound_init limit) meets run
  exact hsound.rxInput hcond hinput

private def voiceAfterAttach : List NetworkEvent :=
  attachEvents sessionKey ++ [.bsSend 1 0 .voice [9], .bsSchedule 1]

private theorem rxInput_voice :
    ∃ s, runFrom (step zeroHmac) (init 64) voiceAfterAttach = some s ∧ s.ue.upSecOn = true ∧
      s.ue.upKey = sessionKey ∧ s.downlink[1]?.bind AirBlock.sealed = some (sessionKey, 0) ∧
      s.RxInput zeroHmac [0, 0, 0, 9] [[0, 0, 0, 9]] (.ueReceive 1) := by
  refine ⟨_, rfl, rfl, rfl, rfl, _, .voice, rfl, rfl, ?_, rfl⟩
  exact congrArg (Option.map _) (openSdu_protect zeroHmac sessionKey 0 [0, 0, 0, 9])

/-- A voice PDU behind an attach: enciphered, received, opened, and in the log. -/
theorem rlc_inputs_were_produced_voice :
    ∃ s pdu produced, runFrom (step zeroHmac) (init 64) voiceAfterAttach = some s ∧
      s.RxInput zeroHmac pdu produced (.ueReceive 1) ∧ pdu ∈ produced := by
  have meets : StepsMeet (step zeroHmac) (InputCondition zeroHmac) (init 64) voiceAfterAttach := by
    refine .cons ⟨trivial, trivial⟩ rfl ?_
    refine .cons ⟨trivial, ⟨by decide, by simp [setUe, init]⟩, fun _ => BearerSet.carries_make _⟩
      rfl ?_
    iterate 9 refine .cons ⟨trivial, trivial⟩ rfl ?_
    trivial
  obtain ⟨s, run, hsec, hkey, hsealed, hinput⟩ := rxInput_voice
  have hcond : s.InputCondition zeroHmac (.ueReceive 1) := by
    refine ⟨trivial, fun b q hget _ k seq hb => ?_⟩
    rw [hget, Option.bind_some, hb] at hsealed
    obtain ⟨rfl, -⟩ := Prod.mk.inj (Option.some.inj hsealed)
    exact ⟨hsec, .inl hkey.symm⟩
  exact ⟨s, _, _, run, hinput, rlc_inputs_were_produced zeroHmac 64 meets run hcond hinput⟩

private def voiceAcrossRlf : List NetworkEvent :=
  attachEvents sessionKey ++ [.bsSend 1 0 .voice [9], .ueRlf, .bsMsg3 2 true, .ueResolve,
    .ueProcedure .reestablishmentOk, .bsSchedule 2]

private theorem rxInput_across_rlf :
    ∃ s, runFrom (step zeroHmac) (init 64) voiceAcrossRlf = some s ∧
      s.RxInput zeroHmac [0, 0, 0, 9] [] (.ueReceive 1) := by
  refine ⟨_, rfl, _, .voice, rfl, rfl, ?_, rfl⟩
  exact congrArg (Option.map _) (openSdu_protect zeroHmac sessionKey 0 [0, 0, 0, 9])

/-- A voice PDU that waits when the link fails is sent after the re-establishment, to a
receiver that was reset in between. -/
theorem rlc_input_produced_before_reset :
    ¬ ∀ (hmac : Hmac) (limit : Nat) (events : List NetworkEvent) (s : Network),
      (∀ e ∈ events, Stationary e) → runFrom (step hmac) (init limit) events = some s →
        ∀ e pdu produced, s.RxInput hmac pdu produced e → pdu ∈ produced := by
  intro hclaim
  obtain ⟨s, run, hinput⟩ := rxInput_across_rlf
  have hstationary : ∀ e ∈ voiceAcrossRlf, Stationary e := by
    simp [voiceAcrossRlf, attachEvents, Stationary]
  have hmem := hclaim zeroHmac 64 voiceAcrossRlf s hstationary run _ _ _ hinput
  cases hmem

end Network

end AetherStack.Guarantees
