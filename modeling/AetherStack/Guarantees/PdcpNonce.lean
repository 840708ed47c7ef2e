import AetherStack.Guarantees.Network

/-!
# Nonces of `pdcp::protect`

The sequence number is the nonce. Each counter counts up and never repeats a number, so a
pair of key and number comes back only when a second counter uses the key: the other
direction, another cell's flow, or the same counter after a reset. Nothing in the nodes
prevents that, and the first traffic in both directions after an attach already does it.
-/
namespace AetherStack.Guarantees
open Source Lib

namespace Network

/-- No call under the key came from another counter. -/
def SoleCounter (s : Network) (key : Key256) (counter : PdcpCounter) : Prop :=
  ∀ c ∈ s.calls, c.key = key → c.counter = counter

/-- The step enciphers an uplink SDU. -/
def UeSeals (s : Network) : NetworkEvent → Prop
  | .uePump => s.ue.upSecOn = true ∧
    ∃ p rest, s.ue.bearers.popNext = some (p, rest) ∧ cipheredLcid p.lcid = true
  | .ueSendNas _ | .ueDetach _ => s.ue.upSecOn = true
  | _ => False

/-- The flow enciphers what it sends next. -/
def FlowSeals (f : DlFlow) : Prop :=
  ∃ p rest, f.bearers.popNext = some (p, rest) ∧ p.cipher = true

/-- Each key belongs to one counter, and no counter reaches its last value. -/
def NonceCondition (s : Network) (e : NetworkEvent) : Prop :=
  (s.UeSeals e →
    s.SoleCounter s.ue.upKey (.ue s.ueEpoch) ∧ s.ue.pdcpSeq.toNat + 1 < 2 ^ 64) ∧
  ∀ rnti, e = .bsSchedule rnti → FlowSeals (s.flows rnti) →
    s.SoleCounter (s.flows rnti).upKey (.flow (s.flowId rnti)) ∧
      (s.flows rnti).dlSeq.toNat + 1 < 2 ^ 64

/-- The counters in service and where they stand. -/
def Live (s : Network) : PdcpCounter → Nat → Prop
  | .ue epoch, n => epoch = s.ueEpoch ∧ n = s.ue.pdcpSeq.toNat
  | .flow id, n => ∃ rnti, s.flowId rnti = id ∧ n = (s.flows rnti).dlSeq.toNat

structure Counted (s : Network) : Prop where
  numbered : Numbered UInt64.toNat s.Live s.calls
  ue_epoch : ∀ c ∈ s.calls, ∀ n, c.counter = .ue n → n ≤ s.ueEpoch
  flow_erased : ∀ c ∈ s.calls, ∀ id, c.counter = .flow id → id.2 ≤ s.erased
  id_erased : ∀ rnti, (s.flowId rnti).2 ≤ s.erased
  id_injective : Function.Injective s.flowId

theorem counted_init (limit : Nat) : (init limit).Counted where
  numbered := ⟨by simp [init], List.Pairwise.nil⟩
  ue_epoch := by simp [init]
  flow_erased := by simp [init]
  id_erased := fun rnti => Nat.le_refl 0
  id_injective := fun rnti rnti' h => congrArg Prod.fst h

variable {s s' : Network}

/-- Steps without a call: a flow keeps its counter, or has one that was never used. -/
theorem Counted.reflow (h : s.Counted) (hcalls : s'.calls = s.calls)
    (hepoch : s'.ueEpoch = s.ueEpoch) (hue : s'.ue.pdcpSeq = s.ue.pdcpSeq)
    (herased : s.erased ≤ s'.erased) (hids : ∀ rnti, (s'.flowId rnti).2 ≤ s'.erased)
    (hinj : Function.Injective s'.flowId)
    (hflows : ∀ rnti, (∃ old, s'.flowId rnti = s.flowId old ∧
      (s'.flows rnti).dlSeq = (s.flows old).dlSeq) ∨ s.erased < (s'.flowId rnti).2) :
    s'.Counted where
  numbered := by
    rw [hcalls]
    apply h.numbered.keep
    intro i n hlive
    cases i with
    | ue epoch =>
      left
      rwa [Live, hepoch, hue] at hlive
    | flow id =>
      obtain ⟨rnti, rfl, rfl⟩ := hlive
      rcases hflows rnti with ⟨old, hid, hseq⟩ | hnew
      · exact .inl ⟨old, hid.symm, by rw [hseq]⟩
      · refine .inr fun c hc hcounter => ?_
        have := h.flow_erased c hc _ hcounter
        omega
  ue_epoch := by rw [hcalls, hepoch]; exact h.ue_epoch
  flow_erased := by
    intro c hc id hcounter
    rw [hcalls] at hc
    exact (h.flow_erased c hc id hcounter).trans herased
  id_erased := hids
  id_injective := hinj

/-- Steps that touch neither a counter nor the calls. -/
theorem Counted.of_counters (h : s.Counted) (hcalls : s'.calls = s.calls)
    (hepoch : s'.ueEpoch = s.ueEpoch) (hue : s'.ue.pdcpSeq = s.ue.pdcpSeq)
    (hid : s'.flowId = s.flowId) (herased : s'.erased = s.erased)
    (hflows : ∀ rnti, (s'.flows rnti).dlSeq = (s.flows rnti).dlSeq) : s'.Counted := by
  apply h.reflow hcalls hepoch hue herased.ge
  · rw [hid, herased]
    exact h.id_erased
  · rw [hid]
    exact h.id_injective
  · exact fun rnti => .inl ⟨rnti, by rw [hid], hflows rnti⟩

/-- A reset counter starts a life of its own. -/
theorem Counted.restart (h : s.Counted) (hcalls : s'.calls = s.calls)
    (hepoch : s'.ueEpoch = s.ueEpoch + 1) (hid : s'.flowId = s.flowId)
    (herased : s'.erased = s.erased) (hflows : s'.flows = s.flows) : s'.Counted where
  numbered := by
    rw [hcalls]
    apply h.numbered.keep
    intro i n hlive
    cases i with
    | ue epoch =>
      right
      intro c hc hcounter
      have hold := h.ue_epoch c hc epoch hcounter
      have hnew : epoch = s'.ueEpoch := hlive.1
      omega
    | flow id =>
      left
      rwa [Live, hid, hflows] at hlive
  ue_epoch := by
    intro c hc n hcounter
    rw [hcalls] at hc
    have := h.ue_epoch c hc n hcounter
    omega
  flow_erased := by rw [hcalls, herased]; exact h.flow_erased
  id_erased := by rw [hid, herased]; exact h.id_erased
  id_injective := by rw [hid]; exact h.id_injective

theorem toNat_lt_succ {seq : UInt64} (hroom : seq.toNat + 1 < 2 ^ 64) :
    seq.toNat < (seq + 1).toNat := by
  have hnext : (seq + 1).toNat = seq.toNat + 1 := by
    rw [UInt64.toNat_add]
    exact Nat.mod_eq_of_lt hroom
  omega

theorem protectCalls_none {b : AirBlock} (h : b.sealed = none) (counter : PdcpCounter) :
    protectCalls b counter = [] := by
  simp [protectCalls, h]

theorem protectCalls_some {b : AirBlock} {key : Key256} {seq : UInt64}
    (h : b.sealed = some (key, seq)) (counter : PdcpCounter) :
    protectCalls b counter = [⟨key, seq, b.origin, counter⟩] := by
  simp [protectCalls, h]

/-- An uplink block: enciphered with the counter's number, or left in the clear. -/
theorem Counted.transmitUl (h : s.Counted) {u : UeNode} {b : AirBlock}
    (hcases : (b.sealed = some (s.ue.upKey, s.ue.pdcpSeq) ∧ u.pdcpSeq = s.ue.pdcpSeq + 1 ∧
        s.SoleCounter s.ue.upKey (.ue s.ueEpoch) ∧ s.ue.pdcpSeq.toNat + 1 < 2 ^ 64) ∨
      (b.sealed = none ∧ u.pdcpSeq = s.ue.pdcpSeq)) : (s.transmitUl (u, b)).Counted := by
  rcases hcases with ⟨hsealed, hseq, hsole, hroom⟩ | ⟨hsealed, hseq⟩
  · have hcalls : (s.transmitUl (u, b)).calls = s.calls ++ [_] :=
      congrArg (s.calls ++ ·) (protectCalls_some hsealed _)
    refine ⟨?_, fun c hc n hcounter => ?_, fun c hc id hcounter => ?_, h.id_erased, h.id_injective⟩
    · rw [hcalls]
      have hlive : s.Live (.ue s.ueEpoch) s.ue.pdcpSeq.toNat := ⟨rfl, rfl⟩
      apply h.numbered.use hlive hsole
      intro i n hlive
      cases i with
      | ue epoch =>
        obtain ⟨rfl, rfl⟩ := hlive
        refine .inl ⟨rfl, ?_⟩
        rw [show (s.transmitUl (u, b)).ue.pdcpSeq = s.ue.pdcpSeq + 1 from hseq]
        exact toNat_lt_succ hroom
      | flow id => exact .inr ⟨by simp, hlive⟩
    · rcases List.mem_append.mp (hcalls ▸ hc) with hold | hnew
      · exact h.ue_epoch c hold n hcounter
      · rw [List.mem_singleton.mp hnew] at hcounter
        exact (PdcpCounter.ue.inj hcounter).ge
    · rcases List.mem_append.mp (hcalls ▸ hc) with hold | hnew
      · exact h.flow_erased c hold id hcounter
      · rw [List.mem_singleton.mp hnew] at hcounter
        cases hcounter
  · refine h.of_counters ?_ rfl hseq rfl rfl fun _ => rfl
    simp [Network.transmitUl, protectCalls_none hsealed]

/-- A downlink block, likewise. -/
theorem Counted.transmitDl (h : s.Counted) {rnti : Nat} {f : DlFlow} {b : AirBlock}
    (hcases : (b.sealed = some ((s.flows rnti).upKey, (s.flows rnti).dlSeq) ∧
        f.dlSeq = (s.flows rnti).dlSeq + 1 ∧
        s.SoleCounter (s.flows rnti).upKey (.flow (s.flowId rnti)) ∧
        (s.flows rnti).dlSeq.toNat + 1 < 2 ^ 64) ∨
      (b.sealed = none ∧ f.dlSeq = (s.flows rnti).dlSeq)) :
    (s.transmitDl rnti (f, b)).Counted := by
  have hflows : (s.transmitDl rnti (f, b)).flows = Function.update s.flows rnti f := rfl
  rcases hcases with ⟨hsealed, hseq, hsole, hroom⟩ | ⟨hsealed, hseq⟩
  · have hcalls : (s.transmitDl rnti (f, b)).calls = s.calls ++ [_] :=
      congrArg (s.calls ++ ·) (protectCalls_some hsealed _)
    refine ⟨?_, fun c hc n hcounter => ?_, fun c hc id hcounter => ?_, h.id_erased, h.id_injective⟩
    · rw [hcalls]
      have hlive : s.Live (.flow (s.flowId rnti)) (s.flows rnti).dlSeq.toNat := ⟨rnti, rfl, rfl⟩
      apply h.numbered.use hlive hsole
      intro i n hlive
      cases i with
      | ue epoch => exact .inr ⟨by simp, hlive⟩
      | flow id =>
        obtain ⟨rnti', rfl, rfl⟩ := hlive
        by_cases hrnti : rnti' = rnti
        · subst hrnti
          rw [hflows, Function.update_self, hseq]
          exact .inl ⟨rfl, toNat_lt_succ hroom⟩
        · rw [hflows, Function.update_of_ne hrnti]
          refine .inr ⟨fun hid => hrnti (h.id_injective (PdcpCounter.flow.inj hid)), ?_⟩
          exact ⟨rnti', rfl, rfl⟩
    · rcases List.mem_append.mp (hcalls ▸ hc) with hold | hnew
      · exact h.ue_epoch c hold n hcounter
      · rw [List.mem_singleton.mp hnew] at hcounter
        cases hcounter
    · rcases List.mem_append.mp (hcalls ▸ hc) with hold | hnew
      · exact h.flow_erased c hold id hcounter
      · rw [List.mem_singleton.mp hnew] at hcounter
        rw [← PdcpCounter.flow.inj hcounter]
        exact h.id_erased rnti
  · refine h.of_counters ?_ rfl rfl rfl rfl fun rnti' => ?_
    · simp [Network.transmitDl, protectCalls_none hsealed]
    · rw [hflows]
      by_cases hrnti : rnti' = rnti
      · subst hrnti
        rw [Function.update_self, hseq]
      · rw [Function.update_of_ne hrnti]

/-- A flow with the same counter leaves all counters as they were. -/
theorem setFlow_dlSeq {rnti : Nat} {f : DlFlow} (hseq : f.dlSeq = (s.flows rnti).dlSeq)
    (rnti' : Nat) : ((s.setFlow rnti f).flows rnti').dlSeq = (s.flows rnti').dlSeq := by
  by_cases hrnti : rnti' = rnti
  · subst hrnti
    simp [setFlow, hseq]
  · simp [setFlow, hrnti]

theorem injective_update {f : Nat → Nat × Nat} (h : Function.Injective f) {i : Nat} {v : Nat × Nat}
    (hv : ∀ x, x ≠ i → f x ≠ v) : Function.Injective (Function.update f i v) := by
  intro x y hxy
  by_cases hx : x = i
  · by_cases hy : y = i
    · rw [hx, hy]
    · rw [hx, Function.update_self, Function.update_of_ne hy] at hxy
      exact absurd hxy.symm (hv y hy)
  · by_cases hy : y = i
    · rw [hy, Function.update_self, Function.update_of_ne hx] at hxy
      exact absurd hxy (hv x hx)
    · rw [Function.update_of_ne hx, Function.update_of_ne hy] at hxy
      exact h hxy

/-- The life of a counter that begins has a name of its own. -/
theorem Counted.id_ne (h : s.Counted) (rnti rnti' : Nat) : s.flowId rnti ≠ (rnti', s.erased + 1) := by
  intro hsame
  have := h.id_erased rnti
  rw [hsame] at this
  exact absurd this (Nat.not_succ_le_self _)

/-- With the flow its counter ends, and another life begins. -/
theorem Counted.eraseFlow (h : s.Counted) (rnti : Nat) : (s.eraseFlow rnti).Counted := by
  have hid : (s.eraseFlow rnti).flowId = Function.update s.flowId rnti (rnti, s.erased + 1) := rfl
  refine h.reflow rfl rfl rfl (Nat.le_succ s.erased) (fun rnti' => ?_) ?_ fun rnti' => ?_
  · rw [hid]
    by_cases hrnti : rnti' = rnti
    · rw [hrnti, Function.update_self]
      exact Nat.le_refl _
    · rw [Function.update_of_ne hrnti]
      exact (h.id_erased rnti').trans (Nat.le_succ _)
  · rw [hid]
    exact injective_update h.id_injective fun rnti' _ => h.id_ne rnti' rnti
  · rw [hid]
    by_cases hrnti : rnti' = rnti
    · rw [hrnti, Function.update_self]
      exact .inr (Nat.lt_succ_self _)
    · rw [Function.update_of_ne hrnti]
      exact .inl ⟨rnti', rfl, by simp [Network.eraseFlow, setFlow, hrnti]⟩

/-- The counter moves with its flow. -/
theorem Counted.moveFlow (h : s.Counted) (old crnti : Nat) : (s.moveFlow old crnti).Counted := by
  have herase := h.eraseFlow old
  have hid : (s.moveFlow old crnti).flowId =
    Function.update (s.eraseFlow old).flowId crnti (s.flowId old) := rfl
  have hflows : (s.moveFlow old crnti).flows =
    Function.update (s.eraseFlow old).flows crnti (s.flows old).migrate := rfl
  refine h.reflow rfl rfl rfl (Nat.le_succ s.erased) (fun rnti => ?_) ?_ fun rnti => ?_
  · rw [hid]
    by_cases hrnti : rnti = crnti
    · rw [hrnti, Function.update_self]
      exact (h.id_erased old).trans (Nat.le_succ _)
    · rw [Function.update_of_ne hrnti]
      exact herase.id_erased rnti
  · rw [hid]
    apply injective_update herase.id_injective
    intro rnti _
    by_cases hrnti : rnti = old
    · simpa [hrnti, Network.eraseFlow] using (h.id_ne old old).symm
    · simpa [Network.eraseFlow, hrnti] using fun hsame => hrnti (h.id_injective hsame)
  · rw [hid, hflows]
    by_cases hrnti : rnti = crnti
    · rw [hrnti, Function.update_self, Function.update_self]
      exact .inl ⟨old, rfl, rfl⟩
    · rw [Function.update_of_ne hrnti, Function.update_of_ne hrnti]
      by_cases hold : rnti = old
      · simp [Network.eraseFlow, hold]
      · exact .inl ⟨rnti, by simp [Network.eraseFlow, hold], by simp [Network.eraseFlow, setFlow, hold]⟩

/-- A context that moves takes its counter along. -/
theorem Counted.answerMsg3 (h : s.Counted) (crnti : Nat) (known : Bool) :
    (s.answerMsg3 crnti known).Counted := by
  have hissued : (s.sendMsg4 crnti).Counted := h.of_counters rfl rfl rfl rfl rfl fun _ => rfl
  rcases s.answerMsg3_cases crnti known with ⟨-, heq⟩ | ⟨old, -, -, heq⟩ | heq
  · rw [heq]
    exact hissued.of_counters rfl rfl rfl rfl rfl fun _ => rfl
  · rw [heq]
    exact hissued.moveFlow old crnti
  · rw [heq]
    exact hissued

variable {hmac : Hmac}

/-- What an uplink send contributes, under the condition on the step that makes it. -/
theorem Counted.uplinkSend (h : s.Counted) {u u' : UeNode} {lcid : UInt8} {sdu : Bytes}
    {b : AirBlock} (hsend : UeNode.uplinkSend hmac u lcid sdu = (u', b))
    (hue : u.upKey = s.ue.upKey ∧ u.pdcpSeq = s.ue.pdcpSeq)
    (hcond : u.upSecOn = true → cipheredLcid lcid = true →
      s.SoleCounter s.ue.upKey (.ue s.ueEpoch) ∧ s.ue.pdcpSeq.toNat + 1 < 2 ^ 64) :
    (s.transmitUl (u', b)).Counted := by
  apply h.transmitUl
  rcases (UeNode.uplinkSend_cases hsend).2 with ⟨hsec, hlcid, hsealed, rfl⟩ | ⟨hsealed, rfl⟩
  · rw [hue.1, hue.2] at hsealed
    exact .inl ⟨hsealed, by rw [hue.2], hcond hsec hlcid⟩
  · exact .inr ⟨hsealed, hue.2⟩

/-- Step lemma: every call draws the next number of its counter. -/
theorem Counted.step (h : s.Counted) {e : NetworkEvent} (hcond : s.NonceCondition e)
    (hstep : step hmac s e = some s') : s'.Counted := by
  obtain ⟨hue, hflow⟩ := hcond
  cases transition_of_step hmac hstep with
  | ueSend | ueTick | ueResolve | ueRlf => exact h.of_counters rfl rfl rfl rfl rfl fun _ => rfl
  | uePump u b hpump =>
    obtain ⟨p, bearers, hpop, hsend⟩ := UeNode.pumpAppBearers_cases hpump
    exact h.uplinkSend hsend ⟨rfl, rfl⟩ fun hsec hlcid => hue ⟨hsec, p, bearers, hpop, hlcid⟩
  | ueSendNas nasPdu u b hsend => exact h.uplinkSend hsend ⟨rfl, rfl⟩ fun hsec _ => hue hsec
  | ueReceive index b =>
    refine h.of_counters rfl rfl ?_ rfl rfl fun _ => rfl
    rcases s.ue.handleDedicatedSdu_cases hmac b.lcid b.sdu with ⟨q, pdu, -, heq⟩ | ⟨q, heq⟩ | heq
    · rw [heq]
    · rw [heq]
    · rw [heq]
  | ueProcedure p => exact h.of_counters rfl rfl (s.ue.procedure_bearers p).2 rfl rfl fun _ => rfl
  | ueReestablishFailed | ueAbort | ueHandover => exact h.restart rfl rfl rfl rfl rfl
  | ueDetach detachPdu u b hregistered hactive hdetach =>
    obtain ⟨-, rfl⟩ := Prod.mk.inj hdetach
    have hsent : (s.transmitUl (UeNode.uplinkSend hmac { s.ue with nas := s.ue.nas.sendDetach }
        Mac.lcidNasDcch (Pdcp.tx detachPdu))).Counted :=
      h.uplinkSend rfl ⟨rfl, rfl⟩ fun hsec _ => hue hsec
    exact hsent.restart rfl rfl rfl rfl rfl
  | bsMsg3 crnti known => exact h.answerMsg3 crnti known
  | bsSend | bsPrepareHandover => exact h.of_counters rfl rfl rfl rfl rfl (setFlow_dlSeq rfl)
  | bsOperate rnti nowMs op =>
    exact h.of_counters rfl rfl rfl rfl rfl
      (setFlow_dlSeq ((s.flows rnti).operate_spec _ nowMs op).1)
  | bsSchedule rnti f b hsched =>
    obtain ⟨p, hpop, -, hseal⟩ := DlFlow.scheduleDownlink_cases hsched
    apply h.transmitDl
    rcases hseal with ⟨hcipher, hsealed, hseq⟩ | hclear
    · exact .inl ⟨hsealed, hseq, hflow rnti rfl ⟨p, f.bearers, hpop, hcipher⟩⟩
    · exact .inr hclear
  | bsReceive index nowMs b =>
    exact h.of_counters rfl rfl rfl rfl rfl
      (setFlow_dlSeq ((s.flows b.rnti).handleData_cases hmac _ nowMs b.lcid b.sdu).1)
  | bsDetach rnti => exact h.eraseFlow rnti
  | bsRelease rnti => exact (h.eraseFlow rnti).of_counters rfl rfl rfl rfl rfl fun _ => rfl

/-- In every run whose keys have one counter each, no nonce is used twice. -/
theorem pdcp_nonces_distinct (hmac : Hmac) (limit : Nat) {events : List NetworkEvent} {s : Network}
    (meets : StepsMeet (step hmac) NonceCondition (init limit) events)
    (run : runFrom (step hmac) (init limit) events = some s) : DistinctNonces s.calls :=
  (runFrom_invariant_of_meets Counted (fun _ _ _ h hcond hstep => h.step hcond hstep)
    (counted_init limit) meets run).numbered.distinct

private def uplinkOnly : List NetworkEvent :=
  [.ueProcedure .maybeStartAttach, .bsMsg3 1 true, .ueResolve, .ueProcedure .setup,
    .ueProcedure .attachRequest, .ueProcedure (.nas (.authRequest sessionKey)),
    .ueProcedure (.nas .attachAccept), .ueSendNas [0x04], .ueSendNas [0x04]]

/-- Two uplink messages behind an attach use two numbers. -/
theorem pdcp_nonces_distinct_uplink :
    ∃ s, runFrom (step zeroHmac) (init 64) uplinkOnly = some s ∧ s.calls.length = 2 ∧
      DistinctNonces s.calls := by
  have meets : StepsMeet (step zeroHmac) NonceCondition (init 64) uplinkOnly := by
    iterate 7 refine .cons ⟨False.elim, by simp⟩ rfl ?_
    refine .cons ⟨fun _ => ⟨?_, by decide⟩, by simp⟩ rfl ?_
    · rintro c ⟨⟩
    refine .cons ⟨fun _ => ⟨?_, by decide⟩, by simp⟩ rfl trivial
    intro c hc _
    obtain rfl := List.mem_singleton.mp hc
    rfl
  exact ⟨_, rfl, rfl, pdcp_nonces_distinct zeroHmac 64 meets rfl⟩

/-- The first SDU of each direction after an attach: both under the session key and number
zero. -/
theorem pdcp_nonce_reused_across_directions :
    ¬ ∀ (hmac : Hmac) (limit : Nat) (events : List NetworkEvent) (s : Network),
      runFrom (step hmac) (init limit) events = some s →
        s.calls.Pairwise fun c d => c.key = d.key → c.seq = d.seq → c.payload = d.payload := by
  intro hclaim
  have hpair := hclaim zeroHmac 64 (attachEvents sessionKey ++
    [.ueSend .voice [1] false, .uePump, .bsSend 1 0 .voice [2], .bsSchedule 1]) _ rfl
  have hcalls := List.pairwise_pair.mp hpair
  exact absurd (hcalls rfl rfl) (by decide)

end Network

end AetherStack.Guarantees
