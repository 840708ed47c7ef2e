import AetherStack.Guarantees.AmLink
import AetherStack.Source.RlcAmInOrder

/-!
# What a cumulative acknowledgement removes

`on_status` erases every buffered number below `ack_sn` by comparing plain integers. Up
to 65536 data PDUs that is right: below the edge of a receiver everything is resolved,
and when the edge wraps to zero the STATUS acknowledges nothing. With one PDU more it is
wrong: a delayed STATUS with `ack_sn` 65535 erases the new PDU with number 0.
-/
namespace AetherStack.Guarantees
open Source Lib

def AmEvent.statusIndex : AmEvent → Option Nat
  | .rxStatus _ index => some index
  | _ => none

/-- STATUS PDUs are delivered in the order they were built, each at most once. -/
def StatusesInOrder (events : List AmEvent) : Prop :=
  (events.filterMap AmEvent.statusIndex).Pairwise (· < ·)

namespace AmLink

/-- The buffered numbers lie among fewer than `2 ^ 15` consecutive values modulo `2 ^ 16`. -/
def NarrowBuffer (s : AmLink) : Prop :=
  ∃ base width, width < 2 ^ 15 ∧ ∀ sn ∈ s.tx.txBuffer, ∃ k < width, sn = (base + k) % snModulus

/-- Whatever the STATUS removes, the receiver had accepted or given up when building it. -/
def AckSafe (s : AmLink) (nowMs : UInt32) (index : Nat) : Prop :=
  ∀ msg, s.statusSent[index]? = some msg → ∀ (sn : Nat) (pdu : Bytes),
    s.tx.txBuffer[sn]? = some pdu →
    (s.tx.onStatus nowMs msg.octets).1.txBuffer[sn]? = none →
    (∃ d, decodeData pdu = some d ∧ (d.seq, ⟨d.fi, d.payload⟩) ∈ msg.builtAt.accepted) ∨
      sn ∈ msg.builtAt.lost

/-- A run that meets the assumptions on the buffer and on the STATUS channel, about to
deliver STATUS number `index`. -/
structure AckRun (txCfg rxCfg : AmConfig) (events : List AmEvent) (nowMs : UInt32) (index : Nat)
    (s : AmLink) : Prop where
  run : runFrom step (init txCfg rxCfg) events = some s
  inOrder : StatusesInOrder (events ++ [.rxStatus nowMs index])
  narrow : Always step NarrowBuffer (init txCfg rxCfg) events

/-! ## Safe up to 65536 PDUs -/

/-- Every STATUS ever built acknowledges resolved numbers only. -/
def StatusesResolved (s : AmLink) : Prop :=
  ∀ msg ∈ s.statusSent, ∀ sn < getU16 msg.octets 1, Resolved s.segments msg.builtAt sn

/-- A step that sends no STATUS leaves those that were sent as they were. -/
theorem StatusesResolved.mono {s s' : AmLink} {e : AmEvent} (h : s.StatusesResolved)
    (hstep : s.step e = some s') (hsame : s'.statusSent = s.statusSent) :
    s'.StatusesResolved := by
  intro msg hmsg sn hsn
  obtain ⟨more, hmore⟩ := step_accepted hstep
  have hres := h msg (hsame ▸ hmsg) sn hsn
  rw [segments, step_txCfg hstep, ← hmore, segmentsOf_append]
  exact hres.append _

/-- What a STATUS acknowledges at the moment it is built has been delivered or given up. -/
theorem buildStatus_resolved {s : AmLink} (h : s.Sound) (sn : Nat)
    (hsn : sn < getU16 s.rx.buildStatus 1) : Resolved s.segments s.history sn := by
  rcases h.synced with hs | he
  · rw [getU16_buildStatus, Nat.mod_eq_of_lt hs.edge_lt] at hsn
    exact hs.resolved sn hsn
  · exact he.2 sn (Nat.lt_trans hsn (getU16_lt _ _))

/-- Induction step: a new STATUS is resolved when it is built, an old one stays so. -/
theorem step_statusesResolved {s s' : AmLink} {e : AmEvent} (hsound : s.Sound)
    (h : s.StatusesResolved) (hstep : s.step e = some s') : s'.StatusesResolved := by
  have hcases := step_cases hstep
  obtain ⟨_, _, _, -, hs'⟩ | ⟨_, _, -, -, hs'⟩ | ⟨-, rfl⟩ | ⟨_, _, _, -, -, hs'⟩ | ⟨_, -, hs'⟩ |
    ⟨_, -, hs'⟩ := hcases
  · exact h.mono hstep (by rw [hs'])
  · exact h.mono hstep (by rw [hs'])
  · intro msg hmsg
    rcases List.mem_append.mp hmsg with hold | hnew
    · exact h msg hold
    · obtain rfl := List.mem_singleton.mp hnew
      exact buildStatus_resolved hsound
  · exact h.mono hstep (by rw [hs'])
  · exact h.mono hstep (by rw [hs'])
  · exact h.mono hstep (by rw [hs'])

theorem run_statusesResolved {txCfg rxCfg : AmConfig} {events : List AmEvent} {s : AmLink}
    (run : runFrom step (init txCfg rxCfg) events = some s) (bound : s.pduCount ≤ snModulus) :
    s.Sound ∧ s.StatusesResolved :=
  runFrom_invariant_of_bound (fun s => s.Sound ∧ s.StatusesResolved)
    (fun s => s.pduCount ≤ snModulus)
    (fun _ _ _ hstep hb => Nat.le_trans (step_pduCount hstep) hb)
    (fun _ _ _ h hstep hb => ⟨step_sound h.1 hstep hb, step_statusesResolved h.1 h.2 hstep⟩)
    ⟨sound_init txCfg rxCfg, by simp [StatusesResolved, init]⟩ run bound

/-- What `on_status` removed lies below the acknowledged number. -/
theorem onStatus_removed {t : AmTx} {nowMs : UInt32} {status : Bytes} {sn : Nat} {pdu : Bytes}
    (hbefore : t.txBuffer[sn]? = some pdu)
    (hafter : (t.onStatus nowMs status).1.txBuffer[sn]? = none) : sn < getU16 status 1 := by
  rw [AmTx.onStatus_txBuffer] at hafter
  split at hafter
  · rw [hbefore] at hafter
    cases hafter
  · rw [Std.ExtTreeMap.getElem?_filter', hbefore] at hafter
    by_contra hge
    simp [hge] at hafter

/-- The half that needs the bound: with at most 65536 PDUs no STATUS frees an undelivered one. -/
theorem ackSafe_of_bound {txCfg rxCfg : AmConfig} {events : List AmEvent} {s : AmLink}
    (run : runFrom step (init txCfg rxCfg) events = some s) (bound : s.pduCount ≤ snModulus)
    (nowMs : UInt32) (index : Nat) : s.AckSafe nowMs index := by
  obtain ⟨hsound, hstatuses⟩ := run_statusesResolved run bound
  intro msg hmsg sn pdu hbefore hafter
  have hacked := onStatus_removed hbefore hafter
  rcases hstatuses msg (List.mem_of_getElem? hmsg) sn hacked with ⟨seg, hseg, hmem⟩ | hlost
  · left
    -- below the wrap the buffered PDU is the one the receiver accepted under this number
    obtain ⟨n, seg', hsn, hseg', poll, hpdu⟩ := hsound.keeps.buffered sn pdu hbefore
    have hn := (List.getElem?_eq_some_iff.mp hseg').1
    rw [Nat.mod_eq_of_lt (by unfold pduCount at bound; omega)] at hsn hpdu
    subst hsn
    obtain rfl : seg = seg' := Option.some.inj (hseg.symm.trans hseg')
    exact ⟨_, hpdu, hmem⟩
  · exact .inr hlost

/-! ## Unsafe from 65537 PDUs on -/

/-- Send `k` octets of zero, deliver all `k` PDUs from number `n` on, build two STATUS
PDUs and deliver the first of them. -/
def ackRound (n k index : Nat) : List AmEvent :=
  .send 0 (List.replicate k 0) false :: ((List.range' n k).map .rxData ++
    [.buildStatus, .buildStatus, .rxStatus 0 index])

/-- Three rounds that use up the numbers 0 to 65534, then two PDUs more. The second of
them has the sequence number 0. -/
def wrapRun : List AmEvent :=
  ackRound 0 21845 0 ++ (ackRound 21845 21845 2 ++ (ackRound 43690 21845 4 ++
    [.send 0 [7, 8] false]))

def octetConfig : AmConfig := { maxPduPayload := 1 }

/-- A state of `wrapRun`: `lo` PDUs acknowledged, `k` more sent and perhaps still in the
buffer, the first `d` of all delivered in order, `m` STATUS PDUs built. -/
structure Stage (lo k d m : Nat) (s : AmLink) : Prop where
  cfg : s.tx.cfg = octetConfig
  sent : s.segments.length = lo + k
  segmented : AllSegmented 1 s.accepted
  keeps : s.tx.Keeps s.segments
  window : ∀ sn ∈ s.tx.txBuffer, ∃ i < k, sn = (lo + i) % snModulus
  data_length : s.dataSent.length = lo + k
  data : ∀ (i : Nat) (pdu : Bytes), s.dataSent[i]? = some pdu →
    ∃ seg, s.segments[i]? = some seg ∧ Carries pdu i seg
  inOrder : s.rx.InOrder 1 s.accepted d s.history.delivered
  lost : s.history.lost = []
  statuses : s.statusSent.length = m
  no_eight : ∀ seg ∈ s.segments, 8 ∉ seg.2

theorem Stage.narrow {lo k d m : Nat} {s : AmLink} (h : Stage lo k d m s) (hk : k < 2 ^ 15) :
    s.NarrowBuffer :=
  ⟨lo, k, hk, h.window⟩

theorem Stage.segments_eq {lo k d m : Nat} {s : AmLink} (h : Stage lo k d m s) :
    s.segments = segmentsOf 1 s.accepted := by
  rw [segments, h.cfg]
  rfl

theorem Stage.empty {lo d m : Nat} {s : AmLink} (h : Stage lo 0 d m s) : s.tx.txBuffer = ∅ := by
  rw [Std.ExtTreeMap.eq_empty_iff_forall_not_mem]
  intro sn hsn
  obtain ⟨i, hi, -⟩ := h.window sn hsn
  omega

theorem stage_init : Stage 0 0 0 0 (init octetConfig {}) where
  cfg := rfl
  sent := rfl
  segmented := by simp [init, AllSegmented]
  keeps := AmTx.keeps_initial octetConfig
  window := by simp [init]
  data_length := rfl
  data := by simp [init]
  inOrder := AmRx.inOrder_initial 1 {}
  lost := rfl
  statuses := rfl
  no_eight := by simp [init, segments]

theorem Stage.maxp {lo k d m : Nat} {s : AmLink} (h : Stage lo k d m s) :
    s.tx.cfg.maxPduPayload = 1 := by
  rw [h.cfg]
  rfl

theorem Stage.nextSn_eq {lo d m : Nat} {s : AmLink} (h : Stage lo 0 d m s) (hlo : lo < snModulus) :
    s.tx.nextSn = lo := by
  rw [h.keeps.nextSn_eq, show s.segments.length = lo from h.sent, Nat.mod_eq_of_lt hlo]

/-- The PDUs of one SDU, one octet each, and the transmitter behind them. -/
def octetPdus (s : AmLink) (sdu : Bytes) : AmTx × List Bytes :=
  AmTx.txSegments { s.tx with lastProgressMs := clock 0 } (segmentSdu sdu 1)

def afterSend (s : AmLink) (sdu : Bytes) : AmLink :=
  { s with
    tx := (s.octetPdus sdu).1
    dataSent := s.dataSent ++ (s.octetPdus sdu).2
    accepted := s.accepted ++ [sdu] }

variable {lo k d m : Nat} {s : AmLink} {sdu : Bytes}

/-- An empty window takes any SDU. -/
theorem Stage.tx_eq (h : Stage lo 0 d m s) (hne : sdu ≠ []) :
    s.tx.tx 0 sdu false = s.octetPdus sdu := by
  have hroom : s.tx.txBuffer.size < s.tx.txLimit false := by
    rw [h.empty, AmTx.txLimit, h.cfg]
    decide
  rw [AmTx.tx_accepts hne hroom, h.maxp]
  rfl

theorem Stage.length_octetPdus (hlen : sdu.length < 2 ^ 64) :
    (s.octetPdus sdu).2.length = sdu.length := by
  rw [octetPdus, AmTx.length_txSegments, length_segmentSdu, segmentCount_one _ hlen]

/-- A non-empty SDU is sent as one octet a PDU. -/
theorem Stage.send_step (h : Stage lo 0 d m s) (hne : sdu ≠ []) (hlen : sdu.length < 2 ^ 64) :
    s.step (.send 0 sdu false) = some (s.afterSend sdu) := by
  have hnil : (s.octetPdus sdu).2 ≠ [] := by
    rw [← List.length_pos_iff, length_octetPdus hlen]
    exact List.length_pos_iff.mpr hne
  simp [step, h.tx_eq hne, hnil, afterSend]

theorem Stage.afterSend_segments (h : Stage lo 0 d m s) :
    (s.afterSend sdu).segments = s.segments ++ segmentSdu sdu 1 := by
  have hcfg : (s.afterSend sdu).tx.cfg = s.tx.cfg := AmTx.txSegments_cfg _ _
  rw [segments, hcfg, h.maxp, h.segments_eq]
  simp [afterSend]

/-- The new PDUs are in the buffer under their own numbers. -/
theorem Stage.afterSend_keeps (h : Stage lo 0 d m s) (hne : sdu ≠ []) (hlen : sdu.length < 2 ^ 64) :
    (s.afterSend sdu).tx.Keeps (s.afterSend sdu).segments ∧
      ∀ (i : Nat) (pdu : Bytes), (s.octetPdus sdu).2[i]? = some pdu → ∃ seg,
        (s.afterSend sdu).segments[s.segments.length + i]? = some seg ∧
          Carries pdu (s.segments.length + i) seg := by
  have hkeeps := AmTx.tx_keeps h.keeps 0 sdu false
  rw [h.tx_eq hne, h.maxp] at hkeeps
  obtain ⟨hnil, -⟩ | ⟨-, -, -, hkeeps, hnew⟩ := hkeeps
  · have := congrArg List.length hnil
    rw [length_octetPdus hlen] at this
    exact absurd (List.length_eq_zero_iff.mp this) hne
  · rw [h.afterSend_segments]
    exact ⟨hkeeps, hnew⟩

/-- With an empty buffer before, only the new numbers are in it. -/
theorem Stage.afterSend_window (h : Stage lo 0 d m s) (hlen : sdu.length < 2 ^ 64)
    (hlo : lo < snModulus) :
    ∀ sn ∈ (s.afterSend sdu).tx.txBuffer, ∃ i < sdu.length, sn = (lo + i) % snModulus := by
  intro sn hsn
  have hnext := h.nextSn_eq hlo
  rcases AmTx.txSegments_mem hsn (by simp only [hnext]; exact hlo) with hold | ⟨i, hi, rfl⟩
  · simp [h.empty] at hold
  · rw [length_segmentSdu, segmentCount_one _ hlen] at hi
    exact ⟨i, hi, by simp only [hnext]⟩

/-- Sending an SDU into an empty window. -/
theorem Stage.send (h : Stage lo 0 lo m s) (hne : sdu ≠ []) (hlen : sdu.length < 2 ^ 64)
    (hlo : lo < snModulus) (height : 8 ∉ sdu) : Stage lo sdu.length lo m (s.afterSend sdu) := by
  obtain ⟨hkeeps, hnew⟩ := h.afterSend_keeps hne hlen
  have hsent : s.segments.length = lo := h.sent
  have hdata : s.dataSent.length = lo := h.data_length
  exact {
    cfg := (AmTx.txSegments_cfg _ _).trans h.cfg
    sent := by
      rw [h.afterSend_segments, List.length_append, length_segmentSdu, segmentCount_one _ hlen,
        hsent]
    segmented := by
      intro x hx
      rcases List.mem_append.mp hx with hold | hlast
      · exact h.segmented x hold
      · rw [List.mem_singleton.mp hlast, segmentCount_one _ hlen]
        exact List.length_pos_iff.mpr hne
    keeps := hkeeps
    window := h.afterSend_window hlen hlo
    data_length := by
      simp only [afterSend, List.length_append, length_octetPdus hlen]
      omega
    data := by
      intro i pdu hpdu
      rcases Nat.lt_or_ge i s.dataSent.length with hlt | hge
      · rw [afterSend, List.getElem?_append_left hlt] at hpdu
        obtain ⟨seg, hseg, hcarries⟩ := h.data i pdu hpdu
        have hi := (List.getElem?_eq_some_iff.mp hseg).1
        exact ⟨seg, by rw [h.afterSend_segments, List.getElem?_append_left hi, hseg], hcarries⟩
      · rw [afterSend, List.getElem?_append_right hge, hdata] at hpdu
        have hi : s.segments.length + (i - lo) = i := by omega
        simpa only [hi] using hnew (i - lo) pdu hpdu
    inOrder := h.inOrder.append _
    lost := h.lost
    statuses := h.statuses
    no_eight := by
      rw [h.afterSend_segments]
      intro seg hseg
      rcases List.mem_append.mp hseg with hold | hfresh
      · exact h.no_eight seg hold
      · exact fun hb => height (segmentSdu_subset hfresh hb) }

/-- Delivering the outstanding PDUs one after the other moves the receiver only. -/
theorem Stage.deliver (count : Nat) (h : Stage lo k d m s) (hcount : d + count ≤ lo + k)
    (hk : k < 2 ^ 15) :
    ∃ s', runFrom step s ((List.range' d count).map .rxData) = some s' ∧
      Stage lo k (d + count) m s' ∧
      Always step NarrowBuffer s ((List.range' d count).map .rxData) := by
  induction count generalizing d s with
  | zero => exact ⟨s, rfl, h, h.narrow hk⟩
  | succ count ih =>
    obtain ⟨pdu, hpdu⟩ : ∃ pdu, s.dataSent[d]? = some pdu :=
      ⟨_, List.getElem?_eq_getElem (by rw [h.data_length]; omega)⟩
    obtain ⟨seg, hseg, hcarries⟩ := h.data d pdu hpdu
    have hstep : s.step (.rxData d) =
        some { s with rx := (s.rx.rx pdu).1, history := s.history.add (s.rx.rx pdu).2 } := by
      simp [step, hpdu]
    have hnext : Stage lo k (d + 1) m
        { s with rx := (s.rx.rx pdu).1, history := s.history.add (s.rx.rx pdu).2 } :=
      { h with
        inOrder := AmRx.rx_inOrder h.segmented h.inOrder hcarries (by rw [← h.segments_eq, hseg])
        lost := by simp [RxHistory.add, h.lost, AmRx.rx_lost] }
    obtain ⟨s', hrun, hstage, halways⟩ := ih hnext (by omega)
    refine ⟨s', runFrom_cons_eq_some.mpr ⟨_, hstep, hrun⟩, ?_, h.narrow hk, ?_⟩
    · rwa [show d + (count + 1) = d + 1 + count by omega]
    · intro s'' hs''
      obtain rfl := Option.some.inj (hstep.symm.trans hs'')
      exact halways

/-- A STATUS built after `d` PDUs in order acknowledges all of them and names no hole. -/
theorem Stage.status (h : Stage lo k d m s) (hd : d < snModulus) :
    getU16 s.rx.buildStatus 1 = d ∧ s.rx.buildStatus.getD 3 0 = 0 ∧
      ¬ (s.rx.buildStatus.length < 4 ∨ s.rx.buildStatus.getD 0 0 ≠ kAmDcControl) := by
  refine ⟨?_, ?_, ?_⟩
  · rw [getU16_buildStatus, h.inOrder.edge, Nat.mod_mod,
      Nat.min_eq_left (by simp only [AmRx.inOrderLimit, snModulus] at hd ⊢; omega),
      Nat.mod_eq_of_lt hd]
  · simp [AmRx.buildStatus, putU16, h.inOrder.holes]
  · simp [AmRx.buildStatus, putU16]

/-- The STATUS empties the window once everything is delivered. -/
theorem Stage.acknowledge (h : Stage lo k (lo + k) m s) (hlt : lo + k < snModulus)
    (hk : k < 2 ^ 15) :
    ∃ s', runFrom step s [.buildStatus, .buildStatus, .rxStatus 0 m] = some s' ∧
      Stage (lo + k) 0 (lo + k) (m + 2) s' ∧
      s'.statusSent[m + 1]? = some ⟨s'.rx.buildStatus, s'.history⟩ ∧
      Always step NarrowBuffer s [.buildStatus, .buildStatus, .rxStatus 0 m] := by
  obtain ⟨hack, hnack, hvalid⟩ := h.status hlt
  have hm := h.statuses
  have hempty : ∀ sn, sn ∉ (s.tx.onStatus 0 s.rx.buildStatus).1.txBuffer := by
    intro sn hsn
    rw [AmTx.onStatus_txBuffer, if_neg hvalid, hack] at hsn
    obtain ⟨hmem, hkept⟩ := Std.ExtTreeMap.mem_filter.mp hsn
    obtain ⟨i, hi, heq⟩ := h.window sn hmem
    rw [Nat.mod_eq_of_lt (by omega)] at heq
    simp at hkept
    omega
  have hsame : ∀ s' : AmLink, s'.tx = s.tx → s'.NarrowBuffer := by
    intro s' htx
    have := h.narrow hk
    rwa [NarrowBuffer, ← htx] at this
  have hfirst : (s.statusSent ++ [(⟨s.rx.buildStatus, s.history⟩ : StatusMsg)] ++
      [⟨s.rx.buildStatus, s.history⟩])[m]? = some ⟨s.rx.buildStatus, s.history⟩ := by
    rw [List.append_assoc, List.getElem?_append_right (by omega)]
    simp [hm]
  have hlast : step { s with statusSent := s.statusSent ++ [⟨s.rx.buildStatus, s.history⟩] ++
      [⟨s.rx.buildStatus, s.history⟩] } (.rxStatus 0 m) = some { s with
        tx := (s.tx.onStatus 0 s.rx.buildStatus).1
        statusSent := s.statusSent ++ [⟨s.rx.buildStatus, s.history⟩] ++
          [⟨s.rx.buildStatus, s.history⟩] } := by
    simp only [step, hfirst, Option.bind_eq_bind, Option.bind_some,
      AmTx.onStatus_no_nack hnack, List.append_nil]
  have hstage : Stage (lo + k) 0 (lo + k) (m + 2) { s with
        tx := (s.tx.onStatus 0 s.rx.buildStatus).1
        statusSent := s.statusSent ++ [⟨s.rx.buildStatus, s.history⟩] ++
          [⟨s.rx.buildStatus, s.history⟩] } := by
    refine ⟨?_, ?_, h.segmented, ?_, ?_, ?_, ?_, h.inOrder, h.lost, ?_, ?_⟩
    · rw [AmTx.onStatus_cfg, h.cfg]
    · simpa [segments] using h.sent
    · simpa [segments] using AmTx.onStatus_keeps h.keeps 0 s.rx.buildStatus
    · exact fun sn hsn => absurd hsn (hempty sn)
    · exact h.data_length
    · simpa [segments] using h.data
    · simp [hm]
    · simpa [segments] using h.no_eight
  refine ⟨_, ?_, hstage, ?_, ?_⟩
  · exact runFrom_cons_eq_some.mpr ⟨_, rfl, runFrom_cons_eq_some.mpr ⟨_, rfl,
      runFrom_cons_eq_some.mpr ⟨_, hlast, rfl⟩⟩⟩
  · rw [List.getElem?_append_right (by simp [hm])]
    simp [hm]
  · refine ⟨h.narrow hk, fun s₁ hs₁ => ?_⟩
    obtain rfl := Option.some.inj hs₁
    refine ⟨hsame _ rfl, fun s₂ hs₂ => ?_⟩
    obtain rfl := Option.some.inj hs₂
    refine ⟨hsame _ rfl, fun s₃ hs₃ => ?_⟩
    obtain rfl := Option.some.inj (hlast.symm.trans hs₃)
    exact hstage.narrow (by decide)

/-- One round ends with an empty window and leaves a spare STATUS behind. -/
theorem Stage.round {n : Nat} (h : Stage n 0 n m s) (hpos : 0 < k) (hk : k < 2 ^ 15)
    (hn : n + k < snModulus) :
    ∃ s', runFrom step s (ackRound n k m) = some s' ∧ Stage (n + k) 0 (n + k) (m + 2) s' ∧
      s'.statusSent[m + 1]? = some ⟨s'.rx.buildStatus, s'.history⟩ ∧
      Always step NarrowBuffer s (ackRound n k m) := by
  have hlen : (List.replicate k (0 : UInt8)).length = k := List.length_replicate
  have hne : List.replicate k (0 : UInt8) ≠ [] := List.length_pos_iff.mp (by omega)
  have height : (8 : UInt8) ∉ List.replicate k 0 := by
    intro hmem
    exact absurd (List.eq_of_mem_replicate hmem) (by decide)
  have hstep := h.send_step hne (by omega)
  have hsent := h.send hne (by omega) (by omega) height
  rw [hlen] at hsent
  obtain ⟨s₂, hrun₂, hstage₂, halways₂⟩ := hsent.deliver k (Nat.le_refl _) hk
  obtain ⟨s₃, hrun₃, hstage₃, hspare, halways₃⟩ := hstage₂.acknowledge hn hk
  refine ⟨s₃, ?_, hstage₃, hspare, h.narrow (by decide), ?_⟩
  · exact runFrom_cons_eq_some.mpr ⟨_, hstep, runFrom_append_eq_some.mpr ⟨s₂, hrun₂, hrun₃⟩⟩
  · intro s₁ hs₁
    obtain rfl := Option.some.inj (hstep.symm.trans hs₁)
    exact always_append hrun₂ halways₂ halways₃

/-- The three rounds of `wrapRun` and their spare STATUS. -/
theorem wrapRun_rounds : ∃ s,
    runFrom step (init octetConfig {})
        (ackRound 0 21845 0 ++ (ackRound 21845 21845 2 ++ ackRound 43690 21845 4)) = some s ∧
      Stage 65535 0 65535 6 s ∧ s.statusSent[5]? = some ⟨s.rx.buildStatus, s.history⟩ ∧
      Always step NarrowBuffer (init octetConfig {})
        (ackRound 0 21845 0 ++ (ackRound 21845 21845 2 ++ ackRound 43690 21845 4)) := by
  obtain ⟨s₁, hrun₁, hstage₁, -, halways₁⟩ :=
    stage_init.round (k := 21845) (by decide) (by decide) (by decide)
  obtain ⟨s₂, hrun₂, hstage₂, -, halways₂⟩ :=
    hstage₁.round (k := 21845) (by decide) (by decide) (by decide)
  obtain ⟨s₃, hrun₃, hstage₃, hspare, halways₃⟩ :=
    hstage₂.round (k := 21845) (by decide) (by decide) (by decide)
  exact ⟨s₃, runFrom_append_eq_some.mpr ⟨s₁, hrun₁, runFrom_append_eq_some.mpr ⟨s₂, hrun₂, hrun₃⟩⟩,
    hstage₃, hspare, always_append hrun₁ halways₁ (always_append hrun₂ halways₂ halways₃)⟩

/-- The two last PDUs of `wrapRun`: number 65535, and number 0 again. -/
theorem Stage.wrap_entry (h : Stage 65535 0 d m s) :
    ∃ pdu poll, (s.afterSend [7, 8]).tx.txBuffer[0]? = some pdu ∧
      decodeData pdu = some ⟨0x20, poll, 0, [8]⟩ := by
  have hsegs : segmentSdu [7, 8] 1 = [(0x10, [7]), (0x20, [8])] := by decide
  obtain ⟨t, ht⟩ : ∃ t : AmTx,
      t = (AmTx.txSegment { s.tx with lastProgressMs := clock 0 } (0x10, [7])).1 := ⟨_, rfl⟩
  have hwrap : t.nextSn = 0 := by
    rw [ht, AmTx.txSegment, h.nextSn_eq (by decide)]
    rfl
  have htx : (s.afterSend [7, 8]).tx = (t.txSegment (0x20, [8])).1 := by
    simp only [afterSend, octetPdus, hsegs, AmTx.txSegments, ht]
  obtain ⟨poll, hpoll⟩ := t.txSegment_carries (0x20, [8]) (by simp)
  refine ⟨(t.txSegment (0x20, [8])).2, poll, ?_, by rw [hpoll, hwrap]; rfl⟩
  rw [htx, ← hwrap]
  simp [AmTx.txSegment]

/-- A round uses one STATUS. -/
theorem statusIndex_ackRound (n k index : Nat) :
    (ackRound n k index).filterMap AmEvent.statusIndex = [index] := by
  have hdata : ((List.range' n k).map AmEvent.rxData).filterMap AmEvent.statusIndex = [] := by
    rw [List.filterMap_map]
    exact List.filterMap_eq_nil_iff.mpr fun _ _ => rfl
  rw [ackRound, List.filterMap_cons_none rfl, List.filterMap_append, hdata]
  rfl

theorem wrapRun_inOrder : StatusesInOrder (wrapRun ++ [.rxStatus 0 5]) := by
  simp only [StatusesInOrder, wrapRun, List.filterMap_append, statusIndex_ackRound]
  decide

/-- The spare STATUS of the third round erases the new PDU number 0. -/
theorem wrapRun_unsafe : ∃ s, AckRun octetConfig {} wrapRun 0 5 s ∧ s.pduCount = 65537 ∧
    ¬ s.AckSafe 0 5 := by
  obtain ⟨s, hrun, hstage, hspare, halways⟩ := wrapRun_rounds
  have hevents : wrapRun = (ackRound 0 21845 0 ++ (ackRound 21845 21845 2 ++
      ackRound 43690 21845 4)) ++ [.send 0 [7, 8] false] := by
    simp only [wrapRun, List.append_assoc]
  have hstep : s.step (.send 0 [7, 8] false) = some (s.afterSend [7, 8]) :=
    hstage.send_step (by simp) (by simp)
  refine ⟨s.afterSend [7, 8], ⟨?_, wrapRun_inOrder, ?_⟩, ?_, ?_⟩
  · rw [hevents]
    exact runFrom_append_eq_some.mpr ⟨s, hrun, runFrom_cons_eq_some.mpr ⟨_, hstep, rfl⟩⟩
  · rw [hevents]
    refine always_append hrun halways ⟨hstage.narrow (by decide), fun s' hs' => ?_⟩
    obtain rfl := Option.some.inj (hstep.symm.trans hs')
    exact ⟨65535, 2, by decide, hstage.afterSend_window (by simp) (by decide)⟩
  · rw [pduCount, hstage.afterSend_segments, List.length_append, hstage.sent]
    rfl
  · intro hsafe
    obtain ⟨pdu, poll, hpdu, hdecode⟩ := hstage.wrap_entry
    obtain ⟨hack, -, hvalid⟩ := hstage.status (by decide)
    have hremoved : ((s.afterSend [7, 8]).tx.onStatus 0 s.rx.buildStatus).1.txBuffer[0]? = none := by
      rw [AmTx.onStatus_txBuffer, if_neg hvalid, hack, Std.ExtTreeMap.getElem?_filter', hpdu]
      rfl
    rcases hsafe _ hspare 0 pdu hpdu hremoved with ⟨d, hd, hmem⟩ | hlost
    · obtain rfl := Option.some.inj (hdecode.symm.trans hd)
      -- the receiver has only seen the first PDU with that number, which has no octet 8
      have hcount : s.pduCount = 65535 := hstage.sent
      have hsynced := (run_sound hrun (by rw [hcount]; decide)).synced_of_lt (by rw [hcount]; decide)
      have hseg := (hsynced.accepted_genuine _ hmem).2
      exact hstage.no_eight _ (List.mem_of_getElem? hseg) (by simp)
    · rw [hstage.lost] at hlost
      simp at hlost

end AmLink

/-- Acknowledgements are safe in every run of at most `n` data PDUs, under the stated
assumptions on the buffer and the STATUS channel. -/
def AmLink.AckSafeUpTo (n : Nat) : Prop :=
  ∀ (txCfg rxCfg : AmConfig) (events : List AmEvent) (nowMs : UInt32) (index : Nat) (s : AmLink),
    AmLink.AckRun txCfg rxCfg events nowMs index s → s.pduCount ≤ n → s.AckSafe nowMs index

/-- They are so exactly as long as the run stays within one turn of the numbers. -/
theorem am_ack_safe_iff (n : Nat) : AmLink.AckSafeUpTo n ↔ n ≤ 65536 := by
  constructor
  · intro hsafe
    by_contra hmany
    obtain ⟨s, hrun, hcount, hunsafe⟩ := AmLink.wrapRun_unsafe
    exact hunsafe (hsafe _ _ _ _ _ s hrun (by omega))
  · intro hn txCfg rxCfg events nowMs index s hrun hcount
    exact AmLink.ackSafe_of_bound hrun.run (Nat.le_trans hcount hn) nowMs index

/-- The run with 65537 PDUs, at the last delivered STATUS. -/
theorem am_ack_erases_undelivered :
    ∃ s, AmLink.AckRun AmLink.octetConfig {} AmLink.wrapRun 0 5 s ∧ ¬ s.AckSafe 0 5 := by
  obtain ⟨s, hrun, -, hunsafe⟩ := AmLink.wrapRun_unsafe
  exact ⟨s, hrun, hunsafe⟩

end AetherStack.Guarantees
