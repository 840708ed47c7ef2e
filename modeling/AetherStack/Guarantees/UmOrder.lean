import AetherStack.Guarantees.UmRecord
import AetherStack.Source.RlcUmPlaces

/-!
# UM order through the wrap of the sequence numbers

Runs of any length over a channel that loses PDUs. `edge` is the number of the PDU that
`vr_next_` stands for. A step is in order when what `dropped_` counts are exactly the
numbers the edge passed without having received them, and a reordering timeout resumes at
the nearest held number. The steps that can break this are named by `Meets`: a new number
that the duplicate filter still has, a number half a turn away, a far-ahead PDU that finds
held ones, and a timeout with held numbers on both sides of the wrap.
-/
namespace AetherStack.Guarantees
open Source Lib Lib.Reassembly

namespace UmRecord

variable {maxp : Nat} {s s' : UmRecord} {e : UmEvent}

/-- One past the highest number received. -/
def top (received : List Nat) : Nat := received.foldr (fun index most => max (index + 1) most) 0

/-- The number of the PDU expected next: the last one up to `top` whose low half is
`vr_next_`. -/
def edge (s : UmRecord) : Nat :=
  top s.received - (top s.received + snModulus - s.link.rx.vrNext) % snModulus

/-- The steps that keep the order. -/
def Meets (s : UmRecord) : UmEvent → Prop
  | .rxData _ index =>
    index % snModulus ∉ s.link.rx.seen ∧ s.edge ≤ index + 32768 ∧ index < s.edge + 32768 ∧
      (s.edge + s.link.rx.cfg.window.toNat ≤ index → s.link.rx.buffer = ∅)
  | .tick nowMs => s.link.rx.Due nowMs → s.link.rx.Unsplit
  | .send _ => True
  | .poll => True

instance (s : UmRecord) : (e : UmEvent) → Decidable (s.Meets e)
  | .rxData _ _ => inferInstanceAs (Decidable (_ ∧ _ ∧ _ ∧ (_ → _)))
  | .tick _ => inferInstanceAs (Decidable (_ → _))
  | .send _ => inferInstanceAs (Decidable True)
  | .poll => inferInstanceAs (Decidable True)

/-- Nothing received is skipped, and a timeout skips up to the nearest held number. -/
structure StepInOrder (s : UmRecord) (e : UmEvent) (s' : UmRecord) : Prop where
  forward : s.edge ≤ s'.edge
  skipped : s'.link.rx.dropped = s.link.rx.dropped +
    UInt32.ofNat ((Finset.Ico s.edge s'.edge).filter (· ∉ s'.received)).card
  timeout : ∀ nowMs, e = .tick nowMs → s.link.rx.Due nowMs → s.link.rx.buffer ≠ ∅ →
    ∃ resume ∈ s.link.rx.buffer,
      (∀ sn ∈ s.link.rx.buffer, s.link.rx.distance resume ≤ s.link.rx.distance sn) ∧
      s'.link.rx.dropped = s.link.rx.dropped + UInt32.ofNat (s.link.rx.distance resume) ∧
      s.edge + s.link.rx.distance resume < s'.edge

/-! ## The edge -/

theorem lt_top {received : List Nat} {index : Nat} (h : index ∈ received) :
    index < top received := by
  induction received with
  | nil => cases h
  | cons first rest ih =>
    rw [top, List.foldr_cons, ← top]
    rcases List.mem_cons.mp h with rfl | hrest
    · omega
    · have := ih hrest
      omega

theorem top_le {received : List Nat} {bound : Nat} (h : ∀ index ∈ received, index < bound) :
    top received ≤ bound := by
  induction received with
  | nil => exact Nat.zero_le _
  | cons first rest ih =>
    rw [top, List.foldr_cons, ← top]
    have hfirst := h first (by simp)
    have hrest := ih fun index hindex => h index (by simp [hindex])
    omega

/-- The receiver waits for number `edge`, which is no more than one past what came. -/
structure Expects (maxp : Nat) (s : UmRecord) (edge : Nat) : Prop where
  numbered : Numbered maxp s
  waiting : s.link.rx.Waiting maxp s.link.accepted s.link.polled s.received edge
  le_top : edge ≤ top s.received

theorem Expects.edge_eq {edge : Nat} (h : Expects maxp s edge) : s.edge = edge := by
  have htop : top s.received ≤ edge + 32768 := by
    apply top_le
    intro index hindex
    rcases Nat.lt_or_ge index edge with hlt | hge
    · omega
    · exact (h.waiting.kept index hindex hge).1
  have hle := h.le_top
  rw [UmRecord.edge, h.waiting.vrNext, snModulus]
  omega

theorem expects_init (tx : UmTx) (rx : UmRx) : Expects tx.cfg.maxPduPayload (init tx rx) 0 where
  numbered := numbered_init tx rx
  waiting := ⟨UmRx.placed_reset _ rx, by simp [init, UmLink.init, UmRx.reset]⟩
  le_top := Nat.zero_le _

/-- An advance of the receiver is an advance of the record. -/
theorem le_top_of_advances {received : List Nat} {edge edge' : Nat} {d d' : UInt32}
    (hle : edge ≤ top received) (h : UmRx.Advances received edge edge' d d') :
    edge' ≤ top received := by
  obtain ⟨resume, -, -, -, htake, hmove, -⟩ := h
  rcases hmove with rfl | hlt
  · exact hle
  · have := lt_top (htake (edge' - 1) (by omega) (by omega))
    omega

theorem top_append_le (received : List Nat) (index : Nat) :
    top received ≤ top (received ++ [index]) :=
  top_le fun _ hin => lt_top (List.mem_append_left _ hin)

/-! ## Steps -/

/-- An edge that advances over what was not received is in order. -/
theorem stepInOrder_of_advances {edge edge' : Nat} (h : Expects maxp s edge)
    (h' : Expects maxp s' edge')
    (hadv : UmRx.Advances s'.received edge edge' s.link.rx.dropped s'.link.rx.dropped)
    (htimeout : ∀ nowMs, e = .tick nowMs → s.link.rx.Due nowMs → s.link.rx.buffer ≠ ∅ →
      ∃ resume ∈ s.link.rx.buffer,
        (∀ sn ∈ s.link.rx.buffer, s.link.rx.distance resume ≤ s.link.rx.distance sn) ∧
        s'.link.rx.dropped = s.link.rx.dropped + UInt32.ofNat (s.link.rx.distance resume) ∧
        edge + s.link.rx.distance resume < edge') : StepInOrder s e s' := by
  rw [← h.edge_eq, ← h'.edge_eq] at hadv htimeout
  refine ⟨?_, hadv.dropped_eq, htimeout⟩
  obtain ⟨resume, hlo, hhi, -⟩ := hadv
  exact hlo.trans hhi

/-- One PDU that meets the condition. -/
theorem rx_advances {edge : Nat} (h : Expects maxp s edge) (nowMs : UInt32) {index : Nat}
    {seg : UInt8 × Bytes} (hseg : (segmentsOf maxp s.link.accepted)[index]? = some seg)
    (hmeets : s.Meets (.rxData nowMs index)) :
    ∃ edge', UmRx.Waiting maxp s.link.accepted s.link.polled (s.received ++ [index]) edge'
        (s.link.rx.rx nowMs (UmTx.buildPdu index seg.1 seg.2)) ∧
      UmRx.Advances (s.received ++ [index]) edge edge' s.link.rx.dropped
        (s.link.rx.rx nowMs (UmTx.buildPdu index seg.1 seg.2)).dropped := by
  obtain ⟨hnew, hbehind, hahead, hfar⟩ := hmeets
  rw [h.edge_eq] at hbehind hahead hfar
  rw [UmRx.rx_buildPdu _ nowMs (List.mem_of_getElem? hseg), if_neg hnew]
  have hmark : UmRx.Waiting maxp s.link.accepted s.link.polled s.received edge
      { s.link.rx with seen := AmRx.markSeen s.link.rx.seen (index % snModulus) } :=
    h.waiting.congr rfl rfl rfl rfl
  have hheld : (segmentsOf maxp s.link.accepted)[index]? =
      some ((⟨seg.1, seg.2⟩ : Held).fi, (⟨seg.1, seg.2⟩ : Held).payload) := hseg
  exact hmark.rxNew nowMs hheld hbehind hahead hfar

/-- A tick that leaves the receiver's relation and counters alone. -/
theorem tick_idle {edge : Nat} (h : Expects maxp s edge) {nowMs : UInt32}
    (hsame : s.link.rx.tick nowMs = s.link.rx ∨
      s.link.rx.tick nowMs = { s.link.rx with timerRunning := false })
    (hnothing : ¬ (s.link.rx.Due nowMs ∧ s.link.rx.buffer ≠ ∅))
    (hnumbered : Numbered maxp { s with link := { s.link with rx := s.link.rx.tick nowMs } }) :
    (∃ edge', Expects maxp { s with link := { s.link with rx := s.link.rx.tick nowMs } } edge') ∧
      StepInOrder s (.tick nowMs) { s with link := { s.link with rx := s.link.rx.tick nowMs } } := by
  have hwait : UmRx.Waiting maxp s.link.accepted s.link.polled s.received edge
      (s.link.rx.tick nowMs) := by
    rcases hsame with h' | h'
    · rw [h']
      exact h.waiting
    · rw [h']
      exact h.waiting.congr rfl rfl rfl rfl
  have hdropped : (s.link.rx.tick nowMs).dropped = s.link.rx.dropped := by
    rcases hsame with h' | h' <;> rw [h']
  have hnext : Expects maxp { s with link := { s.link with rx := s.link.rx.tick nowMs } } edge :=
    ⟨hnumbered, hwait, h.le_top⟩
  refine ⟨⟨edge, hnext⟩, stepInOrder_of_advances h hnext ?_ ?_⟩
  · dsimp only
    rw [hdropped]
    exact UmRx.Advances.stay _ _ _
  · intro now heq hdue hne
    obtain rfl : nowMs = now := by simpa using heq
    exact absurd ⟨hdue, hne⟩ hnothing

/-- A timeout resumes at the nearest held number unless some are beyond the wrap. -/
theorem tick_expects {edge : Nat} (h : Expects maxp s edge) (nowMs : UInt32)
    (hmeets : s.Meets (.tick nowMs))
    (hnumbered : Numbered maxp { s with link := { s.link with rx := s.link.rx.tick nowMs } }) :
    (∃ edge', Expects maxp { s with link := { s.link with rx := s.link.rx.tick nowMs } } edge') ∧
      StepInOrder s (.tick nowMs) { s with link := { s.link with rx := s.link.rx.tick nowMs } } := by
  by_cases hdue : s.link.rx.Due nowMs
  · have htick := UmRx.tick_due hdue
    cases hmin : s.link.rx.buffer.minKey? with
    | none =>
      have hempty : s.link.rx.buffer = ∅ := Std.ExtTreeMap.minKey?_eq_none_iff.mp hmin
      apply tick_idle h (.inr _) (fun hboth => hboth.2 hempty) hnumbered
      rw [htick, UmRx.onReorderTimeout, hmin]
    | some resume =>
      have hoff : UmRx.Waiting maxp s.link.accepted s.link.polled s.received edge
          { s.link.rx with timerRunning := false } := h.waiting.congr rfl rfl rfl rfl
      obtain ⟨edge', hwait, hadv, hnearest, hdropped, hpass⟩ :=
        hoff.timeout (hmeets hdue) nowMs hmin
      rw [← htick] at hwait hadv hdropped
      have hnext : Expects maxp { s with link := { s.link with rx := s.link.rx.tick nowMs } } edge' :=
        ⟨hnumbered, hwait, le_top_of_advances h.le_top hadv⟩
      refine ⟨⟨edge', hnext⟩, stepInOrder_of_advances h hnext hadv ?_⟩
      intro _ _ _ _
      exact ⟨resume, Std.ExtTreeMap.minKey?_mem hmin, hnearest, hdropped, hpass⟩
  · exact tick_idle h (.inl (UmRx.tick_not_due hdue)) (fun hboth => hdue hboth.1) hnumbered

/-- What one step that meets the condition does to the edge. -/
theorem step_expects {edge : Nat} (h : Expects maxp s edge) (hmeets : s.Meets e)
    (hstep : s.step e = some s') : (∃ edge', Expects maxp s' edge') ∧ StepInOrder s e s' := by
  have hnumbered := step_numbered h.numbered hstep
  rcases step_cases hstep with ⟨sdu, rfl, rfl⟩ | ⟨nowMs, index, pdu, rfl, hpdu, rfl⟩ |
    ⟨nowMs, rfl, rfl⟩ | ⟨rfl, rfl⟩
  · have hsegs := hnumbered.allSegmented
    obtain ⟨more, hmore⟩ := accepted_mono s sdu
    dsimp only at hsegs
    rw [← hmore] at hsegs
    have hplaced := h.waiting.toPlaced.append fun x hx => hsegs x (List.mem_append_right _ hx)
    rw [hmore] at hplaced
    have hnext : Expects maxp _ edge := ⟨hnumbered, ⟨hplaced, h.waiting.edge_free⟩, h.le_top⟩
    refine ⟨⟨edge, hnext⟩, ?_⟩
    exact stepInOrder_of_advances h hnext (UmRx.Advances.stay _ _ _) (by simp)
  · obtain ⟨seg, hseg, rfl⟩ := h.numbered.genuine _ pdu hpdu
    obtain ⟨edge', hwait, hadv⟩ := rx_advances h nowMs hseg hmeets
    have htop := le_top_of_advances (h.le_top.trans (top_append_le _ index)) hadv
    have hnext : Expects maxp _ edge' := ⟨hnumbered, hwait, htop⟩
    exact ⟨⟨edge', hnext⟩, stepInOrder_of_advances h hnext hadv (by simp)⟩
  · exact tick_expects h nowMs hmeets hnumbered
  · have hplaced := h.waiting
    have hnext : Expects maxp _ edge :=
      ⟨hnumbered, ⟨⟨hplaced.segmented, hplaced.vrNext, hplaced.edge_le, hplaced.held, hplaced.kept,
        by simpa [UmRx.poll, UmRx.reassembler] using hplaced.tracks⟩, hplaced.edge_free⟩, h.le_top⟩
    exact ⟨⟨edge, hnext⟩, stepInOrder_of_advances h hnext (UmRx.Advances.stay _ _ _) (by simp)⟩

/-- Run lemma: the receiver expects what the edge says. -/
theorem run_expects {tx : UmTx} {rx : UmRx} {events : List UmEvent}
    (meets : StepsMeet step Meets (init tx rx) events)
    (run : runFrom step (init tx rx) events = some s) :
    ∃ edge, Expects tx.cfg.maxPduPayload s edge :=
  runFrom_invariant_of_meets (fun s => ∃ edge, Expects tx.cfg.maxPduPayload s edge)
    (fun _ _ _ ⟨_, h⟩ hmeets hstep => (step_expects h hmeets hstep).1)
    ⟨0, expects_init tx rx⟩ meets run

end UmRecord

/-- Through any number of wraps, in every run whose steps meet the condition: what was
delivered is an order-preserving subsequence of what was sent, and each step of it skips
nothing that was received and no more than up to the nearest held number. -/
theorem um_order_through_wrap (tx : UmTx) (rx : UmRx) (events : List UmEvent) (s : UmRecord)
    (meets : StepsMeet UmRecord.step UmRecord.Meets (UmRecord.init tx rx) events)
    (run : runFrom UmRecord.step (UmRecord.init tx rx) events = some s) :
    (s.link.polled ++ s.link.rx.ready).Sublist s.link.accepted ∧
      ∀ e s', s.Meets e → s.step e = some s' → UmRecord.StepInOrder s e s' := by
  obtain ⟨edge, hexpects⟩ := UmRecord.run_expects meets run
  refine ⟨?_, fun e s' hmeets hstep => (UmRecord.step_expects hexpects hmeets hstep).2⟩
  have hsub := hexpects.waiting.tracks.out_sublist
  rwa [streamOf_sdus] at hsub

/-- A lost PDU, two held ones behind it and the timeout that skips it. -/
theorem um_order_through_wrap_one_lost :
    ∃ s, runFrom UmRecord.step (UmRecord.init { cfg := {} } { cfg := {} })
        [.send [1], .send [2], .send [3], .send [4], .rxData 0 0, .rxData 1 3, .rxData 2 2,
          .tick 50] = some s ∧
      (s.link.polled ++ s.link.rx.ready).Sublist s.link.accepted ∧
        ∀ e s', s.Meets e → s.step e = some s' → UmRecord.StepInOrder s e s' := by
  have hmeets : StepsMeet UmRecord.step UmRecord.Meets (UmRecord.init { cfg := {} } { cfg := {} })
      [.send [1], .send [2], .send [3], .send [4], .rxData 0 0, .rxData 1 3, .rxData 2 2,
        .tick 50] := by
    decide
  have hrun : (runFrom UmRecord.step (UmRecord.init { cfg := {} } { cfg := {} })
      [.send [1], .send [2], .send [3], .send [4], .rxData 0 0, .rxData 1 3, .rxData 2 2,
        .tick 50]).isSome := by
    decide
  obtain ⟨s, hs⟩ := Option.isSome_iff_exists.mp hrun
  exact ⟨s, hs, um_order_through_wrap _ _ _ s hmeets hs⟩

namespace UmRecord

/-- One-octet SDUs: each is one PDU. -/
private theorem segmentsOf_single (n : Nat) :
    segmentsOf 256 (List.replicate n [0]) = List.replicate n (0x00, [0]) := by
  induction n with
  | zero => rfl
  | succ n ih =>
    have hone : segmentSdu [0] 256 = [(0x00, [0])] := rfl
    rw [segmentsOf] at ih ⊢
    rw [List.replicate_succ, List.flatMap_cons, ih, hone, List.replicate_succ]
    rfl

end UmRecord

/-- PDU 65534 is lost; 65535 and 65536 (sequence number 0) are held when the timer fires.
Delivery resumes at sequence number 0, and 65535, which was received, is skipped. -/
theorem um_timeout_skips_received :
    ∃ events s s', runFrom UmRecord.step (UmRecord.init { cfg := {} } { cfg := {} }) events =
        some s ∧
      s.received = [30000, 60000, 65533, 65535, 65536] ∧
      s.step (.tick 40) = some s' ∧ ¬ UmRecord.StepInOrder s (.tick 40) s' := by
  obtain ⟨t, hsent, hgiven, hreceived, hrx⟩ := UmRecord.exists_sends (List.replicate 65537 [0])
    (UmRecord.init { cfg := {} } { cfg := {} })
  have hnumbered := UmRecord.run_numbered hsent
  have hsegments : segmentsOf 256 t.link.accepted = List.replicate 65537 (0x00, [0]) := by
    have hall : UmRecord.segmented 256 (List.replicate 65537 [0]) = List.replicate 65537 [0] := by
      rw [UmRecord.segmented, List.filter_replicate, if_pos (by decide)]
    have haccepted := hnumbered.accepted
    rw [hgiven] at haccepted
    rw [haccepted, UmRecord.init, List.nil_append, hall, UmRecord.segmentsOf_single]
  have hpdus : ∀ index ∈ [30000, 60000, 65533, 65535, 65536],
      t.link.dataSent[index]? = some (UmTx.buildPdu index 0x00 [0]) := by
    intro index hindex
    have hlt : index < 65537 := by
      simp only [List.mem_cons, List.not_mem_nil, or_false] at hindex
      omega
    have hlen : t.link.dataSent.length = 65537 := by
      rw [hnumbered.count, hsegments, List.length_replicate]
    obtain ⟨seg, hseg, hpdu⟩ := hnumbered.genuine index _
      (List.getElem?_eq_getElem (by rw [hlen]; exact hlt))
    rw [hsegments, List.getElem?_replicate, if_pos hlt] at hseg
    obtain rfl := Option.some.inj hseg
    rw [List.getElem?_eq_getElem (by rw [hlen]; exact hlt), hpdu]
  obtain ⟨s, hrun, hreceived', hrx'⟩ := UmRecord.exists_receives _ t _ hpdus
  refine ⟨_, s, _, runFrom_append_eq_some.mpr ⟨t, hsent, hrun⟩, ?_, rfl, ?_⟩
  · rw [hreceived', hreceived]
    rfl
  · intro hstep
    rw [hrx] at hrx'
    have hdue : s.link.rx.Due 40 ∧ s.link.rx.buffer ≠ ∅ := by
      rw [hrx']
      decide
    obtain ⟨resume, hmem, hnearest, hdropped, -⟩ := hstep.timeout 40 rfl hdue.1 hdue.2
    have hkeys : s.link.rx.buffer.keys = [0, 65535] := by
      rw [hrx']
      decide
    have hin : ∀ sn, sn ∈ s.link.rx.buffer ↔ sn = 0 ∨ sn = 65535 := by
      intro sn
      rw [← Std.ExtTreeMap.mem_keys, hkeys]
      simp
    have hmin : s.link.rx.buffer.minKey? = some 0 := by
      rw [Std.ExtTreeMap.minKey?_eq_some_iff_mem_and_forall]
      exact ⟨(hin 0).mpr (.inl rfl), fun sn _ => Nat.isLE_compare.mpr (Nat.zero_le sn)⟩
    have hskips : (s.link.rx.tick 40).dropped = s.link.rx.dropped + 2 := by
      have hjump : (UmRx.deliverReady
          ({ s.link.rx with timerRunning := false }.skipTo 0)).dropped = s.link.rx.dropped + 2 := by
        rw [hrx']
        decide
      rw [UmRx.tick_due hdue.1, UmRx.onReorderTimeout, hmin]
      dsimp only
      split <;> exact hjump
    have hdistance : s.link.rx.distance 0 = 2 ∧ s.link.rx.distance 65535 = 1 := by
      rw [hrx']
      decide
    have hnear := hnearest 65535 ((hin 65535).mpr (.inr rfl))
    have hsame : s.link.rx.dropped + 2 = s.link.rx.dropped +
        UInt32.ofNat (s.link.rx.distance resume) := hskips.symm.trans hdropped
    rcases (hin resume).mp hmem with rfl | rfl
    · rw [hdistance.1, hdistance.2] at hnear
      omega
    · rw [hdistance.2, hrx'] at hsame
      revert hsame
      decide

end AetherStack.Guarantees
