import AetherStack.Guarantees.UmRecord

/-!
# UM over a perfect channel, for any number of SDUs

The channel hands over every PDU once and in order; `tick` and `poll` come at any moment.
Then everything given to `UmTx::tx` is delivered if and only if every SDU is cut into
segments at all, the PDUs are no more than 122880 (one turn of the sequence numbers and
the part of the second turn that the duplicate filter does not hold), and the window is
not empty unless every SDU fits one PDU. One direction follows the receiver in order, the
other counts octets: a PDU refused once is missing in whatever is delivered later.
-/
namespace AetherStack.Guarantees
open Source Lib Lib.Reassembly

namespace UmRecord

variable {maxp : Nat} {s s' : UmRecord} {e : UmEvent}

/-- So far the channel has lost, repeated and reordered nothing. -/
def Perfect (s : UmRecord) : Prop := s.received = List.range s.received.length

/-- Received once and in order, the next index is the next in the range. -/
theorem perfect_snoc {received : List Nat} {index : Nat}
    (h : received ++ [index] = List.range (received ++ [index]).length) :
    received = List.range received.length ∧ index = received.length := by
  rw [List.length_append, List.length_singleton, List.range_succ] at h
  obtain ⟨hinit, hlast⟩ := List.append_inj' h rfl
  exact ⟨hinit, List.singleton_inj.mp hlast⟩

/-- A channel that was not perfect does not become so. -/
theorem step_perfect (hstep : s.step e = some s') (h : s'.Perfect) : s.Perfect := by
  rcases step_cases hstep with ⟨sdu, -, rfl⟩ | ⟨nowMs, index, pdu, -, -, rfl⟩ | ⟨nowMs, -, rfl⟩ |
    ⟨-, rfl⟩
  · exact h
  · exact (perfect_snoc h).1
  · exact h
  · exact h

/-- What a receiver may have in hand after the first `k` PDUs, each weighed by `weight`. -/
def credit (weight : UInt8 × Bytes → Nat) (maxp : Nat) (accepted : List Bytes) (k : Nat) : Nat :=
  (((segmentsOf maxp accepted).take k).map weight).sum

def payloadOctets (seg : UInt8 × Bytes) : Nat := seg.2.length

def wholeOctets (seg : UInt8 × Bytes) : Nat :=
  if fiKind seg.1 = .complete then seg.2.length else 0

theorem credit_succ {weight : UInt8 × Bytes → Nat} {seg : UInt8 × Bytes} {accepted : List Bytes}
    {k : Nat} (hseg : (segmentsOf maxp accepted)[k]? = some seg) :
    credit weight maxp accepted (k + 1) = credit weight maxp accepted k + weight seg := by
  simp [credit, List.take_add_one, hseg]

/-- What is credited stays credited. -/
theorem credit_mono {weight : UInt8 × Bytes → Nat} {accepted later : List Bytes} {k : Nat}
    (hk : k ≤ (segmentsOf maxp accepted).length) (hlater : accepted <+: later) :
    credit weight maxp later k = credit weight maxp accepted k := by
  obtain ⟨more, rfl⟩ := hlater
  rw [credit, credit, segmentsOf_append, List.take_append_of_le_length hk]

/-! ## Octets -/

variable {sdus : List Bytes}

/-- What all PDUs carry is what was accepted. -/
theorem sum_payloadOctets (hsegs : AllSegmented maxp sdus) :
    ((segmentsOf maxp sdus).map payloadOctets).sum = sdus.flatten.length := by
  induction sdus with
  | nil => rfl
  | cons sdu rest ih =>
    have hone : ((segmentSdu sdu maxp).map payloadOctets).sum = sdu.length := by
      have hpay := (segmentSdu_segmented sdu maxp (hsegs sdu (by simp))).payloads_eq
      have hlen := congrArg List.length hpay
      have hweight : payloadOctets = fun seg => seg.2.length := rfl
      rw [hweight]
      simpa [payloads, tagged, List.flatMap_map, List.length_flatMap, Function.comp_def] using hlen
    have hrest := ih (fun x hx => hsegs x (by simp [hx]))
    simp only [segmentsOf, List.flatMap_cons, List.map_append, List.sum_append, List.flatten_cons,
      List.length_append] at hrest ⊢
    omega

/-- A PDU with a whole SDU is the only one of that SDU. -/
theorem sum_wholeOctets (sdu : Bytes) (maxp : Nat) :
    ((segmentSdu sdu maxp).map wholeOctets).sum =
      if segmentCount sdu.length maxp = 1 then sdu.length else 0 := by
  by_cases hone : segmentCount sdu.length maxp = 1
  · simp [segmentSdu, hone, segmentFi, segmentPayload, wholeOctets, fiKind, fiMask]
  · rw [if_neg hone]
    apply List.sum_eq_zero
    intro x hx
    obtain ⟨seg, hseg, rfl⟩ := List.mem_map.mp hx
    obtain ⟨i, hi, rfl⟩ := List.mem_map.mp hseg
    have hcount := List.mem_range.mp hi
    have hmany : segmentCount sdu.length maxp > 1 := by omega
    have hkind : fiKind (segmentFi (segmentCount sdu.length maxp) i) ≠ .complete := by
      unfold segmentFi
      rw [if_pos hmany]
      split
      · decide
      · split <;> decide
    simp [wholeOctets, hkind]

/-- Octets known to be missing: one at least once PDU 122880 has been refused. -/
def missing (k : Nat) : Nat := if AmRx.inOrderLimit < k then 1 else 0

structure Accounted (maxp : Nat) (s : UmRecord) : Prop where
  numbered : Numbered maxp s
  count : s.received.length ≤ s.link.dataSent.length
  seen : AmRx.SeenWindow s.received.length s.link.rx.seen
  within : ∃ c, s.link.rx.Within s.link.polled c ∧
    c + missing s.received.length ≤ credit payloadOctets maxp s.link.accepted s.received.length

theorem accounted_init (tx : UmTx) (rx : UmRx) :
    Accounted tx.cfg.maxPduPayload (init tx rx) where
  numbered := numbered_init tx rx
  count := Nat.le_refl _
  seen := ⟨by simp [init, UmLink.init, UmRx.reset], by simp [init, UmLink.init, UmRx.reset]⟩
  within := ⟨0, UmRx.within_reset rx, by simp [init, missing]⟩

/-- The filter refuses PDU number 122880, and possibly others, and lets in the rest. -/
theorem rx_within (h : Accounted maxp s) (nowMs : UInt32) {seg : UInt8 × Bytes}
    (hseg : (segmentsOf maxp s.link.accepted)[s.received.length]? = some seg) :
    ∃ c, (s.link.rx.rx nowMs (UmTx.buildPdu s.received.length seg.1 seg.2)).Within
        s.link.polled c ∧
      c + missing (s.received.length + 1) ≤
        credit payloadOctets maxp s.link.accepted (s.received.length + 1) := by
  obtain ⟨c, hwithin, hle⟩ := h.within
  have hmem := List.mem_of_getElem? hseg
  have hne := segmentsOf_payload_ne_nil hmem
  have hpos : 0 < payloadOctets seg := List.length_pos_iff.mpr hne
  rw [UmRx.rx_buildPdu _ nowMs hmem, credit_succ hseg]
  by_cases hold : s.received.length % snModulus ∈ s.link.rx.seen
  · rw [if_pos hold]
    refine ⟨c, ⟨hwithin.edge, hwithin.held, hwithin.ready, hwithin.octets⟩, ?_⟩
    unfold missing at hle ⊢
    split at hle <;> split <;> omega
  · rw [if_neg hold]
    have hin : ¬ s.received.length = AmRx.inOrderLimit := by
      intro heq
      apply hold
      rw [(UmRx.seen_next h.seen).1, heq]
      decide
    have hmark : UmRx.Within s.link.polled c
        { s.link.rx with seen := AmRx.markSeen s.link.rx.seen (s.received.length % snModulus) } :=
      ⟨hwithin.edge, hwithin.held, hwithin.ready, hwithin.octets⟩
    have hheld : (⟨seg.1, seg.2⟩ : Held).payload ≠ [] := hne
    refine ⟨c + payloadOctets seg,
      hmark.rxNew nowMs (Nat.mod_lt s.received.length (by decide)) hheld, ?_⟩
    unfold missing at hle ⊢
    split at hle <;> split <;> omega

/-- The duplicate filter holds the last numbers that were received. -/
theorem rx_seen (h : Accounted maxp s) (nowMs : UInt32) {seg : UInt8 × Bytes}
    (hseg : (segmentsOf maxp s.link.accepted)[s.received.length]? = some seg) :
    AmRx.SeenWindow (s.received.length + 1)
      (s.link.rx.rx nowMs (UmTx.buildPdu s.received.length seg.1 seg.2)).seen := by
  obtain ⟨hiff, hrefused, hfresh⟩ := UmRx.seen_next h.seen
  rw [UmRx.rx_buildPdu _ nowMs (List.mem_of_getElem? hseg)]
  split
  · rename_i hold
    exact hrefused (hiff.mp hold)
  · rename_i hnew
    rw [(UmRx.rxNew_kept _ _ _ _).2]
    exact hfresh (fun hr => hnew (hiff.mpr hr))

/-- Step lemma: the octets received are delivered, held or counted as refused. -/
theorem step_accounted (h : Accounted maxp s) (hstep : s.step e = some s')
    (hperfect : s'.Perfect) : Accounted maxp s' := by
  have hnumbered := step_numbered h.numbered hstep
  rcases step_cases hstep with ⟨sdu, -, rfl⟩ | ⟨nowMs, index, pdu, -, hpdu, rfl⟩ |
    ⟨nowMs, -, rfl⟩ | ⟨-, rfl⟩
  · have hsame := @credit_mono maxp payloadOctets _ _ _ (h.numbered.count ▸ h.count)
      (accepted_mono s sdu)
    refine ⟨hnumbered, ?_, h.seen, ?_⟩
    · have := h.count
      simp
      omega
    · obtain ⟨c, hwithin, hle⟩ := h.within
      rw [← hsame] at hle
      exact ⟨c, hwithin, hle⟩
  · obtain rfl := (perfect_snoc hperfect).2
    obtain ⟨seg, hseg, rfl⟩ := h.numbered.genuine _ pdu hpdu
    have hlt := (List.getElem?_eq_some_iff.mp hpdu).1
    refine ⟨hnumbered, by simpa using hlt, ?_, ?_⟩
    · simpa using rx_seen h nowMs hseg
    · simpa using rx_within h nowMs hseg
  · obtain ⟨c, hwithin, hle⟩ := h.within
    refine ⟨hnumbered, h.count, ?_, c, hwithin.tick nowMs, hle⟩
    dsimp only
    rw [(s.link.rx.tick_kept nowMs).2]
    exact h.seen
  · obtain ⟨c, hwithin, hle⟩ := h.within
    exact ⟨hnumbered, h.count, h.seen, c, hwithin.poll, hle⟩

/-- The octets delivered through an empty window. -/
structure Jumping (maxp : Nat) (s : UmRecord) : Prop where
  numbered : Numbered maxp s
  count : s.received.length ≤ s.link.dataSent.length
  windowless : s.link.rx.Windowless s.link.polled
    (credit wholeOctets maxp s.link.accepted s.received.length)

theorem jumping_init (tx : UmTx) (rx : UmRx) (hwindow : rx.cfg.window = 0) :
    Jumping tx.cfg.maxPduPayload (init tx rx) where
  numbered := numbered_init tx rx
  count := Nat.le_refl _
  windowless := ⟨hwindow, rfl, rfl, by simp [init, UmLink.init, UmRx.reset]⟩

/-- Step lemma for an empty window: every PDU is taken by a jump. -/
theorem step_jumping (h : Jumping maxp s) (hstep : s.step e = some s') (hperfect : s'.Perfect) :
    Jumping maxp s' := by
  have hnumbered := step_numbered h.numbered hstep
  rcases step_cases hstep with ⟨sdu, -, rfl⟩ | ⟨nowMs, index, pdu, -, hpdu, rfl⟩ |
    ⟨nowMs, -, rfl⟩ | ⟨-, rfl⟩
  · have hsame := @credit_mono maxp wholeOctets _ _ _ (h.numbered.count ▸ h.count)
      (accepted_mono s sdu)
    have hcount := h.count
    have hwindowless := h.windowless
    rw [← hsame] at hwindowless
    exact ⟨hnumbered, by simp; omega, hwindowless⟩
  · obtain rfl := (perfect_snoc hperfect).2
    obtain ⟨seg, hseg, rfl⟩ := h.numbered.genuine _ pdu hpdu
    have hlt := (List.getElem?_eq_some_iff.mp hpdu).1
    refine ⟨hnumbered, by simpa using hlt, ?_⟩
    have hw := h.windowless
    rw [List.length_append, List.length_singleton]
    dsimp only
    rw [UmRx.rx_buildPdu _ nowMs (List.mem_of_getElem? hseg), credit_succ hseg]
    split
    · exact ⟨hw.window, hw.nothing, hw.stopped, hw.octets.trans (Nat.le_add_right _ _)⟩
    · have hmark : UmRx.Windowless s.link.polled _ { s.link.rx with
          seen := AmRx.markSeen s.link.rx.seen (s.received.length % snModulus) } :=
        ⟨hw.window, hw.nothing, hw.stopped, hw.octets⟩
      exact hmark.rxNew nowMs _ ⟨seg.1, seg.2⟩
  · refine ⟨hnumbered, h.count, ?_⟩
    dsimp only
    rw [h.windowless.tick nowMs]
    exact h.windowless
  · exact ⟨hnumbered, h.count, h.windowless.poll⟩

/-! ## In order -/

/-- When everything given is delivered: a condition on the SDUs and the configuration. -/
structure WithinReach (maxp : Nat) (window : UInt16) (given : List Bytes) : Prop where
  segmented : AllSegmented maxp given
  pdus : (given.map fun sdu => segmentCount sdu.length maxp).sum ≤ AmRx.inOrderLimit
  window : window = 0 → ∀ sdu ∈ given, segmentCount sdu.length maxp = 1

/-- What is within reach at the end was so all along. -/
theorem WithinReach.of_append {window : UInt16} {given more : List Bytes}
    (h : WithinReach maxp window (given ++ more)) : WithinReach maxp window given where
  segmented := fun sdu hsdu => h.segmented sdu (List.mem_append_left _ hsdu)
  pdus := by
    have hpdus := h.pdus
    rw [List.map_append, List.sum_append] at hpdus
    omega
  window := fun hzero sdu hsdu => h.window hzero sdu (List.mem_append_left _ hsdu)

/-- Nothing given is refused by the transmitter. -/
theorem WithinReach.segmented_eq {window : UInt16} {given : List Bytes}
    (h : WithinReach maxp window given) : UmRecord.segmented maxp given = given := by
  rw [UmRecord.segmented, List.filter_eq_self]
  intro sdu hsdu
  simpa using h.segmented sdu hsdu

structure Sequential (maxp : Nat) (window : UInt16) (s : UmRecord) : Prop where
  numbered : Numbered maxp s
  window : s.link.rx.cfg.window = window
  count : s.received.length ≤ s.link.dataSent.length
  seen : AmRx.SeenWindow s.received.length s.link.rx.seen
  inOrder : s.link.rx.InOrder maxp s.link.accepted s.link.polled s.received.length

theorem sequential_init (tx : UmTx) (rx : UmRx) :
    Sequential tx.cfg.maxPduPayload rx.cfg.window (init tx rx) where
  numbered := numbered_init tx rx
  window := rfl
  count := Nat.le_refl _
  seen := ⟨by simp [init, UmLink.init, UmRx.reset], by simp [init, UmLink.init, UmRx.reset]⟩
  inOrder := ⟨rfl, rfl, rfl, Tracks.start _ _, fun _ => rfl⟩

/-- A segment of an SDU that fits one PDU is that SDU. -/
theorem segment_complete {seg : UInt8 × Bytes} (hseg : seg ∈ segmentsOf maxp sdus)
    (hone : ∀ sdu ∈ sdus, segmentCount sdu.length maxp = 1) : fiKind seg.1 = .complete := by
  obtain ⟨sdu, hsdu, hin⟩ := List.mem_flatMap.mp hseg
  obtain ⟨i, -, rfl⟩ := List.mem_map.mp hin
  simp [hone sdu hsdu, segmentFi, fiKind, fiMask]

/-- Within reach the next PDU is the next in order. -/
theorem rx_sequential {window : UInt16} (h : Sequential maxp window s)
    (hreach : WithinReach maxp window s.given) (nowMs : UInt32) {seg : UInt8 × Bytes}
    (hseg : (segmentsOf maxp s.link.accepted)[s.received.length]? = some seg)
    (hlt : s.received.length < s.link.dataSent.length) :
    let r := s.link.rx.rx nowMs (UmTx.buildPdu s.received.length seg.1 seg.2)
    r.cfg = s.link.rx.cfg ∧ AmRx.SeenWindow (s.received.length + 1) r.seen ∧
      r.InOrder maxp s.link.accepted s.link.polled (s.received.length + 1) := by
  have hmem := List.mem_of_getElem? hseg
  have hfresh : ¬ UmRx.Refused s.received.length := by
    have hpdus := hreach.pdus
    rw [← h.numbered.dataSent_length] at hpdus
    unfold UmRx.Refused
    simp only [AmRx.inOrderLimit, snModulus, kMaxSeen] at hpdus ⊢
    omega
  have hnext := UmRx.seen_next h.seen
  have hnew : s.received.length % snModulus ∉ s.link.rx.seen := fun hold => hfresh (hnext.1.mp hold)
  have hmark : UmRx.InOrder maxp s.link.accepted s.link.polled s.received.length
      { s.link.rx with seen := AmRx.markSeen s.link.rx.seen (s.received.length % snModulus) } :=
    ⟨h.inOrder.edge, h.inOrder.nothing, h.inOrder.stopped, h.inOrder.tracks, h.inOrder.whole⟩
  have hheld : (segmentsOf maxp s.link.accepted)[s.received.length]? =
      some ((⟨seg.1, seg.2⟩ : Held).fi, (⟨seg.1, seg.2⟩ : Held).payload) := hseg
  have hkept := UmRx.rxNew_kept { s.link.rx with
    seen := AmRx.markSeen s.link.rx.seen (s.received.length % snModulus) } nowMs
    (s.received.length % snModulus) ⟨seg.1, seg.2⟩
  dsimp only
  rw [UmRx.rx_buildPdu _ nowMs hmem, if_neg hnew]
  refine ⟨hkept.1, ?_, ?_⟩
  · rw [hkept.2]
    exact hnext.2.2 hfresh
  · apply UmRx.rxNew_inOrder hmark h.numbered.allSegmented nowMs hheld
    intro hzero
    apply segment_complete hmem
    rw [h.numbered.accepted, hreach.segmented_eq]
    exact hreach.window (h.window.symm.trans hzero)

/-- Step lemma: the receiver follows in order. -/
theorem step_sequential {window : UInt16} (h : Sequential maxp window s)
    (hstep : s.step e = some s') (hperfect : s'.Perfect)
    (hreach : WithinReach maxp window s'.given) : Sequential maxp window s' := by
  have hnumbered := step_numbered h.numbered hstep
  rcases step_cases hstep with ⟨sdu, -, rfl⟩ | ⟨nowMs, index, pdu, -, hpdu, rfl⟩ |
    ⟨nowMs, -, rfl⟩ | ⟨-, rfl⟩
  · obtain ⟨more, hmore⟩ := accepted_mono s sdu
    have hcount := h.count
    have htracks := h.inOrder.tracks.append (streamOf maxp more)
    rw [← streamOf_append, hmore] at htracks
    exact ⟨hnumbered, h.window, by simp; omega, h.seen,
      ⟨h.inOrder.edge, h.inOrder.nothing, h.inOrder.stopped, htracks, h.inOrder.whole⟩⟩
  · obtain rfl := (perfect_snoc hperfect).2
    obtain ⟨seg, hseg, rfl⟩ := h.numbered.genuine _ pdu hpdu
    have hlt := (List.getElem?_eq_some_iff.mp hpdu).1
    obtain ⟨hcfg, hseen, horder⟩ := rx_sequential h hreach nowMs hseg hlt
    refine ⟨hnumbered, ?_, by simpa using hlt, by simpa using hseen, by simpa using horder⟩
    dsimp only
    rw [hcfg]
    exact h.window
  · have hidle := UmRx.tick_inOrder h.inOrder nowMs
    refine ⟨hnumbered, ?_, h.count, ?_, ?_⟩
    · dsimp only
      rw [hidle]
      exact h.window
    · dsimp only
      rw [hidle]
      exact h.seen
    · dsimp only
      rw [hidle]
      exact h.inOrder
  · refine ⟨hnumbered, h.window, h.count, h.seen, h.inOrder.edge, h.inOrder.nothing,
      h.inOrder.stopped, ?_, h.inOrder.whole⟩
    simpa [UmRx.poll, UmRx.reassembler] using h.inOrder.tracks

/-! ## Runs -/

variable {tx : UmTx} {rx : UmRx} {events : List UmEvent}

/-- Every PDU sent has been received once, in order. -/
def Lossless (s : UmRecord) : Prop := s.received = List.range s.link.dataSent.length

instance (s : UmRecord) : Decidable s.Lossless := inferInstanceAs (Decidable (_ = _))

theorem Lossless.length (h : s.Lossless) : s.received.length = s.link.dataSent.length := by
  have hlen := congrArg List.length h
  rwa [List.length_range] at hlen

theorem Lossless.perfect (h : s.Lossless) : s.Perfect := by
  unfold Perfect
  rw [h.length]
  exact h

theorem run_accounted (run : runFrom step (init tx rx) events = some s) (hs : s.Lossless) :
    Accounted tx.cfg.maxPduPayload s :=
  runFrom_invariant_of_bound (Accounted tx.cfg.maxPduPayload) Perfect
    (fun _ _ _ hstep h => step_perfect hstep h)
    (fun _ _ _ h hstep hp => step_accounted h hstep hp) (accounted_init tx rx) run hs.perfect

theorem run_jumping (hwindow : rx.cfg.window = 0)
    (run : runFrom step (init tx rx) events = some s) (hs : s.Lossless) :
    Jumping tx.cfg.maxPduPayload s :=
  runFrom_invariant_of_bound (Jumping tx.cfg.maxPduPayload) Perfect
    (fun _ _ _ hstep h => step_perfect hstep h)
    (fun _ _ _ h hstep hp => step_jumping h hstep hp) (jumping_init tx rx hwindow) run hs.perfect

theorem step_given (hstep : s.step e = some s') : s.given <+: s'.given := by
  rcases step_cases hstep with ⟨sdu, -, rfl⟩ | ⟨nowMs, index, pdu, -, -, rfl⟩ | ⟨nowMs, -, rfl⟩ |
    ⟨-, rfl⟩
  · exact List.prefix_append _ _
  all_goals exact List.prefix_refl _

theorem run_sequential (run : runFrom step (init tx rx) events = some s) (hs : s.Lossless)
    (hreach : WithinReach tx.cfg.maxPduPayload rx.cfg.window s.given) :
    Sequential tx.cfg.maxPduPayload rx.cfg.window s := by
  refine runFrom_invariant_of_bound (Sequential tx.cfg.maxPduPayload rx.cfg.window)
    (fun s => s.Perfect ∧ WithinReach tx.cfg.maxPduPayload rx.cfg.window s.given) ?_ ?_
    (sequential_init tx rx) run ⟨hs.perfect, hreach⟩
  · intro s e s' hstep h
    obtain ⟨more, hmore⟩ := step_given hstep
    exact ⟨step_perfect hstep h.1, (hmore ▸ h.2).of_append⟩
  · exact fun _ _ _ h hstep hb => step_sequential h hstep hb.1 hb.2

/-- At the end of the stream the credit is what the weights of all segments add up to. -/
theorem credit_all {weight : UInt8 × Bytes → Nat} (h : Numbered maxp s) (hs : s.Lossless) :
    credit weight maxp s.link.accepted s.received.length =
      ((segmentsOf maxp s.link.accepted).map weight).sum := by
  rw [credit, hs.length, h.count, List.take_length]

/-- A filter that loses no octet keeps every list that has one. -/
private theorem all_of_filter_octets {p : Bytes → Bool} {l : List Bytes} (hne : ∀ x ∈ l, x ≠ [])
    (h : l.flatten.length ≤ (l.filter p).flatten.length) : ∀ x ∈ l, p x = true := by
  induction l with
  | nil => simp
  | cons x rest ih =>
    have hx := List.length_pos_iff.mpr (hne x (by simp))
    have hrest : (rest.filter p).flatten.length ≤ rest.flatten.length :=
      (List.filter_sublist.flatten).length_le
    rw [List.filter_cons] at h
    split at h
    · rename_i hpx
      simp only [List.flatten_cons, List.length_append, Nat.add_le_add_iff_left] at h
      intro y hy
      rcases List.mem_cons.mp hy with rfl | hy
      · exact hpx
      · exact ih (fun z hz => hne z (by simp [hz])) h y hy
    · rw [List.flatten_cons, List.length_append] at h
      omega

/-- The octets of the SDUs that fit one PDU. -/
private theorem one_of_wholeOctets {maxp : Nat} {l : List Bytes} (hne : ∀ x ∈ l, x ≠ [])
    (h : l.flatten.length ≤ ((segmentsOf maxp l).map wholeOctets).sum) :
    ∀ x ∈ l, segmentCount x.length maxp = 1 := by
  have hle : ∀ l : List Bytes, ((segmentsOf maxp l).map wholeOctets).sum ≤ l.flatten.length := by
    intro l
    induction l with
    | nil => exact Nat.le_refl _
    | cons x rest ih =>
      have hx := sum_wholeOctets x maxp
      simp only [segmentsOf, List.flatMap_cons, List.map_append, List.sum_append,
        List.flatten_cons, List.length_append] at ih ⊢
      split at hx <;> omega
  induction l with
  | nil => simp
  | cons x rest ih =>
    have hpos := List.length_pos_iff.mpr (hne x (by simp))
    have hx := sum_wholeOctets x maxp
    have hrest := hle rest
    simp only [segmentsOf, List.flatMap_cons, List.map_append, List.sum_append,
      List.flatten_cons, List.length_append] at h hrest
    split at hx
    · rename_i hone
      intro y hy
      rcases List.mem_cons.mp hy with rfl | hy
      · exact hone
      · exact ih (fun z hz => hne z (by simp [hz])) (by rw [segmentsOf]; omega) y hy
    · omega

/-- Everything delivered and nothing missing: the accounts leave only the stated inputs. -/
theorem withinReach_of_complete (run : runFrom step (init tx rx) events = some s)
    (hs : s.Lossless) (hall : s.link.polled ++ s.link.rx.ready = s.given) :
    WithinReach tx.cfg.maxPduPayload rx.cfg.window s.given := by
  have h := run_accounted run hs
  obtain ⟨c, hwithin, hle⟩ := h.within
  have hne : ∀ x ∈ s.given, x ≠ [] := by
    rw [← hall]
    exact hwithin.ready
  have hoctets : s.given.flatten.length ≤ c := by
    have hcredit := hwithin.octets
    unfold UmRx.octets at hcredit
    rw [← hall, List.flatten_append, List.length_append]
    omega
  rw [credit_all h.numbered hs, sum_payloadOctets h.numbered.allSegmented,
    h.numbered.accepted] at hle
  have hfilter : (segmented tx.cfg.maxPduPayload s.given).flatten.length ≤
      s.given.flatten.length := (List.filter_sublist.flatten).length_le
  have hsegmented : AllSegmented tx.cfg.maxPduPayload s.given := by
    intro sdu hsdu
    simpa using all_of_filter_octets hne (show s.given.flatten.length ≤
      (s.given.filter fun sdu => 0 < segmentCount sdu.length tx.cfg.maxPduPayload).flatten.length
      by unfold segmented at hle; omega) sdu hsdu
  refine ⟨hsegmented, ?_, ?_⟩
  · rw [← h.numbered.dataSent_length, ← hs.length]
    unfold missing at hle
    split at hle <;> omega
  · intro hzero
    have hj := run_jumping hzero run hs
    have hw := hj.windowless.octets
    rw [credit_all hj.numbered hs, hall, hj.numbered.accepted, segmented] at hw
    rw [List.filter_eq_self.mpr (fun sdu hsdu => by simpa using hsegmented sdu hsdu)] at hw
    exact one_of_wholeOctets hne hw

/-- The half that follows the receiver: within reach everything is delivered. -/
theorem complete_of_withinReach (run : runFrom step (init tx rx) events = some s)
    (hs : s.Lossless) (hreach : WithinReach tx.cfg.maxPduPayload rx.cfg.window s.given) :
    s.link.polled ++ s.link.rx.ready = s.given := by
  have h := run_sequential run hs hreach
  have htracks := h.inOrder.tracks
  have hend : s.received.length =
      (streamOf tx.cfg.maxPduPayload s.link.accepted).segments.length := by
    rw [hs.length, h.numbered.count, streamOf_segments, tagged, List.length_map]
  rw [hend] at htracks
  rw [htracks.out_eq trivial h.numbered.allSegmented.wellFormed, streamOf_sdus,
    h.numbered.accepted, hreach.segmented_eq]

/-- A run that sends the given SDUs and then hands over every PDU in order. -/
theorem exists_lossless (tx : UmTx) (rx : UmRx) (given : List Bytes) :
    ∃ events s, runFrom step (init tx rx) events = some s ∧ s.Lossless ∧ s.given = given := by
  have hreceive : ∀ (n : Nat) (s : UmRecord), n ≤ s.link.dataSent.length → s.received = [] →
      ∃ t, runFrom step s ((List.range n).map (.rxData 0)) = some t ∧
        t.received = List.range n ∧ t.given = s.given ∧ t.link.dataSent = s.link.dataSent := by
    intro n
    induction n with
    | zero => exact fun s _ hnil => ⟨s, rfl, by simp [hnil], rfl, rfl⟩
    | succ n ih =>
      intro s hn hnil
      obtain ⟨t, hrun, hreceived, hgiven, hsent⟩ := ih s (by omega) hnil
      obtain ⟨pdu, hpdu⟩ : ∃ pdu, t.link.dataSent[n]? = some pdu := by
        rw [hsent]
        exact ⟨_, List.getElem?_eq_getElem hn⟩
      refine ⟨t.note { t.link with rx := t.link.rx.rx 0 pdu } (.rxData 0 n), ?_, ?_, hgiven, hsent⟩
      · rw [List.range_succ, List.map_append]
        refine runFrom_append_eq_some.mpr ⟨t, hrun, runFrom_cons_eq_some.mpr ⟨_, ?_, rfl⟩⟩
        simp [step, UmLink.step, hpdu]
      · rw [List.range_succ, ← hreceived]
        rfl
  obtain ⟨t, hrun, hgiven, hreceived, -⟩ := exists_sends given (init tx rx)
  obtain ⟨u, hrun', hreceived', hgiven', hsent⟩ :=
    hreceive t.link.dataSent.length t (Nat.le_refl _) hreceived
  refine ⟨_, u, runFrom_append_eq_some.mpr ⟨t, hrun, hrun'⟩, ?_, hgiven'.trans hgiven⟩
  rw [Lossless, hreceived', hsent]

end UmRecord

/-- A perfect channel and any number of SDUs: everything given is delivered, once and in
order, exactly for the inputs that `WithinReach` names. -/
theorem um_long_run_complete_iff (tx : UmTx) (rx : UmRx) (events : List UmEvent) (s : UmRecord)
    (run : runFrom UmRecord.step (UmRecord.init tx rx) events = some s)
    (channel : s.received = List.range s.link.dataSent.length) :
    s.link.polled ++ s.link.rx.ready = s.given ↔
      UmRecord.WithinReach tx.cfg.maxPduPayload rx.cfg.window s.given :=
  ⟨UmRecord.withinReach_of_complete run channel, UmRecord.complete_of_withinReach run channel⟩

/-- Two SDUs, the first one in two segments, with a tick and a poll between the PDUs. -/
theorem um_long_run_complete_iff_two_sdus :
    ∃ s, runFrom UmRecord.step
        (UmRecord.init { cfg := { maxPduPayload := 2 } } { cfg := {} })
        [.send [1, 2, 3], .rxData 0 0, .send [4], .tick 50, .rxData 60 1, .poll, .rxData 70 2] =
          some s ∧
      s.received = List.range s.link.dataSent.length ∧
      (s.link.polled ++ s.link.rx.ready = s.given ↔ UmRecord.WithinReach 2 64 s.given) := by
  have hstate : (runFrom UmRecord.step
      (UmRecord.init { cfg := { maxPduPayload := 2 } } { cfg := {} })
      [.send [1, 2, 3], .rxData 0 0, .send [4], .tick 50, .rxData 60 1, .poll, .rxData 70 2]).map
        (fun s => (s.received, s.link.dataSent.length)) = some ([0, 1, 2], 3) := by
    decide
  obtain ⟨s, hs, hval⟩ := Option.map_eq_some_iff.mp hstate
  simp only [Prod.mk.injEq] at hval
  have hchannel : s.received = List.range s.link.dataSent.length := by
    rw [hval.1, hval.2]
    rfl
  exact ⟨s, hs, hchannel, um_long_run_complete_iff _ _ _ s hs hchannel⟩

/-- One SDU too many, with the default configuration: number 57344 comes round while the
filter still has it from the first turn. -/
theorem um_long_run_loses_sdu :
    ∃ events s, runFrom UmRecord.step (UmRecord.init { cfg := {} } { cfg := {} }) events = some s ∧
      s.received = List.range s.link.dataSent.length ∧ s.given = List.replicate 122881 [0] ∧
      s.link.polled ++ s.link.rx.ready ≠ s.given := by
  obtain ⟨events, s, hrun, hs, hgiven⟩ := UmRecord.exists_lossless { cfg := {} } { cfg := {} }
    (List.replicate 122881 [0])
  refine ⟨events, s, hrun, hs, hgiven, ?_⟩
  intro hall
  have hpdus := (UmRecord.withinReach_of_complete hrun hs hall).pdus
  rw [hgiven, List.map_replicate, List.sum_replicate] at hpdus
  revert hpdus
  decide

end AetherStack.Guarantees
