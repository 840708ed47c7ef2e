import AetherStack.Source.RlcAmInOrder
import AetherStack.Source.RlcUmReceiver

/-!
# `UmTx` and `UmRx` past the end of the sequence numbers

`UmTx` numbers its PDUs without end and sends the low 16 bits. `InOrder n` is the state of
a `UmRx` after `n` of them, each given once and in order: nothing is held, and the
duplicate filter is the one of the acknowledged mode, so the numbers from 57344 on are
refused in the second turn. `octets` counts what a receiver has in hand. No call adds more
to it than the payload of a PDU that passed the filter, whatever the timer does, which is
how a PDU refused once is known to be missing for good.
-/
namespace AetherStack.Source
open Lib.Reassembly

/-! ## Segments -/

/-- No segment is without octets, also where the `size_t` sum wraps. -/
theorem segmentSdu_payload_ne_nil {sdu : Bytes} {maxp : Nat} {seg : UInt8 × Bytes}
    (h : seg ∈ segmentSdu sdu maxp) : seg.2 ≠ [] := by
  obtain ⟨i, hi, rfl⟩ := List.mem_map.mp h
  have hcount : i < segmentCount sdu.length maxp := List.mem_range.mp hi
  have hmaxp : 0 < maxp := by
    rcases Nat.eq_zero_or_pos maxp with rfl | hpos
    · simp [segmentCount] at hcount
    · exact hpos
  have hstart : i * maxp < sdu.length := by
    have hle : (i + 1) * maxp ≤ (sdu.length + maxp - 1) % 2 ^ 64 :=
      (Nat.le_div_iff_mul_le hmaxp).mp hcount
    have hmod := Nat.mod_le (sdu.length + maxp - 1) (2 ^ 64)
    rw [Nat.succ_mul] at hle
    omega
  have hdrop : 0 < (sdu.drop (i * maxp)).length := by
    rw [List.length_drop]
    omega
  unfold segmentPayload
  rw [← List.length_pos_iff]
  split
  · exact hdrop
  · rw [List.length_take]
    omega

theorem segmentsOf_payload_ne_nil {maxp : Nat} {sdus : List Bytes} {seg : UInt8 × Bytes}
    (h : seg ∈ segmentsOf maxp sdus) : seg.2 ≠ [] := by
  obtain ⟨sdu, -, hseg⟩ := List.mem_flatMap.mp h
  exact segmentSdu_payload_ne_nil hseg

/-- An SDU that is cut at all is not empty. -/
theorem ne_nil_of_segmentCount_pos {sdu : Bytes} {maxp : Nat}
    (h : 0 < segmentCount sdu.length maxp) : sdu ≠ [] := by
  rintro rfl
  have hle : segmentCount 0 maxp ≤ (maxp - 1) / maxp := by
    rw [segmentCount, Nat.zero_add]
    exact Nat.div_le_div_right (Nat.mod_le _ _)
  have hzero : (maxp - 1) / maxp = 0 := by
    rcases Nat.eq_zero_or_pos maxp with rfl | hpos
    · rfl
    · exact Nat.div_eq_of_lt (by omega)
  rw [List.length_nil] at h
  omega

/-! ## Transmitter -/

namespace UmTx

/-- A PDU carries the low 16 bits of its number. -/
theorem buildPdu_mod (n : Nat) (fi : UInt8) (payload : Bytes) :
    buildPdu (n % snModulus) fi payload = buildPdu n fi payload := by
  have hlow : UInt8.ofNat (n % snModulus) = UInt8.ofNat n := by
    apply UInt8.toNat_inj.mp
    rw [UInt8.toNat_ofNat', UInt8.toNat_ofNat', snModulus]
    omega
  have hhigh : UInt8.ofNat ((n % snModulus) >>> 8) = UInt8.ofNat (n >>> 8) := by
    apply UInt8.toNat_inj.mp
    simp only [UInt8.toNat_ofNat', Nat.shiftRight_eq_div_pow, snModulus]
    omega
  rw [buildPdu, buildPdu, putU16, putU16, hlow, hhigh]

theorem txSegments_nextSn (t : UmTx) (segs : List (UInt8 × Bytes)) (h : t.nextSn < snModulus) :
    (t.txSegments segs).1.nextSn = (t.nextSn + segs.length) % snModulus := by
  induction segs generalizing t with
  | nil => exact (Nat.mod_eq_of_lt h).symm
  | cons seg rest ih =>
    have hnext := ih { t with nextSn := (t.nextSn + 1) % snModulus } (Nat.mod_lt _ (by decide))
    rw [txSegments, hnext, List.length_cons, Nat.mod_add_mod]
    congr 1
    omega

/-- The numbers of consecutive segments, counted through the wrap. -/
theorem txSegments_getElem?_mod (t : UmTx) (segs : List (UInt8 × Bytes)) (n : Nat)
    (hn : t.nextSn = n % snModulus) (i : Nat) :
    (t.txSegments segs).2[i]? = segs[i]?.map fun seg => buildPdu (n + i) seg.1 seg.2 := by
  induction segs generalizing t n i with
  | nil => simp [txSegments]
  | cons seg rest ih =>
    rw [txSegments]
    cases i with
    | zero => simp [hn, buildPdu_mod]
    | succ i =>
      have hnext : (t.nextSn + 1) % snModulus = (n + 1) % snModulus := by
        rw [hn, Nat.mod_add_mod]
      rw [List.getElem?_cons_succ, List.getElem?_cons_succ,
        ih { t with nextSn := (t.nextSn + 1) % snModulus } (n + 1) hnext]
      simp only [Nat.add_assoc, Nat.add_comm 1 i]

/-- One PDU to a segment; an empty SDU has none either way. -/
theorem length_tx (t : UmTx) (sdu : Bytes) :
    (t.tx sdu).2.length = segmentCount sdu.length t.cfg.maxPduPayload := by
  unfold tx
  split
  · rename_i hnil
    subst hnil
    by_contra hne
    exact ne_nil_of_segmentCount_pos (Nat.pos_of_ne_zero (Ne.symm hne)) rfl
  · rw [length_txSegments, length_segmentSdu]

end UmTx

/-- The distance of two numbers less than half a turn apart. -/
theorem snOffset_mod {p e : Nat} (hlo : e ≤ p + 32768) (hhi : p < e + 32768) :
    snOffset (p % snModulus) (e % snModulus) = (p : Int) - e := by
  unfold snOffset
  dsimp only
  rw [snModulus]
  split <;> omega

/-! ## What the receiver has in hand -/

namespace UmRx

variable {maxp : Nat} {sdus polled : List Bytes} {r : UmRx}

/-- A PDU the transmitter built passes the header checks unchanged. -/
theorem rx_buildPdu (r : UmRx) (nowMs : UInt32) {n : Nat} {seg : UInt8 × Bytes}
    (hseg : seg ∈ segmentsOf maxp sdus) :
    r.rx nowMs (UmTx.buildPdu n seg.1 seg.2) =
      if n % snModulus ∈ r.seen then { r with duplicates := r.duplicates + 1 }
      else { r with seen := AmRx.markSeen r.seen (n % snModulus) }.rxNew nowMs (n % snModulus)
        ⟨seg.1, seg.2⟩ := by
  have hsn : getU16 (UmTx.buildPdu n seg.1 seg.2) 1 = n % snModulus :=
    getU16_putU16 [seg.1] seg.2 n
  have hfi : seg.1 &&& fiMask = seg.1 := by
    rcases segmentsOf_fi hseg with h | h | h | h <;> rw [h] <;> rfl
  have hheld : (⟨(UmTx.buildPdu n seg.1 seg.2).getD 0 0 &&& fiMask,
      (UmTx.buildPdu n seg.1 seg.2).drop 3⟩ : Held) = ⟨seg.1, seg.2⟩ := by
    simp [UmTx.buildPdu, putU16, hfi]
  have hlong : ¬ (UmTx.buildPdu n seg.1 seg.2).length < 4 := by
    have := List.length_pos_iff.mpr (segmentsOf_payload_ne_nil hseg)
    simp [UmTx.buildPdu]
    omega
  rw [rx, if_neg hlong]
  dsimp only
  rw [hsn, hheld]

theorem deliverReady_kept (r : UmRx) :
    r.deliverReady.cfg = r.cfg ∧ r.deliverReady.seen = r.seen := by
  have hloop : ∀ (fuel : Nat) (r : UmRx),
      (deliverLoop fuel r).cfg = r.cfg ∧ (deliverLoop fuel r).seen = r.seen := by
    intro fuel
    induction fuel with
    | zero => exact fun _ => ⟨rfl, rfl⟩
    | succ fuel ih =>
      intro r
      unfold deliverLoop
      split
      · exact ⟨rfl, rfl⟩
      · rw [acceptInOrder_eq]
        exact ih _
  unfold deliverReady
  dsimp only
  split <;> exact hloop _ r

/-- Configuration and duplicate filter behind the filter. -/
theorem rxNew_kept (r : UmRx) (nowMs : UInt32) (sn : Nat) (held : Held) :
    (r.rxNew nowMs sn held).cfg = r.cfg ∧ (r.rxNew nowMs sn held).seen = r.seen := by
  have haccept : ∀ r : UmRx, (r.acceptInOrder held).deliverReady.cfg = r.cfg ∧
      (r.acceptInOrder held).deliverReady.seen = r.seen := by
    intro r
    have hready := deliverReady_kept (r.acceptInOrder held)
    rw [acceptInOrder_eq] at hready ⊢
    exact hready
  unfold rxNew
  split
  · split
    · exact haccept _
    · exact ⟨rfl, rfl⟩
  · exact haccept r
  · dsimp only
    split <;> exact ⟨rfl, rfl⟩

theorem tick_kept (r : UmRx) (nowMs : UInt32) :
    (r.tick nowMs).cfg = r.cfg ∧ (r.tick nowMs).seen = r.seen := by
  have hskip : ∀ (r : UmRx) (resume : Nat),
      (r.skipTo resume).cfg = r.cfg ∧ (r.skipTo resume).seen = r.seen := by
    intro r resume
    unfold skipTo
    dsimp only
    split <;> exact ⟨rfl, rfl⟩
  unfold tick
  split
  · unfold onReorderTimeout
    split
    · exact ⟨rfl, rfl⟩
    · rename_i resume hmin
      have hready := deliverReady_kept ({ r with timerRunning := false }.skipTo resume)
      rw [(hskip _ _).1, (hskip _ _).2] at hready
      dsimp only
      split <;> exact hready
  · exact ⟨rfl, rfl⟩

/-! ### Octets -/

/-- Octets of an entry of the hold area. -/
def heldAt (buffer : SnMap Held) (sn : Nat) : Nat :=
  (buffer[sn]?.map fun held => held.payload.length).getD 0

/-- Octets in the hold area; its keys are 16-bit numbers. -/
def heldOctets (buffer : SnMap Held) : Nat := ∑ sn ∈ Finset.range snModulus, heldAt buffer sn

/-- Octets of everything ready, collected and held. -/
def octets (r : UmRx) : Nat :=
  r.ready.flatten.length + r.partialSdu.length + heldOctets r.buffer

@[simp] theorem heldOctets_empty : heldOctets ∅ = 0 := by
  simp [heldOctets, heldAt]

theorem heldOctets_insert_le (buffer : SnMap Held) (sn : Nat) (held : Held) :
    heldOctets (buffer.insert sn held) ≤ heldOctets buffer + held.payload.length := by
  have hpoint : ∀ x ∈ Finset.range snModulus, heldAt (buffer.insert sn held) x ≤
      heldAt buffer x + if sn = x then held.payload.length else 0 := by
    intro x _
    by_cases hx : sn = x
    · simp [heldAt, hx]
    · simp [heldAt, Std.ExtTreeMap.getElem?_insert, hx]
  calc heldOctets (buffer.insert sn held)
      ≤ ∑ x ∈ Finset.range snModulus,
          (heldAt buffer x + if sn = x then held.payload.length else 0) := Finset.sum_le_sum hpoint
    _ ≤ heldOctets buffer + held.payload.length := by
      rw [Finset.sum_add_distrib, Finset.sum_ite_eq]
      apply Nat.add_le_add_left
      split
      · exact Nat.le_refl _
      · exact Nat.zero_le _

/-- Taking a PDU out frees its octets. -/
theorem heldOctets_erase_add (buffer : SnMap Held) {sn : Nat} {held : Held}
    (h : buffer[sn]? = some held) (hsn : sn < snModulus) :
    heldOctets (buffer.erase sn) + held.payload.length = heldOctets buffer := by
  have hmem : sn ∈ Finset.range snModulus := Finset.mem_range.mpr hsn
  have hrest : ∑ x ∈ (Finset.range snModulus).erase sn, heldAt (buffer.erase sn) x =
      ∑ x ∈ (Finset.range snModulus).erase sn, heldAt buffer x := by
    apply Finset.sum_congr rfl
    intro x hx
    have hne : ¬ sn = x := fun heq => (Finset.mem_erase.mp hx).1 heq.symm
    simp [heldAt, Std.ExtTreeMap.getElem?_erase, hne]
  have hgone : heldAt (buffer.erase sn) sn = 0 := by simp [heldAt]
  have hthere : heldAt buffer sn = held.payload.length := by simp [heldAt, h]
  rw [heldOctets, heldOctets, ← Finset.add_sum_erase _ _ hmem, ← Finset.add_sum_erase _ _ hmem,
    hrest, hgone, hthere]
  omega

/-- What the reassembly keeps and delivers comes from what it is given. -/
theorem acceptInOrder_octets (r : UmRx) (held : Held) :
    (r.acceptInOrder held).octets ≤ r.octets + held.payload.length := by
  unfold acceptInOrder octets
  cases fiKind held.fi with
  | complete =>
    simp
    omega
  | first =>
    simp
    omega
  | last =>
    dsimp only
    split
    · simp
      omega
    · simp
  | middle =>
    dsimp only
    split
    · simp
      omega
    · simp

/-- No more than `credit` octets handed out or in hand, none of them in an empty SDU. -/
structure Within (polled : List Bytes) (credit : Nat) (r : UmRx) : Prop where
  edge : r.vrNext < snModulus
  held : ∀ (sn : Nat) (held : Held), r.buffer[sn]? = some held → sn < snModulus ∧ held.payload ≠ []
  ready : ∀ sdu ∈ polled ++ r.ready, sdu ≠ []
  octets : polled.flatten.length + r.octets ≤ credit

variable {credit : Nat}

theorem within_reset (r : UmRx) : Within [] 0 r.reset where
  edge := by simp [reset, snModulus]
  held := by simp [reset]
  ready := by simp [reset]
  octets := by simp [reset, octets]

/-- An accepted segment pays for itself. -/
theorem Within.accept (h : Within polled credit r) {held : Held} (hne : held.payload ≠ []) :
    Within polled (credit + held.payload.length) (r.acceptInOrder held) := by
  have hoctets := acceptInOrder_octets r held
  have hcredit := h.octets
  refine ⟨?_, ?_, ?_, by omega⟩
  · rw [acceptInOrder_eq]
    exact Nat.mod_lt _ (by decide)
  · rw [acceptInOrder_eq]
    exact h.held
  · unfold acceptInOrder
    cases fiKind held.fi with
    | complete =>
      dsimp only
      rw [← List.append_assoc, List.forall_mem_append]
      exact ⟨h.ready, by simpa using hne⟩
    | first => exact h.ready
    | last =>
      dsimp only
      split
      · rw [← List.append_assoc, List.forall_mem_append]
        exact ⟨h.ready, by simp [hne]⟩
      · exact h.ready
    | middle =>
      dsimp only
      split <;> exact h.ready

/-- Taking an entry out of the hold area frees its octets. -/
theorem Within.erase (h : Within polled credit r) {sn : Nat} {held : Held}
    (hget : r.buffer[sn]? = some held) :
    Within polled (credit - held.payload.length) { r with buffer := r.buffer.erase sn } ∧
      held.payload.length ≤ credit := by
  have hfree := heldOctets_erase_add r.buffer hget (h.held sn held hget).1
  have hcredit := h.octets
  unfold UmRx.octets at hcredit
  refine ⟨⟨h.edge, fun sn' held' hget' => ?_, h.ready, ?_⟩, by omega⟩
  · rw [Std.ExtTreeMap.getElem?_erase] at hget'
    split at hget'
    · cases hget'
    · exact h.held sn' held' hget'
  · unfold UmRx.octets
    dsimp only
    omega

/-- Delivery spends nothing. -/
theorem Within.deliverLoop (fuel : Nat) {r : UmRx} (h : Within polled credit r) :
    Within polled credit (deliverLoop fuel r) := by
  induction fuel generalizing r with
  | zero => exact h
  | succ fuel ih =>
    unfold UmRx.deliverLoop
    split
    · exact h
    · rename_i held hheld
      obtain ⟨hfree, hle⟩ := h.erase hheld
      have hnext := hfree.accept (h.held _ _ hheld).2
      rw [Nat.sub_add_cancel hle, acceptInOrder_eq] at hnext
      apply ih
      rw [acceptInOrder_eq]
      exact hnext

theorem Within.deliverReady (h : Within polled credit r) : Within polled credit r.deliverReady := by
  have hloop := h.deliverLoop r.buffer.size
  unfold UmRx.deliverReady
  dsimp only
  split
  · exact ⟨hloop.edge, hloop.held, hloop.ready, hloop.octets⟩
  · exact hloop

/-- Dropping what is collected, and the hold area, moves the edge anywhere. -/
theorem Within.resync (h : Within polled credit r) {sn : Nat} (hsn : sn < snModulus) (dropped : UInt32) :
    Within polled credit { r with
      dropped := dropped
      vrNext := sn
      buffer := ∅
      collecting := false
      partialSdu := []
      timerRunning := false } := by
  refine ⟨hsn, by simp, h.ready, ?_⟩
  have hcredit := h.octets
  unfold UmRx.octets at hcredit ⊢
  dsimp only
  rw [heldOctets_empty, List.length_nil]
  omega

/-- A new PDU brings its own octets as credit. -/
theorem Within.rxNew (h : Within polled credit r) (nowMs : UInt32) {sn : Nat} (hsn : sn < snModulus)
    {held : Held} (hne : held.payload ≠ []) :
    Within polled (credit + held.payload.length) (r.rxNew nowMs sn held) := by
  unfold UmRx.rxNew
  split
  · split
    · exact ((h.resync hsn _).accept hne).deliverReady
    · exact ⟨h.edge, h.held, h.ready, h.octets.trans (Nat.le_add_right _ _)⟩
  · exact (h.accept hne).deliverReady
  · have hheld : Within polled (credit + held.payload.length)
        { r with buffer := r.buffer.insert sn held } := by
      refine ⟨h.edge, fun sn' held' hget => ?_, h.ready, ?_⟩
      · rw [Std.ExtTreeMap.getElem?_insert] at hget
        split at hget
        · rename_i heq
          obtain rfl : sn = sn' := by simpa using heq
          obtain rfl := Option.some.inj hget
          exact ⟨hsn, hne⟩
        · exact h.held sn' held' hget
      · have hinsert := heldOctets_insert_le r.buffer sn held
        have hcredit := h.octets
        unfold UmRx.octets at hcredit ⊢
        dsimp only
        omega
    dsimp only
    split
    · exact hheld
    · exact ⟨hheld.edge, hheld.held, hheld.ready, hheld.octets⟩

/-- A skip only drops. -/
theorem Within.skipTo (h : Within polled credit r) {resume : Nat} (hresume : resume < snModulus) :
    Within polled credit (r.skipTo resume) := by
  unfold UmRx.skipTo
  dsimp only
  split
  · refine ⟨hresume, h.held, h.ready, ?_⟩
    have hcredit := h.octets
    unfold UmRx.octets at hcredit ⊢
    dsimp only
    rw [List.length_nil]
    omega
  · exact h

theorem Within.tick (h : Within polled credit r) (nowMs : UInt32) : Within polled credit (r.tick nowMs) := by
  unfold UmRx.tick
  split
  · have hoff : Within polled credit { r with timerRunning := false } :=
      ⟨h.edge, h.held, h.ready, h.octets⟩
    unfold onReorderTimeout
    split
    · exact hoff
    · rename_i resume hmin
      have hget := Std.ExtTreeMap.getElem?_eq_some_getElem (Std.ExtTreeMap.minKey?_mem hmin)
      have hready := (hoff.skipTo (h.held resume _ hget).1).deliverReady
      dsimp only
      split
      · exact hready
      · exact ⟨hready.edge, hready.held, hready.ready, hready.octets⟩
  · exact h

/-- `poll` only moves the delivered SDUs. -/
theorem Within.poll (h : Within polled credit r) :
    Within (polled ++ r.poll.2) credit r.poll.1 := by
  refine ⟨h.edge, h.held, by simpa [UmRx.poll] using h.ready, ?_⟩
  have hcredit := h.octets
  unfold UmRx.octets at hcredit ⊢
  simp only [UmRx.poll, List.flatten_append, List.length_append, List.flatten_nil, List.length_nil]
  omega

/-! ## In order and without loss -/

/-- Numbers that the duplicate filter still holds when they come round again. -/
def Refused (n : Nat) : Prop := snModulus ≤ n ∧ snModulus - kMaxSeen ≤ n % snModulus

instance (n : Nat) : Decidable (Refused n) := inferInstanceAs (Decidable (_ ∧ _))

/-- What the filter says to the next number, and what it keeps of it. -/
theorem seen_next {n : Nat} {seen : SnSet} (h : AmRx.SeenWindow n seen) :
    (n % snModulus ∈ seen ↔ Refused n) ∧
      (Refused n → AmRx.SeenWindow (n + 1) seen) ∧
      (¬ Refused n → AmRx.SeenWindow (n + 1) (AmRx.markSeen seen (n % snModulus))) := by
  rcases Nat.lt_or_ge n snModulus with hfirst | hlater
  · rw [Nat.mod_eq_of_lt hfirst, h.mem_iff]
    refine ⟨?_, ?_, fun _ => ?_⟩
    · unfold Refused
      omega
    · intro hrefused
      exact absurd hrefused.1 (by omega)
    · rcases Nat.lt_or_ge n kMaxSeen with hlo | hhi
      · exact h.room hlo
      · exact h.slide hhi hfirst
  · rw [h.wrapped hlater]
    have hlt : n % snModulus < snModulus := Nat.mod_lt _ (by decide)
    refine ⟨?_, fun _ => h.mono hlater (by omega), fun hnew => ?_⟩
    · unfold Refused
      omega
    · have hsmall : n % snModulus < snModulus - kMaxSeen := by
        unfold Refused at hnew
        omega
      exact (h.evicted hlater hsmall).mono hlater (by omega)

/-- Nothing is held and the edge is the number of the next PDU. -/
structure InOrder (maxp : Nat) (sdus polled : List Bytes) (n : Nat) (r : UmRx) : Prop where
  edge : r.vrNext = n % snModulus
  nothing : r.buffer = ∅
  stopped : r.timerRunning = false
  tracks : Tracks True (streamOf maxp sdus) n r.reassembler (polled ++ r.ready)
  whole : r.cfg.window = 0 → r.reassembler = .idle

theorem deliverReady_nothing (h : r.buffer = ∅) :
    r.deliverReady = { r with timerRunning := false } := by
  simp [deliverReady, deliverLoop, h]

/-- The next PDU in order is delivered with its SDU. -/
theorem accept_inOrder {n : Nat} (h : InOrder maxp sdus polled n r)
    (hsegs : AllSegmented maxp sdus) {held : Held}
    (hseg : (segmentsOf maxp sdus)[n]? = some (held.fi, held.payload))
    (hwindow : r.cfg.window = 0 → fiKind held.fi = .complete) :
    InOrder maxp sdus polled (n + 1) (r.acceptInOrder held).deliverReady := by
  have hnext : (streamOf maxp sdus).segments[n]? = some (fiKind held.fi, held.payload) := by
    simp [streamOf_segments, tagged, hseg]
  have haccept := h.tracks.accept hsegs.wellFormed hnext
  have hnothing : (r.acceptInOrder held).buffer = ∅ := by
    rw [acceptInOrder_eq]
    exact h.nothing
  rw [deliverReady_nothing hnothing, acceptInOrder_eq]
  refine ⟨?_, h.nothing, rfl, ?_, ?_⟩
  · dsimp only
    rw [h.edge, Nat.mod_add_mod]
  · simpa [reassembler] using haccept
  · intro hzero
    have hidle := h.whole hzero
    rw [hidle, hwindow hzero]
    rfl

/-- The next PDU, new to the filter: in the window it is accepted; with an empty window it
is a jump over nothing, which costs the collected octets. -/
theorem rxNew_inOrder {n : Nat} (h : InOrder maxp sdus polled n r)
    (hsegs : AllSegmented maxp sdus) (nowMs : UInt32) {held : Held}
    (hseg : (segmentsOf maxp sdus)[n]? = some (held.fi, held.payload))
    (hwindow : r.cfg.window = 0 → fiKind held.fi = .complete) :
    InOrder maxp sdus polled (n + 1) (r.rxNew nowMs (n % snModulus) held) := by
  have hoff : snOffset (n % snModulus) r.vrNext = 0 := by
    rw [h.edge, snOffset_mod (by omega) (by omega)]
    omega
  unfold rxNew ahead
  rw [hoff]
  by_cases hzero : r.cfg.window = 0
  · -- every number is far ahead of an empty window
    have htracks := h.tracks
    rw [h.whole hzero] at htracks
    have hresync : InOrder maxp sdus polled n { r with
        dropped := r.dropped + UInt32.ofNat ((n % snModulus + (snModulus - r.vrNext)) % snModulus)
        vrNext := n % snModulus
        buffer := ∅
        collecting := false
        partialSdu := []
        timerRunning := false } :=
      ⟨rfl, rfl, rfl, htracks, fun _ => rfl⟩
    rw [if_neg (by simp [hzero])]
    dsimp only
    rw [if_pos (by simp [hzero])]
    exact accept_inOrder hresync hsegs hseg hwindow
  · have hpos : 0 < r.cfg.window.toNat := by
      apply Nat.pos_of_ne_zero
      intro hnat
      exact hzero (UInt16.toNat_inj.mp hnat)
    rw [if_pos ⟨by omega, by omega⟩]
    exact accept_inOrder h hsegs hseg hwindow

/-- In order no timer runs. -/
theorem tick_inOrder {n : Nat} (h : InOrder maxp sdus polled n r) (nowMs : UInt32) :
    r.tick nowMs = r := by
  unfold tick
  rw [if_neg]
  simp [h.stopped]

/-! ## An empty window -/

/-- With an empty window nothing is held, and only a PDU with a whole SDU delivers. -/
structure Windowless (polled : List Bytes) (credit : Nat) (r : UmRx) : Prop where
  window : r.cfg.window = 0
  nothing : r.buffer = ∅
  stopped : r.timerRunning = false
  octets : (polled ++ r.ready).flatten.length ≤ credit

/-- Without a window a complete PDU is handed on, and any other dropped. -/
theorem Windowless.rxNew (h : Windowless polled credit r) (nowMs : UInt32) (sn : Nat) (held : Held) :
    Windowless polled (credit + if fiKind held.fi = .complete then held.payload.length else 0)
      (r.rxNew nowMs sn held) := by
  have hnone : r.ahead sn = none := by
    simp only [ahead, h.window, UInt16.toNat_zero]
    rw [if_neg (by omega)]
  unfold UmRx.rxNew
  rw [hnone]
  dsimp only
  by_cases hfar : snOffset sn r.vrNext ≥ r.cfg.window.toNat
  · -- the jump has dropped what was collected
    rw [if_pos hfar]
    unfold jumpAhead
    rw [deliverReady_nothing (by rw [acceptInOrder_eq]), acceptInOrder_eq]
    refine ⟨h.window, rfl, rfl, ?_⟩
    have hcredit := h.octets
    cases hkind : fiKind held.fi with
    | complete =>
      simp only [Reassembler.accept, List.flatten_append, List.length_append,
        List.flatten_singleton, if_true] at hcredit ⊢
      omega
    | first => simpa [Reassembler.accept] using hcredit
    | last => simpa [Reassembler.accept, reassembler] using hcredit
    | middle => simpa [Reassembler.accept, reassembler] using hcredit
  · rw [if_neg hfar]
    exact ⟨h.window, h.nothing, h.stopped, h.octets.trans (Nat.le_add_right _ _)⟩

theorem Windowless.tick (h : Windowless polled credit r) (nowMs : UInt32) :
    r.tick nowMs = r := by
  unfold UmRx.tick
  rw [if_neg]
  simp [h.stopped]

theorem Windowless.poll (h : Windowless polled credit r) :
    Windowless (polled ++ r.poll.2) credit r.poll.1 :=
  ⟨h.window, h.nothing, h.stopped, by simpa [UmRx.poll] using h.octets⟩

end UmRx

end AetherStack.Source
