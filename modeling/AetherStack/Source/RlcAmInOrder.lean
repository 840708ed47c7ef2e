import AetherStack.Source.RlcAmReceiver

/-!
# `AmRx` fed every PDU once and in order, for any number of PDUs

`seen_` keeps the 8192 largest sequence numbers it was given, not the latest ones. In
the first turn of the numbers that is a window that follows the edge. In the second
turn every number is smaller than the kept ones: it is inserted, evicted at once, and
accepted because it equals the edge, until 57344 = 65536 - 8192 comes round. That one is
still in `seen_` from the first turn, so it is dropped as a duplicate, and nothing after
it ever reaches the edge again. `InOrder n` is this closed form after `n` PDUs.
-/
namespace AetherStack.Source
open Lib.Reassembly

namespace AmRx

/-- PDUs accepted before the receiver stops for good: one turn and 57344 more. -/
def inOrderLimit : Nat := 122880

/-! ## The duplicate filter -/

private theorem size_insert_new {s : SnSet} {k : Nat} (h : k ∉ s) :
    (s.insert k).size = s.size + 1 := by
  rw [Std.ExtTreeSet.size_insert, if_neg]
  exact fun hc => h (Std.ExtTreeSet.contains_iff_mem.mp hc)

private theorem size_erase_mem {s : SnSet} {k : Nat} (h : k ∈ s) :
    (s.erase k).size = s.size - 1 := by
  rw [Std.ExtTreeSet.size_erase, if_pos]
  exact Std.ExtTreeSet.contains_iff_mem.mpr h

theorem markSeen_room {seen : SnSet} {seq : Nat} (hroom : seen.size < kMaxSeen)
    (hnew : seq ∉ seen) : markSeen seen seq = seen.insert seq := by
  unfold markSeen
  have hsize := size_insert_new hnew
  rw [if_neg (by omega)]

/-- In a full window the smallest number makes room. -/
theorem markSeen_full {seen : SnSet} {seq smallest : Nat} (hfull : seen.size = kMaxSeen)
    (hnew : seq ∉ seen) (hmem : smallest ∈ seen.insert seq)
    (hmin : ∀ x ∈ seen.insert seq, smallest ≤ x) :
    markSeen seen seq = (seen.insert seq).erase smallest := by
  unfold markSeen
  have hsize := size_insert_new hnew
  have hfirst : (seen.insert seq).min? = some smallest := by
    rw [Std.ExtTreeSet.min?_eq_some_iff_mem_and_forall]
    exact ⟨hmem, fun x hx => Nat.isLE_compare.mpr (hmin x hx)⟩
  rw [if_pos (by omega), hfirst]

/-- The kept numbers after `n` PDUs in order. -/
structure SeenWindow (n : Nat) (seen : SnSet) : Prop where
  mem_iff : ∀ x, x ∈ seen ↔ min n snModulus - kMaxSeen ≤ x ∧ x < min n snModulus
  size_eq : seen.size = min (min n snModulus) kMaxSeen

/-- While there is room the window holds all that was received. -/
theorem SeenWindow.room {n : Nat} {seen : SnSet} (h : SeenWindow n seen) (hn : n < kMaxSeen) :
    SeenWindow (n + 1) (markSeen seen n) := by
  have hnew : n ∉ seen := by
    rw [h.mem_iff]
    omega
  have hsize := h.size_eq
  simp only [snModulus, kMaxSeen] at hsize hn
  rw [markSeen_room (by simp only [kMaxSeen]; omega) hnew]
  refine ⟨fun x => ?_, ?_⟩
  · rw [Std.ExtTreeSet.mem_insert, h.mem_iff, Nat.compare_eq_eq]
    simp only [snModulus, kMaxSeen]
    omega
  · rw [size_insert_new hnew, hsize]
    simp only [snModulus, kMaxSeen]
    omega

/-- After that it slides by one. -/
theorem SeenWindow.slide {n : Nat} {seen : SnSet} (h : SeenWindow n seen) (hlo : kMaxSeen ≤ n)
    (hhi : n < snModulus) : SeenWindow (n + 1) (markSeen seen n) := by
  have hnew : n ∉ seen := by
    rw [h.mem_iff]
    omega
  have hsize := h.size_eq
  simp only [snModulus, kMaxSeen] at hsize hlo hhi
  have hmem : n - 8192 ∈ seen.insert n := by
    rw [Std.ExtTreeSet.mem_insert, h.mem_iff]
    simp only [snModulus, kMaxSeen]
    omega
  have hmin : ∀ x ∈ seen.insert n, n - 8192 ≤ x := by
    intro x hx
    rw [Std.ExtTreeSet.mem_insert, h.mem_iff, Nat.compare_eq_eq] at hx
    simp only [snModulus, kMaxSeen] at hx
    omega
  rw [markSeen_full (by simp only [kMaxSeen]; omega) hnew hmem hmin]
  refine ⟨fun x => ?_, ?_⟩
  · rw [Std.ExtTreeSet.mem_erase, Std.ExtTreeSet.mem_insert, h.mem_iff, Nat.compare_eq_eq]
    simp only [snModulus, kMaxSeen, ne_eq, Nat.compare_eq_eq]
    omega
  · rw [size_erase_mem hmem, size_insert_new hnew, hsize]
    simp only [snModulus, kMaxSeen]
    omega

/-- From the second turn on the kept numbers are the largest 8192 of all. -/
theorem SeenWindow.wrapped {n : Nat} {seen : SnSet} (h : SeenWindow n seen) (hn : snModulus ≤ n)
    (x : Nat) : x ∈ seen ↔ snModulus - kMaxSeen ≤ x ∧ x < snModulus := by
  rw [h.mem_iff, Nat.min_eq_right hn]

/-- From 65536 numbers on the window stays what it is. -/
theorem SeenWindow.mono {n m : Nat} {seen : SnSet} (h : SeenWindow n seen) (hn : snModulus ≤ n)
    (hm : snModulus ≤ m) : SeenWindow m seen := by
  refine ⟨fun x => ?_, ?_⟩
  · rw [h.wrapped hn, Nat.min_eq_right hm]
  · rw [h.size_eq, Nat.min_eq_right hn, Nat.min_eq_right hm]

/-- A smaller number goes in and out again. -/
theorem SeenWindow.evicted {n seq : Nat} {seen : SnSet} (h : SeenWindow n seen)
    (hn : snModulus ≤ n) (hseq : seq < snModulus - kMaxSeen) :
    SeenWindow n (markSeen seen seq) := by
  have hnew : seq ∉ seen := by
    rw [h.wrapped hn]
    omega
  have hsize := h.size_eq
  rw [Nat.min_eq_right hn] at hsize
  have hmin : ∀ x ∈ seen.insert seq, seq ≤ x := by
    intro x hx
    rw [Std.ExtTreeSet.mem_insert, h.wrapped hn, Nat.compare_eq_eq] at hx
    omega
  rw [markSeen_full hsize hnew Std.ExtTreeSet.mem_insert_self hmin]
  refine ⟨fun x => ?_, ?_⟩
  · rw [Std.ExtTreeSet.mem_erase, Std.ExtTreeSet.mem_insert, h.wrapped hn,
      Nat.min_eq_right hn, ne_eq, Nat.compare_eq_eq]
    omega
  · rw [size_erase_mem Std.ExtTreeSet.mem_insert_self, size_insert_new hnew, hsize,
      Nat.min_eq_right hn]
    rfl

/-! ## The receiver -/

structure InOrder (maxp : Nat) (sdus : List Bytes) (n : Nat) (r : AmRx)
    (delivered : List Bytes) : Prop where
  edge : r.vrNext = min n inOrderLimit % snModulus
  holes : r.holes = ∅
  reorder : r.reorder = ∅
  seen : SeenWindow n r.seen
  tracks : Tracks True (streamOf maxp sdus) (min n inOrderLimit) r.reassembler delivered

theorem inOrder_initial (maxp : Nat) (cfg : AmConfig) :
    InOrder maxp [] 0 { cfg := cfg : AmRx } [] where
  edge := rfl
  holes := rfl
  reorder := rfl
  seen := ⟨by simp, by simp⟩
  tracks := Tracks.start _ _

variable {maxp : Nat} {sdus : List Bytes} {n : Nat} {r : AmRx} {delivered : List Bytes}

theorem InOrder.append (h : InOrder maxp sdus n r delivered) (more : List Bytes) :
    InOrder maxp (sdus ++ more) n r delivered :=
  ⟨h.edge, h.holes, h.reorder, h.seen, by rw [streamOf_append]; exact h.tracks.append _⟩

/-- The PDU at the edge, with nothing held and nothing missing. -/
theorem acceptAndDrain_inOrder {d : AmDataPdu} (hseg : AllSegmented maxp sdus)
    (h : InOrder maxp sdus n r delivered) (hn : n < inOrderLimit)
    (hd : (segmentsOf maxp sdus)[n]? = some (d.fi, d.payload)) {seen : SnSet}
    (hseen : SeenWindow (n + 1) seen) :
    InOrder maxp sdus (n + 1) (acceptAndDrain { r with seen := seen } d).1
      (delivered ++ (acceptAndDrain { r with seen := seen } d).2.delivered) := by
  have hedge := h.edge
  have htracks := h.tracks
  rw [Nat.min_eq_left (by omega)] at hedge htracks
  have hnext : (streamOf maxp sdus).segments[n]? = some (fiKind d.fi, d.payload) := by
    simp [streamOf_segments, tagged, hd]
  have haccept := htracks.accept hseg.wellFormed hnext
  have hnothing : r.reorder.size = 0 := by rw [h.reorder]; rfl
  simp only [acceptAndDrain, drainReorder, acceptInOrder_eq, hnothing, drainLoop]
  refine ⟨?_, ?_, h.reorder, hseen, ?_⟩
  · rw [Nat.min_eq_left (by omega), hedge, Nat.mod_add_mod]
  · rw [h.holes, Std.ExtTreeSet.erase_empty]
  · rw [Nat.min_eq_left (by omega)]
    exact haccept

/-- One more PDU in order: accepted up to the limit, dropped from there on. -/
theorem rxData_inOrder {d : AmDataPdu} (hseg : AllSegmented maxp sdus)
    (h : InOrder maxp sdus n r delivered) (hseq : d.seq = n % snModulus)
    (hd : (segmentsOf maxp sdus)[n]? = some (d.fi, d.payload)) :
    InOrder maxp sdus (n + 1) (r.rxData d).1 (delivered ++ (r.rxData d).2.delivered) := by
  by_cases hn : n < inOrderLimit
  · have heq : d.seq = r.vrNext := by rw [hseq, h.edge, Nat.min_eq_left (by omega)]
    -- the number is new to the filter and equals the edge
    have hfresh : d.seq ∉ r.seen ∧ SeenWindow (n + 1) (markSeen r.seen d.seq) := by
      rcases Nat.lt_or_ge n snModulus with hfirst | hsecond
      · rw [hseq, Nat.mod_eq_of_lt hfirst]
        refine ⟨by rw [h.seen.mem_iff]; omega, ?_⟩
        rcases Nat.lt_or_ge n kMaxSeen with hlo | hhi
        · exact h.seen.room hlo
        · exact h.seen.slide hhi hfirst
      · have hsmall : d.seq < snModulus - kMaxSeen := by
          rw [hseq]
          simp only [inOrderLimit, snModulus, kMaxSeen] at hn hsecond ⊢
          omega
        exact ⟨by rw [h.seen.wrapped hsecond]; omega,
          (h.seen.evicted hsecond hsmall).mono hsecond (by omega)⟩
    have hstep := acceptAndDrain_inOrder hseg h hn hd hfresh.2
    unfold rxData
    rw [if_neg hfresh.1]
    dsimp only
    rw [if_neg (show ¬ d.seq < r.vrNext by omega), if_neg (show ¬ d.seq > r.vrNext by omega)]
    split <;> exact hstep
  · have hedge : r.vrNext = snModulus - kMaxSeen := by
      rw [h.edge, Nat.min_eq_right (by omega)]
      rfl
    have hwrapped : snModulus ≤ n := by
      simp only [inOrderLimit, snModulus] at hn ⊢
      omega
    have hstuck : ∀ seen, SeenWindow (n + 1) seen →
        InOrder maxp sdus (n + 1) { r with seen := seen } delivered := by
      intro seen hseen
      refine ⟨?_, h.holes, h.reorder, hseen, ?_⟩
      · rw [Nat.min_eq_right (by omega)]
        exact hedge
      · have := h.tracks
        rw [Nat.min_eq_right (by omega)] at this ⊢
        exact this
    unfold rxData
    split
    · simpa using hstuck r.seen (h.seen.mono hwrapped (by omega))
    · rename_i hnew
      have hsmall : d.seq < snModulus - kMaxSeen := by
        rw [h.seen.wrapped hwrapped] at hnew
        have : d.seq < snModulus := by rw [hseq]; exact Nat.mod_lt _ (by decide)
        omega
      dsimp only
      rw [if_pos (by omega)]
      simpa using hstuck _ ((h.seen.evicted hwrapped hsmall).mono hwrapped (by omega))

/-- The next PDU in order is delivered, at any number of PDUs before it. -/
theorem rx_inOrder {pdu : Bytes} {seg : UInt8 × Bytes} (hseg : AllSegmented maxp sdus)
    (h : InOrder maxp sdus n r delivered) (hcarries : Carries pdu n seg)
    (hn : (segmentsOf maxp sdus)[n]? = some seg) :
    InOrder maxp sdus (n + 1) (r.rx pdu).1 (delivered ++ (r.rx pdu).2.delivered) := by
  obtain ⟨poll, hpdu⟩ := hcarries
  simp only [rx, hpdu]
  exact rxData_inOrder hseg h rfl hn

end AmRx

end AetherStack.Source
