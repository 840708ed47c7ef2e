import AetherStack.Lib.Reassembly
import AetherStack.Source.Bytes

/-!
# RLC segmentation

`AmTx::tx` (rlc_am.cpp:52-64) and `UmTx::tx` (rlc_um.cpp:11-24) cut an SDU into
PDU payloads by the same loop header and tag each with the same FI bits. The loop
body is here as a function of the segment number; the two transmitters wrap it in
their own headers. The theorem at the end says that the result is a segmentation
in the sense of `Lib.Reassembly`, for every payload limit and every SDU length.
-/
namespace AetherStack.Source
open Lib.Reassembly

/-- Bits b5..b4 of the first PDU octet (`kAmFiMask`, `kUmFiMask`). -/
def fiMask : UInt8 := 0x30

/-- `(sdu.size() + maxp - 1) / maxp` in `size_t` arithmetic. A zero limit divides
by zero in the source; here it gives no segment. -/
def segmentCount (size maxp : Nat) : Nat := ((size + maxp - 1) % 2 ^ 64) / maxp

/-- FI: 00 complete, 01 first, 10 last, 11 middle (bits b5..b4). -/
def segmentFi (segments seg : Nat) : UInt8 :=
  if segments > 1 then
    if seg = 0 then 0x10 else if seg = segments - 1 then 0x20 else 0x30
  else 0x00

/-- The octets between `begin` and `end`; the last segment takes all that is left. -/
def segmentPayload (sdu : Bytes) (maxp segments seg : Nat) : Bytes :=
  if seg = segments - 1 then sdu.drop (seg * maxp) else (sdu.drop (seg * maxp)).take maxp

/-- FI bits and payload of every segment of an SDU, in order. -/
def segmentSdu (sdu : Bytes) (maxp : Nat) : List (UInt8 × Bytes) :=
  let segments := segmentCount sdu.length maxp
  (List.range segments).map fun seg =>
    (segmentFi segments seg, segmentPayload sdu maxp segments seg)

/-- The `switch (fi & mask)` of the two receivers. -/
def fiKind (fi : UInt8) : Fi :=
  if fi &&& fiMask = 0x00 then .complete
  else if fi &&& fiMask = 0x10 then .first
  else if fi &&& fiMask = 0x20 then .last
  else .middle

def tagged (segs : List (UInt8 × Bytes)) : List (Segment UInt8) :=
  segs.map fun s => (fiKind s.1, s.2)

@[simp] theorem length_segmentSdu (sdu : Bytes) (maxp : Nat) :
    (segmentSdu sdu maxp).length = segmentCount sdu.length maxp := by
  simp [segmentSdu]

/-- A segment tag is one of the four FI values. -/
theorem segmentFi_cases (segments seg : Nat) :
    segmentFi segments seg = 0x00 ∨ segmentFi segments seg = 0x10 ∨
      segmentFi segments seg = 0x20 ∨ segmentFi segments seg = 0x30 := by
  unfold segmentFi
  split
  · split
    · simp
    · split <;> simp
  · simp

/-- A segment is complete, first, last or one between. -/
theorem segmentSdu_fi {sdu : Bytes} {maxp : Nat} {s : UInt8 × Bytes}
    (h : s ∈ segmentSdu sdu maxp) : s.1 = 0x00 ∨ s.1 = 0x10 ∨ s.1 = 0x20 ∨ s.1 = 0x30 := by
  obtain ⟨seg, -, rfl⟩ := List.mem_map.mp h
  exact segmentFi_cases _ _

/-- Chunks of `maxp` octets, followed by what is left behind them, give the SDU back. -/
private theorem chunks_flatten (sdu : Bytes) (maxp k : Nat) :
    ((List.range k).map fun seg => (sdu.drop (seg * maxp)).take maxp).flatten ++
      sdu.drop (k * maxp) = sdu := by
  induction k with
  | zero => simp
  | succ k ih =>
    have hstep : (sdu.drop (k * maxp)).take maxp ++ sdu.drop ((k + 1) * maxp) =
        sdu.drop (k * maxp) := by
      rw [Nat.succ_mul, ← List.drop_drop, List.take_append_drop]
    rw [List.range_succ, List.map_append, List.flatten_append, List.append_assoc]
    simpa [hstep] using ih

/-- The payloads of a segmentation into two or more parts. -/
private theorem segmentSdu_split (sdu : Bytes) (maxp m : Nat)
    (hm : segmentCount sdu.length maxp = m + 2) :
    tagged (segmentSdu sdu maxp) =
      (.first, sdu.take maxp) ::
        (((List.range m).map fun seg => (sdu.drop ((seg + 1) * maxp)).take maxp).map
          (Prod.mk .middle) ++ [(.last, sdu.drop ((m + 1) * maxp))]) := by
  have hfirst : fiKind (segmentFi (m + 2) 0) = .first := by
    rw [show segmentFi (m + 2) 0 = 0x10 by simp [segmentFi]]
    rfl
  have hmiddle : ∀ seg, seg < m → fiKind (segmentFi (m + 2) (seg + 1)) = .middle := by
    intro seg hseg
    have hne : seg ≠ m := by omega
    rw [show segmentFi (m + 2) (seg + 1) = 0x30 by simp [segmentFi, hne]]
    rfl
  have hlast : fiKind (segmentFi (m + 2) (m + 1)) = .last := by
    rw [show segmentFi (m + 2) (m + 1) = 0x20 by simp [segmentFi]]
    rfl
  simp only [tagged, segmentSdu, hm, List.map_map]
  rw [List.range_succ_eq_map, List.range_succ]
  simp only [List.map_cons, List.map_append, List.map_map, List.map_nil]
  congr 1
  · simp [hfirst, segmentPayload]
  · congr 1
    · apply List.map_congr_left
      intro seg hseg
      have hlt := List.mem_range.mp hseg
      have hne : seg ≠ m := by omega
      simp [hmiddle seg hlt, segmentPayload, hne]
    · simp [hlast, segmentPayload]

/-- Whenever the loop runs at all, its output is a segmentation of the SDU. -/
theorem segmentSdu_segmented (sdu : Bytes) (maxp : Nat)
    (h : 0 < segmentCount sdu.length maxp) : Segmented sdu (tagged (segmentSdu sdu maxp)) := by
  obtain ⟨n, hn⟩ : ∃ n, segmentCount sdu.length maxp = n + 1 := ⟨_, (Nat.succ_pred_eq_of_pos h).symm⟩
  cases n with
  | zero =>
    have : tagged (segmentSdu sdu maxp) = [(.complete, sdu)] := by
      simp [tagged, segmentSdu, hn, segmentFi, segmentPayload, fiKind, fiMask]
    rw [this]
    exact .whole sdu
  | succ m =>
    rw [segmentSdu_split sdu maxp m hn]
    have hparts := Segmented.split (sdu.take maxp) (sdu.drop ((m + 1) * maxp))
      ((List.range m).map fun seg => (sdu.drop ((seg + 1) * maxp)).take maxp)
    have hall := chunks_flatten sdu maxp (m + 1)
    rw [List.range_succ_eq_map, List.map_cons, List.map_map] at hall
    simp only [List.flatten_cons, Nat.zero_mul, List.drop_zero, Function.comp_def,
      Nat.succ_eq_add_one] at hall
    rwa [hall] at hparts

/-- With one octet to a PDU the count is the length. -/
theorem segmentCount_one (size : Nat) (h : size < 2 ^ 64) : segmentCount size 1 = size := by
  rw [segmentCount, Nat.add_sub_cancel, Nat.div_one, Nat.mod_eq_of_lt h]

/-- Segments are cut from the SDU, so they have no octet of their own. -/
theorem segmentSdu_subset {sdu : Bytes} {maxp : Nat} {seg : UInt8 × Bytes}
    (h : seg ∈ segmentSdu sdu maxp) {b : UInt8} (hb : b ∈ seg.2) : b ∈ sdu := by
  obtain ⟨i, -, rfl⟩ := List.mem_map.mp h
  unfold segmentPayload at hb
  split at hb
  · exact List.mem_of_mem_drop hb
  · exact List.mem_of_mem_drop (List.mem_of_mem_take hb)

/-! ## The segments of a list of SDUs -/

/-- All segments of the accepted SDUs; the index of a segment is the number of its
PDU counted from the reset, of which the sequence number is the low 16 bits. -/
def segmentsOf (maxp : Nat) (sdus : List Bytes) : List (UInt8 × Bytes) :=
  sdus.flatMap (segmentSdu · maxp)

/-- The same SDUs as a stream of the reassembly library. -/
def streamOf (maxp : Nat) (sdus : List Bytes) : Stream UInt8 :=
  sdus.map fun sdu => (sdu, tagged (segmentSdu sdu maxp))

/-- Every SDU was cut into at least one segment. -/
def AllSegmented (maxp : Nat) (sdus : List Bytes) : Prop :=
  ∀ sdu ∈ sdus, 0 < segmentCount sdu.length maxp

@[simp] theorem segmentsOf_nil (maxp : Nat) : segmentsOf maxp [] = [] := rfl

@[simp] theorem segmentsOf_append (maxp : Nat) (a b : List Bytes) :
    segmentsOf maxp (a ++ b) = segmentsOf maxp a ++ segmentsOf maxp b := by
  simp [segmentsOf]

@[simp] theorem segmentsOf_singleton (maxp : Nat) (sdu : Bytes) :
    segmentsOf maxp [sdu] = segmentSdu sdu maxp := by
  simp [segmentsOf]

theorem streamOf_append (maxp : Nat) (a b : List Bytes) :
    streamOf maxp (a ++ b) = streamOf maxp a ++ streamOf maxp b := by
  simp [streamOf]

/-- The SDUs of the stream are those sent. -/
@[simp] theorem streamOf_sdus (maxp : Nat) (sdus : List Bytes) :
    (streamOf maxp sdus).sdus = sdus := by
  simp [streamOf, Stream.sdus, Function.comp_def]

/-- Its segments are those they were cut into. -/
theorem streamOf_segments (maxp : Nat) (sdus : List Bytes) :
    (streamOf maxp sdus).segments = tagged (segmentsOf maxp sdus) := by
  simp [streamOf, Stream.segments, segmentsOf, tagged, List.flatMap_map, List.map_flatMap]

/-- SDUs that can be cut make a well-formed stream. -/
theorem AllSegmented.wellFormed {maxp : Nat} {sdus : List Bytes} (h : AllSegmented maxp sdus) :
    (streamOf maxp sdus).WellFormed := by
  intro x hx
  obtain ⟨sdu, hmem, rfl⟩ := List.mem_map.mp hx
  exact segmentSdu_segmented sdu maxp (h sdu hmem)

theorem segmentsOf_fi {maxp : Nat} {sdus : List Bytes} {s : UInt8 × Bytes}
    (h : s ∈ segmentsOf maxp sdus) : s.1 = 0x00 ∨ s.1 = 0x10 ∨ s.1 = 0x20 ∨ s.1 = 0x30 := by
  obtain ⟨sdu, -, hs⟩ := List.mem_flatMap.mp h
  exact segmentSdu_fi hs

end AetherStack.Source
