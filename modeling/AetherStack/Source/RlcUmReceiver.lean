import AetherStack.Source.RlcSequence

/-!
# What `UmTx` numbers and `UmRx` delivers

`Synced` relates one receiver to the SDUs the peer sent, as long as the distances of
sequence numbers are those of integers: the window edge is the reassembly position and
the hold area has genuine PDUs under their numbers, none of them behind the edge. Between
two calls the edge itself is never held (`Settled`), which is what makes the lowest held
number the end of the gap when the reordering timer fires.
-/
namespace AetherStack.Source
open Lib.Reassembly

namespace UmTx

/-- The PDUs of consecutive segments carry consecutive numbers. -/
theorem txSegments_getElem? (t : UmTx) (segs : List (UInt8 × Bytes))
    (room : t.nextSn + segs.length < snModulus) (i : Nat) :
    (t.txSegments segs).2[i]? = segs[i]?.map fun seg => buildPdu (t.nextSn + i) seg.1 seg.2 := by
  induction segs generalizing t i with
  | nil => simp [txSegments]
  | cons seg rest ih =>
    rw [List.length_cons] at room
    rw [txSegments]
    cases i with
    | zero => simp
    | succ i =>
      have hnext : (t.nextSn + 1) % snModulus = t.nextSn + 1 := Nat.mod_eq_of_lt (by omega)
      rw [List.getElem?_cons_succ, List.getElem?_cons_succ, hnext,
        ih { t with nextSn := t.nextSn + 1 } (by dsimp only; omega)]
      simp only [Nat.add_assoc, Nat.add_comm 1 i]

@[simp] theorem txSegments_cfg (t : UmTx) (segs : List (UInt8 × Bytes)) :
    (t.txSegments segs).1.cfg = t.cfg := by
  induction segs generalizing t with
  | nil => rfl
  | cons seg rest ih => exact ih _

/-- `tx` refuses the SDU, or cuts it into at least one segment and numbers them on. -/
theorem tx_cases (t : UmTx) (sdu : Bytes) :
    t.tx sdu = (t, []) ∨
    (t.tx sdu = t.txSegments (segmentSdu sdu t.cfg.maxPduPayload) ∧ (t.tx sdu).2 ≠ [] ∧
      0 < segmentCount sdu.length t.cfg.maxPduPayload) := by
  unfold tx
  split
  · exact .inl rfl
  · rename_i hsdu
    by_cases hcount : segmentCount sdu.length t.cfg.maxPduPayload = 0
    · have hnone : segmentSdu sdu t.cfg.maxPduPayload = [] := by
        rw [← List.length_eq_zero_iff, length_segmentSdu, hcount]
      left
      rw [hnone]
      rfl
    · refine .inr ⟨rfl, ?_, Nat.pos_of_ne_zero hcount⟩
      rw [← List.length_pos_iff, length_txSegments, length_segmentSdu]
      exact Nat.pos_of_ne_zero hcount

@[simp] theorem tx_cfg (t : UmTx) (sdu : Bytes) : (t.tx sdu).1.cfg = t.cfg := by
  rcases tx_cases t sdu with htx | ⟨htx, -⟩ <;> simp [htx]

end UmTx

namespace UmRx

def reassembler (r : UmRx) : Reassembler UInt8 := ⟨r.collecting, r.partialSdu⟩

/-- `accept_in_order` is one step of the reassembly library. -/
theorem acceptInOrder_eq (r : UmRx) (held : Held) :
    r.acceptInOrder held = { r with
      vrNext := (r.vrNext + 1) % snModulus
      ready := r.ready ++ (r.reassembler.accept (fiKind held.fi, held.payload)).2
      collecting := (r.reassembler.accept (fiKind held.fi, held.payload)).1.collecting
      partialSdu := (r.reassembler.accept (fiKind held.fi, held.payload)).1.buffer } := by
  unfold acceptInOrder reassembler
  cases fiKind held.fi with
  | complete => rfl
  | first => simp [Reassembler.accept]
  | last => cases r.collecting <;> simp [Reassembler.accept, Reassembler.idle]
  | middle => cases r.collecting <;> simp [Reassembler.accept]

structure Synced (maxp : Nat) (sdus polled : List Bytes) (r : UmRx) : Prop where
  segmented : AllSegmented maxp sdus
  edge_le : r.vrNext ≤ (segmentsOf maxp sdus).length
  held_genuine : ∀ (sn : Nat) (held : Held), r.buffer[sn]? = some held →
    (segmentsOf maxp sdus)[sn]? = some (held.fi, held.payload)
  held_ahead : ∀ (sn : Nat) (held : Held), r.buffer[sn]? = some held → r.vrNext ≤ sn
  tracks : Tracks False (streamOf maxp sdus) r.vrNext r.reassembler (polled ++ r.ready)

structure Settled (maxp : Nat) (sdus polled : List Bytes) (r : UmRx) : Prop
    extends Synced maxp sdus polled r where
  edge_free : r.buffer[r.vrNext]? = none

variable {maxp : Nat} {sdus polled : List Bytes} {r : UmRx}

theorem settled_reset (maxp : Nat) (r : UmRx) : Settled maxp [] [] r.reset where
  segmented := by simp [AllSegmented]
  edge_le := by simp [reset]
  held_genuine := by simp [reset]
  held_ahead := by simp [reset]
  tracks := Tracks.start _ _
  edge_free := by simp [reset]

/-- The peer sending one more SDU does not disturb the receiver. -/
theorem Synced.append (hs : Synced maxp sdus polled r) {sdu : Bytes}
    (hsdu : 0 < segmentCount sdu.length maxp) : Synced maxp (sdus ++ [sdu]) polled r where
  segmented := by
    intro x hx
    rcases List.mem_append.mp hx with hold | hnew
    · exact hs.segmented x hold
    · obtain rfl := List.mem_singleton.mp hnew
      exact hsdu
  edge_le := by
    have := hs.edge_le
    simp
    omega
  held_genuine := by
    intro sn held hheld
    have hseg := hs.held_genuine sn held hheld
    have hn := (List.getElem?_eq_some_iff.mp hseg).1
    rw [segmentsOf_append, List.getElem?_append_left hn, hseg]
  held_ahead := hs.held_ahead
  tracks := by
    rw [streamOf_append]
    exact hs.tracks.append _

/-- More SDUs sent leave the receiver settled. -/
theorem Settled.append (hs : Settled maxp sdus polled r) {sdu : Bytes}
    (hsdu : 0 < segmentCount sdu.length maxp) : Settled maxp (sdus ++ [sdu]) polled r :=
  ⟨hs.toSynced.append hsdu, hs.edge_free⟩

/-- Timers, counters and the duplicate filter are not part of what is proved here. -/
theorem Synced.congr (hs : Synced maxp sdus polled r) {r' : UmRx} (hvr : r'.vrNext = r.vrNext)
    (hbuffer : r'.buffer = r.buffer) (hready : r'.ready = r.ready)
    (hcollect : r'.reassembler = r.reassembler) : Synced maxp sdus polled r' where
  segmented := hs.segmented
  edge_le := hvr ▸ hs.edge_le
  held_genuine := hbuffer ▸ hs.held_genuine
  held_ahead := by
    rw [hbuffer, hvr]
    exact hs.held_ahead
  tracks := by
    rw [hvr, hready, hcollect]
    exact hs.tracks

theorem Settled.congr (hs : Settled maxp sdus polled r) {r' : UmRx} (hvr : r'.vrNext = r.vrNext)
    (hbuffer : r'.buffer = r.buffer) (hready : r'.ready = r.ready)
    (hcollect : r'.reassembler = r.reassembler) : Settled maxp sdus polled r' where
  toSynced := hs.toSynced.congr hvr hbuffer hready hcollect
  edge_free := by
    rw [hvr, hbuffer]
    exact hs.edge_free

/-- Accepting the PDU at the edge moves the edge by one. -/
theorem acceptInOrder_synced (hs : Synced maxp sdus polled r)
    (room : (segmentsOf maxp sdus).length < snModulus) {held : Held}
    (hseg : (segmentsOf maxp sdus)[r.vrNext]? = some (held.fi, held.payload))
    (hfree : r.buffer[r.vrNext]? = none) : Synced maxp sdus polled (r.acceptInOrder held) := by
  have hlt : r.vrNext < (segmentsOf maxp sdus).length := (List.getElem?_eq_some_iff.mp hseg).1
  have hmod : (r.vrNext + 1) % snModulus = r.vrNext + 1 := Nat.mod_eq_of_lt (by omega)
  have hnext : (streamOf maxp sdus).segments[r.vrNext]? = some (fiKind held.fi, held.payload) := by
    simp [streamOf_segments, tagged, hseg]
  have htracks := hs.tracks.accept hs.segmented.wellFormed hnext
  rw [acceptInOrder_eq, hmod]
  refine ⟨hs.segmented, by dsimp only; omega, hs.held_genuine, ?_, ?_⟩
  · intro sn held' hget
    have hle := hs.held_ahead sn held' hget
    have hne : r.vrNext ≠ sn := by
      intro heq
      rw [← heq, hfree] at hget
      cases hget
    dsimp only
    omega
  · simpa [reassembler] using htracks

/-- Taking an entry out of the hold area. -/
theorem Synced.erase (hs : Synced maxp sdus polled r) (sn : Nat) :
    Synced maxp sdus polled { r with buffer := r.buffer.erase sn } := by
  have hsub : ∀ (sn' : Nat) (held : Held), (r.buffer.erase sn)[sn']? = some held →
      r.buffer[sn']? = some held := by
    intro sn' held hget
    rw [Std.ExtTreeMap.getElem?_erase] at hget
    split at hget
    · cases hget
    · exact hget
  exact ⟨hs.segmented, hs.edge_le, fun sn' held hget => hs.held_genuine sn' held (hsub _ _ hget),
    fun sn' held hget => hs.held_ahead sn' held (hsub _ _ hget), hs.tracks⟩

theorem deliverLoop_synced (room : (segmentsOf maxp sdus).length < snModulus) (fuel : Nat)
    {r : UmRx} (hs : Synced maxp sdus polled r) : Synced maxp sdus polled (deliverLoop fuel r) := by
  induction fuel generalizing r with
  | zero => exact hs
  | succ fuel ih =>
    unfold deliverLoop
    split
    · exact hs
    · rename_i held hheld
      -- erasing the entry before or behind `accept_in_order` is the same
      have hnext := acceptInOrder_synced (hs.erase r.vrNext) room (hs.held_genuine _ _ hheld)
        (by simp)
      rw [acceptInOrder_eq] at hnext
      apply ih
      rw [acceptInOrder_eq]
      exact hnext

/-- The loop ends only when the edge is not held: its fuel suffices. -/
theorem deliverLoop_done (fuel : Nat) (r : UmRx) (h : r.buffer.size ≤ fuel) :
    (deliverLoop fuel r).buffer[(deliverLoop fuel r).vrNext]? = none := by
  induction fuel generalizing r with
  | zero =>
    have hempty : r.buffer = ∅ := Std.ExtTreeMap.eq_empty_iff_size_eq_zero.mpr (by omega)
    simp [deliverLoop, hempty]
  | succ fuel ih =>
    unfold deliverLoop
    split
    · assumption
    · rename_i held hheld
      apply ih
      have hmem : r.buffer.contains r.vrNext = true := by
        rw [Std.ExtTreeMap.contains_eq_isSome_getElem?, hheld]
        rfl
      simp only [acceptInOrder_eq, Std.ExtTreeMap.size_erase, hmem, if_true]
      omega

/-- After delivery nothing deliverable waits. -/
theorem deliverReady_settled (hs : Synced maxp sdus polled r)
    (room : (segmentsOf maxp sdus).length < snModulus) :
    Settled maxp sdus polled r.deliverReady := by
  have hloop : Settled maxp sdus polled (deliverLoop r.buffer.size r) :=
    ⟨deliverLoop_synced room _ hs, deliverLoop_done _ r (Nat.le_refl _)⟩
  unfold deliverReady
  dsimp only
  split
  · exact hloop.congr rfl rfl rfl rfl
  · exact hloop

/-- The far-ahead jump: the collected octets and the hold area go, the edge moves forward. -/
theorem jumpAhead_settled (hs : Settled maxp sdus polled r)
    (room : (segmentsOf maxp sdus).length < snModulus) {sn : Nat} {held : Held}
    (hseg : (segmentsOf maxp sdus)[sn]? = some (held.fi, held.payload)) (hle : r.vrNext ≤ sn) :
    Settled maxp sdus polled (r.jumpAhead sn held) := by
  have hlt : sn < (segmentsOf maxp sdus).length := (List.getElem?_eq_some_iff.mp hseg).1
  have hend : sn ≤ (streamOf maxp sdus).segments.length := by
    simp [streamOf_segments, tagged]
    omega
  have htracks := hs.tracks.jump id hs.segmented.wellFormed hle hend
  apply deliverReady_settled _ room
  apply acceptInOrder_synced _ room hseg
  · simp
  · exact ⟨hs.segmented, hlt.le, by simp, by simp, htracks⟩

/-- A PDU ahead of the edge is held under its number. -/
theorem hold_settled (hs : Settled maxp sdus polled r) {sn : Nat} {held : Held}
    (hseg : (segmentsOf maxp sdus)[sn]? = some (held.fi, held.payload)) (hlt : r.vrNext < sn) :
    Settled maxp sdus polled { r with buffer := r.buffer.insert sn held } := by
  have hget : ∀ (sn' : Nat) (held' : Held), (r.buffer.insert sn held)[sn']? = some held' →
      (sn' = sn ∧ held' = held) ∨ r.buffer[sn']? = some held' := by
    intro sn' held' hin
    rw [Std.ExtTreeMap.getElem?_insert] at hin
    split at hin
    · rename_i heq
      obtain rfl : sn = sn' := by simpa using heq
      exact .inl ⟨rfl, (Option.some.inj hin).symm⟩
    · exact .inr hin
  refine ⟨⟨hs.segmented, hs.edge_le, ?_, ?_, hs.tracks⟩, ?_⟩
  · intro sn' held' hin
    rcases hget sn' held' hin with ⟨rfl, rfl⟩ | hold
    · exact hseg
    · exact hs.held_genuine sn' held' hold
  · intro sn' held' hin
    rcases hget sn' held' hin with ⟨rfl, rfl⟩ | hold
    · exact hlt.le
    · exact hs.held_ahead sn' held' hold
  · cases hedge : (r.buffer.insert sn held)[r.vrNext]? with
    | none => rfl
    | some held' =>
      rcases hget _ _ hedge with ⟨heq, -⟩ | hold
      · omega
      · rw [hs.edge_free] at hold
        cases hold

/-- One genuine PDU that passed the duplicate filter, in any order and any number of times. -/
theorem rxNew_settled (hs : Settled maxp sdus polled r)
    (room : (segmentsOf maxp sdus).length < 32768) (nowMs : UInt32) {sn : Nat} {held : Held}
    (hseg : (segmentsOf maxp sdus)[sn]? = some (held.fi, held.payload)) :
    Settled maxp sdus polled (r.rxNew nowMs sn held) := by
  have hlt : sn < (segmentsOf maxp sdus).length := (List.getElem?_eq_some_iff.mp hseg).1
  have hedge := hs.edge_le
  have hroom : (segmentsOf maxp sdus).length < snModulus := by
    rw [snModulus]
    omega
  unfold rxNew
  by_cases hle : r.vrNext ≤ sn
  · have hoff : snOffset sn r.vrNext = (sn - r.vrNext : Nat) := snOffset_of_le hle (by omega)
    split
    · split
      · exact jumpAhead_settled hs hroom hseg hle
      · exact hs.congr rfl rfl rfl rfl
    · rename_i hzero
      obtain rfl : sn = r.vrNext := ahead_zero hzero (by omega) (by omega)
      exact deliverReady_settled
        (acceptInOrder_synced hs.toSynced hroom hseg hs.edge_free) hroom
    · rename_i hpositive hin
      have hlt' : r.vrNext < sn := by
        rcases Nat.lt_or_eq_of_le hle with h | rfl
        · exact h
        · -- distance zero is the branch above
          exfalso
          simp only [ahead, hoff, Nat.sub_self] at hin
          split at hin
          · exact hpositive (by simpa using (Option.some.inj hin).symm)
          · cases hin
      have hheld := hold_settled hs hseg hlt'
      dsimp only
      split
      · exact hheld
      · exact hheld.congr rfl rfl rfl rfl
  · -- behind the edge: neither inside the window nor far ahead
    have hoff : snOffset sn r.vrNext = (sn : Int) - r.vrNext :=
      snOffset_of_lt (by omega) (by omega)
    have hahead : r.ahead sn = none := by
      simp only [ahead, hoff]
      rw [if_neg (by omega)]
    rw [hahead]
    dsimp only
    rw [if_neg (by omega)]
    exact hs.congr rfl rfl rfl rfl

/-- The octets of a PDU the transmitter built are its number and its segment. -/
theorem rx_settled (hs : Settled maxp sdus polled r)
    (room : (segmentsOf maxp sdus).length < 32768) (nowMs : UInt32) {sn : Nat}
    {seg : UInt8 × Bytes} (hseg : (segmentsOf maxp sdus)[sn]? = some seg) :
    Settled maxp sdus polled (r.rx nowMs (UmTx.buildPdu sn seg.1 seg.2)) := by
  have hlt : sn < (segmentsOf maxp sdus).length := (List.getElem?_eq_some_iff.mp hseg).1
  have hsn : getU16 (UmTx.buildPdu sn seg.1 seg.2) 1 = sn := by
    have hread : getU16 (UmTx.buildPdu sn seg.1 seg.2) 1 = sn % snModulus :=
      getU16_putU16 [seg.1] seg.2 sn
    rw [hread, Nat.mod_eq_of_lt (by rw [snModulus]; omega)]
  have hfi : seg.1 &&& fiMask = seg.1 := by
    rcases segmentsOf_fi (List.mem_of_getElem? hseg) with h | h | h | h <;> rw [h] <;> rfl
  have hheld : (⟨(UmTx.buildPdu sn seg.1 seg.2).getD 0 0 &&& fiMask,
      (UmTx.buildPdu sn seg.1 seg.2).drop 3⟩ : Held) = ⟨seg.1, seg.2⟩ := by
    simp [UmTx.buildPdu, putU16, hfi]
  unfold rx
  split
  · exact hs
  · rw [hsn, hheld]
    dsimp only
    split
    · exact hs.congr rfl rfl rfl rfl
    · apply rxNew_settled _ room nowMs hseg
      exact hs.congr rfl rfl rfl rfl

/-- The reordering timeout skips to the lowest held number, which is not behind the edge. -/
theorem tick_settled (hs : Settled maxp sdus polled r)
    (room : (segmentsOf maxp sdus).length < snModulus) (nowMs : UInt32) :
    Settled maxp sdus polled (r.tick nowMs) := by
  unfold tick
  split
  · unfold onReorderTimeout
    split
    · exact hs.congr rfl rfl rfl rfl
    · rename_i resume hmin
      have hmem := Std.ExtTreeMap.minKey?_mem hmin
      have hget := Std.ExtTreeMap.getElem?_eq_some_getElem hmem
      have hlt := (List.getElem?_eq_some_iff.mp (hs.held_genuine resume _ hget)).1
      have hskip : Synced maxp sdus polled ({ r with timerRunning := false }.skipTo resume) := by
        have hend : resume ≤ (streamOf maxp sdus).segments.length := by
          simp [streamOf_segments, tagged]
          omega
        have htracks := hs.tracks.jump id hs.segmented.wellFormed (hs.held_ahead resume _ hget) hend
        unfold skipTo
        dsimp only
        split
        · refine ⟨hs.segmented, hlt.le, hs.held_genuine, ?_, htracks⟩
          intro sn held hsn
          have hin : sn ∈ r.buffer := by
            rw [Std.ExtTreeMap.mem_iff_isSome_getElem?, hsn]
            rfl
          have hle := Std.ExtTreeMap.minKey?_le_of_mem hin (Option.get_of_eq_some _ hmin)
          exact Nat.isLE_compare.mp hle
        · exact hs.toSynced.congr rfl rfl rfl rfl
      have hready := deliverReady_settled hskip room
      dsimp only
      split
      · exact hready
      · exact hready.congr rfl rfl rfl rfl
  · exact hs

/-- `poll` hands the delivered SDUs over and keeps everything else. -/
theorem poll_settled (hs : Settled maxp sdus polled r) :
    Settled maxp sdus (polled ++ r.poll.2) r.poll.1 where
  segmented := hs.segmented
  edge_le := hs.edge_le
  held_genuine := hs.held_genuine
  held_ahead := hs.held_ahead
  tracks := by simpa [poll, reassembler] using hs.tracks
  edge_free := hs.edge_free

end UmRx

end AetherStack.Source
