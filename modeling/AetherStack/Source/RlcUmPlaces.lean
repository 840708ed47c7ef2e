import AetherStack.Source.RlcUmInOrder

/-!
# `UmRx` over a lossy channel, through the wrap

`Placed received edge r` relates a receiver to the numbers of the PDUs it was given, with
no bound on them. `vr_next_` is the low half of the window edge `edge`; what has been
received at or ahead of the edge is in the hold area under its low 16 bits, and nothing
else is; the edge is the reassembly position. The distance of a held number from the edge
stays below half a turn, which is what makes the 16-bit arithmetic exact.
-/
namespace AetherStack.Source
open Lib.Reassembly

namespace UmRx

/-- `static_cast<uint16_t>(sn - vr_next_)`, the distance in modular order. -/
def distance (r : UmRx) (sn : Nat) : Nat := (sn + (snModulus - r.vrNext)) % snModulus

/-- The condition of `tick`. -/
def Due (r : UmRx) (nowMs : UInt32) : Prop :=
  r.timerRunning = true ∧ (nowMs - r.timerDeadline).toNat < 2 ^ 31

instance (r : UmRx) (nowMs : UInt32) : Decidable (r.Due nowMs) :=
  inferInstanceAs (Decidable (_ ∧ _))

/-- A due tick is the skip. -/
theorem tick_due {r : UmRx} {nowMs : UInt32} (h : r.Due nowMs) :
    r.tick nowMs = { r with timerRunning := false }.onReorderTimeout nowMs :=
  if_pos h

theorem tick_not_due {r : UmRx} {nowMs : UInt32} (h : ¬ r.Due nowMs) : r.tick nowMs = r :=
  if_neg h

structure Placed (maxp : Nat) (sdus polled : List Bytes) (received : List Nat) (edge : Nat)
    (r : UmRx) : Prop where
  segmented : AllSegmented maxp sdus
  vrNext : r.vrNext = edge % snModulus
  edge_le : edge ≤ (segmentsOf maxp sdus).length
  held : ∀ (sn : Nat) (held : Held), r.buffer[sn]? = some held → ∃ p ∈ received,
    sn = p % snModulus ∧ edge ≤ p ∧ p < edge + 32768 ∧
      (segmentsOf maxp sdus)[p]? = some (held.fi, held.payload)
  kept : ∀ p ∈ received, edge ≤ p → p < edge + 32768 ∧ p % snModulus ∈ r.buffer
  tracks : Tracks False (streamOf maxp sdus) edge r.reassembler (polled ++ r.ready)

variable {maxp : Nat} {sdus polled : List Bytes} {received : List Nat} {edge : Nat} {r : UmRx}

theorem placed_reset (maxp : Nat) (r : UmRx) : Placed maxp [] [] [] 0 r.reset where
  segmented := by simp [AllSegmented]
  vrNext := by simp [reset]
  edge_le := Nat.zero_le _
  held := by simp [reset]
  kept := by simp
  tracks := Tracks.start _ _

/-- The peer sends on. -/
theorem Placed.append (h : Placed maxp sdus polled received edge r) {more : List Bytes}
    (hmore : AllSegmented maxp more) : Placed maxp (sdus ++ more) polled received edge r where
  segmented := by
    intro sdu hsdu
    rcases List.mem_append.mp hsdu with hold | hnew
    · exact h.segmented sdu hold
    · exact hmore sdu hnew
  vrNext := h.vrNext
  edge_le := by
    have := h.edge_le
    simp
    omega
  held := by
    intro sn held hget
    obtain ⟨p, hp, hsn, hlo, hhi, hseg⟩ := h.held sn held hget
    have hlt := (List.getElem?_eq_some_iff.mp hseg).1
    refine ⟨p, hp, hsn, hlo, hhi, ?_⟩
    rw [segmentsOf_append, List.getElem?_append_left hlt, hseg]
  kept := h.kept
  tracks := by
    rw [streamOf_append]
    exact h.tracks.append _

/-- Timers, counters and the duplicate filter are not part of the relation. -/
theorem Placed.congr (h : Placed maxp sdus polled received edge r) {r' : UmRx}
    (hvr : r'.vrNext = r.vrNext) (hbuffer : r'.buffer = r.buffer) (hready : r'.ready = r.ready)
    (hcollect : r'.reassembler = r.reassembler) : Placed maxp sdus polled received edge r' where
  segmented := h.segmented
  vrNext := hvr.trans h.vrNext
  edge_le := h.edge_le
  held := hbuffer ▸ h.held
  kept := hbuffer ▸ h.kept
  tracks := by
    rw [hready, hcollect]
    exact h.tracks

/-- The distance of a number that is less than half a turn ahead. -/
theorem Placed.distance (h : Placed maxp sdus polled received edge r) {p : Nat} (hlo : edge ≤ p)
    (hhi : p < edge + 32768) : r.distance (p % snModulus) = p - edge := by
  rw [UmRx.distance, h.vrNext, snModulus]
  omega

/-- A PDU that has come too late leaves the relation alone. -/
theorem Placed.late (h : Placed maxp sdus polled received edge r) {p : Nat} (hp : p < edge) :
    Placed maxp sdus polled (received ++ [p]) edge r where
  segmented := h.segmented
  vrNext := h.vrNext
  edge_le := h.edge_le
  held := by
    intro sn held hget
    obtain ⟨q, hq, hrest⟩ := h.held sn held hget
    exact ⟨q, List.mem_append_left _ hq, hrest⟩
  kept := by
    intro q hq hle
    rcases List.mem_append.mp hq with hold | hnew
    · exact h.kept q hold hle
    · obtain rfl := List.mem_singleton.mp hnew
      omega
  tracks := h.tracks

/-- The edge is not held, so it has not been received. -/
theorem Placed.edge_not_received (h : Placed maxp sdus polled received edge r)
    (hfree : r.buffer[r.vrNext]? = none) : edge ∉ received := by
  intro hin
  have hmem := (h.kept edge hin (Nat.le_refl _)).2
  rw [← h.vrNext, Std.ExtTreeMap.mem_iff_isSome_getElem?, hfree] at hmem
  cases hmem

/-- The PDU at the edge arrives. -/
theorem Placed.accept (h : Placed maxp sdus polled received edge r)
    (hfree : r.buffer[r.vrNext]? = none) {held : Held}
    (hseg : (segmentsOf maxp sdus)[edge]? = some (held.fi, held.payload)) :
    Placed maxp sdus polled (received ++ [edge]) (edge + 1) (r.acceptInOrder held) := by
  have hlt := (List.getElem?_eq_some_iff.mp hseg).1
  have hnext : (streamOf maxp sdus).segments[edge]? = some (fiKind held.fi, held.payload) := by
    simp [streamOf_segments, tagged, hseg]
  have htracks := h.tracks.accept h.segmented.wellFormed hnext
  rw [acceptInOrder_eq]
  refine ⟨h.segmented, ?_, hlt, ?_, ?_, ?_⟩
  · dsimp only
    rw [h.vrNext, Nat.mod_add_mod]
  · intro sn held' hget
    obtain ⟨p, hp, hsn, hlo, hhi, hheld⟩ := h.held sn held' hget
    have hne : p ≠ edge := by
      rintro rfl
      rw [hsn, ← h.vrNext, hfree] at hget
      cases hget
    exact ⟨p, List.mem_append_left _ hp, hsn, by omega, by omega, hheld⟩
  · intro p hp hle
    rcases List.mem_append.mp hp with hold | hnew
    · have hkept := h.kept p hold (by omega)
      exact ⟨by omega, hkept.2⟩
    · obtain rfl := List.mem_singleton.mp hnew
      omega
  · simpa [reassembler] using htracks

/-- The PDU at the edge comes out of the hold area. -/
theorem Placed.take (h : Placed maxp sdus polled received edge r) {held : Held}
    (hget : r.buffer[r.vrNext]? = some held) :
    edge ∈ received ∧ Placed maxp sdus polled received (edge + 1)
      { r.acceptInOrder held with buffer := (r.acceptInOrder held).buffer.erase r.vrNext } := by
  obtain ⟨p, hp, hsn, hlo, hhi, hseg⟩ := h.held _ _ hget
  obtain rfl : p = edge := by
    rw [h.vrNext, snModulus] at hsn
    omega
  have hlt := (List.getElem?_eq_some_iff.mp hseg).1
  have hnext : (streamOf maxp sdus).segments[p]? = some (fiKind held.fi, held.payload) := by
    simp [streamOf_segments, tagged, hseg]
  have htracks := h.tracks.accept h.segmented.wellFormed hnext
  have hne : ∀ q, p + 1 ≤ q → q < p + 32768 → ¬ r.vrNext = q % snModulus := by
    intro q hqlo hqhi heq
    rw [h.vrNext, snModulus] at heq
    omega
  refine ⟨hp, ?_⟩
  rw [acceptInOrder_eq]
  refine ⟨h.segmented, ?_, hlt, ?_, ?_, ?_⟩
  · dsimp only
    rw [h.vrNext, Nat.mod_add_mod]
  · intro sn held' hget'
    dsimp only at hget'
    rw [Std.ExtTreeMap.getElem?_erase] at hget'
    split at hget'
    · cases hget'
    · rename_i hother
      obtain ⟨q, hq, hsn', hlo', hhi', hseg'⟩ := h.held sn held' hget'
      have hqp : q ≠ p := by
        rintro rfl
        apply hother
        rw [hsn', ← h.vrNext]
        exact Std.ReflCmp.compare_self
      exact ⟨q, hq, hsn', by omega, by omega, hseg'⟩
  · intro q hq hle
    obtain ⟨hhi', hmem⟩ := h.kept q hq (by omega)
    refine ⟨by omega, ?_⟩
    dsimp only
    rw [Std.ExtTreeMap.mem_erase]
    exact ⟨by simpa using hne q hle hhi', hmem⟩
  · simpa [reassembler] using htracks

/-- The drain takes a run of received PDUs and stops at the first one that is not held. -/
theorem Placed.deliverLoop (fuel : Nat) {edge : Nat} {r : UmRx}
    (h : Placed maxp sdus polled received edge r) :
    ∃ edge', edge ≤ edge' ∧ (∀ p, edge ≤ p → p < edge' → p ∈ received) ∧
      Placed maxp sdus polled received edge' (UmRx.deliverLoop fuel r) ∧
      (UmRx.deliverLoop fuel r).dropped = r.dropped := by
  induction fuel generalizing edge r with
  | zero => exact ⟨edge, Nat.le_refl _, by omega, h, rfl⟩
  | succ fuel ih =>
    unfold UmRx.deliverLoop
    split
    · exact ⟨edge, Nat.le_refl _, by omega, h, rfl⟩
    · rename_i held hget
      obtain ⟨hin, hnext⟩ := h.take hget
      obtain ⟨edge', hle, hall, hplaced, hdropped⟩ := ih hnext
      refine ⟨edge', by omega, ?_, hplaced, ?_⟩
      · intro p hlo hhi
        rcases Nat.lt_or_eq_of_le hlo with hlt | rfl
        · exact hall p hlt hhi
        · exact hin
      · rw [hdropped, acceptInOrder_eq]

/-- Between two calls the PDU at the edge is not held. -/
structure Waiting (maxp : Nat) (sdus polled : List Bytes) (received : List Nat) (edge : Nat)
    (r : UmRx) : Prop extends Placed maxp sdus polled received edge r where
  edge_free : r.buffer[r.vrNext]? = none

theorem Waiting.congr (h : Waiting maxp sdus polled received edge r) {r' : UmRx}
    (hvr : r'.vrNext = r.vrNext) (hbuffer : r'.buffer = r.buffer) (hready : r'.ready = r.ready)
    (hcollect : r'.reassembler = r.reassembler) : Waiting maxp sdus polled received edge r' where
  toPlaced := h.toPlaced.congr hvr hbuffer hready hcollect
  edge_free := by
    rw [hvr, hbuffer]
    exact h.edge_free

/-- The edge moves over numbers that were not received, up to `resume`, and then over
received ones; `dropped_` counts the first kind only. -/
def Advances (received : List Nat) (edge edge' : Nat) (dropped dropped' : UInt32) : Prop :=
  ∃ resume, edge ≤ resume ∧ resume ≤ edge' ∧ (∀ p, edge ≤ p → p < resume → p ∉ received) ∧
    (∀ p, resume ≤ p → p < edge' → p ∈ received) ∧ (edge' = edge ∨ resume < edge') ∧
    dropped' = dropped + UInt32.ofNat (resume - edge)

theorem Advances.stay (received : List Nat) (edge : Nat) (dropped : UInt32) :
    Advances received edge edge dropped dropped :=
  ⟨edge, Nat.le_refl _, Nat.le_refl _, by omega, by omega, .inl rfl, by simp⟩

/-- What is skipped is what the edge passed without having received it. -/
theorem Advances.dropped_eq {edge' : Nat} {dropped dropped' : UInt32}
    (h : Advances received edge edge' dropped dropped') :
    dropped' = dropped + UInt32.ofNat ((Finset.Ico edge edge').filter (· ∉ received)).card := by
  obtain ⟨resume, hlo, hhi, hskip, htake, -, hdropped⟩ := h
  have hset : (Finset.Ico edge edge').filter (· ∉ received) = Finset.Ico edge resume := by
    ext p
    simp only [Finset.mem_filter, Finset.mem_Ico]
    constructor
    · rintro ⟨⟨hple, hplt⟩, hout⟩
      refine ⟨hple, ?_⟩
      by_contra hge
      exact hout (htake p (by omega) hplt)
    · rintro ⟨hple, hplt⟩
      exact ⟨⟨hple, by omega⟩, hskip p hple hplt⟩
  rw [hdropped, hset, Nat.card_Ico]

/-- Delivery passes positions that were received. -/
theorem Placed.deliverReady (h : Placed maxp sdus polled received edge r) :
    ∃ edge', edge ≤ edge' ∧ (∀ p, edge ≤ p → p < edge' → p ∈ received) ∧
      Waiting maxp sdus polled received edge' r.deliverReady ∧
      r.deliverReady.dropped = r.dropped := by
  obtain ⟨edge', hle, hall, hplaced, hdropped⟩ := h.deliverLoop r.buffer.size
  have hwait : Waiting maxp sdus polled received edge' (UmRx.deliverLoop r.buffer.size r) :=
    ⟨hplaced, deliverLoop_done _ r (Nat.le_refl _)⟩
  refine ⟨edge', hle, hall, ?_⟩
  unfold UmRx.deliverReady
  dsimp only
  split
  · exact ⟨hwait.congr rfl rfl rfl rfl, hdropped⟩
  · exact ⟨hwait, hdropped⟩

/-- The PDU at the edge and everything that waited for it. -/
theorem Waiting.inOrder (h : Waiting maxp sdus polled received edge r) {held : Held}
    (hseg : (segmentsOf maxp sdus)[edge]? = some (held.fi, held.payload)) :
    ∃ edge', Waiting maxp sdus polled (received ++ [edge]) edge'
        (r.acceptInOrder held).deliverReady ∧
      edge < edge' ∧ (∀ p, edge ≤ p → p < edge' → p ∈ received ++ [edge]) ∧
      (r.acceptInOrder held).deliverReady.dropped = r.dropped := by
  obtain ⟨edge', hle, hall, hwait, hdropped⟩ := (h.accept h.edge_free hseg).deliverReady
  refine ⟨edge', hwait, hle, ?_, ?_⟩
  · intro p hlo hhi
    rcases Nat.lt_or_eq_of_le hlo with hlt | rfl
    · exact hall p hlt hhi
    · simp
  · rw [hdropped, acceptInOrder_eq]

/-- A PDU ahead of the edge is held. -/
theorem Waiting.hold (h : Waiting maxp sdus polled received edge r) {p : Nat} {held : Held}
    (hseg : (segmentsOf maxp sdus)[p]? = some (held.fi, held.payload)) (hlo : edge < p)
    (hhi : p < edge + 32768) :
    Waiting maxp sdus polled (received ++ [p]) edge
      { r with buffer := r.buffer.insert (p % snModulus) held } := by
  refine ⟨⟨h.segmented, h.vrNext, h.edge_le, ?_, ?_, h.tracks⟩, ?_⟩
  · intro sn held' hget
    dsimp only at hget
    rw [Std.ExtTreeMap.getElem?_insert] at hget
    split at hget
    · rename_i heq
      obtain rfl := Option.some.inj hget
      exact ⟨p, by simp, (Nat.compare_eq_eq.mp heq).symm, hlo.le, hhi, hseg⟩
    · obtain ⟨q, hq, hrest⟩ := h.held sn held' hget
      exact ⟨q, List.mem_append_left _ hq, hrest⟩
  · intro q hq hle
    dsimp only
    rw [Std.ExtTreeMap.mem_insert]
    rcases List.mem_append.mp hq with hold | hnew
    · obtain ⟨hlt, hmem⟩ := h.kept q hold hle
      exact ⟨hlt, .inr hmem⟩
    · obtain rfl := List.mem_singleton.mp hnew
      exact ⟨hhi, .inl Std.ReflCmp.compare_self⟩
  · dsimp only
    rw [Std.ExtTreeMap.getElem?_insert, if_neg]
    · exact h.edge_free
    · rw [h.vrNext, Nat.compare_eq_eq, snModulus]
      omega

/-- A jump over a gap when nothing is held skips nothing that was received. -/
theorem Waiting.jump (h : Waiting maxp sdus polled received edge r) {p : Nat} {held : Held}
    (hseg : (segmentsOf maxp sdus)[p]? = some (held.fi, held.payload)) (hlo : edge ≤ p)
    (hhi : p < edge + 32768) (hnothing : r.buffer = ∅) :
    ∃ edge', Waiting maxp sdus polled (received ++ [p]) edge'
        (r.jumpAhead (p % snModulus) held) ∧
      Advances (received ++ [p]) edge edge' r.dropped (r.jumpAhead (p % snModulus) held).dropped := by
  have hlt := (List.getElem?_eq_some_iff.mp hseg).1
  have hend : p ≤ (streamOf maxp sdus).segments.length := by
    simp [streamOf_segments, tagged]
    omega
  have hbehind : ∀ q ∈ received, q < edge := by
    intro q hq
    by_contra hge
    have hmem := (h.kept q hq (by omega)).2
    rw [hnothing] at hmem
    exact Std.ExtTreeMap.not_mem_empty hmem
  have htracks := h.tracks.jump id h.segmented.wellFormed hlo hend
  have hresync : Waiting maxp sdus polled received p { r with
      dropped := r.dropped + UInt32.ofNat (r.distance (p % snModulus))
      vrNext := p % snModulus
      buffer := ∅
      collecting := false
      partialSdu := []
      timerRunning := false } := by
    refine ⟨⟨h.segmented, rfl, hlt.le, by simp, ?_, htracks⟩, by simp⟩
    intro q hq hle
    have := hbehind q hq
    omega
  obtain ⟨edge', hwait, hle, hall, hdropped⟩ := hresync.inOrder hseg
  refine ⟨edge', hwait, p, hlo, hle.le, ?_, hall, .inr hle, ?_⟩
  · intro q hqlo hqhi hq
    rcases List.mem_append.mp hq with hold | hnew
    · have := hbehind q hold
      omega
    · obtain rfl := List.mem_singleton.mp hnew
      omega
  · refine hdropped.trans ?_
    rw [h.distance hlo hhi]

/-- One new PDU less than half a turn away, with nothing held if it is far ahead. -/
theorem Waiting.rxNew (h : Waiting maxp sdus polled received edge r) (nowMs : UInt32) {p : Nat}
    {held : Held} (hseg : (segmentsOf maxp sdus)[p]? = some (held.fi, held.payload))
    (hbehind : edge ≤ p + 32768) (hahead : p < edge + 32768)
    (hfar : edge + r.cfg.window.toNat ≤ p → r.buffer = ∅) :
    ∃ edge', Waiting maxp sdus polled (received ++ [p]) edge'
        (r.rxNew nowMs (p % snModulus) held) ∧
      Advances (received ++ [p]) edge edge' r.dropped
        (r.rxNew nowMs (p % snModulus) held).dropped := by
  have hoff : snOffset (p % snModulus) r.vrNext = (p : Int) - edge := by
    rw [h.vrNext]
    exact snOffset_mod hbehind hahead
  unfold UmRx.rxNew ahead
  rw [hoff]
  rcases Nat.lt_or_ge p edge with hlate | hle
  · -- behind the edge: counted as stale
    rw [if_neg (by omega)]
    dsimp only
    rw [if_neg (by omega)]
    exact ⟨edge, ⟨(h.toPlaced.late hlate).congr rfl rfl rfl rfl, h.edge_free⟩, Advances.stay _ _ _⟩
  · rcases Nat.lt_or_ge p (edge + r.cfg.window.toNat) with hin | hout
    · rw [if_pos ⟨by omega, by omega⟩]
      rcases Nat.eq_or_lt_of_le hle with rfl | hlt
      · obtain ⟨edge', hwait, hlt, hall, hdropped⟩ := h.inOrder hseg
        have hzero : ((edge : Int) - edge).toNat = 0 := by omega
        rw [hzero]
        exact ⟨edge', hwait, edge, Nat.le_refl _, hlt.le, by omega, hall, .inr hlt,
          by simpa using hdropped⟩
      · have hheld := h.hold hseg hlt hahead
        obtain ⟨d, hd⟩ : ∃ d, ((p : Int) - edge).toNat = d + 1 :=
          ⟨p - edge - 1, by omega⟩
        rw [hd]
        split
        · rename_i hnone
          cases hnone
        · rename_i hzero
          cases hzero
        · dsimp only
          split
          · exact ⟨edge, hheld, Advances.stay _ _ _⟩
          · exact ⟨edge, hheld.congr rfl rfl rfl rfl, Advances.stay _ _ _⟩
    · rw [if_neg (by omega)]
      dsimp only
      rw [if_pos (by omega)]
      exact h.jump hseg hle hahead (hfar hout)

/-- The held numbers do not straddle the wrap: the numerically smallest one, where the
reordering timeout resumes, is also the nearest one. -/
def Unsplit (r : UmRx) : Prop :=
  ∀ a ∈ r.buffer.keys, ∀ b ∈ r.buffer.keys, ¬ (a < r.vrNext ∧ r.vrNext ≤ b)

instance (r : UmRx) : Decidable r.Unsplit := inferInstanceAs (Decidable (∀ a ∈ _, _))

/-- Away from the wrap the smallest number is the nearest. -/
theorem Unsplit.nearest (h : r.Unsplit) (hvr : r.vrNext < snModulus) {resume : Nat}
    (hmin : r.buffer.minKey? = some resume)
    (hkeys : ∀ sn ∈ r.buffer, sn < snModulus) :
    ∀ sn ∈ r.buffer, r.distance resume ≤ r.distance sn := by
  intro sn hsn
  have hmem := Std.ExtTreeMap.minKey?_mem hmin
  have hle : resume ≤ sn :=
    Nat.isLE_compare.mp (Std.ExtTreeMap.minKey?_le_of_mem hsn (Option.get_of_eq_some _ hmin))
  have hsplit := h resume (Std.ExtTreeMap.mem_keys.mpr hmem) sn (Std.ExtTreeMap.mem_keys.mpr hsn)
  have hresume := hkeys resume hmem
  have hlt := hkeys sn hsn
  unfold distance
  rw [snModulus] at hvr hresume hlt ⊢
  omega

/-- The buffer holds 16-bit numbers. -/
theorem Placed.keys_lt (h : Placed maxp sdus polled received edge r) {sn : Nat}
    (hsn : sn ∈ r.buffer) : sn < snModulus := by
  obtain ⟨p, -, rfl, -⟩ := h.held sn _ (Std.ExtTreeMap.getElem?_eq_some_getElem hsn)
  exact Nat.mod_lt _ (by decide)

/-- A timeout of a receiver that holds something and whose held numbers do not straddle the
wrap: delivery resumes at the nearest held number, and nothing received is skipped. -/
theorem Waiting.timeout (h : Waiting maxp sdus polled received edge r) (hunsplit : r.Unsplit)
    (nowMs : UInt32) {resume : Nat} (hmin : r.buffer.minKey? = some resume) :
    ∃ edge', Waiting maxp sdus polled received edge' (r.onReorderTimeout nowMs) ∧
      Advances received edge edge' r.dropped (r.onReorderTimeout nowMs).dropped ∧
      (∀ sn ∈ r.buffer, r.distance resume ≤ r.distance sn) ∧
      (r.onReorderTimeout nowMs).dropped =
        r.dropped + UInt32.ofNat (r.distance resume) ∧
      edge + r.distance resume < edge' := by
  have hmem := Std.ExtTreeMap.minKey?_mem hmin
  have hget := Std.ExtTreeMap.getElem?_eq_some_getElem hmem
  obtain ⟨p, hp, hsn, hlo, hhi, hseg⟩ := h.held resume _ hget
  have hlt := (List.getElem?_eq_some_iff.mp hseg).1
  have hvr : r.vrNext < snModulus := by
    rw [h.vrNext]
    exact Nat.mod_lt _ (by decide)
  have hnearest := hunsplit.nearest hvr hmin fun sn hin => h.toPlaced.keys_lt hin
  have hdist : r.distance resume = p - edge := by
    rw [hsn]
    exact h.toPlaced.distance hlo hhi
  have hfirst : ∀ q ∈ received, edge ≤ q → p ≤ q := by
    intro q hq hle
    obtain ⟨hqhi, hqmem⟩ := h.kept q hq hle
    have hnear := hnearest _ hqmem
    rw [hdist, h.toPlaced.distance hle hqhi] at hnear
    omega
  have hne : p ≠ edge := fun heq => h.toPlaced.edge_not_received h.edge_free (heq ▸ hp)
  have hskip : Placed maxp sdus polled received p (r.skipTo resume) ∧
      (r.skipTo resume).dropped = r.dropped + UInt32.ofNat (r.distance resume) := by
    have hend : p ≤ (streamOf maxp sdus).segments.length := by
      simp [streamOf_segments, tagged]
      omega
    have htracks := h.tracks.jump id h.segmented.wellFormed hlo hend
    have hpos : (resume + (snModulus - r.vrNext)) % snModulus > 0 := by
      rw [UmRx.distance] at hdist
      omega
    unfold skipTo
    dsimp only
    rw [if_pos hpos]
    refine ⟨⟨h.segmented, hsn, hlt.le, ?_, ?_, htracks⟩, rfl⟩
    · intro sn held hheld
      obtain ⟨q, hq, hqsn, hqlo, hqhi, hqseg⟩ := h.held sn held hheld
      exact ⟨q, hq, hqsn, hfirst q hq hqlo, by omega, hqseg⟩
    · intro q hq hle
      obtain ⟨hqhi, hqmem⟩ := h.kept q hq (by omega)
      exact ⟨by omega, hqmem⟩
  obtain ⟨edge', hle, hall, hwait, hdropped⟩ := hskip.1.deliverReady
  have hpass : p < edge' := by
    rcases Nat.lt_or_eq_of_le hle with hlt' | rfl
    · exact hlt'
    · exact absurd hp (hwait.toPlaced.edge_not_received hwait.edge_free)
  have hadvance : Advances received edge edge' r.dropped (r.skipTo resume).deliverReady.dropped := by
    refine ⟨p, hlo, hle, ?_, hall, .inr hpass, ?_⟩
    · intro q hqlo hqhi hq
      have := hfirst q hq hqlo
      omega
    · rw [hdropped, hskip.2, hdist]
  have hcount : (r.skipTo resume).deliverReady.dropped =
      r.dropped + UInt32.ofNat (r.distance resume) := hdropped.trans hskip.2
  have hfinal : edge + r.distance resume < edge' := by
    rw [hdist]
    omega
  unfold onReorderTimeout
  rw [hmin]
  dsimp only
  split
  · exact ⟨edge', hwait, hadvance, hnearest, hcount, hfinal⟩
  · exact ⟨edge', hwait.congr rfl rfl rfl rfl, hadvance, hnearest, hcount, hfinal⟩

end UmRx

end AetherStack.Source
