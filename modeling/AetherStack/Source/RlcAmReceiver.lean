import AetherStack.Source.RlcAmTransmitter

/-!
# What `AmRx` accepts, delivers and gives up

`Synced` relates one receiver to the SDUs the peer accepted, as long as the 16-bit
numbers have not wrapped: the window edge is the reassembly position, the holes are a
block that starts at the edge, the hold area has genuine PDUs under their numbers, and
every number below the edge was accepted or declared lost. `Exhausted` is what is left
of it when PDU number 65535 is resolved and the edge returns to zero.
-/
namespace AetherStack.Source
open Lib.Reassembly

/-- Everything a receiver did since its reset. -/
structure RxHistory where
  delivered : List Bytes := []
  accepted : List (Nat × Held) := []
  lost : List Nat := []
  deriving DecidableEq

def RxHistory.add (h : RxHistory) (out : AmOutcome) : RxHistory :=
  ⟨h.delivered ++ out.delivered, h.accepted ++ out.accepted, h.lost ++ out.lost⟩

@[simp] theorem RxHistory.add_empty (h : RxHistory) : h.add {} = h := by
  simp [RxHistory.add]

@[simp] theorem RxHistory.add_statusNeeded (h : RxHistory) (out : AmOutcome) (b : Bool) :
    h.add { out with statusNeeded := b } = h.add out := rfl

/-- PDU number `sn` was accepted in order with its own content, or `sn` was given up. -/
def Resolved (segs : List (UInt8 × Bytes)) (h : RxHistory) (sn : Nat) : Prop :=
  (∃ seg, segs[sn]? = some seg ∧ (sn, ⟨seg.1, seg.2⟩) ∈ h.accepted) ∨ sn ∈ h.lost

theorem Resolved.add {segs : List (UInt8 × Bytes)} {h : RxHistory} {sn : Nat}
    (hr : Resolved segs h sn) (out : AmOutcome) : Resolved segs (h.add out) sn := by
  rcases hr with ⟨seg, hseg, hmem⟩ | hmem
  · exact .inl ⟨seg, hseg, List.mem_append_left _ hmem⟩
  · exact .inr (List.mem_append_left _ hmem)

/-- What is resolved stays so when more is sent. -/
theorem Resolved.append {segs : List (UInt8 × Bytes)} {h : RxHistory} {sn : Nat}
    (hr : Resolved segs h sn) (more : List (UInt8 × Bytes)) : Resolved (segs ++ more) h sn := by
  rcases hr with ⟨seg, hseg, hmem⟩ | hmem
  · have hn : sn < segs.length := (List.getElem?_eq_some_iff.mp hseg).1
    exact .inl ⟨seg, by rw [List.getElem?_append_left hn, hseg], hmem⟩
  · exact .inr hmem

namespace AmRx

def reassembler (r : AmRx) : Reassembler UInt8 := ⟨r.collecting, r.partialSdu⟩

/-- `accept_in_order` is one step of the reassembly library plus bookkeeping. -/
theorem acceptInOrder_eq (r : AmRx) (sn : Nat) (held : Held) (out : AmOutcome) :
    r.acceptInOrder sn held out =
      ({ r with
          holes := r.holes.erase sn
          accepts := r.accepts + 1
          vrNext := (r.vrNext + 1) % snModulus
          collecting := (r.reassembler.accept (fiKind held.fi, held.payload)).1.collecting
          partialSdu := (r.reassembler.accept (fiKind held.fi, held.payload)).1.buffer },
        { out with
          accepted := out.accepted ++ [(sn, held)]
          delivered := out.delivered ++
            (r.reassembler.accept (fiKind held.fi, held.payload)).2 }) := by
  unfold acceptInOrder reassembler
  cases fiKind held.fi with
  | complete => rfl
  | first => simp [Reassembler.accept]
  | last => cases r.collecting <;> simp [Reassembler.accept, Reassembler.idle]
  | middle => cases r.collecting <;> simp [Reassembler.accept]

@[simp] theorem acceptInOrder_reorder (r : AmRx) (sn : Nat) (held : Held) (out : AmOutcome) :
    (r.acceptInOrder sn held out).1.reorder = r.reorder := by
  rw [acceptInOrder_eq]

@[simp] theorem acceptInOrder_cfg (r : AmRx) (sn : Nat) (held : Held) (out : AmOutcome) :
    (r.acceptInOrder sn held out).1.cfg = r.cfg := by
  rw [acceptInOrder_eq]

@[simp] theorem drainLoop_cfg (fuel : Nat) (r : AmRx) (out : AmOutcome) :
    (drainLoop fuel r out).1.cfg = r.cfg := by
  induction fuel generalizing r out with
  | zero => rfl
  | succ fuel ih =>
    unfold drainLoop
    split
    · rfl
    · simp [ih]

@[simp] theorem holdAhead_cfg (r : AmRx) (d : AmDataPdu) : (r.holdAhead d).1.cfg = r.cfg := by
  unfold holdAhead
  dsimp only
  split <;> rfl

@[simp] theorem rxData_cfg (r : AmRx) (d : AmDataPdu) : (r.rxData d).1.cfg = r.cfg := by
  unfold rxData
  split
  · rfl
  · dsimp only
    split
    · rfl
    · split <;> split <;> simp [acceptAndDrain, drainReorder]

@[simp] theorem rx_cfg (r : AmRx) (pdu : Bytes) : (r.rx pdu).1.cfg = r.cfg := by
  unfold rx
  split
  · rfl
  · exact rxData_cfg _ _

@[simp] theorem noteProgress_cfg (r : AmRx) (now : Int) : (r.noteProgress now).cfg = r.cfg := by
  unfold noteProgress
  split <;> rfl

@[simp] theorem tick_cfg (r : AmRx) (nowMs : UInt32) : (r.tick nowMs).1.cfg = r.cfg := by
  unfold tick
  split
  · rfl
  · dsimp only
    split
    · simp
    · simp [drainReorder]

/-- Draining declares nothing lost. -/
theorem drainLoop_lost (fuel : Nat) (r : AmRx) (out : AmOutcome) :
    (drainLoop fuel r out).2.lost = out.lost := by
  induction fuel generalizing r out with
  | zero => rfl
  | succ fuel ih =>
    unfold drainLoop
    split
    · rfl
    · rw [ih, acceptInOrder_eq]

/-- Only the reordering timeout gives numbers up. -/
theorem rx_lost (r : AmRx) (pdu : Bytes) : (r.rx pdu).2.lost = [] := by
  unfold rx
  split
  · rfl
  · rename_i d _
    unfold rxData
    split
    · rfl
    · dsimp only
      split
      · rfl
      · have hhold : ∀ r : AmRx, (r.holdAhead d).2.lost = [] := by
          intro r
          unfold holdAhead
          dsimp only
          split <;> rfl
        have haccept : ∀ r : AmRx, (r.acceptAndDrain d).2.lost = [] := by
          intro r
          rw [acceptAndDrain, drainReorder, drainLoop_lost, acceptInOrder_eq]
        split <;> split
        · exact hhold _
        · exact haccept _
        · exact hhold _
        · exact haccept _

variable {maxp : Nat} {sdus : List Bytes}

structure Synced (maxp : Nat) (sdus : List Bytes) (r : AmRx) (h : RxHistory) : Prop where
  segmented : AllSegmented maxp sdus
  edge_le : r.vrNext ≤ (segmentsOf maxp sdus).length
  edge_lt : r.vrNext < snModulus
  holes_mem : ∀ x ∈ r.holes, r.vrNext ≤ x ∧ x < (segmentsOf maxp sdus).length ∧ x < snModulus
  holes_closed : ∀ x ∈ r.holes, ∀ y, r.vrNext ≤ y → y < x → y ∈ r.holes
  held_genuine : ∀ (sn : Nat) (held : Held), r.reorder[sn]? = some held →
    (segmentsOf maxp sdus)[sn]? = some (held.fi, held.payload)
  tracks : Tracks (r.cfg.tReorderMs = 0) (streamOf maxp sdus) r.vrNext r.reassembler h.delivered
  resolved : ∀ sn < r.vrNext, Resolved (segmentsOf maxp sdus) h sn
  accepted_genuine : ∀ x ∈ h.accepted, x.1 < r.vrNext ∧
    (segmentsOf maxp sdus)[x.1]? = some (x.2.fi, x.2.payload)

/-- The whole sequence-number space was sent and is resolved. -/
def Exhausted (maxp : Nat) (sdus : List Bytes) (h : RxHistory) : Prop :=
  snModulus ≤ (segmentsOf maxp sdus).length ∧
    ∀ sn < snModulus, Resolved (segmentsOf maxp sdus) h sn

def SyncedOrExhausted (maxp : Nat) (sdus : List Bytes) (r : AmRx) (h : RxHistory) : Prop :=
  Synced maxp sdus r h ∨ Exhausted maxp sdus h

theorem Exhausted.add {h : RxHistory} (he : Exhausted maxp sdus h) (out : AmOutcome) :
    Exhausted maxp sdus (h.add out) :=
  ⟨he.1, fun sn hsn => (he.2 sn hsn).add out⟩

theorem synced_initial (maxp : Nat) (cfg : AmConfig) : Synced maxp [] { cfg := cfg : AmRx } {} where
  segmented := by simp [AllSegmented]
  edge_le := by simp
  edge_lt := by simp [snModulus]
  holes_mem := by simp
  holes_closed := by simp
  held_genuine := by simp
  tracks := Tracks.start _ _
  resolved := by simp
  accepted_genuine := by simp

/-- The peer accepting one more SDU does not disturb the receiver. -/
theorem Synced.append {r : AmRx} {h : RxHistory} (hs : Synced maxp sdus r h) {sdu : Bytes}
    (hsdu : 0 < segmentCount sdu.length maxp) : Synced maxp (sdus ++ [sdu]) r h where
  segmented := by
    intro x hx
    rcases List.mem_append.mp hx with hold | hnew
    · exact hs.segmented x hold
    · obtain rfl := List.mem_singleton.mp hnew
      exact hsdu
  edge_le := by
    have := hs.edge_le
    simp
    omega
  edge_lt := hs.edge_lt
  holes_mem := by
    intro x hx
    have := hs.holes_mem x hx
    simp
    omega
  holes_closed := hs.holes_closed
  held_genuine := by
    intro sn held hheld
    have hseg := hs.held_genuine sn held hheld
    have hn := (List.getElem?_eq_some_iff.mp hseg).1
    rw [segmentsOf_append, List.getElem?_append_left hn, hseg]
  tracks := by
    rw [streamOf_append]
    exact hs.tracks.append _
  resolved := by
    intro sn hsn
    rw [segmentsOf_append]
    exact (hs.resolved sn hsn).append _
  accepted_genuine := by
    intro x hx
    obtain ⟨hlt, hseg⟩ := hs.accepted_genuine x hx
    have hn := (List.getElem?_eq_some_iff.mp hseg).1
    exact ⟨hlt, by rw [segmentsOf_append, List.getElem?_append_left hn, hseg]⟩

theorem Exhausted.append {h : RxHistory} (he : Exhausted maxp sdus h) (sdu : Bytes) :
    Exhausted maxp (sdus ++ [sdu]) h := by
  refine ⟨?_, fun sn hsn => ?_⟩
  · have := he.1
    simp
    omega
  · rw [segmentsOf_append]
    exact (he.2 sn hsn).append _

/-- Accepting the PDU at the edge moves the edge by one, or exhausts the numbers. -/
theorem acceptInOrder_synced {r : AmRx} {h : RxHistory} {out : AmOutcome} (held : Held)
    (hs : Synced maxp sdus r (h.add out))
    (hseg : (segmentsOf maxp sdus)[r.vrNext]? = some (held.fi, held.payload)) :
    SyncedOrExhausted maxp sdus (r.acceptInOrder r.vrNext held out).1
      (h.add (r.acceptInOrder r.vrNext held out).2) := by
  have hlt : r.vrNext < (segmentsOf maxp sdus).length := (List.getElem?_eq_some_iff.mp hseg).1
  have hedge := hs.edge_lt
  -- everything below the new edge is resolved in either case
  have hres : ∀ sn < r.vrNext + 1, Resolved (segmentsOf maxp sdus)
      (h.add (r.acceptInOrder r.vrNext held out).2) sn := by
    intro sn hsn
    rw [acceptInOrder_eq]
    rcases Nat.lt_succ_iff_lt_or_eq.mp hsn with hbelow | rfl
    · rcases hs.resolved sn hbelow with ⟨seg, hseg', hmem⟩ | hmem
      · refine .inl ⟨seg, hseg', ?_⟩
        simp only [RxHistory.add, List.mem_append] at hmem ⊢
        rcases hmem with hm | hm
        · exact .inl hm
        · exact .inr (.inl hm)
      · exact .inr hmem
    · exact .inl ⟨_, hseg, by simp [RxHistory.add]⟩
  by_cases hwrap : r.vrNext + 1 < snModulus
  · left
    rw [acceptInOrder_eq] at hres ⊢
    have hmod : (r.vrNext + 1) % snModulus = r.vrNext + 1 := Nat.mod_eq_of_lt hwrap
    have hnext : (streamOf maxp sdus).segments[r.vrNext]? = some (fiKind held.fi, held.payload) := by
      simp [streamOf_segments, tagged, hseg]
    have htracks := hs.tracks.accept hs.segmented.wellFormed hnext
    exact {
      segmented := hs.segmented
      edge_le := by simp only [hmod]; omega
      edge_lt := by simp only [hmod]; exact hwrap
      holes_mem := by
        intro x hx
        simp only [hmod]
        obtain ⟨hne, hx⟩ := Std.ExtTreeSet.mem_erase.mp hx
        have hmem := hs.holes_mem x hx
        have : r.vrNext ≠ x := by
          rintro rfl
          simp at hne
        omega
      holes_closed := by
        intro x hx y hy hyx
        simp only [hmod] at hy
        refine Std.ExtTreeSet.mem_erase.mpr ⟨?_, ?_⟩
        · simp only [ne_eq, Nat.compare_eq_eq]
          omega
        · exact hs.holes_closed x (Std.ExtTreeSet.mem_of_mem_erase hx) y (by omega) hyx
      held_genuine := hs.held_genuine
      tracks := by
        simp only [hmod]
        simpa only [RxHistory.add, List.append_assoc, reassembler] using htracks
      resolved := by
        simp only [hmod]
        exact hres
      accepted_genuine := by
        simp only [hmod]
        intro x hx
        simp only [RxHistory.add, ← List.append_assoc] at hx
        rcases List.mem_append.mp hx with hold | hnew
        · obtain ⟨hbelow, hgen⟩ := hs.accepted_genuine x hold
          exact ⟨by omega, hgen⟩
        · obtain rfl := List.mem_singleton.mp hnew
          exact ⟨Nat.lt_succ_self _, hseg⟩ }
  · right
    exact ⟨by omega, fun sn hsn => hres sn (by omega)⟩

/-- Accepting a segment keeps the account of the payloads. -/
theorem acceptInOrder_exhausted {r : AmRx} {h : RxHistory} {out : AmOutcome} {sn : Nat}
    {held : Held} (he : Exhausted maxp sdus (h.add out)) :
    Exhausted maxp sdus (h.add (r.acceptInOrder sn held out).2) := by
  rw [acceptInOrder_eq]
  refine ⟨he.1, fun x hx => ?_⟩
  rcases he.2 x hx with ⟨seg, hseg, hmem⟩ | hmem
  · refine .inl ⟨seg, hseg, ?_⟩
    simp only [RxHistory.add, List.mem_append] at hmem ⊢
    rcases hmem with hm | hm
    · exact .inl hm
    · exact .inr (.inl hm)
  · exact .inr hmem

theorem drainLoop_exhausted {h : RxHistory} (fuel : Nat) {r : AmRx} {out : AmOutcome}
    (he : Exhausted maxp sdus (h.add out)) :
    Exhausted maxp sdus (h.add (drainLoop fuel r out).2) := by
  induction fuel generalizing r out with
  | zero => exact he
  | succ fuel ih =>
    unfold drainLoop
    split
    · exact he
    · exact ih (acceptInOrder_exhausted he)

/-- Releasing the hold area keeps the receiver synced. -/
theorem drainLoop_synced {h : RxHistory} (fuel : Nat) {r : AmRx} {out : AmOutcome}
    (hs : Synced maxp sdus r (h.add out)) :
    SyncedOrExhausted maxp sdus (drainLoop fuel r out).1 (h.add (drainLoop fuel r out).2) := by
  induction fuel generalizing r out with
  | zero => exact .inl hs
  | succ fuel ih =>
    unfold drainLoop
    split
    · exact .inl hs
    · rename_i held hheld
      dsimp only
      rcases acceptInOrder_synced held hs (hs.held_genuine _ _ hheld) with hnext | hend
      · refine ih { hnext with held_genuine := ?_ }
        intro sn held' hheld'
        rw [Std.ExtTreeMap.getElem?_erase] at hheld'
        split at hheld'
        · cases hheld'
        · exact hnext.held_genuine sn held' hheld'
      · exact .inr (drainLoop_exhausted fuel hend)

/-- `recordHoles` adds numbers of the gap only, and adds them without leaving one out. -/
theorem recordHoles_spec (count sn : Nat) (holes : SnSet) (gaps : Nat) (needed : Bool)
    (low : Nat) (hlow : low ≤ sn) (hbelow : ∀ y, low ≤ y → y < sn → y ∈ holes)
    (hclosed : ∀ x ∈ holes, ∀ y, low ≤ y → y < x → y ∈ holes) :
    (∀ x ∈ (recordHoles count sn (holes, gaps, needed)).1,
      x ∈ holes ∨ (sn ≤ x ∧ x < sn + count)) ∧
    (∀ x ∈ (recordHoles count sn (holes, gaps, needed)).1, ∀ y, low ≤ y → y < x →
      y ∈ (recordHoles count sn (holes, gaps, needed)).1) := by
  induction count generalizing sn holes gaps needed with
  | zero => exact ⟨fun x hx => .inl hx, hclosed⟩
  | succ count ih =>
    unfold recordHoles
    split
    · have hbelow' : ∀ y, low ≤ y → y < sn + 1 → y ∈ holes.insert sn := by
        intro y hy hlt
        rcases Nat.lt_succ_iff_lt_or_eq.mp hlt with hb | rfl
        · exact Std.ExtTreeSet.mem_insert.mpr (.inr (hbelow y hy hb))
        · exact Std.ExtTreeSet.mem_insert_self
      have hclosed' : ∀ x ∈ holes.insert sn, ∀ y, low ≤ y → y < x → y ∈ holes.insert sn := by
        intro x hx y hy hyx
        rcases Std.ExtTreeSet.mem_insert.mp hx with heq | hold
        · obtain rfl : sn = x := by simpa using heq
          exact hbelow' y hy (by omega)
        · exact Std.ExtTreeSet.mem_insert.mpr (.inr (hclosed x hold y hy hyx))
      obtain ⟨hmem, hcl⟩ := ih (sn + 1) (holes.insert sn) (gaps + 1) true (by omega) hbelow' hclosed'
      refine ⟨fun x hx => ?_, hcl⟩
      rcases hmem x hx with hins | hrange
      · rcases Std.ExtTreeSet.mem_insert.mp hins with heq | hold
        · obtain rfl : sn = x := by simpa using heq
          exact .inr (by omega)
        · exact .inl hold
      · exact .inr (by omega)
    · exact ⟨fun x hx => .inl hx, hclosed⟩

/-- A PDU ahead of the edge is held; the edge does not move. -/
theorem holdAhead_synced {r : AmRx} {h : RxHistory} {d : AmDataPdu} (hs : Synced maxp sdus r h)
    (hahead : r.vrNext < d.seq) (hlt : d.seq < snModulus)
    (hseg : (segmentsOf maxp sdus)[d.seq]? = some (d.fi, d.payload)) :
    Synced maxp sdus (r.holdAhead d).1 (h.add (r.holdAhead d).2) := by
  have hlen := (List.getElem?_eq_some_iff.mp hseg).1
  obtain ⟨hmem, hclosed⟩ := recordHoles_spec (d.seq - r.vrNext) r.vrNext r.holes r.gaps false
    r.vrNext (Nat.le_refl _) (by omega) hs.holes_closed
  have hholes : ∀ x ∈ (recordHoles (d.seq - r.vrNext) r.vrNext (r.holes, r.gaps, false)).1,
      r.vrNext ≤ x ∧ x < (segmentsOf maxp sdus).length ∧ x < snModulus := by
    intro x hx
    rcases hmem x hx with hold | hnew
    · exact hs.holes_mem x hold
    · omega
  unfold holdAhead
  dsimp only
  split
  · refine ⟨hs.segmented, hs.edge_le, hs.edge_lt, hholes, hclosed, ?_, ?_, ?_, ?_⟩
    · intro sn held hheld
      rw [Std.ExtTreeMap.getElem?_insert] at hheld
      split at hheld
      · rename_i heq
        obtain rfl : d.seq = sn := by simpa using heq
        obtain rfl : (⟨d.fi, d.payload⟩ : Held) = held := by simpa using hheld
        exact hseg
      · exact hs.held_genuine sn held hheld
    · simpa [RxHistory.add, reassembler] using hs.tracks
    · exact fun sn hsn => (hs.resolved sn hsn).add _
    · simpa [RxHistory.add] using hs.accepted_genuine
  · exact ⟨hs.segmented, hs.edge_le, hs.edge_lt, hholes, hclosed, hs.held_genuine,
      by simpa [RxHistory.add, reassembler] using hs.tracks,
      fun sn hsn => (hs.resolved sn hsn).add _,
      by simpa [RxHistory.add] using hs.accepted_genuine⟩

/-- The duplicate filter is not part of what is proved here: any set will do. -/
theorem Synced.withSeen {r : AmRx} {h : RxHistory} (hs : Synced maxp sdus r h) (seen : SnSet) :
    Synced maxp sdus { r with seen := seen } h :=
  ⟨hs.segmented, hs.edge_le, hs.edge_lt, hs.holes_mem, hs.holes_closed, hs.held_genuine,
    hs.tracks, hs.resolved, hs.accepted_genuine⟩

/-- One received genuine PDU, in any order and any number of times. -/
theorem rxData_synced {r : AmRx} {h : RxHistory} {d : AmDataPdu} (hs : Synced maxp sdus r h)
    (hlt : d.seq < snModulus)
    (hseg : (segmentsOf maxp sdus)[d.seq]? = some (d.fi, d.payload)) :
    SyncedOrExhausted maxp sdus (r.rxData d).1 (h.add (r.rxData d).2) := by
  unfold rxData
  split
  · exact .inl (by simpa using hs)
  · have hs' := hs.withSeen (markSeen r.seen d.seq)
    dsimp only
    split
    · exact .inl (by simpa using hs')
    · rename_i hstale
      have handled : SyncedOrExhausted maxp sdus
          (if d.seq > r.vrNext then holdAhead { r with seen := markSeen r.seen d.seq } d
            else acceptAndDrain { r with seen := markSeen r.seen d.seq } d).1
          (h.add (if d.seq > r.vrNext then holdAhead { r with seen := markSeen r.seen d.seq } d
            else acceptAndDrain { r with seen := markSeen r.seen d.seq } d).2) := by
        split
        · exact .inl (holdAhead_synced hs' (by assumption) hlt hseg)
        · have heq : d.seq = r.vrNext := by omega
          unfold acceptAndDrain
          rw [heq] at hseg ⊢
          have hstart : Synced maxp sdus { r with seen := markSeen r.seen r.vrNext } (h.add {}) := by
            simpa using hs.withSeen (markSeen r.seen r.vrNext)
          rcases acceptInOrder_synced ⟨d.fi, d.payload⟩ hstart hseg with hnext | hend
          · exact drainLoop_synced _ hnext
          · exact .inr (drainLoop_exhausted _ hend)
      split
      · simpa using handled
      · exact handled

theorem foldl_const_last (f : Nat → Nat) (init : Nat) (l : List Nat) (hl : l ≠ []) :
    l.foldl (fun _ h => f h) init = f (l.getLast hl) := by
  rcases List.eq_nil_or_concat l with rfl | ⟨l', x, rfl⟩
  · exact absurd rfl hl
  · simp

theorem Synced.noteProgress {r : AmRx} {h : RxHistory} (hs : Synced maxp sdus r h) (now : Int) :
    Synced maxp sdus (r.noteProgress now) h := by
  unfold AmRx.noteProgress
  split
  · exact ⟨hs.segmented, hs.edge_le, hs.edge_lt, hs.holes_mem, hs.holes_closed, hs.held_genuine,
      hs.tracks, hs.resolved, hs.accepted_genuine⟩
  · exact hs

/-- The skip of `tick`: the edge jumps behind the last hole and all holes are lost. -/
theorem skip_synced {r : AmRx} {h : RxHistory} (hs : Synced maxp sdus r h) (now : Int)
    (hlossy : r.cfg.tReorderMs ≠ 0) (hholes : r.holes.toList ≠ []) :
    SyncedOrExhausted maxp sdus
      { r with
        vrNext := r.holes.toList.foldl (fun _ x => (x + 1) % snModulus) r.vrNext
        holes := ∅, collecting := false, partialSdu := [], lastProgressMs := now }
      (h.add { lost := r.holes.toList }) := by
  rw [foldl_const_last _ _ _ hholes]
  have hlast : r.holes.toList.getLast hholes ∈ r.holes :=
    Std.ExtTreeSet.mem_toList.mp (List.getLast_mem hholes)
  generalize r.holes.toList.getLast hholes = last at hlast
  obtain ⟨hge, hlen, hmod⟩ := hs.holes_mem last hlast
  have hres : ∀ sn < last + 1, Resolved (segmentsOf maxp sdus)
      (h.add { lost := r.holes.toList }) sn := by
    intro sn hsn
    rcases Nat.lt_or_ge sn r.vrNext with hbelow | habove
    · exact (hs.resolved sn hbelow).add _
    · right
      have hhole : sn ∈ r.holes := by
        rcases Nat.lt_succ_iff_lt_or_eq.mp hsn with hlt | rfl
        · exact hs.holes_closed last hlast sn habove hlt
        · exact hlast
      simp [RxHistory.add, hhole]
  by_cases hwrap : last + 1 < snModulus
  · left
    rw [Nat.mod_eq_of_lt hwrap]
    exact {
      segmented := hs.segmented
      edge_le := hlen
      edge_lt := hwrap
      holes_mem := by simp
      holes_closed := by simp
      held_genuine := hs.held_genuine
      tracks := by
        have hend : last + 1 ≤ (streamOf maxp sdus).segments.length := by
          rw [streamOf_segments]
          simpa [tagged] using hlen
        simpa [RxHistory.add, reassembler, Reassembler.idle] using
          hs.tracks.jump hlossy hs.segmented.wellFormed (show r.vrNext ≤ last + 1 by omega) hend
      resolved := hres
      accepted_genuine := by
        intro x hx
        obtain ⟨hbelow, hgen⟩ := hs.accepted_genuine x (by simpa [RxHistory.add] using hx)
        exact ⟨show x.1 < last + 1 by omega, hgen⟩ }
  · right
    exact ⟨by omega, fun sn hsn => hres sn (by omega)⟩

/-- The reordering timeout keeps the receiver synced. -/
theorem tick_synced {r : AmRx} {h : RxHistory} (hs : Synced maxp sdus r h) (nowMs : UInt32) :
    SyncedOrExhausted maxp sdus (r.tick nowMs).1 (h.add (r.tick nowMs).2) := by
  unfold tick
  split
  · exact .inl (by simpa using hs)
  · rename_i htimer
    have hs' := hs.noteProgress (clock nowMs)
    dsimp only
    split
    · exact .inl (by simpa using hs')
    · rename_i hskip
      have hholes : (r.noteProgress (clock nowMs)).holes.toList ≠ [] := by
        intro hnil
        rw [Std.ExtTreeSet.toList_eq_nil_iff] at hnil
        simp [hnil] at hskip
      rw [RxHistory.add_statusNeeded]
      rcases skip_synced hs' (clock nowMs) (by simpa using htimer) hholes with hnext | hend
      · exact drainLoop_synced _ hnext
      · exact .inr (drainLoop_exhausted _ hend)

end AmRx

end AetherStack.Source
