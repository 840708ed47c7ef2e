import AetherStack.Source.RlcAmWindow

/-!
# What the receiver of acknowledged mode takes when it comes again

A number enters the duplicate filter before it is known whether the PDU is kept. Where the hold
area is full the PDU is dropped and its number stays, so every later copy is a duplicate.
-/
namespace AetherStack.Guarantees
open Source Source.AmRx Lib

namespace AmRecovery

variable {n : Nat} {r : AmRx}

/-- The PDU is accepted, or it is held. -/
def Kept (r : AmRx) (d : AmDataPdu) : Prop :=
  (d.seq, ⟨d.fi, d.payload⟩) ∈ (r.rxData d).2.accepted ∨
    (r.rxData d).1.reorder[d.seq]? = some ⟨d.fi, d.payload⟩

/-- A PDU that is still wanted: not behind the edge, not held, and there is room. -/
structure Wanted (n : Nat) (r : AmRx) (d : AmDataPdu) : Prop where
  below : d.seq < n
  ahead : r.vrNext ≤ d.seq
  missing : d.seq ∉ r.reorder
  room : r.reorder.size < kMaxReorder

def Recoverable (n : Nat) (r : AmRx) : Prop := ∀ d : AmDataPdu, Wanted n r d → Kept r d

/-- A wanted PDU is kept exactly when its number is not in `seen_` already. -/
theorem kept_iff (hn : n < snModulus) (hw : Window n r) {d : AmDataPdu} (h : Wanted n r d) :
    Kept r d ↔ d.seq ∉ r.seen := by
  constructor
  · intro hkept hseen
    rcases r.rxData_trichotomy d with ⟨-, heq⟩ | ⟨hnew, -⟩ | ⟨hnew, -⟩ | ⟨hnew, -⟩
    · rw [Kept, heq] at hkept
      rcases hkept with haccepted | hheld
      · exact absurd haccepted List.not_mem_nil
      · exact h.missing (mem_reorder_of_getElem? hheld)
    · exact hnew hseen
    · exact hnew hseen
    · exact hnew hseen
  · intro hnew
    rcases h.ahead.lt_or_eq with hahead | hedge
    · right
      rw [(rxData_hold hnew hahead).1, holdAhead_reorder, if_pos h.room]
      exact Std.ExtTreeMap.getElem?_insert_self
    · obtain ⟨m, hm⟩ := rxData_edge hn hw hnew hedge.symm h.below
      refine .inl ((hm.accepted _ _).mpr (.inr ⟨h.ahead, ?_, Std.ExtTreeMap.getElem?_insert_self⟩))
      show d.seq < r.vrNext + (m + 1)
      omega

/-! ### Without overflow -/

/-- A new PDU that has to be held finds room. -/
def RoomForNew (r : AmRx) : Call → Prop
  | .rx pdu => ∀ d ∈ decodeData pdu, d.seq ∉ r.seen → r.vrNext < d.seq → r.reorder.size < kMaxReorder
  | .tick _ => True

instance (r : AmRx) : (c : Call) → Decidable (RoomForNew r c)
  | .rx pdu => inferInstanceAs (Decidable (∀ d ∈ decodeData pdu, d.seq ∉ r.seen → r.vrNext < d.seq →
      r.reorder.size < kMaxReorder))
  | .tick _ => inferInstanceAs (Decidable True)

/-- Whoever is in the filter and not behind the edge is held. -/
def SeenHeld (r : AmRx) : Prop := ∀ sn ∈ r.seen, r.vrNext ≤ sn → sn ∈ r.reorder

/-- A release takes only numbers below the new edge out of the window. -/
theorem Released.seenHeld {m : Nat} {out : AmOutcome} {next : AmRx × AmOutcome} (h : Released m r out next)
    (held : SeenHeld r) : SeenHeld next.1 := by
  intro sn hsn hlow
  rw [h.seen] at hsn
  rw [h.edge] at hlow
  have hmem := held sn hsn (by omega)
  rw [Std.ExtTreeMap.mem_iff_isSome_getElem?, h.reorder sn, if_neg (by omega)]
  exact Std.ExtTreeMap.mem_iff_isSome_getElem?.mp hmem

/-- Only a number that finds the window full gets into `seen_` without being held. -/
theorem rxData_seenHeld (hn : n < snModulus) (hw : Window n r) (h : SeenHeld r) {d : AmDataPdu} (hlt : d.seq < n)
    (hroom : d.seq ∉ r.seen → r.vrNext < d.seq → r.reorder.size < kMaxReorder) :
    SeenHeld (r.rxData d).1 := by
  rcases r.rxData_trichotomy d with ⟨-, heq⟩ | ⟨-, hstale, heq⟩ | ⟨hnew, hahead⟩ | ⟨hnew, hseq⟩
  · rw [heq]
    exact h
  · rw [heq]
    intro sn hsn hlow
    rcases mem_markSeen hsn with rfl | hold
    · exact absurd hlow (by dsimp only; omega)
    · exact h sn hold hlow
  · obtain ⟨hedge, hseen, -⟩ := holdAhead_frame { r with seen := markSeen r.seen d.seq } d
    rw [(rxData_hold hnew hahead).1]
    intro sn hsn hlow
    rw [hseen] at hsn
    rw [hedge] at hlow
    rw [holdAhead_reorder, if_pos (hroom hnew hahead), mem_insert_reorder]
    exact (mem_markSeen hsn).imp id fun hold => h sn hold hlow
  · obtain ⟨m, hm⟩ := rxData_edge hn hw hnew hseq hlt
    refine Released.seenHeld hm fun sn hsn hlow => mem_insert_reorder.mpr ?_
    exact (mem_markSeen hsn).imp id fun hold => h sn hold hlow

theorem tick_seenHeld (hn : n < snModulus) (hw : Window n r) (h : SeenHeld r) (nowMs : UInt32) :
    SeenHeld (r.tick nowMs).1 := by
  by_cases hdue : TimeoutDue r nowMs
  · obtain ⟨last, hlast, -, m, hm, -⟩ := tick_of_due hn hw hdue
    refine Released.seenHeld hm fun sn hsn hlow => h sn hsn ?_
    have hskip : last + 1 ≤ sn := hlow
    have hedge := (hw.holes last hlast).1
    omega
  · rw [tick_of_not_due hdue]
    dsimp only
    split
    · exact h
    · unfold noteProgress
      split <;> exact h

theorem call_seenHeld (hn : n < snModulus) (hw : Window n r) (h : SeenHeld r) {c : Call} (hbelow : c.Below n)
    (hc : RoomForNew r c) : SeenHeld (r.call c).1 := by
  cases c with
  | rx pdu =>
    show SeenHeld (r.rx pdu).1
    unfold rx
    split
    · exact h
    · rename_i d hd
      exact rxData_seenHeld hn hw h (hbelow d hd) (hc d hd)
  | tick nowMs => exact tick_seenHeld hn hw h nowMs

/-- With every seen number held, a wanted one is not seen and will be kept. -/
theorem recoverable_of_seenHeld (hn : n < snModulus) (hw : Window n r) (h : SeenHeld r) : Recoverable n r :=
  fun d hd => (kept_iff hn hw hd).mpr fun hseen => hd.missing (h d.seq hseen hd.ahead)

/-! ### A full hold area -/

/-- PDUs number 1 to `count`, while number 0 is missing. -/
def burst (count : Nat) : List Call := (List.range count).map fun i => .rx (AmTx.buildPdu (i + 1) 0 [])

/-- As many PDUs ahead of the edge as there is room for. -/
structure Bursting (n count : Nat) (r : AmRx) : Prop where
  window : Window n r
  edge : r.vrNext = 0
  held : ∀ sn, sn ∈ r.reorder ↔ 1 ≤ sn ∧ sn ≤ count
  size : r.reorder.size = count
  seen : ∀ sn, sn ∈ r.seen ↔ 1 ≤ sn ∧ sn ≤ count
  filter : r.seen.size = count

theorem rx_buildPdu (r : AmRx) {sn : Nat} (h : sn < snModulus) :
    r.rx (AmTx.buildPdu sn 0 []) = r.rxData ⟨0, false, sn, []⟩ := by
  have hdecode := decodeData_buildPdu sn 0x00 false [] (.inl rfl)
  simp only [Bool.false_eq_true, if_false, Nat.mod_eq_of_lt h] at hdecode
  rw [rx, hdecode]

theorem below_buildPdu {n sn : Nat} (hn : n < snModulus) (h : sn < n) : (Call.rx (AmTx.buildPdu sn 0 [])).Below n := by
  intro d hd
  have hdecode := decodeData_buildPdu sn 0x00 false [] (.inl rfl)
  simp only [Bool.false_eq_true, if_false, Nat.mod_eq_of_lt (h.trans hn)] at hdecode
  rw [hdecode] at hd
  obtain rfl := Option.some.inj hd
  exact h

theorem step_buildPdu {n sn : Nat} (hn : n < snModulus) (h : sn < n) (r : AmRx) :
    step n r (.rx (AmTx.buildPdu sn 0 [])) = some (r.rxData ⟨0, false, sn, []⟩).1 := by
  rw [step, if_pos (below_buildPdu hn h)]
  exact congrArg (fun next => some next.1) (rx_buildPdu r (h.trans hn))

/-- The filter only grows as long as it is small. -/
theorem markSeen_of_small {seen : SnSet} {seq : Nat} (h : seen.size < kMaxSeen) :
    markSeen seen seq = seen.insert seq := by
  have hsize : (seen.insert seq).size ≤ seen.size + 1 := Std.ExtTreeSet.size_insert_le
  unfold markSeen
  rw [if_neg (by omega)]

/-- The next PDU behind the hole is held, as long as there is room. -/
theorem Bursting.next {n count : Nat} (hn : n < snModulus) (h : Bursting n count r) (hroom : count < kMaxReorder)
    (hlt : count + 1 < n) : Bursting n (count + 1) (r.rxData ⟨0, false, count + 1, []⟩).1 := by
  have hnew : count + 1 ∉ r.seen := by
    rw [h.seen]
    omega
  have hmissing : count + 1 ∉ r.reorder := by
    rw [h.held]
    omega
  have hwindow := rxData_window hn h.window (d := ⟨0, false, count + 1, []⟩) hlt
  have hstate := (rxData_hold (d := ⟨0, false, count + 1, []⟩) hnew (by rw [h.edge]; exact Nat.succ_pos _)).1
  obtain ⟨hedge, hfilter, -⟩ :=
    holdAhead_frame { r with seen := markSeen r.seen (count + 1) } ⟨0, false, count + 1, []⟩
  have hreorder := holdAhead_reorder { r with seen := markSeen r.seen (count + 1) } ⟨0, false, count + 1, []⟩
  rw [if_pos (show r.reorder.size < kMaxReorder by rw [h.size]; exact hroom)] at hreorder
  have hsmall : r.seen.size < kMaxSeen := by
    rw [h.filter]
    simp only [kMaxReorder, kMaxSeen] at hroom ⊢
    omega
  dsimp only at hedge hreorder
  replace hfilter := hfilter.trans (markSeen_of_small hsmall)
  rw [hstate] at hwindow ⊢
  exact {
    window := hwindow
    edge := hedge.trans h.edge
    held := fun sn => by
      rw [hreorder, mem_insert_reorder, h.held]
      omega
    size := by
      rw [hreorder, Std.ExtTreeMap.size_insert, if_neg (by simpa using hmissing), h.size]
    seen := fun sn => by
      rw [hfilter, Std.ExtTreeSet.mem_insert, Nat.compare_eq_eq, h.seen]
      omega
    filter := by
      rw [hfilter, Std.ExtTreeSet.size_insert, if_neg (by simpa using hnew), h.filter] }

theorem burst_run {n : Nat} (hn : n < snModulus) (count : Nat) (hroom : count ≤ kMaxReorder) (hlt : count < n)
    (r : AmRx) : ∃ s, runFrom (step n) r.reset (burst count) = some s ∧ Bursting n count s := by
  induction count with
  | zero =>
    refine ⟨r.reset, rfl, window_reset n r, rfl, fun sn => ?_, rfl, fun sn => ?_, rfl⟩
    · simp [reset]
      omega
    · simp [reset]
      omega
  | succ count ih =>
    obtain ⟨s, hrun, hs⟩ := ih (by omega) (by omega)
    refine ⟨_, ?_, hs.next hn (by omega) hlt⟩
    rw [burst, List.range_succ, List.map_append, runFrom_append_eq_some]
    refine ⟨s, hrun, ?_⟩
    rw [List.map_singleton, runFrom, step_buildPdu hn hlt]
    rfl

/-- The PDU behind a full hold area is dropped, and the filter keeps its number. -/
theorem Bursting.overflow {n : Nat} (h : Bursting n kMaxReorder r) :
    (r.rxData ⟨0, false, kMaxReorder + 1, []⟩).1.reorder = r.reorder ∧
      (r.rxData ⟨0, false, kMaxReorder + 1, []⟩).1.vrNext = 0 ∧
      (r.rxData ⟨0, false, kMaxReorder + 1, []⟩).1.seen = r.seen.insert (kMaxReorder + 1) := by
  have hahead : kMaxReorder + 1 > r.vrNext := by
    rw [h.edge]
    decide
  have hsmall : r.seen.size < kMaxSeen := by
    rw [h.filter]
    decide
  obtain ⟨hedge, hfilter, -⟩ :=
    holdAhead_frame { r with seen := markSeen r.seen (kMaxReorder + 1) } ⟨0, false, kMaxReorder + 1, []⟩
  have hreorder := holdAhead_reorder { r with seen := markSeen r.seen (kMaxReorder + 1) }
    ⟨0, false, kMaxReorder + 1, []⟩
  rw [if_neg (show ¬ r.reorder.size < kMaxReorder by rw [h.size]; exact lt_irrefl _)] at hreorder
  have hnew : kMaxReorder + 1 ∉ r.seen := fun hseen => absurd ((h.seen _).mp hseen).2 (by decide)
  rw [(rxData_hold (d := ⟨0, false, kMaxReorder + 1, []⟩) hnew hahead).1]
  exact ⟨hreorder, hedge.trans h.edge, hfilter.trans (markSeen_of_small hsmall)⟩

/-- PDU 0 at last releases the whole hold area. -/
theorem accept_first {n : Nat} (hn : n < snModulus) (hw : Window n r) (hpos : 0 < n) (hedge : r.vrNext = 0)
    (hnew : 0 ∉ r.seen) (held : ∀ sn, sn ∈ r.reorder ↔ 1 ≤ sn ∧ sn ≤ kMaxReorder)
    (hsmall : r.seen.size < kMaxSeen) :
    (r.rxData ⟨0, false, 0, []⟩).1.vrNext = kMaxReorder + 1 ∧
      (r.rxData ⟨0, false, 0, []⟩).1.reorder = ∅ ∧
      ∀ sn ∈ r.seen, sn ∈ (r.rxData ⟨0, false, 0, []⟩).1.seen := by
  obtain ⟨m, hm⟩ := rxData_edge (d := ⟨0, false, 0, []⟩) hn hw hnew hedge.symm hpos
  have hrest := (rxData_window hn hw (d := ⟨0, false, 0, []⟩) hpos).resting
  have hnext : (r.rxData ⟨0, false, 0, []⟩).1.vrNext = r.vrNext + (m + 1) := hm.edge
  have hseen : (r.rxData ⟨0, false, 0, []⟩).1.seen = markSeen r.seen 0 := hm.seen
  have hreorder : ∀ sn : Nat, (r.rxData ⟨0, false, 0, []⟩).1.reorder[sn]? =
      if r.vrNext ≤ sn ∧ sn < r.vrNext + (m + 1) then none
      else (r.reorder.insert 0 (⟨0, []⟩ : Held))[sn]? := hm.reorder
  have hpresent : ∀ sn, r.vrNext ≤ sn → sn < r.vrNext + (m + 1) → sn ∈ r.reorder.insert 0 (⟨0, []⟩ : Held) :=
    hm.present
  rw [hedge] at hnext hreorder hpresent
  rw [markSeen_of_small hsmall] at hseen
  -- the release stops behind the last held PDU and not before
  have hall : m = kMaxReorder := by
    have hupper : m ≤ kMaxReorder := by
      by_contra hmore
      have hlast := hpresent m (Nat.zero_le m) (by omega)
      rcases mem_insert_reorder.mp hlast with hzero | hheld
      · omega
      · have hbound := ((held m).mp hheld).2
        omega
    have hlower : ¬ m < kMaxReorder := by
      intro hless
      apply hrest
      have hheld : m + 1 ∈ r.reorder.insert 0 (⟨0, []⟩ : Held) :=
        mem_insert_reorder.mpr (.inr ((held (m + 1)).mpr ⟨by omega, by omega⟩))
      rw [hnext, Std.ExtTreeMap.mem_iff_isSome_getElem?, hreorder, if_neg (by omega), Nat.zero_add]
      exact Std.ExtTreeMap.mem_iff_isSome_getElem?.mp hheld
    omega
  subst hall
  refine ⟨by rw [hnext, Nat.zero_add], Std.ExtTreeMap.ext_getElem? fun sn => ?_, fun sn hsn => ?_⟩
  · rw [hreorder, Std.ExtTreeMap.getElem?_empty]
    split
    · rfl
    · rename_i hout
      apply Std.ExtTreeMap.getElem?_eq_none
      intro hmem
      rcases mem_insert_reorder.mp hmem with hzero | hheld
      · omega
      · have hbound := ((held sn).mp hheld).2
        omega
  · rw [hseen]
    exact Std.ExtTreeSet.mem_insert.mpr (.inr hsn)

end AmRecovery

open AmRecovery

/-- For every run of a receiver whose peer sent less than 65536 PDUs: while every new PDU ahead of
the edge finds room, whatever is wanted is kept when it comes (again). In any run, what decides for
a wanted PDU is whether its number is in the filter. -/
theorem am_wanted_kept {n : Nat} (hn : n < snModulus) (r : AmRx) (calls : List Call) :
    (StepsMeet (step n) RoomForNew r.reset calls → Always (step n) (Recoverable n) r.reset calls) ∧
    ∀ s, runFrom (step n) r.reset calls = some s → ∀ d : AmDataPdu, Wanted n s d →
      (Kept s d ↔ d.seq ∉ s.seen) := by
  constructor
  · refine always_of_meets (fun r => Window n r ∧ SeenHeld r)
      (fun s h => recoverable_of_seenHeld hn h.1 h.2) ?_
      ⟨window_reset n r, fun sn hsn => absurd hsn Std.ExtTreeSet.not_mem_empty⟩
    rintro s c s' ⟨hw, h⟩ hc hstep
    obtain ⟨hbelow, rfl⟩ := step_eq_some hstep
    exact ⟨call_window hn hw hbelow, call_seenHeld hn hw h hbelow hc⟩
  · intro s hrun d hd
    have hw : Window n s := by
      refine runFrom_invariant (Window n) (fun r c r' h hstep => ?_) (window_reset n r) hrun
      obtain ⟨hbelow, rfl⟩ := step_eq_some hstep
      exact call_window hn h hbelow
    exact kept_iff hn hw hd

/-- Two PDUs in the wrong order. -/
theorem am_wanted_kept_reordered :
    Always (step 3) (Recoverable 3) (AmRx.reset { cfg := {} })
      [.rx (AmTx.buildPdu 0 0 [10]), .rx (AmTx.buildPdu 2 0 [12]), .rx (AmTx.buildPdu 1 0 [11])] :=
  (am_wanted_kept (by decide) { cfg := {} } _).1 (by decide)

/-- PDU 513 finds the hold area full and is dropped. When PDU 0 has released all 512 that were held,
it is next in order and there is room, but every copy of it is a duplicate. -/
theorem am_dropped_copy_is_final : ∃ s : AmRx,
    runFrom (step 514) (AmRx.reset { cfg := {} })
      (burst 512 ++ [.rx (AmTx.buildPdu 513 0 []), .rx (AmTx.buildPdu 0 0 [])]) = some s ∧
    Wanted 514 s ⟨0, false, 513, []⟩ ∧ ¬ Kept s ⟨0, false, 513, []⟩ := by
  have hn : 514 < snModulus := by decide
  obtain ⟨r, hrun, hr⟩ := burst_run hn 512 (by decide) (by decide) { cfg := {} }
  have hwindow := rxData_window hn hr.window (d := ⟨0, false, 513, []⟩) (by decide)
  obtain ⟨hreorder, hedge, hseen⟩ : (r.rxData ⟨0, false, 513, []⟩).1.reorder = r.reorder ∧
      (r.rxData ⟨0, false, 513, []⟩).1.vrNext = 0 ∧
      (r.rxData ⟨0, false, 513, []⟩).1.seen = r.seen.insert 513 := Bursting.overflow hr
  generalize hfull : (r.rxData ⟨0, false, 513, []⟩).1 = full at hwindow hreorder hedge hseen
  have hmem : ∀ sn, sn ∈ full.seen ↔ sn = 513 ∨ (1 ≤ sn ∧ sn ≤ 512) := by
    intro sn
    rw [hseen, Std.ExtTreeSet.mem_insert, Nat.compare_eq_eq, hr.seen, eq_comm]
  have hsize : full.seen.size < kMaxSeen := by
    have hgrown : (r.seen.insert 513).size ≤ r.seen.size + 1 := Std.ExtTreeSet.size_insert_le
    rw [hr.filter] at hgrown
    rw [hseen]
    exact lt_of_le_of_lt hgrown (by decide)
  obtain ⟨hnext, hempty, hkept⟩ := accept_first hn hwindow (by decide) hedge (by rw [hmem]; omega)
    (fun sn => by rw [hreorder]; exact hr.held sn) hsize
  have hdrained := rxData_window hn hwindow (d := ⟨0, false, 0, []⟩) (by decide)
  generalize hlast : (full.rxData ⟨0, false, 0, []⟩).1 = s at hnext hempty hkept hdrained
  have hwanted : Wanted 514 s ⟨0, false, 513, []⟩ := by
    refine ⟨by decide, hnext.le, ?_, ?_⟩
    · rw [hempty]
      exact Std.ExtTreeMap.not_mem_empty
    · rw [hempty]
      decide
  refine ⟨s, runFrom_append_eq_some.mpr ⟨r, hrun, ?_⟩, hwanted, fun hk => ?_⟩
  · rw [runFrom, step_buildPdu hn (by decide), Option.bind_some, hfull, runFrom, step_buildPdu hn (by decide),
      hlast]
    rfl
  · exact (kept_iff hn hdrained hwanted).mp hk (hkept 513 ((hmem 513).mpr (.inl rfl)))

end AetherStack.Guarantees
