import AetherStack.Source.RlcAmWindow

/-!
# The STATUS report of acknowledged mode

What `AmTx` reads out of a report is the window edge and the holes, as long as their number fits
into an octet. The holes are the missing numbers as long as a gap is recorded only while nothing
is held: a gap that covers held PDUs names them as missing, and a PDU that fills a part of a gap
out of order stays named.
-/
namespace AetherStack.Guarantees
open Source Source.AmRx Lib

namespace AmStatusReport

variable {n : Nat}

/-! ### The report read back -/

theorem length_flatMap_putU16 (l : List Nat) : (l.flatMap putU16).length = 2 * l.length := by
  induction l with
  | nil => rfl
  | cons x l ih =>
    rw [List.flatMap_cons, List.length_append, ih, length_putU16, List.length_cons]
    omega

theorem getU16_flatMap (pre : Bytes) {l : List Nat} {i : Nat} (hi : i < l.length) (h : l[i] < snModulus) :
    getU16 (pre ++ l.flatMap putU16) (pre.length + 2 * i) = l[i] := by
  have hsplit : l.flatMap putU16 = (l.take i).flatMap putU16 ++ (putU16 l[i] ++ (l.drop (i + 1)).flatMap putU16) := by
    rw [← List.flatMap_cons, ← List.flatMap_append, List.getElem_cons_drop, List.take_append_drop]
  have hread := getU16_putU16 (pre ++ (l.take i).flatMap putU16) ((l.drop (i + 1)).flatMap putU16) l[i]
  rw [List.length_append, length_flatMap_putU16, List.length_take, Nat.min_eq_left hi.le, Nat.mod_eq_of_lt h] at hread
  rw [hsplit, ← List.append_assoc]
  exact hread

theorem length_buildStatus (r : AmRx) : r.buildStatus.length = 4 + 2 * r.holes.size := by
  have hlen := length_flatMap_putU16 r.holes.toList
  rw [Std.ExtTreeSet.length_toList] at hlen
  simp only [buildStatus, List.length_cons, List.length_append, length_putU16, hlen]
  omega

/-- The count is one octet. -/
theorem count_buildStatus (r : AmRx) : (r.buildStatus.getD 3 0).toNat = r.holes.size % 256 := by
  show (UInt8.ofNat r.holes.size).toNat = _
  simp

/-- At most 255 holes are read back as they were reported. -/
theorem nackList_buildStatus {r : AmRx} (hsize : r.holes.size ≤ 255) (hsmall : ∀ sn ∈ r.holes, sn < snModulus) :
    AmTx.nackList r.buildStatus = r.holes.toList := by
  have hcount : (r.buildStatus.getD 3 0).toNat = r.holes.toList.length := by
    rw [count_buildStatus, Std.ExtTreeSet.length_toList, Nat.mod_eq_of_lt (by omega)]
  have hall : (List.range r.holes.toList.length).filter (fun i => 4 + 2 * i + 1 < r.buildStatus.length) =
      List.range r.holes.toList.length := by
    rw [List.filter_eq_self]
    intro i hi
    have hi : i < r.holes.toList.length := List.mem_range.mp hi
    rw [Std.ExtTreeSet.length_toList] at hi
    rw [length_buildStatus, decide_eq_true_eq]
    omega
  rw [AmTx.nackList, hcount, hall]
  refine List.ext_getElem (by simp) fun i hi hi' => ?_
  rw [List.getElem_map, List.getElem_range]
  exact getU16_flatMap (kAmDcControl :: (putU16 r.vrNext ++ [UInt8.ofNat r.holes.size])) hi'
    (hsmall _ (Std.ExtTreeSet.mem_toList.mp (List.getElem_mem hi')))

/-! ### Sizes -/

theorem size_le_of_subset {s t : SnSet} (h : ∀ sn ∈ s, sn ∈ t) : s.size ≤ t.size := by
  have hsub : s.toList ⊆ t.toList := fun sn hsn =>
    Std.ExtTreeSet.mem_toList.mpr (h sn (Std.ExtTreeSet.mem_toList.mp hsn))
  have hnodup : s.toList.Nodup := s.ordered_toList.imp fun hlt => (Nat.compare_eq_lt.mp hlt).ne
  have hle := (List.subperm_of_subset hnodup hsub).length_le
  rwa [Std.ExtTreeSet.length_toList, Std.ExtTreeSet.length_toList] at hle

theorem size_le_of_range {s : SnSet} {low k : Nat} (h : ∀ sn ∈ s, low ≤ sn ∧ sn < low + k) : s.size ≤ k := by
  have hsub : s.toList ⊆ List.range' low k := by
    intro sn hsn
    obtain ⟨hlow, hhigh⟩ := h sn (Std.ExtTreeSet.mem_toList.mp hsn)
    exact List.mem_range'_1.mpr ⟨hlow, hhigh⟩
  have hnodup : s.toList.Nodup := s.ordered_toList.imp fun hlt => (Nat.compare_eq_lt.mp hlt).ne
  have hle := (List.subperm_of_subset hnodup hsub).length_le
  rwa [Std.ExtTreeSet.length_toList, List.length_range'] at hle

theorem le_size_of_range {s : SnSet} {low k : Nat} (h : ∀ sn, low ≤ sn → sn < low + k → sn ∈ s) : k ≤ s.size := by
  have hsub : List.range' low k ⊆ s.toList := by
    intro sn hsn
    obtain ⟨hlow, hhigh⟩ := List.mem_range'_1.mp hsn
    exact Std.ExtTreeSet.mem_toList.mpr (h sn hlow hhigh)
  have hle := (List.subperm_of_subset List.nodup_range' hsub).length_le
  rwa [Std.ExtTreeSet.length_toList, List.length_range'] at hle

end AmStatusReport

/-- A receiver with the numbers it received since its reset. -/
structure AmRxLog where
  rx : AmRx
  received : SnSet := ∅

namespace AmRxLog
open AmStatusReport

variable {n : Nat} {s : AmRxLog}

def step (n : Nat) (s : AmRxLog) (c : Call) : Option AmRxLog :=
  if c.Below n then
    some {
      rx := (s.rx.call c).1
      received := match c with
        | .rx pdu => ((decodeData pdu).map fun d => s.received.insert d.seq).getD s.received
        | .tick _ => s.received }
  else none

/-- Not received, and in front of a number that was. -/
def Missing (s : AmRxLog) (sn : Nat) : Prop :=
  s.rx.vrNext ≤ sn ∧ sn ∉ s.received ∧ ∃ later ∈ s.received, sn < later

/-- The report as `on_status` reads it: the edge, the missing numbers, and as many as counted. -/
structure StatusCorrect (s : AmRxLog) : Prop where
  ack : getU16 s.rx.buildStatus 1 = s.rx.vrNext
  nacks : ∀ sn, sn ∈ AmTx.nackList s.rx.buildStatus ↔ Missing s sn
  count : 4 + 2 * (s.rx.buildStatus.getD 3 0).toNat = s.rx.buildStatus.length

/-- A new gap is recorded while nothing is held, and an octet can count it. -/
def GapWhenClear (n : Nat) (s : AmRxLog) : Call → Prop
  | .rx pdu => ∀ d ∈ decodeData pdu, d.seq < n → d.seq ∉ s.rx.seen → s.rx.vrNext < d.seq →
      s.rx.reorder.isEmpty = true ∧ d.seq - s.rx.vrNext ≤ 255
  | .tick _ => True

instance (n : Nat) (s : AmRxLog) : (c : Call) → Decidable (GapWhenClear n s c)
  | .rx pdu => inferInstanceAs (Decidable (∀ d ∈ decodeData pdu, d.seq < n → d.seq ∉ s.rx.seen →
      s.rx.vrNext < d.seq → s.rx.reorder.isEmpty = true ∧ d.seq - s.rx.vrNext ≤ 255))
  | .tick _ => inferInstanceAs (Decidable True)

/-- The holes are the missing numbers. -/
structure HolesExact (s : AmRxLog) : Prop where
  size : s.rx.holes.size ≤ 255
  holes : ∀ sn, sn ∈ s.rx.holes ↔ Missing s sn

/-- The report is right exactly when the recorded holes are the missing numbers. -/
theorem statusCorrect_iff (hn : n < snModulus) (hw : Window n s.rx) : StatusCorrect s ↔ HolesExact s := by
  have hsmall : ∀ sn ∈ s.rx.holes, sn < snModulus := fun sn hsn => (hw.holes sn hsn).2.trans hn
  have hedge := hw.edge
  constructor
  · intro h
    have hcount := h.count
    rw [count_buildStatus, length_buildStatus] at hcount
    have hsize : s.rx.holes.size ≤ 255 := by omega
    refine ⟨hsize, fun sn => ?_⟩
    rw [← h.nacks sn, nackList_buildStatus hsize hsmall, Std.ExtTreeSet.mem_toList]
  · intro h
    have hsize := h.size
    refine ⟨?_, fun sn => ?_, ?_⟩
    · rw [getU16_buildStatus, Nat.mod_eq_of_lt (by omega)]
    · rw [nackList_buildStatus hsize hsmall, Std.ExtTreeSet.mem_toList, h.holes sn]
    · rw [count_buildStatus, length_buildStatus, Nat.mod_eq_of_lt (by omega)]

/-- What was received ahead of the edge is held, behind all holes, and in the filter. -/
structure Tracked (n : Nat) (s : AmRxLog) : Prop where
  window : Window n s.rx
  held : ∀ sn, s.rx.vrNext ≤ sn → (sn ∈ s.rx.reorder ↔ sn ∈ s.received)
  ahead : ∀ sn ∈ s.rx.reorder, s.rx.vrNext ≤ sn
  behind : ∀ sn ∈ s.rx.reorder, ∀ hole ∈ s.rx.holes, hole < sn
  filtered : ∀ sn ∈ s.rx.reorder, sn ∈ s.rx.seen
  known : ∀ sn ∈ s.rx.seen, sn ∈ s.received

theorem tracked_reset (n : Nat) (r : AmRx) : Tracked n { rx := r.reset } where
  window := window_reset n r
  held := fun sn _ => by simp [reset]
  ahead := fun sn hsn => absurd hsn Std.ExtTreeMap.not_mem_empty
  behind := fun sn hsn => absurd hsn Std.ExtTreeMap.not_mem_empty
  filtered := fun sn hsn => absurd hsn Std.ExtTreeMap.not_mem_empty
  known := fun sn hsn => absurd hsn Std.ExtTreeSet.not_mem_empty

theorem holesExact_reset (r : AmRx) : HolesExact { rx := r.reset } where
  size := Nat.zero_le 255
  holes := fun sn => by simp [reset, Missing]

/-- A PDU that the peer sent. -/
def receive (s : AmRxLog) (d : AmDataPdu) : AmRxLog :=
  { rx := (s.rx.rxData d).1, received := s.received.insert d.seq }

/-- A reception adds its own number to the history. -/
theorem mem_received {d : AmDataPdu} {sn : Nat} : sn ∈ (s.receive d).received ↔ sn = d.seq ∨ sn ∈ s.received := by
  rw [receive, Std.ExtTreeSet.mem_insert, Nat.compare_eq_eq, eq_comm]

/-- A duplicate was received before. -/
theorem receive_duplicate (ht : Tracked n s) (he : HolesExact s) {d : AmDataPdu} (hseen : d.seq ∈ s.rx.seen)
    (heq : s.rx.rxData d = (s.rx, {})) : Tracked n (s.receive d) ∧ HolesExact (s.receive d) := by
  have hsame : s.receive d = s := by
    have hreceived : s.received.insert d.seq = s.received := by
      refine Std.ExtTreeSet.ext_mem fun sn => ?_
      rw [Std.ExtTreeSet.mem_insert, Nat.compare_eq_eq]
      refine ⟨fun h => h.elim (fun hsn => hsn ▸ ht.known _ hseen) id, .inr⟩
    rw [receive, heq, hreceived]
  rw [hsame]
  exact ⟨ht, he⟩

/-- A PDU behind the edge is of no interest to the report. -/
theorem receive_stale (hn : n < snModulus) (ht : Tracked n s) (he : HolesExact s) {d : AmDataPdu}
    (hlt : d.seq < n) (hstale : d.seq < s.rx.vrNext)
    (heq : s.rx.rxData d = ({ s.rx with seen := markSeen s.rx.seen d.seq }, {})) :
    Tracked n (s.receive d) ∧ HolesExact (s.receive d) := by
  have hwindow := rxData_window hn ht.window hlt
  have hstate : (s.receive d).rx = { s.rx with seen := markSeen s.rx.seen d.seq } := congrArg Prod.fst heq
  constructor
  · constructor
    · exact hwindow
    · intro sn hsn
      rw [hstate] at hsn ⊢
      rw [mem_received, ht.held sn hsn]
      exact ⟨.inr, fun h => h.resolve_left fun hsame => absurd hsn (by rw [hsame]; exact not_le.mpr hstale)⟩
    · rw [hstate]
      exact ht.ahead
    · rw [hstate]
      exact ht.behind
    · intro sn hsn
      rw [hstate] at hsn ⊢
      have hahead := ht.ahead sn hsn
      exact mem_markSeen_of_lt Std.ExtTreeSet.mem_insert_self
        (Std.ExtTreeSet.mem_insert.mpr (.inr (ht.filtered sn hsn))) (hstale.trans_le hahead)
    · intro sn hsn
      rw [hstate] at hsn
      rw [mem_received]
      exact (mem_markSeen hsn).imp id (ht.known sn)
  · constructor
    · rw [hstate]
      exact he.size
    · intro sn
      simp only [Missing, mem_received, hstate]
      rw [he.holes sn, Missing]
      constructor
      · rintro ⟨hlow, hnot, later, hlater, hfront⟩
        exact ⟨hlow, by rw [not_or]; exact ⟨by omega, hnot⟩, later, .inr hlater, hfront⟩
      · rintro ⟨hlow, hnot, later, hlater, hfront⟩
        rw [not_or] at hnot
        refine ⟨hlow, hnot.2, later, hlater.resolve_left ?_, hfront⟩
        rintro rfl
        omega

/-- Nothing ahead of the edge was received as long as nothing is held. -/
theorem Tracked.received_below (ht : Tracked n s) (hclear : s.rx.reorder = ∅) {sn : Nat}
    (hsn : sn ∈ s.received) : sn < s.rx.vrNext := by
  by_contra hahead
  have hmem := (ht.held sn (not_lt.mp hahead)).mpr hsn
  rw [hclear] at hmem
  exact Std.ExtTreeMap.not_mem_empty hmem

/-- Every number of a new gap is a hole, when there are few enough. -/
theorem receive_first_ahead (hn : n < snModulus) (ht : Tracked n s) (he : HolesExact s) {d : AmDataPdu}
    (hlt : d.seq < n) (hnew : d.seq ∉ s.rx.seen) (hahead : s.rx.vrNext < d.seq) (hclear : s.rx.reorder = ∅)
    (hgap : d.seq - s.rx.vrNext ≤ 255) : Tracked n (s.receive d) ∧ HolesExact (s.receive d) := by
  have hwindow : Window n (s.receive d).rx := rxData_window hn ht.window hlt
  have hstate : (s.receive d).rx = (holdAhead { s.rx with seen := markSeen s.rx.seen d.seq } d).1 :=
    (rxData_hold hnew hahead).1
  obtain ⟨hedge, hseen, -⟩ := holdAhead_frame { s.rx with seen := markSeen s.rx.seen d.seq } d
  obtain ⟨k, hk, hholes, hfull⟩ := holdAhead_holes { s.rx with seen := markSeen s.rx.seen d.seq } d
  have hreorder := holdAhead_reorder { s.rx with seen := markSeen s.rx.seen d.seq } d
  rw [← hstate] at hedge hseen hholes hfull hreorder
  dsimp only at hedge hk hholes hreorder
  rw [hclear, if_pos (by decide)] at hreorder
  have hnone : ∀ sn, sn ∉ s.rx.holes := by
    intro sn hsn
    obtain ⟨hlow, -, later, hlater, hfront⟩ := (he.holes sn).mp hsn
    have hbelow := ht.received_below hclear hlater
    omega
  have hmem : ∀ sn, sn ∈ (s.receive d).rx.holes ↔ s.rx.vrNext ≤ sn ∧ sn < s.rx.vrNext + k := by
    intro sn
    rw [hholes sn]
    exact ⟨fun h => h.resolve_left (hnone sn), .inr⟩
  have hsize : (s.receive d).rx.holes.size ≤ k := size_le_of_range fun sn hsn => (hmem sn).mp hsn
  have hwhole : k = d.seq - s.rx.vrNext := by
    refine hfull.resolve_right fun hbound => ?_
    simp only [kMaxHoles] at hbound
    omega
  have hheld : ∀ sn, sn ∈ (s.receive d).rx.reorder ↔ sn = d.seq := by
    intro sn
    rw [hreorder, Std.ExtTreeMap.mem_insert, Nat.compare_eq_eq]
    exact ⟨fun h => (h.resolve_right Std.ExtTreeMap.not_mem_empty).symm, fun h => .inl h.symm⟩
  constructor
  · constructor
    · exact hwindow
    · intro sn hsn
      rw [hedge] at hsn
      rw [hheld, mem_received]
      exact ⟨.inl, fun h => h.resolve_right fun hold => absurd (ht.received_below hclear hold) (not_lt.mpr hsn)⟩
    · intro sn hsn
      rw [hedge, (hheld sn).mp hsn]
      exact hahead.le
    · intro sn hsn hole hhole
      have hbounds := (hmem hole).mp hhole
      rw [(hheld sn).mp hsn]
      omega
    · intro sn hsn
      rw [hseen, (hheld sn).mp hsn]
      -- the filter may be full, but then it has a number behind the edge
      by_cases hother : ∃ low ∈ s.rx.seen, low < d.seq
      · obtain ⟨low, hlow, hbelow⟩ := hother
        exact mem_markSeen_of_lt (Std.ExtTreeSet.mem_insert.mpr (.inr hlow)) Std.ExtTreeSet.mem_insert_self hbelow
      · have hempty : s.rx.seen = ∅ := by
          refine Std.ExtTreeSet.eq_empty_iff_forall_not_mem.mpr fun low hlow => hother ⟨low, hlow, ?_⟩
          exact (ht.received_below hclear (ht.known low hlow)).trans hahead
        have hsmall : (∅ : SnSet).size < kMaxSeen := by decide
        rw [hempty, markSeen, if_neg (by
          have hgrown : ((∅ : SnSet).insert d.seq).size ≤ (∅ : SnSet).size + 1 := Std.ExtTreeSet.size_insert_le
          omega)]
        exact Std.ExtTreeSet.mem_insert_self
    · intro sn hsn
      rw [hseen] at hsn
      rw [mem_received]
      exact (mem_markSeen hsn).imp id (ht.known sn)
  · constructor
    · omega
    · intro sn
      simp only [Missing, mem_received, hedge]
      rw [hmem sn, hwhole]
      constructor
      · rintro ⟨hlow, hhigh⟩
        refine ⟨hlow, ?_, d.seq, .inl rfl, by omega⟩
        rintro (hsame | hold)
        · omega
        · have hbelow := ht.received_below hclear hold
          omega
      · rintro ⟨hlow, -, later, hlater, hfront⟩
        refine ⟨hlow, ?_⟩
        rcases hlater with rfl | hold
        · omega
        · have hbelow := ht.received_below hclear hold
          omega

/-- The edge moves over numbers that are not missing any more. -/
theorem receive_edge (hn : n < snModulus) (ht : Tracked n s) (he : HolesExact s) {d : AmDataPdu}
    (hlt : d.seq < n) (hnew : d.seq ∉ s.rx.seen) (hseq : d.seq = s.rx.vrNext) :
    Tracked n (s.receive d) ∧ HolesExact (s.receive d) := by
  have hwindow : Window n (s.receive d).rx := rxData_window hn ht.window hlt
  obtain ⟨m, hm⟩ := rxData_edge hn ht.window hnew hseq hlt
  have hedge : (s.receive d).rx.vrNext = s.rx.vrNext + (m + 1) := hm.edge
  have hseen : (s.receive d).rx.seen = markSeen s.rx.seen d.seq := hm.seen
  have hholes : ∀ sn, sn ∈ (s.receive d).rx.holes ↔
      sn ∈ s.rx.holes ∧ ¬ (s.rx.vrNext ≤ sn ∧ sn < s.rx.vrNext + (m + 1)) := hm.holes
  have hreorder : ∀ sn, sn ∈ (s.receive d).rx.reorder ↔
      ¬ (s.rx.vrNext ≤ sn ∧ sn < s.rx.vrNext + (m + 1)) ∧ sn ∈ s.rx.reorder := by
    intro sn
    rw [Std.ExtTreeMap.mem_iff_isSome_getElem?, show (s.receive d).rx.reorder[sn]? = _ from hm.reorder sn]
    split
    · rename_i hgone
      exact ⟨fun h => absurd h Bool.false_ne_true, fun h => absurd hgone h.1⟩
    · rename_i hkept
      rw [← Std.ExtTreeMap.mem_iff_isSome_getElem?, mem_insert_reorder]
      constructor
      · exact fun h => ⟨hkept, h.resolve_left fun hsame => hkept (by dsimp only; omega)⟩
      · exact fun h => .inr h.2
  constructor
  · constructor
    · exact hwindow
    · intro sn hsn
      rw [hedge] at hsn
      rw [hreorder, mem_received, ht.held sn (by omega)]
      exact ⟨fun h => .inr h.2, fun h => ⟨by omega, h.resolve_left (by omega)⟩⟩
    · intro sn hsn
      obtain ⟨hkept, hold⟩ := (hreorder sn).mp hsn
      have hlow := ht.ahead sn hold
      rw [hedge]
      omega
    · intro sn hsn hole hhole
      exact ht.behind sn ((hreorder sn).mp hsn).2 hole ((hholes hole).mp hhole).1
    · intro sn hsn
      obtain ⟨hkept, hold⟩ := (hreorder sn).mp hsn
      have hlow := ht.ahead sn hold
      rw [hseen]
      exact mem_markSeen_of_lt Std.ExtTreeSet.mem_insert_self
        (Std.ExtTreeSet.mem_insert.mpr (.inr (ht.filtered sn hold))) (by omega)
    · intro sn hsn
      rw [hseen] at hsn
      rw [mem_received]
      exact (mem_markSeen hsn).imp id (ht.known sn)
  · constructor
    · exact (size_le_of_subset fun sn hsn => ((hholes sn).mp hsn).1).trans he.size
    · intro sn
      simp only [Missing, mem_received, hedge]
      rw [hholes sn, he.holes sn, Missing]
      constructor
      · rintro ⟨⟨hlow, hnot, later, hlater, hfront⟩, hkept⟩
        exact ⟨by omega, by rw [not_or]; exact ⟨by omega, hnot⟩, later, .inr hlater, hfront⟩
      · rintro ⟨hlow, hnot, later, hlater, hfront⟩
        rw [not_or] at hnot
        refine ⟨⟨by omega, hnot.2, later, hlater.resolve_left ?_, hfront⟩, by omega⟩
        rintro rfl
        omega

/-- After the timeout nothing is missing: what is received ahead of the last hole has no gap. -/
theorem tick_tracked (hn : n < snModulus) (ht : Tracked n s) (he : HolesExact s) (nowMs : UInt32) :
    Tracked n { s with rx := (s.rx.tick nowMs).1 } ∧ HolesExact { s with rx := (s.rx.tick nowMs).1 } := by
  have hwindow := tick_window hn ht.window nowMs
  by_cases hdue : TimeoutDue s.rx nowMs
  · obtain ⟨last, hlast, hmax, m, hm, -⟩ := tick_of_due hn ht.window hdue
    have hedge : (s.rx.tick nowMs).1.vrNext = last + 1 + m := hm.edge
    have hseen : (s.rx.tick nowMs).1.seen = s.rx.seen := hm.seen
    have hfirst := ((he.holes last).mp hlast).1
    have hnone : (s.rx.tick nowMs).1.holes = ∅ :=
      Std.ExtTreeSet.eq_empty_iff_forall_not_mem.mpr (not_mem_holes_tick hdue)
    have hreorder : ∀ sn, sn ∈ (s.rx.tick nowMs).1.reorder ↔
        ¬ (last + 1 ≤ sn ∧ sn < last + 1 + m) ∧ sn ∈ s.rx.reorder := by
      intro sn
      rw [Std.ExtTreeMap.mem_iff_isSome_getElem?, show (s.rx.tick nowMs).1.reorder[sn]? =
        if last + 1 ≤ sn ∧ sn < last + 1 + m then none else s.rx.reorder[sn]? from hm.reorder sn]
      split
      · rename_i hgone
        exact ⟨fun h => absurd h Bool.false_ne_true, fun h => absurd hgone h.1⟩
      · rename_i hkept
        rw [← Std.ExtTreeMap.mem_iff_isSome_getElem?]
        exact ⟨fun h => ⟨hkept, h⟩, And.right⟩
    constructor
    · constructor
      · exact hwindow
      · intro sn hsn
        dsimp only at hsn ⊢
        rw [hreorder, ht.held sn (by omega)]
        exact ⟨And.right, fun h => ⟨by omega, h⟩⟩
      · intro sn hsn
        obtain ⟨hkept, hold⟩ := (hreorder sn).mp hsn
        have hbehind := ht.behind sn hold last hlast
        dsimp only
        omega
      · intro sn _ hole hhole
        exact absurd hhole (not_mem_holes_tick hdue hole)
      · intro sn hsn
        dsimp only
        rw [hseen]
        exact ht.filtered sn ((hreorder sn).mp hsn).2
      · intro sn hsn
        dsimp only at hsn
        rw [hseen] at hsn
        exact ht.known sn hsn
    · constructor
      · dsimp only
        rw [hnone]
        exact Nat.zero_le 255
      · intro sn
        refine ⟨fun hsn => absurd hsn (not_mem_holes_tick hdue sn), ?_⟩
        rintro ⟨hlow, hnot, later, hlater, hfront⟩
        dsimp only at hlow hnot hlater
        have hhole : sn ∈ s.rx.holes := (he.holes sn).mpr ⟨by omega, hnot, later, hlater, hfront⟩
        have hle := hmax sn hhole
        omega
  · rw [tick_of_not_due hdue]
    dsimp only
    split
    · exact ⟨ht, he⟩
    · have hnote := noteProgress_window ht.window (clock nowMs)
      unfold noteProgress at hnote ⊢
      split
      · rename_i hmoved
        rw [if_pos hmoved] at hnote
        exact ⟨⟨hnote, ht.held, ht.ahead, ht.behind, ht.filtered, ht.known⟩, he.size, he.holes⟩
      · exact ⟨ht, he⟩

/-- What the condition on a PDU is for: behind anything else the report is wrong. -/
theorem receive_breaks (ht : Tracked n s) (he : HolesExact s) {d : AmDataPdu} (hnew : d.seq ∉ s.rx.seen)
    (hahead : s.rx.vrNext < d.seq) (hnot : ¬ (s.rx.reorder.isEmpty = true ∧ d.seq - s.rx.vrNext ≤ 255)) :
    ¬ HolesExact (s.receive d) := by
  intro hexact
  have hstate : (s.receive d).rx = (holdAhead { s.rx with seen := markSeen s.rx.seen d.seq } d).1 :=
    (rxData_hold hnew hahead).1
  obtain ⟨k, hk, hholes, hfull⟩ := holdAhead_holes { s.rx with seen := markSeen s.rx.seen d.seq } d
  rw [← hstate] at hholes hfull
  dsimp only at hk hholes
  have hsize := hexact.size
  have hwhole : k = d.seq - s.rx.vrNext := by
    refine hfull.resolve_right fun hbound => ?_
    simp only [kMaxHoles] at hbound
    omega
  have hnamed : ∀ sn ∈ (s.receive d).rx.holes, sn ∉ (s.receive d).received := fun sn hsn =>
    ((hexact.holes sn).mp hsn).2.1
  by_cases hclear : s.rx.reorder.isEmpty = true
  · have hmany : d.seq - s.rx.vrNext ≤ (s.receive d).rx.holes.size :=
      le_size_of_range fun sn hlow hhigh => (hholes sn).mpr (.inr ⟨hlow, by omega⟩)
    exact hnot ⟨hclear, by omega⟩
  · obtain ⟨sn, hsn⟩ : ∃ sn, sn ∈ s.rx.reorder := by
      by_contra hnone
      push Not at hnone
      exact hclear (Std.ExtTreeMap.isEmpty_iff.mpr (Std.ExtTreeMap.eq_empty_iff_forall_not_mem.mpr hnone))
    have hlow := ht.ahead sn hsn
    have hreceived := (ht.held sn hlow).mp hsn
    rcases lt_trichotomy sn d.seq with hbelow | rfl | habove
    · -- the gap covers the held PDU
      exact hnamed sn ((hholes sn).mpr (.inr ⟨hlow, by omega⟩)) (mem_received.mpr (.inr hreceived))
    · exact hnew (ht.filtered _ hsn)
    · -- the PDU was missing, and its number stays among the holes
      have hunknown : d.seq ∉ s.received := fun hold =>
        hnew (ht.filtered _ ((ht.held _ hahead.le).mpr hold))
      have hhole : d.seq ∈ s.rx.holes := (he.holes _).mpr ⟨hahead.le, hunknown, sn, hreceived, habove⟩
      exact hnamed d.seq ((hholes _).mpr (.inl hhole)) (mem_received.mpr (.inl rfl))

/-- An enabled call. -/
theorem step_cases {s' : AmRxLog} {c : Call} (h : s.step n c = some s') :
    (∃ nowMs, c = .tick nowMs ∧ s' = { s with rx := (s.rx.tick nowMs).1 }) ∨
    (∃ pdu, c = .rx pdu ∧ decodeData pdu = none ∧ s' = s) ∨
    ∃ pdu d, c = .rx pdu ∧ decodeData pdu = some d ∧ d.seq < n ∧ s' = s.receive d := by
  unfold step at h
  split at h
  · rename_i hbelow
    obtain rfl := Option.some.inj h
    cases c with
    | tick nowMs => exact .inl ⟨nowMs, rfl, rfl⟩
    | rx pdu =>
      right
      cases hdecode : decodeData pdu with
      | none =>
        refine .inl ⟨pdu, rfl, hdecode, ?_⟩
        simp only [hdecode, Option.map_none, Option.getD_none, AmRx.call, AmRx.rx]
      | some d =>
        refine .inr ⟨pdu, d, rfl, hdecode, hbelow d hdecode, ?_⟩
        simp only [hdecode, Option.map_some, Option.getD_some, AmRx.call, AmRx.rx, receive]
  · cases h

/-- Step lemma: a number inside the recorded holes, or directly behind them, keeps them exact. -/
theorem receive_kept (hn : n < snModulus) (ht : Tracked n s) (he : HolesExact s) {d : AmDataPdu} (hlt : d.seq < n)
    (hgap : d.seq ∉ s.rx.seen → s.rx.vrNext < d.seq →
      s.rx.reorder.isEmpty = true ∧ d.seq - s.rx.vrNext ≤ 255) :
    Tracked n (s.receive d) ∧ HolesExact (s.receive d) := by
  rcases s.rx.rxData_trichotomy d with ⟨hseen, heq⟩ | ⟨-, hstale, heq⟩ | ⟨hnew, hahead⟩ | ⟨hnew, hseq⟩
  · exact receive_duplicate ht he hseen heq
  · exact receive_stale hn ht he hlt hstale heq
  · obtain ⟨hclear, hfew⟩ := hgap hnew hahead
    exact receive_first_ahead hn ht he hlt hnew hahead (Std.ExtTreeMap.isEmpty_iff.mp hclear) hfew
  · exact receive_edge hn ht he hlt hnew hseq

end AmRxLog

open AmRxLog

/-- For every run of a receiver whose peer sent less than 65536 PDUs: the STATUS report is right in
every state if and only if every gap is recorded while nothing is held and is of 255 numbers at most. -/
theorem am_status_correct_iff {n : Nat} (hn : n < snModulus) (r : AmRx) (calls : List Call) :
    Always (AmRxLog.step n) StatusCorrect { rx := r.reset } calls ↔
      StepsMeet (AmRxLog.step n) (GapWhenClear n) { rx := r.reset } calls := by
  have hstart := (statusCorrect_iff hn (tracked_reset n r).window).mpr (holesExact_reset r)
  refine always_iff_meets_of_kept (Tracked n) ?_ ?_ (tracked_reset n r) hstart calls
  · intro s c s' ht hcorrect hc hstep
    have he := (statusCorrect_iff hn ht.window).mp hcorrect
    have hkept : Tracked n s' ∧ HolesExact s' := by
      rcases step_cases hstep with ⟨nowMs, rfl, rfl⟩ | ⟨pdu, rfl, -, rfl⟩ | ⟨pdu, d, rfl, hd, hlt, rfl⟩
      · exact tick_tracked hn ht he nowMs
      · exact ⟨ht, he⟩
      · exact receive_kept hn ht he hlt (hc d hd hlt)
    exact ⟨hkept.1, (statusCorrect_iff hn hkept.1.window).mpr hkept.2⟩
  · intro s c ht hcorrect hnot
    have he := (statusCorrect_iff hn ht.window).mp hcorrect
    cases c with
    | tick nowMs => exact absurd trivial hnot
    | rx pdu =>
      simp only [GapWhenClear, not_forall] at hnot
      obtain ⟨d, hd, hlt, hnew, hahead, hbad⟩ := hnot
      have hbelow : (Call.rx pdu).Below n := by
        intro d' hd'
        obtain rfl := Option.some.inj (hd.symm.trans hd')
        exact hlt
      have hstep : s.step n (.rx pdu) = some (s.receive d) := by
        have hdecode : decodeData pdu = some d := hd
        rw [AmRxLog.step, if_pos hbelow]
        simp only [hdecode, Option.map_some, Option.getD_some, AmRx.call, AmRx.rx, receive]
      have hwindow := rxData_window hn ht.window hlt
      exact ⟨_, hstep, fun h =>
        receive_breaks ht he hnew hahead hbad ((statusCorrect_iff hn hwindow).mp h)⟩

/-- One gap, filled from the front. -/
theorem am_status_correct_one_gap :
    Always (AmRxLog.step 4) StatusCorrect { rx := AmRx.reset { cfg := {} } }
      [.rx (AmTx.buildPdu 0 0 [10]), .rx (AmTx.buildPdu 3 0 [13]), .rx (AmTx.buildPdu 1 0 [11])] :=
  (am_status_correct_iff (by decide) { cfg := {} } _).mpr (by decide +kernel)

/-- Behind PDUs 1 and 3 the report names 1 as missing. A gap of 256 numbers is reported with a
count of none and 512 octets of numbers. -/
theorem am_status_wrong :
    (∃ s : AmRxLog, runFrom (AmRxLog.step 4) { rx := AmRx.reset { cfg := {} } }
        [.rx (AmTx.buildPdu 1 0 [11]), .rx (AmTx.buildPdu 3 0 [13])] = some s ∧
      AmTx.nackList s.rx.buildStatus = [0, 1, 2] ∧ 1 ∈ s.received ∧ ¬ StatusCorrect s) ∧
    ∃ s : AmRxLog, runFrom (AmRxLog.step 257) { rx := AmRx.reset { cfg := {} } }
        [.rx (AmTx.buildPdu 256 0 [11])] = some s ∧
      s.rx.buildStatus.getD 3 0 = 0 ∧ s.rx.buildStatus.length = 516 ∧ ¬ StatusCorrect s := by
  constructor
  · refine ⟨_, rfl, by decide +kernel, by decide +kernel, fun h => ?_⟩
    have hnamed := (h.nacks 1).mp (by decide +kernel)
    exact hnamed.2.1 (by decide +kernel)
  · have hreport : ∃ s ∈ runFrom (AmRxLog.step 257) { rx := AmRx.reset { cfg := {} } }
        [.rx (AmTx.buildPdu 256 0 [11])],
        s.rx.buildStatus.getD 3 0 = 0 ∧ s.rx.buildStatus.length = 516 := by
      decide +kernel
    obtain ⟨s, hs, hzero, hlength⟩ := hreport
    refine ⟨s, hs, hzero, hlength, fun h => ?_⟩
    have hcount := h.count
    rw [hzero, hlength] at hcount
    exact absurd hcount (by decide)

end AetherStack.Guarantees
