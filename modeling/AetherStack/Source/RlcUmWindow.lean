import AetherStack.Source.RlcUmPlaces

/-!
# What a call on `UmRx` does to the window and the timer

The hold area has numbers less than half a turn ahead of the window edge. `Moved m r r'` says
that the edge goes on by `m` and takes out of the hold area what it passes; with it a call on
the receiver has four outcomes (`RxStep`), and the timeout is a move as well when the held
numbers do not straddle the wrap.
-/
namespace AetherStack.Source
namespace UmRx

variable {r r' : UmRx}

/-- Held numbers are less than half a turn ahead. -/
structure Near (r : UmRx) : Prop where
  edge_lt : r.vrNext < snModulus
  held : ∀ sn ∈ r.buffer, sn < snModulus ∧ r.distance sn < 32768

/-- Between two calls the edge is not held. -/
structure Ahead (r : UmRx) : Prop extends Near r where
  edge_free : r.vrNext ∉ r.buffer

theorem Ahead.distance_pos (h : Ahead r) {sn : Nat} (hsn : sn ∈ r.buffer) : 0 < r.distance sn := by
  have hlt := (h.held sn hsn).1
  have hne : sn ≠ r.vrNext := fun heq => h.edge_free (heq ▸ hsn)
  have hedge := h.edge_lt
  unfold distance
  rw [snModulus] at hlt hedge ⊢
  omega

@[simp] theorem distance_edge (h : r.vrNext < snModulus) : r.distance r.vrNext = 0 := by
  unfold distance
  rw [snModulus] at h ⊢
  omega

/-- The number at a distance. -/
theorem distance_add (h : r.vrNext < snModulus) {i : Nat} (hi : i < snModulus) :
    r.distance ((r.vrNext + i) % snModulus) = i := by
  unfold distance
  rw [snModulus] at h hi ⊢
  omega

theorem Ahead.congr (h : Ahead r) (hvr : r'.vrNext = r.vrNext) (hbuffer : r'.buffer = r.buffer) : Ahead r' := by
  refine ⟨⟨hvr ▸ h.edge_lt, fun sn hsn => ?_⟩, by rw [hvr, hbuffer]; exact h.edge_free⟩
  rw [hbuffer] at hsn
  unfold UmRx.distance
  rw [hvr]
  exact h.held sn hsn

theorem ahead_of_empty (hedge : r.vrNext < snModulus) (hempty : r.buffer = ∅) : Ahead r := by
  refine ⟨⟨hedge, fun sn hsn => ?_⟩, ?_⟩
  · rw [hempty] at hsn
    exact absurd hsn Std.ExtTreeMap.not_mem_empty
  · rw [hempty]
    exact Std.ExtTreeMap.not_mem_empty

/-- A PDU inserted near the edge keeps the buffer ahead of it. -/
theorem Ahead.insert (h : Ahead r) {sn : Nat} (new : Held) (hsn : sn < snModulus)
    (hnear : 0 < r.distance sn ∧ r.distance sn < 32768) (hvr : r'.vrNext = r.vrNext)
    (hbuffer : r'.buffer = r.buffer.insert sn new) : Ahead r' := by
  have hdistance : r'.distance = r.distance := by
    funext sn'
    unfold UmRx.distance
    rw [hvr]
  refine ⟨⟨hvr ▸ h.edge_lt, fun sn' hsn' => ?_⟩, ?_⟩
  · rw [hdistance]
    rw [hbuffer, Std.ExtTreeMap.mem_insert, Nat.compare_eq_eq] at hsn'
    rcases hsn' with rfl | hold
    · exact ⟨hsn, hnear.2⟩
    · exact h.held sn' hold
  · rw [hvr, hbuffer, Std.ExtTreeMap.mem_insert, Nat.compare_eq_eq]
    rintro (rfl | hold)
    · rw [distance_edge h.edge_lt] at hnear
      omega
    · exact h.edge_free hold

/-- The edge goes on by `m` and takes what it passes out of the hold area. -/
structure Moved (m : Nat) (r r' : UmRx) : Prop where
  edge : r'.vrNext = (r.vrNext + m) % snModulus
  held : ∀ sn, sn ∈ r'.buffer ↔ sn ∈ r.buffer ∧ m ≤ r.distance sn

theorem Moved.congr {m : Nat} (h : Moved m r r') {s : UmRx} (hvr : s.vrNext = r'.vrNext)
    (hbuffer : s.buffer = r'.buffer) : Moved m r s :=
  ⟨hvr.trans h.edge, hbuffer ▸ h.held⟩

/-- When the edge moves by `m` every distance shrinks by `m`. -/
theorem Moved.distance {m sn : Nat} (h : Moved m r r') (hedge : r.vrNext < snModulus)
    (hle : m ≤ r.distance sn) : r'.distance sn = r.distance sn - m := by
  unfold UmRx.distance at hle ⊢
  rw [h.edge]
  rw [snModulus] at hedge hle ⊢
  omega

theorem Moved.near {m : Nat} (h : Moved m r r') (hr : Near r) : Near r' where
  edge_lt := by
    rw [h.edge]
    exact Nat.mod_lt _ (by decide)
  held := by
    intro sn hsn
    obtain ⟨hold, hle⟩ := (h.held sn).mp hsn
    obtain ⟨hlt, hnear⟩ := hr.held sn hold
    rw [h.distance hr.edge_lt hle]
    omega

/-- Two moves of the edge add up. -/
theorem Moved.trans {m n : Nat} {s : UmRx} (h : Moved m r r') (hs : Moved n r' s)
    (hedge : r.vrNext < snModulus) : Moved (m + n) r s where
  edge := by rw [hs.edge, h.edge, Nat.mod_add_mod, Nat.add_assoc]
  held := by
    intro sn
    rw [hs.held, h.held]
    constructor
    · rintro ⟨⟨hold, hle⟩, hlater⟩
      rw [h.distance hedge hle] at hlater
      exact ⟨hold, by omega⟩
    · rintro ⟨hold, hle⟩
      refine ⟨⟨hold, by omega⟩, ?_⟩
      rw [h.distance hedge (by omega)]
      omega

theorem acceptInOrder_moved (h : Ahead r) (held : Held) : Moved 1 r (r.acceptInOrder held) := by
  rw [acceptInOrder_eq]
  refine ⟨rfl, fun sn => ⟨fun hsn => ⟨hsn, h.distance_pos hsn⟩, And.left⟩⟩

/-- The drain passes the held numbers next to the edge. -/
theorem deliverLoop_moved (fuel : Nat) {r : UmRx} (h : Near r) : ∃ m, Moved m r (deliverLoop fuel r) ∧
    ∀ i < m, (r.vrNext + i) % snModulus ∈ r.buffer := by
  induction fuel generalizing r with
  | zero => exact ⟨0, ⟨by simp [deliverLoop, Nat.mod_eq_of_lt h.edge_lt], by simp [deliverLoop]⟩, by simp⟩
  | succ fuel ih =>
    unfold deliverLoop
    split
    · exact ⟨0, ⟨by simp [Nat.mod_eq_of_lt h.edge_lt], by simp⟩, by simp⟩
    · rename_i held hget
      have hedge : r.vrNext ∈ r.buffer := by
        rw [Std.ExtTreeMap.mem_iff_isSome_getElem?, hget]
        rfl
      have hfirst : Moved 1 r
          { r.acceptInOrder held with buffer := (r.acceptInOrder held).buffer.erase r.vrNext } := by
        rw [acceptInOrder_eq]
        refine ⟨rfl, fun sn => ?_⟩
        dsimp only
        rw [Std.ExtTreeMap.mem_erase]
        constructor
        · rintro ⟨hne, hsn⟩
          refine ⟨hsn, ?_⟩
          have hlt := (h.held sn hsn).1
          have hvr := h.edge_lt
          rw [ne_eq, Nat.compare_eq_eq] at hne
          unfold distance
          rw [snModulus] at hlt hvr ⊢
          omega
        · rintro ⟨hsn, hpos⟩
          refine ⟨?_, hsn⟩
          rw [ne_eq, Nat.compare_eq_eq]
          rintro rfl
          rw [distance_edge h.edge_lt] at hpos
          omega
      obtain ⟨m, hm, hpassed⟩ := ih (hfirst.near h)
      refine ⟨1 + m, hfirst.trans hm h.edge_lt, fun i hi => ?_⟩
      cases i with
      | zero => simpa [Nat.mod_eq_of_lt h.edge_lt] using hedge
      | succ i =>
        have hin := ((hfirst.held _).mp (hpassed i (by omega))).1
        rw [hfirst.edge, Nat.mod_add_mod] at hin
        rwa [Nat.add_assoc, Nat.add_comm 1 i] at hin

theorem deliverLoop_timer (fuel : Nat) (r : UmRx) :
    (deliverLoop fuel r).timerRunning = r.timerRunning ∧
      (deliverLoop fuel r).timerDeadline = r.timerDeadline := by
  induction fuel generalizing r with
  | zero => exact ⟨rfl, rfl⟩
  | succ fuel ih =>
    unfold deliverLoop
    split
    · exact ⟨rfl, rfl⟩
    · rw [acceptInOrder_eq]
      exact ih _

theorem isEmpty_eq_false_iff_exists {buffer : SnMap Held} : buffer.isEmpty = false ↔ ∃ sn, sn ∈ buffer := by
  rw [Std.ExtTreeMap.isEmpty_eq_false_iff, Std.ExtTreeMap.eq_empty_iff_forall_not_mem]
  push Not
  exact Iff.rfl

/-- The edge goes to the next number that is not held, and the timer stops with nothing left. -/
theorem deliverReady_moved (h : Near r) : ∃ m, Moved m r r.deliverReady ∧
    (∀ i < m, (r.vrNext + i) % snModulus ∈ r.buffer) ∧ Ahead r.deliverReady ∧
    (r.deliverReady.timerRunning = true ↔ r.timerRunning = true ∧ ∃ sn, sn ∈ r.deliverReady.buffer) ∧
    r.deliverReady.timerDeadline = r.timerDeadline := by
  obtain ⟨m, hm, hpassed⟩ := deliverLoop_moved r.buffer.size h
  obtain ⟨hrunning, hdeadline⟩ := deliverLoop_timer r.buffer.size r
  have hfree : (deliverLoop r.buffer.size r).vrNext ∉ (deliverLoop r.buffer.size r).buffer := by
    rw [Std.ExtTreeMap.mem_iff_isSome_getElem?, deliverLoop_done _ r (Nat.le_refl _)]
    simp
  have hahead : Ahead (deliverLoop r.buffer.size r) := ⟨hm.near h, hfree⟩
  refine ⟨m, ?_⟩
  unfold deliverReady
  dsimp only
  split
  · rename_i hempty
    refine ⟨hm.congr rfl rfl, hpassed, ⟨⟨hahead.edge_lt, hahead.held⟩, hahead.edge_free⟩, ?_, hdeadline⟩
    refine ⟨fun hfalse => absurd hfalse (by simp), fun hheld => ?_⟩
    obtain ⟨-, sn, hsn⟩ := hheld
    rw [isEmpty_eq_false_iff_exists.mpr ⟨sn, hsn⟩] at hempty
    cases hempty
  · rename_i hempty
    refine ⟨hm, hpassed, hahead, ?_, hdeadline⟩
    rw [hrunning]
    refine ⟨fun hrun => ⟨hrun, ?_⟩, And.left⟩
    rw [← isEmpty_eq_false_iff_exists]
    simpa using hempty

/-- The PDU next in order is passed, and with it what waited for nothing else; the timer runs on
while something is left. -/
structure Passed (m : Nat) (r r' : UmRx) : Prop extends Moved m r r' where
  pos : 0 < m
  taken : ∀ i < m, 0 < i → (r.vrNext + i) % snModulus ∈ r.buffer
  ahead : Ahead r'
  running : r'.timerRunning = true ↔ r.timerRunning = true ∧ ∃ sn, sn ∈ r'.buffer
  deadline : r'.timerDeadline = r.timerDeadline

/-- The next PDU in order moves the edge over it and what it releases. -/
theorem inOrder_passed (h : Ahead r) (held : Held) : ∃ m, Passed m r (r.acceptInOrder held).deliverReady := by
  have hfirst := acceptInOrder_moved h held
  obtain ⟨m, hm, hpassed, hahead, hrunning, hdeadline⟩ := deliverReady_moved (hfirst.near h.toNear)
  have htimer : (r.acceptInOrder held).timerRunning = r.timerRunning ∧
      (r.acceptInOrder held).timerDeadline = r.timerDeadline := by
    rw [acceptInOrder_eq]
    exact ⟨rfl, rfl⟩
  rw [htimer.1] at hrunning
  refine ⟨1 + m, hfirst.trans hm h.edge_lt, by omega, fun i hi hpos => ?_, hahead, hrunning, hdeadline.trans htimer.2⟩
  have hin := ((hfirst.held _).mp (hpassed (i - 1) (by omega))).1
  rw [hfirst.edge, Nat.mod_add_mod, Nat.add_assoc] at hin
  rwa [show 1 + (i - 1) = i by omega] at hin

/-- The call hands over a new PDU that is next in order. -/
def TakesNext (r : UmRx) (pdu : Bytes) : Prop :=
  4 ≤ pdu.length ∧ getU16 pdu 1 ∉ r.seen ∧ r.ahead (getU16 pdu 1) = some 0

instance (r : UmRx) (pdu : Bytes) : Decidable (r.TakesNext pdu) := inferInstanceAs (Decidable (_ ∧ _))

/-- What `rx` does to the window and the timer. -/
inductive RxStep (r : UmRx) (nowMs : UInt32) (pdu : Bytes) (r' : UmRx) : Prop where
  | kept (vrNext : r'.vrNext = r.vrNext) (buffer : r'.buffer = r.buffer)
      (running : r'.timerRunning = r.timerRunning) (deadline : r'.timerDeadline = r.timerDeadline)
  | jumped (edge_lt : r'.vrNext < snModulus) (buffer : r'.buffer = ∅) (stopped : r'.timerRunning = false)
  | inOrder (m : Nat) (takes : r.TakesNext pdu) (passed : Passed m r r')
  | held (sn : Nat) (new : Held) (sn_lt : sn < snModulus) (near : 0 < r.distance sn ∧ r.distance sn < 32768)
      (vrNext : r'.vrNext = r.vrNext) (buffer : r'.buffer = r.buffer.insert sn new)
      (running : r'.timerRunning = true) (deadline : r'.timerDeadline =
        if r.timerRunning then r.timerDeadline else nowMs + r.cfg.tReorderMs)

theorem ahead_eq_some {sn d : Nat} (h : r.ahead sn = some d) : r.distance sn = d ∧ d < 32768 := by
  unfold ahead at h
  dsimp only at h
  split at h
  · rename_i hin
    obtain ⟨hpos, -⟩ := hin
    have hd := Option.some.inj h
    unfold snOffset at hd hpos
    dsimp only at hd hpos
    unfold distance
    rw [snModulus] at hd hpos ⊢
    split at hd <;> omega
  · cases h

theorem rxNew_of_zero {sn : Nat} (h : r.ahead sn = some 0) (nowMs : UInt32) (held : Held) :
    r.rxNew nowMs sn held = (r.acceptInOrder held).deliverReady := by
  simp only [rxNew, h]

theorem rx_takesNext (h : Ahead r) {pdu : Bytes} (htakes : r.TakesNext pdu) (nowMs : UInt32) :
    ∃ m, Passed m r (r.rx nowMs pdu) := by
  obtain ⟨hlong, hnew, hzero⟩ := htakes
  have hahead : Ahead { r with seen := AmRx.markSeen r.seen (getU16 pdu 1) } :=
    ⟨⟨h.edge_lt, h.held⟩, h.edge_free⟩
  obtain ⟨m, hm⟩ := inOrder_passed hahead ⟨pdu.getD 0 0 &&& fiMask, pdu.drop 3⟩
  refine ⟨m, ?_⟩
  rw [rx, if_neg (not_lt.mpr hlong)]
  dsimp only
  rw [if_neg hnew, rxNew_of_zero (r := { r with seen := AmRx.markSeen r.seen (getU16 pdu 1) }) hzero]
  exact ⟨⟨hm.edge, hm.held⟩, hm.pos, hm.taken, hm.ahead, hm.running, hm.deadline⟩

/-- Any other reception is one of the cases of `RxStep`. -/
theorem rx_step (h : Ahead r) (nowMs : UInt32) (pdu : Bytes) : RxStep r nowMs pdu (r.rx nowMs pdu) := by
  by_cases htakes : r.TakesNext pdu
  · obtain ⟨m, hm⟩ := rx_takesNext h htakes nowMs
    exact .inOrder m htakes hm
  · have hsn : getU16 pdu 1 < snModulus := getU16_lt _ _
    unfold rx
    split
    · exact .kept rfl rfl rfl rfl
    · rename_i hlong
      dsimp only
      split
      · exact .kept rfl rfl rfl rfl
      · rename_i hnew
        unfold rxNew
        split
        · split
          · -- nothing is held when the drain starts
            refine .jumped ?_ ?_ ?_
            all_goals
              unfold jumpAhead
              dsimp only
              rw [deliverReady_nothing (by rw [acceptInOrder_eq]), acceptInOrder_eq]
            · exact Nat.mod_lt _ (by decide)
          · exact .kept rfl rfl rfl rfl
        · rename_i hzero
          exact absurd ⟨not_lt.mp hlong, hnew, hzero⟩ htakes
        · rename_i d hpositive hd
          obtain ⟨hdist, hlt⟩ : r.distance (getU16 pdu 1) = d ∧ d < 32768 := ahead_eq_some hd
          have hnear : 0 < r.distance (getU16 pdu 1) ∧ r.distance (getU16 pdu 1) < 32768 := by
            rw [hdist]
            exact ⟨Nat.pos_of_ne_zero hpositive, hlt⟩
          dsimp only
          split
          · rename_i hrun
            exact .held _ _ hsn hnear rfl rfl hrun (by rw [if_pos hrun])
          · rename_i hrun
            exact .held _ _ hsn hnear rfl rfl rfl (by rw [if_neg hrun])

theorem rx_cfg (r : UmRx) (nowMs : UInt32) (pdu : Bytes) : (r.rx nowMs pdu).cfg = r.cfg := by
  unfold rx
  split
  · rfl
  · dsimp only
    split
    · rfl
    · exact (rxNew_kept _ nowMs _ _).1

/-- A timeout goes to the nearest held number and on. -/
theorem onReorderTimeout_moved (h : Ahead r) (hunsplit : r.Unsplit) (nowMs : UInt32)
    (hstopped : r.timerRunning = false) : ∃ m, Moved m r (r.onReorderTimeout nowMs) ∧
    Ahead (r.onReorderTimeout nowMs) ∧
    ((r.onReorderTimeout nowMs).timerRunning = true →
      (∃ sn, sn ∈ (r.onReorderTimeout nowMs).buffer) ∧
      (r.onReorderTimeout nowMs).timerDeadline = nowMs + r.cfg.tReorderMs) := by
  unfold onReorderTimeout
  split
  · rw [hstopped]
    exact ⟨0, ⟨by simp [Nat.mod_eq_of_lt h.edge_lt], by simp⟩, h, by simp⟩
  · rename_i resume hmin
    have hmem := Std.ExtTreeMap.minKey?_mem hmin
    have hnearest := hunsplit.nearest h.edge_lt hmin fun sn hsn => (h.held sn hsn).1
    have hpos := h.distance_pos hmem
    have hskip : Moved (r.distance resume) r (r.skipTo resume) := by
      unfold skipTo
      dsimp only
      rw [if_pos (show (resume + (snModulus - r.vrNext)) % snModulus > 0 from hpos)]
      refine ⟨?_, fun sn => ⟨fun hsn => ⟨hsn, hnearest sn hsn⟩, And.left⟩⟩
      have hlt := (h.held resume hmem).1
      have hedge := h.edge_lt
      unfold distance
      rw [snModulus] at hlt hedge ⊢
      dsimp only
      omega
    obtain ⟨m, hm, -, hahead, hrunning, -⟩ := deliverReady_moved (hskip.near h.toNear)
    have hmoved := hskip.trans hm h.edge_lt
    have hcfg : ((r.skipTo resume).deliverReady).cfg = r.cfg := by
      rw [(deliverReady_kept _).1]
      unfold skipTo
      dsimp only
      split <;> rfl
    dsimp only
    split
    · rename_i hempty
      refine ⟨_, hmoved, hahead, fun hrun => ?_⟩
      obtain ⟨-, hheld⟩ := hrunning.mp hrun
      rw [isEmpty_eq_false_iff_exists.mpr hheld] at hempty
      cases hempty
    · rename_i hempty
      refine ⟨_, hmoved.congr rfl rfl, ⟨⟨hahead.edge_lt, hahead.held⟩, hahead.edge_free⟩, fun _ => ⟨?_, ?_⟩⟩
      · rw [← isEmpty_eq_false_iff_exists]
        simpa using hempty
      · show nowMs + ((r.skipTo resume).deliverReady).cfg.tReorderMs = _
        rw [hcfg]

end UmRx
end AetherStack.Source
