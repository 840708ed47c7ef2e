import AetherStack.Source.Harq
import AetherStack.Source.RlcAmWindow
import AetherStack.Source.RlcUmPlaces

/-!
# Two runs a fixed time apart

How the time-driven entities of the radio link behave when every clock reading is moved by an
offset `k`. What they store of the clock is a 64-bit stamp (`AmTx`, `AmRx`), a deadline
(`UmRx`, the processes of `HarqTx`) or the last reading (`HarqTx`). The relations below say how
the stored values of the two runs correspond while the clock stands at `now` and `now + k`.
-/
namespace AetherStack.Source

theorem add_sub_add_offset (a b k : UInt32) : a + k - (b + k) = a - b := by grind

/-- A deadline expires alike when clock and deadline move together. -/
theorem expired_offset (now deadline k : UInt32) :
    HarqTx.expired (now + k) (deadline + k) = HarqTx.expired now deadline := by
  rw [HarqTx.expired, HarqTx.expired, add_sub_add_offset]

theorem clock_sub_clock {now u : UInt32} (h : u ≤ now) : clock now - clock u = (now - u).toNat := by
  have hle : u.toNat ≤ now.toNat := h
  rw [UInt32.toNat_sub_of_le now u h, clock, clock]
  omega

/-- Neither run's clock is before its own earlier reading. -/
def Later (k now t : UInt32) : Prop := now ≤ t ∧ now + k ≤ t + k

/-- Away from the wrap the noted time is the later one. -/
theorem max_of_le {a b : UInt32} (h : a ≤ b) : max a b = b := if_pos h

/-! ## Stamps -/

/-- A stamp of the acknowledged mode in the two runs: unset, or a reading of the past. -/
def Stamped (k now : UInt32) (p p' : Int) : Prop :=
  p = -1 ∧ p' = -1 ∨ ∃ u, Later k u now ∧ p = clock u ∧ p' = clock (u + k)

namespace Stamped
variable {k now : UInt32} {p p' : Int}

theorem unset : Stamped k now (-1) (-1) := .inl ⟨rfl, rfl⟩

theorem present : Stamped k now (clock now) (clock (now + k)) :=
  .inr ⟨now, ⟨UInt32.le_refl now, UInt32.le_refl (now + k)⟩, rfl, rfl⟩

theorem later {t : UInt32} (hlater : Later k now t) (h : Stamped k now p p') : Stamped k t p p' := by
  rcases h with h | ⟨u, hu, hp, hp'⟩
  · exact .inl h
  · exact .inr ⟨u, ⟨UInt32.le_trans hu.1 hlater.1, UInt32.le_trans hu.2 hlater.2⟩, hp, hp'⟩

/-- A moved stamp is unset where the first is. -/
theorem neg_iff (h : Stamped k now p p') : p' < 0 ↔ p < 0 := by
  rcases h with ⟨rfl, rfl⟩ | ⟨u, _, rfl, rfl⟩
  · exact Iff.rfl
  · simp only [clock]
    omega

/-- The time since a stamp is the same in both runs. -/
theorem elapsed (h : Stamped k now p p') (hset : ¬ p < 0) :
    clock (now + k) - p' = clock now - p := by
  rcases h with ⟨rfl, _⟩ | ⟨u, hu, rfl, rfl⟩
  · exact absurd (by decide) hset
  · rw [clock_sub_clock hu.1, clock_sub_clock hu.2, add_sub_add_offset]

/-- A timeout since a stamp is pending in both runs or in neither. -/
theorem waiting_iff (h : Stamped k now p p') (timeout : Int) :
    (p' ≥ 0 ∧ clock (now + k) - p' < timeout) ↔ (p ≥ 0 ∧ clock now - p < timeout) := by
  by_cases hset : p < 0
  · have hset' := h.neg_iff.mpr hset
    constructor
    · intro hwait
      omega
    · intro hwait
      omega
  · have hset' : ¬ p' < 0 := fun hneg => hset (h.neg_iff.mp hneg)
    rw [h.elapsed hset]
    constructor
    · intro hwait
      exact ⟨by omega, hwait.2⟩
    · intro hwait
      exact ⟨by omega, hwait.2⟩

/-- A timeout is due for both stamps or for neither. -/
theorem due_iff (h : Stamped k now p p') (timeout : Int) :
    (p' < 0 ∨ clock (now + k) - p' ≥ timeout) ↔ (p < 0 ∨ clock now - p ≥ timeout) := by
  have hwait := h.waiting_iff timeout
  constructor
  · intro hdue
    by_contra hnot
    have := hwait.mpr ⟨by omega, by omega⟩
    omega
  · intro hdue
    by_contra hnot
    have := hwait.mp ⟨by omega, by omega⟩
    omega

end Stamped

/-! ## Acknowledged mode, transmitter -/

namespace AmTx

def withStamps (t : AmTx) (p b : Int) : AmTx := { t with lastProgressMs := p, lastNackBurstMs := b }

/-- The transmitters of the two runs: equal but for their stamps. -/
def Shifted (k now : UInt32) (t t' : AmTx) : Prop :=
  ∃ p b, t' = t.withStamps p b ∧
    Stamped k now t.lastProgressMs p ∧ Stamped k now t.lastNackBurstMs b

/-- Segmentation reads and writes no stamp. -/
theorem txSegments_withStamps (t : AmTx) (p b : Int) (segs : List (UInt8 × Bytes)) :
    txSegments (t.withStamps p b) segs =
      ((txSegments t segs).1.withStamps p b, (txSegments t segs).2) := by
  induction segs generalizing t with
  | nil => rfl
  | cons seg rest ih =>
    have hseg : (t.withStamps p b).txSegment seg =
        ((t.txSegment seg).1.withStamps p b, (t.txSegment seg).2) := rfl
    rw [txSegments, txSegments, hseg, ih]

theorem txSegments_progress (t : AmTx) (segs : List (UInt8 × Bytes)) :
    (txSegments t segs).1.lastProgressMs = t.lastProgressMs ∧
      (txSegments t segs).1.lastNackBurstMs = t.lastNackBurstMs := by
  induction segs generalizing t with
  | nil => exact ⟨rfl, rfl⟩
  | cons seg rest ih => exact ih (t.txSegment seg).1

variable {k now : UInt32} {t t' : AmTx}

theorem Shifted.later {s : UInt32} (hlater : Later k now s) (h : Shifted k now t t') :
    Shifted k s t t' := by
  obtain ⟨p, b, hsame, hp, hb⟩ := h
  exact ⟨p, b, hsame, hp.later hlater, hb.later hlater⟩

/-- A tick of the AM transmitter gives the same PDUs at the moved clock. -/
theorem Shifted.tick (h : Shifted k now t t') :
    (t'.tick (now + k)).2 = (t.tick now).2 ∧ Shifted k now (t.tick now).1 (t'.tick (now + k)).1 := by
  obtain ⟨p, b, rfl, hp, hb⟩ := h
  by_cases hidle : t.cfg.tPollMs = 0 ∨ t.txBuffer.isEmpty = true
  · simp only [AmTx.tick, withStamps, hidle, if_true]
    exact ⟨trivial, p, b, rfl, hp, hb⟩
  · simp only [AmTx.tick, withStamps, hidle, if_false, hp.waiting_iff]
    split
    · exact ⟨rfl, p, b, rfl, hp, hb⟩
    · exact ⟨rfl, clock (now + k), b, rfl, .present, hb⟩

theorem Shifted.tx (h : Shifted k now t t') (sdu : Bytes) (force : Bool) :
    (t'.tx (now + k) sdu force).2 = (t.tx now sdu force).2 ∧
      Shifted k now (t.tx now sdu force).1 (t'.tx (now + k) sdu force).1 := by
  obtain ⟨p, b, rfl, hp, hb⟩ := h
  by_cases hempty : sdu = []
  · simp only [AmTx.tx, if_pos hempty]
    exact ⟨trivial, p, b, rfl, hp, hb⟩
  · have hlimit : (t.withStamps p b).txLimit force = t.txLimit force := rfl
    have hbuffer : (t.withStamps p b).txBuffer = t.txBuffer := rfl
    by_cases hfull : t.txBuffer.size ≥ t.txLimit force
    · simp only [AmTx.tx, if_neg hempty, hlimit, hbuffer, if_pos hfull]
      exact ⟨trivial, p, b, rfl, hp, hb⟩
    · have hplain : t.tx now sdu force = txSegments { t with lastProgressMs := clock now }
          (segmentSdu sdu t.cfg.maxPduPayload) := by
        rw [AmTx.tx, if_neg hempty, if_neg hfull]
      have hmoved : (t.withStamps p b).tx (now + k) sdu force =
          ((t.tx now sdu force).1.withStamps (clock (now + k)) b, (t.tx now sdu force).2) := by
        rw [hplain, AmTx.tx, if_neg hempty, hlimit, hbuffer, if_neg hfull]
        exact txSegments_withStamps { t with lastProgressMs := clock now } (clock (now + k)) b _
      have hstamps := txSegments_progress { t with lastProgressMs := clock now }
        (segmentSdu sdu t.cfg.maxPduPayload)
      rw [hmoved]
      refine ⟨rfl, clock (now + k), b, rfl, ?_, ?_⟩
      · rw [hplain, hstamps.1]
        exact .present
      · rw [hplain, hstamps.2]
        exact hb

theorem Shifted.onStatus (h : Shifted k now t t') (status : Bytes) :
    (t'.onStatus (now + k) status).2 = (t.onStatus now status).2 ∧
      Shifted k now (t.onStatus now status).1 (t'.onStatus (now + k) status).1 := by
  obtain ⟨p, b, rfl, hp, hb⟩ := h
  by_cases hbad : status.length < 4 ∨ status.getD 0 0 ≠ kAmDcControl
  · simp only [AmTx.onStatus, if_pos hbad]
    exact ⟨trivial, p, b, rfl, hp, hb⟩
  · simp only [AmTx.onStatus, withStamps, hbad, if_false, hb.due_iff]
    split
    · exact ⟨rfl, clock (now + k), clock (now + k), rfl, .present, .present⟩
    · exact ⟨rfl, clock (now + k), b, rfl, .present, hb⟩

theorem Shifted.reset (h : Shifted k now t t') : Shifted k now t.reset t'.reset := by
  obtain ⟨p, b, rfl, _, _⟩ := h
  exact ⟨-1, -1, rfl, .unset, .unset⟩

end AmTx

/-! ## Acknowledged mode, receiver -/

namespace AmRx

def withStamp (r : AmRx) (p : Int) : AmRx := { r with lastProgressMs := p }

/-- The receivers of the two runs: equal but for their stamp. -/
def Shifted (k now : UInt32) (r r' : AmRx) : Prop :=
  ∃ p, r' = r.withStamp p ∧ Stamped k now r.lastProgressMs p

theorem acceptInOrder_withStamp (r : AmRx) (p : Int) (sn : Nat) (held : Held) (out : AmOutcome) :
    (r.withStamp p).acceptInOrder sn held out =
      ((r.acceptInOrder sn held out).1.withStamp p, (r.acceptInOrder sn held out).2) := by
  unfold acceptInOrder withStamp
  cases fiKind held.fi with
  | complete => rfl
  | first => rfl
  | last => cases r.collecting <;> simp
  | middle => cases r.collecting <;> simp

theorem drainLoop_withStamp (fuel : Nat) (r : AmRx) (p : Int) (out : AmOutcome) :
    drainLoop fuel (r.withStamp p) out =
      ((drainLoop fuel r out).1.withStamp p, (drainLoop fuel r out).2) := by
  induction fuel generalizing r out with
  | zero => rfl
  | succ fuel ih =>
    have hheld : (r.withStamp p).reorder[(r.withStamp p).vrNext]? = r.reorder[r.vrNext]? := rfl
    rw [drainLoop, drainLoop, hheld]
    cases r.reorder[r.vrNext]? with
    | none => rfl
    | some held =>
      dsimp only
      rw [← ih]
      congr 1
      all_goals rw [show (r.withStamp p).vrNext = r.vrNext from rfl, acceptInOrder_withStamp]
      rfl

theorem handleNew_withStamp (r : AmRx) (p : Int) (d : AmDataPdu) :
    (r.withStamp p).handleNew d = ((r.handleNew d).1.withStamp p, (r.handleNew d).2) := by
  by_cases hahead : d.seq > r.vrNext
  · rw [handleNew, handleNew, if_pos hahead, if_pos (show d.seq > (r.withStamp p).vrNext from hahead)]
    unfold holdAhead
    by_cases hroom : r.reorder.size < kMaxReorder
    · simp [withStamp, hroom]
    · simp [withStamp, hroom]
  · rw [handleNew, handleNew, if_neg hahead, if_neg (show ¬ d.seq > (r.withStamp p).vrNext from hahead)]
    have hseen : { r.withStamp p with seen := markSeen (r.withStamp p).seen d.seq } =
      withStamp { r with seen := markSeen r.seen d.seq } p := rfl
    rw [hseen, acceptAndDrain, acceptAndDrain, acceptInOrder_withStamp]
    exact drainLoop_withStamp _ _ p _

theorem rxData_eq_handleNew {r : AmRx} {d : AmDataPdu} (hseen : d.seq ∉ r.seen)
    (hstale : ¬ d.seq < r.vrNext) :
    r.rxData d = if d.poll then ((r.handleNew d).1, { (r.handleNew d).2 with statusNeeded := true })
      else r.handleNew d := by
  rw [rxData, if_neg hseen]
  dsimp only
  rw [if_neg hstale]
  rfl

/-- Reception never reads the progress stamp. -/
theorem rxData_withStamp (r : AmRx) (p : Int) (d : AmDataPdu) :
    (r.withStamp p).rxData d = ((r.rxData d).1.withStamp p, (r.rxData d).2) := by
  by_cases hseen : d.seq ∈ r.seen
  · rw [rxData, rxData, if_pos hseen, if_pos (show d.seq ∈ (r.withStamp p).seen from hseen)]
  · by_cases hstale : d.seq < r.vrNext
    · rw [rxData, rxData, if_neg hseen, if_neg (show d.seq ∉ (r.withStamp p).seen from hseen)]
      dsimp only
      rw [if_pos hstale, if_pos (show d.seq < (r.withStamp p).vrNext from hstale)]
      rfl
    · have hseen' : d.seq ∉ (r.withStamp p).seen := hseen
      have hstale' : ¬ d.seq < (r.withStamp p).vrNext := hstale
      rw [rxData_eq_handleNew hseen hstale, rxData_eq_handleNew hseen' hstale', handleNew_withStamp]
      split <;> rfl

theorem rx_withStamp (r : AmRx) (p : Int) (pdu : Bytes) :
    (r.withStamp p).rx pdu = ((r.rx pdu).1.withStamp p, (r.rx pdu).2) := by
  unfold rx
  split
  · rfl
  · exact rxData_withStamp r p _

variable {k now : UInt32} {r r' : AmRx}

theorem Shifted.later {s : UInt32} (hlater : Later k now s) (h : Shifted k now r r') :
    Shifted k s r r' := by
  obtain ⟨p, hsame, hp⟩ := h
  exact ⟨p, hsame, hp.later hlater⟩

theorem Shifted.rx (h : Shifted k now r r') (pdu : Bytes) :
    (r'.rx pdu).2 = (r.rx pdu).2 ∧ Shifted k now (r.rx pdu).1 (r'.rx pdu).1 := by
  obtain ⟨p, rfl, hp⟩ := h
  rw [rx_withStamp]
  refine ⟨rfl, p, rfl, ?_⟩
  rw [rx_progress]
  exact hp

theorem Shifted.noteProgress (h : Shifted k now r r') :
    Shifted k now (r.noteProgress (clock now)) (r'.noteProgress (clock (now + k))) := by
  obtain ⟨p, rfl, hp⟩ := h
  by_cases hmoved : r.accepts ≠ r.tickAccepts
  · have hmoved' : (r.withStamp p).accepts ≠ (r.withStamp p).tickAccepts := hmoved
    rw [AmRx.noteProgress, AmRx.noteProgress, if_pos hmoved, if_pos hmoved']
    exact ⟨clock (now + k), rfl, .present⟩
  · have hmoved' : ¬ (r.withStamp p).accepts ≠ (r.withStamp p).tickAccepts := hmoved
    rw [AmRx.noteProgress, AmRx.noteProgress, if_neg hmoved, if_neg hmoved']
    exact ⟨p, rfl, hp⟩

/-- The reordering timeout falls due in both receivers or in neither. -/
theorem Shifted.timeoutDue_iff (h : Shifted k now r r') :
    TimeoutDue r' (now + k) ↔ TimeoutDue r now := by
  obtain ⟨p, rfl, hp⟩ := h
  have hwait := hp.waiting_iff (clock r.cfg.tReorderMs)
  have hneg := hp.neg_iff
  unfold TimeoutDue withStamp
  dsimp only
  constructor
  · rintro ⟨hset, hidle, hholes, hstarted, hdue⟩
    exact ⟨hset, hidle, hholes, by omega, by omega⟩
  · rintro ⟨hset, hidle, hholes, hstarted, hdue⟩
    exact ⟨hset, hidle, hholes, by omega, by omega⟩

theorem Shifted.tick (h : Shifted k now r r') :
    (r'.tick (now + k)).2 = (r.tick now).2 ∧ Shifted k now (r.tick now).1 (r'.tick (now + k)).1 := by
  by_cases hdue : TimeoutDue r now
  · have hdue' := h.timeoutDue_iff.mpr hdue
    obtain ⟨p, rfl, hp⟩ := h
    rw [tick_eq_of_due hdue, tick_eq_of_due hdue']
    have hdrain := drainLoop_withStamp r.reorder.size
      (r.skipTo (r.holes.toList.foldl (fun _ sn => (sn + 1) % snModulus) r.vrNext) (clock now))
      (clock (now + k)) { lost := r.holes.toList }
    refine ⟨?_, clock (now + k), congrArg Prod.fst hdrain, ?_⟩
    · exact congrArg (fun next => { next.2 with statusNeeded := true }) hdrain
    · rw [drainReorder, drainLoop_progress]
      exact .present
  · have hdue' := fun hdue' => hdue (h.timeoutDue_iff.mp hdue')
    rw [tick_of_not_due hdue, tick_of_not_due hdue']
    refine ⟨rfl, ?_⟩
    have hnote := h.noteProgress
    obtain ⟨p, rfl, hp⟩ := h
    by_cases hoff : r.cfg.tReorderMs = 0
    · have hoff' : (r.withStamp p).cfg.tReorderMs = 0 := hoff
      rw [if_pos hoff, if_pos hoff']
      exact ⟨p, rfl, hp⟩
    · have hoff' : ¬ (r.withStamp p).cfg.tReorderMs = 0 := hoff
      rw [if_neg hoff, if_neg hoff']
      exact hnote

theorem Shifted.reset (h : Shifted k now r r') : Shifted k now r.reset r'.reset := by
  obtain ⟨p, rfl, _⟩ := h
  exact ⟨-1, rfl, .unset⟩

end AmRx

/-! ## Unacknowledged mode, receiver -/

namespace UmRx

def withDeadline (r : UmRx) (d : UInt32) : UmRx := { r with timerDeadline := d }

/-- The receivers of the two runs: equal but for the deadline, which only a running timer has. -/
def Shifted (k : UInt32) (r r' : UmRx) : Prop :=
  ∃ d, r' = r.withDeadline d ∧ (r.timerRunning = true → d = r.timerDeadline + k)

/-- What neither reads the deadline nor moves it, and starts no timer. -/
structure TimerKept (act : UmRx → UmRx) : Prop where
  withDeadline : ∀ r d, act (r.withDeadline d) = (act r).withDeadline d
  deadline : ∀ r, (act r).timerDeadline = r.timerDeadline
  running : ∀ r, (act r).timerRunning = true → r.timerRunning = true

/-- What keeps the timer keeps the shift. -/
theorem TimerKept.shifted {k : UInt32} {r r' : UmRx} {act : UmRx → UmRx} (hact : TimerKept act)
    (h : Shifted k r r') : Shifted k (act r) (act r') := by
  obtain ⟨d, rfl, hd⟩ := h
  refine ⟨d, hact.withDeadline r d, fun hrun => ?_⟩
  rw [hact.deadline, hd (hact.running r hrun)]

/-- Two actions that keep the timer keep it one after the other. -/
theorem TimerKept.comp {f g : UmRx → UmRx} (hf : TimerKept f) (hg : TimerKept g) :
    TimerKept fun r => g (f r) where
  withDeadline := fun r d => by rw [hf.withDeadline, hg.withDeadline]
  deadline := fun r => by rw [hg.deadline, hf.deadline]
  running := fun r hrun => hf.running r (hg.running _ hrun)

theorem acceptInOrder_timerKept (held : Held) : TimerKept fun r => r.acceptInOrder held where
  withDeadline := fun r d => by
    rw [acceptInOrder_eq, acceptInOrder_eq]
    rfl
  deadline := fun r => by rw [acceptInOrder_eq]
  running := fun r hrun => by
    rw [acceptInOrder_eq] at hrun
    exact hrun

/-- One turn of the delivery loop. -/
def deliverTurn (held : Held) (r : UmRx) : UmRx :=
  { r.acceptInOrder held with buffer := (r.acceptInOrder held).buffer.erase r.vrNext }

theorem deliverTurn_timerKept (held : Held) : TimerKept (deliverTurn held) where
  withDeadline := fun r d => by
    have haccept : (r.withDeadline d).acceptInOrder held = (r.acceptInOrder held).withDeadline d :=
      (acceptInOrder_timerKept held).withDeadline r d
    rw [deliverTurn, haccept]
    rfl
  deadline := (acceptInOrder_timerKept held).deadline
  running := (acceptInOrder_timerKept held).running

theorem deliverLoop_succ (fuel : Nat) (r : UmRx) :
    deliverLoop (fuel + 1) r = match r.buffer[r.vrNext]? with
      | none => r
      | some held => deliverLoop fuel (deliverTurn held r) := rfl

theorem deliverLoop_timerKept (fuel : Nat) : TimerKept (deliverLoop fuel) := by
  induction fuel with
  | zero => exact ⟨fun _ _ => rfl, fun _ => rfl, fun _ hrun => hrun⟩
  | succ fuel ih =>
    constructor
    · intro r d
      have hheld : (r.withDeadline d).buffer[(r.withDeadline d).vrNext]? = r.buffer[r.vrNext]? := rfl
      rw [deliverLoop_succ, deliverLoop_succ, hheld]
      cases r.buffer[r.vrNext]? with
      | none => rfl
      | some held => exact ((deliverTurn_timerKept held).comp ih).withDeadline r d
    · intro r
      rw [deliverLoop_succ]
      cases r.buffer[r.vrNext]? with
      | none => rfl
      | some held => exact ((deliverTurn_timerKept held).comp ih).deadline r
    · intro r hrun
      rw [deliverLoop_succ] at hrun
      cases hheld : r.buffer[r.vrNext]? with
      | none => simpa only [hheld] using hrun
      | some held =>
        rw [hheld] at hrun
        exact ((deliverTurn_timerKept held).comp ih).running r hrun

/-- An empty hold area stops the timer. -/
theorem stopWhenEmpty_timerKept :
    TimerKept fun r => if r.buffer.isEmpty then { r with timerRunning := false } else r where
  withDeadline := fun r d => by
    by_cases hempty : r.buffer.isEmpty = true
    · simp [withDeadline, hempty]
    · simp [withDeadline, hempty]
  deadline := fun r => by split <;> rfl
  running := fun r hrun => by
    split at hrun
    · cases hrun
    · exact hrun

theorem deliverReady_timerKept : TimerKept deliverReady where
  withDeadline := fun r =>
    ((deliverLoop_timerKept r.buffer.size).comp stopWhenEmpty_timerKept).withDeadline r
  deadline := fun r => ((deliverLoop_timerKept r.buffer.size).comp stopWhenEmpty_timerKept).deadline r
  running := fun r => ((deliverLoop_timerKept r.buffer.size).comp stopWhenEmpty_timerKept).running r

theorem jumpAhead_timerKept (sn : Nat) (held : Held) : TimerKept fun r => r.jumpAhead sn held where
  withDeadline := fun r d =>
    ((acceptInOrder_timerKept held).comp deliverReady_timerKept).withDeadline
      { r with
        dropped := r.dropped + UInt32.ofNat ((sn + (snModulus - r.vrNext)) % snModulus)
        vrNext := sn, buffer := ∅, collecting := false, partialSdu := [], timerRunning := false } d
  deadline := fun _ => ((acceptInOrder_timerKept held).comp deliverReady_timerKept).deadline _
  running := fun _ hrun =>
    absurd (((acceptInOrder_timerKept held).comp deliverReady_timerKept).running _ hrun) Bool.false_ne_true

theorem skipTo_timerKept (resume : Nat) : TimerKept fun r => r.skipTo resume where
  withDeadline := fun r d => by
    unfold skipTo withDeadline
    dsimp only
    split <;> rfl
  deadline := fun r => by
    unfold skipTo
    dsimp only
    split <;> rfl
  running := fun r hrun => by
    unfold skipTo at hrun
    dsimp only at hrun
    split at hrun <;> exact hrun

variable {k now : UInt32} {r r' : UmRx}

/-- A timer that starts takes the clock of its own run. -/
theorem Shifted.started (h : Shifted k r r') :
    Shifted k { r with timerRunning := true, timerDeadline := now + r.cfg.tReorderMs }
      { r' with timerRunning := true, timerDeadline := now + k + r'.cfg.tReorderMs } := by
  obtain ⟨d, rfl, _⟩ := h
  refine ⟨now + k + r.cfg.tReorderMs, rfl, fun _ => ?_⟩
  dsimp only
  grind

theorem Shifted.running_eq (h : Shifted k r r') : r'.timerRunning = r.timerRunning := by
  obtain ⟨d, rfl, _⟩ := h
  rfl

theorem Shifted.rxNew (h : Shifted k r r') (sn : Nat) (held : Held) :
    Shifted k (r.rxNew now sn held) (r'.rxNew (now + k) sn held) := by
  have hahead : r'.ahead sn = r.ahead sn := by
    obtain ⟨d, rfl, _⟩ := h
    rfl
  have hwindow : snOffset sn r'.vrNext ≥ r'.cfg.window.toNat ↔
      snOffset sn r.vrNext ≥ r.cfg.window.toNat := by
    obtain ⟨d, rfl, _⟩ := h
    exact Iff.rfl
  unfold UmRx.rxNew
  rw [hahead]
  cases hd : r.ahead sn with
  | none =>
    by_cases hjump : snOffset sn r.vrNext ≥ r.cfg.window.toNat
    · dsimp only
      rw [if_pos hjump, if_pos (hwindow.mpr hjump)]
      exact (jumpAhead_timerKept sn held).shifted h
    · dsimp only
      rw [if_neg hjump, if_neg fun hjump' => hjump (hwindow.mp hjump')]
      obtain ⟨d, rfl, hd⟩ := h
      exact ⟨d, rfl, hd⟩
  | some n =>
    cases n with
    | zero => exact ((acceptInOrder_timerKept held).comp deliverReady_timerKept).shifted h
    | succ n =>
      have hheld : Shifted k { r with buffer := r.buffer.insert sn held }
          { r' with buffer := r'.buffer.insert sn held } := by
        obtain ⟨d, rfl, hd⟩ := h
        exact ⟨d, rfl, hd⟩
      dsimp only
      by_cases hrun : r.timerRunning = true
      · rw [if_pos hrun, if_pos (h.running_eq.trans hrun)]
        exact hheld
      · have hrun' : ¬ r'.timerRunning = true := fun hrun' => hrun (h.running_eq.symm.trans hrun')
        rw [if_neg hrun, if_neg hrun']
        exact hheld.started

theorem Shifted.rx (h : Shifted k r r') (pdu : Bytes) : Shifted k (r.rx now pdu) (r'.rx (now + k) pdu) := by
  have hseen : r'.seen = r.seen := by
    obtain ⟨d, rfl, _⟩ := h
    rfl
  unfold UmRx.rx
  by_cases hshort : pdu.length < 4
  · rw [if_pos hshort, if_pos hshort]
    exact h
  · rw [if_neg hshort, if_neg hshort]
    dsimp only
    rw [hseen]
    by_cases hold : getU16 pdu 1 ∈ r.seen
    · rw [if_pos hold, if_pos hold]
      obtain ⟨d, rfl, hd⟩ := h
      exact ⟨d, rfl, hd⟩
    · rw [if_neg hold, if_neg hold]
      have hmarked : Shifted k { r with seen := AmRx.markSeen r.seen (getU16 pdu 1) }
          { r' with seen := AmRx.markSeen r.seen (getU16 pdu 1) } := by
        obtain ⟨d, rfl, hd⟩ := h
        exact ⟨d, rfl, hd⟩
      exact hmarked.rxNew _ _

theorem Shifted.onReorderTimeout (h : Shifted k r r') :
    Shifted k (r.onReorderTimeout now) (r'.onReorderTimeout (now + k)) := by
  have hmin : r'.buffer.minKey? = r.buffer.minKey? := by
    obtain ⟨d, rfl, _⟩ := h
    rfl
  unfold UmRx.onReorderTimeout
  rw [hmin]
  cases r.buffer.minKey? with
  | none => exact h
  | some resume =>
    have hready := ((skipTo_timerKept resume).comp deliverReady_timerKept).shifted h
    have hempty : (r'.skipTo resume).deliverReady.buffer = (r.skipTo resume).deliverReady.buffer := by
      obtain ⟨d, hsame, _⟩ := hready
      rw [hsame]
      rfl
    dsimp only
    by_cases hnone : (r.skipTo resume).deliverReady.buffer.isEmpty = true
    · have hnone' : (r'.skipTo resume).deliverReady.buffer.isEmpty = true := hempty.symm ▸ hnone
      rw [if_pos hnone, if_pos hnone']
      exact hready
    · have hnone' : ¬ (r'.skipTo resume).deliverReady.buffer.isEmpty = true := hempty.symm ▸ hnone
      rw [if_neg hnone, if_neg hnone']
      exact hready.started

/-- The UM timer falls due in both receivers or in neither. -/
theorem Shifted.due_iff (h : Shifted k r r') : r'.Due (now + k) ↔ r.Due now := by
  obtain ⟨d, rfl, hd⟩ := h
  unfold Due withDeadline
  constructor
  · rintro ⟨hrun, hpast⟩
    rw [hd hrun, add_sub_add_offset] at hpast
    exact ⟨hrun, hpast⟩
  · rintro ⟨hrun, hpast⟩
    rw [hd hrun, add_sub_add_offset]
    exact ⟨hrun, hpast⟩

theorem Shifted.tick (h : Shifted k r r') : Shifted k (r.tick now) (r'.tick (now + k)) := by
  by_cases hdue : r.Due now
  · rw [tick_due hdue, tick_due (h.due_iff.mpr hdue)]
    have hstopped : Shifted k { r with timerRunning := false } { r' with timerRunning := false } := by
      obtain ⟨d, rfl, _⟩ := h
      exact ⟨d, rfl, fun hrun => absurd hrun Bool.false_ne_true⟩
    exact hstopped.onReorderTimeout
  · rw [tick_not_due hdue, tick_not_due fun hdue' => hdue (h.due_iff.mp hdue')]
    exact h

theorem Shifted.poll (h : Shifted k r r') : r'.poll.2 = r.poll.2 ∧ Shifted k r.poll.1 r'.poll.1 := by
  obtain ⟨d, rfl, hd⟩ := h
  exact ⟨rfl, d, rfl, hd⟩

theorem Shifted.reset (h : Shifted k r r') : Shifted k r.reset r'.reset := by
  obtain ⟨d, rfl, _⟩ := h
  exact ⟨d, rfl, fun hrun => absurd hrun Bool.false_ne_true⟩

end UmRx

/-! ## HARQ transmitter -/

namespace HarqTx

/-- A process in the two runs: equal but for the deadline, which only a busy one has. -/
def ProcShifted (k : UInt32) (pr pr' : HarqProc) : Prop :=
  ∃ d, pr' = { pr with deadline := d } ∧ (pr.busy = true → d = pr.deadline + k)

/-- The process tables of the two runs. -/
def ProcsShifted (k : UInt32) (procs procs' : List HarqProc) : Prop :=
  procs'.length = procs.length ∧ ∀ p, ProcShifted k (procs.getD p {}) (procs'.getD p {})

structure Shifted (k now : UInt32) (t t' : HarqTx) : Prop where
  cfg : t'.cfg = t.cfg
  nextProc : t'.nextProc = t.nextProc
  lastNow : t'.lastNow = t.lastNow + k
  past : Later k t.lastNow now
  procs : ProcsShifted k t.procs t'.procs

variable {k now : UInt32} {t t' : HarqTx}

theorem ProcShifted.free {k : UInt32} {pr pr' : HarqProc} (h : ProcShifted k pr pr') :
    ProcShifted k { pr with busy := false } { pr' with busy := false } := by
  obtain ⟨d, rfl, _⟩ := h
  exact ⟨d, rfl, fun hbusy => absurd hbusy Bool.false_ne_true⟩

theorem ProcsShifted.set {procs procs' : List HarqProc} (h : ProcsShifted k procs procs') (p : Nat)
    {pr pr' : HarqProc} (hpr : ProcShifted k pr pr') :
    ProcsShifted k (procs.set p pr) (procs'.set p pr') := by
  obtain ⟨hlen, hprocs⟩ := h
  refine ⟨by rw [List.length_set, List.length_set, hlen], fun q => ?_⟩
  rw [List.getD_eq_getElem?_getD, List.getD_eq_getElem?_getD, List.getElem?_set, List.getElem?_set, hlen]
  split
  · split
    · exact hpr
    · exact ⟨0, rfl, fun hbusy => absurd hbusy Bool.false_ne_true⟩
  · have hq := hprocs q
    rw [List.getD_eq_getElem?_getD, List.getD_eq_getElem?_getD] at hq
    exact hq

theorem Shifted.later {s : UInt32} (hlater : Later k now s) (h : Shifted k now t t') :
    Shifted k s t t' where
  cfg := h.cfg
  nextProc := h.nextProc
  lastNow := h.lastNow
  past := ⟨UInt32.le_trans h.past.1 hlater.1, UInt32.le_trans h.past.2 hlater.2⟩
  procs := h.procs

theorem Shifted.freeProc_eq (h : Shifted k now t t') : t'.freeProc = t.freeProc := by
  have hfree : ∀ p, (t'.procs.getD p {}).busy = (t.procs.getD p {}).busy := by
    intro p
    obtain ⟨d, hsame, _⟩ := h.procs.2 p
    rw [hsame]
  unfold freeProc
  rw [h.cfg, h.nextProc]
  simp only [hfree]

/-- A deadline that is set takes the clock of its own run. -/
theorem Shifted.deadline (h : Shifted k now t t') :
    t'.lastNow + t'.cfg.ackTimeoutMs = t.lastNow + t.cfg.ackTimeoutMs + k := by
  rw [h.lastNow, h.cfg]
  grind

theorem Shifted.send (h : Shifted k now t t') (macPdu : Bytes) :
    (t'.send macPdu).2 = (t.send macPdu).2 ∧ Shifted k now (t.send macPdu).1 (t'.send macPdu).1 := by
  unfold HarqTx.send
  rw [h.freeProc_eq]
  cases t.freeProc with
  | none => exact ⟨rfl, h⟩
  | some p =>
    obtain ⟨d, hsame, _⟩ := h.procs.2 p
    have hndi : (t'.procs.getD p {}).ndi = (t.procs.getD p {}).ndi := by rw [hsame]
    dsimp only
    rw [hndi, h.deadline, h.cfg]
    exact ⟨rfl, rfl, rfl, h.lastNow, h.past, h.procs.set p ⟨_, rfl, fun _ => rfl⟩⟩

theorem Shifted.retx (h : Shifted k now t t') (p : Nat) :
    (t'.retx p).2 = (t.retx p).2 ∧ Shifted k now (t.retx p).1 (t'.retx p).1 := by
  have hpr := h.procs.2 p
  obtain ⟨d, hsame, hd⟩ := hpr
  unfold HarqTx.retx
  rw [h.deadline, h.cfg, hsame]
  dsimp only
  split
  · exact ⟨rfl, h⟩
  · split
    · have hprocs := h.procs.set p (ProcShifted.free ⟨d, rfl, hd⟩)
      exact ⟨rfl, rfl, h.nextProc, h.lastNow, h.past, hprocs⟩
    · have hproc : ProcShifted k
          { t.procs.getD p {} with
            retxCount := (t.procs.getD p {}).retxCount + 1, deadline := t.lastNow + t.cfg.ackTimeoutMs }
          { t.procs.getD p {} with
            retxCount := (t.procs.getD p {}).retxCount + 1
            deadline := t.lastNow + t.cfg.ackTimeoutMs + k } := ⟨_, rfl, fun _ => rfl⟩
      exact ⟨rfl, rfl, h.nextProc, h.lastNow, h.past, h.procs.set p hproc⟩

theorem Shifted.advance (h : Shifted k now t t') :
    Shifted k now (t.advance now) (t'.advance (now + k)) := by
  have hnow : (t.advance now).lastNow = now := max_of_le h.past.1
  have hnow' : (t'.advance (now + k)).lastNow = now + k := by
    show max t'.lastNow (now + k) = now + k
    rw [h.lastNow]
    exact max_of_le h.past.2
  exact ⟨h.cfg, h.nextProc, by rw [hnow, hnow'],
    by rw [hnow]; exact ⟨UInt32.le_refl now, UInt32.le_refl (now + k)⟩, h.procs⟩

/-- The processes are polled alike at both clocks. -/
theorem Shifted.pollLoop (h : Shifted k now t t') (ps : List Nat) :
    (pollLoop (now + k) t' ps).2 = (pollLoop now t ps).2 ∧
      Shifted k now (pollLoop now t ps).1 (pollLoop (now + k) t' ps).1 := by
  induction ps generalizing t t' with
  | nil => exact ⟨rfl, h⟩
  | cons p ps ih =>
    obtain ⟨d, hsame, hd⟩ := h.procs.2 p
    have hdue : ((t'.procs.getD p {}).busy && expired (now + k) (t'.procs.getD p {}).deadline) =
        ((t.procs.getD p {}).busy && expired now (t.procs.getD p {}).deadline) := by
      rw [hsame]
      dsimp only
      cases hbusy : (t.procs.getD p {}).busy with
      | false => rfl
      | true => rw [hd hbusy, expired_offset]
    unfold HarqTx.pollLoop
    dsimp only
    rw [hdue]
    split
    · obtain ⟨hevent, hafter⟩ := h.retx p
      obtain ⟨hmore, hrest⟩ := ih hafter
      exact ⟨by rw [hevent, hmore], hrest⟩
    · exact ih h

theorem Shifted.pollTimeouts (h : Shifted k now t t') :
    (t'.pollTimeouts (now + k)).2 = (t.pollTimeouts now).2 ∧
      Shifted k now (t.pollTimeouts now).1 (t'.pollTimeouts (now + k)).1 := by
  unfold HarqTx.pollTimeouts
  rw [h.procs.1]
  exact h.advance.pollLoop _

theorem Shifted.onAck (h : Shifted k now t t') (p : Nat) : Shifted k now (t.onAck p) (t'.onAck p) := by
  unfold HarqTx.onAck
  rw [h.procs.1]
  split
  · exact h
  · exact ⟨h.cfg, h.nextProc, h.lastNow, h.past, h.procs.set p (h.procs.2 p).free⟩

theorem Shifted.onNack (h : Shifted k now t t') (p : Nat) :
    (t'.onNack p).2 = (t.onNack p).2 ∧ Shifted k now (t.onNack p).1 (t'.onNack p).1 := by
  unfold HarqTx.onNack
  rw [h.procs.1]
  split
  · exact ⟨rfl, h⟩
  · exact h.retx p

theorem Shifted.reset (h : Shifted k now t t') : Shifted k now t.reset t'.reset := by
  refine ⟨h.cfg, rfl, h.lastNow, h.past, ?_, fun p => ?_⟩
  · rw [HarqTx.reset, HarqTx.reset, List.length_map, List.length_map, h.procs.1]
  rw [HarqTx.reset, HarqTx.reset]
  rw [List.getD_eq_getElem?_getD, List.getD_eq_getElem?_getD, List.getElem?_map, List.getElem?_map]
  have hp := h.procs.2 p
  have hlen := h.procs.1
  rw [List.getD_eq_getElem?_getD, List.getD_eq_getElem?_getD] at hp
  by_cases hin : p < t.procs.length
  · rw [List.getElem?_eq_getElem hin, List.getElem?_eq_getElem (hlen ▸ hin)] at hp ⊢
    obtain ⟨d, hsame, _⟩ := hp
    simp only [Option.getD_some] at hsame
    simp only [Option.map_some, Option.getD_some, hsame]
    exact ⟨d, rfl, fun hbusy => absurd hbusy Bool.false_ne_true⟩
  · rw [List.getElem?_eq_none (not_lt.mp hin), List.getElem?_eq_none (hlen ▸ not_lt.mp hin)]
    exact ⟨0, rfl, fun hbusy => absurd hbusy Bool.false_ne_true⟩

/-- Nothing is due while no process is busy. -/
theorem pollLoop_free (h : ∀ p, (t.procs.getD p {}).busy = false) (ps : List Nat) :
    pollLoop now t ps = (t, []) := by
  induction ps with
  | nil => rfl
  | cons p ps ih =>
    unfold HarqTx.pollLoop
    dsimp only
    rw [h p, Bool.false_and, if_neg Bool.false_ne_true, ih]

theorem init_free (cfg : HarqTxConfig) (p : Nat) : ((init cfg).procs.getD p {}).busy = false := by
  rw [init, List.getD_eq_getElem?_getD, List.getElem?_replicate]
  split <;> rfl

/-- The first tick of a new transmitter takes the clock and sends nothing. -/
theorem pollTimeouts_init (cfg : HarqTxConfig) (nowMs : UInt32) :
    (init cfg).pollTimeouts nowMs = ({ init cfg with lastNow := nowMs }, []) := by
  have hnow : (init cfg).advance nowMs = { init cfg with lastNow := nowMs } := by
    rw [HarqTx.advance, max_of_le (show (init cfg).lastNow ≤ nowMs from Nat.zero_le _)]
  rw [HarqTx.pollTimeouts, hnow]
  exact pollLoop_free (t := { init cfg with lastNow := nowMs }) (fun p => init_free cfg p) _

/-- An idle transmitter is its own shifted copy. -/
theorem Shifted.start (k : UInt32) (cfg : HarqTxConfig) (now : UInt32) :
    Shifted k now { init cfg with lastNow := now } { init cfg with lastNow := now + k } where
  cfg := rfl
  nextProc := rfl
  lastNow := rfl
  past := ⟨UInt32.le_refl now, UInt32.le_refl (now + k)⟩
  procs := ⟨rfl, fun p => ⟨((init cfg).procs.getD p {}).deadline, rfl,
    fun hbusy => absurd (hbusy.symm.trans (init_free cfg p)) Bool.true_eq_false.mp⟩⟩

end HarqTx

end AetherStack.Source
