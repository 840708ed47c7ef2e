import AetherStack.Lib.Run
import AetherStack.Source.TimerList

/-!
# When a timer fires

The list is used by calls in any order, also from the callbacks of a tick that runs. The times are
those of the clock without its wrap; the list sees the low 32 bits. For the timer that was given an
id last, the history has the deadline of its scheduling and the ticks that fired it.
-/
namespace AetherStack.Guarantees
open Source Source.Core Source.Core.TimerList Lib

inductive TimerEvent where
  | schedule (delayMs : UInt32) (periodic : Bool)
  | cancel (id : UInt32)
  /-- A call of `tick`, up to the snapshot of the due timers. -/
  | tick (nowMs : Nat)
  /-- The loop of the innermost tick goes on to its next timer, whose callback begins if there is one. -/
  | turn
  /-- The innermost tick returns. -/
  | leave
  deriving DecidableEq, Repr

/-- A timer; `armedAt` counts the ticks called before its scheduling, and the firings are numbers of
ticks. A cancel keeps the firings until then. -/
structure TimerHistory where
  periodic : Bool
  delay : Nat
  anchor : Nat
  armedAt : Nat
  due : Nat
  firings : List Nat := []
  cancelled : Option (List Nat) := none
  deriving DecidableEq, Repr

namespace TimerHistory

def cancel (h : TimerHistory) : TimerHistory := { h with cancelled := h.cancelled.or (some h.firings) }

/-- The timer fires in a tick; a periodic one goes to its next deadline, or resyncs. -/
def fire (h : TimerHistory) (tick nowMs : Nat) : TimerHistory :=
  { h with
    firings := tick :: h.firings
    due :=
      if h.periodic then (if nowMs < h.due + h.delay then h.due + h.delay else nowMs + h.delay) else h.due }

end TimerHistory

/-- A running tick: its number, its time and the due timers to come. -/
structure TickFrame where
  tick : Nat
  nowMs : Nat
  due : List UInt32
  deriving DecidableEq, Repr

/-- The list with the ticks called so far, those that run (innermost first), and the timers. -/
structure TimerRun where
  list : TimerList := {}
  count : Nat := 0
  time : Nat → Nat := fun _ => 0
  last : Nat := 0
  frames : List TickFrame := []
  history : UInt32 → Option TimerHistory := fun _ => none

namespace TimerRun

/-- The history of a timer at its scheduling. -/
def scheduled (s : TimerRun) (delayMs : UInt32) (periodic : Bool) : TimerHistory where
  periodic := periodic
  delay := delayMs.toNat
  anchor := s.last
  armedAt := s.count
  due := s.last + delayMs.toNat

/-- The clock advances by less than 2^31 between two ticks, and its first reading is arbitrary. -/
def Advances (s : TimerRun) (nowMs : Nat) : Prop :=
  s.last ≤ nowMs ∧ if s.count = 0 then nowMs < 2 ^ 32 else nowMs < s.last + 2 ^ 31

instance (s : TimerRun) (nowMs : Nat) : Decidable (Advances s nowMs) := inferInstanceAs (Decidable (_ ∧ _))

/-- The calls of the list; delays are below 2^31. -/
def step (s : TimerRun) : TimerEvent → Option TimerRun
  | .schedule delayMs periodic =>
    if delayMs.toNat < 2 ^ 31 then
      some { s with
        list := (s.list.schedule delayMs periodic).1
        history := Function.update s.history (s.list.schedule delayMs periodic).2
          (some (s.scheduled delayMs periodic)) }
    else none
  | .cancel id =>
    some { s with
      list := s.list.cancel id
      history := Function.update s.history id ((s.history id).map TimerHistory.cancel) }
  | .tick nowMs =>
    if Advances s nowMs then
      some { s with
        list := s.list.noteNow (UInt32.ofNat nowMs)
        count := s.count + 1
        time := Function.update s.time s.count nowMs
        last := nowMs
        frames := ⟨s.count, nowMs, (s.list.noteNow (UInt32.ofNat nowMs)).dueIds (UInt32.ofNat nowMs)⟩ :: s.frames }
    else none
  | .turn =>
    match s.frames with
    | ⟨tick, nowMs, id :: due⟩ :: outer =>
      some { s with
        list := (s.list.turn (UInt32.ofNat nowMs) id).1
        frames := ⟨tick, nowMs, due⟩ :: outer
        history :=
          if (s.list.turn (UInt32.ofNat nowMs) id).2.isSome then
            Function.update s.history id ((s.history id).map fun h => h.fire tick nowMs)
          else s.history }
    | _ => none
  | .leave =>
    match s.frames with
    | ⟨_, _, []⟩ :: outer => some { s with frames := outer }
    | _ => none

/-! ### What the timers promise -/

/-- A tick has to fire a timer: for a one-shot it is the first one called behind the scheduling whose
time has reached the deadline, for a periodic timer a full interval has passed since it was scheduled
and since it last fired. -/
def Owed (s : TimerRun) (h : TimerHistory) (k : Nat) : Prop :=
  h.armedAt ≤ k ∧ k < s.count ∧ h.anchor + h.delay ≤ s.time k ∧
  match h.periodic with
  | false => ∀ j < k, h.armedAt ≤ j → s.time j < h.anchor + h.delay
  | true => ∀ j ∈ h.firings, j < k → s.time j + h.delay ≤ s.time k

def Returned (s : TimerRun) (k : Nat) : Prop := ∀ f ∈ s.frames, f.tick ≠ k

/-- No tick fires a timer twice, a one-shot fires in one tick, the first that is due, a tick that has
returned has fired what it had to, and a cancelled timer has not fired since. -/
structure Exact (s : TimerRun) (h : TimerHistory) : Prop where
  once : h.firings.Nodup
  single : h.periodic = false → h.firings.length ≤ 1
  atFirst : h.periodic = false → ∀ k ∈ h.firings, Owed s h k
  fires : h.cancelled = none → ∀ k, Owed s h k → Returned s k → k ∈ h.firings
  silent : ∀ firings ∈ h.cancelled, h.firings = firings

def AllExact (s : TimerRun) : Prop := ∀ id h, s.history id = some h → Exact s h

/-- The timer is not cancelled, and not a one-shot that has fired. -/
def Live (s : TimerRun) (id : UInt32) (h : TimerHistory) : Prop :=
  s.history id = some h ∧ h.cancelled = none ∧ (h.periodic = false → h.firings = [])

/-- `next` is the smallest time that remains at `nowMs`. -/
def Least (s : TimerRun) (nowMs : Nat) (next : UInt32) : Prop :=
  (∀ id h, Live s id h → nowMs ≤ h.due ∧ next.toNat ≤ h.due - nowMs) ∧
  ((∃ id h, Live s id h ∧ next.toNat = h.due - nowMs) ∨ (next = timerNone ∧ ∀ id h, ¬ Live s id h))

/-- A tick returns the smallest remaining time. -/
def ReturnsLeast (s : TimerRun) : TimerEvent → Prop
  | .leave => ∀ f ∈ s.frames.head?, f.due = [] → Least s f.nowMs (s.list.remaining (UInt32.ofNat f.nowMs))
  | .schedule _ _ => True
  | .cancel _ => True
  | .tick _ => True
  | .turn => True

/-- A timer is scheduled when the list has taken over the time of the last tick, a periodic one with
an interval, under an id that is not in use. The first tick is before 2^31 if there are timers; a tick
from a callback finds no timer that an outer tick has still to fire, and is less than 2^31 behind it. -/
def Orderly (s : TimerRun) : TimerEvent → Prop
  | .schedule delayMs periodic =>
    s.list.lastNow = UInt32.ofNat s.last ∧ (periodic = true → delayMs ≠ 0) ∧
    s.list.lookup s.list.nextId = none ∧ ∀ f ∈ s.frames, s.list.nextId ∉ f.due
  | .tick nowMs =>
    (s.count = 0 → s.list.entries = [] ∨ nowMs < 2 ^ 31) ∧
    ∀ f ∈ s.frames, nowMs < f.nowMs + 2 ^ 31 ∧ ∀ id ∈ f.due, s.list.lookup id = none
  | .cancel _ => True
  | .turn => True
  | .leave => True

instance (s : TimerRun) : (e : TimerEvent) → Decidable (Orderly s e)
  | .schedule delayMs periodic => inferInstanceAs (Decidable (_ ∧ (periodic = true → delayMs ≠ 0) ∧ _))
  | .tick nowMs => inferInstanceAs (Decidable ((s.count = 0 → _ ∨ nowMs < 2 ^ 31) ∧ ∀ f ∈ s.frames, _ ∧ ∀ id ∈ f.due, _))
  | .cancel _ => inferInstanceAs (Decidable True)
  | .turn => inferInstanceAs (Decidable True)
  | .leave => inferInstanceAs (Decidable True)

/-! ### Ticks that owe a firing -/

variable {s s' : TimerRun} {h : TimerHistory} {k : Nat}

/-- Whether a tick owes a firing depends on the ticks up to it. -/
theorem owed_congr (hcount : k < s'.count ↔ k < s.count) (htime : ∀ j ≤ k, s'.time j = s.time j) :
    Owed s' h k ↔ Owed s h k := by
  unfold Owed
  rw [hcount, htime k le_rfl]
  refine and_congr_right fun _ => and_congr_right fun _ => and_congr_right fun _ => ?_
  cases h.periodic with
  | false =>
    refine forall_congr' fun j => forall_congr' fun hj => ?_
    rw [htime j hj.le]
  | true =>
    refine forall_congr' fun j => forall_congr' fun _ => forall_congr' fun hj => ?_
    rw [htime j hj.le]

/-- The last tick firing does not change what earlier ones owed. -/
theorem owed_fire {last nowMs : Nat} (hk : k ≤ last) : Owed s (h.fire last nowMs) k ↔ Owed s h k := by
  unfold Owed TimerHistory.fire
  dsimp only
  refine and_congr_right fun _ => and_congr_right fun _ => and_congr_right fun _ => ?_
  cases h.periodic with
  | false => exact Iff.rfl
  | true =>
    constructor
    · exact fun hall j hj => hall j (List.mem_cons_of_mem _ hj)
    · intro hall j hj hlt
      rcases List.mem_cons.mp hj with rfl | hold
      · omega
      · exact hall j hold hlt

/-- Only one tick owes a one-shot its firing. -/
theorem owed_unique (hone : h.periodic = false) {j : Nat} (hj : Owed s h j) (hk : Owed s h k) : j = k := by
  unfold Owed at hj hk
  rw [hone] at hj hk
  obtain ⟨hjlo, -, hjdue, hjfirst⟩ := hj
  obtain ⟨hklo, -, hkdue, hkfirst⟩ := hk
  rcases Nat.lt_trichotomy j k with hlt | heq | hlt
  · have := hkfirst j hlt hjlo
    omega
  · exact heq
  · have := hjfirst k hlt hklo
    omega

/-- Some tick that has reached the deadline of a one-shot is the first. -/
theorem exists_owed (hone : h.periodic = false) (hlo : h.armedAt ≤ k) (hk : k < s.count)
    (hdue : h.anchor + h.delay ≤ s.time k) : ∃ j ≤ k, Owed s h j := by
  induction k using Nat.strong_induction_on with
  | _ k ih =>
    by_cases hfirst : ∃ j < k, h.armedAt ≤ j ∧ h.anchor + h.delay ≤ s.time j
    · obtain ⟨j, hj, hjlo, hjdue⟩ := hfirst
      obtain ⟨i, hi, howed⟩ := ih j hj hjlo (by omega) hjdue
      exact ⟨i, by omega, howed⟩
    · refine ⟨k, le_rfl, hlo, hk, hdue, ?_⟩
      rw [hone]
      intro j hj hjlo
      by_contra hge
      exact hfirst ⟨j, hj, hjlo, by omega⟩

/-! ### The invariant -/

/-- The tick called last runs and has the timer still to fire. -/
def Pending (s : TimerRun) (id : UInt32) : Prop := ∃ f ∈ s.frames, f.tick + 1 = s.count ∧ id ∈ f.due

/-- The entry of a live timer: its deadline is close enough to the last tick for the signed comparison,
and no tick but the running one owes it a firing. -/
structure Armed (s : TimerRun) (id : UInt32) (e : TimerEntry) (h : TimerHistory) : Prop where
  history : s.history id = some h
  active : h.cancelled = none
  deadline : e.deadline = UInt32.ofNat h.due
  interval : e.interval = if h.periodic then UInt32.ofNat h.delay else 0
  delay_lt : h.delay < 2 ^ 31
  delay_pos : h.periodic = true → 0 < h.delay
  unfired : h.periodic = false → h.firings = []
  armedAt_le : h.armedAt ≤ s.count
  follows : (h.firings = [] ∧ h.due = h.anchor + h.delay) ∨
    (h.periodic = true ∧ ∃ j ∈ h.firings, h.due ≤ s.time j + h.delay)
  pending : Pending s id →
    h.due ≤ s.last ∧ s.last < h.due + 2 ^ 31 ∧ h.armedAt < s.count ∧ s.count - 1 ∉ h.firings
  waiting : ¬ Pending s id → s.last ≤ h.due ∧ h.due < s.last + 2 ^ 31
  settled : ∀ k, Owed s h k → k + 1 < s.count ∨ ¬ Pending s id → k ∈ h.firings

/-- What holds of every timer, also of one that is gone. -/
structure Past (s : TimerRun) (h : TimerHistory) : Prop where
  lt_count : ∀ k ∈ h.firings, k < s.count
  once : h.firings.Nodup
  single : h.periodic = false → h.firings.length ≤ 1
  atFirst : h.periodic = false → ∀ k ∈ h.firings, Owed s h k
  silent : ∀ firings ∈ h.cancelled, h.firings = firings

/-- A running tick; of the timers still to come only those of the last tick are in the list. -/
structure Running (s : TimerRun) (f : TickFrame) : Prop where
  tick_lt : f.tick < s.count
  time : s.time f.tick = f.nowMs
  nodup : f.due.Nodup
  le_last : f.nowMs ≤ s.last
  last_lt : s.last < f.nowMs + 2 ^ 31
  live : ∀ id ∈ f.due, s.list.lookup id ≠ none → f.tick + 1 = s.count

structure Sound (s : TimerRun) : Prop where
  distinct : s.list.Distinct
  start : s.count = 0 → s.last = 0
  latest : 0 < s.count → s.time (s.count - 1) = s.last
  anchored : ∀ id e, s.list.lookup id = some e → s.list.lastNow = UInt32.ofNat s.last
  armed : ∀ id e, s.list.lookup id = some e → ∃ h, Armed s id e h
  live : ∀ id h, Live s id h → ∃ e, s.list.lookup id = some e
  past : ∀ id h, s.history id = some h → Past s h
  running : ∀ f ∈ s.frames, Running s f
  nested : s.frames.Pairwise fun f g => g.tick < f.tick

theorem sound_init : Sound {} where
  distinct := List.nodup_nil
  start := fun _ => rfl
  latest := fun h => absurd h (Nat.lt_irrefl 0)
  anchored := by simp [TimerList.lookup]
  armed := by simp [TimerList.lookup]
  live := by simp [Live]
  past := by simp
  running := by simp
  nested := List.Pairwise.nil

theorem Sound.exact (hs : Sound s) : AllExact s := by
  intro id h hh
  have hpast := hs.past id h hh
  refine ⟨hpast.once, hpast.single, hpast.atFirst, fun hactive k howed hreturned => ?_, hpast.silent⟩
  by_cases hlive : h.periodic = false → h.firings = []
  · obtain ⟨e, he⟩ := hs.live id h ⟨hh, hactive, hlive⟩
    obtain ⟨h', harmed⟩ := hs.armed id e he
    obtain rfl : h = h' := Option.some.inj (hh.symm.trans harmed.history)
    apply harmed.settled k howed
    by_cases hlast : k + 1 = s.count
    · right
      rintro ⟨f, hf, hf', -⟩
      exact hreturned f hf (by omega)
    · left
      have := howed.2.1
      omega
  · -- a one-shot that has fired: the tick that fired it is the one that owed it
    obtain ⟨hone, hfired⟩ := Classical.not_imp.mp hlive
    obtain ⟨j, hj⟩ := List.exists_mem_of_ne_nil _ hfired
    rwa [← owed_unique hone (hpast.atFirst hone j hj) howed]

/-! ### Scheduling and cancelling -/

/-- A call that changes neither ticks nor this timer. -/
theorem Armed.congr {id : UInt32} {e : TimerEntry} (ha : Armed s id e h) (hcount : s'.count = s.count)
    (htime : s'.time = s.time) (hlast : s'.last = s.last) (hpending : Pending s' id ↔ Pending s id)
    (hhistory : s'.history id = s.history id) : Armed s' id e h := by
  have howed : ∀ k, Owed s' h k ↔ Owed s h k := fun k => owed_congr (by rw [hcount]) fun j _ => by rw [htime]
  exact {
    history := hhistory.trans ha.history
    active := ha.active
    deadline := ha.deadline
    interval := ha.interval
    delay_lt := ha.delay_lt
    delay_pos := ha.delay_pos
    unfired := ha.unfired
    armedAt_le := hcount ▸ ha.armedAt_le
    follows := by
      rw [htime]
      exact ha.follows
    pending := by
      rw [hpending, hlast, hcount]
      exact ha.pending
    waiting := by
      rw [hpending, hlast]
      exact ha.waiting
    settled := by
      intro k hk
      rw [hpending, hcount]
      exact ha.settled k ((howed k).mp hk) }

theorem Past.congr (hp : Past s h) (hcount : s.count ≤ s'.count) (htime : ∀ j < s.count, s'.time j = s.time j) :
    Past s' h where
  lt_count := fun k hk => (hp.lt_count k hk).trans_le hcount
  once := hp.once
  single := hp.single
  atFirst := by
    intro hone k hk
    have hlt := hp.lt_count k hk
    exact (owed_congr (by omega) fun j hj => htime j (by omega)).mpr (hp.atFirst hone k hk)
  silent := hp.silent

/-- A tick that runs is disturbed only by timers that come back. -/
theorem Running.congr {f : TickFrame} (hr : Running s f) (hcount : s'.count = s.count) (htime : s'.time = s.time)
    (hlast : s'.last = s.last)
    (hlist : ∀ id ∈ f.due, s'.list.lookup id ≠ none → s.list.lookup id ≠ none) : Running s' f where
  tick_lt := hcount ▸ hr.tick_lt
  time := htime ▸ hr.time
  nodup := hr.nodup
  le_last := hlast ▸ hr.le_last
  last_lt := hlast ▸ hr.last_lt
  live := fun id hid hin => hcount ▸ hr.live id hid (hlist id hid hin)

/-- A scheduled timer has its deadline, and no tick has passed it yet. -/
theorem scheduled_armed {id : UInt32} {delayMs : UInt32} {periodic : Bool} (hlt : delayMs.toNat < 2 ^ 31)
    (hpos : periodic = true → delayMs ≠ 0) (hidle : ¬ Pending s id)
    (hhistory : s.history id = some (s.scheduled delayMs periodic)) :
    Armed s id ⟨id, UInt32.ofNat s.last + delayMs, if periodic then delayMs else 0⟩ (s.scheduled delayMs periodic) where
  history := hhistory
  active := rfl
  deadline := by
    rw [scheduled, UInt32.ofNat_add, UInt32.ofNat_toNat]
  interval := by
    rw [scheduled, UInt32.ofNat_toNat]
  delay_lt := hlt
  delay_pos := by
    intro hperiodic
    have hne := hpos hperiodic
    rw [ne_eq, ← UInt32.toNat_inj] at hne
    exact Nat.pos_of_ne_zero hne
  unfired := fun _ => rfl
  armedAt_le := le_rfl
  follows := .inl ⟨rfl, rfl⟩
  pending := fun hp => absurd hp hidle
  waiting := fun _ => ⟨Nat.le_add_right _ _, Nat.add_lt_add_left hlt _⟩
  settled := by
    rintro k ⟨hlo, hhi, -⟩
    exact absurd hhi (not_lt.mpr hlo)

theorem past_scheduled (s s' : TimerRun) (delayMs : UInt32) (periodic : Bool) :
    Past s' (s.scheduled delayMs periodic) := by
  constructor <;> simp [scheduled]

/-- Step lemma: a timer is scheduled under an id that is free. -/
theorem schedule_sound (hs : Sound s) {delayMs : UInt32} {periodic : Bool} (hc : Orderly s (.schedule delayMs periodic))
    (hstep : s.step (.schedule delayMs periodic) = some s') : Sound s' := by
  obtain ⟨hanchored, hpos, hfresh, hpending⟩ := hc
  simp only [step] at hstep
  split at hstep
  · rename_i hlt
    obtain rfl := Option.some.inj hstep
    have hnew : (s.list.schedule delayMs periodic).2 = s.list.nextId := rfl
    have hlookup := lookup_schedule hfresh delayMs periodic
    have hidle : ¬ Pending s s.list.nextId := by
      rintro ⟨f, hf, -, hin⟩
      exact hpending f hf hin
    rw [hnew]
    exact {
      distinct := distinct_schedule hs.distinct hfresh delayMs periodic
      start := hs.start
      latest := hs.latest
      anchored := fun _ _ _ => hanchored
      armed := by
        intro id e he
        dsimp only at he
        rw [hlookup] at he
        split at he
        · rename_i heq
          subst heq
          obtain rfl := Option.some.inj he
          rw [hanchored]
          exact ⟨s.scheduled delayMs periodic, scheduled_armed hlt hpos hidle (Function.update_self _ _ _)⟩
        · rename_i hne
          obtain ⟨h, harmed⟩ := hs.armed id e he
          exact ⟨h, harmed.congr rfl rfl rfl Iff.rfl (Function.update_of_ne (Ne.symm hne) _ _)⟩
      live := by
        intro id h hlive
        dsimp only
        rw [hlookup]
        by_cases heq : s.list.nextId = id
        · rw [if_pos heq]
          exact ⟨_, rfl⟩
        · rw [if_neg heq]
          obtain ⟨hh, hrest⟩ := hlive
          dsimp only at hh
          rw [Function.update_of_ne (Ne.symm heq)] at hh
          exact hs.live id h ⟨hh, hrest⟩
      past := by
        intro id h hh
        dsimp only at hh
        by_cases heq : id = s.list.nextId
        · subst heq
          rw [Function.update_self] at hh
          obtain rfl := Option.some.inj hh
          exact past_scheduled s _ delayMs periodic
        · rw [Function.update_of_ne heq] at hh
          exact (hs.past id h hh).congr le_rfl fun _ _ => rfl
      running := by
        intro f hf
        refine (hs.running f hf).congr rfl rfl rfl fun id hid hin => ?_
        dsimp only at hin
        rw [hlookup, if_neg] at hin
        · exact hin
        · rintro rfl
          exact hpending f hf hid
      nested := hs.nested }
  · cases hstep

theorem Past.cancel (hp : Past s h) : Past s h.cancel where
  lt_count := hp.lt_count
  once := hp.once
  single := hp.single
  atFirst := hp.atFirst
  silent := by
    intro firings hmem
    unfold TimerHistory.cancel at hmem ⊢
    dsimp only at hmem ⊢
    cases hcancelled : h.cancelled with
    | none =>
      rw [hcancelled] at hmem
      exact Option.some.inj hmem
    | some before =>
      rw [hcancelled] at hmem
      obtain rfl := Option.some.inj hmem
      exact hp.silent before hcancelled

/-- Step lemma: a cancelled timer fires no more, also not later in the tick that runs. -/
theorem cancel_sound (hs : Sound s) {id : UInt32} (hstep : s.step (.cancel id) = some s') : Sound s' := by
  obtain rfl := Option.some.inj hstep
  have hlookup := lookup_cancel hs.distinct id
  exact {
    distinct := distinct_cancel hs.distinct id
    start := hs.start
    latest := hs.latest
    anchored := by
      intro id' e he
      dsimp only at he ⊢
      rw [hlookup] at he
      split at he
      · cases he
      · rw [cancel_lastNow]
        exact hs.anchored id' e he
    armed := by
      intro id' e he
      dsimp only at he
      rw [hlookup] at he
      split at he
      · cases he
      · rename_i hne
        obtain ⟨h, harmed⟩ := hs.armed id' e he
        exact ⟨h, harmed.congr rfl rfl rfl Iff.rfl (Function.update_of_ne (Ne.symm hne) _ _)⟩
    live := by
      rintro id' h ⟨hh, hactive, hlive⟩
      dsimp only at hh ⊢
      by_cases heq : id = id'
      · subst heq
        rw [Function.update_self] at hh
        obtain ⟨before, -, rfl⟩ := Option.map_eq_some_iff.mp hh
        unfold TimerHistory.cancel at hactive
        cases hcancelled : before.cancelled <;> rw [hcancelled] at hactive <;> cases hactive
      · rw [hlookup, if_neg heq]
        rw [Function.update_of_ne (Ne.symm heq)] at hh
        exact hs.live id' h ⟨hh, hactive, hlive⟩
    past := by
      intro id' h hh
      dsimp only at hh
      by_cases heq : id' = id
      · subst heq
        rw [Function.update_self] at hh
        obtain ⟨before, hbefore, rfl⟩ := Option.map_eq_some_iff.mp hh
        exact (hs.past id' before hbefore).cancel.congr le_rfl fun _ _ => rfl
      · rw [Function.update_of_ne heq] at hh
        exact (hs.past id' h hh).congr le_rfl fun _ _ => rfl
    running := by
      intro f hf
      refine (hs.running f hf).congr rfl rfl rfl fun id' _ hin => ?_
      dsimp only at hin
      rw [hlookup] at hin
      split at hin
      · exact absurd rfl hin
      · exact hin
    nested := hs.nested }

/-! ### The beginning of a tick -/

theorem step_tick {nowMs : Nat} (hstep : s.step (.tick nowMs) = some s') :
    Advances s nowMs ∧ s' = { s with
      list := s.list.noteNow (UInt32.ofNat nowMs)
      count := s.count + 1
      time := Function.update s.time s.count nowMs
      last := nowMs
      frames := ⟨s.count, nowMs, (s.list.noteNow (UInt32.ofNat nowMs)).dueIds (UInt32.ofNat nowMs)⟩ :: s.frames } := by
  simp only [step] at hstep
  split at hstep
  · rename_i hclock
    exact ⟨hclock, (Option.some.inj hstep).symm⟩
  · cases hstep

/-- The due test is that of the times. -/
theorem due_iff {due last nowMs : Nat} (hdue : last ≤ due ∧ due < last + 2 ^ 31)
    (hnow : last ≤ nowMs ∧ nowMs < last + 2 ^ 31) :
    0 ≤ clockDiff (UInt32.ofNat nowMs) (UInt32.ofNat due) ↔ due ≤ nowMs := by
  rw [clockDiff_nonneg_iff, UInt32.toNat_sub, UInt32.toNat_ofNat', UInt32.toNat_ofNat']
  omega

/-- The list takes over the time of a tick that is close enough to the last one. -/
theorem noteNow_lastNow {t : TimerList} {last nowMs : Nat} (hlast : t.lastNow = UInt32.ofNat last)
    (hnow : last ≤ nowMs ∧ nowMs < last + 2 ^ 31) :
    (t.noteNow (UInt32.ofNat nowMs)).lastNow = UInt32.ofNat nowMs := by
  unfold noteNow
  split
  · rfl
  · rename_i hstays
    rw [hlast, clockDiff_pos_iff, UInt32.toNat_sub, UInt32.toNat_ofNat', UInt32.toNat_ofNat'] at hstays
    have hsame : last = nowMs := by omega
    rw [hlast, hsame]

/-- The clock of a tick that finds timers is less than half its range behind the last one. -/
theorem Sound.clock_lt (hs : Sound s) {nowMs : Nat} (hc : Orderly s (.tick nowMs))
    (hclock : Advances s nowMs) {id : UInt32} {e : TimerEntry}
    (he : s.list.lookup id = some e) : nowMs < s.last + 2 ^ 31 := by
  obtain ⟨-, hclock⟩ := hclock
  split at hclock
  · rename_i hzero
    rw [hs.start hzero]
    rcases hc.1 hzero with hempty | hlt
    · have hmem := (lookup_id he).1
      rw [hempty] at hmem
      cases hmem
    · omega
  · exact hclock

/-- An entry at the beginning of a tick: it is due and pending, or it waits on. -/
theorem tick_armed (hs : Sound s) {nowMs : Nat} (hc : Orderly s (.tick nowMs))
    (hstep : s.step (.tick nowMs) = some s') {id : UInt32} {e : TimerEntry} (he : s.list.lookup id = some e)
    (ha : Armed s id e h) : Armed s' id e h := by
  obtain ⟨hclock, rfl⟩ := step_tick hstep
  have hlater := hclock.1
  have hlt := hs.clock_lt hc hclock he
  have hidle : ¬ Pending s id := by
    rintro ⟨f, hf, -, hin⟩
    rw [(hc.2 f hf).2 id hin] at he
    cases he
  have hwait := ha.waiting hidle
  have hpast := (hs.past id h ha.history).lt_count
  have htime : ∀ j < s.count, Function.update s.time s.count nowMs j = s.time j :=
    fun j hj => Function.update_of_ne (by omega) _ _
  set t : TimerRun := { s with
    list := s.list.noteNow (UInt32.ofNat nowMs)
    count := s.count + 1
    time := Function.update s.time s.count nowMs
    last := nowMs
    frames := ⟨s.count, nowMs, (s.list.noteNow (UInt32.ofNat nowMs)).dueIds (UInt32.ofNat nowMs)⟩ :: s.frames } with ht
  have hpending : Pending t id ↔ h.due ≤ nowMs := by
    have hdistinct : (s.list.noteNow (UInt32.ofNat nowMs)).Distinct := by
      rw [Distinct, noteNow_entries]
      exact hs.distinct
    have hdue : id ∈ (s.list.noteNow (UInt32.ofNat nowMs)).dueIds (UInt32.ofNat nowMs) ↔ h.due ≤ nowMs := by
      rw [mem_dueIds hdistinct, noteNow_lookup, he, ← due_iff hwait ⟨hlater, hlt⟩, ← ha.deadline]
      simp
    constructor
    · rintro ⟨f, hf, hlast, hin⟩
      rcases List.mem_cons.mp hf with rfl | hold
      · exact hdue.mp hin
      · have hbefore := (hs.running f hold).tick_lt
        dsimp only [t] at hlast
        omega
    · exact fun hreached => ⟨_, List.mem_cons_self, rfl, hdue.mpr hreached⟩
  exact {
    history := ha.history
    active := ha.active
    deadline := ha.deadline
    interval := ha.interval
    delay_lt := ha.delay_lt
    delay_pos := ha.delay_pos
    unfired := ha.unfired
    armedAt_le := ha.armedAt_le.trans (Nat.le_succ _)
    follows := by
      rcases ha.follows with hfirst | ⟨hperiodic, j, hj, hle⟩
      · exact .inl hfirst
      · refine .inr ⟨hperiodic, j, hj, ?_⟩
        show h.due ≤ Function.update s.time s.count nowMs j + h.delay
        rwa [htime j (hpast j hj)]
    pending := by
      rw [hpending]
      refine fun hreached => ⟨hreached, ?_, Nat.lt_succ_of_le ha.armedAt_le, fun hin => ?_⟩
      · show nowMs < h.due + 2 ^ 31
        omega
      · have := hpast _ hin
        dsimp only [t] at this
        omega
    waiting := by
      rw [hpending]
      intro hnot
      show nowMs ≤ h.due ∧ h.due < nowMs + 2 ^ 31
      omega
    settled := by
      intro k howed hk
      rw [hpending] at hk
      have hkt : k < s.count + 1 := howed.2.1
      rcases Nat.lt_or_eq_of_le (Nat.lt_succ_iff.mp hkt) with hold | rfl
      · have howed' : Owed s h k :=
          (owed_congr (by dsimp only [t]; omega) fun j hj => htime j (by omega)).mp howed
        exact ha.settled k howed' (.inr hidle)
      · -- the tick that begins is before the deadline
        exfalso
        have hnot : nowMs < h.due := by
          dsimp only [t] at hk
          omega
        obtain ⟨-, -, hreached, hinterval⟩ := howed
        have hnow : t.time s.count = nowMs := Function.update_self _ _ _
        rw [hnow] at hreached
        rcases ha.follows with ⟨-, hdue⟩ | ⟨hperiodic, j, hj, hle⟩
        · omega
        · rw [hperiodic] at hinterval
          have hpassed := hinterval j hj (hpast j hj)
          rw [hnow, show t.time j = s.time j from htime j (hpast j hj)] at hpassed
          omega }

/-- Step lemma: a tick begins, and what it will fire is what is due. -/
theorem tick_sound (hs : Sound s) {nowMs : Nat} (hc : Orderly s (.tick nowMs))
    (hstep : s.step (.tick nowMs) = some s') : Sound s' := by
  have harmed : ∀ id e h, s.list.lookup id = some e → Armed s id e h → Armed s' id e h :=
    fun id e h he ha => tick_armed hs hc hstep he ha
  obtain ⟨hclock, rfl⟩ := step_tick hstep
  have hlater := hclock.1
  have htime : ∀ j < s.count, Function.update s.time s.count nowMs j = s.time j :=
    fun j hj => Function.update_of_ne (by omega) _ _
  have hdistinct : (s.list.noteNow (UInt32.ofNat nowMs)).Distinct := by
    rw [Distinct, noteNow_entries]
    exact hs.distinct
  exact {
    distinct := hdistinct
    start := fun hzero => absurd hzero (Nat.succ_ne_zero _)
    latest := fun _ => Function.update_self _ _ _
    anchored := by
      intro id e he
      dsimp only at he ⊢
      rw [noteNow_lookup] at he
      exact noteNow_lastNow (hs.anchored id e he) ⟨hlater, hs.clock_lt hc hclock he⟩
    armed := by
      intro id e he
      dsimp only at he
      rw [noteNow_lookup] at he
      obtain ⟨h, ha⟩ := hs.armed id e he
      exact ⟨h, harmed id e h he ha⟩
    live := by
      intro id h hlive
      dsimp only
      rw [noteNow_lookup]
      exact hs.live id h hlive
    past := fun id h hh => (hs.past id h hh).congr (Nat.le_succ _) htime
    running := by
      intro f hf
      rcases List.mem_cons.mp hf with rfl | hold
      · exact {
          tick_lt := Nat.lt_succ_self _
          time := Function.update_self _ _ _
          nodup := nodup_dueIds hdistinct _
          le_last := le_rfl
          last_lt := Nat.lt_add_of_pos_right (by decide)
          live := fun _ _ _ => rfl }
      · have hr := hs.running f hold
        exact {
          tick_lt := hr.tick_lt.trans (Nat.lt_succ_self _)
          time := (htime _ hr.tick_lt).trans hr.time
          nodup := hr.nodup
          le_last := hr.le_last.trans hlater
          last_lt := (hc.2 f hold).1
          live := by
            intro id hid hin
            dsimp only at hin
            rw [noteNow_lookup] at hin
            exact absurd ((hc.2 f hold).2 id hid) hin }
    nested := List.pairwise_cons.mpr ⟨fun f hf => (hs.running f hf).tick_lt, hs.nested⟩ }

/-! ### The turns and the end of a tick -/

theorem step_turn (hstep : s.step .turn = some s') : ∃ tick nowMs id due outer,
    s.frames = ⟨tick, nowMs, id :: due⟩ :: outer ∧
    s' = { s with
      list := (s.list.turn (UInt32.ofNat nowMs) id).1
      frames := ⟨tick, nowMs, due⟩ :: outer
      history :=
        if (s.list.turn (UInt32.ofNat nowMs) id).2.isSome then
          Function.update s.history id ((s.history id).map fun h => h.fire tick nowMs)
        else s.history } := by
  simp only [step] at hstep
  split at hstep
  · rename_i tick nowMs id due outer hframes
    exact ⟨tick, nowMs, id, due, outer, hframes, (Option.some.inj hstep).symm⟩
  · cases hstep

theorem step_leave (hstep : s.step .leave = some s') : ∃ tick nowMs outer,
    s.frames = ⟨tick, nowMs, []⟩ :: outer ∧ s' = { s with frames := outer } := by
  simp only [step] at hstep
  split at hstep
  · rename_i tick nowMs outer hframes
    exact ⟨tick, nowMs, outer, hframes, (Option.some.inj hstep).symm⟩
  · cases hstep

section Turn
variable {tick nowMs : Nat} {id : UInt32} {due : List UInt32} {outer : List TickFrame}

/-- The timer whose turn it is has no other turn in this tick. -/
theorem not_pending_turn (hs : Sound s) (hframes : s.frames = ⟨tick, nowMs, id :: due⟩ :: outer)
    (hcount : s'.count = s.count) (hframes' : s'.frames = ⟨tick, nowMs, due⟩ :: outer) : ¬ Pending s' id := by
  have hr := hs.running ⟨tick, nowMs, id :: due⟩ (by rw [hframes]; exact List.mem_cons_self)
  have hnested := hs.nested
  rw [hframes, List.pairwise_cons] at hnested
  rintro ⟨f, hf, hlast, hin⟩
  rw [hframes'] at hf
  rcases List.mem_cons.mp hf with rfl | hold
  · exact (List.nodup_cons.mp hr.nodup).1 hin
  · have hlt := hnested.1 f hold
    have hle := hr.tick_lt
    dsimp only at hlt hle
    omega

/-- The turn of one timer leaves the others pending. -/
theorem pending_turn {other : UInt32} (hne : id ≠ other) (hframes : s.frames = ⟨tick, nowMs, id :: due⟩ :: outer)
    (hcount : s'.count = s.count) (hframes' : s'.frames = ⟨tick, nowMs, due⟩ :: outer) :
    Pending s' other ↔ Pending s other := by
  unfold Pending
  rw [hframes, hframes', hcount]
  simp only [List.mem_cons, exists_eq_or_imp, Ne.symm hne, false_or]

/-- What runs after a turn that leaves the list with no more timers. -/
theorem running_turn (hs : Sound s) (hframes : s.frames = ⟨tick, nowMs, id :: due⟩ :: outer)
    (hcount : s'.count = s.count) (htime : s'.time = s.time) (hlast : s'.last = s.last)
    (hframes' : s'.frames = ⟨tick, nowMs, due⟩ :: outer)
    (hlist : ∀ k, s'.list.lookup k ≠ none → s.list.lookup k ≠ none) :
    (∀ f ∈ s'.frames, Running s' f) ∧ s'.frames.Pairwise fun f g => g.tick < f.tick := by
  have hr := hs.running ⟨tick, nowMs, id :: due⟩ (by rw [hframes]; exact List.mem_cons_self)
  have hnested := hs.nested
  rw [hframes, List.pairwise_cons] at hnested
  rw [hframes']
  constructor
  · intro f hf
    rcases List.mem_cons.mp hf with rfl | hold
    · have hr' : Running s ⟨tick, nowMs, due⟩ :=
        ⟨hr.tick_lt, hr.time, hr.nodup.of_cons, hr.le_last, hr.last_lt,
          fun k hk => hr.live k (List.mem_cons_of_mem _ hk)⟩
      exact hr'.congr hcount htime hlast fun k _ => hlist k
    · have hin : f ∈ s.frames := by
        rw [hframes]
        exact List.mem_cons_of_mem _ hold
      exact (hs.running f hin).congr hcount htime hlast fun k _ => hlist k
  · exact List.pairwise_cons.mpr ⟨hnested.1, hnested.2⟩

/-- The next deadline is that of the times. -/
theorem nextDeadline_eq {e : TimerEntry} {at_ delay : Nat} (hdeadline : e.deadline = UInt32.ofNat at_)
    (hinterval : e.interval = UInt32.ofNat delay) (hdelay : delay < 2 ^ 31) (hle : at_ ≤ nowMs)
    (hlt : nowMs < at_ + 2 ^ 31) : nextDeadline e (UInt32.ofNat nowMs) =
      UInt32.ofNat (if nowMs < at_ + delay then at_ + delay else nowMs + delay) := by
  have hfar : 0 ≤ clockDiff (UInt32.ofNat nowMs) (UInt32.ofNat at_ + UInt32.ofNat delay) ↔ at_ + delay ≤ nowMs := by
    rw [← UInt32.ofNat_add, clockDiff_nonneg_iff, UInt32.toNat_sub, UInt32.toNat_ofNat', UInt32.toNat_ofNat']
    omega
  unfold nextDeadline
  rw [hdeadline, hinterval]
  by_cases hpassed : at_ + delay ≤ nowMs
  · rw [if_pos (hfar.mpr hpassed), if_neg (not_lt.mpr hpassed), UInt32.ofNat_add]
  · rw [if_neg (fun hdue => hpassed (hfar.mp hdue)), if_pos (not_le.mp hpassed), UInt32.ofNat_add]

/-- A timer that is still in the list at its turn is one of the last tick. -/
theorem turn_current {e : TimerEntry} (hs : Sound s) (hframes : s.frames = ⟨tick, nowMs, id :: due⟩ :: outer)
    (he : s.list.lookup id = some e) : tick + 1 = s.count ∧ nowMs = s.last ∧ Pending s id := by
  have hmem : (⟨tick, nowMs, id :: due⟩ : TickFrame) ∈ s.frames := by
    rw [hframes]
    exact List.mem_cons_self
  have hr := hs.running _ hmem
  have hcount := hr.live id List.mem_cons_self (by rw [he]; simp)
  refine ⟨hcount, ?_, _, hmem, hcount, List.mem_cons_self⟩
  have htime := hr.time
  dsimp only at htime hcount
  rw [← htime, ← hs.latest (by omega), ← hcount, Nat.add_sub_cancel]

/-- The last tick owes a pending one-shot its firing. -/
theorem Armed.owed {e : TimerEntry} (ha : Armed s id e h) (hs : Sound s) (hpending : Pending s id)
    (hcount : tick + 1 = s.count) (hone : h.periodic = false) : Owed s h tick := by
  obtain ⟨hreached, -, harmed, -⟩ := ha.pending hpending
  have htime : s.time tick = s.last := by
    rw [← hs.latest (by omega), ← hcount, Nat.add_sub_cancel]
  have hdue : h.anchor + h.delay ≤ s.time tick := by
    rcases ha.follows with ⟨-, heq⟩ | ⟨hperiodic, -⟩
    · omega
    · rw [hone] at hperiodic
      cases hperiodic
  obtain ⟨j, hj, howed⟩ := exists_owed hone (by omega) (by omega) hdue
  rcases Nat.lt_or_eq_of_le hj with hlt | rfl
  · have hfired := ha.settled j howed (.inl (by omega))
    rw [ha.unfired hone] at hfired
    cases hfired
  · exact howed

/-- Fired by this tick, the timer has its past up to now. -/
theorem fire_past {e : TimerEntry} (ha : Armed s id e h) (hs : Sound s) (hpending : Pending s id)
    (hcount : tick + 1 = s.count) : Past s (h.fire tick nowMs) := by
  have hpast := hs.past id h ha.history
  obtain ⟨-, -, -, hnew⟩ := ha.pending hpending
  rw [← hcount, Nat.add_sub_cancel] at hnew
  exact {
    lt_count := by
      intro k hk
      rcases List.mem_cons.mp hk with rfl | hold
      · omega
      · exact hpast.lt_count k hold
    once := List.nodup_cons.mpr ⟨hnew, hpast.once⟩
    single := by
      intro hone
      show (tick :: h.firings).length ≤ 1
      rw [ha.unfired hone, List.length_singleton]
    atFirst := by
      intro hone k hk
      have hk' : k ∈ tick :: h.firings := hk
      rw [ha.unfired hone, List.mem_singleton] at hk'
      subst hk'
      exact (owed_fire le_rfl).mpr (ha.owed hs hpending hcount hone)
    silent := by
      intro firings hmem
      have hnone : (h.fire tick nowMs).cancelled = none := ha.active
      rw [hnone] at hmem
      cases hmem }

/-- A periodic timer that fires goes on with its next deadline. -/
theorem fire_armed {e : TimerEntry} (ha : Armed s id e h) (hs : Sound s) (hpending : Pending s id)
    (hcount : tick + 1 = s.count) (hlast : nowMs = s.last) (hperiodic : h.periodic = true)
    (hcount' : s'.count = s.count) (htime' : s'.time = s.time) (hlast' : s'.last = s.last)
    (hidle : ¬ Pending s' id) (hhistory : s'.history id = some (h.fire tick nowMs)) :
    Armed s' id { e with deadline := nextDeadline e (UInt32.ofNat nowMs) } (h.fire tick nowMs) := by
  obtain ⟨hle, hlt, harmed, -⟩ := ha.pending hpending
  have hinterval : e.interval = UInt32.ofNat h.delay := by rw [ha.interval, if_pos hperiodic]
  have hdue : (h.fire tick nowMs).due = if nowMs < h.due + h.delay then h.due + h.delay else nowMs + h.delay :=
    if_pos hperiodic
  have hdelay := ha.delay_lt
  have hnow : s.time tick = s.last := by
    rw [← hs.latest (by omega), ← hcount, Nat.add_sub_cancel]
  exact {
    history := hhistory
    active := ha.active
    deadline := by
      rw [hdue]
      exact nextDeadline_eq ha.deadline hinterval hdelay (hlast ▸ hle) (hlast ▸ hlt)
    interval := ha.interval
    delay_lt := hdelay
    delay_pos := ha.delay_pos
    unfired := by
      intro hone
      have hboth : true = false := hperiodic.symm.trans hone
      cases hboth
    armedAt_le := hcount' ▸ ha.armedAt_le
    follows := by
      refine .inr ⟨hperiodic, tick, List.mem_cons_self, ?_⟩
      show (h.fire tick nowMs).due ≤ s'.time tick + h.delay
      rw [hdue, htime', hnow]
      split <;> omega
    pending := fun hp => absurd hp hidle
    waiting := by
      intro _
      rw [hdue, hlast']
      split <;> omega
    settled := by
      intro k howed _
      have hk : k < s.count := hcount' ▸ howed.2.1
      rcases Nat.lt_or_eq_of_le (show k ≤ tick by omega) with hbefore | rfl
      · have howed' : Owed s h k := (owed_fire (by omega)).mp
          ((owed_congr (by rw [hcount']) fun j _ => by rw [htime']).mp howed)
        exact List.mem_cons_of_mem _ (ha.settled k howed' (.inl (by omega)))
      · exact List.mem_cons_self }

end Turn

/-- Step lemma: one timer fires, or was cancelled in the meantime. -/
theorem turn_sound (hs : Sound s) (hstep : s.step .turn = some s') : Sound s' := by
  obtain ⟨tick, nowMs, id, due, outer, hframes, rfl⟩ := step_turn hstep
  cases he : s.list.lookup id with
  | none =>
    rw [turn_none he]
    set t : TimerRun := { s with frames := ⟨tick, nowMs, due⟩ :: outer } with ht
    have hrun : (∀ f ∈ t.frames, Running t f) ∧ t.frames.Pairwise fun f g => g.tick < f.tick :=
      running_turn hs hframes rfl rfl rfl rfl fun _ hk => hk
    exact {
      distinct := hs.distinct
      start := hs.start
      latest := hs.latest
      anchored := hs.anchored
      armed := by
        intro other e hother
        have hne : id ≠ other := by
          rintro rfl
          rw [he] at hother
          cases hother
        obtain ⟨h, ha⟩ := hs.armed other e hother
        exact ⟨h, ha.congr rfl rfl rfl (pending_turn hne hframes rfl rfl) rfl⟩
      live := hs.live
      past := fun other h hh => (hs.past other h hh).congr le_rfl fun _ _ => rfl
      running := hrun.1
      nested := hrun.2 }
  | some e =>
    obtain ⟨h, ha⟩ := hs.armed id e he
    obtain ⟨hcount, hlast, hpending⟩ := turn_current hs hframes he
    obtain ⟨hfired, hdistinct, -, hlastNow, hlookup⟩ := turn_some hs.distinct he (UInt32.ofNat nowMs)
    have hpast : Past s (h.fire tick nowMs) := fire_past ha hs hpending hcount
    have hinterval : e.interval > 0 ↔ h.periodic = true := by
      rw [ha.interval]
      cases hperiodic : h.periodic with
      | false => simp
      | true =>
        have hpos := ha.delay_pos hperiodic
        have hlt := ha.delay_lt
        simp only [if_true, iff_true, gt_iff_lt, UInt32.lt_iff_toNat_lt, UInt32.toNat_ofNat']
        show 0 < h.delay % 2 ^ 32
        omega
    rw [hfired, ha.history]
    simp only [Option.isSome_some, if_true, Option.map_some]
    set t : TimerRun := { s with
      list := (s.list.turn (UInt32.ofNat nowMs) id).1
      frames := ⟨tick, nowMs, due⟩ :: outer
      history := Function.update s.history id (some (h.fire tick nowMs)) } with ht
    have hsub : ∀ k, t.list.lookup k ≠ none → s.list.lookup k ≠ none := by
      intro k hk
      rw [hlookup] at hk
      split at hk
      · rename_i heq
        rw [← heq, he]
        simp
      · exact hk
    have hrun : (∀ f ∈ t.frames, Running t f) ∧ t.frames.Pairwise fun f g => g.tick < f.tick :=
      running_turn hs hframes rfl rfl rfl rfl hsub
    have hidle : ¬ Pending t id := not_pending_turn hs hframes rfl rfl
    have hself : t.history id = some (h.fire tick nowMs) := Function.update_self _ _ _
    have hother : ∀ other, id ≠ other → t.history other = s.history other :=
      fun other hne => Function.update_of_ne (Ne.symm hne) _ _
    exact {
      distinct := hdistinct
      start := hs.start
      latest := hs.latest
      anchored := by
        intro other e' _
        exact hlastNow.trans (hs.anchored id e he)
      armed := by
        intro other e' he'
        rw [hlookup] at he'
        split at he'
        · rename_i heq
          subst heq
          split at he'
          · rename_i hrepeats
            obtain rfl := Option.some.inj he'
            exact ⟨_, fire_armed ha hs hpending hcount hlast (hinterval.mp hrepeats) rfl rfl rfl hidle
              hself⟩
          · cases he'
        · rename_i hne
          obtain ⟨h', ha'⟩ := hs.armed other e' he'
          exact ⟨h', ha'.congr rfl rfl rfl (pending_turn hne hframes rfl rfl) (hother other hne)⟩
      live := by
        rintro other h' ⟨hh, hactive, hlive⟩
        rw [hlookup]
        by_cases heq : id = other
        · subst heq
          obtain rfl := Option.some.inj (hself.symm.trans hh)
          rw [if_pos rfl]
          cases hperiodic : h.periodic with
          | false =>
            have hnil : tick :: h.firings = [] := hlive hperiodic
            cases hnil
          | true => exact ⟨_, if_pos (hinterval.mpr hperiodic)⟩
        · rw [if_neg heq]
          rw [hother other heq] at hh
          exact hs.live other h' ⟨hh, hactive, hlive⟩
      past := by
        intro other h' hh
        by_cases heq : id = other
        · subst heq
          obtain rfl := Option.some.inj (hself.symm.trans hh)
          exact hpast.congr le_rfl fun _ _ => rfl
        · rw [hother other heq] at hh
          exact (hs.past other h' hh).congr le_rfl fun _ _ => rfl
      running := hrun.1
      nested := hrun.2 }

/-- Step lemma: a tick ends when nothing of it is left. -/
theorem leave_sound (hs : Sound s) (hstep : s.step .leave = some s') : Sound s' := by
  obtain ⟨tick, nowMs, outer, hframes, rfl⟩ := step_leave hstep
  have hpending : ∀ id, Pending { s with frames := outer } id ↔ Pending s id := by
    intro id
    unfold Pending
    rw [hframes]
    simp
  have hin : ∀ f ∈ outer, f ∈ s.frames := by
    intro f hf
    rw [hframes]
    exact List.mem_cons_of_mem _ hf
  have hnested := hs.nested
  rw [hframes] at hnested
  exact {
    distinct := hs.distinct
    start := hs.start
    latest := hs.latest
    anchored := hs.anchored
    armed := by
      intro id e he
      obtain ⟨h, ha⟩ := hs.armed id e he
      exact ⟨h, ha.congr rfl rfl rfl (hpending id) rfl⟩
    live := hs.live
    past := fun id h hh => (hs.past id h hh).congr le_rfl fun _ _ => rfl
    running := fun f hf => (hs.running f (hin f hf)).congr rfl rfl rfl fun _ _ hk => hk
    nested := hnested.of_cons }

theorem step_sound {e : TimerEvent} (hs : Sound s) (hc : Orderly s e) (hstep : s.step e = some s') : Sound s' := by
  cases e with
  | schedule delayMs periodic => exact schedule_sound hs hc hstep
  | cancel id => exact cancel_sound hs hstep
  | tick nowMs => exact tick_sound hs hc hstep
  | turn => exact turn_sound hs hstep
  | leave => exact leave_sound hs hstep

/-- When a tick returns, the timers in the list are behind it, and near enough for the result. -/
theorem returnsLeast_of_sound (hs : Sound s) (e : TimerEvent) : ReturnsLeast s e := by
  cases e with
  | leave =>
    intro f hf hnone
    obtain ⟨outer, hframes⟩ : ∃ outer, s.frames = f :: outer := by
      cases hcases : s.frames with
      | nil =>
        rw [hcases] at hf
        cases hf
      | cons g outer =>
        rw [hcases] at hf
        obtain rfl := Option.some.inj hf
        exact ⟨outer, rfl⟩
    have hr := hs.running f (by rw [hframes]; exact List.mem_cons_self)
    have hnested := hs.nested
    rw [hframes, List.pairwise_cons] at hnested
    have hidle : ∀ id, ¬ Pending s id := by
      rintro id ⟨g, hg, hlast, hin⟩
      rw [hframes] at hg
      rcases List.mem_cons.mp hg with rfl | hold
      · rw [hnone] at hin
        cases hin
      · have hlt := hnested.1 g hold
        have hle := hr.tick_lt
        omega
    have hremains : ∀ id e h, s.list.lookup id = some e → Armed s id e h →
        f.nowMs ≤ h.due ∧ (e.deadline - UInt32.ofNat f.nowMs).toNat = h.due - f.nowMs := by
      intro id e h _ ha
      have hwait := ha.waiting (hidle id)
      have hle := hr.le_last
      have hlt := hr.last_lt
      refine ⟨by omega, ?_⟩
      rw [ha.deadline, UInt32.toNat_sub, UInt32.toNat_ofNat', UInt32.toNat_ofNat']
      omega
    have hbelow : ∀ id h, Live s id h →
        f.nowMs ≤ h.due ∧ (s.list.remaining (UInt32.ofNat f.nowMs)).toNat ≤ h.due - f.nowMs ∧
        h.due < f.nowMs + timerNone.toNat := by
      intro id h hlive
      obtain ⟨e, he⟩ := hs.live id h hlive
      obtain ⟨h', ha⟩ := hs.armed id e he
      obtain rfl : h = h' := Option.some.inj (hlive.1.symm.trans ha.history)
      obtain ⟨hle, heq⟩ := hremains id e h he ha
      have hmin := UInt32.le_iff_toNat_le.mp (remaining_le (UInt32.ofNat f.nowMs) he)
      have hwait := (ha.waiting (hidle id)).2
      have hlt := hr.last_lt
      refine ⟨hle, heq ▸ hmin, ?_⟩
      rw [show timerNone.toNat = 2 ^ 32 - 1 from rfl]
      omega
    refine ⟨fun id h hlive => ⟨(hbelow id h hlive).1, (hbelow id h hlive).2.1⟩, ?_⟩
    rcases remaining_cases hs.distinct (UInt32.ofNat f.nowMs) with hempty | ⟨id, e, he, heq⟩
    · refine .inr ⟨hempty, fun id h hlive => ?_⟩
      obtain ⟨hle, hmin, hlt⟩ := hbelow id h hlive
      rw [hempty] at hmin
      omega
    · obtain ⟨h, ha⟩ := hs.armed id e he
      refine .inl ⟨id, h, ⟨ha.history, ha.active, ha.unfired⟩, ?_⟩
      rw [heq]
      exact (hremains id e h he ha).2
  | schedule delayMs periodic => trivial
  | cancel id => trivial
  | tick nowMs => trivial
  | turn => trivial

end TimerRun

open TimerRun

/-- For every run whose schedulings and ticks are orderly: in every state reached, no tick has fired
a timer twice, a one-shot has fired in no tick but the first that had reached its deadline, every tick
that has returned has fired the timers it had to, and no cancelled timer has fired since; and every
tick returns the smallest remaining time. -/
theorem timer_list_exact (events : List TimerEvent) (meets : StepsMeet step Orderly {} events) :
    Always step AllExact {} events ∧ StepsMeet step ReturnsLeast {} events := by
  constructor
  · exact always_of_meets Sound (fun _ hs => hs.exact) (fun _ _ _ hs hc hstep => step_sound hs hc hstep)
      sound_init meets
  · exact meets.of_invariant Sound (fun _ _ _ hs hc hstep => step_sound hs hc hstep)
      (fun _ e hs _ => returnsLeast_of_sound hs e) sound_init

/-- A one-shot and a periodic timer, and a callback of the second that cancels a third one. -/
theorem timer_list_exact_three_timers :
    Always step AllExact {} [.schedule 100 false, .schedule 40 true, .schedule 40 false, .tick 50, .turn, .cancel 3,
        .turn, .leave, .tick 100, .turn, .turn, .leave] ∧
      StepsMeet step ReturnsLeast {} [.schedule 100 false, .schedule 40 true, .schedule 40 false, .tick 50, .turn,
        .cancel 3, .turn, .leave, .tick 100, .turn, .turn, .leave] :=
  timer_list_exact _ (by decide)

/-- The first reading of the clock is 2^31: the list keeps 0 for the time of the last tick, and a timer
scheduled for 100 ms has not fired when a tick returns that is 100 ms later. -/
theorem timer_list_misses_deadline : ∃ (s : TimerRun) (h : TimerHistory),
    runFrom step {} [.tick (2 ^ 31), .leave, .schedule 100 false, .tick (2 ^ 31 + 100), .leave] = some s ∧
    s.list.entries = [⟨1, 100, 0⟩] ∧ s.history 1 = some h ∧ h.cancelled = none ∧ Owed s h 1 ∧ Returned s 1 ∧
    h.firings = [] ∧ ¬ AllExact s := by
  obtain ⟨s, hrun, hentries, hhistory, hcount, htime, hframes⟩ : ∃ s : TimerRun,
      runFrom step {} [.tick (2 ^ 31), .leave, .schedule 100 false, .tick (2 ^ 31 + 100), .leave] = some s ∧
      s.list.entries = [⟨1, 100, 0⟩] ∧
      s.history 1 = some { periodic := false, delay := 100, anchor := 2 ^ 31, armedAt := 1, due := 2 ^ 31 + 100 } ∧
      s.count = 2 ∧ s.time 1 = 2 ^ 31 + 100 ∧ s.frames = [] :=
    ⟨_, rfl, by decide, by decide, by decide, by decide, by decide⟩
  have howed : Owed s { periodic := false, delay := 100, anchor := 2 ^ 31, armedAt := 1, due := 2 ^ 31 + 100 } 1 := by
    refine ⟨le_rfl, by omega, htime.ge, fun j hj hlo => ?_⟩
    dsimp only at hlo
    omega
  have hreturned : Returned s 1 := by
    unfold Returned
    rw [hframes]
    simp
  refine ⟨s, _, hrun, hentries, hhistory, rfl, howed, hreturned, rfl, fun hall => ?_⟩
  have hfired := (hall 1 _ hhistory).fires rfl 1 howed hreturned
  cases hfired

end AetherStack.Guarantees
