import AetherStack.Lib.Keyed
import AetherStack.Source.Bytes

/-!
# `TimerList`

Source: stack/core/src/timer_list.cpp:6-70 and include/core/timer_list.h, namespace `core`. The
callback of a timer may call the list again, so `tick` is cut where callbacks run: `begin` to the
snapshot of the due timers, one `turn` for each of them up to its callback, and `remaining`.
-/
namespace AetherStack.Source.Core
open Lib

/-- `static_cast<int32_t>(a - b)`: what `TimerList` compares times with. -/
def clockDiff (a b : UInt32) : Int := (a - b).toInt32.toInt

/-- A deadline has passed when it lies less than half the circle behind. -/
theorem clockDiff_nonneg_iff (a b : UInt32) : 0 ≤ clockDiff a b ↔ (a - b).toNat < 2 ^ 31 := by
  have hdiff : clockDiff a b = (a - b).toBitVec.toInt := rfl
  have hbound := (a - b).toNat_lt
  have hnat : (a - b).toBitVec.toNat = (a - b).toNat := rfl
  rw [hdiff, BitVec.toInt_eq_toNat_cond, hnat]
  split <;> omega

theorem clockDiff_pos_iff (a b : UInt32) :
    0 < clockDiff a b ↔ 0 < (a - b).toNat ∧ (a - b).toNat < 2 ^ 31 := by
  have hdiff : clockDiff a b = (a - b).toBitVec.toInt := rfl
  have hbound := (a - b).toNat_lt
  have hnat : (a - b).toBitVec.toNat = (a - b).toNat := rfl
  rw [hdiff, BitVec.toInt_eq_toNat_cond, hnat]
  split <;> omega

def timerNone : UInt32 := 0xFFFFFFFF

/-- The callback belongs to the caller; `active` is never read. -/
structure TimerEntry where
  id : UInt32 := 0
  deadline : UInt32 := 0
  interval : UInt32 := 0
  deriving DecidableEq, Repr

structure TimerList where
  entries : List TimerEntry := []
  nextId : UInt32 := 1
  lastNow : UInt32 := 0
  deriving DecidableEq, Repr

namespace TimerList

def schedule (t : TimerList) (delayMs : UInt32) (periodic : Bool) : TimerList × UInt32 :=
  ({ t with
      entries := t.entries ++ [⟨t.nextId, t.lastNow + delayMs, if periodic then delayMs else 0⟩]
      nextId := t.nextId + 1 }, t.nextId)

/-- `std::find_if` over the entries. -/
def findIdx (t : TimerList) (id : UInt32) : Option Nat := t.entries.findIdx? fun e => e.id = id

def cancel (t : TimerList) (id : UInt32) : TimerList :=
  match t.findIdx id with
  | none => t
  | some i => { t with entries := t.entries.eraseIdx i }

/-- The first statement of `tick`. -/
def noteNow (t : TimerList) (nowMs : UInt32) : TimerList :=
  if 0 < clockDiff nowMs t.lastNow then { t with lastNow := nowMs } else t

def dueIds (t : TimerList) (nowMs : UInt32) : List UInt32 :=
  (t.entries.filter fun e => 0 ≤ clockDiff nowMs e.deadline).map TimerEntry.id

/-- The next deadline of a periodic timer that fires; one that fell far behind resyncs. -/
def nextDeadline (e : TimerEntry) (nowMs : UInt32) : UInt32 :=
  if 0 ≤ clockDiff nowMs (e.deadline + e.interval) then nowMs + e.interval else e.deadline + e.interval

/-- One turn of the loop over the due timers, up to the callback. -/
def turn (t : TimerList) (nowMs id : UInt32) : TimerList × Option TimerEntry :=
  match t.findIdx id with
  | none => (t, none)
  | some i =>
    match t.entries[i]? with
    | none => (t, none)
    | some e =>
      if e.interval > 0 then
        ({ t with entries := t.entries.set i { e with deadline := nextDeadline e nowMs } }, some e)
      else ({ t with entries := t.entries.eraseIdx i }, some e)

/-- What `tick` returns. -/
def remaining (t : TimerList) (nowMs : UInt32) : UInt32 :=
  t.entries.foldl (fun next e => min next (e.deadline - nowMs)) timerNone

/-! ### The entries by their ids -/

def lookup (t : TimerList) (id : UInt32) : Option TimerEntry := Keyed.lookup TimerEntry.id t.entries id

/-- No two timers in the list have the same id. -/
def Distinct (t : TimerList) : Prop := (t.entries.map TimerEntry.id).Nodup

variable {t : TimerList} {id k : UInt32} {e : TimerEntry}

/-- An entry found has the identity looked for. -/
theorem lookup_id (h : t.lookup id = some e) : e ∈ t.entries ∧ e.id = id := Keyed.lookup_mem h

theorem findIdx_eq_none : t.findIdx id = none ↔ t.lookup id = none := by
  rw [findIdx, lookup, Keyed.lookup_eq_none, List.findIdx?_eq_none_iff]
  simp

/-- The search finds the entry of the id. -/
theorem findIdx_of_lookup (h : t.lookup id = some e) : ∃ i, t.findIdx id = some i ∧ t.entries[i]? = some e := by
  rw [lookup, Keyed.lookup, List.find?_eq_bind_findIdx?_getElem?] at h
  exact Option.bind_eq_some_iff.mp h

theorem mem_entries (hd : t.Distinct) : e ∈ t.entries ↔ t.lookup e.id = some e := by
  constructor
  · intro he
    obtain ⟨i, hi⟩ := List.mem_iff_getElem?.mp he
    exact Keyed.lookup_getElem? hd hi
  · exact fun h => (lookup_id h).1

/-- A new entry is found under its own identity only. -/
theorem lookup_schedule (hfresh : t.lookup t.nextId = none) (delayMs : UInt32) (periodic : Bool) (k : UInt32) :
    (t.schedule delayMs periodic).1.lookup k =
      if t.nextId = k then some ⟨t.nextId, t.lastNow + delayMs, if periodic then delayMs else 0⟩ else t.lookup k := by
  rw [lookup, schedule, Keyed.lookup_append, Keyed.lookup_singleton]
  dsimp only
  split
  · rename_i heq
    subst heq
    rw [show Keyed.lookup TimerEntry.id t.entries t.nextId = none from hfresh]
    rfl
  · rw [Option.or_none]
    rfl

theorem distinct_schedule (hd : t.Distinct) (hfresh : t.lookup t.nextId = none) (delayMs : UInt32)
    (periodic : Bool) : (t.schedule delayMs periodic).1.Distinct := by
  rw [Distinct, schedule, List.map_append, List.map_singleton, ← List.concat_eq_append, List.nodup_concat]
  refine ⟨?_, hd⟩
  rw [List.mem_map]
  rintro ⟨e, he, heq⟩
  exact Keyed.lookup_eq_none.mp hfresh e he heq

theorem distinct_eraseIdx (hd : t.Distinct) (i : Nat) : Distinct { t with entries := t.entries.eraseIdx i } :=
  hd.sublist ((List.eraseIdx_sublist t.entries i).map _)

/-- A cancelled entry is gone, the others stay. -/
theorem lookup_cancel (hd : t.Distinct) (id k : UInt32) :
    (t.cancel id).lookup k = if id = k then none else t.lookup k := by
  unfold cancel
  cases hlookup : t.lookup id with
  | none =>
    rw [findIdx_eq_none.mpr hlookup]
    dsimp only
    split
    · rename_i heq
      rw [← heq, hlookup]
    · rfl
  | some e =>
    obtain ⟨i, hidx, hi⟩ := findIdx_of_lookup hlookup
    rw [hidx, ← (lookup_id hlookup).2]
    exact Keyed.lookup_eraseIdx hd hi k

theorem distinct_cancel (hd : t.Distinct) (id : UInt32) : (t.cancel id).Distinct := by
  unfold cancel
  split
  · exact hd
  · exact distinct_eraseIdx hd _

@[simp] theorem cancel_lastNow (t : TimerList) (id : UInt32) : (t.cancel id).lastNow = t.lastNow := by
  unfold cancel
  split <;> rfl

theorem turn_none (h : t.lookup id = none) (nowMs : UInt32) : t.turn nowMs id = (t, none) := by
  rw [turn, findIdx_eq_none.mpr h]

/-- A turn fires the timer of the id if it is still there: a periodic one gets its next deadline,
a one-shot is gone. -/
theorem turn_some (hd : t.Distinct) (h : t.lookup id = some e) (nowMs : UInt32) :
    (t.turn nowMs id).2 = some e ∧ (t.turn nowMs id).1.Distinct ∧
    (t.turn nowMs id).1.nextId = t.nextId ∧ (t.turn nowMs id).1.lastNow = t.lastNow ∧
    ∀ k, (t.turn nowMs id).1.lookup k =
      if id = k then (if e.interval > 0 then some { e with deadline := nextDeadline e nowMs } else none)
      else t.lookup k := by
  obtain ⟨i, hidx, hi⟩ := findIdx_of_lookup h
  obtain rfl := (lookup_id h).2
  unfold turn
  simp only [hidx, hi]
  split
  · have hset : ({ e with deadline := nextDeadline e nowMs } : TimerEntry).id = e.id := rfl
    refine ⟨rfl, ?_, rfl, rfl, fun k => Keyed.lookup_set hd hi hset k⟩
    show ((t.entries.set i { e with deadline := nextDeadline e nowMs }).map TimerEntry.id).Nodup
    rw [Keyed.map_key_set hi hset]
    exact hd
  · exact ⟨rfl, distinct_eraseIdx hd i, rfl, rfl, fun k => Keyed.lookup_eraseIdx hd hi k⟩

/-- The due entries are those whose deadline has passed. -/
theorem mem_dueIds (hd : t.Distinct) {nowMs : UInt32} :
    id ∈ t.dueIds nowMs ↔ ∃ e, t.lookup id = some e ∧ 0 ≤ clockDiff nowMs e.deadline := by
  simp only [dueIds, List.mem_map, List.mem_filter, decide_eq_true_eq]
  constructor
  · rintro ⟨e, ⟨he, hdue⟩, rfl⟩
    exact ⟨e, (mem_entries hd).mp he, hdue⟩
  · rintro ⟨e, he, hdue⟩
    obtain ⟨hmem, hid⟩ := lookup_id he
    exact ⟨e, ⟨hmem, hdue⟩, hid⟩

/-- No entry is due twice in one tick. -/
theorem nodup_dueIds (hd : t.Distinct) (nowMs : UInt32) : (t.dueIds nowMs).Nodup :=
  hd.sublist (List.filter_sublist.map _)

/-- `noteNow` leaves the entries alone. -/
@[simp] theorem noteNow_entries (t : TimerList) (nowMs : UInt32) : (t.noteNow nowMs).entries = t.entries := by
  unfold noteNow
  split <;> rfl

@[simp] theorem noteNow_lookup (t : TimerList) (nowMs id : UInt32) : (t.noteNow nowMs).lookup id = t.lookup id := by
  rw [lookup, noteNow_entries, lookup]

theorem min_cases (a b : UInt32) : (min a b = a ∧ a ≤ b) ∨ (min a b = b ∧ b ≤ a) := by
  by_cases h : a ≤ b
  · exact .inl ⟨if_pos h, h⟩
  · exact .inr ⟨if_neg h, UInt32.le_of_lt (UInt32.not_le.mp h)⟩

theorem foldl_min_le (nowMs : UInt32) (entries : List TimerEntry) (next : UInt32) :
    entries.foldl (fun next e => min next (e.deadline - nowMs)) next ≤ next ∧
    ∀ e ∈ entries, entries.foldl (fun next e => min next (e.deadline - nowMs)) next ≤ e.deadline - nowMs := by
  induction entries generalizing next with
  | nil => exact ⟨UInt32.le_refl next, by simp⟩
  | cons e es ih =>
    obtain ⟨hnext, hall⟩ := ih (min next (e.deadline - nowMs))
    have hmin : min next (e.deadline - nowMs) ≤ next ∧ min next (e.deadline - nowMs) ≤ e.deadline - nowMs := by
      rcases min_cases next (e.deadline - nowMs) with ⟨heq, hle⟩ | ⟨heq, hle⟩
      · exact heq.symm ▸ ⟨UInt32.le_refl _, hle⟩
      · exact heq.symm ▸ ⟨hle, UInt32.le_refl _⟩
    rw [List.foldl_cons]
    refine ⟨UInt32.le_trans hnext hmin.1, ?_⟩
    rintro e' (_ | ⟨_, he'⟩)
    · exact UInt32.le_trans hnext hmin.2
    · exact hall e' he'

/-- The minimum is the start or one of the entries. -/
theorem foldl_min_cases (nowMs : UInt32) (entries : List TimerEntry) (next : UInt32) :
    entries.foldl (fun next e => min next (e.deadline - nowMs)) next = next ∨
    ∃ e ∈ entries, entries.foldl (fun next e => min next (e.deadline - nowMs)) next = e.deadline - nowMs := by
  induction entries generalizing next with
  | nil => exact .inl rfl
  | cons e es ih =>
    rw [List.foldl_cons]
    rcases ih (min next (e.deadline - nowMs)) with hnext | ⟨e', he', heq⟩
    · rcases min_cases next (e.deadline - nowMs) with ⟨hmin, -⟩ | ⟨hmin, -⟩
      · exact .inl (hnext.trans hmin)
      · exact .inr ⟨e, List.mem_cons_self, hnext.trans hmin⟩
    · exact .inr ⟨e', List.mem_cons_of_mem _ he', heq⟩

/-- The smallest remaining time, or the value for none. -/
theorem remaining_le (nowMs : UInt32) (h : t.lookup id = some e) :
    t.remaining nowMs ≤ e.deadline - nowMs :=
  (foldl_min_le nowMs t.entries timerNone).2 e (lookup_id h).1

/-- The remaining time is that of some entry, or there is none. -/
theorem remaining_cases (hd : t.Distinct) (nowMs : UInt32) :
    t.remaining nowMs = timerNone ∨ ∃ id e, t.lookup id = some e ∧ t.remaining nowMs = e.deadline - nowMs := by
  rcases foldl_min_cases nowMs t.entries timerNone with hnone | ⟨e, he, heq⟩
  · exact .inl hnone
  · exact .inr ⟨e.id, e, (mem_entries hd).mp he, heq⟩

end TimerList
end AetherStack.Source.Core
