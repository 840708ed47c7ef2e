import Mathlib.Tactic

/-!
# Components driven by a clock

A driver reads a clock, combines each reading with the time it has kept, and shows the result
to a component: at a tick, and at every call until the next one. Two runs of one component are
compared whose readings correspond under a translation of the time.
-/
namespace AetherStack.Lib
variable {T S C O : Type*}

/-- A component's tick and its other calls, each at the driver's time. -/
structure Component (T S C O : Type*) where
  init : S
  tick : T → S → S × O
  call : T → C → S → S × O

inductive Driven (T C : Type*) where
  | tick (reading : T)
  | call (c : C)

namespace Driven

/-- The event with its reading translated. -/
def retime (f : T → T) : Driven T C → Driven T C
  | .tick reading => .tick (f reading)
  | .call c => .call c

/-- The clock readings of a run. -/
def readings : List (Driven T C) → List T
  | [] => []
  | .tick t :: evs => t :: readings evs
  | .call _ :: evs => readings evs

@[simp] theorem readings_map_tick (ts : List T) : readings (ts.map (tick (C := C))) = ts := by
  induction ts with
  | nil => rfl
  | cons t ts ih => rw [List.map_cons, readings, ih]

end Driven
open Driven

/-- What the component answers, event by event. `next now reading` is the driver's new time. -/
def outputs (next : T → T → T) (m : Component T S C O) : T → S → List (Driven T C) → List O
  | _, _, [] => []
  | now, s, .tick t :: evs =>
    (m.tick (next now t) s).2 :: outputs next m (next now t) (m.tick (next now t) s).1 evs
  | now, s, .call c :: evs => (m.call now c s).2 :: outputs next m now (m.call now c s).1 evs

/-- The driver's time in the translated run is the translated time, at every reading. -/
def InStep (next : T → T → T) (f : T → T) : T → List T → Prop
  | _, [] => True
  | now, t :: ts => next (f now) (f t) = f (next now t) ∧ InStep next f (next now t) ts

/-- A relation between the component's states in the two runs that the passing of time, every
tick and every call keep, while the two answer alike. -/
structure Simulates (next : T → T → T) (f : T → T) (m : Component T S C O)
    (rel : T → S → S → Prop) : Prop where
  later : ∀ {now t s s'}, next (f now) (f t) = f (next now t) → rel now s s' → rel (next now t) s s'
  tick : ∀ {now s s'}, rel now s s' → (m.tick (f now) s').2 = (m.tick now s).2 ∧
    rel now (m.tick now s).1 (m.tick (f now) s').1
  call : ∀ {now s s'} c, rel now s s' → (m.call (f now) c s').2 = (m.call now c s).2 ∧
    rel now (m.call now c s).1 (m.call (f now) c s').1

/-- Runs in step answer alike, event by event. -/
theorem Simulates.outputs_eq {next : T → T → T} {f : T → T} {m : Component T S C O}
    {rel : T → S → S → Prop} (sim : Simulates next f m rel) {now : T} {s s' : S}
    {evs : List (Driven T C)} (hrel : rel now s s') (hstep : InStep next f now (readings evs)) :
    outputs next m (f now) s' (evs.map (retime f)) = outputs next m now s evs := by
  induction evs generalizing now s s' with
  | nil => rfl
  | cons e evs ih =>
    cases e with
    | tick t =>
      obtain ⟨hnext, hrest⟩ := hstep
      have hlater := sim.later hnext hrel
      obtain ⟨hout, hafter⟩ := sim.tick hlater
      rw [List.map_cons, retime, outputs, outputs, hnext, hout, ih hafter hrest]
    | call c =>
      obtain ⟨hout, hafter⟩ := sim.call c hrel
      rw [List.map_cons, retime, outputs, outputs, hout, ih hafter hstep]

/-- A component that may answer differently at the first reading out of step has a run with
these readings whose answers differ. `arm` is the call before that reading. -/
theorem exists_outputs_ne {next : T → T → T} {f : T → T} (m : Component T S C O) (arm : C)
    (quiet : ∀ now, (m.tick now m.init).1 = m.init)
    (differs : ∀ now t, next (f now) (f t) ≠ f (next now t) →
      (m.tick (next (f now) (f t)) (m.call (f now) arm m.init).1).2 ≠
        (m.tick (next now t) (m.call now arm m.init).1).2)
    {now : T} {ts : List T} (hstep : ¬ InStep next f now ts) :
    ∃ evs : List (Driven T C), readings evs = ts ∧
      outputs next m (f now) m.init (evs.map (retime f)) ≠ outputs next m now m.init evs := by
  induction ts generalizing now with
  | nil => exact absurd trivial hstep
  | cons t ts ih =>
    by_cases hnext : next (f now) (f t) = f (next now t)
    · have hrest : ¬ InStep next f (next now t) ts := fun hrest => hstep ⟨hnext, hrest⟩
      obtain ⟨evs, hreadings, hne⟩ := ih hrest
      refine ⟨.tick t :: evs, by rw [readings, hreadings], fun heq => hne ?_⟩
      rw [List.map_cons, retime, outputs, outputs, quiet, quiet, hnext] at heq
      exact (List.cons.inj heq).2
    · refine ⟨.call arm :: .tick t :: ts.map .tick, by rw [readings, readings, readings_map_tick], ?_⟩
      intro heq
      have htail := (List.cons.inj heq).2
      exact differs now t hnext (List.cons.inj htail).1

end AetherStack.Lib
