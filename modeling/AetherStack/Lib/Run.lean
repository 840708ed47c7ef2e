import Mathlib.Tactic

/-!
# Runs of a partial step function

A system is a step function `σ → ε → Option σ`: `none` means that the event is not
enabled (a message nobody sent, a call the environment may not make). A run
executes a list of events. The rules below turn what one step preserves into what
every run preserves; the second one keeps a resource bound that only has to hold
at the end, because the resource never shrinks.
-/
namespace AetherStack.Lib

variable {σ ε : Type*}

def runFrom (step : σ → ε → Option σ) : σ → List ε → Option σ
  | s, [] => some s
  | s, e :: es => (step s e).bind fun s' => runFrom step s' es

@[simp] theorem runFrom_nil (step : σ → ε → Option σ) (s : σ) : runFrom step s [] = some s := rfl

theorem runFrom_cons_eq_some {step : σ → ε → Option σ} {s t : σ} {e : ε} {es : List ε} :
    runFrom step s (e :: es) = some t ↔ ∃ s', step s e = some s' ∧ runFrom step s' es = some t := by
  simp [runFrom, Option.bind_eq_some_iff]

/-- A run in two parts. -/
theorem runFrom_append (step : σ → ε → Option σ) (s : σ) (es fs : List ε) :
    runFrom step s (es ++ fs) = (runFrom step s es).bind fun s' => runFrom step s' fs := by
  induction es generalizing s with
  | nil => rfl
  | cons e es ih =>
    simp only [List.cons_append, runFrom]
    cases step s e with
    | none => rfl
    | some s' => exact ih s'

theorem runFrom_append_eq_some {step : σ → ε → Option σ} {s t : σ} {es fs : List ε} :
    runFrom step s (es ++ fs) = some t ↔
      ∃ s', runFrom step s es = some s' ∧ runFrom step s' fs = some t := by
  rw [runFrom_append, Option.bind_eq_some_iff]

/-- Steps that are always enabled fold. -/
theorem runFrom_total (next : σ → ε → σ) (s : σ) (es : List ε) :
    runFrom (fun s e => some (next s e)) s es = some (es.foldl next s) := by
  induction es generalizing s with
  | nil => rfl
  | cons e es ih => exact ih (next s e)

/-- What every turn of a loop relates, the whole loop relates. -/
theorem foldl_rel {rel : σ → σ → Prop} (refl : ∀ s, rel s s)
    (trans : ∀ {s t u}, rel s t → rel t u → rel s u) {turn : σ → ε → σ}
    (step : ∀ s e, rel s (turn s e)) (s : σ) (es : List ε) : rel s (es.foldl turn s) := by
  induction es generalizing s with
  | nil => exact refl s
  | cons e es ih => exact trans (step s e) (ih (turn s e))

/-- What every enabled step preserves holds at the end of every run. -/
theorem runFrom_invariant {step : σ → ε → Option σ} (Inv : σ → Prop)
    (preserved : ∀ s e s', Inv s → step s e = some s' → Inv s')
    {s t : σ} {es : List ε} (start : Inv s) (run : runFrom step s es = some t) : Inv t := by
  induction es generalizing s with
  | nil =>
    obtain rfl : s = t := by simpa using run
    exact start
  | cons e es ih =>
    obtain ⟨s', hstep, hrest⟩ := runFrom_cons_eq_some.mp run
    exact ih (preserved s e s' start hstep) hrest

/-- A bound that no step restores once it is lost holds along the whole run if it
holds at its end. -/
theorem runFrom_bound {step : σ → ε → Option σ} {Bound : σ → Prop}
    (backward : ∀ s e s', step s e = some s' → Bound s' → Bound s)
    {s t : σ} {es : List ε} (run : runFrom step s es = some t) (bound : Bound t) : Bound s := by
  induction es generalizing s with
  | nil =>
    obtain rfl : s = t := by simpa using run
    exact bound
  | cons e es ih =>
    obtain ⟨s', hstep, hrest⟩ := runFrom_cons_eq_some.mp run
    exact backward s e s' hstep (ih hrest)

/-- The invariant rule for steps that need the bound after the step. -/
theorem runFrom_invariant_of_bound {step : σ → ε → Option σ} (Inv Bound : σ → Prop)
    (backward : ∀ s e s', step s e = some s' → Bound s' → Bound s)
    (preserved : ∀ s e s', Inv s → step s e = some s' → Bound s' → Inv s')
    {s t : σ} {es : List ε} (start : Inv s) (run : runFrom step s es = some t)
    (bound : Bound t) : Inv t := by
  induction es generalizing s with
  | nil =>
    obtain rfl : s = t := by simpa using run
    exact start
  | cons e es ih =>
    obtain ⟨s', hstep, hrest⟩ := runFrom_cons_eq_some.mp run
    exact ih (preserved s e s' start hstep (runFrom_bound backward hrest bound)) hrest

/-- Every event meets the condition in the state it finds. -/
def StepsMeet (step : σ → ε → Option σ) (C : σ → ε → Prop) : σ → List ε → Prop
  | _, [] => True
  | s, e :: es => C s e ∧ ∀ s', step s e = some s' → StepsMeet step C s' es

instance StepsMeet.decidable {step : σ → ε → Option σ} {C : σ → ε → Prop}
    [∀ s e, Decidable (C s e)] : (s : σ) → (es : List ε) → Decidable (StepsMeet step C s es)
  | _, [] => isTrue trivial
  | s, e :: es =>
    have : ∀ t, Decidable (StepsMeet step C t es) := fun t => StepsMeet.decidable t es
    inferInstanceAs (Decidable (C s e ∧ ∀ t ∈ step s e, StepsMeet step C t es))

theorem StepsMeet.cons {step : σ → ε → Option σ} {C : σ → ε → Prop} {s t : σ} {e : ε}
    {es : List ε} (cond : C s e) (hstep : step s e = some t) (rest : StepsMeet step C t es) :
    StepsMeet step C s (e :: es) := by
  refine ⟨cond, fun t' ht' => ?_⟩
  obtain rfl : t = t' := Option.some.inj (hstep.symm.trans ht')
  exact rest

/-- The invariant rule for runs under a condition on each step. -/
theorem runFrom_invariant_of_meets {step : σ → ε → Option σ} (Inv : σ → Prop)
    {C : σ → ε → Prop}
    (preserved : ∀ s e s', Inv s → C s e → step s e = some s' → Inv s')
    {s t : σ} {es : List ε} (start : Inv s) (meets : StepsMeet step C s es)
    (run : runFrom step s es = some t) : Inv t := by
  induction es generalizing s with
  | nil =>
    obtain rfl : s = t := by simpa using run
    exact start
  | cons e es ih =>
    obtain ⟨s', hstep, hrest⟩ := runFrom_cons_eq_some.mp run
    exact ih (preserved s e s' start meets.1 hstep) (meets.2 s' hstep) hrest

/-- Under a condition on each step that keeps `Inv`, what `Inv` and the condition give at a step
holds at every step. -/
theorem StepsMeet.of_invariant {step : σ → ε → Option σ} (Inv : σ → Prop) {C Q : σ → ε → Prop}
    (preserved : ∀ s e s', Inv s → C s e → step s e = some s' → Inv s')
    (sound : ∀ s e, Inv s → C s e → Q s e) {s : σ} {es : List ε} (start : Inv s)
    (meets : StepsMeet step C s es) : StepsMeet step Q s es := by
  induction es generalizing s with
  | nil => trivial
  | cons e es ih =>
    refine ⟨sound s e start meets.1, fun s' hs' => ?_⟩
    exact ih (preserved s e s' start meets.1 hs') (meets.2 s' hs')

/-- `P` holds in the first state and in every state the events lead through. -/
def Always (step : σ → ε → Option σ) (P : σ → Prop) : σ → List ε → Prop
  | s, [] => P s
  | s, e :: es => P s ∧ ∀ s', step s e = some s' → Always step P s' es

theorem Always.start {step : σ → ε → Option σ} {P : σ → Prop} {s : σ} {es : List ε}
    (h : Always step P s es) : P s := by
  cases es with
  | nil => exact h
  | cons e es => exact h.1

theorem always_append {step : σ → ε → Option σ} {P : σ → Prop} {s t : σ} {es fs : List ε}
    (run : runFrom step s es = some t) (first : Always step P s es)
    (second : Always step P t fs) : Always step P s (es ++ fs) := by
  induction es generalizing s with
  | nil =>
    obtain rfl : s = t := by simpa using run
    exact second
  | cons e es ih =>
    obtain ⟨s', hstep, hrest⟩ := runFrom_cons_eq_some.mp run
    refine ⟨first.1, fun s'' hs'' => ?_⟩
    obtain rfl : s' = s'' := Option.some.inj (hstep.symm.trans hs'')
    exact ih hrest (first.2 s' hstep)

/-- What follows from an invariant holds all along a run whose steps keep the invariant. -/
theorem always_of_meets {step : σ → ε → Option σ} (Inv : σ → Prop) {P : σ → Prop} {C : σ → ε → Prop}
    (sound : ∀ s, Inv s → P s) (preserved : ∀ s e s', Inv s → C s e → step s e = some s' → Inv s')
    {s : σ} {es : List ε} (start : Inv s) (meets : StepsMeet step C s es) : Always step P s es := by
  induction es generalizing s with
  | nil => exact sound s start
  | cons e es ih =>
    refine ⟨sound s start, fun s' hs' => ?_⟩
    exact ih (preserved s e s' start meets.1 hs') (meets.2 s' hs')

/-- When the condition on a step is what the property needs to hold after it, it is what the
property needs to hold along a run. `Inv` is what every step keeps; an event that is not
enabled ends the run and breaks no condition. -/
theorem always_iff_meets_of_step {step : σ → ε → Option σ} (Inv : σ → Prop) {P : σ → Prop}
    {C : σ → ε → Prop} (kept : ∀ s e s', Inv s → step s e = some s' → Inv s')
    (exact : ∀ s e s', Inv s → P s → step s e = some s' → (P s' ↔ C s e))
    (blocked : ∀ s e, step s e = none → C s e) {s : σ} (inv : Inv s) (start : P s)
    (es : List ε) : Always step P s es ↔ StepsMeet step C s es := by
  induction es generalizing s with
  | nil => exact ⟨fun _ => trivial, fun _ => start⟩
  | cons e es ih =>
    constructor
    · rintro ⟨-, halways⟩
      refine ⟨?_, fun s' hs' => ?_⟩
      · cases hstep : step s e with
        | none => exact blocked s e hstep
        | some s' => exact (exact s e s' inv start hstep).mp (halways s' hstep).start
      · have hrest := halways s' hs'
        exact (ih (kept s e s' inv hs') hrest.start).mp hrest
    · rintro ⟨hcond, hmeets⟩
      refine ⟨start, fun s' hs' => ?_⟩
      have hnext := (exact s e s' inv start hs').mpr hcond
      exact (ih (kept s e s' inv hs') hnext).mpr (hmeets s' hs')

/-- The same for steps that are always enabled. -/
theorem always_iff_meets {next : σ → ε → σ} (Inv : σ → Prop) {P : σ → Prop} {C : σ → ε → Prop}
    (kept : ∀ s e, Inv s → Inv (next s e))
    (exact : ∀ s e, Inv s → P s → (P (next s e) ↔ C s e)) {s : σ} (inv : Inv s) (start : P s)
    (es : List ε) :
    Always (fun s e => some (next s e)) P s es ↔ StepsMeet (fun s e => some (next s e)) C s es := by
  refine always_iff_meets_of_step Inv ?_ ?_ ?_ inv start es
  · intro s e s' hs hstep
    obtain rfl := Option.some.inj hstep
    exact kept s e hs
  · intro s e s' hs hp hstep
    obtain rfl := Option.some.inj hstep
    exact exact s e hs hp
  · intro s e hstep
    cases hstep

/-- Two conditions that are the same where `Inv` holds, when the second one keeps `Inv`. -/
theorem stepsMeet_congr {step : σ → ε → Option σ} (Inv : σ → Prop) {C Q : σ → ε → Prop}
    (same : ∀ s e, Inv s → (Q s e ↔ C s e))
    (preserved : ∀ s e s', Inv s → C s e → step s e = some s' → Inv s') {s : σ} (start : Inv s)
    (es : List ε) : StepsMeet step Q s es ↔ StepsMeet step C s es := by
  induction es generalizing s with
  | nil => exact Iff.rfl
  | cons e es ih =>
    constructor
    · rintro ⟨hq, hrest⟩
      have hc := (same s e start).mp hq
      exact ⟨hc, fun s' hs' => (ih (preserved s e s' start hc hs')).mp (hrest s' hs')⟩
    · rintro ⟨hc, hrest⟩
      exact ⟨(same s e start).mpr hc, fun s' hs' => (ih (preserved s e s' start hc hs')).mpr (hrest s' hs')⟩

/-- As `always_iff_meets_of_step`, in runs whose steps are within `B`, and with an invariant that
only the condition keeps. -/
theorem always_iff_meets_within {step : σ → ε → Option σ} (Inv : σ → Prop) {P : σ → Prop}
    {B C : σ → ε → Prop}
    (kept : ∀ s e s', Inv s → P s → B s e → C s e → step s e = some s' → Inv s' ∧ P s')
    (broken : ∀ s e, Inv s → P s → B s e → ¬ C s e → ∃ s', step s e = some s' ∧ ¬ P s') {s : σ}
    (inv : Inv s) (start : P s) {es : List ε} (within : StepsMeet step B s es) :
    Always step P s es ↔ StepsMeet step C s es := by
  induction es generalizing s with
  | nil => exact ⟨fun _ => trivial, fun _ => start⟩
  | cons e es ih =>
    constructor
    · rintro ⟨-, halways⟩
      have hcond : C s e := by
        by_contra hnot
        obtain ⟨s', hs', hbad⟩ := broken s e inv start within.1 hnot
        exact hbad (halways s' hs').start
      refine ⟨hcond, fun s' hs' => ?_⟩
      obtain ⟨hinv, hp⟩ := kept s e s' inv start within.1 hcond hs'
      exact (ih hinv hp (within.2 s' hs')).mp (halways s' hs')
    · rintro ⟨hcond, hmeets⟩
      refine ⟨start, fun s' hs' => ?_⟩
      obtain ⟨hinv, hp⟩ := kept s e s' inv start within.1 hcond hs'
      exact (ih hinv hp (within.2 s' hs')).mpr (hmeets s' hs')

/-- A condition that always holds is met. -/
theorem StepsMeet.of_forall {step : σ → ε → Option σ} {C : σ → ε → Prop} (h : ∀ s e, C s e) (s : σ)
    (es : List ε) : StepsMeet step C s es := by
  induction es generalizing s with
  | nil => trivial
  | cons e es ih => exact ⟨h s e, fun s' _ => ih s'⟩

/-- Where the condition decides step by step whether `P` goes on, a run keeps `P` exactly when its
steps meet the condition. -/
theorem always_iff_meets_of_kept {step : σ → ε → Option σ} (Inv : σ → Prop) {P : σ → Prop}
    {C : σ → ε → Prop} (kept : ∀ s e s', Inv s → P s → C s e → step s e = some s' → Inv s' ∧ P s')
    (broken : ∀ s e, Inv s → P s → ¬ C s e → ∃ s', step s e = some s' ∧ ¬ P s') {s : σ} (inv : Inv s)
    (start : P s) (es : List ε) : Always step P s es ↔ StepsMeet step C s es :=
  always_iff_meets_within (B := fun _ _ => True) Inv (fun s e s' hs hp _ => kept s e s' hs hp)
    (fun s e hs hp _ => broken s e hs hp) inv start (StepsMeet.of_forall (fun _ _ => trivial) s es)

/-- The invariant rule for properties of a state together with the events that led to it. -/
theorem runFrom_history {step : σ → ε → Option σ} (Inv : List ε → σ → Prop) {s : σ}
    (preserved : ∀ es t e t', runFrom step s es = some t → Inv es t → step t e = some t' →
      Inv (es ++ [e]) t')
    {t : σ} {es : List ε} (start : Inv [] s) (run : runFrom step s es = some t) : Inv es t := by
  induction es using List.reverseRecOn generalizing t with
  | nil =>
    obtain rfl : s = t := by simpa using run
    exact start
  | append_singleton es e ih =>
    obtain ⟨u, hrun, hlast⟩ := runFrom_append_eq_some.mp run
    obtain ⟨t', hstep, hnil⟩ := runFrom_cons_eq_some.mp hlast
    obtain rfl : t' = t := by simpa using hnil
    exact preserved es u e t' hrun (ih hrun) hstep

/-- Some event met `P`, which may speak of the events before it and of the state it found. -/
def Occurred (step : σ → ε → Option σ) (s : σ) (P : List ε → σ → ε → Prop) (es : List ε) : Prop :=
  ∃ before t e after, es = before ++ e :: after ∧ runFrom step s before = some t ∧ P before t e

/-- What occurred stays in the history. -/
theorem Occurred.snoc {step : σ → ε → Option σ} {s : σ} {P : List ε → σ → ε → Prop} {es : List ε}
    (h : Occurred step s P es) (e : ε) : Occurred step s P (es ++ [e]) := by
  obtain ⟨before, t, e', after, rfl, hrun, hp⟩ := h
  exact ⟨before, t, e', after ++ [e], by simp, hrun, hp⟩

theorem occurred_last {step : σ → ε → Option σ} {s t : σ} {P : List ε → σ → ε → Prop}
    {es : List ε} {e : ε} (run : runFrom step s es = some t) (h : P es t e) :
    Occurred step s P (es ++ [e]) :=
  ⟨es, t, e, [], rfl, run, h⟩

end AetherStack.Lib
