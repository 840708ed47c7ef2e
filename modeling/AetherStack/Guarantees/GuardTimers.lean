import AetherStack.Guarantees.UeSecurity
import AetherStack.Source.UeGuards

/-!
# Whose guard it is

`attach_guard_running_` says that some attach guard is pending, not which attach armed it: a
success and a detach leave it set and the timer armed, so the guard of one attach aborts the
next. The guard of a resume has the same fault: the callback of the resume clears the boolean
but leaves the timer, which later serves the boolean of another resume. As long as no procedure
begins while an old guard of its kind is pending, each guard ends its own.
-/
namespace AetherStack.Guarantees
open Source Source.Core Lib Source.Mac Source.Rrc

/-- An attach is wanted and can run, and has not succeeded. -/
def AttachInProgress (u : UeNode) : Prop :=
  u.attachRequested = true ∧ u.hasSystemInfo = true ∧ u.registered = false

/-- RRC connects for the RESUME_REQUEST that waits to ride MSG3. -/
def ResumeInProgress (u : UeNode) : Prop :=
  u.rrc.state = .connecting ∧ (RrcMessage.decode u.pendingCcch).msgType = .resumeRequest

instance (u : UeNode) : Decidable (AttachInProgress u) := by
  unfold AttachInProgress
  infer_instance

instance (u : UeNode) : Decidable (ResumeInProgress u) := by
  unfold ResumeInProgress
  infer_instance

/-- A procedure runs from the time at which it is first seen in progress. -/
def procedureSince (before : Option UInt32) (running : Prop) [Decidable running] (now : UInt32) :
    Option UInt32 :=
  if running then some (before.getD now) else none

/-- The node with its deadlines and, for the statements only, the times at which the attach and
the resume in progress began. -/
structure GuardWatch where
  ue : TimedUe
  attachSince : Option UInt32 := none
  resumeSince : Option UInt32 := none

namespace GuardWatch

def make (config : UeNodeConfig) : GuardWatch := { ue := TimedUe.make config }

def after (w : GuardWatch) (ue : TimedUe) : GuardWatch where
  ue := ue
  attachSince := procedureSince w.attachSince (AttachInProgress ue.node) ue.node.nowMs
  resumeSince := procedureSince w.resumeSince (ResumeInProgress ue.node) ue.node.nowMs

def step (digest : KeyedDigest) (attachGuardMs : UInt32) (w : GuardWatch) (e : TimedEvent) :
    Option GuardWatch :=
  (w.ue.step attachGuardMs digest e).map w.after

/-- How long a procedure has run. -/
def elapsed (w : GuardWatch) (since : UInt32) : Nat := w.ue.node.nowMs.toNat - since.toNat

/-- The attach guard fires and finds the UE not registered. -/
def Aborts (w : GuardWatch) (deadline : UInt32) : Prop :=
  w.ue.sdus = [] ∧ deadline ∈ w.ue.attachGuards ∧ w.ue.due deadline ∧
    w.ue.node.registered = false

/-- The resume guard fires, its boolean is set and RRC is not connected. -/
def FallsBack (w : GuardWatch) (deadline : UInt32) : Prop :=
  w.ue.sdus = [] ∧ deadline ∈ w.ue.resumeGuards ∧ w.ue.due deadline ∧
    w.ue.node.resumeGuardRunning = true ∧ w.ue.node.rrc.state ≠ .connected

instance (w : GuardWatch) (deadline : UInt32) : Decidable (w.Aborts deadline) := by
  unfold Aborts
  infer_instance

instance (w : GuardWatch) (deadline : UInt32) : Decidable (w.FallsBack deadline) := by
  unfold FallsBack
  infer_instance

end GuardWatch

/-- An attach that a guard aborts has run for `attach_guard_ms`, and a resume that a guard gives
up is in progress and has run four times as long. -/
def GuardOwned (attachGuardMs : UInt32) (w : GuardWatch) : TimedEvent → Prop
  | .attachGuard deadline =>
    w.Aborts deadline → ∀ since ∈ w.attachSince, attachGuardMs.toNat ≤ w.elapsed since
  | .resumeGuard deadline =>
    w.FallsBack deadline → ∃ since ∈ w.resumeSince, 4 * attachGuardMs.toNat ≤ w.elapsed since
  | _ => True

/-- No procedure begins while an old guard of its kind is pending; a resume guard that would fall
back finds a resume in progress; and the clock does not leap past what `TimerList` compares. -/
def GuardCondition (digest : KeyedDigest) (attachGuardMs : UInt32) (w : GuardWatch)
    (e : TimedEvent) : Prop :=
  (∀ w' ∈ w.step digest attachGuardMs e,
    (AttachInProgress w'.ue.node → ¬ AttachInProgress w.ue.node → w.ue.attachGuards = []) ∧
      (ResumeInProgress w'.ue.node → ¬ ResumeInProgress w.ue.node → w.ue.resumeGuards = [])) ∧
    match e with
    | .tick nowMs => nowMs.toNat < w.ue.node.nowMs.toNat + 2 ^ 31
    | .resumeGuard deadline => w.FallsBack deadline → ResumeInProgress w.ue.node
    | _ => True

instance (digest : KeyedDigest) (attachGuardMs : UInt32) (w : GuardWatch) (e : TimedEvent) :
    Decidable (GuardCondition digest attachGuardMs w e) := by
  unfold GuardCondition
  cases e <;> infer_instance

/-! ## Deadlines -/

/-- A deadline that is due has waited for its delay, if the delay is one the signed comparison
can hold. -/
theorem delay_le_of_due {now armed delay : UInt32} (hpast : armed ≤ now)
    (hdelay : delay.toNat ≤ 2 ^ 31) (hdue : 0 ≤ clockDiff now (armed + delay)) :
    delay.toNat ≤ now.toNat - armed.toNat := by
  rw [clockDiff_nonneg_iff, UInt32.toNat_sub, UInt32.toNat_add] at hdue
  rw [UInt32.le_iff_toNat_le] at hpast
  have hnow := now.toNat_lt
  have harmed := armed.toNat_lt
  omega

/-- The pending guards of a kind were all armed since the procedure in progress began. -/
structure Tracked (delay : UInt32) (since : Option UInt32) (now : UInt32)
    (deadlines : List UInt32) : Prop where
  past : ∀ s ∈ since, s ≤ now
  armed : ∀ d ∈ deadlines, ∃ x, d = x + delay ∧ x ≤ now ∧ ∀ s ∈ since, s ≤ x

namespace Tracked

variable {delay now : UInt32} {since : Option UInt32} {deadlines : List UInt32}

theorem later {now' : UInt32} (h : Tracked delay since now deadlines) (hnow : now ≤ now') :
    Tracked delay since now' deadlines where
  past s hs := UInt32.le_trans (h.past s hs) hnow
  armed d hd := by
    obtain ⟨x, hx, hpast, hsince⟩ := h.armed d hd
    exact ⟨x, hx, UInt32.le_trans hpast hnow, hsince⟩

/-- A guard that fired leaves the others as they were. -/
theorem subset {fewer : List UInt32} (h : Tracked delay since now deadlines)
    (hsub : fewer ⊆ deadlines) : Tracked delay since now fewer where
  past := h.past
  armed d hd := h.armed d (hsub hd)

/-- A call keeps the procedure, ends it, or begins one with no guard left from before; what it
arms is armed now. -/
theorem settle (h : Tracked delay since now deadlines) (running : Prop) [Decidable running]
    (begins : running → since = none → deadlines = []) (n : Nat) :
    Tracked delay (procedureSince since running now) now
      (deadlines ++ List.replicate n (now + delay)) := by
  have hfresh {kept : Option UInt32} (hkept : ∀ s ∈ kept, s ≤ now)
      (hold : ∀ d ∈ deadlines, ∃ x, d = x + delay ∧ x ≤ now ∧ ∀ s ∈ kept, s ≤ x) :
      Tracked delay kept now (deadlines ++ List.replicate n (now + delay)) := by
    refine ⟨hkept, fun d hd => ?_⟩
    rcases List.mem_append.mp hd with hd | hd
    · exact hold d hd
    · exact ⟨now, List.eq_of_mem_replicate hd, UInt32.le_refl now, hkept⟩
  unfold procedureSince
  split
  · rename_i hrunning
    cases since with
    | some s =>
      exact hfresh h.past h.armed
    | none =>
      have hnone := begins hrunning rfl
      refine hfresh ?_ ?_
      · intro s hs
        obtain rfl := Option.some.inj hs
        exact UInt32.le_refl _
      · intro d hd
        rw [hnone] at hd
        cases hd
  · refine hfresh ?_ ?_
    · intro s hs
      cases hs
    · intro d hd
      obtain ⟨x, hx, hpast, -⟩ := h.armed d hd
      exact ⟨x, hx, hpast, fun s hs => by cases hs⟩

/-- A due guard belongs to the procedure in progress. -/
theorem owned (h : Tracked delay since now deadlines) (hdelay : delay.toNat ≤ 2 ^ 31)
    {deadline s : UInt32} (hmem : deadline ∈ deadlines) (hdue : 0 ≤ clockDiff now deadline)
    (hs : s ∈ since) : delay.toNat ≤ now.toNat - s.toNat := by
  obtain ⟨x, rfl, hpast, hsince⟩ := h.armed deadline hmem
  have hwaited := delay_le_of_due hpast hdelay hdue
  have hstart := UInt32.le_iff_toNat_le.mp (hsince s hs)
  omega

end Tracked

/-! ## Runs -/

namespace GuardWatch

variable {digest : KeyedDigest} {attachGuardMs : UInt32} {w w' : GuardWatch} {e : TimedEvent}

structure Sound (attachGuardMs : UInt32) (w : GuardWatch) : Prop where
  anchored : w.ue.lastNow = w.ue.node.nowMs
  attaching : w.attachSince = none → ¬ AttachInProgress w.ue.node
  resuming : w.resumeSince = none → ¬ ResumeInProgress w.ue.node
  resumed : ResumeInProgress w.ue.node → ∃ since, w.resumeSince = some since
  attach : Tracked attachGuardMs w.attachSince w.ue.node.nowMs w.ue.attachGuards
  resume : Tracked (4 * attachGuardMs) w.resumeSince w.ue.node.nowMs w.ue.resumeGuards

theorem procedureSince_eq_none {before : Option UInt32} {running : Prop} [Decidable running]
    {now : UInt32} : procedureSince before running now = none ↔ ¬ running := by
  unfold procedureSince
  split <;> simp_all

/-- What a call of the node keeps: no guard is added but by the call, and the clock stands. -/
theorem Sound.settle (h : Sound attachGuardMs w) {t : TimedUe} {u : UeNode}
    (hanchor : t.lastNow = w.ue.lastNow) (hattaches : t.attachGuards ⊆ w.ue.attachGuards)
    (hresumes : t.resumeGuards ⊆ w.ue.resumeGuards) (hclock : u.nowMs = w.ue.node.nowMs)
    (hattach : AttachInProgress u → ¬ AttachInProgress w.ue.node → w.ue.attachGuards = [])
    (hresume : ResumeInProgress u → ¬ ResumeInProgress w.ue.node → w.ue.resumeGuards = []) :
    Sound attachGuardMs (w.after (t.settle attachGuardMs u)) := by
  have hnow : t.lastNow = u.nowMs := by rw [hanchor, h.anchored, hclock]
  constructor
  · exact hnow
  · exact procedureSince_eq_none.mp
  · exact procedureSince_eq_none.mp
  · intro hrunning
    exact Option.ne_none_iff_exists'.mp fun hnone => procedureSince_eq_none.mp hnone hrunning
  · have htracked := (hclock ▸ h.attach).subset hattaches
    have hsettled := htracked.settle (AttachInProgress u)
      (fun hrunning hnone => by
        have hempty := hattach hrunning (h.attaching hnone)
        exact List.subset_nil.mp (hempty ▸ hattaches))
      (u.timers.count .attachGuard - t.attachGuards.length)
    show Tracked attachGuardMs _ u.nowMs
      (t.attachGuards ++ List.replicate _ (t.lastNow + attachGuardMs))
    rw [hnow]
    exact hsettled
  · have htracked := (hclock ▸ h.resume).subset hresumes
    have hsettled := htracked.settle (ResumeInProgress u)
      (fun hrunning hnone => by
        have hempty := hresume hrunning (h.resuming hnone)
        exact List.subset_nil.mp (hempty ▸ hresumes))
      (u.timers.count .resumeGuard - t.resumeGuards.length)
    show Tracked (4 * attachGuardMs) _ u.nowMs
      (t.resumeGuards ++ List.replicate _ (t.lastNow + 4 * attachGuardMs))
    rw [hnow]
    exact hsettled

theorem le_max_clock (nowMs now : UInt32) : now ≤ max nowMs now := by
  have hmax : max nowMs now = if nowMs ≤ now then now else nowMs := rfl
  rw [hmax]
  split
  · exact UInt32.le_refl now
  · rename_i hover
    exact UInt32.le_of_lt (UInt32.not_le.mp hover)

/-- A clock that goes on by less than half a turn takes the anchor with it. -/
theorem anchor_clock {nowMs now : UInt32} (hleap : nowMs.toNat < now.toNat + 2 ^ 31) :
    (if 0 < clockDiff (max nowMs now) now then max nowMs now else now) = max nowMs now := by
  have hmax : max nowMs now = if nowMs ≤ now then now else nowMs := rfl
  split
  · rfl
  · rename_i hstands
    rw [hmax] at hstands ⊢
    split
    · rfl
    · rename_i hover
      rw [if_neg hover, clockDiff_pos_iff, UInt32.toNat_sub] at hstands
      rw [UInt32.le_iff_toNat_le] at hover
      have hbound := nowMs.toNat_lt
      omega

/-- The clock of the node and the anchor of `TimerList` go together while no tick leaps. -/
theorem Sound.clock (h : Sound attachGuardMs w) {nowMs : UInt32}
    (hleap : nowMs.toNat < w.ue.node.nowMs.toNat + 2 ^ 31) :
    Sound attachGuardMs (w.after (w.ue.clock nowMs)) := by
  have hlater := le_max_clock nowMs w.ue.node.nowMs
  constructor
  · show (if 0 < clockDiff (max nowMs w.ue.node.nowMs) w.ue.lastNow then
      max nowMs w.ue.node.nowMs else w.ue.lastNow) = max nowMs w.ue.node.nowMs
    rw [h.anchored]
    exact anchor_clock hleap
  · exact procedureSince_eq_none.mp
  · exact procedureSince_eq_none.mp
  · intro hrunning
    exact Option.ne_none_iff_exists'.mp fun hnone => procedureSince_eq_none.mp hnone hrunning
  · have hkept := (h.attach.later hlater).settle (AttachInProgress w.ue.node)
      (fun hrunning hnone => absurd hrunning (h.attaching hnone)) 0
    rw [List.replicate_zero, List.append_nil] at hkept
    exact hkept
  · have hkept := (h.resume.later hlater).settle (ResumeInProgress w.ue.node)
      (fun hrunning hnone => absurd hrunning (h.resuming hnone)) 0
    rw [List.replicate_zero, List.append_nil] at hkept
    exact hkept

/-- The node of a call outside its clock. -/
theorem Sound.call (h : Sound attachGuardMs w) {e : UeEvent} {ue : TimedUe}
    (hcall : w.ue.call attachGuardMs digest e = some ue)
    (hattach : AttachInProgress ue.node → ¬ AttachInProgress w.ue.node → w.ue.attachGuards = [])
    (hresume : ResumeInProgress ue.node → ¬ ResumeInProgress w.ue.node → w.ue.resumeGuards = []) :
    Sound attachGuardMs (w.after ue) := by
  obtain ⟨hclock, ⟨f, r, -, -, -, hreceive, rfl⟩ | hsettled⟩ := TimedUe.call_cases hcall
  · exact h.settle rfl (List.Subset.refl _) (List.Subset.refl _)
      (UeNode.receiveData_nowMs hreceive) hattach hresume
  · obtain ⟨u, hu, rfl⟩ := Option.map_eq_some_iff.mp hsettled
    exact h.settle rfl (List.Subset.refl _) (List.Subset.refl _)
      (UeNode.step_nowMs digest hu hclock) hattach hresume

/-- Step lemma: under the condition each pending guard is of the procedure that runs. -/
theorem step_sound (h : Sound attachGuardMs w) (cond : GuardCondition digest attachGuardMs w e)
    (hstep : w.step digest attachGuardMs e = some w') : Sound attachGuardMs w' := by
  obtain ⟨hbegin, hevent⟩ := cond
  have hbegins := hbegin w' hstep
  obtain ⟨ue, hue, rfl⟩ := Option.map_eq_some_iff.mp hstep
  cases e with
  | sdu =>
    simp only [TimedUe.step] at hue
    split at hue
    · cases hue
    · obtain rfl := Option.some.inj hue
      refine h.settle rfl (List.Subset.refl _) (List.Subset.refl _)
        (UeNode.handleSdu_nowMs digest _ _ _) ?_ ?_
      · exact hbegins.1
      · exact hbegins.2
  | call e =>
    simp only [TimedUe.step] at hue
    split at hue
    · exact h.call hue hbegins.1 hbegins.2
    · cases hue
  | tick nowMs =>
    simp only [TimedUe.step] at hue
    split at hue
    · obtain rfl := Option.some.inj hue
      exact h.clock hevent
    · cases hue
  | attachGuard deadline =>
    simp only [TimedUe.step] at hue
    split at hue
    · obtain rfl := Option.some.inj hue
      exact h.settle rfl List.erase_subset (List.Subset.refl _)
        (UeNode.fire_nowMs digest _ _) hbegins.1 hbegins.2
    · cases hue
  | resumeGuard deadline =>
    simp only [TimedUe.step] at hue
    split at hue
    · obtain rfl := Option.some.inj hue
      exact h.settle rfl (List.Subset.refl _) List.erase_subset
        (UeNode.fire_nowMs digest _ _) hbegins.1 hbegins.2
    · cases hue

theorem sound_make (config : UeNodeConfig) : Sound attachGuardMs (GuardWatch.make config) where
  anchored := rfl
  attaching := by
    rintro - ⟨hwanted, -⟩
    cases hwanted
  resuming := by
    rintro - ⟨hconnecting, -⟩
    cases hconnecting
  resumed := by
    rintro ⟨hconnecting, -⟩
    cases hconnecting
  attach := ⟨fun _ hs => (by cases hs), fun _ hd => (by cases hd)⟩
  resume := ⟨fun _ hs => (by cases hs), fun _ hd => (by cases hd)⟩

/-- Guards armed since their procedure began end it no earlier than they should. -/
theorem owned_of_sound (hsmall : 4 * attachGuardMs.toNat ≤ 2 ^ 31) (h : Sound attachGuardMs w)
    (cond : GuardCondition digest attachGuardMs w e) : GuardOwned attachGuardMs w e := by
  unfold GuardOwned
  split
  · intro haborts since hsince
    exact h.attach.owned (by omega) haborts.2.1 haborts.2.2.1 hsince
  · rename_i deadline
    intro hfalls
    obtain ⟨since, hsince⟩ := h.resumed (cond.2 hfalls)
    have hfour : (4 * attachGuardMs).toNat = 4 * attachGuardMs.toNat := by
      have hliteral : (4 : UInt32).toNat = 4 := rfl
      rw [UInt32.toNat_mul, hliteral, Nat.mod_eq_of_lt (by omega)]
    have howned := h.resume.owned (by omega) hfalls.2.1 hfalls.2.2.1 hsince
    exact ⟨since, hsince, hfour ▸ howned⟩
  · trivial

end GuardWatch

namespace GuardTimers
open UeRun

/-- In every run in which no attach and no resume begins while an old guard of its kind is
pending, a resume guard falls back only out of a resume, and no tick leaps half of the clock:
an attach that its guard aborts has run for `attach_guard_ms`, and a resume that its guard gives
up has run four times as long. -/
theorem guards_end_their_own (digest : KeyedDigest) (config : UeNodeConfig)
    (attachGuardMs : UInt32) (small : 4 * attachGuardMs.toNat ≤ 2 ^ 31) {events : List TimedEvent}
    (meets : StepsMeet (GuardWatch.step digest attachGuardMs)
      (GuardCondition digest attachGuardMs) (GuardWatch.make config) events) :
    StepsMeet (GuardWatch.step digest attachGuardMs) (GuardOwned attachGuardMs)
      (GuardWatch.make config) events :=
  StepsMeet.of_invariant (GuardWatch.Sound attachGuardMs)
    (fun _ _ _ => GuardWatch.step_sound) (fun _ _ => GuardWatch.owned_of_sound small)
    (GuardWatch.sound_make config) meets

/-- Calls of the node; each data frame of these runs holds one SDU. -/
def timed (events : List UeEvent) : List TimedEvent :=
  events.flatMap fun e =>
    match e with
    | .air f => if f.type = .data then [.call e, .sdu] else [.call e]
    | _ => [.call e]

/-- Suspended by the base station, then awake again. -/
def suspendAndWake (crnti : Nat) : List UeEvent :=
  [rrcDownlink crnti .release (putU16 crnti ++ [1, 7, 0, 1, 0]), .wake]

/-- An attach succeeds; the resume after it hears nothing and is given up by its guard, and the
attach that follows by its own. -/
def ownGuardRun : List TimedEvent :=
  timed attachRun ++ [.tick 3000, .attachGuard 3000] ++ timed (suspendAndWake 1) ++
    [.tick 15000, .resumeGuard 15000, .tick 18000, .attachGuard 18000]

theorem guards_end_their_own_run :
    (∃ w, runFrom (GuardWatch.step nullDigest 3000) (GuardWatch.make subscriber) ownGuardRun =
        some w ∧ w.ue.node.attachRequested = false) ∧
      StepsMeet (GuardWatch.step nullDigest 3000) (GuardOwned 3000) (GuardWatch.make subscriber)
        ownGuardRun := by
  have hrun : ∃ w ∈ runFrom (GuardWatch.step nullDigest 3000) (GuardWatch.make subscriber)
      ownGuardRun, w.ue.node.attachRequested = false := by
    decide
  exact ⟨hrun, guards_end_their_own nullDigest subscriber 3000 (by decide) (by decide)⟩

/-- An attach begins at 0 and succeeds, the UE detaches, and attaches again at 2900: the guard of
the first attach aborts the second at 3000. -/
theorem attach_guard_aborts_next_attach :
    ∃ w, runFrom (GuardWatch.step nullDigest 3000) (GuardWatch.make subscriber)
        (timed (attachRun ++ [.detach]) ++ .tick 2900 :: timed [.attach] ++ [.tick 3000]) = some w ∧
      w.Aborts 3000 ∧ (∃ since ∈ w.attachSince, w.elapsed since = 100) ∧
      ¬ GuardOwned 3000 w (.attachGuard 3000) := by
  have hrun : ∃ w ∈ runFrom (GuardWatch.step nullDigest 3000) (GuardWatch.make subscriber)
      (timed (attachRun ++ [.detach]) ++ .tick 2900 :: timed [.attach] ++ [.tick 3000]),
      w.Aborts 3000 ∧ ∃ since ∈ w.attachSince, w.elapsed since = 100 := by
    decide
  obtain ⟨w, hw, haborts, since, hsince, helapsed⟩ := hrun
  refine ⟨w, hw, haborts, ⟨since, hsince, helapsed⟩, fun howned => ?_⟩
  have hlong : (3000 : UInt32).toNat ≤ w.elapsed since := howned haborts since hsince
  rw [helapsed] at hlong
  exact absurd hlong (by decide)

end GuardTimers

end AetherStack.Guarantees
