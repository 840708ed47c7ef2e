import AetherStack.Lib.Run
import AetherStack.Source.Qos

/-!
# The order of service of a bearer set

A set of bearers is used by pushes to its five queues and by calls of `pop_next` while it is
not empty. The run keeps what was pushed, and for each pop the set before and after it. The
queue a pop took from is read off these two: it is the one that changed.
-/
namespace AetherStack.Guarantees
open Source Lib

inductive BearerQueue where
  | ctrl
  | data (q : Qci)
  deriving DecidableEq, Repr

namespace BearerQueue

def all : List BearerQueue := [.ctrl, .data .sig, .data .voice, .data .video, .data .bestEffort]

/-- `ctrl()` or `queue_of(qci)`. -/
def content (s : BearerSet) : BearerQueue → List AppPdu
  | .ctrl => s.ctrl
  | .data q => (s.bearer q).queue

/-- `push_back`. -/
def push (s : BearerSet) (p : AppPdu) : BearerQueue → BearerSet
  | .ctrl => { s with ctrl := s.ctrl ++ [p] }
  | .data q => s.setBearer q { s.bearer q with queue := (s.bearer q).queue ++ [p] }

theorem content_push (s : BearerSet) (p : AppPdu) (k k' : BearerQueue) :
    content (push s p k) k' = if k' = k then content s k' ++ [p] else content s k' := by
  cases k with
  | ctrl => cases k' <;> simp [push, content]
  | data q =>
    cases k' with
    | ctrl => simp [push, content, BearerSet.setBearer]
    | data q' =>
      by_cases hq : q' = q
      · subst hq
        simp [push, content]
      · simp [push, content, hq, BearerSet.setBearer_of_ne s _ hq]

theorem sinceBe_push (s : BearerSet) (p : AppPdu) (k : BearerQueue) : (push s p k).sinceBe = s.sinceBe := by
  cases k <;> rfl

end BearerQueue

/-- The position of a class in the loop of `pick_queue`. -/
def priority : Qci → Nat
  | .sig => 0
  | .voice => 1
  | .video => 2
  | .bestEffort => 3

/-- A call of `pop_next`. -/
structure BearerPop where
  before : BearerSet
  pdu : AppPdu
  after : BearerSet

namespace BearerPop

def queue (x : BearerPop) : BearerQueue :=
  (BearerQueue.all.find? fun k => k.content x.after ≠ k.content x.before).getD .ctrl

/-- The pop was served by a bearer. -/
def isData (x : BearerPop) : Bool := x.queue ≠ .ctrl

/-- By a signalling, voice or video bearer. -/
def isHigher (x : BearerPop) : Bool := x.queue ≠ .ctrl ∧ x.queue ≠ .data .bestEffort

/-- Best effort was served ahead of a waiting PDU of another class. -/
def Overtakes (x : BearerPop) : Prop :=
  x.queue = .data .bestEffort ∧ ∃ q ≠ .bestEffort, (x.before.bearer q).queue ≠ []

/-- Another class was served while best effort had a PDU. -/
def Starves (x : BearerPop) : Prop :=
  x.isHigher = true ∧ (x.before.bearer .bestEffort).queue ≠ []

end BearerPop

inductive BearerEvent where
  | push (k : BearerQueue) (p : AppPdu)
  | pop
  deriving DecidableEq, Repr

structure BearerRun where
  set : BearerSet := .make
  pushed : List (BearerQueue × AppPdu) := []
  pops : List BearerPop := []

namespace BearerRun

def step (r : BearerRun) : BearerEvent → Option BearerRun
  | .push k p => some { r with set := k.push r.set p, pushed := r.pushed ++ [(k, p)] }
  | .pop =>
    if r.set.isEmpty then none
    else r.set.popNext.map fun out => { r with set := out.2, pops := r.pops ++ [⟨r.set, out.1, out.2⟩] }

def pushedTo (r : BearerRun) (k : BearerQueue) : List AppPdu := (r.pushed.filter (·.1 = k)).map (·.2)

def poppedFrom (r : BearerRun) (k : BearerQueue) : List AppPdu := (r.pops.filter (·.queue = k)).map (·.pdu)

/-- What the users of the set rely on. -/
structure Served (r : BearerRun) : Prop where
  /-- A set that is not empty has a PDU to pop. -/
  ready : r.set.isEmpty = false → ∃ p s', r.set.popNext = some (p, s')
  /-- A pop takes the first PDU of one queue. -/
  head : ∀ x ∈ r.pops, x.queue.content x.before = x.pdu :: x.queue.content x.after ∧
    ∀ k ≠ x.queue, k.content x.after = k.content x.before
  fifo : ∀ k, r.pushedTo k = r.poppedFrom k ++ k.content r.set
  ctrlFirst : ∀ x ∈ r.pops, x.isData = true → x.before.ctrl = []
  /-- Of four consecutive pops served by bearers, with best effort waiting, one is best effort. -/
  share : ∀ pre w post, r.pops.filter (·.isData) = pre ++ w ++ post → w.length = 4 →
    (∀ x ∈ w, (x.before.bearer .bestEffort).queue ≠ []) → ∃ x ∈ w, x.queue = .data .bestEffort
  /-- Three pops of other classes between two that overtake, and before the first. -/
  overtaking : ∀ pre mid x post, r.pops = pre ++ mid ++ x :: post → x.Overtakes →
    (∀ last ∈ pre.getLast?, last.Overtakes) → 3 ≤ mid.countP (·.isHigher)
  strict : ∀ x ∈ r.pops, ∀ q q', x.queue = .data q → q ≠ .bestEffort → priority q' < priority q →
    (x.before.bearer q').queue = []

end BearerRun

namespace BearerScheduler

/-! ### One pop -/

/-- The first class that fits, in the order of the priorities. -/
theorem find_first (P : Qci → Bool) {q : Qci}
    (h : [Qci.sig, .voice, .video, .bestEffort].find? P = some q) :
    P q = true ∧ ∀ q', priority q' < priority q → P q' = false := by
  obtain ⟨hq, front, rest, hsplit, hfront⟩ := List.find?_eq_some_iff_append.mp h
  refine ⟨hq, fun q' hlt => ?_⟩
  have hmem : q' ∈ front := by
    match front with
    | [] => cases hsplit; cases q' <;> cases hlt
    | [_] => cases hsplit; cases q' <;> simp_all [priority]
    | [_, _] => cases hsplit; cases q' <;> simp_all [priority]
    | [_, _, _] => cases hsplit; cases q' <;> simp_all [priority]
    | _ :: _ :: _ :: _ :: _ => simp at hsplit
  simpa using hfront q' hmem

/-- Best effort is picked when three others went before it, else the highest class that waits. -/
theorem pickQueue_cases {s : BearerSet} {q : Qci} {since : UInt32} (h : s.pickQueue = some (q, since)) :
    (q = .bestEffort ∧ s.sinceBe ≥ 3 ∧ since = 0) ∨
      (((s.bearer .bestEffort).queue = [] ∨ s.sinceBe < 3) ∧
        (∀ q', priority q' < priority q → (s.bearer q').queue = []) ∧
        since = if q ≠ .bestEffort then s.sinceBe + 1 else s.sinceBe) := by
  unfold BearerSet.pickQueue at h
  split at h
  · rename_i hshare
    simp only [Option.some.injEq, Prod.mk.injEq] at h
    exact .inl ⟨h.1.symm, hshare.2, h.2.symm⟩
  · rename_i hno
    split at h
    · cases h
    · rename_i q' hfind
      simp only [Option.some.injEq, Prod.mk.injEq] at h
      obtain ⟨rfl, rfl⟩ := h
      have hfirst := (find_first _ hfind).2
      refine .inr ⟨?_, fun q hq => by simpa using hfirst q hq, rfl⟩
      by_cases hempty : (s.bearer .bestEffort).queue = []
      · exact .inl hempty
      · exact .inr (UInt32.not_le.mp fun hle => hno ⟨hempty, hle⟩)

/-- What a pop does: from the control queue, or with that queue empty from the picked one. -/
inductive Taken (s : BearerSet) (p : AppPdu) (s' : BearerSet) : BearerQueue → Prop
  | ctrl (head : s.ctrl = p :: s'.ctrl) (rest : ∀ q, s'.bearer q = s.bearer q)
      (since : s'.sinceBe = s.sinceBe) : Taken s p s' .ctrl
  | data (q : Qci) (idle : s.ctrl = []) (idle' : s'.ctrl = [])
      (head : (s.bearer q).queue = p :: (s'.bearer q).queue)
      (rest : ∀ q' ≠ q, s'.bearer q' = s.bearer q') (pick : s.pickQueue = some (q, s'.sinceBe)) :
      Taken s p s' (.data q)

/-- What is popped was taken from one of the queues. -/
theorem popNext_taken {s s' : BearerSet} {p : AppPdu} (h : s.popNext = some (p, s')) :
    ∃ k, Taken s p s' k := by
  unfold BearerSet.popNext at h
  split at h
  · rename_i rest hctrl
    simp only [Option.some.injEq, Prod.mk.injEq] at h
    obtain ⟨rfl, rfl⟩ := h
    exact ⟨.ctrl, .ctrl hctrl (fun _ => rfl) rfl⟩
  · rename_i hctrl
    split at h
    · cases h
    · rename_i q since hpick
      split at h
      · cases h
      · rename_i head rest hqueue
        simp only [Option.some.injEq, Prod.mk.injEq] at h
        obtain ⟨rfl, rfl⟩ := h
        have hself := BearerSet.setBearer_self s q { s.bearer q with queue := rest }
        refine ⟨.data q, .data q hctrl hctrl ?_ (fun q' hq' => ?_) hpick⟩
        · rw [hqueue]
          exact congrArg _ (congrArg Bearer.queue hself).symm
        · exact BearerSet.setBearer_of_ne s _ hq'

/-- It was the oldest there, and the other queues are untouched. -/
theorem Taken.head {s s' : BearerSet} {p : AppPdu} {k : BearerQueue} (h : Taken s p s' k) :
    k.content s = p :: k.content s' ∧ ∀ k' ≠ k, k'.content s' = k'.content s := by
  cases h with
  | ctrl head rest since =>
    refine ⟨head, fun k' hk' => ?_⟩
    cases k' with
    | ctrl => exact absurd rfl hk'
    | data q => exact congrArg Bearer.queue (rest q)
  | data q idle idle' head rest pick =>
    refine ⟨head, fun k' hk' => ?_⟩
    cases k' with
    | ctrl => exact idle'.trans idle.symm
    | data q' => exact congrArg Bearer.queue (rest q' fun h => hk' (congrArg _ h))

/-- The queue that changed is the one the PDU came from. -/
theorem Taken.queue_eq {s s' : BearerSet} {p : AppPdu} {k : BearerQueue} (h : Taken s p s' k) :
    BearerPop.queue ⟨s, p, s'⟩ = k := by
  obtain ⟨hhead, hrest⟩ := h.head
  have hchanged : ∀ k', k'.content s' ≠ k'.content s ↔ k' = k := by
    intro k'
    constructor
    · intro hne
      by_contra hk'
      exact hne (hrest k' hk')
    · rintro rfl hsame
      have hlen := congrArg List.length (hhead.symm.trans hsame.symm)
      simp at hlen
  have hfind : BearerQueue.all.find? (fun k' => decide (k' = k)) = some k := by
    cases k with
    | ctrl => rfl
    | data q => cases q <;> rfl
  unfold BearerPop.queue
  simp only [hchanged, hfind, Option.getD_some]

/-! ### The counter of `pick_queue` -/

section Counter

variable {s s' : BearerSet} {p : AppPdu} {k : BearerQueue}

theorem Taken.since_ctrl (h : Taken s p s' k) (hctrl : BearerPop.isData ⟨s, p, s'⟩ = false) :
    s'.sinceBe = s.sinceBe := by
  have hqueue := h.queue_eq
  cases h with
  | ctrl head rest since => exact since
  | data q => simp [BearerPop.isData, hqueue] at hctrl

/-- Each data PDU that goes before waiting best effort is counted. -/
theorem Taken.since_starves (h : Taken s p s' k) (hstarves : BearerPop.Starves ⟨s, p, s'⟩) :
    s.sinceBe.toNat < 3 ∧ s'.sinceBe.toNat = s.sinceBe.toNat + 1 := by
  obtain ⟨hhigher, hwaits⟩ := hstarves
  have hqueue := h.queue_eq
  simp only [BearerPop.isHigher, hqueue, decide_eq_true_eq] at hhigher
  cases h with
  | ctrl => exact absurd rfl hhigher.1
  | data q idle idle' head rest pick =>
    have hq : q ≠ .bestEffort := fun h => hhigher.2 (congrArg _ h)
    rcases pickQueue_cases pick with ⟨hbe, -⟩ | ⟨hopen, -, hsince⟩
    · exact absurd hbe hq
    · rw [if_pos hq] at hsince
      have hlt : s.sinceBe.toNat < 3 := hopen.resolve_left hwaits
      refine ⟨hlt, ?_⟩
      rw [hsince, UInt32.toNat_add]
      exact Nat.mod_eq_of_lt (show s.sinceBe.toNat + 1 < 2 ^ 32 by omega)

/-- Overtaking starts the count again. -/
theorem Taken.since_overtakes (h : Taken s p s' k) (hover : BearerPop.Overtakes ⟨s, p, s'⟩) :
    3 ≤ s.sinceBe.toNat ∧ s'.sinceBe = 0 := by
  obtain ⟨hbe, q', hq', hwaits⟩ := hover
  rw [h.queue_eq] at hbe
  cases h with
  | ctrl => cases hbe
  | data q idle idle' head rest pick =>
    obtain rfl : q = .bestEffort := BearerQueue.data.inj hbe
    rcases pickQueue_cases pick with ⟨-, hthree, hsince⟩ | ⟨-, hstrict, -⟩
    · exact ⟨hthree, hsince⟩
    · refine absurd (hstrict q' ?_) hwaits
      cases q' <;> first | decide | exact absurd rfl hq'

theorem Taken.since_le (h : Taken s p s' k) :
    s'.sinceBe.toNat ≤ s.sinceBe.toNat + if BearerPop.isHigher ⟨s, p, s'⟩ = true then 1 else 0 := by
  have hqueue := h.queue_eq
  cases h with
  | ctrl head rest since =>
    rw [since]
    exact Nat.le_add_right _ _
  | data q idle idle' head rest pick =>
    rcases pickQueue_cases pick with ⟨-, -, hsince⟩ | ⟨-, -, hsince⟩
    · rw [hsince]
      exact Nat.zero_le _
    · by_cases hq : q = .bestEffort
      · rw [hsince, if_neg (not_not.mpr hq)]
        exact Nat.le_add_right _ _
      · have hhigher : BearerPop.isHigher ⟨s, p, s'⟩ = true := by simp [BearerPop.isHigher, hqueue, hq]
        rw [hsince, if_pos hq, if_pos hhigher, UInt32.toNat_add]
        exact Nat.mod_le _ _

end Counter

/-! ### The invariant -/

theorem snoc_split {α : Type*} {xs front back : List α} {a : α} (h : xs ++ [a] = front ++ back) :
    (back = [] ∧ front = xs ++ [a]) ∨ ∃ back', back = back' ++ [a] ∧ xs = front ++ back' := by
  rcases back.eq_nil_or_concat' with rfl | ⟨back', b, rfl⟩
  · exact .inl ⟨rfl, by rw [h, List.append_nil]⟩
  · rw [← List.append_assoc] at h
    obtain ⟨rfl, hb⟩ := List.append_inj' h rfl
    exact .inr ⟨back', by rw [hb], rfl⟩

/-- The queues balance, and the counter is between two counts of the pops. -/
structure Account (r : BearerRun) : Prop where
  taken : ∀ x ∈ r.pops, ∃ k, Taken x.before x.pdu x.after k
  fifo : ∀ k, r.pushedTo k = r.poppedFrom k ++ k.content r.set
  starved : ∀ pre w post, r.pops.filter (·.isData) = pre ++ w ++ post → (∀ x ∈ w, x.Starves) → w.length ≤ 3
  streak : ∀ pre w, r.pops.filter (·.isData) = pre ++ w → (∀ x ∈ w, x.Starves) →
    w.length ≤ r.set.sinceBe.toNat
  overtaking : ∀ pre mid x post, r.pops = pre ++ mid ++ x :: post → x.Overtakes →
    (∀ last ∈ pre.getLast?, last.Overtakes) → 3 ≤ mid.countP (·.isHigher)
  counted : ∀ pre mid, r.pops = pre ++ mid → (∀ last ∈ pre.getLast?, last.Overtakes) →
    r.set.sinceBe.toNat ≤ mid.countP (·.isHigher)

theorem account_start : Account {} where
  taken := by simp
  fifo := by
    intro k
    cases k <;> rfl
  starved := by
    intro pre w post h _
    simp [eq_comm] at h
    simp [h]
  streak := by
    intro pre w h _
    simp [eq_comm] at h
    simp [h]
  overtaking := by
    intro pre mid x post h
    simp at h
  counted := by
    intro pre mid _ _
    exact Nat.zero_le _

theorem account_push {r : BearerRun} (h : Account r) (k : BearerQueue) (p : AppPdu) :
    Account { r with set := k.push r.set p, pushed := r.pushed ++ [(k, p)] } where
  taken := h.taken
  fifo := by
    intro k'
    have hold := h.fifo k'
    simp only [BearerRun.pushedTo, BearerRun.poppedFrom, BearerQueue.content_push] at hold ⊢
    rw [List.filter_append, List.map_append, hold]
    by_cases hk : k' = k
    · simp [hk]
    · simp [hk, Ne.symm hk]
  starved := h.starved
  streak := by
    rw [BearerQueue.sinceBe_push]
    exact h.streak
  overtaking := h.overtaking
  counted := by
    rw [BearerQueue.sinceBe_push]
    exact h.counted

theorem account_pop {r : BearerRun} (h : Account r) {p : AppPdu} {s' : BearerSet} {k : BearerQueue}
    (htaken : Taken r.set p s' k) : Account { r with set := s', pops := r.pops ++ [⟨r.set, p, s'⟩] } where
  taken := by
    intro x hx
    rcases List.mem_append.mp hx with hold | hnew
    · exact h.taken x hold
    · obtain rfl := List.mem_singleton.mp hnew
      exact ⟨k, htaken⟩
  fifo := by
    intro k'
    have hold := h.fifo k'
    obtain ⟨hhead, hrest⟩ := htaken.head
    simp only [BearerRun.pushedTo, BearerRun.poppedFrom] at hold ⊢
    rw [hold, List.filter_append, List.map_append, List.append_assoc]
    by_cases hk : k' = k
    · subst hk
      simp [htaken.queue_eq, hhead]
    · simp [htaken.queue_eq, Ne.symm hk, hrest k' hk]
  starved := by
    intro pre w post hsplit hstarves
    rw [List.filter_append] at hsplit
    cases hdata : BearerPop.isData ⟨r.set, p, s'⟩ with
    | false => exact h.starved pre w post (by simpa [hdata] using hsplit) hstarves
    | true =>
      rw [List.filter_cons_of_pos hdata, List.filter_nil] at hsplit
      rcases snoc_split hsplit with ⟨rfl, hall⟩ | ⟨post, rfl, hold⟩
      · rcases snoc_split hall.symm with ⟨rfl, -⟩ | ⟨w, rfl, hold⟩
        · exact Nat.zero_le _
        · obtain ⟨hw, hx⟩ := List.forall_mem_append.mp hstarves
          have hlen := h.streak pre w hold hw
          have hsince := htaken.since_starves (hx _ List.mem_cons_self)
          rw [List.length_append, List.length_singleton]
          omega
      · exact h.starved pre w post hold hstarves
  streak := by
    intro pre w hsplit hstarves
    rw [List.filter_append] at hsplit
    cases hdata : BearerPop.isData ⟨r.set, p, s'⟩ with
    | false =>
      show w.length ≤ s'.sinceBe.toNat
      rw [htaken.since_ctrl hdata]
      exact h.streak pre w (by simpa [hdata] using hsplit) hstarves
    | true =>
      rw [List.filter_cons_of_pos hdata, List.filter_nil] at hsplit
      rcases snoc_split hsplit with ⟨rfl, -⟩ | ⟨w, rfl, hold⟩
      · exact Nat.zero_le _
      · obtain ⟨hw, hx⟩ := List.forall_mem_append.mp hstarves
        have hlen := h.streak pre w hold hw
        have hsince := (htaken.since_starves (hx _ List.mem_cons_self)).2
        rw [List.length_append, List.length_singleton]
        show w.length + 1 ≤ s'.sinceBe.toNat
        omega
  overtaking := by
    intro pre mid x post hsplit hover hpre
    rcases snoc_split hsplit with ⟨hnil, -⟩ | ⟨rest, hrest, hold⟩
    · cases hnil
    · cases rest with
      | nil =>
        obtain ⟨rfl, -⟩ := List.cons_eq_cons.mp hrest
        have hcount := h.counted pre mid (by simpa using hold) hpre
        have hthree := (htaken.since_overtakes hover).1
        omega
      | cons y rest =>
        obtain ⟨rfl, -⟩ := List.cons_eq_cons.mp hrest
        exact h.overtaking pre mid x rest hold hover hpre
  counted := by
    intro pre mid hsplit hpre
    rcases snoc_split hsplit with ⟨rfl, hall⟩ | ⟨mid, rfl, hold⟩
    · have hlast := hpre ⟨r.set, p, s'⟩ (by rw [hall]; simp)
      show s'.sinceBe.toNat ≤ _
      rw [(htaken.since_overtakes hlast).2]
      exact Nat.zero_le _
    · have hcount := h.counted pre mid hold hpre
      have hsince := htaken.since_le
      rw [List.countP_append, List.countP_singleton]
      show s'.sinceBe.toNat ≤ _
      omega

/-- Step lemma: the account of pushes and pops is kept. -/
theorem account_step {r r' : BearerRun} {e : BearerEvent} (h : Account r) (hstep : r.step e = some r') :
    Account r' := by
  cases e with
  | push k p =>
    obtain rfl := Option.some.inj hstep
    exact account_push h k p
  | pop =>
    simp only [BearerRun.step] at hstep
    split at hstep
    · cases hstep
    · obtain ⟨⟨p, s'⟩, hpop, rfl⟩ := Option.map_eq_some_iff.mp hstep
      obtain ⟨k, htaken⟩ := popNext_taken hpop
      exact account_pop h htaken

end BearerScheduler

open BearerScheduler

/-- For every order of pushes and pops from a fresh set. -/
theorem bearers_served {es : List BearerEvent} {r : BearerRun}
    (run : runFrom BearerRun.step {} es = some r) : r.Served := by
  have h : Account r := runFrom_invariant Account (fun _ _ _ => account_step) account_start run
  refine ⟨fun hsome => ?_, fun x hx => ?_, h.fifo, fun x hx hdata => ?_, fun pre w post hsplit hlen hwaits => ?_,
    h.overtaking, fun x hx q q' hqueue hq hlt => ?_⟩
  · cases hpop : r.set.popNext with
    | some out => exact ⟨out.1, out.2, rfl⟩
    | none =>
      have hqueues := BearerSet.popNext_none hpop
      have hctrl : r.set.ctrl = [] := by
        cases hctrl : r.set.ctrl with
        | nil => rfl
        | cons p rest => simp [BearerSet.popNext, hctrl] at hpop
      simp [BearerSet.isEmpty, hctrl, hqueues] at hsome
  · obtain ⟨k, htaken⟩ := h.taken x hx
    rw [show x.queue = k from htaken.queue_eq]
    exact htaken.head
  · obtain ⟨k, htaken⟩ := h.taken x hx
    have hqueue : x.queue = k := htaken.queue_eq
    cases htaken with
    | ctrl => simp [BearerPop.isData, hqueue] at hdata
    | data q idle => exact idle
  · -- four pops that all leave best effort waiting are one too many
    by_contra hnone
    have hstarves : ∀ x ∈ w, x.Starves := by
      intro x hx
      have hmem : x ∈ r.pops.filter (·.isData) := by
        rw [hsplit]
        exact List.mem_append_left _ (List.mem_append_right _ hx)
      refine ⟨?_, hwaits x hx⟩
      have hdata := (List.mem_filter.mp hmem).2
      simp only [BearerPop.isData, decide_eq_true_eq] at hdata
      simp only [BearerPop.isHigher, decide_eq_true_eq]
      exact ⟨hdata, fun hbe => hnone ⟨x, hx, hbe⟩⟩
    have hthree := h.starved pre w post hsplit hstarves
    omega
  · obtain ⟨k, htaken⟩ := h.taken x hx
    have hk : k = .data q := htaken.queue_eq.symm.trans hqueue
    subst hk
    cases htaken with
    | data _ idle idle' head rest pick =>
      rcases pickQueue_cases pick with ⟨hbe, -⟩ | ⟨-, hstrict, -⟩
      · exact absurd hbe hq
      · exact hstrict q' hlt

/-- A best-effort PDU and four of signalling: three of these go first. -/
def overtakingRun : List BearerEvent :=
  .push (.data .bestEffort) ⟨Mac.lcidAppDtch, false, [9]⟩ ::
    (List.replicate 4 (.push (.data .sig) ⟨Mac.lcidAppSig, false, [5]⟩) ++ List.replicate 5 .pop)

theorem bearers_served_overtaking : ∃ r, runFrom BearerRun.step {} overtakingRun = some r ∧ r.Served ∧
    r.pops.map (·.queue) = [.data .sig, .data .sig, .data .sig, .data .bestEffort, .data .sig] :=
  ⟨_, rfl, bearers_served (show runFrom BearerRun.step {} overtakingRun = some _ from rfl), by decide⟩

end AetherStack.Guarantees
