import AetherStack.Lib.Run
import AetherStack.Source.RachBs

/-!
# Random access of many UEs to one cell

Any number of UEs and one cell on a shared medium. Whatever was sent may arrive at any time,
any number of times, or never: a delivery names a frame by its index, and a UE is given any
MSG2 or MSG4. `origin` of a frame is the UE it came from, and of an answer the UE it answers;
nothing reads it.

MSG4 names a UE by its RA-RNTI, which is the preamble. Two UEs with one preamble take the
same C-RNTI.
-/
namespace AetherStack.Guarantees
open Source Source.Mac Lib

inductive RachMessage where
  | msg1 | msg2 | msg3 | msg4
  deriving DecidableEq, Repr

structure RachFrame where
  type : RachMessage
  payload : Bytes
  origin : Nat
  deriving DecidableEq, Repr

structure RachCell where
  bs : RachBs
  ues : Nat → RachUe
  air : List RachFrame := []

inductive RachEvent where
  | start (ue : Nat)
  | rarTimeout (ue : Nat)
  | resolveTimeout (ue : Nat)
  | forceIdle (ue : Nat)
  | setPreamble (ue : Nat) (preamble : UInt8)
  | toBs (index : Nat)
  | toUe (ue index : Nat) (ccch : Bytes)
  deriving DecidableEq, Repr

namespace RachCell

/-- A cell with its identity and C-RNTI base, and UEs with any preambles. -/
def init (cellId crntiBase : Nat) (preambles maxTransmissions : Nat → UInt8) : RachCell where
  bs := { cellId := cellId, nextCrnti := crntiBase % snModulus }
  ues := fun u => { preambleIndex := preambles u, maxPreambleTransmissions := maxTransmissions u }

def sentByUe (ue : Nat) : RachOutput → Option RachFrame
  | .state _ => none
  | .msg1 pdu => some ⟨.msg1, pdu, ue⟩
  | .msg3 pdu => some ⟨.msg3, pdu, ue⟩

def sentByBs (origin : Nat) : RachBsOutput → Option RachFrame
  | .msg2 pdu => some ⟨.msg2, pdu, origin⟩
  | .msg4 pdu => some ⟨.msg4, pdu, origin⟩
  | .ccch _ _ => none

/-- A call of a UE's entity, and what it sends. -/
def callUe (s : RachCell) (ue : Nat) (call : RachUe × List RachOutput) : RachCell :=
  { s with
    ues := Function.update s.ues ue call.1
    air := s.air ++ call.2.filterMap (sentByUe ue) }

def callBs (s : RachCell) (origin : Nat) (call : RachBs × List RachBsOutput) : RachCell :=
  { s with bs := call.1, air := s.air ++ call.2.filterMap (sentByBs origin) }

/-- The part of `BsNode::handle_air_frame` for random access. -/
def receiveBs (s : RachCell) (f : RachFrame) : RachCell :=
  match f.type with
  | .msg1 =>
    if f.payload.length ≥ 2 then s.callBs f.origin (s.bs.onPrachReceived (f.payload.getD 1 0)) else s
  | .msg3 =>
    if f.payload.length ≥ 4 then s.callBs f.origin (s.bs.onMsg3Received (getU16 f.payload 1) f.payload)
    else s
  | .msg2 | .msg4 => s

/-- `UeNode::handle_air_frame` and `handle_rach_payload`. -/
def receiveUe (s : RachCell) (ue : Nat) (f : RachFrame) (ccch : Bytes) : RachCell :=
  match f.type with
  | .msg2 =>
    if f.payload.length ≥ 5 then
      s.callUe ue ((s.ues ue).onRarReceived (getU16 f.payload 1) ccch)
    else s
  | .msg4 =>
    if f.payload.length ≥ 5 then
      s.callUe ue ((s.ues ue).onContentionResolve (getU16 f.payload 1) (getU16 f.payload 3))
    else s
  | .msg1 | .msg3 => s

def step (s : RachCell) : RachEvent → Option RachCell
  | .start ue => some (s.callUe ue (s.ues ue).startRach)
  | .rarTimeout ue => some (s.callUe ue (s.ues ue).onRarTimeout)
  | .resolveTimeout ue => some (s.callUe ue (s.ues ue).onContentionResolveTimeout)
  | .forceIdle ue => some (s.callUe ue (s.ues ue).forceIdle)
  | .setPreamble ue preamble =>
    some { s with ues := Function.update s.ues ue { s.ues ue with preambleIndex := preamble } }
  | .toBs index => s.air[index]?.map s.receiveBs
  | .toUe ue index ccch => s.air[index]?.map fun f => s.receiveUe ue f ccch

/-- The MSG4s sent so far. -/
def answers (s : RachCell) : List RachFrame := s.air.filter fun f => f.type = .msg4

/-- A MSG4 is taken only by the UE whose MSG3 it answers, and the C-RNTI counter has not come
round when a MSG3 takes a number. -/
def ContentionKept (s : RachCell) : RachEvent → Prop
  | .toBs index => ∀ f ∈ s.air[index]?, f.type = .msg3 → s.answers.length < snModulus
  | .toUe ue index _ => ∀ f ∈ s.air[index]?, f.type = .msg4 →
      (s.ues ue).state = .waitContentionResolve →
      getU16 f.payload 3 = (s.ues ue).assignedRaRnti → f.origin = ue
  | .start _ | .rarTimeout _ | .resolveTimeout _ | .forceIdle _ | .setPreamble _ _ => True

instance (s : RachCell) : (e : RachEvent) → Decidable (ContentionKept s e)
  | .toBs index => inferInstanceAs (Decidable (∀ f ∈ s.air[index]?, f.type = .msg3 →
      s.answers.length < snModulus))
  | .toUe ue index _ => inferInstanceAs (Decidable (∀ f ∈ s.air[index]?, f.type = .msg4 →
      (s.ues ue).state = .waitContentionResolve →
      getU16 f.payload 3 = (s.ues ue).assignedRaRnti → f.origin = ue))
  | .start _ | .rarTimeout _ | .resolveTimeout _ | .forceIdle _ | .setPreamble _ _ => isTrue trivial

/-- The answers carry consecutive C-RNTIs, and a connected UE has the one of an answer to it. -/
structure Allotted (base : Nat) (s : RachCell) : Prop where
  bounded : s.answers.length ≤ snModulus
  next : s.bs.nextCrnti = (base + s.answers.length) % snModulus
  numbered : ∀ (i : Nat) (f : RachFrame), s.answers[i]? = some f →
    getU16 f.payload 1 = (base + i) % snModulus
  connected : ∀ u, (s.ues u).state = .connected →
    ∃ f ∈ s.answers, f.origin = u ∧ getU16 f.payload 1 = (s.ues u).assignedCrnti

variable {base : Nat} {s s' : RachCell}

theorem allotted_init (cellId crntiBase : Nat) (preambles maxTransmissions : Nat → UInt8) :
    Allotted crntiBase (init cellId crntiBase preambles maxTransmissions) where
  bounded := Nat.zero_le _
  next := rfl
  numbered := by
    intro i f hf
    cases hf
  connected := by
    intro u hu
    cases hu

/-- A UE sends no MSG4. -/
theorem answers_callUe (s : RachCell) (ue : Nat) (call : RachUe × List RachOutput) :
    (s.callUe ue call).answers = s.answers := by
  have hnone : (call.2.filterMap (sentByUe ue)).filter (fun f => f.type = .msg4) = [] := by
    rw [List.filter_eq_nil_iff]
    intro f hf
    obtain ⟨out, -, hout⟩ := List.mem_filterMap.mp hf
    cases out with
    | state new => cases hout
    | msg1 pdu | msg3 pdu =>
      obtain rfl := Option.some.inj hout
      simp
  rw [answers, callUe, List.filter_append, hnone, List.append_nil, answers]

/-- A call of a UE that connects it only on the ground of an answer to it. -/
theorem Allotted.callUe (h : Allotted base s) {ue : Nat} {call : RachUe × List RachOutput}
    (hcall : call.1.state = .connected →
      ∃ f ∈ s.answers, f.origin = ue ∧ getU16 f.payload 1 = call.1.assignedCrnti) :
    Allotted base (s.callUe ue call) := by
  have hanswers := answers_callUe s ue call
  refine ⟨hanswers ▸ h.bounded, ?_, ?_, ?_⟩
  · rw [hanswers]
    exact h.next
  · rw [hanswers]
    exact h.numbered
  · rw [hanswers]
    intro u hu
    by_cases hue : u = ue
    · subst hue
      simp only [RachCell.callUe, Function.update_self] at hu ⊢
      exact hcall hu
    · simp only [RachCell.callUe, Function.update_of_ne hue] at hu ⊢
      exact h.connected u hu

theorem Allotted.start (h : Allotted base s) (ue : Nat) :
    Allotted base (s.callUe ue (s.ues ue).startRach) := by
  apply h.callUe
  unfold RachUe.startRach
  split
  · exact h.connected ue
  · intro hback
    cases hback

theorem Allotted.rarTimeout (h : Allotted base s) (ue : Nat) :
    Allotted base (s.callUe ue (s.ues ue).onRarTimeout) := by
  apply h.callUe
  unfold RachUe.onRarTimeout
  split
  · exact h.connected ue
  · rename_i hwait
    split
    · intro hback
      exact absurd ((not_not.mp hwait).symm.trans hback) (by decide)
    · intro hback
      cases hback

theorem Allotted.resolveTimeout (h : Allotted base s) (ue : Nat) :
    Allotted base (s.callUe ue (s.ues ue).onContentionResolveTimeout) := by
  apply h.callUe
  unfold RachUe.onContentionResolveTimeout
  split
  · exact h.connected ue
  · intro hback
    cases hback

theorem Allotted.forceIdle (h : Allotted base s) (ue : Nat) :
    Allotted base (s.callUe ue (s.ues ue).forceIdle) := by
  apply h.callUe
  unfold RachUe.forceIdle
  split
  · exact h.connected ue
  · intro hback
    cases hback

theorem Allotted.rar (h : Allotted base s) (ue raRnti : Nat) (ccch : Bytes) :
    Allotted base (s.callUe ue ((s.ues ue).onRarReceived raRnti ccch)) := by
  apply h.callUe
  unfold RachUe.onRarReceived
  split
  · exact h.connected ue
  · intro hback
    cases hback

/-- Under the condition MSG4 reaches the UE it was made for. -/
theorem Allotted.resolve (h : Allotted base s) {ue : Nat} {f : RachFrame} (hmem : f ∈ s.answers)
    (horigin : (s.ues ue).state = .waitContentionResolve →
      getU16 f.payload 3 = (s.ues ue).assignedRaRnti → f.origin = ue) :
    Allotted base (s.callUe ue
      ((s.ues ue).onContentionResolve (getU16 f.payload 1) (getU16 f.payload 3))) := by
  apply h.callUe
  unfold RachUe.onContentionResolve
  split
  · exact h.connected ue
  · rename_i htaken
    rw [not_or, not_not, not_not] at htaken
    exact fun _ => ⟨f, hmem, horigin htaken.1 htaken.2, rfl⟩

/-- An answer to a preamble allots nothing. -/
theorem Allotted.prach (h : Allotted base s) (origin : Nat) (preamble : UInt8) :
    Allotted base (s.callBs origin (s.bs.onPrachReceived preamble)) := by
  have hanswers : (s.callBs origin (s.bs.onPrachReceived preamble)).answers = s.answers := by
    unfold RachBs.onPrachReceived callBs answers
    split
    · simp
    · simp [sentByBs]
  have hnext : (s.bs.onPrachReceived preamble).1.nextCrnti = s.bs.nextCrnti := by
    unfold RachBs.onPrachReceived
    split <;> rfl
  refine ⟨hanswers ▸ h.bounded, ?_, ?_, ?_⟩
  · rw [hanswers]
    exact hnext.trans h.next
  · rw [hanswers]
    exact h.numbered
  · rw [hanswers]
    exact h.connected

theorem getU16_msg4Pdu {crnti : Nat} (h : crnti < snModulus) (raRnti : Nat) :
    getU16 (RachBs.msg4Pdu crnti raRnti) 1 = crnti := by
  have hread := getU16_putU16 [4] (putU16 raRnti) crnti
  rw [Nat.mod_eq_of_lt h] at hread
  exact hread

/-- An answered MSG3 takes the next C-RNTI. -/
theorem Allotted.msg3 (h : Allotted base s) (hroom : s.answers.length < snModulus)
    (origin raRnti : Nat) (msg3 : Bytes) :
    Allotted base (s.callBs origin (s.bs.onMsg3Received raRnti msg3)) := by
  unfold RachBs.onMsg3Received
  split
  · have hsame : s.callBs origin (s.bs, []) = s := by simp [callBs]
    rw [hsame]
    exact h
  · rename_i ctx hctx
    have hnext : s.bs.nextCrnti < snModulus := by
      rw [h.next]
      exact Nat.mod_lt _ (by decide)
    have hanswers : (s.callBs origin
        ({ s.bs with
            nextCrnti := (s.bs.nextCrnti + 1) % snModulus
            ueContexts := s.bs.ueContexts.insert raRnti
              { ctx with cRnti := s.bs.nextCrnti, rachComplete := true } },
          .msg4 (RachBs.msg4Pdu s.bs.nextCrnti raRnti) ::
            if msg3.length > 3 then [.ccch s.bs.nextCrnti (msg3.drop 3)] else [])).answers =
        s.answers ++ [⟨.msg4, RachBs.msg4Pdu s.bs.nextCrnti raRnti, origin⟩] := by
      unfold callBs answers
      split <;> simp [sentByBs]
    refine ⟨?_, ?_, ?_, ?_⟩
    · rw [hanswers, List.length_append, List.length_singleton]
      omega
    · rw [hanswers, List.length_append, List.length_singleton]
      show (s.bs.nextCrnti + 1) % snModulus = _
      rw [h.next, Nat.mod_add_mod, Nat.add_assoc]
    · rw [hanswers]
      intro i f hf
      rcases Nat.lt_or_ge i s.answers.length with hlt | hge
      · rw [List.getElem?_append_left hlt] at hf
        exact h.numbered i f hf
      · rw [List.getElem?_append_right hge, List.getElem?_singleton] at hf
        split at hf
        · rename_i hlast
          obtain rfl := Option.some.inj hf
          rw [getU16_msg4Pdu hnext, h.next]
          congr 1
          omega
        · cases hf
    · rw [hanswers]
      intro u hu
      obtain ⟨f, hf, hrest⟩ := h.connected u hu
      exact ⟨f, List.mem_append_left _ hf, hrest⟩

theorem mem_answers {f : RachFrame} {index : Nat} (hf : s.air[index]? = some f)
    (htype : f.type = .msg4) : f ∈ s.answers :=
  List.mem_filter.mpr ⟨List.mem_of_getElem? hf, by simp [htype]⟩

/-- Step lemma: each C-RNTI has been given to one UE. -/
theorem step_allotted {e : RachEvent} (h : Allotted base s) (kept : ContentionKept s e)
    (hstep : s.step e = some s') : Allotted base s' := by
  cases e with
  | start ue =>
    obtain rfl := Option.some.inj hstep
    exact h.start ue
  | rarTimeout ue =>
    obtain rfl := Option.some.inj hstep
    exact h.rarTimeout ue
  | resolveTimeout ue =>
    obtain rfl := Option.some.inj hstep
    exact h.resolveTimeout ue
  | forceIdle ue =>
    obtain rfl := Option.some.inj hstep
    exact h.forceIdle ue
  | setPreamble ue preamble =>
    obtain rfl := Option.some.inj hstep
    refine ⟨h.bounded, h.next, h.numbered, fun u hu => ?_⟩
    by_cases hue : u = ue
    · subst hue
      simp only [Function.update_self] at hu ⊢
      exact h.connected u hu
    · simp only [Function.update_of_ne hue] at hu ⊢
      exact h.connected u hu
  | toBs index =>
    obtain ⟨f, hf, rfl⟩ := Option.map_eq_some_iff.mp hstep
    unfold receiveBs
    split
    · split
      · exact h.prach _ _
      · exact h
    · rename_i htype
      split
      · exact h.msg3 (kept f hf htype) _ _ _
      · exact h
    · exact h
    · exact h
  | toUe ue index ccch =>
    obtain ⟨f, hf, rfl⟩ := Option.map_eq_some_iff.mp hstep
    unfold receiveUe
    split
    · split
      · exact h.rar _ _ _
      · exact h
    · rename_i htype
      split
      · exact h.resolve (mem_answers hf htype) (kept f hf htype)
      · exact h
    · exact h
    · exact h

/-- Two answers with one C-RNTI are the same answer. -/
theorem Allotted.unique (h : Allotted base s) {f g : RachFrame} (hf : f ∈ s.answers)
    (hg : g ∈ s.answers) (heq : getU16 f.payload 1 = getU16 g.payload 1) : f = g := by
  obtain ⟨i, hi, rfl⟩ := List.mem_iff_getElem.mp hf
  obtain ⟨j, hj, rfl⟩ := List.mem_iff_getElem.mp hg
  rw [h.numbered i _ (List.getElem?_eq_getElem hi), h.numbered j _ (List.getElem?_eq_getElem hj)]
    at heq
  have hbound := h.bounded
  obtain rfl : i = j := by
    rw [snModulus] at heq hbound
    omega
  rfl

end RachCell

open RachCell in
/-- Any number of UEs, every order of steps: as long as a MSG4 is taken only by the UE it
answers and the counter has not come round, no two connected UEs have the same C-RNTI. -/
theorem crnti_unique_on_air (cellId crntiBase : Nat) (preambles maxTransmissions : Nat → UInt8)
    {events : List RachEvent} {s : RachCell}
    (run : runFrom RachCell.step (init cellId crntiBase preambles maxTransmissions) events = some s)
    (kept : StepsMeet RachCell.step ContentionKept
      (init cellId crntiBase preambles maxTransmissions) events)
    {u v : Nat} (hu : (s.ues u).state = .connected) (hv : (s.ues v).state = .connected)
    (hne : u ≠ v) : (s.ues u).assignedCrnti ≠ (s.ues v).assignedCrnti := by
  have h : Allotted crntiBase s :=
    runFrom_invariant_of_meets (Allotted crntiBase) (fun _ _ _ => step_allotted)
      (allotted_init cellId crntiBase preambles maxTransmissions) kept run
  obtain ⟨f, hf, hforigin, hfcrnti⟩ := h.connected u hu
  obtain ⟨g, hg, hgorigin, hgcrnti⟩ := h.connected v hv
  intro heq
  have hsame := h.unique hf hg (hfcrnti.trans (heq.trans hgcrnti.symm))
  rw [hsame] at hforigin
  exact hne (hforigin.symm.trans hgorigin)

open RachCell in
/-- Two UEs with preambles of their own connect under different C-RNTIs. -/
theorem crnti_unique_on_air_two_preambles :
    ∃ s, runFrom RachCell.step (init 1 1 (fun u => UInt8.ofNat u) fun _ => 3)
        [.start 0, .start 1, .toBs 0, .toUe 0 2 [0], .toBs 1, .toUe 1 4 [0], .toBs 3, .toBs 5,
          .toUe 0 6 [], .toUe 1 7 []] = some s ∧
      ((s.ues 0).state = .connected ∧ (s.ues 1).state = .connected) ∧
      (s.ues 0).assignedCrnti ≠ (s.ues 1).assignedCrnti := by
  have hrun : ∃ s ∈ runFrom RachCell.step (init 1 1 (fun u => UInt8.ofNat u) fun _ => 3)
      [.start 0, .start 1, .toBs 0, .toUe 0 2 [0], .toBs 1, .toUe 1 4 [0], .toBs 3, .toBs 5,
        .toUe 0 6 [], .toUe 1 7 []],
      (s.ues 0).state = .connected ∧ (s.ues 1).state = .connected := by
    decide
  obtain ⟨s, hs, hconnected⟩ := hrun
  exact ⟨s, hs, hconnected, crnti_unique_on_air 1 1 (fun u => UInt8.ofNat u) (fun _ => 3) hs
    (by decide) hconnected.1 hconnected.2 (by decide)⟩

open RachCell in
/-- Two UEs with one preamble: both hear the MSG2, the cell answers one MSG3, and both take the
MSG4. -/
theorem crnti_shared_by_one_preamble :
    ∃ s, runFrom RachCell.step (init 1 1 (fun _ => 10) fun _ => 3)
        [.start 0, .start 1, .toBs 0, .toUe 0 2 [0], .toUe 1 2 [0], .toBs 3, .toUe 0 5 [],
          .toUe 1 5 []] = some s ∧
      (s.ues 0).state = .connected ∧ (s.ues 1).state = .connected ∧
      (s.ues 0).assignedCrnti = (s.ues 1).assignedCrnti := by
  have hrun : ∃ s ∈ runFrom RachCell.step (init 1 1 (fun _ => 10) fun _ => 3)
      [.start 0, .start 1, .toBs 0, .toUe 0 2 [0], .toUe 1 2 [0], .toBs 3, .toUe 0 5 [],
        .toUe 1 5 []],
      (s.ues 0).state = .connected ∧ (s.ues 1).state = .connected ∧
      (s.ues 0).assignedCrnti = (s.ues 1).assignedCrnti := by
    decide
  exact hrun

end AetherStack.Guarantees
