import AetherStack.Source.RrcUe

/-!
# The states of the UE's RRC entity

Nine entry points move `RrcUe` between four states, and three of them, a SETUP, a plain
RELEASE and `restore_connected`, leave the resume identity where it is. `Tidy` is what the
fields say in each state; a call keeps it exactly when `Clears` holds. Where it is kept along
a run, a RESUME_OK is accepted only in the attempt that `start_resume` began.
-/
namespace AetherStack.Guarantees
open Source Source.Rrc

inductive RrcUeCall where
  | startConnection (cellId : UInt16)
  | release
  | requestSuspend
  | startResume
  | restoreConnected (crnti : UInt16)
  | forceIdle
  | message (pdu : Bytes)
  deriving DecidableEq

namespace ResumeState

def call (r : RrcUe) : RrcUeCall → RrcUe
  | .startConnection cellId => (r.startConnection cellId.toNat).1
  | .release => r.release.1
  | .requestSuspend => r
  | .startResume => r.startResume
  | .restoreConnected crnti => r.restoreConnected crnti.toNat
  | .forceIdle => r.forceIdle
  | .message pdu => (r.onMessage pdu).1

/-- The entity after the calls. -/
def after (calls : List RrcUeCall) : RrcUe := calls.foldl call {}

@[simp] theorem after_snoc (calls : List RrcUeCall) (c : RrcUeCall) :
    after (calls ++ [c]) = call (after calls) c := by
  simp [after]

/-! ### What a run should keep -/

/-- The identity of a suspend RELEASE. -/
def suspendId (pdu : Bytes) : Option Nat :=
  let msg := RrcMessage.decode pdu
  if msg.msgType = .release ∧ 7 ≤ msg.value.length ∧ (msg.value.getD 2 0 &&& 1) ≠ 0 then
    some (getU32 msg.value 3)
  else none

/-- The identity of the latest suspend RELEASE that was received. -/
def latestSuspendId (calls : List RrcUeCall) : Option Nat :=
  calls.foldl (fun latest c =>
    match c with
    | .message pdu => (suspendId pdu).or latest
    | _ => latest) none

/-- The attempt under way was begun by `start_resume` in INACTIVE, and the entity has been
connecting ever since, so that no other attempt was started. -/
def Resuming (calls : List RrcUeCall) : Prop :=
  ∃ before mid, calls = before ++ .startResume :: mid ∧ (after before).state = .inactive ∧
    ∀ first second, mid = first ++ second →
      (after (before ++ .startResume :: first)).state = .connecting

structure Tidy (r : RrcUe) : Prop where
  idle : r.state = .idle → r.assignedCrnti = 0 ∧ r.resumeId = 0 ∧ r.suspendedCrnti = 0
  connected : r.state = .connected → r.resumeId = 0

/-- The entity after the calls: nothing assigned or suspended in IDLE, no resume identity in
CONNECTED, that of the latest suspension in INACTIVE, and a RESUME_OK connects only an attempt that
`start_resume` began. -/
structure Consistent (calls : List RrcUeCall) : Prop where
  tidy : Tidy (after calls)
  inactive : (after calls).state = .inactive → latestSuspendId calls = some (after calls).resumeId
  resumed : ∀ pdu, (RrcMessage.decode pdu).msgType = .resumeOk →
    (after calls).state ≠ .connected → (call (after calls) (.message pdu)).state = .connected →
    Resuming calls

/-- The condition on a call: where it leaves the resume fields alone they are zero. -/
def Clears (r : RrcUe) : RrcUeCall → Prop
  | .release => r.state = .connected → r.suspendedCrnti = 0
  | .restoreConnected _ => r.resumeId = 0
  | .message pdu =>
    match (RrcMessage.decode pdu).msgType with
    | .setup => r.state = .connecting → r.resumeId = 0
    | .release =>
      (suspendId pdu).isSome ∧ r.state = .connected ∨ r.resumeId = 0 ∧ r.suspendedCrnti = 0
    | _ => True
  | _ => True

/-! ### One call -/

variable {r : RrcUe} {calls : List RrcUeCall}

/-- A RELEASE suspends a connected UE with the identity it carries, and ends any other state. -/
theorem onMessage_release {pdu : Bytes} (htype : (RrcMessage.decode pdu).msgType = .release) :
    (∃ id, suspendId pdu = some id ∧ r.state = .connected ∧ (r.onMessage pdu).1 =
      { r with suspendedCrnti := r.assignedCrnti, resumeId := id, state := .inactive }) ∨
    (¬ ((suspendId pdu).isSome ∧ r.state = .connected) ∧
      (r.onMessage pdu).1 = { r with assignedCrnti := 0, state := .idle }) := by
  simp only [RrcUe.onMessage, htype, RrcUe.onRelease, suspendId, true_and]
  by_cases hflag : 7 ≤ (RrcMessage.decode pdu).value.length ∧
      ((RrcMessage.decode pdu).value.getD 2 0 &&& 1) ≠ 0
  · by_cases hstate : r.state = .connected
    · exact .inl ⟨getU32 (RrcMessage.decode pdu).value 3, by rw [if_pos hflag], hstate,
        by rw [if_pos ⟨hflag.1, hflag.2, hstate⟩]⟩
    · refine .inr ⟨fun h => hstate h.2, ?_⟩
      rw [if_neg fun h => hstate h.2.2]
  · refine .inr ⟨fun h => ?_, ?_⟩
    · rw [if_neg hflag] at h
      cases h.1
    · rw [if_neg fun h => hflag ⟨h.1, h.2.1⟩]

/-- Of the messages only a SETUP or a plain RELEASE can leave an identity behind. -/
theorem message_tidy (h : Tidy r) (pdu : Bytes) : Tidy (r.onMessage pdu).1 ↔ Clears r (.message pdu) := by
  by_cases htype : (RrcMessage.decode pdu).msgType = .release
  · simp only [Clears, htype]
    rcases onMessage_release (r := r) htype with ⟨id, hid, hstate, heq⟩ | ⟨hplain, heq⟩
    · rw [heq, hid]
      exact ⟨fun _ => .inl ⟨rfl, hstate⟩, fun _ => ⟨nofun, nofun⟩⟩
    · rw [heq]
      constructor
      · exact fun hafter => .inr (hafter.idle rfl).2
      · intro hclears
        have hzero := hclears.resolve_left hplain
        exact ⟨fun _ => ⟨rfl, hzero⟩, nofun⟩
  · simp only [Clears, RrcUe.onMessage]
    split
    · rename_i hsetup
      simp only [RrcUe.onSetup, hsetup]
      split
      · rename_i hstate
        exact ⟨fun _ hs => absurd hs hstate, fun _ => h⟩
      · rename_i hstate
        rw [not_not] at hstate
        exact ⟨fun hafter _ => hafter.connected rfl, fun hzero => ⟨nofun, fun _ => hzero hstate⟩⟩
    · rename_i hrelease
      exact absurd hrelease htype
    · rename_i hok
      simp only [RrcUe.onResumeOk, hok, iff_true]
      split
      · exact h
      · exact ⟨nofun, fun _ => rfl⟩
    · rename_i hfailure
      simp only [RrcUe.onResumeFailure, hfailure, iff_true]
      split
      · exact h
      · exact ⟨fun _ => ⟨rfl, rfl, rfl⟩, nofun⟩
    · rename_i hsetup _ _ _
      split
      · rename_i hother
        exact absurd hother hsetup
      · rename_i hother
        exact absurd hother htype
      · exact ⟨fun _ => trivial, fun _ => h⟩

/-- Step lemma, in both directions. -/
theorem call_tidy (h : Tidy r) (c : RrcUeCall) : Tidy (call r c) ↔ Clears r c := by
  cases c with
  | startConnection cellId =>
    simp only [call, RrcUe.startConnection, Clears, iff_true]
    split
    · exact h
    · exact ⟨nofun, nofun⟩
  | release =>
    simp only [call, RrcUe.release, Clears]
    split
    · rename_i hstate
      exact ⟨fun _ hs => absurd hs hstate, fun _ => h⟩
    · rename_i hstate
      rw [not_not] at hstate
      exact ⟨fun hafter _ => (hafter.idle rfl).2.2,
        fun hzero => ⟨fun _ => ⟨rfl, h.connected hstate, hzero hstate⟩, nofun⟩⟩
  | requestSuspend => exact ⟨fun _ => trivial, fun _ => h⟩
  | startResume =>
    simp only [call, RrcUe.startResume, Clears, iff_true]
    split
    · exact h
    · exact ⟨nofun, nofun⟩
  | restoreConnected crnti =>
    exact ⟨fun hafter => hafter.connected rfl, fun hzero => ⟨nofun, fun _ => hzero⟩⟩
  | forceIdle =>
    simp only [call, RrcUe.forceIdle, Clears, iff_true]
    split
    · exact h
    · exact ⟨fun _ => ⟨rfl, rfl, rfl⟩, nofun⟩
  | message pdu => exact message_tidy h pdu

/-- The ways into INACTIVE and CONNECTING; a call that goes neither way leaves the entity alone
or settles it. -/
inductive Moved (r : RrcUe) (c : RrcUeCall) : RrcUe → Prop
  | stays : (∀ pdu, c = .message pdu → suspendId pdu = none) → Moved r c r
  | begun : r.state = .idle → Moved r c { r with state := .connecting }
  | resuming : c = .startResume → r.state = .inactive → Moved r c { r with state := .connecting }
  | suspended {pdu : Bytes} {r' : RrcUe} :
    c = .message pdu → suspendId pdu = some r'.resumeId → r'.state = .inactive → Moved r c r'
  | settled {r' : RrcUe} : r'.state = .idle ∨ r'.state = .connected → Moved r c r'

theorem suspendId_none {pdu : Bytes} (h : (RrcMessage.decode pdu).msgType ≠ .release) :
    suspendId pdu = none :=
  if_neg fun hsuspend => h hsuspend.1

theorem message_moved (r : RrcUe) (pdu : Bytes) : Moved r (.message pdu) (r.onMessage pdu).1 := by
  by_cases htype : (RrcMessage.decode pdu).msgType = .release
  · rcases onMessage_release (r := r) htype with ⟨id, hid, hstate, heq⟩ | ⟨hplain, heq⟩
    · rw [heq]
      exact .suspended rfl hid rfl
    · rw [heq]
      exact .settled (.inl rfl)
  · have hquiet : ∀ pdu', RrcUeCall.message pdu = .message pdu' → suspendId pdu' = none := by
      rintro pdu' ⟨rfl⟩
      exact suspendId_none htype
    simp only [RrcUe.onMessage]
    split
    · unfold RrcUe.onSetup
      split
      · exact .stays hquiet
      · exact .settled (.inr rfl)
    · rename_i hrelease
      exact absurd hrelease htype
    · unfold RrcUe.onResumeOk
      split
      · exact .stays hquiet
      · exact .settled (.inr rfl)
    · unfold RrcUe.onResumeFailure
      split
      · exact .stays hquiet
      · exact .settled (.inl rfl)
    · exact .stays hquiet

/-- What a call can do to the entity. -/
theorem call_moved (r : RrcUe) (c : RrcUeCall) : Moved r c (call r c) := by
  cases c with
  | startConnection cellId =>
    simp only [call, RrcUe.startConnection]
    split
    · exact .stays nofun
    · rename_i hstate
      exact .begun (not_not.mp hstate)
  | release =>
    simp only [call, RrcUe.release]
    split
    · exact .stays nofun
    · exact .settled (.inl rfl)
  | requestSuspend => exact .stays nofun
  | startResume =>
    simp only [call, RrcUe.startResume]
    split
    · exact .stays nofun
    · rename_i hstate
      exact .resuming rfl (not_not.mp hstate)
  | restoreConnected crnti => exact .settled (.inr rfl)
  | forceIdle =>
    simp only [call, RrcUe.forceIdle]
    split
    · exact .stays nofun
    · exact .settled (.inl rfl)
  | message pdu => exact message_moved r pdu

/-! ### Runs -/

theorem latestSuspendId_snoc (calls : List RrcUeCall) (c : RrcUeCall) :
    latestSuspendId (calls ++ [c]) =
      match c with
      | .message pdu => (suspendId pdu).or (latestSuspendId calls)
      | _ => latestSuspendId calls := by
  cases c <;> simp [latestSuspendId]

/-- An attempt that goes on. -/
theorem Resuming.snoc (h : Resuming calls) {c : RrcUeCall}
    (hstate : (after (calls ++ [c])).state = .connecting) : Resuming (calls ++ [c]) := by
  obtain ⟨before, mid, rfl, hinactive, hconnecting⟩ := h
  refine ⟨before, mid ++ [c], by simp, hinactive, fun first second heq => ?_⟩
  rcases List.eq_nil_or_concat second with rfl | ⟨second, last, rfl⟩
  · rw [List.append_nil] at heq
    subst heq
    simpa using hstate
  · rw [List.concat_eq_append, ← List.append_assoc] at heq
    exact hconnecting first second (List.append_inj_left' heq rfl)

theorem resuming_snoc_startResume (h : (after calls).state = .inactive) :
    Resuming (calls ++ [.startResume]) := by
  refine ⟨calls, [], rfl, h, fun first second heq => ?_⟩
  obtain ⟨rfl, rfl⟩ := List.append_eq_nil_iff.mp heq.symm
  simp [call, RrcUe.startResume, h]

/-- What a run keeps whose calls clear what they leave. -/
structure Kept (calls : List RrcUeCall) : Prop where
  tidy : Tidy (after calls)
  inactive : (after calls).state = .inactive → latestSuspendId calls = some (after calls).resumeId
  connecting : (after calls).state = .connecting → (after calls).resumeId ≠ 0 → Resuming calls

/-- A call that clears continues a history that was kept. -/
theorem Kept.snoc (h : Kept calls) {c : RrcUeCall} (hclears : Clears (after calls) c) :
    Kept (calls ++ [c]) := by
  have htidy : Tidy (after (calls ++ [c])) := by
    rw [after_snoc]
    exact (call_tidy h.tidy c).mpr hclears
  have hmoved := call_moved (after calls) c
  rw [← after_snoc] at hmoved
  refine ⟨htidy, fun hinactive => ?_, fun hconnecting hid => ?_⟩
  · rw [latestSuspendId_snoc]
    revert hmoved hinactive
    generalize after (calls ++ [c]) = r'
    intro hmoved hinactive
    cases hmoved with
    | stays hquiet =>
      cases c with
      | message pdu => simpa [hquiet pdu rfl] using h.inactive hinactive
      | _ => exact h.inactive hinactive
    | begun => cases hinactive
    | resuming => cases hinactive
    | suspended hc hid =>
      subst hc
      simp [hid]
    | settled hstate => simp [hinactive] at hstate
  · generalize hr : after (calls ++ [c]) = r' at hmoved hconnecting hid
    cases hmoved with
    | stays => exact (h.connecting hconnecting hid).snoc (by rw [hr]; exact hconnecting)
    | begun hidle => exact absurd (h.tidy.idle hidle).2.1 hid
    | resuming hc hinactive =>
      subst hc
      exact resuming_snoc_startResume hinactive
    | suspended _ _ hstate => simp [hconnecting] at hstate
    | settled hstate => simp [hconnecting] at hstate

/-- A RESUME_OK is accepted with an identity only. -/
theorem Kept.consistent (h : Kept calls) : Consistent calls := by
  refine ⟨h.tidy, h.inactive, fun pdu htype hstate hconnected => ?_⟩
  simp only [call, RrcUe.onMessage, htype, RrcUe.onResumeOk] at hconnected
  split at hconnected
  · exact absurd hconnected hstate
  · rename_i haccepts
    rw [not_or, not_not] at haccepts
    exact h.connecting haccepts.1 haccepts.2

end ResumeState

open ResumeState

/-- After every call of a sequence the entity is `Consistent` if and only if every call that leaves
the resume fields alone finds them zero. -/
theorem rrc_ue_consistent_iff (calls : List RrcUeCall) :
    (∀ before rest, calls = before ++ rest → Consistent before) ↔
      ∀ before c rest, calls = before ++ c :: rest → Clears (after before) c := by
  constructor
  · intro hconsistent before c rest heq
    have hbefore := hconsistent before (c :: rest) heq
    have hnext := hconsistent (before ++ [c]) rest (by rw [heq, List.append_assoc]; rfl)
    have htidy := hnext.tidy
    rw [after_snoc] at htidy
    exact (call_tidy hbefore.tidy c).mp htidy
  · intro hclears before rest heq
    refine Kept.consistent ?_
    induction before using List.reverseRecOn generalizing rest with
    | nil => exact ⟨⟨fun _ => ⟨rfl, rfl, rfl⟩, nofun⟩, nofun, nofun⟩
    | append_singleton before c ih =>
      rw [List.append_assoc] at heq
      exact (ih (c :: rest) heq).snoc (hclears before c rest heq)

namespace ResumeState

/-- Suspended with identity 5 under C-RNTI 1. -/
def suspend : Bytes :=
  RrcMessage.encode { msgType := .release, value := putU16 1 ++ [1] ++ putU32 5 }

/-- A plain RELEASE reaches the suspended UE, and a stray RESUME_OK its next connection. -/
def stray : List RrcUeCall :=
  [.restoreConnected 1, .message suspend, .message (RrcMessage.encode { msgType := .release }),
    .startConnection 0, .message (RrcMessage.encode { msgType := .resumeOk, value := putU16 9 })]

end ResumeState

/-- IDLE keeps the resume identity, and the next plain connection accepts a RESUME_OK. -/
theorem stale_resume_id_accepts_resume_ok :
    (after (stray.take 3)).state = .idle ∧ (after (stray.take 3)).resumeId = 5 ∧
      (after (stray.take 4)).state = .connecting ∧ (after stray).state = .connected ∧
      .startResume ∉ stray := by
  decide

end AetherStack.Guarantees
