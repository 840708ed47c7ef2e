import AetherStack.Lib.Keyed
import AetherStack.Source.Sip

/-!
# The dialog table of a `UeNode`

`WellKeyed` says that the dialogs have distinct (peer, call_id) keys and that the timers
are tied to them: a pending timer a dialog refers to captured that dialog's own key, and
every dialog that rings outward has its no-answer timer pending. Every operation keeps it
except pushing a dialog under a key that is taken; the last section says which command
can do that.
-/
namespace AetherStack.Source
open Lib

/-- `d'` is `d` in a later state: same key, and its timers are those of `d` or gone. -/
structure CallDialog.Continues (d' d : CallDialog) : Prop where
  peer : d'.peer = d.peer
  callId : d'.callId = d.callId
  startedHere : d'.startedHere = d.startedHere
  first : d'.firstResponseTimer = d.firstResponseTimer ∨ d'.firstResponseTimer = 0
  ring : d'.noanswerTimer = d.noanswerTimer ∨ d'.noanswerTimer = 0
  auto : d'.autoanswerTimer = d.autoanswerTimer ∨ d'.autoanswerTimer = 0

theorem CallDialog.Continues.refl (d : CallDialog) : d.Continues d :=
  ⟨rfl, rfl, rfl, .inl rfl, .inl rfl, .inl rfl⟩

theorem CallDialog.Continues.key_eq {d' d : CallDialog} (h : d'.Continues d) : d'.key = d.key := by
  rw [key, key, h.peer, h.callId]

namespace SipUe

structure WellKeyed (u : SipUe) : Prop where
  keys : (u.dialogs.map CallDialog.key).Nodup
  ids : ∀ t ∈ u.timers, 0 < t.1 ∧ t.1 < u.nextTimerId
  nextPos : 0 < u.nextTimerId
  fields : ∀ d ∈ u.dialogs, d.firstResponseTimer < u.nextTimerId ∧
    d.noanswerTimer < u.nextTimerId ∧ d.autoanswerTimer < u.nextTimerId
  first : ∀ d ∈ u.dialogs, ∀ t, (d.firstResponseTimer, t) ∈ u.timers →
    t = ⟨.firstResponse, d.peer, d.callId⟩
  ring : ∀ d ∈ u.dialogs, ∀ t, (d.noanswerTimer, t) ∈ u.timers →
    t = ⟨.noAnswer, d.peer, d.callId⟩
  auto : ∀ d ∈ u.dialogs, ∀ t, (d.autoanswerTimer, t) ∈ u.timers →
    t = ⟨.autoAnswer, d.peer, d.callId⟩
  pending : ∀ d ∈ u.dialogs, d.state = .outgoingRinging → ∃ t, (d.noanswerTimer, t) ∈ u.timers

variable {u : SipUe}

theorem wellKeyed_initial (imsi : Imsi) (ms : UInt32) :
    WellKeyed { imsi := imsi, autoanswerMs := ms } where
  keys := List.nodup_nil
  ids := by simp
  nextPos := Nat.one_pos
  fields := by simp
  first := by simp
  ring := by simp
  auto := by simp
  pending := by simp

/-- Operations that continue or drop dialogs and drop timers. -/
theorem WellKeyed.shrink (h : WellKeyed u) {u' : SipUe}
    (hkeys : (u'.dialogs.map CallDialog.key).Sublist (u.dialogs.map CallDialog.key))
    (htimers : u'.timers.Sublist u.timers) (hnext : u'.nextTimerId = u.nextTimerId)
    (hfrom : ∀ d' ∈ u'.dialogs, ∃ d ∈ u.dialogs, d'.Continues d)
    (hpending : ∀ d' ∈ u'.dialogs, d'.state = .outgoingRinging →
      ∃ t, (d'.noanswerTimer, t) ∈ u'.timers) : WellKeyed u' := by
  have hzero : ∀ t, (0, t) ∉ u'.timers := by
    intro t ht
    exact absurd (h.ids _ (htimers.subset ht)).1 (Nat.lt_irrefl 0)
  refine ⟨h.keys.sublist hkeys, ?_, hnext ▸ h.nextPos, ?_, ?_, ?_, ?_, hpending⟩
  · intro t ht
    rw [hnext]
    exact h.ids t (htimers.subset ht)
  · intro d' hd'
    obtain ⟨d, hd, hc⟩ := hfrom d' hd'
    obtain ⟨hf, hr, ha⟩ := h.fields d hd
    have hpos := h.nextPos
    rw [hnext]
    refine ⟨?_, ?_, ?_⟩
    · rcases hc.first with e | e <;> omega
    · rcases hc.ring with e | e <;> omega
    · rcases hc.auto with e | e <;> omega
  · intro d' hd' t ht
    obtain ⟨d, hd, hc⟩ := hfrom d' hd'
    rcases hc.first with e | e
    · rw [hc.peer, hc.callId]
      exact h.first d hd t (htimers.subset (e ▸ ht))
    · exact absurd (e ▸ ht) (hzero t)
  · intro d' hd' t ht
    obtain ⟨d, hd, hc⟩ := hfrom d' hd'
    rcases hc.ring with e | e
    · rw [hc.peer, hc.callId]
      exact h.ring d hd t (htimers.subset (e ▸ ht))
    · exact absurd (e ▸ ht) (hzero t)
  · intro d' hd' t ht
    obtain ⟨d, hd, hc⟩ := hfrom d' hd'
    rcases hc.auto with e | e
    · rw [hc.peer, hc.callId]
      exact h.auto d hd t (htimers.subset (e ▸ ht))
    · exact absurd (e ▸ ht) (hzero t)

/-! ## Timers of one dialog -/

@[simp] theorem cancelTimer_dialogs (u : SipUe) (id : Nat) :
    (u.cancelTimer id).dialogs = u.dialogs := by
  unfold cancelTimer
  split <;> rfl

@[simp] theorem cancelTimer_nextTimerId (u : SipUe) (id : Nat) :
    (u.cancelTimer id).nextTimerId = u.nextTimerId := by
  unfold cancelTimer
  split <;> rfl

@[simp] theorem cancelTimer_nextCallId (u : SipUe) (id : Nat) :
    (u.cancelTimer id).nextCallId = u.nextCallId := by
  unfold cancelTimer
  split <;> rfl

@[simp] theorem cancelTimer_imsi (u : SipUe) (id : Nat) : (u.cancelTimer id).imsi = u.imsi := by
  unfold cancelTimer
  split <;> rfl

theorem cancelTimer_sublist (u : SipUe) (id : Nat) :
    (u.cancelTimer id).timers.Sublist u.timers := by
  unfold cancelTimer
  split
  · exact List.Sublist.refl _
  · exact List.eraseP_sublist

theorem mem_cancelTimer {id : Nat} {t : Nat × DialogTimer} (ht : t ∈ u.timers) (hne : t.1 ≠ id) :
    t ∈ (u.cancelTimer id).timers := by
  unfold cancelTimer
  split
  · exact ht
  · exact (List.mem_eraseP_of_neg (by simpa using hne)).mpr ht

@[simp] theorem setDialog_dialogs (u : SipUe) (i : Nat) (d : CallDialog) :
    (u.setDialog i d).dialogs = u.dialogs.set i d := rfl

theorem cancelTimer_setDialog (u : SipUe) (id i : Nat) (e : CallDialog) :
    ((u.cancelTimer id).setDialog i e).dialogs = u.dialogs.set i e := by
  simp

@[simp] theorem cancelDialogTimers_dialogs (u : SipUe) (i : Nat) (d : CallDialog) :
    (u.cancelDialogTimers i d).dialogs = u.dialogs.set i
      { d with firstResponseTimer := 0, noanswerTimer := 0, autoanswerTimer := 0 } := by
  simp [cancelDialogTimers]

theorem cancelDialogTimers_setDialog (u : SipUe) (i : Nat) (d e : CallDialog) :
    ((u.cancelDialogTimers i d).setDialog i e).dialogs = u.dialogs.set i e := by
  simp

@[simp] theorem cancelDialogTimers_nextTimerId (u : SipUe) (i : Nat) (d : CallDialog) :
    (u.cancelDialogTimers i d).nextTimerId = u.nextTimerId := by
  simp [cancelDialogTimers, setDialog]

@[simp] theorem cancelDialogTimers_nextCallId (u : SipUe) (i : Nat) (d : CallDialog) :
    (u.cancelDialogTimers i d).nextCallId = u.nextCallId := by
  simp [cancelDialogTimers, setDialog]

@[simp] theorem cancelDialogTimers_imsi (u : SipUe) (i : Nat) (d : CallDialog) :
    (u.cancelDialogTimers i d).imsi = u.imsi := by
  simp [cancelDialogTimers, setDialog]

theorem cancelDialogTimers_sublist (u : SipUe) (i : Nat) (d : CallDialog) :
    (u.cancelDialogTimers i d).timers.Sublist u.timers :=
  ((cancelTimer_sublist _ _).trans (cancelTimer_sublist _ _)).trans (cancelTimer_sublist _ _)

@[simp] theorem eraseDialog_dialogs (u : SipUe) (i : Nat) (d : CallDialog) :
    (u.eraseDialog i d).dialogs = u.dialogs.eraseIdx i := by
  simp [eraseDialog, List.eraseIdx_set_eq]

@[simp] theorem eraseDialog_nextCallId (u : SipUe) (i : Nat) (d : CallDialog) :
    (u.eraseDialog i d).nextCallId = u.nextCallId :=
  cancelDialogTimers_nextCallId u i d

@[simp] theorem eraseDialog_imsi (u : SipUe) (i : Nat) (d : CallDialog) :
    (u.eraseDialog i d).imsi = u.imsi :=
  cancelDialogTimers_imsi u i d

/-! ## One dialog at a time -/

/-- The no-answer timers of all dialogs but `d` are pending as before. -/
def KeepsOthers (u u' : SipUe) (d : CallDialog) : Prop :=
  ∀ e ∈ u.dialogs, e.key ≠ d.key → ∀ t, (e.noanswerTimer, t) ∈ u.timers →
    (e.noanswerTimer, t) ∈ u'.timers

/-- A dialog may change in place as long as it keeps key and timers. -/
theorem WellKeyed.replace (h : WellKeyed u) {u' : SipUe} {i : Nat} {d d' : CallDialog}
    (hi : u.dialogs[i]? = some d) (hc : d'.Continues d)
    (hdialogs : u'.dialogs = u.dialogs.set i d') (htimers : u'.timers.Sublist u.timers)
    (hnext : u'.nextTimerId = u.nextTimerId) (hothers : KeepsOthers u u' d)
    (hpending : d'.state = .outgoingRinging → ∃ t, (d'.noanswerTimer, t) ∈ u'.timers) :
    WellKeyed u' := by
  obtain ⟨pre, post, hsplit, -, hset⟩ := Keyed.exists_split hi
  have hkeys := h.keys
  rw [hsplit] at hkeys
  obtain ⟨hpre, hpost, -⟩ := Keyed.nodup_split hkeys
  -- every dialog of the new table is the replaced one or an untouched one of another key
  have hcases : ∀ e ∈ u'.dialogs, e = d' ∨ (e ∈ u.dialogs ∧ e.key ≠ d.key) := by
    intro e he
    rw [hdialogs, hset, List.mem_append, List.mem_cons] at he
    rw [hsplit, List.mem_append, List.mem_cons]
    rcases he with he | rfl | he
    · exact .inr ⟨.inl he, hpre e he⟩
    · exact .inl rfl
    · exact .inr ⟨.inr (.inr he), hpost e he⟩
  apply h.shrink
  · rw [hdialogs, Keyed.map_key_set hi hc.key_eq]
  · exact htimers
  · exact hnext
  · intro e he
    rcases hcases e he with rfl | ⟨he, -⟩
    · exact ⟨d, List.mem_of_getElem? hi, hc⟩
    · exact ⟨e, he, .refl e⟩
  · intro e he hout
    rcases hcases e he with rfl | ⟨he, hne⟩
    · exact hpending hout
    · obtain ⟨t, ht⟩ := h.pending e he hout
      exact ⟨t, hothers e he hne t ht⟩

/-- A dialog may go with its timers. -/
theorem WellKeyed.erase (h : WellKeyed u) {u' : SipUe} {i : Nat} {d : CallDialog}
    (hi : u.dialogs[i]? = some d) (hdialogs : u'.dialogs = u.dialogs.eraseIdx i)
    (htimers : u'.timers.Sublist u.timers) (hnext : u'.nextTimerId = u.nextTimerId)
    (hothers : KeepsOthers u u' d) : WellKeyed u' := by
  obtain ⟨pre, post, hsplit, herase, -⟩ := Keyed.exists_split hi
  have hkeys := h.keys
  rw [hsplit] at hkeys
  obtain ⟨hpre, hpost, -⟩ := Keyed.nodup_split hkeys
  have hcases : ∀ e ∈ u'.dialogs, e ∈ u.dialogs ∧ e.key ≠ d.key := by
    intro e he
    rw [hdialogs, herase, List.mem_append] at he
    rw [hsplit, List.mem_append, List.mem_cons]
    rcases he with he | he
    · exact ⟨.inl he, hpre e he⟩
    · exact ⟨.inr (.inr he), hpost e he⟩
  apply h.shrink
  · rw [hdialogs]
    exact (List.eraseIdx_sublist u.dialogs i).map _
  · exact htimers
  · exact hnext
  · intro e he
    exact ⟨e, (hcases e he).1, .refl e⟩
  · intro e he hout
    obtain ⟨he, hne⟩ := hcases e he
    obtain ⟨t, ht⟩ := h.pending e he hout
    exact ⟨t, hothers e he hne t ht⟩

theorem KeepsOthers.refl (u : SipUe) (d : CallDialog) : KeepsOthers u u d :=
  fun _ _ _ _ ht => ht

/-- Cancelling the timers of one dialog leaves the no-answer timer of every other pending. -/
theorem WellKeyed.keepsOthers_cancel (h : WellKeyed u) {v : SipUe} (i : Nat) {d d' : CallDialog}
    (hd : d ∈ u.dialogs) (hc : d'.Continues d) (hkeep : KeepsOthers u v d) :
    KeepsOthers u (v.cancelDialogTimers i d') d := by
  intro e he hne t ht
  have hring := h.ring e he t ht
  have hpos : e.noanswerTimer ≠ 0 := Nat.pos_iff_ne_zero.mp (h.ids _ ht).1
  have hfirst : e.noanswerTimer ≠ d'.firstResponseTimer := by
    rcases hc.first with heq | heq <;> rw [heq]
    · intro heq
      have hclash := h.first d hd t (heq ▸ ht)
      rw [hring] at hclash
      cases hclash
    · exact hpos
  have hno : e.noanswerTimer ≠ d'.noanswerTimer := by
    rcases hc.ring with heq | heq <;> rw [heq]
    · intro heq
      have hclash := h.ring d hd t (heq ▸ ht)
      rw [hring] at hclash
      injection hclash with _ hpeer hcall
      exact hne (by rw [CallDialog.key, CallDialog.key, hpeer, hcall])
    · exact hpos
  have hauto : e.noanswerTimer ≠ d'.autoanswerTimer := by
    rcases hc.auto with heq | heq <;> rw [heq]
    · intro heq
      have hclash := h.auto d hd t (heq ▸ ht)
      rw [hring] at hclash
      cases hclash
    · exact hpos
  exact mem_cancelTimer (mem_cancelTimer (mem_cancelTimer (hkeep e he hne t ht) hfirst) hno) hauto

theorem eraseDialog_wellKeyed (h : WellKeyed u) {i : Nat} {d : CallDialog}
    (hi : u.dialogs[i]? = some d) : WellKeyed (u.eraseDialog i d) :=
  h.erase hi (eraseDialog_dialogs u i d) (cancelDialogTimers_sublist u i d)
    (cancelDialogTimers_nextTimerId u i d)
    (h.keepsOthers_cancel i (List.mem_of_getElem? hi) (.refl d) (.refl u d))

theorem WellKeyed.withFailure (h : WellKeyed u) (reason : String) :
    WellKeyed { u with lastCallFail := reason } :=
  ⟨h.keys, h.ids, h.nextPos, h.fields, h.first, h.ring, h.auto, h.pending⟩

theorem failCall_wellKeyed (h : WellKeyed u) {i : Nat} {d : CallDialog}
    (hi : u.dialogs[i]? = some d) (reason : String) : WellKeyed (u.failCall i d reason) :=
  eraseDialog_wellKeyed (h.withFailure reason) hi

/-- The two ways a dialog gets established differ in what is sent only. -/
theorem establish_wellKeyed (h : WellKeyed u) {i : Nat} {d : CallDialog}
    (hi : u.dialogs[i]? = some d) :
    WellKeyed ((u.cancelDialogTimers i d).setDialog i { d with
      state := .established, firstResponseTimer := 0, noanswerTimer := 0
      autoanswerTimer := 0 }) := by
  refine h.replace hi ?_ (cancelDialogTimers_setDialog u i d _) (cancelDialogTimers_sublist u i d)
    (cancelDialogTimers_nextTimerId u i d)
    (h.keepsOthers_cancel i (List.mem_of_getElem? hi) (.refl d) (.refl u d)) ?_
  · exact ⟨rfl, rfl, rfl, .inr rfl, .inr rfl, .inr rfl⟩
  · simp

/-- A fresh dialog under a free key, with timers nobody refers to yet. -/
theorem WellKeyed.push (h : WellKeyed u) {u' : SipUe} {d : CallDialog}
    {armed : List (Nat × DialogTimer)} (hdialogs : u'.dialogs = u.dialogs ++ [d])
    (htimers : u'.timers = u.timers ++ armed) (hfree : ∀ e ∈ u.dialogs, e.key ≠ d.key)
    (hnext : u.nextTimerId ≤ u'.nextTimerId)
    (hids : ∀ t ∈ armed, u.nextTimerId ≤ t.1 ∧ t.1 < u'.nextTimerId)
    (hfields : ∀ id ∈ [d.firstResponseTimer, d.noanswerTimer, d.autoanswerTimer],
      id < u'.nextTimerId ∧ ∀ t, (id, t) ∉ u.timers)
    (hfirst : ∀ t, (d.firstResponseTimer, t) ∈ armed → t = ⟨.firstResponse, d.peer, d.callId⟩)
    (hring : ∀ t, (d.noanswerTimer, t) ∈ armed → t = ⟨.noAnswer, d.peer, d.callId⟩)
    (hauto : ∀ t, (d.autoanswerTimer, t) ∈ armed → t = ⟨.autoAnswer, d.peer, d.callId⟩)
    (hpending : d.state = .outgoingRinging → ∃ t, (d.noanswerTimer, t) ∈ armed) :
    WellKeyed u' := by
  -- the timers of an old dialog are older than the new ones
  have hold : ∀ id, id < u.nextTimerId → ∀ t, (id, t) ∈ u'.timers → (id, t) ∈ u.timers := by
    intro id hid t ht
    rw [htimers, List.mem_append] at ht
    rcases ht with ht | ht
    · exact ht
    · exact absurd (hids _ ht).1 (Nat.not_le.mpr hid)
  have hnew : ∀ id ∈ [d.firstResponseTimer, d.noanswerTimer, d.autoanswerTimer],
      ∀ t, (id, t) ∈ u'.timers → (id, t) ∈ armed := by
    intro id hid t ht
    rw [htimers, List.mem_append] at ht
    exact ht.resolve_left ((hfields id hid).2 t)
  have hcases : ∀ e ∈ u'.dialogs, e ∈ u.dialogs ∨ e = d := by
    intro e he
    rw [hdialogs, List.mem_append, List.mem_singleton] at he
    exact he
  refine ⟨?_, ?_, Nat.lt_of_lt_of_le h.nextPos hnext, ?_, ?_, ?_, ?_, ?_⟩
  · rw [hdialogs, List.map_append, List.map_singleton]
    apply List.Nodup.append h.keys (List.nodup_singleton _)
    intro k hk hk'
    obtain ⟨e, he, rfl⟩ := List.mem_map.mp hk
    exact hfree e he (List.mem_singleton.mp hk')
  · intro t ht
    rw [htimers, List.mem_append] at ht
    rcases ht with ht | ht
    · have := h.ids t ht
      omega
    · have := hids t ht
      have := h.nextPos
      omega
  · intro e he
    rcases hcases e he with he | rfl
    · have := h.fields e he
      omega
    · exact ⟨(hfields _ (by simp)).1, (hfields _ (by simp)).1, (hfields _ (by simp)).1⟩
  · intro e he t ht
    rcases hcases e he with he | rfl
    · exact h.first e he t (hold _ (h.fields e he).1 t ht)
    · exact hfirst t (hnew _ (by simp) t ht)
  · intro e he t ht
    rcases hcases e he with he | rfl
    · exact h.ring e he t (hold _ (h.fields e he).2.1 t ht)
    · exact hring t (hnew _ (by simp) t ht)
  · intro e he t ht
    rcases hcases e he with he | rfl
    · exact h.auto e he t (hold _ (h.fields e he).2.2 t ht)
    · exact hauto t (hnew _ (by simp) t ht)
  · intro e he hout
    rw [htimers]
    rcases hcases e he with he | rfl
    · obtain ⟨t, ht⟩ := h.pending e he hout
      exact ⟨t, List.mem_append_left _ ht⟩
    · obtain ⟨t, ht⟩ := hpending hout
      exact ⟨t, List.mem_append_right _ ht⟩

/-! ## Commands -/

/-- A new dialog needs a key that is free. -/
theorem startDialog_wellKeyed (h : WellKeyed u) (kind : MediaKind) (dst : Imsi)
    (hfree : ∀ e ∈ u.dialogs, e.key ≠ (dst, u.nextCallId)) (confId : UInt32) :
    WellKeyed (u.startDialog kind dst confId).1 := by
  have hfresh : ∀ id, u.nextTimerId ≤ id → ∀ t, (id, t) ∉ u.timers := by
    intro id hid t ht
    exact absurd (h.ids _ ht).2 (Nat.not_lt.mpr hid)
  have hzero : ∀ t, (0, t) ∉ u.timers := by
    intro t ht
    exact absurd (h.ids _ ht).1 (Nat.lt_irrefl 0)
  have hpos := h.nextPos
  have htimers : (u.startDialog kind dst confId).1.timers = u.timers ++
      [(u.nextTimerId, ⟨.firstResponse, dst, u.nextCallId⟩),
        (u.nextTimerId + 1, ⟨.noAnswer, dst, u.nextCallId⟩)] := by
    simp [startDialog, schedule]
  have hnext : (u.startDialog kind dst confId).1.nextTimerId = u.nextTimerId + 2 := rfl
  refine h.push rfl htimers hfree ?_ ?_ ?_ ?_ ?_ ?_ ?_
  · omega
  · intro t ht
    rw [List.mem_pair] at ht
    rcases ht with rfl | rfl
    · exact ⟨Nat.le_refl _, by omega⟩
    · exact ⟨Nat.le_succ _, by omega⟩
  · intro id hid
    simp only [List.mem_cons, List.not_mem_nil, or_false] at hid
    rcases hid with rfl | rfl | rfl
    · exact ⟨show u.nextTimerId < _ by omega, hfresh _ (Nat.le_refl _)⟩
    · exact ⟨show u.nextTimerId + 1 < _ by omega, hfresh _ (Nat.le_succ _)⟩
    · exact ⟨show 0 < _ by omega, hzero⟩
  · simp [schedule]
  · simp [schedule]
  · simp
    omega
  · simp [schedule]

/-- An INVITE from outside is given its own key. -/
theorem inviteNew_wellKeyed (h : WellKeyed u) (src : Imsi) (msg : SigMessage) :
    WellKeyed (u.inviteNew src msg).1 := by
  unfold inviteNew
  split
  · exact h
  · rename_i hempty
    have hnone : u.dialogs = [] := not_ne_iff.mp hempty
    have hfree : ∀ d : CallDialog, ∀ e ∈ u.dialogs, e.key ≠ d.key := by simp [hnone]
    have hfresh : ∀ t, (u.nextTimerId, t) ∉ u.timers := by
      intro t ht
      exact absurd (h.ids _ ht).2 (Nat.lt_irrefl _)
    have hzero : ∀ t, (0, t) ∉ u.timers := by
      intro t ht
      exact absurd (h.ids _ ht).1 (Nat.lt_irrefl 0)
    have hpos := h.nextPos
    dsimp only
    split
    · -- auto-answer is on: one timer is armed
      refine h.push rfl rfl (hfree _) (Nat.le_succ _) ?_ ?_ ?_ ?_ ?_ ?_
      · simp [schedule]
      · intro id hid
        simp only [List.mem_cons, List.not_mem_nil, or_false] at hid
        rcases hid with rfl | rfl | rfl
        · exact ⟨Nat.succ_pos _, hzero⟩
        · exact ⟨Nat.succ_pos _, hzero⟩
        · exact ⟨Nat.lt_succ_self _, hfresh⟩
      · simp
        omega
      · simp
        omega
      · simp [schedule]
      · simp
    · refine h.push rfl (List.append_nil _).symm (hfree _) (Nat.le_refl _) ?_ ?_ ?_ ?_ ?_ ?_
      · simp
      · intro id hid
        simp only [List.mem_cons, List.not_mem_nil, or_false, or_self] at hid
        subst hid
        exact ⟨hpos, hzero⟩
      · simp
      · simp
      · simp
      · simp

theorem handleSigFound_wellKeyed (h : WellKeyed u) {i : Nat} {d : CallDialog}
    (hi : u.dialogs[i]? = some d) (method : SigMethod) :
    WellKeyed (u.handleSigFound i d method).1 := by
  have hd : d ∈ u.dialogs := List.mem_of_getElem? hi
  cases method with
  | invite => exact h
  | ringing180 =>
    unfold handleSigFound
    dsimp only
    split
    · rename_i hout
      obtain ⟨t, ht⟩ := h.pending d hd hout
      have hkeep : ∀ e ∈ u.dialogs, ∀ t, (e.noanswerTimer, t) ∈ u.timers →
          (e.noanswerTimer, t) ∈ (u.cancelTimer d.firstResponseTimer).timers := by
        intro e he t ht
        apply mem_cancelTimer ht
        intro heq
        have hclash := h.first d hd t (heq ▸ ht)
        rw [h.ring e he t ht] at hclash
        cases hclash
      refine h.replace hi ?_ (cancelTimer_setDialog u _ i _) (cancelTimer_sublist u _)
        (cancelTimer_nextTimerId u _) (fun e he _ => hkeep e he) (fun _ => ⟨t, hkeep d hd t ht⟩)
      exact ⟨rfl, rfl, rfl, .inr rfl, .inl rfl, .inl rfl⟩
    · exact h
  | ok200 =>
    unfold handleSigFound
    dsimp only
    split
    · exact establish_wellKeyed h hi
    · exact h
  | ack => exact h
  | bye =>
    unfold handleSigFound
    dsimp only
    split
    · exact eraseDialog_wellKeyed h hi
    · exact h
  | okBye => exact h
  | busy486 | decline603 =>
    unfold handleSigFound
    dsimp only
    split
    · exact failCall_wellKeyed h hi _
    · exact h
  | cancel =>
    unfold handleSigFound
    dsimp only
    split
    · exact eraseDialog_wellKeyed h hi
    · exact h

/-- Signalling keeps the table well keyed. -/
theorem handleSig_wellKeyed (h : WellKeyed u) (src : Imsi) (msg : SigMessage) :
    WellKeyed (u.handleSig src msg).1 := by
  unfold handleSig
  split
  · split
    · exact h
    · rename_i hi
      exact handleSigFound_wellKeyed h hi msg.method
  · split
    · exact inviteNew_wellKeyed h src msg
    · exact h
    · exact h

theorem onSig_wellKeyed (h : WellKeyed u) (src : Imsi) (payload : Bytes) :
    WellKeyed (u.onSig src payload).1 := by
  unfold onSig
  split
  · exact h
  · split
    · exact h
    · exact handleSig_wellKeyed h src _

/-- A dialog found has the key looked for. -/
theorem findDialog_some {peer : Imsi} {callId : UInt32} {i : Nat}
    (h : u.findDialog peer callId = some i) :
    ∃ d, u.dialogs[i]? = some d ∧ d.key = (peer, callId) := by
  obtain ⟨hi, hp, -⟩ := List.findIdx?_eq_some_iff_getElem.mp h
  refine ⟨u.dialogs[i], List.getElem?_eq_getElem hi, ?_⟩
  obtain ⟨hpeer, hcall⟩ := of_decide_eq_true hp
  rw [CallDialog.key, hpeer, hcall]

theorem findDialog_eq_none {peer : Imsi} {callId : UInt32} :
    u.findDialog peer callId = none ↔ ∀ d ∈ u.dialogs, d.key ≠ (peer, callId) := by
  simp [findDialog, List.findIdx?_eq_none_iff, CallDialog.key]

/-- The entry a captured key leads back to is the one it was captured for. -/
theorem WellKeyed.findDialog_eq (h : WellKeyed u) {i : Nat} {d : CallDialog}
    (hi : u.dialogs[i]? = some d) : u.findDialog d.peer d.callId = some i := by
  have hfind := Keyed.findIdx?_getElem? h.keys hi
  unfold findDialog
  rw [← hfind]
  congr 1
  funext e
  simp [CallDialog.key]

/-- What a fired timer leaves pending: only timers under its own key are affected. -/
theorem WellKeyed.keepsOthers_fired (h : WellKeyed u) {id : Nat} {t : DialogTimer}
    (ht : (id, t) ∈ u.timers) {d : CallDialog} (hkey : d.key = t.key) :
    KeepsOthers u (u.cancelTimer id) d := by
  intro e he hne t' ht'
  apply mem_cancelTimer ht'
  intro heq
  subst heq
  have hown := h.ring e he t ht
  exact hne (by rw [hkey, hown]; rfl)

/-- A first-response or auto-answer timer is not the no-answer timer of a dialog. -/
theorem WellKeyed.pending_fired (h : WellKeyed u) {id : Nat} {t : DialogTimer}
    (ht : (id, t) ∈ u.timers) (hkind : t.kind ≠ .noAnswer) {d : CallDialog} (hd : d ∈ u.dialogs)
    (hout : d.state = .outgoingRinging) :
    ∃ t, (d.noanswerTimer, t) ∈ (u.cancelTimer id).timers := by
  obtain ⟨t', ht'⟩ := h.pending d hd hout
  refine ⟨t', mem_cancelTimer ht' ?_⟩
  intro heq
  subst heq
  apply hkind
  rw [h.ring d hd t ht]

theorem onTimer_wellKeyed (h : WellKeyed u) {id : Nat} {t : DialogTimer}
    (ht : (id, t) ∈ u.timers) : WellKeyed ((u.cancelTimer id).onTimer t).1 := by
  unfold onTimer
  split
  · -- nobody has the key, so nobody loses a timer
    rename_i hnone
    have hfree := findDialog_eq_none.mp hnone
    rw [cancelTimer_dialogs] at hfree
    apply h.shrink
    · rw [cancelTimer_dialogs]
    · exact cancelTimer_sublist u id
    · exact cancelTimer_nextTimerId u id
    · intro d hd
      rw [cancelTimer_dialogs] at hd
      exact ⟨d, hd, .refl d⟩
    · intro d hd hout
      rw [cancelTimer_dialogs] at hd
      obtain ⟨t', ht'⟩ := h.pending d hd hout
      refine ⟨t', mem_cancelTimer ht' ?_⟩
      intro heq
      subst heq
      have hown := h.ring d hd t ht
      exact hfree d hd (by rw [hown]; rfl)
  · rename_i i hfound
    obtain ⟨d, hi, hkey⟩ := findDialog_some hfound
    rw [hi]
    rw [cancelTimer_dialogs] at hi
    have hd : d ∈ u.dialogs := List.mem_of_getElem? hi
    have hothers : KeepsOthers u (u.cancelTimer id) d := h.keepsOthers_fired ht hkey
    have hsub := cancelTimer_sublist u id
    -- the dialog goes, or stays with one timer field cleared
    have herase : ∀ d' : CallDialog, d'.Continues d → ∀ reason,
        WellKeyed (((u.cancelTimer id).setDialog i d').failCall i d' reason) := by
      intro d' hc reason
      apply h.erase hi
      · simp [failCall, List.eraseIdx_set_eq]
      · exact (cancelDialogTimers_sublist _ i d').trans hsub
      · simp [failCall, eraseDialog, setDialog]
      · exact h.keepsOthers_cancel i hd hc hothers
    have hreplace : ∀ d' : CallDialog, d'.Continues d →
        (d'.state = .outgoingRinging → ∃ t, (d'.noanswerTimer, t) ∈ (u.cancelTimer id).timers) →
        WellKeyed ((u.cancelTimer id).setDialog i d') := by
      intro d' hc hpending
      exact h.replace hi hc (cancelTimer_setDialog u id i d') hsub (cancelTimer_nextTimerId u id)
        hothers hpending
    dsimp only
    split
    · rename_i hkind
      have hc : ({ d with firstResponseTimer := 0 } : CallDialog).Continues d :=
        ⟨rfl, rfl, rfl, .inr rfl, .inl rfl, .inl rfl⟩
      split
      · exact herase _ hc _
      · have hpending := h.pending_fired ht (by rw [hkind]; decide) hd
        exact hreplace _ hc hpending
    · have hc : ({ d with noanswerTimer := 0 } : CallDialog).Continues d :=
        ⟨rfl, rfl, rfl, .inl rfl, .inr rfl, .inl rfl⟩
      split
      · exact herase _ hc _
      · rename_i hstate
        exact hreplace _ hc (fun hout => absurd hout hstate)
    · rename_i hkind
      have hc : ({ d with autoanswerTimer := 0 } : CallDialog).Continues d :=
        ⟨rfl, rfl, rfl, .inl rfl, .inl rfl, .inr rfl⟩
      have hpending := h.pending_fired ht (by rw [hkind]; decide) hd
      have hset := hreplace _ hc hpending
      split
      · apply establish_wellKeyed hset
        rw [cancelTimer_setDialog, List.getElem?_set_self (List.getElem?_eq_some_iff.mp hi).1]
      · exact hset

theorem fire_wellKeyed (h : WellKeyed u) (id : Nat) : WellKeyed (u.fire id).1 := by
  unfold fire
  split
  · exact h
  · rename_i t hfind
    obtain ⟨id', timer⟩ := t
    obtain rfl : id' = id := by simpa using List.find?_some hfind
    have hmem := List.mem_of_find?_eq_some hfind
    have hpos : id' ≠ 0 := Nat.pos_iff_ne_zero.mp (h.ids _ hmem).1
    have hcancel : ({ u with timers := u.timers.eraseP fun t => t.1 = id' } : SipUe) =
        u.cancelTimer id' := by
      rw [cancelTimer, if_neg hpos]
    rw [hcancel]
    exact onTimer_wellKeyed h hmem

theorem endTarget_wellKeyed (h : WellKeyed u) (target : Option Nat) :
    WellKeyed (u.endTarget target).1 := by
  unfold endTarget
  split
  · exact h
  · split
    · exact h
    · rename_i hi
      unfold endDialog
      split
      · exact h
      · exact eraseDialog_wellKeyed h hi
      · exact eraseDialog_wellKeyed h hi
      · exact eraseDialog_wellKeyed h hi

theorem endConfLoop_wellKeyed (fuel : Nat) {u : SipUe} (h : WellKeyed u) :
    WellKeyed (endConfLoop fuel u).1 := by
  induction fuel generalizing u with
  | zero => exact h
  | succ fuel ih =>
    unfold endConfLoop
    split
    · exact h
    · exact ih (endTarget_wellKeyed h _)

theorem stopStreamsLoop_wellKeyed (notify : Bool) (fuel : Nat) {u : SipUe} (h : WellKeyed u) :
    WellKeyed (stopStreamsLoop notify fuel u).1 := by
  induction fuel generalizing u with
  | zero => exact h
  | succ fuel ih =>
    unfold stopStreamsLoop
    split
    · exact h
    · rename_i hi
      exact ih (eraseDialog_wellKeyed h hi)

theorem answer_wellKeyed (h : WellKeyed u) : WellKeyed u.answer.1 := by
  unfold answer
  split
  · exact h
  · split
    · exact h
    · rename_i hi
      exact establish_wellKeyed h hi

theorem decline_wellKeyed (h : WellKeyed u) : WellKeyed u.decline.1 := by
  unfold decline
  split
  · exact h
  · split
    · exact h
    · rename_i hi
      exact eraseDialog_wellKeyed h hi

end SipUe

end AetherStack.Source
