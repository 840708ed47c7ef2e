import AetherStack.Lib.Run
import AetherStack.Source.SipDialogs

/-!
# Distinct dialog keys

One `UeNode` under any commands, timers and received signalling. The call numbers of the
peers are arbitrary, so whatever counters their own code keeps are covered. Numbers this UE
chose and numbers its peers chose share one key space: the theorem says for every run that
the table stays unambiguous exactly as long as the two never meet.
-/
namespace AetherStack.Guarantees
open Source Lib

inductive SipEvent where
  | command (c : SipCommand)
  | receive (src : Imsi) (payload : Bytes)
  deriving DecidableEq, Repr

namespace DialogRun

def init (imsi : Imsi) (autoanswerMs : UInt32) : SipUe :=
  { imsi := imsi, autoanswerMs := autoanswerMs }

def step (u : SipUe) : SipEvent → Option SipUe
  | .command c => some (u.command c).1
  | .receive src payload => some (u.onSig src payload).1

/-- No two dialogs share a key, and the timers of an outgoing call lead back to it. -/
structure Distinct (u : SipUe) : Prop where
  keys : (u.dialogs.map CallDialog.key).Nodup
  armed : ∀ d ∈ u.dialogs, d.state = .outgoingRinging → ∃ t, (d.noanswerTimer, t) ∈ u.timers
  found : ∀ (i : Nat) (d : CallDialog), u.dialogs[i]? = some d → d.state = .outgoingRinging →
    ∀ id t, (id, t) ∈ u.timers → id = d.firstResponseTimer ∨ id = d.noanswerTimer →
      u.findDialog t.peer t.callId = some i

/-- An INVITE is answered with 180 or 200 for a dialog this UE started. -/
def Mistaken (u : SipUe) (e : SipEvent) : Prop :=
  ∃ src payload msg, e = .receive src payload ∧ decodeSig payload = some msg ∧
    msg.method = .invite ∧ ∃ reply ∈ (u.onSig src payload).2, ∃ m,
      decodeSig reply.payload = some m ∧ (m.method = .ringing180 ∨ m.method = .ok200) ∧
      ∃ d ∈ (u.onSig src payload).1.dialogs, d.key = (reply.dst, m.callId) ∧ d.startedHere = true

/-- A call that starts takes a number free with its peer, and an INVITE does not carry the
number of a call this UE started with its sender. -/
def Unambiguous (u : SipUe) : SipEvent → Prop
  | .command (.startCall registered kind dst) =>
    registered = false ∨ kind = .msg ∨ kind = .sig ∨ (u.findDialogByKind kind).isSome ∨
      u.findDialog dst u.nextCallId = none
  | .command _ => True
  | .receive src payload =>
    ∀ msg ∈ decodeSig payload, src = u.imsi ∨ msg.method ≠ .invite ∨
      ∀ d ∈ u.dialogs, d.key = (src, msg.callId) → d.startedHere = false

instance (u : SipUe) : (e : SipEvent) → Decidable (Unambiguous u e)
  | .command (.startCall registered kind dst) =>
    inferInstanceAs (Decidable (registered = false ∨ kind = .msg ∨ kind = .sig ∨
      (u.findDialogByKind kind).isSome ∨ u.findDialog dst u.nextCallId = none))
  | .command (.startConf ..) | .command .answer | .command .decline | .command .endCall
  | .command (.endCallKind _) | .command .endConf | .command (.stopStreams _)
  | .command (.setAutoanswer _) | .command (.fire _) => isTrue trivial
  | .receive src payload =>
    inferInstanceAs (Decidable (∀ msg ∈ decodeSig payload, src = u.imsi ∨
      msg.method ≠ .invite ∨ ∀ d ∈ u.dialogs, d.key = (src, msg.callId) → d.startedHere = false))

theorem distinct_of_wellKeyed {u : SipUe} (h : u.WellKeyed) : Distinct u := by
  refine ⟨h.keys, h.pending, ?_⟩
  intro i d hi _ id t ht hid
  have hd : d ∈ u.dialogs := List.mem_of_getElem? hi
  rcases hid with rfl | rfl
  · rw [h.first d hd t ht]
    exact h.findDialog_eq hi
  · rw [h.ring d hd t ht]
    exact h.findDialog_eq hi

/-! ## One step -/

theorem startConf_wellKeyed {u : SipUe} (h : u.WellKeyed) (registered : Bool) (crnti : UInt16)
    (imsiB imsiC : Imsi) : (u.startConf registered crnti imsiB imsiC).1.WellKeyed := by
  unfold SipUe.startConf
  split
  · exact h
  · split
    · exact h.withFailure _
    · rename_i hempty
      have hnone : u.dialogs = [] := not_ne_iff.mp hempty
      have hseq : ({ u with nextConfSeq := u.nextConfSeq + 1 } : SipUe).WellKeyed :=
        ⟨h.keys, h.ids, h.nextPos, h.fields, h.first, h.ring, h.auto, h.pending⟩
      have hfirst := SipUe.startDialog_wellKeyed hseq .voice imsiB (by simp [hnone])
        ((UInt32.ofNat crnti.toNat <<< 16) ||| u.nextConfSeq)
      apply SipUe.startDialog_wellKeyed hfirst
      -- the second number is the next one, whoever the parties are
      intro e he
      have he' : e.callId = u.nextCallId := by
        simp [SipUe.startDialog, hnone] at he
        rw [he]
      intro hkey
      have hnext := congrArg Prod.snd hkey
      simp only [CallDialog.key, he'] at hnext
      exact absurd hnext (by simp [SipUe.startDialog])

theorem step_wellKeyed {u u' : SipUe} {e : SipEvent} (h : u.WellKeyed) (clear : Unambiguous u e)
    (hstep : step u e = some u') : u'.WellKeyed := by
  cases e with
  | receive src payload =>
    rw [← Option.some.inj hstep]
    exact SipUe.onSig_wellKeyed h src payload
  | command c =>
    rw [← Option.some.inj hstep]
    cases c with
    | startCall registered kind dst =>
      simp only [SipUe.command, SipUe.startCall]
      split
      · exact h
      · rename_i hregistered
        split
        · exact h
        · rename_i hkind
          split
          · exact h.withFailure _
          · rename_i hfree
            rcases clear with hc | hc | hc | hc | hc
            · exact absurd hc hregistered
            · exact absurd (.inl hc) hkind
            · exact absurd (.inr hc) hkind
            · exact absurd hc hfree
            · exact SipUe.startDialog_wellKeyed h kind dst (SipUe.findDialog_eq_none.mp hc) 0
    | startConf registered crnti imsiB imsiC => exact startConf_wellKeyed h _ _ _ _
    | answer => exact SipUe.answer_wellKeyed h
    | decline => exact SipUe.decline_wellKeyed h
    | endCall => exact SipUe.endTarget_wellKeyed h _
    | endCallKind kind => exact SipUe.endTarget_wellKeyed h _
    | endConf => exact SipUe.endConfLoop_wellKeyed _ h
    | stopStreams notify => exact SipUe.stopStreamsLoop_wellKeyed notify _ h
    | setAutoanswer ms =>
      exact ⟨h.keys, h.ids, h.nextPos, h.fields, h.first, h.ring, h.auto, h.pending⟩
    | fire id => exact SipUe.fire_wellKeyed h id

/-- A start under a taken number puts two dialogs under one key. -/
theorem start_collides {u : SipUe} {registered : Bool} {kind : MediaKind} {dst : Imsi}
    (taken : ¬ Unambiguous u (.command (.startCall registered kind dst))) :
    ¬ Distinct (u.command (.startCall registered kind dst)).1 := by
  simp only [Unambiguous, not_or] at taken
  obtain ⟨hregistered, hmsg, hsig, hbusy, htaken⟩ := taken
  have hstart : (u.command (.startCall registered kind dst)).1 = (u.startDialog kind dst 0).1 := by
    simp only [SipUe.command, SipUe.startCall, if_neg hregistered, if_neg hbusy]
    rw [if_neg (not_or.mpr ⟨hmsg, hsig⟩)]
  obtain ⟨i, hi⟩ := Option.ne_none_iff_exists'.mp htaken
  obtain ⟨d, hd, hkey⟩ := SipUe.findDialog_some hi
  intro hdistinct
  have hkeys := hdistinct.keys
  rw [hstart] at hkeys
  simp only [SipUe.startDialog, List.map_append, List.map_singleton] at hkeys
  have hdisjoint := (List.nodup_append.mp hkeys).2.2
  exact hdisjoint _ (List.mem_map_of_mem (List.mem_of_getElem? hd)) _ (List.mem_singleton_self _)
    (by rw [hkey]; rfl)

/-- An INVITE under the number of an own call is answered for that call. -/
theorem invite_mistaken {u : SipUe} (h : u.WellKeyed) {src : Imsi} {payload : Bytes}
    (meets : ¬ Unambiguous u (.receive src payload)) : Mistaken u (.receive src payload) := by
  simp only [Unambiguous, not_forall, not_or, not_not] at meets
  obtain ⟨msg, hmsg, hsrc, hinvite, d, hd, hkey, hown⟩ := meets
  rw [Option.mem_def] at hmsg
  obtain ⟨i, hi⟩ := List.mem_iff_getElem?.mp hd
  have hfind : u.findDialog src msg.callId = some i := by
    have hself := h.findDialog_eq hi
    rwa [show d.peer = src from congrArg Prod.fst hkey,
      show d.callId = msg.callId from congrArg Prod.snd hkey] at hself
  have hout : u.onSig src payload =
      (u, [d.sendSig (if d.state = .established then .ok200 else .ringing180)]) := by
    simp [SipUe.onSig, hsrc, hmsg, SipUe.handleSig, hfind, hi, hinvite, SipUe.handleSigFound]
  refine ⟨src, payload, msg, rfl, hmsg, hinvite,
    d.sendSig (if d.state = .established then .ok200 else .ringing180), ?_, _,
    decodeSig_encodeSig _, ?_, d, ?_, ?_, ?_⟩
  · rw [hout]
    exact List.mem_singleton_self _
  · dsimp only
    split
    · exact .inr rfl
    · exact .inl rfl
  · rw [hout]
    exact hd
  · rfl
  · simpa using hown

/-- Without that, 180 and 200 go out for calls of the sender only. -/
theorem not_mistaken {u : SipUe} (h : u.WellKeyed) {e : SipEvent} (clear : Unambiguous u e) :
    ¬ Mistaken u e := by
  rintro ⟨src, payload, msg, rfl, hmsg, hinvite, reply, hreply, m, hm, hmethod, d, hd, hkey, hown⟩
  have clear := clear msg hmsg
  by_cases hself : src = u.imsi
  · simp [SipUe.onSig, hself] at hreply
  · have hclear := (clear.resolve_left hself).resolve_left (not_not.mpr hinvite)
    have hon : u.onSig src payload = u.handleSig src msg := by
      simp [SipUe.onSig, hself, hmsg]
    rw [hon, SipUe.handleSig] at hreply hd
    cases hfind : u.findDialog src msg.callId with
    | some i =>
      -- the answer is for the dialog found, which the sender started
      obtain ⟨f, hi, hfkey⟩ := SipUe.findDialog_some hfind
      simp only [hfind, hi, hinvite, SipUe.handleSigFound, List.mem_singleton] at hreply hd
      subst hreply
      rw [CallDialog.sendSig, sendSigTo, decodeSig_encodeSig] at hm
      obtain rfl := Option.some.inj hm
      have hsame : d = f := List.inj_on_of_nodup_map h.keys hd (List.mem_of_getElem? hi) hkey
      have hfalse := hclear f (List.mem_of_getElem? hi) hfkey
      rw [hsame, hfalse] at hown
      cases hown
    | none =>
      simp only [hfind, hinvite, SipUe.inviteNew] at hreply hd
      split at hreply
      · -- occupied: 486
        obtain rfl := List.mem_singleton.mp hreply
        rw [sendSigTo, decodeSig_encodeSig] at hm
        obtain rfl := Option.some.inj hm
        rcases hmethod with hbad | hbad <;> cases hbad
      · rename_i hempty
        rw [if_neg hempty, not_ne_iff.mp hempty] at hd
        simp only [List.nil_append, List.mem_singleton] at hd
        rw [hd] at hown
        cases hown

/-! ## Every run -/

/-- Along a run, the keys and timers are unambiguous as long as no command takes a key that is
there. -/
theorem holds_iff {u : SipUe} (h : u.WellKeyed) (events : List SipEvent) :
    (Always step Distinct u events ∧ StepsMeet step (fun u e => ¬ Mistaken u e) u events) ↔
      StepsMeet step Unambiguous u events := by
  induction events generalizing u with
  | nil => exact ⟨fun _ => trivial, fun _ => ⟨distinct_of_wellKeyed h, trivial⟩⟩
  | cons e events ih =>
    constructor
    · rintro ⟨⟨-, halways⟩, hmistaken, hrest⟩
      -- the first ambiguous step would already show in the next state or in the reply
      have hclear : Unambiguous u e := by
        by_contra hbad
        cases e with
        | receive src payload => exact hmistaken (invite_mistaken h hbad)
        | command c =>
          cases c with
          | startCall registered kind dst =>
            exact start_collides hbad (halways _ rfl).start
          | _ => exact hbad trivial
      refine ⟨hclear, fun u' hstep => ?_⟩
      exact (ih (step_wellKeyed h hclear hstep)).mp ⟨halways u' hstep, hrest u' hstep⟩
    · rintro ⟨hclear, hrest⟩
      have hnext : ∀ u', step u e = some u' → Always step Distinct u' events ∧
          StepsMeet step (fun u e => ¬ Mistaken u e) u' events := by
        intro u' hstep
        exact (ih (step_wellKeyed h hclear hstep)).mpr (hrest u' hstep)
      exact ⟨⟨distinct_of_wellKeyed h, fun u' hstep => (hnext u' hstep).1⟩,
        not_mistaken h hclear, fun u' hstep => (hnext u' hstep).2⟩

end DialogRun

/-- In every run of one UE: the dialog keys stay distinct, every outgoing call is found by
its own timers and no INVITE is answered for a call of this UE, exactly when no step
brings a local and a received call number together under one peer. -/
theorem dialog_keys_distinct_iff (imsi : Imsi) (autoanswerMs : UInt32) (events : List SipEvent) :
    (Always DialogRun.step DialogRun.Distinct (DialogRun.init imsi autoanswerMs) events ∧
      StepsMeet DialogRun.step (fun u e => ¬ DialogRun.Mistaken u e)
        (DialogRun.init imsi autoanswerMs) events) ↔
    StepsMeet DialogRun.step DialogRun.Unambiguous (DialogRun.init imsi autoanswerMs) events :=
  DialogRun.holds_iff (SipUe.wellKeyed_initial imsi autoanswerMs) events

/-- UE 1 is called by UE 2 under number 1 and starts a video call to UE 2 while it rings:
its own first number is 1 too. With the calls the other way round, the INVITE of UE 2 is
answered for the call of UE 1. -/
theorem dialog_keys_collide :
    ¬ Always DialogRun.step DialogRun.Distinct (DialogRun.init [1] 4000)
        [.receive [2] (encodeSig { method := .invite, callId := 1, media := .voice }),
          .command (.startCall true .video [2])] ∧
      ¬ StepsMeet DialogRun.step (fun u e => ¬ DialogRun.Mistaken u e) (DialogRun.init [1] 4000)
        [.command (.startCall true .voice [2]),
          .receive [2] (encodeSig { method := .invite, callId := 1, media := .voice })] := by
  constructor
  · intro h
    have hkeys := ((h.2 _ rfl).2 _ rfl).keys
    revert hkeys
    decide
  · intro h
    have hstart := SipUe.startDialog_wellKeyed (SipUe.wellKeyed_initial [1] 4000) .voice [2]
      (by simp) 0
    exact (h.2 _ rfl).1 (DialogRun.invite_mistaken hstart (by decide))

end AetherStack.Guarantees
