import AetherStack.Source.SipDialogs

/-!
# Dialogs and signalling of conferences

A conference number is on the two dialogs `start_conf` opens and on the dialog of a party that was
invited (ue_node.cpp 1004-1054, 1325-1350). Every other operation continues or drops dialogs and
signals for one of them, or answers the INVITE it was given: `Follows` says so of each of them. Only
`start_conf` sends an INVITE with a conference number.
-/
namespace AetherStack.Source

/-- Who started the conference of a dialog that `own` holds. -/
def CallDialog.host (own : Imsi) (d : CallDialog) : Imsi := if d.startedHere then own else d.peer

/-- A later state of the same dialog. -/
structure CallDialog.SameCall (d' d : CallDialog) : Prop where
  startedHere : d'.startedHere = d.startedHere
  peer : d'.peer = d.peer
  confId : d'.confId = d.confId

/-- The dialog of an INVITE from `src` with the number `id`. -/
structure CallDialog.OfInvite (src : Imsi) (id : UInt32) (d : CallDialog) : Prop where
  startedHere : d.startedHere = false
  peer : d.peer = src
  confId : d.confId = id

theorem CallDialog.SameCall.host_eq {d' d : CallDialog} (h : d'.SameCall d) (own : Imsi) :
    d'.host own = d.host own := by
  rw [host, host, h.startedHere, h.peer]

/-- A dialog of a conference in the first table is one of the second in a later state, or it answers
the INVITE from `src`; number 0 stands for no INVITE. -/
def Inherits (src : Imsi) (id : UInt32) (dialogs' dialogs : List CallDialog) : Prop :=
  ∀ d' ∈ dialogs', d'.confId = 0 ∨ (∃ d ∈ dialogs, d'.SameCall d) ∨ d'.OfInvite src id

/-- What is signalled about a conference concerns a dialog of the table with the addressee, or answers
the INVITE from `src`, and it is no INVITE. -/
def Speaks (src : Imsi) (id : UInt32) (dialogs : List CallDialog) (out : List SigPacket) : Prop :=
  ∀ p ∈ out, ∃ m, decodeSig p.payload = some m ∧ (m.confId = 0 ∨ m.method ≠ .invite ∧
    ((∃ d ∈ dialogs, d.peer = p.dst ∧ d.confId = m.confId) ∨ p.dst = src ∧ m.confId = id))

section
variable {src : Imsi} {id : UInt32} {dialogs dialogs' dialogs'' : List CallDialog}

namespace Inherits

theorem refl (dialogs : List CallDialog) : Inherits src id dialogs dialogs :=
  fun d hd => .inr (.inl ⟨d, hd, rfl, rfl, rfl⟩)

theorem trans (h : Inherits src id dialogs'' dialogs') (h' : Inherits src id dialogs' dialogs) :
    Inherits src id dialogs'' dialogs := by
  intro d hd
  rcases h d hd with hzero | ⟨d', hd', hsame⟩ | hinvite
  · exact .inl hzero
  · rcases h' d' hd' with hzero | ⟨d₀, hd₀, hsame'⟩ | hinvite
    · exact .inl (hsame.confId.trans hzero)
    · exact .inr (.inl ⟨d₀, hd₀, hsame.startedHere.trans hsame'.startedHere, hsame.peer.trans hsame'.peer,
        hsame.confId.trans hsame'.confId⟩)
    · exact .inr (.inr ⟨hsame.startedHere.trans hinvite.startedHere, hsame.peer.trans hinvite.peer,
        hsame.confId.trans hinvite.confId⟩)
  · exact .inr (.inr hinvite)

theorem eraseIdx (i : Nat) : Inherits src id (dialogs.eraseIdx i) dialogs :=
  fun d hd => .inr (.inl ⟨d, List.eraseIdx_subset hd, rfl, rfl, rfl⟩)

/-- A dialog in a later state. -/
theorem set {i : Nat} {d d' : CallDialog} (hi : dialogs[i]? = some d) (hsame : d'.SameCall d) :
    Inherits src id (dialogs.set i d') dialogs := by
  intro e he
  rcases List.mem_or_eq_of_mem_set he with he | rfl
  · exact .inr (.inl ⟨e, he, rfl, rfl, rfl⟩)
  · exact .inr (.inl ⟨d, List.mem_of_getElem? hi, hsame⟩)

/-- A new dialog outside any conference, or of the INVITE. -/
theorem push {d : CallDialog} (hd : d.confId = 0 ∨ d.OfInvite src id) :
    Inherits src id (dialogs ++ [d]) dialogs := by
  intro e he
  rcases List.mem_append.mp he with he | he
  · exact .inr (.inl ⟨e, he, rfl, rfl, rfl⟩)
  · obtain rfl := List.mem_singleton.mp he
    exact hd.imp_right .inr

end Inherits

namespace Speaks

theorem nil : Speaks src id dialogs [] := fun _ hp => absurd hp List.not_mem_nil

/-- Two outputs that speak so, speak so together. -/
theorem append {out out' : List SigPacket} (h : Speaks src id dialogs out) (h' : Speaks src id dialogs out') :
    Speaks src id dialogs (out ++ out') :=
  fun p hp => (List.mem_append.mp hp).elim (h p) (h' p)

theorem singleton {p : SigPacket} {m : SigMessage} (hm : decodeSig p.payload = some m)
    (h : m.confId = 0 ∨ m.method ≠ .invite ∧
      ((∃ d ∈ dialogs, d.peer = p.dst ∧ d.confId = m.confId) ∨ p.dst = src ∧ m.confId = id)) :
    Speaks src id dialogs [p] := by
  intro q hq
  obtain rfl := List.mem_singleton.mp hq
  exact ⟨m, hm, h⟩

/-- A dialog signals to its peer. -/
theorem sendSig {i : Nat} {d d' : CallDialog} (hi : dialogs[i]? = some d) (hsame : d'.SameCall d)
    {method : SigMethod} (hmethod : method ≠ .invite) : Speaks src id dialogs [d'.sendSig method] :=
  singleton (decodeSig_encodeSig _)
    (.inr ⟨hmethod, .inl ⟨d, List.mem_of_getElem? hi, hsame.peer.symm, hsame.confId.symm⟩⟩)

/-- What is said behind another operation. -/
theorem later {out : List SigPacket} (h : Speaks src id dialogs' out) (hdialogs : Inherits src id dialogs' dialogs) :
    Speaks src id dialogs out := by
  intro p hp
  obtain ⟨m, hm, hzero | ⟨hmethod, ⟨d', hd', hpeer, hconf⟩ | hreply⟩⟩ := h p hp
  · exact ⟨m, hm, .inl hzero⟩
  · rcases hdialogs d' hd' with hzero | ⟨d, hd, hsame⟩ | hinvite
    · exact ⟨m, hm, .inl (hconf.symm.trans hzero)⟩
    · exact ⟨m, hm, .inr ⟨hmethod, .inl ⟨d, hd, hsame.peer.symm.trans hpeer, hsame.confId.symm.trans hconf⟩⟩⟩
    · exact ⟨m, hm, .inr ⟨hmethod, .inr ⟨hpeer.symm.trans hinvite.peer, hconf.symm.trans hinvite.confId⟩⟩⟩
  · exact ⟨m, hm, .inr ⟨hmethod, .inr hreply⟩⟩

end Speaks

end

namespace SipUe
variable {u : SipUe} {src : Imsi} {id : UInt32}

/-- An operation that starts no conference. -/
structure Follows (src : Imsi) (id : UInt32) (u : SipUe) (next : SipUe × List SigPacket) : Prop where
  dialogs : Inherits src id next.1.dialogs u.dialogs
  sent : Speaks src id u.dialogs next.2

theorem Follows.refl (u : SipUe) : Follows src id u (u, []) := ⟨.refl _, .nil⟩

/-- Nothing is signalled and the dialogs stay. -/
theorem Follows.quiet {u' : SipUe} (h : u'.dialogs = u.dialogs) : Follows src id u (u', []) :=
  ⟨h ▸ .refl _, .nil⟩

/-- One action after the other. -/
theorem Follows.trans {next next' : SipUe × List SigPacket} (h : Follows src id u next)
    (h' : Follows src id next.1 next') : Follows src id u (next'.1, next.2 ++ next'.2) :=
  ⟨h'.dialogs.trans h.dialogs, h.sent.append (h'.sent.later h.dialogs)⟩

/-- A dialog that ends leaves the others. -/
theorem eraseDialog_inherits (u : SipUe) (i : Nat) (d : CallDialog) :
    Inherits src id (u.eraseDialog i d).dialogs u.dialogs := by
  rw [eraseDialog_dialogs]
  exact Inherits.eraseIdx i

/-- A dialog says goodbye and goes. -/
theorem eraseDialog_follows {i : Nat} {d : CallDialog} (hi : u.dialogs[i]? = some d) {method : SigMethod}
    (hmethod : method ≠ .invite) : Follows src id u (u.eraseDialog i d, [d.sendSig method]) :=
  ⟨eraseDialog_inherits u i d, .sendSig hi ⟨rfl, rfl, rfl⟩ hmethod⟩

theorem establish_inherits {i : Nat} {d : CallDialog} (hi : u.dialogs[i]? = some d) :
    Inherits src id ((u.cancelDialogTimers i d).setDialog i { d with
      state := .established, firstResponseTimer := 0, noanswerTimer := 0, autoanswerTimer := 0 }).dialogs
      u.dialogs := by
  rw [cancelDialogTimers_setDialog]
  exact Inherits.set hi ⟨rfl, rfl, rfl⟩

/-- Accepting a call opens no dialog. -/
theorem acceptCall_follows {i : Nat} {d : CallDialog} (hi : u.dialogs[i]? = some d) :
    Follows src id u (u.acceptCall i d) :=
  ⟨establish_inherits hi, .sendSig hi ⟨rfl, rfl, rfl⟩ (by decide)⟩

/-! ### Commands -/

theorem startCall_follows (u : SipUe) (registered : Bool) (kind : MediaKind) (dst : Imsi) :
    Follows src id u (u.startCall registered kind dst) := by
  unfold startCall
  split
  · exact .refl u
  · split
    · exact .refl u
    · split
      · exact .quiet rfl
      · exact ⟨Inherits.push (.inl rfl), .singleton (decodeSig_encodeSig _) (.inl rfl)⟩

theorem answer_follows (u : SipUe) : Follows src id u u.answer := by
  unfold answer
  split
  · exact .refl u
  · split
    · exact .refl u
    · rename_i hi
      exact acceptCall_follows hi

theorem decline_follows (u : SipUe) : Follows src id u u.decline := by
  unfold decline
  split
  · exact .refl u
  · split
    · exact .refl u
    · rename_i hi
      exact eraseDialog_follows hi (by decide)

/-- Hanging up speaks of the dialogs that end. -/
theorem endTarget_follows (u : SipUe) (target : Option Nat) : Follows src id u (u.endTarget target) := by
  unfold endTarget
  split
  · exact .refl u
  · split
    · exact .refl u
    · rename_i hi
      unfold endDialog
      split
      · exact .refl u
      · exact eraseDialog_follows hi (by decide)
      · exact eraseDialog_follows hi (by decide)
      · exact eraseDialog_follows hi (by decide)

theorem endConfLoop_follows (fuel : Nat) (u : SipUe) : Follows src id u (endConfLoop fuel u) := by
  induction fuel generalizing u with
  | zero => exact .refl u
  | succ fuel ih =>
    unfold endConfLoop
    split
    · exact .refl u
    · exact (endTarget_follows u _).trans (ih _)

theorem stopStreamsLoop_follows (notify : Bool) (fuel : Nat) (u : SipUe) :
    Follows src id u (stopStreamsLoop notify fuel u) := by
  induction fuel generalizing u with
  | zero => exact .refl u
  | succ fuel ih =>
    unfold stopStreamsLoop
    split
    · exact .refl u
    · rename_i d hi
      have herased : Inherits src id (u.eraseDialog 0 d).dialogs u.dialogs := eraseDialog_inherits u 0 d
      refine ⟨(ih _).dialogs.trans herased, Speaks.append ?_ ((ih _).sent.later herased)⟩
      split
      · split
        · exact .sendSig hi ⟨rfl, rfl, rfl⟩ (by decide)
        · exact .sendSig hi ⟨rfl, rfl, rfl⟩ (by decide)
        · exact .sendSig hi ⟨rfl, rfl, rfl⟩ (by decide)
      · exact .nil

/-- A dialog whose timer field was cleared gives up. -/
theorem failCall_follows {i : Nat} {d d' : CallDialog} (hi : u.dialogs[i]? = some d) (hsame : d'.SameCall d)
    (reason : String) : Follows src id u ((u.setDialog i d').failCall i d' reason, [d'.sendSig .cancel]) :=
  ⟨(eraseDialog_inherits _ i d').trans (Inherits.set hi hsame), .sendSig hi hsame (by decide)⟩

theorem onTimer_follows (u : SipUe) (t : DialogTimer) : Follows src id u (u.onTimer t) := by
  unfold onTimer
  cases u.findDialog t.peer t.callId with
  | none => exact .refl u
  | some i =>
    cases hi : u.dialogs[i]? with
    | none =>
      simp only [hi]
      exact .refl u
    | some d =>
      simp only [hi]
      cases t.kind with
      | firstResponse =>
        dsimp only
        split
        · refine failCall_follows hi ?_ _
          exact ⟨rfl, rfl, rfl⟩
        · exact ⟨Inherits.set hi ⟨rfl, rfl, rfl⟩, .nil⟩
      | noAnswer =>
        dsimp only
        split
        · refine failCall_follows hi ?_ _
          exact ⟨rfl, rfl, rfl⟩
        · exact ⟨Inherits.set hi ⟨rfl, rfl, rfl⟩, .nil⟩
      | autoAnswer =>
        dsimp only
        have hcleared : Follows src id u (u.setDialog i { d with autoanswerTimer := 0 }, []) :=
          ⟨Inherits.set hi ⟨rfl, rfl, rfl⟩, .nil⟩
        split
        · have hlt : i < u.dialogs.length := (List.getElem?_eq_some_iff.mp hi).1
          exact hcleared.trans (acceptCall_follows (List.getElem?_set_self hlt))
        · exact hcleared

theorem fire_follows (u : SipUe) (timer : Nat) : Follows src id u (u.fire timer) := by
  unfold fire
  split
  · exact .refl u
  · rename_i t _
    have hfired : Follows src id { u with timers := u.timers.eraseP fun t => t.1 = timer } _ :=
      onTimer_follows _ t.2
    exact ⟨hfired.dialogs, hfired.sent⟩

/-- Only `start_conf` starts a conference. -/
theorem command_follows (u : SipUe) {c : SipCommand}
    (h : ∀ registered crnti imsiB imsiC, c ≠ .startConf registered crnti imsiB imsiC) :
    Follows src id u (u.command c) := by
  cases c with
  | startCall registered kind dst => exact startCall_follows u registered kind dst
  | startConf registered crnti imsiB imsiC => exact absurd rfl (h registered crnti imsiB imsiC)
  | answer => exact answer_follows u
  | decline => exact decline_follows u
  | endCall => exact endTarget_follows u _
  | endCallKind kind => exact endTarget_follows u _
  | endConf => exact endConfLoop_follows _ u
  | stopStreams notify => exact stopStreamsLoop_follows notify _ u
  | setAutoanswer ms => exact .quiet rfl
  | fire timer => exact fire_follows u timer

/-- The number `start_conf` makes of the C-RNTI and its own counter. -/
def confNumber (crnti : UInt16) (seq : UInt32) : UInt32 := (UInt32.ofNat crnti.toNat <<< 16) ||| seq

/-- A conference is refused unless the UE is registered and without a dialog. -/
theorem startConf_refused {registered : Bool} (h : ¬ (registered = true ∧ u.dialogs = [])) (crnti : UInt16)
    (imsiB imsiC : Imsi) : (u.startConf registered crnti imsiB imsiC).1.dialogs = u.dialogs ∧
      (u.startConf registered crnti imsiB imsiC).2 = [] := by
  unfold startConf
  split
  · exact ⟨rfl, rfl⟩
  · rename_i hregistered
    have hbusy : u.dialogs ≠ [] := fun hfree => h ⟨by simpa using hregistered, hfree⟩
    rw [if_pos hbusy]
    exact ⟨rfl, rfl⟩

/-- A conference with two parties is started. -/
structure StartsConf (imsiB imsiC : Imsi) (id : UInt32) (next : SipUe × List SigPacket) : Prop where
  busy : next.1.dialogs ≠ []
  dialogs : ∀ d ∈ next.1.dialogs, d.startedHere = true ∧ d.confId = id ∧ (d.peer = imsiB ∨ d.peer = imsiC)
  sent : ∀ p ∈ next.2, ∃ m, decodeSig p.payload = some m ∧ m.confId = id ∧ (p.dst = imsiB ∨ p.dst = imsiC)

/-- The dialog and the INVITE of one party. -/
theorem startDialog_spec (u : SipUe) (kind : MediaKind) (dst : Imsi) (id : UInt32) :
    ∃ d p m, (u.startDialog kind dst id).1.dialogs = u.dialogs ++ [d] ∧ (u.startDialog kind dst id).2 = [p] ∧
      d.startedHere = true ∧ d.confId = id ∧ d.peer = dst ∧ p.dst = dst ∧ decodeSig p.payload = some m ∧
      m.confId = id :=
  ⟨_, _, _, rfl, rfl, rfl, rfl, rfl, rfl, decodeSig_encodeSig _, rfl⟩

/-- A conference starts with two dialogs under one identity. -/
theorem startConf_starts (hfree : u.dialogs = []) (crnti : UInt16) (imsiB imsiC : Imsi) :
    StartsConf imsiB imsiC (confNumber crnti u.nextConfSeq) (u.startConf true crnti imsiB imsiC) := by
  obtain ⟨toB, inviteB, mB, hfirst, hsentB, hstartedB, hconfB, hpeerB, hdstB, hdecodeB, hidB⟩ := startDialog_spec
    { u with nextConfSeq := u.nextConfSeq + 1 } .voice imsiB (confNumber crnti u.nextConfSeq)
  obtain ⟨toC, inviteC, mC, hsecond, hsentC, hstartedC, hconfC, hpeerC, hdstC, hdecodeC, hidC⟩ := startDialog_spec
    ({ u with nextConfSeq := u.nextConfSeq + 1 }.startDialog .voice imsiB (confNumber crnti u.nextConfSeq)).1
    .voice imsiC (confNumber crnti u.nextConfSeq)
  have hdialogs : (u.startConf true crnti imsiB imsiC).1.dialogs = [toB, toC] := by
    rw [startConf, if_neg (by decide), if_neg (not_not.mpr hfree)]
    refine hsecond.trans ?_
    rw [hfirst, hfree]
    rfl
  have hsent : (u.startConf true crnti imsiB imsiC).2 = [inviteB, inviteC] := by
    rw [startConf, if_neg (by decide), if_neg (not_not.mpr hfree)]
    exact congrArg₂ (· ++ ·) hsentB hsentC
  constructor
  · rw [hdialogs]
    exact List.cons_ne_nil _ _
  · rw [hdialogs]
    intro d hd
    rcases List.mem_pair.mp hd with rfl | rfl
    · exact ⟨hstartedB, hconfB, .inl hpeerB⟩
    · exact ⟨hstartedC, hconfC, .inr hpeerC⟩
  · rw [hsent]
    intro p hp
    rcases List.mem_pair.mp hp with rfl | rfl
    · exact ⟨mB, hdecodeB, hidB, .inl hdstB⟩
    · exact ⟨mC, hdecodeC, hidC, .inr hdstC⟩

/-- Below `2 ^ 16` the counter stays out of the half of the C-RNTI. -/
theorem toNat_confNumber (crnti : UInt16) {seq : UInt32} (h : seq.toNat < 2 ^ 16) :
    (confNumber crnti seq).toNat = crnti.toNat * 2 ^ 16 + seq.toNat := by
  have hlt : crnti.toNat < 2 ^ 16 := crnti.toNat_lt
  have hshift : crnti.toNat <<< 16 = crnti.toNat * 2 ^ 16 := Nat.shiftLeft_eq _ _
  have hsmall : crnti.toNat * 2 ^ 16 < 2 ^ 32 := by omega
  have hor : crnti.toNat * 2 ^ 16 ||| seq.toNat = crnti.toNat * 2 ^ 16 + seq.toNat := by
    rw [← hshift]
    exact (Nat.shiftLeft_add_eq_or_of_lt h _).symm
  rw [confNumber, UInt32.toNat_or, UInt32.toNat_shiftLeft, UInt32.toNat_ofNat_of_lt' (hlt.trans (by decide))]
  show (crnti.toNat <<< 16) % 2 ^ 32 ||| seq.toNat = _
  rw [hshift, Nat.mod_eq_of_lt hsmall, hor]

/-- Below 65536 conferences identity tells host and count. -/
theorem confNumber_inj {crnti crnti' : UInt16} {seq seq' : UInt32} (h : seq.toNat < 2 ^ 16)
    (h' : seq'.toNat < 2 ^ 16) : confNumber crnti seq = confNumber crnti' seq' ↔ crnti = crnti' ∧ seq = seq' := by
  constructor
  · intro heq
    have hnat := congrArg UInt32.toNat heq
    rw [toNat_confNumber crnti h, toNat_confNumber crnti' h'] at hnat
    exact ⟨UInt16.toNat_inj.mp (by omega), UInt32.toNat_inj.mp (by omega)⟩
  · rintro ⟨rfl, rfl⟩
    rfl

/-! ### Signalling -/

/-- An INVITE finds a free UE, or it is answered 486. -/
theorem inviteNew_follows (u : SipUe) (src : Imsi) (msg : SigMessage) :
    Follows src msg.confId u (u.inviteNew src msg) := by
  unfold inviteNew
  split
  · exact ⟨.refl _, .singleton (decodeSig_encodeSig _) (.inr ⟨nofun, .inr ⟨rfl, rfl⟩⟩)⟩
  · exact ⟨Inherits.push (.inr ⟨rfl, rfl, rfl⟩),
      .singleton (decodeSig_encodeSig _) (.inr ⟨nofun, .inr ⟨rfl, rfl⟩⟩)⟩

theorem handleSigFound_follows {i : Nat} {d : CallDialog} (hi : u.dialogs[i]? = some d)
    (method : SigMethod) : Follows src id u (u.handleSigFound i d method) := by
  unfold handleSigFound
  cases method with
  | ack | okBye => exact .refl u
  | invite =>
    refine ⟨.refl _, .sendSig hi ⟨rfl, rfl, rfl⟩ ?_⟩
    split <;> decide
  | ringing180 =>
    dsimp only
    split
    · refine ⟨?_, .nil⟩
      rw [cancelTimer_setDialog]
      exact Inherits.set hi ⟨rfl, rfl, rfl⟩
    · exact .refl u
  | ok200 =>
    dsimp only
    split
    · exact ⟨establish_inherits hi, .sendSig hi ⟨rfl, rfl, rfl⟩ (by decide)⟩
    · exact .refl u
  | bye =>
    dsimp only
    split
    · exact eraseDialog_follows hi (by decide)
    · exact .refl u
  | cancel | busy486 | decline603 =>
    dsimp only
    split
    · exact ⟨eraseDialog_inherits _ _ _, .nil⟩
    · exact .refl u

/-- The number of the conference a payload invites into; 0 when it is no such INVITE. -/
def invitedTo (payload : Bytes) : UInt32 :=
  (((decodeSig payload).filter fun m => m.method = .invite).map (·.confId)).getD 0

theorem invitedTo_spec {payload : Bytes} (h : invitedTo payload ≠ 0) :
    ∃ m, decodeSig payload = some m ∧ m.method = .invite ∧ m.confId = invitedTo payload := by
  unfold invitedTo at h ⊢
  cases hdecode : decodeSig payload with
  | none =>
    rw [hdecode] at h
    exact absurd rfl h
  | some m =>
    rw [hdecode] at h
    by_cases hmethod : m.method = .invite
    · refine ⟨m, rfl, hmethod, ?_⟩
      rw [Option.filter_some_pos (by simpa using hmethod)]
      rfl
    · rw [Option.filter_some_neg (by simpa using hmethod)] at h
      exact absurd rfl h

/-- A packet can bring in the identity that its INVITE names. -/
theorem onSig_follows (u : SipUe) (src : Imsi) (payload : Bytes) :
    Follows src (invitedTo payload) u (u.onSig src payload) := by
  unfold onSig
  split
  · exact .refl u
  · split
    · exact .refl u
    · rename_i msg hdecode
      unfold handleSig
      split
      · split
        · exact .refl u
        · rename_i hi
          exact handleSigFound_follows hi _
      · split
        · rename_i hmethod
          have hid : invitedTo payload = msg.confId := by
            rw [invitedTo, hdecode, Option.filter_some_pos (by simpa using hmethod)]
            rfl
          rw [hid]
          exact inviteNew_follows u src msg
        · exact ⟨.refl _, .singleton (decodeSig_encodeSig _) (.inl rfl)⟩
        · exact .refl u

end SipUe

end AetherStack.Source
