import AetherStack.Guarantees.ConferenceTable
import AetherStack.Guarantees.UeSecurity
import AetherStack.Source.SipConferences

/-!
# Conference numbers across the cell

`start_conf` numbers a conference by the host's cached C-RNTI and a counter of the host's own
(ue_node.cpp 1017-1019), and the base station knows the conference by this number only
(bs_node.cpp 906-1000). The C-RNTI is taken from the cache as it stands: zero while the UE is
suspended, and otherwise the one of the last random access, which says nothing about the C-RNTI an
earlier conference was started under.

A conference is alive as long as anything in the cell carries its number: a dialog of its host or
of a party, its entry at the base station, a packet under way. Each of these can make the base
station or a UE act on the number. The entry outlives the host's dialogs, which a failed resume
drops without a word.
-/
namespace AetherStack.Guarantees
open Source Source.Core Lib

/-! ## One UE -/

/-- A UE with its call control. -/
structure ConfUe where
  node : UeNode
  sip : SipUe

namespace ConfUe

def make (config : UeNodeConfig) : ConfUe := { node := .make config, sip := { imsi := config.imsi } }

/-- The node when `start_conf` reads the C-RNTI: registered UEs have asked for a resume. -/
def woken (u : ConfUe) : UeNode := if u.node.registered then u.node.maybeWakeForActivity else u.node

def crnti (u : ConfUe) : UInt16 := UInt16.ofNat u.woken.crntiCache

/-- `start_conf` starts a conference. -/
def Opens (u : ConfUe) : Prop := u.node.registered = true ∧ u.sip.dialogs = []

instance (u : ConfUe) : Decidable u.Opens := inferInstanceAs (Decidable (_ ∧ _))

/-- The number `start_conf` gives to its conference. -/
def number (u : ConfUe) : UInt32 := SipUe.confNumber u.crnti u.sip.nextConfSeq

def startConf (u : ConfUe) (imsiB imsiC : Imsi) : SipUe × List SigPacket :=
  u.sip.startConf u.node.registered u.crnti imsiB imsiC

end ConfUe

/-! ## The cell -/

inductive ConfBody where
  | sig (payload : Bytes)
  | media (confId : UInt32)
  deriving DecidableEq

/-- A packet of one of the UEs. `host` is not in the source: whose conference it is about. -/
structure ConfPacket where
  host : Imsi
  src : Imsi
  dst : Imsi
  body : ConfBody
  deriving DecidableEq

/-- The conference number in a packet, 0 when there is none. -/
def ConfPacket.confId (p : ConfPacket) : UInt32 :=
  match p.body with
  | .sig payload => ((decodeSig payload).map (·.confId)).getD 0
  | .media confId => confId

/-- A conference that was started: by whom, under which cached C-RNTI, at which count. -/
structure ConfStart where
  host : Imsi
  crnti : UInt16
  seq : UInt32
  deriving DecidableEq

def ConfStart.number (c : ConfStart) : UInt32 := SipUe.confNumber c.crnti c.seq

/-- The UEs of a cell, the table of its base station and the packets under way. `started` and
`invited` are not in the source: the conferences so far, and the parties their hosts named. -/
structure ConfCell (ι : Type) where
  imsi : ι → Imsi
  ues : ι → ConfUe
  confs : ConfTable := ∅
  wire : List ConfPacket := []
  started : List ConfStart := []
  invited : List (Imsi × Imsi × UInt32) := []

inductive ConfCellEvent (ι : Type) where
  | startConf (i : ι) (imsiB imsiC : Imsi)
  | node (i : ι) (e : UeEvent)
  | command (i : ι) (c : SipCommand)
  | outside (i : ι) (src : Imsi) (payload : Bytes)
  | receive (i : ι) (k : Nat)
  | media (i : ι) (j : Nat)
  | snoop (k : Nat)
  | purge (imsi : Imsi)
  | lose (k : Nat)

namespace ConfCell
variable {ι : Type}

def make (config : ι → UeNodeConfig) : ConfCell ι :=
  { imsi := fun i => (config i).imsi, ues := fun i => .make (config i) }

/-- Whose conference a signal is about: that of the sender's dialog with the addressee, else the
addressee's own, whose INVITE is refused. -/
def hostOf (own : Imsi) (dialogs : List CallDialog) (p : SigPacket) : Imsi :=
  ((dialogs.find? fun d => d.peer = p.dst ∧ (decodeSig p.payload).map (·.confId) = some d.confId).map
    (·.host own)).getD p.dst

def sigPacket (own : Imsi) (dialogs : List CallDialog) (p : SigPacket) : ConfPacket :=
  ⟨hostOf own dialogs p, own, p.dst, .sig p.payload⟩

section
variable [DecidableEq ι]

/-- An operation of the call control of one UE; what it signals is under way. -/
def act (s : ConfCell ι) (i : ι) (next : SipUe × List SigPacket) : ConfCell ι :=
  { s with
    ues := Function.update s.ues i { s.ues i with sip := next.1 }
    wire := s.wire ++ next.2.map (sigPacket (s.imsi i) (s.ues i).sip.dialogs) }

def startConf (s : ConfCell ι) (i : ι) (imsiB imsiC : Imsi) : ConfCell ι :=
  let u := s.ues i
  let next := u.startConf imsiB imsiC
  { s with
    ues := Function.update s.ues i { node := u.woken, sip := next.1 }
    wire := s.wire ++ next.2.map fun p => ⟨s.imsi i, s.imsi i, p.dst, .sig p.payload⟩
    started := if u.Opens then s.started ++ [⟨s.imsi i, u.crnti, u.sip.nextConfSeq⟩] else s.started
    invited :=
      if u.Opens then s.invited ++ [(s.imsi i, imsiB, u.number), (s.imsi i, imsiC, u.number)]
      else s.invited }

/-- A packet under way may be snooped and handed to its addressee any number of times, or never.
Calls from outside the cell carry no conference number. A UE with a dialog of a conference may send
media into it. `stop_streams` of a detach or of a failed resume is a command behind the node's own
step, and the base station may purge a subscriber at any time. -/
def step (digest : KeyedDigest) (s : ConfCell ι) : ConfCellEvent ι → Option (ConfCell ι)
  | .startConf i imsiB imsiC => some (s.startConf i imsiB imsiC)
  | .node i e =>
    ((s.ues i).node.step digest e).map fun node =>
      { s with ues := Function.update s.ues i { s.ues i with node := node } }
  | .command _ (.startConf ..) => none
  | .command i c => some (s.act i ((s.ues i).sip.command c))
  | .outside i src payload =>
    if (decodeSig payload).any fun m => m.confId ≠ 0 then none
    else some (s.act i ((s.ues i).sip.onSig src payload))
  | .receive i k =>
    (s.wire[k]?).bind fun p =>
      match p.body with
      | .sig payload => if p.dst = s.imsi i then some (s.act i ((s.ues i).sip.onSig p.src payload)) else none
      | .media _ => none
  | .media i j =>
    ((s.ues i).sip.dialogs[j]?).bind fun d =>
      if d.confId = 0 then none
      else some { s with wire := s.wire ++ [⟨d.host (s.imsi i), s.imsi i, [], .media d.confId⟩] }
  | .snoop k =>
    (s.wire[k]?).bind fun p =>
      match p.body with
      | .sig payload =>
        (decodeSig payload).bind fun m =>
          if m.confId = 0 then none else some { s with confs := s.confs.snoopSig p.src p.dst m }
      | .media _ => none
  | .purge imsi => some { s with confs := s.confs.purgeMember imsi }
  | .lose k => some { s with wire := s.wire.eraseIdx k }

end

/-! ### What is promised and what is asked -/

/-- Something in the cell carries the number of a conference of `x`. -/
def Alive (s : ConfCell ι) (x : Imsi) (id : UInt32) : Prop :=
  id ≠ 0 ∧ ((∃ i, ∃ d ∈ (s.ues i).sip.dialogs, d.host (s.imsi i) = x ∧ d.confId = id) ∨
    (∃ c ∈ s.confs[id.toNat]?, c.host = x) ∨ ∃ p ∈ s.wire, p.host = x ∧ p.confId = id)

/-- `y` is in the conference that `x` has started: as its host, or invited by it. -/
def PartOf (s : ConfCell ι) (x y : Imsi) (id : UInt32) : Prop := y = x ∨ (x, y, id) ∈ s.invited

/-- No number has two hosts; whom the base station has as a member is in the host's conference, and
so is whoever sends the media that it bridges to the members. -/
structure KeptApart (s : ConfCell ι) : Prop where
  distinct : ∀ x y id, x ≠ y → s.Alive x id → ¬ s.Alive y id
  members : ∀ (id : UInt32) (c : Conference), s.confs[id.toNat]? = some c →
    ∀ party ∈ c.members, s.PartOf c.host party id
  bridged : ∀ p ∈ s.wire, ∀ id, p.body = .media id → ∀ c, s.confs[id.toNat]? = some c →
    s.PartOf c.host p.src id

/-- What is asked of a UE that starts a conference. -/
def OnStart (C : ConfCell ι → ι → Prop) (s : ConfCell ι) : ConfCellEvent ι → Prop
  | .startConf i _ _ => (s.ues i).Opens → C s i
  | _ => True

/-- Its counter has not run into the half of the C-RNTI. -/
def CounterFits (s : ConfCell ι) (i : ι) : Prop := (s.ues i).sip.nextConfSeq.toNat < 2 ^ 16

/-- No conference of another host that is alive was started under the same cached C-RNTI at the same
count. -/
def OwnNumber (s : ConfCell ι) (i : ι) : Prop :=
  ∀ c ∈ s.started, c.host ≠ s.imsi i → s.Alive c.host c.number →
    (c.crnti, c.seq) ≠ ((s.ues i).crnti, (s.ues i).sip.nextConfSeq)

instance {C : ConfCell ι → ι → Prop} [∀ s i, Decidable (C s i)] (s : ConfCell ι) :
    (e : ConfCellEvent ι) → Decidable (OnStart C s e)
  | .startConf i _ _ => inferInstanceAs (Decidable ((s.ues i).Opens → C s i))
  | .node .. | .command .. | .outside .. | .receive .. | .media .. | .snoop _ | .purge _ | .lose _ =>
    inferInstanceAs (Decidable True)

instance [Fintype ι] (s : ConfCell ι) (x : Imsi) (id : UInt32) : Decidable (s.Alive x id) :=
  inferInstanceAs (Decidable (_ ∧ (_ ∨ _ ∨ _)))

instance (s : ConfCell ι) (i : ι) : Decidable (CounterFits s i) := inferInstanceAs (Decidable (_ < _))

instance [Fintype ι] (s : ConfCell ι) (i : ι) : Decidable (OwnNumber s i) :=
  inferInstanceAs (Decidable (∀ c ∈ s.started, _ → _ → _ ≠ _))

/-! ### What is alive was started -/

/-- The conference was started by `x`, and `y` is in it. -/
def Traced (s : ConfCell ι) (x y : Imsi) (id : UInt32) : Prop :=
  (∃ c ∈ s.started, c.host = x ∧ c.number = id ∧ c.seq.toNat < 2 ^ 16) ∧ s.PartOf x y id

/-- Every carrier of a number belongs to a conference that was started, and is of one of its parties. -/
structure Accounted (s : ConfCell ι) : Prop where
  dialogs : ∀ i, ∀ d ∈ (s.ues i).sip.dialogs, d.confId ≠ 0 →
    s.Traced (d.host (s.imsi i)) (s.imsi i) d.confId
  wire : ∀ p ∈ s.wire, p.confId ≠ 0 → s.Traced p.host p.src p.confId
  invites : ∀ p ∈ s.wire, ∀ payload m, p.body = .sig payload → decodeSig payload = some m →
    m.method = .invite → m.confId ≠ 0 → p.host = p.src ∧ (p.src, p.dst, m.confId) ∈ s.invited
  table : ∀ (id : Nat) (c : Conference), s.confs[id]? = some c → ∃ n : UInt32, n.toNat = id ∧ n ≠ 0 ∧
    ∀ party, party = c.host ∨ party ∈ c.members → s.Traced c.host party n

variable {digest : KeyedDigest} {s s' : ConfCell ι}

/-- What was once invited or started stays traced. -/
theorem Traced.mono {x y : Imsi} {id : UInt32} (h : s.Traced x y id) (hstarted : s.started ⊆ s'.started)
    (hinvited : s.invited ⊆ s'.invited) : s'.Traced x y id := by
  obtain ⟨⟨c, hc, hrest⟩, hpart⟩ := h
  exact ⟨⟨c, hstarted hc, hrest⟩, hpart.imp_right fun hmem => hinvited hmem⟩

theorem confId_sig {host src dst : Imsi} {payload : Bytes} {m : SigMessage} (hm : decodeSig payload = some m) :
    (ConfPacket.mk host src dst (.sig payload)).confId = m.confId := by
  simp only [ConfPacket.confId, hm, Option.map_some, Option.getD_some]

theorem accounted_make (config : ι → UeNodeConfig) : (make config).Accounted where
  dialogs := fun _ _ hd => absurd hd List.not_mem_nil
  wire := fun _ hp => absurd hp List.not_mem_nil
  invites := fun _ hp => absurd hp List.not_mem_nil
  table := fun id c hc => by simp [make] at hc

theorem not_alive_make (config : ι → UeNodeConfig) (x : Imsi) (id : UInt32) : ¬ (make config).Alive x id := by
  rintro ⟨-, ⟨i, d, hd, -⟩ | ⟨c, hc, -⟩ | ⟨p, hp, -⟩⟩
  · exact List.not_mem_nil hd
  · simp [make] at hc
  · exact List.not_mem_nil hp

/-! ### An operation of one UE -/

/-- The conference of a signal is that of a dialog of the sender, or the signal answers an INVITE. -/
theorem hostOf_cases {i : ι} {src : Imsi} {id : UInt32} {p : SigPacket} {m : SigMessage}
    (hm : decodeSig p.payload = some m)
    (hspeaks : (∃ d ∈ (s.ues i).sip.dialogs, d.peer = p.dst ∧ d.confId = m.confId) ∨ p.dst = src ∧ m.confId = id) :
    (∃ d ∈ (s.ues i).sip.dialogs, hostOf (s.imsi i) (s.ues i).sip.dialogs p = d.host (s.imsi i) ∧
      d.confId = m.confId) ∨
      (hostOf (s.imsi i) (s.ues i).sip.dialogs p = src ∧ m.confId = id) := by
  unfold hostOf
  rw [hm, Option.map_some]
  cases hfind : (s.ues i).sip.dialogs.find? fun d => d.peer = p.dst ∧ some m.confId = some d.confId with
  | some d =>
    have hmatch := List.find?_some hfind
    simp only [Option.some.injEq, decide_eq_true_eq] at hmatch
    exact .inl ⟨d, List.mem_of_find?_eq_some hfind, rfl, hmatch.2.symm⟩
  | none =>
    rcases hspeaks with ⟨d, hd, hpeer, hconf⟩ | ⟨hdst, hid⟩
    · have hnot := List.find?_eq_none.mp hfind d hd
      simp [hpeer, hconf] at hnot
    · exact .inr ⟨hdst, hid⟩

section
variable [DecidableEq ι]

/-- The dialogs of the UE that acts, and of the others. -/
theorem mem_update_dialogs {i j : ι} {u : ConfUe} {d : CallDialog}
    (hd : d ∈ (Function.update s.ues i u j).sip.dialogs) :
    (j = i ∧ d ∈ u.sip.dialogs) ∨ d ∈ (s.ues j).sip.dialogs := by
  by_cases hji : j = i
  · subst hji
    rw [Function.update_self] at hd
    exact .inl ⟨rfl, hd⟩
  · rw [Function.update_of_ne hji] at hd
    exact .inr hd

/-- An operation that starts no conference keeps the account, if the UE was invited where it answers. -/
theorem act_accounted (h : s.Accounted) {i : ι} {src : Imsi} {id : UInt32} {next : SipUe × List SigPacket}
    (hfollows : SipUe.Follows src id (s.ues i).sip next) (hinvite : id ≠ 0 → s.Traced src (s.imsi i) id) :
    (s.act i next).Accounted := by
  constructor
  · intro j d hd hne
    rcases mem_update_dialogs hd with ⟨rfl, hnew⟩ | hold
    · rcases hfollows.dialogs d hnew with hzero | ⟨d₀, hd₀, hsame⟩ | hofinvite
      · exact absurd hzero hne
      · have htraced := h.dialogs j d₀ hd₀ (hsame.confId ▸ hne)
        rw [← hsame.host_eq, ← hsame.confId] at htraced
        exact htraced
      · have hhost : d.host (s.imsi j) = src := by
          rw [CallDialog.host, if_neg (by rw [hofinvite.startedHere]; decide), hofinvite.peer]
        have htraced := hinvite (hofinvite.confId ▸ hne)
        rw [← hofinvite.confId, ← hhost] at htraced
        exact htraced
    · exact h.dialogs j d hold hne
  · intro p hp hne
    rcases List.mem_append.mp hp with hold | hnew
    · exact h.wire p hold hne
    · obtain ⟨q, hq, rfl⟩ := List.mem_map.mp hnew
      obtain ⟨m, hm, hzero | ⟨-, hspeaks⟩⟩ := hfollows.sent q hq
      · rw [sigPacket, confId_sig hm] at hne
        exact absurd hzero hne
      · rw [sigPacket, confId_sig hm] at hne ⊢
        rcases hostOf_cases hm hspeaks with ⟨d, hd, hhost, hconf⟩ | ⟨hhost, hid⟩
        · have htraced := h.dialogs i d hd (hconf ▸ hne)
          rw [hconf, ← hhost] at htraced
          exact htraced
        · have htraced := hinvite (hid ▸ hne)
          rw [← hid, ← hhost] at htraced
          exact htraced
  · intro p hp payload m hbody hm hmethod hne
    rcases List.mem_append.mp hp with hold | hnew
    · exact h.invites p hold payload m hbody hm hmethod hne
    · obtain ⟨q, hq, rfl⟩ := List.mem_map.mp hnew
      obtain rfl := ConfBody.sig.inj hbody
      obtain ⟨m', hm', hzero | ⟨hother, -⟩⟩ := hfollows.sent q hq
      · obtain rfl := Option.some.inj (hm.symm.trans hm')
        exact absurd hzero hne
      · obtain rfl := Option.some.inj (hm.symm.trans hm')
        exact absurd hmethod hother
  · exact h.table

/-- Nothing comes alive by it but what the UE was invited to. -/
theorem act_alive {i : ι} {src : Imsi} {id : UInt32} {next : SipUe × List SigPacket}
    (hfollows : SipUe.Follows src id (s.ues i).sip next) {x : Imsi} {id' : UInt32}
    (halive : (s.act i next).Alive x id') : s.Alive x id' ∨ (x = src ∧ id' = id) := by
  obtain ⟨hne, ⟨j, d, hd, rfl, rfl⟩ | hentry | ⟨p, hp, rfl, rfl⟩⟩ := halive
  · rcases mem_update_dialogs hd with ⟨rfl, hnew⟩ | hold
    · rcases hfollows.dialogs d hnew with hzero | ⟨d₀, hd₀, hsame⟩ | hofinvite
      · exact absurd hzero hne
      · exact .inl ⟨hne, .inl ⟨j, d₀, hd₀, (hsame.host_eq _).symm, hsame.confId.symm⟩⟩
      · refine .inr ⟨?_, hofinvite.confId⟩
        rw [CallDialog.host, if_neg (by rw [hofinvite.startedHere]; decide), hofinvite.peer]
    · exact .inl ⟨hne, .inl ⟨j, d, hold, rfl, rfl⟩⟩
  · exact .inl ⟨hne, .inr (.inl hentry)⟩
  · rcases List.mem_append.mp hp with hold | hnew
    · exact .inl ⟨hne, .inr (.inr ⟨p, hold, rfl, rfl⟩)⟩
    · obtain ⟨q, hq, rfl⟩ := List.mem_map.mp hnew
      obtain ⟨m, hm, hzero | ⟨-, hspeaks⟩⟩ := hfollows.sent q hq
      · rw [sigPacket, confId_sig hm] at hne
        exact absurd hzero hne
      · rw [sigPacket, confId_sig hm] at hne ⊢
        rcases hostOf_cases hm hspeaks with ⟨d, hd, hhost, hconf⟩ | ⟨hhost, hid⟩
        · exact .inl ⟨hne, .inl ⟨i, d, hd, hhost.symm, hconf⟩⟩
        · exact .inr ⟨hhost, hid⟩

end

/-! ### The start of a conference -/

theorem startConf_starts {i : ι} (h : (s.ues i).Opens) (imsiB imsiC : Imsi) :
    SipUe.StartsConf imsiB imsiC (s.ues i).number ((s.ues i).startConf imsiB imsiC) := by
  have hstarts := SipUe.startConf_starts h.2 (s.ues i).crnti imsiB imsiC
  rw [← h.1] at hstarts
  exact hstarts

section
variable [DecidableEq ι]

theorem startConf_refused {i : ι} (h : ¬ (s.ues i).Opens) (imsiB imsiC : Imsi) :
    s.startConf i imsiB imsiC = { s with
      ues := Function.update s.ues i { node := (s.ues i).woken, sip := ((s.ues i).startConf imsiB imsiC).1 } } ∧
      ((s.ues i).startConf imsiB imsiC).1.dialogs = (s.ues i).sip.dialogs := by
  obtain ⟨hdialogs, hsent⟩ := SipUe.startConf_refused h (s.ues i).crnti imsiB imsiC
  refine ⟨?_, hdialogs⟩
  have hnone : ((s.ues i).startConf imsiB imsiC).2 = [] := hsent
  simp only [startConf, hnone, if_neg h, List.map_nil, List.append_nil]

/-- A UE whose dialogs stay. -/
theorem Accounted.update (h : s.Accounted) {i : ι} {u : ConfUe} (hu : u.sip.dialogs = (s.ues i).sip.dialogs) :
    ({ s with ues := Function.update s.ues i u } : ConfCell ι).Accounted := by
  refine ⟨fun j d hd hne => ?_, h.wire, h.invites, h.table⟩
  rcases mem_update_dialogs hd with ⟨rfl, hnew⟩ | hold
  · exact h.dialogs j d (hu ▸ hnew) hne
  · exact h.dialogs j d hold hne

theorem alive_update {i : ι} {u : ConfUe} (hu : u.sip.dialogs = (s.ues i).sip.dialogs) {x : Imsi} {id : UInt32}
    (halive : ({ s with ues := Function.update s.ues i u } : ConfCell ι).Alive x id) : s.Alive x id := by
  obtain ⟨hne, ⟨j, d, hd, hhost⟩ | hrest⟩ := halive
  · rcases mem_update_dialogs hd with ⟨rfl, hnew⟩ | hold
    · exact ⟨hne, .inl ⟨j, d, hu ▸ hnew, hhost⟩⟩
    · exact ⟨hne, .inl ⟨j, d, hold, hhost⟩⟩
  · exact ⟨hne, .inr hrest⟩

/-- A conference whose counter fits its half of the number takes one that is not accounted to
anybody. -/
theorem startConf_accounted (h : s.Accounted) {i : ι} (hfits : (s.ues i).Opens → CounterFits s i)
    (imsiB imsiC : Imsi) : (s.startConf i imsiB imsiC).Accounted := by
  by_cases hopens : (s.ues i).Opens
  · have hstarts := startConf_starts hopens imsiB imsiC
    have hstarted : (s.startConf i imsiB imsiC).started =
        s.started ++ [⟨s.imsi i, (s.ues i).crnti, (s.ues i).sip.nextConfSeq⟩] := if_pos hopens
    have hinvited : (s.startConf i imsiB imsiC).invited =
        s.invited ++ [(s.imsi i, imsiB, (s.ues i).number), (s.imsi i, imsiC, (s.ues i).number)] := if_pos hopens
    have hmono : ∀ {x y id}, s.Traced x y id → (s.startConf i imsiB imsiC).Traced x y id := by
      intro x y id htraced
      refine htraced.mono ?_ ?_
      · rw [hstarted]
        exact List.subset_append_left _ _
      · rw [hinvited]
        exact List.subset_append_left _ _
    have hown : (s.startConf i imsiB imsiC).Traced (s.imsi i) (s.imsi i) (s.ues i).number := by
      refine ⟨⟨⟨s.imsi i, (s.ues i).crnti, (s.ues i).sip.nextConfSeq⟩, ?_, rfl, rfl, hfits hopens⟩, .inl rfl⟩
      rw [hstarted]
      exact List.mem_append_right _ (List.mem_singleton.mpr rfl)
    constructor
    · intro j d hd hne
      rcases mem_update_dialogs hd with ⟨rfl, hnew⟩ | hold
      · obtain ⟨hhere, hconf, -⟩ := hstarts.dialogs d hnew
        rw [CallDialog.host, if_pos hhere, hconf]
        exact hown
      · exact hmono (h.dialogs j d hold hne)
    · intro p hp hne
      rcases List.mem_append.mp hp with hold | hnew
      · exact hmono (h.wire p hold hne)
      · obtain ⟨q, hq, rfl⟩ := List.mem_map.mp hnew
        obtain ⟨m, hm, hconf, -⟩ := hstarts.sent q hq
        rw [confId_sig hm, hconf]
        exact hown
    · intro p hp payload m hbody hm hmethod hne
      rw [hinvited]
      rcases List.mem_append.mp hp with hold | hnew
      · obtain ⟨hhost, hmem⟩ := h.invites p hold payload m hbody hm hmethod hne
        exact ⟨hhost, List.mem_append_left _ hmem⟩
      · obtain ⟨q, hq, rfl⟩ := List.mem_map.mp hnew
        obtain rfl := ConfBody.sig.inj hbody
        obtain ⟨m', hm', hconf, hdst⟩ := hstarts.sent q hq
        obtain rfl := Option.some.inj (hm.symm.trans hm')
        refine ⟨rfl, List.mem_append_right _ ?_⟩
        rw [hconf]
        rcases hdst with hdst | hdst
        · simp [hdst]
        · simp [hdst]
    · intro id c hc
      obtain ⟨n, hn, hne, hparty⟩ := h.table id c hc
      exact ⟨n, hn, hne, fun party hmem => hmono (hparty party hmem)⟩
  · obtain ⟨heq, hdialogs⟩ := startConf_refused hopens imsiB imsiC
    rw [heq]
    exact h.update hdialogs

/-- What a start brings to life. -/
theorem startConf_alive {i : ι} {imsiB imsiC x : Imsi} {id : UInt32}
    (halive : (s.startConf i imsiB imsiC).Alive x id) :
    s.Alive x id ∨ ((s.ues i).Opens ∧ x = s.imsi i ∧ id = (s.ues i).number) := by
  by_cases hopens : (s.ues i).Opens
  · have hstarts := startConf_starts hopens imsiB imsiC
    obtain ⟨hne, ⟨j, d, hd, rfl, rfl⟩ | hentry | ⟨p, hp, rfl, rfl⟩⟩ := halive
    · rcases mem_update_dialogs hd with ⟨rfl, hnew⟩ | hold
      · obtain ⟨hhere, hconf, -⟩ := hstarts.dialogs d hnew
        exact .inr ⟨hopens, if_pos hhere, hconf⟩
      · exact .inl ⟨hne, .inl ⟨j, d, hold, rfl, rfl⟩⟩
    · exact .inl ⟨hne, .inr (.inl hentry)⟩
    · rcases List.mem_append.mp hp with hold | hnew
      · exact .inl ⟨hne, .inr (.inr ⟨p, hold, rfl, rfl⟩)⟩
      · obtain ⟨q, hq, rfl⟩ := List.mem_map.mp hnew
        obtain ⟨m, hm, hconf, -⟩ := hstarts.sent q hq
        exact .inr ⟨hopens, rfl, (confId_sig hm).trans hconf⟩
  · obtain ⟨heq, hdialogs⟩ := startConf_refused hopens imsiB imsiC
    rw [heq] at halive
    exact .inl (alive_update hdialogs halive)

/-- A start takes nobody's conference away. -/
theorem startConf_keeps {i : ι} (hopens : (s.ues i).Opens) (imsiB imsiC : Imsi) {x : Imsi} {id : UInt32}
    (halive : s.Alive x id) : (s.startConf i imsiB imsiC).Alive x id := by
  obtain ⟨hne, ⟨j, d, hd, hhost⟩ | hentry | ⟨p, hp, hrest⟩⟩ := halive
  · refine ⟨hne, .inl ⟨j, d, ?_, hhost⟩⟩
    show d ∈ (Function.update s.ues i _ j).sip.dialogs
    have hji : j ≠ i := by
      rintro rfl
      rw [hopens.2] at hd
      exact List.not_mem_nil hd
    rw [Function.update_of_ne hji]
    exact hd
  · exact ⟨hne, .inr (.inl hentry)⟩
  · exact ⟨hne, .inr (.inr ⟨p, List.mem_append_left _ hp, hrest⟩)⟩

/-- A new conference is alive, unless its number is 0. -/
theorem alive_startConf {i : ι} (hopens : (s.ues i).Opens) (imsiB imsiC : Imsi) (hne : (s.ues i).number ≠ 0) :
    (s.startConf i imsiB imsiC).Alive (s.imsi i) (s.ues i).number := by
  have hstarts := startConf_starts hopens imsiB imsiC
  obtain ⟨d, hd⟩ := List.exists_mem_of_ne_nil _ hstarts.busy
  obtain ⟨hhere, hconf, -⟩ := hstarts.dialogs d hd
  refine ⟨hne, .inl ⟨i, d, ?_, if_pos hhere, hconf⟩⟩
  show d ∈ (Function.update s.ues i _ i).sip.dialogs
  rw [Function.update_self]
  exact hd

end

/-! ### The base station and the channel -/

/-- Conferences that no step brings to life stay apart. -/
theorem distinct_of_alive (h : ∀ x y id, x ≠ y → s.Alive x id → ¬ s.Alive y id)
    (halive : ∀ x id, s'.Alive x id → s.Alive x id) (x y : Imsi) (id : UInt32) (hne : x ≠ y) :
    s'.Alive x id → ¬ s'.Alive y id :=
  fun hx hy => h x y id hne (halive x id hx) (halive y id hy)

/-- A signal that passes the base station is about a conference of its sender's side. -/
theorem snoop_accounted (h : s.Accounted) (hdistinct : ∀ x y id, x ≠ y → s.Alive x id → ¬ s.Alive y id)
    {p : ConfPacket} (hp : p ∈ s.wire) {payload : Bytes} (hbody : p.body = .sig payload) {m : SigMessage}
    (hm : decodeSig payload = some m) (hne : m.confId ≠ 0) :
    ({ s with confs := s.confs.snoopSig p.src p.dst m } : ConfCell ι).Accounted := by
  have hconf : p.confId = m.confId := by
    obtain ⟨host, src, dst, body⟩ := p
    obtain rfl : body = .sig payload := hbody
    exact confId_sig hm
  have hpacket : s.Traced p.host p.src m.confId := hconf ▸ h.wire p hp (hconf ▸ hne)
  have halive : s.Alive p.host m.confId := ⟨hne, .inr (.inr ⟨p, hp, rfl, hconf⟩)⟩
  -- an entry under the number of the packet is of the packet's conference
  have hentry : ∀ c, s.confs[m.confId.toNat]? = some c → c.host = p.host := by
    intro c hc
    by_contra hother
    exact hdistinct _ _ _ hother ⟨hne, .inr (.inl ⟨c, hc, rfl⟩)⟩ halive
  refine ⟨h.dialogs, h.wire, h.invites, fun id c' hc' => ?_⟩
  rcases ConferenceTable.snoopSig_kept hc' with ⟨c, hc, hhost, hmembers⟩ | ⟨hmethod, rfl, hhost, hmembers⟩
  · obtain ⟨n, hn, hzero, hparties⟩ := h.table id c hc
    refine ⟨n, hn, hzero, fun party hparty => ?_⟩
    rw [hhost]
    rcases hparty with heq | hmem
    · exact hparties party (.inl (heq.trans hhost))
    · rcases hmembers party hmem with hold | ⟨rfl, rfl⟩
      · exact hparties party (.inr hold)
      · obtain rfl := UInt32.toNat_inj.mp hn
        rw [hentry c hc]
        exact hpacket
  · obtain ⟨hsender, -⟩ := h.invites p hp payload m hbody hm hmethod hne
    refine ⟨m.confId, rfl, hne, fun party hparty => ?_⟩
    rw [hhost]
    have hself : s.Traced p.src p.src m.confId := by
      rw [hsender] at hpacket
      exact hpacket
    rcases hparty with heq | hmem
    · rw [heq, hhost]
      exact hself
    · rcases hmembers party hmem with rfl | ⟨c, hc, -, hold⟩
      · exact hself
      · obtain ⟨n, hn, -, hparties⟩ := h.table _ c hc
        obtain rfl := UInt32.toNat_inj.mp hn
        have htraced := hparties party (.inr hold)
        rw [hentry c hc, hsender] at htraced
        exact htraced

/-- Snooping makes a conference live only for the host that an INVITE on the wire names. -/
theorem snoop_alive (h : s.Accounted) {p : ConfPacket} (hp : p ∈ s.wire) {payload : Bytes}
    (hbody : p.body = .sig payload) {m : SigMessage} (hm : decodeSig payload = some m) {x : Imsi} {id : UInt32}
    (halive : ({ s with confs := s.confs.snoopSig p.src p.dst m } : ConfCell ι).Alive x id) : s.Alive x id := by
  obtain ⟨hne, hdialog | ⟨c', hc', rfl⟩ | hpacket⟩ := halive
  · exact ⟨hne, .inl hdialog⟩
  · rcases ConferenceTable.snoopSig_kept hc' with ⟨c, hc, hhost, -⟩ | ⟨hmethod, hid, hhost, -⟩
    · exact ⟨hne, .inr (.inl ⟨c, hc, hhost.symm⟩)⟩
    · obtain rfl := UInt32.toNat_inj.mp hid
      obtain ⟨hsender, -⟩ := h.invites p hp payload m hbody hm hmethod hne
      refine ⟨hne, .inr (.inr ⟨p, hp, hsender.trans hhost.symm, ?_⟩)⟩
      obtain ⟨host, src, dst, body⟩ := p
      obtain rfl : body = .sig payload := hbody
      exact confId_sig hm
  · exact ⟨hne, .inr (.inr hpacket)⟩

theorem purge_accounted (h : s.Accounted) (imsi : Imsi) :
    ({ s with confs := s.confs.purgeMember imsi } : ConfCell ι).Accounted := by
  refine ⟨h.dialogs, h.wire, h.invites, fun id c' hc' => ?_⟩
  obtain ⟨c, hc, hhost, hmembers⟩ := ConferenceTable.purgeMember_kept hc'
  obtain ⟨n, hn, hzero, hparties⟩ := h.table id c hc
  refine ⟨n, hn, hzero, fun party hparty => ?_⟩
  rw [hhost]
  rcases hparty with heq | hmem
  · exact hparties party (.inl (heq.trans hhost))
  · exact hparties party (.inr ((hmembers party hmem).resolve_right not_false))

/-- A purge ends conferences and starts none. -/
theorem purge_alive {imsi x : Imsi} {id : UInt32}
    (halive : ({ s with confs := s.confs.purgeMember imsi } : ConfCell ι).Alive x id) : s.Alive x id := by
  obtain ⟨hne, hdialog | ⟨c', hc', rfl⟩ | hpacket⟩ := halive
  · exact ⟨hne, .inl hdialog⟩
  · obtain ⟨c, hc, hhost, -⟩ := ConferenceTable.purgeMember_kept hc'
    exact ⟨hne, .inr (.inl ⟨c, hc, hhost.symm⟩)⟩
  · exact ⟨hne, .inr (.inr hpacket)⟩

/-- Media of a UE is about the conference of its dialog. -/
theorem media_accounted (h : s.Accounted) {i : ι} {d : CallDialog} (hd : d ∈ (s.ues i).sip.dialogs)
    (hne : d.confId ≠ 0) : ({ s with
      wire := s.wire ++ [⟨d.host (s.imsi i), s.imsi i, [], .media d.confId⟩] } : ConfCell ι).Accounted := by
  refine ⟨h.dialogs, fun p hp hne' => ?_, fun p hp payload m hbody => ?_, h.table⟩
  · rcases List.mem_append.mp hp with hold | hnew
    · exact h.wire p hold hne'
    · obtain rfl := List.mem_singleton.mp hnew
      exact h.dialogs i d hd hne
  · rcases List.mem_append.mp hp with hold | hnew
    · exact h.invites p hold payload m hbody
    · obtain rfl := List.mem_singleton.mp hnew
      cases hbody

theorem media_alive {i : ι} {d : CallDialog} (hd : d ∈ (s.ues i).sip.dialogs) {x : Imsi} {id : UInt32}
    (halive : ({ s with
      wire := s.wire ++ [⟨d.host (s.imsi i), s.imsi i, [], .media d.confId⟩] } : ConfCell ι).Alive x id) :
    s.Alive x id := by
  obtain ⟨hne, hdialog | hentry | ⟨p, hp, rfl, rfl⟩⟩ := halive
  · exact ⟨hne, .inl hdialog⟩
  · exact ⟨hne, .inr (.inl hentry)⟩
  · rcases List.mem_append.mp hp with hold | hnew
    · exact ⟨hne, .inr (.inr ⟨p, hold, rfl, rfl⟩)⟩
    · obtain rfl := List.mem_singleton.mp hnew
      exact ⟨hne, .inl ⟨i, d, hd, rfl, rfl⟩⟩

theorem lose_accounted (h : s.Accounted) (k : Nat) :
    ({ s with wire := s.wire.eraseIdx k } : ConfCell ι).Accounted :=
  ⟨h.dialogs, fun p hp => h.wire p (List.eraseIdx_subset hp), fun p hp => h.invites p (List.eraseIdx_subset hp),
    h.table⟩

/-- A loss starts no conference. -/
theorem lose_alive {k : Nat} {x : Imsi} {id : UInt32}
    (halive : ({ s with wire := s.wire.eraseIdx k } : ConfCell ι).Alive x id) : s.Alive x id := by
  obtain ⟨hne, hdialog | hentry | ⟨p, hp, hrest⟩⟩ := halive
  · exact ⟨hne, .inl hdialog⟩
  · exact ⟨hne, .inr (.inl hentry)⟩
  · exact ⟨hne, .inr (.inr ⟨p, List.eraseIdx_subset hp, hrest⟩)⟩

/-! ### Runs -/

/-- The three promises follow from the account as soon as no number has two hosts. -/
theorem Accounted.keptApart (h : s.Accounted)
    (hdistinct : ∀ x y id, x ≠ y → s.Alive x id → ¬ s.Alive y id) : s.KeptApart := by
  refine ⟨hdistinct, fun id c hc party hparty => ?_, fun p hp id hbody c hc => ?_⟩
  · obtain ⟨n, hn, -, hparties⟩ := h.table _ c hc
    obtain rfl := UInt32.toNat_inj.mp hn
    exact (hparties party (.inr hparty)).2
  · obtain ⟨n, hn, hne, -⟩ := h.table _ c hc
    obtain rfl := UInt32.toNat_inj.mp hn
    have hconf : p.confId = n := by rw [ConfPacket.confId, hbody]
    have hhost : c.host = p.host := by
      by_contra hother
      exact hdistinct _ _ n hother ⟨hne, .inr (.inl ⟨c, hc, rfl⟩)⟩ ⟨hne, .inr (.inr ⟨p, hp, rfl, hconf⟩)⟩
    have htraced := (h.wire p hp (hconf ▸ hne)).2
    rw [hhost, ← hconf]
    exact htraced

section
variable [DecidableEq ι]

/-- No event but a start brings a conference to life. -/
theorem step_inherits {e : ConfCellEvent ι} (h : s.Accounted)
    (hdistinct : ∀ x y id, x ≠ y → s.Alive x id → ¬ s.Alive y id)
    (he : ∀ i imsiB imsiC, e ≠ .startConf i imsiB imsiC) (hstep : s.step digest e = some s') :
    s'.Accounted ∧ ∀ x id, s'.Alive x id → s.Alive x id := by
  -- an operation of one UE, invited or not
  have hact : ∀ (i : ι) (src : Imsi) (id : UInt32) (next : SipUe × List SigPacket),
      SipUe.Follows src id (s.ues i).sip next → (id ≠ 0 → s.Traced src (s.imsi i) id ∧ s.Alive src id) →
      (s.act i next).Accounted ∧ ∀ x id', (s.act i next).Alive x id' → s.Alive x id' := by
    intro i src id next hfollows hinvite
    refine ⟨act_accounted h hfollows fun hne => (hinvite hne).1, fun x id' halive => ?_⟩
    rcases act_alive hfollows halive with hold | ⟨rfl, rfl⟩
    · exact hold
    · exact (hinvite halive.1).2
  cases e with
  | startConf i imsiB imsiC => exact absurd rfl (he i imsiB imsiC)
  | node i e =>
    obtain ⟨node, -, rfl⟩ := Option.map_eq_some_iff.mp hstep
    have hsame : ({ s.ues i with node := node } : ConfUe).sip.dialogs = (s.ues i).sip.dialogs := rfl
    exact ⟨h.update hsame, fun x id => alive_update hsame⟩
  | command i c =>
    by_cases hconf : ∃ registered crnti imsiB imsiC, c = .startConf registered crnti imsiB imsiC
    · obtain ⟨registered, crnti, imsiB, imsiC, rfl⟩ := hconf
      cases hstep
    · have hother : ∀ registered crnti imsiB imsiC, c ≠ .startConf registered crnti imsiB imsiC :=
        fun registered crnti imsiB imsiC heq => hconf ⟨registered, crnti, imsiB, imsiC, heq⟩
      have hs : s' = s.act i ((s.ues i).sip.command c) := by
        cases c with
        | startConf registered crnti imsiB imsiC => exact absurd rfl (hother registered crnti imsiB imsiC)
        | _ => exact (Option.some.inj hstep).symm
      rw [hs]
      exact hact i [] 0 _ (SipUe.command_follows _ hother) fun hne => absurd rfl hne
  | outside i src payload =>
    simp only [step] at hstep
    split at hstep
    · cases hstep
    · rename_i hplain
      obtain rfl := Option.some.inj hstep
      refine hact i src _ _ (SipUe.onSig_follows _ src payload) fun hne => ?_
      obtain ⟨m, hm, -, hconf⟩ := SipUe.invitedTo_spec hne
      rw [hm] at hplain
      simp [hconf, hne] at hplain
  | receive i k =>
    obtain ⟨p, hp, hrest⟩ := Option.bind_eq_some_iff.mp hstep
    have hmem := List.mem_of_getElem? hp
    split at hrest
    · rename_i payload hbody
      split at hrest
      · rename_i hdst
        obtain rfl := Option.some.inj hrest
        refine hact i p.src _ _ (SipUe.onSig_follows _ p.src payload) fun hne => ?_
        obtain ⟨m, hm, hmethod, hconf⟩ := SipUe.invitedTo_spec hne
        have hnumber : p.confId = m.confId := by
          obtain ⟨host, src, dst, body⟩ := p
          obtain rfl : body = .sig payload := hbody
          exact confId_sig hm
        rw [← hconf] at hne ⊢
        obtain ⟨hhost, hinvited⟩ := h.invites p hmem payload m hbody hm hmethod hne
        have htraced := h.wire p hmem (hnumber ▸ hne)
        rw [hnumber, hhost] at htraced
        exact ⟨⟨htraced.1, .inr (hdst ▸ hinvited)⟩, hne, .inr (.inr ⟨p, hmem, hhost, hnumber⟩)⟩
      · cases hrest
    · cases hrest
  | media i j =>
    obtain ⟨d, hd, hrest⟩ := Option.bind_eq_some_iff.mp hstep
    split at hrest
    · cases hrest
    · rename_i hne
      obtain rfl := Option.some.inj hrest
      exact ⟨media_accounted h (List.mem_of_getElem? hd) hne,
        fun x id => media_alive (List.mem_of_getElem? hd)⟩
  | snoop k =>
    obtain ⟨p, hp, hrest⟩ := Option.bind_eq_some_iff.mp hstep
    have hmem := List.mem_of_getElem? hp
    split at hrest
    · rename_i payload hbody
      obtain ⟨m, hm, hrest⟩ := Option.bind_eq_some_iff.mp hrest
      split at hrest
      · cases hrest
      · rename_i hne
        obtain rfl := Option.some.inj hrest
        exact ⟨snoop_accounted h hdistinct hmem hbody hm hne, fun x id => snoop_alive h hmem hbody hm⟩
    · cases hrest
  | purge imsi =>
    obtain rfl := Option.some.inj hstep
    exact ⟨purge_accounted h imsi, fun x id => purge_alive⟩
  | lose k =>
    obtain rfl := Option.some.inj hstep
    exact ⟨lose_accounted h k, fun x id => lose_alive⟩

/-- The step lemma: under both conditions a start keeps the conferences apart. -/
theorem step_keptApart {e : ConfCellEvent ι} (h : s.Accounted) (hapart : s.KeptApart)
    (hfits : OnStart CounterFits s e) (hown : OnStart OwnNumber s e) (hstep : s.step digest e = some s') :
    s'.Accounted ∧ s'.KeptApart := by
  by_cases hstart : ∃ i imsiB imsiC, e = .startConf i imsiB imsiC
  · obtain ⟨i, imsiB, imsiC, rfl⟩ := hstart
    obtain rfl := Option.some.inj hstep
    have haccounted := startConf_accounted h hfits imsiB imsiC
    -- nobody else has a conference under the new number
    have hnew : ∀ y, y ≠ s.imsi i → (s.ues i).Opens → ¬ s.Alive y (s.ues i).number := by
      intro y hy hopens halive
      have htraced : ∃ c ∈ s.started, c.host = y ∧ c.number = (s.ues i).number ∧ c.seq.toNat < 2 ^ 16 := by
        obtain ⟨hne, ⟨j, d, hd, hhost, hconf⟩ | ⟨c, hc, hhost⟩ | ⟨p, hp, hhost, hconf⟩⟩ := halive
        · have hdialog := (h.dialogs j d hd (hconf ▸ hne)).1
          rwa [hhost, hconf] at hdialog
        · obtain ⟨n, hn, -, hparties⟩ := h.table _ c hc
          obtain rfl := UInt32.toNat_inj.mp hn
          have hentry := (hparties c.host (.inl rfl)).1
          rwa [hhost] at hentry
        · have hpacket := (h.wire p hp (hconf ▸ hne)).1
          rwa [hhost, hconf] at hpacket
      obtain ⟨c, hc, rfl, hnumber, hlow⟩ := htraced
      obtain ⟨hcrnti, hseq⟩ := (SipUe.confNumber_inj hlow (hfits hopens)).mp hnumber
      exact hown hopens c hc hy (hnumber ▸ halive) (Prod.ext hcrnti hseq)
    refine ⟨haccounted, haccounted.keptApart fun x y id hne hx hy => ?_⟩
    rcases startConf_alive hx with hx | ⟨hopens, rfl, rfl⟩
    · rcases startConf_alive hy with hy | ⟨hopens, rfl, rfl⟩
      · exact hapart.distinct x y id hne hx hy
      · exact hnew x hne hopens hx
    · rcases startConf_alive hy with hy | ⟨-, rfl, -⟩
      · exact hnew y hne.symm hopens hy
      · exact hne rfl
  · have hother : ∀ i imsiB imsiC, e ≠ .startConf i imsiB imsiC :=
      fun i imsiB imsiC heq => hstart ⟨i, imsiB, imsiC, heq⟩
    obtain ⟨haccounted, halive⟩ := step_inherits h hapart.distinct hother hstep
    exact ⟨haccounted, haccounted.keptApart (distinct_of_alive hapart.distinct halive)⟩

/-- A start under the C-RNTI and at the count of another host's conference that is alive gives both
the same number. -/
theorem step_not_keptApart {e : ConfCellEvent ι} (hown : ¬ OnStart OwnNumber s e) :
    ∃ s', s.step digest e = some s' ∧ ¬ s'.KeptApart := by
  cases e with
  | startConf i imsiB imsiC =>
    refine ⟨s.startConf i imsiB imsiC, rfl, fun hapart => hown ?_⟩
    intro hopens c hc hne halive hsame
    have hnumber : c.number = (s.ues i).number :=
      congrArg₂ SipUe.confNumber (congrArg Prod.fst hsame) (congrArg Prod.snd hsame)
    rw [hnumber] at halive
    exact hapart.distinct (s.imsi i) c.host _ hne.symm (alive_startConf hopens imsiB imsiC halive.1)
      (startConf_keeps hopens imsiB imsiC halive)
  | _ => exact absurd trivial hown

end

end ConfCell

open ConfCell in
/-- As long as no counter passes 16 bits, the conferences of different hosts have different numbers all
along a run, and neither snooping nor bridging mixes them, if and only if no host starts one under a
cached C-RNTI, at a count, at which another host has started one that is alive. -/
theorem conference_ids_distinct_iff {ι : Type} [DecidableEq ι] (digest : KeyedDigest)
    (config : ι → UeNodeConfig) {events : List (ConfCellEvent ι)}
    (fits : StepsMeet (step digest) (OnStart CounterFits) (make config) events) :
    Always (step digest) KeptApart (make config) events ↔
      StepsMeet (step digest) (OnStart OwnNumber) (make config) events := by
  refine always_iff_meets_within Accounted ?_ ?_ (accounted_make config) ?_ fits
  · intro s e s' h hapart hfits hown hstep
    exact step_keptApart h hapart hfits hown hstep
  · intro s e _ _ _ hown
    exact step_not_keptApart hown
  · exact (accounted_make config).keptApart fun x y id _ hx => absurd hx (not_alive_make config x id)

namespace ConfCell
open UeRun

def subscribers (i : Fin 2) : UeNodeConfig := { subscriber with imsi := [UInt8.ofNat (i + 1)] }

/-- An attach with authentication, as `attachRun` is for C-RNTI 1. -/
def attachUnder (crnti : Nat) : List UeEvent :=
  systemInfo ++ .attach :: randomAccess crnti ++
    [rrcDownlink crnti .setup (putU16 crnti),
      nasDownlink crnti .authRequest
        (List.replicate 16 0 ++ [0, 0, 0, 0, 0, 1] ++ List.replicate 10 0),
      nasDownlink crnti .attachAccept [1, 0, 1, 0]]

def suspend (crnti : Nat) : List UeEvent :=
  [rrcDownlink crnti .release (putU16 crnti ++ [1, UInt8.ofNat crnti, 0, 1, 0])]

def eventsOf (i : Fin 2) (events : List UeEvent) : List (ConfCellEvent (Fin 2)) :=
  events.map fun e => .node i e

/-- Two UEs attach under their C-RNTIs, each starts a conference, and the base station sees both. -/
def connectedHosts : List (ConfCellEvent (Fin 2)) :=
  eventsOf 0 (attachUnder 1) ++ eventsOf 1 (attachUnder 2) ++
    [.startConf 0 [3] [4], .startConf 1 [5] [6], .snoop 0, .snoop 2]

/-- The same after the base station has suspended both. -/
def suspendedHosts : List (ConfCellEvent (Fin 2)) :=
  eventsOf 0 (attachUnder 1 ++ suspend 1) ++ eventsOf 1 (attachUnder 2 ++ suspend 2) ++
    [.startConf 0 [3] [4], .startConf 1 [5] [6]]

end ConfCell

open ConfCell UeRun in
theorem conference_ids_distinct_connected :
    (∃ s, runFrom (step nullDigest) (make subscribers) connectedHosts = some s ∧
      s.Alive [1] 0x10001 ∧ s.Alive [2] 0x20001) ∧
    Always (step nullDigest) KeptApart (make subscribers) connectedHosts := by
  have hrun : ∃ s ∈ runFrom (step nullDigest) (make subscribers) connectedHosts,
      s.Alive [1] 0x10001 ∧ s.Alive [2] 0x20001 := by
    decide
  exact ⟨hrun, (conference_ids_distinct_iff nullDigest subscribers (by decide)).mpr
    (by decide)⟩

open ConfCell UeRun in
/-- Both read C-RNTI zero, and both are at their first conference. -/
theorem conference_ids_collide :
    ∃ s, runFrom (step nullDigest) (make subscribers) suspendedHosts = some s ∧
      s.Alive [1] 1 ∧ s.Alive [2] 1 ∧ ¬ s.KeptApart := by
  have hrun : ∃ s ∈ runFrom (step nullDigest) (make subscribers) suspendedHosts,
      s.Alive [1] 1 ∧ s.Alive [2] 1 := by
    decide
  obtain ⟨s, hs, hfirst, hsecond⟩ := hrun
  exact ⟨s, hs, hfirst, hsecond, fun hapart => hapart.distinct [1] [2] 1 (by decide) hfirst hsecond⟩

end AetherStack.Guarantees
