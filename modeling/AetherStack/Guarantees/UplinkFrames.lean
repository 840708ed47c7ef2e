import AetherStack.Source.HarqCodec
import AetherStack.Guarantees.UeSecurity

/-!
# The C-RNTI of uplink frames

`pump_app_bearers` is held back in RRC_INACTIVE only, but a UE has no C-RNTI either while it
resumes or re-establishes: a tick in between sends what is queued with RNTI 0, and so does a
`detach`. HARQ blocks still in flight when a resume or a re-establishment fails are repeated
with RNTI 0. As long as none of this happens, every frame with a bearer PDU or a NAS PDU has
a C-RNTI: `Linked` is the invariant, `UplinkKept` the condition on a step.
-/
namespace AetherStack.Guarantees
open Source Source.Core Lib Source.Mac Source.Rrc

/-! ## Frames and blocks with user data -/

/-- NAS, and the data and STATUS channels of the bearers. -/
def userLcid (lcid : UInt8) : Bool :=
  lcid = lcidNasDcch || (qciOfLcid lcid).isSome || (qciOfStatusLcid lcid).isSome

/-- A HARQ block with a bearer PDU or a NAS PDU. -/
def CarriesUser (coded : Bytes) : Prop :=
  ∃ (lcid : UInt8) (sdu : Bytes) (proc ndi : UInt8), userLcid lcid = true ∧
    coded = linkEncode (buildPdu [(lcid, sdu)]) proc ndi

def Addressed (f : AirFrame) : Prop := f.type = .data → CarriesUser f.payload → f.rnti ≠ 0

/-- A HARQ process holds user data. -/
def HoldsUser (t : HarqTx) : Prop := ∃ pr ∈ t.procs, pr.busy = true ∧ CarriesUser pr.coded

/-- The process table is as long as the configuration says. -/
def Whole (t : HarqTx) : Prop := t.procs.length = t.cfg.numProcesses.toNat

/-- No channel of the user shares its six bits with CCCH or the CQI report. -/
private theorem userLcid_table : ∀ i : Fin 256, userLcid (UInt8.ofNat i.val) = true →
    lcidCcch &&& 0x3F ≠ UInt8.ofNat i.val &&& 0x3F ∧
      lcidCqiReport &&& 0x3F ≠ UInt8.ofNat i.val &&& 0x3F := by
  decide +kernel

/-- The other uplink channels: CCCH and CQI. -/
theorem not_carriesUser {lcid : UInt8} (h : lcid = lcidCcch ∨ lcid = lcidCqiReport) (sdu : Bytes)
    (proc ndi : UInt8) : ¬ CarriesUser (linkEncode (buildPdu [(lcid, sdu)]) proc ndi) := by
  rintro ⟨lcid', sdu', proc', ndi', huser, hcoded⟩
  have hlcid := buildPdu_lcid (linkEncode_injective hcoded)
  have htable := userLcid_table ⟨lcid'.toNat, lcid'.toNat_lt⟩
  simp only [UInt8.ofNat_toNat] at htable
  rcases h with rfl | rfl
  · exact (htable huser).1 hlcid
  · exact (htable huser).2 hlcid

section HarqBlocks

variable {t : HarqTx}

theorem holdsUser_set {i : Nat} {pr : HarqProc}
    (h : HoldsUser { t with procs := t.procs.set i pr }) :
    HoldsUser t ∨ pr.busy = true ∧ CarriesUser pr.coded := by
  obtain ⟨pr', hmem, hbusy, hcoded⟩ := h
  rcases List.mem_or_eq_of_mem_set hmem with hmem | rfl
  · exact .inl ⟨pr', hmem, hbusy, hcoded⟩
  · exact .inr ⟨hbusy, hcoded⟩

/-- A process holds user data if it did before or the new block carries it. -/
theorem holdsUser_send {pdu : Bytes} (h : HoldsUser (t.send pdu).1) :
    HoldsUser t ∨ ∃ proc ndi, CarriesUser (linkEncode pdu proc ndi) := by
  rcases HarqTx.send_cases t pdu with hbusy | ⟨p, ndi, -, -, hsent⟩
  · rw [hbusy] at h
    exact .inl h
  · rw [hsent] at h
    rcases holdsUser_set (t := t) h with hold | ⟨-, hnew⟩
    · exact .inl hold
    · exact .inr ⟨_, _, hnew⟩

theorem send_coded {pdu : Bytes} {event : HarqEvent} (h : (t.send pdu).2 = some event) :
    ∃ proc ndi, event.coded = linkEncode pdu proc ndi := by
  rcases HarqTx.send_cases t pdu with hbusy | ⟨p, ndi, -, -, hsent⟩
  · rw [hbusy] at h
    cases h
  · rw [hsent] at h
    obtain rfl := Option.some.inj h
    exact ⟨_, _, rfl⟩

/-- A retransmission repeats a block that is held, and holds nothing new. -/
theorem retx_holds (t : HarqTx) (p : Nat) :
    (HoldsUser (t.retx p).1 → HoldsUser t) ∧
      ∀ event, (t.retx p).2 = some event → CarriesUser event.coded → HoldsUser t := by
  rcases HarqTx.retx_cases t p with hfree | ⟨pr, hget, hbusy, hspent | ⟨-, hagain⟩⟩
  · rw [hfree]
    exact ⟨id, fun event hevent => by cases hevent⟩
  · rw [hspent]
    refine ⟨fun hheld => ?_, fun event hevent => by cases hevent⟩
    rcases holdsUser_set (t := t) hheld with hold | ⟨hbusy', -⟩
    · exact hold
    · cases hbusy'
  · have hpr : CarriesUser pr.coded → HoldsUser t := fun hcoded =>
      ⟨pr, List.mem_of_getElem? hget, hbusy, hcoded⟩
    rw [hagain]
    refine ⟨fun hheld => ?_, fun event hevent hcoded => ?_⟩
    · rcases holdsUser_set (t := t) hheld with hold | ⟨-, hcoded⟩
      · exact hold
      · exact hpr hcoded
    · obtain rfl := Option.some.inj hevent
      exact hpr hcoded

/-- Timeouts repeat what the processes hold. -/
theorem pollLoop_holds (nowMs : UInt32) (ps : List Nat) (t : HarqTx) :
    (HoldsUser (HarqTx.pollLoop nowMs t ps).1 → HoldsUser t) ∧
      ∀ event ∈ (HarqTx.pollLoop nowMs t ps).2, CarriesUser event.coded → HoldsUser t := by
  induction ps generalizing t with
  | nil => exact ⟨id, fun event hevent => by cases hevent⟩
  | cons p ps ih =>
    unfold HarqTx.pollLoop
    dsimp only
    split
    · obtain ⟨hheld, hevents⟩ := ih (t.retx p).1
      obtain ⟨hretx, hevent⟩ := retx_holds t p
      refine ⟨fun h => hretx (hheld h), fun event hmem hcoded => ?_⟩
      rcases List.mem_append.mp hmem with hmem | hmem
      · exact hevent event (Option.mem_toList.mp hmem) hcoded
      · exact hretx (hevents event hmem hcoded)
    · exact ih t

theorem send_whole (h : Whole t) (pdu : Bytes) : Whole (t.send pdu).1 := by
  rcases HarqTx.send_cases t pdu with hbusy | ⟨p, ndi, -, -, hsent⟩
  · rw [hbusy]
    exact h
  · rw [hsent]
    simpa [Whole] using h

theorem retx_whole (h : Whole t) (p : Nat) : Whole (t.retx p).1 := by
  rcases HarqTx.retx_cases t p with hfree | ⟨pr, -, -, hspent | ⟨-, hagain⟩⟩
  · rw [hfree]
    exact h
  · rw [hspent]
    simpa [Whole] using h
  · rw [hagain]
    simpa [Whole] using h

theorem pollLoop_whole (nowMs : UInt32) (ps : List Nat) {t : HarqTx} (h : Whole t) :
    Whole (HarqTx.pollLoop nowMs t ps).1 := by
  induction ps generalizing t with
  | nil => exact h
  | cons p ps ih =>
    unfold HarqTx.pollLoop
    dsimp only
    split
    · exact ih (retx_whole h p)
    · exact ih h

theorem reset_whole (h : Whole t) : Whole t.reset := by
  simpa [Whole, HarqTx.reset] using h

/-- A search that finds nothing has been at every process. -/
theorem busy_of_freeProc_none (h : t.freeProc = none) {p : Nat}
    (hp : p < t.cfg.numProcesses.toNat) : (t.procs.getD p {}).busy = true := by
  unfold HarqTx.freeProc at h
  generalize t.cfg.numProcesses.toNat = n at h hp
  have hnext := Nat.mod_lt t.nextProc (Nat.zero_lt_of_lt hp)
  have hround : (t.nextProc + (p + n - t.nextProc % n) % n) % n = p := by
    have hsum : t.nextProc % n + (p + n - t.nextProc % n) = p + n := by omega
    rw [Nat.add_mod, Nat.mod_mod, ← Nat.add_mod, ← Nat.mod_add_mod, hsum, Nat.add_mod_right,
      Nat.mod_eq_of_lt hp]
  have hmem : p ∈ (List.range n).map fun i => (t.nextProc + i) % n :=
    List.mem_map.mpr ⟨_, List.mem_range.mpr (Nat.mod_lt _ (Nat.zero_lt_of_lt hp)), hround⟩
  simpa using List.find?_eq_none.mp h p hmem

/-- A process is free as long as fewer are busy than there are. -/
theorem send_accepts (h : Whole t) (hfree : t.inFlight < t.cfg.numProcesses.toNat) (pdu : Bytes) :
    ∃ event, (t.send pdu).2 = some event := by
  unfold HarqTx.send
  cases hproc : t.freeProc with
  | some p => exact ⟨_, rfl⟩
  | none =>
    have hall : t.inFlight = t.procs.length := by
      apply List.countP_eq_length.mpr
      intro pr hpr
      obtain ⟨p, hp, rfl⟩ := List.mem_iff_getElem.mp hpr
      have hbusy := busy_of_freeProc_none hproc (h ▸ hp)
      simpa [List.getD_eq_getElem?_getD, hp] using hbusy
    rw [hall, h] at hfree
    exact absurd hfree (lt_irrefl _)

/-- After a reset they hold nothing. -/
theorem not_holdsUser_reset (t : HarqTx) : ¬ HoldsUser t.reset := by
  rintro ⟨pr, hmem, hbusy, -⟩
  obtain ⟨pr', -, rfl⟩ := List.mem_map.mp hmem
  cases hbusy

end HarqBlocks

/-! ## The link state -/

/-- The part of the node that decides how the uplink is addressed. -/
structure LinkState where
  crnti : Nat
  rach : RachState
  rrc : UeState
  informed : Bool
  guard : Bool
  harqTx : HarqTx
  bearers : BearerSet
  air : List AirFrame

def link (u : UeNode) : LinkState where
  crnti := u.crntiCache
  rach := u.rach.state
  rrc := u.rrc.state
  informed := u.hasSystemInfo
  guard := u.resumeGuardRunning
  harqTx := u.harqTx
  bearers := u.bearers
  air := u.air

structure Linked (c : LinkState) : Prop where
  frames : ∀ f ∈ c.air, Addressed f
  held : c.crnti = 0 → ¬ HoldsUser c.harqTx
  waiting : c.rach ≠ .connected → c.crnti = 0
  settled : c.rach = .waitRar ∨ c.rach = .waitContentionResolve → c.rrc = .idle ∨ c.rrc = .connecting
  connected : c.rrc = .connected → c.crnti ≠ 0
  asleep : c.rrc = .inactive → c.crnti = 0
  known : c.rach ≠ .idle ∨ c.rrc ≠ .idle ∨ c.guard = true → c.informed = true
  ctrl : ∀ p ∈ c.bearers.ctrl, p.lcid = lcidCqiReport
  whole : Whole c.harqTx

/-- Frames go out and HARQ takes their blocks; `loud` sends are of user data. -/
structure Emits (loud : Prop) (c c' : LinkState) : Prop where
  same : ∃ harqTx air, c' = { c with harqTx := harqTx, air := air }
  frames : (∀ f ∈ c.air, Addressed f) → ∀ f ∈ c'.air, Addressed f
  held : HoldsUser c'.harqTx → HoldsUser c.harqTx ∨ loud ∧ c.crnti ≠ 0
  whole : Whole c.harqTx → Whole c'.harqTx

section Emissions

variable {loud : Prop} {c c' c'' : LinkState}

theorem Emits.refl (loud : Prop) (c : LinkState) : Emits loud c c :=
  ⟨⟨_, _, rfl⟩, id, .inl, id⟩

theorem Emits.trans (h : Emits loud c c') (h' : Emits loud c' c'') : Emits loud c c'' := by
  obtain ⟨t, a, hsame⟩ := h.same
  obtain ⟨t', a', hsame'⟩ := h'.same
  refine ⟨⟨t', a', ?_⟩, fun hframes => h'.frames (h.frames hframes), fun hheld => ?_,
    fun hwhole => h'.whole (h.whole hwhole)⟩
  · rw [hsame', hsame]
  · rcases h'.held hheld with hheld | ⟨hloud, hcrnti⟩
    · exact h.held hheld
    · rw [hsame] at hcrnti
      exact .inr ⟨hloud, hcrnti⟩

/-- Emitting what is allowed keeps the invariant. -/
theorem Emits.linked (h : Emits loud c c') (hc : Linked c) : Linked c' := by
  obtain ⟨t, a, hsame⟩ := h.same
  have hframes := h.frames hc.frames
  have hheld := h.held
  have hwhole := h.whole hc.whole
  rw [hsame] at hframes hheld hwhole ⊢
  refine ⟨hframes, fun hcrnti hold => ?_, hc.waiting, hc.settled, hc.connected, hc.asleep, hc.known,
    hc.ctrl, hwhole⟩
  rcases hheld hold with hold | ⟨-, hne⟩
  · exact hc.held hcrnti hold
  · exact hne hcrnti

theorem emits_foldl {α : Type} {f : UeNode → α → UeNode}
    (hf : ∀ u a, Emits loud (link u) (link (f u a))) (l : List α) (u : UeNode) :
    Emits loud (link u) (link (l.foldl f u)) := by
  induction l generalizing u with
  | nil => exact .refl loud _
  | cons a l ih => exact (hf u a).trans (ih (f u a))

end Emissions

/-! ## What the operations do to it -/

/-- The SDU on the air is the one handed over, or what PDCP made of it. -/
def Sealed (digest : KeyedDigest) (sdu sealed : Bytes) : Prop :=
  sealed = sdu ∨ ∃ key seq, sealed = Pdcp.protect (UeNode.pdcpHmac digest) key seq sdu

/-- Enciphered or not, it is one transmission. -/
theorem uplinkSend_eq (digest : KeyedDigest) (u : UeNode) (lcid : UInt8) (sdu : Bytes) :
    ∃ (v : UeNode) (sealed : Bytes), Sealed digest sdu sealed ∧ link v = link u ∧
      u.uplinkSend digest lcid sdu = v.transmit lcid sealed := by
  unfold UeNode.uplinkSend
  split
  · exact ⟨{ u with pdcpSeq := u.pdcpSeq + 1 }, _, .inr ⟨_, _, rfl⟩, rfl, rfl⟩
  · exact ⟨u, _, .inl rfl, rfl, rfl⟩

/-- CCCH and CQI reports may go out any time, user data with a C-RNTI. -/
theorem transmit_emits {loud : Prop} (u : UeNode) {lcid : UInt8} (sdu : Bytes)
    (hquiet : (lcid = lcidCcch ∨ lcid = lcidCqiReport) ∨ loud ∧ u.crntiCache ≠ 0) :
    Emits loud (link u) (link (u.transmit lcid sdu)) := by
  refine ⟨⟨_, _, rfl⟩, fun hframes f hf => ?_, fun hholds => ?_, fun hwhole => send_whole hwhole _⟩
  · rcases List.mem_append.mp hf with hf | hf
    · exact hframes f hf
    · obtain ⟨event, hevent, rfl⟩ := List.mem_map.mp hf
      obtain ⟨proc, ndi, hcoded⟩ := send_coded (Option.mem_toList.mp hevent)
      intro _ huser
      rcases hquiet with hquiet | ⟨-, hne⟩
      · rw [hcoded] at huser
        exact absurd huser (not_carriesUser hquiet _ _ _)
      · exact hne
  · rcases holdsUser_send hholds with hold | ⟨proc, ndi, hnew⟩
    · exact .inl hold
    · rcases hquiet with hquiet | hloud
      · exact absurd hnew (not_carriesUser hquiet _ _ _)
      · exact .inr hloud

section Sends

variable (digest : KeyedDigest) (u : UeNode)

/-- One transmission of an SDU: quiet on CCCH and for CQI, loud with a C-RNTI. -/
theorem uplinkSend_emits {loud : Prop} (lcid : UInt8) (sdu : Bytes)
    (hquiet : (lcid = lcidCcch ∨ lcid = lcidCqiReport) ∨ loud ∧ u.crntiCache ≠ 0) :
    Emits loud (link u) (link (u.uplinkSend digest lcid sdu)) := by
  obtain ⟨v, sealed, -, hlink, hsend⟩ := uplinkSend_eq digest u lcid sdu
  have hcrnti : v.crntiCache = u.crntiCache := congrArg LinkState.crnti hlink
  rw [hsend, ← hlink]
  exact transmit_emits v sealed (hcrnti ▸ hquiet)

theorem rrcSend_emits (loud : Prop) (pdu : Bytes) :
    Emits loud (link u) (link (u.rrcSend digest pdu)) := by
  unfold UeNode.rrcSend
  split
  · exact uplinkSend_emits digest u _ _ (.inl (.inl rfl))
  · exact .refl loud _

theorem nasSend_emits (pdu : Bytes) (hcrnti : u.crntiCache ≠ 0) :
    Emits True (link u) (link (u.nasSend digest pdu)) :=
  uplinkSend_emits digest { u with nasSent := u.nasSent ++ [(pdu, u.upSecOn)] } _ _
    (.inr ⟨trivial, hcrnti⟩)

/-- NAS sends keep the C-RNTI, so a list of them does what one does. -/
theorem nasSends_emit (pdus : List Bytes) (u : UeNode) (hcrnti : u.crntiCache ≠ 0) :
    Emits True (link u) (link (pdus.foldl (UeNode.nasSend digest) u)) := by
  induction pdus generalizing u with
  | nil => exact .refl True _
  | cons pdu pdus ih =>
    have hsend := nasSend_emits digest u pdu hcrnti
    obtain ⟨t, a, hsame⟩ := hsend.same
    have hkept : (u.nasSend digest pdu).crntiCache = u.crntiCache := congrArg LinkState.crnti hsame
    exact hsend.trans (ih _ (hkept ▸ hcrnti))

/-- Without a C-RNTI retransmissions must not carry user data. -/
theorem pumpHarq_emits (hheld : u.crntiCache = 0 → ¬ HoldsUser u.harqTx) :
    Emits True (link u) (link u.pumpHarq) := by
  obtain ⟨hholds, hevents⟩ := pollLoop_holds u.nowMs (List.range u.harqTx.procs.length)
    (u.harqTx.advance u.nowMs)
  have hfold : ∀ (events : List HarqEvent) (v : UeNode),
      link (events.foldl (fun u e => u.sendFrame .data u.crntiCache e.coded) v) =
        { link v with air := v.air ++ events.map fun e => ⟨.data, v.crntiCache, e.coded⟩ } := by
    intro events
    induction events with
    | nil =>
      intro v
      simp [link]
    | cons e events ih =>
      intro v
      rw [List.foldl_cons, ih]
      simp [link, UeNode.sendFrame, UeNode.hasSystemInfo]
  unfold UeNode.pumpHarq
  dsimp only
  rw [hfold]
  refine ⟨⟨_, _, rfl⟩, fun hframes f hf => ?_, fun hold => .inl (hholds hold),
    fun hwhole => pollLoop_whole _ _ hwhole⟩
  rcases List.mem_append.mp hf with hf | hf
  · exact hframes f hf
  · obtain ⟨event, hevent, rfl⟩ := List.mem_map.mp hf
    intro _ huser hzero
    exact hheld hzero (hevents event hevent huser)

end Sends

/-! ### Random access -/

section RandomAccess

variable (digest : KeyedDigest) {u : UeNode}

theorem link_scheduleAttachRetry (u : UeNode) : link u.scheduleAttachRetry = link u := by
  unfold UeNode.scheduleAttachRetry
  split <;> rfl

theorem link_rachForceIdle (u : UeNode) : link u.rachForceIdle = { link u with rach := .idle } := by
  unfold UeNode.rachForceIdle RachUe.forceIdle
  split
  · rename_i hidle
    simp [UeNode.runRach, link, hidle, UeNode.hasSystemInfo]
  · exact link_scheduleAttachRetry _

theorem link_startRach (h : u.rach.state = .idle) : ∃ pdu, link u.startRach =
    { link u with rach := .waitRar, crnti := 0, air := u.air ++ [⟨.msg1Prach, 0, pdu⟩] } := by
  unfold UeNode.startRach RachUe.startRach
  rw [if_neg (not_not.mpr h)]
  exact ⟨_, rfl⟩

theorem addressed_append {air : List AirFrame} (h : ∀ f ∈ air, Addressed f) {f : AirFrame}
    (hf : f.type ≠ .data) : ∀ g ∈ air ++ [f], Addressed g := by
  intro g hg
  rcases List.mem_append.mp hg with hg | hg
  · exact h g hg
  · obtain rfl := List.mem_singleton.mp hg
    exact fun hdata => absurd hdata hf

/-- What random access may start from: no user data in HARQ, and no connection. -/
structure Ready (c : LinkState) : Prop where
  frames : ∀ f ∈ c.air, Addressed f
  free : ¬ HoldsUser c.harqTx
  down : c.rrc = .idle ∨ c.rrc = .connecting
  informed : c.informed = true
  ctrl : ∀ p ∈ c.bearers.ctrl, p.lcid = lcidCqiReport
  whole : Whole c.harqTx

/-- Random access may begin once nothing of the user is under way. -/
theorem startRach_linked (h : Ready (link u)) (hidle : u.rach.state = .idle) :
    Linked (link u.startRach) := by
  obtain ⟨pdu, hstart⟩ := link_startRach hidle
  rw [hstart]
  refine ⟨addressed_append h.frames (by simp), fun _ => h.free, fun _ => rfl, fun _ => h.down, ?_,
    ?_, fun _ => h.informed, h.ctrl, h.whole⟩
  · intro hrrc
    rcases h.down with hdown | hdown <;> exact absurd (hrrc.symm.trans hdown) (by decide)
  · intro hrrc
    rcases h.down with hdown | hdown <;> exact absurd (hrrc.symm.trans hdown) (by decide)

/-- Quiet emissions leave the UE ready for it. -/
theorem Ready.quiet {c c' : LinkState} (h : Ready c) (hemits : Emits False c c') : Ready c' := by
  obtain ⟨t, a, hsame⟩ := hemits.same
  have hframes := hemits.frames h.frames
  have hheld := hemits.held
  have hwhole := hemits.whole h.whole
  rw [hsame] at hframes hheld hwhole ⊢
  refine ⟨hframes, fun hold => ?_, h.down, h.informed, h.ctrl, hwhole⟩
  rcases hheld hold with hold | ⟨hfalse, -⟩
  · exact h.free hold
  · exact hfalse

/-- With everything in place `maybe_start_attach` starts random access. -/
theorem maybeStartAttach_started (hready : Ready (link u)) (hrequested : u.attachRequested = true)
    (hrach : u.rach.state = .idle) (hrrc : u.rrc.state = .idle) :
    Linked (link (u.maybeStartAttach digest)) := by
  have hinformed : u.hasSystemInfo = true := hready.informed
  unfold UeNode.maybeStartAttach
  rw [if_neg (by simp [hrequested, hinformed, hrach, hrrc])]
  split
  · exact startRach_linked (u := { u with pendingCcch := u.reestReqPdu }) hready hrach
  · have hlink : link { u.selectServingCell.targetServingCell with pendingCcch := [] } = link u := rfl
    generalize ({ u.selectServingCell.targetServingCell with pendingCcch := [] } : UeNode) = v
      at hlink ⊢
    rw [← hlink] at hready
    have hstate : v.rrc.state = .idle := (congrArg LinkState.rrc hlink).trans hrrc
    have hconnecting : (v.rrc.startConnection v.servingCell).1.state = .connecting := by
      simp [RrcUe.startConnection, hstate]
    have hasking : Ready (link { v with rrc := (v.rrc.startConnection v.servingCell).1 }) :=
      ⟨hready.frames, hready.free, .inr hconnecting, hready.informed, hready.ctrl, hready.whole⟩
    have hsends := emits_foldl (rrcSend_emits digest · False ·)
      (v.rrc.startConnection v.servingCell).2 { v with rrc := (v.rrc.startConnection v.servingCell).1 }
    have hasked := hasking.quiet hsends
    obtain ⟨t, a, hsame⟩ := hsends.same
    have hidle := (congrArg LinkState.rach hsame).trans ((congrArg LinkState.rach hlink).trans hrach)
    dsimp only
    generalize (v.rrc.startConnection v.servingCell).2.foldl (UeNode.rrcSend digest) _ = asked
      at hasked hidle ⊢
    split
    · exact startRach_linked hasked hidle
    · exact startRach_linked (u := { asked with attachGuardRunning := true }.schedule .attachGuard)
        hasked hidle

theorem maybeStartAttach_linked (h : Linked (link u)) :
    Linked (link (u.maybeStartAttach digest)) := by
  by_cases hstarts : u.attachRequested = true ∧ u.hasSystemInfo = true ∧ u.rach.state = .idle ∧
      u.rrc.state = .idle
  · obtain ⟨hrequested, hinformed, hrach, hrrc⟩ := hstarts
    have hcrnti : u.crntiCache = 0 := h.waiting (by simp [link, hrach])
    exact maybeStartAttach_started digest ⟨h.frames, h.held hcrnti, .inl hrrc, hinformed, h.ctrl,
      h.whole⟩ hrequested hrach hrrc
  · unfold UeNode.maybeStartAttach
    rw [if_pos]
    · exact h
    · by_contra hall
      apply hstarts
      simpa [not_or, and_assoc] using hall

theorem wake_linked (h : Linked (link u)) : Linked (link u.wake) := by
  unfold UeNode.wake
  split
  · exact h
  · rename_i hinactive
    have hstate : u.rrc.state = .inactive := by simpa [RrcUe.inactive] using hinactive
    have hcrnti : u.crntiCache = 0 := h.asleep hstate
    dsimp only
    generalize RrcMessage.encode _ = request
    set v : UeNode := { u with pendingCcch := request, rrc := u.rrc.startResume } with hv
    have hconnecting : v.rrc.state = .connecting := by simp [hv, RrcUe.startResume, hstate]
    have hready : Ready (link v.rachForceIdle) := by
      rw [link_rachForceIdle]
      exact ⟨h.frames, h.held hcrnti, .inr hconnecting,
        h.known (.inr (.inl (by simp [link, hstate]))), h.ctrl, h.whole⟩
    have hidle : v.rachForceIdle.rach.state = .idle :=
      congrArg LinkState.rach (link_rachForceIdle v)
    generalize v.rachForceIdle = idled at hready hidle ⊢
    split
    · exact startRach_linked (u := idled.targetServingCell) hready hidle
    · exact startRach_linked (u := UeNode.schedule _ _)
        ⟨hready.frames, hready.free, hready.down, hready.informed, hready.ctrl, hready.whole⟩ hidle

theorem Linked.reported {c : LinkState} (h : Linked c) {informed : Bool}
    (hmore : c.informed = true → informed = true) : Linked { c with informed := informed } :=
  ⟨h.frames, h.held, h.waiting, h.settled, h.connected, h.asleep, fun hany => hmore (h.known hany),
    h.ctrl, h.whole⟩

theorem handleSysinfoSdu_linked (h : Linked (link u)) (lcid : UInt8) (sdu : Bytes)
    (broadcast : Bool) : Linked (link (u.handleSysinfoSdu digest lcid sdu broadcast)) := by
  unfold UeNode.handleSysinfoSdu
  split
  · have hmore : Linked { link u with informed := true && u.sib1Ok } :=
      h.reported (by simp [link, UeNode.hasSystemInfo])
    exact maybeStartAttach_linked digest (u := { u with mibOk := true }) hmore
  · split
    · have hmore : Linked { link u with informed := u.mibOk && true } :=
        h.reported (by simp +contextual [link, UeNode.hasSystemInfo])
      exact maybeStartAttach_linked digest
        (u := ({ u with sib1Ok := true } : UeNode).hearCell (UeNode.sib1CellId sdu)) hmore
    · split
      · split
        · exact h
        · split
          · exact wake_linked h
          · split
            · exact maybeStartAttach_linked digest (u := { u with attachRequested := true }) h
            · exact h
      · exact h

end RandomAccess

/-! ### Bearers -/

def queueOf (u : UeNode) (q : Qci) : List AppPdu := (u.bearers.bearer q).queue

theorem Linked.withBearers {u : UeNode} (h : Linked (link u)) {bearers : BearerSet}
    (hctrl : ∀ p ∈ bearers.ctrl, p.lcid = lcidCqiReport) :
    Linked (link { u with bearers := bearers }) :=
  ⟨h.frames, h.held, h.waiting, h.settled, h.connected, h.asleep, h.known, hctrl, h.whole⟩

/-- A PDU popped from an idle set of bearers is a control PDU. -/
theorem popNext_ctrl {s s' : BearerSet} {p : AppPdu} (h : s.popNext = some (p, s'))
    (hempty : ∀ q, (s.bearer q).queue = []) :
    p ∈ s.ctrl ∧ ∀ q, (s'.bearer q).queue = [] := by
  unfold BearerSet.popNext at h
  split at h
  · rename_i rest hctrl
    simp only [Option.some.injEq, Prod.mk.injEq] at h
    obtain ⟨rfl, rfl⟩ := h
    exact ⟨by simp [hctrl], hempty⟩
  · split at h
    · cases h
    · rename_i q since _
      rw [hempty q] at h
      cases h

section Procedures

variable {digest : KeyedDigest} {u : UeNode}

/-- The pump needs a C-RNTI or empty queues. -/
theorem pumpLoop_linked (fuel : Nat) {u : UeNode} (h : Linked (link u))
    (hopen : u.crntiCache ≠ 0 ∨ ∀ q, queueOf u q = []) :
    Linked (link (UeNode.pumpLoop digest fuel u)) := by
  induction fuel generalizing u with
  | zero => exact h
  | succ fuel ih =>
    unfold UeNode.pumpLoop
    split
    · split
      · exact h
      · rename_i p bearers hpop
        obtain ⟨-, hctrl, -, -⟩ := BearerSet.popNext_spec hpop
        have hrest : Linked (link { u with bearers := bearers }) :=
          h.withBearers fun p hp => h.ctrl p (hctrl p hp)
        have hquiet : (p.lcid = lcidCcch ∨ p.lcid = lcidCqiReport) ∨
            True ∧ u.crntiCache ≠ 0 := by
          rcases hopen with hcrnti | hempty
          · exact .inr ⟨trivial, hcrnti⟩
          · exact .inl (.inr (h.ctrl p (popNext_ctrl hpop hempty).1))
        have hsend := uplinkSend_emits digest { u with bearers := bearers } p.lcid p.bytes hquiet
        apply ih (hsend.linked hrest)
        obtain ⟨t, a, hsame⟩ := hsend.same
        have hkept : (UeNode.uplinkSend digest { u with bearers := bearers } p.lcid
            p.bytes).crntiCache = u.crntiCache := congrArg LinkState.crnti hsame
        have hqueues : (UeNode.uplinkSend digest { u with bearers := bearers } p.lcid
            p.bytes).bearers = bearers := congrArg LinkState.bearers hsame
        rcases hopen with hcrnti | hempty
        · left
          rw [hkept]
          exact hcrnti
        · right
          intro q
          rw [queueOf, hqueues]
          exact (popNext_ctrl hpop hempty).2 q
    · exact h

theorem pumpAppBearers_linked (h : Linked (link u))
    (hopen : u.rrc.inactive = false → u.crntiCache ≠ 0 ∨ ∀ q, queueOf u q = []) :
    Linked (link (u.pumpAppBearers digest)) := by
  unfold UeNode.pumpAppBearers
  split
  · exact h
  · rename_i hactive
    exact pumpLoop_linked _ h (hopen (by simpa using hactive))

/-! Giving up a connection. -/

theorem Linked.idle {c : LinkState} (h : Linked c) : Linked { c with rrc := .idle } := by
  refine ⟨h.frames, h.held, h.waiting, fun _ => .inl rfl, ?_, ?_, ?_, h.ctrl, h.whole⟩
  · intro hconnected
    cases hconnected
  · intro hinactive
    cases hinactive
  · rintro (hrach | hrrc | hguard)
    · exact h.known (.inl hrach)
    · exact absurd rfl hrrc
    · exact h.known (.inr (.inr hguard))

/-- Random access back to idle, without a C-RNTI and with nothing in HARQ. -/
theorem Linked.dropped {c : LinkState} (h : Linked c) (hdown : c.rrc ≠ .connected)
    {bearers : BearerSet} (hctrl : bearers.ctrl = c.bearers.ctrl) :
    Linked { c with
      rach := .idle, crnti := 0, harqTx := c.harqTx.reset, bearers := bearers } := by
  refine ⟨h.frames, fun _ => not_holdsUser_reset _, fun _ => rfl, ?_, ?_, fun _ => rfl, ?_, ?_,
    reset_whole h.whole⟩
  · rintro (hwait | hwait) <;> cases hwait
  · exact fun hconnected => absurd hconnected hdown
  · rintro (hrach | hrest)
    · exact absurd rfl hrach
    · exact h.known (.inr hrest)
  · rw [hctrl]
    exact h.ctrl

theorem forceIdle_state (r : RrcUe) : r.forceIdle.state = .idle := by
  unfold RrcUe.forceIdle
  split
  · assumption
  · rfl

theorem link_aborted (v : UeNode) :
    link ({ v with rrc := v.rrc.forceIdle, crntiCache := 0, nas := v.nas.forceDeregistered } :
      UeNode).stopMeasurements.dropConnection =
      { link v with
        rrc := .idle, crnti := 0, harqTx := v.harqTx.reset, bearers := v.bearers.resetBearers } := by
  rw [← forceIdle_state v.rrc]
  rfl

theorem abortAttach_linked (h : Linked (link u)) : Linked (link u.abortAttach) := by
  unfold UeNode.abortAttach
  dsimp only
  rw [link_aborted, link_rachForceIdle]
  have hidle := link_rachForceIdle
    { u with attachRequested := false, attachGuardRunning := false, pendingCcch := [] }
  have hharq := congrArg LinkState.harqTx hidle
  have hbearers := congrArg LinkState.bearers hidle
  simp only [link] at hharq hbearers
  rw [hharq, hbearers]
  exact h.idle.dropped (by simp) rfl

/-- What `detach` does behind its two messages. -/
theorem link_detached (v : UeNode) :
    link ({ ({ v with crntiCache := 0 } : UeNode).rachForceIdle with
        pendingCcch := [], attachRequested := false } : UeNode).stopMeasurements.dropConnection =
      { link v with
        rach := .idle, crnti := 0, harqTx := v.harqTx.reset
        bearers := v.bearers.resetBearers } := by
  have hidle := link_rachForceIdle { v with crntiCache := 0 }
  have hdrop : ∀ w : UeNode, link ({ w with pendingCcch := [], attachRequested := false } :
      UeNode).stopMeasurements.dropConnection =
      { link w with harqTx := (link w).harqTx.reset, bearers := (link w).bearers.resetBearers } :=
    fun _ => rfl
  rw [hdrop, hidle]
  rfl

theorem release_linked (digest : KeyedDigest) (h : Linked (link u)) :
    Linked (link (u.rrc.release.2.foldl (UeNode.rrcSend digest) { u with rrc := u.rrc.release.1 })) ∧
      (u.rrc.release.2.foldl (UeNode.rrcSend digest)
        { u with rrc := u.rrc.release.1 }).rrc.state ≠ .connected := by
  have hsent := emits_foldl (rrcSend_emits digest · False ·) u.rrc.release.2
    { u with rrc := u.rrc.release.1 }
  obtain ⟨t, a, hsame⟩ := hsent.same
  have hstate := congrArg LinkState.rrc hsame
  simp only [link] at hstate
  unfold RrcUe.release at hsent hstate ⊢
  split at hsent
  · rename_i hdown
    rw [if_pos hdown] at hstate ⊢
    exact ⟨hsent.linked h, hstate ▸ hdown⟩
  · rename_i hconnected
    rw [if_neg hconnected] at hstate ⊢
    refine ⟨hsent.linked h.idle, ?_⟩
    rw [hstate]
    simp

/-- A DETACH of a connected UE needs its C-RNTI. -/
theorem detach_linked (h : Linked (link u))
    (hcrnti : u.registered = true → u.rrc.inactive = false → u.crntiCache ≠ 0) :
    Linked (link (u.detach digest)) := by
  unfold UeNode.detach
  split
  · exact h
  · rename_i hreg
    split
    · exact wake_linked (u := { u with detachAfterResume := true }) h
    · rename_i hactive
      have hne := hcrnti (by simpa using hreg) (by simpa using hactive)
      have hasked := nasSends_emit digest u.nas.sendDetach.2 { u with nas := u.nas.sendDetach.1 } hne
      have hlinked := hasked.linked h
      dsimp only
      generalize u.nas.sendDetach.2.foldl (UeNode.nasSend digest)
        { u with nas := u.nas.sendDetach.1 } = v at hlinked ⊢
      obtain ⟨hreleased, hdown⟩ := release_linked digest hlinked
      rw [link_detached]
      exact hreleased.dropped hdown rfl

/-! Losing and restoring a connection. -/

theorem Linked.lost {c : LinkState} (h : Linked c) (hfree : ¬ HoldsUser c.harqTx) :
    Linked { c with rach := .idle, rrc := .idle, crnti := 0 } := by
  refine ⟨h.frames, fun _ => hfree, fun _ => rfl, ?_, ?_, fun _ => rfl, ?_, h.ctrl, h.whole⟩
  · rintro (hwait | hwait) <;> cases hwait
  · intro hconnected
    cases hconnected
  · rintro (hrach | hrrc | hguard)
    · exact absurd rfl hrach
    · exact absurd rfl hrrc
    · exact h.known (.inr (.inr hguard))

/-- A UE with a C-RNTI has finished random access. -/
theorem Linked.resolved {c : LinkState} (h : Linked c) (hcrnti : c.crnti ≠ 0) :
    c.rach = .connected := by
  by_contra hrach
  exact hcrnti (h.waiting hrach)

/-- A C-RNTI that is exchanged for another leaves the invariant. -/
theorem Linked.restored {c : LinkState} (h : Linked c) (hcrnti : c.crnti ≠ 0) {crnti : Nat}
    (hne : crnti ≠ 0) {harqTx : HarqTx} (hwhole : Whole harqTx) (bearers : BearerSet)
    (hctrl : bearers.ctrl = c.bearers.ctrl) (guard : Bool) :
    Linked { c with
      crnti := crnti, rrc := .connected, harqTx := harqTx, bearers := bearers, guard := guard } := by
  have hrach := h.resolved hcrnti
  refine ⟨h.frames, fun hzero => absurd hzero hne, fun hnot => absurd hrach hnot, ?_, fun _ => hne,
    ?_, fun _ => h.known (.inl (by simp [hrach])), ?_, hwhole⟩
  · rintro (hwait | hwait) <;> exact absurd (hrach.symm.trans hwait) (by decide)
  · intro hinactive
    cases hinactive
  · rw [hctrl]
    exact h.ctrl

/-- A suspension gives up the C-RNTI, and HARQ with it. -/
theorem onSuspended_linked (h : Linked (link u)) (hconnected : u.rrc.state = .connected) {r : RrcUe}
    (hinactive : r.state = .inactive) :
    Linked (link ({ u with rrc := r } : UeNode).onSuspended) := by
  have hrach := h.resolved (h.connected hconnected)
  refine ⟨h.frames, fun _ => not_holdsUser_reset _, fun _ => rfl, ?_, ?_, fun _ => rfl,
    fun _ => h.known (.inl (by simp [hrach])), h.ctrl, reset_whole h.whole⟩
  · rintro (hwait | hwait) <;> exact absurd (hrach.symm.trans hwait) (by decide)
  · intro hback
    exact absurd (hinactive.symm.trans hback) (by decide)

theorem pumpLoop_crnti (fuel : Nat) (u : UeNode) :
    (UeNode.pumpLoop digest fuel u).crntiCache = u.crntiCache := by
  induction fuel generalizing u with
  | zero => rfl
  | succ fuel ih =>
    unfold UeNode.pumpLoop
    split
    · split
      · rfl
      · rw [ih]
        unfold UeNode.uplinkSend
        split <;> rfl
    · rfl

theorem pumpAppBearers_crnti (u : UeNode) :
    (u.pumpAppBearers digest).crntiCache = u.crntiCache := by
  unfold UeNode.pumpAppBearers
  split
  · rfl
  · exact pumpLoop_crnti _ u

/-- A resume flushes the queues on the new C-RNTI. -/
theorem onResumed_linked (h : Linked (link u)) (hcrnti : u.crntiCache ≠ 0) {r : RrcUe}
    (hconnected : r.state = .connected) {newCrnti : Nat} (hne : newCrnti ≠ 0) :
    Linked (link (({ u with rrc := r } : UeNode).onResumed digest newCrnti)) := by
  unfold UeNode.onResumed
  dsimp only
  set v : UeNode := { u with
    rrc := r, resumeGuardRunning := false, crntiCache := newCrnti
    harqTx := u.harqTx.reset, harqRx := u.harqRx.reset } with hv
  have hlinked : Linked (link v) := by
    have hrestored := h.restored hcrnti hne (reset_whole h.whole) u.bearers rfl false
    rw [← hconnected] at hrestored
    exact hrestored
  have hpumped : Linked (link (v.pumpAppBearers digest)) :=
    pumpAppBearers_linked hlinked fun _ => .inl hne
  have hkept : (v.pumpAppBearers digest).crntiCache ≠ 0 := by
    rw [pumpAppBearers_crnti]
    exact hne
  split
  · exact detach_linked (u := { v.pumpAppBearers digest with detachAfterResume := false }) hpumped
      fun _ _ => hkept
  · exact hpumped

/-- A failed resume keeps HARQ, which must hold nothing of the user. -/
theorem onResumeFailed_linked (h : Linked (link u)) (hconnecting : u.rrc.state = .connecting)
    (hfree : ¬ HoldsUser u.harqTx) :
    Linked (link (({ u with rrc := {} } : UeNode).onResumeFailed digest)) := by
  unfold UeNode.onResumeFailed
  dsimp only
  have hidle := link_rachForceIdle
    { u with rrc := {}, resumeGuardRunning := false, crntiCache := 0 }
  generalize UeNode.rachForceIdle
    { u with rrc := {}, resumeGuardRunning := false, crntiCache := 0 } = v at hidle ⊢
  have hready : Ready (link { v with nas := v.nas.forceDeregistered, attachRequested := true }) := by
    have hstate : Ready (link v) := by
      rw [hidle]
      exact ⟨h.frames, hfree, .inl rfl, h.known (.inr (.inl (by simp [link, hconnecting]))), h.ctrl,
        h.whole⟩
    exact hstate
  exact maybeStartAttach_started digest hready rfl (congrArg LinkState.rach hidle)
    (congrArg LinkState.rrc hidle)

theorem reestablishFailed_linked (h : Linked (link u)) (hfree : ¬ HoldsUser u.harqTx) :
    Linked (link (u.reestablishFailed digest)) := by
  unfold UeNode.reestablishFailed
  dsimp only
  have hidle := link_rachForceIdle { u with
    reestablishPending := false, nas := u.nas.forceDeregistered
    upSecOn := false, pdcpSeq := 0, crntiCache := 0 }
  generalize UeNode.rachForceIdle { u with
    reestablishPending := false, nas := u.nas.forceDeregistered
    upSecOn := false, pdcpSeq := 0, crntiCache := 0 } = v at hidle ⊢
  have hlost : link { v with rrc := v.rrc.forceIdle } =
      { link u with rach := .idle, rrc := .idle, crnti := 0 } := by
    have hrrc : link { v with rrc := v.rrc.forceIdle } = { link v with rrc := .idle } := by
      rw [← forceIdle_state v.rrc]
      rfl
    rw [hrrc, hidle]
    rfl
  apply maybeStartAttach_linked
  rw [hlost]
  exact h.lost hfree

theorem link_rlf (v : UeNode) (request : Bytes) :
    link { (({ v with
        rrc := v.rrc.forceIdle, crntiCache := 0, reestReqPdu := request
        pendingCcch := request } : UeNode).cancel .reestGuard).schedule .reestGuard with
      attachRequested := true } = { link v with rrc := .idle, crnti := 0 } := by
  rw [← forceIdle_state v.rrc]
  rfl

theorem declareRlf_linked (h : Linked (link u)) (hconnected : u.rrc.state = .connected) :
    Linked (link u.declareRlf) := by
  unfold UeNode.declareRlf
  dsimp only
  have hidle := link_rachForceIdle
    ({ u with preRlfCrnti := u.crntiCache, reestablishPending := true } : UeNode).resetAirSide
  generalize ({ u with preRlfCrnti := u.crntiCache, reestablishPending := true } :
    UeNode).resetAirSide.rachForceIdle = v at hidle ⊢
  have hrlf := fun request => link_rlf v request
  apply startRach_linked
  · rw [hrlf, hidle]
    exact ⟨h.frames, not_holdsUser_reset _, .inl rfl,
      h.known (.inr (.inl (by simp [link, hconnected]))), h.ctrl, reset_whole h.whole⟩
  · exact congrArg LinkState.rach hidle

theorem applyHandover_linked (h : Linked (link u)) (hcrnti : u.crntiCache ≠ 0) {newCrnti : Nat}
    (hne : newCrnti ≠ 0) (targetCell : Nat) :
    Linked (link (u.applyHandover digest targetCell newCrnti)) := by
  have hrestored := h.restored hcrnti hne (reset_whole h.whole) u.bearers.resetBearers rfl
    u.resumeGuardRunning
  have hsent : Emits True _ (link (u.applyHandover digest targetCell newCrnti)) :=
    uplinkSend_emits digest { ({ u with
      servingCell := targetCell, crntiCache := newCrnti
      rrc := u.rrc.restoreConnected newCrnti } : UeNode).resetAirSide with pdcpSeq := 0 }
      lcidCcch _ (.inl (.inl rfl))
  exact hsent.linked hrestored

/-! ### Reception -/

/-- What a CCCH message may not do: restore a connection without a C-RNTI, or fail a procedure
whose data is in flight. -/
structure CcchKept (u : UeNode) (sdu : Bytes) : Prop where
  handover : (RrcMessage.decode sdu).msgType = .hoCommand →
    getU16 (RrcMessage.decode sdu).value 2 ≠ 0
  reestablished : (RrcMessage.decode sdu).msgType = .reestablishmentOk →
    u.reestablishPending = true → getU16 (RrcMessage.decode sdu).value 0 ≠ 0
  rejected : (RrcMessage.decode sdu).msgType = .reestablishmentFailure →
    u.reestablishPending = true → ¬ HoldsUser u.harqTx
  resumed : RrcOutput.resumed true 0 ∉ (u.rrc.onMessage sdu).2
  failed : (RrcMessage.decode sdu).msgType = .resumeFailure → u.rrc.state = .connecting →
    ¬ HoldsUser u.harqTx

theorem onMessage_linked (digest : KeyedDigest) (h : Linked (link u)) (hcrnti : u.crntiCache ≠ 0) {sdu : Bytes}
    (kept : CcchKept u sdu) :
    Linked (link ((u.rrc.onMessage sdu).2.foldl (UeNode.onRrcOutput digest)
      { u with rrc := (u.rrc.onMessage sdu).1 })) := by
  have hanswer := RrcUe.onMessage_answer u.rrc sdu
  have hresumed := kept.resumed
  generalize u.rrc.onMessage sdu = answered at hanswer hresumed ⊢
  cases hanswer with
  | ignored => exact h
  | released => exact h.idle
  | suspended from_connected id => exact onSuspended_linked h from_connected rfl
  | setup from_connecting crnti pdu =>
    have hrestored := h.restored hcrnti hcrnti h.whole u.bearers rfl u.resumeGuardRunning
    exact (rrcSend_emits digest _ True pdu).linked hrestored
  | resumed is_ok from_connecting crnti stored =>
    refine onResumed_linked h hcrnti rfl fun hzero => ?_
    rw [hzero] at hresumed
    exact hresumed List.mem_cons_self
  | failed is_failure from_connecting =>
    exact onResumeFailed_linked h from_connecting (kept.failed is_failure from_connecting)

theorem link_startMeasurements (u : UeNode) : link u.startMeasurements = link u := by
  unfold UeNode.startMeasurements
  split <;> rfl

/-- Step lemma for the messages of RRC. -/
theorem handleCcchSdu_linked (h : Linked (link u)) (hcrnti : u.crntiCache ≠ 0) {sdu : Bytes}
    (kept : CcchKept u sdu) : Linked (link (u.handleCcchSdu digest sdu)) := by
  unfold UeNode.handleCcchSdu
  dsimp only
  split
  · rename_i htype
    split
    · exact h
    · exact applyHandover_linked h hcrnti (kept.handover htype) _
  · rename_i htype
    split
    · exact h
    · rename_i htaken
      have hpending : u.reestablishPending = true := by
        simpa using (not_or.mp htaken).1
      exact h.restored hcrnti (kept.reestablished htype hpending) h.whole u.bearers rfl
        u.resumeGuardRunning
  · rename_i htype
    split
    · rename_i hpending
      exact reestablishFailed_linked h (kept.rejected htype hpending)
    · exact h
  · have hanswered := onMessage_linked digest h hcrnti kept
    generalize (u.rrc.onMessage sdu).2.foldl (UeNode.onRrcOutput digest)
      { u with rrc := (u.rrc.onMessage sdu).1 } = v at hanswered ⊢
    split
    · rename_i hattach
      have hne : v.crntiCache ≠ 0 := hanswered.connected hattach.2.2
      have hasked := nasSends_emit digest (v.nas.sendAttachRequest v.config.imsi).2
        { v with harqRx := v.harqRx.reset, nas := (v.nas.sendAttachRequest v.config.imsi).1 } hne
      rw [link_startMeasurements]
      exact hasked.linked hanswered
    · exact hanswered

theorem handleNasSdu_linked (h : Linked (link u)) (hcrnti : u.crntiCache ≠ 0) (sdu : Bytes) :
    Linked (link (u.handleNasSdu digest sdu)) := by
  unfold UeNode.handleNasSdu
  split
  · exact h
  · rename_i pdu _
    have hanswered := (nasSends_emit digest (u.nas.onMessage digest pdu).2
      { u with nas := (u.nas.onMessage digest pdu).1 } hcrnti).linked h
    dsimp only
    generalize (u.nas.onMessage digest pdu).2.foldl (UeNode.nasSend digest)
      { u with nas := (u.nas.onMessage digest pdu).1 } = v at hanswered ⊢
    have harmed : link (if v.nas.state = .registered ∧ v.nas.authenticated ∧ !v.upSecOn then
        { v with upKey := v.nas.sessionKey, upSecOn := true } else v) = link v := by
      split <;> rfl
    rw [← harmed] at hanswered
    generalize (if v.nas.state = .registered ∧ v.nas.authenticated ∧ !v.upSecOn then
      { v with upKey := v.nas.sessionKey, upSecOn := true } else v) = w at hanswered ⊢
    split
    · rw [link_startMeasurements]
      exact hanswered
    · exact hanswered

theorem Linked.withHarq (h : Linked (link u)) {t : HarqTx}
    (hheld : HoldsUser t → HoldsUser u.harqTx) (hwhole : Whole t) :
    Linked (link { u with harqTx := t }) :=
  ⟨h.frames, fun hcrnti hold => h.held hcrnti (hheld hold), h.waiting, h.settled, h.connected,
    h.asleep, h.known, h.ctrl, hwhole⟩

theorem onAck_holds {t : HarqTx} {p : Nat} (h : HoldsUser (t.onAck p)) : HoldsUser t := by
  unfold HarqTx.onAck at h
  split at h
  · exact h
  · rcases holdsUser_set (t := t) h with hold | ⟨hbusy, -⟩
    · exact hold
    · cases hbusy

theorem onAck_whole {t : HarqTx} (h : Whole t) (p : Nat) : Whole (t.onAck p) := by
  unfold HarqTx.onAck
  split
  · exact h
  · simpa [Whole] using h

/-- A refused block is repeated as it is held. -/
theorem onNack_holds (t : HarqTx) (p : Nat) :
    (HoldsUser (t.onNack p).1 → HoldsUser t) ∧
      ∀ event, (t.onNack p).2 = some event → CarriesUser event.coded → HoldsUser t := by
  unfold HarqTx.onNack
  split
  · exact ⟨id, fun event hevent => by cases hevent⟩
  · exact retx_holds t p

theorem onNack_whole {t : HarqTx} (h : Whole t) (p : Nat) : Whole (t.onNack p).1 := by
  unfold HarqTx.onNack
  split
  · exact h
  · exact retx_whole h p

theorem Linked.sendFrame (h : Linked (link u)) {type : AirFrameType} {rnti : Nat} {payload : Bytes}
    (hframe : Addressed ⟨type, rnti, payload⟩) : Linked (link (u.sendFrame type rnti payload)) := by
  refine ⟨fun f hf => ?_, h.held, h.waiting, h.settled, h.connected, h.asleep, h.known, h.ctrl,
    h.whole⟩
  rcases List.mem_append.mp hf with hf | hf
  · exact h.frames f hf
  · obtain rfl := List.mem_singleton.mp hf
    exact hframe

theorem handleHarqAck_linked (h : Linked (link u)) (hcrnti : u.crntiCache ≠ 0) (sdu : Bytes) :
    Linked (link (u.handleHarqAck sdu)) := by
  unfold UeNode.handleHarqAck
  split
  · rename_i p a rest
    dsimp only
    split
    · exact h.withHarq (t := (u.harqTx.advance u.nowMs).onAck _) onAck_holds
        (onAck_whole (t := u.harqTx.advance u.nowMs) h.whole _)
    · have hnacked : Linked (link { u with
          harqTx := ((u.harqTx.advance u.nowMs).onNack (p &&& 0x7F).toNat).1 }) :=
        h.withHarq (onNack_holds (u.harqTx.advance u.nowMs) _).1
          (onNack_whole (t := u.harqTx.advance u.nowMs) h.whole _)
      split
      · exact hnacked
      · exact hnacked.sendFrame fun _ _ => hcrnti
  · exact h

theorem enqueueData_ctrl (s : BearerSet) (q : Qci) (pdus : List Bytes) :
    (BearerSet.enqueueData UeNode.enqueueAppPdu s q pdus).ctrl = s.ctrl := by
  unfold BearerSet.enqueueData
  induction pdus generalizing s with
  | nil => rfl
  | cons pdu pdus ih => exact ih (UeNode.enqueueAppPdu s q (lcidOf q) (Pdcp.tx pdu))

theorem enqueueStatus_ctrl (s : BearerSet) (q : Qci) (status : Option Bytes) :
    (BearerSet.enqueueStatus UeNode.enqueueAppPdu s q status).ctrl = s.ctrl := by
  cases status with
  | none => rfl
  | some status => rfl

/-- Bearers leave the control queue to the reports. -/
theorem receivePdu_ctrl (s : BearerSet) (nowMs : UInt32) (q : Qci) (pdu : Bytes) :
    (s.receivePdu UeNode.enqueueAppPdu nowMs q pdu).ctrl = s.ctrl :=
  enqueueStatus_ctrl _ q _

theorem receiveStatus_ctrl (s : BearerSet) (nowMs : UInt32) (q : Qci) (status : Bytes) :
    (s.receiveStatus UeNode.enqueueAppPdu nowMs q status).ctrl = s.ctrl :=
  enqueueData_ctrl _ q _

theorem sendSdu_ctrl (s : BearerSet) (nowMs : UInt32) (q : Qci) (sdu : Bytes) (force : Bool) :
    (s.sendSdu UeNode.enqueueAppPdu nowMs q sdu force).1.ctrl = s.ctrl :=
  enqueueData_ctrl _ q _

theorem serviceBearer_ctrl (s : BearerSet) (nowMs : UInt32) (q : Qci) :
    (BearerSet.serviceBearer UeNode.enqueueAppPdu nowMs s q).ctrl = s.ctrl :=
  (enqueueStatus_ctrl _ q _).trans (enqueueData_ctrl _ q _)

/-- Services of the bearers leave the control queue alone. -/
theorem Linked.served (h : Linked (link u)) {bearers : BearerSet}
    (hctrl : bearers.ctrl = u.bearers.ctrl) : Linked (link { u with bearers := bearers }) :=
  h.withBearers fun p hp => h.ctrl p (hctrl ▸ hp)

theorem handleDedicatedSdu_linked (h : Linked (link u)) (hcrnti : u.crntiCache ≠ 0)
    {lcid : UInt8} {sdu : Bytes} (kept : lcid = lcidCcch → CcchKept u sdu) :
    Linked (link (u.handleDedicatedSdu digest lcid sdu)) := by
  unfold UeNode.handleDedicatedSdu
  split
  · rename_i hccch
    exact handleCcchSdu_linked h hcrnti (kept hccch)
  · split
    · exact handleNasSdu_linked h hcrnti sdu
    · split
      · exact handleHarqAck_linked h hcrnti sdu
      · split
        · split
          · exact h
          · exact h.served (receivePdu_ctrl _ _ _ _)
        · split
          · exact h.served (receiveStatus_ctrl _ _ _ _)
          · exact h

theorem receiveData_linked (h : Linked (link u)) {rnti : Nat} {payload : Bytes}
    {r : UeNode × List (UInt8 × Bytes)} (hreceive : u.receiveData rnti payload = .ok r) :
    Linked (link r.1) := by
  unfold UeNode.receiveData at hreceive
  dsimp only at hreceive
  have hclock : link (if rnti ≠ rntiBroadcast then { u with lastDlMs := u.nowMs } else u) =
      link u := by
    split <;> rfl
  rw [← hclock] at h
  generalize (if rnti ≠ rntiBroadcast then { u with lastDlMs := u.nowMs } else u) = v at h hreceive
  split at hreceive
  · split at hreceive
    · cases hreceive
    · rename_i harqRx res _
      obtain rfl := Except.ok.inj hreceive
      dsimp only
      unfold UeNode.sendAck
      split
      · exact h
      · rename_i hanswers
        have hadvanced : Linked (link { v with
            harqRx := harqRx, harqTx := v.harqTx.advance v.nowMs }) :=
          h.withHarq (t := v.harqTx.advance v.nowMs) id h.whole
        refine hadvanced.sendFrame fun _ _ hzero => hanswers (.inr (.inl hzero))
  · obtain rfl := Except.ok.inj hreceive
    exact h

theorem onRarReceived_linked (h : Linked (link u)) (hwait : u.rach.state = .waitRar) (raRnti : Nat) :
    Linked (link (u.runRach (u.rach.onRarReceived raRnti u.pendingCcch))) := by
  unfold RachUe.onRarReceived
  split
  · exact h
  · have hcrnti : u.crntiCache = 0 := h.waiting (by simp [link, hwait])
    exact ⟨addressed_append h.frames (by simp), h.held, fun _ => hcrnti,
      fun _ => h.settled (.inl hwait), h.connected, h.asleep,
      fun _ => h.known (.inl (by simp [link, hwait])), h.ctrl, h.whole⟩

theorem handleContentionResolve_linked (h : Linked (link u))
    (hwait : u.rach.state = .waitContentionResolve) (payload : Bytes) :
    Linked (link (u.handleContentionResolve payload)) := by
  unfold UeNode.handleContentionResolve RachUe.onContentionResolve
  dsimp only
  split
  · rw [if_neg (by simp [UeNode.runRach, hwait])]
    exact h
  · have hdown := h.settled (.inr hwait)
    have hcrnti : u.crntiCache = 0 := h.waiting (by simp [link, hwait])
    rw [if_pos (by simp [UeNode.runRach, UeNode.onRachOutput])]
    refine ⟨h.frames, fun _ => h.held hcrnti, fun hnot => absurd rfl hnot, ?_, ?_, ?_,
      fun _ => h.known (.inl (by simp [link, hwait])), h.ctrl, h.whole⟩
    · rintro (hback | hback) <;> cases hback
    · intro hconnected
      rcases hdown with hdown | hdown <;> exact absurd (hconnected.symm.trans hdown) (by decide)
    · intro hinactive
      rcases hdown with hdown | hdown <;> exact absurd (hinactive.symm.trans hdown) (by decide)

/-! ### Timers -/

/-- A lost random access leaves the UE without a C-RNTI. -/
theorem Linked.rachIdle (h : Linked (link u)) (hwait : u.rach.state ≠ .connected) {r : RachUe}
    (hidle : r.state = .idle) : Linked (link (u.runRach (r, [.state .idle]))) := by
  have hlink : link (u.runRach (r, [.state .idle])) = { link u with rach := .idle } := by
    have hretry := link_scheduleAttachRetry (({ u with rach := r } : UeNode).cancel .rachWindow)
    have hmoved : link (({ u with rach := r } : UeNode).cancel .rachWindow) =
        { link u with rach := .idle } := by
      rw [← hidle]
      rfl
    exact hretry.trans hmoved
  rw [hlink]
  refine ⟨h.frames, h.held, fun _ => h.waiting hwait, ?_, h.connected, h.asleep, ?_, h.ctrl, h.whole⟩
  · rintro (hback | hback) <;> cases hback
  · rintro (hrach | hrest)
    · exact absurd rfl hrach
    · exact h.known (.inr hrest)

theorem onRarTimeout_linked (h : Linked (link u)) : Linked (link (u.runRach u.rach.onRarTimeout)) := by
  unfold RachUe.onRarTimeout
  split
  · exact h
  · rename_i hwait
    have hstate := not_not.mp hwait
    split
    · exact ⟨addressed_append h.frames (by simp), h.held, h.waiting, h.settled, h.connected,
        h.asleep, h.known, h.ctrl, h.whole⟩
    · exact h.rachIdle (by simp [hstate]) rfl

theorem onContentionResolveTimeout_linked (h : Linked (link u)) :
    Linked (link (u.runRach u.rach.onContentionResolveTimeout)) := by
  unfold RachUe.onContentionResolveTimeout
  split
  · exact h
  · rename_i hwait
    exact h.rachIdle (by simp [not_not.mp hwait]) rfl

/-- What a timer may not do: give up a procedure whose data is in flight. -/
def TimerKept (u : UeNode) : UeTimer → Prop
  | .resumeGuard => u.resumeGuardRunning = true → u.rrc.state ≠ .connected → ¬ HoldsUser u.harqTx
  | .reestGuard => u.reestablishPending = true → ¬ HoldsUser u.harqTx
  | .attachGuard => u.registered = false → u.crntiCache = 0 → ∀ q, queueOf u q = []
  | .rachWindow | .backoff | .attachRetry | .measurement => True

theorem resumeGuard_linked (h : Linked (link u)) (hrunning : u.resumeGuardRunning = true)
    (hfree : ¬ HoldsUser u.harqTx) :
    Linked (link (UeNode.maybeStartAttach digest
      { ({ u with resumeGuardRunning := false } : UeNode).rachForceIdle with
        rrc := ({ u with resumeGuardRunning := false } : UeNode).rachForceIdle.rrc.forceIdle
        nas := ({ u with resumeGuardRunning := false } : UeNode).rachForceIdle.nas.forceDeregistered
        attachRequested := true })) := by
  have hidle := link_rachForceIdle { u with resumeGuardRunning := false }
  generalize ({ u with resumeGuardRunning := false } : UeNode).rachForceIdle = v at hidle ⊢
  have hready : Ready { link v with rrc := .idle } := by
    rw [hidle]
    exact ⟨h.frames, hfree, .inl rfl, h.known (.inr (.inr hrunning)), h.ctrl, h.whole⟩
  rw [← forceIdle_state v.rrc] at hready
  exact maybeStartAttach_started digest
    (u := { v with
      rrc := v.rrc.forceIdle, nas := v.nas.forceDeregistered, attachRequested := true })
    hready rfl (congrArg LinkState.rach hidle) (forceIdle_state v.rrc)

theorem onTimer_linked (h : Linked (link u)) {t : UeTimer} (kept : TimerKept u t) :
    Linked (link (u.onTimer digest t)) := by
  cases t with
  | rachWindow =>
    unfold UeNode.onTimer
    dsimp only
    split
    · exact h
    · exact onContentionResolveTimeout_linked h
    · exact h
  | backoff => exact onRarTimeout_linked h
  | attachRetry =>
    unfold UeNode.onTimer
    dsimp only
    split
    · exact h
    · rename_i hretry
      have hidle : u.rach.state = .idle := by
        by_contra hbusy
        simp [hbusy] at hretry
      have hcrnti : u.crntiCache = 0 := h.waiting (by simp [link, hidle])
      have hlost := h.lost (h.held hcrnti)
      rw [← forceIdle_state u.rrc, ← hidle] at hlost
      exact maybeStartAttach_linked digest
        (u := { u with rrc := u.rrc.forceIdle, crntiCache := 0 }) hlost
  | attachGuard =>
    unfold UeNode.onTimer
    dsimp only
    split
    · exact h
    · exact abortAttach_linked (u := { u with attachGuardRunning := false }) h
  | resumeGuard =>
    unfold UeNode.onTimer
    dsimp only
    split
    · exact h
    · rename_i hrunning
      have hguard : u.resumeGuardRunning = true := by simpa using hrunning
      split
      · refine ⟨h.frames, h.held, h.waiting, h.settled, h.connected, h.asleep, ?_, h.ctrl, h.whole⟩
        exact fun _ => h.known (.inr (.inr hguard))
      · rename_i hconnected
        exact resumeGuard_linked h hguard (kept hguard hconnected)
  | reestGuard =>
    unfold UeNode.onTimer
    dsimp only
    split
    · rename_i hpending
      exact reestablishFailed_linked h (kept hpending)
    · exact h
  | measurement =>
    unfold UeNode.onTimer UeNode.sendMeasurementReport
    dsimp only
    split
    · refine Emits.linked (?_ : Emits True (link u) _) h
      exact uplinkSend_emits digest u lcidCcch _ (.inl (.inl rfl))
    · exact h

end Procedures

/-! ## Steps -/

/-- A dedicated SDU is for a UE with a C-RNTI. -/
def SduKept (rnti : Nat) (u : UeNode) (s : UInt8 × Bytes) : Prop :=
  s.1 ≠ lcidMib → s.1 ≠ lcidSib1 → s.1 ≠ lcidPaging → rnti ≠ rntiBroadcast → s.2 ≠ [] →
    u.crntiCache ≠ 0 ∧ (s.1 = lcidCcch → CcchKept u s.2)

/-- Without a C-RNTI a bearer queue has room for what is added to it. -/
def Room (u : UeNode) (q : Qci) (added : Nat) : Prop :=
  u.crntiCache = 0 → (queueOf u q).length + added ≤ 64

/-- The condition on a step of the UE. Without a C-RNTI, a pump outside RRC_INACTIVE finds
nothing queued, the attach guard gives up on empty queues, no queue overflows, nothing
dedicated is received and a UE that is not asleep is not detached. A procedure that fails
has no user data in HARQ, and one that succeeds assigns a C-RNTI. -/
def UplinkKept (digest : KeyedDigest) (u : UeNode) : UeEvent → Prop
  | .pump => u.rrc.inactive = false → u.crntiCache = 0 → ∀ q, queueOf u q = []
  | .detach => u.registered = true → u.rrc.inactive = false → u.crntiCache ≠ 0
  | .sendSdu q sdu force =>
    Room u q (RlcTx.send q (u.bearers.bearer q).tx u.nowMs sdu force).2.length
  | .sendAppData payload => u.registered = true →
    Room u .bestEffort (RlcTx.send .bestEffort (u.bearers.bearer .bestEffort).tx u.nowMs
      (putU32 (u.appTxSeq + 1).toNat ++ payload) false).2.length
  | .serviceBearer q =>
    Room u q ((RlcTx.tick q (u.bearers.bearer q).tx u.nowMs).2.length +
      (RlcRx.tick q (u.bearers.bearer q).rx u.nowMs).2.status.toList.length)
  | .fire t => t ∈ u.timers → TimerKept u t
  | .air f => u.SdusMeet digest SduKept f
  | .attach | .sleep | .wake | .wakeForActivity | .reportCqi _ | .clock _ | .pumpHarq
  | .watchdog => True

section Decidability

/-- Only the conditions on failed procedures look into HARQ blocks. -/
noncomputable instance (t : HarqTx) : Decidable (HoldsUser t) := Classical.propDecidable _

noncomputable instance (u : UeNode) (sdu : Bytes) : Decidable (CcchKept u sdu) :=
  decidable_of_iff
    (((RrcMessage.decode sdu).msgType = .hoCommand →
        getU16 (RrcMessage.decode sdu).value 2 ≠ 0) ∧
      ((RrcMessage.decode sdu).msgType = .reestablishmentOk → u.reestablishPending = true →
        getU16 (RrcMessage.decode sdu).value 0 ≠ 0) ∧
      ((RrcMessage.decode sdu).msgType = .reestablishmentFailure → u.reestablishPending = true →
        ¬ HoldsUser u.harqTx) ∧
      RrcOutput.resumed true 0 ∉ (u.rrc.onMessage sdu).2 ∧
      ((RrcMessage.decode sdu).msgType = .resumeFailure → u.rrc.state = .connecting →
        ¬ HoldsUser u.harqTx))
    ⟨fun h => ⟨h.1, h.2.1, h.2.2.1, h.2.2.2.1, h.2.2.2.2⟩,
      fun h => ⟨h.handover, h.reestablished, h.rejected, h.resumed, h.failed⟩⟩

noncomputable instance (rnti : Nat) (u : UeNode) (s : UInt8 × Bytes) :
    Decidable (SduKept rnti u s) := by
  unfold SduKept
  infer_instance

instance (u : UeNode) (q : Qci) (added : Nat) : Decidable (Room u q added) := by
  unfold Room
  infer_instance

instance (u : UeNode) : Decidable (∀ q, queueOf u q = []) :=
  decidable_of_iff (∀ q ∈ [Qci.sig, .voice, .video, .bestEffort], queueOf u q = [])
    ⟨fun h q => h q (by cases q <;> simp), fun h q _ => h q⟩

noncomputable instance (u : UeNode) : (t : UeTimer) → Decidable (TimerKept u t)
  | .resumeGuard => inferInstanceAs (Decidable (u.resumeGuardRunning = true →
      u.rrc.state ≠ .connected → ¬ HoldsUser u.harqTx))
  | .reestGuard => inferInstanceAs (Decidable (u.reestablishPending = true → ¬ HoldsUser u.harqTx))
  | .attachGuard => inferInstanceAs (Decidable (u.registered = false → u.crntiCache = 0 →
      ∀ q, queueOf u q = []))
  | .rachWindow | .backoff | .attachRetry | .measurement => isTrue trivial

noncomputable instance (digest : KeyedDigest) (u : UeNode) :
    (e : UeEvent) → Decidable (UplinkKept digest u e)
  | .pump => inferInstanceAs (Decidable (u.rrc.inactive = false → u.crntiCache = 0 →
      ∀ q, queueOf u q = []))
  | .detach => inferInstanceAs (Decidable (u.registered = true → u.rrc.inactive = false →
      u.crntiCache ≠ 0))
  | .sendSdu _ _ _ | .serviceBearer _ => inferInstanceAs (Decidable (Room _ _ _))
  | .sendAppData _ => inferInstanceAs (Decidable (u.registered = true → Room _ _ _))
  | .fire t => inferInstanceAs (Decidable (t ∈ u.timers → TimerKept u t))
  | .air f => inferInstanceAs (Decidable (u.SdusMeet digest SduKept f))
  | .attach | .sleep | .wake | .wakeForActivity | .reportCqi _ | .clock _ | .pumpHarq
  | .watchdog => isTrue trivial

end Decidability

section Steps

variable {digest : KeyedDigest} {u u' : UeNode}

theorem handleSdu_linked (h : Linked (link u)) {rnti : Nat} {s : UInt8 × Bytes}
    (kept : SduKept rnti u s) : Linked (link (UeNode.handleSdu digest rnti u s)) := by
  unfold UeNode.handleSdu
  split
  · exact handleSysinfoSdu_linked digest h _ _ _
  · rename_i hother
    obtain ⟨hmib, hsib1, hpaging⟩ : s.1 ≠ lcidMib ∧ s.1 ≠ lcidSib1 ∧ s.1 ≠ lcidPaging := by
      simpa [not_or] using hother
    split
    · rename_i hdedicated
      obtain ⟨hcrnti, hccch⟩ := kept hmib hsib1 hpaging hdedicated.1 hdedicated.2
      exact handleDedicatedSdu_linked h hcrnti hccch
    · exact h

theorem sendAppData_linked (h : Linked (link u)) (payload : Bytes) :
    Linked (link (u.sendAppData payload)) := by
  unfold UeNode.sendAppData
  split
  · exact h
  · have hawake : Linked (link u.maybeWakeForActivity) := by
      unfold UeNode.maybeWakeForActivity
      split
      · exact wake_linked h
      · exact h
    exact hawake.served (sendSdu_ctrl _ _ _ _ _)

theorem reportCqi_linked (h : Linked (link u)) (cqi : UInt8) : Linked (link (u.reportCqi cqi)) := by
  unfold UeNode.reportCqi
  split
  · refine h.withBearers fun p hp => ?_
    rcases List.mem_append.mp hp with hp | hp
    · exact h.ctrl p hp
    · obtain rfl := List.mem_singleton.mp hp
      rfl
  · exact h

/-- Step lemma: every event under the condition. -/
theorem step_linked {e : UeEvent} (h : Linked (link u)) (kept : UplinkKept digest u e)
    (hstep : u.step digest e = some u') : Linked (link u') := by
  cases e with
  | attach =>
    obtain rfl := Option.some.inj hstep
    exact maybeStartAttach_linked digest (u := { u with attachRequested := true }) h
  | detach =>
    obtain rfl := Option.some.inj hstep
    exact detach_linked h kept
  | sleep =>
    obtain rfl := Option.some.inj hstep
    unfold UeNode.sleep
    split
    · exact h
    · exact (emits_foldl (rrcSend_emits digest · True ·) _ u).linked h
  | wake =>
    obtain rfl := Option.some.inj hstep
    exact wake_linked h
  | sendAppData payload =>
    obtain rfl := Option.some.inj hstep
    exact sendAppData_linked h payload
  | wakeForActivity =>
    obtain rfl := Option.some.inj hstep
    unfold UeNode.maybeWakeForActivity
    split
    · exact wake_linked h
    · exact h
  | sendSdu q sdu force =>
    obtain rfl := Option.some.inj hstep
    exact h.served (sendSdu_ctrl _ _ _ _ _)
  | reportCqi cqi =>
    obtain rfl := Option.some.inj hstep
    exact reportCqi_linked h cqi
  | air f =>
    refine UeNode.handleAirFrame_invariant (fun v => Linked (link v)) ?_ ?_ ?_ ?_ h kept
      (UeNode.handleAirFrame_of_step hstep)
    · exact fun raRnti hwait => onRarReceived_linked h hwait raRnti
    · exact fun payload _ hwait => handleContentionResolve_linked h hwait payload
    · exact fun r hreceive => receiveData_linked h hreceive
    · exact fun v s _ hv hkept => handleSdu_linked hv hkept
  | clock nowMs =>
    obtain rfl := Option.some.inj hstep
    exact h
  | fire t =>
    obtain rfl := Option.some.inj hstep
    unfold UeNode.fire
    split
    · exact h
    · rename_i hpending
      have hkept := kept (not_not.mp hpending)
      split
      · exact onTimer_linked h hkept
      · refine onTimer_linked (u := u.cancel t) h ?_
        cases t <;> exact hkept
  | pumpHarq =>
    obtain rfl := Option.some.inj hstep
    exact (pumpHarq_emits u h.held).linked h
  | serviceBearer q =>
    obtain rfl := Option.some.inj hstep
    exact h.served (serviceBearer_ctrl _ _ _)
  | pump =>
    obtain rfl := Option.some.inj hstep
    refine pumpAppBearers_linked h fun hactive => ?_
    by_cases hcrnti : u.crntiCache = 0
    · exact .inr (kept hactive hcrnti)
    · exact .inl hcrnti
  | watchdog =>
    obtain rfl := Option.some.inj hstep
    unfold UeNode.watchdog
    split
    · rename_i hlost
      exact declareRlf_linked h hlost.2.2.1
    · exact h

theorem linked_make (config : UeNodeConfig) : Linked (link (UeNode.make config)) := by
  refine ⟨?_, ?_, fun _ => rfl, ?_, ?_, fun _ => rfl, ?_, ?_, ?_⟩
  · intro f hf
    cases hf
  · rintro - ⟨pr, hpr, hbusy, -⟩
    have hidle : pr = {} := List.eq_of_mem_replicate hpr
    rw [hidle] at hbusy
    cases hbusy
  · rintro (hwait | hwait) <;> cases hwait
  · intro hconnected
    cases hconnected
  · rintro (hrach | hrrc | hguard)
    · exact absurd rfl hrach
    · exact absurd rfl hrrc
    · cases hguard
  · intro p hp
    cases hp
  · exact List.length_replicate

end Steps

end AetherStack.Guarantees
