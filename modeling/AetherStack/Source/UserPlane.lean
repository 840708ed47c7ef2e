import AetherStack.Source.Pdcp
import AetherStack.Source.RlcSequence

/-!
# What the two nodes share of the user plane

A block is what `mac::build_pdu({{lcid, sdu}})` puts into one HARQ transport block, with
the C-RNTI its frame is addressed to. `origin` and `sealed` record the SDU before
`pdcp::protect` and the key and sequence number it was called with; no function of the
nodes reads them.

The services are those of ue_node.cpp:134-180 and 720-780 and bs_node.cpp:369-406 and 1365-1387.
The bearer services of the nodes differ in how they queue a PDU, which is the parameter
`Enqueue` here: `enqueue_app_pdu` at the UE, `downlink_send` at the base station.

`Carries P` says of a bearer set that everything it may still send on a data channel is
the clear framing of a PDU with `P`.
-/
namespace AetherStack.Source

structure AirBlock where
  rnti : Nat
  lcid : UInt8
  sdu : Bytes
  origin : Bytes
  sealed : Option (Key256 × UInt64) := none

/-- NAS and the data channels are ciphered once security is on, in both directions. -/
def cipheredLcid (lcid : UInt8) : Bool := lcid = Mac.lcidNasDcch ∨ (qciOfLcid lcid).isSome

/-- The receive side of both nodes (ue_node.cpp:708-719, bs_node.cpp:735-746): decrypt when
security is on, then unwrap. -/
def openSdu (hmac : Hmac) (secOn : Bool) (key : Key256) (sdu : Bytes) : Option Bytes :=
  if secOn then (Pdcp.unprotect hmac key sdu).map Pdcp.rx else some (Pdcp.rx sdu)

/-- Without security a PDU is stripped of its header. -/
theorem openSdu_clear (hmac : Hmac) (key : Key256) (pdu : Bytes) :
    openSdu hmac false key (Pdcp.tx pdu) = some pdu := by
  simp [openSdu, Pdcp.rx_tx]

/-- An armed receiver drops what was sent in the clear. -/
theorem openSdu_armed_clear (hmac : Hmac) (key : Key256) (pdu : Bytes) :
    openSdu hmac true key (Pdcp.tx pdu) = none := by
  simp [openSdu, Pdcp.unprotect, Pdcp.tx]

/-- With security it is opened by the key that sealed it. -/
theorem openSdu_protect (hmac : Hmac) (key : Key256) (seq : UInt64) (pdu : Bytes) :
    openSdu hmac true key (Pdcp.protect hmac key seq (Pdcp.tx pdu)) = some pdu := by
  simp [openSdu, Pdcp.unprotect_protect, Pdcp.rx_tx]

/-- The SDU of a block is what its sender made of `origin`. -/
def AirBlock.Genuine (hmac : Hmac) (b : AirBlock) : Prop :=
  match b.sealed with
  | none => b.sdu = b.origin
  | some (key, seq) => b.sdu = Pdcp.protect hmac key seq b.origin

/-- A receiver with this security state opens the block as it was sealed, or drops it. -/
def AirBlock.Opens (hmac : Hmac) (b : AirBlock) (secOn : Bool) (key : Key256) : Prop :=
  ∀ k seq, b.sealed = some (k, seq) →
    secOn = true ∧ (k = key ∨ Pdcp.unprotect hmac key b.sdu = none)

/-- A block opens to the PDU it was made of, or not at all. -/
theorem AirBlock.Genuine.opened {hmac : Hmac} {b : AirBlock} (h : b.Genuine hmac) {secOn : Bool}
    {key : Key256} (hopens : b.Opens hmac secOn key) {pdu got : Bytes}
    (horigin : b.origin = Pdcp.tx pdu) (hgot : openSdu hmac secOn key b.sdu = some got) :
    got = pdu := by
  unfold AirBlock.Genuine at h
  cases hsealed : b.sealed with
  | none =>
    rw [hsealed] at h
    rw [h, horigin] at hgot
    cases secOn with
    | false => exact (Option.some.inj ((openSdu_clear hmac key pdu).symm.trans hgot)).symm
    | true =>
      rw [openSdu_armed_clear] at hgot
      cases hgot
  | some call =>
    rw [hsealed] at h
    obtain ⟨rfl, hkey⟩ := hopens call.1 call.2 hsealed
    rcases hkey with rfl | hnone
    · rw [h, horigin, openSdu_protect] at hgot
      exact (Option.some.inj hgot).symm
    · rw [openSdu, if_pos rfl, hnone] at hgot
      cases hgot

theorem qciOfLcid_lcidOf (q : Qci) : qciOfLcid (lcidOf q) = some q := by
  cases q <;> rfl

theorem qciOfLcid_statusLcidOf (q : Qci) : qciOfLcid (statusLcidOf q) = none := by
  cases q <;> rfl

namespace BearerSet

def withTx (s : BearerSet) (q : Qci) (tx : RlcTx q) : BearerSet :=
  s.setBearer q { s.bearer q with tx := tx }

def withRx (s : BearerSet) (q : Qci) (rx : RlcRx q) : BearerSet :=
  s.setBearer q { s.bearer q with rx := rx }

def withQueue (s : BearerSet) (q : Qci) (queue : List AppPdu) : BearerSet :=
  s.setBearer q { s.bearer q with queue := queue }

/-- A PDU waits in one of the five queues. -/
def Queued (s : BearerSet) (p : AppPdu) : Prop := p ∈ s.ctrl ∨ ∃ q, p ∈ (s.bearer q).queue

variable {P : Qci → Bytes → Prop} {s : BearerSet} {q : Qci}

@[simp] theorem withTx_tx_self (tx : RlcTx q) : ((s.withTx q tx).bearer q).tx = tx := by
  simp [withTx]

@[simp] theorem withTx_rx (tx : RlcTx q) (q' : Qci) :
    ((s.withTx q tx).bearer q').rx = (s.bearer q').rx := by
  by_cases h : q' = q
  · subst h
    simp [withTx]
  · simp [withTx, setBearer_of_ne s _ h]

@[simp] theorem withTx_queue (tx : RlcTx q) (q' : Qci) :
    ((s.withTx q tx).bearer q').queue = (s.bearer q').queue := by
  by_cases h : q' = q
  · subst h
    simp [withTx]
  · simp [withTx, setBearer_of_ne s _ h]

theorem withTx_tx_of_ne (tx : RlcTx q) {q' : Qci} (h : q' ≠ q) :
    ((s.withTx q tx).bearer q').tx = (s.bearer q').tx := by
  simp [withTx, setBearer_of_ne s _ h]

@[simp] theorem withRx_rx_self (rx : RlcRx q) : ((s.withRx q rx).bearer q).rx = rx := by
  simp [withRx]

theorem withRx_rx_of_ne (rx : RlcRx q) {q' : Qci} (h : q' ≠ q) :
    ((s.withRx q rx).bearer q').rx = (s.bearer q').rx := by
  simp [withRx, setBearer_of_ne s _ h]

@[simp] theorem withRx_tx (rx : RlcRx q) (q' : Qci) :
    ((s.withRx q rx).bearer q').tx = (s.bearer q').tx := by
  by_cases h : q' = q
  · subst h
    simp [withRx]
  · simp [withRx, setBearer_of_ne s _ h]

@[simp] theorem withRx_queue (rx : RlcRx q) (q' : Qci) :
    ((s.withRx q rx).bearer q').queue = (s.bearer q').queue := by
  by_cases h : q' = q
  · subst h
    simp [withRx]
  · simp [withRx, setBearer_of_ne s _ h]

@[simp] theorem withQueue_tx (queue : List AppPdu) (q' : Qci) :
    ((s.withQueue q queue).bearer q').tx = (s.bearer q').tx := by
  by_cases h : q' = q
  · subst h
    simp [withQueue]
  · simp [withQueue, setBearer_of_ne s _ h]

@[simp] theorem withQueue_rx (queue : List AppPdu) (q' : Qci) :
    ((s.withQueue q queue).bearer q').rx = (s.bearer q').rx := by
  by_cases h : q' = q
  · subst h
    simp [withQueue]
  · simp [withQueue, setBearer_of_ne s _ h]

theorem queued_withQueue {queue : List AppPdu} {p : AppPdu}
    (h : (s.withQueue q queue).Queued p) : s.Queued p ∨ p ∈ queue := by
  rcases h with hctrl | ⟨q', hq'⟩
  · exact .inl (.inl hctrl)
  · by_cases heq : q' = q
    · subst heq
      exact .inr (by simpa [withQueue] using hq')
    · exact .inl (.inr ⟨q', by simpa [withQueue, setBearer_of_ne s _ heq] using hq'⟩)

/-! ## What a bearer set may still send -/

structure Carries (P : Qci → Bytes → Prop) (s : BearerSet) : Prop where
  ctrl : ∀ p ∈ s.ctrl, qciOfLcid p.lcid = none
  queued : ∀ p, s.Queued p → ∀ q, qciOfLcid p.lcid = some q → ∃ pdu, p.bytes = Pdcp.tx pdu ∧ P q pdu
  held : ∀ q pdu, RlcTx.Holds q (s.bearer q).tx pdu → P q pdu

theorem Carries.mono {P' : Qci → Bytes → Prop} (h : s.Carries P)
    (himp : ∀ q pdu, P q pdu → P' q pdu) : s.Carries P' where
  ctrl := h.ctrl
  queued := by
    intro p hp q hq
    obtain ⟨pdu, hbytes, hP⟩ := h.queued p hp q hq
    exact ⟨pdu, hbytes, himp q pdu hP⟩
  held := fun q pdu hheld => himp q pdu (h.held q pdu hheld)

theorem carries_make (P : Qci → Bytes → Prop) : make.Carries P where
  ctrl := by simp [make]
  queued := by
    rintro p (hctrl | ⟨q, hq⟩)
    · cases hctrl
    · cases hq
  held := fun q pdu hheld => absurd hheld (RlcTx.not_holds_make q pdu)

/-- The reset leaves the control queue, where no data channel waits. -/
theorem Carries.resetBearers (h : s.Carries P) (P' : Qci → Bytes → Prop) :
    s.resetBearers.Carries P' where
  ctrl := h.ctrl
  queued := by
    rintro p (hctrl | ⟨q, hq⟩) q' hq'
    · rw [h.ctrl p hctrl] at hq'
      cases hq'
    · cases hq
  held := fun q pdu hheld => absurd hheld (RlcTx.not_holds_reset _ pdu)

theorem Carries.withRx (h : s.Carries P) (rx : RlcRx q) : (s.withRx q rx).Carries P where
  ctrl := h.ctrl
  queued := by
    rintro p (hctrl | ⟨q', hq'⟩)
    · exact h.queued p (.inl hctrl)
    · exact h.queued p (.inr ⟨q', by simpa using hq'⟩)
  held := fun q' pdu hheld => h.held q' pdu (by simpa using hheld)

theorem Carries.withTx (h : s.Carries P) {tx : RlcTx q}
    (htx : ∀ pdu, RlcTx.Holds q tx pdu → P q pdu) : (s.withTx q tx).Carries P where
  ctrl := h.ctrl
  queued := by
    rintro p (hctrl | ⟨q', hq'⟩)
    · exact h.queued p (.inl hctrl)
    · exact h.queued p (.inr ⟨q', by simpa using hq'⟩)
  held := by
    intro q' pdu hheld
    by_cases heq : q' = q
    · subst heq
      exact htx pdu (by simpa using hheld)
    · rw [withTx_tx_of_ne tx heq] at hheld
      exact h.held q' pdu hheld

theorem Carries.withQueue (h : s.Carries P) {queue : List AppPdu}
    (hqueue : ∀ p ∈ queue, s.Queued p ∨
      ∀ q', qciOfLcid p.lcid = some q' → ∃ pdu, p.bytes = Pdcp.tx pdu ∧ P q' pdu) :
    (s.withQueue q queue).Carries P where
  ctrl := h.ctrl
  queued := by
    intro p hp q' hq'
    rcases queued_withQueue hp with hold | hnew
    · exact h.queued p hold q' hq'
    · rcases hqueue p hnew with hold | hlegit
      · exact h.queued p hold q' hq'
      · exact hlegit q' hq'
  held := fun q' pdu hheld => h.held q' pdu (by simpa using hheld)

/-- What is popped was queued, and the rest stays as it was. -/
theorem popNext_spec {p : AppPdu} {s' : BearerSet} (h : s.popNext = some (p, s')) :
    s.Queued p ∧ (∀ p' ∈ s'.ctrl, p' ∈ s.ctrl) ∧ (∀ p', s'.Queued p' → s.Queued p') ∧
      ∀ q, (s'.bearer q).tx = (s.bearer q).tx ∧ (s'.bearer q).rx = (s.bearer q).rx := by
  unfold popNext at h
  split at h
  · rename_i rest hctrl
    simp only [Option.some.injEq, Prod.mk.injEq] at h
    obtain ⟨rfl, rfl⟩ := h
    have hrest : ∀ p' ∈ rest, p' ∈ s.ctrl := fun p' hp' => by
      rw [hctrl]
      exact List.mem_cons_of_mem _ hp'
    refine ⟨.inl (by rw [hctrl]; exact List.mem_cons_self), hrest, ?_, fun q => ⟨rfl, rfl⟩⟩
    rintro p' (hmem | hq)
    · exact .inl (hrest p' hmem)
    · exact .inr hq
  · split at h
    · cases h
    · rename_i q since hpick
      split at h
      · cases h
      · rename_i head rest hqueue
        simp only [Option.some.injEq, Prod.mk.injEq] at h
        obtain ⟨rfl, rfl⟩ := h
        refine ⟨.inr ⟨q, by rw [hqueue]; exact List.mem_cons_self⟩, fun _ h => h, ?_, fun q' => ?_⟩
        · intro p' hp'
          have hcases : s.Queued p' ∨ p' ∈ rest := queued_withQueue (s := s) (q := q) hp'
          cases hcases with
          | inl hold => exact hold
          | inr hnew => exact .inr ⟨q, by rw [hqueue]; exact List.mem_cons_of_mem _ hnew⟩
        · exact ⟨withQueue_tx (s := s) (q := q) rest q', withQueue_rx (s := s) (q := q) rest q'⟩

/-- A PDU taken off leaves the rest as it was. -/
theorem Carries.popNext (h : s.Carries P) {p : AppPdu} {s' : BearerSet}
    (hpop : s.popNext = some (p, s')) : s'.Carries P := by
  obtain ⟨-, hctrl, hrest, hentities⟩ := popNext_spec hpop
  refine ⟨fun p' hp' => h.ctrl p' (hctrl p' hp'), fun p' hp' => h.queued p' (hrest p' hp'), ?_⟩
  intro q pdu hheld
  rw [(hentities q).1] at hheld
  exact h.held q pdu hheld

/-! ## Bearer services -/

/-- How a node queues a PDU of a bearer on a logical channel. -/
abbrev Enqueue := BearerSet → Qci → UInt8 → Bytes → BearerSet

/-- `push_back` into a queue of bounded length: the oldest PDU goes. -/
def pushBounded (limit : Nat) (queue : List AppPdu) (p : AppPdu) : List AppPdu :=
  (if queue.length ≥ limit then queue.tail else queue) ++ [p]

theorem mem_pushBounded {limit : Nat} {queue : List AppPdu} {p p' : AppPdu}
    (h : p' ∈ pushBounded limit queue p) : p' ∈ queue ∨ p' = p := by
  unfold pushBounded at h
  rcases List.mem_append.mp h with hold | hnew
  · split at hold
    · exact .inl (List.mem_of_mem_tail hold)
    · exact .inl hold
  · exact .inr (List.mem_singleton.mp hnew)

variable (enq : Enqueue)

def enqueueData (s : BearerSet) (q : Qci) (pdus : List Bytes) : BearerSet :=
  pdus.foldl (fun s pdu => enq s q (lcidOf q) (Pdcp.tx pdu)) s

def enqueueStatus (s : BearerSet) (q : Qci) : Option Bytes → BearerSet
  | none => s
  | some status => enq s q (statusLcidOf q) status

/-- An SDU goes to the entity and its PDUs to the queue; they are returned too. -/
def sendSdu (s : BearerSet) (nowMs : UInt32) (q : Qci) (sdu : Bytes) (force : Bool) :
    BearerSet × List Bytes :=
  let sent := RlcTx.send q (s.bearer q).tx nowMs sdu force
  (enqueueData enq (s.withTx q sent.1) q sent.2, sent.2)

/-- One bearer's turn in a tick: probe, then reordering timer. -/
def serviceBearer (nowMs : UInt32) (s : BearerSet) (q : Qci) : BearerSet :=
  let probed := RlcTx.tick q (s.bearer q).tx nowMs
  let s := enqueueData enq (s.withTx q probed.1) q probed.2
  let ticked := RlcRx.tick q (s.bearer q).rx nowMs
  enqueueStatus enq (s.withRx q ticked.1) q ticked.2.status

def serviceAll (s : BearerSet) (nowMs : UInt32) : BearerSet :=
  [Qci.sig, .bestEffort, .voice, .video].foldl (serviceBearer enq nowMs) s

def receivePdu (s : BearerSet) (nowMs : UInt32) (q : Qci) (pdu : Bytes) : BearerSet :=
  let received := RlcRx.rx q (s.bearer q).rx nowMs pdu
  enqueueStatus enq (s.withRx q received.1) q received.2.status

def receiveStatus (s : BearerSet) (nowMs : UInt32) (q : Qci) (status : Bytes) : BearerSet :=
  let answered := RlcTx.onStatus q (s.bearer q).tx nowMs status
  enqueueData enq (s.withTx q answered.1) q answered.2

/-- What both ways of queueing have in common. -/
structure Enqueues : Prop where
  entities : ∀ s q lcid bytes q', ((enq s q lcid bytes).bearer q').tx = (s.bearer q').tx ∧
    ((enq s q lcid bytes).bearer q').rx = (s.bearer q').rx
  carries : ∀ (P : Qci → Bytes → Prop) s q lcid bytes, s.Carries P →
    (∀ q', qciOfLcid lcid = some q' → ∃ pdu, bytes = Pdcp.tx pdu ∧ P q' pdu) →
      (enq s q lcid bytes).Carries P

namespace Enqueues

variable {enq} (he : Enqueues enq)
include he

theorem enqueueData_entities (s : BearerSet) (q : Qci) (pdus : List Bytes) (q' : Qci) :
    ((enqueueData enq s q pdus).bearer q').tx = (s.bearer q').tx ∧
      ((enqueueData enq s q pdus).bearer q').rx = (s.bearer q').rx := by
  induction pdus generalizing s with
  | nil => exact ⟨rfl, rfl⟩
  | cons pdu pdus ih =>
    obtain ⟨htx, hrx⟩ := ih (enq s q (lcidOf q) (Pdcp.tx pdu))
    obtain ⟨htx', hrx'⟩ := he.entities s q (lcidOf q) (Pdcp.tx pdu) q'
    exact ⟨htx.trans htx', hrx.trans hrx'⟩

/-- Queued PDUs are carried. -/
theorem enqueueData_carries {s : BearerSet} (h : s.Carries P) (q : Qci) {pdus : List Bytes}
    (hpdus : ∀ pdu ∈ pdus, P q pdu) : (enqueueData enq s q pdus).Carries P := by
  induction pdus generalizing s with
  | nil => exact h
  | cons pdu pdus ih =>
    apply ih _ fun pdu' hpdu' => hpdus pdu' (List.mem_cons_of_mem _ hpdu')
    apply he.carries P s q _ _ h
    intro q' hq'
    rw [qciOfLcid_lcidOf] at hq'
    obtain rfl := Option.some.inj hq'
    exact ⟨pdu, rfl, hpdus pdu List.mem_cons_self⟩

theorem enqueueStatus_entities (s : BearerSet) (q : Qci) (status : Option Bytes) (q' : Qci) :
    ((enqueueStatus enq s q status).bearer q').tx = (s.bearer q').tx ∧
      ((enqueueStatus enq s q status).bearer q').rx = (s.bearer q').rx := by
  cases status with
  | none => exact ⟨rfl, rfl⟩
  | some status => exact he.entities s q _ status q'

theorem enqueueStatus_carries {s : BearerSet} (h : s.Carries P) (q : Qci) (status : Option Bytes) :
    (enqueueStatus enq s q status).Carries P := by
  cases status with
  | none => exact h
  | some status =>
    apply he.carries P s q _ _ h
    intro q' hq'
    rw [qciOfLcid_statusLcidOf] at hq'
    cases hq'

/-! ### What each service does to the entities -/

/-- A SDU adds the PDUs it was cut into. -/
theorem sendSdu_carries {s : BearerSet} {P' : Qci → Bytes → Prop} (h : s.Carries P)
    (hmono : ∀ q pdu, P q pdu → P' q pdu) (nowMs : UInt32) (q : Qci) (sdu : Bytes) (force : Bool)
    (hnew : ∀ pdu ∈ (sendSdu enq s nowMs q sdu force).2, P' q pdu) :
    (sendSdu enq s nowMs q sdu force).1.Carries P' := by
  apply he.enqueueData_carries _ q hnew
  apply (h.mono hmono).withTx
  intro pdu hheld
  rcases RlcTx.send_holds hheld with hold | hsent
  · exact hmono q pdu (h.held q pdu hold)
  · exact hnew pdu hsent

/-- The transmitter's numbering is untouched and the receiver saw its timer at most. -/
theorem serviceBearer_entities (nowMs : UInt32) (s : BearerSet) (q q' : Qci) :
    RlcTx.nextSn q' ((serviceBearer enq nowMs s q).bearer q').tx =
        RlcTx.nextSn q' (s.bearer q').tx ∧
      (((serviceBearer enq nowMs s q).bearer q').rx = (s.bearer q').rx ∨
        ((serviceBearer enq nowMs s q).bearer q').rx =
          (RlcRx.tick q' (s.bearer q').rx nowMs).1) := by
  unfold serviceBearer
  dsimp only
  rw [(he.enqueueStatus_entities _ _ _ q').1, (he.enqueueStatus_entities _ _ _ q').2, withRx_tx,
    (he.enqueueData_entities _ _ _ q').1]
  by_cases hq : q' = q
  · subst hq
    rw [withTx_tx_self, withRx_rx_self, (he.enqueueData_entities _ _ _ q').2, withTx_rx]
    exact ⟨RlcTx.tick_nextSn nowMs, .inr rfl⟩
  · rw [withTx_tx_of_ne _ hq, withRx_rx_of_ne _ hq, (he.enqueueData_entities _ _ _ q').2, withTx_rx]
    exact ⟨rfl, .inl rfl⟩

/-- The timers of a bearer send again what it holds. -/
theorem serviceBearer_carries {s : BearerSet} (h : s.Carries P) (nowMs : UInt32) (q : Qci) :
    (serviceBearer enq nowMs s q).Carries P := by
  apply he.enqueueStatus_carries
  apply Carries.withRx
  apply he.enqueueData_carries
  · exact h.withTx fun pdu hheld => h.held q pdu (RlcTx.tick_holds hheld)
  · exact fun pdu hpdu => h.held q pdu (RlcTx.tick_mem hpdu)

theorem serviceAll_carries {s : BearerSet} (h : s.Carries P) (nowMs : UInt32) :
    (serviceAll enq s nowMs).Carries P := by
  unfold serviceAll
  generalize [Qci.sig, .bestEffort, .voice, .video] = qs
  induction qs generalizing s with
  | nil => exact h
  | cons q qs ih => exact ih (he.serviceBearer_carries h nowMs q)

/-- A property of a receiver that its timer keeps is kept by the whole service. -/
theorem serviceAll_entities (s : BearerSet) (nowMs : UInt32) (q' : Qci) (Q : RlcRx q' → Prop)
    (htick : ∀ r, Q r → Q (RlcRx.tick q' r nowMs).1) :
    RlcTx.nextSn q' ((serviceAll enq s nowMs).bearer q').tx = RlcTx.nextSn q' (s.bearer q').tx ∧
      (Q (s.bearer q').rx → Q ((serviceAll enq s nowMs).bearer q').rx) := by
  unfold serviceAll
  generalize [Qci.sig, .bestEffort, .voice, .video] = qs
  induction qs generalizing s with
  | nil => exact ⟨rfl, id⟩
  | cons q qs ih =>
    obtain ⟨hsn, hQ⟩ := ih (serviceBearer enq nowMs s q)
    obtain ⟨hsn', hrx⟩ := he.serviceBearer_entities nowMs s q q'
    refine ⟨hsn.trans hsn', fun hold => hQ ?_⟩
    rcases hrx with hrx | hrx
    · rwa [hrx]
    · rw [hrx]
      exact htick _ hold

theorem receivePdu_carries {s : BearerSet} (h : s.Carries P) (nowMs : UInt32) (q : Qci)
    (pdu : Bytes) : (receivePdu enq s nowMs q pdu).Carries P :=
  he.enqueueStatus_carries (h.withRx _) q _

theorem receiveStatus_carries {s : BearerSet} (h : s.Carries P) (nowMs : UInt32) (q : Qci)
    (status : Bytes) : (receiveStatus enq s nowMs q status).Carries P := by
  apply he.enqueueData_carries
  · exact h.withTx fun pdu hheld => h.held q pdu (RlcTx.onStatus_holds hheld)
  · exact fun pdu hpdu => h.held q pdu (RlcTx.onStatus_mem hpdu)

end Enqueues

end BearerSet

end AetherStack.Source
