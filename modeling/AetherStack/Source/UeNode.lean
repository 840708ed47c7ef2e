import AetherStack.Source.UserPlane

/-!
# `UeNode`: connection control and user plane

Source: stack/core/src/ue_node.cpp:101-372, 669-780, 1757-1779, 1842-1890 and 1935-2032, with the
states of stack/rrc/src/rrc_ue.cpp and stack/nas/src/nas_ue.cpp its functions test. One function
for each procedure that touches the data path: HARQ, timers, measurements and the applications
above the bearers are left out, of `RachUe` only whether it waits for an answer is kept, and RRC
and NAS messages stand for themselves, without their octets. What `uplink_send` hands to HARQ is
returned as a block. The whole node with its entities does to the user plane what this one does
(`plane_of_node`).

A RESUME_REQUEST names the suspended context by its resume identity, whose upper half is
the C-RNTI it was issued for; the request carries that C-RNTI here.
-/
namespace AetherStack.Source

inductive RrcState where
  | idle | connecting | connected | inactive
  deriving DecidableEq, Repr

inductive NasUeState where
  | deregistered | registering | registered
  deriving DecidableEq, Repr

/-! ## NAS -/

structure NasUe where
  state : NasUeState := .deregistered
  authenticated : Bool := false
  authPending : Bool := false
  sessionKey : Key256 := Vector.replicate 32 0
  deriving DecidableEq

/-- A downlink NAS message the UE acts on. `authRequest` is a challenge that passes the
MAC and freshness checks and yields this session key. -/
inductive NasDownlink where
  | authRequest (key : Key256)
  | attachAccept
  | attachReject
  deriving DecidableEq

namespace NasUe

def sendAttachRequest (n : NasUe) : NasUe :=
  if n.state ≠ .deregistered then n
  else { n with state := .registering, authenticated := false, authPending := false }

def sendDetach (n : NasUe) : NasUe := { n with state := .deregistered }

def forceDeregistered (n : NasUe) : NasUe :=
  if n.state = .deregistered then n
  else { n with state := .deregistered, authenticated := false, authPending := false }

def onMessage (n : NasUe) : NasDownlink → NasUe
  | .authRequest key =>
    if n.state ≠ .registering then n else { n with sessionKey := key, authPending := true }
  | .attachAccept =>
    if n.state ≠ .registering then n
    else { n with
      state := .registered
      authenticated := n.authPending || n.authenticated
      authPending := false }
  | .attachReject => if n.state ≠ .registering then n else { n with state := .deregistered }

end NasUe

/-! ## The node -/

/-- The CCCH PDU that waits to ride MSG3. -/
inductive Ccch where
  | setupRequest
  | resumeRequest (crnti : Nat)
  | reestablishmentRequest (crnti : Nat)
  deriving DecidableEq, Repr

structure UeNode where
  nowMs : UInt32 := 0
  rrc : RrcState := .idle
  nas : NasUe := {}
  crntiCache : Nat := 0
  suspendedCrnti : Nat := 0
  preRlfCrnti : Nat := 0
  reestablishPending : Bool := false
  pendingCcch : Option Ccch := none
  rachActive : Bool := false
  upKey : Key256 := Vector.replicate 32 0
  upSecOn : Bool := false
  pdcpSeq : UInt64 := 0
  bearers : BearerSet := BearerSet.make

namespace UeNode

def kBearerQueueLimit : Nat := 64

def registered (u : UeNode) : Bool := u.nas.state = .registered

/-! ### User plane -/

def uplinkSend (hmac : Hmac) (u : UeNode) (lcid : UInt8) (sdu : Bytes) : UeNode × AirBlock :=
  if u.upSecOn && cipheredLcid lcid then
    ({ u with pdcpSeq := u.pdcpSeq + 1 },
      { rnti := u.crntiCache, lcid := lcid, sdu := Pdcp.protect hmac u.upKey u.pdcpSeq sdu
        origin := sdu, sealed := some (u.upKey, u.pdcpSeq) })
  else (u, { rnti := u.crntiCache, lcid := lcid, sdu := sdu, origin := sdu })

/-- A full bearer queue loses its oldest PDU. -/
def enqueueAppPdu : BearerSet.Enqueue := fun s q lcid pdu =>
  s.withQueue q (BearerSet.pushBounded kBearerQueueLimit (s.bearer q).queue
    { lcid := lcid, bytes := pdu })

/-- The bearer part of `send_app_data` and `send_u2u`. -/
def sendSdu (u : UeNode) (q : Qci) (sdu : Bytes) (force : Bool) : UeNode × List Bytes :=
  let sent := u.bearers.sendSdu enqueueAppPdu u.nowMs q sdu force
  ({ u with bearers := sent.1 }, sent.2)

def tick (u : UeNode) (nowMs : UInt32) : UeNode :=
  let u := { u with nowMs := max nowMs u.nowMs }
  { u with bearers := u.bearers.serviceAll enqueueAppPdu u.nowMs }

/-- One turn of the loop in `pump_app_bearers`; the HARQ window decides how many there are. -/
def pumpAppBearers (hmac : Hmac) (u : UeNode) : Option (UeNode × AirBlock) :=
  if u.rrc = .inactive then none
  else
    match u.bearers.popNext with
    | none => none
    | some (p, bearers) => some (uplinkSend hmac { u with bearers := bearers } p.lcid p.bytes)

/-- The PDU a data block gives to the receiving entity. -/
def rxInput (hmac : Hmac) (u : UeNode) (lcid : UInt8) (sdu : Bytes) : Option (Qci × Bytes) :=
  match qciOfLcid lcid with
  | none => none
  | some q => (openSdu hmac u.upSecOn u.upKey sdu).map fun pdu => (q, pdu)

/-- `handle_dedicated_sdu` for the data and STATUS channels. -/
def handleDedicatedSdu (hmac : Hmac) (u : UeNode) (lcid : UInt8) (sdu : Bytes) : UeNode :=
  match u.rxInput hmac lcid sdu with
  | some (q, pdu) => { u with bearers := u.bearers.receivePdu enqueueAppPdu u.nowMs q pdu }
  | none =>
    match qciOfStatusLcid lcid with
    | some q => { u with bearers := u.bearers.receiveStatus enqueueAppPdu u.nowMs q sdu }
    | none => u

/-! ### Procedures -/

/-- A NAS message, and security on when it registers an authenticated UE
(ue_node.cpp:690-698). -/
def handleNas (u : UeNode) (m : NasDownlink) : UeNode :=
  let u := { u with nas := u.nas.onMessage m }
  if u.nas.state = .registered ∧ u.nas.authenticated ∧ !u.upSecOn then
    { u with upKey := u.nas.sessionKey, upSecOn := true }
  else u

/-- `RachUe` enters WAIT_RAR: the node forgets its C-RNTI. -/
def startRach (u : UeNode) : UeNode := { u with crntiCache := 0, rachActive := true }

/-- `maybe_start_attach` once attaching is wanted and the cell is known: a re-establishment
in progress is asked for again, otherwise a connection is set up. -/
def maybeStartAttach (u : UeNode) : UeNode :=
  if u.rachActive ∨ u.rrc ≠ .idle then u
  else if u.reestablishPending then
    { u with pendingCcch := some (.reestablishmentRequest u.preRlfCrnti) }.startRach
  else { u with rrc := .connecting, pendingCcch := some .setupRequest }.startRach

/-- A response window ran out. -/
def rachFailure (u : UeNode) : UeNode := { u with rachActive := false }

/-- The timer of `schedule_attach_retry`. -/
def attachRetry (u : UeNode) : UeNode :=
  if u.registered ∨ u.rachActive then u
  else { u with rrc := .idle, crntiCache := 0 }.maybeStartAttach

/-- `wake`: the kept context is asked for again. -/
def wake (u : UeNode) : UeNode :=
  if u.rrc ≠ .inactive then u
  else
    { u with
      rrc := .connecting
      pendingCcch := some (.resumeRequest u.suspendedCrnti) }.startRach

def onContentionResolve (u : UeNode) (crnti : Nat) : UeNode :=
  { u with crntiCache := crnti, rachActive := false }

def onSetup (u : UeNode) : UeNode :=
  if u.rrc ≠ .connecting then u else { u with rrc := .connected }

/-- RESUME_OK is addressed to the C-RNTI it carries, which the UE has from MSG4. -/
def onResumeOk (u : UeNode) : UeNode :=
  if u.rrc ≠ .connecting then u else { u with rrc := .connected }

/-- REESTABLISHMENT_OK, addressed in the same way. -/
def onReestablishmentOk (u : UeNode) : UeNode :=
  if !u.reestablishPending then u else { u with rrc := .connected, reestablishPending := false }

/-- RELEASE with a resume identity: a UE that is not connected takes it for a plain one. -/
def onRelease (u : UeNode) : UeNode :=
  if u.rrc ≠ .connected then { u with rrc := .idle }
  else { u with rrc := .inactive, suspendedCrnti := u.crntiCache, crntiCache := 0 }

/-- RESUME_FAILURE: deregister and attach again. Security and the bearers stay. -/
def onResumeFailure (u : UeNode) : UeNode :=
  if u.rrc ≠ .connecting then u
  else
    { u with
      rrc := .idle, suspendedCrnti := 0, crntiCache := 0, rachActive := false
      nas := u.nas.forceDeregistered }

/-- The resume guard of `wake`. -/
def onResumeGuard (u : UeNode) : UeNode :=
  if u.rrc = .connected then u
  else
    { u with
      rrc := .idle, suspendedCrnti := 0, rachActive := false, nas := u.nas.forceDeregistered }

/-- Security off and a fresh registration; the bearers keep what they got since the
link failed. -/
def reestablishFailed (u : UeNode) : UeNode :=
  { u with
    reestablishPending := false, nas := u.nas.forceDeregistered, upSecOn := false, pdcpSeq := 0
    crntiCache := 0, rachActive := false, rrc := .idle }

/-! The four procedures that reset the bearers. -/

def abortAttach (u : UeNode) : UeNode :=
  { u with
    rrc := .idle, pendingCcch := none, crntiCache := 0, rachActive := false
    nas := u.nas.forceDeregistered
    bearers := u.bearers.resetBearers, upSecOn := false, pdcpSeq := 0 }

/-- `detach` of a registered UE that is not inactive: the NAS DETACH goes out first. -/
def detach (hmac : Hmac) (u : UeNode) (detachPdu : Bytes) : UeNode × AirBlock :=
  let deregistered := { u with nas := u.nas.sendDetach }
  ({ deregistered with
      rrc := if u.rrc = .connected then .idle else u.rrc
      pendingCcch := none, crntiCache := 0, rachActive := false
      bearers := u.bearers.resetBearers, upSecOn := false, pdcpSeq := 0 },
    (uplinkSend hmac deregistered Mac.lcidNasDcch (Pdcp.tx detachPdu)).2)

def applyHandover (u : UeNode) (newCrnti : Nat) : UeNode :=
  { u with
    rrc := .connected, crntiCache := newCrnti
    bearers := u.bearers.resetBearers, pdcpSeq := 0 }

/-- The air side dies with the link; MSG3 will carry the re-establishment request. -/
def declareRlf (u : UeNode) : UeNode :=
  { u with
    preRlfCrnti := u.crntiCache, reestablishPending := true, rrc := .idle
    bearers := u.bearers.resetBearers
    pendingCcch := some (.reestablishmentRequest u.crntiCache) }.startRach

/-! ### The procedures that leave the data path alone -/

inductive Procedure where
  | attachRequest
  | nas (m : NasDownlink)
  | maybeStartAttach
  | attachRetry
  | rachFailure
  | wake
  | setup
  | resumeOk
  | reestablishmentOk
  | release
  | resumeFailure
  | resumeGuard

def procedure (u : UeNode) : Procedure → UeNode
  | .attachRequest => { u with nas := u.nas.sendAttachRequest }
  | .nas m => u.handleNas m
  | .maybeStartAttach => u.maybeStartAttach
  | .attachRetry => u.attachRetry
  | .rachFailure => u.rachFailure
  | .wake => u.wake
  | .setup => u.onSetup
  | .resumeOk => u.onResumeOk
  | .reestablishmentOk => u.onReestablishmentOk
  | .release => u.onRelease
  | .resumeFailure => u.onResumeFailure
  | .resumeGuard => u.onResumeGuard

def Procedure.startsRach : Procedure → Bool
  | .maybeStartAttach | .attachRetry | .wake => true
  | _ => false

theorem maybeStartAttach_bearers (u : UeNode) :
    u.maybeStartAttach.bearers = u.bearers ∧ u.maybeStartAttach.pdcpSeq = u.pdcpSeq := by
  unfold maybeStartAttach
  split
  · exact ⟨rfl, rfl⟩
  · split
    · exact ⟨rfl, rfl⟩
    · exact ⟨rfl, rfl⟩

theorem procedure_bearers (u : UeNode) (p : Procedure) :
    (u.procedure p).bearers = u.bearers ∧ (u.procedure p).pdcpSeq = u.pdcpSeq := by
  cases p with
  | attachRequest | rachFailure => exact ⟨rfl, rfl⟩
  | maybeStartAttach => exact u.maybeStartAttach_bearers
  | attachRetry =>
    dsimp only [procedure, attachRetry]
    split
    · exact ⟨rfl, rfl⟩
    · exact maybeStartAttach_bearers _
  | nas m =>
    dsimp only [procedure, handleNas]
    split <;> exact ⟨rfl, rfl⟩
  | wake => dsimp only [procedure, wake]; split <;> exact ⟨rfl, rfl⟩
  | setup => dsimp only [procedure, onSetup]; split <;> exact ⟨rfl, rfl⟩
  | resumeOk => dsimp only [procedure, onResumeOk]; split <;> exact ⟨rfl, rfl⟩
  | reestablishmentOk => dsimp only [procedure, onReestablishmentOk]; split <;> exact ⟨rfl, rfl⟩
  | release => dsimp only [procedure, onRelease]; split <;> exact ⟨rfl, rfl⟩
  | resumeFailure => dsimp only [procedure, onResumeFailure]; split <;> exact ⟨rfl, rfl⟩
  | resumeGuard => dsimp only [procedure, onResumeGuard]; split <;> exact ⟨rfl, rfl⟩

/-! ### What the user plane does to the node -/

variable {hmac : Hmac} {u u' : UeNode} {b : AirBlock}

/-- A frame goes out on the cached C-RNTI, sealed with the next counter where the channel is
ciphered. -/
theorem uplinkSend_cases {lcid : UInt8} {sdu : Bytes} (h : uplinkSend hmac u lcid sdu = (u', b)) :
    (b.rnti = u.crntiCache ∧ b.lcid = lcid ∧ b.origin = sdu ∧ b.Genuine hmac) ∧
      ((u.upSecOn = true ∧ cipheredLcid lcid = true ∧ b.sealed = some (u.upKey, u.pdcpSeq) ∧
          u' = { u with pdcpSeq := u.pdcpSeq + 1 }) ∨
        (b.sealed = none ∧ u' = u)) := by
  unfold uplinkSend at h
  split at h
  · rename_i hciphered
    obtain ⟨hsec, hlcid⟩ := (Bool.and_eq_true _ _).mp hciphered
    obtain ⟨rfl, rfl⟩ := Prod.mk.inj h
    exact ⟨⟨rfl, rfl, rfl, rfl⟩, .inl ⟨hsec, hlcid, rfl, rfl⟩⟩
  · obtain ⟨rfl, rfl⟩ := Prod.mk.inj h
    exact ⟨⟨rfl, rfl, rfl, rfl⟩, .inr ⟨rfl, rfl⟩⟩

/-- One turn of the pump takes one PDU of the queues. -/
theorem pumpAppBearers_cases (h : pumpAppBearers hmac u = some (u', b)) :
    ∃ p bearers, u.bearers.popNext = some (p, bearers) ∧
      uplinkSend hmac { u with bearers := bearers } p.lcid p.bytes = (u', b) := by
  unfold pumpAppBearers at h
  split at h
  · cases h
  · split at h
    · cases h
    · rename_i p bearers hpop
      exact ⟨p, bearers, hpop, Option.some.inj h⟩

/-- Data goes into at most one RLC entity. -/
theorem handleDedicatedSdu_cases (hmac : Hmac) (u : UeNode) (lcid : UInt8) (sdu : Bytes) :
    (∃ q pdu, u.rxInput hmac lcid sdu = some (q, pdu) ∧
      u.handleDedicatedSdu hmac lcid sdu =
        { u with bearers := u.bearers.receivePdu enqueueAppPdu u.nowMs q pdu }) ∨
    (∃ q, u.handleDedicatedSdu hmac lcid sdu =
      { u with bearers := u.bearers.receiveStatus enqueueAppPdu u.nowMs q sdu }) ∨
    u.handleDedicatedSdu hmac lcid sdu = u := by
  unfold handleDedicatedSdu
  cases u.rxInput hmac lcid sdu with
  | some input => exact .inl ⟨input.1, input.2, rfl, rfl⟩
  | none =>
    cases qciOfStatusLcid lcid with
    | some q => exact .inr (.inl ⟨q, rfl⟩)
    | none => exact .inr (.inr rfl)

/-! ### How the UE queues -/

theorem enqueues : BearerSet.Enqueues enqueueAppPdu where
  entities := by
    intro s q lcid bytes q'
    exact ⟨BearerSet.withQueue_tx _ q', BearerSet.withQueue_rx _ q'⟩
  carries := by
    intro P s q lcid bytes h hlegit
    apply h.withQueue
    intro p hp
    rcases BearerSet.mem_pushBounded hp with hold | rfl
    · exact .inl (.inr ⟨q, hold⟩)
    · exact .inr hlegit

/-! ### What the bearers of the UE may still send -/

variable {P P' : Qci → Bytes → Prop}

/-- A tick serves the four bearers at the later of the two clocks. -/
theorem tick_bearers (u : UeNode) (nowMs : UInt32) :
    (u.tick nowMs).bearers = u.bearers.serviceAll enqueueAppPdu (max nowMs u.nowMs) := by
  simp only [tick]

theorem tick_carries (h : u.bearers.Carries P) (nowMs : UInt32) :
    (u.tick nowMs).bearers.Carries P := by
  rw [tick_bearers]
  exact enqueues.serviceAll_carries h _

/-- Sending a SDU adds the PDUs it was cut into, and no others. -/
theorem sendSdu_carries (h : u.bearers.Carries P) (hmono : ∀ q pdu, P q pdu → P' q pdu) (q : Qci)
    (sdu : Bytes) (force : Bool) (hnew : ∀ pdu ∈ (u.sendSdu q sdu force).2, P' q pdu) :
    (u.sendSdu q sdu force).1.bearers.Carries P' :=
  enqueues.sendSdu_carries h hmono u.nowMs q sdu force hnew

/-- Receiving produces retransmissions only. -/
theorem handleDedicatedSdu_carries (h : u.bearers.Carries P) (lcid : UInt8) (sdu : Bytes) :
    (u.handleDedicatedSdu hmac lcid sdu).bearers.Carries P := by
  rcases u.handleDedicatedSdu_cases hmac lcid sdu with ⟨q, pdu, -, heq⟩ | ⟨q, heq⟩ | heq
  · rw [heq]
    exact enqueues.receivePdu_carries h _ q pdu
  · rw [heq]
    exact enqueues.receiveStatus_carries h _ q sdu
  · rw [heq]
    exact h

/-- What is pumped was waiting. -/
theorem pumpAppBearers_carries (h : u.bearers.Carries P) (hpump : pumpAppBearers hmac u = some (u', b)) :
    u'.bearers.Carries P ∧
      ∀ q, qciOfLcid b.lcid = some q → ∃ pdu, b.origin = Pdcp.tx pdu ∧ P q pdu := by
  obtain ⟨p, bearers, hpop, hsend⟩ := pumpAppBearers_cases hpump
  obtain ⟨⟨-, hlcid, horigin, -⟩, hcases⟩ := uplinkSend_cases hsend
  have hbearers : u'.bearers = bearers := by
    rcases hcases with ⟨-, -, -, heq⟩ | ⟨-, heq⟩
    · rw [heq]
    · rw [heq]
  constructor
  · rw [hbearers]
    exact h.popNext hpop
  · intro q hq
    rw [hlcid] at hq
    rw [horigin]
    exact h.queued p (BearerSet.popNext_spec hpop).1 q hq

end UeNode

end AetherStack.Source
