import AetherStack.Lib.Nonce
import AetherStack.Lib.Run
import AetherStack.Source.BsNode
import AetherStack.Source.UeNode

/-!
# One UE and the base stations it uses

The cells number their C-RNTIs in ranges of their own, so one flow table stands for the
tables of all base stations. `flow(rnti)` creates what it does not find: a flow that was
never touched, or was erased, is the default one.

Every block ever sent stays available to its receiver, which may get it late, twice or
never. The RACH answers do not go through HARQ: MSG4 is lost or arrives while its RACH
runs. RRC and NAS messages reach the UE at any time, whether or not the network sent them,
and a base station may suspend, release, prepare a handover or change a key at any time:
the runs below include those of the two nodes. Data for the UE and handovers go to C-RNTIs
that have or once had a context (`admitted`), since the tables of the base station and of the
UPF are filled from uplink messages only.

From `left` on the fields are history; no function of the nodes reads them. `ulLog rnti` is
what the UE's transmitters produced since the receivers of the flow were created, `dlLog rnti`
what those of the flow produced since the UE's receivers were reset.
-/
namespace AetherStack.Guarantees
open Source Lib

/-- One life of a PDCP counter: `pdcp_seq_` between two resets, `dl_seq` of one flow. -/
inductive PdcpCounter where
  | ue (epoch : Nat)
  | flow (id : Nat × Nat)
  deriving DecidableEq

/-- A call of `pdcp::protect`: the payload is the SDU. -/
abbrev ProtectCall := NonceUse Key256 UInt64 Bytes PdcpCounter

structure Network where
  ue : UeNode := {}
  flows : Nat → DlFlow := fun _ => {}
  contexts : Nat → Bool := fun _ => false
  maxDlQueuePerUe : Nat
  uplink : List AirBlock := []
  downlink : List AirBlock := []
  msg4 : Option Nat := none
  commands : List (Nat × Nat) := []
  issued : List Nat := []
  admitted : List Nat := []
  detached : List Nat := []
  left : List Nat := []
  calls : List ProtectCall := []
  ueEpoch : Nat := 0
  flowId : Nat → Nat × Nat := fun rnti => (rnti, 0)
  erased : Nat := 0
  ulLog : Nat → Qci → List Bytes := fun _ _ => []
  dlLog : Nat → Qci → List Bytes := fun _ _ => []

inductive NetworkEvent where
  | ueSend (q : Qci) (sdu : Bytes) (force : Bool)
  | ueTick (nowMs : UInt32)
  | uePump
  | ueSendNas (nasPdu : Bytes)
  | ueReceive (index : Nat)
  | ueProcedure (p : UeNode.Procedure)
  | ueResolve
  | ueReestablishFailed
  | ueAbort
  | ueDetach (detachPdu : Bytes)
  | ueHandover (index : Nat)
  | ueRlf
  | bsMsg3 (crnti : Nat) (known : Bool)
  | bsSend (rnti : Nat) (nowMs : UInt32) (q : Qci) (sdu : Bytes)
  | bsOperate (rnti : Nat) (nowMs : UInt32) (op : DlFlow.Operation)
  | bsSchedule (rnti : Nat)
  | bsReceive (index : Nat) (nowMs : UInt32)
  | bsPrepareHandover (source crnti : Nat)
  | bsDetach (rnti : Nat)
  | bsRelease (rnti : Nat)

namespace Network

def init (maxDlQueuePerUe : Nat) : Network := { maxDlQueuePerUe := maxDlQueuePerUe }

/-- The C-RNTIs the UE gave up are kept. -/
def setUe (s : Network) (u : UeNode) : Network :=
  { s with
    ue := u
    left := if u.crntiCache = s.ue.crntiCache then s.left else s.ue.crntiCache :: s.left }

def setFlow (s : Network) (rnti : Nat) (f : DlFlow) : Network :=
  { s with flows := Function.update s.flows rnti f }

def protectCalls (b : AirBlock) (counter : PdcpCounter) : List ProtectCall :=
  b.sealed.toList.map fun call => ⟨call.1, call.2, b.origin, counter⟩

def transmitUl (s : Network) (sent : UeNode × AirBlock) : Network :=
  { s with
    ue := sent.1
    uplink := s.uplink ++ [sent.2]
    calls := s.calls ++ protectCalls sent.2 (.ue s.ueEpoch) }

def transmitDl (s : Network) (rnti : Nat) (sent : DlFlow × AirBlock) : Network :=
  { s.setFlow rnti sent.1 with
    downlink := s.downlink ++ [sent.2]
    calls := s.calls ++ protectCalls sent.2 (.flow (s.flowId rnti)) }

def produceUl (s : Network) (q : Qci) (pdus : List Bytes) : Network :=
  { s with ulLog := fun rnti q' => s.ulLog rnti q' ++ if q' = q then pdus else [] }

def produceDl (s : Network) (rnti : Nat) (q : Qci) (pdus : List Bytes) : Network :=
  { s with dlLog := fun rnti' q' =>
      s.dlLog rnti' q' ++ if rnti' = rnti ∧ q' = q then pdus else [] }

/-- The UE resets its bearers. -/
def resetUe (s : Network) (u : UeNode) : Network :=
  { s.setUe u with dlLog := fun _ _ => [] }

def restartCounter (s : Network) : Network := { s with ueEpoch := s.ueEpoch + 1 }

/-- `flows_.erase`. -/
def eraseFlow (s : Network) (rnti : Nat) : Network :=
  { s.setFlow rnti {} with
    flowId := Function.update s.flowId rnti (rnti, s.erased + 1)
    erased := s.erased + 1
    ulLog := Function.update s.ulLog rnti fun _ => [] }

/-- The context and the flow of a UE go on under a new C-RNTI. -/
def moveFlow (s : Network) (old crnti : Nat) : Network :=
  let rest := s.eraseFlow old
  { rest with
    flows := Function.update rest.flows crnti (s.flows old).migrate
    contexts := Function.update (Function.update s.contexts old false) crnti true
    admitted := crnti :: s.admitted
    flowId := Function.update rest.flowId crnti (s.flowId old)
    ulLog := Function.update rest.ulLog crnti (s.ulLog old)
    dlLog := Function.update s.dlLog crnti (s.dlLog old) }

/-- A context for a UE whose entities start afresh. -/
def admitUe (s : Network) (crnti : Nat) : Network :=
  { s with
    contexts := Function.update s.contexts crnti true
    admitted := crnti :: s.admitted
    ulLog := Function.update s.ulLog crnti fun _ => [] }

def sendMsg4 (s : Network) (crnti : Nat) : Network :=
  { s with issued := crnti :: s.issued, msg4 := some crnti }

/-- MSG4, then the request MSG3 carries: a connection is set up, or the named context is
restored when it is still `known` in the right state. -/
def answerMsg3 (s : Network) (crnti : Nat) (known : Bool) : Network :=
  let s := s.sendMsg4 crnti
  match s.ue.pendingCcch with
  | some .setupRequest => s.admitUe crnti
  | some (.resumeRequest old) | some (.reestablishmentRequest old) =>
    if known && s.contexts old then s.moveFlow old crnti else s
  | none => s

def prepareHandover (s : Network) (source crnti : Nat) : Network :=
  { (s.admitUe crnti).setFlow crnti ((s.flows crnti).adoptSecurity (s.flows source)) with
    issued := crnti :: s.issued
    commands := s.commands ++ [(source, crnti)] }

variable (hmac : Hmac)

def step (s : Network) : NetworkEvent → Option Network
  | .ueSend q sdu force =>
    let sent := s.ue.sendSdu q sdu force
    some ({ s with ue := sent.1 }.produceUl q sent.2)
  | .ueTick nowMs => some { s with ue := s.ue.tick nowMs }
  | .uePump => (s.ue.pumpAppBearers hmac).map s.transmitUl
  | .ueSendNas nasPdu =>
    some (s.transmitUl (s.ue.uplinkSend hmac Mac.lcidNasDcch (Pdcp.tx nasPdu)))
  | .ueReceive index => do
    let b ← s.downlink[index]?
    if b.rnti = s.ue.crntiCache then
      some { s with ue := s.ue.handleDedicatedSdu hmac b.lcid b.sdu }
    else none
  | .ueProcedure p =>
    some { s.setUe (s.ue.procedure p) with msg4 := if p.startsRach then none else s.msg4 }
  | .ueResolve => do
    let crnti ← s.msg4
    if s.ue.rachActive then
      some { s.setUe (s.ue.onContentionResolve crnti) with msg4 := none }
    else none
  | .ueReestablishFailed =>
    if s.ue.reestablishPending then some (s.setUe s.ue.reestablishFailed).restartCounter else none
  | .ueAbort =>
    if s.ue.registered then none else some (s.resetUe s.ue.abortAttach).restartCounter
  | .ueDetach detachPdu =>
    if s.ue.registered ∧ s.ue.rrc ≠ .inactive then
      let sent := s.ue.detach hmac detachPdu
      let after := (s.transmitUl (s.ue, sent.2)).resetUe sent.1
      some { after.restartCounter with detached := s.ue.crntiCache :: s.detached }
    else none
  | .ueHandover index => do
    let command ← s.commands[index]?
    if command.1 = s.ue.crntiCache then
      some (s.resetUe (s.ue.applyHandover command.2)).restartCounter
    else none
  | .ueRlf =>
    if s.ue.rrc = .connected ∧ !s.ue.reestablishPending then
      some { s.resetUe s.ue.declareRlf with msg4 := none }
    else none
  | .bsMsg3 crnti known => if s.ue.rachActive then some (s.answerMsg3 crnti known) else none
  | .bsSend rnti nowMs q sdu =>
    if rnti ∈ s.admitted then
      let sent := (s.flows rnti).sendSdu s.maxDlQueuePerUe nowMs q sdu
      some ((s.setFlow rnti sent.1).produceDl rnti q sent.2)
    else none
  | .bsOperate rnti nowMs op =>
    if rnti ∈ s.issued then
      some (s.setFlow rnti ((s.flows rnti).operate s.maxDlQueuePerUe nowMs op))
    else none
  | .bsSchedule rnti => ((s.flows rnti).scheduleDownlink hmac rnti).map (s.transmitDl rnti)
  | .bsReceive index nowMs => do
    let b ← s.uplink[index]?
    if s.contexts b.rnti then
      some (s.setFlow b.rnti
        ((s.flows b.rnti).handleData hmac s.maxDlQueuePerUe nowMs b.lcid b.sdu))
    else none
  | .bsPrepareHandover source crnti =>
    if source ∈ s.admitted then some (s.prepareHandover source crnti) else none
  | .bsDetach rnti => if rnti ∈ s.detached then some (s.eraseFlow rnti) else none
  | .bsRelease rnti =>
    some { s.eraseFlow rnti with contexts := Function.update s.contexts rnti false }

/-! ## What a step can do -/

/-- A connection is set up, a context the UE named moves, or MSG4 is all. -/
theorem answerMsg3_cases (s : Network) (crnti : Nat) (known : Bool) :
    (s.ue.pendingCcch = some .setupRequest ∧
      s.answerMsg3 crnti known = (s.sendMsg4 crnti).admitUe crnti) ∨
    (∃ old, (s.ue.pendingCcch = some (.resumeRequest old) ∨
        s.ue.pendingCcch = some (.reestablishmentRequest old)) ∧ s.contexts old = true ∧
      s.answerMsg3 crnti known = (s.sendMsg4 crnti).moveFlow old crnti) ∨
    s.answerMsg3 crnti known = s.sendMsg4 crnti := by
  unfold answerMsg3
  dsimp only
  have hue : (s.sendMsg4 crnti).ue.pendingCcch = s.ue.pendingCcch := rfl
  rw [hue]
  cases s.ue.pendingCcch with
  | none => exact .inr (.inr rfl)
  | some request =>
    cases request with
    | setupRequest => exact .inl ⟨rfl, rfl⟩
    | resumeRequest old =>
      dsimp only
      split
      · rename_i hknown
        exact .inr (.inl ⟨old, .inl rfl, ((Bool.and_eq_true _ _).mp hknown).2, rfl⟩)
      · exact .inr (.inr rfl)
    | reestablishmentRequest old =>
      dsimp only
      split
      · rename_i hknown
        exact .inr (.inl ⟨old, .inr rfl, ((Bool.and_eq_true _ _).mp hknown).2, rfl⟩)
      · exact .inr (.inr rfl)

inductive Transition (s : Network) : NetworkEvent → Network → Prop
  | ueSend (q : Qci) (sdu : Bytes) (force : Bool) : Transition s (.ueSend q sdu force)
      ({ s with ue := (s.ue.sendSdu q sdu force).1 }.produceUl q (s.ue.sendSdu q sdu force).2)
  | ueTick (nowMs : UInt32) : Transition s (.ueTick nowMs) { s with ue := s.ue.tick nowMs }
  | uePump (u : UeNode) (b : AirBlock) (hpump : s.ue.pumpAppBearers hmac = some (u, b)) :
      Transition s .uePump (s.transmitUl (u, b))
  | ueSendNas (nasPdu : Bytes) (u : UeNode) (b : AirBlock)
      (hsend : s.ue.uplinkSend hmac Mac.lcidNasDcch (Pdcp.tx nasPdu) = (u, b)) :
      Transition s (.ueSendNas nasPdu) (s.transmitUl (u, b))
  | ueReceive (index : Nat) (b : AirBlock) (hget : s.downlink[index]? = some b)
      (haddr : b.rnti = s.ue.crntiCache) :
      Transition s (.ueReceive index) { s with ue := s.ue.handleDedicatedSdu hmac b.lcid b.sdu }
  | ueProcedure (p : UeNode.Procedure) : Transition s (.ueProcedure p)
      { s.setUe (s.ue.procedure p) with msg4 := if p.startsRach then none else s.msg4 }
  | ueResolve (crnti : Nat) (hmsg4 : s.msg4 = some crnti) (hrach : s.ue.rachActive = true) :
      Transition s .ueResolve { s.setUe (s.ue.onContentionResolve crnti) with msg4 := none }
  | ueReestablishFailed (hpending : s.ue.reestablishPending = true) :
      Transition s .ueReestablishFailed (s.setUe s.ue.reestablishFailed).restartCounter
  | ueAbort (hregistered : s.ue.registered = false) :
      Transition s .ueAbort (s.resetUe s.ue.abortAttach).restartCounter
  | ueDetach (detachPdu : Bytes) (u : UeNode) (b : AirBlock) (hregistered : s.ue.registered = true)
      (hactive : s.ue.rrc ≠ .inactive) (hdetach : s.ue.detach hmac detachPdu = (u, b)) :
      Transition s (.ueDetach detachPdu)
        { ((s.transmitUl (s.ue, b)).resetUe u).restartCounter with
          detached := s.ue.crntiCache :: s.detached }
  | ueHandover (index crnti : Nat) (hget : s.commands[index]? = some (s.ue.crntiCache, crnti)) :
      Transition s (.ueHandover index) (s.resetUe (s.ue.applyHandover crnti)).restartCounter
  | ueRlf (hconnected : s.ue.rrc = .connected) (hpending : s.ue.reestablishPending = false) :
      Transition s .ueRlf { s.resetUe s.ue.declareRlf with msg4 := none }
  | bsMsg3 (crnti : Nat) (known : Bool) (hrach : s.ue.rachActive = true) :
      Transition s (.bsMsg3 crnti known) (s.answerMsg3 crnti known)
  | bsSend (rnti : Nat) (nowMs : UInt32) (q : Qci) (sdu : Bytes) (hadmitted : rnti ∈ s.admitted) :
      Transition s (.bsSend rnti nowMs q sdu)
        ((s.setFlow rnti ((s.flows rnti).sendSdu s.maxDlQueuePerUe nowMs q sdu).1).produceDl rnti q
          ((s.flows rnti).sendSdu s.maxDlQueuePerUe nowMs q sdu).2)
  | bsOperate (rnti : Nat) (nowMs : UInt32) (op : DlFlow.Operation) (hissued : rnti ∈ s.issued) :
      Transition s (.bsOperate rnti nowMs op)
        (s.setFlow rnti ((s.flows rnti).operate s.maxDlQueuePerUe nowMs op))
  | bsSchedule (rnti : Nat) (f : DlFlow) (b : AirBlock)
      (hsched : (s.flows rnti).scheduleDownlink hmac rnti = some (f, b)) :
      Transition s (.bsSchedule rnti) (s.transmitDl rnti (f, b))
  | bsReceive (index : Nat) (nowMs : UInt32) (b : AirBlock) (hget : s.uplink[index]? = some b)
      (hcontext : s.contexts b.rnti = true) :
      Transition s (.bsReceive index nowMs) (s.setFlow b.rnti
        ((s.flows b.rnti).handleData hmac s.maxDlQueuePerUe nowMs b.lcid b.sdu))
  | bsPrepareHandover (source crnti : Nat) (hadmitted : source ∈ s.admitted) :
      Transition s (.bsPrepareHandover source crnti) (s.prepareHandover source crnti)
  | bsDetach (rnti : Nat) (hdetached : rnti ∈ s.detached) :
      Transition s (.bsDetach rnti) (s.eraseFlow rnti)
  | bsRelease (rnti : Nat) : Transition s (.bsRelease rnti)
      { s.eraseFlow rnti with contexts := Function.update s.contexts rnti false }

theorem transition_of_step {s s' : Network} {e : NetworkEvent} (h : step hmac s e = some s') :
    Transition hmac s e s' := by
  cases e with
  | ueSend | ueTick | ueProcedure | bsRelease =>
    obtain rfl := Option.some.inj h
    constructor
  | uePump =>
    obtain ⟨⟨u, b⟩, hpump, rfl⟩ := Option.map_eq_some_iff.mp h
    exact .uePump u b hpump
  | ueSendNas nasPdu =>
    obtain rfl := Option.some.inj h
    exact .ueSendNas nasPdu _ _ rfl
  | ueReceive index =>
    obtain ⟨b, hget, h⟩ := Option.bind_eq_some_iff.mp h
    split at h
    · obtain rfl := Option.some.inj h
      exact .ueReceive index b hget ‹_›
    · cases h
  | ueResolve =>
    obtain ⟨crnti, hmsg4, h⟩ := Option.bind_eq_some_iff.mp h
    split at h
    · obtain rfl := Option.some.inj h
      exact .ueResolve crnti hmsg4 ‹_›
    · cases h
  | ueReestablishFailed =>
    dsimp only [step] at h
    split at h
    · obtain rfl := Option.some.inj h
      exact .ueReestablishFailed ‹_›
    · cases h
  | ueAbort =>
    dsimp only [step] at h
    split at h
    · cases h
    · obtain rfl := Option.some.inj h
      exact .ueAbort (Bool.eq_false_iff.mpr ‹_›)
  | ueDetach detachPdu =>
    dsimp only [step] at h
    split at h
    · rename_i hguard
      obtain rfl := Option.some.inj h
      exact .ueDetach detachPdu _ _ hguard.1 hguard.2 rfl
    · cases h
  | ueHandover index =>
    obtain ⟨⟨addr, crnti⟩, hget, h⟩ := Option.bind_eq_some_iff.mp h
    split at h
    · rename_i haddr
      obtain rfl := Option.some.inj h
      exact .ueHandover index crnti (haddr ▸ hget)
    · cases h
  | ueRlf =>
    dsimp only [step] at h
    split at h
    · rename_i hguard
      obtain rfl := Option.some.inj h
      exact .ueRlf hguard.1 (by simpa using hguard.2)
    · cases h
  | bsMsg3 crnti known =>
    dsimp only [step] at h
    split at h
    · obtain rfl := Option.some.inj h
      exact .bsMsg3 crnti known ‹_›
    · cases h
  | bsSend rnti nowMs q sdu =>
    dsimp only [step] at h
    split at h
    · obtain rfl := Option.some.inj h
      exact .bsSend rnti nowMs q sdu ‹_›
    · cases h
  | bsOperate rnti nowMs op =>
    dsimp only [step] at h
    split at h
    · obtain rfl := Option.some.inj h
      exact .bsOperate rnti nowMs op ‹_›
    · cases h
  | bsSchedule rnti =>
    obtain ⟨⟨f, b⟩, hsched, rfl⟩ := Option.map_eq_some_iff.mp h
    exact .bsSchedule rnti f b hsched
  | bsReceive index nowMs =>
    obtain ⟨b, hget, h⟩ := Option.bind_eq_some_iff.mp h
    split at h
    · obtain rfl := Option.some.inj h
      exact .bsReceive index nowMs b hget ‹_›
    · cases h
  | bsPrepareHandover source crnti =>
    dsimp only [step] at h
    split at h
    · obtain rfl := Option.some.inj h
      exact .bsPrepareHandover source crnti ‹_›
    · cases h
  | bsDetach rnti =>
    dsimp only [step] at h
    split at h
    · obtain rfl := Option.some.inj h
      exact .bsDetach rnti ‹_›
    · cases h

/-! ## An attach with AKA -/

def zeroHmac : Hmac := fun _ _ => Vector.replicate 32 0

def sessionKey : Key256 := Vector.replicate 32 7

/-- The UE gets C-RNTI 1 and both sides the session key; the accept is sent in the clear. -/
def attachEvents (key : Key256) : List NetworkEvent :=
  [.ueProcedure .maybeStartAttach, .bsMsg3 1 true, .ueResolve, .ueProcedure .setup,
    .ueProcedure .attachRequest, .ueProcedure (.nas (.authRequest key)),
    .bsOperate 1 0 (.sendNas [0x02] (some key)), .bsSchedule 1, .ueProcedure (.nas .attachAccept)]

end Network

end AetherStack.Guarantees
