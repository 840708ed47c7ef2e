import AetherStack.Source.RlcUm

/-!
# QoS bearers

Source: stack/core/include/core/qos.h:38-221 and the LCIDs of stack/mac/include/mac/mac_pdu.h:24-36.
Signalling and best effort run RLC AM, voice and video RLC UM, so the type of a bearer's
entities depends on its class: `RlcTx q` and `RlcRx q`. The functions on them are the
`if (qci == SIG || qci == BEST_EFFORT) ... else ...` of the two nodes. The flag
`established` only feeds the log and is left out.
-/
namespace AetherStack.Source

namespace Mac

def lcidCcch : UInt8 := 0
def lcidNasDcch : UInt8 := 1
def lcidAppDtch : UInt8 := 2
def lcidAppSig : UInt8 := 3
def lcidAppVoice : UInt8 := 4
def lcidAppVideo : UInt8 := 5
def lcidRlcStatusSig : UInt8 := 57
def lcidRlcStatus : UInt8 := 59

end Mac

inductive Qci where
  | voice | video | sig | bestEffort
  deriving DecidableEq, Repr

def lcidOf : Qci → UInt8
  | .sig => Mac.lcidAppSig
  | .voice => Mac.lcidAppVoice
  | .video => Mac.lcidAppVideo
  | .bestEffort => Mac.lcidAppDtch

def statusLcidOf : Qci → UInt8
  | .sig => Mac.lcidRlcStatusSig
  | .voice | .video | .bestEffort => Mac.lcidRlcStatus

/-- Data LCID to bearer, nothing for the other channels. -/
def qciOfLcid (lcid : UInt8) : Option Qci :=
  if lcid = Mac.lcidAppSig then some .sig
  else if lcid = Mac.lcidAppVoice then some .voice
  else if lcid = Mac.lcidAppVideo then some .video
  else if lcid = Mac.lcidAppDtch then some .bestEffort
  else none

def qciOfStatusLcid (lcid : UInt8) : Option Qci :=
  if lcid = Mac.lcidRlcStatusSig then some .sig
  else if lcid = Mac.lcidRlcStatus then some .bestEffort
  else none

/-- The security decision is captured when the PDU is queued. -/
structure AppPdu where
  lcid : UInt8
  cipher : Bool := false
  bytes : Bytes
  deriving DecidableEq, Repr

/-! ## The entities of a bearer -/

abbrev RlcTx : Qci → Type
  | .sig | .bestEffort => AmTx
  | .voice | .video => UmTx

abbrev RlcRx : Qci → Type
  | .sig | .bestEffort => AmRx
  | .voice | .video => UmRx

/-- `make_um_bearer`: a late media packet is a useless one. -/
def umNodeBearerConfig : UmConfig := { tReorderMs := 100 }

namespace RlcTx

def make : (q : Qci) → RlcTx q
  | .sig | .bestEffort => { cfg := amNodeBearerConfig : AmTx }
  | .voice | .video => { cfg := umNodeBearerConfig : UmTx }

/-- `b.tx.tx(now_ms_, sdu, force)` or `b.tx.tx(sdu)`. -/
def send : (q : Qci) → RlcTx q → UInt32 → Bytes → Bool → RlcTx q × List Bytes
  | .sig, t, nowMs, sdu, force | .bestEffort, t, nowMs, sdu, force => AmTx.tx t nowMs sdu force
  | .voice, t, _, sdu, _ | .video, t, _, sdu, _ => UmTx.tx t sdu

/-- Only the acknowledged mode has a transmit timer. -/
def tick : (q : Qci) → RlcTx q → UInt32 → RlcTx q × List Bytes
  | .sig, t, nowMs | .bestEffort, t, nowMs => AmTx.tick t nowMs
  | .voice, t, _ | .video, t, _ => (t, [])

def onStatus : (q : Qci) → RlcTx q → UInt32 → Bytes → RlcTx q × List Bytes
  | .sig, t, nowMs, status | .bestEffort, t, nowMs, status => AmTx.onStatus t nowMs status
  | .voice, t, _, _ | .video, t, _, _ => (t, [])

def reset : (q : Qci) → RlcTx q → RlcTx q
  | .sig, t | .bestEffort, t => AmTx.reset t
  | .voice, t | .video, t => UmTx.reset t

def nextSn : (q : Qci) → RlcTx q → Nat
  | .sig, t | .bestEffort, t => AmTx.nextSn t
  | .voice, t | .video, t => UmTx.nextSn t

end RlcTx

/-- What a receive or tick hands upward, and the STATUS it asks for. -/
structure RlcOutcome where
  delivered : List Bytes := []
  status : Option Bytes := none
  deriving DecidableEq, Repr

namespace RlcRx

def make : (q : Qci) → RlcRx q
  | .sig | .bestEffort => { cfg := amNodeBearerConfig : AmRx }
  | .voice | .video => { cfg := umNodeBearerConfig : UmRx }

def amOutcome (received : AmRx × AmOutcome) : AmRx × RlcOutcome :=
  (received.1, {
    delivered := received.2.delivered
    status := if received.2.statusNeeded then some received.1.buildStatus else none })

def umOutcome (r : UmRx) : UmRx × RlcOutcome := (r.poll.1, { delivered := r.poll.2 })

def rx : (q : Qci) → RlcRx q → UInt32 → Bytes → RlcRx q × RlcOutcome
  | .sig, r, _, pdu | .bestEffort, r, _, pdu => amOutcome (AmRx.rx r pdu)
  | .voice, r, nowMs, pdu | .video, r, nowMs, pdu => umOutcome (UmRx.rx r nowMs pdu)

def tick : (q : Qci) → RlcRx q → UInt32 → RlcRx q × RlcOutcome
  | .sig, r, nowMs | .bestEffort, r, nowMs => amOutcome (AmRx.tick r nowMs)
  | .voice, r, nowMs | .video, r, nowMs => umOutcome (UmRx.tick r nowMs)

def reset : (q : Qci) → RlcRx q → RlcRx q
  | .sig, r | .bestEffort, r => AmRx.reset r
  | .voice, r | .video, r => UmRx.reset r

end RlcRx

/-! ## Bearers -/

structure Bearer (q : Qci) where
  tx : RlcTx q
  rx : RlcRx q
  queue : List AppPdu := []

structure BearerSet where
  bearer : (q : Qci) → Bearer q
  ctrl : List AppPdu := []
  sinceBe : UInt32 := 0

namespace BearerSet

def make : BearerSet := { bearer := fun q => { tx := RlcTx.make q, rx := RlcRx.make q } }

def setBearer (s : BearerSet) (q : Qci) (b : Bearer q) : BearerSet :=
  { s with bearer := Function.update s.bearer q b }

def isEmpty (s : BearerSet) : Bool :=
  s.ctrl.isEmpty && [Qci.sig, .voice, .video, .bestEffort].all fun q => (s.bearer q).queue.isEmpty

/-- Strict priority with the best-effort share, and the pick counter after it. -/
def pickQueue (s : BearerSet) : Option (Qci × UInt32) :=
  if (s.bearer .bestEffort).queue ≠ [] ∧ s.sinceBe ≥ 3 then some (.bestEffort, 0)
  else
    match [Qci.sig, .voice, .video, .bestEffort].find? fun q => !(s.bearer q).queue.isEmpty with
    | none => none
    | some q => some (q, if q ≠ .bestEffort then s.sinceBe + 1 else s.sinceBe)

/-- `pop_next`, called by the nodes when `!empty()` only. -/
def popNext (s : BearerSet) : Option (AppPdu × BearerSet) :=
  match s.ctrl with
  | p :: rest => some (p, { s with ctrl := rest })
  | [] =>
    match s.pickQueue with
    | none => none
    | some (q, since) =>
      match (s.bearer q).queue with
      | [] => none
      | p :: rest =>
        some (p, { s.setBearer q { s.bearer q with queue := rest } with sinceBe := since })

/-- The reset of all four bearers: entities fresh, queues cleared. -/
def resetBearers (s : BearerSet) : BearerSet :=
  { s with bearer := fun q =>
      { tx := RlcTx.reset q (s.bearer q).tx, rx := RlcRx.reset q (s.bearer q).rx } }

@[simp] theorem setBearer_self (s : BearerSet) (q : Qci) (b : Bearer q) :
    (s.setBearer q b).bearer q = b := by
  simp [setBearer]

theorem setBearer_of_ne (s : BearerSet) {q q' : Qci} (b : Bearer q) (h : q' ≠ q) :
    (s.setBearer q b).bearer q' = s.bearer q' := by
  simp [setBearer, h]

theorem pickQueue_nonempty {s : BearerSet} {q : Qci} {since : UInt32} (h : s.pickQueue = some (q, since)) :
    (s.bearer q).queue ≠ [] := by
  unfold pickQueue at h
  split at h
  · rename_i hshare
    simp only [Option.some.injEq, Prod.mk.injEq] at h
    obtain ⟨rfl, -⟩ := h
    exact hshare.1
  · split at h
    · cases h
    · rename_i q' hfind
      simp only [Option.some.injEq, Prod.mk.injEq] at h
      obtain ⟨rfl, -⟩ := h
      have hfound := List.find?_some hfind
      simpa using hfound

/-- A pop that takes nothing found every queue empty. -/
theorem popNext_none {s : BearerSet} (h : s.popNext = none) (q : Qci) : (s.bearer q).queue = [] := by
  unfold popNext at h
  split at h
  · cases h
  · split at h
    · rename_i hpick
      unfold pickQueue at hpick
      split at hpick
      · cases hpick
      · split at hpick
        · rename_i hfind
          have hall := List.find?_eq_none.mp hfind q (by cases q <;> simp)
          simpa using hall
        · cases hpick
    · rename_i q' since hpick
      split at h
      · rename_i hempty
        exact absurd hempty (pickQueue_nonempty hpick)
      · cases h

end BearerSet

end AetherStack.Source
