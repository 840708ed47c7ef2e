import AetherStack.Source.RlcAm

/-!
# RLC unacknowledged mode: `UmTx` and `UmRx`

Source: stack/rlc/src/rlc_um.cpp:8-171 and include/rlc/rlc_um.h. Sequence numbers are
`uint16_t` and compared through the `int16_t` of their difference, unlike those of the
acknowledged mode. The hold area is a `std::map` walked in ascending order.
-/
namespace AetherStack.Source

structure UmConfig where
  maxPduPayload : Nat := 256
  window : UInt16 := 64
  tReorderMs : UInt32 := 40
  deriving DecidableEq, Repr

/-- `static_cast<int16_t>(sn - vr_next_)`. -/
def snOffset (sn vrNext : Nat) : Int :=
  let d := (sn + (snModulus - vrNext)) % snModulus
  if d < 32768 then (d : Int) else (d : Int) - snModulus

/-! ## Transmitter -/

structure UmTx where
  cfg : UmConfig
  nextSn : Nat := 0
  deriving DecidableEq, Repr

namespace UmTx

def buildPdu (seq : Nat) (fi : UInt8) (payload : Bytes) : Bytes := fi :: (putU16 seq ++ payload)

def txSegments : UmTx → List (UInt8 × Bytes) → UmTx × List Bytes
  | t, [] => (t, [])
  | t, seg :: rest =>
    let more := txSegments { t with nextSn := (t.nextSn + 1) % snModulus } rest
    (more.1, buildPdu t.nextSn seg.1 seg.2 :: more.2)

def tx (t : UmTx) (sdu : Bytes) : UmTx × List Bytes :=
  if sdu = [] then (t, []) else t.txSegments (segmentSdu sdu t.cfg.maxPduPayload)

def reset (t : UmTx) : UmTx := { t with nextSn := 0 }

end UmTx

/-! ## Receiver -/

structure UmRx where
  cfg : UmConfig
  vrNext : Nat := 0
  buffer : SnMap Held := ∅
  seen : SnSet := ∅
  ready : List Bytes := []
  collecting : Bool := false
  partialSdu : Bytes := []
  timerRunning : Bool := false
  timerDeadline : UInt32 := 0
  dropped : UInt32 := 0
  duplicates : UInt32 := 0
  deriving DecidableEq

namespace UmRx

/-- The forward distance inside the window, or nothing when behind or outside. -/
def ahead (r : UmRx) (sn : Nat) : Option Nat :=
  let d := snOffset sn r.vrNext
  if d ≥ 0 ∧ d < r.cfg.window.toNat then some d.toNat else none

def acceptInOrder (r : UmRx) (held : Held) : UmRx :=
  let r := { r with vrNext := (r.vrNext + 1) % snModulus }
  match fiKind held.fi with
  | .complete => { r with ready := r.ready ++ [held.payload] }
  | .first => { r with collecting := true, partialSdu := held.payload }
  | .last =>
    if r.collecting then
      { r with
        ready := r.ready ++ [r.partialSdu ++ held.payload], collecting := false, partialSdu := [] }
    else r
  | .middle => if r.collecting then { r with partialSdu := r.partialSdu ++ held.payload } else r

/-- The `while` loop of `deliver_ready`: every turn erases an entry of the hold area. -/
def deliverLoop : Nat → UmRx → UmRx
  | 0, r => r
  | fuel + 1, r =>
    match r.buffer[r.vrNext]? with
    | none => r
    | some held =>
      let accepted := r.acceptInOrder held
      deliverLoop fuel { accepted with buffer := accepted.buffer.erase r.vrNext }

def deliverReady (r : UmRx) : UmRx :=
  let r := deliverLoop r.buffer.size r
  if r.buffer.isEmpty then { r with timerRunning := false } else r

/-- The far-ahead jump: resynchronise at this sequence number. -/
def jumpAhead (r : UmRx) (sn : Nat) (held : Held) : UmRx :=
  let skipped := (sn + (snModulus - r.vrNext)) % snModulus
  let r := { r with
    dropped := r.dropped + UInt32.ofNat skipped
    vrNext := sn
    buffer := ∅
    collecting := false
    partialSdu := []
    timerRunning := false }
  (r.acceptInOrder held).deliverReady

/-- `rx` behind the header and duplicate checks. -/
def rxNew (r : UmRx) (nowMs : UInt32) (sn : Nat) (held : Held) : UmRx :=
  match r.ahead sn with
  | none =>
    if snOffset sn r.vrNext ≥ r.cfg.window.toNat then r.jumpAhead sn held
    else { r with duplicates := r.duplicates + 1 }
  | some 0 => (r.acceptInOrder held).deliverReady
  | some _ =>
    let r := { r with buffer := r.buffer.insert sn held }
    if r.timerRunning then r
    else { r with timerRunning := true, timerDeadline := nowMs + r.cfg.tReorderMs }

def rx (r : UmRx) (nowMs : UInt32) (pdu : Bytes) : UmRx :=
  if pdu.length < 4 then r
  else
    let sn := getU16 pdu 1
    if sn ∈ r.seen then { r with duplicates := r.duplicates + 1 }
    else
      { r with seen := AmRx.markSeen r.seen sn }.rxNew nowMs sn ⟨pdu.getD 0 0 &&& fiMask, pdu.drop 3⟩

/-- Skip every number below the one delivery resumes at. -/
def skipTo (r : UmRx) (resume : Nat) : UmRx :=
  let skipped := (resume + (snModulus - r.vrNext)) % snModulus
  if skipped > 0 then
    { r with
      dropped := r.dropped + UInt32.ofNat skipped
      vrNext := resume, collecting := false, partialSdu := [] }
  else r

def onReorderTimeout (r : UmRx) (nowMs : UInt32) : UmRx :=
  match r.buffer.minKey? with
  | none => r
  | some resume =>
    let r := (r.skipTo resume).deliverReady
    if r.buffer.isEmpty then r
    else { r with timerRunning := true, timerDeadline := nowMs + r.cfg.tReorderMs }

def tick (r : UmRx) (nowMs : UInt32) : UmRx :=
  if r.timerRunning ∧ (nowMs - r.timerDeadline).toNat < 2 ^ 31 then
    { r with timerRunning := false }.onReorderTimeout nowMs
  else r

def poll (r : UmRx) : UmRx × List Bytes := ({ r with ready := [] }, r.ready)

def reset (r : UmRx) : UmRx :=
  { r with
    vrNext := 0, buffer := ∅, seen := ∅, ready := [], collecting := false, partialSdu := []
    timerRunning := false, dropped := 0, duplicates := 0 }

end UmRx

end AetherStack.Source
