import AetherStack.Source.RlcSegments

/-!
# RLC acknowledged mode: `AmTx` and `AmRx`

Source: stack/rlc/src/rlc_am.cpp:10-269 and include/rlc/rlc_am.h. Every member function is
a function from the old object to the new one and its return value. `std::map` and
`std::set` keyed by sequence number are extensional tree maps and sets, iterated in
ascending order as in the source. Clocks are `uint32_t` widened to `int64_t`, so
differences are taken in `Int`. Event counters that only feed the log are naturals.

`Outcome` carries two history fields the source does not have: the PDUs handed to
`accept_in_order` and the sequence numbers `tick` gave up. No function reads them.
-/
namespace AetherStack.Source

abbrev SnMap (β : Type) := Std.ExtTreeMap Nat β
abbrev SnSet := Std.ExtTreeSet Nat

structure AmConfig where
  maxPduPayload : Nat := 256
  txBufferLimit : Nat := 512
  pollEvery : UInt8 := 4
  tPollMs : UInt32 := 1000
  probeBatch : Nat := 8
  tReorderMs : UInt32 := 1000
  deriving DecidableEq, Repr

/-- `am_node_bearer_config`: the bearer preset of the node-level user plane. -/
def amNodeBearerConfig : AmConfig := { txBufferLimit := 64 }

def kAmDcData : UInt8 := 0x80
def kAmDcControl : UInt8 := 0x40
def kAmPollBit : UInt8 := 0x08
def kMaxHoles : Nat := 256
def kMaxReorder : Nat := 512
def kControlReserve : Nat := 4
def kMaxSeen : Nat := 8192

/-- A `uint32_t` clock reading as the `int64_t` it is widened to. -/
def clock (nowMs : UInt32) : Int := nowMs.toNat

/-! ## Transmitter -/

structure AmTx where
  cfg : AmConfig
  txBuffer : SnMap Bytes := ∅
  nextSn : Nat := 0
  sincePoll : UInt8 := 0
  retxs : Nat := 0
  txDropped : Nat := 0
  lastProgressMs : Int := -1
  lastNackBurstMs : Int := -1
  deriving DecidableEq

namespace AmTx

def buildPdu (seq : Nat) (fiWithPoll : UInt8) (payload : Bytes) : Bytes :=
  (kAmDcData ||| fiWithPoll) :: (putU16 seq ++ payload)

/-- One turn of the segmentation loop: poll counter, PDU, buffer, next number. -/
def txSegment (t : AmTx) (seg : UInt8 × Bytes) : AmTx × Bytes :=
  let sincePoll := t.sincePoll + 1
  let poll : Bool := sincePoll ≥ t.cfg.pollEvery
  let pdu := buildPdu t.nextSn (if poll then seg.1 ||| kAmPollBit else seg.1) seg.2
  ({ t with
      sincePoll := if poll then 0 else sincePoll
      txBuffer := t.txBuffer.insert t.nextSn pdu
      nextSn := (t.nextSn + 1) % snModulus }, pdu)

def txSegments : AmTx → List (UInt8 × Bytes) → AmTx × List Bytes
  | t, [] => (t, [])
  | t, seg :: rest =>
    let sent := t.txSegment seg
    let more := txSegments sent.1 rest
    (more.1, sent.2 :: more.2)

/-- The bound on unacknowledged PDUs, with the reserve for one-shot control SDUs. -/
def txLimit (t : AmTx) (force : Bool) : Nat :=
  (t.cfg.txBufferLimit + if force then kControlReserve else 0) % 2 ^ 64

def tx (t : AmTx) (nowMs : UInt32) (sdu : Bytes) (force : Bool) : AmTx × List Bytes :=
  if sdu = [] then (t, [])
  else if t.txBuffer.size ≥ t.txLimit force then ({ t with txDropped := t.txDropped + 1 }, [])
  else txSegments { t with lastProgressMs := clock nowMs } (segmentSdu sdu t.cfg.maxPduPayload)

/-- The fresh-bearer reset keeps the configuration and the two event counters. -/
def reset (t : AmTx) : AmTx :=
  { t with txBuffer := ∅, nextSn := 0, sincePoll := 0, lastProgressMs := -1, lastNackBurstMs := -1 }

/-- The probe: blind resend of the oldest unacknowledged PDUs. -/
def tick (t : AmTx) (nowMs : UInt32) : AmTx × List Bytes :=
  if t.cfg.tPollMs = 0 ∨ t.txBuffer.isEmpty then (t, [])
  else if t.lastProgressMs ≥ 0 ∧ clock nowMs - t.lastProgressMs < clock t.cfg.tPollMs then (t, [])
  else
    let out := (t.txBuffer.toList.map Prod.snd).take t.cfg.probeBatch
    ({ t with lastProgressMs := clock nowMs, retxs := t.retxs + out.length }, out)

/-- The sequence numbers in a STATUS, as many as its count octet and its length allow. -/
def nackList (status : Bytes) : List Nat :=
  ((List.range (status.getD 3 0).toNat).filter fun i => 4 + 2 * i + 1 < status.length).map
    fun i => getU16 status (4 + 2 * i)

def onStatus (t : AmTx) (nowMs : UInt32) (status : Bytes) : AmTx × List Bytes :=
  if status.length < 4 ∨ status.getD 0 0 ≠ kAmDcControl then (t, [])
  else
    let ackSn := getU16 status 1
    -- the cumulative acknowledgement compares sequence numbers as plain integers
    let kept := t.txBuffer.filter fun sn _ => ¬ sn < ackSn
    let burstAllowed : Bool :=
      t.lastNackBurstMs < 0 ∨ clock nowMs - t.lastNackBurstMs ≥ clock t.cfg.tPollMs
    if burstAllowed ∧ (status.getD 3 0).toNat > 0 then
      let retx := ((nackList status).filterMap (kept[·]?)).take t.cfg.probeBatch
      ({ t with
          txBuffer := kept
          lastNackBurstMs := clock nowMs
          retxs := t.retxs + retx.length
          lastProgressMs := clock nowMs }, retx)
    else ({ t with txBuffer := kept, lastProgressMs := clock nowMs }, [])

end AmTx

/-! ## Receiver -/

/-- `AmRx::Held`: a PDU without its sequence number and poll bit. -/
structure Held where
  fi : UInt8
  payload : Bytes
  deriving DecidableEq, Repr

structure AmRx where
  cfg : AmConfig
  vrNext : Nat := 0
  seen : SnSet := ∅
  holes : SnSet := ∅
  reorder : SnMap Held := ∅
  collecting : Bool := false
  partialSdu : Bytes := []
  gaps : Nat := 0
  overflows : Nat := 0
  accepts : Nat := 0
  tickAccepts : Nat := 0
  lastProgressMs : Int := -1
  deriving DecidableEq

/-- `AmRx::Outcome` with the history of what the call accepted and gave up. -/
structure AmOutcome where
  delivered : List Bytes := []
  statusNeeded : Bool := false
  accepted : List (Nat × Held) := []
  lost : List Nat := []
  deriving DecidableEq, Repr

/-- The header fields `AmRx::rx` reads from a data PDU. -/
structure AmDataPdu where
  fi : UInt8
  poll : Bool
  seq : Nat
  payload : Bytes
  deriving DecidableEq, Repr

/-- The header checks at the top of `AmRx::rx`. -/
def decodeData (pdu : Bytes) : Option AmDataPdu :=
  if pdu.length < 3 then none
  else
    let b0 := pdu.getD 0 0
    if b0 &&& 0xC0 ≠ kAmDcData then none
    else some {
      fi := b0 &&& fiMask
      poll := b0 &&& kAmPollBit ≠ 0
      seq := getU16 pdu 1
      payload := pdu.drop 3 }

namespace AmRx

def acceptInOrder (r : AmRx) (sn : Nat) (held : Held) (out : AmOutcome) : AmRx × AmOutcome :=
  let r := { r with
    holes := r.holes.erase sn
    accepts := r.accepts + 1
    vrNext := (r.vrNext + 1) % snModulus }
  let out := { out with accepted := out.accepted ++ [(sn, held)] }
  match fiKind held.fi with
  | .complete => (r, { out with delivered := out.delivered ++ [held.payload] })
  | .first => ({ r with collecting := true, partialSdu := held.payload }, out)
  | .last =>
    if r.collecting then
      ({ r with collecting := false, partialSdu := [] },
        { out with delivered := out.delivered ++ [r.partialSdu ++ held.payload] })
    else (r, out)
  | .middle =>
    if r.collecting then ({ r with partialSdu := r.partialSdu ++ held.payload }, out)
    else (r, out)

/-- The `while` loop of `drain_reorder`: every turn erases an entry of the hold area. -/
def drainLoop : Nat → AmRx → AmOutcome → AmRx × AmOutcome
  | 0, r, out => (r, out)
  | fuel + 1, r, out =>
    match r.reorder[r.vrNext]? with
    | none => (r, out)
    | some held =>
      let next := r.acceptInOrder r.vrNext held out
      drainLoop fuel { next.1 with reorder := next.1.reorder.erase r.vrNext } next.2

def drainReorder (r : AmRx) (out : AmOutcome) : AmRx × AmOutcome :=
  drainLoop r.reorder.size r out

/-- Progress bookkeeping of `tick`: the accept counter moved since the last one. -/
def noteProgress (r : AmRx) (now : Int) : AmRx :=
  if r.accepts ≠ r.tickAccepts then { r with tickAccepts := r.accepts, lastProgressMs := now }
  else r

def tick (r : AmRx) (nowMs : UInt32) : AmRx × AmOutcome :=
  if r.cfg.tReorderMs = 0 then (r, {})
  else
    let r := r.noteProgress (clock nowMs)
    if r.holes.isEmpty ∨ r.lastProgressMs < 0 ∨
        clock nowMs - r.lastProgressMs < clock r.cfg.tReorderMs then (r, {})
    else
      let skipped := { r with
        vrNext := r.holes.toList.foldl (fun _ h => (h + 1) % snModulus) r.vrNext
        holes := ∅
        collecting := false
        partialSdu := []
        lastProgressMs := clock nowMs }
      let drained := skipped.drainReorder { lost := r.holes.toList }
      (drained.1, { drained.2 with statusNeeded := true })

/-- `seen_.insert(seq)` followed by the memory bound: the smallest number goes. -/
def markSeen (seen : SnSet) (seq : Nat) : SnSet :=
  let seen := seen.insert seq
  if seen.size > kMaxSeen then
    match seen.min? with
    | some smallest => seen.erase smallest
    | none => seen
  else seen

/-- The `for` loop over the skipped numbers, `count` of them from `sn` on. The third
component says whether the body ran at all. -/
def recordHoles : Nat → Nat → SnSet × Nat × Bool → SnSet × Nat × Bool
  | 0, _, acc => acc
  | count + 1, sn, (holes, gaps, needed) =>
    if holes.size < kMaxHoles then recordHoles count (sn + 1) (holes.insert sn, gaps + 1, true)
    else (holes, gaps, needed)

/-- A PDU ahead of the window edge: its gap becomes holes and it waits, or overflows. -/
def holdAhead (r : AmRx) (d : AmDataPdu) : AmRx × AmOutcome :=
  let recorded := recordHoles (d.seq - r.vrNext) r.vrNext (r.holes, r.gaps, false)
  let r := { r with holes := recorded.1, gaps := recorded.2.1 }
  let out : AmOutcome := { statusNeeded := recorded.2.2 }
  if r.reorder.size < kMaxReorder then
    ({ r with reorder := r.reorder.insert d.seq ⟨d.fi, d.payload⟩ }, out)
  else ({ r with overflows := r.overflows + 1 }, out)

def acceptAndDrain (r : AmRx) (d : AmDataPdu) : AmRx × AmOutcome :=
  let accepted := r.acceptInOrder d.seq ⟨d.fi, d.payload⟩ {}
  accepted.1.drainReorder accepted.2

/-- `AmRx::rx` behind the header checks. A duplicate or stale PDU returns before the
poll bit is looked at. -/
def rxData (r : AmRx) (d : AmDataPdu) : AmRx × AmOutcome :=
  if d.seq ∈ r.seen then (r, {})
  else
    let r := { r with seen := markSeen r.seen d.seq }
    if d.seq < r.vrNext then (r, {})
    else
      let handled := if d.seq > r.vrNext then r.holdAhead d else r.acceptAndDrain d
      if d.poll then (handled.1, { handled.2 with statusNeeded := true }) else handled

def rx (r : AmRx) (pdu : Bytes) : AmRx × AmOutcome :=
  match decodeData pdu with
  | none => (r, {})
  | some d => r.rxData d

/-- The fresh-bearer reset keeps the configuration and the two event counters. -/
def reset (r : AmRx) : AmRx :=
  { r with
    vrNext := 0, seen := ∅, holes := ∅, reorder := ∅, collecting := false, partialSdu := []
    accepts := 0, tickAccepts := 0, lastProgressMs := -1 }

/-- The count is one octet: 256 holes are announced as zero. -/
def buildStatus (r : AmRx) : Bytes :=
  kAmDcControl :: (putU16 r.vrNext ++
    (UInt8.ofNat r.holes.size :: r.holes.toList.flatMap putU16))

end AmRx

/-! ## The wire format read back -/

/-- `rx` reads back the fields of a built PDU; the sequence number modulo `2 ^ 16`. -/
theorem decodeData_buildPdu (seq : Nat) (fi : UInt8) (poll : Bool) (payload : Bytes)
    (hfi : fi = 0x00 ∨ fi = 0x10 ∨ fi = 0x20 ∨ fi = 0x30) :
    decodeData (AmTx.buildPdu seq (if poll then fi ||| kAmPollBit else fi) payload) =
      some ⟨fi, poll, seq % snModulus, payload⟩ := by
  have hseq : ∀ b : UInt8, getU16 (b :: (putU16 seq ++ payload)) 1 = seq % snModulus :=
    fun b => getU16_putU16 [b] payload seq
  have hbits : (kAmDcData ||| if poll then fi ||| kAmPollBit else fi) &&& 0xC0 = kAmDcData ∧
      (kAmDcData ||| if poll then fi ||| kAmPollBit else fi) &&& fiMask = fi ∧
      decide ((kAmDcData ||| if poll then fi ||| kAmPollBit else fi) &&& kAmPollBit ≠ 0) =
        poll := by
    rcases hfi with rfl | rfl | rfl | rfl <;> cases poll <;> decide
  obtain ⟨hdc, hfield, hpoll⟩ := hbits
  simp only [decodeData, AmTx.buildPdu, List.getD_cons_zero, hdc, hfield, hpoll, hseq]
  simp [putU16]

/-- The cumulative acknowledgement of a STATUS is the window edge it was built at. -/
theorem getU16_buildStatus (r : AmRx) : getU16 r.buildStatus 1 = r.vrNext % snModulus :=
  getU16_putU16 [kAmDcControl] _ _

end AetherStack.Source
