import AetherStack.Source.U2u

/-!
# Media streams of a `UeNode`

Source: stack/core/src/ue_node.cpp:873-939, 1155-1195, 1275-1323 and 1446-1612, and the payloads
of stack/app/src/u2u.cpp. Of a dialog the streams read whether it is established; the call control
of `SipUe` moves dialogs on its own, so here an event may set the dialogs to anything, and what
holds of every run holds of those that the call control can make. When a stream's timer or the
sweep fires is left to the run, and so is the routing of what `send_u2u` is given.

`id`, `sent` and `serial` are not in the source and no function reads them: they name a stream
and number its packets without wrapping.
-/
namespace AetherStack.Source.Core

/-- An entry of `ack_pending`. -/
structure PendingAck where
  seq : UInt32
  txMs : UInt32
  serial : Nat
  deriving DecidableEq, Repr

structure OutStream where
  kind : MediaKind
  peer : Imsi
  confId : Nat := 0
  seq : UInt32 := 0
  tx : UInt32 := 0
  rxAck : UInt32 := 0
  loss : UInt32 := 0
  rttSum : Int := 0
  rttN : UInt32 := 0
  maxAckSeq : UInt32 := 0
  ackPending : List PendingAck := []
  id : Nat
  sent : Nat := 0
  deriving DecidableEq, Repr

structure InStream where
  kind : MediaKind
  peer : Imsi
  confId : Nat := 0
  rx : UInt32 := 0
  loss : UInt32 := 0
  ackTx : UInt32 := 0
  expectedSeq : UInt32 := 0
  deriving DecidableEq, Repr

/-- What the streams read of a dialog. -/
structure MediaDialog where
  peer : Imsi
  kind : MediaKind
  confId : Nat := 0
  established : Bool := false
  logDone : Bool := false
  deriving DecidableEq, Repr

structure MediaUe where
  imsi : Imsi
  nowMs : UInt32 := 0
  dialogs : List MediaDialog := []
  outStreams : List OutStream := []
  inStreams : List InStream := []
  nextStream : Nat := 0
  deriving DecidableEq, Repr

/-- `media_profile`, the size of a packet. -/
def mediaPayloadBytes : MediaKind → Nat
  | .voice => 160
  | .video => 512
  | .msg | .sig => 0

/-- The product wraps before the index is added. -/
def makeMediaPayload (kind : MediaKind) (seq : UInt32) : Bytes :=
  let base := if kind = .video then 0x30 else 0x60
  (List.range (mediaPayloadBytes kind)).map fun i => UInt8.ofNat (base + (i + (seq * 7).toNat) % 26)

namespace OutStream

/-- `send_media_tick`: the packet waits for its ack under its number. -/
def sendTick (s : OutStream) (nowMs : UInt32) : OutStream :=
  let seq := s.seq + 1
  { s with
    seq := seq, tx := s.tx + 1, sent := s.sent + 1
    ackPending := ⟨seq, nowMs, s.sent + 1⟩ :: s.ackPending.filter fun e => e.seq ≠ seq }

/-- The packet of a tick, from the stream behind it. -/
def tickPacket (s : OutStream) (imsi : Imsi) (nowMs : UInt32) : U2uPacket where
  kind := s.kind
  seq := s.seq.toNat
  timestampMs := nowMs.toNat
  srcImsi := imsi
  dstImsi := if s.confId ≠ 0 then [] else s.peer
  confId := s.confId
  payload := makeMediaPayload s.kind s.seq

def findPending (s : OutStream) (seq : UInt32) : Option PendingAck := s.ackPending.find? fun e => e.seq = seq

/-- The ack branch of `handle_u2u`. -/
def onAck (s : OutStream) (nowMs seq : UInt32) : OutStream :=
  let s := { s with maxAckSeq := max s.maxAckSeq seq }
  match s.findPending seq with
  | none => s
  | some e =>
    { s with
      ackPending := s.ackPending.erase e, rxAck := s.rxAck + 1
      rttSum := s.rttSum + (nowMs.toNat - e.txMs.toNat), rttN := s.rttN + 1 }

/-- The `int32_t` comparison of the sweep. -/
def expired (nowMs : UInt32) (e : PendingAck) : Bool := (nowMs - e.txMs).toInt32 ≥ 3000

/-- One turn of the loop of `sweep_stream_acks` over the pending acks. -/
def sweepEntry (nowMs : UInt32) (s : OutStream) (e : PendingAck) : OutStream :=
  if expired nowMs e then
    let s := { s with ackPending := s.ackPending.erase e }
    if e.seq ≤ s.maxAckSeq then { s with rxAck := s.rxAck + 1 } else { s with loss := s.loss + 1 }
  else s

def sweep (nowMs : UInt32) (s : OutStream) : OutStream := s.ackPending.foldl (sweepEntry nowMs) s

end OutStream

/-- A packet in its stream; a gap before it is loss. -/
def InStream.count (s : InStream) (seq : UInt32) : InStream :=
  let s := if seq ≥ s.expectedSeq then
    { s with loss := s.loss + (seq - s.expectedSeq), expectedSeq := seq + 1 } else s
  { s with rx := s.rx + 1, ackTx := s.ackTx + 1 }

namespace MediaUe

def findMediaDialog (u : MediaUe) (peer : Imsi) (kind : MediaKind) : Option Nat :=
  u.dialogs.findIdx? fun d => d.peer = peer ∧ d.kind = kind ∧ d.established

def findConfDialog (u : MediaUe) (confId : Nat) : Option Nat :=
  u.dialogs.findIdx? fun d => d.confId = confId ∧ d.established

def hasConfDialog (u : MediaUe) (confId : Nat) : Bool := u.dialogs.any fun d => d.confId = confId

def findOutStream (u : MediaUe) (peer : Imsi) (kind : MediaKind) : Option Nat :=
  u.outStreams.findIdx? fun s => s.confId = 0 ∧ s.peer = peer ∧ s.kind = kind

def findConfOutStream (u : MediaUe) (confId : Nat) : Option Nat :=
  u.outStreams.findIdx? fun s => s.confId = confId

def findInStream (u : MediaUe) (peer : Imsi) (kind : MediaKind) (confId : Nat) : Option Nat :=
  u.inStreams.findIdx? fun s => s.peer = peer ∧ s.kind = kind ∧ s.confId = confId

/-- `out_streams_.push_back`. -/
def pushOut (u : MediaUe) (kind : MediaKind) (peer : Imsi) (confId : Nat) : MediaUe :=
  { u with
    outStreams := u.outStreams ++ [{ kind := kind, peer := peer, confId := confId, id := u.nextStream }]
    nextStream := u.nextStream + 1 }

/-- "conf" is the label of a conference in the statistics. -/
def ensureConfMedia (u : MediaUe) (confId : Nat) : MediaUe :=
  if (u.findConfOutStream confId).isSome then u else u.pushOut .voice [0x63, 0x6f, 0x6e, 0x66] confId

/-- `begin_media` without its dialog. -/
def beginMedia (u : MediaUe) (d : MediaDialog) : MediaUe :=
  if d.confId ≠ 0 then u.ensureConfMedia d.confId else u.pushOut d.kind d.peer 0

/-- `erase_dialog` when `d` is gone from the dialogs. A conference stream dies with the last
dialog of its conference. -/
def eraseStreams (u : MediaUe) (d : MediaDialog) : MediaUe :=
  let confSurvives := d.confId ≠ 0 ∧ u.hasConfDialog d.confId
  { u with
    outStreams := u.outStreams.filter fun s =>
      ¬ if d.confId ≠ 0 then s.confId = d.confId ∧ ¬ confSurvives
        else s.confId = 0 ∧ s.peer = d.peer ∧ s.kind = d.kind
    inStreams := u.inStreams.filter fun s =>
      ¬ if d.confId ≠ 0 then s.confId = d.confId ∧ (s.peer = d.peer ∨ ¬ confSurvives)
        else s.confId = 0 ∧ s.peer = d.peer ∧ s.kind = d.kind }

/-- The callback of a media timer, with the packet it sends. -/
def sendMediaTick (u : MediaUe) (target : Option Nat) : MediaUe × Option U2uPacket :=
  match target.bind fun i => (u.outStreams[i]?).map fun s => (i, s.sendTick u.nowMs) with
  | none => (u, none)
  | some (i, s) => ({ u with outStreams := u.outStreams.set i s }, some (s.tickPacket u.imsi u.nowMs))

/-- The stream an ack is for. -/
def ackedStream (u : MediaUe) (pkt : U2uPacket) : Option Nat :=
  if pkt.confId ≠ 0 then u.findConfOutStream pkt.confId else u.findOutStream pkt.srcImsi pkt.kind

/-- The first packet of a stream opens it. Media proves the dialog at `i` established, when the
ACK was lost. -/
def openInStream (u : MediaUe) (i : Nat) (pkt : U2uPacket) : MediaUe :=
  let new : InStream :=
    { kind := pkt.kind, peer := pkt.srcImsi, confId := pkt.confId, expectedSeq := UInt32.ofNat pkt.seq }
  let u := { u with inStreams := u.inStreams ++ [new] }
  match u.dialogs[i]? with
  | none => u
  | some d =>
    if d.logDone then u
    else
      let u := { u with dialogs := u.dialogs.set i { d with logDone := true } }
      if d.confId ≠ 0 then u.ensureConfMedia d.confId else u

/-- A media packet inside the dialog at `i`, with its answer. -/
def acceptMedia (u : MediaUe) (i : Nat) (pkt : U2uPacket) : MediaUe × U2uPacket :=
  let u := if (u.findInStream pkt.srcImsi pkt.kind pkt.confId).isSome then u else u.openInStream i pkt
  let inStreams := match u.findInStream pkt.srcImsi pkt.kind pkt.confId with
    | none => u.inStreams
    | some j => u.inStreams.modify j fun s => s.count (UInt32.ofNat pkt.seq)
  ({ u with inStreams := inStreams },
    { kind := pkt.kind, ack := true, seq := pkt.seq, timestampMs := u.nowMs.toNat, srcImsi := u.imsi
      dstImsi := pkt.srcImsi, confId := pkt.confId })

/-- `handle_u2u`, with the ack it sends. Messages and signalling touch no stream. -/
def handleU2u (u : MediaUe) (pkt : U2uPacket) : MediaUe × Option U2uPacket :=
  if pkt.srcImsi = u.imsi then (u, none)
  else if pkt.ack then
    match u.ackedStream pkt with
    | none => (u, none)
    | some i =>
      ({ u with outStreams := u.outStreams.modify i fun s => s.onAck u.nowMs (UInt32.ofNat pkt.seq) }, none)
  else if pkt.ending then
    match u.findInStream pkt.srcImsi pkt.kind 0 with
    | none => (u, none)
    | some i => ({ u with inStreams := u.inStreams.eraseIdx i }, none)
  else if pkt.kind = .msg ∨ pkt.kind = .sig then (u, none)
  else
    match if pkt.confId ≠ 0 then u.findConfDialog pkt.confId else u.findMediaDialog pkt.srcImsi pkt.kind with
    | none => (u, none)
    | some i =>
      let accepted := u.acceptMedia i pkt
      (accepted.1, some accepted.2)

def sweepStreamAcks (u : MediaUe) : MediaUe :=
  { u with outStreams := u.outStreams.map (OutStream.sweep u.nowMs) }

end MediaUe

end AetherStack.Source.Core
