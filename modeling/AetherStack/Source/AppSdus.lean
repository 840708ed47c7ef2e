import AetherStack.Source.UeCore
import AetherStack.Source.U2u

/-!
# Application SDUs at the UE

Source: stack/core/src/ue_node.cpp:390-405 and 782-809. What a bearer hands up is a packet of
another UE or, failing that, the echo of a ping. The counts of the pings are kept here. The sweep
that gives up a ping after three seconds and counts it as lost (lines 453-466) is left out: an
echo that comes later than that is not counted.
-/
namespace AetherStack.Source.Core

/-- `app_tx_time_` with the counters of the answered pings. The round-trip times are `int64_t`. -/
structure PingLedger where
  txSeq : UInt32 := 0
  txTime : Std.ExtTreeMap UInt32 UInt32 := ∅
  rxCount : UInt32 := 0
  lastRttMs : Int := -1
  rttSamples : UInt32 := 0
  rttMinMs : Int := 9223372036854775807
  rttMaxMs : Int := 0
  rttSumMs : Int := 0

/-- The SDU of one ping. -/
def pingSdu (seq : UInt32) (payload : Bytes) : Bytes := putU32 seq.toNat ++ payload

namespace PingLedger

/-- The part of `send_app_data` that is not the bearer's. -/
def send (l : PingLedger) (nowMs : UInt32) : PingLedger :=
  { l with txSeq := l.txSeq + 1, txTime := l.txTime.insert (l.txSeq + 1) nowMs }

/-- An echo is counted while its ping waits, so a second one is not. -/
def handlePong (l : PingLedger) (nowMs : UInt32) (data : Bytes) : PingLedger :=
  if data.length < 4 then l
  else
    let seq := UInt32.ofNat (getU32 data 0)
    match l.txTime[seq]? with
    | none => l
    | some sent =>
      let rtt : Int := nowMs.toNat - sent.toNat
      { l with
        txTime := l.txTime.erase seq, rxCount := l.rxCount + 1, lastRttMs := rtt
        rttSamples := l.rttSamples + 1, rttSumMs := l.rttSumMs + rtt
        rttMinMs := min l.rttMinMs rtt, rttMaxMs := max l.rttMaxMs rtt }

end PingLedger

/-- `handle_app_sdu`: the ledger behind it, and the packet it gives to `handle_u2u`. -/
def handleAppSdu (l : PingLedger) (nowMs : UInt32) (data : Bytes) : PingLedger × Option U2uPacket :=
  match decodeU2u data with
  | some pkt => (l, some pkt)
  | none => (l.handlePong nowMs data, none)

theorem length_pingSdu (seq : UInt32) (payload : Bytes) : (pingSdu seq payload).length = 4 + payload.length := by
  rw [pingSdu, List.length_append, length_putU32]

end AetherStack.Source.Core
