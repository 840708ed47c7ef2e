import AetherStack.Source.Bytes

/-!
# Random access of the user equipment

Source: stack/mac/src/rach_ue.cpp:12-121 and include/mac/rach_ue.h, rach_common.h. The state and
send callbacks are what a call returns beside the new entity, in order: the entity is in
its new state before anything is sent. The payload of the MSG3 provider is an argument.
-/
namespace AetherStack.Source.Mac

/-- Preambles 0-31 address cell 1, 32-63 cell 2. -/
def preambleForCell (base : UInt8) (cellId : Nat) : UInt8 :=
  (if cellId ≥ 2 then 32 else 0) + (base &&& 0x1F)

def raRntiForPreamble (p : UInt8) : Nat := 0x4300 ||| p.toNat

inductive RachState where
  | idle | waitRar | waitContentionResolve | connected
  deriving DecidableEq, Repr

inductive RachOutput where
  | state (new : RachState)
  | msg1 (pdu : Bytes)
  | msg3 (pdu : Bytes)
  deriving DecidableEq, Repr

structure RachUe where
  preambleIndex : UInt8 := 10
  maxPreambleTransmissions : UInt8 := 3
  state : RachState := .idle
  assignedRaRnti : Nat := 0
  assignedCrnti : Nat := 0
  preambleTxCount : UInt8 := 0
  deriving DecidableEq, Repr

namespace RachUe

def msg1 (r : RachUe) : RachOutput := .msg1 [1, r.preambleIndex]

def startRach (r : RachUe) : RachUe × List RachOutput :=
  if r.state ≠ .idle then (r, [])
  else
    ({ r with state := .waitRar, preambleTxCount := 1, assignedRaRnti := 0, assignedCrnti := 0 },
      [.state .waitRar, r.msg1])

/-- Only the RAR that answers the UE's own preamble counts. -/
def onRarReceived (r : RachUe) (raRnti : Nat) (ccch : Bytes) : RachUe × List RachOutput :=
  if r.state ≠ .waitRar ∨ raRnti ≠ raRntiForPreamble r.preambleIndex then (r, [])
  else
    ({ r with state := .waitContentionResolve, assignedRaRnti := raRnti },
      [.state .waitContentionResolve, .msg3 (3 :: (putU16 raRnti ++ ccch))])

def onContentionResolve (r : RachUe) (crnti raRnti : Nat) : RachUe × List RachOutput :=
  if r.state ≠ .waitContentionResolve ∨ raRnti ≠ r.assignedRaRnti then (r, [])
  else ({ r with state := .connected, assignedCrnti := crnti }, [.state .connected])

def onRarTimeout (r : RachUe) : RachUe × List RachOutput :=
  if r.state ≠ .waitRar then (r, [])
  else if r.preambleTxCount + 1 ≤ r.maxPreambleTransmissions then
    ({ r with preambleTxCount := r.preambleTxCount + 1 }, [r.msg1])
  else ({ r with state := .idle, preambleTxCount := 0 }, [.state .idle])

def onContentionResolveTimeout (r : RachUe) : RachUe × List RachOutput :=
  if r.state ≠ .waitContentionResolve then (r, [])
  else ({ r with state := .idle }, [.state .idle])

def forceIdle (r : RachUe) : RachUe × List RachOutput :=
  if r.state = .idle then (r, []) else ({ r with state := .idle }, [.state .idle])

end RachUe

end AetherStack.Source.Mac
