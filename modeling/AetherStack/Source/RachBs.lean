import AetherStack.Source.RachUe
import Std.Data.ExtTreeMap

/-!
# Random access of the base station

Source: stack/mac/src/rach_bs.cpp:10-69 and include/mac/rach_bs.h. As at the UE, what the
callbacks get is what a call returns beside the new entity, in order. The two look-ups at the end
of the file have no caller in a node and are left out.
-/
namespace AetherStack.Source.Mac

def cellForPreamble (p : UInt8) : Nat := p.toNat / 32 + 1

structure RachUeContext where
  raRnti : Nat := 0
  cRnti : Nat := 0
  preamble : UInt8 := 0
  rachComplete : Bool := false
  deriving DecidableEq, Repr

inductive RachBsOutput where
  | msg2 (pdu : Bytes)
  | msg4 (pdu : Bytes)
  | ccch (crnti : Nat) (payload : Bytes)
  deriving DecidableEq, Repr

structure RachBs where
  cellId : Nat := 1
  nextCrnti : Nat := 1
  ueContexts : Std.ExtTreeMap Nat RachUeContext := ∅

namespace RachBs

def msg2Pdu (raRnti : Nat) : Bytes := 2 :: (putU16 raRnti ++ [12, 5])

def msg4Pdu (crnti raRnti : Nat) : Bytes := 4 :: (putU16 crnti ++ putU16 raRnti)

/-- A preamble of another cell is not answered. -/
def onPrachReceived (r : RachBs) (preamble : UInt8) : RachBs × List RachBsOutput :=
  if cellForPreamble preamble ≠ r.cellId then (r, [])
  else
    let raRnti := raRntiForPreamble preamble
    ({ r with ueContexts := r.ueContexts.insert raRnti { raRnti := raRnti, preamble := preamble } },
      [.msg2 (msg2Pdu raRnti)])

/-- Every MSG3 of a known RA-RNTI takes a C-RNTI; its CCCH PDU, if it has one, goes up last. -/
def onMsg3Received (r : RachBs) (raRnti : Nat) (msg3 : Bytes) : RachBs × List RachBsOutput :=
  match r.ueContexts[raRnti]? with
  | none => (r, [])
  | some ctx =>
    let crnti := r.nextCrnti
    ({ r with
        nextCrnti := (r.nextCrnti + 1) % snModulus
        ueContexts := r.ueContexts.insert raRnti { ctx with cRnti := crnti, rachComplete := true } },
      .msg4 (msg4Pdu crnti raRnti) :: if msg3.length > 3 then [.ccch crnti (msg3.drop 3)] else [])

end RachBs

end AetherStack.Source.Mac
