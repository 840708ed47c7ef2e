import AetherStack.Source.Bytes

/-!
# Forward error correction and the block checksum

Source: stack/phy/src/fec.cpp:10-188. Convolutional code K = 7, rate 1/2 (133o/171o), with a
hard-decision Viterbi decoder, and CRC16-CCITT. Bit vectors are `std::vector<uint8_t>`
in the source and lists of octets here; a bit is any octet, zero or not. The decoder's
tables are lists of 64 entries. `int` metrics are naturals: they are at most twice the
number of steps.
-/
namespace AetherStack.Source

namespace Fec

/-- K = 7: the K - 1 previous input bits. -/
def numStates : Nat := 64

def tailBits : Nat := 6

def g1 : Nat := 0o133
def g2 : Nat := 0o171

/-- `parity` by halving the word, as the source folds it. -/
def parity (v : Nat) : Nat :=
  let v := v ^^^ (v >>> 16)
  let v := v ^^^ (v >>> 8)
  let v := v ^^^ (v >>> 4)
  let v := v ^^^ (v >>> 2)
  let v := v ^^^ (v >>> 1)
  v &&& 1

/-- The register of the encoder: the input bit above the state. -/
def register (s input : Nat) : Nat := (input <<< 6) ||| s

def trellisNext (s input : Nat) : Nat := register s input >>> 1

def trellisOut (s input : Nat) : Nat :=
  (parity (register s input &&& g1) <<< 1) ||| parity (register s input &&& g2)

/-! ## CRC16-CCITT -/

def crcBit (crc : UInt16) : UInt16 :=
  if crc &&& 0x8000 ≠ 0 then (crc <<< 1) ^^^ 0x1021 else crc <<< 1

def crcByte (crc : UInt16) (byte : UInt8) : UInt16 :=
  (List.range 8).foldl (fun crc _ => crcBit crc) (crc ^^^ (byte.toUInt16 <<< 8))

def crc16 (data : Bytes) : UInt16 := data.foldl crcByte 0xFFFF

def crcAttach (payload : Bytes) : Bytes := payload ++ putU16 (crc16 payload).toNat

/-- `crc_verify_strip`: the payload, when the last two octets are its checksum. -/
def crcVerifyStrip (block : Bytes) : Option Bytes :=
  if block.length < 2 then none
  else
    let payload := block.take (block.length - 2)
    if (crc16 payload).toNat = getU16 block (block.length - 2) then some payload else none

/-! ## Encoder -/

/-- One `emit`: the two coded bits, and the next state. -/
def emit (st : Nat × Bytes) (input : Nat) : Nat × Bytes :=
  (trellisNext st.1 input,
    st.2 ++ [UInt8.ofNat (trellisOut st.1 input >>> 1), UInt8.ofNat (trellisOut st.1 input &&& 1)])

def fecEncode (bits : Bytes) : Bytes :=
  ((bits.map fun b => if b ≠ 0 then 1 else 0) ++ List.replicate tailBits 0).foldl emit (0, []) |>.2

/-! ## Decoder -/

inductive DecodeError where
  | invalidArgument | lengthError
  deriving DecidableEq, Repr

def inf : Nat := 0x3FFFFFFF

/-- One received pair with the weights of its two positions. -/
structure Received where
  r0 : Nat
  r1 : Nat
  w0 : Nat
  w1 : Nat
  deriving DecidableEq, Repr

/-- Distance between a received pair and a branch output. -/
def branchMetric (r : Received) (s input : Nat) : Nat :=
  (if r.r0 ^^^ (trellisOut s input >>> 1) ≠ 0 then r.w0 else 0) +
    (if r.r1 ^^^ (trellisOut s input &&& 1) ≠ 0 then r.w1 else 0)

/-- The metrics of the next step and the predecessors of their survivors. -/
structure Front where
  metric : List Nat
  pred : List Nat
  deriving DecidableEq, Repr

def Front.start : Front := ⟨List.replicate numStates inf, List.replicate numStates 0⟩

/-- One branch of the trellis: it replaces the survivor when strictly better. -/
def relax (pm : List Nat) (r : Received) (front : Front) (branch : Nat × Nat) : Front :=
  let (s, input) := branch
  if pm.getD s inf ≥ inf then front
  else
    let ns := trellisNext s input
    let cand := pm.getD s inf + branchMetric r s input
    if cand < front.metric.getD ns inf then
      ⟨front.metric.set ns cand, front.pred.set ns s⟩
    else front

/-- All branches in the order of the two nested loops. -/
def branches : List (Nat × Nat) := (List.range numStates).flatMap fun s => [(s, 0), (s, 1)]

def viterbiStep (pm : List Nat) (r : Received) : Front := branches.foldl (relax pm r) Front.start

/-- The forward pass: final metrics, and the predecessor tables, latest step first. -/
def forward : List Nat → List (List Nat) → List Received → List Nat × List (List Nat)
  | pm, hist, [] => (pm, hist)
  | pm, hist, r :: rest =>
    let front := viterbiStep pm r
    forward front.metric (front.pred :: hist) rest

/-- The first state with the lowest metric. -/
def bestState (pm : List Nat) : Nat :=
  (List.range numStates).foldl (fun best s => if pm.getD s inf < pm.getD best inf then s else best) 0

/-- The traceback: the input into a state is its top bit. -/
def traceback : List (List Nat) → Nat → Bytes → Bytes
  | [], _, acc => acc
  | pred :: hist, s, acc => traceback hist (pred.getD s 0) (UInt8.ofNat ((s >>> 5) &&& 1) :: acc)

/-- The received pairs; an erased position (mark 2) weighs nothing. -/
def receivedPairs : Bytes → Option Bytes → List Received
  | c0 :: c1 :: rest, soft =>
    let weight (i : Nat) := match soft with
      | none => 1
      | some marks => if marks.getD i 0 = 2 then 0 else 1
    ⟨if c0 > 0 then 1 else 0, if c1 > 0 then 1 else 0, weight 0, weight 1⟩ ::
      receivedPairs rest (soft.map (List.drop 2))
  | _, _ => []

/-- `fec_decode`. The final `resize` to `n_steps - 6` underflows and throws when there
are fewer than six steps. -/
def fecDecode (coded : Bytes) (soft : Option Bytes) : Except DecodeError Bytes :=
  if coded.length % 2 ≠ 0 ∨ coded = [] then .error .invalidArgument
  else
    let steps := coded.length / 2
    let start := 0 :: List.replicate (numStates - 1) inf
    let (pm, hist) := forward start [] (receivedPairs coded soft)
    let inputs := traceback hist (bestState pm) []
    if steps < tailBits then .error .lengthError
    else .ok (inputs.take (steps - tailBits))

/-! ## Bytes and bits, LSB first -/

def byteBits (byte : UInt8) : Bytes :=
  (List.range 8).map fun i => (byte >>> UInt8.ofNat i) &&& 1

def bytesToBits (bytes : Bytes) : Bytes := bytes.flatMap byteBits

/-- One octet from at most eight bits. -/
def bitsByte (bits : Bytes) : UInt8 :=
  (List.range bits.length).foldl
    (fun acc i => acc ||| ((if bits.getD i 0 ≠ 0 then 1 else 0) <<< UInt8.ofNat i)) 0

def bitsToBytesLoop : Nat → Bytes → Bytes
  | 0, _ => []
  | count + 1, bits => bitsByte (bits.take 8) :: bitsToBytesLoop count (bits.drop 8)

def bitsToBytes (bits : Bytes) : Except DecodeError Bytes :=
  if bits.length % 8 ≠ 0 then .error .invalidArgument
  else .ok (bitsToBytesLoop (bits.length / 8) bits)

end Fec

end AetherStack.Source
