import AetherStack.Source.Fec

/-!
# HARQ: `HarqTx`, `HarqRx` and the transport-block codec

Source: stack/core/src/harq.cpp:12-236 and include/core/harq.h. Process numbers, retransmission
counts and the new-data indicator are `uint8_t`; the process table is indexed by number.
Exceptions are values: `link_decode_bits` catches `std::invalid_argument` only, so any
other one leaves `receive`. The log and its copy `crc_block` are left out.
-/
namespace AetherStack.Source
open Fec

/-! ## Wire format -/

structure HarqHeader where
  proc : UInt8 := 0
  ndi : UInt8 := 1
  rv : UInt8 := 0
  len : Nat := 0
  infoLen : Nat := 0
  deriving DecidableEq, Repr

def HarqHeader.size : Nat := 7

def HarqHeader.pack (h : HarqHeader) : Bytes :=
  [(h.proc &&& 0x7F) ||| (if h.ndi ≠ 0 then 0x80 else 0), h.rv] ++ putU16 h.len ++
    putU16 h.infoLen ++ [0xA9]

def HarqHeader.unpack (buf : Bytes) : Option HarqHeader :=
  if buf.length < HarqHeader.size ∨ buf.getD 6 0 ≠ 0xA9 then none
  else some {
    proc := buf.getD 0 0 &&& 0x7F
    ndi := (buf.getD 0 0 >>> 7) &&& 1
    rv := buf.getD 1 0
    len := getU16 buf 2
    infoLen := getU16 buf 4 }

def isHarqFramed (buf : Bytes) : Bool := buf.length ≥ HarqHeader.size ∧ buf.getD 6 0 = 0xA9

/-- Coded bits that carry information, without the alignment padding. -/
def validCodedBits (h : HarqHeader) : Nat := (h.infoLen * 8 + 6) * 2

/-! ## Codec -/

/-- `while (coded_bits.size() % 8 != 0) push_back(0)`. -/
def padToByte (bits : Bytes) : Bytes := bits ++ List.replicate ((8 - bits.length % 8) % 8) 0

/-- The coded octets of a transport block. Both lengths are stored in 16 bits. -/
def codedBytes (block : Bytes) : Bytes :=
  let padded := padToByte (fecEncode (bytesToBits block))
  bitsToBytesLoop (padded.length / 8) padded

def linkEncode (macPdu : Bytes) (proc ndi : UInt8) : Bytes :=
  let block := crcAttach macPdu
  let coded := codedBytes block
  HarqHeader.pack ⟨proc, ndi, 0, coded.length % 2 ^ 16, block.length % 2 ^ 16⟩ ++ coded

/-- `link_decode_bits`: a CRC-verified MAC PDU, or nothing. -/
def linkDecodeBits (codedBits : Bytes) (infoLen : Nat) : Except DecodeError (Option Bytes) :=
  match fecDecode codedBits none with
  | .error .invalidArgument => .ok none
  | .error .lengthError => .error .lengthError
  | .ok info =>
    if info.length ≠ infoLen * 8 then .ok none
    else
      match bitsToBytes info with
      | .error .invalidArgument => .ok none
      | .error .lengthError => .error .lengthError
      | .ok block => .ok (crcVerifyStrip block)

/-! ## Transmitter -/

structure HarqTxConfig where
  numProcesses : UInt8 := 8
  maxRetx : UInt8 := 3
  ackTimeoutMs : UInt32 := 250
  deriving DecidableEq, Repr

structure HarqProc where
  busy : Bool := false
  ndi : UInt8 := 1
  retxCount : UInt8 := 0
  deadline : UInt32 := 0
  coded : Bytes := []
  deriving DecidableEq, Repr

inductive HarqEventType where
  | newTx | retx
  deriving DecidableEq, Repr

structure HarqEvent where
  type : HarqEventType
  proc : Nat
  ndi : UInt8
  coded : Bytes
  deriving DecidableEq, Repr

structure HarqTx where
  cfg : HarqTxConfig
  procs : List HarqProc
  nextProc : Nat := 0
  lastNow : UInt32 := 0
  deriving DecidableEq

namespace HarqTx

def init (cfg : HarqTxConfig) : HarqTx :=
  { cfg := cfg, procs := List.replicate cfg.numProcesses.toNat {} }

def inFlight (t : HarqTx) : Nat := t.procs.countP (·.busy)

/-- The first free process, round-robin from `next_proc_`. -/
def freeProc (t : HarqTx) : Option Nat :=
  ((List.range t.cfg.numProcesses.toNat).map
    fun i => (t.nextProc + i) % t.cfg.numProcesses.toNat).find?
      fun p => !(t.procs.getD p {}).busy

def send (t : HarqTx) (macPdu : Bytes) : HarqTx × Option HarqEvent :=
  match t.freeProc with
  | none => (t, none)
  | some p =>
    let pr := t.procs.getD p {}
    let ndi := pr.ndi ^^^ 1
    let coded := linkEncode macPdu (UInt8.ofNat p) ndi
    ({ t with
        procs := t.procs.set p {
          busy := true, ndi := ndi, retxCount := 0
          deadline := t.lastNow + t.cfg.ackTimeoutMs, coded := coded }
        nextProc := (p + 1) % t.cfg.numProcesses.toNat },
      some ⟨.newTx, p, ndi, coded⟩)

/-- Retransmit the block of a busy process, or give it up when the budget is spent. -/
def retx (t : HarqTx) (proc : Nat) : HarqTx × Option HarqEvent :=
  let pr := t.procs.getD proc {}
  if !pr.busy then (t, none)
  else if pr.retxCount ≥ t.cfg.maxRetx then
    ({ t with procs := t.procs.set proc { pr with busy := false } }, none)
  else
    ({ t with procs := t.procs.set proc { pr with
          retxCount := pr.retxCount + 1, deadline := t.lastNow + t.cfg.ackTimeoutMs } },
      some ⟨.retx, proc, pr.ndi, pr.coded⟩)

def advance (t : HarqTx) (nowMs : UInt32) : HarqTx := { t with lastNow := max t.lastNow nowMs }

/-- `static_cast<int32_t>(now_ms - deadline) >= 0`. -/
def expired (nowMs deadline : UInt32) : Bool := (nowMs - deadline).toNat < 2 ^ 31

/-- The `for` loop of `poll_timeouts` over the process numbers from `p` on. -/
def pollLoop (nowMs : UInt32) : HarqTx → List Nat → HarqTx × List HarqEvent
  | t, [] => (t, [])
  | t, p :: rest =>
    let pr := t.procs.getD p {}
    if pr.busy && expired nowMs pr.deadline then
      let fired := t.retx p
      let more := pollLoop nowMs fired.1 rest
      (more.1, fired.2.toList ++ more.2)
    else pollLoop nowMs t rest

def pollTimeouts (t : HarqTx) (nowMs : UInt32) : HarqTx × List HarqEvent :=
  pollLoop nowMs (t.advance nowMs) (List.range t.procs.length)

def onAck (t : HarqTx) (proc : Nat) : HarqTx :=
  if proc ≥ t.procs.length then t
  else { t with procs := t.procs.set proc { t.procs.getD proc {} with busy := false } }

def onNack (t : HarqTx) (proc : Nat) : HarqTx × Option HarqEvent :=
  if proc ≥ t.procs.length then (t, none) else t.retx proc

/-- Connection teardown: every process free; the indicators keep their phase. -/
def reset (t : HarqTx) : HarqTx :=
  { t with
    procs := t.procs.map fun pr => { pr with busy := false, retxCount := 0, coded := [] }
    nextProc := 0 }

/-- The free process `send` chooses is one of the table and holds nothing. -/
theorem freeProc_spec {t : HarqTx} {p : Nat} (h : t.freeProc = some p) :
    p < t.cfg.numProcesses.toNat ∧ (t.procs.getD p {}).busy = false := by
  unfold freeProc at h
  have hfree := List.find?_some h
  have hmem := List.mem_of_find?_eq_some h
  obtain ⟨i, hi, rfl⟩ := List.mem_map.mp hmem
  have hpos : 0 < t.cfg.numProcesses.toNat := by
    have := List.mem_range.mp hi
    omega
  exact ⟨Nat.mod_lt _ hpos, by simpa using hfree⟩

/-- `send` refuses and changes nothing, or occupies a free process with a new block. -/
theorem send_cases (t : HarqTx) (macPdu : Bytes) :
    t.send macPdu = (t, none) ∨
    ∃ p ndi, p < t.cfg.numProcesses.toNat ∧ (t.procs.getD p {}).busy = false ∧
      t.send macPdu = ({ t with
        procs := t.procs.set p {
          busy := true, ndi := ndi, retxCount := 0
          deadline := t.lastNow + t.cfg.ackTimeoutMs
          coded := linkEncode macPdu (UInt8.ofNat p) ndi }
        nextProc := (p + 1) % t.cfg.numProcesses.toNat },
      some ⟨.newTx, p, ndi, linkEncode macPdu (UInt8.ofNat p) ndi⟩) := by
  unfold send
  cases hfree : t.freeProc with
  | none => exact .inl rfl
  | some p => exact .inr ⟨p, _, (freeProc_spec hfree).1, (freeProc_spec hfree).2, rfl⟩

/-- `retx` ignores a free process, frees one that has spent its budget, and otherwise
repeats the stored block. -/
theorem retx_cases (t : HarqTx) (p : Nat) :
    t.retx p = (t, none) ∨
    ∃ pr, t.procs[p]? = some pr ∧ pr.busy = true ∧
      (t.retx p = ({ t with procs := t.procs.set p { pr with busy := false } }, none) ∨
      pr.retxCount < t.cfg.maxRetx ∧
        t.retx p = ({ t with procs := t.procs.set p { pr with
            retxCount := pr.retxCount + 1, deadline := t.lastNow + t.cfg.ackTimeoutMs } },
          some ⟨.retx, p, pr.ndi, pr.coded⟩)) := by
  unfold retx
  cases hget : t.procs[p]? with
  | none => exact .inl (by simp [List.getD_eq_getElem?_getD, hget])
  | some pr =>
    have hgetD : t.procs.getD p {} = pr := by simp [List.getD_eq_getElem?_getD, hget]
    simp only [hgetD]
    by_cases hbusy : pr.busy = true
    · by_cases hspent : pr.retxCount ≥ t.cfg.maxRetx
      · exact .inr ⟨pr, rfl, hbusy, .inl (by simp [hbusy, hspent])⟩
      · exact .inr ⟨pr, rfl, hbusy, .inr ⟨UInt8.not_le.mp hspent, by simp [hbusy, hspent]⟩⟩
    · exact .inl (by simp [hbusy])

end HarqTx

/-! ## Receiver -/

structure SoftBuf where
  ndi : UInt8 := 1
  bits : Bytes := []
  deriving DecidableEq, Repr

structure HarqRx where
  soft : List SoftBuf := List.replicate 8 {}
  deriving DecidableEq

structure HarqResult where
  delivered : Bool := false
  needFeedback : Bool := false
  ack : Bool := false
  proc : UInt8 := 0
  macPdu : Bytes := []
  deriving DecidableEq, Repr

namespace HarqRx

def reset (_ : HarqRx) : HarqRx := {}

/-- Chase combining of the first `valid` positions with the stored bits. -/
def combine (rxBits stored : Bytes) (valid : Nat) : Bytes :=
  (List.range rxBits.length).map fun i =>
    if i < valid then (if (rxBits.getD i 0).toNat + (stored.getD i 0).toNat ≥ 2 then 1 else 0)
    else rxBits.getD i 0

/-- The bits `receive` decodes: combined when the indicator is zero and something of the
same length is stored, then cut to the coded length. -/
def decodeInput (soft : List SoftBuf) (h : HarqHeader) (rxBits : Bytes) : Bytes :=
  let valid := min (validCodedBits h) rxBits.length
  let slot := soft[h.proc.toNat]?
  let merged := match slot with
    | none => rxBits
    | some buf =>
      if h.ndi = 0 ∧ buf.bits ≠ [] ∧ buf.bits.length = rxBits.length then
        combine rxBits buf.bits valid
      else rxBits
  merged.take (min merged.length (validCodedBits h))

/-- The soft-memory lifecycle behind a decoding attempt. -/
def updateSoft (soft : List SoftBuf) (h : HarqHeader) (delivered : Bool) (bits : Bytes) :
    List SoftBuf :=
  let p := h.proc.toNat
  let soft := if h.ndi ≠ 0 ∨ delivered then soft.modify p fun buf => { buf with bits := [] } else soft
  if delivered then soft
  else
    -- `resize` only when the process has no slot yet
    (soft.rightpad (p + 1) {}).set p ⟨h.ndi, bits⟩

def receive (r : HarqRx) (frame : Bytes) : Except DecodeError (HarqRx × HarqResult) :=
  match HarqHeader.unpack frame with
  | none => .ok (r, {})
  | some h =>
    if frame.length < HarqHeader.size + h.len then .ok (r, {})
    else
      let rxBits := bytesToBits ((frame.drop HarqHeader.size).take h.len)
      let bits := decodeInput r.soft h rxBits
      match linkDecodeBits bits h.infoLen with
      | .error e => .error e
      | .ok decoded =>
        let delivered := decoded.isSome
        .ok ({ r with soft := updateSoft r.soft h delivered bits },
          { delivered := delivered, needFeedback := true, ack := delivered, proc := h.proc
            macPdu := decoded.getD [] })

/-- `receive` drops a frame without a word, or answers for the process of its header
with an ACK exactly when it delivered. -/
theorem receive_cases {r r' : HarqRx} {frame : Bytes} {res : HarqResult}
    (h : r.receive frame = .ok (r', res)) :
    (r' = r ∧ res = {}) ∨
    ∃ header, HarqHeader.unpack frame = some header ∧ res.needFeedback = true ∧
      res.ack = res.delivered ∧ res.proc = header.proc := by
  unfold receive at h
  split at h
  · simp only [Except.ok.injEq, Prod.mk.injEq] at h
    exact .inl ⟨h.1.symm, h.2.symm⟩
  · rename_i header hunpack
    split at h
    · simp only [Except.ok.injEq, Prod.mk.injEq] at h
      exact .inl ⟨h.1.symm, h.2.symm⟩
    · dsimp only at h
      split at h
      · cases h
      · simp only [Except.ok.injEq, Prod.mk.injEq] at h
        obtain ⟨-, rfl⟩ := h
        exact .inr ⟨header, hunpack, rfl, rfl, rfl⟩

end HarqRx

end AetherStack.Source
