import AetherStack.Lib.Clocked
import AetherStack.Source.ClockShift
import AetherStack.Source.UeCore

/-!
# What depends on the clock beyond the time elapsed

The nodes drive `HarqTx`, `AmTx`, `AmRx` and `UmRx` with `now_ms_`, the greatest reading of a
32-bit millisecond clock they were ticked with. Two runs are compared whose readings differ by
an offset. They answer alike as long as the two node clocks stay that offset apart: at the wrap
of one of them `std::max` stops this clock, and the time that passes is seen by the other run only.
-/
namespace AetherStack.Guarantees
open Source Lib Driven

/-- `now_ms_ = std::max(now_ms, now_ms_)`, the first statement of both nodes' `tick`. -/
def nodeClock (nowMs reading : UInt32) : UInt32 := max reading nowMs

theorem step_clock (digest : KeyedDigest) (u : Core.UeNode) (reading : UInt32) :
    u.step digest (.clock reading) = some { u with nowMs := nodeClock u.nowMs reading } := rfl

/-! ## The components -/

inductive HarqTxCall where
  | advance
  | send (macPdu : Bytes)
  | onAck (proc : Nat)
  | onNack (proc : Nat)
  | reset
  deriving DecidableEq, Repr

inductive AmTxCall where
  | tx (sdu : Bytes) (force : Bool)
  | onStatus (status : Bytes)
  | reset
  deriving DecidableEq, Repr

inductive AmRxCall where
  | rx (pdu : Bytes)
  | reset
  deriving DecidableEq, Repr

inductive UmRxCall where
  | rx (pdu : Bytes)
  | poll
  | reset
  deriving DecidableEq, Repr

/-- What can be seen of a call on `UmRx`: the SDUs it returns, those ready, the PDUs skipped. -/
structure UmAnswer where
  polled : List Bytes := []
  ready : List Bytes
  dropped : UInt32
  deriving DecidableEq, Repr

def harqTx (cfg : HarqTxConfig) : Component UInt32 HarqTx HarqTxCall (List HarqEvent) where
  init := .init cfg
  tick nowMs t := t.pollTimeouts nowMs
  call nowMs c t := match c with
    | .advance => (t.advance nowMs, [])
    | .send macPdu => ((t.send macPdu).1, (t.send macPdu).2.toList)
    | .onAck proc => (t.onAck proc, [])
    | .onNack proc => ((t.onNack proc).1, (t.onNack proc).2.toList)
    | .reset => (t.reset, [])

def amTx (cfg : AmConfig) : Component UInt32 AmTx AmTxCall (List Bytes) where
  init := { cfg := cfg }
  tick nowMs t := t.tick nowMs
  call nowMs c t := match c with
    | .tx sdu force => t.tx nowMs sdu force
    | .onStatus status => t.onStatus nowMs status
    | .reset => (t.reset, [])

def amRx (cfg : AmConfig) : Component UInt32 AmRx AmRxCall AmOutcome where
  init := { cfg := cfg }
  tick nowMs r := r.tick nowMs
  call _ c r := match c with
    | .rx pdu => r.rx pdu
    | .reset => (r.reset, {})

def umRx (cfg : UmConfig) : Component UInt32 UmRx UmRxCall UmAnswer where
  init := { cfg := cfg }
  tick nowMs r := (r.tick nowMs, ⟨[], (r.tick nowMs).ready, (r.tick nowMs).dropped⟩)
  call nowMs c r := match c with
    | .rx pdu => (r.rx nowMs pdu, ⟨[], (r.rx nowMs pdu).ready, (r.rx nowMs pdu).dropped⟩)
    | .poll => (r.poll.1, ⟨r.poll.2, r.poll.1.ready, r.poll.1.dropped⟩)
    | .reset => (r.reset, ⟨[], r.reset.ready, r.reset.dropped⟩)

/-! ## Two runs in step -/

/-- Every reading is before the latest one so far in both runs or in neither. -/
def WrapTogether (k : UInt32) : UInt32 → List UInt32 → Prop
  | _, [] => True
  | now, t :: ts => (t + k < now + k ↔ t < now) ∧ WrapTogether k (nodeClock now t) ts

theorem nodeClock_of_lt {now t : UInt32} (h : t < now) : nodeClock now t = now :=
  max_of_le (UInt32.le_of_lt h)

theorem nodeClock_of_not_lt {now t : UInt32} (h : ¬ t < now) : nodeClock now t = t := by
  rw [nodeClock]
  by_cases hle : t ≤ now
  · rw [max_of_le hle]
    exact UInt32.le_antisymm (UInt32.not_lt.mp h) hle
  · exact if_neg hle

theorem le_nodeClock (now t : UInt32) : now ≤ nodeClock now t := by
  by_cases h : t < now
  · rw [nodeClock_of_lt h]
    exact UInt32.le_refl now
  · rw [nodeClock_of_not_lt h]
    exact UInt32.not_lt.mp h

/-- The offset passes through the clock of a node when both readings wrap together. -/
theorem nodeClock_offset_iff (k now t : UInt32) :
    nodeClock (now + k) (t + k) = nodeClock now t + k ↔ (t + k < now + k ↔ t < now) := by
  have hcancel : ∀ a b : UInt32, a + k = b + k ↔ a = b := by grind
  constructor
  · intro hclock
    constructor
    · intro hlt
      by_contra hge
      rw [nodeClock_of_lt hlt, nodeClock_of_not_lt hge, hcancel] at hclock
      exact UInt32.lt_irrefl _ (hclock ▸ hlt)
    · intro hlt
      by_contra hge
      rw [nodeClock_of_not_lt hge, nodeClock_of_lt hlt, hcancel] at hclock
      exact UInt32.lt_irrefl _ (hclock ▸ hlt)
  · intro hiff
    by_cases hlt : t < now
    · rw [nodeClock_of_lt hlt, nodeClock_of_lt (hiff.mpr hlt)]
    · rw [nodeClock_of_not_lt hlt, nodeClock_of_not_lt fun hlt' => hlt (hiff.mp hlt')]

/-- The clocks of the two runs stay the offset apart exactly when no reading wraps without the
other. -/
theorem inStep_iff (k now : UInt32) (ts : List UInt32) :
    InStep nodeClock (· + k) now ts ↔ WrapTogether k now ts := by
  induction ts generalizing now with
  | nil => exact Iff.rfl
  | cons t ts ih => exact and_congr (nodeClock_offset_iff k now t) (ih _)

/-- In step, the time that passes passes in both runs. -/
theorem later_of_inStep {k now t : UInt32} (h : nodeClock (now + k) (t + k) = nodeClock now t + k) :
    Later k now (nodeClock now t) := by
  refine ⟨le_nodeClock now t, ?_⟩
  rw [← h]
  exact le_nodeClock (now + k) (t + k)

theorem harqTx_simulates (cfg : HarqTxConfig) (k : UInt32) :
    Simulates nodeClock (· + k) (harqTx cfg) (HarqTx.Shifted k) where
  later hnext h := h.later (later_of_inStep hnext)
  tick h := h.pollTimeouts
  call c h := by
    cases c with
    | advance => exact ⟨rfl, h.advance⟩
    | send macPdu => exact ⟨congrArg Option.toList (h.send macPdu).1, (h.send macPdu).2⟩
    | onAck proc => exact ⟨rfl, h.onAck proc⟩
    | onNack proc => exact ⟨congrArg Option.toList (h.onNack proc).1, (h.onNack proc).2⟩
    | reset => exact ⟨rfl, h.reset⟩

theorem amTx_simulates (cfg : AmConfig) (k : UInt32) :
    Simulates nodeClock (· + k) (amTx cfg) (AmTx.Shifted k) where
  later hnext h := h.later (later_of_inStep hnext)
  tick h := h.tick
  call c h := by
    cases c with
    | tx sdu force => exact h.tx sdu force
    | onStatus status => exact h.onStatus status
    | reset => exact ⟨rfl, h.reset⟩

theorem amRx_simulates (cfg : AmConfig) (k : UInt32) :
    Simulates nodeClock (· + k) (amRx cfg) (AmRx.Shifted k) where
  later hnext h := h.later (later_of_inStep hnext)
  tick h := h.tick
  call c h := by
    cases c with
    | rx pdu => exact h.rx pdu
    | reset => exact ⟨rfl, h.reset⟩

/-- What `UmRx` shows is the same in both runs. -/
theorem answer_eq {k : UInt32} {r r' : UmRx} (h : UmRx.Shifted k r r') (polled : List Bytes) :
    (⟨polled, r'.ready, r'.dropped⟩ : UmAnswer) = ⟨polled, r.ready, r.dropped⟩ := by
  obtain ⟨d, rfl, _⟩ := h
  rfl

theorem umRx_simulates (cfg : UmConfig) (k : UInt32) :
    Simulates nodeClock (· + k) (umRx cfg) fun _ => UmRx.Shifted k where
  later _ h := h
  tick h := ⟨answer_eq h.tick [], h.tick⟩
  call c h := by
    cases c with
    | rx pdu => exact ⟨answer_eq (h.rx pdu) [], h.rx pdu⟩
    | poll =>
      refine ⟨?_, h.poll.2⟩
      rw [show ((umRx cfg).call _ .poll _).2 = _ from answer_eq h.poll.2 _, h.poll.1]
      rfl
    | reset => exact ⟨answer_eq h.reset [], h.reset⟩

/-! ## Independence of the offset -/

/-- The component answers alike, call by call, when `k` is added to every reading: for all calls
after and between the ticks at `first` and `ts`. -/
def OffsetIndependent {S C O : Type} (m : Component UInt32 S C O) (k first : UInt32)
    (ts : List UInt32) : Prop :=
  ∀ evs : List (Driven UInt32 C), readings evs = ts →
    outputs nodeClock m 0 m.init ((tick first :: evs).map (retime (· + k))) =
      outputs nodeClock m 0 m.init (tick first :: evs)

/-- All four components, in any configuration. -/
def ClockOffsetIndependent (k first : UInt32) (ts : List UInt32) : Prop :=
  (∀ cfg, OffsetIndependent (harqTx cfg) k first ts) ∧
  (∀ cfg, OffsetIndependent (amTx cfg) k first ts) ∧
  (∀ cfg, OffsetIndependent (amRx cfg) k first ts) ∧
  (∀ cfg, OffsetIndependent (umRx cfg) k first ts)

/-- The first tick takes the clock, and the components in step behind it answer alike. -/
theorem offsetIndependent_of_simulates {S C O : Type} {m : Component UInt32 S C O} {k first : UInt32}
    {ts : List UInt32} {rel : UInt32 → S → S → Prop} (sim : Simulates nodeClock (· + k) m rel)
    (start : (m.tick (first + k) m.init).2 = (m.tick first m.init).2 ∧
      rel first (m.tick first m.init).1 (m.tick (first + k) m.init).1)
    (h : WrapTogether k first ts) : OffsetIndependent m k first ts := by
  intro evs hreadings
  have hclock : ∀ t, nodeClock 0 t = t := fun t => nodeClock_of_not_lt UInt32.not_lt_zero
  have hstep : InStep nodeClock (· + k) first (readings evs) := by
    rw [hreadings]
    exact (inStep_iff k first ts).mpr h
  rw [List.map_cons, retime, outputs, outputs, hclock, hclock, start.1,
    sim.outputs_eq start.2 hstep]

/-- A configuration whose probe waits for one millisecond. -/
def eagerProbe : AmConfig := { tPollMs := 1 }

/-- The transmitter that was given the SDU `[0]` at `u`. -/
theorem call_eagerProbe (u : UInt32) :
    ((amTx eagerProbe).call u (.tx [0] false) (amTx eagerProbe).init).1 =
      { cfg := eagerProbe, txBuffer := (∅ : SnMap Bytes).insert 0 [0x80, 0, 0, 0], nextSn := 1,
        sincePoll := 1, lastProgressMs := clock u } := by
  have hseg : segmentSdu [0] eagerProbe.maxPduPayload = [(0, [0])] := by decide
  show (AmTx.tx { cfg := eagerProbe } u [0] false).1 = _
  rw [AmTx.tx, if_neg (by decide), if_neg (by decide)]
  dsimp only
  rw [hseg]
  have hpoll : ¬ eagerProbe.pollEvery ≤ 1 := by decide
  have hpdu : AmTx.buildPdu 0 0 [0] = [0x80, 0, 0, 0] := by decide
  simp [AmTx.txSegments, AmTx.txSegment, hpoll, hpdu, snModulus]

/-- It probes at the first tick that sees any time pass. -/
theorem tick_eagerProbe {u v : UInt32} (h : u ≤ v) :
    ((amTx eagerProbe).tick v
      ((amTx eagerProbe).call u (.tx [0] false) (amTx eagerProbe).init).1).2 =
      if v = u then [] else [[0x80, 0, 0, 0]] := by
  have hpending : ¬ (eagerProbe.tPollMs = 0 ∨
      ((∅ : SnMap Bytes).insert 0 [0x80, 0, 0, 0]).isEmpty = true) := by decide
  have helapsed := clock_sub_clock h
  rw [call_eagerProbe]
  show (AmTx.tick _ v).2 = _
  rw [AmTx.tick, if_neg hpending]
  by_cases hsame : v = u
  · have hwait : clock u ≥ 0 ∧ clock v - clock u < clock eagerProbe.tPollMs := by
      rw [hsame, sub_self]
      exact ⟨Int.natCast_nonneg _, by decide⟩
    rw [if_pos hsame, if_pos hwait]
  · have hpassed : ¬ (clock u ≥ 0 ∧ clock v - clock u < clock eagerProbe.tPollMs) := by
      rintro ⟨-, hshort⟩
      rw [helapsed] at hshort
      have hone : clock eagerProbe.tPollMs = 1 := rfl
      have hzero : v - u = 0 := UInt32.toNat_inj.mp (by
        show (v - u).toNat = 0
        omega)
      exact hsame (by grind)
    rw [if_neg hsame, if_neg hpassed]
    rfl

/-- Out of step, one of the two runs sees no time pass. -/
theorem eagerProbe_differs {k now t : UInt32}
    (h : nodeClock (now + k) (t + k) ≠ nodeClock now t + k) :
    (if nodeClock (now + k) (t + k) = now + k then [] else [[0x80, 0, 0, 0]] : List Bytes) ≠
      if nodeClock now t = now then [] else [[0x80, 0, 0, 0]] := by
  by_cases hlt : t < now
  · have hlt' : ¬ t + k < now + k := fun hlt' => h (by rw [nodeClock_of_lt hlt, nodeClock_of_lt hlt'])
    rw [nodeClock_of_lt hlt, nodeClock_of_not_lt hlt', if_pos rfl, if_neg]
    · exact List.cons_ne_nil _ _
    · intro heq
      exact UInt32.ne_of_lt hlt (by grind)
  · have hlt' : t + k < now + k := by
      by_contra hge
      exact h (by rw [nodeClock_of_not_lt hlt, nodeClock_of_not_lt hge])
    rw [nodeClock_of_lt hlt', nodeClock_of_not_lt hlt, if_pos rfl, if_neg]
    · exact (List.cons_ne_nil _ _).symm
    · intro heq
      rw [heq] at hlt'
      exact UInt32.lt_irrefl _ hlt'

/-- The readings to which no component is sensitive beyond the time elapsed are those at which
both node clocks stop or neither. -/
theorem clock_offset_independent_iff (k first : UInt32) (ts : List UInt32) :
    ClockOffsetIndependent k first ts ↔ WrapTogether k first ts := by
  constructor
  · intro hindep
    by_contra hstep
    obtain ⟨evs, hreadings, hne⟩ := exists_outputs_ne (amTx eagerProbe) (.tx [0] false)
      (fun _ => rfl)
      (fun now t hnext => by
        rw [tick_eagerProbe (le_nodeClock now t), tick_eagerProbe (le_nodeClock (now + k) (t + k))]
        exact eagerProbe_differs hnext)
      (mt (inStep_iff k first ts).mp hstep)
    have hsame := hindep.2.1 eagerProbe evs hreadings
    have hclock : ∀ t, nodeClock 0 t = t := fun t => nodeClock_of_not_lt UInt32.not_lt_zero
    rw [List.map_cons, retime, outputs, outputs, hclock, hclock] at hsame
    exact hne (List.cons.inj hsame).2
  · intro hstep
    refine ⟨fun cfg => ?_, fun cfg => ?_, fun cfg => ?_, fun cfg => ?_⟩
    · refine offsetIndependent_of_simulates (harqTx_simulates cfg k) ?_ hstep
      have htick : ∀ t, (harqTx cfg).tick t (harqTx cfg).init =
          ({ HarqTx.init cfg with lastNow := t }, []) := HarqTx.pollTimeouts_init cfg
      rw [htick, htick]
      exact ⟨rfl, HarqTx.Shifted.start k cfg first⟩
    · have hstart : AmTx.Shifted k first { cfg := cfg } { cfg := cfg } := ⟨-1, -1, rfl, .unset, .unset⟩
      exact offsetIndependent_of_simulates (amTx_simulates cfg k) hstart.tick hstep
    · have hstart : AmRx.Shifted k first { cfg := cfg } { cfg := cfg } := ⟨-1, rfl, .unset⟩
      exact offsetIndependent_of_simulates (amRx_simulates cfg k) hstart.tick hstep
    · have hstart : UmRx.Shifted k { cfg := cfg } { cfg := cfg } :=
        ⟨0, rfl, fun hrun => absurd hrun Bool.false_ne_true⟩
      have sim := umRx_simulates cfg k
      have hfirst : UmRx.Shifted k (umRx cfg).init (umRx cfg).init := hstart
      exact offsetIndependent_of_simulates sim (@sim.tick first _ _ hfirst) hstep

/-- Each reading comes less than `2 ^ 31` ms after the one before, modulo `2 ^ 32`. -/
def Advancing : List UInt32 → Prop
  | [] => True
  | [_] => True
  | t :: t' :: ts => (t' - t).toNat < 2 ^ 31 ∧ Advancing (t' :: ts)

/-- An SDU is sent at the first tick, and the second comes two seconds later. -/
def twoSecondsLater : List (Driven UInt32 AmTxCall) := [tick 0, call (.tx [1] false), tick 2000]

/-- From the start of the clock the transmitter probes; one second before the wrap it does not. -/
theorem clock_offset_dependent :
    Advancing (readings twoSecondsLater) ∧
    outputs nodeClock (amTx amNodeBearerConfig) 0 { cfg := amNodeBearerConfig } twoSecondsLater =
      [[], [[0x80, 0, 0, 1]], [[0x80, 0, 0, 1]]] ∧
    outputs nodeClock (amTx amNodeBearerConfig) 0 { cfg := amNodeBearerConfig }
      (twoSecondsLater.map (retime (· + 4294966296))) = [[], [[0x80, 0, 0, 1]], []] ∧
    ¬ ClockOffsetIndependent 4294966296 0 [2000] := by
  have hrun : outputs nodeClock (amTx amNodeBearerConfig) 0 { cfg := amNodeBearerConfig }
      twoSecondsLater = [[], [[0x80, 0, 0, 1]], [[0x80, 0, 0, 1]]] := by decide
  have hmoved : outputs nodeClock (amTx amNodeBearerConfig) 0 { cfg := amNodeBearerConfig }
      (twoSecondsLater.map (retime (· + 4294966296))) = [[], [[0x80, 0, 0, 1]], []] := by
    decide
  refine ⟨⟨by decide, trivial⟩, hrun, hmoved, fun hindep => ?_⟩
  have hsame := hindep.2.1 amNodeBearerConfig [call (.tx [1] false), tick 2000] rfl
  have hfalse := hmoved.symm.trans (hsame.trans hrun)
  exact absurd hfalse (by decide)

end AetherStack.Guarantees
