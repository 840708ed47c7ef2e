import AetherStack.Lib.Run
import AetherStack.Source.RlcAmReceiver

/-!
# One AM bearer in one direction over a hostile channel

One `AmTx` and one `AmRx` (each with its own configuration) and everything ever handed
to the channel. The channel loses, duplicates and reorders: a receiving event names any
index of what was sent, any number of times, or never. It does not forge. The receiver
may build a STATUS at any moment, which covers the callers that build one whenever
`status_needed` is set.

A message on the STATUS channel carries, next to its octets, the receiver's history at
the moment it was built. Nothing reads it but the statements about acknowledgements.
-/
namespace AetherStack.Guarantees
open Source Lib

structure StatusMsg where
  octets : Bytes
  builtAt : RxHistory
  deriving DecidableEq

structure AmLink where
  tx : AmTx
  rx : AmRx
  dataSent : List Bytes := []
  statusSent : List StatusMsg := []
  accepted : List Bytes := []
  history : RxHistory := {}
  deriving DecidableEq

inductive AmEvent where
  | send (nowMs : UInt32) (sdu : Bytes) (force : Bool)
  | rxData (index : Nat)
  | buildStatus
  | rxStatus (nowMs : UInt32) (index : Nat)
  | txTick (nowMs : UInt32)
  | rxTick (nowMs : UInt32)
  deriving DecidableEq, Repr

namespace AmLink

/-- Both entities fresh. -/
def init (txCfg rxCfg : AmConfig) : AmLink := { tx := { cfg := txCfg }, rx := { cfg := rxCfg } }

/-- An SDU counts as accepted when `tx` returned PDUs for it. -/
def step (s : AmLink) : AmEvent → Option AmLink
  | .send nowMs sdu force =>
    let sent := s.tx.tx nowMs sdu force
    some { s with
      tx := sent.1
      dataSent := s.dataSent ++ sent.2
      accepted := if sent.2 = [] then s.accepted else s.accepted ++ [sdu] }
  | .rxData index => do
    let pdu ← s.dataSent[index]?
    let received := s.rx.rx pdu
    some { s with rx := received.1, history := s.history.add received.2 }
  | .buildStatus =>
    some { s with statusSent := s.statusSent ++ [⟨s.rx.buildStatus, s.history⟩] }
  | .rxStatus nowMs index => do
    let msg ← s.statusSent[index]?
    let processed := s.tx.onStatus nowMs msg.octets
    some { s with tx := processed.1, dataSent := s.dataSent ++ processed.2 }
  | .txTick nowMs =>
    let probed := s.tx.tick nowMs
    some { s with tx := probed.1, dataSent := s.dataSent ++ probed.2 }
  | .rxTick nowMs =>
    let ticked := s.rx.tick nowMs
    some { s with rx := ticked.1, history := s.history.add ticked.2 }

/-- The segments sent so far; retransmissions are not counted again. -/
def segments (s : AmLink) : List (UInt8 × Bytes) :=
  segmentsOf s.tx.cfg.maxPduPayload s.accepted

def pduCount (s : AmLink) : Nat := s.segments.length

/-- One case per event, with the values the entities returned. -/
theorem step_cases {s s' : AmLink} {e : AmEvent} (h : s.step e = some s') :
    (∃ nowMs sdu force, e = .send nowMs sdu force ∧ s' = { s with
        tx := (s.tx.tx nowMs sdu force).1
        dataSent := s.dataSent ++ (s.tx.tx nowMs sdu force).2
        accepted := if (s.tx.tx nowMs sdu force).2 = [] then s.accepted
          else s.accepted ++ [sdu] }) ∨
    (∃ index pdu, e = .rxData index ∧ s.dataSent[index]? = some pdu ∧
      s' = { s with rx := (s.rx.rx pdu).1, history := s.history.add (s.rx.rx pdu).2 }) ∨
    (e = .buildStatus ∧
      s' = { s with statusSent := s.statusSent ++ [⟨s.rx.buildStatus, s.history⟩] }) ∨
    (∃ nowMs index msg, e = .rxStatus nowMs index ∧ s.statusSent[index]? = some msg ∧
      s' = { s with
        tx := (s.tx.onStatus nowMs msg.octets).1
        dataSent := s.dataSent ++ (s.tx.onStatus nowMs msg.octets).2 }) ∨
    (∃ nowMs, e = .txTick nowMs ∧ s' = { s with
        tx := (s.tx.tick nowMs).1, dataSent := s.dataSent ++ (s.tx.tick nowMs).2 }) ∨
    (∃ nowMs, e = .rxTick nowMs ∧ s' = { s with
        rx := (s.rx.tick nowMs).1, history := s.history.add (s.rx.tick nowMs).2 }) := by
  cases e with
  | send nowMs sdu force =>
    exact .inl ⟨nowMs, sdu, force, rfl, by simpa [step] using h.symm⟩
  | rxData index =>
    obtain ⟨pdu, hpdu, hs'⟩ := Option.bind_eq_some_iff.mp h
    exact .inr (.inl ⟨index, pdu, rfl, hpdu, by simpa using hs'.symm⟩)
  | buildStatus => exact .inr (.inr (.inl ⟨rfl, by simpa [step] using h.symm⟩))
  | rxStatus nowMs index =>
    obtain ⟨msg, hmsg, hs'⟩ := Option.bind_eq_some_iff.mp h
    exact .inr (.inr (.inr (.inl ⟨nowMs, index, msg, rfl, hmsg, by simpa using hs'.symm⟩)))
  | txTick nowMs =>
    exact .inr (.inr (.inr (.inr (.inl ⟨nowMs, rfl, by simpa [step] using h.symm⟩))))
  | rxTick nowMs =>
    exact .inr (.inr (.inr (.inr (.inr ⟨nowMs, rfl, by simpa [step] using h.symm⟩))))

/-! ## The configurations and the number of PDUs along a run -/

theorem step_txCfg {s s' : AmLink} {e : AmEvent} (h : s.step e = some s') :
    s'.tx.cfg = s.tx.cfg := by
  obtain ⟨_, _, _, -, rfl⟩ | ⟨_, _, -, -, rfl⟩ | ⟨-, rfl⟩ | ⟨_, _, _, -, -, rfl⟩ | ⟨_, -, rfl⟩ |
    ⟨_, -, rfl⟩ := step_cases h <;> simp

theorem step_rxCfg {s s' : AmLink} {e : AmEvent} (h : s.step e = some s') :
    s'.rx.cfg = s.rx.cfg := by
  obtain ⟨_, _, _, -, rfl⟩ | ⟨_, _, -, -, rfl⟩ | ⟨-, rfl⟩ | ⟨_, _, _, -, -, rfl⟩ | ⟨_, -, rfl⟩ |
    ⟨_, -, rfl⟩ := step_cases h <;> simp

theorem run_cfg {txCfg rxCfg : AmConfig} {events : List AmEvent} {s : AmLink}
    (run : runFrom step (init txCfg rxCfg) events = some s) :
    s.tx.cfg = txCfg ∧ s.rx.cfg = rxCfg := by
  refine runFrom_invariant (fun s => s.tx.cfg = txCfg ∧ s.rx.cfg = rxCfg) ?_ ⟨rfl, rfl⟩ run
  intro s e s' ⟨htx, hrx⟩ hstep
  exact ⟨(step_txCfg hstep).trans htx, (step_rxCfg hstep).trans hrx⟩

/-- What was accepted stays, in order. -/
theorem step_accepted {s s' : AmLink} {e : AmEvent} (h : s.step e = some s') :
    s.accepted <+: s'.accepted := by
  obtain ⟨_, _, _, -, rfl⟩ | ⟨_, _, -, -, rfl⟩ | ⟨-, rfl⟩ | ⟨_, _, _, -, -, rfl⟩ | ⟨_, -, rfl⟩ |
    ⟨_, -, rfl⟩ := step_cases h
  · dsimp only
    split <;> simp
  all_goals exact List.prefix_rfl

/-- No step takes PDUs back, so a bound at the end of a run held all along. -/
theorem step_pduCount {s s' : AmLink} {e : AmEvent} (h : s.step e = some s') :
    s.pduCount ≤ s'.pduCount := by
  obtain ⟨more, hmore⟩ := step_accepted h
  simp only [pduCount, segments, step_txCfg h, ← hmore, segmentsOf_append, List.length_append]
  omega

/-! ## The invariant -/

/-- The link as long as the PDUs sent are at most the sequence numbers there are. -/
structure Sound (s : AmLink) : Prop where
  keeps : s.tx.Keeps s.segments
  genuine : ∀ pdu ∈ s.dataSent, Genuine s.segments pdu
  synced : s.rx.SyncedOrExhausted s.tx.cfg.maxPduPayload s.accepted s.history

theorem sound_init (txCfg rxCfg : AmConfig) : Sound (init txCfg rxCfg) where
  keeps := AmTx.keeps_initial txCfg
  genuine := by simp [init]
  synced := .inl (AmRx.synced_initial _ rxCfg)

/-- `tx` refuses the SDU, or appends exactly its segments to the stream. -/
theorem send_sound {s : AmLink} (h : s.Sound) (nowMs : UInt32) (sdu : Bytes) (force : Bool) :
    Sound { s with
      tx := (s.tx.tx nowMs sdu force).1
      dataSent := s.dataSent ++ (s.tx.tx nowMs sdu force).2
      accepted := if (s.tx.tx nowMs sdu force).2 = [] then s.accepted
        else s.accepted ++ [sdu] } := by
  rcases AmTx.tx_keeps h.keeps nowMs sdu force with
    ⟨hout, hkeeps⟩ | ⟨hout, hcount, -, hkeeps, hnew⟩
  · simp only [hout, if_true, List.append_nil]
    refine ⟨?_, ?_, ?_⟩
    · simpa [segments] using hkeeps
    · simpa [segments] using h.genuine
    · simpa using h.synced
  · have hsegs : segmentsOf s.tx.cfg.maxPduPayload (s.accepted ++ [sdu]) =
        s.segments ++ segmentSdu sdu s.tx.cfg.maxPduPayload := by
      simp [segments]
    simp only [if_neg hout]
    refine ⟨?_, ?_, ?_⟩
    · simpa [segments] using hkeeps
    · intro pdu hpdu
      rw [segments, AmTx.tx_cfg, hsegs]
      rcases List.mem_append.mp hpdu with hold | hfresh
      · exact (h.genuine pdu hold).append _
      · obtain ⟨i, hi⟩ := List.mem_iff_getElem?.mp hfresh
        obtain ⟨seg, hseg, hcarries⟩ := hnew i pdu hi
        exact ⟨s.segments.length + i, seg, hseg, hcarries⟩
    · rw [AmTx.tx_cfg]
      rcases h.synced with hs | he
      · exact .inl (hs.append hcount)
      · exact .inr (he.append sdu)

/-- One received data PDU. -/
theorem rxData_sound {s : AmLink} (h : s.Sound) (bound : s.pduCount ≤ snModulus) {pdu : Bytes}
    (hpdu : pdu ∈ s.dataSent) :
    Sound { s with rx := (s.rx.rx pdu).1, history := s.history.add (s.rx.rx pdu).2 } := by
  obtain ⟨d, hd, hseg⟩ := (h.genuine pdu hpdu).decode bound
  have hrx : s.rx.rx pdu = s.rx.rxData d := by simp [AmRx.rx, hd]
  have hlt : d.seq < snModulus := by
    have := (List.getElem?_eq_some_iff.mp hseg).1
    unfold pduCount at bound
    omega
  refine ⟨h.keeps, h.genuine, ?_⟩
  rw [hrx]
  rcases h.synced with hs | he
  · exact AmRx.rxData_synced hs hlt hseg
  · exact .inr (he.add _)

/-- Below 65536 PDUs the number of a PDU names it, and a step keeps both ends sound. -/
theorem step_sound {s s' : AmLink} {e : AmEvent} (h : s.Sound) (hstep : s.step e = some s')
    (bound : s'.pduCount ≤ snModulus) : s'.Sound := by
  have hb : s.pduCount ≤ snModulus := Nat.le_trans (step_pduCount hstep) bound
  obtain ⟨nowMs, sdu, force, -, rfl⟩ | ⟨index, pdu, -, hpdu, rfl⟩ | ⟨-, rfl⟩ |
    ⟨nowMs, index, msg, -, -, rfl⟩ | ⟨nowMs, -, rfl⟩ | ⟨nowMs, -, rfl⟩ := step_cases hstep
  · exact send_sound h nowMs sdu force
  · exact rxData_sound h hb (List.mem_of_getElem? hpdu)
  · exact ⟨h.keeps, h.genuine, h.synced⟩
  · refine ⟨?_, ?_, ?_⟩
    · simpa [segments] using AmTx.onStatus_keeps h.keeps nowMs msg.octets
    · intro pdu hpdu
      simp only [segments, AmTx.onStatus_cfg]
      rcases List.mem_append.mp hpdu with hold | hretx
      · exact h.genuine pdu hold
      · obtain ⟨sn, hsn⟩ := AmTx.onStatus_mem hretx
        exact h.keeps.genuine hsn
    · simpa using h.synced
  · refine ⟨?_, ?_, ?_⟩
    · simpa [segments] using AmTx.tick_keeps h.keeps nowMs
    · intro pdu hpdu
      simp only [segments, AmTx.tick_cfg]
      rcases List.mem_append.mp hpdu with hold | hprobe
      · exact h.genuine pdu hold
      · obtain ⟨sn, hsn⟩ := AmTx.tick_mem hprobe
        exact h.keeps.genuine hsn
    · simpa using h.synced
  · refine ⟨h.keeps, h.genuine, ?_⟩
    rcases h.synced with hs | he
    · exact AmRx.tick_synced hs nowMs
    · exact .inr (he.add _)

/-- Every run that sends at most `2 ^ 16` data PDUs ends in a sound state. -/
theorem run_sound {txCfg rxCfg : AmConfig} {events : List AmEvent} {s : AmLink}
    (run : runFrom step (init txCfg rxCfg) events = some s) (bound : s.pduCount ≤ snModulus) :
    s.Sound :=
  runFrom_invariant_of_bound Sound (fun s => s.pduCount ≤ snModulus)
    (fun _ _ _ hstep hb => Nat.le_trans (step_pduCount hstep) hb)
    (fun _ _ _ h hstep hb => step_sound h hstep hb) (sound_init txCfg rxCfg) run bound

/-- Below the wrap the receiver is synced, not exhausted. -/
theorem Sound.synced_of_lt {s : AmLink} (h : s.Sound) (bound : s.pduCount < snModulus) :
    s.rx.Synced s.tx.cfg.maxPduPayload s.accepted s.history := by
  rcases h.synced with hs | he
  · exact hs
  · exact absurd he.1 (by simpa [pduCount, segments] using bound)

end AmLink

/-- End-to-end soundness below the wrap: whatever the channel does to data and STATUS
PDUs, what comes out is an order-preserving subsequence of what went in, and a prefix
of it when the reordering timeout is off. -/
theorem am_delivers_subsequence (txCfg rxCfg : AmConfig) (events : List AmEvent) (s : AmLink)
    (run : runFrom AmLink.step (AmLink.init txCfg rxCfg) events = some s)
    (bound : s.pduCount < 65536) :
    s.history.delivered.Sublist s.accepted ∧
      (rxCfg.tReorderMs = 0 → s.history.delivered <+: s.accepted) := by
  have hsynced := (AmLink.run_sound run (Nat.le_of_lt bound)).synced_of_lt bound
  have hsub := hsynced.tracks.out_sublist
  refine ⟨by simpa using hsub, fun hzero => ?_⟩
  have hcfg : s.rx.cfg.tReorderMs = 0 := by rw [(AmLink.run_cfg run).2, hzero]
  simpa using hsynced.tracks.out_prefix hcfg

/-- A run with a duplicate, a reordering, a retransmission and a segmented SDU. -/
theorem am_delivers_subsequence_three_octets :
    ∃ s, runFrom AmLink.step
        (AmLink.init { maxPduPayload := 2 } { tReorderMs := 0 })
        [.send 0 [1, 2, 3] false, .rxData 1, .rxData 1, .buildStatus, .rxStatus 2000 0,
          .rxData 2] = some s ∧
      s.history.delivered = [[1, 2, 3]] ∧ s.history.delivered <+: s.accepted := by
  have hrun : (runFrom AmLink.step (AmLink.init { maxPduPayload := 2 } { tReorderMs := 0 })
      [.send 0 [1, 2, 3] false, .rxData 1, .rxData 1, .buildStatus, .rxStatus 2000 0,
        .rxData 2]).isSome = true := by decide +kernel
  obtain ⟨s, hs⟩ := Option.isSome_iff_exists.mp hrun
  have hstate : (runFrom AmLink.step (AmLink.init { maxPduPayload := 2 } { tReorderMs := 0 })
      [.send 0 [1, 2, 3] false, .rxData 1, .rxData 1, .buildStatus, .rxStatus 2000 0,
        .rxData 2]).map (fun s => (s.history.delivered, s.pduCount)) =
      some ([[1, 2, 3]], 2) := by decide +kernel
  rw [hs] at hstate
  simp only [Option.map_some, Option.some.injEq, Prod.mk.injEq] at hstate
  exact ⟨s, hs, hstate.1,
    (am_delivers_subsequence _ _ _ s hs (by rw [hstate.2]; decide)).2 rfl⟩

end AetherStack.Guarantees
