import AetherStack.Guarantees.AmExchange

/-!
# The probe round

`AmTx::tick` resends the oldest unacknowledged PDUs when the line has been silent, "the
peer's STATUS may itself have been lost" (rlc_am.h:85-88). When the receiver already has
them all, every resent PDU lies below its window edge. `AmRx::rx` returns on such a PDU
before it looks at the poll bit, so no STATUS is asked for and the round leaves the
buffer as it was.
-/
namespace AetherStack.Guarantees
open Source Lib

namespace AmPair

/-- A probe at `nowMs`, its PDUs fed to the receiver, every STATUS asked for fed back. -/
def probeRound (nowMs : UInt32) (p : AmPair) : AmPair :=
  (p.tx.tick nowMs).2.foldl (feed nowMs) { p with tx := (p.tx.tick nowMs).1 }

end AmPair

namespace AmLink

/-- The two entities of a link, to be connected by a perfect channel from now on. -/
def pair (s : AmLink) : AmPair := ⟨s.tx, s.rx, s.accepted, s.history⟩

/-- A silent transmitter whose whole buffer the receiver has already accepted. -/
structure ProbeDue (s : AmLink) (nowMs : UInt32) : Prop where
  poll_pos : 0 < s.tx.cfg.tPollMs
  batch_pos : 1 ≤ s.tx.cfg.probeBatch
  every_pos : 1 ≤ s.tx.cfg.pollEvery
  silent : clock nowMs - s.tx.lastProgressMs ≥ clock s.tx.cfg.tPollMs
  unacked : s.tx.txBuffer.isEmpty = false
  received : ∀ (sn : Nat) (pdu : Bytes), s.tx.txBuffer[sn]? = some pdu →
    ∃ d, decodeData pdu = some d ∧ (d.seq, ⟨d.fi, d.payload⟩) ∈ s.history.accepted

end AmLink

/-- A PDU below the edge is dropped without a word, whatever its poll bit says. -/
theorem rxData_stale {r : AmRx} {d : AmDataPdu} (hstale : d.seq < r.vrNext) :
    (r.rxData d).2 = {} ∧ (r.rxData d).1.vrNext = r.vrNext := by
  unfold AmRx.rxData
  split
  · exact ⟨rfl, rfl⟩
  · dsimp only
    rw [if_pos hstale]
    exact ⟨rfl, rfl⟩

/-- So feeding it asks for no STATUS and leaves the transmitter alone. -/
theorem AmPair.feed_stale {p : AmPair} {pdu : Bytes} {d : AmDataPdu} (nowMs : UInt32)
    (hd : decodeData pdu = some d) (hstale : d.seq < p.rx.vrNext) :
    (p.feed nowMs pdu).tx = p.tx ∧ (p.feed nowMs pdu).rx.vrNext = p.rx.vrNext := by
  obtain ⟨hout, hedge⟩ := rxData_stale hstale
  have hrx : p.rx.rx pdu = p.rx.rxData d := by simp [AmRx.rx, hd]
  simp only [feed, hrx, hout]
  exact ⟨rfl, hedge⟩

/-- A round of PDUs the receiver has passed gives the transmitter nothing. -/
theorem AmPair.feedAll_stale (nowMs : UInt32) (pdus : List Bytes) (p : AmPair)
    (hpdus : ∀ pdu ∈ pdus, ∃ d, decodeData pdu = some d ∧ d.seq < p.rx.vrNext) :
    (pdus.foldl (feed nowMs) p).tx = p.tx := by
  induction pdus generalizing p with
  | nil => rfl
  | cons pdu rest ih =>
    obtain ⟨d, hd, hstale⟩ := hpdus pdu (by simp)
    obtain ⟨htx, hedge⟩ := feed_stale nowMs hd hstale
    rw [List.foldl_cons, ih, htx]
    intro pdu' hpdu'
    rw [hedge]
    exact hpdus pdu' (by simp [hpdu'])

/-- In every reachable state in which the probe is due and the receiver already has the
whole buffer, the probe round leaves the buffer exactly as it was. -/
theorem am_probe_never_heals (txCfg rxCfg : AmConfig) (events : List AmEvent) (s : AmLink)
    (nowMs : UInt32)
    (run : runFrom AmLink.step (AmLink.init txCfg rxCfg) events = some s)
    (bound : s.pduCount < 65536) (due : s.ProbeDue nowMs) :
    ¬ (s.pair.probeRound nowMs).tx.txBuffer.size < s.tx.txBuffer.size := by
  have hsynced := (AmLink.run_sound run (Nat.le_of_lt bound)).synced_of_lt bound
  have hstale : ∀ pdu ∈ (s.tx.tick nowMs).2, ∃ d, decodeData pdu = some d ∧ d.seq < s.rx.vrNext := by
    intro pdu hpdu
    obtain ⟨sn, hsn⟩ := AmTx.tick_mem hpdu
    obtain ⟨d, hd, haccepted⟩ := due.received sn pdu hsn
    exact ⟨d, hd, (hsynced.accepted_genuine _ haccepted).1⟩
  have hround : (s.pair.probeRound nowMs).tx = (s.tx.tick nowMs).1 :=
    AmPair.feedAll_stale nowMs _ { s.pair with tx := (s.tx.tick nowMs).1 } hstale
  rw [hround, AmTx.tick_txBuffer]
  exact Nat.lt_irrefl _

/-- One PDU, received, its STATUS lost. -/
def lostStatusRun : List AmEvent := [.send 0 [7] false, .rxData 0]

/-- The state behind `lostStatusRun` when every PDU polls. -/
def lostStatusState : AmLink :=
  (runFrom AmLink.step (AmLink.init { pollEvery := 1 } {}) lostStatusRun).getD (AmLink.init {} {})

/-- The state after the loss of a STATUS is one of those a probe is due in. -/
theorem lostStatusState_due : lostStatusState.ProbeDue 1000 where
  poll_pos := by decide
  batch_pos := by decide
  every_pos := by decide
  silent := by decide
  unacked := by decide
  received := by
    intro sn pdu hpdu
    have hmem : (sn, pdu) ∈ lostStatusState.tx.txBuffer.toList :=
      Std.ExtTreeMap.mem_toList_iff_getElem?_eq_some.mpr hpdu
    have hlist : lostStatusState.tx.txBuffer.toList = [(0, [0x88, 0, 0, 7])] := by decide
    rw [hlist] at hmem
    obtain ⟨rfl, rfl⟩ : sn = 0 ∧ pdu = [0x88, 0, 0, 7] := by simpa using hmem
    exact ⟨⟨0, true, 0, [7]⟩, by decide, by decide⟩

/-- The window with one PDU in it stays full after the probe round. -/
theorem am_probe_leaves_buffer_full :
    runFrom AmLink.step (AmLink.init { pollEvery := 1 } {}) lostStatusRun =
        some lostStatusState ∧
      lostStatusState.pduCount < 65536 ∧ lostStatusState.ProbeDue 1000 ∧
      lostStatusState.tx.txBuffer.size = 1 ∧
      (lostStatusState.pair.probeRound 1000).tx.txBuffer.size = 1 :=
  ⟨by decide, by decide, lostStatusState_due, by decide,
    by decide⟩

theorem am_probe_never_heals_single :
    ¬ (lostStatusState.pair.probeRound 1000).tx.txBuffer.size <
      lostStatusState.tx.txBuffer.size :=
  am_probe_never_heals { pollEvery := 1 } {} lostStatusRun lostStatusState 1000
    (by decide) (by decide) lostStatusState_due

end AetherStack.Guarantees
