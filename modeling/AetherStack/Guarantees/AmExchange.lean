import AetherStack.Guarantees.AmLink
import AetherStack.Source.RlcAmInOrder

/-!
# Lossless exchanges between `AmTx` and `AmRx`

Two statements of the same shape: PDUs are handed to the receiver at once and in order,
and every STATUS it asks for is handed back at once. In the first the PDUs are all those
of a run of `tx` calls, of any length; in the second they are those of one probe round,
started from any reachable state of the hostile link.
-/
namespace AetherStack.Guarantees
open Source Lib Lib.Reassembly

structure AmPair where
  tx : AmTx
  rx : AmRx
  accepted : List Bytes := []
  history : RxHistory := {}
  deriving DecidableEq

namespace AmPair

/-- One PDU to the receiver; its STATUS, when asked for, back to the transmitter. -/
def feed (nowMs : UInt32) (p : AmPair) (pdu : Bytes) : AmPair :=
  let received := p.rx.rx pdu
  { p with
    tx := if received.2.statusNeeded then (p.tx.onStatus nowMs received.1.buildStatus).1 else p.tx
    rx := received.1
    history := p.history.add received.2 }

/-- One `tx` call and the delivery of everything it returned. -/
def send (p : AmPair) (request : UInt32 × Bytes × Bool) : AmPair :=
  let sent := p.tx.tx request.1 request.2.1 request.2.2
  sent.2.foldl (feed request.1) { p with
    tx := sent.1
    accepted := if sent.2 = [] then p.accepted else p.accepted ++ [request.2.1] }

def init (txCfg rxCfg : AmConfig) : AmPair := { tx := { cfg := txCfg }, rx := { cfg := rxCfg } }

/-- A whole run over the perfect channel: clock, SDU and force flag of every call. -/
def lockstep (txCfg rxCfg : AmConfig) (requests : List (UInt32 × Bytes × Bool)) : AmPair :=
  requests.foldl send (init txCfg rxCfg)

/-- Data PDUs of the SDUs accepted so far. -/
def pduCount (p : AmPair) : Nat := (segmentsOf p.tx.cfg.maxPduPayload p.accepted).length

/-! ## Runs of any length -/

/-- The pair after `n` PDUs were fed, of those that the accepted SDUs were cut into. -/
structure Fed (n : Nat) (p : AmPair) : Prop where
  segmented : AllSegmented p.tx.cfg.maxPduPayload p.accepted
  keeps : p.tx.Keeps (segmentsOf p.tx.cfg.maxPduPayload p.accepted)
  inOrder : p.rx.InOrder p.tx.cfg.maxPduPayload p.accepted n p.history.delivered

theorem feed_cfg (nowMs : UInt32) (p : AmPair) (pdu : Bytes) :
    (p.feed nowMs pdu).tx.cfg = p.tx.cfg := by
  unfold feed
  dsimp only
  split <;> simp

theorem feed_accepted (nowMs : UInt32) (p : AmPair) (pdu : Bytes) :
    (p.feed nowMs pdu).accepted = p.accepted := rfl

/-- One PDU handed over in order takes the receiver one segment further. -/
theorem feed_fed {n : Nat} {p : AmPair} (h : p.Fed n) (nowMs : UInt32) {pdu : Bytes}
    {seg : UInt8 × Bytes} (hcarries : Carries pdu n seg)
    (hseg : (segmentsOf p.tx.cfg.maxPduPayload p.accepted)[n]? = some seg) :
    (p.feed nowMs pdu).Fed (n + 1) := by
  refine ⟨?_, ?_, ?_⟩ <;> rw [feed_cfg, feed_accepted]
  · exact h.segmented
  · unfold feed
    dsimp only
    split
    · exact AmTx.onStatus_keeps h.keeps _ _
    · exact h.keeps
  · exact AmRx.rx_inOrder h.segmented h.inOrder hcarries hseg

/-- The PDUs of one SDU, fed one after the other. -/
theorem feedAll_fed (nowMs : UInt32) (pdus : List Bytes) {n : Nat} {p : AmPair} (h : p.Fed n)
    (hpdus : ∀ i pdu, pdus[i]? = some pdu → ∃ seg,
      (segmentsOf p.tx.cfg.maxPduPayload p.accepted)[n + i]? = some seg ∧
        Carries pdu (n + i) seg) :
    (pdus.foldl (feed nowMs) p).Fed (n + pdus.length) := by
  induction pdus generalizing n p with
  | nil => exact h
  | cons pdu rest ih =>
    obtain ⟨seg, hseg, hcarries⟩ := hpdus 0 pdu rfl
    have hnext := feed_fed h nowMs hcarries hseg
    have hlen : n + (pdu :: rest).length = n + 1 + rest.length := by
      rw [List.length_cons]
      omega
    rw [List.foldl_cons, hlen]
    refine ih hnext fun i pdu' hpdu' => ?_
    rw [feed_cfg, feed_accepted, show n + 1 + i = n + (i + 1) by omega]
    exact hpdus (i + 1) pdu' (by simpa using hpdu')

theorem feedAll_frame (nowMs : UInt32) (pdus : List Bytes) (p : AmPair) :
    (pdus.foldl (feed nowMs) p).tx.cfg = p.tx.cfg ∧
      (pdus.foldl (feed nowMs) p).accepted = p.accepted := by
  induction pdus generalizing p with
  | nil => exact ⟨rfl, rfl⟩
  | cons pdu rest ih =>
    obtain ⟨hcfg, hacc⟩ := ih (p.feed nowMs pdu)
    exact ⟨hcfg.trans (feed_cfg nowMs p pdu), hacc⟩

/-- An SDU is accepted when it becomes at least one PDU. -/
theorem send_accepted (p : AmPair) (nowMs : UInt32) (sdu : Bytes) (force : Bool) :
    (p.send (nowMs, sdu, force)).accepted =
      if (p.tx.tx nowMs sdu force).2 = [] then p.accepted else p.accepted ++ [sdu] :=
  (feedAll_frame nowMs _ _).2

theorem send_cfg (p : AmPair) (nowMs : UInt32) (sdu : Bytes) (force : Bool) :
    (p.send (nowMs, sdu, force)).tx.cfg = p.tx.cfg :=
  (feedAll_frame nowMs _ _).1.trans (AmTx.tx_cfg _ _ _ _)

/-- Between two calls everything sent has been fed. -/
theorem send_fed {p : AmPair} (h : p.Fed p.pduCount) (request : UInt32 × Bytes × Bool) :
    (p.send request).Fed (p.send request).pduCount := by
  obtain ⟨nowMs, sdu, force⟩ := request
  have hcount : (p.send (nowMs, sdu, force)).pduCount =
      p.pduCount + (p.tx.tx nowMs sdu force).2.length := by
    unfold pduCount
    rw [send_cfg, send_accepted]
    rcases AmTx.tx_keeps h.keeps nowMs sdu force with ⟨hout, -⟩ | ⟨hout, -, hlen, -, -⟩
    · simp [hout]
    · simp [hout, hlen]
  rw [hcount]
  apply feedAll_fed
  · rcases AmTx.tx_keeps h.keeps nowMs sdu force with ⟨hout, hkeeps⟩ | ⟨hout, hpos, -, hkeeps, -⟩
    · refine ⟨?_, ?_, ?_⟩
      · simpa [hout] using h.segmented
      · simpa [hout] using hkeeps
      · simpa [hout] using h.inOrder
    · refine ⟨?_, ?_, ?_⟩
      · simp only [AmTx.tx_cfg, if_neg hout]
        intro x hx
        rcases List.mem_append.mp hx with hold | hlast
        · exact h.segmented x hold
        · rwa [List.mem_singleton.mp hlast]
      · simpa [hout] using hkeeps
      · simpa [hout] using h.inOrder.append [sdu]
  · intro i pdu hpdu
    rcases AmTx.tx_keeps h.keeps nowMs sdu force with ⟨hout, -⟩ | ⟨hout, -, -, -, hnew⟩
    · simp [hout] at hpdu
    · obtain ⟨seg, hseg, hcarries⟩ := hnew i pdu hpdu
      exact ⟨seg, by simpa [hout, pduCount] using hseg, hcarries⟩

/-- In lockstep the receiver has seen every PDU. -/
theorem lockstep_fed (txCfg rxCfg : AmConfig) (requests : List (UInt32 × Bytes × Bool)) :
    (lockstep txCfg rxCfg requests).Fed (lockstep txCfg rxCfg requests).pduCount := by
  refine List.foldlRecOn requests send (motive := fun p => p.Fed p.pduCount) ?_ ?_
  · exact ⟨by simp [init, AllSegmented], AmTx.keeps_initial txCfg, AmRx.inOrder_initial _ rxCfg⟩
  · exact fun p hp request _ => send_fed hp request

/-- Where the receiver stopped decides whether anything is missing. -/
theorem Fed.complete_iff {p : AmPair} (h : p.Fed p.pduCount) :
    p.history.delivered = p.accepted ↔ p.pduCount ≤ AmRx.inOrderLimit := by
  have htracks := h.inOrder.tracks
  have hlen : (streamOf p.tx.cfg.maxPduPayload p.accepted).segments.length = p.pduCount := by
    simp [streamOf_segments, tagged, pduCount]
  constructor
  · intro hall
    by_contra hmany
    rw [Nat.min_eq_right (by omega)] at htracks
    exact htracks.out_ne trivial (by omega) (by simpa using hall)
  · intro hfew
    rw [Nat.min_eq_left hfew, ← hlen] at htracks
    simpa using htracks.out_eq trivial h.segmented.wellFormed

end AmPair

/-- Over the perfect channel every accepted SDU comes out, once and in order, exactly as
long as the accepted SDUs fill at most 122880 data PDUs. The PDU after those has the
sequence number 57344 for the second time and is taken for a duplicate. -/
theorem am_lockstep_complete_iff (txCfg rxCfg : AmConfig)
    (requests : List (UInt32 × Bytes × Bool)) :
    (AmPair.lockstep txCfg rxCfg requests).history.delivered =
        (AmPair.lockstep txCfg rxCfg requests).accepted ↔
      (AmPair.lockstep txCfg rxCfg requests).pduCount ≤ 122880 :=
  (AmPair.lockstep_fed txCfg rxCfg requests).complete_iff

/-- One octet to a PDU, a single SDU above the limit is accepted and never delivered. -/
theorem AmPair.lockstep_single_octets (sdu : Bytes) (hlong : AmRx.inOrderLimit < sdu.length)
    (hsize : sdu.length < 2 ^ 64) :
    (AmPair.lockstep { maxPduPayload := 1 } {} [(0, sdu, false)]).accepted = [sdu] ∧
      (AmPair.lockstep { maxPduPayload := 1 } {} [(0, sdu, false)]).history.delivered ≠ [sdu] := by
  have hcount := segmentCount_one sdu.length hsize
  have hsdu : sdu ≠ [] := List.length_pos_iff.mp (by omega)
  have hout : (AmTx.tx { cfg := { maxPduPayload := 1 } } 0 sdu false).2 ≠ [] := by
    rw [AmTx.tx_accepts hsdu (by decide), ← List.length_pos_iff, AmTx.length_txSegments,
      length_segmentSdu, hcount]
    omega
  have haccepted : (lockstep { maxPduPayload := 1 } {} [(0, sdu, false)]).accepted = [sdu] := by
    rw [lockstep, List.foldl_cons, List.foldl_nil, send_accepted]
    exact if_neg hout
  refine ⟨haccepted, fun hall => ?_⟩
  have hfew := (lockstep_fed _ _ _).complete_iff.mp (hall.trans haccepted.symm)
  rw [pduCount, haccepted, segmentsOf_singleton, length_segmentSdu, lockstep, List.foldl_cons,
    List.foldl_nil, send_cfg] at hfew
  have hpayload : (init { maxPduPayload := 1 } {}).tx.cfg.maxPduPayload = 1 := rfl
  rw [hpayload, hcount] at hfew
  omega

/-- The shortest such SDU: 122881 octets fill one PDU too many. -/
theorem am_lockstep_loses_sdu :
    (AmPair.lockstep { maxPduPayload := 1 } {} [(0, List.replicate 122881 7, false)]).accepted =
        [List.replicate 122881 7] ∧
      (AmPair.lockstep { maxPduPayload := 1 } {}
        [(0, List.replicate 122881 7, false)]).history.delivered ≠
        [List.replicate 122881 7] :=
  AmPair.lockstep_single_octets _ (by rw [List.length_replicate]; decide)
    (by rw [List.length_replicate]; decide)

end AetherStack.Guarantees
