import AetherStack.Lib.Run
import AetherStack.Source.RlcUmReceiver

/-!
# One UM bearer in one direction over a hostile channel

One `UmTx` and one `UmRx`, each with its own configuration and both just reset, and
everything ever handed to the channel. The channel loses, duplicates and reorders: a
receiving event names any index of what was sent, any number of times, or never. It does
not forge. `rx`, `tick` and `poll` come at any moment and with any clock value.
-/
namespace AetherStack.Guarantees
open Source Lib

structure UmLink where
  tx : UmTx
  rx : UmRx
  dataSent : List Bytes := []
  accepted : List Bytes := []
  polled : List Bytes := []
  deriving DecidableEq

inductive UmEvent where
  | send (sdu : Bytes)
  | rxData (nowMs : UInt32) (index : Nat)
  | tick (nowMs : UInt32)
  | poll
  deriving DecidableEq, Repr

namespace UmLink

def init (tx : UmTx) (rx : UmRx) : UmLink := { tx := tx.reset, rx := rx.reset }

/-- An SDU counts as accepted when `tx` returned PDUs for it. -/
def step (s : UmLink) : UmEvent → Option UmLink
  | .send sdu =>
    let sent := s.tx.tx sdu
    some { s with
      tx := sent.1
      dataSent := s.dataSent ++ sent.2
      accepted := if sent.2 = [] then s.accepted else s.accepted ++ [sdu] }
  | .rxData nowMs index => do
    let pdu ← s.dataSent[index]?
    some { s with rx := s.rx.rx nowMs pdu }
  | .tick nowMs => some { s with rx := s.rx.tick nowMs }
  | .poll => some { s with rx := s.rx.poll.1, polled := s.polled ++ s.rx.poll.2 }

/-- The segments of everything accepted; the index of one is its sequence number. -/
def segments (s : UmLink) : List (UInt8 × Bytes) :=
  segmentsOf s.tx.cfg.maxPduPayload s.accepted

/-- The link as long as the PDUs sent stay within half of the sequence-number space. -/
structure Sound (s : UmLink) : Prop where
  next : s.tx.nextSn = s.dataSent.length
  count : s.dataSent.length = s.segments.length
  genuine : ∀ (i : Nat) (pdu : Bytes), s.dataSent[i]? = some pdu →
    ∃ seg, s.segments[i]? = some seg ∧ pdu = UmTx.buildPdu i seg.1 seg.2
  settled : s.rx.Settled s.tx.cfg.maxPduPayload s.accepted s.polled

theorem sound_init (tx : UmTx) (rx : UmRx) : Sound (init tx rx) where
  next := rfl
  count := rfl
  genuine := by simp [init]
  settled := UmRx.settled_reset _ rx

/-- New PDUs are numbered on from the last one. -/
theorem send_sound {s : UmLink} (h : s.Sound) (sdu : Bytes)
    (bound : (s.dataSent ++ (s.tx.tx sdu).2).length < snModulus) :
    Sound { s with
      tx := (s.tx.tx sdu).1
      dataSent := s.dataSent ++ (s.tx.tx sdu).2
      accepted := if (s.tx.tx sdu).2 = [] then s.accepted else s.accepted ++ [sdu] } := by
  rcases s.tx.tx_cases sdu with hnone | ⟨htx, hne, hcount⟩
  · simp only [hnone, List.append_nil, if_true]
    exact h
  · have hlen : (s.tx.tx sdu).2.length = (segmentSdu sdu s.tx.cfg.maxPduPayload).length := by
      rw [htx, UmTx.length_txSegments]
    rw [List.length_append, hlen, ← h.next] at bound
    have hsegs : segmentsOf s.tx.cfg.maxPduPayload (s.accepted ++ [sdu]) =
        s.segments ++ segmentSdu sdu s.tx.cfg.maxPduPayload := by
      simp [segments]
    simp only [if_neg hne]
    refine ⟨?_, ?_, ?_, ?_⟩
    · rw [List.length_append, hlen, ← h.next, htx, (UmTx.txSegments_sn s.tx _ bound).1]
    · simp only [segments, UmTx.tx_cfg]
      rw [hsegs]
      rw [List.length_append, List.length_append, hlen, h.count]
    · intro i pdu hpdu
      simp only [segments, UmTx.tx_cfg]
      rw [hsegs]
      by_cases hold : i < s.dataSent.length
      · rw [List.getElem?_append_left hold] at hpdu
        rw [List.getElem?_append_left (by rw [← h.count]; exact hold)]
        exact h.genuine i pdu hpdu
      · rw [List.getElem?_append_right (by omega), htx,
          UmTx.txSegments_getElem? s.tx _ bound] at hpdu
        obtain ⟨seg, hseg, rfl⟩ := Option.map_eq_some_iff.mp hpdu
        refine ⟨seg, ?_, ?_⟩
        · rw [List.getElem?_append_right (by rw [← h.count]; omega), ← h.count]
          exact hseg
        · rw [h.next, Nat.add_sub_cancel' (by omega)]
    · rw [UmTx.tx_cfg]
      exact h.settled.append hcount

/-- With fewer than 32768 PDUs behind it a distance tells old from new. -/
theorem rxData_sound {s : UmLink} (h : s.Sound) (bound : s.dataSent.length < 32768)
    (nowMs : UInt32) {index : Nat} {pdu : Bytes} (hpdu : s.dataSent[index]? = some pdu) :
    Sound { s with rx := s.rx.rx nowMs pdu } := by
  obtain ⟨seg, hseg, rfl⟩ := h.genuine index pdu hpdu
  have hroom : s.segments.length < 32768 := h.count ▸ bound
  exact ⟨h.next, h.count, h.genuine, UmRx.rx_settled h.settled hroom nowMs hseg⟩

theorem step_dataSent {s s' : UmLink} {e : UmEvent} (h : s.step e = some s') :
    s.dataSent <+: s'.dataSent := by
  cases e with
  | send sdu =>
    rw [← Option.some.inj h]
    exact List.prefix_append _ _
  | rxData nowMs index =>
    obtain ⟨pdu, -, hs'⟩ := Option.bind_eq_some_iff.mp h
    rw [← Option.some.inj hs']
  | tick nowMs => rw [← Option.some.inj h]
  | poll => rw [← Option.some.inj h]

/-- Step lemma within half a turn of the numbers. -/
theorem step_sound {s s' : UmLink} {e : UmEvent} (h : s.Sound) (hstep : s.step e = some s')
    (bound : s'.dataSent.length ≤ 32767) : s'.Sound := by
  have hb : s.dataSent.length ≤ 32767 := Nat.le_trans (step_dataSent hstep).length_le bound
  cases e with
  | send sdu =>
    rw [← Option.some.inj hstep] at bound ⊢
    exact send_sound h sdu (by rw [snModulus]; dsimp only at bound; omega)
  | rxData nowMs index =>
    obtain ⟨pdu, hpdu, hs'⟩ := Option.bind_eq_some_iff.mp hstep
    rw [← Option.some.inj hs']
    exact rxData_sound h (by omega) nowMs hpdu
  | tick nowMs =>
    rw [← Option.some.inj hstep]
    have hroom : s.segments.length < snModulus := by
      rw [← h.count, snModulus]
      omega
    exact ⟨h.next, h.count, h.genuine, UmRx.tick_settled h.settled hroom nowMs⟩
  | poll =>
    rw [← Option.some.inj hstep]
    exact ⟨h.next, h.count, h.genuine, UmRx.poll_settled h.settled⟩

theorem run_sound {tx : UmTx} {rx : UmRx} {events : List UmEvent} {s : UmLink}
    (run : runFrom step (init tx rx) events = some s) (bound : s.dataSent.length ≤ 32767) :
    s.Sound :=
  runFrom_invariant_of_bound Sound (fun s => s.dataSent.length ≤ 32767)
    (fun _ _ _ hstep hb => Nat.le_trans (step_dataSent hstep).length_le hb)
    (fun _ _ _ h hstep hb => step_sound h hstep hb) (sound_init tx rx) run bound

end UmLink

/-- Within half of the sequence-number space: whatever the channel and the timers do, the
SDUs handed out are an order-preserving subsequence of the SDUs sent, each one intact. -/
theorem um_delivers_subsequence (tx : UmTx) (rx : UmRx) (events : List UmEvent) (s : UmLink)
    (run : runFrom UmLink.step (UmLink.init tx rx) events = some s)
    (bound : s.dataSent.length ≤ 32767) : s.polled.Sublist s.accepted := by
  have htracks := (UmLink.run_sound run bound).settled.tracks
  have hsub := htracks.out_sublist
  rw [streamOf_sdus] at hsub
  exact (List.sublist_append_left _ _).trans hsub

/-- A run with a reordering, a duplicate, a lost first segment and a far-ahead jump over the
gap: the headless second SDU is not handed out. -/
theorem um_delivers_subsequence_gap_skipped :
    ∃ s, runFrom UmLink.step
        (UmLink.init { cfg := { maxPduPayload := 2 } } { cfg := { window := 2 } })
        [.send [1, 2, 3], .send [4, 5, 6], .send [7], .rxData 0 1, .rxData 0 0, .rxData 1 0,
          .rxData 2 3, .tick 3, .rxData 4 4, .poll] = some s ∧
      s.polled = [[1, 2, 3], [7]] ∧ s.polled.Sublist s.accepted := by
  have hstate : (runFrom UmLink.step
      (UmLink.init { cfg := { maxPduPayload := 2 } } { cfg := { window := 2 } })
      [.send [1, 2, 3], .send [4, 5, 6], .send [7], .rxData 0 1, .rxData 0 0, .rxData 1 0,
        .rxData 2 3, .tick 3, .rxData 4 4, .poll]).map
        (fun s => (s.polled, s.dataSent.length)) = some ([[1, 2, 3], [7]], 5) := by
    decide
  obtain ⟨s, hs, hval⟩ := Option.map_eq_some_iff.mp hstate
  simp only [Prod.mk.injEq] at hval
  exact ⟨s, hs, hval.1, um_delivers_subsequence _ _ _ s hs (by rw [hval.2]; decide)⟩

end AetherStack.Guarantees
