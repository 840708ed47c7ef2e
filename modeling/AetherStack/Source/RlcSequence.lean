import AetherStack.Source.RlcAmReceiver
import AetherStack.Source.RlcAmTransmitter
import AetherStack.Source.Qos

/-!
# Sequence numbers, and what a transmitter may still send

The offset of a number from the next expected one while neither has wrapped, the numbers of the
PDUs of an unacknowledged transmitter, and `Holds`: the PDUs an acknowledged transmitter keeps for
its peer, in every call of stack/rlc/src/rlc_am.cpp:31-139 and rlc_um.cpp:8-35.
-/
namespace AetherStack.Source

/-! ## Unacknowledged mode -/

/-- Below 32768 the offset of a number ahead is the difference. -/
theorem snOffset_of_le {sn vrNext : Nat} (hle : vrNext ≤ sn) (hsn : sn < 32768) :
    snOffset sn vrNext = (sn - vrNext : Nat) := by
  have hd : (sn + (snModulus - vrNext)) % snModulus = sn - vrNext := by
    rw [snModulus]
    omega
  rw [snOffset, hd, if_pos (by omega)]

/-- The offset of a number behind is negative. -/
theorem snOffset_of_lt {sn vrNext : Nat} (hlt : sn < vrNext) (hvr : vrNext ≤ 32768) :
    snOffset sn vrNext = (sn : Int) - vrNext := by
  have hd : (sn + (snModulus - vrNext)) % snModulus = sn + (snModulus - vrNext) := by
    rw [snModulus]
    omega
  rw [snOffset, hd, snModulus, if_neg (by omega)]
  omega

namespace UmRx

variable {r : UmRx}

/-- Distance zero means the number itself. -/
theorem ahead_zero {sn : Nat} (h : r.ahead sn = some 0) (hsn : sn < snModulus)
    (hvr : r.vrNext < snModulus) : sn = r.vrNext := by
  unfold ahead at h
  dsimp only at h
  split at h
  · rename_i hin
    obtain ⟨hpos, -⟩ := hin
    have hzero := Option.some.inj h
    unfold snOffset at hzero hpos
    dsimp only at hzero hpos
    rw [snModulus] at hzero hpos hsn hvr
    split at hzero <;> omega
  · cases h

end UmRx

theorem UmTx.length_txSegments (t : UmTx) (segs : List (UInt8 × Bytes)) :
    (t.txSegments segs).2.length = segs.length := by
  induction segs generalizing t with
  | nil => rfl
  | cons seg rest ih => rw [txSegments, List.length_cons, ih, List.length_cons]

/-- Without a wrap the PDUs take consecutive numbers. -/
theorem UmTx.txSegments_sn (t : UmTx) (segs : List (UInt8 × Bytes))
    (hroom : t.nextSn + segs.length < snModulus) :
    (t.txSegments segs).1.nextSn = t.nextSn + segs.length ∧
      ∀ pdu ∈ (t.txSegments segs).2, getU16 pdu 1 < t.nextSn + segs.length := by
  induction segs generalizing t with
  | nil => simp [txSegments]
  | cons seg rest ih =>
    have hlen : (seg :: rest).length = rest.length + 1 := rfl
    have hnext : (t.nextSn + 1) % snModulus = t.nextSn + 1 := Nat.mod_eq_of_lt (by omega)
    obtain ⟨hsn, hbelow⟩ := ih { t with nextSn := t.nextSn + 1 } (by dsimp only; omega)
    dsimp only at hsn hbelow
    rw [txSegments, hnext]
    refine ⟨by dsimp only; omega, fun pdu hpdu => ?_⟩
    rcases List.mem_cons.mp hpdu with rfl | hpdu
    · have hseq : getU16 (buildPdu t.nextSn seg.1 seg.2) 1 = t.nextSn % snModulus :=
        getU16_putU16 [seg.1] seg.2 t.nextSn
      rw [hseq, Nat.mod_eq_of_lt (by omega)]
      omega
    · have := hbelow pdu hpdu
      omega

/-! ## The transmitters of a bearer -/

namespace RlcTx

/-- The PDU waits for its acknowledgement and may be sent again. -/
def Holds : (q : Qci) → RlcTx q → Bytes → Prop
  | .sig, t, pdu | .bestEffort, t, pdu => ∃ sn : Nat, (AmTx.txBuffer t)[sn]? = some pdu
  | .voice, _, _ | .video, _, _ => False

variable {q : Qci} {t : RlcTx q} {pdu : Bytes}

theorem not_holds_make (q : Qci) (pdu : Bytes) : ¬ Holds q (make q) pdu := by
  cases q <;> simp [Holds, make]

theorem not_holds_reset (t : RlcTx q) (pdu : Bytes) : ¬ Holds q (reset q t) pdu := by
  cases q <;> simp [Holds, reset, AmTx.reset]

/-- What the AM entity stores it held before or has just sent. -/
private theorem txSegments_holds {t : AmTx} {segs : List (UInt8 × Bytes)} {sn : Nat}
    (h : (t.txSegments segs).1.txBuffer[sn]? = some pdu) :
    (∃ sn : Nat, t.txBuffer[sn]? = some pdu) ∨ pdu ∈ (t.txSegments segs).2 := by
  induction segs generalizing t with
  | nil => exact .inl ⟨sn, h⟩
  | cons seg rest ih =>
    rw [AmTx.txSegments] at h ⊢
    rcases ih h with ⟨sn', hold⟩ | hnew
    · simp only [AmTx.txSegment] at hold
      rw [Std.ExtTreeMap.getElem?_insert] at hold
      split at hold
      · right
        rw [← Option.some.inj hold]
        exact List.mem_cons_self
      · exact .inl ⟨sn', hold⟩
    · exact .inr (List.mem_cons_of_mem _ hnew)

theorem send_holds {nowMs : UInt32} {sdu : Bytes} {force : Bool}
    (h : Holds q (send q t nowMs sdu force).1 pdu) :
    Holds q t pdu ∨ pdu ∈ (send q t nowMs sdu force).2 := by
  cases q with
  | sig | bestEffort =>
    obtain ⟨sn, hsn⟩ := h
    rcases AmTx.tx_cases t nowMs sdu force with ⟨-, hbuffer, -, -⟩ | ⟨-, htx⟩
    · left
      exact ⟨sn, by rwa [send, hbuffer] at hsn⟩
    · rw [send, htx] at hsn ⊢
      exact txSegments_holds hsn
  | voice | video => exact h.elim

/-- A tick sends again what is held. -/
theorem tick_mem {nowMs : UInt32} (h : pdu ∈ (tick q t nowMs).2) : Holds q t pdu := by
  cases q with
  | sig | bestEffort => exact AmTx.tick_mem h
  | voice | video => cases h

theorem tick_holds {nowMs : UInt32} (h : Holds q (tick q t nowMs).1 pdu) : Holds q t pdu := by
  cases q with
  | sig | bestEffort =>
    obtain ⟨sn, hsn⟩ := h
    exact ⟨sn, by rwa [tick, AmTx.tick_txBuffer] at hsn⟩
  | voice | video => exact h.elim

theorem onStatus_mem {nowMs : UInt32} {status : Bytes} (h : pdu ∈ (onStatus q t nowMs status).2) :
    Holds q t pdu := by
  cases q with
  | sig | bestEffort => exact AmTx.onStatus_mem h
  | voice | video => cases h

theorem onStatus_holds {nowMs : UInt32} {status : Bytes}
    (h : Holds q (onStatus q t nowMs status).1 pdu) : Holds q t pdu := by
  cases q with
  | sig | bestEffort =>
    obtain ⟨sn, hsn⟩ := h
    exact ⟨sn, AmTx.onStatus_getElem? hsn⟩
  | voice | video => exact h.elim

@[simp] theorem tick_nextSn (nowMs : UInt32) : nextSn q (tick q t nowMs).1 = nextSn q t := by
  cases q with
  | sig | bestEffort => exact AmTx.tick_nextSn t nowMs
  | voice | video => rfl

end RlcTx

end AetherStack.Source
