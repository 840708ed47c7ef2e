import AetherStack.Source.RlcAm

/-!
# What `AmTx` sends and keeps

`Carries pdu n seg` says that the octets `pdu` are data PDU number `n`, counted from
the reset without wrapping, and hold segment `seg`. `Keeps segs t` is the
transmitter's invariant: the counter is the number of segments sent so far and every
buffered PDU sits under its own sequence number. It needs no bound on the run.
-/
namespace AetherStack.Source

/-- `pdu` is data PDU number `n` with segment `seg`, with or without the poll bit. -/
def Carries (pdu : Bytes) (n : Nat) (seg : UInt8 × Bytes) : Prop :=
  ∃ poll, decodeData pdu = some ⟨seg.1, poll, n % snModulus, seg.2⟩

/-- `pdu` is one of the PDUs that the segments `segs` were sent in. -/
def Genuine (segs : List (UInt8 × Bytes)) (pdu : Bytes) : Prop :=
  ∃ n seg, segs[n]? = some seg ∧ Carries pdu n seg

theorem Genuine.append {segs : List (UInt8 × Bytes)} {pdu : Bytes} (h : Genuine segs pdu)
    (more : List (UInt8 × Bytes)) : Genuine (segs ++ more) pdu := by
  obtain ⟨n, seg, hseg, hpdu⟩ := h
  have hn : n < segs.length := (List.getElem?_eq_some_iff.mp hseg).1
  exact ⟨n, seg, by rw [List.getElem?_append_left hn, hseg], hpdu⟩

/-- With at most `2 ^ 16` segments the sequence number identifies the segment. -/
theorem Genuine.decode {segs : List (UInt8 × Bytes)} {pdu : Bytes} (h : Genuine segs pdu)
    (bound : segs.length ≤ snModulus) :
    ∃ d, decodeData pdu = some d ∧ segs[d.seq]? = some (d.fi, d.payload) := by
  obtain ⟨n, seg, hseg, poll, hpdu⟩ := h
  have hn : n < segs.length := (List.getElem?_eq_some_iff.mp hseg).1
  refine ⟨_, hpdu, ?_⟩
  rw [Nat.mod_eq_of_lt (by omega)]
  exact hseg

namespace AmTx

structure Keeps (segs : List (UInt8 × Bytes)) (t : AmTx) : Prop where
  nextSn_eq : t.nextSn = segs.length % snModulus
  buffered : ∀ sn pdu, t.txBuffer[sn]? = some pdu →
    ∃ n seg, sn = n % snModulus ∧ segs[n]? = some seg ∧ Carries pdu n seg

/-- Every stored PDU carries a segment under its number. -/
theorem Keeps.genuine {segs : List (UInt8 × Bytes)} {t : AmTx} (h : t.Keeps segs) {sn : Nat}
    {pdu : Bytes} (hpdu : t.txBuffer[sn]? = some pdu) : Genuine segs pdu := by
  obtain ⟨n, seg, -, hseg, hcarries⟩ := h.buffered sn pdu hpdu
  exact ⟨n, seg, hseg, hcarries⟩

theorem keeps_initial (cfg : AmConfig) : Keeps [] { cfg := cfg : AmTx } where
  nextSn_eq := rfl
  buffered := by simp

@[simp] theorem txSegment_cfg (t : AmTx) (seg : UInt8 × Bytes) : (t.txSegment seg).1.cfg = t.cfg :=
  rfl

@[simp] theorem txSegments_cfg (t : AmTx) (segs : List (UInt8 × Bytes)) :
    (t.txSegments segs).1.cfg = t.cfg := by
  induction segs generalizing t with
  | nil => rfl
  | cons seg rest ih => simp [txSegments, ih]

@[simp] theorem length_txSegments (t : AmTx) (segs : List (UInt8 × Bytes)) :
    (t.txSegments segs).2.length = segs.length := by
  induction segs generalizing t with
  | nil => rfl
  | cons seg rest ih => simp [txSegments, ih]

/-- A PDU carries its segment under the next number. -/
theorem txSegment_carries (t : AmTx) (seg : UInt8 × Bytes)
    (hfi : seg.1 = 0x00 ∨ seg.1 = 0x10 ∨ seg.1 = 0x20 ∨ seg.1 = 0x30) :
    Carries (t.txSegment seg).2 t.nextSn seg :=
  ⟨_, decodeData_buildPdu t.nextSn seg.1 _ seg.2 hfi⟩

/-- Sending a segment stores its PDU. -/
theorem txSegment_keeps {segs : List (UInt8 × Bytes)} {t : AmTx} (h : t.Keeps segs)
    (seg : UInt8 × Bytes) (hfi : seg.1 = 0x00 ∨ seg.1 = 0x10 ∨ seg.1 = 0x20 ∨ seg.1 = 0x30) :
    Keeps (segs ++ [seg]) (t.txSegment seg).1 ∧ Carries (t.txSegment seg).2 segs.length seg := by
  have hcarries : Carries (t.txSegment seg).2 segs.length seg := by
    obtain ⟨poll, hpoll⟩ := t.txSegment_carries seg hfi
    exact ⟨poll, by rw [hpoll, h.nextSn_eq, Nat.mod_mod]⟩
  refine ⟨⟨?_, ?_⟩, hcarries⟩
  · simp [txSegment, h.nextSn_eq]
  · intro sn pdu hpdu
    simp only [txSegment, Std.ExtTreeMap.getElem?_insert] at hpdu
    split at hpdu
    · rename_i hsn
      -- the entry just written
      obtain rfl : t.nextSn = sn := by simpa using hsn
      obtain rfl : (t.txSegment seg).2 = pdu := by simpa [txSegment] using hpdu
      exact ⟨segs.length, seg, h.nextSn_eq, by simp, hcarries⟩
    · obtain ⟨n, seg', hsn, hseg, hc⟩ := h.buffered sn pdu hpdu
      have hn : n < segs.length := (List.getElem?_eq_some_iff.mp hseg).1
      exact ⟨n, seg', hsn, by rw [List.getElem?_append_left hn, hseg], hc⟩

/-- The segmentation loop numbers the PDUs consecutively and buffers every one. -/
theorem txSegments_keeps {segs : List (UInt8 × Bytes)} {t : AmTx} (h : t.Keeps segs)
    (new : List (UInt8 × Bytes))
    (hfi : ∀ seg ∈ new, seg.1 = 0x00 ∨ seg.1 = 0x10 ∨ seg.1 = 0x20 ∨ seg.1 = 0x30) :
    Keeps (segs ++ new) (t.txSegments new).1 ∧
      ∀ i pdu, (t.txSegments new).2[i]? = some pdu →
        ∃ seg, new[i]? = some seg ∧ Carries pdu (segs.length + i) seg := by
  induction new generalizing segs t with
  | nil => simpa [txSegments] using h
  | cons seg rest ih =>
    obtain ⟨hkeeps, hcarries⟩ := txSegment_keeps h seg (hfi seg (by simp))
    obtain ⟨hall, hrest⟩ := ih hkeeps (fun s hs => hfi s (by simp [hs]))
    refine ⟨by simpa [txSegments] using hall, ?_⟩
    intro i pdu hpdu
    cases i with
    | zero =>
      obtain rfl : (t.txSegment seg).2 = pdu := by simpa [txSegments] using hpdu
      exact ⟨seg, rfl, hcarries⟩
    | succ i =>
      obtain ⟨seg', hseg', hc⟩ := hrest i pdu (by simpa [txSegments] using hpdu)
      refine ⟨seg', by simpa using hseg', ?_⟩
      rw [List.length_append, List.length_singleton] at hc
      rwa [show segs.length + 1 + i = segs.length + (i + 1) by omega] at hc

/-- The loop adds the numbers it used to the buffer and no others. -/
theorem txSegments_mem {t : AmTx} {segs : List (UInt8 × Bytes)} {sn : Nat}
    (h : sn ∈ (t.txSegments segs).1.txBuffer) (hnext : t.nextSn < snModulus) :
    sn ∈ t.txBuffer ∨ ∃ i < segs.length, sn = (t.nextSn + i) % snModulus := by
  induction segs generalizing t with
  | nil => exact .inl h
  | cons seg rest ih =>
    rcases ih (t := (t.txSegment seg).1) h (Nat.mod_lt _ (by decide)) with hmem | ⟨i, hi, rfl⟩
    · rcases Std.ExtTreeMap.mem_insert.mp hmem with heq | hold
      · obtain rfl : t.nextSn = sn := by simpa using heq
        exact .inr ⟨0, by simp, (Nat.mod_eq_of_lt hnext).symm⟩
      · exact .inl hold
    · right
      refine ⟨i + 1, by simpa using hi, ?_⟩
      simp only [txSegment, Nat.mod_add_mod]
      congr 1
      omega

/-- What `tx` did: it refused the SDU and returned nothing, or it sent all of it. -/
theorem tx_cases (t : AmTx) (nowMs : UInt32) (sdu : Bytes) (force : Bool) :
    ((t.tx nowMs sdu force).2 = [] ∧ (t.tx nowMs sdu force).1.txBuffer = t.txBuffer ∧
      (t.tx nowMs sdu force).1.nextSn = t.nextSn ∧ (t.tx nowMs sdu force).1.cfg = t.cfg) ∨
    (0 < segmentCount sdu.length t.cfg.maxPduPayload ∧
      t.tx nowMs sdu force = txSegments { t with lastProgressMs := clock nowMs }
        (segmentSdu sdu t.cfg.maxPduPayload)) := by
  unfold tx
  split
  · exact .inl ⟨rfl, rfl, rfl, rfl⟩
  · split
    · exact .inl ⟨rfl, rfl, rfl, rfl⟩
    · by_cases hcount : 0 < segmentCount sdu.length t.cfg.maxPduPayload
      · exact .inr ⟨hcount, rfl⟩
      · have hnone : segmentSdu sdu t.cfg.maxPduPayload = [] := by
          rw [← List.length_eq_zero_iff, length_segmentSdu]
          omega
        rw [hnone]
        exact .inl ⟨rfl, rfl, rfl, rfl⟩

/-- The effect of `tx` on the invariant: a refused SDU changes nothing that matters, an
accepted one extends the stream by exactly its segments. -/
theorem tx_keeps {segs : List (UInt8 × Bytes)} {t : AmTx} (h : t.Keeps segs) (nowMs : UInt32)
    (sdu : Bytes) (force : Bool) :
    ((t.tx nowMs sdu force).2 = [] ∧ Keeps segs (t.tx nowMs sdu force).1) ∨
    ((t.tx nowMs sdu force).2 ≠ [] ∧ 0 < segmentCount sdu.length t.cfg.maxPduPayload ∧
      (t.tx nowMs sdu force).2.length = segmentCount sdu.length t.cfg.maxPduPayload ∧
      Keeps (segs ++ segmentSdu sdu t.cfg.maxPduPayload) (t.tx nowMs sdu force).1 ∧
      ∀ i pdu, (t.tx nowMs sdu force).2[i]? = some pdu → ∃ seg,
        (segs ++ segmentSdu sdu t.cfg.maxPduPayload)[segs.length + i]? = some seg ∧
          Carries pdu (segs.length + i) seg) := by
  rcases t.tx_cases nowMs sdu force with ⟨hout, hbuffer, hnext, -⟩ | ⟨hcount, heq⟩
  · exact .inl ⟨hout, ⟨hnext.trans h.nextSn_eq, by rw [hbuffer]; exact h.buffered⟩⟩
  · right
    have hstart : Keeps segs { t with lastProgressMs := clock nowMs } :=
      ⟨h.nextSn_eq, h.buffered⟩
    obtain ⟨hkeeps, hnew⟩ := txSegments_keeps hstart (segmentSdu sdu t.cfg.maxPduPayload)
      (fun seg hseg => segmentSdu_fi hseg)
    have hlen : (t.tx nowMs sdu force).2.length = segmentCount sdu.length t.cfg.maxPduPayload := by
      rw [heq, length_txSegments, length_segmentSdu]
    refine ⟨?_, hcount, hlen, by rw [heq]; exact hkeeps, ?_⟩
    · rw [← List.length_pos_iff, hlen]
      exact hcount
    · intro i pdu hpdu
      rw [heq] at hpdu
      obtain ⟨seg, hseg, hcarries⟩ := hnew i pdu hpdu
      refine ⟨seg, ?_, hcarries⟩
      rw [List.getElem?_append_right (Nat.le_add_right _ _), Nat.add_sub_cancel_left]
      exact hseg

/-- `tx` takes any nonempty SDU while there is room in the window. -/
theorem tx_accepts {t : AmTx} {nowMs : UInt32} {sdu : Bytes} {force : Bool} (hsdu : sdu ≠ [])
    (hroom : t.txBuffer.size < t.txLimit force) :
    t.tx nowMs sdu force = txSegments { t with lastProgressMs := clock nowMs }
      (segmentSdu sdu t.cfg.maxPduPayload) := by
  unfold tx
  rw [if_neg hsdu, if_neg (by omega)]

@[simp] theorem tx_cfg (t : AmTx) (nowMs : UInt32) (sdu : Bytes) (force : Bool) :
    (t.tx nowMs sdu force).1.cfg = t.cfg := by
  rcases t.tx_cases nowMs sdu force with ⟨-, -, -, hcfg⟩ | ⟨-, heq⟩
  · exact hcfg
  · rw [heq, txSegments_cfg]

@[simp] theorem tick_cfg (t : AmTx) (nowMs : UInt32) : (t.tick nowMs).1.cfg = t.cfg := by
  unfold tick
  split
  · rfl
  · split <;> rfl

@[simp] theorem tick_txBuffer (t : AmTx) (nowMs : UInt32) :
    (t.tick nowMs).1.txBuffer = t.txBuffer := by
  unfold tick
  split
  · rfl
  · split <;> rfl

@[simp] theorem tick_nextSn (t : AmTx) (nowMs : UInt32) : (t.tick nowMs).1.nextSn = t.nextSn := by
  unfold tick
  split
  · rfl
  · split <;> rfl

/-- The probe resends buffered PDUs only. -/
theorem tick_mem {t : AmTx} {nowMs : UInt32} {pdu : Bytes} (h : pdu ∈ (t.tick nowMs).2) :
    ∃ sn : Nat, t.txBuffer[sn]? = some pdu := by
  unfold tick at h
  split at h
  · simp at h
  · split at h
    · simp at h
    · obtain ⟨⟨sn, p⟩, hmem, rfl⟩ := List.mem_map.mp (List.mem_of_mem_take h)
      exact ⟨sn, Std.ExtTreeMap.mem_toList_iff_getElem?_eq_some.mp hmem⟩

/-- What `on_status` leaves in the buffer: all of it for a malformed STATUS, else the
entries whose number is not below the acknowledged one, as an integer. -/
theorem onStatus_txBuffer (t : AmTx) (nowMs : UInt32) (status : Bytes) :
    (t.onStatus nowMs status).1.txBuffer =
      if status.length < 4 ∨ status.getD 0 0 ≠ kAmDcControl then t.txBuffer
      else t.txBuffer.filter fun sn _ => ¬ sn < getU16 status 1 := by
  unfold onStatus
  split
  · rfl
  · dsimp only
    split <;> rfl

/-- A STATUS stores no PDU. -/
theorem onStatus_getElem? {t : AmTx} {nowMs : UInt32} {status : Bytes} {sn : Nat} {pdu : Bytes}
    (h : (t.onStatus nowMs status).1.txBuffer[sn]? = some pdu) : t.txBuffer[sn]? = some pdu := by
  rw [onStatus_txBuffer] at h
  split at h
  · exact h
  · rw [Std.ExtTreeMap.getElem?_filter'] at h
    exact (Option.filter_eq_some_iff.mp h).1

@[simp] theorem onStatus_cfg (t : AmTx) (nowMs : UInt32) (status : Bytes) :
    (t.onStatus nowMs status).1.cfg = t.cfg := by
  unfold onStatus
  split
  · rfl
  · dsimp only
    split <;> rfl

@[simp] theorem onStatus_nextSn (t : AmTx) (nowMs : UInt32) (status : Bytes) :
    (t.onStatus nowMs status).1.nextSn = t.nextSn := by
  unfold onStatus
  split
  · rfl
  · dsimp only
    split <;> rfl

/-- A STATUS that announces no hole causes no retransmission. -/
theorem onStatus_no_nack {t : AmTx} {nowMs : UInt32} {status : Bytes} (h : status.getD 3 0 = 0) :
    (t.onStatus nowMs status).2 = [] := by
  unfold onStatus
  split
  · rfl
  · dsimp only
    rw [if_neg]
    simp only [h]
    simp

/-- Retransmission on demand resends buffered PDUs only. -/
theorem onStatus_mem {t : AmTx} {nowMs : UInt32} {status : Bytes} {pdu : Bytes}
    (h : pdu ∈ (t.onStatus nowMs status).2) : ∃ sn : Nat, t.txBuffer[sn]? = some pdu := by
  unfold onStatus at h
  split at h
  · simp at h
  · dsimp only at h
    split at h
    · obtain ⟨sn, -, hsn⟩ := List.mem_filterMap.mp (List.mem_of_mem_take h)
      rw [Std.ExtTreeMap.getElem?_filter'] at hsn
      exact ⟨sn, (Option.filter_eq_some_iff.mp hsn).1⟩
    · simp at h

/-- A STATUS frees PDUs, and changes none that stays. -/
theorem onStatus_keeps {segs : List (UInt8 × Bytes)} {t : AmTx} (h : t.Keeps segs)
    (nowMs : UInt32) (status : Bytes) : Keeps segs (t.onStatus nowMs status).1 where
  nextSn_eq := by rw [onStatus_nextSn, h.nextSn_eq]
  buffered := fun sn pdu hpdu => h.buffered sn pdu (onStatus_getElem? hpdu)

theorem tick_keeps {segs : List (UInt8 × Bytes)} {t : AmTx} (h : t.Keeps segs)
    (nowMs : UInt32) : Keeps segs (t.tick nowMs).1 where
  nextSn_eq := by rw [tick_nextSn, h.nextSn_eq]
  buffered := by simpa using h.buffered

end AmTx

end AetherStack.Source
