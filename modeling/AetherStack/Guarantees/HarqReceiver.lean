import AetherStack.Source.HarqCodec

/-!
# What `HarqRx::receive` makes of a frame

A transport block that `link_encode` built is delivered as it was. Any other octets are
answered or dropped, with one exception: `fec_decode` throws `std::length_error` on fewer
than six trellis steps, and `link_decode_bits` catches `std::invalid_argument` only. A header
that announces a single coded octet is all it takes.
-/
namespace AetherStack.Guarantees
open Source Fec

/-- Every MAC PDU whose coded length fits the header field is delivered as it was sent. -/
theorem harq_round_trip (r : HarqRx) (macPdu : Bytes) (proc ndi : UInt8)
    (hfits : (codedBytes (crcAttach macPdu)).length < 2 ^ 16) (hproc : proc.toNat ≤ 127)
    (hslot : r.SlotEmpty proc.toNat) :
    ∃ r' res, r.receive (linkEncode macPdu proc ndi) = .ok (r', res) ∧
      res.delivered = true ∧ res.macPdu = macPdu ∧ res.ack = true ∧ res.proc = proc := by
  have hmask : proc &&& 0x7F = proc := by
    apply UInt8.toNat_inj.mp
    rw [UInt8.toNat_and]
    exact (Nat.and_two_pow_sub_one_eq_mod proc.toNat 7).trans (Nat.mod_eq_of_lt (by omega))
  have hlen : 2 * (macPdu.length + 2) + 2 < 2 ^ 16 := by
    rw [length_codedBytes] at hfits
    simpa [crcAttach] using hfits
  have hreceive := HarqRx.receive_linkEncode r macPdu proc ndi hlen (by rwa [hmask])
  rw [hmask] at hreceive
  exact ⟨r, _, hreceive, rfl, rfl, rfl, rfl⟩

/-- The highest process number, on a receiver without a slot for it. -/
theorem harq_round_trip_process_127 :
    ∃ r' res, HarqRx.receive {} (linkEncode [1, 2, 3] 127 1) = .ok (r', res) ∧
      res.delivered = true ∧ res.macPdu = [1, 2, 3] ∧ res.ack = true ∧ res.proc = 127 :=
  harq_round_trip {} [1, 2, 3] 127 1 (by rw [length_codedBytes]; decide) (by decide)
    (HarqRx.slotEmpty_initial 127)

/-! ## Octets of any kind -/

/-- A HARQ header, behind it at least one octet, and exactly one announced. -/
def OneCodedOctet (frame : Bytes) : Prop :=
  isHarqFramed frame = true ∧ HarqHeader.size + 1 ≤ frame.length ∧ getU16 frame 2 = 1

instance (frame : Bytes) : Decidable (OneCodedOctet frame) := by
  unfold OneCodedOctet
  infer_instance

/-- The slot `receive` combines with, if it combines. -/
def combinesWith (r : HarqRx) (h : HarqHeader) (rxBits : Bytes) : Option SoftBuf :=
  r.soft[h.proc.toNat]?.filter fun buf =>
    h.ndi = 0 ∧ buf.bits ≠ [] ∧ buf.bits.length = rxBits.length

/-- The accesses of `receive` that depend on the header: the coded octets are in the frame,
the combining loop stays within both bit vectors, and the bits of a failed attempt are stored
into a slot that exists. -/
def InRange (r : HarqRx) (frame : Bytes) : Prop :=
  ∀ h, HarqHeader.unpack frame = some h → HarqHeader.size + h.len ≤ frame.length →
    let rxBits := bytesToBits ((frame.drop HarqHeader.size).take h.len)
    rxBits.length = 8 * h.len ∧
      (∀ buf, combinesWith r h rxBits = some buf →
        ∀ i < min (validCodedBits h) rxBits.length, i < rxBits.length ∧ i < buf.bits.length) ∧
      ∀ bits, h.proc.toNat < (HarqRx.updateSoft r.soft h false bits).length

/-- Every access of the receiver is inside its frame. -/
theorem receive_inRange (r : HarqRx) (frame : Bytes) : InRange r frame := by
  intro h _ hsize
  refine ⟨?_, ?_, ?_⟩
  · rw [length_bytesToBits, List.length_take, List.length_drop]
    omega
  · intro buf hbuf i hi
    have hcombines := (Option.filter_eq_some_iff.mp hbuf).2
    simp only [decide_eq_true_eq] at hcombines
    omega
  · intro bits
    simp only [HarqRx.updateSoft, Bool.false_eq_true, or_false, if_false, List.length_set,
      List.length_rightpad]
    split <;> omega

theorem unpack_of_framed {frame : Bytes} (h : isHarqFramed frame = true) :
    ∃ header, HarqHeader.unpack frame = some header ∧ header.len = getU16 frame 2 := by
  have hframed : HarqHeader.size ≤ frame.length ∧ frame.getD 6 0 = 0xA9 := by
    simpa [isHarqFramed] using h
  unfold HarqHeader.unpack
  rw [if_neg]
  · exact ⟨_, rfl, rfl⟩
  · rintro (hshort | hmagic)
    · omega
    · exact hmagic hframed.2

theorem framed_of_unpack {frame : Bytes} {header : HarqHeader}
    (h : HarqHeader.unpack frame = some header) :
    isHarqFramed frame = true ∧ header.len = getU16 frame 2 := by
  unfold HarqHeader.unpack at h
  split at h
  · cases h
  · rename_i hread
    rw [not_or, not_lt, not_not] at hread
    obtain rfl := Option.some.inj h
    exact ⟨by simpa [isHarqFramed] using hread, rfl⟩

/-- `fec_decode` on one to five trellis steps. -/
theorem fecDecode_lengthError_iff (coded : Bytes) :
    fecDecode coded none = .error .lengthError ↔
      coded ≠ [] ∧ coded.length % 2 = 0 ∧ coded.length < 12 := by
  unfold fecDecode
  by_cases hodd : coded.length % 2 ≠ 0 ∨ coded = []
  · rw [if_pos hodd]
    simp only [Except.error.injEq, reduceCtorEq, false_iff]
    rintro ⟨hne, heven, -⟩
    rcases hodd with hodd | hempty
    · exact hodd heven
    · exact hne hempty
  · rw [if_neg hodd]
    rw [not_or, not_not] at hodd
    dsimp only
    by_cases hshort : coded.length / 2 < tailBits
    · rw [if_pos hshort]
      simp only [true_iff]
      exact ⟨hodd.2, hodd.1, by rw [tailBits] at hshort; omega⟩
    · rw [if_neg hshort]
      simp only [reduceCtorEq, false_iff]
      rintro ⟨-, heven, hlt⟩
      rw [tailBits] at hshort
      omega

/-- Whole octets of information pack, so only `fec_decode` can throw what is not caught. -/
theorem linkDecodeBits_error_iff (bits : Bytes) (infoLen : Nat) :
    (∃ e, linkDecodeBits bits infoLen = .error e) ↔ fecDecode bits none = .error .lengthError := by
  unfold linkDecodeBits
  cases hdecode : fecDecode bits none with
  | error e =>
    cases e with
    | invalidArgument => simp
    | lengthError => simp
  | ok info =>
    dsimp only
    split
    · simp
    · rename_i hlen
      have hpack : bitsToBytes info = .ok (bitsToBytesLoop (info.length / 8) info) := by
        rw [bitsToBytes, if_neg (by omega)]
      simp [hpack]

/-- What is decoded is never longer than the burst. -/
theorem length_decodeInput (soft : List SoftBuf) (h : HarqHeader) (rxBits : Bytes) :
    (HarqRx.decodeInput soft h rxBits).length = min rxBits.length (validCodedBits h) := by
  unfold HarqRx.decodeInput
  dsimp only
  split
  · simp
  · split
    · simp [HarqRx.combine]
    · simp

/-- What is decoded is empty, a single octet, or enough for the tail: the header announces at
least the twelve bits of an empty block. -/
theorem decodeInput_short_iff (soft : List SoftBuf) (h : HarqHeader) {rxBits : Bytes}
    (hlen : rxBits.length = 8 * h.len) :
    fecDecode (HarqRx.decodeInput soft h rxBits) none = .error .lengthError ↔ h.len = 1 := by
  have hbits := length_decodeInput soft h rxBits
  have hvalid : validCodedBits h = 16 * h.infoLen + 12 := by
    unfold validCodedBits
    omega
  rw [fecDecode_lengthError_iff, ← List.length_pos_iff, hbits, hlen, hvalid]
  constructor
  · rintro ⟨hpos, -, hlt⟩
    omega
  · intro hone
    omega

/-- Only a coded length of one octet makes the decoder throw. -/
theorem receive_returns_iff (r : HarqRx) (frame : Bytes) :
    (∃ out, r.receive frame = .ok out) ↔ ¬ OneCodedOctet frame := by
  unfold HarqRx.receive
  cases hunpack : HarqHeader.unpack frame with
  | none =>
    simp only [Except.ok.injEq, exists_eq', true_iff]
    rintro ⟨hframed, -⟩
    obtain ⟨header, hread, -⟩ := unpack_of_framed hframed
    rw [hunpack] at hread
    cases hread
  | some header =>
    obtain ⟨hframed, hlen⟩ := framed_of_unpack hunpack
    dsimp only
    split
    · rename_i hshort
      simp only [Except.ok.injEq, exists_eq', true_iff]
      rintro ⟨-, hsize, hone⟩
      omega
    · rename_i hfits
      have hbits := (receive_inRange r frame header hunpack (not_lt.mp hfits)).1
      have hthrows := (linkDecodeBits_error_iff _ header.infoLen).trans
        (decodeInput_short_iff r.soft header hbits)
      cases hdecode : linkDecodeBits (HarqRx.decodeInput r.soft header
          (bytesToBits ((frame.drop HarqHeader.size).take header.len))) header.infoLen with
      | error e =>
        have hone := hthrows.mp ⟨e, hdecode⟩
        simp only [reduceCtorEq, exists_false, false_iff, not_not]
        exact ⟨hframed, by omega, hlen ▸ hone⟩
      | ok decoded =>
        simp only [Except.ok.injEq, exists_eq', true_iff]
        rintro ⟨-, -, hone⟩
        obtain ⟨e, he⟩ := hthrows.mpr (hlen.trans hone)
        rw [hdecode] at he
        cases he

/-- In every state and for every frame `receive` stays in range, and it returns unless the frame
announces a single coded octet and has it. -/
theorem harq_receive_total_iff (r : HarqRx) (frame : Bytes) :
    ((∃ out, r.receive frame = .ok out) ∧ InRange r frame) ↔ ¬ OneCodedOctet frame := by
  rw [receive_returns_iff, and_iff_left (receive_inRange r frame)]

/-- Eight octets that end the process. -/
theorem harq_receive_throws :
    HarqRx.receive {} [0, 0, 1, 0, 0, 0, 0xA9, 0] = .error .lengthError := by
  decide

end AetherStack.Guarantees
