import AetherStack.Source.HarqCodec
import AetherStack.Source.PhyFrame
import AetherStack.Source.UeCore

/-!
# Frames over the air

What the transmitter maps onto data symbols is one long row, the tagged bits and zeros, cut at
the symbols; the receiver puts the row together again and drops the tag, and the length prefix
cuts off the zeros. The early drop of foreign data reads the type and the C-RNTI of the row
where `decode_frame` finds them.
-/
namespace AetherStack.Guarantees
open Source Source.Core Source.Mac Lib

variable {Row : Type}

namespace AirInterface

/-! ### Symbols -/

/-- Bits within the capacity need at most forty symbols, and these have room for the bits and the
MCS octet. -/
theorem frameDataSymbols_le {nBits nFft : Nat} {mcs : Mcs} (hfft : 0 < nFft) (hroom : 8 ≤ 2 * nFft)
    (h : nBits ≤ frameBitsCapacity nFft mcs) :
    frameDataSymbols nBits nFft mcs ≤ kFrameDataMaxSymbols ∧
      nBits + 8 ≤ 2 * nFft + (frameDataSymbols nBits nFft mcs - 1) * (mcs.bitsPerSymbol * nFft) := by
  have hwidth : 0 < mcs.bitsPerSymbol * nFft := Nat.mul_pos mcs.bitsPerSymbol_pos hfft
  simp only [frameBitsCapacity, Nat.mul_assoc] at h
  unfold frameDataSymbols
  generalize mcs.bitsPerSymbol * nFft = width at *
  dsimp only
  split
  · exact ⟨by decide, by omega⟩
  · rename_i hlong
    have hcover := Nat.lt_div_mul_add (a := nBits + 8 - 2 * nFft + width - 1) hwidth
    refine ⟨?_, ?_⟩
    · have hsymbols : (nBits + 8 - 2 * nFft + width - 1) / width < kFrameDataMaxSymbols := by
        rw [Nat.div_lt_iff_lt_mul hwidth]
        simp only [kFrameDataMaxSymbols] at h ⊢
        omega
      omega
    · rw [Nat.add_sub_cancel_left]
      omega

/-- The row that the symbols hold together. -/
def airRow (bits : Bytes) (nFft : Nat) (mcs : Mcs) : Bytes :=
  padTo 0 (2 * nFft + (frameDataSymbols bits.length nFft mcs - 1) * (mcs.bitsPerSymbol * nFft))
    (tagMcs bits mcs)

theorem headRow_eq (tagged : Bytes) (nFft : Nat) : headRow tagged nFft = padTo 0 (2 * nFft) tagged :=
  padTo_take _ _ _

theorem dataRow_eq (tagged : Bytes) (nFft : Nat) (mcs : Mcs) (s : Nat) :
    dataRow tagged nFft mcs s = padTo 0 (mcs.bitsPerSymbol * nFft)
      ((tagged.drop (2 * nFft)).drop (s * (mcs.bitsPerSymbol * nFft))) := by
  simp only [dataRow, List.drop_take, Nat.add_sub_cancel_left, padTo_take, List.drop_drop, Nat.mul_assoc]

/-- The rows of a burst, one behind the other, are the tagged bits padded once. -/
theorem airRow_eq (bits : Bytes) (nFft : Nat) (mcs : Mcs) :
    headRow (tagMcs bits mcs) nFft ++
      (List.range (frameDataSymbols bits.length nFft mcs - 1)).flatMap (dataRow (tagMcs bits mcs) nFft mcs) =
      airRow bits nFft mcs := by
  have hrows : dataRow (tagMcs bits mcs) nFft mcs = fun s => padTo 0 (mcs.bitsPerSymbol * nFft)
      (((tagMcs bits mcs).drop (2 * nFft)).drop (s * (mcs.bitsPerSymbol * nFft))) :=
    funext fun s => dataRow_eq _ _ _ s
  rw [headRow_eq, hrows, flatMap_padTo, padTo_append, airRow]

theorem length_tagMcs (bits : Bytes) (mcs : Mcs) : (tagMcs bits mcs).length = bits.length + 8 := by
  simp only [tagMcs, List.length_append, List.length_take, length_appendByteBits, List.length_drop]
  omega

/-- Bits that fit are the front of what the rows carry; the rest is zeros. -/
theorem airRow_eq_append {bits : Bytes} {nFft : Nat} (mcs : Mcs) (hfft : 4 ≤ nFft)
    (h : bits.length ≤ frameBitsCapacity nFft mcs) :
    ∃ k, airRow bits nFft mcs = tagMcs bits mcs ++ List.replicate k 0 := by
  have hcover := (frameDataSymbols_le (by omega) (by omega) h).2
  exact ⟨_, padTo_of_length_le 0 (by rw [length_tagMcs]; exact hcover)⟩

/-- Taking the tag out again. -/
theorem stripTag_tagMcs {bits : Bytes} (h : 16 ≤ bits.length) (mcs : Mcs) (rest : Bytes) :
    stripTag (tagMcs bits mcs ++ rest) = bits ++ rest := by
  have hhead : (bits.take 16).length = 16 := by
    rw [List.length_take]
    omega
  have htake : (bits.take 16 ++ (appendByteBits mcs.toOctet ++ (bits.drop 16 ++ rest))).take 16 =
      bits.take 16 :=
    List.take_left' hhead
  have hdrop : (bits.take 16 ++ (appendByteBits mcs.toOctet ++ (bits.drop 16 ++ rest))).drop 24 =
      bits.drop 16 ++ rest := by
    rw [← List.append_assoc]
    exact List.drop_left' (by rw [List.length_append, hhead, length_appendByteBits])
  rw [stripTag, tagMcs, List.append_assoc, List.append_assoc, htake, hdrop, ← List.append_assoc,
    List.take_append_drop]

/-! ### Bits are zeros and ones -/

theorem bitList_append {a b : Bytes} (ha : BitList a) (hb : BitList b) : BitList (a ++ b) := by
  intro x hx
  rcases List.mem_append.mp hx with hx | hx
  · exact ha x hx
  · exact hb x hx

theorem bitList_appendByteBits (b : UInt8) : BitList (appendByteBits b) := fun _ hx => mem_appendByteBits hx

theorem bitList_packAirBits (payload : Bytes) : BitList (packAirBits payload) := by
  obtain ⟨pad, heq, hpad⟩ := exists_packAirBits_eq payload
  rw [heq]
  refine bitList_append (fun x hx => ?_) fun x hx => .inl (hpad x hx)
  obtain ⟨b, -, hx⟩ := List.mem_flatMap.mp hx
  exact mem_appendByteBits hx

theorem bitList_tagMcs {bits : Bytes} (h : BitList bits) (mcs : Mcs) : BitList (tagMcs bits mcs) := by
  refine bitList_append (fun x hx => h x (List.mem_of_mem_take hx)) ?_
  exact bitList_append (bitList_appendByteBits _) fun x hx => h x (List.mem_of_mem_drop hx)

theorem bitList_padTo {bits : Bytes} (h : BitList bits) (width : Nat) : BitList (padTo 0 width bits) := by
  intro x hx
  rcases mem_padTo hx with hx | hx
  · exact h x hx
  · exact .inl hx

/-! ### The bit path -/

theorem length_mapDataSymbols (m : Modem Row) (bits : Bytes) (nFft : Nat) (mcs : Mcs) :
    (mapDataSymbols m bits nFft mcs).length = frameDataSymbols bits.length nFft mcs := by
  have hpos : 1 ≤ frameDataSymbols bits.length nFft mcs := by
    unfold frameDataSymbols
    dsimp only
    split
    · exact le_rfl
    · exact Nat.le_add_right 1 _
  simp only [mapDataSymbols, List.length_cons, List.length_map, List.length_range]
  omega

/-- The padding of a row is demodulated with it. -/
theorem demodulate_padTo {m : Modem Row} (ideal : m.Ideal) {bits : Bytes} (h : BitList bits) (mcs : Mcs)
    (n : Nat) :
    m.demodulate (m.modulate (padTo 0 (mcs.bitsPerSymbol * n) bits) mcs.bitsPerSymbol) mcs.bitsPerSymbol =
      padTo 0 (mcs.bitsPerSymbol * n) bits := by
  refine ideal _ mcs ?_ (bitList_padTo h _)
  rw [length_padTo, Nat.mul_mod_right]

/-- The data symbols come back as the bits that were cut into them. -/
theorem demodulate_rows {m : Modem Row} (ideal : m.Ideal) {bits : Bytes} (h : BitList bits) (nFft : Nat)
    (mcs : Mcs) (count : Nat) :
    ((List.range count).map fun s => m.modulate (dataRow (tagMcs bits mcs) nFft mcs s) mcs.bitsPerSymbol).flatMap
        (fun row => m.demodulate row mcs.bitsPerSymbol) =
      (List.range count).flatMap (dataRow (tagMcs bits mcs) nFft mcs) := by
  rw [List.flatMap_map]
  congr 1
  funext s
  rw [dataRow_eq]
  refine demodulate_padTo ideal (fun x hx => ?_) mcs nFft
  exact bitList_tagMcs h mcs x (List.mem_of_mem_drop (List.mem_of_mem_drop hx))

/-- A field of symbol 0 is a field of the tagged stream. -/
theorem rd_headRow {bits : Bytes} {nFft : Nat} {mcs : Mcs} (hfft : 24 ≤ nFft)
    (hcap : bits.length ≤ frameBitsCapacity nFft mcs) {off n : Nat} (hoff : off + n ≤ 48) :
    ∃ k, rd (headRow (tagMcs bits mcs) nFft) off n = rd (tagMcs bits mcs ++ List.replicate k 0) off n := by
  obtain ⟨k, hrow⟩ := airRow_eq_append mcs (by omega) hcap
  refine ⟨k, ?_⟩
  have hlen : off + n ≤ (headRow (tagMcs bits mcs) nFft).length := by
    rw [headRow_eq, length_padTo]
    omega
  rw [← hrow, ← airRow_eq, rd_append_left _ hlen]

/-- The receiver finds the MCS octet behind the length. -/
theorem rd_mcs {bits : Bytes} (h : 16 ≤ bits.length) (mcs : Mcs) (rest : Bytes) :
    rd (tagMcs bits mcs ++ rest) 16 8 = mcs.toOctet.toNat := by
  have hread := rd_appendByteBits (bits.take 16) (bits.drop 16 ++ rest) mcs.toOctet
  rw [List.length_take, Nat.min_eq_left h] at hread
  rw [tagMcs, List.append_assoc, List.append_assoc]
  exact hread

/-- An ideal modem gives the bits back and zeros behind them, unless symbol 0 looks foreign. -/
theorem phyRxBits_mapDataSymbols {m : Modem Row} (ideal : m.Ideal) {bits : Bytes} (h : BitList bits)
    (hlen : 16 ≤ bits.length) {nFft : Nat} (hfft : 24 ≤ nFft) {mcs : Mcs}
    (hcap : bits.length ≤ frameBitsCapacity nFft mcs) {ownRnti : Nat}
    (hmine : foreignUnicast (headRow (tagMcs bits mcs) nFft) ownRnti = false) :
    ∃ k, phyRxBits m (mapDataSymbols m bits nFft mcs) ownRnti = bits ++ List.replicate k 0 := by
  obtain ⟨k, hrow⟩ := airRow_eq_append mcs (by omega) hcap
  obtain ⟨j, hfield⟩ := rd_headRow hfft hcap (show 16 + 8 ≤ 48 by decide)
  have hall : (mapDataSymbols m bits nFft mcs).take kFrameDataMaxSymbols = mapDataSymbols m bits nFft mcs := by
    apply List.take_of_length_le
    rw [length_mapDataSymbols]
    exact (frameDataSymbols_le (by omega) (by omega) hcap).1
  have hhead : m.demodulate (m.modulate (headRow (tagMcs bits mcs) nFft) Mcs.qpsk.bitsPerSymbol)
      Mcs.qpsk.bitsPerSymbol = headRow (tagMcs bits mcs) nFft := by
    rw [headRow_eq]
    exact demodulate_padTo ideal (bitList_tagMcs h mcs) .qpsk nFft
  have hlong : ¬ (headRow (tagMcs bits mcs) nFft).length < 48 := by
    rw [headRow_eq, length_padTo]
    omega
  refine ⟨k, ?_⟩
  rw [phyRxBits, hall, mapDataSymbols]
  dsimp only
  rw [hhead, if_neg hlong, hfield, rd_mcs hlen, Mcs.ofField_toOctet]
  dsimp only
  rw [hmine, if_neg (by decide), demodulate_rows ideal h, airRow_eq, hrow, stripTag_tagMcs hlen]

/-! ### The addressee in symbol 0 -/

/-- The bits of a frame begin with its length, its type and its C-RNTI. -/
theorem packAirBits_encodeFrame (f : AirFrame) :
    ∃ rest, packAirBits (encodeFrame f) = (putU16 (encodeFrame f).length).flatMap appendByteBits ++
      (appendByteBits f.type.toOctet ++ ((putU16 f.rnti).flatMap appendByteBits ++ rest)) := by
  obtain ⟨pad, heq, -⟩ := exists_packAirBits_eq (encodeFrame f)
  refine ⟨f.payload.flatMap appendByteBits ++ pad, ?_⟩
  rw [heq, List.flatMap_append]
  simp only [encodeFrame, List.flatMap_cons, List.flatMap_append, List.append_assoc]

theorem tagMcs_packAirBits (f : AirFrame) (mcs : Mcs) :
    ∃ rest, tagMcs (packAirBits (encodeFrame f)) mcs =
      ((putU16 (encodeFrame f).length).flatMap appendByteBits ++ appendByteBits mcs.toOctet) ++
        (appendByteBits f.type.toOctet ++ ((putU16 f.rnti).flatMap appendByteBits ++ rest)) := by
  obtain ⟨rest, heq⟩ := packAirBits_encodeFrame f
  have hlen : ((putU16 (encodeFrame f).length).flatMap appendByteBits).length = 16 := by
    rw [length_flatMap_appendByteBits, length_putU16]
  refine ⟨rest, ?_⟩
  rw [tagMcs, heq, List.take_left' hlen, List.drop_left' hlen, List.append_assoc]

/-- The early drop takes a burst of data for another C-RNTI and no other. -/
theorem foreignUnicast_headRow {f : AirFrame} (hrnti : f.rnti < snModulus) {nFft : Nat} (hfft : 24 ≤ nFft)
    {mcs : Mcs} (hcap : (packAirBits (encodeFrame f)).length ≤ frameBitsCapacity nFft mcs) (ownRnti : Nat) :
    foreignUnicast (headRow (tagMcs (packAirBits (encodeFrame f)) mcs) nFft) ownRnti = true ↔
      ownRnti ≠ 0 ∧ f.type = .data ∧ f.rnti ≠ ownRnti ∧ f.rnti ≠ rntiBroadcast := by
  obtain ⟨rest, htagged⟩ := tagMcs_packAirBits f mcs
  obtain ⟨j, htype⟩ := rd_headRow hfft hcap (show 24 + 8 ≤ 48 by decide)
  obtain ⟨k, hfield⟩ := rd_headRow hfft hcap (show 32 + 16 ≤ 48 by decide)
  have hlen : ((putU16 (encodeFrame f).length).flatMap appendByteBits ++
      appendByteBits mcs.toOctet).length = 24 := by
    rw [List.length_append, length_flatMap_appendByteBits, length_putU16, length_appendByteBits]
  have hoctet := rd_appendByteBits
    ((putU16 (encodeFrame f).length).flatMap appendByteBits ++ appendByteBits mcs.toOctet)
    ((putU16 f.rnti).flatMap appendByteBits ++ rest ++ List.replicate j 0) f.type.toOctet
  have hu16 := rd_appendByteBits_u16 ((putU16 (encodeFrame f).length).flatMap appendByteBits ++
    appendByteBits mcs.toOctet ++ appendByteBits f.type.toOctet) (rest ++ List.replicate k 0) f.rnti
  rw [hlen] at hoctet
  rw [List.length_append, hlen, length_appendByteBits, Nat.mod_eq_of_lt hrnti] at hu16
  have hdata : f.type.toOctet.toNat = 0xA5 ↔ f.type = .data := by
    cases f.type <;> decide
  simp only [htagged, List.append_assoc] at htype hfield hoctet hu16
  rw [foreignUnicast, htagged]
  simp only [List.append_assoc] at htype hfield ⊢
  rw [htype, hfield, hoctet, hu16]
  simp only [ne_eq, decide_not, Bool.and_eq_true, Bool.not_eq_true', decide_eq_false_iff_not, decide_eq_true_eq,
    hdata, and_assoc]

/-! ### The early drop and the slow path -/

/-- Behind the tag every field stands eight bits further on than after it is taken out. -/
theorem rd_stripTag {tagged : Bytes} (h : 24 ≤ tagged.length) (off n : Nat) :
    rd (stripTag tagged) (16 + off) n = rd tagged (24 + off) n := by
  have hhead : (tagged.take 16).length = 16 := by
    rw [List.length_take]
    omega
  induction n with
  | zero => rfl
  | succ n ih =>
    have hget : (stripTag tagged).getD (16 + off + n) 0 = tagged.getD (24 + off + n) 0 := by
      simp only [stripTag, List.getD_eq_getElem?_getD]
      rw [List.getElem?_append_right (by omega), hhead, List.getElem?_drop]
      congr 2
      omega
    rw [rd_succ, rd_succ, ih, hget]

/-- Octet `i` is read behind the sixteen bits of the length. -/
theorem getD_unpackAirBits {bits bytes : Bytes} (h : unpackAirBits bits = some bytes) {i : Nat}
    (hi : i < bytes.length) : bytes.getD i 0 = readByte bits (16 + i * 8) := by
  unfold unpackAirBits at h
  dsimp only at h
  split_ifs at h with hshort hlong
  obtain rfl := Option.some.inj h
  rw [List.length_map, List.length_range] at hi
  simp [List.getD_eq_getElem?_getD, hi]

/-- The fields of an unpacked frame are the fields of the stream. -/
theorem decodeFrame_fields {bits bytes : Bytes} {f : AirFrame} (hunpack : unpackAirBits bits = some bytes)
    (hdecode : decodeFrame bytes = some f) :
    f.type.toOctet.toNat = rd bits 16 8 ∧ f.rnti = rd bits 24 16 := by
  unfold decodeFrame at hdecode
  split at hdecode
  · cases hdecode
  · rename_i hlen
    obtain ⟨type, htype, rfl⟩ := Option.map_eq_some_iff.mp hdecode
    constructor
    · rw [← AirFrameType.eq_of_ofOctet htype, getD_unpackAirBits hunpack (by omega), toNat_readByte]
    · show getU16 bytes 1 = _
      rw [getU16, getD_unpackAirBits hunpack (by omega), getD_unpackAirBits hunpack (by omega), u8_or_shift,
        toNat_readByte, toNat_readByte, rd_add _ _ 8 8]
      rfl

/-- A frame that the early drop would take has no effect. -/
theorem onAirBits_foreign (digest : KeyedDigest) (u : UeNode) {head : Bytes} (hlen : 48 ≤ head.length)
    (h : foreignUnicast head u.crntiCache = true) (rest : Bytes) :
    u.onAirBits digest (stripTag (head ++ rest)) = .ok u := by
  have hlong : 24 ≤ (head ++ rest).length := by
    rw [List.length_append]
    omega
  simp only [foreignUnicast, ne_eq, decide_not, Bool.and_eq_true, Bool.not_eq_true', decide_eq_false_iff_not,
    decide_eq_true_eq] at h
  obtain ⟨⟨⟨-, htype⟩, hown⟩, hbroadcast⟩ := h
  unfold UeNode.onAirBits
  split
  · rfl
  · rename_i bytes hunpack
    split
    · rfl
    · rename_i f hdecode
      obtain ⟨hftype, hfrnti⟩ := decodeFrame_fields hunpack hdecode
      rw [rd_stripTag hlong 0 8, rd_append_left rest (by omega), htype] at hftype
      rw [rd_stripTag hlong 8 16, rd_append_left rest (by omega)] at hfrnti
      have hdata : f.type = .data := by
        revert hftype
        cases f.type <;> decide
      rw [UeNode.handleAirFrame, hdata]
      dsimp only
      rw [hfrnti, if_pos ⟨hown, hbroadcast⟩]

theorem onAirBits_nil (digest : KeyedDigest) (u : UeNode) : u.onAirBits digest [] = .ok u := rfl

/-- Passing a result on only when it is not empty makes no difference. -/
theorem onAirBits_ite (digest : KeyedDigest) (u : UeNode) (bits : Bytes) :
    (if bits = [] then .ok u else u.onAirBits digest bits) = u.onAirBits digest bits := by
  split
  · rename_i hnil
    rw [hnil, onAirBits_nil]
  · rfl

end AirInterface

open AirInterface

/-- A frame that fits into a burst needs at most 40 symbols and comes back, at every modulation
and at a receiver that it is for. -/
theorem air_frame_round_trip {m : Modem Row} (ideal : m.Ideal) {f : AirFrame} (hrnti : f.rnti < snModulus)
    (hsize : (encodeFrame f).length ≤ 65535) {nFft : Nat} (hfft : 24 ≤ nFft) {mcs : Mcs}
    (hcap : (packAirBits (encodeFrame f)).length ≤ frameBitsCapacity nFft mcs) {ownRnti : Nat}
    (hmine : ownRnti = 0 ∨ f.type ≠ .data ∨ f.rnti = ownRnti ∨ f.rnti = rntiBroadcast) :
    (mapDataSymbols m (packAirBits (encodeFrame f)) nFft mcs).length ≤ kFrameDataMaxSymbols ∧
      (unpackAirBits (phyRxBits m (mapDataSymbols m (packAirBits (encodeFrame f)) nFft mcs) ownRnti)).bind
        decodeFrame = some f := by
  have hkept : foreignUnicast (headRow (tagMcs (packAirBits (encodeFrame f)) mcs) nFft) ownRnti = false := by
    rw [← Bool.not_eq_true, foreignUnicast_headRow hrnti hfft hcap]
    tauto
  have hlen : 16 ≤ (packAirBits (encodeFrame f)).length := by
    obtain ⟨pad, heq, -⟩ := exists_packAirBits_eq (encodeFrame f)
    rw [heq, List.length_append, length_flatMap_appendByteBits, List.length_append, length_putU16]
    omega
  constructor
  · rw [length_mapDataSymbols]
    exact (frameDataSymbols_le (by omega) (by omega) hcap).1
  · obtain ⟨k, hbits⟩ := phyRxBits_mapDataSymbols ideal (bitList_packAirBits _) hlen hfft hcap hkept
    obtain ⟨pad, heq, -⟩ := exists_packAirBits_eq (encodeFrame f)
    rw [hbits, heq, List.append_assoc, unpackAirBits_flatMap _ _ (by rw [snModulus]; omega), Option.bind_some,
      decodeFrame_encodeFrame f hrnti]

/-- The modem that hands the bits over. -/
theorem air_frame_round_trip_bits :
    (unpackAirBits (phyRxBits ⟨fun bits _ => bits, fun row _ => row⟩
      (mapDataSymbols ⟨fun bits _ => bits, fun row _ => row⟩
        (packAirBits (encodeFrame ⟨.data, 0x4601, [1, 2, 3, 4]⟩)) 24 .qam16) 0x4601)).bind decodeFrame =
      some ⟨.data, 0x4601, [1, 2, 3, 4]⟩ :=
  (air_frame_round_trip (m := ⟨fun bits _ => bits, fun row _ => row⟩) (fun _ _ _ _ => rfl) (by decide)
    (by decide) (by decide) (by decide) (.inr (.inr (.inl rfl)))).2

/-- Whatever the symbols carry, the early drop changes nothing of what a burst does. -/
theorem early_drop_transparent (digest : KeyedDigest) (m : Modem Row) (u : UeNode) (rows : List Row) :
    (if phyRxBits m rows u.crntiCache = [] then .ok u
      else u.onAirBits digest (phyRxBits m rows u.crntiCache)) =
      u.onAirBits digest (phyRxBits m rows 0) := by
  rw [onAirBits_ite]
  unfold phyRxBits
  split
  · rfl
  · rename_i head rest hrows
    dsimp only
    split
    · rfl
    · rename_i hlen
      split
      · rfl
      · rename_i mcs hmcs
        have hunfiltered : foreignUnicast (m.demodulate head Mcs.qpsk.bitsPerSymbol) 0 = false := rfl
        rw [hunfiltered, if_neg (show ¬ false = true by decide)]
        split
        · rename_i hforeign
          rw [onAirBits_foreign digest u (by omega) hforeign, onAirBits_nil]
        · rfl

end AetherStack.Guarantees
