import AetherStack.Source.MacPdu

/-!
# Air frames and their bits

Source: stack/core/src/radio_frames.cpp:5-82, and the `rd` of stack/phy/src/frame.cpp, which reads
the same bits. A bit stream is a vector of octets of which the receiver reads the lowest bit.
`decode_frame` and `unpack_air_bits` return `none` where the source returns false.
-/
namespace AetherStack.Source

namespace AirFrameType

/-- The values of the enumeration. -/
def toOctet : AirFrameType → UInt8
  | .msg1Prach => 0xA1
  | .msg2Rar => 0xA2
  | .msg3Ccch => 0xA3
  | .msg4Cr => 0xA4
  | .data => 0xA5

/-- The `switch` of `decode_frame`. -/
def ofOctet (b : UInt8) : Option AirFrameType :=
  if b = 0xA1 then some .msg1Prach
  else if b = 0xA2 then some .msg2Rar
  else if b = 0xA3 then some .msg3Ccch
  else if b = 0xA4 then some .msg4Cr
  else if b = 0xA5 then some .data
  else none

theorem ofOctet_toOctet (t : AirFrameType) : ofOctet t.toOctet = some t := by
  cases t <;> rfl

theorem eq_of_ofOctet {b : UInt8} {t : AirFrameType} (h : ofOctet b = some t) : b = t.toOctet := by
  unfold ofOctet at h
  split_ifs at h with h1 h2 h3 h4 h5 <;> cases h <;> assumption

end AirFrameType

def encodeFrame (f : AirFrame) : Bytes := f.type.toOctet :: (putU16 f.rnti ++ f.payload)

def decodeFrame (data : Bytes) : Option AirFrame :=
  if data.length < 3 then none
  else (AirFrameType.ofOctet (data.getD 0 0)).map fun type => ⟨type, getU16 data 1, data.drop 3⟩

theorem length_encodeFrame (f : AirFrame) : (encodeFrame f).length = f.payload.length + 3 := by
  simp [encodeFrame]
  omega

/-- A frame is read back as it was written. -/
theorem decodeFrame_encodeFrame (f : AirFrame) (h : f.rnti < snModulus) :
    decodeFrame (encodeFrame f) = some f := by
  have hlen : ¬ (encodeFrame f).length < 3 := by
    rw [length_encodeFrame]
    omega
  have hrnti : getU16 (encodeFrame f) 1 = f.rnti := by
    have hread := getU16_putU16 [f.type.toOctet] f.payload f.rnti
    rw [Nat.mod_eq_of_lt h] at hread
    exact hread
  have htype : (encodeFrame f).getD 0 0 = f.type.toOctet := rfl
  rw [decodeFrame, if_neg hlen, htype, AirFrameType.ofOctet_toOctet, hrnti]
  rfl

/-! ### Bits -/

def padBitsToEven (bits : Bytes) : Bytes := if bits.length % 2 = 0 then bits else bits ++ [0]

/-- `append_byte_bits`: the low bit first. -/
def appendByteBits (value : UInt8) : Bytes :=
  (List.range 8).map fun i => (value >>> UInt8.ofNat i) &&& 1

def packAirBits (payload : Bytes) : Bytes :=
  padBitsToEven ((putU16 payload.length ++ payload).flatMap appendByteBits)

/-- `read_byte`. -/
def readByte (bits : Bytes) (off : Nat) : UInt8 :=
  (List.range 8).foldl (fun value i => value ||| ((bits.getD (off + i) 0 &&& 1) <<< UInt8.ofNat i)) 0

def unpackAirBits (bits : Bytes) : Option Bytes :=
  if bits.length < 16 then none
  else
    let len := (readByte bits 0).toNat ||| ((readByte bits 8).toNat <<< 8)
    if 16 + len * 8 > bits.length then none
    else some ((List.range len).map fun i => readByte bits (16 + i * 8))

/-- `rd`, a field of `n` bits. -/
def rd (bits : Bytes) (off n : Nat) : Nat :=
  (List.range n).foldl (fun v i => v ||| ((bits.getD (off + i) 0 &&& 1).toNat <<< i)) 0

theorem rd_zero (bits : Bytes) (off : Nat) : rd bits off 0 = 0 := rfl

theorem bit_cases (b : UInt8) : b &&& 1 = 0 ∨ b &&& 1 = 1 := by
  have hbit : (b &&& 1).toNat = b.toNat % 2 := by simp
  rcases Nat.mod_two_eq_zero_or_one b.toNat with h | h
  · exact .inl (UInt8.toNat_inj.mp (hbit.trans h))
  · exact .inr (UInt8.toNat_inj.mp (hbit.trans h))

theorem toNat_bit_lt (b : UInt8) : (b &&& 1).toNat < 2 := by
  rcases bit_cases b with h | h <;> rw [h] <;> decide

/-- A bit moved inside an octet keeps its weight. -/
theorem toNat_bit_shiftLeft (b : UInt8) {i : Nat} (h : i < 8) :
    ((b &&& 1) <<< UInt8.ofNat i).toNat = (b &&& 1).toNat <<< i := by
  rcases bit_cases b with hb | hb
  · rw [hb]
    interval_cases i <;> rfl
  · rw [hb]
    interval_cases i <;> rfl

theorem rd_succ_or (bits : Bytes) (off n : Nat) :
    rd bits off (n + 1) = rd bits off n ||| ((bits.getD (off + n) 0 &&& 1).toNat <<< n) := by
  simp [rd, List.range_succ]

theorem rd_lt (bits : Bytes) (off n : Nat) : rd bits off n < 2 ^ n := by
  induction n with
  | zero => simp [rd_zero]
  | succ n ih =>
    have hbit := toNat_bit_lt (bits.getD (off + n) 0)
    rw [rd_succ_or]
    apply Nat.or_lt_two_pow
    · exact ih.trans (Nat.pow_lt_pow_right (by decide) n.lt_succ_self)
    · rw [Nat.shiftLeft_eq, Nat.pow_succ, Nat.mul_comm (2 ^ n)]
      exact Nat.mul_lt_mul_of_pos_right hbit (Nat.two_pow_pos n)

/-- One more bit is one more binary digit. -/
theorem rd_succ (bits : Bytes) (off n : Nat) :
    rd bits off (n + 1) = rd bits off n + 2 ^ n * (bits.getD (off + n) 0 &&& 1).toNat := by
  rw [rd_succ_or, Nat.or_comm, ← Nat.shiftLeft_add_eq_or_of_lt (rd_lt bits off n), Nat.shiftLeft_eq]
  ring

/-- A field is read in two parts. -/
theorem rd_add (bits : Bytes) (off m n : Nat) :
    rd bits off (m + n) = rd bits off m + 2 ^ m * rd bits (off + m) n := by
  induction n with
  | zero => simp [rd_zero]
  | succ n ih =>
    rw [← Nat.add_assoc, rd_succ, ih, rd_succ, pow_add, ← Nat.add_assoc off m n]
    ring

/-- A field is read in front of anything that follows it. -/
theorem rd_append_left {bits : Bytes} (rest : Bytes) {off n : Nat} (h : off + n ≤ bits.length) :
    rd (bits ++ rest) off n = rd bits off n := by
  induction n with
  | zero => simp [rd_zero]
  | succ n ih =>
    have hget : (bits ++ rest).getD (off + n) 0 = bits.getD (off + n) 0 := by
      simp only [List.getD_eq_getElem?_getD]
      rw [List.getElem?_append_left (by omega)]
    rw [rd_succ, rd_succ, ih (by omega), hget]

/-- Octets of the receiver and fields of the demodulator are the same bits. -/
theorem toNat_readByte (bits : Bytes) (off : Nat) : (readByte bits off).toNat = rd bits off 8 := by
  have hprefix : ∀ k ≤ 8, ((List.range k).foldl (fun value i =>
      value ||| ((bits.getD (off + i) 0 &&& 1) <<< UInt8.ofNat i)) (0 : UInt8)).toNat = rd bits off k := by
    intro k hk
    induction k with
    | zero => rfl
    | succ k ih =>
      rw [List.range_succ, List.foldl_append, List.foldl_cons, List.foldl_nil, UInt8.toNat_or,
        ih (by omega), toNat_bit_shiftLeft _ (by omega), rd_succ_or]
  exact hprefix 8 le_rfl

@[simp] theorem length_appendByteBits (b : UInt8) : (appendByteBits b).length = 8 := by
  simp [appendByteBits]

theorem mem_appendByteBits {b x : UInt8} (h : x ∈ appendByteBits b) : x = 0 ∨ x = 1 := by
  obtain ⟨i, -, rfl⟩ := List.mem_map.mp h
  exact bit_cases _

/-- The bits of an octet give the octet back. -/
theorem appendByteBits_value (b : UInt8) :
    (List.range 8).foldl (fun value i => value ||| (((b >>> UInt8.ofNat i) &&& 1) <<< UInt8.ofNat i)) 0 =
      b := by
  have hall : ∀ n : Fin 256, (List.range 8).foldl (fun value i =>
      value ||| (((UInt8.ofFin n >>> UInt8.ofNat i) &&& 1) <<< UInt8.ofNat i)) 0 = UInt8.ofFin n := by
    decide +kernel
  exact hall b.toFin

/-- Reading back a written octet, at any offset. -/
theorem readByte_appendByteBits (pre rest : Bytes) (b : UInt8) :
    readByte (pre ++ (appendByteBits b ++ rest)) pre.length = b := by
  have hbit : ∀ i ∈ List.range 8, (pre ++ (appendByteBits b ++ rest)).getD (pre.length + i) 0 &&& 1 =
      (b >>> UInt8.ofNat i) &&& 1 := by
    intro i hi
    have hi : i < 8 := List.mem_range.mp hi
    have hget : (pre ++ (appendByteBits b ++ rest)).getD (pre.length + i) 0 = (b >>> UInt8.ofNat i) &&& 1 := by
      simp [List.getD_eq_getElem?_getD, List.getElem?_append_right, List.getElem?_append_left, hi,
        appendByteBits]
    rw [hget, UInt8.and_assoc]
    rfl
  rw [readByte]
  refine (List.foldl_ext _ _ _ fun value i hi => ?_).trans (appendByteBits_value b)
  rw [hbit i hi]

/-- An octet is read back from its bits. -/
theorem rd_appendByteBits (pre rest : Bytes) (b : UInt8) :
    rd (pre ++ (appendByteBits b ++ rest)) pre.length 8 = b.toNat := by
  rw [← toNat_readByte, readByte_appendByteBits]

theorem rd_appendByteBits_u16 (pre rest : Bytes) (x : Nat) :
    rd (pre ++ ((putU16 x).flatMap appendByteBits ++ rest)) pre.length 16 = x % snModulus := by
  have hlow := rd_appendByteBits pre (appendByteBits (UInt8.ofNat (x >>> 8)) ++ rest) (UInt8.ofNat x)
  have hhigh := rd_appendByteBits (pre ++ appendByteBits (UInt8.ofNat x)) rest (UInt8.ofNat (x >>> 8))
  simp only [List.append_assoc, List.length_append, length_appendByteBits] at hhigh
  simp only [putU16, List.flatMap_cons, List.flatMap_nil, List.append_nil, List.append_assoc]
  rw [rd_add _ _ 8 8, hlow, hhigh]
  simp only [UInt8.toNat_ofNat', Nat.shiftRight_eq_div_pow, snModulus]
  omega

@[simp] theorem length_flatMap_appendByteBits (data : Bytes) :
    (data.flatMap appendByteBits).length = 8 * data.length := by
  induction data with
  | nil => rfl
  | cons b data ih =>
    rw [List.flatMap_cons, List.length_append, length_appendByteBits, ih, List.length_cons]
    omega

/-- Every octet of a packed stream, whatever follows it. -/
theorem readByte_flatMap (pre data rest : Bytes) {i : Nat} (hi : i < data.length) :
    readByte (pre ++ (data.flatMap appendByteBits ++ rest)) (pre.length + i * 8) = data[i] := by
  have hsplit : data.flatMap appendByteBits =
      (data.take i).flatMap appendByteBits ++
        (appendByteBits data[i] ++ (data.drop (i + 1)).flatMap appendByteBits) := by
    rw [← List.flatMap_cons, ← List.flatMap_append, List.getElem_cons_drop, List.take_append_drop]
  have hread := readByte_appendByteBits (pre ++ (data.take i).flatMap appendByteBits)
    ((data.drop (i + 1)).flatMap appendByteBits ++ rest) data[i]
  rw [List.length_append, length_flatMap_appendByteBits, List.length_take, Nat.min_eq_left hi.le] at hread
  rw [hsplit, Nat.mul_comm i 8]
  simpa only [List.append_assoc] using hread

/-- The length prefix cuts off whatever follows the packed octets. -/
theorem unpackAirBits_flatMap (payload rest : Bytes) (h : payload.length < snModulus) :
    unpackAirBits ((putU16 payload.length ++ payload).flatMap appendByteBits ++ rest) = some payload := by
  have hlen : (readByte ((putU16 payload.length ++ payload).flatMap appendByteBits ++ rest) 0).toNat |||
      ((readByte ((putU16 payload.length ++ payload).flatMap appendByteBits ++ rest) 8).toNat <<< 8) =
      payload.length := by
    have hread := rd_appendByteBits_u16 [] (payload.flatMap appendByteBits ++ rest) payload.length
    rw [List.nil_append, List.length_nil, rd_add _ _ 8 8, Nat.mod_eq_of_lt h, ← toNat_readByte,
      ← toNat_readByte] at hread
    rw [u8_or_shift, List.flatMap_append, List.append_assoc]
    exact hread
  rw [unpackAirBits, hlen]
  have hlong : 16 + payload.length * 8 ≤
      ((putU16 payload.length ++ payload).flatMap appendByteBits ++ rest).length := by
    simp only [List.length_append, length_flatMap_appendByteBits, length_putU16]
    omega
  rw [if_neg (by omega), if_neg (not_lt.mpr hlong), Option.some.injEq]
  refine List.ext_getElem (by simp) fun i hi hi' => ?_
  rw [List.getElem_map, List.getElem_range, List.flatMap_append, List.append_assoc]
  exact readByte_flatMap ((putU16 payload.length).flatMap appendByteBits) payload rest hi'

/-- A packed payload is length and octets, with zeros behind them. -/
theorem exists_packAirBits_eq (payload : Bytes) :
    ∃ pad, packAirBits payload = (putU16 payload.length ++ payload).flatMap appendByteBits ++ pad ∧
      ∀ x ∈ pad, x = 0 := by
  unfold packAirBits padBitsToEven
  split
  · exact ⟨[], (List.append_nil _).symm, by simp⟩
  · exact ⟨[0], rfl, by simp⟩

end AetherStack.Source
