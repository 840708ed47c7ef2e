import AetherStack.Source.FecViterbi
import AetherStack.Source.Harq

/-!
# The transport-block codec read back

`link_encode` followed by `HarqRx::receive` returns the MAC PDU whenever its coded
length fits the 16-bit header field and nothing is stored for the process.
-/
namespace AetherStack.Source
open Fec

def BitList (bits : Bytes) : Prop := ∀ b ∈ bits, b = 0 ∨ b = 1

/-! ## Octets and bits -/

theorem toNat_bit (b : UInt8) {i : Nat} (hi : i < 8) :
    ((b >>> UInt8.ofNat i) &&& 1).toNat = b.toNat / 2 ^ i % 2 := by
  have hamount : (UInt8.ofNat i).toNat % 8 = i := by
    rw [UInt8.toNat_ofNat']
    omega
  rw [UInt8.toNat_and, UInt8.toNat_shiftRight, hamount, Nat.shiftRight_eq_div_pow]
  exact Nat.and_one_is_mod _

theorem getD_byteBits (b : UInt8) {i : Nat} (hi : i < 8) :
    (byteBits b).getD i 0 = (b >>> UInt8.ofNat i) &&& 1 := by
  rw [byteBits, List.getD_eq_getElem?_getD, List.getElem?_map, List.getElem?_range hi]
  rfl

/-- The number the first bits spell, lowest bit first. -/
def bitsValue (bits : Bytes) : Nat → Nat
  | 0 => 0
  | n + 1 => bitsValue bits n + 2 ^ n * if bits.getD n 0 ≠ 0 then 1 else 0

theorem bitsValue_lt (bits : Bytes) (n : Nat) : bitsValue bits n < 2 ^ n := by
  induction n with
  | zero => exact Nat.one_pos
  | succ n ih =>
    rw [bitsValue, Nat.pow_succ]
    split <;> omega

/-- A bit of the value is the bit of the list. -/
theorem bitsValue_div (bits : Bytes) {k n : Nat} (hk : k < n) :
    bitsValue bits n / 2 ^ k % 2 = if bits.getD k 0 ≠ 0 then 1 else 0 := by
  induction n with
  | zero => cases hk
  | succ n ih =>
    rw [bitsValue]
    rcases Nat.lt_succ_iff_lt_or_eq.mp hk with hlt | rfl
    · obtain ⟨j, rfl⟩ : ∃ j, n = k + 1 + j := ⟨n - (k + 1), by omega⟩
      rw [Nat.pow_add, Nat.pow_succ, Nat.mul_assoc, Nat.mul_assoc, Nat.add_mul_div_left _ _ (Nat.two_pow_pos k),
        Nat.add_mul_mod_self_left, ih hlt]
    · rw [Nat.add_mul_div_left _ _ (Nat.two_pow_pos k), Nat.div_eq_of_lt (bitsValue_lt bits k), Nat.zero_add]
      split <;> rfl

theorem toNat_bitsByte {bits : Bytes} (hlen : bits.length = 8) : (bitsByte bits).toNat = bitsValue bits 8 := by
  have hsteps : ∀ n ≤ 8, ((List.range n).foldl (fun acc i =>
      acc ||| ((if bits.getD i 0 ≠ 0 then 1 else 0) <<< UInt8.ofNat i)) (0 : UInt8)).toNat =
        bitsValue bits n := by
    intro n
    induction n with
    | zero => exact fun _ => rfl
    | succ n ih =>
      intro hn
      have hlt := bitsValue_lt bits n
      have hamount : (UInt8.ofNat n).toNat % 8 = n := by
        rw [UInt8.toNat_ofNat']
        omega
      have hsmall : 1 <<< n < 2 ^ 8 := by
        rw [Nat.one_shiftLeft]
        exact Nat.pow_lt_pow_right Nat.one_lt_two (by omega)
      rw [List.range_succ, List.foldl_append, List.foldl_cons, List.foldl_nil, UInt8.toNat_or, ih (by omega),
        UInt8.toNat_shiftLeft, hamount, bitsValue]
      split
      · show bitsValue bits n ||| 1 <<< n % 2 ^ 8 = _
        rw [Nat.mod_eq_of_lt hsmall, Nat.or_comm, ← Nat.shiftLeft_add_eq_or_of_lt hlt, Nat.one_shiftLeft]
        omega
      · show bitsValue bits n ||| 0 <<< n % 2 ^ 8 = _
        simp
  rw [bitsByte, hlen]
  exact hsteps 8 (Nat.le_refl 8)

/-- An octet comes back from its bits. -/
theorem bitsByte_byteBits (b : UInt8) : bitsByte (byteBits b) = b := by
  have hvalue : ∀ n ≤ 8, bitsValue (byteBits b) n = b.toNat % 2 ^ n := by
    intro n
    induction n with
    | zero => exact fun _ => (Nat.mod_one _).symm
    | succ n ih =>
      intro hn
      have hbit := toNat_bit b (show n < 8 by omega)
      rw [bitsValue, ih (by omega), getD_byteBits b (by omega), Nat.mod_pow_succ, ← hbit]
      generalize (b >>> UInt8.ofNat n) &&& 1 = bit at hbit
      congr 2
      rcases Nat.mod_two_eq_zero_or_one (b.toNat / 2 ^ n) with h | h
      · obtain rfl : bit = 0 := UInt8.toNat_inj.mp (hbit.trans h)
        rfl
      · obtain rfl : bit = 1 := UInt8.toNat_inj.mp (hbit.trans h)
        rfl
  apply UInt8.toNat_inj.mp
  rw [toNat_bitsByte (by simp [byteBits]), hvalue 8 (Nat.le_refl 8), Nat.mod_eq_of_lt b.toNat_lt]

theorem and_one_bit (b : UInt8) : b &&& 1 = 0 ∨ b &&& 1 = 1 := by
  have hmod : (b &&& 1).toNat = b.toNat % 2 := by
    rw [UInt8.toNat_and]
    exact Nat.and_one_is_mod _
  rcases Nat.mod_two_eq_zero_or_one b.toNat with h | h
  · exact .inl (UInt8.toNat_inj.mp (hmod.trans h))
  · exact .inr (UInt8.toNat_inj.mp (hmod.trans h))

theorem byteBits_bit (b : UInt8) : BitList (byteBits b) := by
  intro x hx
  obtain ⟨k, -, rfl⟩ := List.mem_map.mp hx
  exact and_one_bit _

@[simp] theorem length_byteBits (b : UInt8) : (byteBits b).length = 8 := by
  simp [byteBits]

/-- Eight bits survive the octet they are packed into. -/
theorem byteBits_bitsByte {bits : Bytes} (hbits : BitList bits) (hlen : bits.length = 8) :
    byteBits (bitsByte bits) = bits := by
  apply List.ext_getElem (by rw [length_byteBits, hlen])
  intro i hi hi'
  rw [length_byteBits] at hi
  have hget := getD_byteBits (bitsByte bits) hi
  rw [List.getD_eq_getElem?_getD, List.getElem?_eq_getElem (by rwa [length_byteBits]), Option.getD_some] at hget
  have hbit : bits.getD i 0 = bits[i] := by
    rw [List.getD_eq_getElem?_getD, List.getElem?_eq_getElem hi', Option.getD_some]
  apply UInt8.toNat_inj.mp
  rw [hget, toNat_bit _ hi, toNat_bitsByte hlen, bitsValue_div bits hi, hbit]
  rcases hbits _ (List.getElem_mem hi') with h | h <;> rw [h] <;> rfl

theorem bytesToBits_bits (bytes : Bytes) : BitList (bytesToBits bytes) := by
  intro x hx
  obtain ⟨b, -, hx⟩ := List.mem_flatMap.mp hx
  exact byteBits_bit b x hx

@[simp] theorem length_bytesToBits (bytes : Bytes) :
    (bytesToBits bytes).length = 8 * bytes.length := by
  induction bytes with
  | nil => rfl
  | cons b bytes ih =>
    simp only [bytesToBits, List.flatMap_cons, List.length_append, length_byteBits,
      List.length_cons] at ih ⊢
    omega

/-- Octets come back from their bits. -/
theorem bitsToBytesLoop_bytesToBits (bytes : Bytes) :
    bitsToBytesLoop bytes.length (bytesToBits bytes) = bytes := by
  induction bytes with
  | nil => rfl
  | cons b bytes ih =>
    have hcons : bytesToBits (b :: bytes) = byteBits b ++ bytesToBits bytes := by
      simp [bytesToBits]
    rw [hcons, List.length_cons, bitsToBytesLoop, List.take_left' (by simp),
      List.drop_left' (by simp), bitsByte_byteBits, ih]

/-- Bits come back from the octets they fill. -/
theorem bytesToBits_bitsToBytesLoop {count : Nat} {bits : Bytes} (hbits : BitList bits)
    (hlen : bits.length = 8 * count) : bytesToBits (bitsToBytesLoop count bits) = bits := by
  induction count generalizing bits with
  | zero =>
    obtain rfl : bits = [] := List.length_eq_zero_iff.mp hlen
    rfl
  | succ count ih =>
    have hcons : bytesToBits (bitsToBytesLoop (count + 1) bits) =
        byteBits (bitsByte (bits.take 8)) ++ bytesToBits (bitsToBytesLoop count (bits.drop 8)) := by
      simp [bytesToBits, bitsToBytesLoop]
    rw [hcons, byteBits_bitsByte (fun b hb => hbits b (List.mem_of_mem_take hb))
      (by simp; omega), ih (fun b hb => hbits b (List.mem_of_mem_drop hb)) (by simp; omega),
      List.take_append_drop]

/-! ## The coded block -/

/-- The encoder walks the trellis from state 0 over the bits and six zeros. -/
theorem fecEncode_eq_codeword (bits : Bytes) : fecEncode bits =
    codeword 0 ((bits.map fun b => if b ≠ 0 then 1 else 0) ++ List.replicate tailBits 0) := by
  rw [fecEncode, foldl_emit, List.nil_append]

theorem length_fecEncode (bits : Bytes) : (fecEncode bits).length = 2 * (bits.length + 6) := by
  rw [fecEncode_eq_codeword, length_codeword]
  simp [tailBits]

theorem codeword_bits {s : Nat} {us : List Nat} (hs : s < numStates) (hus : Binary us) :
    BitList (codeword s us) := by
  induction us generalizing s with
  | nil => simp [codeword, BitList]
  | cons u us ih =>
    have hu := hus u (by simp)
    obtain ⟨h1, h2⟩ := trellisOut_bits s hs u hu
    intro x hx
    rw [codeword] at hx
    rcases List.mem_cons.mp hx with rfl | hx
    · rcases Nat.lt_or_ge (trellisOut s u >>> 1) 1 with h | h
      · exact .inl (by rw [Nat.lt_one_iff.mp h]; rfl)
      · exact .inr (by rw [show trellisOut s u >>> 1 = 1 by omega]; rfl)
    · rcases List.mem_cons.mp hx with rfl | hx
      · rcases Nat.lt_or_ge (trellisOut s u &&& 1) 1 with h | h
        · exact .inl (by rw [Nat.lt_one_iff.mp h]; rfl)
        · exact .inr (by rw [show trellisOut s u &&& 1 = 1 by omega]; rfl)
      · exact ih (trellisNext_spec s hs u hu).1 (fun v hv => hus v (by simp [hv])) x hx

theorem fecEncode_bits (bits : Bytes) : BitList (fecEncode bits) := by
  rw [fecEncode_eq_codeword]
  refine codeword_bits (by decide) fun u hu => ?_
  rcases List.mem_append.mp hu with hu | hu
  · obtain ⟨b, -, rfl⟩ := List.mem_map.mp hu
    split <;> decide
  · rw [List.eq_of_mem_replicate hu]
    decide

/-- Two coded octets for each octet of the block, and two for the tail. -/
theorem length_padded (block : Bytes) :
    (padToByte (fecEncode (bytesToBits block))).length = 8 * (2 * block.length + 2) := by
  rw [padToByte, List.length_append, List.length_replicate, length_fecEncode, length_bytesToBits]
  omega

/-- Two coded bits for each bit, and the tail. -/
theorem length_codedBytes (block : Bytes) : (codedBytes block).length = 2 * block.length + 2 := by
  have hloop : ∀ count bits, (bitsToBytesLoop count bits).length = count := by
    intro count
    induction count with
    | zero => exact fun _ => rfl
    | succ count ih => exact fun bits => by rw [bitsToBytesLoop, List.length_cons, ih]
  rw [codedBytes, hloop, length_padded]
  omega

theorem bytesToBits_codedBytes (block : Bytes) :
    bytesToBits (codedBytes block) = padToByte (fecEncode (bytesToBits block)) := by
  have hlen := length_padded block
  refine bytesToBits_bitsToBytesLoop ?_ (by omega)
  intro b hb
  rcases List.mem_append.mp hb with hb | hb
  · exact fecEncode_bits _ b hb
  · exact .inl (List.eq_of_mem_replicate hb)

/-- The check strips what was attached. -/
theorem crcVerifyStrip_crcAttach (payload : Bytes) :
    crcVerifyStrip (crcAttach payload) = some payload := by
  have hlen : (crcAttach payload).length = payload.length + 2 := by simp [crcAttach, putU16]
  have hget : getU16 (crcAttach payload) payload.length = (crc16 payload).toNat := by
    have := getU16_putU16 payload [] (crc16 payload).toNat
    rwa [List.append_nil, Nat.mod_eq_of_lt (show _ < snModulus from (crc16 payload).toNat_lt)]
      at this
  have htake : (crcAttach payload).take payload.length = payload := List.take_left' rfl
  simp only [crcVerifyStrip, hlen, Nat.add_sub_cancel, htake, hget]
  rw [if_neg (by omega)]
  simp

/-- The decoder returns the block of the coded bits. -/
theorem linkDecodeBits_block (block : Bytes) :
    linkDecodeBits (fecEncode (bytesToBits block)) block.length = .ok (crcVerifyStrip block) := by
  have hbytes : bitsToBytes (bytesToBits block) = .ok block := by
    rw [bitsToBytes, length_bytesToBits, if_neg (by omega),
      Nat.mul_div_cancel_left _ (by decide), bitsToBytesLoop_bytesToBits]
  simp only [linkDecodeBits, fecDecode_fecEncode (bytesToBits_bits _), length_bytesToBits, hbytes]
  rw [if_neg (by omega)]

/-- The decoder returns the MAC PDU from the coded bits of its block. -/
theorem linkDecodeBits_fecEncode (macPdu : Bytes) :
    linkDecodeBits (fecEncode (bytesToBits (crcAttach macPdu))) (crcAttach macPdu).length =
      .ok (some macPdu) := by
  rw [linkDecodeBits_block, crcVerifyStrip_crcAttach]

/-- Different blocks have different codewords. -/
theorem codedBytes_injective {a b : Bytes} (h : codedBytes a = codedBytes b) :
    bytesToBits a = bytesToBits b := by
  have hlen : a.length = b.length := by
    have := congrArg List.length h
    rw [length_codedBytes, length_codedBytes] at this
    omega
  have hpadded : padToByte (fecEncode (bytesToBits a)) = padToByte (fecEncode (bytesToBits b)) := by
    rw [← bytesToBits_codedBytes, ← bytesToBits_codedBytes, h]
  have hcoded : (fecEncode (bytesToBits a)).length = (fecEncode (bytesToBits b)).length := by
    rw [length_fecEncode, length_fecEncode, length_bytesToBits, length_bytesToBits, hlen]
  have hbits := (List.append_inj hpadded hcoded).1
  have hdecoded := congrArg (fecDecode · none) hbits
  simpa [fecDecode_fecEncode (bytesToBits_bits _)] using hdecoded

/-- A coded block tells its MAC PDU, at any length. -/
theorem linkEncode_injective {p p' : Bytes} {proc ndi proc' ndi' : UInt8}
    (h : linkEncode p proc ndi = linkEncode p' proc' ndi') : p = p' := by
  have hcoded := (List.append_inj h rfl).2
  have hbits := codedBytes_injective hcoded
  have hblock : crcAttach p = crcAttach p' := by
    rw [← bitsToBytesLoop_bytesToBits (crcAttach p), hbits]
    have hlen : (crcAttach p).length = (crcAttach p').length := by
      have := congrArg List.length hbits
      rw [length_bytesToBits, length_bytesToBits] at this
      omega
    rw [hlen, bitsToBytesLoop_bytesToBits]
  exact (List.append_inj' hblock rfl).1

/-! ## The receiver -/

/-- The first octet of the header: the process number below the indicator's bit. -/
theorem header_octet (proc : UInt8) (ndi : Bool) :
    ((proc &&& 0x7F) ||| (if ndi then 0x80 else 0)) &&& 0x7F = proc &&& 0x7F ∧
      (((proc &&& 0x7F) ||| (if ndi then 0x80 else 0)) >>> 7) &&& 1 = if ndi then 1 else 0 := by
  have hproc : (proc &&& 0x7F) >>> 7 = 0 := by
    rw [UInt8.shiftRight_and]
    exact UInt8.and_zero
  constructor
  · cases ndi
    · simp [UInt8.and_assoc]
    · apply UInt8.toNat_inj.mp
      simp [UInt8.toNat_and, UInt8.toNat_or, Nat.and_or_distrib_right, Nat.and_assoc]
  · rw [UInt8.shiftRight_or, hproc]
    cases ndi <;> rfl

/-- The header fields survive, the process number modulo 128 and the indicator as a bit. -/
theorem unpack_pack (h : HarqHeader) (rest : Bytes) :
    HarqHeader.unpack (h.pack ++ rest) = some {
      proc := h.proc &&& 0x7F
      ndi := if h.ndi ≠ 0 then 1 else 0
      rv := h.rv
      len := h.len % snModulus
      infoLen := h.infoLen % snModulus } := by
  obtain ⟨hproc, hndi⟩ := header_octet h.proc (decide (h.ndi ≠ 0))
  simp only [decide_eq_true_eq] at hproc hndi
  have hlen : getU16 (h.pack ++ rest) 2 = h.len % snModulus := by
    have := getU16_putU16 [(h.proc &&& 0x7F) ||| (if h.ndi ≠ 0 then 0x80 else 0), h.rv]
      (putU16 h.infoLen ++ [0xA9] ++ rest) h.len
    simpa [HarqHeader.pack] using this
  have hinfo : getU16 (h.pack ++ rest) 4 = h.infoLen % snModulus := by
    have := getU16_putU16 ([(h.proc &&& 0x7F) ||| (if h.ndi ≠ 0 then 0x80 else 0), h.rv] ++
      putU16 h.len) ([0xA9] ++ rest) h.infoLen
    simpa [HarqHeader.pack, putU16] using this
  have hb0 : (h.pack ++ rest).getD 0 0 =
      (h.proc &&& 0x7F) ||| (if h.ndi ≠ 0 then 0x80 else 0) := rfl
  have hrv : (h.pack ++ rest).getD 1 0 = h.rv := rfl
  have hmagic : (h.pack ++ rest).getD 6 0 = 0xA9 := rfl
  simp only [HarqHeader.unpack, hb0, hrv, hmagic, hlen, hinfo, hproc, hndi]
  rw [if_neg]
  simp [HarqHeader.pack, putU16, HarqHeader.size]

/-- Nothing is stored for the process. -/
def HarqRx.SlotEmpty (r : HarqRx) (p : Nat) : Prop := ∀ buf, r.soft[p]? = some buf → buf.bits = []

theorem HarqRx.slotEmpty_initial (p : Nat) : SlotEmpty {} p := by
  intro buf hbuf
  have hget := (List.getElem?_eq_some_iff.mp hbuf).2
  rw [← hget, List.getElem_replicate]

/-- Bits stored for an empty slot stay out of the decoding. -/
theorem HarqRx.decodeInput_empty {r : HarqRx} {h : HarqHeader} {rxBits : Bytes}
    (hslot : r.SlotEmpty h.proc.toNat) :
    decodeInput r.soft h rxBits = rxBits.take (min rxBits.length (validCodedBits h)) := by
  unfold decodeInput
  dsimp only
  split
  · rfl
  · rename_i buf hbuf
    rw [if_neg]
    simp [hslot buf hbuf]

/-- Emptying an empty slot changes nothing. -/
theorem HarqRx.updateSoft_delivered {r : HarqRx} {h : HarqHeader} {bits : Bytes}
    (hslot : r.SlotEmpty h.proc.toNat) : updateSoft r.soft h true bits = r.soft := by
  simp only [updateSoft, or_true, if_true]
  apply List.ext_getElem?
  intro i
  rw [List.getElem?_modify]
  split
  · rename_i heq
    subst heq
    cases hget : r.soft[h.proc.toNat]? with
    | none => rfl
    | some buf => simp [← hslot buf hget]
  · simp

/-- The coded part of a frame, and the length its header must announce. -/
theorem take_validCodedBits (macPdu : Bytes) :
    (bytesToBits (codedBytes (crcAttach macPdu))).take ((((crcAttach macPdu).length) * 8 + 6) * 2) =
      fecEncode (bytesToBits (crcAttach macPdu)) := by
  rw [bytesToBits_codedBytes, padToByte]
  apply List.take_left'
  rw [length_fecEncode, length_bytesToBits]
  omega

/-- A frame whose header and coded bits read back is delivered and acknowledged. -/
theorem HarqRx.receive_of_unpack {r : HarqRx} {frame macPdu : Bytes} {h : HarqHeader}
    (hunpack : HarqHeader.unpack frame = some h) (hsize : frame.length = HarqHeader.size + h.len)
    (hslot : r.SlotEmpty h.proc.toNat)
    (hdecode : linkDecodeBits ((bytesToBits ((frame.drop HarqHeader.size).take h.len)).take
      (validCodedBits h)) h.infoLen = .ok (some macPdu)) :
    r.receive frame = .ok (r, ⟨true, true, true, h.proc, macPdu⟩) := by
  have hmin : ∀ (bits : Bytes) n, bits.take (min bits.length n) = bits.take n := by
    intro bits n
    rw [List.take_eq_take_iff]
    omega
  unfold receive
  rw [hunpack]
  dsimp only
  rw [if_neg (by omega), decodeInput_empty hslot, hmin, hdecode]
  dsimp only
  rw [Option.isSome_some, updateSoft_delivered hslot, Option.getD_some]

/-- An uncorrupted transmission is delivered and acknowledged, and leaves an empty slot
empty. -/
theorem HarqRx.receive_linkEncode (r : HarqRx) (macPdu : Bytes) (proc ndi : UInt8)
    (hfits : 2 * (macPdu.length + 2) + 2 < 2 ^ 16) (hslot : r.SlotEmpty (proc &&& 0x7F).toNat) :
    r.receive (linkEncode macPdu proc ndi) =
      .ok (r, ⟨true, true, true, proc &&& 0x7F, macPdu⟩) := by
  have hblock : (crcAttach macPdu).length = macPdu.length + 2 := by simp [crcAttach, putU16]
  have hcoded : (codedBytes (crcAttach macPdu)).length = 2 * (macPdu.length + 2) + 2 := by
    rw [length_codedBytes, hblock]
  have hmod : ∀ n, n < 2 ^ 16 → n % 2 ^ 16 % snModulus = n := by
    intro n hn
    rw [Nat.mod_eq_of_lt hn, Nat.mod_eq_of_lt (show n < snModulus from hn)]
  have hpack : ∀ h : HarqHeader, h.pack.length = HarqHeader.size := fun _ => rfl
  have hunpack := unpack_pack ⟨proc, ndi, 0, (codedBytes (crcAttach macPdu)).length % 2 ^ 16,
    (crcAttach macPdu).length % 2 ^ 16⟩ (codedBytes (crcAttach macPdu))
  dsimp only at hunpack
  rw [hmod _ (by omega), hmod _ (by omega)] at hunpack
  apply receive_of_unpack hunpack
  · rw [List.length_append, hpack]
  · exact hslot
  · dsimp only
    rw [List.drop_left' (hpack _), List.take_length, validCodedBits,
      take_validCodedBits, linkDecodeBits_fecEncode]

end AetherStack.Source
