import Mathlib.Data.Nat.Bitwise
import AetherStack.Source.U2u

/-!
# The codec of UE-to-UE packets

`decode_u2u` accepts what is laid out as `encode_u2u` lays it out, and nothing else: the two
are inverse to each other up to bit 4 of the kind octet, which no packet has, and up to a
conference field of zero, which is not sent. With the signalling payload of such a packet.
-/
namespace AetherStack.Guarantees
open Source

/-- The counters of a packet are `uint32_t`. -/
def U2uTyped (p : U2uPacket) : Prop :=
  p.seq < u32Modulus ∧ p.timestampMs < u32Modulus ∧ p.confId < u32Modulus

/-- An IMSI at each end, the second one not in media for a conference. -/
def U2uAddressed (p : U2uPacket) : Prop :=
  p.srcImsi ≠ [] ∧ p.srcImsi.length ≤ u2uMaxImsiLen ∧ p.dstImsi.length ≤ u2uMaxImsiLen ∧
    (p.dstImsi ≠ [] ∨ p.confId ≠ 0)

instance (p : U2uPacket) : Decidable (U2uTyped p) := inferInstanceAs (Decidable (_ ∧ _))

instance (p : U2uPacket) : Decidable (U2uAddressed p) := inferInstanceAs (Decidable (_ ∧ _))

namespace U2uCodec

/-- One bit of an octet. -/
theorem and_flag (b : UInt8) {k : Nat} (hk : k < 8) :
    b &&& UInt8.ofNat (2 ^ k) = if b.toNat.testBit k then UInt8.ofNat (2 ^ k) else 0 := by
  have hmask : (UInt8.ofNat (2 ^ k)).toNat = 2 ^ k := by
    rw [UInt8.toNat_ofNat']
    exact Nat.mod_eq_of_lt (Nat.pow_lt_pow_right Nat.one_lt_two hk)
  apply UInt8.toNat_inj.mp
  rw [UInt8.toNat_and, hmask, Nat.and_two_pow]
  cases b.toNat.testBit k with
  | false => exact Nat.zero_mul _
  | true => exact (Nat.one_mul _).trans hmask.symm

/-- A flag of an octet is one of its bits. -/
theorem and_flag_ne_zero (b : UInt8) {k : Nat} (hk : k < 8) :
    b &&& UInt8.ofNat (2 ^ k) ≠ 0 ↔ b.toNat.testBit k = true := by
  have hmask : UInt8.ofNat (2 ^ k) ≠ 0 := by
    intro hzero
    have hval := congrArg UInt8.toNat hzero
    rw [UInt8.toNat_ofNat', Nat.mod_eq_of_lt (Nat.pow_lt_pow_right Nat.one_lt_two hk)] at hval
    exact Nat.two_pow_pos k |>.ne' hval
  rw [and_flag b hk]
  cases b.toNat.testBit k with
  | false => simp
  | true => simpa using hmask

/-- A flag set from its own bit. -/
theorem flag_and (b : UInt8) {k : Nat} (hk : k < 8) :
    (if b &&& UInt8.ofNat (2 ^ k) ≠ 0 then UInt8.ofNat (2 ^ k) else 0) = b &&& UInt8.ofNat (2 ^ k) := by
  by_cases hset : b.toNat.testBit k = true
  · rw [if_pos ((and_flag_ne_zero b hk).mpr hset), and_flag b hk, if_pos hset]
  · rw [if_neg (mt (and_flag_ne_zero b hk).mp hset), and_flag b hk, if_neg hset]

/-- The kind octet in its parts: the nibble, the three flags and bit 4. -/
theorem octet_parts (b : UInt8) :
    b = (b &&& 0x0F) ||| (b &&& 0x20) ||| (b &&& 0x40) ||| (b &&& 0x80) ||| (b &&& 0x10) := by
  apply UInt8.toNat_inj.mp
  simp only [UInt8.toNat_or, UInt8.toNat_and, ← Nat.and_or_distrib_left]
  exact (Nat.and_two_pow_sub_one_of_lt_two_pow (n := 8) b.toNat_lt).symm

/-! ### The kind octet -/

theorem kindOctet_parts (p : U2uPacket) :
    mediaKindOfNibble? (p.kindOctet &&& 0x0F) = some p.kind ∧ (p.kindOctet &&& u2uFlagConf ≠ 0 ↔ p.confId ≠ 0) ∧
      (p.kindOctet &&& u2uFlagEnd ≠ 0 ↔ p.ending = true) ∧ (p.kindOctet &&& u2uFlagAck ≠ 0 ↔ p.ack = true) := by
  obtain ⟨kind, ack, ending, seq, timestampMs, srcImsi, dstImsi, confId, payload⟩ := p
  have htable : ∀ (kind : MediaKind) (conf ending ack : Bool),
      let octet := (kind.code &&& 0x0F) ||| (if conf then u2uFlagConf else 0) |||
        (if ending then u2uFlagEnd else 0) ||| (if ack then u2uFlagAck else 0)
      mediaKindOfNibble? (octet &&& 0x0F) = some kind ∧ (octet &&& u2uFlagConf ≠ 0 ↔ conf = true) ∧
        (octet &&& u2uFlagEnd ≠ 0 ↔ ending = true) ∧ (octet &&& u2uFlagAck ≠ 0 ↔ ack = true) := by
    intro kind
    cases kind <;> decide
  have h := htable kind (decide (confId ≠ 0)) ending ack
  simp only [decide_eq_true_eq] at h
  exact h

/-- The octet read is the octet a packet with these parts has. -/
theorem kindOctet_eq {p : U2uPacket} {b : UInt8} (hkind : mediaKindOfNibble? (b &&& 0x0F) = some p.kind)
    (hconf : b &&& u2uFlagConf ≠ 0 ↔ p.confId ≠ 0) (hending : p.ending = decide (b &&& u2uFlagEnd ≠ 0))
    (hack : p.ack = decide (b &&& u2uFlagAck ≠ 0)) (hbit : b &&& 0x10 = 0) : p.kindOctet = b := by
  have hcode : p.kind.code = b &&& 0x0F := by
    have hfound := List.find?_some hkind
    simpa using hfound
  have hnibble : (b &&& 0x0F) &&& 0x0F = b &&& 0x0F := by
    rw [UInt8.and_assoc]
    rfl
  have hflags : (if p.confId ≠ 0 then u2uFlagConf else 0) = b &&& 0x20 ∧
      (if p.ending then u2uFlagEnd else 0) = b &&& 0x40 ∧ (if p.ack then u2uFlagAck else 0) = b &&& 0x80 := by
    refine ⟨?_, ?_, ?_⟩
    · exact (if_congr hconf.symm rfl rfl).trans (flag_and b (k := 5) (by decide))
    · rw [hending]
      simp only [decide_eq_true_eq]
      exact flag_and b (k := 6) (by decide)
    · rw [hack]
      simp only [decide_eq_true_eq]
      exact flag_and b (k := 7) (by decide)
  rw [U2uPacket.kindOctet, hflags.1, hflags.2.1, hflags.2.2, hcode, hnibble]
  conv_rhs => rw [octet_parts b, hbit, UInt8.or_zero]

/-! ### The layout -/

theorem getD_drop (v : Bytes) (n off : Nat) : (v.drop n).getD off 0 = v.getD (n + off) 0 := by
  rw [List.getD_eq_getElem?_getD, List.getElem?_drop, List.getD_eq_getElem?_getD]

theorem getU32_drop (v : Bytes) (n off : Nat) : getU32 (v.drop n) off = getU32 v (n + off) := by
  simp only [getU32, getU16, getD_drop, Nat.add_assoc]

theorem getU32_append {v rest : Bytes} {off : Nat} (h : off + 4 ≤ v.length) :
    getU32 (v ++ rest) off = getU32 v off := by
  simp only [getU32, getU16]
  rw [List.getD_append _ _ _ _ (by omega), List.getD_append _ _ _ _ (by omega), List.getD_append _ _ _ _ (by omega),
    List.getD_append _ _ _ _ (by omega)]

/-- The parts of a packet on the wire. -/
structure Layout where
  kindOctet : UInt8
  counters : Bytes
  src : Imsi
  dst : Imsi
  conf : Bytes
  payload : Bytes

namespace Layout

def hasConf (l : Layout) : Prop := l.kindOctet &&& u2uFlagConf ≠ 0

instance (l : Layout) : Decidable l.hasConf := inferInstanceAs (Decidable (_ ≠ _))

def front (l : Layout) : Bytes := u2uMagic :: l.kindOctet :: l.counters

def bytes (l : Layout) : Bytes :=
  l.front ++ (UInt8.ofNat l.src.length :: (l.src ++ (UInt8.ofNat l.dst.length :: (l.dst ++ (l.conf ++ l.payload)))))

structure Fits (l : Layout) : Prop where
  counters : l.counters.length = 8
  src_pos : l.src ≠ []
  src_le : l.src.length ≤ u2uMaxImsiLen
  dst_le : l.dst.length ≤ u2uMaxImsiLen
  dst_pos : l.dst ≠ [] ∨ l.hasConf
  conf : l.conf.length = if l.hasConf then 4 else 0

def packet (l : Layout) (kind : MediaKind) : U2uPacket where
  kind := kind
  ending := l.kindOctet &&& u2uFlagEnd ≠ 0
  ack := l.kindOctet &&& u2uFlagAck ≠ 0
  seq := getU32 l.counters 0
  timestampMs := getU32 l.counters 4
  srcImsi := l.src
  dstImsi := l.dst
  confId := if l.hasConf then getU32 l.conf 0 else 0
  payload := l.payload

end Layout

/-- Where the parts lie. -/
theorem drop_bytes {l : Layout} (h : l.Fits) :
    l.bytes.drop 10 = UInt8.ofNat l.src.length :: (l.src ++ (UInt8.ofNat l.dst.length :: (l.dst ++
      (l.conf ++ l.payload)))) ∧
      l.bytes.drop 11 = l.src ++ (UInt8.ofNat l.dst.length :: (l.dst ++ (l.conf ++ l.payload))) ∧
      l.bytes.drop (11 + l.src.length) = UInt8.ofNat l.dst.length :: (l.dst ++ (l.conf ++ l.payload)) ∧
      l.bytes.drop (12 + l.src.length) = l.dst ++ (l.conf ++ l.payload) ∧
      l.bytes.drop (12 + l.src.length + l.dst.length) = l.conf ++ l.payload ∧
      l.bytes.drop (12 + l.src.length + l.dst.length + l.conf.length) = l.payload := by
  have hfront : l.front.length = 10 := by rw [Layout.front, List.length_cons, List.length_cons, h.counters]
  have h10 : l.bytes.drop 10 = _ := List.drop_left' hfront
  have h11 : l.bytes.drop 11 = l.src ++ (UInt8.ofNat l.dst.length :: (l.dst ++ (l.conf ++ l.payload))) := by
    rw [← List.drop_drop (i := 1) (j := 10), h10]
    rfl
  have hsrc : l.bytes.drop (11 + l.src.length) = UInt8.ofNat l.dst.length :: (l.dst ++ (l.conf ++ l.payload)) := by
    rw [← List.drop_drop, h11, List.drop_left' rfl]
  have hsrc' : l.bytes.drop (12 + l.src.length) = l.dst ++ (l.conf ++ l.payload) := by
    rw [show 12 + l.src.length = 11 + l.src.length + 1 by omega, ← List.drop_drop, hsrc]
    rfl
  have hdst : l.bytes.drop (12 + l.src.length + l.dst.length) = l.conf ++ l.payload := by
    rw [← List.drop_drop, hsrc', List.drop_left' rfl]
  refine ⟨h10, h11, hsrc, hsrc', hdst, ?_⟩
  rw [← List.drop_drop, hdst, List.drop_left' rfl]

/-- Octets that are laid out like a packet are read back part by part. -/
theorem decodeU2u_bytes {l : Layout} (h : l.Fits) :
    decodeU2u l.bytes = (mediaKindOfNibble? (l.kindOctet &&& 0x0F)).map l.packet := by
  have hsrc := h.src_le
  have hdst := h.dst_le
  have hpos := List.length_pos_iff.mpr h.src_pos
  rw [u2uMaxImsiLen] at hsrc hdst
  obtain ⟨h10, h11, hsrcAt, hdstAt, hconfAt, hpayloadAt⟩ := drop_bytes h
  have hlen : l.bytes.length = 12 + l.src.length + l.dst.length + l.conf.length + l.payload.length := by
    simp only [Layout.bytes, Layout.front, List.length_append, List.length_cons, h.counters]
    omega
  have hsrcLen : (l.bytes.getD 10 0).toNat = l.src.length := by
    have hread := getD_drop l.bytes 10 0
    rw [h10, List.getD_cons_zero] at hread
    rw [← hread, UInt8.toNat_ofNat']
    exact Nat.mod_eq_of_lt (by omega)
  have hdstLen : (l.bytes.getD (11 + l.src.length) 0).toNat = l.dst.length := by
    have hread := getD_drop l.bytes (11 + l.src.length) 0
    rw [hsrcAt, List.getD_cons_zero, Nat.add_zero] at hread
    rw [← hread, UInt8.toNat_ofNat']
    exact Nat.mod_eq_of_lt (by omega)
  have hcounters : ∀ off, off + 4 ≤ 8 → getU32 l.bytes (2 + off) = getU32 l.counters off := by
    intro off hoff
    rw [← getU32_drop]
    exact getU32_append (by rw [h.counters]; exact hoff)
  have hconfId : (if l.kindOctet &&& u2uFlagConf ≠ 0 then getU32 l.bytes (12 + l.src.length + l.dst.length) else 0) =
      if l.hasConf then getU32 l.conf 0 else 0 := by
    refine ite_congr rfl (fun hconf => ?_) fun _ => rfl
    have hread := getU32_drop l.bytes (12 + l.src.length + l.dst.length) 0
    rw [hconfAt, getU32_append (by rw [h.conf, if_pos hconf])] at hread
    exact hread.symm
  have hkind : l.bytes.getD 1 0 = l.kindOctet := rfl
  have hmagic : l.bytes.getD 0 0 = u2uMagic := rfl
  have hconfLen : (if l.kindOctet &&& u2uFlagConf ≠ 0 then 4 else 0) = l.conf.length := h.conf.symm
  have hdstPos : ¬ (l.dst.length = 0 ∧ ¬ l.kindOctet &&& u2uFlagConf ≠ 0) := by
    rintro ⟨hzero, hno⟩
    exact h.dst_pos.elim (fun hne => hne (List.length_eq_zero_iff.mp hzero)) hno
  rw [decodeU2u, if_neg (by rw [hmagic]; simp only [ne_eq, not_true, or_false]; omega)]
  simp only [hkind, hsrcLen, hdstLen, hconfLen]
  cases mediaKindOfNibble? (l.kindOctet &&& 0x0F) with
  | none => rfl
  | some kind =>
    dsimp only [Option.map_some]
    rw [if_neg (by rw [u2uMaxImsiLen]; omega), if_neg hdstPos, if_neg (by rw [u2uMaxImsiLen]; omega), h11, hdstAt,
      hpayloadAt, List.take_left' rfl, List.take_left' rfl, hcounters 0 (by decide), hcounters 4 (by decide), hconfId]
    rfl

/-! ### What is accepted -/

/-- The checks of `decode_u2u`. -/
structure Accepted (data : Bytes) : Prop where
  long : 12 ≤ data.length
  magic : data.getD 0 0 = u2uMagic
  kind : (mediaKindOfNibble? (data.getD 1 0 &&& 0x0F)).isSome = true
  src_pos : (data.getD 10 0).toNat ≠ 0
  src_le : (data.getD 10 0).toNat ≤ u2uMaxImsiLen
  src_fits : 12 + (data.getD 10 0).toNat ≤ data.length
  dst_pos : (data.getD (11 + (data.getD 10 0).toNat) 0).toNat ≠ 0 ∨ data.getD 1 0 &&& u2uFlagConf ≠ 0
  dst_le : (data.getD (11 + (data.getD 10 0).toNat) 0).toNat ≤ u2uMaxImsiLen
  fits : 12 + (data.getD 10 0).toNat + (data.getD (11 + (data.getD 10 0).toNat) 0).toNat +
    (if data.getD 1 0 &&& u2uFlagConf ≠ 0 then 4 else 0) ≤ data.length

/-- The decoder accepts exactly these. -/
theorem decodeU2u_isSome (data : Bytes) : (decodeU2u data).isSome = true ↔ Accepted data := by
  unfold decodeU2u
  by_cases hfront : data.length < 12 ∨ data.getD 0 0 ≠ u2uMagic
  · rw [if_pos hfront]
    refine iff_of_false Bool.false_ne_true fun h => ?_
    exact hfront.elim (Nat.not_lt.mpr h.long) (fun hne => hne h.magic)
  · rw [if_neg hfront]
    obtain ⟨hlen, hmagic⟩ := not_or.mp hfront
    dsimp only
    cases hkind : mediaKindOfNibble? (data.getD 1 0 &&& 0x0F) with
    | none =>
      refine iff_of_false Bool.false_ne_true fun h => ?_
      have hsome := h.kind
      rw [hkind] at hsome
      cases hsome
    | some kind =>
      dsimp only
      constructor
      · intro h
        generalize hconf : (if data.getD 1 0 &&& u2uFlagConf ≠ 0 then 4 else 0) = confLen at h
        split at h
        · cases h
        · rename_i hsrc
          split at h
          · cases h
          · rename_i hdstPos
            split at h
            · cases h
            · rename_i hdst
              simp only [not_or, Nat.not_lt, not_and_or, not_not] at hsrc hdst hdstPos hlen hmagic
              exact ⟨hlen, hmagic, by rw [hkind]; rfl, hsrc.1, hsrc.2.1, hsrc.2.2, hdstPos, hdst.1,
                by rw [hconf]; exact hdst.2⟩
      · intro h
        have hsrc := h.src_pos
        have hsrcLe := h.src_le
        have hsrcFits := h.src_fits
        have hdstLe := h.dst_le
        have hfits := h.fits
        rw [if_neg (by omega), if_neg (fun hnot => h.dst_pos.elim (fun hne => hne hnot.1) hnot.2), if_neg (by omega)]
        rfl

theorem drop_cons {data : Bytes} {n : Nat} (h : n < data.length) : data.drop n = data.getD n 0 :: data.drop (n + 1) := by
  rw [List.drop_eq_getElem_cons h, List.getD_eq_getElem?_getD, List.getElem?_eq_getElem h, Option.getD_some]

theorem drop_split (data : Bytes) (n k : Nat) : data.drop n = (data.drop n).take k ++ data.drop (n + k) := by
  rw [← List.drop_drop, List.take_append_drop]

/-- The parts of what is accepted. -/
def parts (data : Bytes) : Layout :=
  let src := (data.getD 10 0).toNat
  let dst := (data.getD (11 + src) 0).toNat
  let conf := if data.getD 1 0 &&& u2uFlagConf ≠ 0 then 4 else 0
  { kindOctet := data.getD 1 0
    counters := (data.drop 2).take 8
    src := (data.drop 11).take src
    dst := (data.drop (12 + src)).take dst
    conf := (data.drop (12 + src + dst)).take conf
    payload := data.drop (12 + src + dst + conf) }

/-- Accepted octets are the layout of their parts. -/
theorem parts_spec {data : Bytes} (h : Accepted data) : (parts data).Fits ∧ (parts data).bytes = data := by
  obtain ⟨hlong, hmagic, -, hsrcPos, hsrcLe, hsrcFits, hdstPos, hdstLe, hfits⟩ := h
  generalize hsrc : (data.getD 10 0).toNat = src at *
  generalize hdst : (data.getD (11 + src) 0).toNat = dst at *
  generalize hconf : (if data.getD 1 0 &&& u2uFlagConf ≠ 0 then 4 else 0) = conf at *
  have hparts : parts data = ⟨data.getD 1 0, (data.drop 2).take 8, (data.drop 11).take src,
      (data.drop (12 + src)).take dst, (data.drop (12 + src + dst)).take conf,
      data.drop (12 + src + dst + conf)⟩ := by
    simp only [parts, hsrc, hdst, hconf]
  have hsrcLen : ((data.drop 11).take src).length = src := by
    rw [List.length_take, List.length_drop]
    omega
  have hdstLen : ((data.drop (12 + src)).take dst).length = dst := by
    rw [List.length_take, List.length_drop]
    omega
  rw [hparts]
  constructor
  · refine ⟨?_, ?_, hsrcLen.trans_le hsrcLe, hdstLen.trans_le hdstLe, ?_, ?_⟩
    · rw [List.length_take, List.length_drop]
      omega
    · rw [← List.length_pos_iff, hsrcLen]
      omega
    · refine hdstPos.imp (fun hne => ?_) fun hflag => hflag
      rw [← List.length_pos_iff, hdstLen]
      omega
    · rw [List.length_take, List.length_drop, Nat.min_eq_left (by omega)]
      exact hconf.symm
  · rw [Layout.bytes, Layout.front]
    dsimp only
    have hdstCons : UInt8.ofNat dst :: data.drop (12 + src) = data.drop (11 + src) := by
      rw [drop_cons (show 11 + src < data.length by omega), ← hdst, UInt8.ofNat_toNat,
        show 11 + src + 1 = 12 + src by omega]
    have hsrcCons : UInt8.ofNat src :: data.drop 11 = data.drop 10 := by
      rw [drop_cons (show 10 < data.length by omega), ← hsrc, UInt8.ofNat_toNat]
    rw [hsrcLen, hdstLen, ← drop_split data (12 + src + dst) conf, ← drop_split data (12 + src) dst, hdstCons,
      ← drop_split data 11 src, hsrcCons, List.cons_append, List.cons_append, ← drop_split data 2 8, ← hmagic,
      ← drop_cons (show 1 < data.length by omega), ← drop_cons (show 0 < data.length by omega), List.drop_zero]

/-! ### Both ways -/

/-- The encoder writes the same layout. -/
theorem encodeU2u_layout (p : U2uPacket) : encodeU2u p = Layout.bytes ⟨p.kindOctet,
    putU32 p.seq ++ putU32 p.timestampMs, p.srcImsi, p.dstImsi, if p.confId ≠ 0 then putU32 p.confId else [],
    p.payload⟩ := by
  simp [encodeU2u, Layout.bytes, Layout.front]

theorem getU32_putU32_zero {x : Nat} (hx : x < u32Modulus) (rest : Bytes) : getU32 (putU32 x ++ rest) 0 = x := by
  have h := getU32_putU32 [] rest x
  rwa [Nat.mod_eq_of_lt hx] at h

theorem decode_encode {p : U2uPacket} (htyped : U2uTyped p) (haddr : U2uAddressed p) :
    decodeU2u (encodeU2u p) = some p := by
  obtain ⟨hseq, htime, hconfId⟩ := htyped
  obtain ⟨hsrcPos, hsrcLe, hdstLe, hdst⟩ := haddr
  obtain ⟨hkind, hconf, hending, hack⟩ := kindOctet_parts p
  have htimestamp : getU32 (putU32 p.seq ++ putU32 p.timestampMs) 4 = p.timestampMs := by
    have h := getU32_putU32 (putU32 p.seq) [] p.timestampMs
    rw [List.append_nil, Nat.mod_eq_of_lt htime] at h
    exact h
  rw [encodeU2u_layout, decodeU2u_bytes ⟨rfl, hsrcPos, hsrcLe, hdstLe, hdst.imp_right hconf.mpr, ?_⟩]
  · have hconfRead : (if p.kindOctet &&& u2uFlagConf ≠ 0 then
        getU32 (if p.confId ≠ 0 then putU32 p.confId else []) 0 else 0) = p.confId := by
      by_cases hzero : p.confId = 0
      · rw [if_neg (fun h => hconf.mp h hzero), hzero]
      · rw [if_pos (hconf.mpr hzero), if_pos hzero, ← List.append_nil (putU32 p.confId), getU32_putU32_zero hconfId]
    rw [hkind, Option.map_some]
    refine congrArg some (Eq.trans ?_ (show U2uPacket.mk p.kind p.ack p.ending p.seq p.timestampMs p.srcImsi
      p.dstImsi p.confId p.payload = p from rfl))
    simp only [Layout.packet, U2uPacket.mk.injEq, true_and, and_true, getU32_putU32_zero hseq, htimestamp]
    exact ⟨Bool.eq_iff_iff.mpr (decide_eq_true_iff.trans hack), Bool.eq_iff_iff.mpr (decide_eq_true_iff.trans hending),
      hconfRead⟩
  · by_cases hzero : p.confId = 0
    · rw [if_neg (not_not.mpr hzero)]
      exact (if_neg fun h : p.kindOctet &&& u2uFlagConf ≠ 0 => hconf.mp h hzero).symm
    · rw [if_pos hzero]
      exact (if_pos (hconf.mpr hzero)).symm

theorem encode_decode {data : Bytes} {p : U2uPacket} (h : decodeU2u data = some p)
    (hbit : data.getD 1 0 &&& 0x10 = 0) (hconf : data.getD 1 0 &&& u2uFlagConf ≠ 0 → p.confId ≠ 0) :
    encodeU2u p = data := by
  have haccepted := (decodeU2u_isSome data).mp (by rw [h]; rfl)
  obtain ⟨hfits, hbytes⟩ := parts_spec haccepted
  generalize hl : parts data = l at hfits hbytes
  have hoctet : data.getD 1 0 = l.kindOctet := by rw [← hl, parts]
  rw [hoctet] at hbit hconf
  rw [← hbytes, decodeU2u_bytes hfits] at h
  obtain ⟨kind, hkind, rfl⟩ := Option.map_eq_some_iff.mp h
  have hkindOctet : (l.packet kind).kindOctet = l.kindOctet := by
    refine kindOctet_eq hkind ⟨hconf, fun hne => ?_⟩ rfl rfl hbit
    by_contra hno
    exact hne (if_neg (not_not.mpr hno))
  have hcounters : putU32 (getU32 l.counters 0) ++ putU32 (getU32 l.counters 4) = l.counters := by
    rw [putU32_getU32, putU32_getU32]
    match l.counters, hfits.counters with
    | [_, _, _, _, _, _, _, _], _ => rfl
  have hconfField : (if (l.packet kind).confId ≠ 0 then putU32 (l.packet kind).confId else []) = l.conf := by
    have hlen := hfits.conf
    by_cases hflag : l.hasConf
    · rw [if_pos hflag] at hlen
      rw [if_pos (hconf hflag), Layout.packet, if_pos hflag, putU32_getU32]
      match l.conf, hlen with
      | [_, _, _, _], _ => rfl
    · rw [if_neg hflag] at hlen
      rw [Layout.packet, if_neg hflag, List.length_eq_zero_iff.mp hlen]
      rfl
  rw [encodeU2u_layout, hkindOctet, hconfField, Layout.packet, hcounters]
  exact hbytes

/-- No media kind but the signalling one is lost in a signalling payload. -/
theorem decodeSig_encodeSig_media {m : SigMessage} (h : m.media ≠ .sig) : decodeSig (encodeSig m) = some m := by
  rw [decodeSig_encodeSig]
  obtain ⟨method, callId, media, confId⟩ := m
  cases media with
  | sig => exact absurd rfl h
  | _ => rfl

end U2uCodec

open U2uCodec

/-- Every packet comes back, every accepted string of octets without bit 4 and without an empty
conference field is written again, and every signalling message about media comes back. -/
theorem u2u_codec :
    (∀ p, U2uTyped p → U2uAddressed p → decodeU2u (encodeU2u p) = some p) ∧
      (∀ data p, decodeU2u data = some p → data.getD 1 0 &&& 0x10 = 0 →
        (data.getD 1 0 &&& u2uFlagConf ≠ 0 → p.confId ≠ 0) → encodeU2u p = data) ∧
      ∀ m : SigMessage, m.media ≠ .sig → decodeSig (encodeSig m) = some m :=
  ⟨fun _ => decode_encode, fun _ _ => encode_decode, fun _ => decodeSig_encodeSig_media⟩

/-- Conference media has no destination. -/
def conferenceMedia : U2uPacket where
  kind := .voice
  ending := true
  seq := 0x01020304
  srcImsi := [0x31]
  confId := 7
  payload := [9]

theorem u2u_codec_conference : decodeU2u (encodeU2u conferenceMedia) = some conferenceMedia ∧
    encodeU2u { kind := .msg, srcImsi := [0x31], dstImsi := [0x32] } =
      [0xA5, 0, 0, 0, 0, 0, 0, 0, 0, 0, 1, 0x31, 1, 0x32] ∧
    decodeSig (encodeSig ⟨.invite, 5, .video, 7⟩) = some ⟨.invite, 5, .video, 7⟩ :=
  ⟨u2u_codec.1 _ (by decide) (by decide), u2u_codec.2.1 _ _ (by decide) (by decide) (by decide),
    u2u_codec.2.2 _ (by decide)⟩

end AetherStack.Guarantees
