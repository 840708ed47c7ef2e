import AetherStack.Source.Qos

/-!
# MAC PDUs and air frames

Source: stack/mac/src/mac_pdu.cpp:6-50, the LCIDs of include/mac/mac_pdu.h:24-42 and the
`AirFrame` of stack/core/include/core/radio_frames.h:11-24. An SDU longer than 65535 octets is cut
in its length field only, as by the cast of the source.
-/
namespace AetherStack.Source

namespace Mac

def lcidTpc : UInt8 := 55
def lcidCqiReport : UInt8 := 56
def lcidPaging : UInt8 := 58
def lcidHarqAck : UInt8 := 60
def lcidSib1 : UInt8 := 61
def lcidMib : UInt8 := 62
def lcidPadding : UInt8 := 63
def rntiBroadcast : Nat := 0xFFFF

/-- One sub-header and its SDU. The length is cut to 16 bits, in big-endian order. -/
def buildSdu (lcid : UInt8) (sdu : Bytes) : Bytes :=
  let len := sdu.length % 2 ^ 16
  (if len ≤ 255 then [lcid &&& 0x3F, UInt8.ofNat len]
    else [0x40 ||| (lcid &&& 0x3F), UInt8.ofNat (len / 256), UInt8.ofNat (len % 256)]) ++ sdu

def buildPdu (sdus : List (UInt8 × Bytes)) : Bytes := sdus.flatMap fun s => buildSdu s.1 s.2

private theorem lcid_table : ∀ i : Fin 256,
    (0x40 ||| (UInt8.ofNat i.val &&& 0x3F)) &&& 0x3F = UInt8.ofNat i.val &&& 0x3F ∧
      (UInt8.ofNat i.val &&& 0x3F) &&& 0x3F = UInt8.ofNat i.val &&& 0x3F := by
  decide +kernel

/-- The LCID is in the low six bits of the first octet. -/
theorem buildSdu_head (lcid : UInt8) (sdu : Bytes) :
    ∃ b rest, buildSdu lcid sdu = b :: rest ∧ b &&& 0x3F = lcid &&& 0x3F := by
  obtain ⟨hlong, hshort⟩ := lcid_table ⟨lcid.toNat, lcid.toNat_lt⟩
  simp only [UInt8.ofNat_toNat] at hlong hshort
  unfold buildSdu
  dsimp only
  split
  · exact ⟨_, _, rfl, hshort⟩
  · exact ⟨_, _, rfl, hlong⟩

/-- The octets of a PDU tell its channel, up to six bits. -/
theorem buildPdu_lcid {lcid lcid' : UInt8} {sdu sdu' : Bytes}
    (h : buildPdu [(lcid, sdu)] = buildPdu [(lcid', sdu')]) : lcid &&& 0x3F = lcid' &&& 0x3F := by
  obtain ⟨b, rest, hb, hlcid⟩ := buildSdu_head lcid sdu
  obtain ⟨b', rest', hb', hlcid'⟩ := buildSdu_head lcid' sdu'
  simp only [buildPdu, List.flatMap_singleton, hb, hb', List.cons.injEq] at h
  rw [← hlcid, ← hlcid', h.1]

/-- The sub-header at the head of a PDU: LCID, length and what is behind it. -/
def parseHeader : Bytes → Option (UInt8 × Nat × Bytes)
  | header :: l :: rest =>
    if header &&& 0x3F = lcidPadding then none
    else if header &&& 0x40 ≠ 0 then
      match rest with
      | l' :: rest => some (header &&& 0x3F, l.toNat * 256 + l'.toNat, rest)
      | [] => none
    else some (header &&& 0x3F, l.toNat, rest)
  | _ => none

/-- The `while` loop of `parse_pdu`; every turn takes a sub-header of two octets or more. -/
def parseLoop : Nat → Bytes → List (UInt8 × Bytes)
  | 0, _ => []
  | fuel + 1, pdu =>
    match parseHeader pdu with
    | none => []
    | some (lcid, len, rest) =>
      if rest.length < len then [] else (lcid, rest.take len) :: parseLoop fuel (rest.drop len)

def parsePdu (pdu : Bytes) : List (UInt8 × Bytes) := parseLoop pdu.length pdu

end Mac

inductive AirFrameType where
  | msg1Prach | msg2Rar | msg3Ccch | msg4Cr | data
  deriving DecidableEq, Repr

structure AirFrame where
  type : AirFrameType := .data
  rnti : Nat := 0
  payload : Bytes := []
  deriving DecidableEq, Repr

end AetherStack.Source
