import AetherStack.Guarantees.U2uCodec
import AetherStack.Source.AppSdus
import AetherStack.Source.BsUplink

/-!
# Pings and packets of other UEs

An SDU is a ping or a packet by what `decode_u2u` says of it, and a ping starts with its
sequence number: the magic octet is the low octet of every 256th number, the kind is in the
next one, and the lengths lie in the text of the ping.
-/
namespace AetherStack.Guarantees
open Source Source.Core

/-- The ping reads as a packet: its number ends in the magic octet and a kind, and its text
has lengths that fit. Bit 13 of the number is the conference flag. -/
structure PingAliases (seq : UInt32) (payload : Bytes) : Prop where
  magic : seq.toNat % 256 = 0xA5
  kind : seq.toNat / 256 % 16 ≤ 3
  src_pos : payload.getD 6 0 ≠ 0
  src_le : (payload.getD 6 0).toNat ≤ u2uMaxImsiLen
  dst_pos : payload.getD (7 + (payload.getD 6 0).toNat) 0 ≠ 0 ∨ seq.toNat.testBit 13 = true
  dst_le : (payload.getD (7 + (payload.getD 6 0).toNat) 0).toNat ≤ u2uMaxImsiLen
  fits : 8 + (payload.getD 6 0).toNat + (payload.getD (7 + (payload.getD 6 0).toNat) 0).toNat +
    (if seq.toNat.testBit 13 then 4 else 0) ≤ payload.length

namespace PingAliasing
open U2uCodec

/-! ### The octets of a ping -/

/-- Where the octets a decoder looks at come from. -/
theorem pingSdu_octets (seq : UInt32) (payload : Bytes) :
    (pingSdu seq payload).getD 0 0 = UInt8.ofNat seq.toNat ∧
      (pingSdu seq payload).getD 1 0 = UInt8.ofNat (seq.toNat / 256) ∧
      ∀ i, (pingSdu seq payload).getD (4 + i) 0 = payload.getD i 0 := by
  refine ⟨rfl, ?_, fun i => ?_⟩
  · rw [show seq.toNat / 256 = seq.toNat >>> 8 from (Nat.shiftRight_eq_div_pow _ 8).symm]
    rfl
  · rw [pingSdu, List.getD_append_right _ _ _ _ (by rw [length_putU32]; omega), length_putU32, Nat.add_sub_cancel_left]

/-- A kind is in the low nibble, up to the signalling one. -/
theorem kind_isSome (b : UInt8) : (mediaKindOfNibble? (b &&& 0x0F)).isSome = true ↔ b.toNat % 16 ≤ 3 := by
  have hnibble : (b &&& 0x0F).toNat = b.toNat % 16 := by
    rw [UInt8.toNat_and]
    exact Nat.and_two_pow_sub_one_eq_mod b.toNat 4
  rw [← hnibble]
  generalize b &&& 0x0F = nibble
  simp only [mediaKindOfNibble?, List.find?_isSome, List.mem_cons, List.not_mem_nil, or_false, decide_eq_true_eq]
  constructor
  · rintro ⟨kind, -, rfl⟩
    cases kind <;> decide
  · intro hle
    obtain h | h | h | h : nibble.toNat = 0 ∨ nibble.toNat = 1 ∨ nibble.toNat = 2 ∨ nibble.toNat = 3 := by omega
    · exact ⟨.msg, by simp, UInt8.toNat_inj.mp h.symm⟩
    · exact ⟨.voice, by simp, UInt8.toNat_inj.mp h.symm⟩
    · exact ⟨.video, by simp, UInt8.toNat_inj.mp h.symm⟩
    · exact ⟨.sig, by simp, UInt8.toNat_inj.mp h.symm⟩

/-- The conference flag is bit 13 of the sequence number. -/
theorem conf_iff (seq : UInt32) :
    UInt8.ofNat (seq.toNat / 256) &&& u2uFlagConf ≠ 0 ↔ seq.toNat.testBit 13 = true := by
  rw [show u2uFlagConf = UInt8.ofNat (2 ^ 5) from rfl, and_flag_ne_zero _ (by decide), UInt8.toNat_ofNat',
    Nat.testBit_mod_two_pow, show seq.toNat / 256 = seq.toNat / 2 ^ 8 from rfl, Nat.testBit_div_two_pow]
  rfl

/-- The checks of the decoder, one for one, on the SDU of a ping. -/
theorem accepted_ping_iff (seq : UInt32) (payload : Bytes) :
    Accepted (pingSdu seq payload) ↔ PingAliases seq payload := by
  obtain ⟨hmagic, hkind, htext⟩ := pingSdu_octets seq payload
  have hsrc : (pingSdu seq payload).getD 10 0 = payload.getD 6 0 := htext 6
  have hdst : (pingSdu seq payload).getD (11 + (payload.getD 6 0).toNat) 0 =
      payload.getD (7 + (payload.getD 6 0).toNat) 0 := by
    have hread := htext (7 + (payload.getD 6 0).toNat)
    rwa [← Nat.add_assoc] at hread
  have hmagicIff : UInt8.ofNat seq.toNat = u2uMagic ↔ seq.toNat % 256 = 0xA5 := by
    rw [← UInt8.toNat_inj, UInt8.toNat_ofNat']
    rfl
  have hkindIff := kind_isSome (UInt8.ofNat (seq.toNat / 256))
  rw [UInt8.toNat_ofNat', Nat.mod_mod_of_dvd _ (by decide)] at hkindIff
  have hlen := length_pingSdu seq payload
  have hpos : ∀ b : UInt8, b.toNat ≠ 0 ↔ b ≠ 0 := fun b => not_congr (UInt8.toNat_inj (b := 0))
  constructor
  · intro h
    obtain ⟨-, hm, hk, hsp, hsl, -, hdp, hdl, hf⟩ := h
    simp only [hsrc, hdst, hmagic, hkind, hlen, hmagicIff, hkindIff, conf_iff, hpos] at hm hk hsp hsl hdp hdl hf
    exact ⟨hm, hk, hsp, hsl, hdp, hdl, by omega⟩
  · intro h
    obtain ⟨hm, hk, hsp, hsl, hdp, hdl, hf⟩ := h
    constructor <;> simp only [hsrc, hdst, hmagic, hkind, hlen, hmagicIff, hkindIff, conf_iff, hpos]
    · omega
    · exact hm
    · exact hk
    · exact hsp
    · exact hsl
    · omega
    · exact hdp
    · exact hdl
    · omega

theorem decodeU2u_ping (seq : UInt32) (payload : Bytes) :
    decodeU2u (pingSdu seq payload) = none ↔ ¬ PingAliases seq payload := by
  rw [← accepted_ping_iff, ← decodeU2u_isSome, Option.not_isSome_iff_eq_none]

end PingAliasing

open PingAliasing

/-- A ping is taken for a ping at both ends exactly when it does not read as a packet: without
a UPF it is echoed, and its echo reaches `handle_pong`. -/
theorem ping_echoed_iff (seq : UInt32) (payload : Bytes) :
    (decodeU2u (pingSdu seq payload) = none ∧
      (∀ (w : World) (rnti : Nat) (n : BsNode), n.config.upf = false →
        BsNode.handleUlAppSdu w rnti n (pingSdu seq payload) = n.sendSdu rnti .bestEffort (pingSdu seq payload)) ∧
      ∀ (l : PingLedger) (nowMs : UInt32),
        handleAppSdu l nowMs (pingSdu seq payload) = (l.handlePong nowMs (pingSdu seq payload), none)) ↔
      ¬ PingAliases seq payload := by
  rw [← decodeU2u_ping]
  constructor
  · exact fun h => h.1
  · intro h
    refine ⟨h, fun w rnti n hupf => ?_, fun l nowMs => ?_⟩
    · rw [BsNode.handleUlAppSdu, if_neg (by rw [hupf]; decide), h]
    · rw [handleAppSdu, h]

/-- Zeros, then the length and the one digit of an IMSI, twice. -/
def aliasingPayload : Bytes := [0, 0, 0, 0, 0, 0, 1, 0x31, 1, 0x32]

/-- The 165th ping with this text is a message from one UE to another; the ping waits on. -/
theorem ping_echoed_aliased :
    decodeU2u (pingSdu 165 aliasingPayload) = some { kind := .msg, srcImsi := [0x31], dstImsi := [0x32] } ∧
      (handleAppSdu (PingLedger.send { txSeq := 164 } 1000) 1050 (pingSdu 165 aliasingPayload)).1.rxCount = 0 ∧
      (PingLedger.handlePong (PingLedger.send { txSeq := 164 } 1000) 1050 (pingSdu 165 aliasingPayload)).rxCount =
        1 := by
  decide

/-- The text of `start_traffic` is safe at every number: read as a packet, it has a sender whose
name is too long. -/
example (seq : UInt32) : ¬ PingAliases seq ((List.range 32).map fun i => UInt8.ofNat (0x41 + i % 26)) :=
  fun haliases => absurd haliases.src_le (by decide)

end AetherStack.Guarantees
