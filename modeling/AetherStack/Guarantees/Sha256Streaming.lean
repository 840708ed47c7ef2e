import AetherStack.Lib.Checked
import AetherStack.Source.Aka
import AetherStack.Source.Sha256

/-!
# SHA-256 in any number of calls

Between calls the context is behind the message so far: its whole blocks are compressed, the
rest is in the buffer. The tail of `finalise` is the standard's padding, so the digest is the
standard's however the message came, and HMAC on top of it is RFC 2104's.
-/
namespace AetherStack.Guarantees
open Source Lib
open Lib.Sha2 (Words)

namespace Sha256Streaming
open Sha256Ctx

/-! ### The tail -/

/-- The padding loop appends zeros until the length fits behind them. -/
theorem padLoop_zeros {bufLen n turns : Nat} {tail : Bytes} (hroom : tail.length + n ≤ tailSize) (hturns : n < turns)
    (hend : (bufLen + tail.length + n) % 64 = 56) (hleast : ∀ k < n, (bufLen + tail.length + k) % 64 ≠ 56) :
    padLoop bufLen turns tail = some (tail ++ List.replicate n 0) := by
  induction n generalizing turns tail with
  | zero =>
    obtain ⟨turns, rfl⟩ := Nat.exists_eq_succ_of_ne_zero (Nat.ne_zero_of_lt hturns)
    have hstop : (bufLen + tail.length) % 64 = 56 := hend
    rw [padLoop, if_neg (not_not.mpr hstop), List.replicate_zero, List.append_nil]
  | succ n ih =>
    obtain ⟨turns, rfl⟩ := Nat.exists_eq_succ_of_ne_zero (Nat.ne_zero_of_lt hturns)
    have hlen : (tail ++ [0]).length = tail.length + 1 := List.length_append
    have hmore : (bufLen + tail.length) % 64 ≠ 56 := hleast 0 (Nat.succ_pos n)
    rw [padLoop, if_pos hmore, pushTail, if_pos (by omega), Option.bind_some,
      ih (by omega) (by omega) (by rw [hlen, ← hend]; congr 1; omega), List.append_assoc, List.replicate_succ]
    · rfl
    · intro k hk
      have hnext := hleast (k + 1) (by omega)
      rwa [hlen, show bufLen + (tail.length + 1) + k = bufLen + tail.length + (k + 1) by omega]

theorem foldlM_pushTail (f : Nat → UInt8) (is : List Nat) {tail : Bytes} (h : tail.length + is.length ≤ tailSize) :
    is.foldlM (fun tail i => pushTail tail (f i)) tail = some (tail ++ is.map f) := by
  induction is generalizing tail with
  | nil => rw [List.map_nil, List.append_nil]; rfl
  | cons i is ih =>
    rw [List.length_cons] at h
    have hlen : (tail ++ [f i]).length = tail.length + 1 := List.length_append
    rw [List.foldlM_cons, pushTail, if_pos (by omega)]
    exact (ih (by omega)).trans (by rw [List.append_assoc, List.map_cons]; rfl)

/-- Octet `i` of the length field. -/
theorem bits_octet (x : Nat) {i : Nat} (hi : i < 8) :
    (UInt64.ofNat x >>> (56 - 8 * UInt64.ofNat i)).toUInt8 = UInt8.ofNat (x / 256 ^ (8 - 1 - i)) := by
  obtain ⟨k, hk, rfl⟩ : ∃ k, k < 8 ∧ i = 7 - k := ⟨7 - i, by omega, by omega⟩
  have hshift : (56 - 8 * UInt64.ofNat (7 - k)).toNat % 64 = 8 * k := by
    interval_cases k <;> rfl
  have hpow : 256 ^ k * 2 ^ (64 - 8 * k) = 2 ^ 64 := by
    rw [show 256 = 2 ^ 8 from rfl, ← Nat.pow_mul, ← Nat.pow_add]
    congr 1
    omega
  apply UInt8.toNat_inj.mp
  rw [UInt64.toNat_toUInt8, UInt64.toNat_shiftRight, hshift, UInt64.toNat_ofNat', UInt8.toNat_ofNat',
    Nat.shiftRight_eq_div_pow, Nat.pow_mul, ← hpow, Nat.mod_mul_right_div_self, show 8 - 1 - (7 - k) = k by omega]
  apply Nat.mod_mod_of_dvd
  exact Nat.pow_dvd_pow 2 (by omega)

/-- The tail is the padding of the standard. -/
theorem tail_eq (len : Nat) : tail (len % 64) (UInt64.ofNat (8 * len)) = some (Sha2.padding len) := by
  obtain ⟨hend, hleast⟩ := Sha2.zeros_least len
  have hzeros : Sha2.zeros len < 64 := Nat.mod_lt _ (by decide)
  have hmod : ∀ k, (len % 64 + 1 + k) % 64 = (len + 1 + k) % 64 := by omega
  have hpad : padLoop (len % 64) tailSize [0x80] = some ([0x80] ++ List.replicate (Sha2.zeros len) 0) := by
    apply padLoop_zeros
    · exact (Nat.add_comm _ _).trans_le (Nat.le_trans (Nat.succ_le_of_lt hzeros) (by decide))
    · exact hzeros.trans (by decide)
    · exact (hmod _).trans hend
    · exact fun k hk => (hmod k).trans_ne (hleast k hk)
  have hlength : (List.range 8).map (fun i => (UInt64.ofNat (8 * len) >>> (56 - 8 * UInt64.ofNat i)).toUInt8) =
      Sha2.bigEndian 8 (8 * len) := by
    apply List.map_congr_left
    intro i hi
    exact bits_octet (8 * len) (List.mem_range.mp hi)
  have hmarked : pushTail [] 0x80 = some [0x80] := rfl
  rw [tail, hmarked, Option.bind_eq_bind, Option.bind_some, hpad, Option.bind_some, foldlM_pushTail,
    hlength]
  · rfl
  · rw [List.length_append, List.length_replicate, List.length_range, tailSize]
    exact Nat.le_trans (by simp only [List.length_singleton]; omega) (Nat.le_refl 72)

/-! ### The digest -/

theorem storeBe_eq (v : UInt32) : storeBe v = Sha2.bigEndian 4 v.toNat := by
  have hoctet : ∀ n : UInt32, n.toNat < 32 → (v >>> n).toUInt8 = UInt8.ofNat (v.toNat / 2 ^ n.toNat) := by
    intro n hn
    apply UInt8.toNat_inj.mp
    rw [UInt32.toNat_toUInt8, UInt32.toNat_shiftRight, Nat.mod_eq_of_lt hn, UInt8.toNat_ofNat', Nat.shiftRight_eq_div_pow]
  have hlow : v.toUInt8 = UInt8.ofNat (v.toNat / 256 ^ 0) := by
    apply UInt8.toNat_inj.mp
    rw [UInt32.toNat_toUInt8, UInt8.toNat_ofNat', Nat.pow_zero, Nat.div_one]
  rw [storeBe, hoctet 24 (by decide), hoctet 16 (by decide), hoctet 8 (by decide), hlow]
  rfl

/-- A context behind a message ends in the standard's digest of it. -/
theorem finalise_behind {ctx : Sha256Ctx} {m : Bytes} (h : Behind ctx m) : ctx.finalise = some (Sha2.hash m) := by
  have hpadded := (h.update (Sha2.padding m.length)).absorbed
  have hh : (ctx.update (Sha2.padding m.length)).h = _ := congrArg Prod.fst hpadded
  have hstore : storeBe = fun x => Sha2.bigEndian 4 x.toNat := funext storeBe_eq
  rw [finalise, h.length_buf, h.counted, tail_eq, Option.map_some, hh, hstore]
  rfl

theorem sha256_eq (data : Bytes) : sha256 data = some (Sha2.hash data) := by
  rw [sha256]
  exact finalise_behind (behind_init.update data)

/-- A key longer than a block is hashed first, as the RFC has it. -/
theorem hmacBlock_eq (key : Bytes) : hmacBlock key = some (Sha2.hmacKey Sha2.hash 64 key) := by
  rw [hmacBlock, Sha2.hmacKey, sha256_eq]
  split
  · rfl
  · rfl

theorem hmac_eq (key data : Bytes) : hmacSha256 key data = some (Sha2.hmac Sha2.hash 64 key data) := by
  have htwo : ∀ first second : Bytes,
      ((init.update first).update second).finalise = some (Sha2.hash (first ++ second)) := fun first second =>
    finalise_behind ((behind_init.update first).update second)
  rw [hmacSha256, hmacBlock_eq, Option.bind_eq_bind, Option.bind_some, htwo, Option.bind_some, htwo,
    Sha2.hmac]

end Sha256Streaming

open Sha256Streaming

/-- However a message is split into calls, the buffer is never full between them, the tail fits
its side buffer, and the digest is the one of FIPS 180-4, whose length field is eight octets.
So HMAC is the one of RFC 2104. -/
theorem sha256_streaming :
    (∀ chunks : List Bytes,
      let ctx := chunks.foldl Sha256Ctx.update Sha256Ctx.init
      ctx.buf.length < 64 ∧
        (∃ tail, Sha256Ctx.tail ctx.buf.length ctx.totalBits = some tail ∧ tail.length ≤ Sha256Ctx.tailSize) ∧
        ctx.finalise = some (Sha2.hash chunks.flatten)) ∧
      ∀ key data, hmacSha256 key data = some (Sha2.hmac Sha2.hash 64 key data) := by
  refine ⟨fun chunks => ?_, hmac_eq⟩
  have h := Sha256Ctx.behind_foldl chunks
  refine ⟨h.buf_lt, ⟨Sha2.padding chunks.flatten.length, ?_, ?_⟩, finalise_behind h⟩
  · rw [h.length_buf, h.counted, tail_eq]
  · have hzeros : Sha2.zeros chunks.flatten.length < 64 := Nat.mod_lt _ (by decide)
    rw [Sha2.length_padding, Sha256Ctx.tailSize]
    omega

/-- The first example of the standard, "abc". -/
example : sha256 [0x61, 0x62, 0x63] = some
    [0xba, 0x78, 0x16, 0xbf, 0x8f, 0x01, 0xcf, 0xea, 0x41, 0x41, 0x40, 0xde, 0x5d, 0xae, 0x22, 0x23, 0xb0, 0x03, 0x61,
      0xa3, 0x96, 0x17, 0x7a, 0x9c, 0xb4, 0x10, 0xff, 0x61, 0xf2, 0x00, 0x15, 0xad] := by
  decide +kernel

end AetherStack.Guarantees
