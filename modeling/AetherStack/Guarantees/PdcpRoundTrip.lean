import AetherStack.Source.Pdcp

/-!
# What `pdcp::protect` seals, `pdcp::unprotect` opens

Neither the block function of the stream cipher nor the keyed digest matters: the two ends
agree on where header, ciphertext and MAC-I lie, and each octet of the text meets the same
octet of the key stream twice.
-/
namespace AetherStack.Guarantees
open Source

/-- What `chacha20_block` is called with, and what it gives. -/
abbrev BlockFunction := Key256 → Nonce96 → UInt32 → Vector UInt8 64

/-- `chacha20_xor` over any block function, from counter zero. -/
def blockCipher (block : BlockFunction) (key : Key256) (nonce : Nonce96) (data : Bytes) : Bytes :=
  Lib.Keystream.mix (· ^^^ ·) (block key nonce) (· + 1) data.length 0 data

def protectWith (block : BlockFunction) (hmac : Hmac) (key : Key256) (seq : UInt64) (sdu : Bytes) : Bytes :=
  Pdcp.sealFrame (blockCipher block key) hmac key seq sdu

def unprotectWith (block : BlockFunction) (hmac : Hmac) (key : Key256) (pdu : Bytes) : Option Bytes :=
  Pdcp.openFrame (blockCipher block key) hmac key pdu

namespace PdcpRoundTrip

/-- Octet `i` of the ciphertext is octet `i` of the text and octet `i % 64` of block `i / 64`. -/
theorem getElem?_blockCipher (block : BlockFunction) (key : Key256) (nonce : Nonce96) (data : Bytes) (i : Nat) :
    (blockCipher block key nonce data)[i]? =
      (data[i]?).bind fun x => ((block key nonce (UInt32.ofNat (i / 64)))[i % 64]?).map (x ^^^ ·) := by
  have hcounter : ∀ n : Nat, (· + 1)^[n] (0 : UInt32) = UInt32.ofNat n := by
    intro n
    induction n with
    | zero => rfl
    | succ n ih =>
      rw [Function.iterate_succ_apply', ih, UInt32.ofNat_add]
      rfl
  rw [blockCipher, Lib.Keystream.getElem?_mix (by decide) (Nat.le_refl _), Lib.Keystream.at?, hcounter]

theorem length_blockCipher (block : BlockFunction) (key : Key256) (nonce : Nonce96) (data : Bytes) :
    (blockCipher block key nonce data).length = data.length :=
  Lib.Keystream.length_mix (by decide) (Nat.le_refl _) 0

/-- The stream is made twice and cancels. -/
theorem blockCipher_cancel (block : BlockFunction) (key : Key256) (nonce : Nonce96) (data : Bytes) :
    blockCipher block key nonce (blockCipher block key nonce data) = data := by
  rw [blockCipher, length_blockCipher]
  exact Lib.Keystream.mix_mix (by decide) uint8_xor_cancel (Nat.le_refl _) 0

/-- The loop over the ChaCha20 block is the cipher of the code. -/
theorem blockCipher_chacha20 (key : Key256) (nonce : Nonce96) :
    blockCipher chacha20Block key nonce = Pdcp.chacha20Cipher key nonce := by
  funext data
  exact (chacha20XorLoop_eq key nonce data.length 0 data).symm

/-- The code's two functions are the ones at its own block function. -/
theorem with_chacha20 (hmac : Hmac) (key : Key256) :
    protectWith chacha20Block hmac key = Pdcp.protect hmac key ∧
      unprotectWith chacha20Block hmac key = Pdcp.unprotect hmac key := by
  have hcipher : blockCipher chacha20Block key = Pdcp.chacha20Cipher key :=
    funext (blockCipher_chacha20 key)
  constructor
  · funext seq sdu
    rw [protectWith, hcipher, Pdcp.protect_eq]
  · funext pdu
    rw [unprotectWith, hcipher, Pdcp.unprotect_eq]

end PdcpRoundTrip

open PdcpRoundTrip

/-- Whatever the block function and the keyed digest: the sealed SDU opens again, and the code
is an instance of it. A frame is 13 octets longer than its SDU. -/
theorem pdcp_round_trip (block : BlockFunction) (hmac : Hmac) (key : Key256) (seq : UInt64) (sdu : Bytes) :
    unprotectWith block hmac key (protectWith block hmac key seq sdu) = some sdu ∧
      (protectWith block hmac key seq sdu).length = 13 + sdu.length ∧
      Pdcp.unprotect hmac key (Pdcp.protect hmac key seq sdu) = some sdu := by
  have hopen : ∀ block : BlockFunction,
      unprotectWith block hmac key (protectWith block hmac key seq sdu) = some sdu := fun block =>
    Pdcp.openFrame_sealFrame _ hmac key seq sdu (blockCipher_cancel block key (Pdcp.seqNonce seq) sdu)
  refine ⟨hopen block, ?_, ?_⟩
  · rw [protectWith, Pdcp.length_sealFrame, length_blockCipher, Pdcp.secHeaderSize,
      Pdcp.macISize]
    omega
  · have hcode := hopen chacha20Block
    rwa [(with_chacha20 hmac key).1, (with_chacha20 hmac key).2] at hcode

end AetherStack.Guarantees
