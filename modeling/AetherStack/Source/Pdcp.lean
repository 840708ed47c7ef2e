import AetherStack.Source.Crypto

/-!
# PDCP framing, confidentiality and integrity

Source: stack/pdcp/src/pdcp_entity.cpp:8-86. Wire format of a protected frame:
`[flags:1][seq:8 LE][ciphertext][mac-i:4]`. `protect` always sets both flags;
`unprotect` reads them from the frame, and the flags octet is outside the MAC.
-/
namespace AetherStack.Source

namespace Pdcp

def headerSize : Nat := 2

/-- The clear framing: two zero octets in front. -/
def tx (sdu : Bytes) : Bytes := 0x00 :: 0x00 :: sdu

def rx (pdu : Bytes) : Bytes := if pdu.length < headerSize then [] else pdu.drop headerSize

def flagEncrypted : UInt8 := 0x01
def flagIntegrity : UInt8 := 0x02

/-- flags(1) + seq(8) -/
def secHeaderSize : Nat := 9

/-- truncated HMAC-SHA256 -/
def macISize : Nat := 4

/-- The sequence number in the first eight octets, the rest zero. -/
def seqNonce (seq : UInt64) : Nonce96 :=
  Vector.ofFn fun i : Fin 12 => if i.val < 8 then (seq >>> (8 * UInt64.ofNat i.val)).toUInt8 else 0

/-- The nonce `unprotect` reads back from the header of a frame. -/
def frameNonce (pdu : Bytes) : Nonce96 :=
  Vector.ofFn fun i : Fin 12 => if i.val < 8 then pdu.getD (1 + i.val) 0 else 0

/-- Header and ciphertext, before the MAC-I is appended. -/
def protectBody (key : Key256) (seq : UInt64) (sdu : Bytes) : Bytes :=
  (flagEncrypted ||| flagIntegrity) :: ((seqNonce seq).toList.take 8 ++
    chacha20Xor key (seqNonce seq) 0 sdu)

def protect (hmac : Hmac) (key : Key256) (seq : UInt64) (sdu : Bytes) : Bytes :=
  protectBody key seq sdu ++
    (hmac key ((protectBody key seq sdu).drop 1)).toList.take macISize

/-- Whether the frame is treated as integrity protected. -/
def hasIntegrity (pdu : Bytes) : Bool :=
  pdu.length > secHeaderSize ∧ pdu.getD 0 0 &&& flagIntegrity ≠ 0

/-- MAC over seq and ciphertext, compared with the last four octets. -/
def macMatches (hmac : Hmac) (key : Key256) (pdu : Bytes) : Bool :=
  (hmac key ((pdu.take (pdu.length - macISize)).drop 1)).toList.take macISize =
    pdu.drop (pdu.length - macISize)

def unprotect (hmac : Hmac) (key : Key256) (pdu : Bytes) : Option Bytes :=
  let integrity := hasIntegrity pdu
  let minSize := secHeaderSize + if integrity then macISize else 0
  if pdu.length < minSize ∨ pdu.getD 0 0 &&& flagEncrypted = 0 then none
  else if integrity ∧ macMatches hmac key pdu = false then none
  else
    let ctEnd := if integrity then pdu.length - macISize else pdu.length
    some (chacha20Xor key (frameNonce pdu) 0 ((pdu.take ctEnd).drop secHeaderSize))

theorem hasIntegrity_iff (pdu : Bytes) :
    hasIntegrity pdu = true ↔ 9 < pdu.length ∧ pdu.getD 0 0 &&& 0x02 ≠ 0 :=
  decide_eq_true_iff

/-- The check compares four octets of the digest over header and body. -/
theorem macMatches_iff (hmac : Hmac) (key : Key256) (pdu : Bytes) :
    macMatches hmac key pdu = true ↔
      (hmac key ((pdu.take (pdu.length - 4)).drop 1)).toList.take 4 = pdu.drop (pdu.length - 4) :=
  decide_eq_true_iff

theorem rx_tx (sdu : Bytes) : rx (tx sdu) = sdu := by
  simp [rx, tx, headerSize]

/-! ### The frame around any cipher

What the two functions do to the octets depends on the cipher only where they call it. -/

section
variable (cipher : Nonce96 → Bytes → Bytes) (hmac : Hmac) (key : Key256) (seq : UInt64) (sdu : Bytes)

def sealBody : Bytes :=
  (flagEncrypted ||| flagIntegrity) :: ((seqNonce seq).toList.take 8 ++ cipher (seqNonce seq) sdu)

def sealFrame : Bytes :=
  sealBody cipher seq sdu ++ (hmac key ((sealBody cipher seq sdu).drop 1)).toList.take macISize

def openFrame (pdu : Bytes) : Option Bytes :=
  let integrity := hasIntegrity pdu
  let minSize := secHeaderSize + if integrity then macISize else 0
  if pdu.length < minSize ∨ pdu.getD 0 0 &&& flagEncrypted = 0 then none
  else if integrity ∧ macMatches hmac key pdu = false then none
  else
    let ctEnd := if integrity then pdu.length - macISize else pdu.length
    some (cipher (frameNonce pdu) ((pdu.take ctEnd).drop secHeaderSize))

theorem length_sealBody :
    (sealBody cipher seq sdu).length = secHeaderSize + (cipher (seqNonce seq) sdu).length := by
  simp [sealBody, secHeaderSize]
  omega

theorem length_sealFrame :
    (sealFrame cipher hmac key seq sdu).length = secHeaderSize + (cipher (seqNonce seq) sdu).length + macISize := by
  rw [sealFrame, List.length_append, length_sealBody]
  simp [macISize]

/-- The header of a frame carries exactly the nonce it was encrypted under. -/
theorem frameNonce_sealFrame : frameNonce (sealFrame cipher hmac key seq sdu) = seqNonce seq := by
  unfold frameNonce
  ext i hi
  simp only [Vector.getElem_ofFn]
  split
  · rename_i h8
    rw [sealFrame, sealBody, List.cons_append, Nat.add_comm 1 i, List.getD_cons_succ,
      List.getD_eq_getElem?_getD, List.append_assoc,
      List.getElem?_append_left (by simp; omega), List.getElem?_take_of_lt h8]
    simp [hi]
  · rename_i h8
    simp [seqNonce, h8]

/-- A frame opens under a cipher that undoes itself, and under the same keyed digest. -/
theorem openFrame_sealFrame (hcipher : cipher (seqNonce seq) (cipher (seqNonce seq) sdu) = sdu) :
    openFrame cipher hmac key (sealFrame cipher hmac key seq sdu) = some sdu := by
  have hlen := length_sealFrame cipher hmac key seq sdu
  have hbody := length_sealBody cipher seq sdu
  have hflags : (sealFrame cipher hmac key seq sdu).getD 0 0 = flagEncrypted ||| flagIntegrity := rfl
  have hint : hasIntegrity (sealFrame cipher hmac key seq sdu) = true := by
    rw [hasIntegrity_iff, hflags, hlen, secHeaderSize, macISize]
    exact ⟨by omega, by decide⟩
  have hcut : (sealFrame cipher hmac key seq sdu).length - macISize = (sealBody cipher seq sdu).length := by
    omega
  have htake : (sealFrame cipher hmac key seq sdu).take (sealBody cipher seq sdu).length =
      sealBody cipher seq sdu := List.take_left' rfl
  have hdrop : (sealFrame cipher hmac key seq sdu).drop (sealBody cipher seq sdu).length =
      (hmac key ((sealBody cipher seq sdu).drop 1)).toList.take macISize := List.drop_left' rfl
  have hmac : macMatches hmac key (sealFrame cipher hmac key seq sdu) = true := by
    simp only [macMatches, hcut, htake, hdrop, decide_true]
  have hct : (sealBody cipher seq sdu).drop secHeaderSize = cipher (seqNonce seq) sdu := by
    rw [sealBody, secHeaderSize, List.drop_succ_cons]
    exact List.drop_left' (by simp)
  simp only [openFrame, hint, hmac, if_true, hcut, htake, hct, frameNonce_sealFrame, hcipher]
  rw [if_neg]
  · simp
  · rw [hlen, hflags]
    simp only [not_or]
    exact ⟨by omega, by decide⟩

end

/-- The cipher of the code. -/
def chacha20Cipher (key : Key256) (nonce : Nonce96) : Bytes → Bytes := chacha20Xor key nonce 0

/-- `protect` seals with the key's own cipher. -/
theorem protect_eq (hmac : Hmac) (key : Key256) (seq : UInt64) (sdu : Bytes) :
    protect hmac key seq sdu = sealFrame (chacha20Cipher key) hmac key seq sdu := rfl

/-- `unprotect` opens with it. -/
theorem unprotect_eq (hmac : Hmac) (key : Key256) (pdu : Bytes) :
    unprotect hmac key pdu = openFrame (chacha20Cipher key) hmac key pdu := rfl

/-- The receiver with the same key gets the SDU back, for every keyed digest. -/
theorem unprotect_protect (hmac : Hmac) (key : Key256) (seq : UInt64) (sdu : Bytes) :
    unprotect hmac key (protect hmac key seq sdu) = some sdu := by
  rw [unprotect_eq, protect_eq]
  exact openFrame_sealFrame _ hmac key seq sdu (chacha20Xor_cancel key (seqNonce seq) 0 sdu)

end Pdcp

end AetherStack.Source
