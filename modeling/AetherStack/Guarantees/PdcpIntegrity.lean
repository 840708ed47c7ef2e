import AetherStack.Source.Pdcp

/-!
# Which frames `pdcp::unprotect` accepts without a MAC-I

The header promises `false` for a frame whose key does not match or whose MAC-I fails
(pdcp_entity.h:28-29). Whether there is a MAC-I at all is read from the frame: the flag
bit is not covered by it, and a frame of exactly nine octets is never checked. The
theorem determines the frames for which the promise is kept, for every key and every
keyed digest.
-/
namespace AetherStack.Guarantees
open Source

/-- `pdu` carries a valid MAC-I and `sdu` is the plaintext of what it covers. -/
structure Authenticated (hmac : Hmac) (key : Key256) (pdu sdu : Bytes) : Prop where
  length_ge : 13 ≤ pdu.length
  mac : pdu.drop (pdu.length - 4) =
    (hmac key ((pdu.take (pdu.length - 4)).drop 1)).toList.take 4
  plain : sdu = chacha20Xor key (Pdcp.frameNonce pdu) 0 ((pdu.take (pdu.length - 4)).drop 9)

/-- Encrypted according to its flags, and either without the integrity flag or with no
octet behind the header. -/
structure UnauthenticatedFrame (pdu : Bytes) : Prop where
  length_ge : 9 ≤ pdu.length
  encrypted : pdu.getD 0 0 &&& 0x01 ≠ 0
  unchecked : pdu.getD 0 0 &&& 0x02 = 0 ∨ pdu.length = 9

/-- Such a frame is always accepted, and everything behind the header is plaintext. -/
theorem unprotect_unauthenticated (hmac : Hmac) (key : Key256) {pdu : Bytes}
    (h : UnauthenticatedFrame pdu) :
    Pdcp.unprotect hmac key pdu =
      some (chacha20Xor key (Pdcp.frameNonce pdu) 0 (pdu.drop 9)) := by
  have hint : Pdcp.hasIntegrity pdu = false := by
    rw [← Bool.not_eq_true, Pdcp.hasIntegrity_iff]
    intro ⟨hlong, hset⟩
    rcases h.unchecked with hclear | hnine
    · exact hset hclear
    · omega
  have hsize : ¬ (pdu.length < 9 ∨ pdu.getD 0 0 &&& 0x01 = 0) := by
    intro hbad
    rcases hbad with hshort | hplain
    · exact absurd h.length_ge (by omega)
    · exact h.encrypted hplain
  simp only [Pdcp.unprotect, hint, Pdcp.secHeaderSize, Pdcp.flagEncrypted, Bool.false_eq_true,
    if_false, Nat.add_zero, false_and, if_neg hsize, List.take_length]

/-- On every other frame a successful `unprotect` has verified the MAC-I. -/
theorem unprotect_authenticated {hmac : Hmac} {key : Key256} {pdu sdu : Bytes}
    (hframe : ¬ UnauthenticatedFrame pdu) (hok : Pdcp.unprotect hmac key pdu = some sdu) :
    Authenticated hmac key pdu sdu := by
  unfold Pdcp.unprotect at hok
  cases hint : Pdcp.hasIntegrity pdu with
  | false =>
    -- the frame passed without a check, so it is one of the excluded ones
    simp only [hint, Pdcp.secHeaderSize, Pdcp.flagEncrypted, Bool.false_eq_true, if_false,
      Nat.add_zero] at hok
    rw [← Bool.not_eq_true, Pdcp.hasIntegrity_iff, not_and, not_not] at hint
    split at hok
    · cases hok
    · rename_i hsize
      rw [not_or] at hsize
      have hlen : 9 ≤ pdu.length := by omega
      refine absurd ⟨hlen, hsize.2, ?_⟩ hframe
      rcases Nat.lt_or_ge 9 pdu.length with hlong | hshort
      · exact .inl (hint hlong)
      · exact .inr (by omega)
  | true =>
    simp only [hint, Pdcp.secHeaderSize, Pdcp.macISize, if_true] at hok
    split at hok
    · cases hok
    · rename_i hsize
      rw [not_or] at hsize
      split at hok
      · cases hok
      · rename_i hmac
        rw [true_and, Bool.not_eq_false, Pdcp.macMatches_iff] at hmac
        refine ⟨by omega, hmac.symm, ?_⟩
        simpa using hok.symm

/-- `unprotect` keeps its promise exactly on the frames outside `UnauthenticatedFrame`. -/
theorem pdcp_unprotect_authenticates_iff (hmac : Hmac) (key : Key256) (pdu : Bytes) :
    (∀ sdu, Pdcp.unprotect hmac key pdu = some sdu → Authenticated hmac key pdu sdu) ↔
      ¬ UnauthenticatedFrame pdu := by
  constructor
  · intro hpromise hframe
    have hauth := hpromise _ (unprotect_unauthenticated hmac key hframe)
    -- the plaintext is four octets longer than what a MAC-I would cover
    have hlen := congrArg List.length hauth.plain
    have hlong := hauth.length_ge
    simp only [length_chacha20Xor, List.length_drop, List.length_take] at hlen
    omega
  · intro hframe sdu hok
    exact unprotect_authenticated hframe hok

/-- Nine octets with the encrypted flag and nothing else are accepted, as an empty SDU,
under every key and every digest. -/
theorem pdcp_unprotect_accepts_bare_header :
    ¬ ∃ (hmac : Hmac) (key : Key256), ∀ sdu,
      Pdcp.unprotect hmac key [0x01, 0, 0, 0, 0, 0, 0, 0, 0] = some sdu →
        Authenticated hmac key [0x01, 0, 0, 0, 0, 0, 0, 0, 0] sdu := by
  intro ⟨hmac, key, hpromise⟩
  have hframe : UnauthenticatedFrame [0x01, 0, 0, 0, 0, 0, 0, 0, 0] :=
    ⟨by decide, by decide, .inl (by decide)⟩
  have hauth := hpromise _ (unprotect_unauthenticated hmac key hframe)
  exact absurd hauth.length_ge (by decide)

end AetherStack.Guarantees
