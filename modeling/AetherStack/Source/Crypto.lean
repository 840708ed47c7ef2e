import AetherStack.Lib.Keystream
import AetherStack.Source.Bytes

/-!
# ChaCha20 as the user plane uses it

Source: stack/common/src/crypto.cpp:98-221. The block function and the XOR loop are
embedded as written, and the loop is the general one of key streams at ChaCha20's blocks.
HMAC-SHA256 has a module of its own: everything above it takes the keyed digest as a
parameter of type `Hmac`, whose result has 32 octets by its type.
-/
namespace AetherStack.Source

abbrev Key256 := Vector UInt8 32
abbrev Nonce96 := Vector UInt8 12
abbrev Digest := Vector UInt8 32
abbrev Hmac := Key256 → Bytes → Digest

def rotl32 (x n : UInt32) : UInt32 := (x <<< n) ||| (x >>> (32 - n))

/-- `quarter_round` on four of the sixteen words. -/
def quarterRound (x : Vector UInt32 16) (a b c d : Fin 16) : Vector UInt32 16 :=
  let x := x.set a (x[a] + x[b])
  let x := x.set d (rotl32 (x[d] ^^^ x[a]) 16)
  let x := x.set c (x[c] + x[d])
  let x := x.set b (rotl32 (x[b] ^^^ x[c]) 12)
  let x := x.set a (x[a] + x[b])
  let x := x.set d (rotl32 (x[d] ^^^ x[a]) 8)
  let x := x.set c (x[c] + x[d])
  x.set b (rotl32 (x[b] ^^^ x[c]) 7)

def doubleRound (x : Vector UInt32 16) : Vector UInt32 16 :=
  let x := quarterRound x 0 4 8 12
  let x := quarterRound x 1 5 9 13
  let x := quarterRound x 2 6 10 14
  let x := quarterRound x 3 7 11 15
  let x := quarterRound x 0 5 10 15
  let x := quarterRound x 1 6 11 12
  let x := quarterRound x 2 7 8 13
  quarterRound x 3 4 9 14

def loadLe32 (p : Bytes) (off : Nat) : UInt32 :=
  (p.getD off 0).toUInt32 ||| ((p.getD (off + 1) 0).toUInt32 <<< 8) |||
    ((p.getD (off + 2) 0).toUInt32 <<< 16) ||| ((p.getD (off + 3) 0).toUInt32 <<< 24)

/-- "expand 32-byte k", the key, the block counter and the nonce. -/
def chacha20State (key : Key256) (nonce : Nonce96) (counter : UInt32) : Vector UInt32 16 :=
  Vector.ofFn fun i : Fin 16 =>
    if i = 0 then 0x61707865 else if i = 1 then 0x3320646e
    else if i = 2 then 0x79622d32 else if i = 3 then 0x6b206574
    else if i.val < 12 then loadLe32 key.toList (4 * (i.val - 4))
    else if i = 12 then counter
    else loadLe32 nonce.toList (4 * (i.val - 13))

def chacha20Block (key : Key256) (nonce : Nonce96) (counter : UInt32) : Vector UInt8 64 :=
  let st := chacha20State key nonce counter
  let x := (List.range 10).foldl (fun x _ => doubleRound x) st
  Vector.ofFn fun i : Fin 64 =>
    let word : Fin 16 := ⟨i.val / 4, by omega⟩
    ((x[word] + st[word]) >>> (8 * UInt32.ofNat (i.val % 4))).toUInt8

/-- The `while` loop of `chacha20_xor`: 64 octets a turn, the counter wrapping. -/
def chacha20XorLoop (key : Key256) (nonce : Nonce96) : Nat → UInt32 → Bytes → Bytes
  | 0, _, _ => []
  | fuel + 1, ctr, data =>
    if data = [] then []
    else
      List.zipWith (· ^^^ ·) (data.take 64) (chacha20Block key nonce ctr).toList ++
        chacha20XorLoop key nonce fuel (ctr + 1) (data.drop 64)

/-- Every turn consumes an octet, so the length bounds the number of turns. -/
def chacha20Xor (key : Key256) (nonce : Nonce96) (counter : UInt32) (data : Bytes) : Bytes :=
  chacha20XorLoop key nonce data.length counter data

/-- The cipher is the keystream's mix over blocks of ChaCha20. -/
theorem chacha20XorLoop_eq (key : Key256) (nonce : Nonce96) (fuel : Nat) (ctr : UInt32) (data : Bytes) :
    chacha20XorLoop key nonce fuel ctr data =
      Lib.Keystream.mix (· ^^^ ·) (chacha20Block key nonce) (· + 1) fuel ctr data := by
  induction fuel generalizing ctr data with
  | zero => rfl
  | succ fuel ih =>
    rw [chacha20XorLoop, Lib.Keystream.mix, ih]

theorem uint8_xor_cancel (x k : UInt8) : x ^^^ k ^^^ k = x := by
  rw [UInt8.xor_assoc, UInt8.xor_self, UInt8.xor_zero]

theorem zipWith_xor_cancel (data ks : Bytes) (h : data.length ≤ ks.length) :
    List.zipWith (· ^^^ ·) (List.zipWith (· ^^^ ·) data ks) ks = data := by
  induction data generalizing ks with
  | nil => simp
  | cons b data ih =>
    cases ks with
    | nil => simp at h
    | cons k ks => simp only [List.zipWith_cons_cons, uint8_xor_cancel, ih ks (by simpa using h)]

/-- A stream cipher keeps the length. -/
@[simp] theorem length_chacha20Xor (key : Key256) (nonce : Nonce96) (counter : UInt32)
    (data : Bytes) : (chacha20Xor key nonce counter data).length = data.length := by
  rw [chacha20Xor, chacha20XorLoop_eq]
  exact Lib.Keystream.length_mix (by decide) (Nat.le_refl _) counter

/-- Decryption is the same XOR. -/
theorem chacha20Xor_cancel (key : Key256) (nonce : Nonce96) (counter : UInt32) (data : Bytes) :
    chacha20Xor key nonce counter (chacha20Xor key nonce counter data) = data := by
  rw [chacha20Xor, length_chacha20Xor, chacha20Xor, chacha20XorLoop_eq, chacha20XorLoop_eq]
  exact Lib.Keystream.mix_mix (by decide) uint8_xor_cancel (Nat.le_refl _) counter

end AetherStack.Source
