import AetherStack.Lib.Absorb

/-!
# SHA-256 and HMAC by their standards

FIPS 180-4 on messages of whole octets, and RFC 2104 over any hash function. The constants
are computed from what the standard says they are, the first 32 bits of the fractional parts
of roots of primes.
-/
namespace AetherStack.Lib.Sha2

/-! ### Constants -/

/-- The integer part of a root, a bit at a time from the top. -/
def rootBits (e n : ℕ) : ℕ → ℕ → ℕ
  | 0, r => r
  | k + 1, r => rootBits e n k (if (r + 2 ^ k) ^ e ≤ n then r + 2 ^ k else r)

/-- Bisection finds the integer root. -/
theorem rootBits_spec {e n k r : ℕ} (hlow : r ^ e ≤ n) (hhigh : n < (r + 2 ^ k) ^ e) :
    rootBits e n k r ^ e ≤ n ∧ n < (rootBits e n k r + 1) ^ e := by
  induction k generalizing r with
  | zero => exact ⟨hlow, hhigh⟩
  | succ k ih =>
    rw [rootBits]
    split
    · rename_i hbit
      refine ih hbit ?_
      rwa [Nat.add_assoc, ← Nat.two_mul, ← Nat.pow_succ']
    · rename_i hbit
      exact ih hlow (Nat.not_le.mp hbit)

/-- The first 32 bits of the fractional part of root `e` of `p`. -/
def rootFraction (e p : ℕ) : UInt32 := UInt32.ofNat (rootBits e (p * 2 ^ (32 * e)) 35 0)

/-- The constant is made of the fraction bits of the root. -/
theorem rootFraction_spec {e p : ℕ} (he : e ≠ 0) (hp : p < 8 ^ e) :
    ∃ r, r ^ e ≤ p * 2 ^ (32 * e) ∧ p * 2 ^ (32 * e) < (r + 1) ^ e ∧ rootFraction e p = UInt32.ofNat r := by
  have hroot := rootBits_spec (e := e) (n := p * 2 ^ (32 * e)) (k := 35) (r := 0) (by rw [zero_pow he]; omega) (by
    calc p * 2 ^ (32 * e) < 8 ^ e * 2 ^ (32 * e) := Nat.mul_lt_mul_of_pos_right hp (by positivity)
      _ = (0 + 2 ^ 35) ^ e := by
        rw [Nat.zero_add, Nat.pow_mul, ← Nat.mul_pow]
        rfl)
  exact ⟨_, hroot.1, hroot.2, rfl⟩

/-- The first 64 primes. -/
def primes : List ℕ :=
  [2, 3, 5, 7, 11, 13, 17, 19, 23, 29, 31, 37, 41, 43, 47, 53, 59, 61, 67, 71, 73, 79, 83, 89, 97, 101, 103, 107, 109,
    113, 127, 131, 137, 139, 149, 151, 157, 163, 167, 173, 179, 181, 191, 193, 197, 199, 211, 223, 227, 229, 233, 239,
    241, 251, 257, 263, 269, 271, 277, 281, 283, 293, 307, 311]

/-- Round constant `t`, from the cube root of a prime. -/
def k (t : ℕ) : UInt32 := rootFraction 3 (primes.getD t 0)

/-! ### Functions on words -/

def rotr (x n : UInt32) : UInt32 := (x >>> n) ||| (x <<< (32 - n))

def ch (x y z : UInt32) : UInt32 := (x &&& y) ^^^ (~~~x &&& z)

def maj (x y z : UInt32) : UInt32 := (x &&& y) ^^^ (x &&& z) ^^^ (y &&& z)

def bigSigma0 (x : UInt32) : UInt32 := rotr x 2 ^^^ rotr x 13 ^^^ rotr x 22

def bigSigma1 (x : UInt32) : UInt32 := rotr x 6 ^^^ rotr x 11 ^^^ rotr x 25

def sigma0 (x : UInt32) : UInt32 := rotr x 7 ^^^ rotr x 18 ^^^ (x >>> 3)

def sigma1 (x : UInt32) : UInt32 := rotr x 17 ^^^ rotr x 19 ^^^ (x >>> 10)

/-! ### Compression -/

/-- Eight words: a hash value, and the working variables. -/
structure Words where
  a : UInt32
  b : UInt32
  c : UInt32
  d : UInt32
  e : UInt32
  f : UInt32
  g : UInt32
  h : UInt32
  deriving DecidableEq, Repr

namespace Words

def add (v w : Words) : Words :=
  ⟨v.a + w.a, v.b + w.b, v.c + w.c, v.d + w.d, v.e + w.e, v.f + w.f, v.g + w.g, v.h + w.h⟩

def toList (v : Words) : List UInt32 := [v.a, v.b, v.c, v.d, v.e, v.f, v.g, v.h]

end Words

/-- The initial hash value, from the square roots of the first eight primes. -/
def initial : Words where
  a := rootFraction 2 2
  b := rootFraction 2 3
  c := rootFraction 2 5
  d := rootFraction 2 7
  e := rootFraction 2 11
  f := rootFraction 2 13
  g := rootFraction 2 17
  h := rootFraction 2 19

/-- Word `t` of a block, the first octet on top. -/
def word (block : List UInt8) (t : ℕ) : UInt32 :=
  UInt32.ofNat ((((block.getD (4 * t) 0).toNat * 256 + (block.getD (4 * t + 1) 0).toNat) * 256 +
    (block.getD (4 * t + 2) 0).toNat) * 256 + (block.getD (4 * t + 3) 0).toNat)

def schedule (block : List UInt8) (t : ℕ) : UInt32 :=
  if t < 16 then word block t
  else sigma1 (schedule block (t - 2)) + schedule block (t - 7) + sigma0 (schedule block (t - 15)) +
    schedule block (t - 16)
termination_by t

def round (k w : UInt32) (v : Words) : Words :=
  let t1 := v.h + bigSigma1 v.e + ch v.e v.f v.g + k + w
  let t2 := bigSigma0 v.a + maj v.a v.b v.c
  ⟨t1 + t2, v.a, v.b, v.c, v.d + t1, v.e, v.f, v.g⟩

def rounds (block : List UInt8) (v : Words) : ℕ → Words
  | 0 => v
  | t + 1 => round (k t) (schedule block t) (rounds block v t)

def compress (v : Words) (block : List UInt8) : Words := (rounds block v 64).add v

/-! ### Padding and digest -/

/-- The octets of a number, the first on top. -/
def bigEndian (count x : ℕ) : List UInt8 := (List.range count).map fun i => UInt8.ofNat (x / 256 ^ (count - 1 - i))

@[simp] theorem length_bigEndian (count x : ℕ) : (bigEndian count x).length = count := by
  rw [bigEndian, List.length_map, List.length_range]

/-- How many zeros follow the marker. -/
def zeros (len : ℕ) : ℕ := (119 - len % 64) % 64

/-- As few as leave room for the length in the last block. -/
theorem zeros_least (len : ℕ) : (len + 1 + zeros len) % 64 = 56 ∧ ∀ n < zeros len, (len + 1 + n) % 64 ≠ 56 := by
  rw [zeros]
  exact ⟨by omega, fun n hn => by omega⟩

/-- The marker, the zeros and the length in bits. -/
def padding (len : ℕ) : List UInt8 := 0x80 :: (List.replicate (zeros len) 0 ++ bigEndian 8 (8 * len))

theorem length_padding (len : ℕ) : (padding len).length = 9 + zeros len := by
  rw [padding, List.length_cons, List.length_append, List.length_replicate, length_bigEndian]
  omega

def digest (v : Words) : List UInt8 := v.toList.flatMap fun x => bigEndian 4 x.toNat

/-- SHA-256: the compression function folded over the padded message. -/
def hash (m : List UInt8) : List UInt8 :=
  let padded := m ++ padding m.length
  digest (Absorb.blocks 64 compress (padded.length / 64) initial padded)

/-! ### RFC 2104 -/

section
variable (hash : List UInt8 → List UInt8) (blockSize : ℕ)

/-- A key longer than a block is hashed; the key is filled up with zeros. -/
def hmacKey (key : List UInt8) : List UInt8 :=
  let key := if blockSize < key.length then hash key else key
  key ++ List.replicate (blockSize - key.length) 0

def hmac (key text : List UInt8) : List UInt8 :=
  let key := hmacKey hash blockSize key
  hash (key.map (· ^^^ 0x5c) ++ hash (key.map (· ^^^ 0x36) ++ text))

end

end AetherStack.Lib.Sha2
