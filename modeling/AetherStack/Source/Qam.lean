import AetherStack.Source.HarqCodec

/-!
# The constellation: levels and their bits

Source: stack/phy/src/qam.cpp:37-95. A dimension of a symbol is one of `1 << m` levels, the odd
integers around zero, in units of the norm; the norm (lines 29-33) is the only floating-point
factor, and it is left out on both sides. `uint32_t` values are naturals: a width for which `1 <<
m` is an `int` wraps nothing.
-/
namespace AetherStack.Source.Qam
open Fec

def grayEncode (v : Nat) : Nat := v ^^^ (v >>> 1)

/-- `while (g >>= 1) v ^= g`. -/
def grayDecodeLoop : Nat → Nat → Nat → Nat
  | 0, _, v => v
  | fuel + 1, g, v => if g >>> 1 = 0 then v else grayDecodeLoop fuel (g >>> 1) (v ^^^ (g >>> 1))

def grayDecode (g : Nat) : Nat := grayDecodeLoop g g g

/-- A symbol in units of the norm. -/
structure Symbol where
  i : Int
  q : Int
  deriving DecidableEq, Repr

/-- `2 * index - (l - 1)`. -/
def pamLevel (m index : Nat) : Int := 2 * (index : Int) - (2 ^ m - 1)

/-- `slice` behind the rounding: the nearest odd integer in range, and its index. -/
def slice (m : Nat) (lvl : Int) : Nat :=
  let l : Int := 2 ^ m
  let lvl := max (-(l - 1)) (min (l - 1) lvl)
  let lvl := if lvl % 2 = 0 then lvl + (if lvl < 0 then 1 else -1) else lvl
  ((lvl + (l - 1)) / 2).toNat

/-- The first bit is the highest. -/
def wordValue (bits : Bytes) : Nat := bits.foldl (fun v b => (v <<< 1) ||| (b &&& 1).toNat) 0

def wordBits (m v : Nat) : Bytes := (List.range m).reverse.map fun b => UInt8.ofNat ((v >>> b) &&& 1)

def modulateSymbol (m : Nat) (bits : Bytes) : Symbol where
  i := pamLevel m (grayEncode (wordValue (bits.take m)))
  q := pamLevel m (grayEncode (wordValue ((bits.drop m).take m)))

def demodulateSymbol (m : Nat) (s : Symbol) : Bytes :=
  wordBits m (grayDecode (slice m s.i)) ++ wordBits m (grayDecode (slice m s.q))

def qamModulate (bits : Bytes) (bps : Nat) : List Symbol :=
  if bps = 0 ∨ bps % 2 ≠ 0 ∨ bits.length % bps ≠ 0 then []
  else (List.range (bits.length / bps)).map fun k => modulateSymbol (bps / 2) (bits.drop (k * bps))

def qamDemodulate (symbols : List Symbol) (bps : Nat) : Bytes :=
  if bps = 0 ∨ bps % 2 ≠ 0 then [] else symbols.flatMap (demodulateSymbol (bps / 2))

/-! ## The Gray code -/

/-- The decoding loop only adds to what it starts with. -/
theorem grayDecodeLoop_xor (fuel g v w : Nat) :
    grayDecodeLoop fuel g (v ^^^ w) = v ^^^ grayDecodeLoop fuel g w := by
  induction fuel generalizing g w with
  | zero => rfl
  | succ fuel ih =>
    rw [grayDecodeLoop, grayDecodeLoop]
    split
    · rfl
    · rw [Nat.xor_assoc, ih]

/-- Every turn halves `g`, so any fuel above its value is enough. -/
theorem grayDecodeLoop_fuel {fuel g : Nat} (h : g ≤ fuel) (v : Nat) :
    grayDecodeLoop fuel g v = grayDecodeLoop g g v := by
  induction g using Nat.strong_induction_on generalizing fuel v with
  | _ g ih =>
    cases g with
    | zero =>
      cases fuel with
      | zero => rfl
      | succ fuel => rfl
    | succ g =>
      obtain ⟨fuel, rfl⟩ : ∃ f, fuel = f + 1 := ⟨fuel - 1, by omega⟩
      have hhalf : (g + 1) >>> 1 ≤ g := by
        rw [Nat.shiftRight_one]
        omega
      rw [grayDecodeLoop, grayDecodeLoop, ih _ (by omega) (by omega), ih _ (by omega) hhalf]

/-- The inverse code sums the shifts of its argument. -/
theorem grayDecode_eq (g : Nat) : grayDecode g = g ^^^ grayDecode (g >>> 1) := by
  cases g with
  | zero => rfl
  | succ g =>
    have hhalf : (g + 1) >>> 1 ≤ g := by
      rw [Nat.shiftRight_one]
      omega
    rw [grayDecode, grayDecodeLoop]
    split
    · rename_i hzero
      rw [hzero]
      exact (Nat.xor_zero _).symm
    · rw [grayDecodeLoop_xor, grayDecodeLoop_fuel hhalf, grayDecode]

theorem grayDecode_grayEncode (v : Nat) : grayDecode (grayEncode v) = v := by
  induction v using Nat.strong_induction_on with
  | _ v ih =>
    cases v with
    | zero => rfl
    | succ v =>
      have hshift : grayEncode (v + 1) >>> 1 = grayEncode ((v + 1) >>> 1) := by
        rw [grayEncode, Nat.shiftRight_xor_distrib, grayEncode]
      rw [grayDecode_eq, hshift, ih _ (by rw [Nat.shiftRight_one]; omega), grayEncode, Nat.xor_assoc,
        Nat.xor_self, Nat.xor_zero]

/-- Without its last bit, a decoded number is the decoded number without its last bit. -/
theorem grayDecode_shiftRight (g : Nat) : grayDecode g >>> 1 = grayDecode (g >>> 1) := by
  induction g using Nat.strong_induction_on with
  | _ g ih =>
    cases g with
    | zero => rfl
    | succ g =>
      have hhalf : (g + 1) >>> 1 < g + 1 := by
        rw [Nat.shiftRight_one]
        omega
      rw [grayDecode_eq, Nat.shiftRight_xor_distrib, ih _ hhalf, ← grayDecode_eq]

theorem grayEncode_lt {m v : Nat} (h : v < 2 ^ m) : grayEncode v < 2 ^ m :=
  Nat.xor_lt_two_pow h (lt_of_le_of_lt (Nat.shiftRight_le v 1) h)

/-! ## Words -/

theorem wordValue_append_singleton (bits : Bytes) (b : UInt8) :
    wordValue (bits ++ [b]) = (wordValue bits <<< 1) ||| (b &&& 1).toNat := by
  rw [wordValue, List.foldl_append]
  rfl

theorem wordBits_succ (m v : Nat) :
    wordBits (m + 1) v = wordBits m (v >>> 1) ++ [UInt8.ofNat (v &&& 1)] := by
  rw [wordBits, List.range_succ_eq_map, List.reverse_cons, List.map_append, ← List.map_reverse,
    List.map_map, wordBits]
  congr 1
  refine List.map_congr_left fun b _ => ?_
  rw [Function.comp_apply, Nat.succ_eq_add_one, Nat.add_comm b 1, Nat.shiftRight_add]

@[simp] theorem length_wordBits (m v : Nat) : (wordBits m v).length = m := by
  simp [wordBits]

/-- A bit joins and leaves a word at its low end. -/
theorem join_bit (v : Nat) {b : UInt8} (h : b = 0 ∨ b = 1) :
    ((v <<< 1) ||| (b &&& 1).toNat) >>> 1 = v ∧
      UInt8.ofNat (((v <<< 1) ||| (b &&& 1).toNat) &&& 1) = b ∧
      (v <<< 1) ||| (b &&& 1).toNat = 2 * v + b.toNat := by
  have hshift : v <<< 1 = 2 ^ 1 * v := by
    rw [Nat.shiftLeft_eq, Nat.mul_comm]
  have hbit : (b &&& 1).toNat = b.toNat ∧ b.toNat < 2 ^ 1 := by
    rcases h with rfl | rfl <;> decide
  have hjoin : (v <<< 1) ||| (b &&& 1).toNat = 2 * v + b.toNat := by
    rw [hshift, hbit.1, ← Nat.two_pow_add_eq_or_of_lt hbit.2]
  rw [hjoin, Nat.shiftRight_one, Nat.and_one_is_mod]
  refine ⟨by omega, ?_, rfl⟩
  have hmod : (2 * v + b.toNat) % 2 = b.toNat := by omega
  rw [hmod, UInt8.ofNat_toNat]

/-- Bits come back from the word they were packed into. -/
theorem wordBits_wordValue {bits : Bytes} (h : BitList bits) :
    wordBits bits.length (wordValue bits) = bits := by
  induction bits using List.reverseRecOn with
  | nil => rfl
  | append_singleton bits b ih =>
    have hb : b = 0 ∨ b = 1 := h b (by simp)
    obtain ⟨hrest, hlast, -⟩ := join_bit (wordValue bits) hb
    rw [List.length_append, List.length_singleton, wordBits_succ, wordValue_append_singleton, hrest,
      hlast, ih fun x hx => h x (by simp [hx])]

theorem wordValue_lt {bits : Bytes} (h : BitList bits) : wordValue bits < 2 ^ bits.length := by
  induction bits using List.reverseRecOn with
  | nil => decide
  | append_singleton bits b ih =>
    have hb : b = 0 ∨ b = 1 := h b (by simp)
    obtain ⟨-, -, hjoin⟩ := join_bit (wordValue bits) hb
    have hlt := ih fun x hx => h x (by simp [hx])
    have hle : b.toNat ≤ 1 := by rcases hb with rfl | rfl <;> decide
    rw [wordValue_append_singleton, hjoin, List.length_append, List.length_singleton, pow_succ]
    omega

/-! ## Levels -/

/-- Every level is sliced to its own index. -/
theorem slice_pamLevel {m index : Nat} (h : index < 2 ^ m) : slice m (pamLevel m index) = index := by
  have hlt : (index : Int) < 2 ^ m := by exact_mod_cast h
  have hpow : (2 : Int) ^ m = 1 ∨ ∃ half : Int, (2 : Int) ^ m = 2 * half := by
    cases m with
    | zero => exact .inl rfl
    | succ m => exact .inr ⟨2 ^ m, by rw [pow_succ, Int.mul_comm]⟩
  unfold slice pamLevel
  dsimp only
  generalize (2 : Int) ^ m = l at hlt hpow
  have hin : max (-(l - 1)) (min (l - 1) (2 * (index : Int) - (l - 1))) = 2 * index - (l - 1) := by
    omega
  rw [hin]
  rcases hpow with rfl | ⟨half, rfl⟩
  · omega
  · rw [if_neg (by omega)]
    omega

@[simp] theorem length_demodulateSymbol (m : Nat) (s : Symbol) :
    (demodulateSymbol m s).length = 2 * m := by
  simp [demodulateSymbol]
  omega

end AetherStack.Source.Qam
