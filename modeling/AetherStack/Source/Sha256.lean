import AetherStack.Lib.Sha2
import AetherStack.Source.Bytes

/-!
# The streaming SHA-256 of the stack

Source: stack/common/src/crypto.cpp:9-165. `buf` is the `buf_len` octets in use. The side
buffer of `finalise` has room for 72 octets; writing behind it is `none`, as is a padding loop
that does not end.
-/
namespace AetherStack.Source

structure Sha256Ctx where
  h : Lib.Sha2.Words
  totalBits : UInt64 := 0
  buf : Bytes := []
  deriving DecidableEq, Repr

namespace Sha256Ctx
open Lib.Sha2 (Words)

def K : List UInt32 :=
  [0x428a2f98, 0x71374491, 0xb5c0fbcf, 0xe9b5dba5, 0x3956c25b, 0x59f111f1, 0x923f82a4, 0xab1c5ed5, 0xd807aa98,
    0x12835b01, 0x243185be, 0x550c7dc3, 0x72be5d74, 0x80deb1fe, 0x9bdc06a7, 0xc19bf174, 0xe49b69c1, 0xefbe4786,
    0x0fc19dc6, 0x240ca1cc, 0x2de92c6f, 0x4a7484aa, 0x5cb0a9dc, 0x76f988da, 0x983e5152, 0xa831c66d, 0xb00327c8,
    0xbf597fc7, 0xc6e00bf3, 0xd5a79147, 0x06ca6351, 0x14292967, 0x27b70a85, 0x2e1b2138, 0x4d2c6dfc, 0x53380d13,
    0x650a7354, 0x766a0abb, 0x81c2c92e, 0x92722c85, 0xa2bfe8a1, 0xa81a664b, 0xc24b8b70, 0xc76c51a3, 0xd192e819,
    0xd6990624, 0xf40e3585, 0x106aa070, 0x19a4c116, 0x1e376c08, 0x2748774c, 0x34b0bcb5, 0x391c0cb3, 0x4ed8aa4a,
    0x5b9cca4f, 0x682e6ff3, 0x748f82ee, 0x78a5636f, 0x84c87814, 0x8cc70208, 0x90befffa, 0xa4506ceb, 0xbef9a3f7,
    0xc67178f2]

def init : Sha256Ctx where
  h := ⟨0x6a09e667, 0xbb67ae85, 0x3c6ef372, 0xa54ff53a, 0x510e527f, 0x9b05688c, 0x1f83d9ab, 0x5be0cd19⟩

def rotr (v c : UInt32) : UInt32 := (v >>> c) ||| (v <<< (32 - c))

def loadBe (p : Bytes) (off : Nat) : UInt32 :=
  ((p.getD off 0).toUInt32 <<< 24) ||| ((p.getD (off + 1) 0).toUInt32 <<< 16) |||
    ((p.getD (off + 2) 0).toUInt32 <<< 8) ||| (p.getD (off + 3) 0).toUInt32

def storeBe (v : UInt32) : Bytes := [(v >>> 24).toUInt8, (v >>> 16).toUInt8, (v >>> 8).toUInt8, v.toUInt8]

/-- One turn of the loop that fills `w[16]` to `w[63]`. -/
def extend (w : List UInt32) (i : Nat) : List UInt32 :=
  let s0 := rotr (w.getD (i - 15) 0) 7 ^^^ rotr (w.getD (i - 15) 0) 18 ^^^ (w.getD (i - 15) 0 >>> 3)
  let s1 := rotr (w.getD (i - 2) 0) 17 ^^^ rotr (w.getD (i - 2) 0) 19 ^^^ (w.getD (i - 2) 0 >>> 10)
  w ++ [w.getD (i - 16) 0 + s0 + w.getD (i - 7) 0 + s1]

def schedule (block : Bytes) : List UInt32 :=
  (List.range' 16 48).foldl extend ((List.range 16).map fun i => loadBe block (4 * i))

/-- One turn of the loop over the eight local variables. -/
def turn (w : List UInt32) (v : Words) (i : Nat) : Words :=
  let s1 := rotr v.e 6 ^^^ rotr v.e 11 ^^^ rotr v.e 25
  let ch := (v.e &&& v.f) ^^^ (~~~v.e &&& v.g)
  let t1 := v.h + s1 + ch + K.getD i 0 + w.getD i 0
  let s0 := rotr v.a 2 ^^^ rotr v.a 13 ^^^ rotr v.a 22
  let maj := (v.a &&& v.b) ^^^ (v.a &&& v.c) ^^^ (v.b &&& v.c)
  let t2 := s0 + maj
  ⟨t1 + t2, v.a, v.b, v.c, v.d + t1, v.e, v.f, v.g⟩

def compress (h : Words) (block : Bytes) : Words :=
  let v := (List.range 64).foldl (turn (schedule block)) h
  ⟨h.a + v.a, h.b + v.b, h.c + v.c, h.d + v.d, h.e + v.e, h.f + v.f, h.g + v.g, h.h + v.h⟩

/-- The `while` loop of `update`; every turn takes an octet. -/
def updateLoop : Nat → Sha256Ctx → Bytes → Sha256Ctx
  | 0, ctx, _ => ctx
  | turns + 1, ctx, data =>
    if data.length > 0 then
      let taken := min data.length (64 - ctx.buf.length)
      let buf := ctx.buf ++ data.take taken
      updateLoop turns
        (if buf.length = 64 then { ctx with h := compress ctx.h buf, buf := [] } else { ctx with buf := buf })
        (data.drop taken)
    else ctx

def update (ctx : Sha256Ctx) (data : Bytes) : Sha256Ctx :=
  updateLoop data.length { ctx with totalBits := ctx.totalBits + UInt64.ofNat data.length * 8 } data

def tailSize : Nat := 72

/-- `tail[t++] = b` -/
def pushTail (tail : Bytes) (b : UInt8) : Option Bytes := if tail.length < tailSize then some (tail ++ [b]) else none

/-- The loop that fills the tail with zeros. -/
def padLoop (bufLen : Nat) : Nat → Bytes → Option Bytes
  | 0, _ => none
  | turns + 1, tail =>
    if (bufLen + tail.length) % 64 ≠ 56 then (pushTail tail 0).bind (padLoop bufLen turns) else some tail

def tail (bufLen : Nat) (bits : UInt64) : Option Bytes := do
  let marked ← pushTail [] 0x80
  let filled ← padLoop bufLen tailSize marked
  (List.range 8).foldlM (fun tail i => pushTail tail (bits >>> (56 - 8 * UInt64.ofNat i)).toUInt8) filled

def finalise (ctx : Sha256Ctx) : Option Bytes :=
  (tail ctx.buf.length ctx.totalBits).map fun t => (ctx.update t).h.toList.flatMap storeBe

end Sha256Ctx

def sha256 (data : Bytes) : Option Bytes := (Sha256Ctx.init.update data).finalise

/-- `kblock`, filled with zeros before the key is copied in. -/
def hmacBlock (key : Bytes) : Option Bytes :=
  if key.length > 64 then (sha256 key).map fun k => k ++ List.replicate (64 - k.length) 0
  else some (key ++ List.replicate (64 - key.length) 0)

def hmacSha256 (key data : Bytes) : Option Bytes := do
  let kblock ← hmacBlock key
  let inner ← ((Sha256Ctx.init.update (kblock.map (· ^^^ 0x36))).update data).finalise
  ((Sha256Ctx.init.update (kblock.map (· ^^^ 0x5c))).update inner).finalise

namespace Sha256Ctx
open Lib
open Lib.Sha2 (Words)

/-! ## Compression -/

/-- The table is the fractions of the cube roots. -/
theorem K_eq : K = (List.range 64).map Sha2.k := by decide +kernel

/-- The start is the fractions of the square roots. -/
theorem init_eq : init.h = Sha2.initial := by decide +kernel

/-- Octets one above the other are added up. -/
theorem octet_or_shift (hi : Nat) (lo : UInt8) : (hi <<< 8) ||| lo.toNat = hi * 256 + lo.toNat := by
  rw [← Nat.shiftLeft_add_eq_or_of_lt lo.toNat_lt, Nat.shiftLeft_eq]

theorem loadBe_eq (block : Bytes) (t : Nat) : loadBe block (4 * t) = Sha2.word block t := by
  rw [loadBe, Sha2.word]
  generalize block.getD (4 * t) 0 = b0
  generalize block.getD (4 * t + 1) 0 = b1
  generalize block.getD (4 * t + 2) 0 = b2
  generalize block.getD (4 * t + 3) 0 = b3
  have h0 := b0.toNat_lt
  have h1 := b1.toNat_lt
  have h2 := b2.toNat_lt
  have h3 := b3.toNat_lt
  have hshift : ∀ (b : UInt8) (n : UInt32), n.toNat ≤ 24 → (b.toUInt32 <<< n).toNat = b.toNat <<< n.toNat := by
    intro b n hn
    have hpow : 2 ^ n.toNat ≤ 2 ^ 24 := Nat.pow_le_pow_right (by decide) hn
    rw [UInt32.toNat_shiftLeft, Nat.mod_eq_of_lt (show n.toNat < 32 by omega), UInt8.toNat_toUInt32, Nat.shiftLeft_eq]
    apply Nat.mod_eq_of_lt
    calc b.toNat * 2 ^ n.toNat ≤ b.toNat * 2 ^ 24 := Nat.mul_le_mul_left _ hpow
      _ < 2 ^ 32 := by have := b.toNat_lt; omega
  apply UInt32.toNat_inj.mp
  rw [UInt32.toNat_or, UInt32.toNat_or, UInt32.toNat_or, hshift b0 24 (by decide), hshift b1 16 (by decide),
    hshift b2 8 (by decide), UInt8.toNat_toUInt32, UInt32.toNat_ofNat']
  -- from the top: each octet goes below what is there already
  calc b0.toNat <<< 24 ||| b1.toNat <<< 16 ||| b2.toNat <<< 8 ||| b3.toNat
      = (((b0.toNat <<< 8) ||| b1.toNat) <<< 8 ||| b2.toNat) <<< 8 ||| b3.toNat := by
        simp only [Nat.shiftLeft_or_distrib, ← Nat.shiftLeft_add]
    _ = ((b0.toNat * 256 + b1.toNat) * 256 + b2.toNat) * 256 + b3.toNat := by
        rw [octet_or_shift, octet_or_shift, octet_or_shift]
    _ = (((b0.toNat * 256 + b1.toNat) * 256 + b2.toNat) * 256 + b3.toNat) % 2 ^ 32 :=
        (Nat.mod_eq_of_lt (by omega)).symm

theorem foldl_extend (block : Bytes) (n : Nat) :
    (List.range' 16 n).foldl extend ((List.range 16).map fun i => loadBe block (4 * i)) =
      (List.range (16 + n)).map (Sha2.schedule block) := by
  induction n with
  | zero =>
    apply List.map_congr_left
    intro t ht
    rw [loadBe_eq, Sha2.schedule, if_pos (List.mem_range.mp ht)]
  | succ n ih =>
    rw [List.range'_1_concat, List.foldl_append, ih, List.foldl_cons, List.foldl_nil, ← Nat.add_assoc, List.range_succ,
      List.map_append, extend]
    have hget : ∀ t < 16 + n, ((List.range (16 + n)).map (Sha2.schedule block)).getD t 0 = Sha2.schedule block t := by
      intro t ht
      rw [List.getD_eq_getElem?_getD, List.getElem?_map, List.getElem?_range ht]
      rfl
    rw [hget _ (by omega), hget _ (by omega), hget _ (by omega), hget _ (by omega), List.map_singleton]
    have hsum : ∀ w s0 w' s1 : UInt32, w + s0 + w' + s1 = s1 + w' + s0 + w := by
      intro w s0 w' s1
      ac_rfl
    conv_rhs => rw [Sha2.schedule, if_neg (by omega)]
    rw [hsum]
    rfl

/-- The extended words are those of the standard. -/
theorem schedule_eq (block : Bytes) {t : Nat} (ht : t < 64) : (schedule block).getD t 0 = Sha2.schedule block t := by
  rw [schedule, foldl_extend, List.getD_eq_getElem?_getD, List.getElem?_map, List.getElem?_range ht]
  rfl

/-- One turn of the loop is one round. -/
theorem turn_eq (block : Bytes) (v : Words) {t : Nat} (ht : t < 64) :
    turn (schedule block) v t = Sha2.round (Sha2.k t) (Sha2.schedule block t) v := by
  have hk : K.getD t 0 = Sha2.k t := by
    rw [K_eq, List.getD_eq_getElem?_getD, List.getElem?_map, List.getElem?_range ht]
    rfl
  rw [turn, schedule_eq block ht, hk]
  rfl

theorem foldl_turn (block : Bytes) (v : Words) {n : Nat} (hn : n ≤ 64) :
    (List.range n).foldl (turn (schedule block)) v = Sha2.rounds block v n := by
  induction n with
  | zero => rfl
  | succ n ih =>
    rw [List.range_succ, List.foldl_append, ih (by omega), List.foldl_cons, List.foldl_nil, turn_eq block _ (by omega),
      Sha2.rounds]

/-- One block is compressed as the standard says. -/
theorem compress_eq (h : Words) (block : Bytes) : compress h block = Sha2.compress h block := by
  rw [compress, Sha2.compress, foldl_turn block h (Nat.le_refl 64)]
  simp only [Words.add, UInt32.add_comm]

/-! ## Absorbing -/

/-- What waits and what comes are absorbed together. -/
theorem updateLoop_absorbs (turns : Nat) (ctx : Sha256Ctx) (data : Bytes) (hturns : data.length ≤ turns)
    (hbuf : ctx.buf.length < 64) :
    ((updateLoop turns ctx data).h, (updateLoop turns ctx data).buf) =
      Absorb.absorb 64 Sha2.compress ctx.h (ctx.buf ++ data) := by
  induction turns generalizing ctx data with
  | zero =>
    obtain rfl : data = [] := List.length_eq_zero_iff.mp (Nat.le_zero.mp hturns)
    rw [List.append_nil, Absorb.absorb_short hbuf]
    rfl
  | succ turns ih =>
    rw [updateLoop]
    by_cases hpos : data.length > 0
    · rw [if_pos hpos]
      dsimp only
      generalize htaken : min data.length (64 - ctx.buf.length) = taken
      have hlen : (ctx.buf ++ data.take taken).length = ctx.buf.length + taken := by
        rw [List.length_append, List.length_take]
        omega
      have hrest : (data.drop taken).length ≤ turns := by
        rw [List.length_drop]
        omega
      have hsplit : ctx.buf ++ data = (ctx.buf ++ data.take taken) ++ data.drop taken := by
        rw [List.append_assoc, List.take_append_drop]
      rw [hsplit, Absorb.absorb_append (by decide)]
      by_cases hfull : (ctx.buf ++ data.take taken).length = 64
      · have hempty : ([] : Bytes).length < 64 := by decide
        rw [if_pos hfull, ih { ctx with h := _, buf := [] } _ hrest hempty, Absorb.absorb_block (by decide) hfull, compress_eq]
      · have hshort : (ctx.buf ++ data.take taken).length < 64 := by omega
        rw [if_neg hfull, ih _ _ hrest hshort, Absorb.absorb_short hshort]
    · obtain rfl : data = [] := List.length_eq_zero_iff.mp (by omega)
      rw [if_neg hpos, List.append_nil, Absorb.absorb_short hbuf]

theorem updateLoop_totalBits (turns : Nat) (ctx : Sha256Ctx) (data : Bytes) :
    (updateLoop turns ctx data).totalBits = ctx.totalBits := by
  induction turns generalizing ctx data with
  | zero => rfl
  | succ turns ih =>
    rw [updateLoop]
    split
    · rw [ih]
      split <;> rfl
    · rfl

/-- An update absorbs buffer and data in blocks of 64 octets. -/
theorem update_absorbs (ctx : Sha256Ctx) (data : Bytes) (hbuf : ctx.buf.length < 64) :
    ((ctx.update data).h, (ctx.update data).buf) = Absorb.absorb 64 Sha2.compress ctx.h (ctx.buf ++ data) :=
  updateLoop_absorbs data.length _ data (Nat.le_refl _) hbuf

/-- The context is behind the message `m`. -/
structure Behind (ctx : Sha256Ctx) (m : Bytes) : Prop where
  absorbed : (ctx.h, ctx.buf) = Absorb.absorb 64 Sha2.compress Sha2.initial m
  counted : ctx.totalBits = UInt64.ofNat (8 * m.length)

theorem Behind.buf_lt {ctx : Sha256Ctx} {m : Bytes} (h : Behind ctx m) : ctx.buf.length < 64 := by
  have hbuf : ctx.buf = _ := congrArg Prod.snd h.absorbed
  rw [hbuf, Absorb.length_absorb]
  exact Nat.mod_lt _ (by decide)

theorem Behind.length_buf {ctx : Sha256Ctx} {m : Bytes} (h : Behind ctx m) : ctx.buf.length = m.length % 64 := by
  have hbuf : ctx.buf = _ := congrArg Prod.snd h.absorbed
  rw [hbuf, Absorb.length_absorb]

theorem behind_init : Behind init [] := by
  refine ⟨?_, rfl⟩
  rw [Absorb.absorb_short (by decide), ← init_eq]
  rfl

/-- An update takes in the data, however it is cut. -/
theorem Behind.update {ctx : Sha256Ctx} {m : Bytes} (h : Behind ctx m) (data : Bytes) :
    Behind (ctx.update data) (m ++ data) := by
  refine ⟨?_, ?_⟩
  · have habsorbed := h.absorbed
    rw [update_absorbs ctx data h.buf_lt, Absorb.absorb_append (by decide) Sha2.initial m, ← habsorbed]
  · rw [Sha256Ctx.update, updateLoop_totalBits]
    dsimp only
    rw [h.counted, List.length_append, Nat.mul_add, UInt64.ofNat_add, UInt64.ofNat_mul 8 data.length, UInt64.mul_comm]
    rfl

/-- Any number of calls, in any split. -/
theorem behind_foldl (chunks : List Bytes) : Behind (chunks.foldl Sha256Ctx.update init) chunks.flatten := by
  induction chunks using List.reverseRecOn with
  | nil => exact behind_init
  | append_singleton chunks data ih =>
    rw [List.foldl_append, List.flatten_append, List.flatten_singleton]
    exact ih.update data

end Sha256Ctx

end AetherStack.Source
