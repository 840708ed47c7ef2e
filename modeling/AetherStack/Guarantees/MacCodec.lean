import AetherStack.Source.MacPdu

/-!
# The MAC PDU codec

`parse_pdu` gives back what `build_pdu` was given, and nothing for what is cut off or padded.
On any other input it takes SDUs one behind the other, each behind a sub-header of two or three
octets.
-/
namespace AetherStack.Guarantees
open Source Mac

/-- Where an SDU lies in the PDU. -/
structure SduSlice where
  lcid : UInt8
  offset : Nat
  length : Nat
  deriving DecidableEq, Repr

namespace SduSlice

def sdu (pdu : Bytes) (s : SduSlice) : UInt8 × Bytes := (s.lcid, (pdu.drop s.offset).take s.length)

/-- The first one begins behind a sub-header at `pos`, the next one behind a sub-header at its end. -/
def Consecutive (size : Nat) : Nat → List SduSlice → Prop
  | _, [] => True
  | pos, s :: slices => (s.offset = pos + 2 ∨ s.offset = pos + 3) ∧ s.offset + s.length ≤ size ∧
      Consecutive size (s.offset + s.length) slices

end SduSlice

/-- The turns of the loop from `pos` on, to its end. -/
inductive ParseRun (pdu : Bytes) : Nat → List SduSlice → Prop
  | stop (pos : Nat) (none : parseHeader (pdu.drop pos) = none) : ParseRun pdu pos []
  | cut (pos : Nat) (lcid : UInt8) (len : Nat) (rest : Bytes)
      (header : parseHeader (pdu.drop pos) = some (lcid, len, rest)) (short : rest.length < len) :
      ParseRun pdu pos []
  | turn (pos : Nat) (lcid : UInt8) (len : Nat) (rest : Bytes) (slices : List SduSlice)
      (header : parseHeader (pdu.drop pos) = some (lcid, len, rest)) (fits : len ≤ rest.length)
      (next : ParseRun pdu (pdu.length - rest.length + len) slices) :
      ParseRun pdu pos (⟨lcid, pdu.length - rest.length, len⟩ :: slices)

namespace MacCodec

/-! ### Sub-headers -/

theorem parseHeader_cons (header l : UInt8) (rest : Bytes) : parseHeader (header :: l :: rest) =
    if header &&& 0x3F = lcidPadding then none
    else if header &&& 0x40 ≠ 0 then
      match rest with
      | l' :: rest => some (header &&& 0x3F, l.toNat * 256 + l'.toNat, rest)
      | [] => none
    else some (header &&& 0x3F, l.toNat, rest) := by
  cases rest <;> rfl

/-- A header takes two octets, or three. -/
theorem parseHeader_rest {pdu rest : Bytes} {lcid : UInt8} {len : Nat}
    (h : parseHeader pdu = some (lcid, len, rest)) :
    (rest = pdu.drop 2 ∧ 2 ≤ pdu.length) ∨ (rest = pdu.drop 3 ∧ 3 ≤ pdu.length) := by
  unfold parseHeader at h
  split at h
  · split at h
    · cases h
    · split at h
      · split at h
        · simp only [Option.some.injEq, Prod.mk.injEq] at h
          obtain ⟨-, -, rfl⟩ := h
          exact .inr ⟨rfl, by simp⟩
        · cases h
      · simp only [Option.some.injEq, Prod.mk.injEq] at h
        obtain ⟨-, -, rfl⟩ := h
        exact .inl ⟨rfl, by simp⟩
  · cases h

theorem parseHeader_length {pdu rest : Bytes} {lcid : UInt8} {len : Nat}
    (h : parseHeader pdu = some (lcid, len, rest)) : rest.length + 2 ≤ pdu.length := by
  rcases parseHeader_rest h with ⟨rfl, hlen⟩ | ⟨rfl, hlen⟩ <;> rw [List.length_drop] <;> omega

/-- The two flag bits and the LCID do not overlap. -/
theorem header_octet {lcid : UInt8} (hlcid : lcid < 63) :
    (lcid &&& 0x3F) &&& 0x3F = lcid ∧ (lcid &&& 0x3F) &&& 0x40 = 0 ∧
      (0x40 ||| (lcid &&& 0x3F)) &&& 0x3F = lcid ∧ (0x40 ||| (lcid &&& 0x3F)) &&& 0x40 ≠ 0 ∧
      lcid ≠ lcidPadding := by
  have htable : ∀ i : Fin 63, let l := UInt8.ofNat i.val
      (l &&& 0x3F) &&& 0x3F = l ∧ (l &&& 0x3F) &&& 0x40 = 0 ∧ (0x40 ||| (l &&& 0x3F)) &&& 0x3F = l ∧
        (0x40 ||| (l &&& 0x3F)) &&& 0x40 ≠ 0 ∧ l ≠ lcidPadding := by
    decide
  have h := htable ⟨lcid.toNat, hlcid⟩
  simpa only [UInt8.ofNat_toNat] using h

/-- The two forms of a sub-header. -/
theorem buildSdu_eq (lcid : UInt8) {sdu : Bytes} (hsdu : sdu.length ≤ 65535) : buildSdu lcid sdu =
    if sdu.length ≤ 255 then (lcid &&& 0x3F) :: UInt8.ofNat sdu.length :: sdu
    else (0x40 ||| (lcid &&& 0x3F)) :: UInt8.ofNat (sdu.length / 256) :: UInt8.ofNat (sdu.length % 256) :: sdu := by
  have hlen : sdu.length % 2 ^ 16 = sdu.length := Nat.mod_eq_of_lt (by omega)
  unfold buildSdu
  rw [hlen]
  dsimp only
  split <;> rfl

theorem parseHeader_short {lcid : UInt8} (hlcid : lcid < 63) {len : Nat} (hlen : len ≤ 255) (rest : Bytes) :
    parseHeader ((lcid &&& 0x3F) :: UInt8.ofNat len :: rest) = some (lcid, len, rest) := by
  obtain ⟨hlow, hf, -, -, hpad⟩ := header_octet hlcid
  rw [parseHeader_cons, hlow, if_neg hpad, if_neg (not_not.mpr hf), UInt8.toNat_ofNat',
    Nat.mod_eq_of_lt (by omega)]

theorem parseHeader_long {lcid : UInt8} (hlcid : lcid < 63) {len : Nat} (hlen : len ≤ 65535) (rest : Bytes) :
    parseHeader ((0x40 ||| (lcid &&& 0x3F)) :: UInt8.ofNat (len / 256) :: UInt8.ofNat (len % 256) :: rest) =
      some (lcid, len, rest) := by
  obtain ⟨-, -, hlow, hf, hpad⟩ := header_octet hlcid
  have hvalue : len / 256 % 2 ^ 8 * 256 + len % 256 % 2 ^ 8 = len := by omega
  rw [parseHeader_cons, hlow, if_neg hpad, if_pos hf]
  dsimp only
  rw [UInt8.toNat_ofNat', UInt8.toNat_ofNat', hvalue]

/-- The header of a built SDU is read back, whatever follows. -/
theorem parseHeader_buildSdu {lcid : UInt8} (hlcid : lcid < 63) {sdu : Bytes} (hsdu : sdu.length ≤ 65535)
    (rest : Bytes) : parseHeader (buildSdu lcid sdu ++ rest) = some (lcid, sdu.length, sdu ++ rest) := by
  rw [buildSdu_eq lcid hsdu]
  split
  · rename_i hshort
    exact parseHeader_short hlcid hshort _
  · exact parseHeader_long hlcid hsdu _

/-! ### The loop -/

/-- Fuel for every octet is enough. -/
theorem parseLoop_fuel {fuel fuel' : Nat} {pdu : Bytes} (h : pdu.length ≤ fuel) (h' : pdu.length ≤ fuel') :
    parseLoop fuel pdu = parseLoop fuel' pdu := by
  induction fuel generalizing fuel' pdu with
  | zero =>
    obtain rfl : pdu = [] := List.length_eq_zero_iff.mp (by omega)
    cases fuel' <;> rfl
  | succ fuel ih =>
    cases fuel' with
    | zero =>
      obtain rfl : pdu = [] := List.length_eq_zero_iff.mp (by omega)
      rfl
    | succ fuel' =>
      rw [parseLoop, parseLoop]
      cases hheader : parseHeader pdu with
      | none => rfl
      | some out =>
        obtain ⟨lcid, len, rest⟩ := out
        have hlen := parseHeader_length hheader
        have hdrop : (rest.drop len).length ≤ rest.length := by simp
        dsimp only
        rw [ih (show (rest.drop len).length ≤ fuel by omega) (show (rest.drop len).length ≤ fuel' by omega)]

theorem parsePdu_none {pdu : Bytes} (h : parseHeader pdu = none) : parsePdu pdu = [] := by
  unfold parsePdu
  cases pdu.length with
  | zero => rfl
  | succ fuel => rw [parseLoop, h]

/-- One turn of the loop: an SDU that is not all there ends it. -/
theorem parsePdu_some {pdu rest : Bytes} {lcid : UInt8} {len : Nat}
    (h : parseHeader pdu = some (lcid, len, rest)) : parsePdu pdu =
      if rest.length < len then [] else (lcid, rest.take len) :: parsePdu (rest.drop len) := by
  have hlen := parseHeader_length h
  have hdrop : (rest.drop len).length ≤ rest.length := by simp
  obtain ⟨fuel, hfuel⟩ : ∃ fuel, pdu.length = fuel + 1 := ⟨pdu.length - 1, by omega⟩
  rw [parsePdu, hfuel, parseLoop, h]
  dsimp only
  rw [parsePdu, parseLoop_fuel (show (rest.drop len).length ≤ fuel by omega) (Nat.le_refl (rest.drop len).length)]

/-- A whole SDU is the first one, whatever is behind it. -/
theorem parsePdu_buildSdu {lcid : UInt8} (hlcid : lcid < 63) {sdu : Bytes} (hsdu : sdu.length ≤ 65535)
    (rest : Bytes) : parsePdu (buildSdu lcid sdu ++ rest) = (lcid, sdu) :: parsePdu rest := by
  rw [parsePdu_some (parseHeader_buildSdu hlcid hsdu rest), if_neg (by simp), List.take_left' rfl,
    List.drop_left' rfl]

/-- A cut SDU is none. -/
theorem parsePdu_take {lcid : UInt8} (hlcid : lcid < 63) {sdu : Bytes} (hsdu : sdu.length ≤ 65535) {k : Nat}
    (hk : k < (buildSdu lcid sdu).length) : parsePdu ((buildSdu lcid sdu).take k) = [] := by
  rw [buildSdu_eq lcid hsdu] at hk ⊢
  split at hk <;> rename_i hsize
  · rw [if_pos hsize]
    match k with
    | 0 => rfl
    | 1 => rfl
    | k + 2 =>
      rw [List.take_succ_cons, List.take_succ_cons, parsePdu_some (parseHeader_short hlcid hsize _), if_pos]
      simp only [List.length_cons] at hk
      rw [List.length_take]
      omega
  · rw [if_neg hsize]
    match k with
    | 0 => rfl
    | 1 => rfl
    | 2 =>
      obtain ⟨-, -, hlow, hf, hpad⟩ := header_octet hlcid
      refine parsePdu_none ?_
      rw [List.take_succ_cons, List.take_succ_cons, List.take_zero, parseHeader_cons, hlow, if_neg hpad, if_pos hf]
    | k + 3 =>
      rw [List.take_succ_cons, List.take_succ_cons, List.take_succ_cons,
        parsePdu_some (parseHeader_long hlcid hsdu _), if_pos]
      simp only [List.length_cons] at hk
      rw [List.length_take]
      omega

/-- Nothing is read from padding. -/
theorem parsePdu_padding {padding : Bytes} (h : ∀ b ∈ padding.head?, b &&& 0x3F = lcidPadding) :
    parsePdu padding = [] := by
  match padding with
  | [] => rfl
  | [_] => rfl
  | b :: l :: rest =>
    refine parsePdu_none ?_
    rw [parseHeader_cons, if_pos (h b rfl)]

/-! ### Lists of SDUs -/

section Lists

variable {sdus : List (UInt8 × Bytes)} (hsdus : ∀ s ∈ sdus, s.1 < 63 ∧ s.2.length ≤ 65535)

include hsdus

/-- What is appended to a built PDU is parsed behind its SDUs. -/
theorem parsePdu_buildPdu (rest : Bytes) : parsePdu (buildPdu sdus ++ rest) = sdus ++ parsePdu rest := by
  induction sdus with
  | nil => rfl
  | cons s sdus ih =>
    obtain ⟨hlcid, hsdu⟩ := hsdus s List.mem_cons_self
    have htail := ih fun s' hs' => hsdus s' (List.mem_cons_of_mem s hs')
    rw [buildPdu, List.flatMap_cons, List.append_assoc, parsePdu_buildSdu hlcid hsdu, ← buildPdu, htail]
    rfl

/-- A cut PDU loses SDUs from the end only. -/
theorem parsePdu_prefix (k : Nat) : parsePdu ((buildPdu sdus).take k) <+: sdus := by
  induction sdus generalizing k with
  | nil => simp [buildPdu, parsePdu, parseLoop]
  | cons s sdus ih =>
    obtain ⟨hlcid, hsdu⟩ := hsdus s List.mem_cons_self
    rw [buildPdu, List.flatMap_cons, List.take_append]
    by_cases hk : k < (buildSdu s.1 s.2).length
    · rw [Nat.sub_eq_zero_of_le (Nat.le_of_lt hk), List.take_zero, List.append_nil, parsePdu_take hlcid hsdu hk]
      exact List.nil_prefix
    · rw [List.take_of_length_le (Nat.le_of_not_lt hk), parsePdu_buildSdu hlcid hsdu]
      exact (List.prefix_cons_inj _).mpr (ih (fun s' hs' => hsdus s' (List.mem_cons_of_mem s hs')) _)

end Lists

/-! ### Any input -/

/-- Slices that follow each other lie inside the PDU and do not overlap. -/
theorem Consecutive.pairwise {size pos : Nat} {slices : List SduSlice}
    (h : SduSlice.Consecutive size pos slices) :
    (∀ s ∈ slices, pos < s.offset ∧ s.offset + s.length ≤ size) ∧
      slices.Pairwise fun s s' => s.offset + s.length ≤ s'.offset := by
  induction slices generalizing pos with
  | nil => exact ⟨fun s hs => absurd hs List.not_mem_nil, .nil⟩
  | cons s slices ih =>
    obtain ⟨hstart, hend, hrest⟩ := h
    obtain ⟨hbounds, hpairs⟩ := ih hrest
    refine ⟨fun s' hs' => ?_, .cons (fun s' hs' => Nat.le_of_lt (hbounds s' hs').1) hpairs⟩
    rcases List.mem_cons.mp hs' with rfl | hmem
    · exact ⟨by omega, hend⟩
    · have hbound := hbounds s' hmem
      exact ⟨by omega, hbound.2⟩

/-- Every parse reads slices that follow each other. -/
theorem parseRun (pdu : Bytes) (left : Nat) : ∀ pos, pdu.length - pos ≤ left → ∃ slices, ParseRun pdu pos slices ∧
    parsePdu (pdu.drop pos) = slices.map (·.sdu pdu) ∧ SduSlice.Consecutive pdu.length pos slices := by
  induction left with
  | zero =>
    intro pos hpos
    have hnil : pdu.drop pos = [] := List.drop_eq_nil_iff.mpr (by omega)
    exact ⟨[], .stop pos (by rw [hnil]; rfl), by rw [hnil]; rfl, trivial⟩
  | succ left ih =>
    intro pos hpos
    cases hheader : parseHeader (pdu.drop pos) with
    | none => exact ⟨[], .stop pos hheader, parsePdu_none hheader, trivial⟩
    | some out =>
      obtain ⟨lcid, len, rest⟩ := out
      by_cases hshort : rest.length < len
      · exact ⟨[], .cut pos lcid len rest hheader hshort, by rw [parsePdu_some hheader, if_pos hshort]; rfl, trivial⟩
      · obtain ⟨n, hn, hrest, hpdu⟩ : ∃ n, (n = 2 ∨ n = 3) ∧ rest = pdu.drop (pos + n) ∧ pos + n ≤ pdu.length := by
          rcases parseHeader_rest hheader with ⟨hrest, hlen⟩ | ⟨hrest, hlen⟩ <;>
            rw [List.drop_drop] at hrest <;> rw [List.length_drop] at hlen
          · exact ⟨2, .inl rfl, hrest, by omega⟩
          · exact ⟨3, .inr rfl, hrest, by omega⟩
        have hlen : rest.length = pdu.length - (pos + n) := by rw [hrest, List.length_drop]
        have hoffset : pdu.length - rest.length = pos + n := by omega
        obtain ⟨slices, hrun, hparse, hconsecutive⟩ := ih (pos + n + len) (by omega)
        refine ⟨⟨lcid, pos + n, len⟩ :: slices, ?_, ?_, by dsimp only; omega, by dsimp only; omega, hconsecutive⟩
        · have hturn := ParseRun.turn pos lcid len rest slices hheader (by omega) (by rwa [hoffset])
          rwa [hoffset] at hturn
        · rw [parsePdu_some hheader, if_neg hshort, hrest, List.drop_drop, hparse]
          rfl

end MacCodec

open MacCodec

/-- The round trip, padding and truncation, for any list the header fields can hold; and the
slices of any octets whatsoever. -/
theorem mac_pdu_codec {sdus : List (UInt8 × Bytes)} (hsdus : ∀ s ∈ sdus, s.1 < 63 ∧ s.2.length ≤ 65535) :
    parsePdu (buildPdu sdus) = sdus ∧
      (∀ padding : Bytes, (∀ b ∈ padding.head?, b &&& 0x3F = lcidPadding) →
        parsePdu (buildPdu sdus ++ padding) = sdus) ∧
      (∀ k, parsePdu ((buildPdu sdus).take k) <+: sdus) ∧
      ∀ pdu : Bytes, ∃ slices, ParseRun pdu 0 slices ∧ parsePdu pdu = slices.map (·.sdu pdu) ∧
        SduSlice.Consecutive pdu.length 0 slices ∧
        slices.Pairwise fun s s' => s.offset + s.length ≤ s'.offset := by
  refine ⟨?_, fun padding hpadding => ?_, parsePdu_prefix hsdus, fun pdu => ?_⟩
  · have h := parsePdu_buildPdu hsdus []
    rw [List.append_nil] at h
    exact h.trans (List.append_nil _)
  · rw [parsePdu_buildPdu hsdus, parsePdu_padding hpadding, List.append_nil]
  · obtain ⟨slices, hrun, hparse, hconsecutive⟩ := parseRun pdu pdu.length 0 (Nat.sub_le _ _)
    exact ⟨slices, hrun, hparse, hconsecutive, (Consecutive.pairwise hconsecutive).2⟩

/-- Two SDUs, the second one empty, with padding behind them and cut in the length of the second. -/
theorem mac_pdu_codec_two_sdus :
    parsePdu [1, 2, 0xAA, 0xBB, 3, 0] = [(1, [0xAA, 0xBB]), (3, [])] ∧
      parsePdu [1, 2, 0xAA, 0xBB, 3, 0, 0x3F, 0] = [(1, [0xAA, 0xBB]), (3, [])] ∧
      parsePdu [1, 2, 0xAA, 0xBB, 3] <+: [(1, [0xAA, 0xBB]), (3, [])] := by
  have hsdus : ∀ s ∈ ([(1, [0xAA, 0xBB]), (3, [])] : List (UInt8 × Bytes)), s.1 < 63 ∧ s.2.length ≤ 65535 := by
    decide
  have hpadding : ∀ b ∈ ([0x3F, 0] : Bytes).head?, b &&& 0x3F = lcidPadding := by
    intro b hb
    obtain rfl := Option.some.inj hb
    rfl
  have h := mac_pdu_codec hsdus
  exact ⟨h.1, h.2.1 [0x3F, 0] hpadding, h.2.2.1 5⟩

end AetherStack.Guarantees
