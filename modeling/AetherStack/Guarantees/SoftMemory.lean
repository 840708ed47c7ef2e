import AetherStack.Lib.Run
import AetherStack.Guarantees.HarqReceiver

/-!
# What the receiver's soft memory does

A failed attempt is stored as it was decoded, cut to the bits that carry information. It is
combined with a later frame only if that frame has as many bits in all, its padding included,
and a new-data indicator of zero. A block always has padding, so its own retransmission is
never combined with it; what is combined is what a header with wrong lengths has left behind.
-/
namespace AetherStack.Guarantees
open Source Fec Lib

/-- One frame; an exception ends the run. -/
def receiveStep (r : HarqRx) (frame : Bytes) : Option HarqRx :=
  match r.receive frame with
  | .error _ => none
  | .ok (r', _) => some r'

/-- The header of a block. Both lengths are stored in 16 bits. -/
def blockHeader (macPdu : Bytes) (proc ndi : UInt8) : HarqHeader :=
  ⟨proc, ndi, 0, (2 * (macPdu.length + 2) + 2) % 2 ^ 16, (macPdu.length + 2) % 2 ^ 16⟩

/-- A transmission of the block with the header intact. -/
def blockFrame (macPdu : Bytes) (proc ndi : UInt8) (coded : Bytes) : Bytes :=
  (blockHeader macPdu proc ndi).pack ++ coded

/-- The frame's coded bits are merged with those of its process. -/
def Combines (r : HarqRx) (frame : Bytes) : Prop :=
  ∃ h buf, HarqHeader.unpack frame = some h ∧
    combinesWith r h (bytesToBits ((frame.drop HarqHeader.size).take h.len)) = some buf

/-- What the caller sees of `receive`. -/
def answer (r : HarqRx) (frame : Bytes) : Except DecodeError HarqResult := (r.receive frame).map Prod.snd

/-- The header's field of the coded length has wrapped, so that the announced coded octets are
fewer than the announced block has. -/
def Truncated (macPdu : Bytes) : Prop :=
  2 ^ 15 ≤ (macPdu.length + 2) % 2 ^ 16 ∧ (macPdu.length + 2) % 2 ^ 16 < 2 ^ 16 - 1

namespace SoftMemory

/-! ## The slots -/

theorem updateSoft_self (soft : List SoftBuf) (h : HarqHeader) (bits : Bytes) :
    (HarqRx.updateSoft soft h false bits)[h.proc.toNat]? = some ⟨h.ndi, bits⟩ := by
  simp only [HarqRx.updateSoft, Bool.false_eq_true, or_false, if_false]
  rw [List.getElem?_set_self]
  rw [List.length_rightpad]
  omega

/-- Another slot stays as it is, or comes into being empty. -/
theorem updateSoft_other (soft : List SoftBuf) (h : HarqHeader) (delivered : Bool) (bits : Bytes) {p : Nat}
    (hp : h.proc.toNat ≠ p) :
    (HarqRx.updateSoft soft h delivered bits)[p]? = soft[p]? ∨
      soft[p]? = none ∧ (HarqRx.updateSoft soft h delivered bits)[p]? = some {} := by
  have hclear : ∀ c : Prop, [Decidable c] →
      (if c then soft.modify h.proc.toNat fun buf => { buf with bits := [] } else soft)[p]? = soft[p]? := by
    intro c _
    split
    · exact List.getElem?_modify_ne _ _ hp
    · rfl
  unfold HarqRx.updateSoft
  dsimp only
  split
  · exact .inl (hclear _)
  · rw [List.getElem?_set_ne hp, List.rightpad]
    have hcleared := hclear (h.ndi ≠ 0 ∨ delivered)
    generalize hsoft : (if h.ndi ≠ 0 ∨ delivered then
      soft.modify h.proc.toNat fun buf => { buf with bits := [] } else soft) = soft' at hcleared ⊢
    rw [← hcleared]
    rcases Nat.lt_or_ge p soft'.length with hlt | hge
    · exact .inl (List.getElem?_append_left hlt)
    · rw [List.getElem?_append_right hge, List.getElem?_eq_none hge, List.getElem?_replicate]
      split
      · exact .inr ⟨rfl, rfl⟩
      · exact .inl rfl

/-- A delivery leaves the slot without bits. -/
theorem updateSoft_delivered (soft : List SoftBuf) (h : HarqHeader) (bits : Bytes) :
    (HarqRx.updateSoft soft h true bits)[h.proc.toNat]? =
      soft[h.proc.toNat]?.map fun buf => { buf with bits := [] } := by
  simp only [HarqRx.updateSoft, or_true, if_true]
  exact List.getElem?_modify_eq _ _ _

/-- A frame that is answered, with what it leaves behind. -/
theorem receive_eq {r r' : HarqRx} {res : HarqResult} {frame : Bytes} (h : r.receive frame = .ok (r', res)) :
    (r' = r ∧ res = {}) ∨ ∃ header bits, HarqHeader.unpack frame = some header ∧
      HarqHeader.size + header.len ≤ frame.length ∧
      bits = HarqRx.decodeInput r.soft header (bytesToBits ((frame.drop HarqHeader.size).take header.len)) ∧
      linkDecodeBits bits header.infoLen = .ok (if res.delivered then some res.macPdu else none) ∧
      r'.soft = HarqRx.updateSoft r.soft header res.delivered bits := by
  unfold HarqRx.receive at h
  split at h
  · simp only [Except.ok.injEq, Prod.mk.injEq] at h
    exact .inl ⟨h.1.symm, h.2.symm⟩
  · rename_i header hunpack
    split at h
    · simp only [Except.ok.injEq, Prod.mk.injEq] at h
      exact .inl ⟨h.1.symm, h.2.symm⟩
    · rename_i hwhole
      dsimp only at h
      split at h
      · cases h
      · rename_i decoded hdecode
        simp only [Except.ok.injEq, Prod.mk.injEq] at h
        obtain ⟨rfl, rfl⟩ := h
        refine .inr ⟨header, _, hunpack, not_lt.mp hwhole, rfl, ?_, rfl⟩
        rw [hdecode]
        cases decoded <;> rfl

theorem bits_length {frame : Bytes} {header : HarqHeader} (hwhole : HarqHeader.size + header.len ≤ frame.length) :
    (bytesToBits ((frame.drop HarqHeader.size).take header.len)).length = 8 * header.len := by
  rw [length_bytesToBits, List.length_take, List.length_drop]
  omega

/-- A frame of another process leaves a slot alone, apart from creating it. -/
theorem slot_other {r r' : HarqRx} {frame : Bytes} {p : Nat} (hstep : receiveStep r frame = some r')
    (hother : ∀ h, HarqHeader.unpack frame = some h → h.proc.toNat ≠ p) :
    r'.soft[p]? = r.soft[p]? ∨ r.soft[p]? = none ∧ r'.soft[p]? = some {} := by
  unfold receiveStep at hstep
  split at hstep
  · cases hstep
  · rename_i r'' res hreceive
    obtain rfl := Option.some.inj hstep
    obtain ⟨rfl, -⟩ | ⟨header, bits, hunpack, -, -, -, hsoft⟩ := receive_eq hreceive
    · exact .inl rfl
    · rw [hsoft]
      exact updateSoft_other _ _ _ _ (hother header hunpack)

/-- A slot stands until a frame of its process comes. -/
theorem slot_kept {r r' : HarqRx} {frames : List Bytes} {p : Nat} {buf : SoftBuf}
    (hslot : r.soft[p]? = some buf) (run : runFrom receiveStep r frames = some r')
    (hother : ∀ frame ∈ frames, ∀ h, HarqHeader.unpack frame = some h → h.proc.toNat ≠ p) :
    r'.soft[p]? = some buf := by
  induction frames generalizing r with
  | nil =>
    obtain rfl : r = r' := by simpa using run
    exact hslot
  | cons frame frames ih =>
    obtain ⟨r'', hstep, hrest⟩ := runFrom_cons_eq_some.mp run
    refine ih ?_ hrest (fun f hf => hother f (List.mem_cons_of_mem _ hf))
    obtain h | ⟨hnone, -⟩ := slot_other hstep (hother frame List.mem_cons_self)
    · rw [h, hslot]
    · rw [hslot] at hnone
      cases hnone

/-! ## Transmissions with an intact header -/

/-- What a receiver reads of the header of a block. -/
def readHeader (macPdu : Bytes) (proc ndi : UInt8) : HarqHeader :=
  { blockHeader macPdu proc ndi with proc := proc &&& 0x7F, ndi := if ndi ≠ 0 then 1 else 0 }

theorem unpack_attempt (macPdu : Bytes) (proc ndi : UInt8) (coded : Bytes) :
    HarqHeader.unpack (blockFrame macPdu proc ndi coded) = some (readHeader macPdu proc ndi) := by
  have hmod : ∀ n, n % 2 ^ 16 % snModulus = n % 2 ^ 16 := fun n => Nat.mod_mod n _
  rw [blockFrame, unpack_pack]
  simp only [blockHeader, hmod]
  rfl

theorem linkEncode_eq_attempt (macPdu : Bytes) (proc ndi : UInt8) :
    linkEncode macPdu proc ndi = blockFrame macPdu proc ndi (codedBytes (crcAttach macPdu)) := by
  have hblock : (crcAttach macPdu).length = macPdu.length + 2 := by simp [crcAttach, putU16]
  rw [linkEncode, length_codedBytes, hblock]
  rfl

theorem coded_attempt (macPdu : Bytes) (proc ndi : UInt8) (coded : Bytes) :
    (blockFrame macPdu proc ndi coded).drop HarqHeader.size = coded := List.drop_left' rfl

/-- The announced coded octets are in the frame, wrapped or not. -/
theorem attempt_whole {macPdu coded : Bytes} (proc ndi : UInt8)
    (hcoded : coded.length = 2 * (macPdu.length + 2) + 2) :
    HarqHeader.size + (readHeader macPdu proc ndi).len ≤ (blockFrame macPdu proc ndi coded).length := by
  have hpack : (blockHeader macPdu proc ndi).pack.length = HarqHeader.size := rfl
  have hle := Nat.mod_le (2 * (macPdu.length + 2) + 2) (2 ^ 16)
  rw [blockFrame, List.length_append, hpack, hcoded]
  exact Nat.add_le_add_left hle _

/-- Combining needs an equal number of bits, and a block has the padding that the stored
bits lack. -/
theorem combines_attempt (r : HarqRx) {macPdu coded : Bytes} (proc ndi : UInt8)
    (hcoded : coded.length = 2 * (macPdu.length + 2) + 2) :
    Combines r (blockFrame macPdu proc ndi coded) ↔ ∃ buf, r.soft[(proc &&& 0x7F).toNat]? = some buf ∧
      ndi = 0 ∧ buf.bits ≠ [] ∧ buf.bits.length = 8 * ((2 * (macPdu.length + 2) + 2) % 2 ^ 16) := by
  have hlen := bits_length (attempt_whole proc ndi hcoded)
  have hndi : (readHeader macPdu proc ndi).ndi = 0 ↔ ndi = 0 := by
    by_cases h : ndi = 0 <;> simp [readHeader, h]
  unfold Combines
  rw [unpack_attempt]
  constructor
  · rintro ⟨h, buf, hread, hfound⟩
    obtain rfl := Option.some.inj hread
    obtain ⟨hslot, hmatch⟩ := Option.filter_eq_some_iff.mp hfound
    rw [decide_eq_true_eq, hlen, hndi] at hmatch
    exact ⟨buf, hslot, hmatch⟩
  · rintro ⟨buf, hslot, hmatch⟩
    refine ⟨_, buf, rfl, Option.filter_eq_some_iff.mpr ⟨hslot, ?_⟩⟩
    rw [decide_eq_true_eq, hlen, hndi]
    exact hmatch

/-! ## Frames that are decoded on their own bits -/

/-- Without a partner the frame is decoded by itself. -/
theorem decodeInput_alone {r : HarqRx} {h : HarqHeader} {rxBits : Bytes} (hnone : combinesWith r h rxBits = none) :
    HarqRx.decodeInput r.soft h rxBits = rxBits.take (min rxBits.length (validCodedBits h)) := by
  unfold HarqRx.decodeInput
  dsimp only
  split
  · rfl
  · rename_i buf hbuf
    rw [if_neg]
    intro hmatch
    rw [combinesWith, hbuf, Option.filter_some, decide_eq_true hmatch] at hnone
    cases hnone

theorem combinesWith_initial (h : HarqHeader) (rxBits : Bytes) : combinesWith {} h rxBits = none := by
  rw [combinesWith, Option.filter_eq_none_iff]
  intro buf hbuf
  simp [HarqRx.slotEmpty_initial _ buf hbuf]

/-- Without combining, the answer is that of a receiver with nothing stored. -/
theorem answer_alone {r : HarqRx} {frame : Bytes} (h : ¬ Combines r frame) : answer r frame = answer {} frame := by
  unfold answer HarqRx.receive
  cases hunpack : HarqHeader.unpack frame with
  | none => rfl
  | some header =>
    dsimp only
    have hnone : combinesWith r header (bytesToBits ((frame.drop HarqHeader.size).take header.len)) = none := by
      rw [Option.eq_none_iff_forall_ne_some]
      exact fun buf hbuf => h ⟨header, buf, hunpack, hbuf⟩
    rw [decodeInput_alone hnone, decodeInput_alone (combinesWith_initial _ _)]
    split
    · rfl
    · split
      · rfl
      · rfl

/-! ## The bits of a failed attempt -/

/-- What a failed attempt leaves: the announced bits, or those that carry information if they are
fewer. -/
theorem slot_failed {r r' : HarqRx} {res : HarqResult} {macPdu coded : Bytes} {proc ndi : UInt8}
    (hcoded : coded.length = 2 * (macPdu.length + 2) + 2)
    (hreceive : r.receive (blockFrame macPdu proc ndi coded) = .ok (r', res)) (hfailed : res.delivered = false) :
    ∃ buf, r'.soft[(proc &&& 0x7F).toNat]? = some buf ∧ buf.bits.length =
      min (8 * ((2 * (macPdu.length + 2) + 2) % 2 ^ 16)) (((macPdu.length + 2) % 2 ^ 16 * 8 + 6) * 2) := by
  have hwhole := attempt_whole proc ndi hcoded
  have hlen := bits_length hwhole
  obtain ⟨-, rfl⟩ | ⟨header, bits, hunpack, -, hbits, -, hsoft⟩ := receive_eq hreceive
  · -- an intact header is answered
    unfold HarqRx.receive at hreceive
    rw [unpack_attempt] at hreceive
    dsimp only at hreceive
    rw [if_neg (not_lt.mpr hwhole)] at hreceive
    split at hreceive
    · cases hreceive
    · simp only [Except.ok.injEq, Prod.mk.injEq, HarqResult.mk.injEq, Bool.true_eq_false, false_and, and_false] at hreceive
  · rw [unpack_attempt] at hunpack
    obtain rfl := Option.some.inj hunpack
    refine ⟨_, by rw [hsoft, hfailed]; exact updateSoft_self _ _ _, ?_⟩
    rw [hbits, length_decodeInput, hlen]
    rfl

/-- Whether a block's frame is combined with the failed attempt of a block of its process. -/
theorem combines_iff {r r1 r2 : HarqRx} {res : HarqResult} {macPdu first : Bytes} {proc ndi : UInt8}
    {between : List Bytes} (hfirst : first.length = 2 * (macPdu.length + 2) + 2)
    (hreceive : r.receive (blockFrame macPdu proc ndi first) = .ok (r1, res)) (hfailed : res.delivered = false)
    (hother : ∀ frame ∈ between, ∀ h, HarqHeader.unpack frame = some h → h.proc ≠ proc &&& 0x7F)
    (run : runFrom receiveStep r1 between = some r2) {macPdu' next : Bytes} {ndi' : UInt8}
    (hnext : next.length = 2 * (macPdu'.length + 2) + 2) :
    Combines r2 (blockFrame macPdu' proc ndi' next) ↔ ndi' = 0 ∧ Truncated macPdu ∧
      (2 * (macPdu'.length + 2) + 2) % 2 ^ 16 = (2 * (macPdu.length + 2) + 2) % 2 ^ 16 := by
  obtain ⟨buf, hslot, hsize⟩ := slot_failed hfirst hreceive hfailed
  have hkept := slot_kept hslot run fun frame hf h hh heq => hother frame hf h hh (UInt8.toNat_inj.mp heq)
  rw [combines_attempt _ _ _ hnext, hkept]
  unfold Truncated
  constructor
  · rintro ⟨_, heq, hzero, hne, hlen⟩
    obtain rfl := Option.some.inj heq
    have hpos := List.length_pos_iff.mpr hne
    refine ⟨hzero, ?_⟩
    omega
  · rintro ⟨hzero, hwrapped, hsame⟩
    refine ⟨buf, rfl, hzero, List.length_pos_iff.mp ?_, ?_⟩
    · omega
    · omega

/-! ## Clean transmissions -/

/-- The announced coded octets are there, as many as some block has, but fewer than the announced
block has. -/
def Misleading (frame : Bytes) : Prop :=
  ∃ h, HarqHeader.unpack frame = some h ∧ HarqHeader.size + h.len ≤ frame.length ∧
    h.len % 2 = 0 ∧ 6 ≤ h.len ∧ h.len ≤ 2 * h.infoLen + 1

/-- No slot holds as many bits as a block has. -/
def Unmatched (r : HarqRx) : Prop :=
  ∀ (p : Nat) (buf : SoftBuf), r.soft[p]? = some buf → ∀ n : Nat, buf.bits.length ≠ 8 * (2 * (n + 2) + 2)

theorem unmatched_initial : Unmatched {} := by
  intro p buf hbuf n
  rw [HarqRx.slotEmpty_initial p buf hbuf, List.length_nil]
  omega

/-- A frame whose lengths are right stores bits that match no frame. -/
theorem unmatched_step {r r' : HarqRx} {frame : Bytes} (h : Unmatched r) (hframe : ¬ Misleading frame)
    (hstep : receiveStep r frame = some r') : Unmatched r' := by
  intro p buf hbuf n
  by_cases hown : ∃ h, HarqHeader.unpack frame = some h ∧ h.proc.toNat = p
  · obtain ⟨own, hread, rfl⟩ := hown
    unfold receiveStep at hstep
    split at hstep
    · cases hstep
    · rename_i r'' res hreceive
      obtain rfl := Option.some.inj hstep
      obtain ⟨rfl, -⟩ | ⟨header, bits, hunpack, hwhole, hbits, -, hsoft⟩ := receive_eq hreceive
      · exact h _ buf hbuf n
      · obtain rfl := Option.some.inj (hunpack.symm.trans hread)
        rw [hsoft] at hbuf
        cases hdelivered : res.delivered with
        | true =>
          rw [hdelivered, updateSoft_delivered] at hbuf
          obtain ⟨old, -, rfl⟩ := Option.map_eq_some_iff.mp hbuf
          rw [List.length_nil]
          omega
        | false =>
          rw [hdelivered, updateSoft_self] at hbuf
          obtain rfl := Option.some.inj hbuf
          dsimp only
          rw [hbits, length_decodeInput, bits_length hwhole, validCodedBits]
          intro hsize
          exact hframe ⟨header, hunpack, hwhole, by omega, by omega, by omega⟩
  · obtain hsame | ⟨-, hnew⟩ := slot_other hstep (p := p) (fun header hread heq => hown ⟨header, hread, heq⟩)
    · exact h p buf (hsame.symm.trans hbuf) n
    · obtain rfl := Option.some.inj (hnew.symm.trans hbuf)
      show 0 ≠ _
      omega

/-- Run lemma: without misleading lengths nothing is ever combined. -/
theorem unmatched_run {r : HarqRx} {frames : List Bytes} (run : runFrom receiveStep {} frames = some r)
    (hframes : ∀ frame ∈ frames, ¬ Misleading frame) : Unmatched r := by
  induction frames using List.reverseRecOn generalizing r with
  | nil =>
    obtain rfl : {} = r := by simpa using run
    exact unmatched_initial
  | append_singleton frames frame ih =>
    obtain ⟨r', hfirst, hlast⟩ := runFrom_append_eq_some.mp run
    obtain ⟨r'', hstep, hnil⟩ := runFrom_cons_eq_some.mp hlast
    obtain rfl : r'' = r := by simpa using hnil
    exact unmatched_step (ih hfirst fun f hf => hframes f (List.mem_append_left _ hf))
      (hframes frame (by simp)) hstep

/-- The clean frame hands its MAC PDU upward. -/
def Delivers (r : HarqRx) (macPdu : Bytes) (proc ndi : UInt8) : Prop :=
  ∃ res, answer r (linkEncode macPdu proc ndi) = .ok res ∧ res.delivered = true ∧ res.macPdu = macPdu

/-- A clean frame that is not combined is delivered. -/
theorem delivers_alone {r : HarqRx} {macPdu : Bytes} {proc ndi : UInt8} (hfits : 2 * (macPdu.length + 2) + 2 < 2 ^ 16)
    (h : ¬ Combines r (linkEncode macPdu proc ndi)) : Delivers r macPdu proc ndi := by
  have hreceive := HarqRx.receive_linkEncode {} macPdu proc ndi hfits (HarqRx.slotEmpty_initial _)
  refine ⟨⟨true, true, true, proc &&& 0x7F, macPdu⟩, ?_, rfl, rfl⟩
  rw [answer_alone h, answer, hreceive]
  rfl

/-- The bits that are decoded when a clean frame is combined. -/
def merged (coded stored : Bytes) : Bytes :=
  List.zipWith (fun a b => if a.toNat + b.toNat ≥ 2 then 1 else 0) coded stored

/-- Combining merges the bits that are there on both sides. -/
theorem take_combine {rxBits stored : Bytes} {valid : Nat} (hvalid : valid ≤ rxBits.length)
    (hstored : rxBits.length ≤ stored.length) :
    (HarqRx.combine rxBits stored valid).take valid = merged (rxBits.take valid) stored := by
  apply List.ext_getElem?
  intro i
  rw [List.getElem?_take, merged, List.getElem?_zipWith, List.getElem?_take]
  split
  · rename_i hi
    have hrx : i < rxBits.length := by omega
    have hst : i < stored.length := by omega
    rw [HarqRx.combine, List.getElem?_map, List.getElem?_range hrx, Option.map_some, if_pos hi,
      List.getD_eq_getElem?_getD, List.getD_eq_getElem?_getD, List.getElem?_eq_getElem hrx,
      List.getElem?_eq_getElem hst]
    rfl
  · rfl

/-- The clean frame is delivered when the bits `receive` makes of it decode to its MAC PDU. -/
theorem delivers_iff_decode {r : HarqRx} {macPdu : Bytes} {proc ndi : UInt8}
    (hfits : 2 * (macPdu.length + 2) + 2 < 2 ^ 16) :
    Delivers r macPdu proc ndi ↔ linkDecodeBits (HarqRx.decodeInput r.soft (readHeader macPdu proc ndi)
      (bytesToBits (codedBytes (crcAttach macPdu)))) (macPdu.length + 2) = .ok (some macPdu) := by
  have hblock : (crcAttach macPdu).length = macPdu.length + 2 := by simp [crcAttach, putU16]
  have hcoded : (codedBytes (crcAttach macPdu)).length = 2 * (macPdu.length + 2) + 2 := by
    rw [length_codedBytes, hblock]
  have hlen : (readHeader macPdu proc ndi).len = (codedBytes (crcAttach macPdu)).length := by
    rw [hcoded]
    exact Nat.mod_eq_of_lt hfits
  have hinfo : (readHeader macPdu proc ndi).infoLen = macPdu.length + 2 :=
    Nat.mod_eq_of_lt (show macPdu.length + 2 < 2 ^ 16 by omega)
  unfold Delivers answer HarqRx.receive
  rw [linkEncode_eq_attempt, unpack_attempt]
  dsimp only
  rw [if_neg (not_lt.mpr (attempt_whole proc ndi hcoded)), coded_attempt, hlen, List.take_length, hinfo]
  cases linkDecodeBits (HarqRx.decodeInput r.soft (readHeader macPdu proc ndi)
      (bytesToBits (codedBytes (crcAttach macPdu)))) (macPdu.length + 2) with
  | error e => simp [Except.map]
  | ok decoded =>
    cases decoded with
    | none => simp [Except.map]
    | some pdu => simp [Except.map]

/-- In any state: a clean frame is delivered unless what it is combined with spoils it. -/
theorem delivers_iff {r : HarqRx} {macPdu : Bytes} {proc ndi : UInt8} (hfits : 2 * (macPdu.length + 2) + 2 < 2 ^ 16) :
    Delivers r macPdu proc ndi ↔ ∀ buf, r.soft[(proc &&& 0x7F).toNat]? = some buf → ndi = 0 →
      buf.bits.length = 8 * (2 * (macPdu.length + 2) + 2) →
      linkDecodeBits (merged (fecEncode (bytesToBits (crcAttach macPdu))) buf.bits) (macPdu.length + 2) =
        .ok (some macPdu) := by
  have hblock : (crcAttach macPdu).length = macPdu.length + 2 := by simp [crcAttach, putU16]
  have hcoded : (codedBytes (crcAttach macPdu)).length = 2 * (macPdu.length + 2) + 2 := by
    rw [length_codedBytes, hblock]
  have hcombines := combines_attempt r proc ndi hcoded
  rw [← linkEncode_eq_attempt, Nat.mod_eq_of_lt hfits] at hcombines
  by_cases hmatch : Combines r (linkEncode macPdu proc ndi)
  · obtain ⟨buf, hslot, rfl, hne, hsize⟩ := hcombines.mp hmatch
    have hrx : (bytesToBits (codedBytes (crcAttach macPdu))).length = buf.bits.length := by
      rw [length_bytesToBits, hcoded, hsize]
    have hvalid : validCodedBits (readHeader macPdu proc 0) = ((crcAttach macPdu).length * 8 + 6) * 2 := by
      rw [hblock]
      show ((macPdu.length + 2) % 2 ^ 16 * 8 + 6) * 2 = _
      rw [Nat.mod_eq_of_lt (by omega)]
    have hbound : validCodedBits (readHeader macPdu proc 0) ≤ buf.bits.length := by
      rw [hvalid, hblock, hsize]
      omega
    have hinput : HarqRx.decodeInput r.soft (readHeader macPdu proc 0)
        (bytesToBits (codedBytes (crcAttach macPdu))) =
          merged (fecEncode (bytesToBits (crcAttach macPdu))) buf.bits := by
      have hlength : ∀ valid, (HarqRx.combine (bytesToBits (codedBytes (crcAttach macPdu))) buf.bits valid).length =
          buf.bits.length := fun valid => by simp [HarqRx.combine, hrx]
      have hindicator : (readHeader macPdu proc 0).ndi = 0 := rfl
      have hproc : (readHeader macPdu proc 0).proc.toNat = (proc &&& 0x7F).toNat := rfl
      unfold HarqRx.decodeInput
      simp only [hproc, hslot]
      rw [if_pos ⟨hindicator, hne, hrx.symm⟩, hlength, hrx, Nat.min_eq_left hbound, Nat.min_eq_right hbound,
        take_combine (hrx.symm ▸ hbound) (Nat.le_of_eq hrx), hvalid, take_validCodedBits]
    rw [delivers_iff_decode hfits, hinput]
    constructor
    · intro hdecode buf' hslot' _ _
      obtain rfl := Option.some.inj (hslot.symm.trans hslot')
      exact hdecode
    · exact fun h => h buf hslot rfl hsize
  · refine iff_of_true (delivers_alone hfits hmatch) fun buf hslot hzero hsize => ?_
    refine absurd (hcombines.mpr ⟨buf, hslot, hzero, ?_, hsize⟩) hmatch
    rw [← List.length_pos_iff, hsize]
    omega

end SoftMemory

open SoftMemory

/-- For every state, block, process and indicator, and any coded bits that fail behind an intact
header: a retransmission is decoded on its own bits alone, and so is the next new block, except
where the first block is `Truncated`. -/
theorem chase_combining_iff {r r1 r2 : HarqRx} {res : HarqResult} {macPdu first second : Bytes} {proc ndi : UInt8}
    {between : List Bytes} (hfirst : first.length = 2 * (macPdu.length + 2) + 2)
    (hreceive : r.receive (blockFrame macPdu proc ndi first) = .ok (r1, res)) (hfailed : res.delivered = false)
    (hother : ∀ frame ∈ between, ∀ h, HarqHeader.unpack frame = some h → h.proc ≠ proc &&& 0x7F)
    (run : runFrom receiveStep r1 between = some r2) (hsecond : second.length = 2 * (macPdu.length + 2) + 2) :
    (Combines r2 (blockFrame macPdu proc ndi second) ↔ ndi = 0 ∧ Truncated macPdu) ∧
      (∀ (macPdu' next : Bytes) (ndi' : UInt8), next.length = 2 * (macPdu'.length + 2) + 2 →
        (Combines r2 (blockFrame macPdu' proc ndi' next) ↔ ndi' = 0 ∧ Truncated macPdu ∧
          (2 * (macPdu'.length + 2) + 2) % 2 ^ 16 = (2 * (macPdu.length + 2) + 2) % 2 ^ 16)) ∧
      ∀ frame, ¬ Combines r2 frame → answer r2 frame = answer {} frame := by
  refine ⟨?_, fun macPdu' next ndi' hnext => combines_iff hfirst hreceive hfailed hother run hnext,
    fun frame => answer_alone⟩
  rw [combines_iff hfirst hreceive hfailed hother run hsecond]
  simp only [and_true]

/-- A block that fails its checksum. -/
theorem receive_failed {r : HarqRx} {frame bits : Bytes} {h : HarqHeader} (hread : HarqHeader.unpack frame = some h)
    (hlen : HarqHeader.size + h.len ≤ frame.length)
    (hbits : HarqRx.decodeInput r.soft h (bytesToBits ((frame.drop HarqHeader.size).take h.len)) = bits)
    (hdecode : linkDecodeBits bits h.infoLen = .ok none) :
    r.receive frame = .ok (⟨HarqRx.updateSoft r.soft h false bits⟩, ⟨false, true, false, h.proc, []⟩) := by
  simp only [HarqRx.receive, hread, hbits, hdecode, if_neg (not_lt.mpr hlen)]
  rfl

/-- Zeros are coded zeros: a block whose checksum is wrong, or bits that make no block. -/
theorem linkDecodeBits_zeros : linkDecodeBits (List.replicate 44 0) 2 = .ok none ∧
    linkDecodeBits (List.replicate 48 0) 3 = .ok none := by
  have hblock : List.replicate 44 0 = fecEncode (bytesToBits [0, 0]) := by decide
  have hbits : List.replicate 48 0 = fecEncode (List.replicate 18 0) := by decide
  constructor
  · rw [hblock]
    exact linkDecodeBits_block [0, 0]
  · rw [hbits, linkDecodeBits, fecDecode_fecEncode fun b hb => .inl (List.eq_of_mem_replicate hb)]
    rfl

/-- An empty MAC PDU whose six coded octets arrive as zeros. -/
theorem zeros_fail : HarqRx.receive {} (blockFrame [] 0 0 [0, 0, 0, 0, 0, 0]) =
    .ok (⟨⟨0, List.replicate 44 0⟩ :: List.replicate 7 {}⟩, ⟨false, true, false, 0, []⟩) :=
  receive_failed (unpack_attempt _ _ _ _) (by decide) (by decide) linkDecodeBits_zeros.1

theorem chase_combining_empty : ¬ Combines ⟨⟨0, List.replicate 44 0⟩ :: List.replicate 7 {}⟩
    (blockFrame [] 0 0 (codedBytes (crcAttach []))) := fun h =>
  absurd ((chase_combining_iff rfl zeros_fail rfl (by simp) (runFrom_nil receiveStep _)
    (length_codedBytes _)).1.mp h).2.1 (by decide)

/-- After the attempt of zeros, an attempt of ones is decoded as ones: the combination is zero. -/
theorem chase_combining_skipped :
    HarqRx.receive {} (blockFrame [] 0 0 [0, 0, 0, 0, 0, 0]) =
        .ok (⟨⟨0, List.replicate 44 0⟩ :: List.replicate 7 {}⟩, ⟨false, true, false, 0, []⟩) ∧
      HarqRx.decodeInput (⟨0, List.replicate 44 0⟩ :: List.replicate 7 {}) (readHeader [] 0 0)
        (bytesToBits [255, 255, 255, 255, 255, 255]) = List.replicate 44 1 ∧
      merged (List.replicate 44 1) (List.replicate 44 0) = List.replicate 44 0 :=
  ⟨zeros_fail, by decide, by decide⟩

/-- For every run of the receiver: if no frame had misleading lengths, every clean frame that fits
the header is delivered. In any state it is, unless its indicator is zero and the bits stored for
its process are as many as its own and spoil them. -/
theorem clean_frames_delivered {r : HarqRx} {frames : List Bytes}
    (run : runFrom receiveStep {} frames = some r) {macPdu : Bytes} (proc ndi : UInt8)
    (hfits : 2 * (macPdu.length + 2) + 2 < 2 ^ 16) :
    ((∀ frame ∈ frames, ¬ Misleading frame) → Delivers r macPdu proc ndi) ∧
      (Delivers r macPdu proc ndi ↔ ∀ buf, r.soft[(proc &&& 0x7F).toNat]? = some buf → ndi = 0 →
        buf.bits.length = 8 * (2 * (macPdu.length + 2) + 2) →
        linkDecodeBits (merged (fecEncode (bytesToBits (crcAttach macPdu))) buf.bits) (macPdu.length + 2) =
          .ok (some macPdu)) := by
  refine ⟨fun hframes => ?_, delivers_iff hfits⟩
  have hunmatched := unmatched_run run hframes
  refine (delivers_iff hfits).mpr fun buf hslot _ hsize => ?_
  exact absurd hsize (hunmatched _ buf hslot _)

/-- After a failed attempt with an intact header. -/
theorem clean_frames_delivered_after_zeros :
    Delivers ⟨⟨0, List.replicate 44 0⟩ :: List.replicate 7 {}⟩ [] 0 0 := by
  have hrun : runFrom receiveStep {} [blockFrame [] 0 0 [0, 0, 0, 0, 0, 0]] =
      some ⟨⟨0, List.replicate 44 0⟩ :: List.replicate 7 {}⟩ := by
    simp only [runFrom, receiveStep, zeros_fail, Option.bind_some]
  refine (clean_frames_delivered hrun 0 0 (by decide)).1 ?_
  rintro frame hframe ⟨h, hread, -, -, -, hlen⟩
  obtain rfl := List.mem_singleton.mp hframe
  rw [unpack_attempt] at hread
  obtain rfl := Option.some.inj hread
  revert hlen
  decide

/-- A header announces six coded octets and a block of three: 48 bits are stored, and the next
empty MAC PDU is lost although it arrives as it was sent. -/
theorem clean_frame_lost : ∃ r, runFrom receiveStep {} [[0, 0, 6, 0, 3, 0, 0xA9, 0, 0, 0, 0, 0, 0]] = some r ∧
    answer r (linkEncode [] 0 0) = .ok ⟨false, true, false, 0, []⟩ := by
  have hfirst : HarqRx.receive {} [0, 0, 6, 0, 3, 0, 0xA9, 0, 0, 0, 0, 0, 0] =
      .ok (⟨⟨0, List.replicate 48 0⟩ :: List.replicate 7 {}⟩, ⟨false, true, false, 0, []⟩) :=
    receive_failed (h := ⟨0, 0, 0, 6, 3⟩) (by decide) (by decide) (by decide) linkDecodeBits_zeros.2
  refine ⟨⟨⟨0, List.replicate 48 0⟩ :: List.replicate 7 {}⟩, ?_, ?_⟩
  · simp only [runFrom, receiveStep, hfirst, Option.bind_some]
  · -- the stored zeros turn the combination into zeros
    have hsecond := receive_failed (r := ⟨⟨0, List.replicate 48 0⟩ :: List.replicate 7 {}⟩)
      (unpack_attempt [] 0 0 (codedBytes (crcAttach []))) (by decide) (by decide) linkDecodeBits_zeros.1
    rw [answer, show linkEncode [] 0 0 = blockFrame [] 0 0 (codedBytes (crcAttach [])) from rfl, hsecond]
    rfl

end AetherStack.Guarantees
