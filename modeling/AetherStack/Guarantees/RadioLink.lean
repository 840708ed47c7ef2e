import AetherStack.Guarantees.MacCodec
import AetherStack.Guarantees.UplinkFrames
import AetherStack.Source.BsEffects
import AetherStack.Source.HarqCodec

/-!
# One hop of the radio

A transport block with one SDU that arrives as it was sent, at either node, in closed form:
what the reception leaves behind, the answer it puts on the air, and the SDU as it is handed
to its logical channel. An answer frees the process it names and does nothing else.
-/
namespace AetherStack.Guarantees
open Source Source.Core Mac Rrc Lib

/-! ## Processes -/

/-- The processes that wait for an answer. -/
structure InFlight (t : HarqTx) (procs : List Nat) : Prop where
  whole : Whole t
  small : t.cfg.numProcesses.toNat < 0x7F
  nodup : procs.Nodup
  busy : ∀ p, (t.procs.getD p {}).busy = true ↔ p ∈ procs

namespace InFlight

theorem init {cfg : HarqTxConfig} (hsmall : cfg.numProcesses.toNat < 0x7F) : InFlight (HarqTx.init cfg) [] where
  whole := by simp [Whole, HarqTx.init]
  small := hsmall
  nodup := List.nodup_nil
  busy := by
    intro p
    rw [HarqTx.init, List.getD_eq_getElem?_getD, List.getElem?_replicate]
    split <;> simp

variable {t : HarqTx} {procs : List Nat}

theorem lt (h : InFlight t procs) {p : Nat} (hp : p ∈ procs) : p < t.cfg.numProcesses.toNat := by
  have hbusy := (h.busy p).mpr hp
  rw [← h.whole]
  by_contra hout
  rw [List.getD_eq_getElem?_getD, List.getElem?_eq_none (Nat.le_of_not_lt hout)] at hbusy
  cases hbusy

theorem advance (h : InFlight t procs) (nowMs : UInt32) : InFlight (t.advance nowMs) procs :=
  ⟨h.whole, h.small, h.nodup, h.busy⟩

/-- The processes in flight are the busy ones. -/
theorem inFlight_eq (h : InFlight t procs) : t.inFlight = procs.length := by
  have hlist : t.procs = (List.range t.procs.length).map fun p => t.procs.getD p {} := by
    apply List.ext_getElem (by simp)
    intro p hp _
    rw [List.getElem_map, List.getElem_range, List.getD_eq_getElem?_getD, List.getElem?_eq_getElem hp,
      Option.getD_some]
  have hperm : procs.Perm ((List.range t.procs.length).filter fun p => (t.procs.getD p {}).busy) := by
    refine (List.perm_ext_iff_of_nodup h.nodup (List.nodup_range.filter _)).mpr fun p => ?_
    rw [List.mem_filter, List.mem_range, h.busy]
    exact ⟨fun hp => ⟨h.whole ▸ h.lt hp, hp⟩, And.right⟩
  unfold HarqTx.inFlight
  rw [hlist, List.countP_map, List.countP_eq_length_filter, hperm.length_eq]
  rfl

/-- Writing one process adds it or takes it away. -/
theorem set {p : Nat} {pr : HarqProc} {procs' : List Nat} {t' : HarqTx} (h : InFlight t procs)
    (hcfg : t'.cfg = t.cfg) (hset : t'.procs = t.procs.set p pr) (hlt : p < t.procs.length) (hnodup : procs'.Nodup)
    (hself : pr.busy = true ↔ p ∈ procs') (hothers : ∀ q, q ≠ p → (q ∈ procs' ↔ q ∈ procs)) : InFlight t' procs' where
  whole := by
    unfold Whole
    rw [hset, hcfg, List.length_set]
    exact h.whole
  small := by
    rw [hcfg]
    exact h.small
  nodup := hnodup
  busy := by
    intro q
    by_cases heq : q = p
    · subst heq
      rw [hset, List.getD_eq_getElem?_getD, List.getElem?_set_self hlt, Option.getD_some]
      exact hself
    · rw [hset, List.getD_eq_getElem?_getD, List.getElem?_set_ne (Ne.symm heq), ← List.getD_eq_getElem?_getD, h.busy,
        hothers q heq]

/-- While a process is free the block goes out, on one that was. -/
theorem send (h : InFlight t procs) (hfree : procs.length < t.cfg.numProcesses.toNat) (pdu : Bytes) :
    ∃ p ndi t', t.send pdu = (t', some ⟨.newTx, p, ndi, linkEncode pdu (UInt8.ofNat p) ndi⟩) ∧
      t'.cfg = t.cfg ∧ InFlight t' (p :: procs) := by
  obtain ⟨event, hevent⟩ := send_accepts h.whole (by rw [h.inFlight_eq]; exact hfree) pdu
  rcases t.send_cases pdu with hrefused | ⟨p, ndi, hlt, hidle, hsent⟩
  · rw [hrefused] at hevent
    cases hevent
  · have hnew : p ∉ procs := by
      intro hmem
      rw [(h.busy p).mpr hmem] at hidle
      cases hidle
    refine ⟨p, ndi, _, hsent, rfl, ?_⟩
    refine h.set rfl rfl (h.whole ▸ hlt) (List.nodup_cons.mpr ⟨hnew, h.nodup⟩) (by simp) fun q hq => ?_
    rw [List.mem_cons]
    exact or_iff_right hq

/-- An answer frees its process. -/
theorem onAck (h : InFlight t procs) (p : Nat) : InFlight (t.onAck p) (procs.erase p) := by
  unfold HarqTx.onAck
  split
  · rename_i hout
    have hnot : p ∉ procs := fun hmem => absurd (h.lt hmem) (by rw [← h.whole]; omega)
    rwa [List.erase_of_not_mem hnot]
  · rename_i hin
    refine h.set rfl rfl (Nat.lt_of_not_le hin) (h.nodup.erase p) ?_ fun q hq => List.mem_erase_of_ne hq
    simp [List.Nodup.mem_erase_iff h.nodup]

theorem cfg_onAck (t : HarqTx) (p : Nat) : (t.onAck p).cfg = t.cfg := by
  unfold HarqTx.onAck
  split <;> rfl

theorem perm (h : InFlight t procs) {procs' : List Nat} (hperm : procs.Perm procs') : InFlight t procs' :=
  ⟨h.whole, h.small, hperm.nodup_iff.mp h.nodup, fun p => (h.busy p).trans hperm.mem_iff⟩

/-- No deadline runs where nothing waits. -/
theorem pollTimeouts (h : InFlight t []) (nowMs : UInt32) : t.pollTimeouts nowMs = (t.advance nowMs, []) := by
  have hidle : ∀ p, ((t.advance nowMs).procs.getD p {}).busy = false := by
    intro p
    have hbusy := h.busy p
    simp only [List.not_mem_nil, iff_false, Bool.not_eq_true] at hbusy
    exact hbusy
  unfold HarqTx.pollTimeouts
  generalize List.range t.procs.length = ps
  induction ps with
  | nil => rfl
  | cons p ps ih =>
    rw [HarqTx.pollLoop, hidle p, Bool.false_and]
    exact ih

end InFlight

/-! ## Frames -/

/-- [process][1] on the channel of the HARQ answers. -/
def ackPdu (proc : UInt8) : Bytes := buildPdu [(lcidHarqAck, [proc, 1])]

theorem ackPdu_eq (proc : UInt8) : ackPdu proc = [60, 2, proc, 1] := by
  have hmask : (60 : UInt8) &&& 63 = 60 := by decide
  simp [ackPdu, buildPdu, buildSdu, lcidHarqAck, hmask]

/-- An acknowledgement is no transport block. -/
theorem isHarqFramed_ackPdu (proc : UInt8) : isHarqFramed (ackPdu proc) = false := by
  rw [ackPdu_eq]
  rfl

/-- A process number in the seven bits of the header, below the one of the broadcast. -/
theorem octet_proc {proc : Nat} (hproc : proc < 0x7F) :
    (UInt8.ofNat proc).toNat = proc ∧ UInt8.ofNat proc &&& 0x7F = UInt8.ofNat proc ∧ UInt8.ofNat proc ≠ 0x7F := by
  have hnat : (UInt8.ofNat proc).toNat = proc := by
    rw [UInt8.toNat_ofNat', Nat.mod_eq_of_lt (by omega)]
  refine ⟨hnat, UInt8.toNat_inj.mp ?_, fun heq => ?_⟩
  · rw [UInt8.toNat_and, hnat, show (0x7F : UInt8).toNat = 2 ^ 7 - 1 from rfl, Nat.and_two_pow_sub_one_eq_mod]
    omega
  · rw [heq] at hnat
    exact absurd hnat.symm (Nat.ne_of_lt hproc)

/-- A transport block is one. -/
theorem isHarqFramed_linkEncode (pdu : Bytes) (proc ndi : UInt8) : isHarqFramed (linkEncode pdu proc ndi) = true := by
  simp [isHarqFramed, linkEncode, HarqHeader.pack, HarqHeader.size, putU16]

/-- A block the codecs on the way carry: its LCID is no padding and the coded block has a length. -/
structure Fits (lcid : UInt8) (sdu : Bytes) : Prop where
  lcid : lcid < 63
  size : sdu.length ≤ 32760

theorem parsePdu_single {lcid : UInt8} {sdu : Bytes} (h : Fits lcid sdu) :
    parsePdu (buildPdu [(lcid, sdu)]) = [(lcid, sdu)] := by
  have hsdus : ∀ s ∈ [(lcid, sdu)], s.1 < 63 ∧ s.2.length ≤ 65535 := by
    intro s hs
    obtain rfl := List.mem_singleton.mp hs
    exact ⟨h.lcid, h.size.trans (by decide)⟩
  have hparsed := MacCodec.parsePdu_buildPdu hsdus []
  rwa [List.append_nil] at hparsed

theorem parsePdu_ackPdu (proc : UInt8) : parsePdu (ackPdu proc) = [(lcidHarqAck, [proc, 1])] :=
  parsePdu_single ⟨by decide, by simp⟩

theorem length_buildPdu_single (lcid : UInt8) (sdu : Bytes) : (buildPdu [(lcid, sdu)]).length ≤ sdu.length + 3 := by
  rw [buildPdu, List.flatMap_singleton, buildSdu]
  dsimp only
  split <;> simp only [List.length_append, List.length_cons, List.length_nil] <;> omega

/-- A block with one SDU is delivered and leaves the soft memory empty. -/
theorem receive_single {r : HarqRx} {lcid : UInt8} {sdu : Bytes} (h : Fits lcid sdu) {proc : Nat} (hproc : proc < 0x7F)
    (ndi : UInt8) (hslot : r.SlotEmpty proc) :
    r.receive (linkEncode (buildPdu [(lcid, sdu)]) (UInt8.ofNat proc) ndi) =
      .ok (r, ⟨true, true, true, UInt8.ofNat proc, buildPdu [(lcid, sdu)]⟩) := by
  obtain ⟨hnat, hmask, -⟩ := octet_proc hproc
  have hlength := length_buildPdu_single lcid sdu
  have hsize := h.size
  have hreceived := HarqRx.receive_linkEncode r (buildPdu [(lcid, sdu)]) (UInt8.ofNat proc) ndi (by omega) (by
    rw [hmask, hnat]
    exact hslot)
  rwa [hmask] at hreceived

/-! ## At the cell -/

namespace BsHop

theorem putFlow_putFlow (n : BsNode) (rnti : Nat) (f g : Core.DlFlow) :
    (n.putFlow rnti f).putFlow rnti g = n.putFlow rnti g := by
  unfold BsNode.putFlow
  congr 1
  apply Std.ExtTreeMap.ext_getElem?
  intro r
  simp only [Std.ExtTreeMap.getElem?_insert]
  split <;> rfl

/-- The node behind the reception of a block, before its SDU is handled. -/
def heard (n : BsNode) (rnti : Nat) (snr : ℚ) (proc : Nat) : BsNode :=
  let f := (n.noteSnr rnti snr).flow rnti
  ((n.noteSnr rnti snr).putFlow rnti { f with harqTx := f.harqTx.advance n.nowMs }).sendFrame .data rnti
    (ackPdu (UInt8.ofNat proc))

/-- The node behind an answer for one of its processes. -/
def freed (n : BsNode) (rnti : Nat) (snr : ℚ) (proc : Nat) : BsNode :=
  let f := (n.noteSnr rnti snr).flow rnti
  (n.noteSnr rnti snr).putFlow rnti { f with harqTx := (f.harqTx.advance n.nowMs).onAck proc }

theorem noteSnr_kept (n : BsNode) (rnti : Nat) (snr : ℚ) :
    (n.noteSnr rnti snr).nowMs = n.nowMs ∧ (n.noteSnr rnti snr).rrc = n.rrc ∧
      ((n.noteSnr rnti snr).flow rnti).harqRx = (n.flow rnti).harqRx ∧
      ((n.noteSnr rnti snr).flow rnti).harqTx = (n.flow rnti).harqTx := by
  unfold BsNode.noteSnr
  split
  · rw [BsNode.flow_putFlow_self]
    exact ⟨rfl, rfl, rfl, rfl⟩
  · exact ⟨rfl, rfl, rfl, rfl⟩

variable {w : World} {n : BsNode} {rnti : Nat} (snr : ℚ)

theorem handleAirFrame_block (hrnti : rnti ≠ 0 ∧ rnti ≠ rntiBroadcast) (hcontext : (n.rrc.findUe rnti).isSome)
    (hslots : ∀ p, (n.flow rnti).harqRx.SlotEmpty p) {lcid : UInt8} {sdu : Bytes} (hfits : Fits lcid sdu)
    {proc : Nat} (hproc : proc < 0x7F) (ndi : UInt8) :
    n.handleAirFrame w ⟨.data, rnti, linkEncode (buildPdu [(lcid, sdu)]) (UInt8.ofNat proc) ndi⟩ snr =
      .ok (BsNode.handleSdu w rnti (heard n rnti snr proc) (lcid, sdu)) := by
  obtain ⟨hnow, hrrc, hrx, -⟩ := noteSnr_kept n rnti snr
  have hnone : ((n.noteSnr rnti snr).rrc.findUe rnti).isNone = false := by
    rw [hrrc, ← Option.not_isSome, hcontext]
    rfl
  have hslot : ((n.noteSnr rnti snr).flow rnti).harqRx.SlotEmpty proc := by
    rw [hrx]
    exact hslots proc
  have hclock : ∀ f, ((n.noteSnr rnti snr).putFlow rnti f).nowMs = n.nowMs := fun _ => hnow
  obtain ⟨-, hmask, hnot7F⟩ := octet_proc hproc
  simp only [BsNode.handleAirFrame, BsNode.handleDlData, BsNode.receiveData, isHarqFramed_linkEncode, if_true, hnone,
    Bool.false_eq_true, if_false, receive_single hfits hproc ndi hslot, parsePdu_single hfits, List.foldl_cons,
    List.foldl_nil, BsNode.sendAck, hrnti.1, hrnti.2, hnot7F, or_self, BsNode.flow_putFlow_self,
    putFlow_putFlow, Bool.true_eq_false, hmask, hclock, heard, ackPdu]

theorem handleAirFrame_ack {proc : Nat} (hproc : proc < 0x7F) :
    n.handleAirFrame w ⟨.data, rnti, ackPdu (UInt8.ofNat proc)⟩ snr = .ok (freed n rnti snr proc) := by
  obtain ⟨hnow, -, -, -⟩ := noteSnr_kept n rnti snr
  obtain ⟨hnat, hmask, -⟩ := octet_proc hproc
  have hbody : BsNode.handleSdu w rnti (n.noteSnr rnti snr) (lcidHarqAck, [UInt8.ofNat proc, 1]) =
      (n.noteSnr rnti snr).handleHarqAck rnti [UInt8.ofNat proc, 1] := rfl
  have hlong : ¬([UInt8.ofNat proc, 1] : Bytes).length < 2 := by simp
  simp only [BsNode.handleAirFrame, BsNode.handleDlData, BsNode.receiveData, isHarqFramed_ackPdu, Bool.false_eq_true,
    if_false, parsePdu_ackPdu, List.foldl_cons, List.foldl_nil, hbody]
  unfold BsNode.handleHarqAck
  rw [if_neg hlong, freed]
  simp only [List.getD_cons_zero, List.getD_cons_succ, hmask, hnat, hnow]
  rfl

end BsHop

/-! ## At the UE -/

namespace UeHop

/-- The node behind the reception of a block, before its SDU is handled. -/
def heard (u : UeNode) (proc : Nat) : UeNode :=
  { u with
    lastDlMs := u.nowMs, harqTx := u.harqTx.advance u.nowMs }.sendFrame .data u.crntiCache (ackPdu (UInt8.ofNat proc))

/-- The node behind an answer for one of its processes. -/
def freed (u : UeNode) (proc : Nat) : UeNode :=
  { u with lastDlMs := u.nowMs, harqTx := (u.harqTx.advance u.nowMs).onAck proc }

variable (digest : KeyedDigest) {u : UeNode}

theorem handleAirFrame_block (hrnti : u.crntiCache ≠ 0 ∧ u.crntiCache ≠ rntiBroadcast)
    (hslots : ∀ p, u.harqRx.SlotEmpty p) {lcid : UInt8} {sdu : Bytes} (hfits : Fits lcid sdu)
    {proc : Nat} (hproc : proc < 0x7F) (ndi : UInt8) :
    u.handleAirFrame digest ⟨.data, u.crntiCache, linkEncode (buildPdu [(lcid, sdu)]) (UInt8.ofNat proc) ndi⟩ =
      .ok (UeNode.handleSdu digest u.crntiCache (heard u proc) (lcid, sdu)) := by
  obtain ⟨-, hmask, hnot7F⟩ := octet_proc hproc
  simp only [UeNode.handleAirFrame, ne_eq, not_true_eq_false, false_and, if_false, UeNode.handleDataPdu, UeNode.receiveData,
    hrnti.2, not_false_eq_true, if_true, isHarqFramed_linkEncode, receive_single hfits hproc ndi (hslots proc),
    parsePdu_single hfits, List.foldl_cons, List.foldl_nil, UeNode.sendAck, Bool.true_eq_false, hrnti.1, hnot7F, or_self,
    hmask, heard, ackPdu]

theorem handleAirFrame_ack (hrnti : u.crntiCache ≠ rntiBroadcast) {proc : Nat} (hproc : proc < 0x7F) :
    u.handleAirFrame digest ⟨.data, u.crntiCache, ackPdu (UInt8.ofNat proc)⟩ = .ok (freed u proc) := by
  obtain ⟨hnat, hmask, -⟩ := octet_proc hproc
  have hbody : ∀ v : UeNode, UeNode.handleSdu digest u.crntiCache v (lcidHarqAck, [UInt8.ofNat proc, 1]) =
      v.handleHarqAck [UInt8.ofNat proc, 1] := by
    intro v
    simp [UeNode.handleSdu, UeNode.handleDedicatedSdu, lcidHarqAck, lcidMib, lcidSib1, lcidPaging, lcidCcch, lcidNasDcch,
      hrnti]
  simp only [UeNode.handleAirFrame, ne_eq, not_true_eq_false, false_and, if_false, UeNode.handleDataPdu, UeNode.receiveData,
    hrnti, not_false_eq_true, if_true, isHarqFramed_ackPdu, Bool.false_eq_true, parsePdu_ackPdu, List.foldl_cons,
    List.foldl_nil, hbody, UeNode.handleHarqAck, hmask, hnat, freed]
  rw [if_pos (by decide)]

end UeHop

/-! ## The link -/

/-- A UE and its cell, and how many of the frames each has put on the air the other has got. -/
structure AirLink where
  ue : UeNode
  cell : BsNode
  up : Nat := 0
  down : Nat := 0

namespace AirLink

/-- What the UE has put on the air reaches the cell, each frame once and in order; `snr` is what
the cell measures. -/
def carryUp (w : World) (snr : BsNode → AirFrame → ℚ) (l : AirLink) : Except Fec.DecodeError AirLink :=
  ((l.ue.air.drop l.up).foldlM (fun (n : BsNode) f => n.handleAirFrame w f (snr n f)) l.cell).map fun n =>
    { l with cell := n, up := l.ue.air.length }

def carryDown (w : World) (l : AirLink) : Except Fec.DecodeError AirLink :=
  ((l.cell.air.drop l.down).foldlM (fun (u : UeNode) f => u.handleAirFrame w.digest f) l.ue).map fun u =>
    { l with ue := u, down := l.cell.air.length }

end AirLink

end AetherStack.Guarantees
