import AetherStack.Guarantees.RadioTransparency

/-!
# The frames of an attach

What a cell without a core network and a UE do with each frame of an attach, from the broadcast
to the last NAS message. The cell has the one flow, nothing is measured, and every block arrives
as it was sent; a step says what its frame leaves behind and what goes on the air.
-/
namespace AetherStack.Guarantees
open Source Source.Core Mac Rrc Lib

namespace StackAttach

/-! ## The UE until it has a connection -/

/-- No cell heard, nothing begun; the USIM may have been used before. -/
structure SwitchedOn (u : UeNode) : Prop where
  rach : u.rach.state = .idle
  rrc : u.rrc.state = .idle
  informed : u.mibOk = false ∧ u.sib1Ok = false
  cells : u.cells = []
  reestablish : u.reestablishPending = false
  crnti : u.crntiCache = 0
  security : u.upSecOn = false
  idle : InFlight u.harqTx [] ∧ u.harqTx.cfg = {}
  slots : ∀ p, u.harqRx.SlotEmpty p

/-- The preamble of this cell is sent, the SETUP_REQUEST waits for MSG3. -/
structure Asking (u : UeNode) (cellId : Nat) (imsi : Bytes) (nas : Nas.NasUe) (air : List AirFrame) : Prop where
  imsi : u.config.imsi = imsi
  rach : u.rach.state = .waitRar
  preamble : ∃ base, u.rach.preambleIndex = preambleForCell base cellId
  request : u.pendingCcch = RrcMessage.encode { msgType := .setupRequest, value := putU16 cellId }
  rrc : u.rrc.state = .connecting
  nas : u.nas = nas
  requested : u.attachRequested = true
  security : u.upSecOn = false
  idle : InFlight u.harqTx [] ∧ u.harqTx.cfg = {}
  slots : ∀ p, u.harqRx.SlotEmpty p
  air : u.air = air ++ [⟨.msg1Prach, 0, [1, u.rach.preambleIndex]⟩]

/-- A SIB1 names its cell behind the PLMN, which is a string without a zero. -/
theorem sib1CellId_sib1Pdu {r : RrcBs} (hplmn : (0 : UInt8) ∉ r.plmnId) (hcell : r.cellId < snModulus) :
    UeNode.sib1CellId r.sib1Pdu = r.cellId := by
  have htake : ((11 :: (r.plmnId ++ 0 :: (putU16 r.tac ++ putU16 r.cellId))).drop 1).takeWhile (· ≠ 0) = r.plmnId := by
    rw [List.drop_succ_cons, List.drop_zero, List.takeWhile_append_of_pos, List.takeWhile_cons_of_neg, List.append_nil]
    · simp
    · intro a ha
      have hne : a ≠ 0 := fun heq => hplmn (heq ▸ ha)
      simpa using hne
  have hlength : (11 :: (r.plmnId ++ 0 :: (putU16 r.tac ++ putU16 r.cellId)) : Bytes).length = r.plmnId.length + 6 := by
    simp
  have hzero : 1 + r.plmnId.length < r.plmnId.length + 6 := by omega
  unfold UeNode.sib1CellId
  rw [RrcBs.sib1Pdu, htake, hlength]
  dsimp only
  rw [if_pos hzero, if_pos (by omega)]
  have hread := getU16_putU16 (11 :: (r.plmnId ++ 0 :: putU16 r.tac)) [] r.cellId
  rw [List.append_nil, Nat.mod_eq_of_lt hcell] at hread
  have hpos : (11 :: (r.plmnId ++ 0 :: putU16 r.tac) : Bytes).length = 1 + r.plmnId.length + 1 + 2 := by
    simp
    omega
  rw [hpos] at hread
  simpa using hread

/-- What the start of a random access writes and sends. -/
theorem startRach_eq {u : UeNode} (h : u.rach.state = .idle) : u.startRach = { u with
    rach := { u.rach with state := .waitRar, preambleTxCount := 1, assignedRaRnti := 0, assignedCrnti := 0 }
    crntiCache := 0
    timers := .rachWindow :: u.timers.erase .rachWindow
    air := u.air ++ [⟨.msg1Prach, 0, [1, u.rach.preambleIndex]⟩] } := by
  rw [UeNode.startRach, RachUe.startRach, if_neg (not_not.mpr h)]
  rfl

/-- Without a C-RNTI an RRC message waits for MSG3. -/
theorem rrcSend_waits (digest : KeyedDigest) {u : UeNode} (h : u.crntiCache = 0) (pdu : Bytes) :
    u.rrcSend digest pdu = { u with pendingCcch := pdu } := if_neg (not_not.mpr h)

/-- A request for this cell, with the preamble in the cell's half. -/
theorem maybeStartAttach_asks (digest : KeyedDigest) {u : UeNode} {cellId : Nat} (hcell : cellId ≠ 0)
    (hrequested : u.attachRequested = true) (hinformed : u.hasSystemInfo = true) (hrach : u.rach.state = .idle)
    (hrrc : u.rrc.state = .idle) (hreest : u.reestablishPending = false) (hcrnti : u.crntiCache = 0)
    (hserving : u.selectServingCell.servingCell = cellId) (hsecurity : u.upSecOn = false)
    (hidle : InFlight u.harqTx [] ∧ u.harqTx.cfg = {}) (hslots : ∀ p, u.harqRx.SlotEmpty p) :
    Asking (u.maybeStartAttach digest) cellId u.config.imsi u.nas u.air := by
  have hselected : u.selectServingCell = { u with servingCell := cellId } := by
    rw [← hserving]
    rfl
  have hready : ¬(!u.attachRequested || !u.hasSystemInfo || u.rach.state ≠ .idle || u.rrc.state ≠ .idle) = true := by
    simp [hrequested, hinformed, hrach, hrrc]
  have hconnection : ∀ v : UeNode, v.rrc = u.rrc → v.servingCell = cellId → v.rrc.startConnection v.servingCell =
      ({ u.rrc with state := .connecting }, [RrcMessage.encode { msgType := .setupRequest, value := putU16 cellId }]) := by
    intro v hv hcellv
    rw [hv, hcellv, RrcUe.startConnection, if_neg (not_not.mpr hrrc), if_pos hcell]
  have hstart : ∃ v : UeNode, u.maybeStartAttach digest = v.startRach ∧ v.rach.state = .idle ∧
      v.rach.preambleIndex = preambleForCell u.config.preambleIndex cellId ∧
      v.pendingCcch = RrcMessage.encode { msgType := .setupRequest, value := putU16 cellId } ∧
      v.rrc.state = .connecting ∧ v.nas = u.nas ∧ v.attachRequested = true ∧ v.upSecOn = false ∧
      v.harqTx = u.harqTx ∧ v.harqRx = u.harqRx ∧ v.air = u.air ∧ v.config = u.config := by
    rw [UeNode.maybeStartAttach, if_neg hready, if_neg (by rw [hreest]; exact Bool.false_ne_true), hselected]
    generalize htarget : UeNode.targetServingCell { u with servingCell := cellId } = v
    have hv : v = { u with
        servingCell := cellId
        rach := { u.rach with preambleIndex := preambleForCell u.config.preambleIndex cellId } } := htarget.symm
    have hrequest := hconnection v (by rw [hv]) (by rw [hv])
    have hwaits : v.crntiCache = 0 := by rw [hv]; exact hcrnti
    simp only [hrequest, List.foldl_cons, List.foldl_nil, rrcSend_waits digest, hwaits]
    rw [hv]
    cases hguard : u.attachGuardRunning with
    | true => exact ⟨_, rfl, hrach, rfl, rfl, rfl, rfl, hrequested, hsecurity, rfl, rfl, rfl, rfl⟩
    | false => exact ⟨_, rfl, hrach, rfl, rfl, rfl, rfl, hrequested, hsecurity, rfl, rfl, rfl, rfl⟩
  obtain ⟨v, hstart, hrach, hpreamble, hrequest, hrrc, hnas, hasked, hclear, htx, hrx, hair, hconfig⟩ := hstart
  rw [hstart, startRach_eq hrach, ← hair, ← hnas, ← hconfig]
  rw [← htx] at hidle
  rw [← hrx] at hslots
  exact ⟨rfl, rfl, ⟨_, hpreamble⟩, hrequest, hrrc, rfl, hasked, hclear, hidle, hslots, rfl⟩

/-- What `broadcast_sib` sends while nobody is paged. -/
def sibFrame (r : RrcBs) : AirFrame :=
  ⟨.data, rntiBroadcast, linkEncode (buildPdu [(lcidMib, RrcBs.mibPdu), (lcidSib1, r.sib1Pdu)]) 0x7F 1⟩

/-- The identity a cell broadcasts: one of the two with preambles of its own, and a PLMN. -/
structure Named (r : RrcBs) : Prop where
  cell : r.cellId = 1 ∨ r.cellId = 2
  plmn : (0 : UInt8) ∉ r.plmnId ∧ r.plmnId ≠ [] ∧ r.plmnId.length ≤ 100

/-- The UE reads the two blocks of a broadcast as the cell wrote them. -/
theorem parsePdu_sib {r : RrcBs} (h : Named r) :
    parsePdu (buildPdu [(lcidMib, RrcBs.mibPdu), (lcidSib1, r.sib1Pdu)]) =
      [(lcidMib, RrcBs.mibPdu), (lcidSib1, r.sib1Pdu)] := by
  have hlength : r.sib1Pdu.length = r.plmnId.length + 6 := by
    simp [RrcBs.sib1Pdu]
  have hplmn := h.plmn.2.2
  have hsdus : ∀ s ∈ [(lcidMib, RrcBs.mibPdu), (lcidSib1, r.sib1Pdu)], s.1 < 63 ∧ s.2.length ≤ 65535 := by
    intro s hs
    rcases List.mem_cons.mp hs with rfl | hs
    · exact ⟨by decide, by decide⟩
    · obtain rfl := List.mem_singleton.mp hs
      refine ⟨show lcidSib1 < 63 by decide, ?_⟩
      dsimp only
      omega
  have hparsed := MacCodec.parsePdu_buildPdu hsdus []
  rwa [List.append_nil] at hparsed

/-- The broadcast is decoded and not answered. -/
theorem handleAirFrame_sib (digest : KeyedDigest) {u : UeNode} {r : RrcBs} (h : Named r) (hslots : ∀ p, u.harqRx.SlotEmpty p) :
    u.handleAirFrame digest (sibFrame r) =
      .ok (((u.handleSysinfoSdu digest lcidMib RrcBs.mibPdu true).handleSysinfoSdu digest lcidSib1 r.sib1Pdu true)) := by
  have hsize : (buildPdu [(lcidMib, RrcBs.mibPdu), (lcidSib1, r.sib1Pdu)]).length ≤ 150 := by
    have hmib := length_buildPdu_single lcidMib RrcBs.mibPdu
    have hsib := length_buildPdu_single lcidSib1 r.sib1Pdu
    have hlength : r.sib1Pdu.length = r.plmnId.length + 6 := by simp [RrcBs.sib1Pdu]
    have hplmn := h.plmn.2.2
    have hfive : RrcBs.mibPdu.length = 5 := rfl
    have hboth : buildPdu [(lcidMib, RrcBs.mibPdu), (lcidSib1, r.sib1Pdu)] =
        buildPdu [(lcidMib, RrcBs.mibPdu)] ++ buildPdu [(lcidSib1, r.sib1Pdu)] := by
      simp [buildPdu]
    rw [hboth, List.length_append]
    omega
  have hreceived := HarqRx.receive_linkEncode u.harqRx
    (buildPdu [(lcidMib, RrcBs.mibPdu), (lcidSib1, r.sib1Pdu)]) 0x7F 1 (by omega) (hslots _)
  have hmib : ∀ v : UeNode, UeNode.handleSdu digest rntiBroadcast v (lcidMib, RrcBs.mibPdu) =
      v.handleSysinfoSdu digest lcidMib RrcBs.mibPdu true := fun _ => rfl
  have hsib : ∀ v : UeNode, UeNode.handleSdu digest rntiBroadcast v (lcidSib1, r.sib1Pdu) =
      v.handleSysinfoSdu digest lcidSib1 r.sib1Pdu true := fun _ => rfl
  have hsilent : ∀ v : UeNode, v.sendAck rntiBroadcast
      ⟨true, true, true, 0x7F &&& 0x7F, buildPdu [(lcidMib, RrcBs.mibPdu), (lcidSib1, r.sib1Pdu)]⟩ = v :=
    fun v => if_pos (.inr (.inr (.inl rfl)))
  simp only [sibFrame, UeNode.handleAirFrame, ne_eq, not_true_eq_false, and_false, if_false, UeNode.handleDataPdu,
    UeNode.receiveData, isHarqFramed_linkEncode, if_true, hreceived, hsilent, parsePdu_sib h, List.foldl_cons,
    List.foldl_nil, hmib, hsib]

/-- Nothing begins before MIB and SIB1 are known. -/
theorem maybeStartAttach_uninformed (digest : KeyedDigest) {u : UeNode} (h : u.hasSystemInfo = false) :
    u.maybeStartAttach digest = u := by
  rw [UeNode.maybeStartAttach, if_pos]
  simp [h]

/-- The broadcast starts the attach that was asked for. -/
theorem attach_asks (digest : KeyedDigest) {u : UeNode} {r : RrcBs} (h : SwitchedOn u) (hnamed : Named r) :
    ∃ u', (u.attach digest).handleAirFrame digest (sibFrame r) = .ok u' ∧ Asking u' r.cellId u.config.imsi u.nas u.air := by
  have hcell : r.cellId ≠ 0 ∧ r.cellId < snModulus := by
    rcases hnamed.cell with hcell | hcell <;> rw [hcell] <;> decide
  have hlong : r.sib1Pdu.length ≥ 7 := by
    have hplmn := List.length_pos_iff.mpr hnamed.plmn.2.1
    simp only [RrcBs.sib1Pdu, List.length_cons, List.length_append, length_putU16]
    omega
  have hattach : u.attach digest = { u with attachRequested := true } :=
    maybeStartAttach_uninformed digest (by simp [UeNode.hasSystemInfo, h.informed])
  have hmib : UeNode.handleSysinfoSdu digest { u with attachRequested := true } lcidMib RrcBs.mibPdu true =
      { u with attachRequested := true, mibOk := true } := by
    rw [UeNode.handleSysinfoSdu, if_pos ⟨rfl, by decide⟩]
    exact maybeStartAttach_uninformed digest (by simp [UeNode.hasSystemInfo, h.informed])
  have hsib : UeNode.handleSysinfoSdu digest { u with attachRequested := true, mibOk := true } lcidSib1 r.sib1Pdu true =
      UeNode.maybeStartAttach digest
        (UeNode.hearCell { u with attachRequested := true, mibOk := true, sib1Ok := true } r.cellId) := by
    rw [UeNode.handleSysinfoSdu, if_neg (fun hboth => absurd hboth.1 (by decide)), if_pos ⟨rfl, hlong⟩,
      sib1CellId_sib1Pdu hnamed.plmn.1 hcell.2]
  have hframe := handleAirFrame_sib digest (u := { u with attachRequested := true }) hnamed h.slots
  rw [hmib, hsib, ← hattach] at hframe
  refine ⟨_, hframe, maybeStartAttach_asks digest hcell.1 rfl rfl h.rach h.rrc h.reestablish h.crnti ?_ h.security h.idle
    h.slots⟩
  simp only [UeNode.selectServingCell, UeNode.hearCell, h.cells, List.any_nil, Bool.false_eq_true, if_false,
    List.nil_append, List.map_cons, List.map_nil, if_true, List.foldl_cons, List.foldl_nil]
  simp [hcell.1]

/-- Nothing begins a second time. -/
theorem maybeStartAttach_underway (digest : KeyedDigest) {u : UeNode} (h : u.rrc.state ≠ .idle) :
    u.maybeStartAttach digest = u := by
  rw [UeNode.maybeStartAttach, if_pos]
  simp [h]

/-- Behind the first one a broadcast only adds to what the UE knows of its cells. -/
theorem handleAirFrame_sib_again (digest : KeyedDigest) {u : UeNode} {r : RrcBs} (h : Named r)
    (hslots : ∀ p, u.harqRx.SlotEmpty p) (hrrc : u.rrc.state ≠ .idle) :
    ∃ v, u.handleAirFrame digest (sibFrame r) = .ok v ∧ v = { u with
      mibOk := v.mibOk, sib1Ok := v.sib1Ok, cells := v.cells, servingCell := v.servingCell } := by
  have hlong : r.sib1Pdu.length ≥ 7 := by
    have hplmn := List.length_pos_iff.mpr h.plmn.2.1
    simp only [RrcBs.sib1Pdu, List.length_cons, List.length_append, length_putU16]
    omega
  have hmib : u.handleSysinfoSdu digest lcidMib RrcBs.mibPdu true = { u with mibOk := true } := by
    rw [UeNode.handleSysinfoSdu, if_pos ⟨rfl, by decide⟩]
    exact maybeStartAttach_underway digest hrrc
  have hsib : UeNode.handleSysinfoSdu digest { u with mibOk := true } lcidSib1 r.sib1Pdu true =
      UeNode.hearCell { u with mibOk := true, sib1Ok := true } (UeNode.sib1CellId r.sib1Pdu) := by
    rw [UeNode.handleSysinfoSdu, if_neg (fun hboth => absurd hboth.1 (by decide)), if_pos ⟨rfl, hlong⟩]
    exact maybeStartAttach_underway digest hrrc
  have hframe := handleAirFrame_sib digest h hslots
  rw [hmib, hsib] at hframe
  exact ⟨_, hframe, rfl⟩

/-- Further broadcasts leave a UE that has begun where it is. -/
theorem hear_sibs (digest : KeyedDigest) {u : UeNode} {r : RrcBs} (h : Named r) (hslots : ∀ p, u.harqRx.SlotEmpty p)
    (hrrc : u.rrc.state ≠ .idle) (k : Nat) :
    ∃ v, (List.replicate k (sibFrame r)).foldlM (fun (u : UeNode) f => u.handleAirFrame digest f) u = .ok v ∧ v = { u with
      mibOk := v.mibOk, sib1Ok := v.sib1Ok, cells := v.cells, servingCell := v.servingCell } := by
  induction k generalizing u with
  | zero => exact ⟨u, rfl, rfl⟩
  | succ k ih =>
    obtain ⟨v, hfirst, hkept⟩ := handleAirFrame_sib_again digest h hslots hrrc
    obtain ⟨z, hrest, hlast⟩ := ih (u := v) (by rw [hkept]; exact hslots) (by rw [hkept]; exact hrrc)
    refine ⟨z, ?_, ?_⟩
    · rw [List.replicate_succ, List.foldlM_cons, hfirst]
      exact hrest
    · rw [hlast, hkept]

/-- The preamble was answered and MSG3 is out. -/
structure Contending (u : UeNode) (raRnti : Nat) (imsi : Bytes) (nas : Nas.NasUe) : Prop where
  imsi : u.config.imsi = imsi
  rach : u.rach.state = .waitContentionResolve
  raRnti : u.rach.assignedRaRnti = raRnti
  rrc : u.rrc.state = .connecting
  nas : u.nas = nas
  requested : u.attachRequested = true
  security : u.upSecOn = false
  idle : InFlight u.harqTx [] ∧ u.harqTx.cfg = {}
  slots : ∀ p, u.harqRx.SlotEmpty p

theorem Contending.hears (digest : KeyedDigest) {u : UeNode} {raRnti : Nat} {imsi : Bytes} {nas : Nas.NasUe} {r : RrcBs}
    (h : Contending u raRnti imsi nas) (hnamed : Named r) (k : Nat) :
    ∃ v, (List.replicate k (sibFrame r)).foldlM (fun (u : UeNode) f => u.handleAirFrame digest f) u = .ok v ∧
      Contending v raRnti imsi nas ∧ v.air = u.air := by
  obtain ⟨v, hheard, hkept⟩ := hear_sibs digest hnamed h.slots (by simp [h.rrc]) k
  refine ⟨v, hheard, ?_, by rw [hkept]⟩
  rw [hkept]
  exact ⟨h.imsi, h.rach, h.raRnti, h.rrc, h.nas, h.requested, h.security, h.idle, h.slots⟩

def msg3Frame (raRnti cellId : Nat) : AirFrame :=
  ⟨.msg3Ccch, 0, 3 :: (putU16 raRnti ++ RrcMessage.encode { msgType := .setupRequest, value := putU16 cellId })⟩

/-- The preambles of the two cells are apart. -/
theorem cellForPreamble_preambleForCell (base : UInt8) {cellId : Nat} (h : cellId = 1 ∨ cellId = 2) :
    cellForPreamble (preambleForCell base cellId) = cellId := by
  have hlow : (base &&& 0x1F).toNat ≤ 31 := by
    rw [UInt8.toNat_and]
    exact Nat.and_le_right
  rcases h with rfl | rfl
  · have hfirst : preambleForCell base 1 = base &&& 0x1F := by simp [preambleForCell]
    rw [cellForPreamble, hfirst]
    omega
  · have hsecond : (preambleForCell base 2).toNat = 32 + (base &&& 0x1F).toNat := by
      rw [preambleForCell, if_pos (Nat.le_refl 2), UInt8.toNat_add]
      exact Nat.mod_eq_of_lt (Nat.lt_of_le_of_lt (Nat.add_le_add_left hlow 32) (by decide))
    rw [cellForPreamble, hsecond]
    omega

theorem raRntiForPreamble_lt (p : UInt8) : raRntiForPreamble p < snModulus := by
  have hp : p.toNat < 2 ^ 16 := lt_of_lt_of_le p.toNat_lt (by decide)
  have hbase : 0x4300 < 2 ^ 16 := by decide
  exact Nat.or_lt_two_pow hbase hp

/-- The answer to its preamble brings the UE to MSG3. -/
theorem handleAirFrame_msg2 (digest : KeyedDigest) {u : UeNode} {cellId : Nat} {imsi : Bytes} {nas : Nas.NasUe}
    {air : List AirFrame} (h : Asking u cellId imsi nas air) :
    ∃ u', u.handleAirFrame digest ⟨.msg2Rar, 0, RachBs.msg2Pdu (raRntiForPreamble u.rach.preambleIndex)⟩ = .ok u' ∧
      Contending u' (raRntiForPreamble u.rach.preambleIndex) imsi nas ∧
      u'.air = u.air ++ [msg3Frame (raRntiForPreamble u.rach.preambleIndex) cellId] := by
  have hread : getU16 (RachBs.msg2Pdu (raRntiForPreamble u.rach.preambleIndex)) 1 =
      raRntiForPreamble u.rach.preambleIndex := by
    have := getU16_putU16 [2] [12, 5] (raRntiForPreamble u.rach.preambleIndex)
    rwa [Nat.mod_eq_of_lt (raRntiForPreamble_lt _)] at this
  have hframe : u.handleAirFrame digest ⟨.msg2Rar, 0, RachBs.msg2Pdu (raRntiForPreamble u.rach.preambleIndex)⟩ =
      .ok (u.runRach (u.rach.onRarReceived (raRntiForPreamble u.rach.preambleIndex) u.pendingCcch)) := by
    rw [UeNode.handleAirFrame]
    dsimp only
    rw [if_pos ⟨h.rach, Nat.le_refl 5⟩, hread]
  refine ⟨_, hframe, ?_⟩
  rw [RachUe.onRarReceived, if_neg (by simp [h.rach]), h.request]
  exact ⟨⟨h.imsi, rfl, rfl, h.rrc, h.nas, h.requested, h.security, h.idle, h.slots⟩, rfl⟩

/-- The C-RNTI is there, the connection is not. -/
structure Admitted (u : UeNode) (c : Nat) (imsi : Bytes) (nas : Nas.NasUe) : Prop where
  imsi : u.config.imsi = imsi
  crnti : u.crntiCache = c
  rrc : u.rrc.state = .connecting
  nas : u.nas = nas
  requested : u.attachRequested = true
  security : u.upSecOn = false
  idle : InFlight u.harqTx [] ∧ u.harqTx.cfg = {}
  slots : ∀ p, u.harqRx.SlotEmpty p

theorem Admitted.hears (digest : KeyedDigest) {u : UeNode} {c : Nat} {imsi : Bytes} {nas : Nas.NasUe} {r : RrcBs}
    (h : Admitted u c imsi nas) (hnamed : Named r) (k : Nat) :
    ∃ v, (List.replicate k (sibFrame r)).foldlM (fun (u : UeNode) f => u.handleAirFrame digest f) u = .ok v ∧
      Admitted v c imsi nas ∧ v.air = u.air := by
  obtain ⟨v, hheard, hkept⟩ := hear_sibs digest hnamed h.slots (by simp [h.rrc]) k
  refine ⟨v, hheard, ?_, by rw [hkept]⟩
  rw [hkept]
  exact ⟨h.imsi, h.crnti, h.rrc, h.nas, h.requested, h.security, h.idle, h.slots⟩

/-- MSG4 gives the UE its C-RNTI. -/
theorem handleAirFrame_msg4 (digest : KeyedDigest) {u : UeNode} {raRnti c : Nat} {imsi : Bytes} {nas : Nas.NasUe}
    (h : Contending u raRnti imsi nas) (hra : raRnti < snModulus) (hc : c < snModulus) :
    ∃ u', u.handleAirFrame digest ⟨.msg4Cr, 0, RachBs.msg4Pdu c raRnti⟩ = .ok u' ∧ Admitted u' c imsi nas ∧ u'.air = u.air := by
  have hcrnti : getU16 (RachBs.msg4Pdu c raRnti) 1 = c := by
    have := getU16_putU16 [4] (putU16 raRnti) c
    rwa [Nat.mod_eq_of_lt hc] at this
  have hread : getU16 (RachBs.msg4Pdu c raRnti) 3 = raRnti := by
    have := getU16_putU16 (4 :: putU16 c) [] raRnti
    rw [List.append_nil, Nat.mod_eq_of_lt hra] at this
    exact this
  have hresolved : u.rach.onContentionResolve c raRnti =
      ({ u.rach with state := .connected, assignedCrnti := c }, [.state .connected]) := by
    rw [RachUe.onContentionResolve, if_neg (by simp [h.rach, h.raRnti])]
  have hframe : u.handleAirFrame digest ⟨.msg4Cr, 0, RachBs.msg4Pdu c raRnti⟩ =
      .ok (u.handleContentionResolve (RachBs.msg4Pdu c raRnti)) := by
    rw [UeNode.handleAirFrame]
    dsimp only
    rw [if_pos ⟨h.rach, Nat.le_refl 5⟩]
  refine ⟨_, hframe, ?_⟩
  rw [UeNode.handleContentionResolve, hcrnti, hread, hresolved]
  exact ⟨⟨h.imsi, rfl, h.rrc, h.nas, h.requested, h.security, h.idle, h.slots⟩, rfl⟩

/-! ## The cell and its one flow -/

/-- Without a key nothing is said of the one that is held. -/
theorem unarmed {on : Bool} {held : Key256} (h : on = false) :
    on = (none : Option Key256).isSome ∧ ∀ k, none = some k → held = k :=
  ⟨h, fun k hk => absurd hk (by simp)⟩

/-- A flow that carried control only: fresh bearers, no measurement. -/
structure Attended (key : Option Key256) (ctrl : List AppPdu) (procs : List Nat) (f : Core.DlFlow) : Prop where
  security : f.secOn = key.isSome ∧ ∀ k, key = some k → f.upKey = k
  bearers : f.bearers = { BearerSet.make with ctrl := ctrl }
  busy : InFlight f.harqTx procs ∧ f.harqTx.cfg = {}
  slots : ∀ p, f.harqRx.SlotEmpty p
  active : f.suspended = false
  unmeasured : f.ulSnrEwma = -100

theorem attended_new : Attended none [] [] {} where
  security := unarmed rfl
  bearers := rfl
  busy := ⟨.init (by decide), rfl⟩
  slots := HarqRx.slotEmpty_initial
  active := rfl
  unmeasured := rfl

/-- A cell with this one flow and no core network, that pages nobody. -/
structure Serving (c : Nat) (key : Option Key256) (ctrl : List AppPdu) (procs : List Nat) (n : BsNode) : Prop where
  config : n.config.amf = false ∧ n.config.inactiveMs = 0
  named : Named n.rrc
  unpaged : n.pagingTarget = []
  erase : n.pendingFlowErase = []
  context : (n.rrc.findUe c).isSome
  sole : ∀ r, n.flows[r]? = if c = r then some (n.flow c) else none
  flow : Attended key ctrl procs (n.flow c)

section Cell

variable {w : World} {n : BsNode} {c : Nat} {key : Option Key256} {ctrl : List AppPdu} {procs : List Nat}

/-- Only the flow of the one UE is written. -/
theorem Serving.putFlow {key' : Option Key256} {ctrl' : List AppPdu} {procs' : List Nat} (h : Serving c key ctrl procs n)
    {f : Core.DlFlow} (hf : Attended key' ctrl' procs' f) : Serving c key' ctrl' procs' (n.putFlow c f) where
  config := h.config
  named := h.named
  unpaged := h.unpaged
  erase := h.erase
  context := h.context
  sole := by
    intro r
    rw [BsNode.flow_putFlow_self, BsNode.putFlow]
    dsimp only
    rw [TmsiMap.getElem?_insert_eq, h.sole]
    split <;> rfl
  flow := by
    rw [BsNode.flow_putFlow_self]
    exact hf

/-- Frames, clock and registrar are not looked at. -/
theorem Serving.of_eq {n' : BsNode} (h : Serving c key ctrl procs n) (hconfig : n'.config = n.config) (hnamed : Named n'.rrc)
    (hunpaged : n'.pagingTarget = n.pagingTarget) (herase : n'.pendingFlowErase = n.pendingFlowErase)
    (hrrc : (n'.rrc.findUe c).isSome) (hflows : n'.flows = n.flows) : Serving c key ctrl procs n' := by
  have hflow : n'.flow c = n.flow c := by rw [BsNode.flow, BsNode.flow, hflows]
  refine ⟨hconfig ▸ h.config, hnamed, hunpaged.trans h.unpaged, herase ▸ h.erase, hrrc, fun r => ?_, hflow ▸ h.flow⟩
  rw [hflows, hflow]
  exact h.sole r

/-- A burst without a measurement leaves the power control alone. -/
theorem noteSnr_unmeasured (n : BsNode) (rnti : Nat) : n.noteSnr rnti (-100) = n := if_neg (by norm_num)

/-- An answer of the UE. -/
theorem cell_ack {q : Nat} (h : Serving c key ctrl [q] n) (hq : q < 0x7F) :
    ∃ n', n.handleAirFrame w ⟨.data, c, ackPdu (UInt8.ofNat q)⟩ (-100) = .ok n' ∧ Serving c key ctrl [] n' ∧
      n'.nas = n.nas ∧ n'.rrc = n.rrc ∧ n'.tmsiToCrnti = n.tmsiToCrnti ∧ n'.air = n.air := by
  refine ⟨_, BsHop.handleAirFrame_ack (-100) hq, ?_⟩
  rw [BsHop.freed, noteSnr_unmeasured]
  have hfreed := (h.flow.busy.1.advance n.nowMs).onAck q
  rw [List.erase_cons_head] at hfreed
  refine ⟨h.putFlow ⟨h.flow.security, h.flow.bearers, ⟨hfreed, ?_⟩, h.flow.slots, h.flow.active, h.flow.unmeasured⟩, rfl,
    rfl, rfl, rfl⟩
  exact (InFlight.cfg_onAck _ _).trans h.flow.busy.2

/-- The node behind the reception of a block is the same for all that matters here. -/
theorem Serving.heard (h : Serving c key ctrl procs n) (proc : Nat) :
    Serving c key ctrl procs (BsHop.heard n c (-100) proc) := by
  rw [BsHop.heard, noteSnr_unmeasured]
  have hput := h.putFlow (f := { n.flow c with harqTx := (n.flow c).harqTx.advance n.nowMs })
    ⟨h.flow.security, h.flow.bearers, ⟨h.flow.busy.1.advance _, h.flow.busy.2⟩, h.flow.slots, h.flow.active,
      h.flow.unmeasured⟩
  exact hput.of_eq rfl hput.named rfl rfl hput.context rfl

theorem heard_kept (n : BsNode) (c proc : Nat) :
    (BsHop.heard n c (-100) proc).nas = n.nas ∧ (BsHop.heard n c (-100) proc).rrc = n.rrc ∧
      (BsHop.heard n c (-100) proc).tmsiToCrnti = n.tmsiToCrnti ∧
      (BsHop.heard n c (-100) proc).air = n.air ++ [⟨.data, c, ackPdu (UInt8.ofNat proc)⟩] := by
  rw [BsHop.heard, noteSnr_unmeasured]
  exact ⟨rfl, rfl, rfl, rfl⟩

/-- A PDU of a control channel joins the queue, in the clear. -/
theorem Serving.downlinkSend (h : Serving c none [] procs n) (lcid : UInt8) (hcontrol : qciOfLcid lcid = none)
    (sdu : Bytes) : Serving c none [{ lcid := lcid, bytes := sdu }] procs (n.downlinkSend c lcid sdu) := by
  have hsec : (n.flow c).secOn = false := h.flow.security.1
  have hqueued : Source.DlFlow.queuePdu n.config.maxDlQueuePerUe (n.flow c).secOn (n.flow c).bearers lcid sdu =
      { BearerSet.make with ctrl := [{ lcid := lcid, bytes := sdu }] } := by
    rw [Source.DlFlow.queuePdu, hsec, Bool.false_and, hcontrol, h.flow.bearers]
    dsimp only
    rw [BearerSet.pushBounded, List.tail_nil, ite_self, List.nil_append]
  rw [BsNode.downlinkSend, hqueued]
  exact h.putFlow ⟨h.flow.security, rfl, h.flow.busy, h.flow.slots, h.flow.active, h.flow.unmeasured⟩


/-- SETUP_COMPLETE connects the context. -/
theorem cell_setupComplete (h : Serving c key ctrl procs n) (hc : c ≠ 0 ∧ c < rntiBroadcast) {proc : Nat} (hproc : proc < 0x7F)
    (ndi : UInt8) (crnti : Nat) :
    ∃ n', n.handleAirFrame w ⟨.data, c, linkEncode (buildPdu [(lcidCcch,
          RrcMessage.encode { msgType := .setupComplete, value := putU16 crnti })]) (UInt8.ofNat proc) ndi⟩ (-100) = .ok n' ∧
      Serving c key ctrl procs n' ∧ n'.nas = n.nas ∧ n'.rrc.isUeConnected c ∧ n'.tmsiToCrnti = n.tmsiToCrnti ∧
      n'.air = n.air ++ [⟨.data, c, ackPdu (UInt8.ofNat proc)⟩] := by
  have hframe := BsHop.handleAirFrame_block (w := w) (-100) ⟨hc.1, hc.2.ne⟩ h.context h.flow.slots
    (show Fits lcidCcch (RrcMessage.encode { msgType := .setupComplete, value := putU16 crnti }) from
      ⟨by decide, by simp [RrcMessage.encode]⟩) hproc ndi
  obtain ⟨hnas, hrrc, hmap, hair⟩ := heard_kept n c proc
  have hheard := h.heard proc
  generalize BsHop.heard n c (-100) proc = m at hframe hnas hrrc hmap hair hheard
  have hdecode : RrcMessage.decode (RrcMessage.encode { msgType := .setupComplete, value := putU16 crnti }) =
      ⟨.setupComplete, putU16 crnti⟩ := RrcMessage.decode_encode rfl (by simp [snModulus])
  obtain ⟨ctx, hctx⟩ := Option.isSome_iff_exists.mp hheard.context
  have hhandled : BsNode.handleSdu w c m (lcidCcch, RrcMessage.encode { msgType := .setupComplete, value := putU16 crnti }) =
      { m with rrc := m.rrc.putUe c { ctx with state := .connected } } := by
    have hccch : BsNode.handleSdu w c m
        (lcidCcch, RrcMessage.encode { msgType := .setupComplete, value := putU16 crnti }) =
        m.handleCcchSdu w c (RrcMessage.encode { msgType := .setupComplete, value := putU16 crnti }) := rfl
    rw [hccch, BsNode.handleCcchSdu]
    simp only [hdecode, RrcBs.handleMessage, RrcBs.onSetupComplete, hctx, BsNode.runRrc, List.foldl_nil]
  rw [hhandled] at hframe
  have hput : (m.rrc.putUe c { ctx with state := .connected }).findUe c = some { ctx with state := .connected } := by
    rw [RrcBs.findUe_putUe_eq, if_pos rfl]
  refine ⟨_, hframe, hheard.of_eq rfl ⟨hheard.named.cell, hheard.named.plmn⟩ rfl rfl ?_ rfl, hnas, ?_, hmap, hair⟩
  · rw [hput]
    rfl
  · exact RrcBs.isUeConnected_iff.mpr ⟨_, hput, rfl⟩


/-- A message of the registrar goes to the one it answers; a session key arms the flow behind it. -/
theorem onNasSend_serves (h : Serving c none [] procs n) {t : Nat} (reply : Bytes)
    (hmap : n.tmsiToCrnti[t]? = none ∨ n.tmsiToCrnti[t]? = some c) :
    Serving c n.nas.sessionKeys[t]? [{ lcid := lcidNasDcch, bytes := Pdcp.tx reply }] procs
        (BsNode.onNasSend c n (t, reply)) ∧
      (BsNode.onNasSend c n (t, reply)).nas = n.nas ∧ (BsNode.onNasSend c n (t, reply)).rrc = n.rrc ∧
      (BsNode.onNasSend c n (t, reply)).tmsiToCrnti[t]? = some c ∧ (BsNode.onNasSend c n (t, reply)).air = n.air := by
  obtain ⟨m, hlearnt, hmapped⟩ : ∃ m : TmsiMap Nat, n.learnCrnti t c = ({ n with tmsiToCrnti := m }, c) ∧ m[t]? = some c := by
    rcases hmap with hnone | hsome
    · refine ⟨n.tmsiToCrnti.insert t c, ?_, ?_⟩
      · rw [BsNode.learnCrnti, hnone]
      · rw [TmsiMap.getElem?_insert_eq, if_pos rfl]
    · refine ⟨n.tmsiToCrnti, ?_, hsome⟩
      rw [BsNode.learnCrnti, hsome]
  have hlearner : Serving c none [] procs { n with tmsiToCrnti := m } := h.of_eq rfl h.named rfl rfl h.context rfl
  have hqueued := hlearner.downlinkSend lcidNasDcch rfl (Pdcp.tx reply)
  have hkept : (BsNode.downlinkSend { n with tmsiToCrnti := m } c lcidNasDcch (Pdcp.tx reply)).nas = n.nas := rfl
  -- whether the registrar has a session key decides if the flow is armed
  cases hkey : n.nas.sessionKeys[t]? with
  | none =>
    have hsent : BsNode.onNasSend c n (t, reply) =
        BsNode.downlinkSend { n with tmsiToCrnti := m } c lcidNasDcch (Pdcp.tx reply) := by
      simp only [BsNode.onNasSend, hlearnt, hkept, hkey]
    rw [hsent]
    exact ⟨hqueued, rfl, rfl, hmapped, rfl⟩
  | some key =>
    have hsent : BsNode.onNasSend c n (t, reply) =
        (BsNode.downlinkSend { n with tmsiToCrnti := m } c lcidNasDcch (Pdcp.tx reply)).armSecurity c key := by
      simp only [BsNode.onNasSend, hlearnt, hkept, hkey]
    rw [hsent]
    refine ⟨hqueued.putFlow ⟨⟨rfl, fun k hk => Option.some.inj hk⟩, hqueued.flow.bearers, hqueued.flow.busy,
      hqueued.flow.slots, hqueued.flow.active, hqueued.flow.unmeasured⟩, rfl, rfl, hmapped, rfl⟩

/-- A NAS PDU in a block: the registrar answers it into the queue. -/
theorem cell_nas (h : Serving c none [] procs n) (hc : c ≠ 0 ∧ c < rntiBroadcast) {proc : Nat} (hproc : proc < 0x7F)
    (ndi : UInt8) {pdu : Bytes} (hsize : pdu.length ≤ 1000) (hdetach : (NasMessage.decode pdu).msgType ≠ .detach)
    (Answer : NasBs → Nat → Bytes → Prop)
    (hanswer : ∀ order rand, order.Perm n.nas.pendingAuth.keys → ∃ b t reply,
      n.nas.handleMessage w.digest order rand 0 pdu = (b, [(t, reply)]) ∧ Answer b t reply ∧
        (n.tmsiToCrnti[t]? = none ∨ n.tmsiToCrnti[t]? = some c)) :
    ∃ n' t reply, n.handleAirFrame w ⟨.data, c, linkEncode (buildPdu [(lcidNasDcch, Pdcp.tx pdu)]) (UInt8.ofNat proc) ndi⟩
        (-100) = .ok n' ∧ Answer n'.nas t reply ∧
      Serving c n'.nas.sessionKeys[t]? [{ lcid := lcidNasDcch, bytes := Pdcp.tx reply }] procs n' ∧ n'.rrc = n.rrc ∧
      n'.tmsiToCrnti[t]? = some c ∧ n'.air = n.air ++ [⟨.data, c, ackPdu (UInt8.ofNat proc)⟩] := by
  have hframe := BsHop.handleAirFrame_block (w := w) (-100) ⟨hc.1, hc.2.ne⟩ h.context h.flow.slots
    (show Fits lcidNasDcch (Pdcp.tx pdu) from ⟨by decide, by simp [Pdcp.tx]; omega⟩) hproc ndi
  obtain ⟨hnas, hrrc, hmap, hair⟩ := heard_kept n c proc
  have hheard := h.heard proc
  generalize BsHop.heard n c (-100) proc = m at hframe hnas hrrc hmap hair hheard
  -- activity and `flow()` leave the flow as it is but for the clock of the activity
  have hactive : Serving c none [] procs ((m.noteActivity c lcidNasDcch).touchFlow c) := by
    have hnoted : m.noteActivity c lcidNasDcch =
        m.putFlow c { m.flow c with lastActivityMs := m.nowMs, suspended := false } := by
      rw [BsNode.noteActivity, if_pos (show cipheredLcid lcidNasDcch = true by decide)]
      dsimp only
      rw [hheard.flow.active, if_neg Bool.false_ne_true]
    rw [hnoted]
    have hput := hheard.putFlow (f := { m.flow c with lastActivityMs := m.nowMs, suspended := false })
      ⟨hheard.flow.security, hheard.flow.bearers, hheard.flow.busy, hheard.flow.slots, rfl, hheard.flow.unmeasured⟩
    exact hput.putFlow hput.flow
  have hkept : ((m.noteActivity c lcidNasDcch).touchFlow c).nas = m.nas ∧
      ((m.noteActivity c lcidNasDcch).touchFlow c).rrc = m.rrc ∧
      ((m.noteActivity c lcidNasDcch).touchFlow c).tmsiToCrnti = m.tmsiToCrnti ∧
      ((m.noteActivity c lcidNasDcch).touchFlow c).air = m.air := by
    rw [BsNode.noteActivity, if_pos (show cipheredLcid lcidNasDcch = true by decide)]
    dsimp only
    rw [hheard.flow.active, if_neg Bool.false_ne_true]
    exact ⟨rfl, rfl, rfl, rfl⟩
  have hnassdu : BsNode.handleSdu w c m (lcidNasDcch, Pdcp.tx pdu) =
      (m.noteActivity c lcidNasDcch).handleNasSdu w c (Pdcp.tx pdu) := rfl
  rw [hnassdu, BsNode.handleNasSdu] at hframe
  generalize (m.noteActivity c lcidNasDcch).touchFlow c = v at hframe hactive hkept
  obtain ⟨hvnas, hvrrc, hvmap, hvair⟩ := hkept
  have hclear : (v.flow c).secOn = false := hactive.flow.security.1
  rw [hclear, openSdu_clear] at hframe
  have hamf : ¬v.coreSeparated = true := by
    rw [BsNode.coreSeparated, hactive.config.1]
    exact Bool.false_ne_true
  have hperm : (w.order v .pendingAuth).Perm n.nas.pendingAuth.keys := by
    have hperm := w.perm v .pendingAuth
    rwa [BsNode.keysOf, hvnas, hnas] at hperm
  obtain ⟨b, t, reply, hhandled, hgood, hfree⟩ := hanswer (w.order v .pendingAuth) (w.rand v.nas) hperm
  have hregistrar : (v.nas.handleMessage w.digest (w.order v .pendingAuth) (w.rand v.nas) 0 pdu) = (b, [(t, reply)]) := by
    rw [← hhandled, hvnas, hnas]
  have hpdu : v.handleNasPdu w c pdu = BsNode.onNasSend c { v with nas := b } (t, reply) := by
    rw [BsNode.handleNasPdu]
    dsimp only
    rw [if_neg hamf, if_neg hdetach, hregistrar]
    rfl
  have hregistered : Serving c none [] procs { v with nas := b } := hactive.of_eq rfl hactive.named rfl rfl hactive.context rfl
  obtain ⟨hserving, hsnas, hsrrc, hsmap, hsair⟩ := onNasSend_serves hregistered reply (t := t) (by
    rw [← hmap, ← hvmap] at hfree
    exact hfree)
  refine ⟨_, t, reply, hframe, ?_⟩
  dsimp only
  rw [hpdu, hsnas]
  refine ⟨hgood, hserving, hsrrc.trans (hvrrc.trans hrrc), hsmap, ?_⟩
  rw [hsair]
  exact hvair.trans hair


/-! ### Its scheduler -/

/-- With one flow there is one order. -/
theorem order_sole {w : World} {n : BsNode} (h : ∀ r, n.flows[r]? = if c = r then some (n.flow c) else none) :
    w.order n .flows = [c] := by
  have hkeys : n.flows.keys.Perm [c] := by
    refine (List.perm_ext_iff_of_nodup ?_ (List.nodup_singleton c)).mpr fun r => ?_
    · exact n.flows.nodup_keys
    · rw [Std.ExtTreeMap.mem_keys, Std.ExtTreeMap.mem_iff_isSome_getElem?, h, List.mem_singleton]
      split
      · rename_i heq
        simp [heq]
      · rename_i hne
        simp [Ne.symm hne]
  exact List.perm_singleton.mp ((w.perm n .flows).trans hkeys)

/-- The service of a bearer that carried nothing does nothing. -/
theorem serviceBearer_idle (h : Serving c key ctrl procs n) (q : Qci) : BsNode.serviceBearer w c n q = n := by
  have hsame : n.putBearers c (n.flow c).bearers = n := by
    have hflows : n.flows.insert c (n.flow c) = n.flows := by
      apply Std.ExtTreeMap.ext_getElem?
      intro r
      rw [TmsiMap.getElem?_insert_eq, h.sole]
      split <;> rfl
    rw [BsNode.putBearers, BsNode.putFlow]
    conv_lhs => rw [show ({ n.flow c with bearers := (n.flow c).bearers } : Core.DlFlow) = n.flow c from rfl, hflows]
  have htx : (n.flow c).bearers.withTx q (RlcTx.make q) = (n.flow c).bearers := by
    rw [h.flow.bearers, BearerSet.withTx, BearerSet.setBearer]
    congr 1
    exact Function.update_eq_self q _
  have hrx : (n.flow c).bearers.withRx q (RlcRx.make q) = (n.flow c).bearers := by
    rw [h.flow.bearers, BearerSet.withRx, BearerSet.setBearer]
    congr 1
    exact Function.update_eq_self q _
  have hprobe : RlcTx.tick q ((n.flow c).bearers.bearer q).tx n.nowMs = (RlcTx.make q, []) := by
    rw [h.flow.bearers]
    cases q <;> rfl
  have htimer : RlcRx.tick q ((n.flow c).bearers.bearer q).rx n.nowMs = (RlcRx.make q, {}) := by
    rw [h.flow.bearers]
    cases q <;> rfl
  rw [BsNode.serviceBearer]
  simp only [hprobe, BearerSet.enqueueData, List.foldl_nil, htx, hsame, htimer, hrx, BsNode.onRlcOutcome]

theorem pumpFlow_idle (h : Serving c key ctrl [] n) : Serving c key ctrl [] (BsNode.pumpFlow w n c) ∧
    (BsNode.pumpFlow w n c).nas = n.nas ∧ (BsNode.pumpFlow w n c).rrc = n.rrc ∧
    (BsNode.pumpFlow w n c).tmsiToCrnti = n.tmsiToCrnti ∧ (BsNode.pumpFlow w n c).air = n.air := by
  have hflow : n.flows[c]? = some (n.flow c) := by rw [h.sole, if_pos rfl]
  have hput := h.putFlow (f := { n.flow c with harqTx := (n.flow c).harqTx.advance n.nowMs })
    ⟨h.flow.security, h.flow.bearers, ⟨h.flow.busy.1.advance _, h.flow.busy.2⟩, h.flow.slots, h.flow.active,
      h.flow.unmeasured⟩
  have hpumped : BsNode.pumpFlow w n c =
      n.putFlow c { n.flow c with harqTx := (n.flow c).harqTx.advance n.nowMs } := by
    rw [BsNode.pumpFlow, hflow]
    simp only [h.flow.busy.1.pollTimeouts, List.foldl_nil, List.foldl_cons, serviceBearer_idle hput]
  rw [hpumped]
  exact ⟨hput, rfl, rfl, rfl, rfl⟩


/-- One PDU in the clear goes out on a free process. -/
theorem drainFlow_sends {p : AppPdu} (hclear : p.cipher = false) (h : Serving c key [p] [] n) :
    ∃ q ndi, Serving c key [] [q] (BsNode.drainFlow w n c) ∧ (BsNode.drainFlow w n c).nas = n.nas ∧
      (BsNode.drainFlow w n c).rrc = n.rrc ∧ (BsNode.drainFlow w n c).tmsiToCrnti = n.tmsiToCrnti ∧
      (BsNode.drainFlow w n c).air =
        n.air ++ [⟨.data, c, linkEncode (buildPdu [(p.lcid, p.bytes)]) (UInt8.ofNat q) ndi⟩] := by
  have hflow : n.flows[c]? = some (n.flow c) := by rw [h.sole, if_pos rfl]
  have hcfg := h.flow.busy.2
  obtain ⟨q, ndi, t, hsent, htcfg, hbusy⟩ := h.flow.busy.1.send (by rw [hcfg]; decide) (buildPdu [(p.lcid, p.bytes)])
  have hput := h.putFlow (f := { n.flow c with bearers := BearerSet.make, harqTx := t })
    ⟨h.flow.security, rfl, ⟨hbusy, htcfg.trans hcfg⟩, h.flow.slots, h.flow.active, h.flow.unmeasured⟩
  have hpop : (n.flow c).bearers.popNext = some (p, BearerSet.make) := by
    rw [h.flow.bearers]
    rfl
  have hcount : BsNode.queued (n.flow c).bearers = 1 := by
    rw [h.flow.bearers]
    rfl
  have hfree : (n.flow c).harqTx.inFlight < (n.flow c).harqTx.cfg.numProcesses.toNat ∧
      ((n.flow c).suspended = false ∨ (n.flow c).bearers.ctrl ≠ []) := by
    rw [h.flow.busy.1.inFlight_eq, hcfg]
    exact ⟨by decide, .inl h.flow.active⟩
  have hdrained : BsNode.drainFlow w n c =
      (n.putFlow c { n.flow c with bearers := BearerSet.make, harqTx := t }).sendFrame .data c
        (linkEncode (buildPdu [(p.lcid, p.bytes)]) (UInt8.ofNat q) ndi) := by
    rw [BsNode.drainFlow, hflow]
    dsimp only
    rw [hcount, BsNode.drainLoop]
    dsimp only
    rw [if_pos hfree, hpop]
    simp only [hclear, Bool.false_eq_true, if_false, hsent, BsNode.drainLoop]
  rw [hdrained]
  exact ⟨q, ndi, hput.of_eq rfl hput.named rfl rfl hput.context rfl, rfl, rfl, rfl, rfl⟩

theorem drainFlow_idle (h : Serving c key [] procs n) : BsNode.drainFlow w n c = n := by
  have hflow : n.flows[c]? = some (n.flow c) := by rw [h.sole, if_pos rfl]
  have hcount : BsNode.queued (n.flow c).bearers = 0 := by
    rw [h.flow.bearers]
    rfl
  rw [BsNode.drainFlow, hflow]
  dsimp only
  rw [hcount, BsNode.drainLoop]

/-- The broadcast that the SIB timer of a cell without a page sends, if it is switched on. -/
theorem broadcastSib_unpaged {n : BsNode} (h : n.pagingTarget = []) :
    ∃ k, n.broadcastSib = { n with air := n.air ++ List.replicate k (sibFrame n.rrc) } := by
  by_cases hon : (n.broadcasting && n.sibEnabled) = true
  · refine ⟨1, ?_⟩
    rw [BsNode.broadcastSib, if_pos hon]
    dsimp only
    rw [if_neg (not_not.mpr h), List.append_nil, ← h]
    rfl
  · refine ⟨0, ?_⟩
    rw [BsNode.broadcastSib, if_neg hon, List.replicate_zero, List.append_nil]

/-- With nobody to page, broadcasts only add frames. -/
theorem broadcastSib_iterate {n : BsNode} (h : n.pagingTarget = []) (sibs : Nat) :
    ∃ k, BsNode.broadcastSib^[sibs] n = { n with air := n.air ++ List.replicate k (sibFrame n.rrc) } := by
  induction sibs with
  | zero => exact ⟨0, by rw [List.replicate_zero, List.append_nil]; rfl⟩
  | succ sibs ih =>
    obtain ⟨k, hk⟩ := ih
    obtain ⟨j, hj⟩ := broadcastSib_unpaged (n := { n with air := n.air ++ List.replicate k (sibFrame n.rrc) }) h
    refine ⟨k + j, ?_⟩
    rw [Function.iterate_succ_apply', hk, hj, List.replicate_add, ← List.append_assoc]

/-- Before the scheduler a tick only moves the clock. -/
theorem tick_moves (h : Serving c key ctrl [] n) (now : UInt32) :
    ∃ m, Serving c key ctrl [] m ∧ m.nas = n.nas ∧ m.rrc = n.rrc ∧ m.tmsiToCrnti = n.tmsiToCrnti ∧ m.air = n.air ∧
      n.tick w now = BsNode.drainFlow w m c := by
  have hclock : Serving c key ctrl [] { n with nowMs := max now n.nowMs, pendingFlowErase := [] } :=
    h.of_eq rfl h.named rfl h.erase.symm h.context rfl
  have herased : BsNode.eraseDeferred { n with nowMs := max now n.nowMs } =
      { n with nowMs := max now n.nowMs, pendingFlowErase := [] } := by
    rw [BsNode.eraseDeferred]
    dsimp only
    rw [h.erase, List.foldl_nil]
  rw [BsNode.tick, herased]
  generalize hv : ({ n with nowMs := max now n.nowMs, pendingFlowErase := [] } : BsNode) = v at hclock
  have hflow : v.flows[c]? = some (v.flow c) := by rw [hclock.sole, if_pos rfl]
  have hsweep : BsNode.sweepTpc w v = v := by
    rw [BsNode.sweepTpc, order_sole hclock.sole, List.foldl_cons, List.foldl_nil, BsNode.sweepTpcFlow, hflow]
    dsimp only
    rw [hclock.flow.unmeasured, if_pos (.inr (.inl (by norm_num)))]
  obtain ⟨hpumped, hnas, hrrc, hmap, hair⟩ := pumpFlow_idle (w := w) hclock
  refine ⟨BsNode.pumpFlow w v c, hpumped, ?_⟩
  have htick : BsNode.scheduleDownlink w (BsNode.sweepInactive w (BsNode.sweepTpc w v)) =
      BsNode.drainFlow w (BsNode.pumpFlow w v c) c := by
    rw [hsweep, BsNode.sweepInactive, if_pos hclock.config.2, BsNode.scheduleDownlink, order_sole hclock.sole]
    dsimp only [List.foldl_cons, List.foldl_nil]
    rw [order_sole hpumped.sole]
    rfl
  rw [hnas, hrrc, hmap, hair, htick, ← hv]
  exact ⟨rfl, rfl, rfl, rfl, rfl⟩

/-- The broadcasts stand in front of what the scheduler sends. -/
theorem tick_schedules (h : Serving c key ctrl [] n) (now : UInt32) (sibs : Nat) :
    ∃ m k, Serving c key ctrl [] m ∧ m.nas = n.nas ∧ m.rrc = n.rrc ∧ m.tmsiToCrnti = n.tmsiToCrnti ∧
      m.air = n.air ++ List.replicate k (sibFrame n.rrc) ∧ n.tickDue w now sibs = BsNode.drainFlow w m c := by
  obtain ⟨k, hk⟩ := broadcastSib_iterate h.unpaged sibs
  rw [BsNode.tickDue_eq, hk]
  have hsent : Serving c key ctrl [] { n with air := n.air ++ List.replicate k (sibFrame n.rrc) } :=
    h.of_eq rfl h.named rfl rfl h.context rfl
  obtain ⟨m, hm, hnas, hrrc, hmap, hair, htick⟩ := tick_moves (w := w) hsent now
  exact ⟨m, k, hm, hnas, hrrc, hmap, hair, htick⟩

end Cell

/-! ## The cell before it serves -/

/-- A cell without a core network that serves nobody and has C-RNTIs to give. -/
structure Vacant (n : BsNode) : Prop where
  config : n.config.amf = false ∧ n.config.inactiveMs = 0
  unpaged : n.pagingTarget = []
  erase : n.pendingFlowErase = []
  flows : n.flows = ∅
  cell : n.rach.cellId = n.rrc.cellId
  next : n.rach.nextCrnti ≠ 0 ∧ n.rach.nextCrnti < rntiBroadcast

section Vacant

variable {w : World} {n : BsNode}

theorem Vacant.flow (h : Vacant n) (r : Nat) : n.flow r = {} := by
  rw [BsNode.flow, h.flows]
  rfl

theorem vacant_tick_eq (h : Vacant n) (now : UInt32) :
    n.tick w now = { n with nowMs := max now n.nowMs, pendingFlowErase := [] } := by
  have horder : ∀ m : BsNode, m.flows = ∅ → w.order m .flows = [] := by
    intro m hm
    have hperm := w.perm m .flows
    rw [BsNode.keysOf, hm] at hperm
    exact List.perm_nil.mp hperm
  have herased : BsNode.eraseDeferred { n with nowMs := max now n.nowMs } =
      { n with nowMs := max now n.nowMs, pendingFlowErase := [] } := by
    rw [BsNode.eraseDeferred]
    dsimp only
    rw [h.erase, List.foldl_nil]
  have hflows : ({ n with nowMs := max now n.nowMs, pendingFlowErase := [] } : BsNode).flows = ∅ := h.flows
  have hquiet : ({ n with nowMs := max now n.nowMs, pendingFlowErase := [] } : BsNode).config.inactiveMs = 0 := h.config.2
  rw [BsNode.tick, herased]
  generalize ({ n with nowMs := max now n.nowMs, pendingFlowErase := [] } : BsNode) = v at hflows hquiet
  rw [BsNode.sweepTpc, horder v hflows, List.foldl_nil, BsNode.sweepInactive, if_pos hquiet, BsNode.scheduleDownlink,
    horder v hflows]
  dsimp only [List.foldl_nil]
  rw [horder v hflows, List.foldl_nil]

/-- A tick of a cell that serves nobody broadcasts at most. -/
theorem vacant_tick (h : Vacant n) (now : UInt32) (sibs : Nat) :
    ∃ k, Vacant (n.tickDue w now sibs) ∧ (n.tickDue w now sibs).rach = n.rach ∧ (n.tickDue w now sibs).rrc = n.rrc ∧
      (n.tickDue w now sibs).nas = n.nas ∧ (n.tickDue w now sibs).tmsiToCrnti = n.tmsiToCrnti ∧
      (n.tickDue w now sibs).air = n.air ++ List.replicate k (sibFrame n.rrc) := by
  obtain ⟨k, hk⟩ := broadcastSib_iterate h.unpaged sibs
  have hsent : Vacant { n with air := n.air ++ List.replicate k (sibFrame n.rrc) } :=
    ⟨h.config, h.unpaged, h.erase, h.flows, h.cell, h.next⟩
  refine ⟨k, ?_⟩
  rw [BsNode.tickDue_eq, hk]
  generalize hm : ({ n with air := n.air ++ List.replicate k (sibFrame n.rrc) } : BsNode) = m at hsent
  have htick := vacant_tick_eq (w := w) hsent now
  rw [htick, ← hm]
  exact ⟨⟨h.config, h.unpaged, rfl, h.flows, h.cell, h.next⟩, rfl, rfl, rfl, rfl, rfl⟩

/-- A preamble of the cell is answered and remembered. -/
theorem cell_msg1 (h : Vacant n) {preamble : UInt8} (hmine : cellForPreamble preamble = n.rrc.cellId) :
    ∃ n', n.handleAirFrame w ⟨.msg1Prach, 0, [1, preamble]⟩ (-100) = .ok n' ∧ Vacant n' ∧
      (n'.rach.ueContexts[raRntiForPreamble preamble]?).isSome ∧ n'.rach.nextCrnti = n.rach.nextCrnti ∧ n'.rrc = n.rrc ∧
      n'.nas = n.nas ∧ n'.tmsiToCrnti = n.tmsiToCrnti ∧
      n'.air = n.air ++ [⟨.msg2Rar, 0, RachBs.msg2Pdu (raRntiForPreamble preamble)⟩] := by
  have hanswered : n.rach.onPrachReceived preamble =
      ({ n.rach with
          ueContexts := n.rach.ueContexts.insert (raRntiForPreamble preamble)
            { raRnti := raRntiForPreamble preamble, preamble := preamble } },
        [.msg2 (RachBs.msg2Pdu (raRntiForPreamble preamble))]) := by
    rw [RachBs.onPrachReceived, if_neg (by rw [h.cell, hmine]; simp)]
  have hframe : n.handleAirFrame w ⟨.msg1Prach, 0, [1, preamble]⟩ (-100) =
      .ok (n.runRach w (n.rach.onPrachReceived preamble)) := rfl
  refine ⟨_, hframe, ?_⟩
  rw [hanswered]
  refine ⟨⟨h.config, h.unpaged, h.erase, h.flows, h.cell, h.next⟩, ?_, rfl, rfl, rfl, rfl, rfl⟩
  show (Std.ExtTreeMap.insert _ _ _)[raRntiForPreamble preamble]?.isSome
  rw [Std.ExtTreeMap.getElem?_insert_self]
  rfl

/-- MSG3 with the request: MSG4, and the SETUP queued for the flow of the new C-RNTI. -/
theorem cell_msg3 (h : Vacant n) (hnamed : Named n.rrc) {raRnti : Nat} (hra : raRnti < snModulus)
    (hknown : (n.rach.ueContexts[raRnti]?).isSome) :
    ∃ n', n.handleAirFrame w (msg3Frame raRnti n.rrc.cellId) (-100) = .ok n' ∧
      Serving n.rach.nextCrnti none
        [{ lcid := lcidCcch, bytes := RrcBs.reply .setup (putU16 n.rach.nextCrnti) }] [] n' ∧
      n'.nas = n.nas ∧ n'.tmsiToCrnti = n.tmsiToCrnti ∧
      n'.air = n.air ++ [⟨.msg4Cr, 0, RachBs.msg4Pdu n.rach.nextCrnti raRnti⟩] := by
  obtain ⟨ctx, hctx⟩ := Option.isSome_iff_exists.mp hknown
  set request := RrcMessage.encode { msgType := .setupRequest, value := putU16 n.rrc.cellId } with hrequest
  have hread : getU16 (3 :: (putU16 raRnti ++ request)) 1 = raRnti := by
    have hread := getU16_putU16 [3] request raRnti
    rwa [Nat.mod_eq_of_lt hra] at hread
  have hanswered : n.rach.onMsg3Received raRnti (3 :: (putU16 raRnti ++ request)) =
      ({ n.rach with
          nextCrnti := (n.rach.nextCrnti + 1) % snModulus
          ueContexts := n.rach.ueContexts.insert raRnti { ctx with cRnti := n.rach.nextCrnti, rachComplete := true } },
        [.msg4 (RachBs.msg4Pdu n.rach.nextCrnti raRnti), .ccch n.rach.nextCrnti request]) := by
    rw [RachBs.onMsg3Received, hctx]
    rfl
  have hsetup : ∀ order, n.rrc.handleMessage order n.rach.nextCrnti request =
      (n.rrc.putUe n.rach.nextCrnti { cRnti := n.rach.nextCrnti, state := .connecting },
        [.send n.rach.nextCrnti (RrcBs.reply .setup (putU16 n.rach.nextCrnti))]) := by
    intro order
    have hdecode : RrcMessage.decode request = ⟨.setupRequest, putU16 n.rrc.cellId⟩ :=
      RrcMessage.decode_encode rfl (by simp [snModulus])
    have hcell : getU16 (putU16 n.rrc.cellId) 0 = n.rrc.cellId := by
      have hread := getU16_putU16 [] [] n.rrc.cellId
      have hlt : n.rrc.cellId < snModulus := by
        rcases hnamed.cell with hcell | hcell <;> rw [hcell] <;> decide
      rwa [List.nil_append, List.append_nil, Nat.mod_eq_of_lt hlt] at hread
    have hown : n.rrc.foreignCell (putU16 n.rrc.cellId) = false := by
      simp [RrcBs.foreignCell, hcell]
    have hassign : n.rrc.assign n.rach.nextCrnti = (n.rrc, n.rach.nextCrnti) := if_pos h.next.1
    simp only [RrcBs.handleMessage, hdecode, RrcBs.onSetupRequest, hown, hassign, Bool.false_eq_true, if_false]
  have hframe : n.handleAirFrame w (msg3Frame raRnti n.rrc.cellId) (-100) =
      .ok (n.runRach w (n.rach.onMsg3Received raRnti (3 :: (putU16 raRnti ++ request)))) := by
    have hlong : (3 :: (putU16 raRnti ++ request)).length ≥ 4 := by simp [hrequest, RrcMessage.encode]
    rw [msg3Frame, BsNode.handleAirFrame]
    dsimp only
    rw [← hrequest, if_pos hlong, hread]
  refine ⟨_, hframe, ?_⟩
  rw [hanswered]
  simp only [BsNode.runRach, List.foldl_cons, List.foldl_nil, BsNode.onRachOutput, BsNode.sendFrame, hsetup, BsNode.runRrc,
    BsNode.onRrcOutput]
  generalize hv : ({ n with
    rach := _, rrc := _, air := _ } : BsNode) = v
  have hnew : ∀ r, v.flow r = {} := fun r => by rw [← hv]; exact h.flow r
  have htouched : Serving n.rach.nextCrnti none [] [] (v.touchFlow n.rach.nextCrnti) := by
    refine ⟨by rw [← hv]; exact h.config, ?_, by rw [← hv]; exact h.unpaged, by rw [← hv]; exact h.erase, ?_, fun r => ?_, ?_⟩
    · rw [← hv]
      exact ⟨hnamed.cell, hnamed.plmn⟩
    · rw [← hv]
      show ((n.rrc.putUe _ _).findUe _).isSome
      rw [RrcBs.findUe_putUe_eq, if_pos rfl]
      rfl
    · rw [BsNode.touchFlow, BsNode.flow_putFlow_self, BsNode.putFlow]
      dsimp only
      have hempty : v.flows = ∅ := by rw [← hv]; exact h.flows
      rw [TmsiMap.getElem?_insert_eq, hempty]
      rfl
    · rw [BsNode.touchFlow, BsNode.flow_putFlow_self, hnew]
      exact attended_new
  have hqueued := htouched.downlinkSend lcidCcch rfl (RrcBs.reply .setup (putU16 n.rach.nextCrnti))
  have htouch : ∀ lcid sdu, (v.touchFlow n.rach.nextCrnti).downlinkSend n.rach.nextCrnti lcid sdu =
      v.downlinkSend n.rach.nextCrnti lcid sdu := by
    intro lcid sdu
    simp only [BsNode.downlinkSend, BsNode.putBearers, BsNode.touchFlow, BsNode.flow_putFlow_self, BsHop.putFlow_putFlow]
    rfl
  rw [htouch] at hqueued
  exact ⟨hqueued, by rw [← hv]; rfl, by rw [← hv]; rfl, by rw [← hv]; rfl⟩

end Vacant

/-! ## The UE with its connection -/

/-- A connected UE; `procs` are the blocks the cell has not answered. -/
structure Talking (c : Nat) (key : Option Key256) (nas : Nas.NasUe) (procs : List Nat) (u : UeNode) : Prop where
  crnti : u.crntiCache = c
  rrc : u.rrc.state = .connected
  nas : u.nas = nas
  security : u.upSecOn = key.isSome ∧ ∀ k, key = some k → u.upKey = k
  busy : InFlight u.harqTx procs ∧ u.harqTx.cfg = {}
  slots : ∀ p, u.harqRx.SlotEmpty p

section Ue

variable {w : World} {u : UeNode} {c : Nat} {nas : Nas.NasUe} {procs : List Nat}

theorem Talking.hears {key : Option Key256} {r : RrcBs} (h : Talking c key nas procs u) (hnamed : Named r) (k : Nat) :
    ∃ v, (List.replicate k (sibFrame r)).foldlM (fun (u : UeNode) f => u.handleAirFrame w.digest f) u = .ok v ∧
      Talking c key nas procs v ∧ v.air = u.air := by
  obtain ⟨v, hheard, hkept⟩ := hear_sibs w.digest hnamed h.slots (by simp [h.rrc]) k
  refine ⟨v, hheard, ?_, by rw [hkept]⟩
  rw [hkept]
  exact ⟨h.crnti, h.rrc, h.nas, h.security, h.busy, h.slots⟩

theorem Talking.startMeasurements {key : Option Key256} (h : Talking c key nas procs u) :
    Talking c key nas procs u.startMeasurements ∧ u.startMeasurements.air = u.air := by
  unfold UeNode.startMeasurements
  split
  · exact ⟨h, rfl⟩
  · exact ⟨⟨h.crnti, h.rrc, h.nas, h.security, h.busy, h.slots⟩, rfl⟩

/-- A control SDU of a UE without security leaves as it is. -/
theorem uplinkSend_clear (w : World) (hsec : u.upSecOn = false) (hbusy : InFlight u.harqTx procs ∧ u.harqTx.cfg = {})
    (hroom : procs.length < 8) (lcid : UInt8) (sdu : Bytes) :
    ∃ x : Crossing, x.pdu.lcid = lcid ∧ x.sealed = sdu ∧
      (u.uplinkSend w.digest lcid sdu).air = u.air ++ [x.frame u.crntiCache] ∧
      InFlight (u.uplinkSend w.digest lcid sdu).harqTx (x.proc :: procs) ∧
      (u.uplinkSend w.digest lcid sdu).harqTx.cfg = {} ∧
      u.uplinkSend w.digest lcid sdu = { u with
        harqTx := (u.uplinkSend w.digest lcid sdu).harqTx
        air := (u.uplinkSend w.digest lcid sdu).air
        pdcpSeq := (u.uplinkSend w.digest lcid sdu).pdcpSeq } := by
  have hfree : procs.length < u.harqTx.cfg.numProcesses.toNat := by
    rw [hbusy.2]
    exact hroom
  obtain ⟨x, hpdu, hsealed, hair, hnext, hcfg, hkept⟩ :=
    uplinkSend_crosses (w := w) hbusy.1 hfree { lcid := lcid, bytes := sdu }
  rw [SealedFor, hsec, Bool.false_and, if_neg Bool.false_ne_true] at hsealed
  exact ⟨x, by rw [hpdu], hsealed, hair, hnext, hcfg.trans hbusy.2, hkept⟩

def setupComplete (c : Nat) : Bytes := RrcMessage.encode { msgType := .setupComplete, value := putU16 c }

/-- SETUP: the completion and, behind it, the attach request. -/
theorem ue_setup {imsi : Bytes} (h : Admitted u c imsi nas) (hc : c ≠ 0 ∧ c < rntiBroadcast)
    (hnas : nas.state = .deregistered) {q : Nat} (hq : q < 0x7F) (ndi : UInt8) :
    ∃ u', ∃ x y : Crossing, u.handleAirFrame w.digest ⟨.data, c, linkEncode
          (buildPdu [(lcidCcch, RrcBs.reply .setup (putU16 c))]) (UInt8.ofNat q) ndi⟩ = .ok u' ∧
      Talking c none (nas.sendAttachRequest imsi).1 [x.proc, y.proc] u' ∧
      u'.air = u.air ++ [⟨.data, c, ackPdu (UInt8.ofNat q)⟩, x.frame c, y.frame c] ∧
      (x.pdu.lcid = lcidCcch ∧ x.sealed = setupComplete c) ∧
      y.pdu.lcid = lcidNasDcch ∧
      y.sealed = Pdcp.tx (NasMessage.encode { msgType := .attachRequest, value := imsi }) := by
  have hframe := UeHop.handleAirFrame_block w.digest (u := u) (by rw [h.crnti]; exact ⟨hc.1, hc.2.ne⟩) h.slots
    (show Fits lcidCcch (RrcBs.reply .setup (putU16 c)) from ⟨by decide, by simp [RrcBs.reply, RrcMessage.encode]⟩) hq ndi
  rw [h.crnti] at hframe
  have hheard : ∃ m, UeHop.heard u q = m ∧ m.crntiCache = c ∧ m.rrc = u.rrc ∧ m.nas = nas ∧ m.config.imsi = imsi ∧
      m.attachRequested = true ∧ m.upSecOn = false ∧ (InFlight m.harqTx [] ∧ m.harqTx.cfg = {}) ∧
      (∀ p, m.harqRx.SlotEmpty p) ∧ m.air = u.air ++ [⟨.data, c, ackPdu (UInt8.ofNat q)⟩] :=
    ⟨_, rfl, h.crnti, rfl, h.nas, h.imsi, h.requested, h.security, ⟨h.idle.1.advance _, h.idle.2⟩, h.slots,
      by rw [← h.crnti]; rfl⟩
  obtain ⟨m, hm, hcrnti, hrrc, hmnas, himsi, hrequested, hsec, hbusy, hslots, hair⟩ := hheard
  rw [hm] at hframe
  have hccch : UeNode.handleSdu w.digest c m (lcidCcch, RrcBs.reply .setup (putU16 c)) =
      m.handleCcchSdu w.digest (RrcBs.reply .setup (putU16 c)) := by
    simp [UeNode.handleSdu, UeNode.handleDedicatedSdu, lcidMib, lcidSib1, lcidPaging, lcidCcch, hc.2.ne, RrcBs.reply,
      RrcMessage.encode]
  have hdecode : RrcMessage.decode (RrcBs.reply .setup (putU16 c)) = ⟨.setup, putU16 c⟩ :=
    RrcMessage.decode_encode rfl (by simp [snModulus])
  have hread : getU16 (putU16 c) 0 = c := by
    have hread := getU16_putU16 [] [] c
    rwa [List.nil_append, List.append_nil, Nat.mod_eq_of_lt (hc.2.trans (by decide))] at hread
  have hanswered : m.rrc.onMessage (RrcBs.reply .setup (putU16 c)) =
      ({ m.rrc with state := .connected, assignedCrnti := c }, [.send (setupComplete c)]) := by
    have hconnecting : ¬m.rrc.state ≠ .connecting := by rw [hrrc, h.rrc]; simp
    have hlong : (putU16 c).length ≥ 2 := by simp
    simp only [RrcUe.onMessage, hdecode, RrcUe.onSetup, if_neg hconnecting, if_pos hlong, hread, setupComplete]
  obtain ⟨x, hxlcid, hxsealed, hxair, hxbusy, hxcfg, hxkept⟩ := uplinkSend_clear w
    (u := { m with rrc := { m.rrc with state := .connected, assignedCrnti := c } }) hsec hbusy (by decide) lcidCcch
    (setupComplete c)
  have hsent : [RrcOutput.send (setupComplete c)].foldl (UeNode.onRrcOutput w.digest)
      { m with rrc := { m.rrc with state := .connected, assignedCrnti := c } } =
      UeNode.uplinkSend w.digest { m with rrc := { m.rrc with state := .connected, assignedCrnti := c } } lcidCcch
        (setupComplete c) := if_pos (by rw [hcrnti]; exact hc.1)
  generalize UeNode.uplinkSend w.digest { m with rrc := { m.rrc with state := .connected, assignedCrnti := c } } lcidCcch
    (setupComplete c) = v at hsent hxair hxbusy hxcfg hxkept
  obtain ⟨hvsec, hvnas, hvconfig, hvcrnti, hvrrc, hvasked⟩ : v.upSecOn = false ∧ v.nas = nas ∧ v.config.imsi = imsi ∧
      v.crntiCache = c ∧ v.rrc.state = .connected ∧ v.attachRequested = true := by
    rw [hxkept]
    exact ⟨hsec, hmnas, himsi, hcrnti, rfl, hrequested⟩
  have hasked : nas.sendAttachRequest imsi = ((nas.sendAttachRequest imsi).1,
      [NasMessage.encode { msgType := .attachRequest, value := imsi }]) := by
    rw [Nas.NasUe.sendAttachRequest, if_neg (not_not.mpr hnas)]
  obtain ⟨y, hylcid, hysealed, hyair, hybusy, hycfg, hykept⟩ := uplinkSend_clear w
    (u := { v with
      harqRx := v.harqRx.reset, nas := (nas.sendAttachRequest imsi).1
      nasSent := v.nasSent ++ [(NasMessage.encode { msgType := .attachRequest, value := imsi }, v.upSecOn)] })
    hvsec ⟨hxbusy, hxcfg⟩ (by simp) lcidNasDcch (Pdcp.tx (NasMessage.encode { msgType := .attachRequest, value := imsi }))
  have hhandled : m.handleCcchSdu w.digest (RrcBs.reply .setup (putU16 c)) =
      (UeNode.uplinkSend w.digest { v with
        harqRx := v.harqRx.reset, nas := (nas.sendAttachRequest imsi).1
        nasSent := v.nasSent ++ [(NasMessage.encode { msgType := .attachRequest, value := imsi }, v.upSecOn)] }
        lcidNasDcch (Pdcp.tx (NasMessage.encode { msgType := .attachRequest, value := imsi }))).startMeasurements := by
    have hready : v.attachRequested = true ∧ v.nas.state = .deregistered ∧ v.rrc.state = .connected :=
      ⟨hvasked, by rw [hvnas]; exact hnas, hvrrc⟩
    rw [UeNode.handleCcchSdu, hdecode]
    dsimp only
    rw [hanswered, hsent, if_pos hready, hvnas, hvconfig, hasked]
    rfl
  generalize UeNode.uplinkSend w.digest { v with
    harqRx := v.harqRx.reset, nas := (nas.sendAttachRequest imsi).1
    nasSent := v.nasSent ++ [(NasMessage.encode { msgType := .attachRequest, value := imsi }, v.upSecOn)] }
    lcidNasDcch (Pdcp.tx (NasMessage.encode { msgType := .attachRequest, value := imsi })) = z
    at hhandled hyair hybusy hycfg hykept
  rw [hccch, hhandled] at hframe
  have hz : Talking c none (nas.sendAttachRequest imsi).1 [x.proc, y.proc] z := by
    refine ⟨?_, ?_, ?_, unarmed ?_, ⟨hybusy.perm (List.Perm.swap _ _ _), hycfg⟩, ?_⟩
    all_goals rw [hykept]
    · exact hvcrnti
    · exact hvrrc
    · exact hvsec
    · exact HarqRx.slotEmpty_initial
  have hzair : z.air = u.air ++ [⟨.data, c, ackPdu (UInt8.ofNat q)⟩, x.frame c, y.frame c] := by
    rw [hyair]
    dsimp only
    rw [hxair]
    dsimp only
    rw [hair, hcrnti, hvcrnti]
    simp
  exact ⟨_, x, y, hframe, hz.startMeasurements.1, hz.startMeasurements.2.trans hzair, ⟨hxlcid, hxsealed⟩, hylcid,
    hysealed⟩


/-- NAS PDUs of a UE without security, each in a block of its own. -/
theorem nasSends (out : List Bytes) (h : Talking c none nas procs u) (hroom : procs.length + out.length ≤ 8) :
    ∃ xs : List Crossing, Talking c none nas (procs ++ xs.map (·.proc)) (out.foldl (UeNode.nasSend w.digest) u) ∧
      (out.foldl (UeNode.nasSend w.digest) u).air = u.air ++ xs.map (Crossing.frame c) ∧
      xs.map (fun x => (x.pdu.lcid, x.sealed)) = out.map fun pdu => (lcidNasDcch, Pdcp.tx pdu) := by
  induction out generalizing u procs with
  | nil => exact ⟨[], by rwa [List.map_nil, List.append_nil], (List.append_nil _).symm, rfl⟩
  | cons pdu out ih =>
    rw [List.length_cons] at hroom
    obtain ⟨x, hlcid, hsealed, hair, hbusy, hcfg, hkept⟩ := uplinkSend_clear w
      (u := { u with nasSent := u.nasSent ++ [(pdu, u.upSecOn)] }) h.security.1 h.busy (by omega) lcidNasDcch (Pdcp.tx pdu)
    have hsend : UeNode.uplinkSend w.digest { u with nasSent := u.nasSent ++ [(pdu, u.upSecOn)] } lcidNasDcch
        (Pdcp.tx pdu) = u.nasSend w.digest pdu := rfl
    rw [hsend] at hair hbusy hcfg hkept
    generalize hv : u.nasSend w.digest pdu = v at hair hbusy hcfg hkept
    have hnext : Talking c none nas (procs ++ [x.proc]) v := by
      refine ⟨?_, ?_, ?_, unarmed ?_, ⟨hbusy.perm (List.perm_append_singleton _ _).symm, hcfg⟩, ?_⟩
      all_goals rw [hkept]
      · exact h.crnti
      · exact h.rrc
      · exact h.nas
      · exact h.security.1
      · exact h.slots
    obtain ⟨xs, htalking, hsent, hout⟩ := ih hnext (by simp; omega)
    refine ⟨x :: xs, ?_, ?_, ?_⟩
    · rw [List.append_assoc] at htalking
      rw [List.foldl_cons, hv]
      exact htalking
    · rw [List.foldl_cons, hv, hsent, hair, h.crnti, List.append_assoc]
      rfl
    · rw [List.map_cons, List.map_cons, hout, hlcid, hsealed]

/-- A NAS PDU in a block: the answers go out, and a registration arms the UE. -/
theorem ue_nas (h : Talking c none nas [] u) (hc : c ≠ 0 ∧ c < rntiBroadcast) {q : Nat} (hq : q < 0x7F) (ndi : UInt8)
    {pdu : Bytes} (hsize : pdu.length ≤ 1000) {nas' : Nas.NasUe} {out : List Bytes}
    (hanswer : nas.onMessage w.digest pdu = (nas', out)) (hroom : out.length ≤ 8) :
    ∃ u', ∃ xs : List Crossing, u.handleAirFrame w.digest ⟨.data, c, linkEncode
          (buildPdu [(lcidNasDcch, Pdcp.tx pdu)]) (UInt8.ofNat q) ndi⟩ = .ok u' ∧
      Talking c (if nas'.state = .registered ∧ nas'.authenticated = true then some nas'.sessionKey else none) nas'
        (xs.map (·.proc)) u' ∧
      u'.air = u.air ++ ⟨.data, c, ackPdu (UInt8.ofNat q)⟩ :: xs.map (Crossing.frame c) ∧
      xs.map (fun x => (x.pdu.lcid, x.sealed)) = out.map fun pdu => (lcidNasDcch, Pdcp.tx pdu) := by
  have hframe := UeHop.handleAirFrame_block w.digest (u := u) (by rw [h.crnti]; exact ⟨hc.1, hc.2.ne⟩) h.slots
    (show Fits lcidNasDcch (Pdcp.tx pdu) from ⟨by decide, by simp [Pdcp.tx]; omega⟩) hq ndi
  rw [h.crnti] at hframe
  have hheard : Talking c none nas [] (UeHop.heard u q) :=
    ⟨h.crnti, h.rrc, h.nas, h.security, ⟨h.busy.1.advance _, h.busy.2⟩, h.slots⟩
  have hair : (UeHop.heard u q).air = u.air ++ [⟨.data, c, ackPdu (UInt8.ofNat q)⟩] := by
    rw [← h.crnti]
    rfl
  generalize UeHop.heard u q = m at hframe hheard hair
  have hnassdu : UeNode.handleSdu w.digest c m (lcidNasDcch, Pdcp.tx pdu) = m.handleNasSdu w.digest (Pdcp.tx pdu) := by
    simp [UeNode.handleSdu, UeNode.handleDedicatedSdu, lcidMib, lcidSib1, lcidPaging, lcidCcch, lcidNasDcch, hc.2.ne, Pdcp.tx]
  have hopen : openSdu (UeNode.pdcpHmac w.digest) m.upSecOn m.upKey (Pdcp.tx pdu) = some pdu := by
    rw [hheard.security.1]
    exact openSdu_clear _ _ pdu
  have hstored : Talking c none nas' [] { m with nas := nas' } :=
    ⟨hheard.crnti, hheard.rrc, rfl, hheard.security, hheard.busy, hheard.slots⟩
  obtain ⟨xs, htalking, hsent, hout⟩ := nasSends (w := w) out hstored (by simpa using hroom)
  rw [hnassdu, UeNode.handleNasSdu, hopen] at hframe
  dsimp only at hframe
  rw [hheard.nas, hanswer] at hframe
  dsimp only at hframe
  generalize out.foldl (UeNode.nasSend w.digest) { m with nas := nas' } = v at hframe htalking hsent
  have hready : (v.nas.state = .registered ∧ v.nas.authenticated = true ∧ (!v.upSecOn) = true) ↔
      nas'.state = .registered ∧ nas'.authenticated = true := by
    simp [htalking.nas, htalking.security.1]
  have harmed : ∃ z, (if v.nas.state = .registered ∧ v.nas.authenticated = true ∧ (!v.upSecOn) = true then
        { v with upKey := v.nas.sessionKey, upSecOn := true } else v) = z ∧ z.air = v.air ∧
      Talking c (if nas'.state = .registered ∧ nas'.authenticated = true then some nas'.sessionKey else none) nas'
        (xs.map (·.proc)) z := by
    refine ⟨_, rfl, ?_, ?_⟩
    · split <;> rfl
    · by_cases hreg : nas'.state = .registered ∧ nas'.authenticated = true
      · rw [if_pos hreg, if_pos (hready.mpr hreg)]
        refine ⟨htalking.crnti, htalking.rrc, htalking.nas, ⟨rfl, fun k hk => ?_⟩, htalking.busy, htalking.slots⟩
        rw [htalking.nas]
        exact Option.some.inj hk
      · rw [if_neg hreg, if_neg (fun h => hreg (hready.mp h))]
        exact htalking
  obtain ⟨z, hz, hzair, harmed⟩ := harmed
  rw [hz] at hframe
  have hzsent : z.air = u.air ++ ⟨.data, c, ackPdu (UInt8.ofNat q)⟩ :: xs.map (Crossing.frame c) := by
    rw [hzair, hsent]
    dsimp only
    rw [hair, List.append_assoc]
    rfl
  obtain ⟨hmeasuring, hmair⟩ := harmed.startMeasurements
  refine ⟨_, xs, hframe, ?_, ?_, hout⟩
  · cases z.registered with
    | true => exact hmeasuring
    | false => exact harmed
  · cases z.registered with
    | true => exact hmair.trans hzsent
    | false => exact hzsent

end Ue

end StackAttach

end AetherStack.Guarantees
