import AetherStack.Guarantees.RadioLink
import AetherStack.Guarantees.HarqBudget

/-!
# The radio is transparent to the bearers

A UE with a connection, and its cell; frames arrive once and in order. Whatever waits at the
UE's bearers crosses in the scheduler's order, a process for each PDU, and the cell ends as it
would if each PDU were handed to its entity as it stood in the queue: cipher, MAC PDU, code and
HARQ are not to be seen.
-/
namespace AetherStack.Guarantees
open Source Source.Core Mac Rrc Lib

/-! ## What the handling of data leaves to the radio -/

/-- Keys, soft memory, context and the frames on the air stand. -/
structure Steady (rnti : Nat) (n n' : BsNode) : Prop where
  key : (n'.flow rnti).secOn = (n.flow rnti).secOn ∧ (n'.flow rnti).upKey = (n.flow rnti).upKey
  soft : (n'.flow rnti).harqRx = (n.flow rnti).harqRx
  context : (n.rrc.findUe rnti).isSome → (n'.rrc.findUe rnti).isSome
  air : n'.air = n.air

namespace Steady

variable {rnti : Nat} {n n' n'' : BsNode}

theorem refl (n : BsNode) : Steady rnti n n := ⟨⟨rfl, rfl⟩, rfl, id, rfl⟩

theorem trans (h : Steady rnti n n') (h' : Steady rnti n' n'') : Steady rnti n n'' where
  key := ⟨h'.key.1.trans h.key.1, h'.key.2.trans h.key.2⟩
  soft := h'.soft.trans h.soft
  context := fun hsome => h'.context (h.context hsome)
  air := h'.air.trans h.air

/-- A step that leaves the flows and the contexts alone. -/
theorem of_flows (hflows : n'.flows = n.flows) (hrrc : n'.rrc = n.rrc) (hair : n'.air = n.air) : Steady rnti n n' where
  key := by simp only [BsNode.flow, hflows, and_self]
  soft := by simp only [BsNode.flow, hflows]
  context := fun hsome => by rwa [hrrc]
  air := hair

/-- A flow may change, but not in its key or its soft memory. -/
theorem putFlow {r : Nat} {f : Core.DlFlow} (hkey : f.secOn = (n.flow r).secOn ∧ f.upKey = (n.flow r).upKey)
    (hsoft : f.harqRx = (n.flow r).harqRx) : Steady rnti n (n.putFlow r f) := by
  by_cases heq : rnti = r
  · subst heq
    exact ⟨by rw [BsNode.flow_putFlow_self]; exact hkey, by rw [BsNode.flow_putFlow_self]; exact hsoft, id, rfl⟩
  · have hflow := BsNode.flow_putFlow_of_ne n f heq
    exact ⟨by rw [hflow]; exact ⟨rfl, rfl⟩, by rw [hflow], id, rfl⟩

theorem putBearers (n : BsNode) (r : Nat) (bearers : BearerSet) : Steady rnti n (n.putBearers r bearers) :=
  putFlow ⟨rfl, rfl⟩ rfl

theorem touchFlow (n : BsNode) (r : Nat) : Steady rnti n (n.touchFlow r) := putFlow ⟨rfl, rfl⟩ rfl

theorem deliver (n : BsNode) (r : Nat) (imsi : Imsi) (q : Qci) (data : Bytes) :
    Steady rnti n (n.deliver r imsi q data) := by
  unfold BsNode.deliver
  split
  · have hpage : Steady rnti n (n.page imsi) := of_flows rfl rfl rfl
    exact hpage.trans (putBearers _ r _)
  · exact putBearers n r _

section
variable (w : World)

theorem forwardU2uDl {pkt : U2uPacket} {data : Bytes} {exclude : Nat}
    (h : n.forwardU2uDl w pkt data exclude = some n') : Steady rnti n n' := by
  unfold BsNode.forwardU2uDl at h
  dsimp only at h
  split at h
  · cases h
  · obtain rfl := Option.some.inj h
    exact deliver n _ _ _ data

theorem bridgeConfMedia (n : BsNode) (srcRnti : Nat) (pkt : U2uPacket) :
    Steady rnti n (n.bridgeConfMedia w srcRnti pkt) := by
  have hmember : ∀ (n : BsNode) imsi, Steady rnti n (BsNode.bridgeMember w srcRnti pkt n imsi) := by
    intro n imsi
    unfold BsNode.bridgeMember
    dsimp only
    split
    · exact refl n
    · exact deliver n _ _ _ _
  unfold BsNode.bridgeConfMedia
  split
  · exact refl n
  · exact foldl_rel refl trans hmember n _

theorem snoopConfSig (n : BsNode) (pkt : U2uPacket) : Steady rnti n (n.snoopConfSig pkt) := by
  unfold BsNode.snoopConfSig
  split
  · exact refl n
  · split
    · exact refl n
    · exact of_flows rfl rfl rfl

/-- The UPF only answers with data. -/
theorem send_upf (n : BsNode) (value : Bytes) : Steady rnti n (n.send w .upf ⟨.other 32, value⟩) := by
  refine BsNode.send_rel w (Steady rnti) refl trans n (fun rest _ => of_flows rfl rfl rfl) ?_
  intro _ _ r _ hanswer n'
  have htype : r.msgType = .other 33 := BsNode.answersTo_ulData hanswer
  have hhandle : n'.handleLinkMessage w .upf r = n'.onDlData r.value := by
    simp only [BsNode.handleLinkMessage, BsNode.handleCnMessage, htype]
  rw [hhandle]
  unfold BsNode.onDlData
  split
  · exact refl n'
  · exact putBearers n' _ _

/-- Whatever an SDU leads to, the security of the flow stands. -/
theorem handleUlAppSdu (n : BsNode) (r : Nat) (data : Bytes) : Steady rnti n (BsNode.handleUlAppSdu w r n data) := by
  have hecho : ∀ n : BsNode, Steady rnti n (n.sendSdu r .bestEffort data) := fun n => putBearers n r _
  unfold BsNode.handleUlAppSdu
  split
  · exact send_upf w n _
  · split
    · exact hecho n
    · rename_i pkt hpkt
      split
      · exact bridgeConfMedia w n r pkt
      · have hsnoop : Steady rnti n (if pkt.kind = .sig then n.snoopConfSig pkt else n) := by
          split
          · exact snoopConfSig n pkt
          · exact refl n
        dsimp only
        refine hsnoop.trans ?_
        generalize (if pkt.kind = .sig then n.snoopConfSig pkt else n) = m
        split
        · rename_i n' hforward
          exact forwardU2uDl w hforward
        · split
          · exact of_flows rfl rfl rfl
          · exact hecho m

theorem onRlcOutcome (n : BsNode) (r : Nat) (q : Qci) (out : RlcOutcome) : Steady rnti n (n.onRlcOutcome w r q out) := by
  unfold BsNode.onRlcOutcome
  dsimp only
  refine trans (foldl_rel refl trans (fun n data => handleUlAppSdu w n r data) n out.delivered) ?_
  split
  · exact refl _
  · exact putBearers _ r _

end

theorem noteActivity (n : BsNode) (r : Nat) (lcid : UInt8) : Steady rnti n (n.noteActivity r lcid) := by
  have hactive : Steady rnti n (n.putFlow r { n.flow r with lastActivityMs := n.nowMs, suspended := false }) :=
    putFlow ⟨rfl, rfl⟩ rfl
  have hcontext : (n.rrc.findUe rnti).isSome → ((n.rrc.reactivateContext r).findUe rnti).isSome := by
    intro hsome
    unfold RrcBs.reactivateContext
    split
    · exact hsome
    · split
      · exact hsome
      · rw [RrcBs.findUe_putUe_eq]
        split
        · rfl
        · exact hsome
  unfold BsNode.noteActivity
  split
  · dsimp only
    split
    · exact ⟨hactive.key, hactive.soft, hcontext, hactive.air⟩
    · exact hactive
  · exact refl n

end Steady

/-! ## A PDU handed over directly -/

section
variable (w : World)

/-- What the receiving entity of a bearer does with a PDU of its peer. -/
def takePdu (n : BsNode) (rnti : Nat) (q : Qci) (pdu : Bytes) : BsNode :=
  let n := (n.noteActivity rnti (lcidOf q)).touchFlow rnti
  let received := RlcRx.rx q ((n.flow rnti).bearers.bearer q).rx n.nowMs pdu
  (n.putBearers rnti ((n.flow rnti).bearers.withRx q received.1)).onRlcOutcome w rnti q received.2

/-- A queued PDU without cipher and radio: a bearer PDU goes to its entity, the rest to its
logical channel. -/
def takeQueued (rnti : Nat) (n : BsNode) (p : AppPdu) : BsNode :=
  match qciOfLcid p.lcid with
  | some q => takePdu w n rnti q (Pdcp.rx p.bytes)
  | none => BsNode.handleSdu w rnti n (p.lcid, p.bytes)

/-- What stands in the queues of a UE: bearer PDUs in the clear framing, STATUS, CQI reports;
nothing is longer than a coded block. -/
structure Sendable (p : AppPdu) : Prop where
  framed : ∀ q, qciOfLcid p.lcid = some q → ∃ pdu, p.bytes = Pdcp.tx pdu
  channel : (qciOfLcid p.lcid).isSome ∨ (qciOfStatusLcid p.lcid).isSome ∨ p.lcid = lcidCqiReport
  size : p.bytes.length ≤ 32747

theorem lcidOf_of_qciOfLcid {lcid : UInt8} {q : Qci} (h : qciOfLcid lcid = some q) : lcid = lcidOf q := by
  unfold qciOfLcid at h
  split_ifs at h with h1 h2 h3 h4
  all_goals
    obtain rfl := Option.some.inj h
    assumption

/-- What can be queued has a channel number that fits its field. -/
theorem Sendable.lcid_lt {p : AppPdu} (h : Sendable p) : p.lcid < 63 := by
  have hdata : ∀ q, lcidOf q < 63 := by
    intro q
    cases q <;> decide
  rcases h.channel with hsome | hstatus | hcqi
  · obtain ⟨q, hq⟩ := Option.isSome_iff_exists.mp hsome
    rw [lcidOf_of_qciOfLcid hq]
    exact hdata q
  · unfold qciOfStatusLcid at hstatus
    split_ifs at hstatus with h1 h2
    · rw [h1]
      decide
    · rw [h2]
      decide
    · cases hstatus
  · rw [hcqi]
    decide

/-- A UE ciphers what is on a data channel once its security is on. -/
def SealedFor (secOn : Bool) (key : Key256) (p : AppPdu) (sealed : Bytes) : Prop :=
  if secOn && cipheredLcid p.lcid then ∃ seq, sealed = Pdcp.protect (BsNode.pdcpHmac w) key seq p.bytes
  else sealed = p.bytes

variable {w} {n : BsNode} {rnti : Nat}

/-- Sealing adds thirteen octets at most, so the SDU still fits. -/
theorem SealedFor.size {secOn : Bool} {key : Key256} {p : AppPdu} {sealed : Bytes} (h : SealedFor w secOn key p sealed)
    (hp : Sendable p) : Fits p.lcid sealed := by
  refine ⟨hp.lcid_lt, ?_⟩
  have hsize := hp.size
  unfold SealedFor at h
  split at h
  · obtain ⟨seq, rfl⟩ := h
    have hlength : (Pdcp.protect (BsNode.pdcpHmac w) key seq p.bytes).length = p.bytes.length + 13 := by
      rw [Pdcp.protect_eq, Pdcp.length_sealFrame, Pdcp.chacha20Cipher, length_chacha20Xor, Pdcp.secHeaderSize,
        Pdcp.macISize]
      omega
    omega
  · rw [h]
    omega

/-- Behind the same key the sealed SDU of a bearer opens to what was framed. -/
theorem SealedFor.opened {secOn : Bool} {key key' : Key256} {p : AppPdu} {sealed : Bytes} {q : Qci}
    (h : SealedFor w secOn key p sealed) (hq : qciOfLcid p.lcid = some q) (hp : Sendable p)
    (hkey : secOn = true → key' = key) :
    openSdu (BsNode.pdcpHmac w) secOn key' sealed = some (Pdcp.rx p.bytes) ∧ sealed ≠ [] := by
  obtain ⟨pdu, hpdu⟩ := hp.framed q hq
  have hciphered : cipheredLcid p.lcid = true := by simp [cipheredLcid, hq]
  rw [SealedFor, hciphered, Bool.and_true] at h
  rw [hpdu, Pdcp.rx_tx]
  cases secOn with
  | false =>
    rw [if_neg Bool.false_ne_true, hpdu] at h
    rw [h]
    exact ⟨openSdu_clear _ _ pdu, List.cons_ne_nil _ _⟩
  | true =>
    rw [if_pos rfl] at h
    obtain ⟨seq, rfl⟩ := h
    rw [hkey rfl, hpdu]
    exact ⟨openSdu_protect _ _ seq pdu, List.cons_ne_nil _ _⟩

/-- A data SDU that opens goes to the receiving entity of its bearer. -/
theorem handleSdu_data {q : Qci} {sdu pdu : Bytes} (hsdu : sdu ≠ [])
    (hopen : openSdu (BsNode.pdcpHmac w) (n.flow rnti).secOn (n.flow rnti).upKey sdu = some pdu) :
    BsNode.handleSdu w rnti n (lcidOf q, sdu) = takePdu w n rnti q pdu := by
  have hsteady : Steady rnti n ((n.noteActivity rnti (lcidOf q)).touchFlow rnti) :=
    (Steady.noteActivity n rnti _).trans (Steady.touchFlow _ rnti)
  rw [← hsteady.key.1, ← hsteady.key.2] at hopen
  have hdata : ∀ m : BsNode, BsNode.handleSdu w rnti m (lcidOf q, sdu) =
      (m.noteActivity rnti (lcidOf q)).handleAppSdu w rnti q sdu := by
    intro m
    cases q <;> simp [BsNode.handleSdu, hsdu, lcidOf, lcidAppSig, lcidAppVoice, lcidAppVideo, lcidAppDtch, lcidCcch,
      lcidNasDcch, lcidHarqAck, lcidCqiReport, qciOfLcid]
  rw [hdata, BsNode.handleAppSdu]
  dsimp only
  rw [hopen]
  rfl

/-- Behind the same key the sealed SDU is the queued one. -/
theorem handleSdu_sealed {secOn : Bool} {key : Key256} {p : AppPdu} {sealed : Bytes} (hp : Sendable p)
    (h : SealedFor w secOn key p sealed) (hsec : (n.flow rnti).secOn = secOn)
    (hkey : secOn = true → (n.flow rnti).upKey = key) :
    BsNode.handleSdu w rnti n (p.lcid, sealed) = takeQueued w rnti n p := by
  unfold takeQueued
  split
  · rename_i q hq
    obtain ⟨hopened, hsealed⟩ := h.opened hq hp hkey
    rw [← hsec] at hopened
    rw [lcidOf_of_qciOfLcid hq]
    exact handleSdu_data hsealed hopened
  · rename_i hnone
    have hclear : cipheredLcid p.lcid = false := by
      have hnas : p.lcid ≠ lcidNasDcch := by
        intro heq
        rcases hp.channel with hdata | hstatus | hcqi
        · rw [hnone] at hdata
          cases hdata
        · rw [heq] at hstatus
          cases hstatus
        · rw [heq] at hcqi
          cases hcqi
      simp [cipheredLcid, hnas, hnone]
    rw [SealedFor, hclear, Bool.and_false, if_neg Bool.false_ne_true] at h
    rw [h]

end

/-! ## The pump -/

/-- A queued PDU in its block: the process and indicator it took and the SDU it was sealed to. -/
structure Crossing where
  pdu : AppPdu
  proc : Nat
  ndi : UInt8
  sealed : Bytes

namespace Crossing

def frame (rnti : Nat) (c : Crossing) : AirFrame :=
  ⟨.data, rnti, linkEncode (buildPdu [(c.pdu.lcid, c.sealed)]) (UInt8.ofNat c.proc) c.ndi⟩

def ack (rnti : Nat) (c : Crossing) : AirFrame := ⟨.data, rnti, ackPdu (UInt8.ofNat c.proc)⟩

end Crossing

section
variable (w : World)

/-- What a run of the scheduler did: the PDUs it took, each in a block of its own. -/
structure Pumped (procs : List Nat) (cs : List Crossing) (u u' : UeNode) : Prop where
  pops : HarqRecord.Pops u.bearers (cs.map (·.pdu)) u'.bearers
  sealed : ∀ c ∈ cs, SealedFor w u.upSecOn u.upKey c.pdu c.sealed
  air : u'.air = u.air ++ cs.map (Crossing.frame u.crntiCache)
  inFlight : InFlight u'.harqTx (procs ++ cs.map (·.proc))
  config : u'.harqTx.cfg = u.harqTx.cfg
  kept : u' = { u with bearers := u'.bearers, harqTx := u'.harqTx, air := u'.air, pdcpSeq := u'.pdcpSeq }

variable {w}

theorem Pumped.refl {u : UeNode} {procs : List Nat} (h : InFlight u.harqTx procs) : Pumped w procs [] u u where
  pops := .none _
  sealed := fun c hc => absurd hc List.not_mem_nil
  air := (List.append_nil _).symm
  inFlight := by rwa [List.map_nil, List.append_nil]
  config := rfl
  kept := rfl

theorem Pumped.cons {u v u' : UeNode} {procs : List Nat} {c : Crossing} {cs : List Crossing} {bearers : BearerSet}
    (hpop : u.bearers.popNext = some (c.pdu, bearers)) (hsealed : SealedFor w u.upSecOn u.upKey c.pdu c.sealed)
    (hair : v.air = u.air ++ [c.frame u.crntiCache]) (hcfg : v.harqTx.cfg = u.harqTx.cfg)
    (hkept : v = { u with bearers := bearers, harqTx := v.harqTx, air := v.air, pdcpSeq := v.pdcpSeq })
    (h : Pumped w (c.proc :: procs) cs v u') : Pumped w procs (c :: cs) u u' where
  pops := by
    have hbearers : v.bearers = bearers := by rw [hkept]
    exact .pop hpop (hbearers ▸ h.pops)
  sealed := by
    have hsec : v.upSecOn = u.upSecOn ∧ v.upKey = u.upKey := by rw [hkept]; exact ⟨rfl, rfl⟩
    intro d hd
    rcases List.mem_cons.mp hd with rfl | hd
    · exact hsealed
    · have hrest := h.sealed d hd
      rwa [hsec.1, hsec.2] at hrest
  air := by
    have hcrnti : v.crntiCache = u.crntiCache := by rw [hkept]
    rw [h.air, hair, hcrnti, List.append_assoc]
    rfl
  inFlight := h.inFlight.perm List.perm_middle.symm
  config := h.config.trans hcfg
  kept := by
    refine h.kept.trans ?_
    rw [hkept]

/-- One PDU on a free process. -/
theorem uplinkSend_crosses {u : UeNode} {procs : List Nat} (h : InFlight u.harqTx procs)
    (hfree : procs.length < u.harqTx.cfg.numProcesses.toNat) (p : AppPdu) :
    ∃ c : Crossing, c.pdu = p ∧ SealedFor w u.upSecOn u.upKey p c.sealed ∧
      (u.uplinkSend w.digest p.lcid p.bytes).air = u.air ++ [c.frame u.crntiCache] ∧
      InFlight (u.uplinkSend w.digest p.lcid p.bytes).harqTx (c.proc :: procs) ∧
      (u.uplinkSend w.digest p.lcid p.bytes).harqTx.cfg = u.harqTx.cfg ∧
      u.uplinkSend w.digest p.lcid p.bytes = { u with
        harqTx := (u.uplinkSend w.digest p.lcid p.bytes).harqTx
        air := (u.uplinkSend w.digest p.lcid p.bytes).air
        pdcpSeq := (u.uplinkSend w.digest p.lcid p.bytes).pdcpSeq } := by
  have htransmit : ∀ (seq : UInt64) (sealed : Bytes), SealedFor w u.upSecOn u.upKey p sealed →
      ∃ c : Crossing, c.pdu = p ∧ SealedFor w u.upSecOn u.upKey p c.sealed ∧
        ({ u with pdcpSeq := seq }.transmit p.lcid sealed).air = u.air ++ [c.frame u.crntiCache] ∧
        InFlight ({ u with pdcpSeq := seq }.transmit p.lcid sealed).harqTx (c.proc :: procs) ∧
        ({ u with pdcpSeq := seq }.transmit p.lcid sealed).harqTx.cfg = u.harqTx.cfg := by
    intro seq sealed hsealed
    obtain ⟨proc, ndi, t, hsent, hcfg, hnext⟩ := h.send hfree (buildPdu [(p.lcid, sealed)])
    refine ⟨⟨p, proc, ndi, sealed⟩, rfl, hsealed, ?_⟩
    simp only [UeNode.transmit, hsent, Option.toList_some, List.map_cons, List.map_nil]
    exact ⟨rfl, hnext, hcfg⟩
  unfold UeNode.uplinkSend
  split
  · rename_i hciphered
    obtain ⟨c, hc⟩ := htransmit (u.pdcpSeq + 1) (Pdcp.protect (UeNode.pdcpHmac w.digest) u.upKey u.pdcpSeq p.bytes) (by
      rw [SealedFor, if_pos hciphered]
      exact ⟨u.pdcpSeq, rfl⟩)
    exact ⟨c, hc.1, hc.2.1, hc.2.2.1, hc.2.2.2.1, hc.2.2.2.2, rfl⟩
  · rename_i hclear
    obtain ⟨c, hc⟩ := htransmit u.pdcpSeq p.bytes (by rw [SealedFor, if_neg hclear])
    exact ⟨c, hc.1, hc.2.1, hc.2.2.1, hc.2.2.2.1, hc.2.2.2.2, rfl⟩

/-- Nothing to pop is nothing queued. -/
theorem queued_of_popNext_none {s : BearerSet} (h : s.popNext = none) : UeNode.queued s = 0 := by
  unfold BearerSet.popNext at h
  split at h
  · cases h
  · rename_i hctrl
    split at h
    · rename_i hpick
      unfold BearerSet.pickQueue at hpick
      split at hpick
      · cases hpick
      · split at hpick
        · rename_i hnone
          have hempty : ∀ q ∈ [Qci.sig, .voice, .video, .bestEffort], (s.bearer q).queue.length = 0 := by
            intro q hq
            have hquiet := List.find?_eq_none.mp hnone q hq
            simp only [Bool.not_eq_true, Bool.not_eq_false', List.isEmpty_iff] at hquiet
            rw [hquiet, List.length_nil]
          simp [UeNode.queued, hctrl, hempty]
        · cases hpick
    · rename_i q since hpick
      split at h
      · rename_i hempty
        exact absurd hempty (BearerSet.pickQueue_nonempty hpick)
      · cases h

/-- The loop takes PDUs from the queues into free processes, in the order of the scheduler. -/
theorem pumpLoop_crosses (fuel : Nat) {u : UeNode} {procs : List Nat} (h : InFlight u.harqTx procs)
    (hfuel : UeNode.queued u.bearers ≤ fuel) :
    ∃ cs, Pumped w procs cs u (UeNode.pumpLoop w.digest fuel u) ∧
      cs.length = min (UeNode.queued u.bearers) (u.harqTx.cfg.numProcesses.toNat - procs.length) := by
  induction fuel generalizing u procs with
  | zero =>
    refine ⟨[], .refl h, ?_⟩
    rw [Nat.le_zero.mp hfuel, Nat.zero_min, List.length_nil]
  | succ fuel ih =>
    unfold UeNode.pumpLoop
    rw [h.inFlight_eq]
    split
    · rename_i hfree
      cases hpop : u.bearers.popNext with
      | none =>
        refine ⟨[], .refl h, ?_⟩
        rw [queued_of_popNext_none hpop, Nat.zero_min, List.length_nil]
      | some popped =>
        obtain ⟨p, bearers⟩ := popped
        obtain ⟨hcount, -⟩ := popNext_takes hpop
        obtain ⟨c, hpdu, hsealed, hair, hnext, hcfg, hkept⟩ :=
          uplinkSend_crosses (w := w) (u := { u with bearers := bearers }) h hfree p
        dsimp only
        generalize UeNode.uplinkSend w.digest { u with bearers := bearers } p.lcid p.bytes = v at hair hnext hcfg hkept ⊢
        have hbearers : v.bearers = bearers := by rw [hkept]
        have hcfg : v.harqTx.cfg = u.harqTx.cfg := hcfg
        obtain ⟨cs, hpumped, hlength⟩ := ih hnext (by rw [hbearers]; omega)
        refine ⟨c :: cs, .cons (hpdu ▸ hpop) (hpdu ▸ hsealed) hair hcfg hkept hpumped, ?_⟩
        · rw [List.length_cons, hlength, hbearers, hcfg, List.length_cons]
          omega
    · rename_i hfull
      refine ⟨[], .refl h, ?_⟩
      rw [Nat.sub_eq_zero_of_le (Nat.le_of_not_lt hfull), Nat.min_zero, List.length_nil]

end

/-! ## The frames at the cell -/

section
variable (w : World)

/-- The PDUs are taken one after the other, each as it stood in its queue, behind the reception
of its block. -/
inductive Taken (rnti : Nat) : BsNode → List AppPdu → BsNode → Prop
  | none (n : BsNode) : Taken rnti n [] n
  | pdu {n n' : BsNode} {p : AppPdu} {ps : List AppPdu} (snr : ℚ) (proc : Nat)
      (rest : Taken rnti (takeQueued w rnti (BsHop.heard n rnti snr proc) p) ps n') : Taken rnti n (p :: ps) n'

variable {w}

theorem Taken.trans {rnti : Nat} {n n' n'' : BsNode} {ps qs : List AppPdu} (h : Taken w rnti n ps n')
    (h' : Taken w rnti n' qs n'') : Taken w rnti n (ps ++ qs) n'' := by
  induction h with
  | none n => exact h'
  | pdu snr proc rest ih => exact .pdu snr proc (ih h')

/-- What a cell needs for the blocks of a UE: the context, an empty soft memory and the UE's key. -/
structure Tuned (rnti : Nat) (secOn : Bool) (key : Key256) (n : BsNode) : Prop where
  context : (n.rrc.findUe rnti).isSome
  slots : ∀ p, (n.flow rnti).harqRx.SlotEmpty p
  sec : (n.flow rnti).secOn = secOn
  key : secOn = true → (n.flow rnti).upKey = key

theorem Tuned.steady {rnti : Nat} {secOn : Bool} {key : Key256} {n n' : BsNode} (h : Tuned rnti secOn key n)
    (hsteady : Steady rnti n n') : Tuned rnti secOn key n' where
  context := hsteady.context h.context
  slots := by
    rw [hsteady.soft]
    exact h.slots
  sec := hsteady.key.1.trans h.sec
  key := fun hsec => hsteady.key.2.trans (h.key hsec)

theorem noteSnr_steady (n : BsNode) (rnti : Nat) (snr : ℚ) : Steady rnti n (n.noteSnr rnti snr) := by
  unfold BsNode.noteSnr
  split
  · exact .putFlow ⟨rfl, rfl⟩ rfl
  · exact .refl n

/-- The answer is all that a reception adds on the air. -/
theorem heard_steady (n : BsNode) (rnti : Nat) (snr : ℚ) (proc : Nat) :
    ∃ m, Steady rnti n m ∧ BsHop.heard n rnti snr proc =
      { m with air := m.air ++ [⟨.data, rnti, ackPdu (UInt8.ofNat proc)⟩] } := by
  refine ⟨_, (noteSnr_steady n rnti snr).trans (.putFlow ⟨?_, ?_⟩ ?_), rfl⟩
  all_goals rfl

/-- A PDU that is taken leaves key and soft memory as they were. -/
theorem takeQueued_steady {p : AppPdu} (hp : Sendable p) (n : BsNode) (rnti : Nat) :
    Steady rnti n (takeQueued w rnti n p) := by
  unfold takeQueued
  split
  · exact ((Steady.noteActivity n rnti _).trans (.touchFlow _ rnti)).trans
      ((Steady.putBearers _ rnti _).trans (.onRlcOutcome w _ rnti _ _))
  · rename_i hnone
    have hcontrol : p.lcid = lcidRlcStatusSig ∨ p.lcid = lcidRlcStatus ∨ p.lcid = lcidCqiReport := by
      rcases hp.channel with hdata | hstatus | hcqi
      · rw [hnone] at hdata
        cases hdata
      · unfold qciOfStatusLcid at hstatus
        split_ifs at hstatus with h1 h2
        · exact .inl h1
        · exact .inr (.inl h2)
        · cases hstatus
      · exact .inr (.inr hcqi)
    by_cases hempty : p.bytes = []
    · rw [BsNode.handleSdu, if_pos hempty]
      exact .refl n
    · rw [BsNode.handleSdu, if_neg hempty]
      rcases hcontrol with h | h | h
      · rw [h]
        exact .putBearers n rnti _
      · rw [h]
        exact .putBearers n rnti _
      · rw [h]
        exact .putFlow ⟨rfl, rfl⟩ rfl

/-- The cell takes the blocks in the order they were sent and acknowledges each. -/
theorem carry_crossings {rnti : Nat} (hrnti : rnti ≠ 0 ∧ rnti ≠ rntiBroadcast) (snr : BsNode → AirFrame → ℚ)
    {secOn : Bool} {key : Key256} (cs : List Crossing) (hprocs : ∀ c ∈ cs, c.proc < 0x7F)
    (hpdus : ∀ c ∈ cs, Sendable c.pdu) (hsealed : ∀ c ∈ cs, SealedFor w secOn key c.pdu c.sealed) {n : BsNode}
    (h : Tuned rnti secOn key n) :
    ∃ n', (cs.map (Crossing.frame rnti)).foldlM (fun (n : BsNode) f => n.handleAirFrame w f (snr n f)) n = .ok n' ∧
      Taken w rnti n (cs.map (·.pdu)) n' ∧ Tuned rnti secOn key n' ∧ n'.air = n.air ++ cs.map (Crossing.ack rnti) := by
  induction cs generalizing n with
  | nil => exact ⟨n, rfl, .none n, h, (List.append_nil _).symm⟩
  | cons c cs ih =>
    have hpdu := hpdus c List.mem_cons_self
    have hseal := hsealed c List.mem_cons_self
    have hframe := BsHop.handleAirFrame_block (w := w) (snr n (c.frame rnti)) hrnti h.context h.slots (hseal.size hpdu)
      (hprocs c List.mem_cons_self) c.ndi
    obtain ⟨m, hsteady, hheard⟩ := heard_steady n rnti (snr n (c.frame rnti)) c.proc
    have htuned := h.steady hsteady
    have hready : Tuned rnti secOn key (BsHop.heard n rnti (snr n (c.frame rnti)) c.proc) := by
      rw [hheard]
      exact ⟨htuned.context, htuned.slots, htuned.sec, htuned.key⟩
    have htaken := takeQueued_steady (w := w) hpdu (BsHop.heard n rnti (snr n (c.frame rnti)) c.proc) rnti
    rw [handleSdu_sealed hpdu hseal hready.sec hready.key] at hframe
    obtain ⟨n', hfold, hrest, htuned', hair⟩ := ih (fun d hd => hprocs d (List.mem_cons_of_mem _ hd))
      (fun d hd => hpdus d (List.mem_cons_of_mem _ hd)) (fun d hd => hsealed d (List.mem_cons_of_mem _ hd))
      (hready.steady htaken)
    refine ⟨n', ?_, .pdu _ _ hrest, htuned', ?_⟩
    · rw [List.map_cons, List.foldlM_cons]
      exact (congrArg (fun r => bind r _) hframe).trans hfold
    · rw [hair, htaken.air, hheard]
      dsimp only
      rw [hsteady.air, List.append_assoc]
      rfl

end

/-! ## The answers at the UE -/

/-- The acknowledgements free the processes of the UE. -/
theorem carry_acks (digest : KeyedDigest) (cs : List Crossing) (hprocs : ∀ c ∈ cs, c.proc < 0x7F) {u : UeNode}
    (hrnti : u.crntiCache ≠ rntiBroadcast) (h : InFlight u.harqTx (cs.map (·.proc))) :
    ∃ u', (cs.map (Crossing.ack u.crntiCache)).foldlM (fun (u : UeNode) f => u.handleAirFrame digest f) u = .ok u' ∧
      InFlight u'.harqTx [] ∧ u'.harqTx.cfg = u.harqTx.cfg ∧
      u' = { u with harqTx := u'.harqTx, lastDlMs := u'.lastDlMs } := by
  induction cs generalizing u with
  | nil => exact ⟨u, rfl, h, rfl, rfl⟩
  | cons c cs ih =>
    have hack := UeHop.handleAirFrame_ack digest hrnti (hprocs c List.mem_cons_self)
    have hfreed : InFlight (UeHop.freed u c.proc).harqTx (cs.map (·.proc)) := by
      have hnext := (h.advance u.nowMs).onAck c.proc
      rwa [List.map_cons, List.erase_cons_head] at hnext
    obtain ⟨u', hfold, hidle, hcfg, hkept⟩ := ih (fun d hd => hprocs d (List.mem_cons_of_mem _ hd))
      (u := UeHop.freed u c.proc) hrnti hfreed
    refine ⟨u', ?_, hidle, hcfg.trans (InFlight.cfg_onAck _ _), hkept⟩
    rw [List.map_cons, List.foldlM_cons]
    exact (congrArg (fun r => bind r _) hack).trans hfold

/-! ## Rounds -/

namespace AirLink

section
variable (w : World)

section
variable (snr : BsNode → AirFrame → ℚ)

/-- The scheduler of the UE, its frames to the cell, the answers back. -/
def uplinkRound (l : AirLink) : Except Fec.DecodeError AirLink := do
  let l ← carryUp w snr { l with ue := l.ue.pumpAppBearers w.digest }
  carryDown w l

def uplinkRounds : Nat → AirLink → Except Fec.DecodeError AirLink
  | 0, l => .ok l
  | k + 1, l => do
    let l ← l.uplinkRound w snr
    uplinkRounds k l

end

/-- A connected UE and its cell between two rounds: one C-RNTI, one security, nothing under way. -/
structure Associated (l : AirLink) : Prop where
  rnti : l.ue.crntiCache ≠ 0 ∧ l.ue.crntiCache ≠ rntiBroadcast
  active : l.ue.rrc.inactive = false
  idle : InFlight l.ue.harqTx []
  tuned : Tuned l.ue.crntiCache l.ue.upSecOn l.ue.upKey l.cell
  received : l.up = l.ue.air.length ∧ l.down = l.cell.air.length

/-- The PDUs crossed: they left the queues in the scheduler's order and were taken in that order,
and nothing else of the UE changed but its processes and its counter. -/
structure Crossed (l : AirLink) (taken : List AppPdu) (l' : AirLink) : Prop where
  associated : l'.Associated
  pops : HarqRecord.Pops l.ue.bearers taken l'.ue.bearers
  taken : Taken w l.ue.crntiCache l.cell taken l'.cell
  config : l'.ue.harqTx.cfg = l.ue.harqTx.cfg
  kept : l'.ue = { l.ue with
    bearers := l'.ue.bearers, harqTx := l'.ue.harqTx, air := l'.ue.air, pdcpSeq := l'.ue.pdcpSeq
    lastDlMs := l'.ue.lastDlMs }

variable {w}

/-- What was popped was queued, and the rest still is. -/
theorem pops_spec {s s' : BearerSet} {ps : List AppPdu} (h : HarqRecord.Pops s ps s') :
    (∀ p ∈ ps, s.Queued p) ∧ (∀ p, s'.Queued p → s.Queued p) ∧ UeNode.queued s = UeNode.queued s' + ps.length := by
  induction h with
  | none s => exact ⟨fun p hp => absurd hp List.not_mem_nil, fun _ => id, rfl⟩
  | pop head rest ih =>
    obtain ⟨hmem, hleft, hcount⟩ := ih
    obtain ⟨hqueued, -, hrest, -⟩ := BearerSet.popNext_spec head
    refine ⟨fun p hp => ?_, fun p hp => hrest p (hleft p hp), ?_⟩
    · rcases List.mem_cons.mp hp with rfl | hp
      · exact hqueued
      · exact hrest p (hmem p hp)
    · rw [(popNext_takes head).1, hcount, List.length_cons]
      omega

theorem pops_trans {s s' s'' : BearerSet} {ps qs : List AppPdu} (h : HarqRecord.Pops s ps s')
    (h' : HarqRecord.Pops s' qs s'') : HarqRecord.Pops s (ps ++ qs) s'' := by
  induction h with
  | none s => exact h'
  | pop head rest ih => exact .pop head (ih h')

/-- One round: everything that finds a process crosses, and the link is ready again. -/
theorem uplinkRound_crosses (snr : BsNode → AirFrame → ℚ) {l : AirLink} (h : l.Associated) (hqueue : ∀ p, l.ue.bearers.Queued p → Sendable p) :
    ∃ l' taken, l.uplinkRound w snr = .ok l' ∧ Crossed w l taken l' ∧
      taken.length = min (UeNode.queued l.ue.bearers) l.ue.harqTx.cfg.numProcesses.toNat := by
  obtain ⟨cs, hpumped, hlength⟩ := pumpLoop_crosses (w := w) (UeNode.queued l.ue.bearers) h.idle (Nat.le_refl _)
  have hpump : l.ue.pumpAppBearers w.digest = UeNode.pumpLoop w.digest (UeNode.queued l.ue.bearers) l.ue := by
    rw [UeNode.pumpAppBearers, h.active, if_neg Bool.false_ne_true]
  rw [← hpump] at hpumped
  generalize hu : l.ue.pumpAppBearers w.digest = u at hpumped
  have hprocs : ∀ c ∈ cs, c.proc < 0x7F := by
    intro c hc
    have hlt := hpumped.inFlight.lt (List.mem_append_right [] (List.mem_map_of_mem hc))
    exact hlt.trans hpumped.inFlight.small
  have hpdus : ∀ c ∈ cs, Sendable c.pdu := fun c hc =>
    hqueue _ ((pops_spec hpumped.pops).1 _ (List.mem_map_of_mem hc))
  have hcrnti : u.crntiCache = l.ue.crntiCache := by rw [hpumped.kept]
  obtain ⟨n, hup, htaken, htuned, hair⟩ := carry_crossings h.rnti snr cs hprocs hpdus hpumped.sealed h.tuned
  obtain ⟨u', hdown, hidle, hcfg, hkept⟩ := carry_acks w.digest cs hprocs (hcrnti ▸ h.rnti.2) hpumped.inFlight
  have hsent : u.air.drop l.up = cs.map (Crossing.frame l.ue.crntiCache) := by
    rw [hpumped.air, h.received.1, List.drop_left]
  have hanswered : n.air.drop l.down = cs.map (Crossing.ack u.crntiCache) := by
    rw [hair, h.received.2, List.drop_left, hcrnti]
  refine ⟨⟨u', n, u.air.length, n.air.length⟩, cs.map (·.pdu), ?_, ?_, ?_⟩
  · have hcarried : carryUp w snr { l with ue := u } = .ok { l with ue := u, cell := n, up := u.air.length } := by
      rw [carryUp, hsent, hup]
      rfl
    have hback : carryDown w { l with ue := u, cell := n, up := u.air.length } =
        .ok ⟨u', n, u.air.length, n.air.length⟩ := by
      rw [carryDown, hanswered, hdown]
      rfl
    rw [uplinkRound, hu, hcarried]
    exact hback
  · have hall : u' = { l.ue with
        bearers := u.bearers, harqTx := u'.harqTx, air := u.air, pdcpSeq := u.pdcpSeq, lastDlMs := u'.lastDlMs } := by
      rw [hkept, hpumped.kept]
    refine ⟨⟨?_, ?_, hidle, ?_, ?_, rfl⟩, ?_, htaken, hcfg.trans hpumped.config, ?_⟩
    · rw [hall]
      exact h.rnti
    · rw [hall]
      exact h.active
    · rw [hall]
      exact htuned
    · rw [hall]
    · rw [hall]
      exact hpumped.pops
    · dsimp only
      rw [hall]
  · rw [List.length_map, hlength, List.length_nil, Nat.sub_zero]

/-- What waits at the bearers of a connected UE crosses, as many PDUs a round as there are
processes, and the cell takes each as it stood in its queue. -/
theorem uplink_crosses_radio (w : World) (snr : BsNode → AirFrame → ℚ) {l : AirLink} (h : l.Associated)
    (hqueue : ∀ p, l.ue.bearers.Queued p → Sendable p) (k : Nat) :
    ∃ l' taken, l.uplinkRounds w snr k = .ok l' ∧ Crossed w l taken l' ∧
      taken.length = min (UeNode.queued l.ue.bearers) (k * l.ue.harqTx.cfg.numProcesses.toNat) := by
  induction k generalizing l with
  | zero =>
    refine ⟨l, [], rfl, ⟨h, .none _, .none _, rfl, rfl⟩, ?_⟩
    rw [Nat.zero_mul, Nat.min_zero, List.length_nil]
  | succ k ih =>
    obtain ⟨m, first, hround, hfirst, hlength⟩ := uplinkRound_crosses snr h hqueue
    obtain ⟨-, hleft, hcount⟩ := pops_spec hfirst.pops
    obtain ⟨l', rest, hrounds, hrest, hlength'⟩ := ih hfirst.associated fun p hp => hqueue p (hleft p hp)
    refine ⟨l', first ++ rest, ?_, ?_, ?_⟩
    · rw [uplinkRounds, hround]
      exact hrounds
    · have hcrnti : m.ue.crntiCache = l.ue.crntiCache := by rw [hfirst.kept]
      refine ⟨hrest.associated, pops_trans hfirst.pops hrest.pops, hfirst.taken.trans (hcrnti ▸ hrest.taken),
        hrest.config.trans hfirst.config, ?_⟩
      refine hrest.kept.trans ?_
      rw [hfirst.kept]
    · rw [List.length_append, hlength', hlength, hfirst.config]
      rw [hlength] at hcount
      rw [Nat.succ_mul]
      omega

end

/-- A ping and a channel report wait at a UE with security. -/
def waitingLink : AirLink where
  ue := { UeNode.make { imsi := [0x31] } with
    crntiCache := 7, upSecOn := true
    bearers := { BearerSet.make.withQueue .bestEffort [{ lcid := lcidAppDtch, bytes := Pdcp.tx [1, 2, 3] }] with
      ctrl := [{ lcid := lcidCqiReport, bytes := [9] }] } }
  cell := { BsNode.make {} (fun _ => none) with rrc := (RrcBs.make 1 [52] 1 1).admitConnected 7 }.putFlow 7
    { toDlFlow := { secOn := true } }

theorem uplink_crosses_radio_waiting :
    ∃ l' taken, waitingLink.uplinkRounds World.plain (fun _ _ => 20) 1 = .ok l' ∧
      Crossed World.plain waitingLink taken l' ∧ taken.length = 2 := by
  have hqueue : ∀ p, waitingLink.ue.bearers.Queued p → Sendable p := by
    rintro p (hctrl | ⟨q, hq⟩)
    · obtain rfl := List.mem_singleton.mp hctrl
      exact ⟨fun q hq => (nomatch hq), .inr (.inr rfl), by decide⟩
    · cases q with
      | bestEffort =>
        obtain rfl := List.mem_singleton.mp hq
        exact ⟨fun q _ => ⟨[1, 2, 3], rfl⟩, .inl rfl, by decide⟩
      | _ => cases hq
  have hassociated : waitingLink.Associated := by
    refine ⟨by decide, rfl, .init (by decide), ⟨?_, ?_, ?_, fun _ => ?_⟩, rfl, rfl⟩
    · show ((RrcBs.admitConnected _ 7).findUe 7).isSome
      rw [RrcBs.admitConnected, RrcBs.findUe_putUe_eq, if_pos rfl]
      rfl
    · show ∀ p, ((BsNode.putFlow _ 7 _).flow 7).harqRx.SlotEmpty p
      rw [BsNode.flow_putFlow_self]
      exact HarqRx.slotEmpty_initial
    · show ((BsNode.putFlow _ 7 _).flow 7).secOn = true
      rw [BsNode.flow_putFlow_self]
    · show ((BsNode.putFlow _ 7 _).flow 7).upKey = _
      rw [BsNode.flow_putFlow_self]
      rfl
  obtain ⟨l', taken, hrounds, hcrossed, hlength⟩ :=
    uplink_crosses_radio World.plain (fun _ _ => 20) hassociated hqueue 1
  exact ⟨l', taken, hrounds, hcrossed, hlength.trans (by decide)⟩

end AirLink

end AetherStack.Guarantees
