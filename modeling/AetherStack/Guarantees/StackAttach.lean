import AetherStack.Guarantees.AkaCompleteness
import AetherStack.Guarantees.AttachFrames

/-!
# An attach through the whole stack

A UE that is switched on and a cell that serves nobody, with frames that arrive once and in
order, before a timer of the UE is due. The broadcast, random access, the RRC connection, the
authenticated registration and the security of both sides follow each other by themselves: in an
exchange the cell takes what the UE has put on the air, ticks, and the UE takes what the cell has.
A tick of the cell may find its SIB timer due, so that broadcasts stand between the frames for the
UE. The cell runs without a core network and without a timer for RRC_INACTIVE.
-/
namespace AetherStack.Guarantees
open Source Source.Core Mac Rrc Lib AttachRun

namespace StackAttach

/-! ## Exchanges -/

/-- A tick of the cell: what its clock shows and how many SIB timers are due. -/
structure CellTick where
  nowMs : UInt32
  sibs : Nat := 0

def CellTick.run (w : World) (t : CellTick) (n : BsNode) : BsNode := n.tickDue w t.nowMs t.sibs

/-- What the UE has put on the air, a tick of the cell, what the cell has put on the air; no burst
is measured. -/
def exchange (w : World) (t : CellTick) (l : AirLink) : Except Fec.DecodeError AirLink := do
  let l ← l.carryUp w fun _ _ => -100
  AirLink.carryDown w { l with cell := t.run w l.cell }

def exchanges (w : World) : List CellTick → AirLink → Except Fec.DecodeError AirLink
  | [], l => .ok l
  | t :: ts, l => do
    let l ← exchange w t l
    exchanges w ts l

/-- The request of the user and the broadcast of the cell. -/
def switchOn (w : World) (l : AirLink) : Except Fec.DecodeError AirLink :=
  AirLink.carryDown w { l with ue := l.ue.attach w.digest, cell := l.cell.broadcastSib }

theorem foldlM_cons_ok {σ α ε : Type} {f : σ → α → Except ε σ} {s s' : σ} {a : α} (as : List α) (h : f s a = .ok s') :
    (a :: as).foldlM f s = as.foldlM f s' := by
  rw [List.foldlM_cons, h]
  rfl

theorem foldlM_append_ok {σ α ε : Type} {f : σ → α → Except ε σ} {s s' : σ} {as : List α} (bs : List α)
    (h : as.foldlM f s = .ok s') : (as ++ bs).foldlM f s = bs.foldlM f s' := by
  rw [List.foldlM_append, h]
  rfl

section Exchange

variable {w : World} {l : AirLink} {c : Nat}

theorem exchange_eq {t : CellTick} {fs gs : List AirFrame} {n : BsNode} {u : UeNode} (hup : l.ue.air.drop l.up = fs)
    (hcell : fs.foldlM (fun (n : BsNode) f => n.handleAirFrame w f (-100)) l.cell = .ok n)
    (hdown : (t.run w n).air.drop l.down = gs)
    (hue : gs.foldlM (fun (u : UeNode) f => u.handleAirFrame w.digest f) l.ue = .ok u) :
    exchange w t l = .ok ⟨u, t.run w n, l.ue.air.length, (t.run w n).air.length⟩ := by
  have hcarried : l.carryUp w (fun _ _ => -100) = .ok { l with cell := n, up := l.ue.air.length } := by
    rw [AirLink.carryUp, hup, hcell]
    rfl
  have hback : AirLink.carryDown w { l with cell := t.run w n, up := l.ue.air.length } =
      .ok ⟨u, t.run w n, l.ue.air.length, (t.run w n).air.length⟩ := by
    rw [AirLink.carryDown, hdown, hue]
    rfl
  rw [exchange, hcarried]
  exact hback

/-- What the cell is left with by a tick that puts `fs` on the air. -/
structure Ticked (t : CellTick) (w : World) (n : BsNode) (fs : List AirFrame) : Prop where
  nas : (t.run w n).nas = n.nas
  rrc : (t.run w n).rrc = n.rrc
  tmsiToCrnti : (t.run w n).tmsiToCrnti = n.tmsiToCrnti
  air : (t.run w n).air = n.air ++ fs

/-- A tick puts the one waiting PDU on the air, and broadcasts with it. -/
theorem tick_sends {key : Option Key256} {p : AppPdu} {n : BsNode} (hclear : p.cipher = false)
    (h : Serving c key [p] [] n) (t : CellTick) :
    ∃ q ndi k, Serving c key [] [q] (t.run w n) ∧ Ticked t w n (List.replicate k (sibFrame n.rrc) ++
      [⟨.data, c, linkEncode (buildPdu [(p.lcid, p.bytes)]) (UInt8.ofNat q) ndi⟩]) := by
  obtain ⟨m, k, hm, hnas, hrrc, hmap, hair, htick⟩ := tick_schedules (w := w) h t.nowMs t.sibs
  obtain ⟨q, ndi, hsent, hsnas, hsrrc, hsmap, hsair⟩ := drainFlow_sends (w := w) hclear hm
  rw [← htick] at hsent hsnas hsrrc hsmap hsair
  exact ⟨q, ndi, k, hsent, hsnas.trans hnas, hsrrc.trans hrrc, hsmap.trans hmap,
    by rw [← List.append_assoc, ← hair]; exact hsair⟩

/-- With nothing waiting a tick broadcasts at most. -/
theorem tick_idle {key : Option Key256} {n : BsNode} (h : Serving c key [] [] n) (t : CellTick) :
    ∃ k, Serving c key [] [] (t.run w n) ∧ Ticked t w n (List.replicate k (sibFrame n.rrc)) := by
  obtain ⟨m, k, hm, hnas, hrrc, hmap, hair, htick⟩ := tick_schedules (w := w) h t.nowMs t.sibs
  rw [drainFlow_idle hm] at htick
  rw [← htick] at hm hnas hrrc hmap hair
  exact ⟨k, hm, hnas, hrrc, hmap, hair⟩

/-- The cell has an answer for the UE in its queue and the UE has what it needs to take it. -/
theorem turn {key key' : Option Key256} {nas nas' : Nas.NasUe} {cs : List Crossing} {fs : List AirFrame} {n : BsNode}
    {reply : Bytes} {out : List Bytes} (hc : c ≠ 0 ∧ c < rntiBroadcast)
    (hue : Talking c none nas (cs.map (·.proc)) l.ue) (hup : l.ue.air.drop l.up = fs)
    (hcell : fs.foldlM (fun (n : BsNode) f => n.handleAirFrame w f (-100)) l.cell = .ok n)
    (hqueued : Serving c key [{ lcid := lcidNasDcch, bytes := Pdcp.tx reply }] [] n)
    (hair : n.air = l.cell.air ++ cs.map (Crossing.ack c)) (hdown : l.down = l.cell.air.length)
    (hsize : reply.length ≤ 1000) (hanswer : nas.onMessage w.digest reply = (nas', out)) (hroom : out.length ≤ 8)
    (harmed : (if nas'.state = .registered ∧ nas'.authenticated = true then some nas'.sessionKey else none) = key')
    (tick : CellTick) :
    ∃ l', ∃ q, ∃ xs : List Crossing, exchange w tick l = .ok l' ∧ Talking c key' nas' (xs.map (·.proc)) l'.ue ∧
      Serving c key [] [q] l'.cell ∧ l'.cell.nas = n.nas ∧ l'.cell.rrc = n.rrc ∧ l'.cell.tmsiToCrnti = n.tmsiToCrnti ∧
      l'.down = l'.cell.air.length ∧
      l'.ue.air.drop l'.up = ⟨.data, c, ackPdu (UInt8.ofNat q)⟩ :: xs.map (Crossing.frame c) ∧
      xs.map (fun x => (x.pdu.lcid, x.sealed)) = out.map fun pdu => (lcidNasDcch, Pdcp.tx pdu) := by
  obtain ⟨q, ndi, k, hserving, hticked⟩ := tick_sends (w := w) rfl hqueued tick
  have hprocs : ∀ x ∈ cs, x.proc < 0x7F := fun x hx =>
    (hue.busy.1.lt (List.mem_map_of_mem hx)).trans hue.busy.1.small
  obtain ⟨u, hacked, hidle, hcfg, hkept⟩ := carry_acks w.digest cs hprocs (by rw [hue.crnti]; exact hc.2.ne) hue.busy.1
  rw [hue.crnti] at hacked
  have hlistening : Talking c none nas [] u := by
    refine ⟨?_, ?_, ?_, unarmed ?_, ⟨hidle, hcfg.trans hue.busy.2⟩, ?_⟩
    all_goals rw [hkept]
    · exact hue.crnti
    · exact hue.rrc
    · exact hue.nas
    · exact hue.security.1
    · exact hue.slots
  have hq : q < 0x7F := (hserving.flow.busy.1.lt (List.mem_singleton.mpr rfl)).trans hserving.flow.busy.1.small
  obtain ⟨v, hinformed, hready, hvair⟩ := hlistening.hears (w := w) hqueued.named k
  obtain ⟨u', xs, htaken, htalking, huair, hout⟩ := ue_nas hready hc hq ndi hsize hanswer hroom
  rw [harmed] at htalking
  have hfresh : (tick.run w n).air.drop l.down = cs.map (Crossing.ack c) ++ (List.replicate k (sibFrame n.rrc) ++
      [⟨.data, c, linkEncode (buildPdu [(lcidNasDcch, Pdcp.tx reply)]) (UInt8.ofNat q) ndi⟩]) := by
    rw [hticked.air, hair, hdown, List.append_assoc, List.drop_left]
  have hreceived : (cs.map (Crossing.ack c) ++ (List.replicate k (sibFrame n.rrc) ++
      [(⟨.data, c, linkEncode (buildPdu [(lcidNasDcch, Pdcp.tx reply)]) (UInt8.ofNat q) ndi⟩ : AirFrame)])).foldlM
      (fun (u : UeNode) f => u.handleAirFrame w.digest f) l.ue = .ok u' :=
    (foldlM_append_ok _ hacked).trans ((foldlM_append_ok _ hinformed).trans (foldlM_cons_ok [] htaken))
  refine ⟨_, q, xs, exchange_eq hup hcell hfresh hreceived, htalking, hserving, hticked.nas, hticked.rrc,
    hticked.tmsiToCrnti, rfl, ?_, hout⟩
  have hsame : u.air = l.ue.air := by rw [hkept]
  rw [huair, hvair, hsame, List.drop_left]

end Exchange

/-! ## The phases of the attach -/

/-- A USIM with the key, and a sequence number whose successor does not wrap. -/
structure Usim (k : Key256) (nas : Nas.NasUe) : Prop where
  state : nas.state = .deregistered
  key : nas.usimKey = k ∧ nas.hasUsim = true
  sqn : nas.sqnMs.toNat < 2 ^ 48 - 1

/-- A registrar that knows the subscriber and has a TMSI nobody uses. -/
structure Knowing (imsi : Bytes) (k : Key256) (n : BsNode) : Prop where
  key : n.nas.keys imsi = some k
  pending : n.nas.pendingAuth = ∅
  next : n.nas.nextTmsi < u32Modulus
  keyless : n.nas.sessionKeys[n.nas.nextTmsi]? = none
  unmapped : n.tmsiToCrnti[n.nas.nextTmsi]? = none

/-- Only the registrar and its map matter. -/
theorem Knowing.of_eq {imsi : Bytes} {k : Key256} {n n' : BsNode} (h : Knowing imsi k n) (hnas : n'.nas = n.nas)
    (hmap : n'.tmsiToCrnti = n.tmsiToCrnti) : Knowing imsi k n' :=
  ⟨by rw [hnas]; exact h.key, by rw [hnas]; exact h.pending, by rw [hnas]; exact h.next, by rw [hnas]; exact h.keyless,
    by rw [hnas, hmap]; exact h.unmapped⟩

/-- Blocks of the UE are on their way, behind its answer to the last one of the cell. -/
structure Relaying (c : Nat) (nas : Nas.NasUe) (cs : List Crossing) (l : AirLink) : Prop where
  ue : Talking c none nas (cs.map (·.proc)) l.ue
  cell : ∃ q, Serving c none [] [q] l.cell ∧
    l.ue.air.drop l.up = ⟨.data, c, ackPdu (UInt8.ofNat q)⟩ :: cs.map (Crossing.frame c)
  down : l.down = l.cell.air.length

/-- The one pending challenge belongs to a TMSI that leads to the UE. -/
structure Challenged (w : World) (imsi : Bytes) (k : Key256) (c t : Nat) (ctx : NasUeContext) (rand : Rand)
    (n : BsNode) : Prop where
  challenging : ∃ sqn, Challenging w.digest imsi k n.nas t ctx sqn rand
  keyless : n.nas.sessionKeys[t]? = none
  mapped : n.tmsiToCrnti[t]? = some c
  connected : n.rrc.isUeConnected c

/-- The registration under the TMSI of the UE, with its session key. -/
structure Registered (imsi : Bytes) (c : Nat) (l : AirLink) : Prop where
  ue : l.ue.nas.state = .registered ∧ l.ue.nas.authenticated = true
  context : ∃ ctx, l.cell.nas.ueContexts[l.ue.nas.assignedTmsi]? = some ctx ∧ ctx.imsi = imsi ∧ ctx.registered = true
  key : l.cell.nas.sessionKeys[l.ue.nas.assignedTmsi]? = some l.ue.nas.sessionKey
  mapped : l.cell.tmsiToCrnti[l.ue.nas.assignedTmsi]? = some c
  connected : l.cell.rrc.isUeConnected c

def isNas (pdu : Bytes) (x : Crossing) : Prop := x.pdu.lcid = lcidNasDcch ∧ x.sealed = Pdcp.tx pdu

/-- Where an attach stands; so many exchanges are left at most. -/
inductive Phase (w : World) (imsi : Bytes) (k : Key256) (c : Nat) : Nat → AirLink → Prop
  | asking {left : Nat} {l : AirLink} {nas : Nas.NasUe} {air : List AirFrame} (bound : 6 ≤ left)
      (ue : Asking l.ue l.cell.rrc.cellId imsi nas air) (sent : air.length = l.up) (down : l.down = l.cell.air.length)
      (vacant : Vacant l.cell) (named : Named l.cell.rrc) (next : l.cell.rach.nextCrnti = c) (usim : Usim k nas)
      (knowing : Knowing imsi k l.cell) : Phase w imsi k c left l
  | contending {left : Nat} {l : AirLink} {nas : Nas.NasUe} {raRnti : Nat} (bound : 5 ≤ left)
      (ue : Contending l.ue raRnti imsi nas) (sent : l.ue.air.drop l.up = [msg3Frame raRnti l.cell.rrc.cellId])
      (known : raRnti < snModulus ∧ (l.cell.rach.ueContexts[raRnti]?).isSome) (down : l.down = l.cell.air.length)
      (vacant : Vacant l.cell) (named : Named l.cell.rrc) (next : l.cell.rach.nextCrnti = c) (usim : Usim k nas)
      (knowing : Knowing imsi k l.cell) : Phase w imsi k c left l
  | requested {left : Nat} {l : AirLink} {nas : Nas.NasUe} {x y : Crossing} (bound : 4 ≤ left)
      (relaying : Relaying c nas [x, y] l) (first : x.pdu.lcid = lcidCcch ∧ x.sealed = setupComplete c)
      (second : isNas (NasMessage.encode { msgType := .attachRequest, value := imsi }) y)
      (attaching : Attaching imsi k nas) (knowing : Knowing imsi k l.cell) : Phase w imsi k c left l
  | refused {left : Nat} {l : AirLink} {nas : Nas.NasUe} {y : Crossing} {t : Nat} {ctx : NasUeContext} {rand : Rand}
      (bound : 3 ≤ left) (relaying : Relaying c nas [y] l)
      (refusal : isNas (nas.failureMessage Aka.kCauseSynchFailure (Aka.buildAuts w.digest k nas.sqnMs rand.toList)) y)
      (attaching : Attaching imsi k nas) (challenged : Challenged w imsi k c t ctx rand l.cell) : Phase w imsi k c left l
  | answered {left : Nat} {l : AirLink} {nas : Nas.NasUe} {y : Crossing} {t : Nat} {ctx : NasUeContext} {rand : Rand}
      (bound : 2 ≤ left) (relaying : Relaying c nas [y] l) (response : isNas (AttachRun.responseMessage w.digest k rand) y)
      (state : nas.state = .registering) (pending : nas.authPending = true) (key : nas.sessionKey = ctx.sessionK)
      (challenged : Challenged w imsi k c t ctx rand l.cell) : Phase w imsi k c left l
  | accepted {left : Nat} {l : AirLink} {q : Nat} (bound : 1 ≤ left)
      (ue : Talking c (some l.ue.nas.sessionKey) l.ue.nas [] l.ue)
      (cell : Serving c (some l.ue.nas.sessionKey) [] [q] l.cell)
      (sent : l.ue.air.drop l.up = [⟨.data, c, ackPdu (UInt8.ofNat q)⟩]) (down : l.down = l.cell.air.length)
      (registered : Registered imsi c l) : Phase w imsi k c left l
  | attached {left : Nat} {l : AirLink} (ue : Talking c (some l.ue.nas.sessionKey) l.ue.nas [] l.ue)
      (cell : Serving c (some l.ue.nas.sessionKey) [] [] l.cell)
      (received : l.up = l.ue.air.length ∧ l.down = l.cell.air.length) (registered : Registered imsi c l) :
      Phase w imsi k c left l

section Phases

variable {w : World} {imsi : Bytes} {k : Key256} {c left : Nat} {l : AirLink}

/-- The first exchange: preamble and response. -/
theorem exchange_asking {nas : Nas.NasUe} {air : List AirFrame} (ue : Asking l.ue l.cell.rrc.cellId imsi nas air)
    (sent : air.length = l.up) (down : l.down = l.cell.air.length) (vacant : Vacant l.cell) (named : Named l.cell.rrc)
    (next : l.cell.rach.nextCrnti = c) (usim : Usim k nas) (knowing : Knowing imsi k l.cell) (hleft : 5 ≤ left)
    (tick : CellTick) : ∃ l', exchange w tick l = .ok l' ∧ Phase w imsi k c left l' := by
  obtain ⟨base, hpreamble⟩ := ue.preamble
  have hmine : cellForPreamble l.ue.rach.preambleIndex = l.cell.rrc.cellId := by
    rw [hpreamble]
    exact cellForPreamble_preambleForCell base named.cell
  obtain ⟨n, hheard, hvacant, hknown, hnext, hrrc, hnas, hmap, hair⟩ := cell_msg1 (w := w) vacant hmine
  obtain ⟨j, htick, hrach, htrrc, htnas, htmap, htair⟩ := vacant_tick (w := w) hvacant tick.nowMs tick.sibs
  obtain ⟨v, hanswered, hresponded, hvair⟩ := handleAirFrame_msg2 w.digest ue
  obtain ⟨u, hinformed, hcontending, huair⟩ := hresponded.hears w.digest (hrrc ▸ named) j
  have hup : l.ue.air.drop l.up = [⟨.msg1Prach, 0, [1, l.ue.rach.preambleIndex]⟩] := by
    rw [ue.air, ← sent, List.drop_left]
  have hdown : (tick.run w n).air.drop l.down =
      ⟨.msg2Rar, 0, RachBs.msg2Pdu (raRntiForPreamble l.ue.rach.preambleIndex)⟩ :: List.replicate j (sibFrame n.rrc) := by
    rw [CellTick.run, htair, hair, down, List.append_assoc, List.drop_left]
    rfl
  refine ⟨_, exchange_eq hup (foldlM_cons_ok [] hheard) hdown ((foldlM_cons_ok _ hanswered).trans hinformed), ?_⟩
  refine .contending hleft hcontending ?_ ⟨raRntiForPreamble_lt _, by rw [CellTick.run, hrach]; exact hknown⟩ rfl htick ?_ ?_ usim
    (knowing.of_eq (htnas.trans hnas) (htmap.trans hmap))
  · dsimp only
    rw [huair, hvair, List.drop_left, CellTick.run, htrrc, hrrc]
  · rw [CellTick.run, htrrc, hrrc]
    exact named
  · rw [CellTick.run, hrach, hnext, next]


theorem attaching_of_usim {nas : Nas.NasUe} (h : Usim k nas) (imsi : Bytes) :
    Attaching imsi k (nas.sendAttachRequest imsi).1 := by
  rw [Nas.NasUe.sendAttachRequest, if_neg (not_not.mpr h.state)]
  exact ⟨rfl, rfl, h.key.1, h.key.2, h.sqn⟩

/-- The second exchange: admission, connection and the attach request. -/
theorem exchange_contending {nas : Nas.NasUe} {raRnti : Nat} (ue : Contending l.ue raRnti imsi nas)
    (sent : l.ue.air.drop l.up = [msg3Frame raRnti l.cell.rrc.cellId])
    (known : raRnti < snModulus ∧ (l.cell.rach.ueContexts[raRnti]?).isSome) (down : l.down = l.cell.air.length)
    (vacant : Vacant l.cell) (named : Named l.cell.rrc) (next : l.cell.rach.nextCrnti = c) (usim : Usim k nas)
    (knowing : Knowing imsi k l.cell) (hleft : 4 ≤ left) (tick : CellTick) :
    ∃ l', exchange w tick l = .ok l' ∧ Phase w imsi k c left l' := by
  obtain ⟨n, hheard, hserving, hnas, hmap, hair⟩ := cell_msg3 (w := w) vacant named known.1 known.2
  have hc : c ≠ 0 ∧ c < rntiBroadcast := next ▸ vacant.next
  rw [next] at hserving hair
  obtain ⟨q, ndi, j, hsent, hticked⟩ := tick_sends (w := w) rfl hserving tick
  have hq : q < 0x7F := (hsent.flow.busy.1.lt (List.mem_singleton.mpr rfl)).trans hsent.flow.busy.1.small
  obtain ⟨u, hadmitted, hstate, huair⟩ := handleAirFrame_msg4 w.digest ue known.1 (hc.2.trans (by decide))
  obtain ⟨v, hinformed, hready, hvair⟩ := hstate.hears w.digest hserving.named j
  obtain ⟨u', x, y, hconnected, htalking, huair', hx, hy⟩ := ue_setup hready hc usim.state hq ndi
  have hdown : (tick.run w n).air.drop l.down = ⟨.msg4Cr, 0, RachBs.msg4Pdu c raRnti⟩ ::
      (List.replicate j (sibFrame n.rrc) ++
        [⟨.data, c, linkEncode (buildPdu [(lcidCcch, RrcBs.reply .setup (putU16 c))]) (UInt8.ofNat q) ndi⟩]) := by
    rw [hticked.air, hair, down, List.append_assoc, List.drop_left]
    rfl
  refine ⟨_, exchange_eq sent (foldlM_cons_ok [] hheard) hdown
    ((foldlM_cons_ok _ hadmitted).trans ((foldlM_append_ok _ hinformed).trans (foldlM_cons_ok [] hconnected))), ?_⟩
  refine .requested hleft ⟨htalking, ⟨q, hsent, ?_⟩, rfl⟩ hx hy (attaching_of_usim usim imsi)
    (knowing.of_eq (hticked.nas.trans hnas) (hticked.tmsiToCrnti.trans hmap))
  dsimp only
  rw [huair', hvair, huair, List.drop_left]
  rfl

/-- What the registrar makes of a message: it answers for a TMSI that leads to the sender, or to
nobody yet. -/
def Answers (w : World) (c : Nat) (n : BsNode) (pdu : Bytes) (Answer : NasBs → Nat → Bytes → Prop) : Prop :=
  ∀ order rand, order.Perm n.nas.pendingAuth.keys → ∃ b t reply,
    n.nas.handleMessage w.digest order rand 0 pdu = (b, [(t, reply)]) ∧ Answer b t reply ∧
      (n.tmsiToCrnti[t]? = none ∨ n.tmsiToCrnti[t]? = some c)

/-- The cell takes an answer of the UE and its NAS PDU. -/
theorem cell_takes {nas : Nas.NasUe} {y : Crossing} {pdu : Bytes} {Answer : NasBs → Nat → Bytes → Prop}
    (relaying : Relaying c nas [y] l) (hy : isNas pdu y) (hc : c ≠ 0 ∧ c < rntiBroadcast) (hsize : pdu.length ≤ 1000)
    (hdetach : (NasMessage.decode pdu).msgType ≠ .detach) (hanswer : Answers w c l.cell pdu Answer) :
    ∃ n t reply, (l.ue.air.drop l.up).foldlM (fun (n : BsNode) f => n.handleAirFrame w f (-100)) l.cell = .ok n ∧
      Answer n.nas t reply ∧
      Serving c n.nas.sessionKeys[t]? [{ lcid := lcidNasDcch, bytes := Pdcp.tx reply }] [] n ∧ n.rrc = l.cell.rrc ∧
      n.tmsiToCrnti[t]? = some c ∧ n.air = l.cell.air ++ [y].map (Crossing.ack c) := by
  obtain ⟨q, hserving, hframes⟩ := relaying.cell
  have hq : q < 0x7F := (hserving.flow.busy.1.lt (List.mem_singleton.mpr rfl)).trans hserving.flow.busy.1.small
  have hproc : y.proc < 0x7F :=
    (relaying.ue.busy.1.lt (List.mem_singleton.mpr rfl)).trans relaying.ue.busy.1.small
  obtain ⟨m, hacked, hidle, hnas, hrrc, hmap, hair⟩ := cell_ack (w := w) hserving hq
  rw [Answers, ← hnas, ← hmap] at hanswer
  obtain ⟨n, t, reply, htaken, hgood, hqueued, hnrrc, hnmap, hnair⟩ := cell_nas hidle hc hproc y.ndi hsize hdetach Answer hanswer
  refine ⟨n, t, reply, ?_, hgood, hqueued, hnrrc.trans hrrc, hnmap, by rw [hnair, hair]; rfl⟩
  rw [hframes, foldlM_cons_ok _ hacked, List.map_singleton, Crossing.frame, hy.1, hy.2]
  exact foldlM_cons_ok [] htaken


theorem single_nas {xs : List Crossing} {pdu : Bytes}
    (h : xs.map (fun x => (x.pdu.lcid, x.sealed)) = [pdu].map fun pdu => (lcidNasDcch, Pdcp.tx pdu)) :
    ∃ y, xs = [y] ∧ isNas pdu y := by
  obtain ⟨y, rfl, hy⟩ := List.map_eq_singleton_iff.mp h
  exact ⟨y, rfl, Prod.mk.inj hy⟩

/-- A challenge reaches the UE: it is refused at most once, else answered. -/
theorem exchange_challenge {nas : Nas.NasUe} {cs : List Crossing} {n : BsNode} {t : Nat} {ctx : NasUeContext} {sqn : UInt64}
    {rand : Rand} (hc : c ≠ 0 ∧ c < rntiBroadcast) (relaying : Relaying c nas cs l) (attaching : Attaching imsi k nas)
    (hcell : (l.ue.air.drop l.up).foldlM (fun (n : BsNode) f => n.handleAirFrame w f (-100)) l.cell = .ok n)
    (hserving : Serving c none
      [{ lcid := lcidNasDcch, bytes := Pdcp.tx (NasBs.challengeMessage (Aka.generate w.digest k sqn rand.toList)) }] [] n)
    (hair : n.air = l.cell.air ++ cs.map (Crossing.ack c))
    (challenging : Challenging w.digest imsi k n.nas t ctx sqn rand) (keyless : n.nas.sessionKeys[t]? = none)
    (mapped : n.tmsiToCrnti[t]? = some c) (connected : n.rrc.isUeConnected c)
    (hleft : 3 ≤ left ∨ (nas.sqnMs < sqn &&& Aka.kSqnMask ∧ 2 ≤ left)) (tick : CellTick) :
    ∃ l', exchange w tick l = .ok l' ∧ Phase w imsi k c left l' := by
  have hsize : (NasBs.challengeMessage (Aka.generate w.digest k sqn rand.toList)).length ≤ 1000 := by
    have hrand : (Aka.generate w.digest k sqn rand.toList).rand = rand.toList := rfl
    simp [NasBs.challengeMessage, NasMessage.encode, hrand, Aka.kAutnLen]
  have hanswer : nas.onMessage w.digest (NasBs.challengeMessage (Aka.generate w.digest k sqn rand.toList)) = _ :=
    onMessage_challenge attaching sqn rand
  have hregistering : ∀ nas' : Nas.NasUe, nas'.state = .registering →
      (if nas'.state = .registered ∧ nas'.authenticated = true then some nas'.sessionKey else none) = none := by
    intro nas' hstate
    rw [hstate]
    exact if_neg (by simp)
  by_cases hstale : sqn &&& Aka.kSqnMask ≤ nas.sqnMs
  · rw [if_pos hstale] at hanswer
    obtain ⟨l', q, xs, hdone, htalking, hcell', hnas, hrrc, hmap, hdown, hsent, hout⟩ := turn hc relaying.ue rfl hcell
      hserving hair relaying.down hsize hanswer (by simp) (hregistering _ attaching.state) tick
    obtain ⟨y, rfl, hy⟩ := single_nas hout
    have hthree : 3 ≤ left := hleft.resolve_right fun h => UInt64.not_le.mpr h.1 hstale
    exact ⟨l', hdone, .refused hthree ⟨htalking, ⟨q, hcell', hsent⟩, hdown⟩ hy attaching
      ⟨⟨sqn, hnas ▸ challenging⟩, by rw [hnas]; exact keyless, by rw [hmap]; exact mapped, by rw [hrrc]; exact connected⟩⟩
  · rw [if_neg hstale] at hanswer
    obtain ⟨l', q, xs, hdone, htalking, hcell', hnas, hrrc, hmap, hdown, hsent, hout⟩ := turn hc relaying.ue rfl hcell
      hserving hair relaying.down hsize hanswer (by simp) (hregistering _ attaching.state) tick
    obtain ⟨y, rfl, hy⟩ := single_nas hout
    have htwo : 2 ≤ left := by
      rcases hleft with h | h
      · omega
      · exact h.2
    exact ⟨l', hdone, .answered htwo ⟨htalking, ⟨q, hcell', hsent⟩, hdown⟩ hy attaching.state rfl
      challenging.sessionK.symm ⟨⟨sqn, hnas ▸ challenging⟩, by rw [hnas]; exact keyless, by rw [hmap]; exact mapped,
        by rw [hrrc]; exact connected⟩⟩


/-- The third exchange: the connection is complete and the attach request is challenged. -/
theorem exchange_requested {nas : Nas.NasUe} {x y : Crossing} (hc : c ≠ 0 ∧ c < rntiBroadcast) (himsi : imsi.length ≤ 255)
    (relaying : Relaying c nas [x, y] l) (first : x.pdu.lcid = lcidCcch ∧ x.sealed = setupComplete c)
    (second : isNas (NasMessage.encode { msgType := .attachRequest, value := imsi }) y) (attaching : Attaching imsi k nas)
    (knowing : Knowing imsi k l.cell) (hleft : 3 ≤ left) (tick : CellTick) :
    ∃ l', exchange w tick l = .ok l' ∧ Phase w imsi k c left l' := by
  obtain ⟨q, hserving, hframes⟩ := relaying.cell
  have hq : q < 0x7F := (hserving.flow.busy.1.lt (List.mem_singleton.mpr rfl)).trans hserving.flow.busy.1.small
  have hprocs : ∀ p ∈ [x.proc, y.proc], p < 0x7F := fun p hp => (relaying.ue.busy.1.lt hp).trans relaying.ue.busy.1.small
  obtain ⟨m, hacked, hidle, hnas, hrrc, hmap, hair⟩ := cell_ack (w := w) hserving hq
  obtain ⟨v, hcomplete, hready, hvnas, hconnected, hvmap, hvair⟩ :=
    cell_setupComplete (w := w) hidle hc (hprocs x.proc (by simp)) x.ndi c
  have hknowing := knowing.of_eq (hvnas.trans hnas) (hvmap.trans hmap)
  have hdetach : (NasMessage.decode (NasMessage.encode { msgType := .attachRequest, value := imsi })).msgType ≠ .detach := by
    rw [NasMessage.decode_encode (by simp) (by simp [snModulus]; omega)]
    simp
  have hanswers : Answers w c v (NasMessage.encode { msgType := .attachRequest, value := imsi })
      fun b t reply => b.sessionKeys[t]? = none ∧ ∃ ctx sqn rand, Challenging w.digest imsi k b t ctx sqn rand ∧
        reply = NasBs.challengeMessage (Aka.generate w.digest k sqn rand.toList) := by
    intro order rand _
    obtain ⟨hchallenging, hsent⟩ := sendChallenge_challenging w.digest
      { v.nas with nextTmsi := (v.nas.nextTmsi + 1) % u32Modulus }
      { imsi := imsi, tmsi := v.nas.nextTmsi, k := k } rand (by simp [hknowing.pending]) hknowing.next rfl rfl
    refine ⟨_, _, _, ?_, ⟨?_, _, _, rand, hchallenging, rfl⟩, .inl hknowing.unmapped⟩
    · rw [handleMessage_attachRequest order rand 0 himsi hknowing.key]
      exact Prod.ext rfl hsent
    · exact hknowing.keyless
  obtain ⟨n, t, reply, htaken, ⟨hkeyless, ctx, sqn, rand, hchallenging, rfl⟩, hqueued, hnrrc, hnmap, hnair⟩ :=
    cell_nas (w := w) hready hc (hprocs y.proc (by simp)) y.ndi (by simp [NasMessage.encode]; omega) hdetach _ hanswers
  have hcell : (l.ue.air.drop l.up).foldlM (fun (n : BsNode) f => n.handleAirFrame w f (-100)) l.cell = .ok n := by
    rw [hframes, foldlM_cons_ok _ hacked, List.map_cons, List.map_singleton, Crossing.frame, Crossing.frame, first.1, first.2,
      second.1, second.2, foldlM_cons_ok _ hcomplete]
    exact foldlM_cons_ok [] htaken
  rw [hkeyless] at hqueued
  refine exchange_challenge hc relaying attaching hcell hqueued ?_ hchallenging hkeyless hnmap ?_ (.inl hleft) tick
  · rw [hnair, hvair, hair, List.append_assoc]
    rfl
  · rw [hnrrc]
    exact hconnected

/-- A refused challenge is answered by one that is fresh. -/
theorem exchange_refused {nas : Nas.NasUe} {y : Crossing} {t : Nat} {ctx : NasUeContext} {rand : Rand}
    (hc : c ≠ 0 ∧ c < rntiBroadcast) (himsi : imsi.length ≤ 255) (relaying : Relaying c nas [y] l)
    (refusal : isNas (nas.failureMessage Aka.kCauseSynchFailure (Aka.buildAuts w.digest k nas.sqnMs rand.toList)) y)
    (attaching : Attaching imsi k nas) (challenged : Challenged w imsi k c t ctx rand l.cell) (hleft : 2 ≤ left)
    (tick : CellTick) : ∃ l', exchange w tick l = .ok l' ∧ Phase w imsi k c left l' := by
  obtain ⟨sqn, hchallenging⟩ := challenged.challenging
  have hauts := Aka.length_buildAuts w.digest k nas.sqnMs rand.toList
  have hsize : (nas.failureMessage Aka.kCauseSynchFailure (Aka.buildAuts w.digest k nas.sqnMs rand.toList)).length ≤ 1000 := by
    rw [Nas.NasUe.failureMessage, attaching.imsi]
    simp [NasMessage.encode, hauts, Aka.kAutsLen]
    omega
  have hdetach : (NasMessage.decode
      (nas.failureMessage Aka.kCauseSynchFailure (Aka.buildAuts w.digest k nas.sqnMs rand.toList))).msgType ≠ .detach := by
    have hfailure := isAuthFailure_failureMessage nas Aka.kCauseSynchFailure
      (Aka.buildAuts w.digest k nas.sqnMs rand.toList)
    rw [isAuthFailure, decide_eq_true_iff] at hfailure
    rw [hfailure]
    simp
  have hanswers : Answers w c l.cell
      (nas.failureMessage Aka.kCauseSynchFailure (Aka.buildAuts w.digest k nas.sqnMs rand.toList))
      fun b t reply => b.sessionKeys[t]? = none ∧ ∃ ctx sqn rand, Challenging w.digest imsi k b t ctx sqn rand ∧
        reply = NasBs.challengeMessage (Aka.generate w.digest k sqn rand.toList) ∧ nas.sqnMs < sqn &&& Aka.kSqnMask := by
    intro order drawn horder
    have hothers : ∀ t', ctx.tmsi ≠ t' → (l.cell.nas.pendingAuth.erase t)[t']? = none := by
      intro t' hne
      rw [TmsiMap.getElem?_erase_eq, hchallenging.sole, ← hchallenging.tmsi, if_neg hne, if_neg hne]
    obtain ⟨hnext, hsent⟩ := sendChallenge_challenging w.digest
      { l.cell.nas with
        pendingAuth := l.cell.nas.pendingAuth.erase t
        sqn := Function.update l.cell.nas.sqn imsi ((nas.sqnMs &&& Aka.kSqnMask) &&& Aka.kSqnMask) }
      ctx drawn hothers (hchallenging.tmsi ▸ hchallenging.bound) hchallenging.imsi hchallenging.key
    dsimp only at hnext hsent
    rw [Function.update_self] at hnext hsent
    refine ⟨_, ctx.tmsi, _, ?_, ⟨?_, _, _, drawn, hnext, rfl, fresh_after_resynchronisation attaching.sqn⟩, .inr ?_⟩
    · rw [handleMessage_authFailure drawn 0 himsi attaching.imsi hchallenging horder]
      exact Prod.ext rfl hsent
    · rw [hchallenging.tmsi]
      exact challenged.keyless
    · rw [hchallenging.tmsi]
      exact challenged.mapped
  obtain ⟨n, t', reply, hcell, ⟨hkeyless, ctx', sqn', rand', hnext, rfl, hfresh⟩, hqueued, hrrc, hmap, hair⟩ :=
    cell_takes relaying refusal hc hsize hdetach hanswers
  rw [hkeyless] at hqueued
  refine exchange_challenge hc relaying attaching hcell hqueued hair hnext hkeyless hmap ?_ (.inr ⟨hfresh, hleft⟩) tick
  rw [hrrc]
  exact challenged.connected

/-- The response is accepted; both sides arm, each behind its last message in the clear. -/
theorem exchange_answered {nas : Nas.NasUe} {y : Crossing} {t : Nat} {ctx : NasUeContext} {rand : Rand}
    (hc : c ≠ 0 ∧ c < rntiBroadcast) (relaying : Relaying c nas [y] l)
    (response : isNas (AttachRun.responseMessage w.digest k rand) y) (state : nas.state = .registering)
    (pending : nas.authPending = true) (key : nas.sessionKey = ctx.sessionK)
    (challenged : Challenged w imsi k c t ctx rand l.cell) (hleft : 1 ≤ left) (tick : CellTick) :
    ∃ l', exchange w tick l = .ok l' ∧ Phase w imsi k c left l' := by
  obtain ⟨sqn, hchallenging⟩ := challenged.challenging
  have hsize : (AttachRun.responseMessage w.digest k rand).length ≤ 1000 := by
    simp [AttachRun.responseMessage, NasMessage.encode, Aka.kResLen]
  have hdetach : (NasMessage.decode (AttachRun.responseMessage w.digest k rand)).msgType ≠ .detach := by
    rw [AttachRun.responseMessage, NasMessage.decode_encode (by simp) (by simp [Aka.kResLen, snModulus])]
    simp
  have hanswers : Answers w c l.cell (AttachRun.responseMessage w.digest k rand)
      fun b t' reply => t = t' ∧ reply = NasBs.acceptMessage t ∧ b.sessionKeys[t]? = some ctx.sessionK ∧
        ∃ ctx', b.ueContexts[t]? = some ctx' ∧ ctx'.imsi = imsi ∧ ctx'.registered = true := by
    intro order drawn horder
    have hhandled := handleMessage_authResponse drawn 0 hchallenging horder
    rw [hchallenging.tmsi] at hhandled
    have hinserted := TmsiMap.getElem?_insert_eq l.cell.nas.ueContexts t t { ctx with tmsi := t, registered := true }
    rw [if_pos rfl] at hinserted
    refine ⟨_, t, _, hhandled, ⟨rfl, rfl, ?_, _, hinserted, hchallenging.imsi, rfl⟩, .inr challenged.mapped⟩
    rw [TmsiMap.getElem?_insert_eq, if_pos rfl]
  obtain ⟨n, _, reply, hcell, ⟨rfl, rfl, hsession, hcontext⟩, hqueued, hrrc, hmap, hair⟩ :=
    cell_takes relaying response hc hsize hdetach hanswers
  rw [hsession, ← key] at hqueued
  have hanswer : nas.onMessage w.digest (NasBs.acceptMessage t) = _ := onMessage_accept state pending hchallenging.bound
  obtain ⟨l', q, xs, hdone, htalking, hcell', hnas, hlrrc, hlmap, hdown, hsent, hout⟩ := turn hc relaying.ue rfl hcell
    hqueued hair relaying.down (by simp [NasBs.acceptMessage, NasMessage.encode]) hanswer (by simp) (if_pos ⟨rfl, rfl⟩) tick
  obtain rfl := List.map_eq_nil_iff.mp hout
  refine ⟨l', hdone, .accepted hleft ?_ ?_ hsent hdown ?_⟩
  · rw [htalking.nas]
    exact htalking
  · rw [htalking.nas]
    exact hcell'
  · have hnasue := htalking.nas
    refine ⟨by rw [hnasue]; exact ⟨rfl, rfl⟩, ?_, ?_, ?_, ?_⟩
    · rw [hnas, hnasue]
      exact hcontext
    · rw [hnas, hnasue, hsession, key]
    · rw [hlmap, hnasue]
      exact hmap
    · rw [hlrrc, hrrc]
      exact challenged.connected

/-- The last answer, then nothing but broadcasts. -/
theorem exchange_quiet {key : Option Key256} {n : BsNode} (ue : Talking c key l.ue.nas [] l.ue)
    (hserving : Serving c key [] [] n)
    (hcell : (l.ue.air.drop l.up).foldlM (fun (n : BsNode) f => n.handleAirFrame w f (-100)) l.cell = .ok n)
    (hair : n.air = l.cell.air) (hdown : l.down = l.cell.air.length) (tick : CellTick) :
    ∃ l', exchange w tick l = .ok l' ∧ Talking c key l.ue.nas [] l'.ue ∧ Serving c key [] [] l'.cell ∧
      (l'.up = l'.ue.air.length ∧ l'.down = l'.cell.air.length) ∧ l'.cell.nas = n.nas ∧ l'.cell.rrc = n.rrc ∧
      l'.cell.tmsiToCrnti = n.tmsiToCrnti := by
  obtain ⟨k, hidle, hticked⟩ := tick_idle (w := w) hserving tick
  obtain ⟨u, hinformed, htalking, huair⟩ := ue.hears (w := w) hserving.named k
  have hbroadcast : (tick.run w n).air.drop l.down = List.replicate k (sibFrame n.rrc) := by
    rw [hticked.air, hair, hdown, List.drop_left]
  exact ⟨_, exchange_eq rfl hcell hbroadcast hinformed, htalking, hidle, ⟨by rw [huair], rfl⟩, hticked.nas, hticked.rrc,
    hticked.tmsiToCrnti⟩

theorem Registered.of_eq {l' : AirLink} (h : Registered imsi c l) (hue : l'.ue.nas = l.ue.nas) (hnas : l'.cell.nas = l.cell.nas)
    (hrrc : l'.cell.rrc = l.cell.rrc) (hmap : l'.cell.tmsiToCrnti = l.cell.tmsiToCrnti) : Registered imsi c l' :=
  ⟨by rw [hue]; exact h.ue, by rw [hue, hnas]; exact h.context, by rw [hue, hnas]; exact h.key,
    by rw [hue, hmap]; exact h.mapped, by rw [hrrc]; exact h.connected⟩

/-- Step lemma: every exchange is the next phase. -/
theorem Phase.step (hc : c ≠ 0 ∧ c < rntiBroadcast) (himsi : imsi.length ≤ 255) (h : Phase w imsi k c left l)
    (tick : CellTick) : ∃ l', exchange w tick l = .ok l' ∧ Phase w imsi k c (left - 1) l' := by
  cases h with
  | asking bound ue sent down vacant named next usim knowing =>
    exact exchange_asking ue sent down vacant named next usim knowing (by omega) tick
  | contending bound ue sent known down vacant named next usim knowing =>
    exact exchange_contending ue sent known down vacant named next usim knowing (by omega) tick
  | requested bound relaying first second attaching knowing =>
    exact exchange_requested hc himsi relaying first second attaching knowing (by omega) tick
  | refused bound relaying refusal attaching challenged =>
    exact exchange_refused hc himsi relaying refusal attaching challenged (by omega) tick
  | answered bound relaying response state pending key challenged =>
    exact exchange_answered hc relaying response state pending key challenged (by omega) tick
  | @accepted q bound ue cell sent down registered =>
    have hq : q < 0x7F := (cell.flow.busy.1.lt (List.mem_singleton.mpr rfl)).trans cell.flow.busy.1.small
    obtain ⟨n, hacked, hidle, hnas, hrrc, hmap, hair⟩ := cell_ack (w := w) cell hq
    obtain ⟨l', hdone, htalking, hserving, hreceived, hnnas, hnrrc, hnmap⟩ := exchange_quiet ue hidle
      (by rw [sent]; exact foldlM_cons_ok [] hacked) hair down tick
    have hsame := htalking.nas
    exact ⟨l', hdone, .attached (by rwa [hsame]) (by rwa [hsame]) hreceived
      (registered.of_eq hsame (hnnas.trans hnas) (hnrrc.trans hrrc) (hnmap.trans hmap))⟩
  | attached ue cell received registered =>
    have hnothing : l.ue.air.drop l.up = [] := by rw [received.1, List.drop_length]
    obtain ⟨l', hdone, htalking, hserving, hreceived, hnas, hrrc, hmap⟩ := exchange_quiet ue cell
      (by rw [hnothing]; rfl) rfl received.2 tick
    have hsame := htalking.nas
    exact ⟨l', hdone, .attached (by rwa [hsame]) (by rwa [hsame]) hreceived (registered.of_eq hsame hnas hrrc hmap)⟩

/-- Run lemma over the exchanges. -/
theorem Phase.run (hc : c ≠ 0 ∧ c < rntiBroadcast) (himsi : imsi.length ≤ 255) (h : Phase w imsi k c left l)
    (ticks : List CellTick) : ∃ l', exchanges w ticks l = .ok l' ∧ Phase w imsi k c (left - ticks.length) l' := by
  induction ticks generalizing l left with
  | nil => exact ⟨l, rfl, h⟩
  | cons tick ticks ih =>
    obtain ⟨l1, hfirst, hphase⟩ := h.step hc himsi tick
    obtain ⟨l', hrest, hlast⟩ := ih hphase
    refine ⟨l', ?_, by rwa [List.length_cons, Nat.add_comm, ← Nat.sub_sub]⟩
    rw [exchanges, hfirst]
    exact hrest

end Phases

/-! ## The attach -/

/-- A cell that broadcasts, serves nobody and knows the subscriber. -/
structure Ready (imsi : Bytes) (k : Key256) (n : BsNode) : Prop where
  vacant : Vacant n
  named : Named n.rrc
  broadcast : n.broadcasting = true ∧ n.sibEnabled = true
  knowing : Knowing imsi k n

/-- Registered, connected and secured under one key, and nothing under way. -/
structure Attached (imsi : Bytes) (c : Nat) (l : AirLink) : Prop where
  registered : Registered imsi c l
  connected : l.ue.crntiCache = c ∧ l.ue.rrc.state = .connected
  secured : l.ue.upSecOn = true ∧ l.ue.upKey = l.ue.nas.sessionKey ∧ (l.cell.flow c).secOn = true ∧
    (l.cell.flow c).upKey = l.ue.nas.sessionKey
  associated : l.Associated

theorem Phase.attached_of_zero {w : World} {imsi : Bytes} {k : Key256} {c : Nat} {l : AirLink}
    (hc : c ≠ 0 ∧ c < rntiBroadcast) (h : Phase w imsi k c 0 l) : Attached imsi c l := by
  cases h with
  | attached ue cell received registered =>
    have hkey := ue.security.2 _ rfl
    have hkey' := cell.flow.security.2 _ rfl
    refine ⟨registered, ⟨ue.crnti, ue.rrc⟩, ⟨ue.security.1, hkey, cell.flow.security.1, hkey'⟩,
      ⟨?_, ?_, ue.busy.1, ?_, received⟩⟩
    · rw [ue.crnti]
      exact ⟨hc.1, hc.2.ne⟩
    · rw [RrcUe.inactive, ue.rrc]
      rfl
    · rw [ue.crnti]
      exact ⟨cell.context, cell.flow.slots, cell.flow.security.1.trans ue.security.1.symm, fun _ => hkey'.trans hkey.symm⟩
  | asking bound | contending bound | requested bound | refused bound | answered bound | accepted bound =>
    exact absurd bound (by decide)

/-- The broadcast reaches the UE behind the request of its user. -/
theorem switchOn_asking {w : World} {imsi : Bytes} {k : Key256} {l : AirLink} (hue : SwitchedOn l.ue)
    (himsi : l.ue.config.imsi = imsi) (husim : Usim k l.ue.nas) (hcell : Ready imsi k l.cell)
    (hreceived : l.up = l.ue.air.length ∧ l.down = l.cell.air.length) :
    ∃ l', switchOn w l = .ok l' ∧ Phase w imsi k l.cell.rach.nextCrnti 6 l' := by
  obtain ⟨u, hheard, hasking⟩ := attach_asks w.digest hue hcell.named
  have hsent : l.cell.broadcastSib =
      { l.cell with pagingTarget := [], air := l.cell.air ++ [sibFrame l.cell.rrc] } := by
    have hon : (l.cell.broadcasting && l.cell.sibEnabled) = true := by
      rw [hcell.broadcast.1, hcell.broadcast.2]
      rfl
    rw [BsNode.broadcastSib, if_pos hon]
    dsimp only
    rw [if_neg (not_not.mpr hcell.vacant.unpaged), List.append_nil]
    rfl
  have hfresh : l.cell.broadcastSib.air.drop l.down = [sibFrame l.cell.rrc] := by
    rw [hsent, hreceived.2]
    exact List.drop_left
  have hon : switchOn w l = .ok ⟨u, l.cell.broadcastSib, l.up, l.cell.broadcastSib.air.length⟩ := by
    rw [switchOn, AirLink.carryDown]
    dsimp only
    rw [hfresh, foldlM_cons_ok [] hheard]
    rfl
  refine ⟨_, hon, ?_⟩
  rw [himsi] at hasking
  rw [hsent]
  exact .asking (Nat.le_refl 6) hasking hreceived.1.symm rfl
    ⟨hcell.vacant.config, rfl, hcell.vacant.erase, hcell.vacant.flows, hcell.vacant.cell, hcell.vacant.next⟩ hcell.named rfl
    husim (hcell.knowing.of_eq rfl rfl)

/-- A UE that is switched on at a cell that knows its subscriber is attached after six exchanges,
whatever the clock of the cell shows and however often it broadcasts, and stays so: registered under
a TMSI that leads to its C-RNTI, connected, with one session key armed on both sides and nothing
left under way. The cell is integrated and suspends nobody (`Vacant.config`). -/
theorem attach_through_stack (w : World) {imsi : Bytes} {k : Key256} {l : AirLink} (hue : SwitchedOn l.ue)
    (himsi : l.ue.config.imsi = imsi ∧ imsi.length ≤ 255) (husim : Usim k l.ue.nas) (hcell : Ready imsi k l.cell)
    (hreceived : l.up = l.ue.air.length ∧ l.down = l.cell.air.length) {ticks : List CellTick} (hlong : 6 ≤ ticks.length) :
    ∃ l0 l', switchOn w l = .ok l0 ∧ exchanges w ticks l0 = .ok l' ∧ Attached imsi l.cell.rach.nextCrnti l' := by
  obtain ⟨l0, hon, hphase⟩ := switchOn_asking (w := w) hue himsi.1 husim hcell hreceived
  obtain ⟨l', hrun, hlast⟩ := hphase.run hcell.vacant.next himsi.2 ticks
  rw [Nat.sub_eq_zero_of_le hlong] at hlast
  exact ⟨l0, l', hon, hrun, hlast.attached_of_zero hcell.vacant.next⟩

def firstKey : Key256 := Vector.replicate 32 7

def firstLink : AirLink where
  ue := UeNode.make { imsi := [0x31], usimKey := some firstKey }
  cell := { BsNode.make {} (fun _ => some firstKey) with broadcasting := true }

theorem attach_through_stack_first :
    ∃ l0 l', switchOn World.plain firstLink = .ok l0 ∧ exchanges World.plain [⟨50, 0⟩, ⟨100, 0⟩, ⟨150, 0⟩, ⟨200, 1⟩, ⟨250, 0⟩, ⟨400, 1⟩] l0 = .ok l' ∧
      Attached [0x31] 1 l' := by
  have hue : SwitchedOn firstLink.ue :=
    ⟨rfl, rfl, ⟨rfl, rfl⟩, rfl, rfl, rfl, rfl, ⟨.init (by decide), rfl⟩, HarqRx.slotEmpty_initial⟩
  have hcell : Ready [0x31] firstKey firstLink.cell := by
    refine ⟨⟨⟨rfl, rfl⟩, rfl, rfl, rfl, rfl, by decide⟩, ⟨.inl rfl, by decide⟩, ⟨rfl, rfl⟩, ⟨rfl, rfl, by decide, ?_, ?_⟩⟩
    · exact Std.ExtTreeMap.getElem?_empty
    · exact Std.ExtTreeMap.getElem?_empty
  exact attach_through_stack World.plain hue ⟨rfl, by decide⟩ ⟨rfl, ⟨rfl, rfl⟩, by decide⟩ hcell ⟨rfl, rfl⟩ (by decide)

end StackAttach

end AetherStack.Guarantees
