import AetherStack.Source.BsUplink

/-!
# What the user plane of a `BsNode` leaves alone

`Serves R n n'`: as long as the links answer with C-RNTIs in `R` only, from `n` to `n'` the
control tables stand, the flows stand and are parked as they were, and every flow that is new
has a C-RNTI in `R`. All handling of data, from an uplink PDU to the scheduler, is of this
kind.
-/
namespace AetherStack.Source.Core
open Mac Rrc

/-- Everything that is not data: the entities, the identities and the mobility of a node, and
the Xn messages that signal a handover. -/
structure Control where
  config : BsNodeConfig
  rach : RachBs
  rrc : RrcBs
  nas : NasBs
  tmsiToCrnti : TmsiMap Nat
  initiatedHo : Std.ExtTreeMap Nat InitiatedHo
  hoPrepared : Std.ExtTreeMap Nat HoContext
  nextHoCrnti : Nat
  pendingXnHo : TmsiMap PendingXnHo
  pendingFlowErase : List Nat
  hoLog : List HoEntry
  xnSignals : List CnMessage

theorem ok_of_toOption {α ε : Type} {x : Except ε α} {a : α} (h : x.toOption = some a) : x = .ok a := by
  cases x with
  | error e => cases h
  | ok b => rw [Option.some.inj h]

namespace BsNode

/-- The Xn messages of a list that are not forwarded data. -/
def xnSignalsOf (sent : List (Link × CnMessage)) : List CnMessage :=
  (sent.filter fun e => e.1 = .xn ∧ e.2.msgType ≠ .other 42).map Prod.snd

def control (n : BsNode) : Control where
  config := n.config
  rach := n.rach
  rrc := n.rrc
  nas := n.nas
  tmsiToCrnti := n.tmsiToCrnti
  initiatedHo := n.initiatedHo
  hoPrepared := n.hoPrepared
  nextHoCrnti := n.nextHoCrnti
  pendingXnHo := n.pendingXnHo
  pendingFlowErase := n.pendingFlowErase
  hoLog := n.hoLog
  xnSignals := xnSignalsOf n.sent

/-- The two fields of a flow that say whether the UE is parked and since when it is quiet. -/
def parked (n : BsNode) (rnti : Nat) : Bool × UInt32 :=
  ((n.flow rnti).suspended, (n.flow rnti).lastActivityMs)

/-- The C-RNTI a message of the core names. -/
def namedCrnti (m : CnMessage) : Option Nat :=
  match m.msgType with
  | .downlinkNas | .sessionKey | .other 33 => some (getU16 m.value 4)
  | _ => none

/-- Everything the links will answer with names C-RNTIs in `R`. -/
def Answers (R : Nat → Prop) (n : BsNode) : Prop :=
  ∀ replies ∈ n.script, ∀ m ∈ replies, ∀ r, namedCrnti m = some r → R r

structure Served (R : Nat → Prop) (n n' : BsNode) : Prop where
  control : n'.control = n.control
  opened : ∀ r, r ∈ n'.flows → r ∈ n.flows ∨ R r
  kept : ∀ r, r ∈ n.flows → r ∈ n'.flows
  parked : ∀ r, n'.parked r = n.parked r
  script : n'.script <:+ n.script

def Serves (R : Nat → Prop) (n n' : BsNode) : Prop := n.Answers R → Served R n n'

variable {R : Nat → Prop} {n n' n'' : BsNode}

/-- Fewer answers are left to come. -/
theorem Answers.of_suffix (h : n.Answers R) (hscript : n'.script <:+ n.script) : n'.Answers R :=
  fun replies hreplies => h replies (hscript.subset hreplies)

namespace Serves

theorem refl (n : BsNode) : Serves R n n :=
  fun _ => ⟨rfl, fun _ h => .inl h, fun _ h => h, fun _ => rfl, List.suffix_refl _⟩

theorem trans (h : Serves R n n') (h' : Serves R n' n'') : Serves R n n'' := by
  intro hans
  have hfirst := h hans
  have hthen := h' (hans.of_suffix hfirst.script)
  exact {
    control := hthen.control.trans hfirst.control
    opened := fun r hr => (hthen.opened r hr).elim (hfirst.opened r) .inr
    kept := fun r hr => hthen.kept r (hfirst.kept r hr)
    parked := fun r => (hthen.parked r).trans (hfirst.parked r)
    script := hthen.script.trans hfirst.script }

/-- A step that leaves the flows alone. -/
theorem of_flows (hcontrol : n'.control = n.control) (hflows : n'.flows = n.flows)
    (hscript : n'.script <:+ n.script) : Serves R n n' :=
  fun _ => {
    control := hcontrol
    opened := fun r hr => .inl (hflows ▸ hr)
    kept := fun r hr => hflows ▸ hr
    parked := fun r => by simp only [BsNode.parked, flow, hflows]
    script := hscript }

end Serves

/-! ### Flows -/

theorem mem_putFlow {rnti r : Nat} {f : DlFlow} :
    r ∈ (n.putFlow rnti f).flows ↔ r = rnti ∨ r ∈ n.flows := by
  rw [putFlow, Std.ExtTreeMap.mem_insert, compare_eq_iff_eq, eq_comm]

@[simp] theorem flow_putFlow_self (n : BsNode) (rnti : Nat) (f : DlFlow) :
    (n.putFlow rnti f).flow rnti = f := by
  simp [flow, putFlow]

theorem flow_putFlow_of_ne (n : BsNode) {rnti r : Nat} (f : DlFlow) (h : r ≠ rnti) :
    (n.putFlow rnti f).flow r = n.flow r := by
  have hcmp : rnti ≠ r := fun heq => h heq.symm
  simp [flow, putFlow, Std.ExtTreeMap.getElem?_insert, hcmp]

theorem mem_of_getElem? {rnti : Nat} {f : DlFlow} (h : n.flows[rnti]? = some f) :
    rnti ∈ n.flows ∧ n.flow rnti = f := by
  refine ⟨Std.ExtTreeMap.mem_iff_isSome_getElem?.mpr (by rw [h]; rfl), ?_⟩
  rw [flow, h, Option.getD_some]

/-- A flow may be written where it is or may come into being, as parked as it was. -/
theorem putFlow_serves {rnti : Nat} {f : DlFlow} (hopen : rnti ∈ n.flows ∨ R rnti)
    (hsuspended : f.suspended = (n.flow rnti).suspended)
    (hactivity : f.lastActivityMs = (n.flow rnti).lastActivityMs) :
    Serves R n (n.putFlow rnti f) := by
  intro _
  refine ⟨rfl, fun r hr => ?_, fun r hr => mem_putFlow.mpr (.inr hr), fun r => ?_, List.suffix_refl _⟩
  · rcases mem_putFlow.mp hr with rfl | hold
    · exact hopen
    · exact .inl hold
  · by_cases heq : r = rnti
    · subst heq
      simp only [BsNode.parked, flow_putFlow_self, hsuspended, hactivity]
    · simp only [BsNode.parked, flow_putFlow_of_ne n f heq]

theorem putBearers_serves {rnti : Nat} (bearers : BearerSet) (hopen : rnti ∈ n.flows ∨ R rnti) :
    Serves R n (n.putBearers rnti bearers) :=
  putFlow_serves hopen rfl rfl

theorem touchFlow_serves {rnti : Nat} (hopen : rnti ∈ n.flows ∨ R rnti) :
    Serves R n (n.touchFlow rnti) :=
  putFlow_serves hopen rfl rfl

theorem downlinkSend_serves {rnti : Nat} (lcid : UInt8) (sdu : Bytes)
    (hopen : rnti ∈ n.flows ∨ R rnti) : Serves R n (n.downlinkSend rnti lcid sdu) :=
  putBearers_serves _ hopen

theorem sendSdu_serves {rnti : Nat} (q : Qci) (sdu : Bytes) (hopen : rnti ∈ n.flows ∨ R rnti) :
    Serves R n (n.sendSdu rnti q sdu) :=
  putBearers_serves _ hopen

theorem armSecurity_serves {rnti : Nat} (key : Key256) (hopen : rnti ∈ n.flows ∨ R rnti) :
    Serves R n (n.armSecurity rnti key) :=
  putFlow_serves hopen rfl rfl

theorem sendFrame_serves (n : BsNode) (type : AirFrameType) (rnti : Nat) (payload : Bytes) :
    Serves R n (n.sendFrame type rnti payload) :=
  .of_flows rfl rfl (List.suffix_refl _)

theorem mem_downlinkSend {rnti : Nat} (lcid : UInt8) (sdu : Bytes) :
    rnti ∈ (n.downlinkSend rnti lcid sdu).flows :=
  mem_putFlow.mpr (.inl rfl)

/-! ### Forwarding -/

section
variable (w : World)

theorem deliver_serves {rnti : Nat} (imsi : Imsi) (q : Qci) (data : Bytes) (hopen : rnti ∈ n.flows) :
    Serves R n (n.deliver rnti imsi q data) := by
  unfold deliver
  split
  · have hpage : Serves R n (n.page imsi) := .of_flows rfl rfl (List.suffix_refl _)
    exact hpage.trans (sendSdu_serves q data (.inl hopen))
  · exact sendSdu_serves q data (.inl hopen)

/-- Forwarding pages and queues. -/
theorem forwardU2uDl_serves {pkt : U2uPacket} {data : Bytes} {exclude : Nat}
    (h : n.forwardU2uDl w pkt data exclude = some n') : Serves R n n' := by
  unfold forwardU2uDl at h
  dsimp only at h
  split at h
  · cases h
  · rename_i hserved
    push Not at hserved
    obtain rfl := Option.some.inj h
    exact deliver_serves _ _ data hserved.2.2

theorem onXnFwdData_serves (n : BsNode) (value : Bytes) : Serves R n (n.onXnFwdData w value) := by
  unfold onXnFwdData
  dsimp only
  split
  · exact .refl n
  · split
    · exact .refl n
    · rename_i pkt hpkt
      cases hforward : n.forwardU2uDl w pkt (value.drop (1 + (value.getD 0 0).toNat)) 0 with
      | none => exact .refl n
      | some n' => exact forwardU2uDl_serves w hforward

theorem bridgeMember_serves (n : BsNode) (srcRnti : Nat) (pkt : U2uPacket) (imsi : Imsi) :
    Serves R n (bridgeMember w srcRnti pkt n imsi) := by
  unfold bridgeMember
  dsimp only
  split
  · exact .refl n
  · rename_i hserved
    push Not at hserved
    exact deliver_serves _ _ _ hserved.2.2.2

theorem bridgeConfMedia_serves (n : BsNode) (srcRnti : Nat) (pkt : U2uPacket) :
    Serves R n (n.bridgeConfMedia w srcRnti pkt) := by
  unfold bridgeConfMedia
  split
  · exact .refl n
  · exact Lib.foldl_rel .refl .trans (fun n imsi => bridgeMember_serves w n srcRnti pkt imsi) n _

theorem snoopConfSig_serves (n : BsNode) (pkt : U2uPacket) : Serves R n (n.snoopConfSig pkt) := by
  unfold snoopConfSig
  split
  · exact .refl n
  · split
    · exact .refl n
    · exact .of_flows rfl rfl (List.suffix_refl _)

/-- Forwarded data is no signalling. -/
theorem record_serves (n : BsNode) {link : Link} {m : CnMessage}
    (h : link ≠ .xn ∨ m.msgType = .other 42) : Serves R n (n.record link m) := by
  refine .of_flows ?_ rfl (List.suffix_refl _)
  have hsignals : xnSignalsOf (n.sent ++ [(link, m)]) = xnSignalsOf n.sent := by
    have hnone : ¬ (link = .xn ∧ m.msgType ≠ .other 42) := by
      rintro ⟨hlink, htype⟩
      exact h.elim (fun hne => hne hlink) htype
    simp only [xnSignalsOf, List.filter_append, List.map_append, List.filter_cons, hnone]
    simp
  simp only [control, record, hsignals]

theorem onDlData_serves (n : BsNode) {value : Bytes} (hopen : R (getU16 value 4)) :
    Serves R n (n.onDlData value) := by
  unfold onDlData
  split
  · exact .refl n
  · exact sendSdu_serves _ _ (.inr hopen)

/-- The answers a link delivers inside `send()` are handled one after the other. -/
theorem send_rel (rel : BsNode → BsNode → Prop) (refl : ∀ n, rel n n)
    (trans : ∀ {n n' n''}, rel n n' → rel n' n'' → rel n n'') {link : Link} {m : CnMessage}
    (n : BsNode) (hrecord : ∀ rest, rest <:+ n.script → rel n ({ n with script := rest }.record link m))
    (hreply : ∀ replies ∈ n.script, ∀ r ∈ replies, answersTo m.msgType r.msgType = true →
      ∀ n' : BsNode, rel n' (n'.handleLinkMessage w link r)) : rel n (n.send w link m) := by
  unfold send
  split
  · exact hrecord n.script (List.suffix_refl _)
  · rename_i replies rest hscript
    rw [hscript] at hrecord hreply
    refine trans (hrecord rest (List.suffix_cons _ _)) ?_
    generalize ({ n with script := rest }.record link m : BsNode) = start
    have hreplies := hreply replies List.mem_cons_self
    clear hscript hrecord hreply
    induction replies generalizing start with
    | nil => exact refl start
    | cons r replies ih =>
      have hrest := fun start => ih start fun r' hr' => hreplies r' (List.mem_cons_of_mem _ hr')
      simp only [List.filter_cons]
      split
      · rename_i hanswer
        exact trans (hreplies r List.mem_cons_self hanswer start) (hrest _)
      · exact hrest start

/-- Uplink to the UPF is answered with downlink only. -/
theorem answersTo_ulData {t : CnMsgType} (h : answersTo (.other 32) t = true) : t = .other 33 := by
  unfold answersTo at h
  split at h <;> simp_all

theorem script_record_serves {rest : List (List CnMessage)} {link : Link} {m : CnMessage}
    (hrest : rest <:+ n.script) (h : link ≠ .xn ∨ m.msgType = .other 42) :
    Serves R n ({ n with script := rest }.record link m) := by
  have hscript : Serves R n { n with script := rest } := .of_flows rfl rfl hrest
  exact hscript.trans (record_serves _ h)

/-- The UPF answers with downlink data for the C-RNTI it names. -/
theorem send_upf_serves (n : BsNode) (value : Bytes) :
    Serves R n (n.send w .upf ⟨.other 32, value⟩) := by
  intro hans
  refine send_rel w (Serves R) .refl .trans n
    (fun rest hrest => script_record_serves hrest (.inl (by decide))) ?_ hans
  intro replies hreplies r hr hanswer n'
  have htype : r.msgType = .other 33 := answersTo_ulData hanswer
  have hhandle : n'.handleLinkMessage w .upf r = n'.onDlData r.value := by
    simp only [handleLinkMessage, handleCnMessage, htype]
  rw [hhandle]
  exact onDlData_serves n' (hans replies hreplies r hr _ (by simp only [namedCrnti, htype]))

/-! ### Uplink data -/

section
variable {rnti : Nat} (hR : R rnti)
include hR

/-- Wherever an SDU goes, it is user plane. -/
theorem handleUlAppSdu_serves (n : BsNode) (data : Bytes) :
    Serves R n (handleUlAppSdu w rnti n data) := by
  have hecho : ∀ n : BsNode, Serves R n (n.sendSdu rnti .bestEffort data) :=
    fun n => sendSdu_serves _ data (.inr hR)
  unfold handleUlAppSdu
  split
  · exact send_upf_serves w n _
  · split
    · exact hecho n
    · rename_i pkt hpkt
      split
      · exact bridgeConfMedia_serves w n rnti pkt
      · dsimp only
        have hsnoop : Serves R n
            (if pkt.kind = .sig then n.snoopConfSig pkt else n) := by
          split
          · exact snoopConfSig_serves n pkt
          · exact .refl n
        refine hsnoop.trans ?_
        generalize (if pkt.kind = .sig then n.snoopConfSig pkt else n) = m
        split
        · rename_i n' hforward
          exact forwardU2uDl_serves w hforward
        · split
          · exact record_serves m (.inr rfl)
          · exact hecho m

theorem onRlcOutcome_serves (n : BsNode) (q : Qci) (out : RlcOutcome) :
    Serves R n (n.onRlcOutcome w rnti q out) := by
  unfold onRlcOutcome
  dsimp only
  refine Serves.trans (Lib.foldl_rel .refl .trans
    (fun n data => handleUlAppSdu_serves w hR n data) n out.delivered) ?_
  split
  · exact .refl _
  · exact downlinkSend_serves _ _ (.inr hR)

theorem handleAppSdu_serves (n : BsNode) (q : Qci) (sdu : Bytes) :
    Serves R n (n.handleAppSdu w rnti q sdu) := by
  have htouch : Serves R n (n.touchFlow rnti) :=
    touchFlow_serves (.inr hR)
  unfold handleAppSdu
  dsimp only
  refine htouch.trans ?_
  split
  · exact .refl _
  · refine Serves.trans ?_ (onRlcOutcome_serves w hR _ q _)
    exact putBearers_serves _ (.inr hR)

theorem handleStatusSdu_serves (n : BsNode) (q : Qci) (sdu : Bytes) :
    Serves R n (n.handleStatusSdu rnti q sdu) :=
  putBearers_serves _ (.inr hR)

theorem handleHarqAck_serves (n : BsNode) (sdu : Bytes) :
    Serves R n (n.handleHarqAck rnti sdu) := by
  unfold handleHarqAck
  split
  · exact .refl n
  · dsimp only
    split
    · exact putFlow_serves (.inr hR) rfl rfl
    · have hput : Serves R n (n.putFlow rnti { n.flow rnti with
          harqTx := (((n.flow rnti).harqTx.advance n.nowMs).onNack
            (sdu.getD 0 0 &&& 0x7F).toNat).1 }) :=
        putFlow_serves (.inr hR) rfl rfl
      cases (((n.flow rnti).harqTx.advance n.nowMs).onNack (sdu.getD 0 0 &&& 0x7F).toNat).2 with
      | none => exact hput
      | some e => exact hput.trans (sendFrame_serves _ _ _ _)

theorem handleCqiReport_serves (n : BsNode) (sdu : Bytes) :
    Serves R n (n.handleCqiReport rnti sdu) :=
  putFlow_serves (.inr hR) rfl rfl

theorem sendAck_serves (n : BsNode) (res : HarqResult) :
    Serves R n (n.sendAck rnti res) := by
  unfold sendAck
  split
  · exact .refl n
  · dsimp only
    refine Serves.trans ?_ (sendFrame_serves _ _ _ _)
    exact putFlow_serves (.inr hR) rfl rfl

theorem noteSnr_serves (n : BsNode) (snr : ℚ) :
    Serves R n (n.noteSnr rnti snr) := by
  unfold noteSnr
  split
  · exact putFlow_serves (.inr hR) rfl rfl
  · exact .refl n

/-- The head of a reception touches HARQ and power control. -/
theorem receiveData_serves {payload : Bytes} {snr : ℚ} {sdus : List (UInt8 × Bytes)}
    (h : n.receiveData rnti payload snr = .ok (n', sdus)) :
    Serves R n n' := by
  have hsnr := noteSnr_serves hR n snr
  unfold receiveData at h
  dsimp only at h
  split at h
  · split at h
    · obtain ⟨rfl, -⟩ := Prod.mk.inj (Except.ok.inj h)
      exact hsnr
    · split at h
      · cases h
      · obtain ⟨rfl, -⟩ := Prod.mk.inj (Except.ok.inj h)
        refine hsnr.trans (Serves.trans ?_ (sendAck_serves hR _ _))
        exact putFlow_serves (.inr hR) rfl rfl
  · obtain ⟨rfl, -⟩ := Prod.mk.inj (Except.ok.inj h)
    exact hsnr

end

/-! ### Scheduler -/

theorem sweepTpc_serves (n : BsNode) : Serves R n (n.sweepTpc w) := by
  refine Lib.foldl_rel .refl .trans (fun n rnti => ?_) n _
  unfold sweepTpcFlow
  split
  · exact .refl n
  · rename_i f hf
    obtain ⟨hmem, hflow⟩ := mem_of_getElem? hf
    dsimp only
    split
    · exact .refl n
    · have hput : Serves R n (n.putFlow rnti { f with lastTpcMs := n.nowMs }) :=
        putFlow_serves (.inl hmem) (by rw [hflow]) (by rw [hflow])
      exact hput.trans (downlinkSend_serves _ _ (.inl (mem_putFlow.mpr (.inl rfl))))

theorem serviceBearer_serves {rnti : Nat} (hR : R rnti) (n : BsNode) (q : Qci) :
    Serves R n (serviceBearer w rnti n q) := by
  unfold serviceBearer
  dsimp only
  refine Serves.trans ?_ (onRlcOutcome_serves w hR _ q _)
  refine Serves.trans ?_ (putBearers_serves _ (.inr hR))
  exact putBearers_serves _ (.inr hR)

/-- A flow that is there need not be opened. -/
theorem Serves.absorb (rnti : Nat) (h : Serves (fun r => R r ∨ r = rnti) n n')
    (hmem : rnti ∈ n.flows) : Serves R n n' := by
  intro hans
  have hserved := h fun replies hreplies m hm r hr => .inl (hans replies hreplies m hm r hr)
  refine { hserved with opened := fun r hr => ?_ }
  rcases hserved.opened r hr with hold | hR | rfl
  · exact .inl hold
  · exact .inr hR
  · exact .inl hmem

theorem pumpFlow_serves (n : BsNode) (rnti : Nat) : Serves R n (pumpFlow w n rnti) := by
  unfold pumpFlow
  split
  · exact .refl n
  · rename_i f hf
    obtain ⟨hmem, hflow⟩ := mem_of_getElem? hf
    dsimp only
    refine Serves.absorb rnti ?_ hmem
    refine Serves.trans ?_ (Lib.foldl_rel .refl .trans
      (fun n q => serviceBearer_serves w (.inr rfl) n q) _ _)
    refine Serves.trans ?_ (Lib.foldl_rel .refl .trans
      (fun n e => sendFrame_serves n .data rnti (HarqEvent.coded e)) _ _)
    exact putFlow_serves (.inl hmem) (by rw [hflow]) (by rw [hflow])

/-- The scheduler takes from a flow that is there. -/
theorem drainLoop_serves (rnti fuel : Nat) (n : BsNode) (hmem : rnti ∈ n.flows) :
    Serves R n (drainLoop w rnti fuel n) := by
  induction fuel generalizing n with
  | zero => exact .refl n
  | succ fuel ih =>
    unfold drainLoop
    dsimp only
    split
    · split
      · exact .refl n
      · rename_i p bearers hpop
        have hput : ∀ f : DlFlow, f.suspended = (n.flow rnti).suspended →
            f.lastActivityMs = (n.flow rnti).lastActivityMs → Serves R n (n.putFlow rnti f) :=
          fun f => putFlow_serves (.inl hmem)
        split
        · exact hput _ rfl rfl
        · rename_i e he
          refine Serves.trans ?_ (ih _ (mem_putFlow.mpr (.inl rfl)))
          refine Serves.trans ?_ (sendFrame_serves _ .data rnti e.coded)
          exact hput _ rfl rfl
    · exact .refl n

theorem drainFlow_serves (n : BsNode) (rnti : Nat) : Serves R n (drainFlow w n rnti) := by
  unfold drainFlow
  split
  · exact .refl n
  · rename_i f hf
    exact drainLoop_serves w rnti _ n (mem_of_getElem? hf).1

/-- Pumping and draining all flows. -/
theorem scheduleDownlink_serves (n : BsNode) :
    Serves R n (n.scheduleDownlink w) := by
  unfold scheduleDownlink
  dsimp only
  exact Serves.trans (Lib.foldl_rel .refl .trans (fun n rnti => pumpFlow_serves w n rnti) n _)
    (Lib.foldl_rel .refl .trans (fun n rnti => drainFlow_serves w n rnti) _ _)

end

theorem broadcastSib_serves (n : BsNode) : Serves R n n.broadcastSib := by
  unfold broadcastSib
  split
  · exact .of_flows rfl rfl (List.suffix_refl _)
  · exact .refl n

end BsNode

end AetherStack.Source.Core
