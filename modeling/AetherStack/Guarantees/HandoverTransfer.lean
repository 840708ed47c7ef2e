import AetherStack.Source.BsTables

/-!
# One handover over three carriers

A source hands a UE over through the coordinator, over Xn or through the AMF. The coordinator
passes the context as it is; the two links carry it as octets, answer later, and bring the new
C-RNTI back in a message of their own. Here one handover is run over each of them, and the nodes
it leaves behind are compared: the links differ from the coordinator in the messages they
recorded and, for an IMSI that one octet cannot measure, in the IMSI.
-/
namespace AetherStack.Guarantees
open Source Source.Core Source.Rrc

namespace HandoverTransfer

/-! ### The context as octets -/

/-- The context as a link carries it: the length of the IMSI has one octet. -/
def carried (ctx : HoContext) : HoContext :=
  { ctx with imsi := ctx.imsi.take (ctx.imsi.length % 256) }

/-- The context read from a message whose blob begins at `off`. -/
def contextAt (tmsi : Nat) (value : Bytes) (off : Nat) : HoContext :=
  { tmsi := tmsi
    secOn := value.getD off 0 ≠ 0
    upKey := BsNode.keyAt value (off + 1)
    imsi := (value.drop (off + 34)).take (value.getD (off + 33) 0).toNat }

theorem length_contextBlob (ctx : HoContext) :
    (BsNode.contextBlob ctx).length = 34 + ctx.imsi.length := by
  simp only [BsNode.contextBlob, List.length_cons, List.length_append, Vector.length_toList]
  omega

theorem keyAt_append (pre rest : Bytes) (key : Key256) :
    BsNode.keyAt (pre ++ (key.toList ++ rest)) pre.length = key := by
  refine Vector.ext fun i hi => ?_
  have hkey : i < key.toList.length := by rw [Vector.length_toList]; exact hi
  simp only [BsNode.keyAt, Vector.getElem_ofFn, List.getD_eq_getElem?_getD]
  rw [List.getElem?_append_right (Nat.le_add_right _ _), Nat.add_sub_cancel_left,
    List.getElem?_append_left hkey, List.getElem?_eq_getElem hkey, Option.getD_some,
    Vector.getElem_toList]

/-- The octet behind the key. -/
theorem getD_contextBlob (pre : Bytes) (ctx : HoContext) :
    (pre ++ BsNode.contextBlob ctx).getD (pre.length + 33) 0 = UInt8.ofNat ctx.imsi.length := by
  have hkey : ctx.upKey.toList.length = 32 := Vector.length_toList
  rw [List.getD_eq_getElem?_getD, List.getElem?_append_right (Nat.le_add_right _ _),
    Nat.add_sub_cancel_left, BsNode.contextBlob, List.getElem?_cons_succ,
    List.getElem?_append_right (Nat.le_of_eq hkey), hkey]
  rfl

/-- A context is read back as far as its length octet carries the IMSI. -/
theorem contextAt_contextBlob (pre : Bytes) (ctx : HoContext) :
    contextAt ctx.tmsi (pre ++ BsNode.contextBlob ctx) pre.length = carried ctx := by
  have hflag : (pre ++ BsNode.contextBlob ctx).getD pre.length 0 = if ctx.secOn then 1 else 0 := by
    rw [List.getD_eq_getElem?_getD, List.getElem?_append_right (Nat.le_refl _), Nat.sub_self]
    rfl
  have hsplit : pre ++ BsNode.contextBlob ctx =
      (pre ++ [if ctx.secOn then 1 else 0]) ++
        (ctx.upKey.toList ++ (UInt8.ofNat ctx.imsi.length :: ctx.imsi)) := by
    rw [BsNode.contextBlob, List.append_assoc, List.singleton_append]
  have hkey : BsNode.keyAt (pre ++ BsNode.contextBlob ctx) (pre.length + 1) = ctx.upKey := by
    have hread := keyAt_append (pre ++ [if ctx.secOn then 1 else 0])
      (UInt8.ofNat ctx.imsi.length :: ctx.imsi) ctx.upKey
    rw [hsplit]
    rwa [List.length_append, List.length_singleton] at hread
  have himsi : (pre ++ BsNode.contextBlob ctx).drop (pre.length + 34) = ctx.imsi := by
    have hlength : ((pre ++ [if ctx.secOn then (1 : UInt8) else 0]) ++
        (ctx.upKey.toList ++ [UInt8.ofNat ctx.imsi.length])).length = pre.length + 34 := by
      simp only [List.length_append, List.length_singleton, Vector.length_toList]
    have hwhole : pre ++ BsNode.contextBlob ctx = ((pre ++ [if ctx.secOn then (1 : UInt8) else 0]) ++
        (ctx.upKey.toList ++ [UInt8.ofNat ctx.imsi.length])) ++ ctx.imsi := by
      rw [hsplit]
      simp only [List.append_assoc, List.cons_append, List.nil_append]
    rw [hwhole, ← hlength, List.drop_left]
  rw [contextAt, hflag, hkey, himsi, getD_contextBlob, carried, UInt8.toNat_ofNat']
  cases ctx with
  | mk tmsi imsi upKey secOn => cases secOn <;> rfl

/-- An IMSI of 256 octets or more is cut. -/
theorem carried_eq_iff (ctx : HoContext) : carried ctx = ctx ↔ ctx.imsi.length < 256 := by
  constructor
  · intro h
    have hlength : (carried ctx).imsi.length = ctx.imsi.length := by rw [h]
    rw [carried, List.length_take] at hlength
    omega
  · intro h
    rw [carried, Nat.mod_eq_of_lt h, List.take_length]

/-! ### The context in the messages of the links -/

theorem hoCommandContext_eq {cellId : Nat} {value : Bytes} {ctx : HoContext}
    (hcell : getU16 value 4 = cellId) (htmsi : getU32 value 0 = ctx.tmsi)
    (hread : contextAt ctx.tmsi value 6 = carried ctx) (hlen : value.getD 39 0 = UInt8.ofNat ctx.imsi.length)
    (hsize : value.length = 40 + ctx.imsi.length) :
    BsNode.hoCommandContext cellId value = some (carried ctx) := by
  have hmeasure : (value.getD 39 0).toNat ≤ ctx.imsi.length := by
    rw [hlen, UInt8.toNat_ofNat']
    exact Nat.mod_le _ _
  rw [BsNode.hoCommandContext, if_neg (by omega), htmsi, ← hread]
  rfl

theorem xnPrepareContext_eq {cellId : Nat} {value : Bytes} {ctx : HoContext}
    (hcell : getU16 value 6 = cellId) (htmsi : getU32 value 0 = ctx.tmsi)
    (hread : contextAt ctx.tmsi value 8 = carried ctx) (hlen : value.getD 41 0 = UInt8.ofNat ctx.imsi.length)
    (hsize : value.length = 42 + ctx.imsi.length) :
    BsNode.xnPrepareContext cellId value = some (carried ctx) := by
  have hmeasure : (value.getD 41 0).toNat ≤ ctx.imsi.length := by
    rw [hlen, UInt8.toNat_ofNat']
    exact Nat.mod_le _ _
  rw [BsNode.xnPrepareContext, if_neg (by omega), htmsi, if_pos (by omega), ← hread]
  rfl

/-- HO_REQUIRED, and HO_COMMAND after the AMF, {tmsi:4}{tgt:2} ++ blob. -/
def requiredValue (targetCell : Nat) (ctx : HoContext) : Bytes :=
  putU32 ctx.tmsi ++ putU16 targetCell ++ BsNode.contextBlob ctx

/-- XN_HO_PREPARE {tmsi:4}{from:2}{to:2} ++ blob. -/
def prepareValue (fromCell targetCell : Nat) (ctx : HoContext) : Bytes :=
  putU32 ctx.tmsi ++ putU16 fromCell ++ putU16 targetCell ++ BsNode.contextBlob ctx

/-- What a HO_REQUIRED carries is what the target reads from the HO_COMMAND. -/
theorem hoCommandContext_required {ctx : HoContext} {targetCell : Nat} (htmsi : ctx.tmsi < u32Modulus)
    (hcell : targetCell < snModulus) :
    BsNode.hoCommandContext targetCell (requiredValue targetCell ctx) = some (carried ctx) := by
  have hpre : (putU32 ctx.tmsi ++ putU16 targetCell).length = 6 := rfl
  refine hoCommandContext_eq ?_ ?_ (contextAt_contextBlob (putU32 ctx.tmsi ++ putU16 targetCell) ctx)
    (getD_contextBlob (putU32 ctx.tmsi ++ putU16 targetCell) ctx) ?_
  · rw [requiredValue, List.append_assoc]
    exact getU16_fifth _ hcell
  · rw [requiredValue, List.append_assoc]
    exact getU32_head _ htmsi
  · rw [requiredValue, List.length_append, hpre, length_contextBlob]
    omega

/-- The same for a preparation over Xn. -/
theorem xnPrepareContext_prepare {ctx : HoContext} (fromCell : Nat) {targetCell : Nat}
    (htmsi : ctx.tmsi < u32Modulus) (hcell : targetCell < snModulus) :
    BsNode.xnPrepareContext targetCell (prepareValue fromCell targetCell ctx) = some (carried ctx) := by
  have hpre : (putU32 ctx.tmsi ++ putU16 fromCell ++ putU16 targetCell).length = 8 := rfl
  refine xnPrepareContext_eq ?_ ?_
    (contextAt_contextBlob (putU32 ctx.tmsi ++ putU16 fromCell ++ putU16 targetCell) ctx)
    (getD_contextBlob (putU32 ctx.tmsi ++ putU16 fromCell ++ putU16 targetCell) ctx) ?_
  · have hread := getU16_putU16 (putU32 ctx.tmsi ++ putU16 fromCell) (BsNode.contextBlob ctx) targetCell
    rw [Nat.mod_eq_of_lt hcell] at hread
    rw [prepareValue, List.append_assoc]
    exact hread
  · rw [prepareValue, List.append_assoc, List.append_assoc]
    exact getU32_head _ htmsi
  · rw [prepareValue, List.length_append, hpre, length_contextBlob]
    omega

/-! ### The runs -/

/-- The message a node recorded last. -/
def lastSent (n : BsNode) : CnMessage := (n.sent.getLast?.map Prod.snd).getD ⟨.other 0, []⟩

theorem lastSent_record (n : BsNode) (link : Link) (m : CnMessage) : lastSent (n.record link m) = m := by
  rw [lastSent, BsNode.record, List.getLast?_concat]
  rfl

section
variable (w : World)

/-- The coordinator calls the target and returns its C-RNTI. -/
def overCoordinator (n m : BsNode) (crnti : Nat) : BsNode × BsNode :=
  ({ n with answers := [some m.nextHoCrnti] }.requestCoordinator crnti m.config.cellId,
    m.prepareHandover (n.hoContext w crnti))

/-- XN_HO_PREPARE to the target, XN_HO_PREPARE_ACK back. -/
def overXn (n m : BsNode) (crnti : Nat) : BsNode × BsNode :=
  let n := n.requestXn w crnti m.config.cellId
  let m := m.handleXnMessage w (lastSent n)
  (n.handleXnMessage w (lastSent m), m)

/-- HO_REQUIRED and HO_NOTIFY to the AMF, whose answers reach every node on its link. -/
def overAmf (hmac : KeyedDigest) (rand : Rand) (a : Amf) (n m : BsNode) (crnti : Nat) :
    Amf × BsNode × BsNode :=
  let n := n.requestAmf w crnti m.config.cellId
  let required := a.handle hmac rand (lastSent n)
  let n := required.2.foldl (BsNode.handleCnMessage w) n
  let m := required.2.foldl (BsNode.handleCnMessage w) m
  let notified := required.1.handle hmac rand (lastSent m)
  (notified.1, notified.2.foldl (BsNode.handleCnMessage w) n,
    notified.2.foldl (BsNode.handleCnMessage w) m)

end

/-- The UE of `crnti` is known by one TMSI, it is in no handover, the links answer later, and the
target is another cell with a C-RNTI to give and an AMF to tell. -/
structure Ready (n m : BsNode) (crnti tmsi : Nat) : Prop where
  named : tmsi ≠ 0 ∧ tmsi < u32Modulus
  mapped : ∀ t : Nat, n.tmsiToCrnti[t]? = some crnti ↔ t = tmsi
  quiet : crnti ∉ n.initiatedHo ∧ tmsi ∉ n.pendingXnHo
  later : n.script = []
  cells : n.config.cellId ≠ m.config.cellId ∧ m.config.cellId < snModulus
  given : m.nextHoCrnti ≠ 0 ∧ m.nextHoCrnti < snModulus
  told : m.config.amf = true
  abroad : ∀ (s : Nat) (ho : InitiatedHo), m.initiatedHo[s]? = some ho → ho.targetCell ≠ m.config.cellId

section
variable {w : World} {n n' m : BsNode} {crnti tmsi : Nat}

theorem Ready.tmsiForCrnti (h : Ready n m crnti tmsi) (hmap : n'.tmsiToCrnti = n.tmsiToCrnti) :
    n'.tmsiForCrnti w crnti = tmsi := by
  rw [BsNode.tmsiForCrnti]
  cases hfound : n'.tmsiToCrnti.firstMatch (w.order n' .tmsiToCrnti) fun r => r = crnti with
  | none =>
    have hget : n'.tmsiToCrnti[tmsi]? = some crnti := by rw [hmap]; exact (h.mapped tmsi).mpr rfl
    have hmiss := TmsiMap.firstMatch_none (w.perm n' .tmsiToCrnti) hfound hget
    exact absurd hmiss (by simp)
  | some found =>
    obtain ⟨hget, hr⟩ := TmsiMap.firstMatch_some hfound
    rw [hmap, of_decide_eq_true hr] at hget
    exact (h.mapped found.1).mp hget

/-- The TMSI leads back to the source and to no other C-RNTI. -/
theorem Ready.crnti_of_tmsiForCrnti (h : Ready n m crnti tmsi) (hmap : n'.tmsiToCrnti = n.tmsiToCrnti)
    {s : Nat} (hs : n'.tmsiForCrnti w s = tmsi) : s = crnti := by
  rw [BsNode.tmsiForCrnti] at hs
  cases hfound : n'.tmsiToCrnti.firstMatch (w.order n' .tmsiToCrnti) fun r => r = s with
  | none =>
    rw [hfound] at hs
    exact absurd hs.symm h.named.1
  | some found =>
    rw [hfound] at hs
    obtain ⟨hget, hr⟩ := TmsiMap.firstMatch_some hfound
    have ht : found.1 = tmsi := hs
    rw [hmap, of_decide_eq_true hr, ht, (h.mapped tmsi).mpr rfl] at hget
    exact (Option.some.inj hget).symm

theorem insert_insert (hos : Std.ExtTreeMap Nat InitiatedHo) (s : Nat) (ho ho' : InitiatedHo) :
    (hos.insert s ho).insert s ho' = hos.insert s ho' := by
  refine Std.ExtTreeMap.ext_getElem? fun s' => ?_
  simp only [Std.ExtTreeMap.getElem?_insert]
  split <;> rfl

theorem erase_insert {β : Type} {t : TmsiMap β} {k : Nat} (v : β) (h : k ∉ t) : (t.insert k v).erase k = t := by
  refine Std.ExtTreeMap.ext_getElem? fun k' => ?_
  rw [Std.ExtTreeMap.getElem?_erase, Std.ExtTreeMap.getElem?_insert]
  split
  · rename_i heq
    rw [← compare_eq_iff_eq.mp heq, Std.ExtTreeMap.getElem?_eq_none h]
  · rfl

/-! ### The source and the target over Xn -/

/-- Over Xn the source writes the guard and waits. -/
theorem requestXn_later (h : Ready n m crnti tmsi) (targetCell : Nat) :
    n.requestXn w crnti targetCell = BsNode.record { n with
      pendingXnHo := n.pendingXnHo.insert tmsi ⟨crnti, targetCell⟩
      initiatedHo := n.initiatedHo.insert crnti ⟨targetCell, 0⟩
      hoLog := n.hoLog ++ [.started crnti targetCell] } .xn
        ⟨.other 40, prepareValue n.config.cellId targetCell (n.hoContext w crnti)⟩ := by
  have htmsi : (n.hoContext w crnti).tmsi = tmsi := h.tmsiForCrnti rfl
  rw [BsNode.requestXn, if_neg h.quiet.1]
  dsimp only
  rw [BsNode.send, htmsi]
  simp only [h.later]
  rw [prepareValue, htmsi]

/-- The answer to the awaited preparation takes its entry out and commands the handover. -/
theorem ack_commands (h : Ready n m crnti tmsi) {x : BsNode} {targetCell : Nat}
    (hpending : x.pendingXnHo = n.pendingXnHo.insert tmsi ⟨crnti, targetCell⟩) :
    x.handleXnMessage w ⟨.other 41, putU32 tmsi ++ putU16 m.nextHoCrnti⟩ =
      { x with pendingXnHo := n.pendingXnHo }.commandHo crnti targetCell m.nextHoCrnti := by
  have htmsi : getU32 (putU32 tmsi ++ putU16 m.nextHoCrnti) 0 = tmsi := getU32_head _ h.named.2
  have hcrnti : getU16 (putU32 tmsi ++ putU16 m.nextHoCrnti) 4 = m.nextHoCrnti := by
    have hread := getU16_fifth (x := tmsi) [] h.given.2
    rwa [List.append_nil] at hread
  have hfound : x.pendingXnHo[tmsi]? = some ⟨crnti, targetCell⟩ := by
    rw [hpending, Std.ExtTreeMap.getElem?_insert_self]
  show x.onXnPrepareAck _ = _
  rw [BsNode.onXnPrepareAck, if_neg (by simp), htmsi, hcrnti, hfound]
  dsimp only
  rw [if_neg h.given.1, hpending, erase_insert _ h.quiet.2]

/-- Over Xn both cells end as with a coordinator. -/
theorem overXn_eq (h : Ready n m crnti tmsi) :
    overXn w n m crnti =
      ({ (overCoordinator w n m crnti).1 with
          answers := n.answers
          sent := n.sent ++ [(.xn, ⟨.other 40,
            prepareValue n.config.cellId m.config.cellId (n.hoContext w crnti)⟩)] },
        (m.prepareHandover (carried (n.hoContext w crnti))).record .xn
          ⟨.other 41, putU32 tmsi ++ putU16 m.nextHoCrnti⟩) := by
  have htmsi : (n.hoContext w crnti).tmsi = tmsi := h.tmsiForCrnti rfl
  have htarget : m.handleXnMessage w ⟨.other 40,
      prepareValue n.config.cellId m.config.cellId (n.hoContext w crnti)⟩ =
      (m.prepareHandover (carried (n.hoContext w crnti))).record .xn
        ⟨.other 41, putU32 tmsi ++ putU16 m.nextHoCrnti⟩ := by
    show m.onXnPrepare _ = _
    rw [BsNode.onXnPrepare, xnPrepareContext_prepare _ (htmsi ▸ h.named.2) h.cells.2]
    show (m.prepareHandover (carried (n.hoContext w crnti))).record .xn
        ⟨.other 41, putU32 (carried (n.hoContext w crnti)).tmsi ++ putU16 m.nextHoCrnti⟩ = _
    rw [carried, htmsi]
  rw [overXn, requestXn_later h]
  dsimp only
  rw [lastSent_record, htarget, lastSent_record, ack_commands h rfl]
  refine congrArg₂ Prod.mk ?_ rfl
  -- the record of the handover is written twice, the second time with the C-RNTI
  exact congrArg (fun hos : Std.ExtTreeMap Nat InitiatedHo =>
    ({ (overCoordinator w n m crnti).1 with
        answers := n.answers
        sent := n.sent ++ [(.xn, ⟨.other 40,
          prepareValue n.config.cellId m.config.cellId (n.hoContext w crnti)⟩)]
        initiatedHo := hos } : BsNode))
    (insert_insert n.initiatedHo crnti ⟨m.config.cellId, 0⟩ ⟨m.config.cellId, m.nextHoCrnti⟩)

/-! ### The source and the target over the AMF -/

/-- Over the AMF it writes the record behind the send. -/
theorem requestAmf_later (h : Ready n m crnti tmsi) (targetCell : Nat) :
    n.requestAmf w crnti targetCell = BsNode.record { n with
      initiatedHo := n.initiatedHo.insert crnti ⟨targetCell, 0⟩
      hoLog := n.hoLog ++ [.started crnti targetCell] } .amf
        ⟨.hoRequired, requiredValue targetCell (n.hoContext w crnti)⟩ := by
  simp only [BsNode.requestAmf, BsNode.send, h.later]
  rfl

/-- A HO_COMMAND for another cell is ignored. -/
theorem hoCommand_foreign (h : Ready n m crnti tmsi) {x : BsNode} {ctx : HoContext}
    (hconfig : x.config = n.config) :
    x.handleCnMessage w ⟨.hoCommand, requiredValue m.config.cellId ctx⟩ = x := by
  have hread : getU16 (requiredValue m.config.cellId ctx) 4 ≠ x.config.cellId := by
    rw [requiredValue, List.append_assoc, hconfig]
    exact (getU16_fifth _ h.cells.2).trans_ne h.cells.1.symm
  show x.onHoCommand _ = x
  rw [BsNode.onHoCommand, BsNode.hoCommandContext, if_pos (.inr (.inl hread))]

theorem hoCommand_target (h : Ready n m crnti tmsi) :
    m.handleCnMessage w ⟨.hoCommand, requiredValue m.config.cellId (n.hoContext w crnti)⟩ =
      (m.prepareHandover (carried (n.hoContext w crnti))).record .amf
        ⟨.hoNotify, putU32 tmsi ++ putU16 m.nextHoCrnti⟩ := by
  have htmsi : (n.hoContext w crnti).tmsi = tmsi := h.tmsiForCrnti rfl
  show m.onHoCommand _ = _
  rw [BsNode.onHoCommand, hoCommandContext_required (htmsi ▸ h.named.2) h.cells.2]
  show (if m.config.amf then _ else _) = _
  rw [if_pos h.told, carried, htmsi]

/-- HO_PREPARED {tmsi:4}{tgt:2}{new_rnti:2}. -/
def preparedMessage (tmsi targetCell newCrnti : Nat) : CnMessage :=
  ⟨.hoPrepared, putU32 tmsi ++ putU16 targetCell ++ putU16 newCrnti⟩

/-- The AMF hands the context on unchanged. -/
theorem amf_required (hmac : KeyedDigest) (rand : Rand) (a : Amf) {ctx : HoContext} {targetCell : Nat}
    (htmsi : ctx.tmsi < u32Modulus) (hcell : targetCell < snModulus) :
    a.handle hmac rand ⟨.hoRequired, requiredValue targetCell ctx⟩ =
      ({ a with hoTarget := a.hoTarget.insert ctx.tmsi targetCell },
        [⟨.hoCommand, requiredValue targetCell ctx⟩]) := by
  have hlong : ¬(requiredValue targetCell ctx).length < 8 := by
    simp only [requiredValue, List.length_append, length_putU32, length_putU16, length_contextBlob]
    omega
  have hread : getU32 (requiredValue targetCell ctx) 0 = ctx.tmsi ∧
      getU16 (requiredValue targetCell ctx) 4 = targetCell := by
    rw [requiredValue, List.append_assoc]
    exact ⟨getU32_head _ htmsi, getU16_fifth _ hcell⟩
  rw [Amf.handle]
  dsimp only
  rw [if_neg hlong, hread.1, hread.2]

/-- The AMF forgets the target and moves the registration of the TMSI. -/
def notified (a : Amf) (tmsi newCrnti : Nat) : Amf :=
  { a with
    ueContexts :=
      match a.ueContexts[tmsi]? with
      | some ctx => a.ueContexts.insert tmsi { ctx with servingRnti := newCrnti }
      | none => a.ueContexts
    hoTarget := a.hoTarget.erase tmsi }

theorem amf_notified (hmac : KeyedDigest) (rand : Rand) (a : Amf) {tmsi newCrnti targetCell : Nat}
    (htmsi : tmsi < u32Modulus) (hcrnti : newCrnti < snModulus) :
    { a with hoTarget := a.hoTarget.insert tmsi targetCell }.handle hmac rand
        ⟨.hoNotify, putU32 tmsi ++ putU16 newCrnti⟩ =
      (notified a tmsi newCrnti, [preparedMessage tmsi targetCell newCrnti]) := by
  have hread : getU32 (putU32 tmsi ++ putU16 newCrnti) 0 = tmsi ∧
      getU16 (putU32 tmsi ++ putU16 newCrnti) 4 = newCrnti := by
    have hfifth := getU16_fifth (x := tmsi) [] hcrnti
    rw [List.append_nil] at hfifth
    exact ⟨getU32_head _ htmsi, hfifth⟩
  have hforgets : (a.hoTarget.insert tmsi targetCell).erase tmsi = a.hoTarget.erase tmsi := by
    refine Std.ExtTreeMap.ext_getElem? fun t => ?_
    simp only [Std.ExtTreeMap.getElem?_erase, Std.ExtTreeMap.getElem?_insert]
    split <;> rfl
  show Amf.onHoNotify _ _ = _
  rw [Amf.onHoNotify, if_neg (by simp), hread.1, hread.2]
  dsimp only
  rw [hforgets, Std.ExtTreeMap.getD_insert_self]
  rfl

/-- Only the source that was asked to hand over takes the answer. -/
theorem preparedSource_eq (h : Ready n m crnti tmsi) {x : BsNode} {targetCell : Nat}
    (hmap : x.tmsiToCrnti = n.tmsiToCrnti)
    (hho : x.initiatedHo = n.initiatedHo.insert crnti ⟨targetCell, 0⟩) :
    x.preparedSource w tmsi targetCell = some crnti := by
  have hentry : x.initiatedHo[crnti]? = some ⟨targetCell, 0⟩ := by
    rw [hho, Std.ExtTreeMap.getElem?_insert_self]
  have hmem : crnti ∈ w.order x .initiatedHo := by
    rw [(w.perm x .initiatedHo).mem_iff]
    exact Std.ExtTreeMap.mem_keys.mpr (Std.ExtTreeMap.mem_iff_isSome_getElem?.mpr (by rw [hentry]; rfl))
  cases hfound : x.preparedSource w tmsi targetCell with
  | none =>
    have hmiss := List.find?_eq_none.mp hfound crnti hmem
    rw [hentry, Option.any_some] at hmiss
    exact absurd (decide_eq_true ⟨rfl, h.tmsiForCrnti hmap⟩) hmiss
  | some s =>
    obtain ⟨ho, -, -, hs⟩ := BsNode.preparedSource_some w hfound
    rw [h.crnti_of_tmsiForCrnti hmap hs]

theorem prepared_commands {x : BsNode} {tmsi targetCell newCrnti : Nat} (htmsi : tmsi < u32Modulus)
    (hcell : targetCell < snModulus) (hcrnti : newCrnti < snModulus) :
    x.handleCnMessage w (preparedMessage tmsi targetCell newCrnti) =
      match x.preparedSource w tmsi targetCell with
      | none => x
      | some source => x.commandHo source targetCell newCrnti := by
  have hread : getU32 (preparedMessage tmsi targetCell newCrnti).value 0 = tmsi ∧
      getU16 (preparedMessage tmsi targetCell newCrnti).value 4 = targetCell := by
    rw [preparedMessage, List.append_assoc]
    exact ⟨getU32_head _ htmsi, getU16_fifth _ hcell⟩
  have hlast : getU16 (preparedMessage tmsi targetCell newCrnti).value 6 = newCrnti := by
    have hread := getU16_putU16 (putU32 tmsi ++ putU16 targetCell) [] newCrnti
    rwa [List.append_nil, Nat.mod_eq_of_lt hcrnti] at hread
  have hlong : ¬(preparedMessage tmsi targetCell newCrnti).value.length < 8 := by simp [preparedMessage]
  have hprepared : x.handleCnMessage w (preparedMessage tmsi targetCell newCrnti) =
      x.onHoPrepared w (preparedMessage tmsi targetCell newCrnti).value := rfl
  rw [hprepared]
  cases hsource : x.preparedSource w tmsi targetCell with
  | none => simp only [BsNode.onHoPrepared, if_neg hlong, hread.1, hread.2, hsource]
  | some source => simp only [BsNode.onHoPrepared, if_neg hlong, hread.1, hread.2, hlast, hsource]

/-- The answer finds nobody at the target itself. -/
theorem preparedSource_target (h : Ready n m crnti tmsi) {x : BsNode} (hho : x.initiatedHo = m.initiatedHo) :
    x.preparedSource w tmsi m.config.cellId = none := by
  cases hfound : x.preparedSource w tmsi m.config.cellId with
  | none => rfl
  | some s =>
    obtain ⟨ho, hget, hcell, -⟩ := BsNode.preparedSource_some w hfound
    rw [hho] at hget
    exact absurd hcell (h.abroad s ho hget)

/-- Over the AMF they do as well. -/
theorem overAmf_eq (hmac : KeyedDigest) (rand : Rand) (a : Amf) (h : Ready n m crnti tmsi) :
    overAmf w hmac rand a n m crnti =
      (notified a tmsi m.nextHoCrnti,
        { (overCoordinator w n m crnti).1 with
          answers := n.answers
          sent := n.sent ++ [(.amf, ⟨.hoRequired,
            requiredValue m.config.cellId (n.hoContext w crnti)⟩)] },
        (m.prepareHandover (carried (n.hoContext w crnti))).record .amf
          ⟨.hoNotify, putU32 tmsi ++ putU16 m.nextHoCrnti⟩) := by
  have htmsi : (n.hoContext w crnti).tmsi = tmsi := h.tmsiForCrnti rfl
  have hbound : (n.hoContext w crnti).tmsi < u32Modulus := htmsi ▸ h.named.2
  have hrequired := amf_required hmac rand a hbound h.cells.2
  rw [overAmf, requestAmf_later h]
  dsimp only
  rw [lastSent_record, hrequired, htmsi]
  dsimp only [List.foldl_cons, List.foldl_nil]
  rw [hoCommand_target h, lastSent_record, amf_notified hmac rand a h.named.2 h.given.2,
    hoCommand_foreign h ?_]
  dsimp only [List.foldl_cons, List.foldl_nil]
  rw [prepared_commands h.named.2 h.cells.2 h.given.2, prepared_commands h.named.2 h.cells.2 h.given.2,
    preparedSource_eq h ?_ ?_, preparedSource_target h ?_]
  · refine congrArg (Prod.mk _) (congrArg₂ Prod.mk ?_ rfl)
    exact congrArg (fun hos : Std.ExtTreeMap Nat InitiatedHo =>
      ({ (overCoordinator w n m crnti).1 with
          answers := n.answers
          sent := n.sent ++ [(.amf, ⟨.hoRequired,
            requiredValue m.config.cellId (n.hoContext w crnti)⟩)]
          initiatedHo := hos } : BsNode))
      (insert_insert n.initiatedHo crnti ⟨m.config.cellId, 0⟩ ⟨m.config.cellId, m.nextHoCrnti⟩)
  all_goals rfl

/-! ### The comparison -/

/-- The node without the record of what it told its links and was answered. -/
def silent (n : BsNode) : BsNode := { n with sent := [], answers := [] }

/-- A target that prepares what a link carried is the coordinator's when the IMSI was carried whole. -/
theorem silent_prepare_iff (link : Link) (reply : CnMessage) (ctx : HoContext) :
    silent ((m.prepareHandover (carried ctx)).record link reply) = silent (m.prepareHandover ctx) ↔
      ctx.imsi.length < 256 := by
  rw [← carried_eq_iff]
  constructor
  · intro h
    have hprepared : m.hoPrepared.insert m.nextHoCrnti (carried ctx) = m.hoPrepared.insert m.nextHoCrnti ctx :=
      congrArg BsNode.hoPrepared h
    have hentry := congrArg (fun t : Std.ExtTreeMap Nat HoContext => t[m.nextHoCrnti]?) hprepared
    simpa using hentry
  · intro h
    rw [h]
    rfl

/-- What one handover leaves behind, whichever way it went. -/
structure Agreement (w : World) (hmac : KeyedDigest) (rand : Rand) (a : Amf) (n m : BsNode)
    (crnti tmsi : Nat) : Prop where
  xn_source : silent (overXn w n m crnti).1 = silent (overCoordinator w n m crnti).1
  amf_source : silent (overAmf w hmac rand a n m crnti).2.1 = silent (overCoordinator w n m crnti).1
  xn_target : silent (overXn w n m crnti).2 = silent (overCoordinator w n m crnti).2 ↔
    (n.hoContext w crnti).imsi.length < 256
  amf_target : silent (overAmf w hmac rand a n m crnti).2.2 = silent (overCoordinator w n m crnti).2 ↔
    (n.hoContext w crnti).imsi.length < 256
  secured : ∀ target ∈ [(overXn w n m crnti).2, (overAmf w hmac rand a n m crnti).2.2],
    (target.flow m.nextHoCrnti).upKey = (n.flow crnti).upKey ∧
      (target.flow m.nextHoCrnti).secOn = (n.flow crnti).secOn ∧
      target.tmsiToCrnti[tmsi]? = some m.nextHoCrnti
  commanded : (overCoordinator w n m crnti).1.initiatedHo[crnti]? = some ⟨m.config.cellId, m.nextHoCrnti⟩
  serving : ∀ ctx, a.ueContexts[tmsi]? = some ctx →
    (overAmf w hmac rand a n m crnti).1.ueContexts[tmsi]? = some { ctx with servingRnti := m.nextHoCrnti }

theorem prepareHandover_flow (ctx : HoContext) :
    (m.prepareHandover ctx).flow m.nextHoCrnti =
      { m.flow m.nextHoCrnti with upKey := ctx.upKey, secOn := ctx.secOn } := by
  rw [BsNode.flow]
  show ((m.flows.insert m.nextHoCrnti _)[m.nextHoCrnti]?).getD {} = _
  rw [Std.ExtTreeMap.getElem?_insert_self]
  rfl

end

end HandoverTransfer

namespace HandoverTransfer

/-- Cell 1 with C-RNTI 1 registered under TMSI 7, ciphered. -/
def servingCell : BsNode :=
  { BsNode.make { cellId := 1 } fun _ => none with
    flows := (∅ : Std.ExtTreeMap Nat Core.DlFlow).insert 1 { secOn := true, upKey := Vector.replicate 32 9 }
    tmsiToCrnti := (∅ : TmsiMap Nat).insert 7 1 }

/-- Cell 2, on the link of the AMF. -/
def neighbourCell : BsNode := BsNode.make { cellId := 2, crntiBase := 0x4001, amf := true } fun _ => none

end HandoverTransfer

end AetherStack.Guarantees
