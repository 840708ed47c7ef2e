import AetherStack.Lib.Run
import AetherStack.Source.Upf

/-!
# Accesses of the core-network and Xn handlers

Each handler with checked accesses comes to the model of the handler as long as its guards
cover its accesses. They do for the AMF and the UPF; the AMF also compares a response with
the expected one, which is as long as a response in every state it reaches. Two branches of
the base station fall short: the copy of a SESSION_KEY runs to the end of the message, and
the guard of an XN_HO_PREPARE stops one octet before the length octet it reads.
-/
namespace AetherStack.Guarantees
open Source Source.Core Lib

namespace MessageBounds

/-! ## The base station -/

section
variable {w : World} {n : BsNode} {value : Bytes}

/-- Thirty-two octets of the message as a key. -/
theorem copyInto_keyAt (dst : Key256) {off : Nat} (h : off + 32 ≤ value.length) :
    copyInto dst ((value.drop off).take 32) = some (BsNode.keyAt value off) := by
  have hlength : ((value.drop off).take 32).length = 32 := by
    rw [List.length_take, List.length_drop]
    omega
  rw [copyInto_eq_ofFn dst hlength 0, BsNode.keyAt]
  refine congrArg (fun f => some (Vector.ofFn f)) (funext fun i => ?_)
  have hi : i.val < 32 := i.isLt
  simp only [List.getD_eq_getElem?_getD, List.getElem?_take, if_pos hi, List.getElem?_drop]

theorem checkedDownlinkNas_eq : n.checkedDownlinkNas value = some (n.onDownlinkNas value) := by
  rw [BsNode.checkedDownlinkNas, BsNode.onDownlinkNas]
  split
  · rfl
  · rw [readU32_eq (by omega), readU16_eq (by omega), readRange_eq_drop (by omega)]
    rfl

/-- The copy runs over the end of the key for every value of more than 38 octets. -/
theorem checkedSessionKey_eq :
    n.checkedSessionKey value = if 38 < value.length then none else some (n.onSessionKey value) := by
  rw [BsNode.checkedSessionKey, BsNode.onSessionKey]
  by_cases hshort : value.length < 38
  · rw [if_pos hshort, if_pos hshort, if_neg (by omega)]
  · rw [if_neg hshort, if_neg hshort, readU32_eq (by omega), readU16_eq (by omega),
      readRange_eq_drop (by omega)]
    dsimp only [Option.bind_eq_bind, Option.bind_some]
    by_cases hlong : 38 < value.length
    · rw [if_pos hlong, copyInto_eq_none (by rw [List.length_drop]; omega)]
      rfl
    · have hoctets : value.drop 6 = (value.drop 6).take 32 := by
        rw [List.take_of_length_le]
        rw [List.length_drop]
        omega
      rw [if_neg hlong, hoctets, copyInto_keyAt _ (by omega)]
      rfl

theorem checkedHoCommandContext_eq (cellId : Nat) :
    BsNode.checkedHoCommandContext cellId value = some (BsNode.hoCommandContext cellId value) := by
  rw [BsNode.checkedHoCommandContext, BsNode.hoCommandContext]
  by_cases hhead : value.length < 6
  · rw [if_pos hhead, if_pos (.inl hhead)]
  · rw [if_neg hhead, readU32_eq (by omega), readU16_eq (by omega)]
    dsimp only [Option.bind_eq_bind, Option.bind_some]
    by_cases hcell : getU16 value 4 ≠ cellId
    · rw [if_pos hcell, if_pos (.inr (.inl hcell))]
    · rw [if_neg hcell]
      by_cases hfixed : value.length < 40
      · rw [if_pos hfixed, if_pos (.inr (.inr (.inl hfixed)))]
      · rw [if_neg hfixed, readAt_eq_getD (by omega) 0, readRange_eq_take (by decide) (by omega)]
        dsimp only [Option.bind_some]
        rw [copyInto_keyAt _ (by omega), readAt_eq_getD (by omega) 0]
        dsimp only [Option.bind_some]
        by_cases himsi : value.length < 40 + (value.getD 39 0).toNat
        · rw [if_pos himsi, if_pos (.inr (.inr (.inr himsi)))]
        · rw [if_neg himsi, readRange_eq_take (by omega) (by omega), Nat.add_sub_cancel_left]
          have hparsed : ¬(value.length < 6 ∨ getU16 value 4 ≠ cellId ∨ value.length < 40 ∨
              value.length < 40 + (value.getD 39 0).toNat) := by tauto
          rw [if_neg hparsed]
          rfl

/-- Of the handlers behind the AMF link this is the only access outside. -/
theorem checkedHandleCnMessage_eq (m : CnMessage) :
    n.checkedHandleCnMessage w m =
      if m.msgType = .sessionKey ∧ 38 < m.value.length then none
      else some (n.handleCnMessage w m) := by
  obtain ⟨type, value⟩ := m
  cases type with
  | downlinkNas => exact checkedDownlinkNas_eq
  | sessionKey =>
    refine (checkedSessionKey_eq : n.checkedSessionKey value = _).trans ?_
    simp only [true_and]
    rfl
  | hoCommand =>
    rw [if_neg (by simp)]
    dsimp only [BsNode.checkedHandleCnMessage, BsNode.checkedHoCommand, BsNode.handleCnMessage,
      BsNode.onHoCommand]
    rw [checkedHoCommandContext_eq]
    cases BsNode.hoCommandContext n.config.cellId value <;> rfl
  | hoPrepared =>
    rw [if_neg (by simp)]
    dsimp only [BsNode.checkedHandleCnMessage, BsNode.checkedHoPrepared, BsNode.handleCnMessage,
      BsNode.onHoPrepared]
    split
    · rfl
    · rw [readU32_eq (by omega), readU16_eq (by omega), readU16_eq (by omega)]
      dsimp only [Option.bind_eq_bind, Option.bind_some]
      cases n.preparedSource w (getU32 value 0) (getU16 value 4) <;> rfl
  | other octet =>
    rw [if_neg (by simp)]
    by_cases hdata : octet = 33
    · subst hdata
      change n.checkedDlData value = some (n.onDlData value)
      rw [BsNode.checkedDlData, BsNode.onDlData]
      split
      · rfl
      · rw [readU16_eq (by omega), readRange_eq_drop (by omega)]
        rfl
    · have hchecked : n.checkedHandleCnMessage w ⟨.other octet, value⟩ = some n := by
        rw [BsNode.checkedHandleCnMessage]
        split <;> simp_all
      have hmodel : n.handleCnMessage w ⟨.other octet, value⟩ = n := by
        rw [BsNode.handleCnMessage]
        split <;> simp_all
      rw [hchecked, hmodel]
  | _ => rfl

/-! ### Xn -/

/-- The branch that parses: the guard has passed and the message is for this cell. -/
theorem checkedXnPrepareContext_eq (cellId : Nat) :
    BsNode.checkedXnPrepareContext cellId value =
      if value.length = 41 ∧ getU16 value 6 = cellId then none
      else some (BsNode.xnPrepareContext cellId value) := by
  rw [BsNode.checkedXnPrepareContext, BsNode.xnPrepareContext]
  by_cases hhead : value.length < 41
  · rw [if_pos hhead, if_neg (by omega), if_pos (.inl hhead)]
  · rw [if_neg hhead, readU32_eq (by omega), readU16_eq (by omega), readU16_eq (by omega)]
    dsimp only [Option.bind_eq_bind, Option.bind_some]
    by_cases hcell : getU16 value 6 = cellId
    · have hparsed : ¬(value.length < 41 ∨ getU16 value 6 ≠ cellId) := by tauto
      rw [if_neg (not_not.mpr hcell), if_neg hparsed, readAt_eq_getD (by omega) 0,
        readRange_eq_take (by decide) (by omega)]
      dsimp only [Option.bind_some]
      rw [copyInto_keyAt _ (by omega)]
      dsimp only [Option.bind_some]
      by_cases hlength : value.length = 41
      · rw [readAt_eq_none (by omega), if_pos ⟨hlength, hcell⟩]
        rfl
      · rw [readAt_eq_getD (by omega) 0, if_neg (fun h => hlength h.1)]
        dsimp only [Option.bind_some]
        by_cases himsi : value.length ≥ 42 + (value.getD 41 0).toNat
        · rw [if_pos himsi, if_pos himsi, readRange_eq_take (by omega) (by omega),
            Nat.add_sub_cancel_left]
          rfl
        · rw [if_neg himsi, if_neg himsi]
    · rw [if_pos hcell, if_neg (fun h => hcell h.2), if_pos (.inr hcell)]

theorem checkedXnFwdData_eq : n.checkedXnFwdData w value = some (n.onXnFwdData w value) := by
  rw [BsNode.checkedXnFwdData, BsNode.onXnFwdData]
  by_cases hhead : value.length < 2
  · rw [if_pos hhead]
    dsimp only
    rw [if_pos (.inl hhead)]
  · rw [if_neg hhead, readAt_eq_getD (by omega) 0]
    dsimp only [Option.bind_eq_bind, Option.bind_some]
    by_cases himsi : value.length < 1 + (value.getD 0 0).toNat
    · rw [if_pos himsi, if_pos (.inr himsi)]
    · have hparsed : ¬(value.length < 2 ∨ value.length < 1 + (value.getD 0 0).toNat) := by tauto
      rw [if_neg himsi, if_neg hparsed, readRange_eq_drop (by omega)]
      dsimp only [Option.bind_some]
      cases decodeU2u (value.drop (1 + (value.getD 0 0).toNat)) <;> rfl

/-- An XN_HO_PREPARE that ends where the length octet of its IMSI should stand. -/
def Truncated (n : BsNode) (m : CnMessage) : Prop :=
  m.msgType = .other 40 ∧ m.value.length = 41 ∧ getU16 m.value 6 = n.config.cellId

instance (n : BsNode) (m : CnMessage) : Decidable (Truncated n m) :=
  inferInstanceAs (Decidable (_ ∧ _ ∧ _))

/-- Of those behind the Xn link the truncated preparation is. -/
theorem checkedHandleXnMessage_eq (m : CnMessage) :
    n.checkedHandleXnMessage w m =
      if Truncated n m then none else some (n.handleXnMessage w m) := by
  obtain ⟨type, value⟩ := m
  cases type with
  | other octet =>
    by_cases hprepare : octet = 40
    · subst hprepare
      change n.checkedXnPrepare value = if Truncated n ⟨.other 40, value⟩ then none
        else some (n.onXnPrepare value)
      rw [BsNode.checkedXnPrepare, BsNode.onXnPrepare, checkedXnPrepareContext_eq]
      by_cases hshort : value.length = 41 ∧ getU16 value 6 = n.config.cellId
      · rw [if_pos hshort, if_pos ⟨rfl, hshort⟩]
        rfl
      · rw [if_neg hshort, if_neg (fun h => hshort h.2)]
        cases BsNode.xnPrepareContext n.config.cellId value <;> rfl
    · rw [if_neg (fun h => hprepare (CnMsgType.other.inj h.1))]
      by_cases hack : octet = 41
      · subst hack
        change n.checkedXnPrepareAck value = some (n.onXnPrepareAck value)
        rw [BsNode.checkedXnPrepareAck, BsNode.onXnPrepareAck]
        split
        · rfl
        · rw [readU32_eq (by omega), readU16_eq (by omega)]
          dsimp only [Option.bind_eq_bind, Option.bind_some]
          cases n.pendingXnHo[getU32 value 0]? <;> rfl
      by_cases hdata : octet = 42
      · subst hdata
        exact checkedXnFwdData_eq
      by_cases hcomplete : octet = 43
      · subst hcomplete
        change n.checkedXnComplete w value = some (n.onXnComplete w value)
        rw [BsNode.checkedXnComplete, BsNode.onXnComplete]
        split
        · rfl
        · rw [readU16_eq (by omega)]
          rfl
      have hchecked : n.checkedHandleXnMessage w ⟨.other octet, value⟩ = some n := by
        rw [BsNode.checkedHandleXnMessage]
        split <;> simp_all
      have hmodel : n.handleXnMessage w ⟨.other octet, value⟩ = n := by
        rw [BsNode.handleXnMessage]
        split <;> simp_all
      rw [hchecked, hmodel]
  | _ => rfl

end

/-! ## The AMF -/

section
variable {hmac : KeyedDigest} {a : Amf} {value : Bytes}

/-- Every outstanding challenge has its expected response. -/
def Expects (a : Amf) : Prop :=
  ∀ t : Nat, t ∈ a.pendingAuth → ∃ xres, a.pendingRnti[t]? = some xres ∧ xres.length = Aka.kResLen

theorem issueChallenge_expects (h : Expects a) (rand : Rand) (k : Key256) (ctx : AmfUeContext) :
    Expects (a.issueChallenge hmac rand k ctx).1 := by
  intro t ht
  rw [Amf.issueChallenge]
  dsimp only
  rw [TmsiMap.getElem?_insert_eq]
  split
  · exact ⟨_, rfl, Aka.length_f2 hmac k rand.toList⟩
  · rename_i hne
    rcases Std.ExtTreeMap.mem_insert.mp ht with heq | hold
    · exact absurd (compare_eq_iff_eq.mp heq) hne
    · exact h t hold

theorem dropChallenge_expects (h : Expects a) (t : Nat) : Expects (a.dropChallenge t) := by
  intro t' ht'
  obtain ⟨hne, hold⟩ := Std.ExtTreeMap.mem_erase.mp ht'
  obtain ⟨xres, hxres, hlength⟩ := h t' hold
  refine ⟨xres, ?_, hlength⟩
  rw [Amf.dropChallenge, TmsiMap.getElem?_erase_eq, if_neg (fun heq => hne (compare_eq_iff_eq.mpr heq)),
    hxres]

/-- Step lemma: an expected response has its eight octets. -/
theorem handle_expects (h : Expects a) (rand : Rand) (msg : CnMessage) :
    Expects (a.handle hmac rand msg).1 := by
  have hhandled := Amf.handle_handled hmac a rand msg
  generalize (a.handle hmac rand msg).1 = a', (a.handle hmac rand msg).2 = out at hhandled ⊢
  cases hhandled with
  | kept => exact h
  | challenged => exact issueChallenge_expects (a := { a with nextTmsi := _ }) h rand _ _
  | openAccess => exact h
  | resynchronised sqn tmsi =>
    exact issueChallenge_expects (a := { (a.indexKey _).dropChallenge tmsi with sqn := sqn })
      (dropChallenge_expects (a := a.indexKey _) h tmsi) rand _ _
  | refused tmsi => exact dropChallenge_expects (a := a.indexKey _) h tmsi
  | dropped tmsi => exact dropChallenge_expects h tmsi
  | accepted => exact dropChallenge_expects h _
  | released tmsi =>
    intro t ht
    obtain ⟨hne, hold⟩ := Std.ExtTreeMap.mem_erase.mp ht
    obtain ⟨xres, hxres, hlength⟩ := h t hold
    refine ⟨xres, ?_, hlength⟩
    rw [Amf.releaseUe, TmsiMap.getElem?_erase_eq, if_neg (fun heq => hne (compare_eq_iff_eq.mpr heq)),
      hxres]
  | moved => exact h

theorem checkedAuthFailure_eq (rand : Rand) (tmsi rnti : Nat) :
    a.checkedAuthFailure hmac rand tmsi rnti value =
      some (a.onAuthFailure hmac rand tmsi rnti value) := by
  rw [Amf.checkedAuthFailure, Amf.onAuthFailure]
  by_cases hhead : value.length < 2
  · rw [if_pos hhead]
    dsimp only
    rw [if_pos (.inl hhead)]
  · rw [if_neg hhead, readAt_eq_getD (by omega) 0]
    dsimp only [Option.bind_eq_bind, Option.bind_some]
    by_cases himsi : value.length < 2 + (value.getD 1 0).toNat
    · rw [if_pos himsi, if_pos (.inr himsi)]
    · have hparsed : ¬(value.length < 2 ∨ value.length < 2 + (value.getD 1 0).toNat) := by tauto
      rw [if_neg himsi, if_neg hparsed, readAt_eq_getD (by omega) 0,
        readRange_eq_take (by omega) (by omega), Nat.add_sub_cancel_left]
      dsimp only [Option.bind_some]
      cases a.pendingAuth[tmsi]? with
      | none => rfl
      | some ctx =>
        dsimp only
        split
        · rfl
        · split
          · rename_i hsynch
            obtain ⟨-, hlength⟩ := hsynch
            have hoctets : ((value.drop (2 + (value.getD 1 0).toNat)).take Aka.kAutsLen).length =
                Aka.kAutsLen := by
              rw [List.length_take, List.length_drop]
              omega
            rw [readRange_eq_take (by omega) hlength, Nat.add_sub_cancel_left]
            dsimp only [Option.bind_some]
            rw [copyInto_eq_ofFn _ hoctets 0]
            dsimp only [Option.bind_some]
            rw [toList_ofFn_getD hoctets 0]
            generalize Aka.verifyAuts hmac _ _ _ = verdict
            cases verdict <;> rfl
          · rfl

theorem checkedAuthResponse_eq (h : Expects a) (tmsi rnti : Nat) (hres : value.length = Aka.kResLen) :
    a.checkedAuthResponse tmsi rnti value = some (a.onAuthResponse tmsi rnti value) := by
  rw [Amf.checkedAuthResponse, Amf.onAuthResponse]
  cases hpending : a.pendingAuth[tmsi]? with
  | none => rfl
  | some ctx =>
    have hmem : tmsi ∈ a.pendingAuth := by
      rw [Std.ExtTreeMap.mem_iff_isSome_getElem?, hpending]
      rfl
    obtain ⟨xres, hxres, hlength⟩ := h tmsi hmem
    have hread : a.pendingRnti.getD tmsi [] = xres := by
      rw [Std.ExtTreeMap.getD_eq_getD_getElem?, hxres, Option.getD_some]
    have hwhole : readRange xres 0 value.length = some xres := by
      rw [hres, ← hlength, readRange_eq_drop (Nat.zero_le _), List.drop_zero]
    dsimp only
    rw [hread, hwhole]
    dsimp only [Option.bind_eq_bind, Option.bind_some]
    split <;> rfl

/-- The AMF reads inside its messages, as long as expected responses have their length. -/
theorem checkedHandle_eq (h : Expects a) (rand : Rand) (msg : CnMessage) :
    a.checkedHandle hmac rand msg = some (a.handle hmac rand msg) := by
  obtain ⟨type, value⟩ := msg
  cases type with
  | ngSetup =>
    dsimp only [Amf.checkedHandle, Amf.handle]
    split
    · rw [readU16_eq (by omega)]
      rfl
    · rfl
  | initialUeMsg =>
    dsimp only [Amf.checkedHandle, Amf.handle, Amf.checkedInitialUeMsg, Amf.onInitialUeMsg]
    split
    · rfl
    · rw [readU16_eq (by omega), readRange_eq_drop (by omega)]
      dsimp only [Option.bind_eq_bind, Option.bind_some]
      split
      · rfl
      · cases a.keys (NasMessage.decode (value.drop 2)).value <;> rfl
  | uplinkNas =>
    dsimp only [Amf.checkedHandle, Amf.handle, Amf.checkedUplinkNas, Amf.onUplinkNas]
    split
    · rfl
    · rw [readU32_eq (by omega), readU16_eq (by omega), readRange_eq_drop (by omega)]
      dsimp only [Option.bind_eq_bind, Option.bind_some]
      cases (NasMessage.decode (value.drop 8)).msgType with
      | authFailure => exact checkedAuthFailure_eq rand _ _
      | authResponse =>
        dsimp only
        split
        · rename_i hres
          exact checkedAuthResponse_eq h _ _ hres
        · rfl
      | _ => rfl
  | hoRequired =>
    dsimp only [Amf.checkedHandle, Amf.handle]
    split
    · rfl
    · rw [readU32_eq (by omega), readU16_eq (by omega)]
      rfl
  | hoNotify =>
    dsimp only [Amf.checkedHandle, Amf.handle, Amf.checkedHoNotify, Amf.onHoNotify]
    split
    · rfl
    · rw [readU32_eq (by omega), readU16_eq (by omega), readRange_eq_drop (by omega)]
      rfl
  | _ => rfl

end

/-! ## The UPF -/

/-- The UPF does without a condition. -/
theorem upf_checkedHandle_isSome (u : Upf) (msg : CnMessage) : (u.checkedHandle msg).isSome := by
  rw [Upf.checkedHandle_eq]
  rfl

/-! ## The four handlers -/

/-- Every access of the four handlers lies in its buffer exactly when the message is neither
a SESSION_KEY with more than a key nor an XN_HO_PREPARE for this cell that ends before the
length of its IMSI, whichever handler it reaches. The AMF is in any state it can reach. -/
theorem messages_parsed_in_bounds_iff (w : World) (hmac : KeyedDigest)
    (keys : Bytes → Option Key256) :
    (∀ (n : BsNode) (m : CnMessage), (n.checkedHandleCnMessage w m).isSome ↔
      ¬(m.msgType = .sessionKey ∧ 38 < m.value.length)) ∧
    (∀ (n : BsNode) (m : CnMessage), (n.checkedHandleXnMessage w m).isSome ↔
      ¬(m.msgType = .other 40 ∧ m.value.length = 41 ∧ getU16 m.value 6 = n.config.cellId)) ∧
    (∀ (messages : List (Rand × CnMessage)) (a : Amf) (rand : Rand) (m : CnMessage),
      runFrom (fun a m => some (a.handle hmac m.1 m.2).1) { keys := keys } messages = some a →
        (a.checkedHandle hmac rand m).isSome) ∧
    ∀ (u : Upf) (m : CnMessage), (u.checkedHandle m).isSome := by
  refine ⟨fun n m => ?_, fun n m => ?_, fun messages a rand m hrun => ?_, upf_checkedHandle_isSome⟩
  · rw [checkedHandleCnMessage_eq]
    exact isSome_ite_none
  · rw [checkedHandleXnMessage_eq]
    exact isSome_ite_none
  · have hstart : Expects { keys := keys } := fun t ht => by simp at ht
    have hexpects : Expects a := runFrom_invariant Expects
      (fun a m a' h hstep => Option.some.inj hstep ▸ handle_expects h m.1 m.2) hstart hrun
    rw [checkedHandle_eq hexpects]
    rfl

/-- A SESSION_KEY of one octet more than a key, and an XN_HO_PREPARE without its last field. -/
theorem session_key_overruns_array :
    ((BsNode.make {} fun _ => none).checkedHandleCnMessage World.plain
        ⟨.sessionKey, List.replicate 39 0⟩).isNone ∧
      ((BsNode.make {} fun _ => none).checkedHandleXnMessage World.plain
        ⟨.other 40, [7, 0, 0, 0, 2, 0, 1, 0] ++ List.replicate 33 0⟩).isNone := by
  decide

end MessageBounds

end AetherStack.Guarantees
