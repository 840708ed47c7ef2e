import AetherStack.Source.BsUplink
import AetherStack.Source.Upf

/-!
# The user plane through the anchor

A datagram of the core carries the first 2045 octets of a value and its type. The anchor sends a
UE's downlink to the C-RNTI that the last message naming the UE named, in every run. And a cell
whose uplink ends at the anchor is the cell that echoes it: what the standalone anchor returns is
what the integrated core would have put on the same bearer.
-/
namespace AetherStack.Guarantees
open Source Source.Core

namespace UserAnchor

/-! ### Datagrams -/

/-- The octets of a datagram of at least three. -/
theorem datagram_eq {data : Bytes} (h : 3 ≤ data.length) :
    data = data.getD 0 0 :: ([data.getD 1 0, data.getD 2 0] ++ data.drop 3) := by
  obtain ⟨a, b, c, rest, rfl⟩ : ∃ a b c rest, data = a :: b :: c :: rest := by
    match data, h with
    | a :: b :: c :: rest, _ => exact ⟨a, b, c, rest, rfl⟩
  rfl

/-- A datagram is what its message encodes to when its length field is right, and only then. -/
theorem encode_decode_iff {data : Bytes} (h : 3 ≤ data.length) :
    (CnMessage.decode data).encode = data ↔ getU16 data 1 = data.length - 3 := by
  have hdecode : CnMessage.decode data =
      ⟨.ofOctet (data.getD 0 0), (data.drop 3).take (min (getU16 data 1) (data.length - 3))⟩ := by
    rw [CnMessage.decode, if_neg (by omega)]
  have hsize : ((data.drop 3).take (min (getU16 data 1) (data.length - 3))).length =
      min (getU16 data 1) (data.length - 3) := by
    rw [List.length_take, List.length_drop]
    omega
  constructor
  · intro heq
    have hlength : 3 + min (getU16 data 1) (data.length - 3) = data.length := by
      have hlength := congrArg List.length heq
      rwa [hdecode, CnMessage.length_encode, hsize] at hlength
    have hfield : getU16 data 1 = min (getU16 data 1) (data.length - 3) % snModulus := by
      have hread := getU16_putU16 [(CnMsgType.ofOctet (data.getD 0 0)).toOctet]
        ((data.drop 3).take (min (getU16 data 1) (data.length - 3)))
        ((data.drop 3).take (min (getU16 data 1) (data.length - 3))).length
      rw [hsize] at hread
      rw [← hread]
      conv_lhs => rw [← heq, hdecode, CnMessage.encode, hsize]
      rfl
    have hsmall : min (getU16 data 1) (data.length - 3) % snModulus ≤
        min (getU16 data 1) (data.length - 3) := Nat.mod_le _ _
    omega
  · intro hfield
    have hvalue : (data.drop 3).take (min (getU16 data 1) (data.length - 3)) = data.drop 3 := by
      rw [hfield, Nat.min_self, List.take_of_length_le]
      rw [List.length_drop]
    rw [hdecode, hvalue, CnMessage.encode, CnMsgType.toOctet_ofOctet, List.length_drop, ← hfield,
      putU16_getU16]
    exact (datagram_eq h).symm

end UserAnchor

open UserAnchor in
/-- A message goes over UDP with the first 2045 octets of its value, so as it was when it has no
more; what a datagram decodes to lies in the datagram, and encodes to it when the length field
tells the truth. -/
theorem cn_datagrams_carry :
    (∀ m : CnMessage, CnMsgType.ofOctet m.msgType.toOctet = m.msgType →
      (udpCarry m = if m.value.length ≤ 65504 then some { m with value := m.value.take 2045 } else none) ∧
      (udpCarry m = some m ↔ m.value.length ≤ 2045)) ∧
    ∀ data : Bytes, 3 ≤ data.length →
      (CnMessage.decode data).value <+: data.drop 3 ∧
      ((CnMessage.decode data).encode = data ↔ getU16 data 1 = data.length - 3) := by
  have hcarry : ∀ m : CnMessage, CnMsgType.ofOctet m.msgType.toOctet = m.msgType →
      udpCarry m = if m.value.length ≤ 65504 then some { m with value := m.value.take 2045 } else none := by
    intro m htype
    rw [udpCarry, CnMessage.length_encode, kMaxDatagram, kCnReceiveBuffer]
    split
    · rw [if_neg (by omega)]
    · rw [if_pos (by omega), CnMessage.decode_take_encode htype (by rw [snModulus]; omega) (by decide)]
  refine ⟨fun m htype => ⟨hcarry m htype, ?_⟩, fun data h => ⟨?_, encode_decode_iff h⟩⟩
  · rw [hcarry m htype]
    constructor
    · intro heq
      split at heq
      · have hvalue := congrArg (fun m : CnMessage => m.value.length) (Option.some.inj heq)
        simp only [List.length_take] at hvalue
        omega
      · cases heq
    · intro hlen
      rw [if_pos (by omega), List.take_of_length_le hlen]
  · rw [CnMessage.decode, if_neg (by omega)]
    exact List.take_prefix _ _

/-- One octet more than the buffer takes. -/
theorem cn_datagrams_carry_long :
    udpCarry ⟨.other 32, List.replicate 2046 7⟩ = some ⟨.other 32, List.replicate 2045 7⟩ := by
  rw [(cn_datagrams_carry.1 ⟨.other 32, List.replicate 2046 7⟩ rfl).1,
    if_pos (by rw [List.length_replicate]; omega), List.take_replicate]
  rfl

namespace UserAnchor

/-! ### Routes -/

/-- The TMSI a message names to the anchor, with its C-RNTI. -/
def named (msg : CnMessage) : Option (Nat × Nat) :=
  if msg.msgType = .other 32 ∧ 6 ≤ msg.value.length ∨ msg.msgType = .other 34 ∧ 8 ≤ msg.value.length then
    some (getU32 msg.value 0, getU16 msg.value 4)
  else none

/-- The uplink PDU of a message, with the TMSI it is sent under. -/
def uplinkPdu (msg : CnMessage) : Option (Nat × Bytes) :=
  if msg.msgType = .other 32 ∧ 6 ≤ msg.value.length then some (getU32 msg.value 0, msg.value.drop 6)
  else none

/-- `rnti` is what the last message about `tmsi` named. -/
def LastNamed (messages : List CnMessage) (tmsi rnti : Nat) : Prop :=
  ∃ before msg after, messages = before ++ msg :: after ∧ named msg = some (tmsi, rnti) ∧
    ∀ later ∈ after, ∀ r, named later ≠ some (tmsi, r)

/-- The latest message that names the UE decides. -/
theorem lastNamed_concat (messages : List CnMessage) (msg : CnMessage) (tmsi rnti : Nat) :
    LastNamed (messages ++ [msg]) tmsi rnti ↔
      named msg = some (tmsi, rnti) ∨
        (∀ r, named msg ≠ some (tmsi, r)) ∧ LastNamed messages tmsi rnti := by
  constructor
  · rintro ⟨before, last, after, hsplit, hnamed, hafter⟩
    rcases List.eq_nil_or_concat after with rfl | ⟨after, final, rfl⟩
    · obtain ⟨-, hlast⟩ := List.append_inj' hsplit rfl
      rw [List.singleton_inj.mp hlast]
      exact .inl hnamed
    · rw [List.concat_eq_append, ← List.cons_append, ← List.append_assoc] at hsplit
      obtain ⟨hfront, hlast⟩ := List.append_inj' hsplit rfl
      rw [List.singleton_inj.mp hlast]
      refine .inr ⟨hafter final (by simp), before, last, after, hfront, hnamed, fun later hlater => ?_⟩
      exact hafter later (by simp [hlater])
  · rintro (hnamed | ⟨hquiet, before, last, after, rfl, hnamed, hafter⟩)
    · exact ⟨messages, msg, [], rfl, hnamed, by simp⟩
    · refine ⟨before, last, after ++ [msg], by simp, hnamed, fun later hlater => ?_⟩
      rcases List.mem_append.mp hlater with hold | hnew
      · exact hafter later hold
      · rw [List.mem_singleton.mp hnew]
        exact hquiet

/-- What a message does to the anchor. -/
structure Handled (u : Upf) (msg : CnMessage) (u' : Upf) : Prop where
  kept : named msg = none → u'.routes = u.routes
  routed : ∀ t r, named msg = some (t, r) →
    ∃ cell, u'.routes = u.routes.insert t { rnti := r, gnbCell := cell }
  sunk : u'.sunk = u.sunk ++ (uplinkPdu msg).toList

/-- What a message can do to the anchor. -/
theorem handle_handled (u : Upf) (msg : CnMessage) : Handled u msg (u.handle msg) := by
  obtain ⟨type, value⟩ := msg
  by_cases hdata : type = .other 32 ∧ 6 ≤ value.length
  · obtain ⟨rfl, hlong⟩ := hdata
    rw [Upf.handle_ulData u hlong]
    refine ⟨fun hnone => ?_, fun t r hnamed => ?_, ?_⟩
    · rw [named, if_pos (.inl ⟨rfl, hlong⟩)] at hnone
      cases hnone
    · rw [named, if_pos (.inl ⟨rfl, hlong⟩)] at hnamed
      obtain ⟨rfl, rfl⟩ := Prod.mk.inj (Option.some.inj hnamed)
      exact ⟨_, rfl⟩
    · rw [uplinkPdu, if_pos ⟨rfl, hlong⟩]
      rfl
  · have hpdu : uplinkPdu ⟨type, value⟩ = none := if_neg hdata
    by_cases hswitch : type = .other 34 ∧ 8 ≤ value.length
    · obtain ⟨rfl, hlong⟩ := hswitch
      rw [Upf.handle_pathSwitch u hlong]
      refine ⟨fun hnone => ?_, fun t r hnamed => ?_, ?_⟩
      · rw [named, if_pos (.inr ⟨rfl, hlong⟩)] at hnone
        cases hnone
      · rw [named, if_pos (.inr ⟨rfl, hlong⟩)] at hnamed
        obtain ⟨rfl, rfl⟩ := Prod.mk.inj (Option.some.inj hnamed)
        exact ⟨_, rfl⟩
      · rw [hpdu, Option.toList_none, List.append_nil]
    · have hnamed : named ⟨type, value⟩ = none := if_neg (not_or.mpr ⟨hdata, hswitch⟩)
      rw [Upf.handle_ignored u (fun htype => Nat.lt_of_not_le fun hlong => hdata ⟨htype, hlong⟩)
        (fun htype => Nat.lt_of_not_le fun hlong => hswitch ⟨htype, hlong⟩)]
      refine ⟨fun _ => rfl, fun t r hsome => ?_, ?_⟩
      · rw [hnamed] at hsome
        cases hsome
      · rw [hpdu, Option.toList_none, List.append_nil]

/-- The anchor after a run. -/
def afterRun (messages : List CnMessage) : Upf := messages.foldl Upf.handle {}

theorem afterRun_concat (messages : List CnMessage) (msg : CnMessage) :
    afterRun (messages ++ [msg]) = (afterRun messages).handle msg := by
  rw [afterRun, List.foldl_append]
  rfl

/-- By induction on the messages: the route is the C-RNTI last named. -/
theorem route_iff (messages : List CnMessage) (tmsi rnti : Nat) :
    ((afterRun messages).routes[tmsi]?).map UpfRoute.rnti = some rnti ↔ LastNamed messages tmsi rnti := by
  induction messages using List.reverseRecOn with
  | nil =>
    constructor
    · intro h
      simp [afterRun] at h
    · rintro ⟨before, msg, after, hsplit, -⟩
      exact absurd hsplit.symm (by simp)
  | append_singleton messages msg ih =>
    have hhandled := handle_handled (afterRun messages) msg
    rw [afterRun_concat, lastNamed_concat, ← ih]
    cases hnamed : named msg with
    | none =>
      rw [hhandled.kept hnamed]
      simp
    | some name =>
      obtain ⟨t, r⟩ := name
      obtain ⟨cell, hroutes⟩ := hhandled.routed t r hnamed
      rw [hroutes, TmsiMap.getElem?_insert_eq]
      by_cases ht : t = tmsi
      · subst ht
        simp [eq_comm]
      · rw [if_neg ht]
        simp [ht]

/-- The TMSIs a run has named. -/
def tmsisNamed (messages : List CnMessage) : Finset Nat := ((messages.filterMap named).map Prod.fst).toFinset

theorem mem_tmsisNamed {messages : List CnMessage} {tmsi : Nat} :
    tmsi ∈ tmsisNamed messages ↔ tmsi ∈ (afterRun messages).routes := by
  induction messages using List.reverseRecOn with
  | nil => simp [tmsisNamed, afterRun]
  | append_singleton messages msg ih =>
    have hhandled := handle_handled (afterRun messages) msg
    rw [afterRun_concat]
    cases hnamed : named msg with
    | none =>
      rw [hhandled.kept hnamed, ← ih]
      simp [tmsisNamed, hnamed]
    | some name =>
      obtain ⟨cell, hroutes⟩ := hhandled.routed name.1 name.2 hnamed
      rw [hroutes, Std.ExtTreeMap.mem_insert, ← ih, compare_eq_iff_eq]
      simp [tmsisNamed, hnamed, eq_comm]

/-- A session for every TMSI that was ever named. -/
theorem sessionCount_afterRun (messages : List CnMessage) :
    (afterRun messages).sessionCount = (tmsisNamed messages).card := by
  induction messages using List.reverseRecOn with
  | nil => rfl
  | append_singleton messages msg ih =>
    have hhandled := handle_handled (afterRun messages) msg
    rw [Upf.sessionCount] at ih ⊢
    rw [afterRun_concat]
    cases hnamed : named msg with
    | none =>
      rw [hhandled.kept hnamed, ih]
      simp [tmsisNamed, hnamed]
    | some name =>
      obtain ⟨cell, hroutes⟩ := hhandled.routed name.1 name.2 hnamed
      have hgrown : tmsisNamed (messages ++ [msg]) = insert name.1 (tmsisNamed messages) := by
        ext t
        simp [tmsisNamed, hnamed]
      rw [hroutes, Std.ExtTreeMap.size_insert, hgrown, Finset.card_insert_eq_ite, ih]
      simp only [mem_tmsisNamed, Std.ExtTreeMap.contains_iff_mem]

/-- The sink has the uplink, in order. -/
theorem sunk_afterRun (messages : List CnMessage) :
    (afterRun messages).sunk = messages.filterMap uplinkPdu := by
  induction messages using List.reverseRecOn with
  | nil => rfl
  | append_singleton messages msg ih =>
    rw [afterRun_concat, (handle_handled _ msg).sunk, ih, List.filterMap_append]
    cases hpdu : uplinkPdu msg <;> simp [hpdu]

end UserAnchor

open UserAnchor in
/-- After every run the anchor sends a UE's downlink to the C-RNTI that the last message about the
UE named, and to nobody when no message named it; it counts a session for each TMSI named, and its
sink has had every uplink PDU once and in order. -/
theorem anchor_follows_ue (messages : List CnMessage) :
    (∀ tmsi pdu m, (afterRun messages).sendDownlink tmsi pdu = some m ↔
      ∃ rnti, LastNamed messages tmsi rnti ∧ m = ⟨.other 33, putU32 tmsi ++ putU16 rnti ++ pdu⟩) ∧
    (∀ tmsi pdu, (afterRun messages).sendDownlink tmsi pdu = none ↔ tmsi ∉ tmsisNamed messages) ∧
    (afterRun messages).sessionCount = (tmsisNamed messages).card ∧
    (afterRun messages).sunk = messages.filterMap uplinkPdu := by
  refine ⟨fun tmsi pdu m => ?_, fun tmsi pdu => ?_, sessionCount_afterRun messages, sunk_afterRun messages⟩
  · constructor
    · intro h
      obtain ⟨route, hroute, rfl⟩ := Option.map_eq_some_iff.mp h
      exact ⟨route.rnti, (route_iff messages tmsi _).mp (by rw [hroute]; rfl), rfl⟩
    · rintro ⟨rnti, hlast, rfl⟩
      obtain ⟨route, hroute, rfl⟩ := Option.map_eq_some_iff.mp ((route_iff messages tmsi rnti).mpr hlast)
      rw [Upf.sendDownlink, hroute]
      rfl
  · rw [Upf.sendDownlink, Option.map_eq_none_iff, mem_tmsisNamed, Std.ExtTreeMap.mem_iff_isSome_getElem?,
      Option.not_isSome_iff_eq_none]

namespace UserAnchor

/-! ### The loop through the standalone anchor -/

/-- UL_DATA {tmsi:4}{rnti:2} ++ payload. -/
def ulData (tmsi rnti : Nat) (data : Bytes) : CnMessage :=
  ⟨.other 32, putU32 tmsi ++ putU16 rnti ++ data⟩

/-- The anchor returns an UL_DATA as it is, whatever routes it has. -/
theorem echo_ulData (u : Upf) {value : Bytes} (h : 6 ≤ value.length) :
    (u.echo ⟨.other 32, value⟩).2 = [⟨.other 33, value⟩] := by
  have hwhole : putU32 (getU32 value 0) ++ putU16 (getU16 value 4) ++ value.drop 6 = value := by
    obtain ⟨a, b, c, d, e, f, rest, rfl⟩ : ∃ a b c d e f rest, value = a :: b :: c :: d :: e :: f :: rest := by
      match value, h with
      | a :: b :: c :: d :: e :: f :: rest, _ => exact ⟨a, b, c, d, e, f, rest, rfl⟩
    rw [putU32_getU32, putU16_getU16]
    rfl
  rw [Upf.echo, Upf.handle_ulData u h]
  simp only [List.drop_left, List.filterMap_cons, Upf.sendDownlink, Std.ExtTreeMap.getElem?_insert_self,
    Option.map_some, List.filterMap_nil, hwhole]

/-- One datagram of the cell at the anchor, and the datagrams it is answered with. -/
def anchorTurn (s : Upf × List CnMessage) (m : CnMessage) : Upf × List CnMessage :=
  match udpCarry m with
  | none => s
  | some m => ((s.1.echo m).1, s.2 ++ (s.1.echo m).2.filterMap udpCarry)

/-- What comes back for the messages, in order. -/
def anchorReplies (u : Upf) (messages : List CnMessage) : List CnMessage :=
  (messages.foldl anchorTurn (u, [])).2

/-- Uplink of at most 65498 octets comes back to its C-RNTI. -/
theorem anchorTurn_ulData (s : Upf × List CnMessage) (tmsi rnti : Nat) {data : Bytes}
    (h : data.length ≤ 65498) :
    (anchorTurn s (ulData tmsi rnti data)).2 =
      s.2 ++ [⟨.other 33, putU32 tmsi ++ putU16 rnti ++ data.take 2039⟩] := by
  have hfront : (putU32 tmsi ++ putU16 rnti).length = 6 := rfl
  have hcut : (putU32 tmsi ++ putU16 rnti ++ data).take 2045 = putU32 tmsi ++ putU16 rnti ++ data.take 2039 := by
    rw [List.take_append, hfront, List.take_of_length_le (by omega)]
  have hcarry : udpCarry (ulData tmsi rnti data) =
      some ⟨.other 32, putU32 tmsi ++ putU16 rnti ++ data.take 2039⟩ := by
    rw [ulData, udpCarry, CnMessage.length_encode, if_neg, CnMessage.decode_take_encode rfl _ (by decide)]
    · exact congrArg (fun value => some (CnMessage.mk (.other 32) value)) hcut
    · rw [List.length_append, hfront, snModulus]
      omega
    · rw [List.length_append, hfront, kMaxDatagram]
      omega
  have hback : udpCarry ⟨.other 33, putU32 tmsi ++ putU16 rnti ++ data.take 2039⟩ =
      some ⟨.other 33, putU32 tmsi ++ putU16 rnti ++ data.take 2039⟩ := by
    have hsize : (putU32 tmsi ++ putU16 rnti ++ data.take 2039).length ≤ 2045 := by
      rw [List.length_append, hfront, List.length_take]
      omega
    rw [udpCarry, CnMessage.length_encode, if_neg, CnMessage.decode_take_encode rfl _ (by decide)]
    · exact congrArg (fun value => some (CnMessage.mk (.other 33) value)) (List.take_of_length_le hsize)
    · exact Nat.lt_of_le_of_lt hsize (by decide)
    · exact Nat.not_lt.mpr (Nat.add_le_add_left (Nat.le_trans hsize (by decide : 2045 ≤ 65504)) 3)
  have hlong : 6 ≤ (putU32 tmsi ++ putU16 rnti ++ data.take 2039).length := by
    rw [List.length_append, hfront]
    exact Nat.le_add_right _ _
  rw [anchorTurn, hcarry]
  dsimp only
  rw [echo_ulData s.1 hlong, List.filterMap_cons, hback, List.filterMap_nil]

/-- The uplink as the cell tunnels it. -/
def tunnelled (uplink : List (Nat × Nat × Bytes)) : List CnMessage :=
  uplink.map fun s => ulData s.1 s.2.1 s.2.2

theorem anchorReplies_tunnelled (u : Upf) {uplink : List (Nat × Nat × Bytes)}
    (h : ∀ s ∈ uplink, s.2.2.length ≤ 65498) :
    anchorReplies u (tunnelled uplink) =
      uplink.map fun s => ⟨.other 33, putU32 s.1 ++ putU16 s.2.1 ++ s.2.2.take 2039⟩ := by
  have hloop : ∀ (start : Upf × List CnMessage), ((tunnelled uplink).foldl anchorTurn start).2 =
      start.2 ++ uplink.map fun s => ⟨.other 33, putU32 s.1 ++ putU16 s.2.1 ++ s.2.2.take 2039⟩ := by
    induction uplink with
    | nil => exact fun start => (List.append_nil _).symm
    | cons s uplink ih =>
      intro start
      rw [tunnelled, List.map_cons, List.foldl_cons]
      refine (ih (fun s hs => h s (List.mem_cons_of_mem _ hs)) _).trans ?_
      rw [anchorTurn_ulData _ _ _ (h s List.mem_cons_self), List.append_assoc, List.map_cons,
        List.singleton_append]
  exact hloop (u, [])

section
variable (w : World)

/-- The reply that comes back for one SDU is put on the bearer it came from. -/
theorem dlData_sends (n : BsNode) (tmsi : Nat) {rnti : Nat} (hrnti : rnti < snModulus) (data : Bytes) :
    n.handleCnMessage w ⟨.other 33, putU32 tmsi ++ putU16 rnti ++ data⟩ = n.sendSdu rnti .bestEffort data := by
  have hread : getU16 (putU32 tmsi ++ putU16 rnti ++ data) 4 = rnti := by
    rw [List.append_assoc]
    exact getU16_fifth _ hrnti
  have hlong : ¬(putU32 tmsi ++ putU16 rnti ++ data).length < 6 := by
    simp only [List.length_append, length_putU32, length_putU16]
    omega
  show n.onDlData _ = _
  rw [BsNode.onDlData, if_neg hlong, hread]
  rfl

/-- Uplink SDUs with the C-RNTI each came on. -/
def uplinks (n : BsNode) (uplink : List (Nat × Bytes)) : BsNode :=
  uplink.foldl (fun n s => n.handleUlAppSdu w s.1 s.2) n

/-- What the anchor answers to the messages a cell sent since `n`, handled by the cell. -/
def loopedBack (u : Upf) (n n' : BsNode) : BsNode :=
  (anchorReplies u ((n'.sent.drop n.sent.length).map Prod.snd)).foldl (BsNode.handleCnMessage w) n'

variable {w} {n : BsNode}

/-- With a UPF every SDU of the uplink is tunnelled, under the TMSI of its C-RNTI. -/
theorem uplinks_tunnelled (hupf : n.config.upf = true) (hlater : n.script = []) (uplink : List (Nat × Bytes)) :
    ∃ named : List (Nat × Nat × Bytes), named.map Prod.snd = uplink ∧
      uplinks w n uplink = { n with sent := n.sent ++ (tunnelled named).map (Prod.mk .upf) } := by
  induction uplink generalizing n with
  | nil => exact ⟨[], rfl, by rw [uplinks, tunnelled]; simp⟩
  | cons s uplink ih =>
    have hsend : n.handleUlAppSdu w s.1 s.2 = n.record .upf (ulData (n.tmsiForCrnti w s.1) s.1 s.2) := by
      rw [BsNode.handleUlAppSdu, if_pos hupf, BsNode.send, hlater]
      rfl
    obtain ⟨named, hnamed, hnode⟩ :=
      ih (n := n.record .upf (ulData (n.tmsiForCrnti w s.1) s.1 s.2)) hupf hlater
    refine ⟨(n.tmsiForCrnti w s.1, s) :: named, by rw [List.map_cons, hnamed], ?_⟩
    rw [uplinks, List.foldl_cons, hsend]
    refine hnode.trans ?_
    simp only [BsNode.record, tunnelled, List.map_cons, List.append_assoc, List.singleton_append]

theorem replies_send {named : List (Nat × Nat × Bytes)} (hrnti : ∀ s ∈ named, s.2.1 < snModulus) (n : BsNode) :
    ((named.map fun s => (⟨.other 33, putU32 s.1 ++ putU16 s.2.1 ++ s.2.2.take 2039⟩ : CnMessage)).foldl
        (BsNode.handleCnMessage w) n) =
      (named.map Prod.snd).foldl (fun n s => n.sendSdu s.1 .bestEffort (s.2.take 2039)) n := by
  induction named generalizing n with
  | nil => rfl
  | cons s named ih =>
    simp only [List.map_cons, List.foldl_cons]
    rw [dlData_sends w n s.1 (hrnti s List.mem_cons_self)]
    exact ih (fun s hs => hrnti s (List.mem_cons_of_mem _ hs)) _

/-- The cell with the core inside, and what it has sent put aside. -/
def integrated (n : BsNode) : BsNode := { n with config := { n.config with upf := false }, sent := [] }

/-- What the datagrams leave of the SDUs. -/
def carried (uplink : List (Nat × Bytes)) : List (Nat × Bytes) := uplink.map fun s => (s.1, s.2.take 2039)

/-- The echoes that the cell with the core inside puts on its bearers. -/
theorem uplinks_echo {uplink : List (Nat × Bytes)} (h : ∀ s ∈ uplink, decodeU2u s.2 = none)
    (hupf : n.config.upf = false) :
    uplinks w n uplink = uplink.foldl (fun n s => n.sendSdu s.1 .bestEffort s.2) n := by
  induction uplink generalizing n with
  | nil => rfl
  | cons s uplink ih =>
    have hecho : n.handleUlAppSdu w s.1 s.2 = n.sendSdu s.1 .bestEffort s.2 := by
      rw [BsNode.handleUlAppSdu, if_neg (by rw [hupf]; decide), h s List.mem_cons_self]
    rw [uplinks, List.foldl_cons, hecho]
    exact ih (fun s hs => h s (List.mem_cons_of_mem _ hs)) hupf

/-- What a bearer is given does not depend on where the core is. -/
theorem foldl_sendSdu_integrated (sent : List (Link × CnMessage)) (uplink : List (Nat × Bytes)) :
    uplink.foldl (fun n s => n.sendSdu s.1 .bestEffort s.2) { n with sent := sent } =
      { uplink.foldl (fun n s => n.sendSdu s.1 .bestEffort s.2) (integrated n) with
        config := n.config, sent := sent } := by
  induction uplink generalizing n with
  | nil => rfl
  | cons s uplink ih => exact ih (n := n.sendSdu s.1 .bestEffort s.2)

/-- What comes back is queued as the echo would be. -/
theorem loopedBack_sends (u : Upf) (hupf : n.config.upf = true) (hlater : n.script = [])
    {uplink : List (Nat × Bytes)} (h : ∀ s ∈ uplink, s.1 < snModulus ∧ s.2.length ≤ 65498) :
    loopedBack w u n (uplinks w n uplink) =
      (carried uplink).foldl (fun n s => n.sendSdu s.1 .bestEffort s.2) (uplinks w n uplink) := by
  obtain ⟨named, rfl, hnode⟩ := uplinks_tunnelled (w := w) hupf hlater uplink
  have hsent : ((uplinks w n (named.map Prod.snd)).sent.drop n.sent.length).map Prod.snd = tunnelled named := by
    rw [hnode, List.drop_left, List.map_map]
    exact List.map_id _
  have hnamed : ∀ s ∈ named, s.2.1 < snModulus ∧ s.2.2.length ≤ 65498 :=
    fun s hs => h s.2 (List.mem_map_of_mem hs)
  rw [loopedBack, hsent, anchorReplies_tunnelled u (fun s hs => (hnamed s hs).2),
    replies_send (fun s hs => (hnamed s hs).1), carried]
  simp only [List.foldl_map]

end

end UserAnchor

open UserAnchor in
/-- What a cell with its anchor outside gets back for its uplink, whatever routes the anchor has,
is every SDU once and in order on the best-effort bearer of the UE it came from, cut to 2039 octets;
U2U packets are no exception. Where there are none, that is what the cell with the core inside does. -/
theorem anchor_loopback_is_echo (w : World) (u : Upf) {n : BsNode} (hupf : n.config.upf = true)
    (hlater : n.script = []) {uplink : List (Nat × Bytes)}
    (h : ∀ s ∈ uplink, s.1 < snModulus ∧ s.2.length ≤ 65498) :
    loopedBack w u n (uplinks w n uplink) =
      (carried uplink).foldl (fun n s => n.sendSdu s.1 .bestEffort s.2) (uplinks w n uplink) ∧
    ((∀ s ∈ carried uplink, decodeU2u s.2 = none) →
      loopedBack w u n (uplinks w n uplink) =
        { uplinks w (integrated n) (carried uplink) with
          config := n.config, sent := (uplinks w n uplink).sent }) := by
  have hsends := loopedBack_sends (w := w) u hupf hlater h
  refine ⟨hsends, fun hplain => ?_⟩
  obtain ⟨named, -, hnode⟩ := uplinks_tunnelled (w := w) hupf hlater uplink
  rw [hsends, uplinks_echo hplain rfl, hnode]
  exact foldl_sendSdu_integrated _ _

open UserAnchor in
/-- Two UEs of a cell with one SDU each. -/
theorem anchor_loopback_is_echo_two_ues :
    let n := BsNode.make { upf := true } fun _ => none
    loopedBack World.plain {} n (uplinks World.plain n [(1, [72, 105]), (2, [33])]) =
      { uplinks World.plain (integrated n) [(1, [72, 105]), (2, [33])] with
        config := n.config, sent := (uplinks World.plain n [(1, [72, 105]), (2, [33])]).sent } := by
  refine (anchor_loopback_is_echo World.plain {} rfl rfl ?_).2 ?_
  · decide
  · decide

end AetherStack.Guarantees
