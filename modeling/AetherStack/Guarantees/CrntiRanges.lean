import AetherStack.Source.BsTables

/-!
# The C-RNTI ranges of a cell

A cell with base `b` hands out C-RNTIs from two counters: random access from `b` on, handover
from `b + 0x1000` on. Nothing stops a counter at the end of its range, and every MSG3 and every
preparation takes a number for good. `Partitioned` is what holds as long as neither counter has
run out and nobody names a C-RNTI that was not handed out.
-/
namespace AetherStack.Guarantees
open Source Source.Mac Source.Rrc Source.Core Lib

inductive Allocator where
  | rach | handover
  deriving DecidableEq, Repr

namespace CrntiRanges

variable {b : Nat} {waiting waiting' : List CnMessage} {n n' n'' : BsNode}

def counter (n : BsNode) : Allocator → Nat
  | .rach => n.rach.nextCrnti
  | .handover => n.nextHoCrnti

/-- The first C-RNTI of a range of 0x1000. -/
def first (b : Nat) : Allocator → Nat
  | .rach => b
  | .handover => b + 0x1000

/-- What a step from `n` to `n'` hands out: a counter moves only by handing out its value. -/
def HandsOut (n n' : BsNode) (p : Allocator) (r : Nat) : Prop := counter n p ≤ r ∧ r < counter n' p

/-- A C-RNTI as the cell may hand it out. -/
structure Fresh (b : Nat) (n : BsNode) (p : Allocator) (r : Nat) : Prop where
  ne_zero : r ≠ 0
  ne_broadcast : r ≠ rntiBroadcast
  not_context : r ∉ n.rrc.ueContexts
  not_flow : r ∉ n.flows
  first_le : first b p ≤ r
  lt_end : r < first b p + 0x1000

/-- Handed out before. -/
def Given (b : Nat) (n : BsNode) (r : Nat) : Prop := ∃ p, first b p ≤ r ∧ r < counter n p

structure Partitioned (b : Nat) (n : BsNode) : Prop where
  base : n.rrc.crntiBase = b
  config : n.config.crntiBase = b
  range : ∀ p, first b p ≤ counter n p ∧ counter n p ≤ first b p + 0x1000
  held : ∀ r, n.Holds r → Given b n r

/-- The HO_COMMANDs of a list that prepare a handover to the cell. -/
def ownCommands (cellId : Nat) (messages : List CnMessage) : Nat :=
  messages.countP fun m => m.msgType = .hoCommand ∧ (BsNode.hoCommandContext cellId m.value).isSome

/-- How many numbers an event takes from a counter, the answers of the links apart. -/
def takes (n : BsNode) : BsNode.Event → Allocator → Nat
  | .frame f _, .rach =>
    if f.type = .msg3Ccch ∧ 4 ≤ f.payload.length ∧ getU16 f.payload 1 ∈ n.rach.ueContexts then 1
    else 0
  | .prepareHandover _, .handover => 1
  | .link .xn m, .handover =>
    if m.msgType = .other 40 ∧ (BsNode.xnPrepareContext n.config.cellId m.value).isSome then 1 else 0
  | .link _ m, .handover => ownCommands n.config.cellId [m]
  | _, _ => 0

/-- The C-RNTIs an event names. -/
def names : BsNode.Event → Option Nat
  | .frame f _ => if f.type = .data then some f.rnti else none
  | .receive rnti _ _ | .sdu rnti _ _ => some rnti
  | .link _ m => BsNode.namedCrnti m
  | _ => none

/-- The condition on a step: what it and the answers in it name was handed out, and what they
take is left in its range. -/
structure InRange (n : BsNode) (s : BsNode.Step) : Prop where
  named : ∀ r, names s.event = some r → Given n.config.crntiBase n r
  answered : ∀ replies ∈ s.script, ∀ m ∈ replies, ∀ r, BsNode.namedCrnti m = some r →
    Given n.config.crntiBase n r
  rach : n.rach.nextCrnti + takes n s.event .rach ≤ n.config.crntiBase + 0x1000
  handover : n.nextHoCrnti + takes n s.event .handover +
    ownCommands n.config.cellId s.script.flatten ≤ n.config.crntiBase + 0x2000

/-! ### The invariant during a step -/

/-- The invariant with what the answers need that wait to be handled or are still to come. -/
structure Safe (b : Nat) (waiting : List CnMessage) (n : BsNode) : Prop extends Partitioned b n where
  answers : n.Answers (Given b n)
  room : n.nextHoCrnti + ownCommands n.config.cellId (waiting ++ n.script.flatten) ≤ b + 0x2000

structure Kept (b : Nat) (waiting : List CnMessage) (n n' : BsNode) : Prop where
  safe : Safe b waiting n'
  config : n'.config = n.config
  given : ∀ r, Given b n r → Given b n' r

def Keeps (b : Nat) (waiting : List CnMessage) (n n' : BsNode) : Prop :=
  Safe b waiting n → Kept b waiting n n'

theorem Keeps.refl (n : BsNode) : Keeps b waiting n n := fun h => ⟨h, rfl, fun _ hr => hr⟩

theorem Kept.trans (h : Kept b waiting n n') (h' : Kept b waiting' n' n'') :
    Kept b waiting' n n'' :=
  ⟨h'.safe, h'.config.trans h.config, fun r hr => h'.given r (h.given r hr)⟩

theorem Keeps.trans (h : Keeps b waiting n n') (h' : Keeps b waiting n' n'') :
    Keeps b waiting n n'' :=
  fun hsafe => (h hsafe).trans (h' (h hsafe).safe)

/-- Which C-RNTIs were given depends on the two counters only. -/
theorem given_congr (hrach : n'.rach = n.rach) (hnext : n'.nextHoCrnti = n.nextHoCrnti) (r : Nat) :
    Given b n' r ↔ Given b n r := by
  have hcounter : ∀ p, counter n' p = counter n p := by
    rintro (_ | _)
    · exact congrArg RachBs.nextCrnti hrach
    · exact hnext
  simp only [Given, hcounter]

theorem ownCommands_suffix (cellId : Nat) {script script' : List (List CnMessage)}
    (h : script' <:+ script) : ownCommands cellId script'.flatten ≤ ownCommands cellId script.flatten :=
  h.sublist.flatten.countP_le

/-- A step that brings in C-RNTIs that were handed out. -/
theorem keeps_of_grows (h : BsNode.Grows (Given b n) n n') : Keeps b waiting n n' := by
  intro hsafe
  have hgrown := h hsafe.answers
  have hgiven := given_congr (b := b) hgrown.rach hgrown.nextHoCrnti
  refine ⟨⟨⟨hgrown.crntiBase.trans hsafe.base, ?_, ?_, fun r hr => ?_⟩, ?_, ?_⟩, hgrown.config,
    fun r hr => (hgiven r).mpr hr⟩
  · rw [hgrown.config]
    exact hsafe.config
  · rintro (_ | _)
    · simpa only [counter, hgrown.rach] using hsafe.range .rach
    · simpa only [counter, hgrown.nextHoCrnti] using hsafe.range .handover
  · exact (hgiven r).mpr ((hgrown.held r hr).elim (hsafe.held r) id)
  · intro replies hreplies m hm r hr
    exact (hgiven r).mpr (hsafe.answers replies (hgrown.script.subset hreplies) m hm r hr)
  · rw [hgrown.nextHoCrnti, hgrown.config]
    have hless := ownCommands_suffix n.config.cellId hgrown.script
    have hroom := hsafe.room
    simp only [ownCommands, List.countP_append] at hless hroom ⊢
    omega

/-! ### Preparations -/

/-- A preparation brings one C-RNTI into the tables, the one it draws. -/
theorem holds_prepareHandover {ctx : HoContext} {r : Nat} (h : (n.prepareHandover ctx).Holds r) :
    n.Holds r ∨ r = n.nextHoCrnti := by
  cases h with
  | context hctx => exact (BsNode.mem_putUe.mp hctx).symm.imp .context id
  | flow hflow => exact (BsNode.mem_putFlow.mp hflow).symm.imp .flow id
  | mapped ht =>
    dsimp only [BsNode.prepareHandover] at ht
    split at ht
    · rw [TmsiMap.getElem?_insert_eq] at ht
      split at ht
      · exact .inr (Option.some.inj ht).symm
      · exact .inl (.mapped ht)
    · exact .inl (.mapped ht)
  | initiated hs => exact .inl (.initiated hs)
  | pending hp => exact .inl (.pending hp)

/-- What was given stays given as the counters go on. -/
theorem given_succ {r : Nat} (h : Given b n r) (hrach : n.rach.nextCrnti ≤ n'.rach.nextCrnti)
    (hho : n.nextHoCrnti ≤ n'.nextHoCrnti) : Given b n' r := by
  obtain ⟨p, hfirst, hlt⟩ := h
  refine ⟨p, hfirst, lt_of_lt_of_le hlt ?_⟩
  cases p with
  | rach => exact hrach
  | handover => exact hho

/-- A preparation takes the number of its counter and nothing else. -/
theorem prepareHandover_partitioned (hend : b + 0x2000 ≤ rntiBroadcast) (h : Partitioned b n)
    (ctx : HoContext) (hroom : n.nextHoCrnti < b + 0x2000) :
    Partitioned b (n.prepareHandover ctx) ∧ (n.prepareHandover ctx).nextHoCrnti = n.nextHoCrnti + 1 := by
  have hnext : (n.prepareHandover ctx).nextHoCrnti = n.nextHoCrnti + 1 := by
    have hsmall : n.nextHoCrnti + 1 < snModulus := by
      simp only [rntiBroadcast, snModulus] at hend ⊢
      omega
    exact Nat.mod_eq_of_lt hsmall
  have hrange := h.range .handover
  simp only [counter, first] at hrange
  refine ⟨⟨h.base, h.config, ?_, fun r hr => ?_⟩, hnext⟩
  · rintro (_ | _)
    · exact h.range .rach
    · simp only [counter, first, hnext]
      omega
  · rcases holds_prepareHandover hr with hold | rfl
    · exact given_succ (h.held r hold) le_rfl (by omega)
    · exact ⟨.handover, hrange.1, by simp only [counter]; omega⟩

theorem Safe.drop {m : CnMessage} (h : Safe b (m :: waiting) n) : Safe b waiting n := by
  refine ⟨h.toPartitioned, h.answers, ?_⟩
  have hroom := h.room
  simp only [ownCommands, List.cons_append, List.countP_cons] at hroom ⊢
  omega

/-- A HO_COMMAND for the cell takes one number, any other none. -/
theorem onHoCommand_kept (hend : b + 0x2000 ≤ rntiBroadcast) {m : CnMessage}
    (htype : m.msgType = .hoCommand) (h : Safe b (m :: waiting) n) :
    Kept b waiting n (n.onHoCommand m.value) := by
  have hroom := h.room
  simp only [ownCommands, List.cons_append, List.countP_cons, htype] at hroom
  unfold BsNode.onHoCommand
  cases hctx : BsNode.hoCommandContext n.config.cellId m.value with
  | none => exact Keeps.refl n h.drop
  | some ctx =>
    have hone : n.nextHoCrnti + 1 + ownCommands n.config.cellId (waiting ++ n.script.flatten) ≤
        b + 0x2000 := by
      rw [hctx] at hroom
      simpa [ownCommands, Nat.add_assoc, Nat.add_comm, Nat.add_left_comm] using hroom
    obtain ⟨hpartitioned, hnext⟩ :=
      prepareHandover_partitioned hend h.toPartitioned ctx (by omega)
    have hgiven : ∀ r, Given b n r → Given b (n.prepareHandover ctx) r :=
      fun r hr => given_succ hr le_rfl (by rw [hnext]; omega)
    have hprepared : Kept b waiting n (n.prepareHandover ctx) := by
      refine ⟨⟨hpartitioned, ?_, ?_⟩, rfl, hgiven⟩
      · exact fun replies hreplies m' hm r hr => hgiven r (h.answers replies hreplies m' hm r hr)
      · rw [hnext]
        exact hone
    dsimp only
    split
    · exact hprepared.trans (keeps_of_grows (BsNode.record_grows _ _ _) hprepared.safe)
    · exact hprepared

section
variable (w : World)

/-- The answers inside a `send` may prepare handovers here, within what `Safe` leaves of
the range. -/
theorem replies_kept (hend : b + 0x2000 ≤ rntiBroadcast) (replies : List CnMessage)
    (h : Safe b (replies ++ waiting) n) :
    Kept b waiting n ((replies.filter fun r => BsNode.answersTo .hoRequired r.msgType).foldl
      (fun n r => n.handleLinkMessage w .amf r) n) := by
  induction replies generalizing n with
  | nil => exact Keeps.refl n h
  | cons r replies ih =>
    simp only [List.filter_cons]
    split
    · rename_i hanswer
      have hreply : Kept b (replies ++ waiting) n (n.handleLinkMessage w .amf r) := by
        simp only [BsNode.handleLinkMessage, BsNode.handleCnMessage]
        rcases BsNode.answersTo_hoRequired hanswer with htype | htype
        · simp only [htype]
          exact onHoCommand_kept hend htype h
        · simp only [htype]
          exact keeps_of_grows (BsNode.onHoPrepared_grows w n r.value) h.drop
      exact hreply.trans (ih hreply.safe)
    · exact ih h.drop

theorem requestAmf_keeps (hend : b + 0x2000 ≤ rntiBroadcast) {crnti : Nat} (targetCell : Nat)
    (hflow : crnti ∈ n.flows) : Keeps b [] n (n.requestAmf w crnti targetCell) := by
  intro h
  have hheld : Given b n crnti := h.held _ (.flow hflow)
  unfold BsNode.requestAmf
  dsimp only
  have hstarted : Kept b [] n { n with hoLog := n.hoLog ++ [.started crnti targetCell] } :=
    keeps_of_grows (BsNode.grows_of_tables rfl rfl rfl rfl rfl rfl rfl rfl (List.suffix_refl _)) h
  generalize ({ n with hoLog := n.hoLog ++ [.started crnti targetCell] } : BsNode) = start at hstarted ⊢
  have hsent : Kept b [] start (start.send w .amf ⟨.hoRequired, putU32 (n.hoContext w crnti).tmsi ++
      putU16 targetCell ++ BsNode.contextBlob (n.hoContext w crnti)⟩) := by
    unfold BsNode.send
    split
    · exact keeps_of_grows (BsNode.record_grows _ _ _) hstarted.safe
    · rename_i replies rest hscript
      -- the answers leave the script and wait
      have hrest : Kept b (replies ++ []) start ({ start with script := rest }.record .amf
          ⟨.hoRequired, putU32 (n.hoContext w crnti).tmsi ++ putU16 targetCell ++
            BsNode.contextBlob (n.hoContext w crnti)⟩) := by
        have hsafe := hstarted.safe
        refine ⟨⟨?_, ?_, ?_⟩, rfl, fun _ hr => hr⟩
        · refine (keeps_of_grows ?_ hsafe).safe.toPartitioned
          refine BsNode.grows_of_tables rfl rfl rfl rfl rfl rfl rfl rfl ?_
          rw [hscript]
          exact List.suffix_cons _ _
        · exact fun r hr => hsafe.answers r (hscript ▸ List.mem_cons_of_mem _ hr)
        · have hroom := hsafe.room
          rw [hscript, List.nil_append, List.flatten_cons] at hroom
          rw [List.append_nil]
          exact hroom
      exact hrest.trans (replies_kept w hend replies hrest.safe)
  have hall := hstarted.trans hsent
  refine hall.trans (keeps_of_grows ?_ hall.safe)
  exact BsNode.insertInitiated_grows _ _ (.inr (hall.given _ hheld))

/-- A source draws nothing for a handover of its own. -/
theorem requestHandover_keeps (hend : b + 0x2000 ≤ rntiBroadcast) (n : BsNode)
    (crnti targetCell : Nat) : Keeps b [] n (n.requestHandover w crnti targetCell) := by
  unfold BsNode.requestHandover
  split
  · exact .refl n
  · rename_i hflow
    rw [not_not] at hflow
    split
    · exact keeps_of_grows (BsNode.requestCoordinator_grows targetCell hflow)
    · split
      · exact requestAmf_keeps w hend targetCell hflow
      · split
        · exact keeps_of_grows (BsNode.requestXn_grows w targetCell hflow)
        · exact .refl n

/-! ### Frames -/

/-- A turn for a C-RNTI that was handed out. -/
def KeepsFor (b rnti : Nat) (n n' : BsNode) : Prop := Given b n rnti → Keeps b [] n n'

theorem KeepsFor.trans {rnti : Nat} (h : KeepsFor b rnti n n') (h' : KeepsFor b rnti n' n'') :
    KeepsFor b rnti n n'' := by
  intro hgiven hsafe
  have hfirst := h hgiven hsafe
  exact hfirst.trans (h' (hfirst.given rnti hgiven) hfirst.safe)

theorem given_names (hbase : 1 ≤ b) {rnti : Nat} (h : Given b n rnti) :
    BsNode.Names (Given b n) rnti := by
  refine ⟨h, fun hzero => ?_⟩
  obtain ⟨p, hfirst, -⟩ := h
  cases p <;> simp only [first] at hfirst <;> omega

theorem handleSdu_keeps (hbase : 1 ≤ b) (hend : b + 0x2000 ≤ rntiBroadcast) (rnti : Nat) (n : BsNode)
    (entry : UInt8 × Bytes) : KeepsFor b rnti n (BsNode.handleSdu w rnti n entry) := by
  intro hgiven
  by_cases hmoves : BsNode.MovesHandover entry.1 entry.2
  · have hmoved := BsNode.handleSdu_moved w n rnti entry hmoves
    revert hmoved
    generalize BsNode.handleSdu w rnti n entry = n'
    intro hmoved
    cases hmoved with
    | unmoved => exact .refl n
    | requested => exact requestHandover_keeps w hend n rnti _
    | completed => exact keeps_of_grows (BsNode.completeHo_grows w n _)
    | notified =>
      exact keeps_of_grows ((BsNode.completeHo_grows w n _).trans (BsNode.record_grows _ _ _))
  · exact keeps_of_grows (BsNode.handleSdu_admits w (given_names hbase hgiven) n entry hmoves).grows

/-- Uplink data brings in no C-RNTI but the one it came on. -/
theorem handleDlData_keeps (hbase : 1 ≤ b) (hend : b + 0x2000 ≤ rntiBroadcast) {rnti : Nat}
    {payload : Bytes} {snr : ℚ} (h : n.handleDlData w rnti payload snr = .ok n') :
    KeepsFor b rnti n n' := by
  unfold BsNode.handleDlData at h
  split at h
  · cases h
  · rename_i m sdus hreceive
    obtain rfl := Except.ok.inj h
    have hstart : KeepsFor b rnti n m := fun hgiven =>
      keeps_of_grows (BsNode.receiveData_serves hgiven hreceive).admits.grows
    have hrefl : ∀ n, KeepsFor b rnti n n := fun n _ => .refl n
    exact hstart.trans (Lib.foldl_rel hrefl KeepsFor.trans
      (fun n entry => handleSdu_keeps w hbase hend rnti n entry) m sdus)

theorem keeps_rach (n : BsNode) (rach : RachBs) (hle : n.rach.nextCrnti ≤ rach.nextCrnti)
    (hlast : rach.nextCrnti ≤ b + 0x1000) : Keeps b waiting n { n with rach := rach } := by
  intro h
  have hgiven : ∀ r, Given b n r → Given b { n with rach := rach } r :=
    fun r hr => given_succ hr hle le_rfl
  have hrange := h.range .rach
  refine ⟨⟨⟨h.base, h.config, ?_, fun r hr => hgiven r (h.held r (hr.congr (n := n) rfl rfl rfl rfl rfl))⟩, ?_,
    h.room⟩, rfl, hgiven⟩
  · rintro (_ | _)
    · exact ⟨hrange.1.trans hle, hlast⟩
    · exact h.range .handover
  · exact fun replies hreplies m hm r hr => hgiven r (h.answers replies hreplies m hm r hr)

theorem sendFrame_keeps (n : BsNode) (type : AirFrameType) (rnti : Nat) (payload : Bytes) :
    Keeps b waiting n (n.sendFrame type rnti payload) :=
  keeps_of_grows (BsNode.sendFrame_serves n type rnti payload).admits.grows

theorem onPrachReceived_keeps (n : BsNode) (preamble : UInt8) :
    Keeps b [] n (n.runRach w (n.rach.onPrachReceived preamble)) := by
  unfold RachBs.onPrachReceived
  split
  · exact .refl n
  · dsimp only [BsNode.runRach, List.foldl, BsNode.onRachOutput]
    intro h
    refine Keeps.trans (keeps_rach n _ ?_ ?_) (sendFrame_keeps _ _ _ _) h
    · exact le_rfl
    · exact (h.range .rach).2

/-- A MSG3 takes the number of the counter, and RRC may use it. -/
theorem onMsg3Received_keeps (hbase : 1 ≤ b) (hend : b + 0x2000 ≤ rntiBroadcast) (n : BsNode)
    {raRnti : Nat} (msg3 : Bytes)
    (hroom : raRnti ∈ n.rach.ueContexts → n.rach.nextCrnti < b + 0x1000) :
    Keeps b [] n (n.runRach w (n.rach.onMsg3Received raRnti msg3)) := by
  intro h
  unfold RachBs.onMsg3Received
  split
  · exact Keeps.refl n h
  · rename_i ctx hctx
    have hlt := hroom (Std.ExtTreeMap.mem_iff_isSome_getElem?.mpr (by rw [hctx]; rfl))
    have hsucc : (n.rach.nextCrnti + 1) % snModulus = n.rach.nextCrnti + 1 := by
      refine Nat.mod_eq_of_lt ?_
      simp only [rntiBroadcast, snModulus] at hend ⊢
      omega
    dsimp only [BsNode.runRach, List.foldl, BsNode.onRachOutput]
    rw [hsucc]
    generalize n.rach.ueContexts.insert raRnti
      { ctx with cRnti := n.rach.nextCrnti, rachComplete := true } = contexts
    have htaken : Kept b [] n ({ n with rach := { n.rach with
        nextCrnti := n.rach.nextCrnti + 1, ueContexts := contexts } }.sendFrame .msg4Cr 0
          (RachBs.msg4Pdu n.rach.nextCrnti raRnti)) := by
      refine Keeps.trans (keeps_rach n _ ?_ ?_) (sendFrame_keeps _ _ _ _) h
      · exact Nat.le_succ _
      · exact hlt
    split
    · refine htaken.trans (keeps_of_grows (BsNode.handleRrc_admits w ?_ _ _).grows htaken.safe)
      exact given_names hbase ⟨.rach, (h.range .rach).1, Nat.lt_succ_self _⟩
    · exact htaken

/-- Step lemma for a frame; MSG3 needs room in the first range. -/
theorem handleAirFrame_keeps (hbase : 1 ≤ b) (hend : b + 0x2000 ≤ rntiBroadcast) {f : AirFrame}
    {snr : ℚ} (hnamed : f.type = .data → Given b n f.rnti)
    (hroom : f.type = .msg3Ccch → 4 ≤ f.payload.length → getU16 f.payload 1 ∈ n.rach.ueContexts →
      n.rach.nextCrnti < b + 0x1000)
    (h : n.handleAirFrame w f snr = .ok n') : Keeps b [] n n' := by
  unfold BsNode.handleAirFrame at h
  split at h
  · obtain rfl := Except.ok.inj h
    split
    · exact onPrachReceived_keeps w n _
    · exact .refl n
  · rename_i htype
    obtain rfl := Except.ok.inj h
    split
    · rename_i hlen
      exact onMsg3Received_keeps w hbase hend n _ (hroom htype hlen)
    · exact .refl n
  · rename_i htype
    exact handleDlData_keeps w hbase hend h (hnamed htype)
  · obtain rfl := Except.ok.inj h
    exact .refl n
  · obtain rfl := Except.ok.inj h
    exact .refl n

/-! ### Links -/

/-- The tables with C-RNTIs and the counters are all that counts. -/
theorem Partitioned.congr (h : Partitioned b n) (hconfig : n'.config = n.config)
    (hrach : n'.rach = n.rach) (hnext : n'.nextHoCrnti = n.nextHoCrnti) (hrrc : n'.rrc = n.rrc)
    (hflows : n'.flows = n.flows) (htmsi : n'.tmsiToCrnti = n.tmsiToCrnti)
    (hho : n'.initiatedHo = n.initiatedHo) (hxn : n'.pendingXnHo = n.pendingXnHo) :
    Partitioned b n' := by
  refine ⟨by rw [hrrc]; exact h.base, by rw [hconfig]; exact h.config, ?_, fun r hr => ?_⟩
  · rintro (_ | _)
    · simpa only [counter, hrach] using h.range .rach
    · simpa only [counter, hnext] using h.range .handover
  · exact (given_congr hrach hnext r).mpr (h.held r (hr.congr hrrc hflows htmsi hho hxn))

theorem onXnPrepare_partitioned (hend : b + 0x2000 ≤ rntiBroadcast) {value : Bytes}
    (hroom : (BsNode.xnPrepareContext n.config.cellId value).isSome → n.nextHoCrnti < b + 0x2000)
    (h : Partitioned b n) : Partitioned b (n.onXnPrepare value) := by
  unfold BsNode.onXnPrepare
  split
  · exact h
  · rename_i ctx hctx
    have hprepared := (prepareHandover_partitioned hend h ctx (hroom (by rw [hctx]; rfl))).1
    exact hprepared.congr rfl rfl rfl rfl rfl rfl rfl rfl

theorem handleXnMessage_partitioned (hend : b + 0x2000 ≤ rntiBroadcast) {m : CnMessage}
    (hroom : n.nextHoCrnti + takes n (.link .xn m) .handover ≤ b + 0x2000) (h : Safe b [] n) :
    Partitioned b (n.handleXnMessage w m) := by
  unfold BsNode.handleXnMessage
  split
  · rename_i htype
    refine onXnPrepare_partitioned hend (fun hsome => ?_) h.toPartitioned
    simp only [takes, htype, hsome, and_self, if_true] at hroom
    omega
  · exact (keeps_of_grows (BsNode.onXnPrepareAck_grows n m.value) h).safe.toPartitioned
  · exact (keeps_of_grows (BsNode.onXnFwdData_serves w n m.value).admits.grows h).safe.toPartitioned
  · dsimp only [BsNode.onXnComplete]
    split
    · exact h.toPartitioned
    · exact (keeps_of_grows (BsNode.completeHo_grows w n _) h).safe.toPartitioned
  · exact h.toPartitioned

theorem handleCnMessage_partitioned (hend : b + 0x2000 ≤ rntiBroadcast) {m : CnMessage}
    (hnamed : ∀ r, BsNode.namedCrnti m = some r → Given b n r) (h : Safe b [m] n) :
    Partitioned b (n.handleCnMessage w m) := by
  have hsafe : Safe b [] n := h.drop
  unfold BsNode.handleCnMessage
  split
  · rename_i htype
    have hgiven := hnamed (getU16 m.value 4) (by simp only [BsNode.namedCrnti, htype])
    exact (keeps_of_grows (BsNode.onDownlinkNas_admits n hgiven).grows hsafe).safe.toPartitioned
  · rename_i htype
    have hgiven := hnamed (getU16 m.value 4) (by simp only [BsNode.namedCrnti, htype])
    exact (keeps_of_grows (BsNode.onSessionKey_admits n hgiven).grows hsafe).safe.toPartitioned
  · rename_i htype
    exact (onHoCommand_kept hend htype h).safe.toPartitioned
  · exact (keeps_of_grows (BsNode.onHoPrepared_grows w n m.value) hsafe).safe.toPartitioned
  · rename_i htype
    have hgiven := hnamed (getU16 m.value 4) (by simp only [BsNode.namedCrnti, htype])
    exact (keeps_of_grows (BsNode.onDlData_serves n hgiven).admits.grows hsafe).safe.toPartitioned
  · exact h.toPartitioned

/-! ### Steps and runs -/

/-- Step lemma for every event, with the room it takes. -/
theorem handle_partitioned (hbase : 1 ≤ b) (hend : b + 0x2000 ≤ rntiBroadcast) {e : BsNode.Event}
    (h : Safe b [] n) (hnamed : ∀ r, names e = some r → Given b n r)
    (hrach : n.rach.nextCrnti + takes n e .rach ≤ b + 0x1000)
    (hho : n.nextHoCrnti + takes n e .handover + ownCommands n.config.cellId n.script.flatten ≤
      b + 0x2000)
    (hstep : n.handle w e = some n') : Partitioned b n' := by
  cases e with
  | frame f snr =>
    have hok : n.handleAirFrame w f snr = .ok n' := ok_of_toOption hstep
    refine (handleAirFrame_keeps w hbase hend (fun htype => ?_) (fun htype hlen hknown => ?_) hok
      h).safe.toPartitioned
    · exact hnamed f.rnti (by simp only [names, htype, if_true])
    · simp only [takes, htype, hlen, hknown, and_self, if_true] at hrach
      exact hrach
  | receive rnti payload snr =>
    obtain ⟨⟨m, sdus⟩, hreceive, rfl⟩ := Option.map_eq_some_iff.mp hstep
    have hok : n.receiveData rnti payload snr = .ok (m, sdus) := ok_of_toOption hreceive
    exact (keeps_of_grows (BsNode.receiveData_serves (hnamed rnti rfl) hok).admits.grows
      h).safe.toPartitioned
  | sdu rnti lcid sdu =>
    obtain rfl := Option.some.inj hstep
    exact (handleSdu_keeps w hbase hend rnti n (lcid, sdu) (hnamed rnti rfl) h).safe.toPartitioned
  | tick nowMs =>
    obtain rfl := Option.some.inj hstep
    exact (keeps_of_grows (BsNode.tick_admits w n nowMs).grows h).safe.toPartitioned
  | link link m =>
    obtain rfl := Option.some.inj hstep
    cases link with
    | xn => exact handleXnMessage_partitioned w hend (by omega) h
    | amf | upf =>
      refine handleCnMessage_partitioned w hend hnamed ⟨h.toPartitioned, h.answers, ?_⟩
      simp only [takes, ownCommands, List.countP_append] at hho ⊢
      omega
  | requestHandover crnti targetCell =>
    obtain rfl := Option.some.inj hstep
    exact (requestHandover_keeps w hend n crnti targetCell h).safe.toPartitioned
  | prepareHandover ctx =>
    obtain rfl := Option.some.inj hstep
    refine (prepareHandover_partitioned hend h.toPartitioned ctx ?_).1
    simp only [takes] at hho
    omega
  | page imsi =>
    obtain rfl := Option.some.inj hstep
    exact h.toPartitioned.congr rfl rfl rfl rfl rfl rfl rfl rfl
  | broadcast =>
    obtain rfl := Option.some.inj hstep
    exact (keeps_of_grows (BsNode.broadcastSib_serves n).admits.grows h).safe.toPartitioned
  | setSib broadcasting enabled =>
    obtain rfl := Option.some.inj hstep
    exact h.toPartitioned.congr rfl rfl rfl rfl rfl rfl rfl rfl

theorem step_partitioned (hbase : 1 ≤ b) (hend : b + 0x2000 ≤ rntiBroadcast) {s : BsNode.Step}
    (h : Partitioned b n) (hs : InRange n s) (hstep : n.step w s = some n') : Partitioned b n' := by
  obtain ⟨hnamed, hanswered, hrach, hho⟩ := hs
  rw [h.config] at hnamed hanswered hrach hho
  have hsafe : Safe b [] (n.answered s) := by
    refine ⟨h.congr rfl rfl rfl rfl rfl rfl rfl rfl, hanswered, ?_⟩
    dsimp only [List.nil_append, BsNode.answered]
    omega
  have htakes : ∀ p, takes (n.answered s) s.event p = takes n s.event p := by
    intro p
    cases s.event <;> cases p <;> rfl
  refine handle_partitioned w hbase hend hsafe hnamed ?_ ?_ hstep
  · rw [htakes]
    exact hrach
  · rw [htakes]
    exact hho

/-- A run of a cell with room for its two ranges, every step of which is in range. -/
structure RangedRun (w : World) (config : BsNodeConfig) (keys : Bytes → Option Key256)
    (steps : List BsNode.Step) (n : BsNode) : Prop where
  base : 1 ≤ config.crntiBase
  room : config.crntiBase + 0x2000 ≤ rntiBroadcast
  run : runFrom (BsNode.step w) (BsNode.make config keys) steps = some n
  ranged : StepsMeet (BsNode.step w) InRange (BsNode.make config keys) steps

theorem make_partitioned (config : BsNodeConfig) (keys : Bytes → Option Key256)
    (hroom : config.crntiBase + 0x2000 ≤ rntiBroadcast) :
    Partitioned config.crntiBase (BsNode.make config keys) := by
  have hnext : (BsNode.make config keys).nextHoCrnti = config.crntiBase + 0x1000 := by
    refine Nat.mod_eq_of_lt ?_
    simp only [rntiBroadcast, snModulus] at hroom ⊢
    omega
  refine ⟨rfl, rfl, ?_, fun r hr => ?_⟩
  · rintro (_ | _)
    · exact ⟨le_rfl, Nat.le_add_right _ _⟩
    · simp only [counter, first, hnext]
      omega
  · cases hr with
    | context h => exact absurd h Std.ExtTreeMap.not_mem_empty
    | flow h => exact absurd h Std.ExtTreeMap.not_mem_empty
    | mapped h => simp [BsNode.make] at h
    | initiated h => exact absurd h Std.ExtTreeMap.not_mem_empty
    | pending h => simp [BsNode.make] at h

theorem RangedRun.partitioned {w : World} {config : BsNodeConfig} {keys : Bytes → Option Key256}
    {steps : List BsNode.Step} (h : RangedRun w config keys steps n) :
    Partitioned config.crntiBase n :=
  runFrom_invariant_of_meets (Partitioned config.crntiBase)
    (fun _ _ _ => step_partitioned w h.base h.room) (make_partitioned config keys h.room) h.ranged h.run

/-- What a counter passes was not handed out before. -/
theorem Partitioned.fresh (hbase : 1 ≤ b) (hend : b + 0x2000 ≤ rntiBroadcast) (h : Partitioned b n)
    (h' : Partitioned b n') {p : Allocator} {r : Nat} (hr : HandsOut n n' p r) : Fresh b n p r := by
  obtain ⟨hfrom, hto⟩ := hr
  have hstart := h.range p
  have hlast := h'.range p
  have hnot : ¬ Given b n r := by
    rintro ⟨q, hfirst, hlt⟩
    have hother := h.range q
    cases p <;> cases q <;> simp only [first] at hfirst hother hstart hlast <;> omega
  have hrange : first b p ≤ r ∧ r < first b p + 0x1000 := by omega
  refine ⟨?_, ?_, fun hctx => hnot (h.held r (.context hctx)), fun hflow => hnot (h.held r (.flow hflow)),
    hrange.1, hrange.2⟩
  · cases p <;> simp only [first] at hrange <;> omega
  · cases p <;> simp only [first] at hrange <;> omega

/-- Held, or handed out by a step that is in range. -/
def Uses (n : BsNode) (r : Nat) : Prop :=
  n.Holds r ∨ ∃ s n' p, InRange n s ∧ n.step w s = some n' ∧ HandsOut n n' p r

/-- Both halves of the range lie within 0x2000 of the base. -/
theorem given_range {r : Nat} (h : Partitioned b n) (hr : Given b n r) : b ≤ r ∧ r < b + 0x2000 := by
  obtain ⟨p, hfirst, hlt⟩ := hr
  have hrange := h.range p
  cases p <;> simp only [first, counter] at hfirst hlt hrange <;> omega

theorem RangedRun.uses {w : World} {config : BsNodeConfig} {keys : Bytes → Option Key256}
    {steps : List BsNode.Step} (h : RangedRun w config keys steps n) {r : Nat} (hr : Uses w n r) :
    config.crntiBase ≤ r ∧ r < config.crntiBase + 0x2000 := by
  rcases hr with hheld | ⟨s, n', p, hs, hstep, hr⟩
  · exact given_range h.partitioned (h.partitioned.held r hheld)
  · have hfresh := h.partitioned.fresh h.base h.room
      (step_partitioned w h.base h.room h.partitioned hs hstep) hr
    have hfirst := hfresh.first_le
    have hlt := hfresh.lt_end
    cases p <;> simp only [first] at hfirst hlt <;> omega

end

end CrntiRanges

open CrntiRanges

/-- In every run in range: what the next step hands out is fresh and in its range; a cell with
a base 0x4000 apart uses none of the C-RNTIs the cell uses; and the identity a suspension gives
out next is owned by this cell and not by the other one. -/
theorem crnti_ranges_partition {w w₂ : World} {config config₂ : BsNodeConfig}
    {keys keys₂ : Bytes → Option Key256} {steps steps₂ : List BsNode.Step} {n n₂ : BsNode}
    (h : RangedRun w config keys steps n) (h₂ : RangedRun w₂ config₂ keys₂ steps₂ n₂)
    (hapart : config₂.crntiBase = config.crntiBase + 0x4000 ∨
      config.crntiBase = config₂.crntiBase + 0x4000) :
    (∀ s n', CrntiRanges.InRange n s → n.step w s = some n' → ∀ p r, HandsOut n n' p r →
      Fresh config.crntiBase n p r) ∧
    (∀ r, Uses w n r → ¬ Uses w₂ n₂ r) ∧
    (∀ r ∈ n.rrc.ueContexts, n.rrc.nextResumeSeq.toNat < 0x10000 →
      n.rrc.ownsResumeId (RrcBs.resumeIdentity r n.rrc.nextResumeSeq) = true ∧
      n₂.rrc.ownsResumeId (RrcBs.resumeIdentity r n.rrc.nextResumeSeq) = false) := by
  refine ⟨fun s n' hs hstep p r hr => ?_, fun r hr hr₂ => ?_, fun r hr hseq => ?_⟩
  · exact h.partitioned.fresh h.base h.room
      (step_partitioned w h.base h.room h.partitioned hs hstep) hr
  · have hrange := h.uses hr
    have hrange₂ := h₂.uses hr₂
    omega
  · have hrange := h.uses (.inl (.context hr))
    have hroom := h.room
    simp only [rntiBroadcast] at hroom
    have hlow : n.rrc.nextResumeSeq.toNat >>> 16 = 0 := by
      rw [Nat.shiftRight_eq_div_pow]
      omega
    have hsmall : r < snModulus := by
      simp only [snModulus]
      omega
    have hhigh := RrcBs.resumeIdentity_high n.rrc.nextResumeSeq hsmall
    rw [hlow, Nat.or_zero] at hhigh
    have hbase := h.partitioned.base
    have hbase₂ := h₂.partitioned.base
    constructor
    · simp only [RrcBs.ownsResumeId, hhigh, hbase, hrange, and_self, decide_true]
    · simp only [RrcBs.ownsResumeId, hhigh, hbase₂, decide_eq_false_iff_not]
      omega

namespace CrntiRanges

def noKeys : Bytes → Option Key256 := fun _ => none

def msg1 : BsNode.Step := { event := .frame ⟨.msg1Prach, 0, [1, 0]⟩ (-100) }

/-- SETUP_REQUEST for cell 1. -/
def setupRequest : Bytes := RrcMessage.encode { msgType := .setupRequest, value := putU16 1 }

def msg3 : BsNode.Step :=
  { event := .frame ⟨.msg3Ccch, 0, 3 :: (putU16 0x4300 ++ setupRequest)⟩ (-100) }

def preparation : BsNode.Step := { event := .prepareHandover { tmsi := 7 } }

/-- An event that names no C-RNTI only has to fit. -/
theorem inRange_of_quiet {n : BsNode} {e : BsNode.Event} (hnames : names e = none)
    (hrach : n.rach.nextCrnti + takes n e .rach ≤ n.config.crntiBase + 0x1000)
    (hho : n.nextHoCrnti + takes n e .handover ≤ n.config.crntiBase + 0x2000) :
    InRange n { event := e } := by
  refine ⟨fun r hr => ?_, fun replies hreplies => ?_, hrach, hho⟩
  · rw [hnames] at hr
    cases hr
  · cases hreplies

end CrntiRanges

/-- An attach and a preparation at one cell, a preparation at the other. -/
theorem crnti_ranges_partition_two_cells :
    ∃ n n₂, RangedRun .plain {} noKeys [msg1, msg3, preparation] n ∧
      RangedRun .plain { cellId := 2, crntiBase := 0x4001 } noKeys [preparation] n₂ ∧
      (1 ∈ n.rrc.ueContexts ∧ 0x5001 ∈ n₂.flows) ∧ ∀ r, Uses .plain n r → ¬ Uses .plain n₂ r := by
  have hcell : ∃ n, RangedRun .plain {} noKeys [msg1, msg3, preparation] n ∧
      1 ∈ n.rrc.ueContexts := by
    refine ⟨_, ⟨by decide, by decide, rfl, ?_⟩, by decide⟩
    refine .cons (inRange_of_quiet rfl (by decide) (by decide)) rfl ?_
    refine .cons (inRange_of_quiet rfl (by decide) (by decide)) rfl ?_
    exact .cons (inRange_of_quiet rfl (by decide) (by decide)) rfl trivial
  have hother : ∃ n, RangedRun .plain { cellId := 2, crntiBase := 0x4001 } noKeys [preparation] n ∧
      0x5001 ∈ n.flows := by
    refine ⟨_, ⟨by decide, by decide, rfl, ?_⟩, by decide⟩
    exact .cons (inRange_of_quiet rfl (by decide) (by decide)) rfl trivial
  obtain ⟨n, h, hctx⟩ := hcell
  obtain ⟨n₂, h₂, hflow⟩ := hother
  exact ⟨n, n₂, h, h₂, ⟨hctx, hflow⟩, (crnti_ranges_partition h h₂ (.inl rfl)).2.1⟩

namespace CrntiRanges

/-- One MSG3 with a SETUP_REQUEST: the counter moves on, nothing leaves a table. -/
theorem msg3_step {n : BsNode} (hra : 0x4300 ∈ n.rach.ueContexts) (hcell : n.rrc.cellId = 1)
    (hlt : n.rach.nextCrnti + 1 < snModulus) (hne : n.rach.nextCrnti ≠ 0) :
    ∃ n', n.step .plain msg3 = some n' ∧ n'.rach.nextCrnti = n.rach.nextCrnti + 1 ∧
      0x4300 ∈ n'.rach.ueContexts ∧ n'.rrc.cellId = 1 ∧
      (∀ r ∈ n.rrc.ueContexts, r ∈ n'.rrc.ueContexts) ∧ ∀ r ∈ n.flows, r ∈ n'.flows := by
  obtain ⟨ctx, hctx⟩ := Option.isSome_iff_exists.mp (Std.ExtTreeMap.mem_iff_isSome_getElem?.mp hra)
  have hrach : n.rach.onMsg3Received 0x4300 (3 :: (putU16 0x4300 ++ setupRequest)) =
      ({ n.rach with
          nextCrnti := n.rach.nextCrnti + 1
          ueContexts := n.rach.ueContexts.insert 0x4300
            { ctx with cRnti := n.rach.nextCrnti, rachComplete := true } },
        [.msg4 (RachBs.msg4Pdu n.rach.nextCrnti 0x4300), .ccch n.rach.nextCrnti setupRequest]) := by
    simp only [RachBs.onMsg3Received, hctx, Nat.mod_eq_of_lt hlt]
    rfl
  have hrrc : ∀ order, n.rrc.handleMessage order n.rach.nextCrnti setupRequest =
      (n.rrc.putUe n.rach.nextCrnti { cRnti := n.rach.nextCrnti, state := .connecting },
        [.send n.rach.nextCrnti (RrcBs.reply .setup (putU16 n.rach.nextCrnti))]) := by
    intro order
    have hdecode : RrcMessage.decode setupRequest = ⟨.setupRequest, putU16 1⟩ := by decide
    have hown : n.rrc.foreignCell (putU16 1) = false := by
      simp only [RrcBs.foreignCell, hcell]
      decide
    simp only [RrcBs.handleMessage, hdecode, RrcBs.onSetupRequest, hown, RrcBs.assign, if_pos hne]
    rfl
  have hra' : getU16 (3 :: (putU16 0x4300 ++ setupRequest)) 1 = 0x4300 := by decide
  have hlen : (3 :: (putU16 0x4300 ++ setupRequest)).length ≥ 4 := by decide
  simp only [BsNode.step, BsNode.answered, BsNode.handle, msg3, BsNode.handleAirFrame, hra', if_pos hlen, hrach,
    BsNode.runRach, List.foldl, BsNode.onRachOutput]
  refine ⟨_, rfl, ?_⟩
  rw [BsNode.sendFrame]
  dsimp only
  rw [hrrc]
  refine ⟨rfl, ?_, hcell, fun r hr => ?_, fun r hr => ?_⟩
  · exact Std.ExtTreeMap.mem_insert_self
  · exact BsNode.mem_putUe.mpr (.inr hr)
  · exact BsNode.mem_putFlow.mpr (.inr hr)

/-- Each MSG3 draws the next C-RNTI, so the counter can be brought anywhere. -/
theorem msg3_run (k : Nat) {n : BsNode} (hra : 0x4300 ∈ n.rach.ueContexts) (hcell : n.rrc.cellId = 1)
    (hlt : n.rach.nextCrnti + k < snModulus) (hne : n.rach.nextCrnti ≠ 0) :
    ∃ n', runFrom (BsNode.step .plain) n (List.replicate k msg3) = some n' ∧
      n'.rach.nextCrnti = n.rach.nextCrnti + k ∧ 0x4300 ∈ n'.rach.ueContexts ∧ n'.rrc.cellId = 1 ∧
      (∀ r ∈ n.rrc.ueContexts, r ∈ n'.rrc.ueContexts) ∧ ∀ r ∈ n.flows, r ∈ n'.flows := by
  induction k generalizing n with
  | zero => exact ⟨n, rfl, rfl, hra, hcell, fun _ hr => hr, fun _ hr => hr⟩
  | succ k ih =>
    obtain ⟨m, hstep, hnext, hra', hcell', hctx, hflow⟩ := msg3_step hra hcell (by omega) hne
    obtain ⟨n', hrun, hnext', hra'', hcell'', hctx', hflow'⟩ := ih hra' hcell' (by omega) (by omega)
    refine ⟨n', ?_, by omega, hra'', hcell'', fun r hr => hctx' r (hctx r hr),
      fun r hr => hflow' r (hflow r hr)⟩
    rw [List.replicate_succ, runFrom_cons_eq_some]
    exact ⟨m, hstep, hrun⟩

end CrntiRanges

/-- One prepared handover and 4096 answered MSG3: the next MSG3 is given the C-RNTI of the UE
that was handed over. -/
theorem rach_takes_handover_crnti :
    ∃ n n', runFrom (BsNode.step .plain) (BsNode.make {} noKeys)
        (preparation :: msg1 :: List.replicate 4096 msg3) = some n ∧
      n.step .plain msg3 = some n' ∧ HandsOut n n' .rach 0x1001 ∧
      0x1001 ∈ n.rrc.ueContexts ∧ 0x1001 ∈ n.flows ∧ ¬ Fresh 1 n .rach 0x1001 := by
  have hstart : ∃ m, runFrom (BsNode.step .plain) (BsNode.make {} noKeys) [preparation, msg1] = some m ∧
      0x4300 ∈ m.rach.ueContexts ∧ m.rrc.cellId = 1 ∧ m.rach.nextCrnti = 1 ∧
      0x1001 ∈ m.rrc.ueContexts ∧ 0x1001 ∈ m.flows := by
    refine ⟨_, rfl, ?_⟩
    decide
  obtain ⟨m, hm, hra, hcell, hnext, hctx, hflow⟩ := hstart
  obtain ⟨n, hrun, hnext', hra', hcell', hctx', hflow'⟩ :=
    msg3_run 4096 hra hcell (by rw [hnext]; decide) (by rw [hnext]; decide)
  have hcount : n.rach.nextCrnti = 0x1001 := by omega
  obtain ⟨n', hstep, hlast, -⟩ := msg3_step hra' hcell' (by rw [hcount]; decide) (by rw [hcount]; decide)
  have hall : runFrom (BsNode.step .plain) (BsNode.make {} noKeys)
      ([preparation, msg1] ++ List.replicate 4096 msg3) = some n :=
    runFrom_append_eq_some.mpr ⟨m, hm, hrun⟩
  refine ⟨n, n', hall, hstep, ?_, hctx' _ hctx, hflow' _ hflow, fun h => h.not_flow (hflow' _ hflow)⟩
  exact ⟨by simp only [counter, hcount, le_refl], by simp only [counter]; omega⟩

end AetherStack.Guarantees
