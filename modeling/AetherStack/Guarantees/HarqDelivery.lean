import AetherStack.Guarantees.HarqLink

/-!
# What a HARQ acknowledgement and a HARQ delivery mean

A feedback message names a process, not a block, so an ACK that arrives late frees
whatever the process holds by then. And the receiver reads the new-data indicator for
combining only: a retransmission of a block it has delivered is delivered again.
-/
namespace AetherStack.Guarantees
open Source Lib
namespace HarqLink

/-- The message makes `on_ack` free a busy process, and that process holds the block. -/
def Frees (s : HarqLink) (m : HarqFeedback) (block : Nat) : Prop :=
  m ∈ s.feedback ∧ m.ack = true ∧
    (∃ pr, s.tx.procs[m.target]? = some pr ∧ pr.busy = true) ∧
    s.held[m.target]? = some (some block)

/-- The block was sent on a process that agrees with the one the message names in seven bits. Only
where it is that very process, as it always is below 128, was it sent before the block held there
now: the block of a process from 128 on answers for another process, and the order of the two is
open. -/
def SentBefore (s : HarqLink) (m : HarqFeedback) (block : Nat) : Prop :=
  ∃ blk, s.sent[m.block]? = some blk ∧ blk.proc % 128 = m.target ∧
    (blk.proc = m.target → m.block < block)

/-- Every block handed upward has the octets that were sent. -/
def Intact (s : HarqLink) : Prop :=
  ∀ d ∈ s.delivered, ∃ blk, s.sent[d.block]? = some blk ∧ d.pdu = blk.pdu

private theorem toNat_and_mask (x : UInt8) : (x &&& 0x7F).toNat = x.toNat % 128 := by
  rw [UInt8.toNat_and]
  exact Nat.and_two_pow_sub_one_eq_mod x.toNat 7

/-- A feedback names the process of its block modulo 128. -/
theorem Answered.target {s : HarqLink} (h : s.Answered) {m : HarqFeedback}
    (hm : m ∈ s.feedback) : ∃ blk, s.sent[m.block]? = some blk ∧ blk.proc % 128 = m.target := by
  obtain ⟨blk, hblk, hproc⟩ := h.answered m hm
  refine ⟨blk, hblk, ?_⟩
  rw [HarqFeedback.target, hproc, toNat_and_mask, toNat_and_mask, Nat.mod_mod,
    UInt8.toNat_ofNat']
  omega

/-- An ACK that answers the held block frees it after its delivery; any other one answers a block
`SentBefore` it, itself delivered. -/
theorem harq_ack_answers_delivery (cfg : HarqTxConfig) (events : List HarqLinkEvent)
    (s : HarqLink) (run : runFrom step (init cfg) events = some s) (m : HarqFeedback)
    (block : Nat) (hfrees : s.Frees m block) :
    (m.block = block → s.Delivered block) ∧
    (m.block ≠ block → s.Delivered m.block ∧ s.SentBefore m block) ∧
    ((∀ blk ∈ s.sent, Fits blk.pdu) → s.Intact) := by
  obtain ⟨haccount, hanswer⟩ := run_sound run
  obtain ⟨hm, hack, -, hheld⟩ := hfrees
  have hdelivered := hanswer.acked m hm hack
  refine ⟨fun heq => heq ▸ hdelivered, fun hne => ⟨hdelivered, ?_⟩,
    fun hfits => (hanswer.intact hfits).2⟩
  obtain ⟨blk, hblk, htarget⟩ := hanswer.target hm
  refine ⟨blk, hblk, htarget, fun hproc => ?_⟩
  obtain ⟨last, hlast, hle⟩ := haccount.latest m.block blk hblk
  rw [hproc, hheld] at hlast
  obtain rfl : block = last := Option.some.inj (Option.some.inj hlast)
  omega

/-! ## All eight processes in use -/

def emptyBlock (p : Nat) : HarqProc := ⟨true, 0, 0, 250, linkEncode [] (UInt8.ofNat p) 0⟩

/-- Eight empty MAC PDUs, one in each process. -/
def occupied : HarqLink where
  tx := { cfg := {}, procs := (List.range 8).map emptyBlock }
  sent := (List.range 8).map fun p => ⟨p, []⟩
  held := (List.range 8).map some
  transmissions := (List.range 8).map fun p => ⟨p, linkEncode [] (UInt8.ofNat p) 0⟩

theorem run_occupied : runFrom step (init {}) (List.replicate 8 (.send [])) = some occupied := rfl

theorem receive_empty (p ndi : UInt8) :
    HarqRx.receive {} (linkEncode [] p ndi) = .ok ({}, ⟨true, true, true, p &&& 0x7F, []⟩) :=
  HarqRx.receive_linkEncode {} [] p ndi (by decide) (HarqRx.slotEmpty_initial _)

/-- Block 0 has been delivered and its ACK is on the way. -/
def acknowledged : HarqLink := occupied.answer 0 ⟨0, linkEncode [] 0 0⟩ {} ⟨true, true, true, 0, []⟩

theorem run_acknowledged :
    runFrom step (init {}) (List.replicate 8 (HarqLinkEvent.send []) ++ [HarqLinkEvent.receive 0]) = some acknowledged := by
  rw [runFrom_append, run_occupied]
  have hstep : step occupied (.receive 0) = some acknowledged := by
    have hget : occupied.transmissions[0]? = some ⟨0, linkEncode [] 0 0⟩ := rfl
    have hrx : occupied.rx = {} := rfl
    simp only [step, hget, hrx, Option.bind_eq_bind, Option.bind_some, receive_empty]
    rfl
  simp [runFrom, hstep]

theorem harq_ack_answers_delivery_first :
    acknowledged.Frees ⟨0, 0, true⟩ 0 ∧ acknowledged.Delivered 0 := by
  have hfrees : acknowledged.Frees ⟨0, 0, true⟩ 0 :=
    ⟨List.mem_singleton.mpr rfl, rfl, ⟨emptyBlock 0, rfl, rfl⟩, rfl⟩
  exact ⟨hfrees, (harq_ack_answers_delivery {} _ _ run_acknowledged _ 0 hfrees).1 rfl⟩

/-- The ACK of block 0 freed its process, which now holds block 8. -/
def reused : HarqLink :=
  { acknowledged with
    tx := { acknowledged.tx with
      procs := acknowledged.tx.procs.set 0 ⟨true, 1, 0, 250, linkEncode [] 0 1⟩, nextProc := 1 }
    heard := [0]
    sent := acknowledged.sent ++ [⟨0, []⟩]
    held := acknowledged.held.set 0 (some 8)
    transmissions := acknowledged.transmissions ++ [⟨8, linkEncode [] 0 1⟩] }

theorem run_reused :
    runFrom step (init {}) ((List.replicate 8 (HarqLinkEvent.send []) ++ [HarqLinkEvent.receive 0]) ++
      [HarqLinkEvent.feedback 0, .send []]) = some reused := by
  rw [runFrom_append, run_acknowledged]
  rfl

/-- The second copy of the ACK frees block 8, which never arrived. -/
theorem harq_ack_frees_undelivered :
    ¬ ∀ (cfg : HarqTxConfig) (events : List HarqLinkEvent) (s : HarqLink),
      runFrom step (init cfg) events = some s → ∀ (m : HarqFeedback) (block : Nat),
        s.Frees m block → s.Delivered block := by
  intro hclaim
  have hfrees : reused.Frees ⟨0, 0, true⟩ 8 :=
    ⟨List.mem_singleton.mpr rfl, rfl, ⟨⟨true, 1, 0, 250, linkEncode [] 0 1⟩, rfl, rfl⟩, rfl⟩
  obtain ⟨d, hd, hblock⟩ := hclaim {} _ _ run_reused _ 8 hfrees
  obtain rfl := List.mem_singleton.mp (show d ∈ [Delivery.mk 0 0 []] from hd)
  cases hblock

/-! ## How often a block is delivered -/

theorem step_cfg {s s' : HarqLink} {e : HarqLinkEvent} (hstep : s.step e = some s') :
    s'.tx.cfg = s.tx.cfg := by
  have hretx : ∀ (t : HarqTx) (p : Nat), (t.retx p).1.cfg = t.cfg := by
    intro t p
    obtain h | ⟨pr, -, -, h | ⟨-, h⟩⟩ := t.retx_cases p <;> rw [h]
  have hpoll : ∀ (nowMs : UInt32) (ps : List Nat) (t : HarqTx),
      (HarqTx.pollLoop nowMs t ps).1.cfg = t.cfg := by
    intro nowMs ps
    induction ps with
    | nil => exact fun _ => rfl
    | cons p ps ih =>
      intro t
      rw [HarqTx.pollLoop]
      split
      · exact (ih _).trans (hretx t p)
      · exact ih t
  cases e with
  | send macPdu =>
    simp only [step] at hstep
    obtain h | ⟨p, ndi, -, -, h⟩ := s.tx.send_cases macPdu
    · rw [h] at hstep
      rw [← Option.some.inj hstep]
    · rw [h] at hstep
      rw [← Option.some.inj hstep]
      rfl
  | receive index =>
    obtain ⟨t, -, hrest⟩ := Option.bind_eq_some_iff.mp hstep
    split at hrest <;> rw [← Option.some.inj hrest]
    rfl
  | feedback index =>
    obtain ⟨m, -, hrest⟩ := Option.bind_eq_some_iff.mp hstep
    split at hrest
    · rw [← Option.some.inj hrest]
      dsimp only [HarqTx.onAck]
      split <;> rfl
    · rw [← Option.some.inj hrest]
      dsimp only [emit, HarqTx.onNack]
      split
      · rfl
      · exact hretx _ _
  | pollTimeouts nowMs =>
    rw [← Option.some.inj hstep]
    exact hpoll _ _ _
  | advance nowMs =>
    rw [← Option.some.inj hstep]
    rfl

theorem run_cfg {cfg : HarqTxConfig} {events : List HarqLinkEvent} {s : HarqLink}
    (run : runFrom step (init cfg) events = some s) : s.tx.cfg = cfg :=
  runFrom_invariant (fun s => s.tx.cfg = cfg)
    (fun _ _ _ h hstep => (step_cfg hstep).trans h) rfl run

/-- Distinct positions that satisfy a predicate are at most as many as it counts. -/
theorem length_le_countP {α : Type*} (P : α → Bool) (xs : List α) {is : List Nat}
    (hnodup : is.Nodup) (his : ∀ i ∈ is, ∃ x, xs[i]? = some x ∧ P x = true) :
    is.length ≤ xs.countP P := by
  have hsub : is ⊆ (List.range xs.length).filter fun i => xs[i]?.any P := by
    intro i hi
    obtain ⟨x, hx, hP⟩ := his i hi
    rw [List.mem_filter, List.mem_range, hx]
    exact ⟨(List.getElem?_eq_some_iff.mp hx).1, hP⟩
  have hmap : xs.map some = (List.range xs.length).map fun i => xs[i]? := by
    apply List.ext_getElem?
    intro i
    by_cases hi : i < xs.length
    · simp [hi]
    · simp [hi]
  calc is.length ≤ ((List.range xs.length).filter fun i => xs[i]?.any P).length :=
        (hnodup.subperm hsub).length_le
    _ = ((List.range xs.length).map fun i => xs[i]?).countP (Option.any P) := by
        rw [List.countP_map, List.countP_eq_length_filter]
        rfl
    _ = xs.countP P := by
        rw [← hmap, List.countP_map]
        rfl

/-- A delivery stands for a reception of a transmission of its block. -/
theorem Answered.deliveryCount_le {s : HarqLink} (h : s.Answered) (block : Nat) :
    s.deliveryCount block ≤ s.receptionCount block := by
  calc s.deliveryCount block
      ≤ s.delivered.countP fun d => s.transmissions[d.index]?.any (·.block = block) := by
        refine List.countP_mono_left fun d hd hblock => ?_
        obtain ⟨t, ht, htb⟩ := h.indexed d hd
        rw [ht, Option.any_some, htb]
        exact hblock
    _ = (s.delivered.map (·.index)).countP fun i => s.transmissions[i]?.any (·.block = block) := by
        rw [List.countP_map]
        rfl
    _ ≤ s.receptionCount block := h.once.countP_le

/-- A channel that does not duplicate hands over every transmission at most once. -/
theorem receptionCount_le {s : HarqLink} (honce : s.received.Nodup) (block : Nat) :
    s.receptionCount block ≤ s.transmissionCount block := by
  rw [receptionCount, List.countP_eq_length_filter]
  refine length_le_countP _ _ (honce.sublist List.filter_sublist) fun i hi => ?_
  exact (Option.any_eq_true _ _).mp (List.mem_filter.mp hi).2

/-- A block is delivered at most once for each of its transmissions that the receiver gets; over
a channel that does not duplicate these are at most the `max_retx + 1` that are sent. -/
theorem harq_delivery_per_transmission (cfg : HarqTxConfig) (events : List HarqLinkEvent)
    (s : HarqLink) (run : runFrom step (init cfg) events = some s) (honce : s.received.Nodup)
    (block : Nat) :
    s.deliveryCount block ≤ s.receptionCount block ∧
      s.receptionCount block ≤ s.transmissionCount block ∧
        s.transmissionCount block ≤ 1 + cfg.maxRetx.toNat := by
  obtain ⟨haccount, hanswer⟩ := run_sound run
  have hbudget := haccount.budget block
  rw [run_cfg run] at hbudget
  exact ⟨hanswer.deliveryCount_le block, receptionCount_le honce block, hbudget⟩

theorem harq_delivery_per_transmission_first :
    acknowledged.received.Nodup ∧ acknowledged.deliveryCount 0 ≤ 1 := by
  have honce : acknowledged.received.Nodup := List.nodup_singleton 0
  have hcount : acknowledged.receptionCount 0 = 1 := rfl
  refine ⟨honce, ?_⟩
  have hle := (harq_delivery_per_transmission {} _ _ run_acknowledged honce 0).1
  rwa [hcount] at hle

/-- The ACK of block 0 is lost; the timer repeats the block. -/
def repeated : HarqLink := acknowledged.emit (acknowledged.tx.pollTimeouts 250)

theorem run_repeated :
    runFrom step (init {}) ((List.replicate 8 (HarqLinkEvent.send []) ++ [HarqLinkEvent.receive 0]) ++
      [HarqLinkEvent.pollTimeouts 250]) = some repeated := by
  rw [runFrom_append, run_acknowledged]
  rfl

theorem run_delivered_twice :
    runFrom step (init {}) (((List.replicate 8 (HarqLinkEvent.send []) ++ [HarqLinkEvent.receive 0]) ++
      [HarqLinkEvent.pollTimeouts 250]) ++ [HarqLinkEvent.receive 8]) =
        some (repeated.answer 8 ⟨0, linkEncode [] 0 0⟩ {} ⟨true, true, true, 0, []⟩) := by
  rw [runFrom_append, run_repeated]
  have hget : repeated.transmissions[8]? = some ⟨0, linkEncode [] 0 0⟩ := rfl
  have hrx : repeated.rx = {} := rfl
  simp only [runFrom, step, hget, hrx, Option.bind_eq_bind, Option.bind_some, receive_empty]
  rfl

theorem harq_delivers_twice :
    ¬ ∀ (cfg : HarqTxConfig) (events : List HarqLinkEvent) (s : HarqLink),
      runFrom step (init cfg) events = some s → s.received.Nodup → s.heard.Nodup →
        ∀ block : Nat, s.deliveryCount block ≤ 1 := by
  intro hclaim
  have hle := hclaim {} _ _ run_delivered_twice (by decide) (by decide) 0
  exact absurd hle (by decide)

end HarqLink

end AetherStack.Guarantees
