import AetherStack.Lib.Run
import AetherStack.Source.HarqCodec

/-!
# One `HarqTx` and one `HarqRx` over a channel that loses, delays and duplicates

Everything ever transmitted stays available: a receiving event names an index of it, any
number of times or never, and likewise for the feedback messages `[proc][ack]`. Blocks are
numbered in the order `send` accepted them. The number travels beside a transmission and a
feedback message for the statements only; no code reads it.

Feedback reaches the transmitter as in ue_node.cpp:755-766: the process number masked to
seven bits, then `on_ack` or `on_nack`.
-/
namespace AetherStack.Guarantees
open Source Lib

structure SentBlock where
  proc : Nat
  pdu : Bytes

structure Transmission where
  block : Nat
  frame : Bytes

structure HarqFeedback where
  block : Nat
  proc : UInt8
  ack : Bool

def HarqFeedback.target (m : HarqFeedback) : Nat := (m.proc &&& 0x7F).toNat

/-- What `receive` handed upward for the transmission at an index. -/
structure Delivery where
  index : Nat
  block : Nat
  pdu : Bytes

structure HarqLink where
  tx : HarqTx
  rx : HarqRx := {}
  sent : List SentBlock := []
  held : List (Option Nat)
  transmissions : List Transmission := []
  received : List Nat := []
  feedback : List HarqFeedback := []
  heard : List Nat := []
  delivered : List Delivery := []

inductive HarqLinkEvent where
  | send (macPdu : Bytes)
  | receive (index : Nat)
  | feedback (index : Nat)
  | pollTimeouts (nowMs : UInt32)
  | advance (nowMs : UInt32)

namespace HarqLink

def init (cfg : HarqTxConfig) : HarqLink :=
  { tx := HarqTx.init cfg, held := List.replicate cfg.numProcesses.toNat none }

/-- Hand transmitted frames to the channel, under the number of the block their process
holds. -/
def emit (s : HarqLink) (fired : HarqTx × List HarqEvent) : HarqLink :=
  { s with
    tx := fired.1
    transmissions := s.transmissions ++
      fired.2.map fun e => ⟨((s.held.getD e.proc none).getD 0), e.coded⟩ }

def accept (s : HarqLink) (macPdu : Bytes) (tx : HarqTx) (e : HarqEvent) : HarqLink :=
  { s with
    tx := tx
    sent := s.sent ++ [⟨e.proc, macPdu⟩]
    held := s.held.set e.proc (some s.sent.length)
    transmissions := s.transmissions ++ [⟨s.sent.length, e.coded⟩] }

def answer (s : HarqLink) (index : Nat) (t : Transmission) (rx : HarqRx) (res : HarqResult) :
    HarqLink :=
  { s with
    rx := rx
    received := s.received ++ [index]
    feedback := if res.needFeedback then s.feedback ++ [⟨t.block, res.proc, res.ack⟩]
      else s.feedback
    delivered := if res.delivered then s.delivered ++ [⟨index, t.block, res.macPdu⟩]
      else s.delivered }

/-- An exception leaves `receive` before it touches the receiver. -/
def step (s : HarqLink) : HarqLinkEvent → Option HarqLink
  | .send macPdu =>
    match s.tx.send macPdu with
    | (_, none) => some s
    | (tx, some e) => some (s.accept macPdu tx e)
  | .receive index => do
    let t ← s.transmissions[index]?
    match s.rx.receive t.frame with
    | .error _ => some { s with received := s.received ++ [index] }
    | .ok (rx, res) => some (s.answer index t rx res)
  | .feedback index => do
    let m ← s.feedback[index]?
    let s := { s with heard := s.heard ++ [index] }
    if m.ack then some { s with tx := s.tx.onAck m.target }
    else
      let fired := s.tx.onNack m.target
      some (s.emit (fired.1, fired.2.toList))
  | .pollTimeouts nowMs => some (s.emit (s.tx.pollTimeouts nowMs))
  | .advance nowMs => some { s with tx := s.tx.advance nowMs }

/-- A block was handed upward at least once. -/
def Delivered (s : HarqLink) (block : Nat) : Prop := ∃ d ∈ s.delivered, d.block = block

def transmissionCount (s : HarqLink) (block : Nat) : Nat :=
  s.transmissions.countP (·.block = block)

def deliveryCount (s : HarqLink) (block : Nat) : Nat := s.delivered.countP (·.block = block)

/-- How often the receiver got a transmission of a block. -/
def receptionCount (s : HarqLink) (block : Nat) : Nat :=
  s.received.countP fun i => s.transmissions[i]?.any (·.block = block)

/-- The coded length of a MAC PDU fits the 16-bit header field. -/
def Fits (macPdu : Bytes) : Prop := 2 * (macPdu.length + 2) + 2 < 2 ^ 16

theorem transmissionCount_concat {s s' : HarqLink} {t : Transmission}
    (h : s'.transmissions = s.transmissions ++ [t]) (b : Nat) :
    s'.transmissionCount b = s.transmissionCount b + if t.block = b then 1 else 0 := by
  rw [transmissionCount, h, List.countP_append, List.countP_singleton]
  simp [transmissionCount]

/-! ## The transmitter's account of its blocks -/

/-- A busy process holds an accepted block, stores its frame and has counted its
retransmissions; every transmission carries an accepted block; no block exceeds the
budget. -/
structure Accounted (s : HarqLink) : Prop where
  procs_length : s.tx.procs.length = s.tx.cfg.numProcesses.toNat
  held_length : s.held.length = s.tx.procs.length
  holds : ∀ (p : Nat) (pr : HarqProc), s.tx.procs[p]? = some pr → pr.busy = true →
    ∃ (b : Nat) (blk : SentBlock), s.held[p]? = some (some b) ∧ s.sent[b]? = some blk ∧ blk.proc = p ∧
      pr.coded = linkEncode blk.pdu (UInt8.ofNat p) pr.ndi ∧
      s.transmissionCount b = 1 + pr.retxCount.toNat
  genuine : ∀ t ∈ s.transmissions, ∃ (blk : SentBlock) (ndi : UInt8),
    s.sent[t.block]? = some blk ∧ t.frame = linkEncode blk.pdu (UInt8.ofNat blk.proc) ndi
  budget : ∀ b, s.transmissionCount b ≤ 1 + s.tx.cfg.maxRetx.toNat
  latest : ∀ (b : Nat) (blk : SentBlock), s.sent[b]? = some blk →
    ∃ b', s.held[blk.proc]? = some (some b') ∧ b ≤ b'

theorem accounted_init (cfg : HarqTxConfig) : (init cfg).Accounted where
  procs_length := by simp [init, HarqTx.init]
  held_length := by simp [init, HarqTx.init]
  holds := by
    intro p pr hget hbusy
    have hfree := List.eq_of_mem_replicate (List.mem_of_getElem? hget)
    rw [hfree] at hbusy
    cases hbusy
  genuine := by simp [init]
  budget := by simp [init, transmissionCount]
  latest := by simp [init]

/-- The account reads nothing of the receiver. -/
theorem Accounted.of_transmitter {s s' : HarqLink} (h : s.Accounted) (htx : s'.tx = s.tx)
    (hsent : s'.sent = s.sent) (hheld : s'.held = s.held)
    (htransmissions : s'.transmissions = s.transmissions) : s'.Accounted := by
  cases s
  cases s'
  dsimp only at htx hsent hheld htransmissions
  subst htx hsent hheld htransmissions
  exact ⟨h.procs_length, h.held_length, h.holds, h.genuine, h.budget, h.latest⟩

/-- Changing only process state that is free, or its deadline, keeps the account. -/
theorem Accounted.free {s : HarqLink} (h : s.Accounted) {p : Nat} {pr : HarqProc}
    (hfree : pr.busy = false) :
    ({ s with tx := { s.tx with procs := s.tx.procs.set p pr } } : HarqLink).Accounted where
  procs_length := by simpa using h.procs_length
  held_length := by simpa using h.held_length
  holds := by
    intro q qr hget hbusy
    dsimp only at hget
    rw [List.getElem?_set] at hget
    split at hget
    · split at hget
      · rw [← Option.some.inj hget, hfree] at hbusy
        cases hbusy
      · cases hget
    · exact h.holds q qr hget hbusy
  genuine := h.genuine
  budget := h.budget
  latest := h.latest

theorem Accounted.advance {s : HarqLink} (h : s.Accounted) (nowMs : UInt32) :
    ({ s with tx := s.tx.advance nowMs } : HarqLink).Accounted :=
  ⟨h.procs_length, h.held_length, h.holds, h.genuine, h.budget, h.latest⟩

theorem Accounted.onAck {s : HarqLink} (h : s.Accounted) (p : Nat) :
    ({ s with tx := s.tx.onAck p } : HarqLink).Accounted := by
  unfold HarqTx.onAck
  split
  · exact h
  · exact h.free rfl

/-- A block that nobody sent has no transmission. -/
theorem Accounted.transmissionCount_unsent {s : HarqLink} (h : s.Accounted) :
    s.transmissionCount s.sent.length = 0 := by
  rw [transmissionCount, List.countP_eq_zero]
  intro t ht hblock
  obtain ⟨blk, -, hget, -⟩ := h.genuine t ht
  rw [of_decide_eq_true hblock, List.getElem?_eq_none (Nat.le_refl _)] at hget
  cases hget

theorem Accounted.accept {s : HarqLink} (h : s.Accounted) {macPdu : Bytes} {p : Nat}
    {ndi : UInt8} {deadline : UInt32} {next : Nat} (hp : p < s.tx.cfg.numProcesses.toNat) :
    (s.accept macPdu
      { s.tx with
        procs := s.tx.procs.set p ⟨true, ndi, 0, deadline, linkEncode macPdu (UInt8.ofNat p) ndi⟩
        nextProc := next }
      ⟨.newTx, p, ndi, linkEncode macPdu (UInt8.ofNat p) ndi⟩).Accounted := by
  have hheld : p < s.held.length := by rw [h.held_length, h.procs_length]; exact hp
  constructor
  · simpa [HarqLink.accept] using h.procs_length
  · simpa [HarqLink.accept] using h.held_length
  · intro q qr hget hbusy
    rw [HarqLink.accept, List.getElem?_set] at hget
    by_cases hq : p = q
    · subst hq
      rw [if_pos rfl, if_pos (by rw [h.procs_length]; exact hp)] at hget
      obtain rfl := Option.some.inj hget
      refine ⟨s.sent.length, ⟨p, macPdu⟩, ?_, by simp [HarqLink.accept], rfl, rfl, ?_⟩
      · rw [HarqLink.accept, List.getElem?_set, if_pos rfl, if_pos hheld]
      · rw [transmissionCount_concat rfl, h.transmissionCount_unsent, if_pos rfl]
        rfl
    · rw [if_neg hq] at hget
      obtain ⟨b, blk, hb, hblk, hproc, hcoded, hsent⟩ := h.holds q qr hget hbusy
      have hlt : b < s.sent.length := (List.getElem?_eq_some_iff.mp hblk).1
      refine ⟨b, blk, ?_, ?_, hproc, hcoded, ?_⟩
      · rwa [HarqLink.accept, List.getElem?_set, if_neg hq]
      · rwa [HarqLink.accept, List.getElem?_append_left hlt]
      · rw [transmissionCount_concat rfl, if_neg (Nat.ne_of_gt hlt), hsent, Nat.add_zero]
  · intro t ht
    simp only [HarqLink.accept, List.mem_append, List.mem_singleton] at ht ⊢
    rcases ht with ht | rfl
    · obtain ⟨blk, ndi', hblk, hframe⟩ := h.genuine t ht
      have hlt : t.block < s.sent.length := (List.getElem?_eq_some_iff.mp hblk).1
      exact ⟨blk, ndi', by rwa [List.getElem?_append_left hlt], hframe⟩
    · exact ⟨⟨p, macPdu⟩, ndi, by simp, rfl⟩
  · intro b
    rw [transmissionCount_concat rfl]
    split
    · rename_i heq
      rw [← heq, h.transmissionCount_unsent]
      exact Nat.le_add_right 1 _
    · exact h.budget b
  · intro b blk hblk
    simp only [HarqLink.accept] at hblk ⊢
    by_cases hlt : b < s.sent.length
    · rw [List.getElem?_append_left hlt] at hblk
      obtain ⟨b', hb', hle⟩ := h.latest b blk hblk
      by_cases hq : p = blk.proc
      · refine ⟨s.sent.length, ?_, by omega⟩
        rw [List.getElem?_set, if_pos hq, if_pos hheld]
      · exact ⟨b', by rwa [List.getElem?_set, if_neg hq], hle⟩
    · have hlen := (List.getElem?_eq_some_iff.mp hblk).1
      simp only [List.length_append, List.length_singleton] at hlen
      obtain rfl : b = s.sent.length := by omega
      simp only [List.getElem?_concat_length, Option.some.injEq] at hblk
      subst hblk
      exact ⟨s.sent.length, by rw [List.getElem?_set, if_pos rfl, if_pos hheld], Nat.le_refl _⟩

/-- One retransmission attempt, with what it puts on the channel. -/
def retx (s : HarqLink) (p : Nat) : HarqLink :=
  s.emit ((s.tx.retx p).1, (s.tx.retx p).2.toList)

/-- A retransmission is recorded under the block of its process. -/
theorem Accounted.retx {s : HarqLink} (h : s.Accounted) (p : Nat) : (s.retx p).Accounted := by
  obtain hidle | ⟨pr, hget, hbusy, hspent | ⟨hbudget, hfired⟩⟩ := s.tx.retx_cases p
  · simpa [HarqLink.retx, emit, hidle] using h
  · have hfree : ({ s with tx := { s.tx with
        procs := s.tx.procs.set p { pr with busy := false } } } : HarqLink).Accounted := h.free rfl
    simpa [HarqLink.retx, emit, hspent] using hfree
  · obtain ⟨b, blk, hb, hblk, hproc, hcoded, hsent⟩ := h.holds p pr hget hbusy
    have hlt : p < s.tx.procs.length := (List.getElem?_eq_some_iff.mp hget).1
    have hretx : s.retx p = { s with
        tx := { s.tx with procs := s.tx.procs.set p { pr with
          retxCount := pr.retxCount + 1, deadline := s.tx.lastNow + s.tx.cfg.ackTimeoutMs } }
        transmissions := s.transmissions ++ [⟨b, pr.coded⟩] } := by
      simp [HarqLink.retx, emit, hfired, List.getD_eq_getElem?_getD, hb]
    have hlog : (s.retx p).transmissions = s.transmissions ++ [⟨b, pr.coded⟩] := by rw [hretx]
    have hcount := transmissionCount_concat hlog
    -- the budget test keeps the counter away from 256
    have hsucc : (pr.retxCount + 1).toNat = pr.retxCount.toNat + 1 := by
      have := UInt8.lt_iff_toNat_lt.mp hbudget
      have := s.tx.cfg.maxRetx.toNat_lt
      rw [UInt8.toNat_add, UInt8.toNat_one]
      omega
    constructor
    · simpa [hretx] using h.procs_length
    · simpa [hretx] using h.held_length
    · intro q qr hq hqbusy
      rw [hretx, List.getElem?_set] at hq
      by_cases hpq : p = q
      · subst hpq
        rw [if_pos rfl, if_pos hlt] at hq
        obtain rfl := Option.some.inj hq
        refine ⟨b, blk, by rwa [hretx], by rwa [hretx], hproc, hcoded, ?_⟩
        rw [hcount, if_pos rfl, hsent, hsucc, Nat.add_assoc]
      · rw [if_neg hpq] at hq
        obtain ⟨b', blk', hb', hblk', hproc', hcoded', hsent'⟩ := h.holds q qr hq hqbusy
        refine ⟨b', blk', by rwa [hretx], by rwa [hretx], hproc', hcoded', ?_⟩
        -- one block sits in one process only
        have hne : b ≠ b' := by
          rintro rfl
          obtain rfl : blk = blk' := Option.some.inj (hblk.symm.trans hblk')
          exact hpq (hproc.symm.trans hproc')
        rw [hcount, if_neg hne, hsent', Nat.add_zero]
    · intro t ht
      rw [hretx] at ht ⊢
      rcases List.mem_append.mp ht with ht | ht
      · exact h.genuine t ht
      · obtain rfl := List.mem_singleton.mp ht
        exact ⟨blk, pr.ndi, hblk, by rw [hcoded, hproc]⟩
    · intro b'
      rw [hcount]
      have hcfg : (s.retx p).tx.cfg = s.tx.cfg := by rw [hretx]
      rw [hcfg]
      split
      · rename_i heq
        have := UInt8.lt_iff_toNat_lt.mp hbudget
        rw [← heq, hsent]
        omega
      · exact h.budget b'
    · rw [hretx]
      exact h.latest

theorem Accounted.pollLoop {s : HarqLink} (h : s.Accounted) (nowMs : UInt32) (ps : List Nat) :
    (s.emit (HarqTx.pollLoop nowMs s.tx ps)).Accounted := by
  induction ps generalizing s with
  | nil => simpa [emit, HarqTx.pollLoop] using h
  | cons p ps ih =>
    rw [HarqTx.pollLoop]
    split
    · have hmore := ih (h.retx p)
      simpa [emit, HarqLink.retx] using hmore
    · exact ih h

theorem Accounted.pollTimeouts {s : HarqLink} (h : s.Accounted) (nowMs : UInt32) :
    (s.emit (s.tx.pollTimeouts nowMs)).Accounted :=
  (h.advance nowMs).pollLoop nowMs (List.range s.tx.procs.length)

theorem Accounted.onNack {s : HarqLink} (h : s.Accounted) (p : Nat) :
    (s.emit ((s.tx.onNack p).1, (s.tx.onNack p).2.toList)).Accounted := by
  unfold HarqTx.onNack
  split
  · simpa [emit] using h
  · exact h.retx p

/-! ## What the receiver has answered -/

/-- Every delivery stands for one reception of a transmission of its block, and every
ACK for a delivery. -/
structure Answered (s : HarqLink) : Prop where
  once : (s.delivered.map (·.index)).Sublist s.received
  indexed : ∀ d ∈ s.delivered, ∃ t, s.transmissions[d.index]? = some t ∧ t.block = d.block
  acked : ∀ m ∈ s.feedback, m.ack = true → s.Delivered m.block
  answered : ∀ m ∈ s.feedback, ∃ blk, s.sent[m.block]? = some blk ∧
    m.proc = UInt8.ofNat blk.proc &&& 0x7F
  intact : (∀ blk ∈ s.sent, Fits blk.pdu) → (∀ p, s.rx.SlotEmpty p) ∧
    ∀ d ∈ s.delivered, ∃ blk, s.sent[d.block]? = some blk ∧ d.pdu = blk.pdu

theorem answered_init (cfg : HarqTxConfig) : (init cfg).Answered where
  once := List.Sublist.refl _
  indexed := by simp [init]
  acked := by simp [init]
  answered := by simp [init]
  intact := fun _ => ⟨HarqRx.slotEmpty_initial, by simp [init]⟩

/-- Sending more leaves what was answered as it is. -/
theorem Answered.grow {s s' : HarqLink} (h : s.Answered) (hrx : s'.rx = s.rx)
    (hreceived : s'.received = s.received) (hfeedback : s'.feedback = s.feedback)
    (hdelivered : s'.delivered = s.delivered) (hsent : s.sent <+: s'.sent)
    (htransmissions : s.transmissions <+: s'.transmissions) : s'.Answered := by
  have hget : ∀ {α : Type} {xs ys : List α} {i : Nat} {a : α}, xs <+: ys → xs[i]? = some a →
      ys[i]? = some a := by
    rintro α xs _ i a ⟨zs, rfl⟩ hi
    rwa [List.getElem?_append_left (List.getElem?_eq_some_iff.mp hi).1]
  constructor
  · rw [hdelivered, hreceived]
    exact h.once
  · rw [hdelivered]
    intro d hd
    obtain ⟨t, ht, hblock⟩ := h.indexed d hd
    exact ⟨t, hget htransmissions ht, hblock⟩
  · rw [hfeedback]
    intro m hm hack
    obtain ⟨d, hd, hblock⟩ := h.acked m hm hack
    exact ⟨d, by rwa [hdelivered], hblock⟩
  · rw [hfeedback]
    intro m hm
    obtain ⟨blk, hblk, hproc⟩ := h.answered m hm
    exact ⟨blk, hget hsent hblk, hproc⟩
  · intro hfits
    obtain ⟨hslots, hpdus⟩ := h.intact fun blk hblk => hfits blk (hsent.subset hblk)
    rw [hrx, hdelivered]
    refine ⟨hslots, fun d hd => ?_⟩
    obtain ⟨blk, hblk, hpdu⟩ := hpdus d hd
    exact ⟨blk, hget hsent hblk, hpdu⟩

theorem Answered.emit {s : HarqLink} (h : s.Answered) (fired : HarqTx × List HarqEvent) :
    (s.emit fired).Answered :=
  h.grow rfl rfl rfl rfl List.prefix_rfl (List.prefix_append _ _)

theorem Answered.accept {s : HarqLink} (h : s.Answered) (macPdu : Bytes) (tx : HarqTx)
    (e : HarqEvent) : (s.accept macPdu tx e).Answered :=
  h.grow rfl rfl rfl rfl (List.prefix_append _ _) (List.prefix_append _ _)

/-- The receiver's result for a genuine transmission. -/
theorem Accounted.receive {s : HarqLink} (h : s.Accounted) {index : Nat} {t : Transmission}
    {rx : HarqRx} {res : HarqResult} (ht : s.transmissions[index]? = some t)
    (hrx : s.rx.receive t.frame = .ok (rx, res)) :
    ∃ blk, s.sent[t.block]? = some blk ∧
      (res = {} ∨ res.ack = res.delivered ∧ res.proc = UInt8.ofNat blk.proc &&& 0x7F) ∧
      (Fits blk.pdu → (∀ p, s.rx.SlotEmpty p) → rx = s.rx ∧ res.macPdu = blk.pdu) := by
  obtain ⟨blk, ndi, hblk, hframe⟩ := h.genuine t (List.mem_of_getElem? ht)
  refine ⟨blk, hblk, ?_, ?_⟩
  · rcases HarqRx.receive_cases hrx with ⟨-, rfl⟩ | ⟨header, hunpack, -, hack, hproc⟩
    · exact .inl rfl
    · rw [hframe] at hunpack
      obtain rfl := Option.some.inj ((unpack_pack _ _).symm.trans hunpack)
      exact .inr ⟨hack, hproc⟩
  · intro hfits hslots
    rw [hframe, HarqRx.receive_linkEncode _ _ _ _ hfits (hslots _)] at hrx
    obtain ⟨rfl, rfl⟩ := Prod.mk.inj (Except.ok.inj hrx)
    exact ⟨rfl, rfl⟩

/-- The answer to a reception names the block it was. -/
theorem Answered.answer {s : HarqLink} (h : s.Answered) (haccount : s.Accounted) {index : Nat}
    {t : Transmission} {rx : HarqRx} {res : HarqResult}
    (ht : s.transmissions[index]? = some t) (hrx : s.rx.receive t.frame = .ok (rx, res)) :
    (s.answer index t rx res).Answered := by
  obtain ⟨blk, hblk, hres, hintact⟩ := haccount.receive ht hrx
  have hmono : ∀ b, s.Delivered b → (s.answer index t rx res).Delivered b := by
    rintro b ⟨d, hd, hb⟩
    refine ⟨d, ?_, hb⟩
    rw [HarqLink.answer]
    dsimp only
    split
    · exact List.mem_append_left _ hd
    · exact hd
  constructor
  · rw [HarqLink.answer]
    dsimp only
    split
    · rw [List.map_append]
      exact h.once.append (List.Sublist.refl _)
    · exact h.once.trans (List.sublist_append_left _ _)
  · intro d hd
    rw [HarqLink.answer] at hd
    dsimp only at hd
    split at hd
    · rcases List.mem_append.mp hd with hd | hd
      · exact h.indexed d hd
      · obtain rfl := List.mem_singleton.mp hd
        exact ⟨t, ht, rfl⟩
    · exact h.indexed d hd
  · intro m hm hack
    rw [HarqLink.answer] at hm
    dsimp only at hm
    split at hm
    · rename_i hneeded
      rcases List.mem_append.mp hm with hm | hm
      · exact hmono _ (h.acked m hm hack)
      · obtain rfl := List.mem_singleton.mp hm
        have hdelivered : res.delivered = true := by
          rcases hres with rfl | ⟨heq, -⟩
          · cases hneeded
          · rw [← heq]
            exact hack
        refine ⟨⟨index, t.block, res.macPdu⟩, ?_, rfl⟩
        simp [HarqLink.answer, hdelivered]
    · exact hmono _ (h.acked m hm hack)
  · intro m hm
    rw [HarqLink.answer] at hm
    dsimp only at hm
    split at hm
    · rename_i hneeded
      rcases List.mem_append.mp hm with hm | hm
      · exact h.answered m hm
      · obtain rfl := List.mem_singleton.mp hm
        rcases hres with rfl | ⟨-, hproc⟩
        · cases hneeded
        · exact ⟨blk, hblk, hproc⟩
    · exact h.answered m hm
  · intro hfits
    obtain ⟨hslots, hpdus⟩ := h.intact hfits
    obtain ⟨rfl, hpdu⟩ := hintact (hfits blk (List.mem_of_getElem? hblk)) hslots
    refine ⟨hslots, fun d hd => ?_⟩
    rw [HarqLink.answer] at hd
    dsimp only at hd
    split at hd
    · rcases List.mem_append.mp hd with hd | hd
      · exact hpdus d hd
      · obtain rfl := List.mem_singleton.mp hd
        exact ⟨blk, hblk, hpdu⟩
    · exact hpdus d hd

/-! ## Every run -/

def Sound (s : HarqLink) : Prop := s.Accounted ∧ s.Answered

/-- Step lemma for both halves. -/
theorem step_sound {s s' : HarqLink} {e : HarqLinkEvent} (h : s.Sound)
    (hstep : s.step e = some s') : s'.Sound := by
  obtain ⟨haccount, hanswer⟩ := h
  cases e with
  | send macPdu =>
    simp only [step] at hstep
    obtain hrefused | ⟨p, ndi, hp, -, hsent⟩ := s.tx.send_cases macPdu
    · rw [hrefused] at hstep
      obtain rfl := Option.some.inj hstep
      exact ⟨haccount, hanswer⟩
    · rw [hsent] at hstep
      obtain rfl := Option.some.inj hstep
      exact ⟨haccount.accept hp, hanswer.accept _ _ _⟩
  | receive index =>
    obtain ⟨t, ht, hrest⟩ := Option.bind_eq_some_iff.mp hstep
    split at hrest
    · obtain rfl := Option.some.inj hrest
      exact ⟨haccount.of_transmitter rfl rfl rfl rfl,
        ⟨hanswer.once.trans (List.sublist_append_left _ _), hanswer.indexed, hanswer.acked,
          hanswer.answered, hanswer.intact⟩⟩
    · rename_i rx res hrx
      obtain rfl := Option.some.inj hrest
      exact ⟨haccount.of_transmitter rfl rfl rfl rfl, hanswer.answer haccount ht hrx⟩
  | feedback index =>
    obtain ⟨m, -, hrest⟩ := Option.bind_eq_some_iff.mp hstep
    have hheard : ({ s with heard := s.heard ++ [index] } : HarqLink).Accounted :=
      haccount.of_transmitter rfl rfl rfl rfl
    dsimp only at hrest
    split at hrest
    · obtain rfl := Option.some.inj hrest
      exact ⟨hheard.onAck _, hanswer.grow rfl rfl rfl rfl List.prefix_rfl List.prefix_rfl⟩
    · obtain rfl := Option.some.inj hrest
      exact ⟨hheard.onNack _, hanswer.grow rfl rfl rfl rfl List.prefix_rfl (List.prefix_append _ _)⟩
  | pollTimeouts nowMs =>
    obtain rfl := Option.some.inj hstep
    exact ⟨haccount.pollTimeouts nowMs, hanswer.emit _⟩
  | advance nowMs =>
    obtain rfl := Option.some.inj hstep
    exact ⟨haccount.advance nowMs,
      hanswer.grow rfl rfl rfl rfl List.prefix_rfl List.prefix_rfl⟩

theorem run_sound {cfg : HarqTxConfig} {events : List HarqLinkEvent} {s : HarqLink}
    (run : runFrom step (init cfg) events = some s) : s.Sound :=
  runFrom_invariant Sound (fun _ _ _ => step_sound) ⟨accounted_init cfg, answered_init cfg⟩ run

end HarqLink

end AetherStack.Guarantees
