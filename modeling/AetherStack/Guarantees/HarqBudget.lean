import AetherStack.Guarantees.UplinkParking
import AetherStack.Source.BsUplink

/-!
# The HARQ transmit budget

The calls of one `HarqTx`, in any order and at any times, and what it hands to the air. A
process is refused only when every process is busy. The transmissions of a process fall into
blocks, each a first transmission and its repetitions: all of one content, at most
`1 + max_retx` of them, and a trigger behind the last one frees the process.
-/
namespace AetherStack.Guarantees
open Source Source.Core Lib

inductive HarqCall where
  | send (macPdu : Bytes)
  | onAck (proc : Nat)
  | onNack (proc : Nat)
  | pollTimeouts (nowMs : UInt32)
  | advance (nowMs : UInt32)
  | reset

def harqCall (t : HarqTx) : HarqCall → HarqTx × List HarqEvent
  | .send macPdu => ((t.send macPdu).1, (t.send macPdu).2.toList)
  | .onAck proc => (t.onAck proc, [])
  | .onNack proc => ((t.onNack proc).1, (t.onNack proc).2.toList)
  | .pollTimeouts nowMs => t.pollTimeouts nowMs
  | .advance nowMs => (t.advance nowMs, [])
  | .reset => (t.reset, [])

/-- A transmitter, and everything it has handed to the air. -/
structure HarqRecord where
  tx : HarqTx
  log : List HarqEvent := []

namespace HarqRecord

def record (s : HarqRecord) (out : HarqTx × List HarqEvent) : HarqRecord := ⟨out.1, s.log ++ out.2⟩

def step (s : HarqRecord) (call : HarqCall) : HarqRecord := s.record (harqCall s.tx call)

def after (cfg : HarqTxConfig) (calls : List HarqCall) : HarqRecord :=
  calls.foldl step { tx := HarqTx.init cfg }

/-- A repetition joins the block before it. Blocks and transmissions stand latest first. -/
def addEvent (p : Nat) (blocks : List (List HarqEvent)) (e : HarqEvent) : List (List HarqEvent) :=
  if e.proc ≠ p then blocks
  else
    match e.type, blocks with
    | .retx, block :: rest => (e :: block) :: rest
    | _, _ => [e] :: blocks

def blocksOf (p : Nat) (log : List HarqEvent) : List (List HarqEvent) := log.foldl (addEvent p) []

/-- The transmissions of one MAC PDU: a new one, then only repetitions, all with the same octets,
process and indicator. -/
structure OneBlock (cfg : HarqTxConfig) (p : Nat) (block : List HarqEvent) : Prop where
  same : ∃ macPdu ndi, ∀ e ∈ block,
    e.proc = p ∧ e.ndi = ndi ∧ e.coded = linkEncode macPdu (UInt8.ofNat p) ndi
  opened : ∃ repeats first, block = repeats ++ [first] ∧ first.type = .newTx ∧
    ∀ e ∈ repeats, e.type = .retx
  budget : block.length ≤ 1 + cfg.maxRetx.toNat

def Busy (t : HarqTx) (p : Nat) : Prop := ∃ pr, t.procs[p]? = some pr ∧ pr.busy = true

/-- A NACK for the process, or a poll that finds its deadline passed. -/
def Triggers (t : HarqTx) (p : Nat) : HarqCall → Prop
  | .onNack proc => proc = p
  | .pollTimeouts nowMs => ∃ pr, t.procs[p]? = some pr ∧ HarqTx.expired nowMs pr.deadline = true
  | _ => False

/-- The block of the process is put on the air again while it is within its budget, and the
process is freed when it is not. -/
def RepeatedOrFreed (cfg : HarqTxConfig) (p : Nat) (s s' : HarqRecord) : Prop :=
  ∃ block rest, blocksOf p s.log = block :: rest ∧
    (block.length < 1 + cfg.maxRetx.toNat ∧ (∃ e, blocksOf p s'.log = (e :: block) :: rest) ∨
      block.length = 1 + cfg.maxRetx.toNat ∧ ¬ Busy s'.tx p)

/-! ## The record of the blocks -/

theorem addEvent_other {p : Nat} {e : HarqEvent} (h : e.proc ≠ p) (blocks : List (List HarqEvent)) :
    addEvent p blocks e = blocks := if_pos h

theorem addEvent_new (p : Nat) (ndi : UInt8) (coded : Bytes) (blocks : List (List HarqEvent)) :
    addEvent p blocks ⟨.newTx, p, ndi, coded⟩ = [⟨.newTx, p, ndi, coded⟩] :: blocks := if_neg (not_not.mpr rfl)

theorem addEvent_retx (p : Nat) (ndi : UInt8) (coded : Bytes) (block : List HarqEvent)
    (rest : List (List HarqEvent)) : addEvent p (block :: rest) ⟨.retx, p, ndi, coded⟩ =
      (⟨.retx, p, ndi, coded⟩ :: block) :: rest := if_neg (not_not.mpr rfl)

/-- A transmission belongs to the block its process has. -/
theorem blocksOf_append_singleton (p : Nat) (log : List HarqEvent) (e : HarqEvent) :
    blocksOf p (log ++ [e]) = addEvent p (blocksOf p log) e := by
  rw [blocksOf, List.foldl_append]
  rfl

/-- The blocks of a process are its own. -/
theorem blocksOf_other {p : Nat} {events : List HarqEvent} (h : ∀ e ∈ events, e.proc ≠ p)
    (log : List HarqEvent) : blocksOf p (log ++ events) = blocksOf p log := by
  induction events generalizing log with
  | nil => rw [List.append_nil]
  | cons e events ih =>
    rw [List.append_cons, ih (fun e' he' => h e' (List.mem_cons_of_mem _ he')), blocksOf_append_singleton,
      addEvent_other (h e List.mem_cons_self)]

/-- The table is whole, every block is one, and a busy process is at its latest block. -/
structure Kept (cfg : HarqTxConfig) (s : HarqRecord) : Prop where
  config : s.tx.cfg = cfg
  whole : Whole s.tx
  blocks : ∀ (p : Nat), ∀ block ∈ blocksOf p s.log, OneBlock cfg p block
  held : ∀ (p : Nat) (pr : HarqProc), s.tx.procs[p]? = some pr → pr.busy = true →
    ∃ block rest macPdu, blocksOf p s.log = block :: rest ∧ block.length = 1 + pr.retxCount.toNat ∧
      pr.coded = linkEncode macPdu (UInt8.ofNat p) pr.ndi ∧ ∀ e ∈ block, e.ndi = pr.ndi ∧ e.coded = pr.coded

theorem kept_init (cfg : HarqTxConfig) : Kept cfg { tx := HarqTx.init cfg } where
  config := rfl
  whole := by simp [Whole, HarqTx.init]
  blocks := by
    intro p block hblock
    cases hblock
  held := by
    intro p pr hget hbusy
    have hfree := List.eq_of_mem_replicate (List.mem_of_getElem? hget)
    rw [hfree] at hbusy
    cases hbusy

variable {cfg : HarqTxConfig} {s : HarqRecord}

/-- Where processes are only freed, nothing else is to show. -/
theorem Kept.freed (h : Kept cfg s) {t : HarqTx} (hcfg : t.cfg = s.tx.cfg) (hwhole : Whole t)
    (hheld : ∀ (p : Nat) (pr : HarqProc), t.procs[p]? = some pr → pr.busy = true → s.tx.procs[p]? = some pr) :
    Kept cfg { s with tx := t } where
  config := hcfg.trans h.config
  whole := hwhole
  blocks := h.blocks
  held := fun p pr hget hbusy => h.held p pr (hheld p pr hget hbusy) hbusy

theorem Kept.free (h : Kept cfg s) (p : Nat) {pr : HarqProc} (hfree : pr.busy = false) :
    Kept cfg { s with tx := { s.tx with procs := s.tx.procs.set p pr } } := by
  refine h.freed rfl (by simpa [Whole] using h.whole) fun q qr hget hbusy => ?_
  dsimp only at hget
  rw [List.getElem?_set] at hget
  split at hget
  · split at hget
    · rw [← Option.some.inj hget, hfree] at hbusy
      cases hbusy
    · cases hget
  · exact hget

/-- A process takes the transmission up as its latest one. -/
theorem Kept.transmit (h : Kept cfg s) {t : HarqTx} {p : Nat} {pr : HarqProc} {e : HarqEvent}
    (hcfg : t.cfg = s.tx.cfg) (hprocs : t.procs = s.tx.procs.set p pr) (hproc : e.proc = p)
    {block : List HarqEvent} {rest : List (List HarqEvent)} {macPdu : Bytes}
    (hadd : addEvent p (blocksOf p s.log) e = block :: rest) (hone : OneBlock cfg p block)
    (hrest : ∀ b ∈ rest, b ∈ blocksOf p s.log) (hlen : block.length = 1 + pr.retxCount.toNat)
    (hcoded : pr.coded = linkEncode macPdu (UInt8.ofNat p) pr.ndi)
    (hall : ∀ e ∈ block, e.ndi = pr.ndi ∧ e.coded = pr.coded) : Kept cfg (s.record (t, [e])) where
  config := hcfg.trans h.config
  whole := by
    have hwhole := h.whole
    unfold Whole at hwhole ⊢
    rw [record, hprocs, List.length_set, hwhole, hcfg]
  blocks := by
    intro q b hb
    rw [record, blocksOf_append_singleton] at hb
    by_cases hq : q = p
    · subst hq
      rw [hadd] at hb
      rcases List.mem_cons.mp hb with rfl | hb
      · exact hone
      · exact h.blocks q b (hrest b hb)
    · rw [addEvent_other (by rw [hproc]; exact Ne.symm hq)] at hb
      exact h.blocks q b hb
  held := by
    intro q qr hget hbusy
    rw [record, hprocs, List.getElem?_set] at hget
    rw [record, blocksOf_append_singleton]
    by_cases hq : p = q
    · subst hq
      rw [if_pos rfl] at hget
      split at hget
      · obtain rfl := Option.some.inj hget
        exact ⟨block, rest, macPdu, hadd, hlen, hcoded, hall⟩
      · cases hget
    · rw [if_neg hq] at hget
      rw [addEvent_other (by rw [hproc]; exact hq)]
      exact h.held q qr hget hbusy

theorem Kept.send (h : Kept cfg s) (macPdu : Bytes) : Kept cfg (s.step (.send macPdu)) := by
  rcases s.tx.send_cases macPdu with hrefused | ⟨p, ndi, -, -, hsent⟩
  · simpa [step, harqCall, record, hrefused] using h
  · rw [step, harqCall, hsent]
    refine h.transmit rfl rfl rfl (addEvent_new p ndi _ _) ?_ (fun b hb => hb) rfl rfl ?_
    · refine ⟨⟨macPdu, ndi, ?_⟩, ⟨[], _, rfl, rfl, by simp⟩, ?_⟩
      · intro e he
        rw [List.mem_singleton.mp he]
        exact ⟨rfl, rfl, rfl⟩
      · rw [List.length_singleton]
        omega
    · intro e he
      rw [List.mem_singleton.mp he]
      exact ⟨rfl, rfl⟩

/-- One turn of `retx`, as the record sees it. -/
def retx (s : HarqRecord) (p : Nat) : HarqRecord := s.record ((s.tx.retx p).1, (s.tx.retx p).2.toList)

/-- A retransmission stays within the budget, or the process is freed instead. -/
theorem Kept.retx (h : Kept cfg s) (p : Nat) : Kept cfg (s.retx p) := by
  obtain hidle | ⟨pr, hget, hbusy, hspent | ⟨hbudget, hfired⟩⟩ := s.tx.retx_cases p
  · simpa [HarqRecord.retx, record, hidle] using h
  · have hfree := h.free p (show ({ pr with busy := false } : HarqProc).busy = false from rfl)
    simpa [HarqRecord.retx, record, hspent] using hfree
  · obtain ⟨block, rest, macPdu, hblocks, hlen, hcoded, hall⟩ := h.held p pr hget hbusy
    have hone := h.blocks p block (by rw [hblocks]; exact List.mem_cons_self)
    -- the budget test keeps the counter away from 256
    have hbelow := UInt8.lt_iff_toNat_lt.mp hbudget
    rw [h.config] at hbelow
    have hsucc : (pr.retxCount + 1).toNat = pr.retxCount.toNat + 1 := by
      have := cfg.maxRetx.toNat_lt
      rw [UInt8.toNat_add, UInt8.toNat_one]
      omega
    have hgrown : ∀ e ∈ (⟨.retx, p, pr.ndi, pr.coded⟩ : HarqEvent) :: block, e.ndi = pr.ndi ∧ e.coded = pr.coded := by
      intro e he
      rcases List.mem_cons.mp he with rfl | he
      · exact ⟨rfl, rfl⟩
      · exact hall e he
    rw [HarqRecord.retx, hfired]
    refine h.transmit rfl rfl rfl ((congrArg (addEvent p · _) hblocks).trans (addEvent_retx p pr.ndi pr.coded block rest))
      ⟨⟨macPdu, pr.ndi, ?_⟩, ?_, ?_⟩ (fun b hb => by rw [hblocks]; exact List.mem_cons_of_mem _ hb) ?_ hcoded hgrown
    · intro e he
      obtain ⟨hndi, heq⟩ := hgrown e he
      refine ⟨?_, hndi, heq.trans hcoded⟩
      rcases List.mem_cons.mp he with rfl | he
      · rfl
      · obtain ⟨macPdu', ndi', hsame⟩ := hone.same
        exact (hsame e he).1
    · obtain ⟨repeats, first, rfl, hnew, hrepeats⟩ := hone.opened
      refine ⟨_ :: repeats, first, rfl, hnew, ?_⟩
      intro e he
      rcases List.mem_cons.mp he with rfl | he
      · rfl
      · exact hrepeats e he
    · rw [List.length_cons, hlen]
      omega
    · rw [List.length_cons, hlen, hsucc, Nat.add_assoc]

theorem Kept.pollLoop (h : Kept cfg s) (nowMs : UInt32) (ps : List Nat) :
    Kept cfg (s.record (HarqTx.pollLoop nowMs s.tx ps)) := by
  induction ps generalizing s with
  | nil => simpa [record, HarqTx.pollLoop] using h
  | cons p ps ih =>
    rw [HarqTx.pollLoop]
    split
    · have hmore := ih (h.retx p)
      simpa [record, HarqRecord.retx] using hmore
    · exact ih h

/-- Step lemma for every call. -/
theorem Kept.step (h : Kept cfg s) (call : HarqCall) : Kept cfg (s.step call) := by
  cases call with
  | send macPdu => exact h.send macPdu
  | onAck proc =>
    show Kept cfg (s.record (s.tx.onAck proc, []))
    rw [record, List.append_nil]
    unfold HarqTx.onAck
    split
    · exact h
    · exact h.free _ rfl
  | onNack proc =>
    show Kept cfg (s.record ((s.tx.onNack proc).1, (s.tx.onNack proc).2.toList))
    unfold HarqTx.onNack
    split
    · simpa [record] using h
    · exact h.retx proc
  | pollTimeouts nowMs =>
    have hadvanced : Kept cfg { s with tx := s.tx.advance nowMs } := h.freed rfl h.whole fun p pr hget _ => hget
    exact hadvanced.pollLoop nowMs (List.range s.tx.procs.length)
  | advance nowMs =>
    show Kept cfg (s.record (s.tx.advance nowMs, []))
    rw [record, List.append_nil]
    exact h.freed rfl h.whole fun p pr hget _ => hget
  | reset =>
    show Kept cfg (s.record (s.tx.reset, []))
    rw [record, List.append_nil]
    refine h.freed rfl (reset_whole h.whole) fun p pr hget hbusy => ?_
    obtain ⟨pr', -, rfl⟩ := List.mem_map.mp (List.mem_of_getElem? hget)
    cases hbusy

theorem kept_after (cfg : HarqTxConfig) (calls : List HarqCall) : Kept cfg (after cfg calls) := by
  unfold after
  generalize hs : ({ tx := HarqTx.init cfg } : HarqRecord) = s
  have h : Kept cfg s := hs ▸ kept_init cfg
  clear hs
  induction calls generalizing s with
  | nil => exact h
  | cons call calls ih => exact ih _ (h.step call)

/-! ## Refusals -/

/-- A send is refused when every process is busy. -/
theorem send_refused_iff {t : HarqTx} (hwhole : Whole t) (macPdu : Bytes) :
    (t.send macPdu).2 = none ↔ t.inFlight = t.procs.length := by
  constructor
  · intro hrefused
    by_contra hne
    have hlt : t.inFlight < t.procs.length := lt_of_le_of_ne List.countP_le_length hne
    obtain ⟨event, hsent⟩ := send_accepts hwhole (hwhole ▸ hlt) macPdu
    rw [hrefused] at hsent
    cases hsent
  · intro hfull
    have hall := List.countP_eq_length.mp hfull
    unfold HarqTx.send
    cases hfree : t.freeProc with
    | none => rfl
    | some p =>
      obtain ⟨hp, hidle⟩ := HarqTx.freeProc_spec hfree
      have hlt : p < t.procs.length := by rwa [hwhole]
      rw [List.getD_eq_getElem?_getD, List.getElem?_eq_getElem hlt, Option.getD_some,
        hall _ (List.getElem_mem hlt)] at hidle
      cases hidle

/-! ## Triggers -/

theorem retx_other {t : HarqTx} {q p : Nat} (hq : q ≠ p) :
    (t.retx q).1.procs[p]? = t.procs[p]? ∧ ∀ e ∈ (t.retx q).2.toList, e.proc ≠ p := by
  obtain hidle | ⟨pr, -, -, hspent | ⟨-, hfired⟩⟩ := t.retx_cases q
  · rw [hidle]
    exact ⟨rfl, by simp⟩
  · rw [hspent]
    exact ⟨List.getElem?_set_ne hq, by simp⟩
  · rw [hfired]
    refine ⟨List.getElem?_set_ne hq, fun e he => ?_⟩
    rw [Option.toList_some, List.mem_singleton] at he
    rw [he]
    exact hq

theorem pollLoop_other (nowMs : UInt32) {ps : List Nat} {p : Nat} (hp : p ∉ ps) (t : HarqTx) :
    (HarqTx.pollLoop nowMs t ps).1.procs[p]? = t.procs[p]? ∧
      ∀ e ∈ (HarqTx.pollLoop nowMs t ps).2, e.proc ≠ p := by
  induction ps generalizing t with
  | nil => exact ⟨rfl, by simp [HarqTx.pollLoop]⟩
  | cons q ps ih =>
    have hrest := ih (List.not_mem_of_not_mem_cons hp)
    rw [HarqTx.pollLoop]
    split
    · obtain ⟨hslot, hevents⟩ := retx_other (t := t) (List.ne_of_not_mem_cons hp).symm
      obtain ⟨hslots, hmore⟩ := hrest (t.retx q).1
      refine ⟨hslots.trans hslot, fun e he => ?_⟩
      rcases List.mem_append.mp he with he | he
      · exact hevents e he
      · exact hmore e he
    · exact hrest t

theorem pollLoop_append (nowMs : UInt32) (ps qs : List Nat) (s : HarqRecord) :
    s.record (HarqTx.pollLoop nowMs s.tx (ps ++ qs)) =
      (s.record (HarqTx.pollLoop nowMs s.tx ps)).record
        (HarqTx.pollLoop nowMs (HarqTx.pollLoop nowMs s.tx ps).1 qs) := by
  induction ps generalizing s with
  | nil => simp [record, HarqTx.pollLoop]
  | cons p ps ih =>
    rw [List.cons_append, HarqTx.pollLoop, HarqTx.pollLoop]
    split
    · have hrest := ih (s.retx p)
      simpa [record, HarqRecord.retx] using hrest
    · exact ih s

theorem Kept.retx_resolves (h : Kept cfg s) {p : Nat} (hbusy : Busy s.tx p) :
    RepeatedOrFreed cfg p s (s.retx p) := by
  obtain ⟨pr, hget, hbusy⟩ := hbusy
  obtain ⟨block, rest, -, hblocks, hlen, -, -⟩ := h.held p pr hget hbusy
  have hone := h.blocks p block (by rw [hblocks]; exact List.mem_cons_self)
  have hgetD : s.tx.procs.getD p {} = pr := by rw [List.getD_eq_getElem?_getD, hget, Option.getD_some]
  have hlt : p < s.tx.procs.length := (List.getElem?_eq_some_iff.mp hget).1
  refine ⟨block, rest, hblocks, ?_⟩
  unfold HarqRecord.retx HarqTx.retx
  simp only [hgetD, hbusy, Bool.not_true, Bool.false_eq_true, if_false]
  by_cases hspent : pr.retxCount ≥ s.tx.cfg.maxRetx
  · right
    have hle := UInt8.le_iff_toNat_le.mp hspent
    rw [h.config] at hle
    have hbound := hone.budget
    refine ⟨by omega, ?_⟩
    rw [if_pos hspent]
    rintro ⟨pr', hget', hbusy'⟩
    rw [record, List.getElem?_set_self hlt] at hget'
    rw [← Option.some.inj hget'] at hbusy'
    cases hbusy'
  · left
    have hlt := UInt8.lt_iff_toNat_lt.mp (UInt8.not_le.mp hspent)
    rw [h.config] at hlt
    refine ⟨by omega, ⟨.retx, p, pr.ndi, pr.coded⟩, ?_⟩
    rw [if_neg hspent, record, Option.toList_some, blocksOf_append_singleton, hblocks, addEvent_retx]

theorem record_log (s : HarqRecord) (out : HarqTx × List HarqEvent) : (s.record out).log = s.log ++ out.2 := rfl

/-- A process whose deadline has passed is repeated or freed by the poll. -/
theorem Kept.poll_resolves (h : Kept cfg s) (nowMs : UInt32) {p : Nat} {pr : HarqProc}
    (hget : s.tx.procs[p]? = some pr) (hbusy : pr.busy = true)
    (hexpired : HarqTx.expired nowMs pr.deadline = true) {ps : List Nat} (hps : ps.Nodup) (hp : p ∈ ps) :
    RepeatedOrFreed cfg p s (s.record (HarqTx.pollLoop nowMs s.tx ps)) := by
  obtain ⟨before, behind, rfl⟩ := List.append_of_mem hp
  have hbefore : p ∉ before := fun hmem => List.disjoint_of_nodup_append hps hmem List.mem_cons_self
  have hbehind : p ∉ behind := (List.nodup_cons.mp (List.nodup_append.mp hps).2.1).1
  -- nothing happens to the process before its turn, nor behind it
  obtain ⟨hslot, hevents⟩ := pollLoop_other nowMs hbefore s.tx
  have hkept := h.pollLoop nowMs before
  rw [pollLoop_append]
  generalize hat : s.record (HarqTx.pollLoop nowMs s.tx before) = u at hkept ⊢
  have htx : u.tx = (HarqTx.pollLoop nowMs s.tx before).1 := by rw [← hat]; rfl
  have hblocks : blocksOf p u.log = blocksOf p s.log := by
    rw [← hat, record_log]
    exact blocksOf_other hevents s.log
  rw [← htx] at hslot ⊢
  have hturn : u.tx.procs.getD p {} = pr := by
    rw [List.getD_eq_getElem?_getD, hslot, hget, Option.getD_some]
  obtain ⟨block, rest, hcurrent, hcases⟩ := hkept.retx_resolves ⟨pr, hslot.trans hget, hbusy⟩
  rw [HarqTx.pollLoop]
  simp only [hturn, hbusy, hexpired, Bool.and_self, if_true]
  obtain ⟨hslot', hevents'⟩ := pollLoop_other nowMs hbehind (u.tx.retx p).1
  refine ⟨block, rest, hblocks.symm.trans hcurrent, ?_⟩
  rcases hcases with ⟨hwithin, e, hagain⟩ | ⟨hspent, hfree⟩
  · left
    refine ⟨hwithin, e, ?_⟩
    rw [record_log, ← List.append_assoc, blocksOf_other hevents']
    exact hagain
  · right
    refine ⟨hspent, ?_⟩
    rintro ⟨pr', hget', hbusy'⟩
    exact hfree ⟨pr', hslot'.symm.trans hget', hbusy'⟩

theorem Kept.trigger_resolves (h : Kept cfg s) {p : Nat} {call : HarqCall} (hbusy : Busy s.tx p)
    (htrigger : Triggers s.tx p call) : RepeatedOrFreed cfg p s (s.step call) := by
  cases call with
  | onNack proc =>
    obtain rfl : proc = p := htrigger
    obtain ⟨pr, hget, hheld⟩ := hbusy
    have hlt : proc < s.tx.procs.length := (List.getElem?_eq_some_iff.mp hget).1
    show RepeatedOrFreed cfg proc s (s.record ((s.tx.onNack proc).1, (s.tx.onNack proc).2.toList))
    unfold HarqTx.onNack
    rw [if_neg (not_le.mpr hlt)]
    exact h.retx_resolves ⟨pr, hget, hheld⟩
  | pollTimeouts nowMs =>
    obtain ⟨pr, hget, hexpired⟩ := htrigger
    obtain ⟨pr', hget', hbusy⟩ := hbusy
    obtain rfl := Option.some.inj (hget.symm.trans hget')
    have hadvanced : Kept cfg { s with tx := s.tx.advance nowMs } := h.freed rfl h.whole fun p pr hget _ => hget
    exact hadvanced.poll_resolves nowMs hget hbusy hexpired List.nodup_range
      (List.mem_range.mpr (List.getElem?_eq_some_iff.mp hget).1)
  | _ => exact htrigger.elim

/-! ## The drain loops -/

/-- The PDUs that were popped, in this order. -/
inductive Pops : BearerSet → List AppPdu → BearerSet → Prop
  | none (s : BearerSet) : Pops s [] s
  | pop {s s' s'' : BearerSet} {p : AppPdu} {ps : List AppPdu} (head : s.popNext = some (p, s'))
      (rest : Pops s' ps s'') : Pops s (p :: ps) s''

/-- Every popped PDU is on the air, in a frame of its own. -/
def Submitted (digest : KeyedDigest) (rnti : Nat) (bearers bearers' : BearerSet) (air air' : List AirFrame) : Prop :=
  ∃ taken frames, Pops bearers taken bearers' ∧ air' = air ++ frames ∧
    List.Forall₂ (CarriedBy digest rnti) taken frames

theorem Submitted.refl (digest : KeyedDigest) (rnti : Nat) (bearers : BearerSet) (air : List AirFrame) :
    Submitted digest rnti bearers bearers air air :=
  ⟨[], [], .none bearers, (List.append_nil air).symm, .nil⟩

theorem Submitted.cons {digest : KeyedDigest} {rnti : Nat} {bearers bearers' bearers'' : BearerSet}
    {air air' : List AirFrame} {p : AppPdu} {f : AirFrame} (hpop : bearers.popNext = some (p, bearers'))
    (hframe : CarriedBy digest rnti p f) (h : Submitted digest rnti bearers' bearers'' (air ++ [f]) air') :
    Submitted digest rnti bearers bearers'' air air' := by
  obtain ⟨taken, frames, hpops, hair, hall⟩ := h
  exact ⟨p :: taken, f :: frames, .pop hpop hpops, by rw [hair, List.append_assoc]; rfl, .cons hframe hall⟩

/-- The loop of the UE pops only what HARQ takes. -/
theorem pumpLoop_submits (digest : KeyedDigest) (fuel : Nat) {u : UeNode} (hwhole : Whole u.harqTx) :
    Submitted digest u.crntiCache u.bearers (UeNode.pumpLoop digest fuel u).bearers u.air
      (UeNode.pumpLoop digest fuel u).air := by
  induction fuel generalizing u with
  | zero => exact .refl digest u.crntiCache u.bearers u.air
  | succ fuel ih =>
    unfold UeNode.pumpLoop
    split
    · rename_i hfree
      split
      · exact .refl digest u.crntiCache u.bearers u.air
      · rename_i p bearers hpop
        obtain ⟨f, hcarried, hair⟩ := uplinkSend_accepted digest { u with bearers := bearers } hwhole hfree p
        obtain ⟨hbearers, hcrnti, hwhole'⟩ :=
          uplinkSend_keeps digest { u with bearers := bearers } p.lcid p.bytes hwhole
        have hrest := ih hwhole'
        rw [hbearers, hcrnti, hair] at hrest
        exact .cons hpop hcarried hrest
    · exact .refl digest u.crntiCache u.bearers u.air

theorem pumpAppBearers_submits (digest : KeyedDigest) {u : UeNode} (hwhole : Whole u.harqTx) :
    Submitted digest u.crntiCache u.bearers (u.pumpAppBearers digest).bearers u.air
      (u.pumpAppBearers digest).air := by
  unfold UeNode.pumpAppBearers
  split
  · exact .refl digest u.crntiCache u.bearers u.air
  · exact pumpLoop_submits digest _ hwhole

theorem flow_putFlow (n : BsNode) (rnti : Nat) (f : Core.DlFlow) : (n.putFlow rnti f).flow rnti = f := by
  simp [BsNode.flow, BsNode.putFlow]

theorem drainLoop_submits (w : World) (rnti : Nat) (fuel : Nat) {n : BsNode} (hwhole : Whole (n.flow rnti).harqTx) :
    Submitted w.digest rnti (n.flow rnti).bearers ((BsNode.drainLoop w rnti fuel n).flow rnti).bearers n.air
      (BsNode.drainLoop w rnti fuel n).air := by
  induction fuel generalizing n with
  | zero => exact .refl w.digest rnti _ n.air
  | succ fuel ih =>
    unfold BsNode.drainLoop
    dsimp only
    split
    · rename_i hopen
      split
      · exact .refl w.digest rnti _ n.air
      · rename_i p bearers hpop
        generalize hsdu : (if p.cipher then Pdcp.protect (BsNode.pdcpHmac w) (n.flow rnti).upKey
          (n.flow rnti).dlSeq p.bytes else p.bytes) = sdu
        have hsealed : Sealed w.digest p.bytes sdu := by
          rw [← hsdu]
          split
          · exact .inr ⟨_, _, rfl⟩
          · exact .inl rfl
        obtain ⟨event, hevent⟩ := send_accepts hwhole hopen.1 (Mac.buildPdu [(p.lcid, sdu)])
        obtain ⟨proc, ndi, hcoded⟩ := send_coded hevent
        rw [hevent]
        dsimp only
        refine .cons (f := ⟨.data, rnti, event.coded⟩) hpop ⟨rfl, rfl, sdu, proc, ndi, hsealed, hcoded⟩ ?_
        generalize hnext : ({ n.flow rnti with
          bearers := bearers, harqTx := ((n.flow rnti).harqTx.send (Mac.buildPdu [(p.lcid, sdu)])).1
          dlSeq := if p.cipher then (n.flow rnti).dlSeq + 1 else (n.flow rnti).dlSeq } : Core.DlFlow) = f
        have hflow : ((n.putFlow rnti f).sendFrame .data rnti event.coded).flow rnti = f := flow_putFlow n rnti f
        have hrest := ih (n := (n.putFlow rnti f).sendFrame .data rnti event.coded) (by
          rw [hflow, ← hnext]
          exact send_whole hwhole _)
        rw [hflow] at hrest
        have hbearers : f.bearers = bearers := by rw [← hnext]
        rwa [hbearers] at hrest
    · exact .refl w.digest rnti _ n.air

theorem drainFlow_submits (w : World) (rnti : Nat) {n : BsNode} (hwhole : Whole (n.flow rnti).harqTx) :
    Submitted w.digest rnti (n.flow rnti).bearers ((BsNode.drainFlow w n rnti).flow rnti).bearers n.air
      (BsNode.drainFlow w n rnti).air := by
  unfold BsNode.drainFlow
  split
  · exact .refl w.digest rnti _ n.air
  · exact drainLoop_submits w rnti _ hwhole

/-- What holds of a transmitter and its record, and of the loops that feed it. -/
structure WithinBudget (cfg : HarqTxConfig) (s : HarqRecord) : Prop where
  refused : ∀ macPdu, (s.tx.send macPdu).2 = none ↔ s.tx.inFlight = s.tx.procs.length
  blocks : ∀ (p : Nat), ∀ block ∈ blocksOf p s.log, OneBlock cfg p block
  freed : ∀ (p : Nat) (call : HarqCall), Busy s.tx p → Triggers s.tx p call →
    RepeatedOrFreed cfg p s (s.step call)
  downlink : ∀ (w : World) (n : BsNode) (rnti : Nat), (n.flow rnti).harqTx = s.tx →
    Submitted w.digest rnti (n.flow rnti).bearers ((BsNode.drainFlow w n rnti).flow rnti).bearers n.air
      (BsNode.drainFlow w n rnti).air
  uplink : ∀ (digest : KeyedDigest) (u : UeNode), u.harqTx = s.tx →
    Submitted digest u.crntiCache u.bearers (u.pumpAppBearers digest).bearers u.air (u.pumpAppBearers digest).air

/-- For every configuration and every sequence of calls. -/
theorem harq_tx_budget (cfg : HarqTxConfig) (calls : List HarqCall) : WithinBudget cfg (after cfg calls) := by
  have h := kept_after cfg calls
  refine ⟨send_refused_iff h.whole, h.blocks, fun p call => h.trigger_resolves, ?_, ?_⟩
  · intro w n rnti hsame
    exact drainFlow_submits w rnti (hsame ▸ h.whole)
  · intro digest u hsame
    exact pumpAppBearers_submits digest (hsame ▸ h.whole)

end HarqRecord

end AetherStack.Guarantees
