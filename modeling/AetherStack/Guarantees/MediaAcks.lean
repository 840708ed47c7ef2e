import AetherStack.Lib.AckLedger
import AetherStack.Lib.Keyed
import AetherStack.Lib.Run
import AetherStack.Source.MediaStreams

/-!
# Media and its acks between UEs

The nodes send media and acks over bearers that keep their order and may lose anything; the
bridge gives a conference packet to any members it likes. What a node received is kept beside
them, by the names the model gives to streams and packets.

An ack is taken for the packet that waits under its number, and in the sweep a later ack for
the proof that everything below it arrived. The second holds on a bearer that repeats what is
lost. Media rides on one that does not, so a packet lost below an acked one is counted as
acknowledged.
-/
namespace AetherStack.Guarantees
open Source Source.Core Lib

/-- A packet by its sender, its stream and its place in the stream. -/
structure MediaTag where
  owner : Imsi
  stream : Nat
  serial : Nat
  deriving DecidableEq, Repr

/-- A packet on its way, the ack of one under the tag of that one. -/
structure Flight where
  src : Imsi
  dst : Imsi
  pkt : U2uPacket
  tag : MediaTag
  deriving DecidableEq, Repr

structure MediaNet where
  ue : Imsi → MediaUe := fun a => { imsi := a }
  wire : List Flight := []
  received : List MediaTag := []

/-- Dialogs come from the call control; the other events are timers, the bearers, and the calls
that open and close streams. -/
inductive MediaEvent where
  | clock (a : Imsi) (nowMs : UInt32)
  | dialogs (a : Imsi) (dialogs : List MediaDialog)
  | beginMedia (a : Imsi) (d : MediaDialog)
  | ensureConfMedia (a : Imsi) (confId : Nat)
  | eraseStreams (a : Imsi) (d : MediaDialog)
  | tick (a peer : Imsi) (kind : MediaKind)
  | confTick (a : Imsi) (confId : Nat) (members : List Imsi)
  | sweep (a : Imsi)
  | lose (i : Nat)
  | deliver (src dst : Imsi) (kind : MediaKind)
  deriving DecidableEq, Repr

namespace MediaNet

def setUe (net : MediaNet) (a : Imsi) (u : MediaUe) : MediaNet := { net with ue := Function.update net.ue a u }

/-- A media timer at the stream `target`: one packet, to the peer or to the members. -/
def tick (net : MediaNet) (a : Imsi) (target : Option Nat) (members : List Imsi) : MediaNet :=
  match target.bind fun i => (net.ue a).outStreams[i]? with
  | none => net
  | some s =>
    let sent := (net.ue a).sendMediaTick target
    { net.setUe a sent.1 with
      wire := net.wire ++ sent.2.toList.flatMap fun pkt =>
        (if pkt.confId ≠ 0 then members else [pkt.dstImsi]).map fun dst =>
          ⟨a, dst, { pkt with dstImsi := dst }, ⟨a, s.id, s.sent + 1⟩⟩ }

def onBearer (src dst : Imsi) (kind : MediaKind) (f : Flight) : Bool :=
  f.src = src ∧ f.dst = dst ∧ f.pkt.kind = kind

/-- The next packet of a bearer. -/
def next (net : MediaNet) (src dst : Imsi) (kind : MediaKind) : Option Flight :=
  net.wire.find? (onBearer src dst kind)

def deliver (net : MediaNet) (src dst : Imsi) (kind : MediaKind) (f : Flight) : MediaNet :=
  let handled := (net.ue dst).handleU2u f.pkt
  { net.setUe dst handled.1 with
    wire := net.wire.eraseP (onBearer src dst kind) ++ handled.2.toList.map fun ack => ⟨dst, ack.dstImsi, ack, f.tag⟩
    received := if handled.2.isSome then f.tag :: net.received else net.received }

def step (net : MediaNet) : MediaEvent → Option MediaNet
  | .clock a nowMs => some (net.setUe a { net.ue a with nowMs := max nowMs (net.ue a).nowMs })
  | .dialogs a dialogs => some (net.setUe a { net.ue a with dialogs := dialogs })
  | .beginMedia a d => some (net.setUe a ((net.ue a).beginMedia d))
  | .ensureConfMedia a confId => some (net.setUe a ((net.ue a).ensureConfMedia confId))
  | .eraseStreams a d => some (net.setUe a ((net.ue a).eraseStreams d))
  | .tick a peer kind => some (net.tick a ((net.ue a).findOutStream peer kind) [])
  | .confTick a confId members => some (net.tick a ((net.ue a).findConfOutStream confId) members)
  | .sweep a => some (net.setUe a (net.ue a).sweepStreamAcks)
  | .lose i => some { net with wire := net.wire.eraseIdx i }
  | .deliver src dst kind => (net.next src dst kind).map (net.deliver src dst kind)

/-- The packets of a stream that somebody received, each once. Who that can be is in `tick`: a packet
of a call goes to its peer and nobody else, one of a conference to the members it is bridged to. -/
def receivedPackets (received : List MediaTag) (a : Imsi) (stream : Nat) : Finset Nat :=
  ((received.filter fun t => t.owner = a ∧ t.stream = stream).map MediaTag.serial).toFinset

/-- What was sent is acknowledged, lost or waiting. -/
def TxBalanced (s : OutStream) : Prop := s.tx = s.rxAck + s.loss + UInt32.ofNat s.ackPending.length

/-- What every outgoing stream shows. -/
def Accounted (net : MediaNet) : Prop :=
  ∀ a, ∀ s ∈ (net.ue a).outStreams, TxBalanced s ∧ s.rxAck.toNat ≤ (receivedPackets net.received a s.id).card

/-! ### The conditions -/

/-- The number of the next packet is not waiting any more, as it may be behind a wrap. -/
def FreshNumber (u : MediaUe) (target : Option Nat) : Prop :=
  ∀ i ∈ target, ∀ s ∈ u.outStreams[i]?, ∀ e ∈ s.ackPending, e.seq ≠ s.seq + 1

/-- An ack of a waiting number is the answer to the packet that waits, not to one of an earlier
stream or of 2 ^ 32 packets ago. -/
def Answers (u : MediaUe) (f : Flight) : Prop :=
  f.pkt.ack = true → ∀ i ∈ u.ackedStream f.pkt, ∀ s ∈ u.outStreams[i]?,
    ∀ e ∈ s.findPending (UInt32.ofNat f.pkt.seq), f.tag = ⟨u.imsi, s.id, e.serial⟩

/-- No packet was lost that waits too long below the highest acked number. -/
def NoneLostBelow (received : List MediaTag) (u : MediaUe) : Prop :=
  ∀ s ∈ u.outStreams, ∀ e ∈ s.ackPending, OutStream.expired u.nowMs e = true → e.seq ≤ s.maxAckSeq →
    e.serial ∈ receivedPackets received u.imsi s.id

def NumbersFresh (net : MediaNet) : MediaEvent → Prop
  | .tick a peer kind => FreshNumber (net.ue a) ((net.ue a).findOutStream peer kind)
  | .confTick a confId _ => FreshNumber (net.ue a) ((net.ue a).findConfOutStream confId)
  | _ => True

def AcksTrue (net : MediaNet) : MediaEvent → Prop
  | .tick a peer kind => FreshNumber (net.ue a) ((net.ue a).findOutStream peer kind)
  | .confTick a confId _ => FreshNumber (net.ue a) ((net.ue a).findConfOutStream confId)
  | .sweep a => NoneLostBelow net.received (net.ue a)
  | .deliver src dst kind => ∀ f ∈ net.next src dst kind, Answers (net.ue dst) f
  | _ => True

instance (s : OutStream) : Decidable (TxBalanced s) := inferInstanceAs (Decidable (_ = _))

instance (u : MediaUe) (target : Option Nat) : Decidable (FreshNumber u target) := inferInstanceAs (Decidable (∀ _ ∈ _, _))

instance (u : MediaUe) (f : Flight) : Decidable (Answers u f) := inferInstanceAs (Decidable (_ → _))

instance (received : List MediaTag) (u : MediaUe) : Decidable (NoneLostBelow received u) :=
  inferInstanceAs (Decidable (∀ _ ∈ _, _))

instance NumbersFresh.decidable (net : MediaNet) : (event : MediaEvent) → Decidable (NumbersFresh net event)
  | .tick _ _ _ | .confTick _ _ _ => inferInstanceAs (Decidable (FreshNumber _ _))
  | .clock _ _ | .dialogs _ _ | .beginMedia _ _ | .ensureConfMedia _ _ | .eraseStreams _ _ | .sweep _ | .lose _
  | .deliver _ _ _ => .isTrue trivial

instance AcksTrue.decidable (net : MediaNet) : (event : MediaEvent) → Decidable (AcksTrue net event)
  | .tick _ _ _ | .confTick _ _ _ => inferInstanceAs (Decidable (FreshNumber _ _))
  | .sweep _ => inferInstanceAs (Decidable (NoneLostBelow _ _))
  | .deliver _ _ _ => inferInstanceAs (Decidable (∀ _ ∈ _, _))
  | .clock _ _ | .dialogs _ _ | .beginMedia _ _ | .ensureConfMedia _ _ | .eraseStreams _ _ | .lose _ => isTrue trivial

end MediaNet

namespace MediaAcks
open MediaNet

/-! ### One stream -/

variable {received received' tags tags' : List MediaTag} {a : Imsi} {s s' : OutStream} {e : PendingAck}

theorem mem_receivedPackets {received : List MediaTag} {a : Imsi} {stream n : Nat} :
    n ∈ receivedPackets received a stream ↔ ⟨a, stream, n⟩ ∈ received := by
  rw [receivedPackets, List.mem_toFinset, List.mem_map]
  constructor
  · rintro ⟨t, ht, rfl⟩
    obtain ⟨hmem, hof⟩ := List.mem_filter.mp ht
    obtain ⟨rfl, rfl⟩ := of_decide_eq_true hof
    exact hmem
  · intro h
    exact ⟨_, List.mem_filter.mpr ⟨h, decide_eq_true ⟨rfl, rfl⟩⟩, rfl⟩

/-- The stream without the entry `e`, with new counters. -/
structure Settled (s s' : OutStream) (e : PendingAck) : Prop where
  waiting : e ∈ s.ackPending
  pending : s'.ackPending = s.ackPending.erase e
  tx : s'.tx = s.tx
  id : s'.id = s.id
  sent : s'.sent = s.sent

/-- Settling takes one entry away. -/
theorem Settled.length (h : Settled s s' e) : s.ackPending.length = s'.ackPending.length + 1 := by
  rw [h.pending, List.length_erase_of_mem h.waiting]
  exact (Nat.succ_pred_eq_of_pos (List.length_pos_of_mem h.waiting)).symm

/-- An entry that is settled is counted once, as acknowledged or as lost. -/
theorem balanced_settle (h : TxBalanced s) (hs : Settled s s' e)
    (hcounters : s.rxAck + s.loss + 1 = s'.rxAck + s'.loss) : TxBalanced s' := by
  rw [TxBalanced, hs.tx, h, hs.length, UInt32.ofNat_add, ← hcounters]
  show s.rxAck + s.loss + (UInt32.ofNat s'.ackPending.length + 1) = _
  ac_rfl

/-- Under a fresh number nothing that waits is overwritten. -/
theorem sendTick_pending (hfresh : ∀ e ∈ s.ackPending, e.seq ≠ s.seq + 1) (nowMs : UInt32) :
    (s.sendTick nowMs).ackPending = ⟨s.seq + 1, nowMs, s.sent + 1⟩ :: s.ackPending := by
  have hall : ∀ e ∈ s.ackPending, decide (e.seq ≠ s.seq + 1) = true := fun e he => decide_eq_true (hfresh e he)
  rw [OutStream.sendTick]
  dsimp only
  rw [List.filter_eq_self.mpr hall]

theorem balanced_sendTick (h : TxBalanced s) (hfresh : ∀ e ∈ s.ackPending, e.seq ≠ s.seq + 1) (nowMs : UInt32) :
    TxBalanced (s.sendTick nowMs) := by
  rw [TxBalanced, sendTick_pending hfresh, List.length_cons, UInt32.ofNat_add]
  show s.tx + 1 = s.rxAck + s.loss + (UInt32.ofNat s.ackPending.length + 1)
  rw [h]
  ac_rfl

/-- An ack counts the entry that waits under its number, if there is one. -/
theorem onAck_settles (s : OutStream) (nowMs seq : UInt32) :
    (s.findPending seq = none ∧ s.onAck nowMs seq = { s with maxAckSeq := max s.maxAckSeq seq }) ∨
      ∃ e, s.findPending seq = some e ∧ Settled s (s.onAck nowMs seq) e ∧
        (s.onAck nowMs seq).rxAck = s.rxAck + 1 ∧ (s.onAck nowMs seq).loss = s.loss := by
  rw [OutStream.onAck]
  have hfind : ({ s with maxAckSeq := max s.maxAckSeq seq } : OutStream).findPending seq = s.findPending seq := rfl
  dsimp only
  rw [hfind]
  cases hentry : s.findPending seq with
  | none => exact .inl ⟨rfl, rfl⟩
  | some e => exact .inr ⟨e, rfl, ⟨List.mem_of_find?_eq_some hentry, rfl, rfl, rfl, rfl⟩, rfl, rfl⟩

/-- A turn of the sweep leaves the entry, or counts it as acknowledged or as lost. -/
theorem sweepEntry_settles (nowMs : UInt32) (hwaiting : e ∈ s.ackPending) :
    OutStream.sweepEntry nowMs s e = s ∨ Settled s (OutStream.sweepEntry nowMs s e) e ∧
      ((OutStream.expired nowMs e = true ∧ e.seq ≤ s.maxAckSeq ∧
          (OutStream.sweepEntry nowMs s e).rxAck = s.rxAck + 1 ∧ (OutStream.sweepEntry nowMs s e).loss = s.loss) ∨
        ((OutStream.sweepEntry nowMs s e).rxAck = s.rxAck ∧ (OutStream.sweepEntry nowMs s e).loss = s.loss + 1)) := by
  rw [OutStream.sweepEntry]
  by_cases hexpired : OutStream.expired nowMs e = true
  · rw [if_pos hexpired]
    dsimp only
    split
    · rename_i hbelow
      exact .inr ⟨⟨hwaiting, rfl, rfl, rfl, rfl⟩, .inl ⟨hexpired, hbelow, rfl, rfl⟩⟩
    · exact .inr ⟨⟨hwaiting, rfl, rfl, rfl, rfl⟩, .inr ⟨rfl, rfl⟩⟩
  · rw [if_neg hexpired]
    exact .inl rfl

theorem balanced_onAck (h : TxBalanced s) (nowMs seq : UInt32) : TxBalanced (s.onAck nowMs seq) := by
  obtain ⟨-, heq⟩ | ⟨e, -, hs, hack, hloss⟩ := onAck_settles s nowMs seq
  · rw [heq]
    exact h
  · apply balanced_settle h hs
    rw [hack, hloss]
    ac_rfl

theorem balanced_sweepEntry (h : TxBalanced s) (nowMs : UInt32) (hwaiting : e ∈ s.ackPending) :
    TxBalanced (OutStream.sweepEntry nowMs s e) := by
  obtain heq | ⟨hs, ⟨-, -, hack, hloss⟩ | ⟨hack, hloss⟩⟩ := sweepEntry_settles nowMs hwaiting
  · rw [heq]
    exact h
  · apply balanced_settle h hs
    rw [hack, hloss]
    ac_rfl
  · apply balanced_settle h hs
    rw [hack, hloss]
    ac_rfl

/-- The stream as a sender that counts. -/
def ledger (s : OutStream) : AckLedger Nat where
  pending := (s.ackPending.map PendingAck.serial).toFinset
  acked := s.rxAck.toNat

/-- `tags` are the packets received and those on their way. -/
structure StreamSound (received tags : List MediaTag) (a : Imsi) (s : OutStream) : Prop where
  balance : TxBalanced s
  serials : (s.ackPending.map PendingAck.serial).Nodup
  sent : ∀ e ∈ s.ackPending, e.serial ≤ s.sent
  honest : (ledger s).Honest (receivedPackets received a s.id)
  known : ∀ t ∈ tags, t.owner = a → t.stream = s.id → t.serial ≤ s.sent

/-- More receptions, and the packets of other streams, do no harm. -/
theorem StreamSound.mono (h : StreamSound received tags a s) (hreceived : received ⊆ received')
    (htags : ∀ t ∈ tags', t.owner = a → t.stream = s.id → t ∈ tags) : StreamSound received' tags' a s where
  balance := h.balance
  serials := h.serials
  sent := h.sent
  honest := by
    apply h.honest.mono _ (Finset.Subset.refl _) (Nat.le_refl _)
    intro n hn
    rw [mem_receivedPackets] at hn ⊢
    exact hreceived hn
  known := fun t ht howner hstream => h.known t (htags t ht howner hstream) howner hstream

/-- Nothing was sent yet. -/
theorem streamSound_new (kind : MediaKind) (peer : Imsi) (confId : Nat) {id : Nat}
    (hid : ∀ t ∈ tags, t.owner = a → t.stream ≠ id) :
    StreamSound received tags a { kind := kind, peer := peer, confId := confId, id := id } where
  balance := rfl
  serials := List.nodup_nil
  sent := by simp
  honest := Nat.zero_le _
  known := fun t ht howner hstream => absurd hstream (hid t ht howner)

theorem StreamSound.sendTick (h : StreamSound received tags a s) (hreceived : received ⊆ tags)
    (hfresh : ∀ e ∈ s.ackPending, e.seq ≠ s.seq + 1) (nowMs : UInt32)
    (htags : ∀ t ∈ tags', t.owner = a → t.stream = s.id → t ∈ tags ∨ t.serial = s.sent + 1) :
    StreamSound received tags' a (s.sendTick nowMs) := by
  have hpending := sendTick_pending hfresh nowMs
  have hnew : s.sent + 1 ∉ receivedPackets received a s.id := by
    intro hmem
    have hle := h.known _ (hreceived (mem_receivedPackets.mp hmem)) rfl rfl
    exact absurd hle (Nat.not_succ_le_self _)
  constructor
  · exact balanced_sendTick h.balance hfresh nowMs
  · rw [hpending, List.map_cons, List.nodup_cons]
    refine ⟨fun hmem => ?_, h.serials⟩
    obtain ⟨e, he, heq⟩ := List.mem_map.mp hmem
    have hle := h.sent e he
    rw [heq] at hle
    exact absurd hle (Nat.not_succ_le_self _)
  · intro e he
    rw [hpending] at he
    rcases List.mem_cons.mp he with rfl | he
    · exact Nat.le_refl _
    · exact Nat.le_succ_of_le (h.sent e he)
  · have hledger : ledger (s.sendTick nowMs) = ⟨insert (s.sent + 1) (ledger s).pending, (ledger s).acked⟩ := by
      rw [ledger, hpending, List.map_cons, List.toFinset_cons]
      rfl
    rw [hledger]
    exact h.honest.send hnew
  · intro t ht howner hstream
    rcases htags t ht howner hstream with hold | hlast
    · exact Nat.le_succ_of_le (h.known t hold howner hstream)
    · exact Nat.le_of_eq hlast

theorem Settled.ledger_pending (h : Settled s s' e) (hnodup : (s.ackPending.map PendingAck.serial).Nodup) :
    (s'.ackPending.map PendingAck.serial).Nodup ∧ (ledger s').pending = (ledger s).pending.erase e.serial := by
  have hperm := (List.perm_cons_erase h.waiting).map PendingAck.serial
  rw [List.map_cons, ← h.pending] at hperm
  obtain ⟨hnot, hrest⟩ := List.nodup_cons.mp (hperm.nodup_iff.mp hnodup)
  refine ⟨hrest, ?_⟩
  rw [ledger, ledger, List.toFinset_eq_of_perm _ _ hperm, List.toFinset_cons, Finset.erase_insert]
  exact fun hmem => hnot (List.mem_toFinset.mp hmem)

/-- Settling keeps a stream sound if its ledger stays honest. -/
theorem StreamSound.settle (h : StreamSound received tags a s) (hs : Settled s s' e)
    (hcounters : s.rxAck + s.loss + 1 = s'.rxAck + s'.loss)
    (hhonest : (ledger s').Honest (receivedPackets received a s.id)) : StreamSound received tags a s' := by
  constructor
  · exact balanced_settle h.balance hs hcounters
  · exact (hs.ledger_pending h.serials).1
  · intro e' he'
    rw [hs.pending] at he'
    rw [hs.sent]
    exact h.sent e' (List.mem_of_mem_erase he')
  · rw [hs.id]
    exact hhonest
  · intro t ht howner hstream
    rw [hs.id] at hstream
    rw [hs.sent]
    exact h.known t ht howner hstream

/-- Counting a packet that was received is honest. -/
theorem StreamSound.counted (h : StreamSound received tags a s) (hs : Settled s s' e)
    (hreceived : e.serial ∈ receivedPackets received a s.id) (hack : s'.rxAck = s.rxAck + 1)
    (hloss : s'.loss = s.loss) : StreamSound received tags a s' := by
  have hwaiting : e.serial ∈ (ledger s).pending := List.mem_toFinset.mpr (List.mem_map_of_mem hs.waiting)
  apply h.settle hs
  · rw [hack, hloss]
    ac_rfl
  · apply (h.honest.count hwaiting hreceived).mono (Finset.Subset.refl _)
    · exact (hs.ledger_pending h.serials).2.subset
    · show s'.rxAck.toNat ≤ s.rxAck.toNat + 1
      rw [hack, UInt32.toNat_add]
      exact Nat.mod_le _ _

/-- Counting a packet as lost always is. -/
theorem StreamSound.lost (h : StreamSound received tags a s) (hs : Settled s s' e) (hack : s'.rxAck = s.rxAck)
    (hloss : s'.loss = s.loss + 1) : StreamSound received tags a s' := by
  apply h.settle hs
  · rw [hack, hloss]
    ac_rfl
  · apply h.honest.mono (Finset.Subset.refl _)
    · rw [(hs.ledger_pending h.serials).2]
      exact Finset.erase_subset _ _
    · exact Nat.le_of_eq (congrArg UInt32.toNat hack)

/-- An ack is honest when it answers the packet that waits under its number. -/
theorem StreamSound.onAck (h : StreamSound received tags a s) (nowMs : UInt32) {seq : UInt32}
    (hreceived : ∀ e ∈ s.findPending seq, e.serial ∈ receivedPackets received a s.id) :
    StreamSound received tags a (s.onAck nowMs seq) := by
  obtain ⟨-, heq⟩ | ⟨e, hentry, hs, hack, hloss⟩ := onAck_settles s nowMs seq
  · rw [heq]
    exact ⟨h.balance, h.serials, h.sent, h.honest, h.known⟩
  · exact h.counted hs (hreceived e hentry) hack hloss

/-- A turn of the sweep is honest when what it counts was received. -/
theorem StreamSound.sweepEntry (h : StreamSound received tags a s) {nowMs : UInt32} (hwaiting : e ∈ s.ackPending)
    (hreceived : OutStream.expired nowMs e = true → e.seq ≤ s.maxAckSeq →
      e.serial ∈ receivedPackets received a s.id) :
    StreamSound received tags a (OutStream.sweepEntry nowMs s e) := by
  obtain heq | ⟨hs, ⟨hexpired, hbelow, hack, hloss⟩ | ⟨hack, hloss⟩⟩ := sweepEntry_settles nowMs hwaiting
  · rw [heq]
    exact h
  · exact h.counted hs (hreceived hexpired hbelow) hack hloss
  · exact h.lost hs hack hloss

/-- A turn of the sweep leaves the entries behind it where they are. -/
theorem sweepEntry_frame (nowMs : UInt32) (s : OutStream) (e : PendingAck) :
    (OutStream.sweepEntry nowMs s e).id = s.id ∧ (OutStream.sweepEntry nowMs s e).maxAckSeq = s.maxAckSeq ∧
      ((OutStream.sweepEntry nowMs s e).ackPending = s.ackPending ∨
        (OutStream.sweepEntry nowMs s e).ackPending = s.ackPending.erase e) := by
  rw [OutStream.sweepEntry]
  split
  · dsimp only
    split
    · exact ⟨rfl, rfl, .inr rfl⟩
    · exact ⟨rfl, rfl, .inr rfl⟩
  · exact ⟨rfl, rfl, .inl rfl⟩

/-- The loop of the sweep, for what every turn keeps while the entry waits. -/
theorem sweepLoop_keeps {P : OutStream → Prop} {nowMs : UInt32} {C : PendingAck → Prop} {maxAckSeq : UInt32} {id : Nat}
    (hturn : ∀ s e, P s → s.maxAckSeq = maxAckSeq → s.id = id → e ∈ s.ackPending → C e →
      P (OutStream.sweepEntry nowMs s e)) {es : List PendingAck}
    (h : P s) (hmax : s.maxAckSeq = maxAckSeq) (hid : s.id = id) (hsub : es.Sublist s.ackPending) (hC : ∀ e ∈ es, C e) :
    P (es.foldl (OutStream.sweepEntry nowMs) s) := by
  induction es generalizing s with
  | nil => exact h
  | cons e es ih =>
    obtain ⟨hid', hmax', hpending⟩ := sweepEntry_frame nowMs s e
    apply ih
    · exact hturn s e h hmax hid (hsub.subset List.mem_cons_self) (hC e List.mem_cons_self)
    · exact hmax'.trans hmax
    · exact hid'.trans hid
    · rcases hpending with hpending | hpending
      · rw [hpending]
        exact (List.sublist_cons_self e es).trans hsub
      · have herased := hsub.erase e
        rw [List.erase_cons_head] at herased
        rw [hpending]
        exact herased
    · exact fun e' he' => hC e' (List.mem_cons_of_mem e he')

theorem balanced_sweep (h : TxBalanced s) (nowMs : UInt32) : TxBalanced (s.sweep nowMs) :=
  sweepLoop_keeps (C := fun _ => True) (fun _ _ hs _ _ hwaiting _ => balanced_sweepEntry hs nowMs hwaiting) h rfl rfl
    (List.Sublist.refl _) fun _ _ => trivial

theorem StreamSound.sweep {nowMs : UInt32} (h : StreamSound received tags a s)
    (hreceived : ∀ e ∈ s.ackPending, OutStream.expired nowMs e = true → e.seq ≤ s.maxAckSeq →
      e.serial ∈ receivedPackets received a s.id) : StreamSound received tags a (s.sweep nowMs) := by
  apply sweepLoop_keeps (P := StreamSound received tags a) _ h rfl rfl (List.Sublist.refl _) hreceived
  intro s' e hs hmax hid hwaiting hC
  rw [← hmax, ← hid] at hC
  exact hs.sweepEntry hwaiting hC

theorem sweep_id (nowMs : UInt32) (s : OutStream) : (s.sweep nowMs).id = s.id := by
  have hloop : ∀ es : List PendingAck, (es.foldl (OutStream.sweepEntry nowMs) s).id = s.id := by
    intro es
    induction es using List.reverseRecOn with
    | nil => rfl
    | append_singleton es e ih =>
      rw [List.foldl_append, List.foldl_cons, List.foldl_nil, (sweepEntry_frame nowMs _ e).1, ih]
  exact hloop s.ackPending

theorem onAck_id (nowMs seq : UInt32) (s : OutStream) : (s.onAck nowMs seq).id = s.id := by
  rw [OutStream.onAck]
  dsimp only
  split <;> rfl

/-! ### One node -/

structure UeSound (received tags : List MediaTag) (a : Imsi) (u : MediaUe) : Prop where
  imsi : u.imsi = a
  below : ∀ s ∈ u.outStreams, s.id < u.nextStream
  tagsBelow : ∀ t ∈ tags, t.owner = a → t.stream < u.nextStream
  nodup : (u.outStreams.map OutStream.id).Nodup
  streams : ∀ s ∈ u.outStreams, StreamSound received tags a s

variable {u u' : MediaUe}

theorem UeSound.mono (h : UeSound received tags a u) (hreceived : received ⊆ received')
    (htags : ∀ t ∈ tags', t.owner = a → t ∈ tags) : UeSound received' tags' a u where
  imsi := h.imsi
  below := h.below
  tagsBelow := fun t ht howner => h.tagsBelow t (htags t ht howner) howner
  nodup := h.nodup
  streams := fun s hs => (h.streams s hs).mono hreceived fun t ht howner _ => htags t ht howner

theorem UeSound.shrink (h : UeSound received tags a u) (himsi : u'.imsi = u.imsi) (hnext : u'.nextStream = u.nextStream)
    (hsub : u'.outStreams.Sublist u.outStreams) : UeSound received tags a u' where
  imsi := himsi.trans h.imsi
  below := fun s hs => hnext ▸ h.below s (hsub.subset hs)
  tagsBelow := fun t ht howner => hnext ▸ h.tagsBelow t ht howner
  nodup := h.nodup.sublist (hsub.map _)
  streams := fun s hs => h.streams s (hsub.subset hs)

/-- The streams of `u'` are those of `u`, or one more that is new. -/
def Opens (u u' : MediaUe) : Prop :=
  u'.imsi = u.imsi ∧ (u'.outStreams = u.outStreams ∧ u'.nextStream = u.nextStream ∨
    ∃ kind peer confId, u'.outStreams = u.outStreams ++
      [{ kind := kind, peer := peer, confId := confId, id := u.nextStream }] ∧ u'.nextStream = u.nextStream + 1)

/-- A stream that is opened has nothing to account for. -/
theorem UeSound.opens (h : UeSound received tags a u) (hopens : Opens u u') : UeSound received tags a u' := by
  obtain ⟨himsi, ⟨hstreams, hnext⟩ | ⟨kind, peer, confId, hstreams, hnext⟩⟩ := hopens
  · exact h.shrink himsi hnext (hstreams ▸ List.Sublist.refl _)
  constructor
  · exact himsi.trans h.imsi
  · intro s hs
    rw [hstreams] at hs
    rw [hnext]
    rcases List.mem_append.mp hs with hs | hs
    · exact Nat.lt_succ_of_lt (h.below s hs)
    · rw [List.mem_singleton.mp hs]
      exact Nat.lt_succ_self _
  · intro t ht howner
    rw [hnext]
    exact Nat.lt_succ_of_lt (h.tagsBelow t ht howner)
  · rw [hstreams, List.map_append, List.map_singleton, List.nodup_append]
    refine ⟨h.nodup, List.nodup_singleton _, fun id hid id' hid' heq => ?_⟩
    obtain ⟨s, hs, rfl⟩ := List.mem_map.mp hid
    rw [List.mem_singleton.mp hid'] at heq
    exact absurd heq (Nat.ne_of_lt (h.below s hs))
  · intro s hs
    rw [hstreams] at hs
    rcases List.mem_append.mp hs with hs | hs
    · exact h.streams s hs
    · rw [List.mem_singleton.mp hs]
      exact streamSound_new kind peer confId fun t ht howner => Nat.ne_of_lt (h.tagsBelow t ht howner)

/-- One stream in a later state; the tags may be one more of it. -/
theorem UeSound.set (h : UeSound received tags a u) {i : Nat} (hi : u.outStreams[i]? = some s) (hid : s'.id = s.id)
    (hs' : StreamSound received tags' a s')
    (htags : ∀ t ∈ tags', t.owner = a → t ∈ tags ∨ t.stream = s.id) :
    UeSound received tags' a { u with outStreams := u.outStreams.set i s' } := by
  have hmem : s ∈ u.outStreams := List.mem_of_getElem? hi
  have hids : (u.outStreams.set i s').map OutStream.id = u.outStreams.map OutStream.id :=
    Keyed.map_key_set hi hid
  constructor
  · exact h.imsi
  · intro x hx
    have hx' : x.id ∈ (u.outStreams.set i s').map OutStream.id := List.mem_map_of_mem hx
    rw [hids] at hx'
    obtain ⟨y, hy, hyx⟩ := List.mem_map.mp hx'
    rw [← hyx]
    exact h.below y hy
  · intro t ht howner
    rcases htags t ht howner with hold | hstream
    · exact h.tagsBelow t hold howner
    · rw [hstream]
      exact h.below s hmem
  · rw [hids]
    exact h.nodup
  · intro x hx
    obtain ⟨pre, post, hsplit, -, hset⟩ := Keyed.exists_split hi
    have hdistinct := h.nodup
    rw [hsplit] at hdistinct
    obtain ⟨hpre, hpost, -⟩ := Keyed.nodup_split hdistinct
    rw [hset, List.mem_append, List.mem_cons] at hx
    -- another stream, whose name no new tag carries
    have hother : x ∈ u.outStreams → x.id ≠ s.id → StreamSound received tags' a x := by
      intro hxmem hne
      apply (h.streams x hxmem).mono (List.Subset.refl _)
      intro t ht howner hstream
      exact (htags t ht howner).resolve_right fun hs => hne (hstream.symm.trans hs)
    rcases hx with hx | rfl | hx
    · exact hother (hsplit ▸ List.mem_append_left _ hx) (hpre x hx)
    · exact hs'
    · exact hother (hsplit ▸ List.mem_append_right _ (List.mem_cons_of_mem _ hx)) (hpost x hx)

theorem UeSound.sweepStreamAcks (h : UeSound received tags a u) (hlost : NoneLostBelow received u) :
    UeSound received tags a u.sweepStreamAcks := by
  have hids : (u.outStreams.map (OutStream.sweep u.nowMs)).map OutStream.id = u.outStreams.map OutStream.id := by
    rw [List.map_map]
    exact List.map_congr_left fun s _ => sweep_id u.nowMs s
  constructor
  · exact h.imsi
  · intro s hs
    obtain ⟨s, hmem, rfl⟩ := List.mem_map.mp hs
    rw [sweep_id]
    exact h.below s hmem
  · exact h.tagsBelow
  · rw [MediaUe.sweepStreamAcks, hids]
    exact h.nodup
  · intro s hs
    obtain ⟨s, hmem, rfl⟩ := List.mem_map.mp hs
    apply (h.streams s hmem).sweep
    have hstream := hlost s hmem
    rw [h.imsi] at hstream
    exact hstream

/-! ### What a node does to its streams -/

theorem opens_of_same (himsi : u'.imsi = u.imsi) (hstreams : u'.outStreams = u.outStreams)
    (hnext : u'.nextStream = u.nextStream) : Opens u u' :=
  ⟨himsi, .inl ⟨hstreams, hnext⟩⟩

theorem pushOut_opens (u : MediaUe) (kind : MediaKind) (peer : Imsi) (confId : Nat) :
    Opens u (u.pushOut kind peer confId) :=
  ⟨rfl, .inr ⟨kind, peer, confId, rfl, rfl⟩⟩

theorem ensureConfMedia_opens (u : MediaUe) (confId : Nat) : Opens u (u.ensureConfMedia confId) := by
  rw [MediaUe.ensureConfMedia]
  split
  · exact opens_of_same rfl rfl rfl
  · exact pushOut_opens u _ _ _

theorem beginMedia_opens (u : MediaUe) (d : MediaDialog) : Opens u (u.beginMedia d) := by
  rw [MediaUe.beginMedia]
  split
  · exact ensureConfMedia_opens u _
  · exact pushOut_opens u _ _ _

theorem openInStream_opens (u : MediaUe) (i : Nat) (pkt : U2uPacket) : Opens u (u.openInStream i pkt) := by
  rw [MediaUe.openInStream]
  dsimp only
  split
  · exact opens_of_same rfl rfl rfl
  · rename_i d _
    split
    · exact opens_of_same rfl rfl rfl
    · split
      · exact ensureConfMedia_opens _ d.confId
      · exact opens_of_same rfl rfl rfl

theorem acceptMedia_opens (u : MediaUe) (i : Nat) (pkt : U2uPacket) : Opens u (u.acceptMedia i pkt).1 := by
  rw [MediaUe.acceptMedia]
  dsimp only
  split
  · exact opens_of_same rfl rfl rfl
  · exact openInStream_opens u i pkt

theorem eraseStreams_sublist (u : MediaUe) (d : MediaDialog) :
    (u.eraseStreams d).outStreams.Sublist u.outStreams := List.filter_sublist

/-- A packet is an ack for a stream, or it at most opens one. -/
theorem handleU2u_cases (u : MediaUe) (pkt : U2uPacket) :
    (pkt.ack = true ∧ ∃ i ∈ u.ackedStream pkt, (u.handleU2u pkt).1 = { u with
        outStreams := u.outStreams.modify i fun s => s.onAck u.nowMs (UInt32.ofNat pkt.seq) }) ∨
      Opens u (u.handleU2u pkt).1 := by
  have hsame : Opens u u := opens_of_same rfl rfl rfl
  rw [MediaUe.handleU2u]
  by_cases hown : pkt.srcImsi = u.imsi
  · rw [if_pos hown]
    exact .inr hsame
  rw [if_neg hown]
  by_cases hack : pkt.ack = true
  · rw [if_pos hack]
    cases hstream : u.ackedStream pkt with
    | none => exact .inr hsame
    | some i => exact .inl ⟨hack, i, rfl, rfl⟩
  rw [if_neg hack]
  by_cases hending : pkt.ending = true
  · rw [if_pos hending]
    cases u.findInStream pkt.srcImsi pkt.kind 0 with
    | none => exact .inr hsame
    | some i => exact .inr (opens_of_same rfl rfl rfl)
  rw [if_neg hending]
  by_cases hkind : pkt.kind = .msg ∨ pkt.kind = .sig
  · rw [if_pos hkind]
    exact .inr hsame
  rw [if_neg hkind]
  cases (if pkt.confId ≠ 0 then u.findConfDialog pkt.confId else u.findMediaDialog pkt.srcImsi pkt.kind) with
  | none => exact .inr hsame
  | some i => exact .inr (acceptMedia_opens u i pkt)

/-- An ack that answers the packet that waits. -/
theorem UeSound.handleAck (h : UeSound received tags a u) {f : Flight} {i : Nat} (hi : i ∈ u.ackedStream f.pkt)
    (hack : f.pkt.ack = true) (hanswers : Answers u f) (hreceived : f.tag ∈ received) :
    UeSound received tags a { u with
      outStreams := u.outStreams.modify i fun s => s.onAck u.nowMs (UInt32.ofNat f.pkt.seq) } := by
  cases hs : u.outStreams[i]? with
  | none =>
    rw [List.modify_eq_self (List.getElem?_eq_none_iff.mp hs)]
    exact h
  | some s =>
    have hset : u.outStreams.modify i (fun s => s.onAck u.nowMs (UInt32.ofNat f.pkt.seq)) =
        u.outStreams.set i (s.onAck u.nowMs (UInt32.ofNat f.pkt.seq)) := by
      rw [List.modify_eq_set_getElem?, hs]
      rfl
    rw [hset]
    apply h.set hs (onAck_id _ _ s)
    · apply (h.streams s (List.mem_of_getElem? hs)).onAck
      intro e he
      have htag := hanswers hack i hi s hs e he
      rw [h.imsi] at htag
      rw [mem_receivedPackets, ← htag]
      exact hreceived
    · exact fun t ht _ => .inl ht

/-! ### The net -/

structure NetSound (net : MediaNet) : Prop where
  ues : ∀ a, UeSound net.received (net.received ++ net.wire.map Flight.tag) a (net.ue a)
  acks : ∀ f ∈ net.wire, f.pkt.ack = true → f.tag ∈ net.received

theorem netSound_start : NetSound {} where
  ues := fun a => by
    constructor
    · rfl
    · simp
    · simp
    · exact List.nodup_nil
    · simp
  acks := by simp

variable {net net' : MediaNet}

/-- One node in a later state; nobody else's packets are new on the wire. -/
theorem NetSound.change (h : NetSound net) (hue : net'.ue = Function.update net.ue a u)
    (hreceived : net.received ⊆ net'.received)
    (hu : UeSound net'.received (net'.received ++ net'.wire.map Flight.tag) a u)
    (htags : ∀ t ∈ net'.received ++ net'.wire.map Flight.tag,
      t ∈ net.received ++ net.wire.map Flight.tag ∨ t.owner = a)
    (hacks : ∀ f ∈ net'.wire, f.pkt.ack = true → f.tag ∈ net'.received) : NetSound net' := by
  refine ⟨fun b => ?_, hacks⟩
  rw [hue]
  by_cases hb : b = a
  · rw [hb, Function.update_self]
    exact hu
  · rw [Function.update_of_ne hb]
    apply (h.ues b).mono hreceived
    intro t ht howner
    exact (htags t ht).resolve_right fun ha => hb (howner.symm.trans ha)

/-- A step inside one node. -/
theorem NetSound.setUe (h : NetSound net)
    (hu : UeSound net.received (net.received ++ net.wire.map Flight.tag) a u) : NetSound (net.setUe a u) :=
  h.change rfl (List.Subset.refl _) hu (fun _ ht => .inl ht) h.acks

/-- The flights a tick adds. -/
theorem mem_tick_wire {i : Nat} (hs : (net.ue a).outStreams[i]? = some s) {members : List Imsi} {f : Flight}
    (hf : f ∈ (net.tick a (some i) members).wire) :
    f ∈ net.wire ∨ f.pkt.ack = false ∧ f.tag = ⟨a, s.id, s.sent + 1⟩ := by
  rw [MediaNet.tick, Option.bind_some, hs] at hf
  dsimp only [MediaUe.sendMediaTick, Option.bind_some] at hf
  rw [hs] at hf
  rcases List.mem_append.mp hf with hf | hf
  · exact .inl hf
  · rw [Option.map_some, Option.toList_some, List.flatMap_singleton] at hf
    obtain ⟨dst, -, rfl⟩ := List.mem_map.mp hf
    exact .inr ⟨rfl, rfl⟩

theorem tick_ue {i : Nat} (hs : (net.ue a).outStreams[i]? = some s) (members : List Imsi) :
    (net.tick a (some i) members).ue = Function.update net.ue a
        { net.ue a with outStreams := (net.ue a).outStreams.set i (s.sendTick (net.ue a).nowMs) } ∧
      (net.tick a (some i) members).received = net.received := by
  rw [MediaNet.tick, Option.bind_some, hs]
  dsimp only [MediaUe.sendMediaTick, Option.bind_some]
  rw [hs]
  exact ⟨rfl, rfl⟩

/-- A tick sends one new packet, which nobody has received. -/
theorem NetSound.tick (h : NetSound net) (target : Option Nat) (members : List Imsi)
    (hfresh : FreshNumber (net.ue a) target) : NetSound (net.tick a target members) := by
  cases target with
  | none => exact h
  | some i =>
    cases hs : (net.ue a).outStreams[i]? with
    | none =>
      rw [MediaNet.tick, Option.bind_some, hs]
      exact h
    | some s =>
      obtain ⟨hue, hreceived⟩ := tick_ue hs members
      have htags : ∀ t ∈ (net.tick a (some i) members).received ++ (net.tick a (some i) members).wire.map Flight.tag,
          t ∈ net.received ++ net.wire.map Flight.tag ∨ t = ⟨a, s.id, s.sent + 1⟩ := by
        intro t ht
        rw [hreceived] at ht
        rcases List.mem_append.mp ht with ht | ht
        · exact .inl (List.mem_append_left _ ht)
        · obtain ⟨f, hf, rfl⟩ := List.mem_map.mp ht
          rcases mem_tick_wire hs hf with hold | ⟨-, htag⟩
          · exact .inl (List.mem_append_right _ (List.mem_map_of_mem hold))
          · exact .inr htag
      have hstream := (h.ues a).streams s (List.mem_of_getElem? hs)
      apply h.change hue (fun t ht => hreceived ▸ ht)
      · have hid : (s.sendTick (net.ue a).nowMs).id = s.id := rfl
        rw [hreceived] at htags ⊢
        apply (h.ues a).set hs hid
        · apply hstream.sendTick (List.subset_append_left _ _) (hfresh i rfl s hs)
          intro t ht _ _
          exact (htags t ht).imp_right fun heq => congrArg MediaTag.serial heq
        · intro t ht _
          exact (htags t ht).imp_right fun heq => congrArg MediaTag.stream heq
      · exact fun t ht => (htags t ht).imp_right fun heq => congrArg MediaTag.owner heq
      · intro f hf hack
        rw [hreceived]
        rcases mem_tick_wire hs hf with hold | ⟨hmedia, -⟩
        · exact h.acks f hold hack
        · rw [hmedia] at hack
          cases hack

theorem NetSound.lose (h : NetSound net) (i : Nat) : NetSound { net with wire := net.wire.eraseIdx i } where
  ues := fun a => by
    apply (h.ues a).mono (List.Subset.refl _)
    intro t ht _
    rcases List.mem_append.mp ht with ht | ht
    · exact List.mem_append_left _ ht
    · exact List.mem_append_right _ (((List.eraseIdx_sublist net.wire i).map Flight.tag).subset ht)
  acks := fun f hf hack => h.acks f ((List.eraseIdx_sublist net.wire i).subset hf) hack

/-- A delivery is received by its addressee, whose ack carries the same tag. -/
theorem NetSound.deliver (h : NetSound net) {src dst : Imsi} {kind : MediaKind} {f : Flight}
    (hf : net.next src dst kind = some f) (hanswers : Answers (net.ue dst) f) :
    NetSound (net.deliver src dst kind f) := by
  have hwire : f ∈ net.wire := List.mem_of_find?_eq_some hf
  have htag : f.tag ∈ net.received ++ net.wire.map Flight.tag :=
    List.mem_append_right _ (List.mem_map_of_mem hwire)
  have hnode : UeSound net.received (net.received ++ net.wire.map Flight.tag) dst ((net.ue dst).handleU2u f.pkt).1 := by
    obtain ⟨hack, i, hi, hu⟩ | hopens := handleU2u_cases (net.ue dst) f.pkt
    · rw [hu]
      exact (h.ues dst).handleAck hi hack hanswers (h.acks f hwire hack)
    · exact (h.ues dst).opens hopens
  have hreceived : net.received ⊆ (net.deliver src dst kind f).received := by
    intro t ht
    rw [MediaNet.deliver]
    dsimp only
    split
    · exact List.mem_cons_of_mem _ ht
    · exact ht
  have hflights : ∀ g ∈ (net.deliver src dst kind f).wire,
      g ∈ net.wire ∨ g.tag = f.tag ∧ f.tag ∈ (net.deliver src dst kind f).received := by
    intro g hg
    rcases List.mem_append.mp hg with hg | hg
    · exact .inl (List.eraseP_subset hg)
    · obtain ⟨ack, hack, rfl⟩ := List.mem_map.mp hg
      have hsome : ((net.ue dst).handleU2u f.pkt).2.isSome = true := by
        rw [Option.mem_toList.mp hack]
        rfl
      refine .inr ⟨rfl, ?_⟩
      rw [MediaNet.deliver]
      dsimp only
      rw [if_pos hsome]
      exact List.mem_cons_self
  have htags : ∀ t ∈ (net.deliver src dst kind f).received ++ (net.deliver src dst kind f).wire.map Flight.tag,
      t ∈ net.received ++ net.wire.map Flight.tag := by
    intro t ht
    rcases List.mem_append.mp ht with ht | ht
    · rw [MediaNet.deliver] at ht
      dsimp only at ht
      split at ht
      · rcases List.mem_cons.mp ht with rfl | ht
        · exact htag
        · exact List.mem_append_left _ ht
      · exact List.mem_append_left _ ht
    · obtain ⟨g, hg, rfl⟩ := List.mem_map.mp ht
      rcases hflights g hg with hold | ⟨heq, -⟩
      · exact List.mem_append_right _ (List.mem_map_of_mem hold)
      · rw [heq]
        exact htag
  apply h.change rfl hreceived (hnode.mono hreceived fun t ht _ => htags t ht) (fun t ht => .inl (htags t ht))
  intro g hg hack
  rcases hflights g hg with hold | ⟨heq, hnew⟩
  · exact hreceived (h.acks g hold hack)
  · rw [heq]
    exact hnew

/-- Step lemma under the condition. -/
theorem NetSound.step (h : NetSound net) {event : MediaEvent} (hcond : AcksTrue net event)
    (hstep : net.step event = some net') : NetSound net' := by
  cases event with
  | clock a nowMs =>
    obtain rfl := Option.some.inj hstep
    exact h.setUe ((h.ues a).opens (opens_of_same rfl rfl rfl))
  | dialogs a dialogs =>
    obtain rfl := Option.some.inj hstep
    exact h.setUe ((h.ues a).opens (opens_of_same rfl rfl rfl))
  | beginMedia a d =>
    obtain rfl := Option.some.inj hstep
    exact h.setUe ((h.ues a).opens (beginMedia_opens _ d))
  | ensureConfMedia a confId =>
    obtain rfl := Option.some.inj hstep
    exact h.setUe ((h.ues a).opens (ensureConfMedia_opens _ confId))
  | eraseStreams a d =>
    obtain rfl := Option.some.inj hstep
    exact h.setUe ((h.ues a).shrink rfl rfl (eraseStreams_sublist _ d))
  | tick a peer kind =>
    obtain rfl := Option.some.inj hstep
    exact h.tick _ _ hcond
  | confTick a confId members =>
    obtain rfl := Option.some.inj hstep
    exact h.tick _ _ hcond
  | sweep a =>
    obtain rfl := Option.some.inj hstep
    exact h.setUe ((h.ues a).sweepStreamAcks hcond)
  | lose i =>
    obtain rfl := Option.some.inj hstep
    exact h.lose i
  | deliver src dst kind =>
    obtain ⟨f, hf, rfl⟩ := Option.map_eq_some_iff.mp hstep
    exact h.deliver hf (hcond f hf)

/-! ### The sum alone -/

/-- What a modified list has is old or the one that was modified. -/
theorem mem_modify {α : Type*} {l : List α} {i : Nat} {f : α → α} {x : α} (h : x ∈ l.modify i f) :
    (∃ y ∈ l, x = f y) ∨ x ∈ l := by
  rw [List.modify_eq_set_getElem?] at h
  cases hi : l[i]? with
  | none =>
    rw [hi] at h
    exact .inr h
  | some y =>
    rw [hi] at h
    rcases List.mem_or_eq_of_mem_set h with h | rfl
    · exact .inr h
    · exact .inl ⟨y, List.mem_of_getElem? hi, rfl⟩

/-- Every outgoing stream of every node. -/
def StreamsBalanced (net : MediaNet) : Prop := ∀ a, ∀ s ∈ (net.ue a).outStreams, TxBalanced s

/-- One UE changes, and its streams are balanced. -/
theorem StreamsBalanced.change (h : StreamsBalanced net) (hue : net'.ue = Function.update net.ue a u)
    (hu : ∀ s ∈ u.outStreams, TxBalanced s) : StreamsBalanced net' := by
  intro b
  rw [hue]
  by_cases hb : b = a
  · rw [hb, Function.update_self]
    exact hu
  · rw [Function.update_of_ne hb]
    exact h b

theorem balanced_opens (h : ∀ s ∈ u.outStreams, TxBalanced s) (hopens : Opens u u') :
    ∀ s ∈ u'.outStreams, TxBalanced s := by
  obtain ⟨-, ⟨hstreams, -⟩ | ⟨kind, peer, confId, hstreams, -⟩⟩ := hopens
  · rw [hstreams]
    exact h
  · rw [hstreams]
    intro s hs
    rcases List.mem_append.mp hs with hs | hs
    · exact h s hs
    · rw [List.mem_singleton.mp hs]
      rfl

theorem StreamsBalanced.tick (h : StreamsBalanced net) (target : Option Nat) (members : List Imsi)
    (hfresh : FreshNumber (net.ue a) target) : StreamsBalanced (net.tick a target members) := by
  cases target with
  | none => exact h
  | some i =>
    cases hs : (net.ue a).outStreams[i]? with
    | none =>
      rw [MediaNet.tick, Option.bind_some, hs]
      exact h
    | some s =>
      apply h.change (tick_ue hs members).1
      intro x hx
      rcases List.mem_or_eq_of_mem_set hx with hx | rfl
      · exact h a x hx
      · exact balanced_sendTick (h a s (List.mem_of_getElem? hs)) (hfresh i rfl s hs) _

theorem balanced_handleU2u (h : ∀ s ∈ u.outStreams, TxBalanced s) (pkt : U2uPacket) :
    ∀ s ∈ (u.handleU2u pkt).1.outStreams, TxBalanced s := by
  obtain ⟨-, i, -, hu⟩ | hopens := handleU2u_cases u pkt
  · rw [hu]
    intro s hs
    obtain ⟨x, hx, heq⟩ | hs := mem_modify hs
    · rw [heq]
      exact balanced_onAck (h x hx) _ _
    · exact h s hs
  · exact balanced_opens h hopens

/-- Step lemma: only a number that still waits can upset the balance. -/
theorem StreamsBalanced.step (h : StreamsBalanced net) {event : MediaEvent} (hcond : NumbersFresh net event)
    (hstep : net.step event = some net') : StreamsBalanced net' := by
  cases event with
  | clock a nowMs =>
    obtain rfl := Option.some.inj hstep
    exact h.change rfl (h a)
  | dialogs a dialogs =>
    obtain rfl := Option.some.inj hstep
    exact h.change rfl (h a)
  | beginMedia a d =>
    obtain rfl := Option.some.inj hstep
    exact h.change rfl (balanced_opens (h a) (beginMedia_opens _ d))
  | ensureConfMedia a confId =>
    obtain rfl := Option.some.inj hstep
    exact h.change rfl (balanced_opens (h a) (ensureConfMedia_opens _ confId))
  | eraseStreams a d =>
    obtain rfl := Option.some.inj hstep
    exact h.change rfl fun s hs => h a s ((eraseStreams_sublist _ d).subset hs)
  | tick a peer kind =>
    obtain rfl := Option.some.inj hstep
    exact h.tick _ _ hcond
  | confTick a confId members =>
    obtain rfl := Option.some.inj hstep
    exact h.tick _ _ hcond
  | sweep a =>
    obtain rfl := Option.some.inj hstep
    apply h.change rfl
    intro s hs
    obtain ⟨x, hx, rfl⟩ := List.mem_map.mp hs
    exact balanced_sweep (h a x hx) _
  | lose i =>
    obtain rfl := Option.some.inj hstep
    exact h
  | deliver src dst kind =>
    obtain ⟨f, -, rfl⟩ := Option.map_eq_some_iff.mp hstep
    exact h.change rfl (balanced_handleU2u (h dst) f.pkt)

theorem NetSound.accounted (h : NetSound net) : Accounted net := by
  intro a s hs
  have hsound := (h.ues a).streams s hs
  exact ⟨hsound.balance, hsound.honest.le⟩

end MediaAcks

open MediaAcks

/-- In every run whose acks and sweeps tell the truth, all along it: what was sent is acknowledged,
lost or waiting, and no more is acknowledged than somebody received. -/
theorem media_acks_accounted {events : List MediaEvent}
    (h : StepsMeet MediaNet.step MediaNet.AcksTrue {} events) : Always MediaNet.step MediaNet.Accounted {} events :=
  always_of_meets NetSound (fun _ => NetSound.accounted) (fun _ _ _ hs hcond hstep => hs.step hcond hstep)
    netSound_start h

/-- A voice call of [1] with [2]. -/
def voiceCall : List MediaEvent :=
  [.dialogs [1] [{ peer := [2], kind := .voice, established := true }],
    .dialogs [2] [{ peer := [1], kind := .voice, established := true }],
    .beginMedia [1] { peer := [2], kind := .voice, established := true }]

/-- The ack of the first packet is lost and the one of the second is not. -/
def ackLost : List MediaEvent :=
  voiceCall ++ [.tick [1] [2] .voice, .tick [1] [2] .voice, .deliver [1] [2] .voice, .deliver [1] [2] .voice, .lose 0,
    .deliver [2] [1] .voice, .clock [1] 3000, .sweep [1]]

theorem media_acks_accounted_ackLost : Always MediaNet.step MediaNet.Accounted {} ackLost ∧
    (runFrom MediaNet.step {} ackLost).map (fun net => (net.ue [1]).outStreams.map OutStream.rxAck) = some [2] :=
  ⟨media_acks_accounted (by decide), by decide⟩

/-- The first packet is lost, the second one is not. -/
def packetLost : List MediaEvent :=
  voiceCall ++ [.tick [1] [2] .voice, .lose 0, .tick [1] [2] .voice, .deliver [1] [2] .voice, .deliver [2] [1] .voice,
    .clock [1] 3000, .sweep [1]]

/-- Two packets are acknowledged and one was received. -/
theorem media_acks_accounted_packetLost : ∃ net, runFrom MediaNet.step {} packetLost = some net ∧
    (net.ue [1]).outStreams.map (fun s => (s.tx, s.rxAck, s.loss)) = [(2, 2, 0)] ∧
    (MediaNet.receivedPackets net.received [1] 0).card = 1 ∧ ¬ MediaNet.Accounted net := by
  refine ⟨_, rfl, by decide, by decide, fun h => ?_⟩
  have hstreams := h [1]
  revert hstreams
  decide

/-- The sum alone needs no more than that no number is used while it waits: whatever is lost and
whoever acks, what was sent is acknowledged, lost or waiting. -/
theorem media_streams_balanced {events : List MediaEvent}
    (h : StepsMeet MediaNet.step MediaNet.NumbersFresh {} events) : Always MediaNet.step StreamsBalanced {} events := by
  apply always_of_meets StreamsBalanced (fun _ hnet => hnet) (fun _ _ _ hnet hcond hstep => hnet.step hcond hstep) _ h
  intro a s hs
  cases hs

/-- The sum holds where one packet was received and two are acknowledged. -/
theorem media_streams_balanced_packetLost : Always MediaNet.step StreamsBalanced {} packetLost :=
  media_streams_balanced (by decide)

/-- An ack of the call before counts for the first packet of this one, which was lost. -/
example : (runFrom MediaNet.step {} (voiceCall ++ [.tick [1] [2] .voice, .deliver [1] [2] .voice,
      .eraseStreams [1] { peer := [2], kind := .voice }, .beginMedia [1] { peer := [2], kind := .voice },
      .tick [1] [2] .voice, .lose 1, .deliver [2] [1] .voice])).map (fun net =>
    ((net.ue [1]).outStreams.map OutStream.rxAck, (MediaNet.receivedPackets net.received [1] 1).card)) =
      some ([1], 0) := by
  decide

end AetherStack.Guarantees
