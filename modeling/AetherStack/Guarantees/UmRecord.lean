import AetherStack.Guarantees.UmLink
import AetherStack.Source.RlcUmInOrder

/-!
# A UM bearer and what was given to it, for runs of any length

`UmRecord` is the link of `UmLink` with two records that the code does not keep: the SDUs
given to `UmTx::tx`, and the indices of the PDUs the channel handed to `UmRx::rx`, in that
order. `Numbered` is the transmitter's half of the invariant without a bound on the number
of PDUs: the PDU with index `i` carries segment `i` and the low 16 bits of `i`.
-/
namespace AetherStack.Guarantees
open Source Lib

structure UmRecord where
  link : UmLink
  given : List Bytes := []
  received : List Nat := []
  deriving DecidableEq

namespace UmRecord

def init (tx : UmTx) (rx : UmRx) : UmRecord := { link := UmLink.init tx rx }

/-- The record of one event. -/
def note (s : UmRecord) (link : UmLink) : UmEvent → UmRecord
  | .send sdu => { link := link, given := s.given ++ [sdu], received := s.received }
  | .rxData _ index => { link := link, given := s.given, received := s.received ++ [index] }
  | .tick _ => { s with link := link }
  | .poll => { s with link := link }

def step (s : UmRecord) (e : UmEvent) : Option UmRecord :=
  (s.link.step e).map fun link => s.note link e

/-- The PDU payload limit; no event changes the configuration. -/
def limit (s : UmRecord) : Nat := s.link.tx.cfg.maxPduPayload

/-- What one event does, and when it can happen. -/
theorem step_cases {s s' : UmRecord} {e : UmEvent} (h : s.step e = some s') :
    (∃ sdu, e = .send sdu ∧ s' = { s with
      link := { s.link with
        tx := (s.link.tx.tx sdu).1
        dataSent := s.link.dataSent ++ (s.link.tx.tx sdu).2
        accepted := if (s.link.tx.tx sdu).2 = [] then s.link.accepted
          else s.link.accepted ++ [sdu] }
      given := s.given ++ [sdu] }) ∨
    (∃ nowMs index pdu, e = .rxData nowMs index ∧ s.link.dataSent[index]? = some pdu ∧
      s' = { s with
        link := { s.link with rx := s.link.rx.rx nowMs pdu }
        received := s.received ++ [index] }) ∨
    (∃ nowMs, e = .tick nowMs ∧
      s' = { s with link := { s.link with rx := s.link.rx.tick nowMs } }) ∨
    (e = .poll ∧ s' = { s with link := { s.link with
      rx := s.link.rx.poll.1, polled := s.link.polled ++ s.link.rx.poll.2 } }) := by
  obtain ⟨link, hlink, rfl⟩ := Option.map_eq_some_iff.mp h
  cases e with
  | send sdu => exact .inl ⟨sdu, rfl, by rw [← Option.some.inj hlink]; rfl⟩
  | rxData nowMs index =>
    obtain ⟨pdu, hpdu, hs'⟩ := Option.bind_eq_some_iff.mp hlink
    exact .inr (.inl ⟨nowMs, index, pdu, rfl, hpdu, by rw [← Option.some.inj hs']; rfl⟩)
  | tick nowMs => exact .inr (.inr (.inl ⟨nowMs, rfl, by rw [← Option.some.inj hlink]; rfl⟩))
  | poll => exact .inr (.inr (.inr ⟨rfl, by rw [← Option.some.inj hlink]; rfl⟩))

/-! ## The transmitter's half -/

/-- The SDUs that `tx` cuts into segments. -/
def segmented (maxp : Nat) (given : List Bytes) : List Bytes :=
  given.filter fun sdu => 0 < segmentCount sdu.length maxp

structure Numbered (maxp : Nat) (s : UmRecord) : Prop where
  limit : s.limit = maxp
  next : s.link.tx.nextSn = s.link.dataSent.length % snModulus
  accepted : s.link.accepted = segmented maxp s.given
  count : s.link.dataSent.length = (segmentsOf maxp s.link.accepted).length
  genuine : ∀ (i : Nat) (pdu : Bytes), s.link.dataSent[i]? = some pdu →
    ∃ seg, (segmentsOf maxp s.link.accepted)[i]? = some seg ∧ pdu = UmTx.buildPdu i seg.1 seg.2

theorem numbered_init (tx : UmTx) (rx : UmRx) :
    Numbered tx.cfg.maxPduPayload (init tx rx) where
  limit := rfl
  next := rfl
  accepted := rfl
  count := rfl
  genuine := by simp [init, UmLink.init]

variable {maxp : Nat} {s s' : UmRecord} {e : UmEvent}

/-- Everything accepted was cut into segments. -/
theorem Numbered.allSegmented (h : Numbered maxp s) : AllSegmented maxp s.link.accepted := by
  intro sdu hsdu
  rw [h.accepted] at hsdu
  simpa using (List.mem_filter.mp hsdu).2

theorem accepted_mono (s : UmRecord) (sdu : Bytes) :
    s.link.accepted <+: if (s.link.tx.tx sdu).2 = [] then s.link.accepted
      else s.link.accepted ++ [sdu] := by
  split
  · exact List.prefix_refl _
  · exact List.prefix_append _ _

/-- New PDUs are numbered on from the last one, also through the wrap. -/
theorem send_numbered (h : Numbered maxp s) (sdu : Bytes) :
    Numbered maxp { s with
      link := { s.link with
        tx := (s.link.tx.tx sdu).1
        dataSent := s.link.dataSent ++ (s.link.tx.tx sdu).2
        accepted := if (s.link.tx.tx sdu).2 = [] then s.link.accepted
          else s.link.accepted ++ [sdu] }
      given := s.given ++ [sdu] } := by
  have hlimit : s.link.tx.cfg.maxPduPayload = maxp := h.limit
  have hlen := s.link.tx.length_tx sdu
  rw [hlimit] at hlen
  rcases s.link.tx.tx_cases sdu with hnone | ⟨htx, hne, hcount⟩
  · have hzero : segmentCount sdu.length maxp = 0 := by
      rw [← hlen, hnone]
      rfl
    simp only [hnone, List.append_nil, if_true]
    exact ⟨h.limit, h.next, by simp [h.accepted, segmented, hzero], h.count, h.genuine⟩
  · rw [hlimit] at htx hcount
    have hnext : s.link.tx.nextSn < snModulus := by
      rw [h.next]
      exact Nat.mod_lt _ (by decide)
    simp only [if_neg hne]
    refine ⟨by simpa [limit] using h.limit, ?_, ?_, ?_, ?_⟩
    · dsimp only
      rw [htx, UmTx.txSegments_nextSn _ _ hnext, List.length_append, UmTx.length_txSegments, h.next,
        Nat.mod_add_mod]
    · simp [h.accepted, segmented, hcount]
    · simp [h.count, hlen]
    · intro i pdu hpdu
      dsimp only at hpdu ⊢
      rw [segmentsOf_append, segmentsOf_singleton]
      by_cases hold : i < s.link.dataSent.length
      · rw [List.getElem?_append_left hold] at hpdu
        rw [List.getElem?_append_left (by rw [← h.count]; exact hold)]
        exact h.genuine i pdu hpdu
      · rw [List.getElem?_append_right (by omega), htx,
          UmTx.txSegments_getElem?_mod s.link.tx _ _ h.next] at hpdu
        obtain ⟨seg, hseg, rfl⟩ := Option.map_eq_some_iff.mp hpdu
        refine ⟨seg, ?_, ?_⟩
        · rw [List.getElem?_append_right (by rw [← h.count]; omega), ← h.count]
          exact hseg
        · rw [Nat.add_sub_cancel' (by omega)]

/-- Step lemma: a new PDU carries the next segment under the next number. -/
theorem step_numbered (h : Numbered maxp s) (hstep : s.step e = some s') : Numbered maxp s' := by
  rcases step_cases hstep with ⟨sdu, -, rfl⟩ | ⟨nowMs, index, pdu, -, -, rfl⟩ | ⟨nowMs, -, rfl⟩ |
    ⟨-, rfl⟩
  · exact send_numbered h sdu
  all_goals exact ⟨h.limit, h.next, h.accepted, h.count, h.genuine⟩

/-- The number of PDUs is fixed by the SDUs given. -/
theorem Numbered.dataSent_length (h : Numbered maxp s) :
    s.link.dataSent.length = (s.given.map fun sdu => segmentCount sdu.length maxp).sum := by
  rw [h.count, h.accepted]
  generalize s.given = given
  induction given with
  | nil => rfl
  | cons sdu rest ih =>
    simp only [segmented, List.filter_cons] at ih ⊢
    split
    · simp only [segmentsOf, List.flatMap_cons, List.length_append, length_segmentSdu,
        List.map_cons, List.sum_cons] at ih ⊢
      rw [ih]
    · rename_i hzero
      have hcount : segmentCount sdu.length maxp = 0 := by simpa using hzero
      rw [ih, List.map_cons, List.sum_cons, hcount, Nat.zero_add]

theorem run_numbered {tx : UmTx} {rx : UmRx} {events : List UmEvent}
    (run : runFrom step (init tx rx) events = some s) : Numbered tx.cfg.maxPduPayload s :=
  runFrom_invariant (Numbered tx.cfg.maxPduPayload) (fun _ _ _ h hstep => step_numbered h hstep)
    (numbered_init tx rx) run

/-- Sending is always possible and does not touch the receiver. -/
theorem exists_sends (given : List Bytes) (s : UmRecord) :
    ∃ t, runFrom step s (given.map .send) = some t ∧ t.given = s.given ++ given ∧
      t.received = s.received ∧ t.link.rx = s.link.rx := by
  induction given generalizing s with
  | nil => exact ⟨s, rfl, by simp, rfl, rfl⟩
  | cons sdu rest ih =>
    obtain ⟨link, hlink, hrx⟩ : ∃ link, s.link.step (.send sdu) = some link ∧
        link.rx = s.link.rx := ⟨_, rfl, rfl⟩
    have hstep : s.step (.send sdu) = some (s.note link (.send sdu)) := by
      rw [step, hlink]
      rfl
    obtain ⟨t, hrun, hgiven, hreceived, hrx'⟩ := ih (s.note link (.send sdu))
    refine ⟨t, runFrom_cons_eq_some.mpr ⟨_, hstep, hrun⟩, ?_, hreceived, hrx'.trans hrx⟩
    rw [hgiven]
    simp [note]

/-- Handing over PDUs that were sent. -/
theorem exists_receives (indices : List Nat) (s : UmRecord) (pdu : Nat → Bytes)
    (h : ∀ index ∈ indices, s.link.dataSent[index]? = some (pdu index)) :
    ∃ t, runFrom step s (indices.map (.rxData 0)) = some t ∧
      t.received = s.received ++ indices ∧
      t.link.rx = indices.foldl (fun r index => r.rx 0 (pdu index)) s.link.rx := by
  induction indices generalizing s with
  | nil => exact ⟨s, rfl, by simp, rfl⟩
  | cons index rest ih =>
    have hpdu := h index (by simp)
    have hstep : s.step (.rxData 0 index) = some (s.note
        { s.link with rx := s.link.rx.rx 0 (pdu index) } (.rxData 0 index)) := by
      simp [step, UmLink.step, hpdu]
    obtain ⟨t, hrun, hreceived, hrx⟩ := ih (s.note
        { s.link with rx := s.link.rx.rx 0 (pdu index) } (.rxData 0 index))
        (fun i hi => h i (by simp [hi]))
    refine ⟨t, runFrom_cons_eq_some.mpr ⟨_, hstep, hrun⟩, ?_, hrx⟩
    rw [hreceived]
    simp [note]

end UmRecord

end AetherStack.Guarantees
