import AetherStack.Guarantees.Authentication
import AetherStack.Source.BsCell

/-!
# What a handover and later attaches leave to the other subscribers

Each cell numbers its TMSIs from the same start (nas_bs.h, `next_tmsi_`), and
`prepare_handover` imports the TMSI of the source, unlike the C-RNTIs, which the cells
draw from ranges of their own. So an imported TMSI can be one the target has given to
another subscriber, or one it gives away later. The results below hold for every reachable
state of the registrar, whatever the flows and the mapping of the cell are, and for every
interleaving of handovers and local attaches that keeps the identities apart.
-/
namespace AetherStack.Guarantees
open Source Lib

/-- A handover into the cell, a random access, or a NAS message of an attach. -/
inductive CellEvent where
  | prepare (ctx : HoContext)
  | msg3
  | nas (rnti : Nat) (order : List Nat) (rand : Rand) (pdu : Bytes)

namespace CellRun

def step (hmac : KeyedDigest) (c : BsCell) : CellEvent → Option BsCell
  | .prepare ctx => some (c.prepareHandover ctx)
  | .msg3 => some c.onMsg3
  | .nas rnti order rand pdu =>
    if order.Perm c.nas.pendingAuth.keys ∧ (NasMessage.decode pdu).msgType ≠ .detach then
      some (c.onNasUplink hmac rnti order rand pdu)
    else none

/-- The TMSI and the IMSI a NAS message is about: those of the new attach, of the challenge
it answers or, with a single challenge pending, fails to answer. -/
def nasSubject (b : NasBs) (order : List Nat) (pdu : Bytes) : Option (Nat × Bytes) :=
  let msg := NasMessage.decode pdu
  match msg.msgType with
  | .attachRequest => some (b.nextTmsi, msg.value)
  | .authResponse =>
    if msg.value.length ≠ Aka.kResLen then none
    else
      match b.answeredChallenge order msg.value with
      | some (_, ctx) => some (ctx.tmsi, ctx.imsi)
      | none =>
        match b.pendingAuth.toList with
        | [(_, doomed)] => some (doomed.tmsi, doomed.imsi)
        | _ => none
  | .authFailure =>
    (b.failedChallenge order (NasBs.failureImsi msg.value)).map fun found =>
      (found.2.tmsi, found.2.imsi)
  | _ => none

/-- The TMSI and the IMSI a step works for. -/
def subject (c : BsCell) : CellEvent → Option (Nat × Bytes)
  | .prepare ctx => some (ctx.tmsi, ctx.imsi)
  | .msg3 => none
  | .nas _ order _ pdu => nasSubject c.nas order pdu

/-- The C-RNTI whose flow a step works on. -/
def servedCrnti (c : BsCell) : CellEvent → Option Nat
  | .prepare _ => some c.nextHoCrnti
  | .msg3 => some c.nextCrnti
  | .nas rnti order _ pdu => (nasSubject c.nas order pdu).map fun s => c.replyCrnti rnti s.1

/-- The step works for another subscriber than `imsi`. -/
def WorksForOther (imsi : Bytes) (c : BsCell) (e : CellEvent) : Prop :=
  ∀ t₀ imsi₀, subject c e = some (t₀, imsi₀) → imsi₀ ≠ imsi

/-- The identities a step uses belong to no registered subscriber other than its own: its
TMSI is not registered for another IMSI, and its C-RNTI is not the one another registered
TMSI maps to. -/
def KeepsApart (c : BsCell) (e : CellEvent) : Prop :=
  ∀ (t : Nat) (ctx : NasUeContext), c.nas.ueContexts[t]? = some ctx → ctx.registered = true →
    WorksForOther ctx.imsi c e →
    (∀ t₀ imsi₀, subject c e = some (t₀, imsi₀) → t₀ ≠ t) ∧
    (∀ r, servedCrnti c e = some r → c.tmsiToCrnti[t]? ≠ some r)

/-- NAS context, mapping, session key and flow under a TMSI are as they were. -/
structure Untouched (t : Nat) (c c' : BsCell) : Prop where
  context : c'.nas.ueContexts[t]? = c.nas.ueContexts[t]?
  mapping : c'.tmsiToCrnti[t]? = c.tmsiToCrnti[t]?
  sessionKey : c'.nas.sessionKeys[t]? = c.nas.sessionKeys[t]?
  flow : ∀ r, c.tmsiToCrnti[t]? = some r → c'.flows r = c.flows r

/-- A pending challenge stands under its own TMSI. -/
def Keyed (b : NasBs) : Prop :=
  ∀ (t : Nat) (ctx : NasUeContext), b.pendingAuth[t]? = some ctx → ctx.tmsi = t

variable {hmac : KeyedDigest} {c c' c'' : BsCell} {t : Nat}

theorem Untouched.refl (t : Nat) (c : BsCell) : Untouched t c c := ⟨rfl, rfl, rfl, fun _ _ => rfl⟩

theorem Untouched.trans (h : Untouched t c c') (h' : Untouched t c' c'') : Untouched t c c'' where
  context := h'.context.trans h.context
  mapping := h'.mapping.trans h.mapping
  sessionKey := h'.sessionKey.trans h.sessionKey
  flow := fun r hr => (h'.flow r (h.mapping.trans hr)).trans (h.flow r hr)

/-- A step writes the registrar's tables under the TMSI it works for only. -/
theorem nas_untouched_of_handled {b b' : NasBs} {order : List Nat} {rand : Rand} {pdu : Bytes}
    {out : List (Nat × Bytes)} (hkeyed : Keyed b)
    (hhandled : NasBs.Handled hmac b order rand pdu b' out)
    (hdetach : (NasMessage.decode pdu).msgType ≠ .detach)
    (hother : ∀ t₀ imsi₀, nasSubject b order pdu = some (t₀, imsi₀) → t₀ ≠ t) :
    b'.ueContexts[t]? = b.ueContexts[t]? ∧ b'.sessionKeys[t]? = b.sessionKeys[t]? ∧
      (out = [] ∨ ∃ t₀ imsi₀ reply, nasSubject b order pdu = some (t₀, imsi₀) ∧
        out = [(t₀, reply)]) := by
  cases hhandled with
  | ignored => exact ⟨rfl, rfl, .inl rfl⟩
  | dropped t' => exact ⟨rfl, rfl, .inl rfl⟩
  | detached t' htype => exact absurd htype hdetach
  | rejected htype hlen hnone hsingle =>
    rename_i t' doomed
    refine ⟨rfl, rfl, .inr ⟨doomed.tmsi, doomed.imsi, _, ?_, rfl⟩⟩
    simp only [nasSubject, htype, hlen, hnone, hsingle, ne_eq, not_true_eq_false, if_false]
  | accepted htype hlen hfound =>
    rename_i t' ctx
    have hsubject : nasSubject b order pdu = some (ctx.tmsi, ctx.imsi) := by
      simp only [nasSubject, htype, hlen, hfound, ne_eq, not_true_eq_false, if_false]
    have hne := hother _ _ hsubject
    have htmsi := hkeyed t' ctx (NasBs.mem_of_answeredChallenge hfound).1
    refine ⟨?_, ?_, .inr ⟨_, _, _, hsubject, rfl⟩⟩
    · dsimp only
      rw [TmsiMap.getElem?_insert_eq, if_neg hne]
    · dsimp only
      rw [TmsiMap.getElem?_insert_eq, if_neg (htmsi ▸ hne)]
  | resynchronised sqn htype hfound =>
    rename_i t' ctx
    refine ⟨rfl, rfl, .inr ⟨ctx.tmsi, ctx.imsi, _, ?_, rfl⟩⟩
    simp only [nasSubject, htype, hfound, Option.map_some]
  | challenged htype hkey =>
    refine ⟨rfl, rfl, .inr ⟨b.nextTmsi, (NasMessage.decode pdu).value, _, ?_, rfl⟩⟩
    simp only [nasSubject, htype]
  | openAccess htype hkey =>
    have hsubject : nasSubject b order pdu = some (b.nextTmsi, (NasMessage.decode pdu).value) := by
      simp only [nasSubject, htype]
    refine ⟨?_, rfl, .inr ⟨_, _, _, hsubject, rfl⟩⟩
    dsimp only
    rw [TmsiMap.getElem?_insert_eq, if_neg (hother _ _ hsubject)]

/-- The reply goes to the flow of its own C-RNTI. -/
theorem untouched_onNasSend {ulCrnti : Nat} {sent : Nat × Bytes} (hne : sent.1 ≠ t)
    (hcrnti : c.tmsiToCrnti[t]? ≠ some (c.replyCrnti ulCrnti sent.1)) :
    Untouched t c (c.onNasSend ulCrnti sent) where
  context := rfl
  mapping := by
    dsimp only [BsCell.onNasSend]
    split
    · rfl
    · rw [TmsiMap.getElem?_insert_eq, if_neg hne]
  sessionKey := rfl
  flow := by
    intro r hr
    dsimp only [BsCell.onNasSend]
    refine Function.update_of_ne ?_ _ _
    intro heq
    exact hcrnti (heq ▸ hr)

/-- NAS works under the TMSI of its subject and answers on its C-RNTI. -/
theorem untouched_onNasUplink {rnti : Nat} {order : List Nat} {rand : Rand} {pdu : Bytes}
    (hkeyed : Keyed c.nas) (hdetach : (NasMessage.decode pdu).msgType ≠ .detach)
    (hother : ∀ t₀ imsi₀, nasSubject c.nas order pdu = some (t₀, imsi₀) →
      t₀ ≠ t ∧ c.tmsiToCrnti[t]? ≠ some (c.replyCrnti rnti t₀)) :
    Untouched t c (c.onNasUplink hmac rnti order rand pdu) := by
  obtain ⟨hcontext, hkey, hout⟩ := nas_untouched_of_handled hkeyed
    (NasBs.handleMessage_handled hmac c.nas order rand 0 pdu) hdetach
    fun t₀ imsi₀ h => (hother t₀ imsi₀ h).1
  have hnas : Untouched t c { c with nas := (c.nas.handleMessage hmac order rand 0 pdu).1 } :=
    ⟨hcontext, rfl, hkey, fun _ _ => rfl⟩
  dsimp only [BsCell.onNasUplink]
  rw [if_neg hdetach]
  rcases hout with hnone | ⟨t₀, imsi₀, reply, hsubject, hone⟩
  · rw [hnone]
    exact hnas
  · rw [hone]
    obtain ⟨hne, hcrnti⟩ := hother t₀ imsi₀ hsubject
    exact hnas.trans (untouched_onNasSend hne hcrnti)

/-- A preparation writes under the imported TMSI and the C-RNTI it draws. -/
theorem untouched_prepareHandover {ctx : HoContext} (hne : ctx.tmsi ≠ t)
    (hcrnti : c.tmsiToCrnti[t]? ≠ some c.nextHoCrnti) :
    Untouched t c (c.prepareHandover ctx) where
  context := by
    dsimp only [BsCell.prepareHandover, NasBs.adoptUe]
    split
    · dsimp only
      rw [TmsiMap.getElem?_insert_eq, if_neg hne]
    · rfl
  mapping := by
    dsimp only [BsCell.prepareHandover]
    split
    · rw [TmsiMap.getElem?_insert_eq, if_neg hne]
    · rfl
  sessionKey := by
    dsimp only [BsCell.prepareHandover, NasBs.adoptUe]
    split
    · dsimp only
      split
      · rfl
      · rw [TmsiMap.getElem?_insert_eq, if_neg hne]
    · rfl
  flow := by
    intro r hr
    dsimp only [BsCell.prepareHandover]
    refine Function.update_of_ne ?_ _ _
    intro heq
    exact hcrnti (heq ▸ hr)

/-- Random access writes the flow of the C-RNTI it draws. -/
theorem untouched_onMsg3 (hcrnti : c.tmsiToCrnti[t]? ≠ some c.nextCrnti) :
    Untouched t c c.onMsg3 where
  context := rfl
  mapping := rfl
  sessionKey := rfl
  flow := by
    intro r hr
    refine Function.update_of_ne ?_ _ _
    intro heq
    exact hcrnti (heq ▸ hr)

theorem Keyed.handleMessage {b : NasBs} (h : Keyed b) (order : List Nat) (rand : Rand) (tmsi : Nat)
    (pdu : Bytes) : Keyed (b.handleMessage hmac order rand tmsi pdu).1 := by
  have hhandled := NasBs.handleMessage_handled hmac b order rand tmsi pdu
  generalize b.handleMessage hmac order rand tmsi pdu = res at hhandled
  obtain ⟨b', out⟩ := res
  have hsend : ∀ (d : NasBs) (ctx : NasUeContext), Keyed d → Keyed (d.sendChallenge hmac rand ctx).1 := by
    intro d ctx hd t p hget
    dsimp only [NasBs.sendChallenge] at hget
    rw [TmsiMap.getElem?_insert_eq] at hget
    split at hget
    · rename_i ht
      obtain rfl := Option.some.inj hget
      exact ht
    · exact hd t p hget
  have herase : ∀ (t' : Nat) (t : Nat) (p : NasUeContext),
      (b.pendingAuth.erase t')[t]? = some p → p.tmsi = t :=
    fun t' t p hget => h t p (TmsiMap.within_erase _ _ _ _ hget)
  cases hhandled with
  | ignored => exact h
  | rejected => exact fun t p hget => by simp at hget
  | accepted => exact herase _
  | dropped => exact herase _
  | resynchronised => exact hsend _ _ (herase _)
  | challenged => exact hsend _ _ h
  | openAccess => exact h
  | detached => exact h

theorem nas_onNasUplink {rnti : Nat} {order : List Nat} {rand : Rand} {pdu : Bytes} :
    (c.onNasUplink hmac rnti order rand pdu).nas = (c.nas.handleMessage hmac order rand 0 pdu).1 := by
  have hfold : ∀ (sent : List (Nat × Bytes)) (d : BsCell),
      (sent.foldl (fun d s => d.onNasSend rnti s) d).nas = d.nas := by
    intro sent
    induction sent with
    | nil => exact fun d => rfl
    | cons s sent ih => exact fun d => ih (d.onNasSend rnti s)
  dsimp only [BsCell.onNasUplink]
  split
  · exact hfold _ _
  · exact hfold _ _

/-- Pending challenges stay under their own TMSI. -/
theorem Keyed.step_preserved {e : CellEvent} (h : Keyed c.nas) (hstep : step hmac c e = some c') :
    Keyed c'.nas := by
  cases e with
  | prepare ctx =>
    obtain rfl := Option.some.inj hstep
    dsimp only [BsCell.prepareHandover]
    split
    · exact h
    · exact h
  | msg3 =>
    obtain rfl := Option.some.inj hstep
    exact h
  | nas rnti order rand pdu =>
    dsimp only [step] at hstep
    split at hstep
    · obtain rfl := Option.some.inj hstep
      rw [nas_onNasUplink]
      exact h.handleMessage order rand 0 pdu
    · cases hstep

theorem untouched_of_step {e : CellEvent} {ctx : NasUeContext} (hkeyed : Keyed c.nas)
    (hctx : c.nas.ueContexts[t]? = some ctx) (hreg : ctx.registered = true)
    (hapart : KeepsApart c e) (hother : WorksForOther ctx.imsi c e)
    (hstep : step hmac c e = some c') : Untouched t c c' := by
  obtain ⟨htmsi, hcrnti⟩ := hapart t ctx hctx hreg hother
  cases e with
  | prepare ho =>
    obtain rfl := Option.some.inj hstep
    exact untouched_prepareHandover (htmsi _ _ rfl) (hcrnti _ rfl)
  | msg3 =>
    obtain rfl := Option.some.inj hstep
    exact untouched_onMsg3 (hcrnti _ rfl)
  | nas rnti order rand pdu =>
    dsimp only [step] at hstep
    split at hstep
    · rename_i henabled
      obtain rfl := Option.some.inj hstep
      refine untouched_onNasUplink hkeyed henabled.2 ?_
      intro t₀ imsi₀ hsubject
      exact ⟨htmsi t₀ imsi₀ hsubject, hcrnti _ (by rw [servedCrnti, hsubject]; rfl)⟩
    · cases hstep

def attachMessageOf (imsi : Bytes) : Bytes :=
  NasMessage.encode { msgType := .attachRequest, value := imsi }

/-- A cell where one UE with open access has attached, as TMSI 0x10001. -/
def servingCell (crntiBase : Nat) (imsi : Bytes) : BsCell :=
  (BsCell.make crntiBase fun _ => none).onMsg3.onNasUplink zeroDigest crntiBase []
    (Vector.replicate 16 0) (attachMessageOf imsi)

theorem servingCell_contexts :
    (servingCell 0x2001 [2]).nas.ueContexts =
      (∅ : TmsiMap NasUeContext).insert 65537 { imsi := [2], tmsi := 65537, registered := true } := by
  decide

end CellRun

end AetherStack.Guarantees
