import AetherStack.Guarantees.Authentication
import AetherStack.Lib.Directory

/-!
# One registration per subscriber

Every attach takes a fresh TMSI, and an older context of the same IMSI leaves
`ue_contexts_` only through DETACH or a handover release. So an IMSI that attaches again
without a detach is registered twice, and `find_ue_by_imsi` returns whichever context the
iteration meets first. The results determine the runs that stay clear of this: those in
which a registration is entered only while no other TMSI carries the IMSI.

`latest` records, for the statement, the TMSI under which an IMSI was last entered.
-/
namespace AetherStack.Guarantees
open Source Lib

/-! ## The registrar of a base station -/

structure NasBsRegistry where
  nas : NasBs
  latest : Bytes → Option Nat := fun _ => none

namespace NasBsRegistry

/-- The TMSI and IMSI that a call enters in `ue_contexts_`, from the tests the code makes. -/
def registration (b : NasBs) : NasBsEvent → Option (Nat × Bytes)
  | .message order _ _ pdu =>
    let msg := NasMessage.decode pdu
    match msg.msgType with
    | .attachRequest => if b.keys msg.value = none then some (b.nextTmsi, msg.value) else none
    | .authResponse =>
      if msg.value.length = Aka.kResLen then
        (b.answeredChallenge order msg.value).map fun found => (found.2.tmsi, found.2.imsi)
      else none
    | _ => none
  | .adopt tmsi imsi => some (tmsi, imsi)
  | .release _ => none
  | .setSqn _ _ => none

def step (hmac : KeyedDigest) (r : NasBsRegistry) (e : NasBsEvent) : Option NasBsRegistry :=
  (NasBsRun.step hmac r.nas e).map fun b => ⟨b, noteEntry r.latest (registration r.nas e)⟩

def fresh (db : Bytes → Option Key256) : NasBsRegistry := { nas := NasBsRun.fresh db }

/-- The IMSI of the registered context under a TMSI. -/
def carried (b : NasBs) (t : Nat) : Option Bytes :=
  (b.ueContexts[t]?).bind fun ctx => if ctx.registered then some ctx.imsi else none

theorem carried_eq_some {b : NasBs} {t : Nat} {imsi : Bytes} :
    carried b t = some imsi ↔
      ∃ ctx, b.ueContexts[t]? = some ctx ∧ ctx.registered = true ∧ ctx.imsi = imsi := by
  simp [carried, Option.bind_eq_some_iff]

/-- The call enters a registration only if no other TMSI carries its IMSI. -/
def EntersOnce (r : NasBsRegistry) (e : NasBsEvent) : Prop :=
  ∀ t imsi, registration r.nas e = some (t, imsi) → ∀ t', carried r.nas t' = some imsi → t' = t

/-- At most one registered context per IMSI, and the lookup by IMSI finds the most recent
registration, in whatever order it walks the table. -/
structure OnePerImsi (r : NasBsRegistry) : Prop where
  unique : ∀ (t t' : Nat) (ctx ctx' : NasUeContext), r.nas.ueContexts[t]? = some ctx →
    r.nas.ueContexts[t']? = some ctx' → ctx.registered = true → ctx'.registered = true →
    ctx.imsi = ctx'.imsi → t = t'
  lookup : ∀ (order : List Nat) (t : Nat) (ctx : NasUeContext),
    order.Perm r.nas.ueContexts.keys → r.nas.ueContexts[t]? = some ctx → ctx.registered = true →
    r.latest ctx.imsi = some t ∧ r.nas.findUeByImsi order ctx.imsi = some ctx

/-- If every carried IMSI is under its latest TMSI, none is carried twice. -/
theorem onePerImsi_of_current {r : NasBsRegistry} (h : Current (carried r.nas) r.latest) :
    r.OnePerImsi := by
  have hunique : ∀ (t t' : Nat) (ctx ctx' : NasUeContext), r.nas.ueContexts[t]? = some ctx →
      r.nas.ueContexts[t']? = some ctx' → ctx.registered = true → ctx'.registered = true →
      ctx.imsi = ctx'.imsi → t = t' := by
    intro t t' ctx ctx' hget hget' hreg hreg' himsi
    exact h.injective (carried_eq_some.mpr ⟨ctx, hget, hreg, himsi⟩)
      (carried_eq_some.mpr ⟨ctx', hget', hreg', rfl⟩)
  constructor
  · exact hunique
  · intro order t ctx horder hget hreg
    refine ⟨h t ctx.imsi (carried_eq_some.mpr ⟨ctx, hget, hreg, rfl⟩), ?_⟩
    unfold NasBs.findUeByImsi
    cases hfound : r.nas.ueContexts.firstMatch order
        (fun c => decide (c.imsi = ctx.imsi ∧ c.registered = true)) with
    | none =>
      have hnone := TmsiMap.firstMatch_none horder hfound hget
      simp [hreg] at hnone
    | some found =>
      obtain ⟨t', ctx'⟩ := found
      obtain ⟨hget', hmatch⟩ := TmsiMap.firstMatch_some hfound
      rw [decide_eq_true_eq] at hmatch
      obtain rfl := hunique t t' ctx ctx' hget hget' hreg hmatch.2 hmatch.1.symm
      rw [hget] at hget'
      exact congrArg some (Option.some.inj hget').symm

theorem current_fresh (db : Bytes → Option Key256) :
    Current (carried (fresh db).nas) (fresh db).latest := by
  intro t imsi hget
  simp [fresh, NasBsRun.fresh, carried] at hget

/-- Every context after a message was there before or is the one the message enters. -/
theorem entered_of_message (hmac : KeyedDigest) (b : NasBs) (order : List Nat) (rand : Rand)
    (tmsi : Nat) (pdu : Bytes) {t : Nat} {ctx : NasUeContext}
    (hget : (b.handleMessage hmac order rand tmsi pdu).1.ueContexts[t]? = some ctx) :
    b.ueContexts[t]? = some ctx ∨
      registration b (.message order rand tmsi pdu) = some (t, ctx.imsi) := by
  have hhandled := NasBs.handleMessage_handled hmac b order rand tmsi pdu
  generalize b.handleMessage hmac order rand tmsi pdu = res at hhandled hget
  obtain ⟨b', out⟩ := res
  cases hhandled with
  | ignored => exact .inl hget
  | rejected => exact .inl hget
  | dropped t' => exact .inl hget
  | resynchronised sqn htype hpending => exact .inl hget
  | challenged htype hkey => exact .inl hget
  | detached t' => exact .inl (TmsiMap.within_erase _ _ _ _ hget)
  | accepted htype hlen hfound =>
    dsimp only at hget
    rw [TmsiMap.getElem?_insert_eq] at hget
    split at hget
    · rename_i ht
      obtain rfl := Option.some.inj hget
      right
      simp [registration, htype, hlen, hfound, ht]
    · exact .inl hget
  | openAccess htype hkey =>
    dsimp only at hget
    rw [TmsiMap.getElem?_insert_eq] at hget
    split at hget
    · rename_i ht
      obtain rfl := Option.some.inj hget
      right
      simp [registration, htype, hkey, ht]
    · exact .inl hget

/-- A context that is new was entered by this step. -/
theorem entered_of_step {hmac : KeyedDigest} {b b' : NasBs} {e : NasBsEvent}
    (hstep : NasBsRun.step hmac b e = some b') {t : Nat} {ctx : NasUeContext}
    (hget : b'.ueContexts[t]? = some ctx) :
    b.ueContexts[t]? = some ctx ∨ registration b e = some (t, ctx.imsi) := by
  cases e with
  | message order rand tmsi pdu =>
    dsimp only [NasBsRun.step] at hstep
    split at hstep
    · obtain rfl := Option.some.inj hstep
      exact entered_of_message hmac b order rand tmsi pdu hget
    · cases hstep
  | adopt tmsi imsi =>
    obtain rfl := Option.some.inj hstep
    dsimp only [NasBs.adoptUe] at hget
    rw [TmsiMap.getElem?_insert_eq] at hget
    split at hget
    · rename_i ht
      obtain rfl := Option.some.inj hget
      exact .inr (by rw [registration, ht])
    · exact .inl hget
  | release tmsi =>
    obtain rfl := Option.some.inj hstep
    exact .inl (TmsiMap.within_erase _ _ _ _ hget)
  | setSqn imsi sqn =>
    obtain rfl := Option.some.inj hstep
    exact .inl hget

/-- Step lemma: entering an IMSI once keeps every carried one current. -/
theorem current_of_step {hmac : KeyedDigest} {r r' : NasBsRegistry} {e : NasBsEvent}
    (h : Current (carried r.nas) r.latest) (honce : r.EntersOnce e)
    (hstep : step hmac r e = some r') : Current (carried r'.nas) r'.latest := by
  obtain ⟨b', hnas, rfl⟩ := Option.map_eq_some_iff.mp hstep
  refine h.noteEntry honce ?_
  intro t imsi hcarried
  obtain ⟨ctx, hget, hreg, rfl⟩ := carried_eq_some.mp hcarried
  rcases entered_of_step hnas hget with hold | hnew
  · exact .inl (carried_eq_some.mpr ⟨ctx, hold, hreg, rfl⟩)
  · exact .inr hnew

end NasBsRegistry

/-! ## The registrar of the core -/

structure AmfRegistry where
  amf : Amf
  latest : Bytes → Option Nat := fun _ => none

namespace AmfRegistry

/-- The TMSI and IMSI that a message enters in `ue_contexts_`. -/
def registration (a : Amf) : AmfEvent → Option (Nat × Bytes)
  | .message _ msg =>
    match msg.msgType with
    | .initialUeMsg =>
      let nas := NasMessage.decode (msg.value.drop 2)
      if 3 ≤ msg.value.length ∧ nas.msgType = .attachRequest ∧ a.keys nas.value = none then
        some (a.nextTmsi, nas.value)
      else none
    | .uplinkNas =>
      let nas := Amf.uplinkMessage msg.value
      if 10 ≤ msg.value.length ∧ nas.msgType = .authResponse ∧ nas.value.length = Aka.kResLen ∧
          a.pendingRnti.getD (getU32 msg.value 0) [] = nas.value then
        (a.pendingAuth[getU32 msg.value 0]?).map fun ctx => (ctx.tmsi, ctx.imsi)
      else none
    | _ => none
  | .release _ => none

def step (hmac : KeyedDigest) (r : AmfRegistry) (e : AmfEvent) : Option AmfRegistry :=
  (AmfRun.step hmac r.amf e).map fun a =>
    ⟨a, noteEntry r.latest (registration r.amf e)⟩

def fresh (db : Bytes → Option Key256) : AmfRegistry := { amf := AmfRun.fresh db }

def carried (a : Amf) (t : Nat) : Option Bytes :=
  (a.ueContexts[t]?).bind fun ctx => if ctx.registered then some ctx.imsi else none

theorem carried_eq_some {a : Amf} {t : Nat} {imsi : Bytes} :
    carried a t = some imsi ↔
      ∃ ctx, a.ueContexts[t]? = some ctx ∧ ctx.registered = true ∧ ctx.imsi = imsi := by
  simp [carried, Option.bind_eq_some_iff]

def EntersOnce (r : AmfRegistry) (e : AmfEvent) : Prop :=
  ∀ t imsi, registration r.amf e = some (t, imsi) → ∀ t', carried r.amf t' = some imsi → t' = t

/-- At most one registered context per IMSI, which is the most recent one. The AMF has no
lookup by IMSI. -/
structure OnePerImsi (r : AmfRegistry) : Prop where
  unique : ∀ (t t' : Nat) (ctx ctx' : AmfUeContext), r.amf.ueContexts[t]? = some ctx →
    r.amf.ueContexts[t']? = some ctx' → ctx.registered = true → ctx'.registered = true →
    ctx.imsi = ctx'.imsi → t = t'
  recent : ∀ (t : Nat) (ctx : AmfUeContext), r.amf.ueContexts[t]? = some ctx →
    ctx.registered = true → r.latest ctx.imsi = some t

theorem onePerImsi_of_current {r : AmfRegistry} (h : Current (carried r.amf) r.latest) :
    r.OnePerImsi := by
  constructor
  · intro t t' ctx ctx' hget hget' hreg hreg' himsi
    exact h.injective (carried_eq_some.mpr ⟨ctx, hget, hreg, himsi⟩)
      (carried_eq_some.mpr ⟨ctx', hget', hreg', rfl⟩)
  · intro t ctx hget hreg
    exact h t ctx.imsi (carried_eq_some.mpr ⟨ctx, hget, hreg, rfl⟩)

theorem current_fresh (db : Bytes → Option Key256) :
    Current (carried (fresh db).amf) (fresh db).latest := by
  intro t imsi hget
  simp [fresh, AmfRun.fresh, carried] at hget

/-- Every registered IMSI after a message was there before or is the one it enters. -/
theorem carried_of_message (hmac : KeyedDigest) (a : Amf) (rand : Rand) (msg : CnMessage)
    {t : Nat} {imsi : Bytes} (hcarried : carried (a.handle hmac rand msg).1 t = some imsi) :
    carried a t = some imsi ∨ registration a (.message rand msg) = some (t, imsi) := by
  obtain ⟨ctx, hget, hreg, rfl⟩ := carried_eq_some.mp hcarried
  have hkept : a.ueContexts[t]? = some ctx → carried a t = some ctx.imsi :=
    fun hold => carried_eq_some.mpr ⟨ctx, hold, hreg, rfl⟩
  have hhandled := Amf.handle_handled hmac a rand msg
  generalize a.handle hmac rand msg = res at hhandled hget
  obtain ⟨a', out⟩ := res
  cases hhandled with
  | kept hoTarget => exact .inl (hkept hget)
  | challenged rnti htype hkey => exact .inl (hkept hget)
  | resynchronised sqn tmsi rnti hpending => exact .inl (hkept hget)
  | refused tmsi hpending => exact .inl (hkept hget)
  | dropped tmsi => exact .inl (hkept hget)
  | released tmsi => exact .inl (hkept (TmsiMap.within_erase _ _ _ _ hget))
  | openAccess rnti out htype hnas hlen hkey =>
    dsimp only at hget
    rw [TmsiMap.getElem?_insert_eq] at hget
    split at hget
    · rename_i ht
      obtain rfl := Option.some.inj hget
      right
      simp [registration, htype, hnas, hlen, hkey, ht]
    · exact .inl (hkept hget)
  | accepted out htype hlen hnas hsize hpending hmatch =>
    dsimp only at hget
    rw [TmsiMap.getElem?_insert_eq] at hget
    split at hget
    · rename_i ht
      obtain rfl := Option.some.inj hget
      right
      simp [registration, htype, hlen, hnas, hsize, hpending, hmatch, ht]
    · exact .inl (hkept hget)
  | moved tmsi newRnti hoTarget out hctx =>
    dsimp only at hget
    rw [TmsiMap.getElem?_insert_eq] at hget
    split at hget
    · rename_i ht
      obtain rfl := Option.some.inj hget
      subst ht
      exact .inl (carried_eq_some.mpr ⟨_, hctx, hreg, rfl⟩)
    · exact .inl (hkept hget)

theorem current_of_step {hmac : KeyedDigest} {r r' : AmfRegistry} {e : AmfEvent}
    (h : Current (carried r.amf) r.latest) (honce : r.EntersOnce e)
    (hstep : step hmac r e = some r') : Current (carried r'.amf) r'.latest := by
  obtain ⟨a', hamf, rfl⟩ := Option.map_eq_some_iff.mp hstep
  refine h.noteEntry honce ?_
  intro t imsi hcarried
  cases e with
  | message rand msg =>
    obtain rfl := Option.some.inj hamf
    exact carried_of_message hmac r.amf rand msg hcarried
  | release tmsi =>
    obtain rfl := Option.some.inj hamf
    obtain ⟨ctx, hget, hreg, rfl⟩ := carried_eq_some.mp hcarried
    exact .inl (carried_eq_some.mpr ⟨ctx, TmsiMap.within_erase _ _ _ _ hget, hreg, rfl⟩)

end AmfRegistry

/-- In every run of either registrar that enters a registration only while no other TMSI
carries its IMSI, each IMSI has at most one registered context, the most recent one, and
a base station's lookup by IMSI returns it. -/
theorem one_registration_per_imsi (hmac : KeyedDigest) (db : Bytes → Option Key256) :
    (∀ (events : List NasBsEvent) (r : NasBsRegistry),
      runFrom (NasBsRegistry.step hmac) (NasBsRegistry.fresh db) events = some r →
      StepsMeet (NasBsRegistry.step hmac) NasBsRegistry.EntersOnce (NasBsRegistry.fresh db) events →
      r.OnePerImsi) ∧
    (∀ (events : List AmfEvent) (r : AmfRegistry),
      runFrom (AmfRegistry.step hmac) (AmfRegistry.fresh db) events = some r →
      StepsMeet (AmfRegistry.step hmac) AmfRegistry.EntersOnce (AmfRegistry.fresh db) events →
      r.OnePerImsi) := by
  constructor
  · intro events r run meets
    exact NasBsRegistry.onePerImsi_of_current
      (runFrom_invariant_of_meets (fun r => Current (NasBsRegistry.carried r.nas) r.latest)
        (fun _ _ _ h honce hstep => NasBsRegistry.current_of_step h honce hstep)
        (NasBsRegistry.current_fresh db) meets run)
  · intro events r run meets
    exact AmfRegistry.onePerImsi_of_current
      (runFrom_invariant_of_meets (fun r => Current (AmfRegistry.carried r.amf) r.latest)
        (fun _ _ _ h honce hstep => AmfRegistry.current_of_step h honce hstep)
        (AmfRegistry.current_fresh db) meets run)

/-- Nothing registered, so nothing to collide with. -/
theorem NasBsRegistry.entersOnce_of_empty {r : NasBsRegistry} (h : r.nas.ueContexts = ∅)
    (e : NasBsEvent) : r.EntersOnce e := by
  intro t imsi _ t' hcarried
  simp [carried, h] at hcarried

theorem AmfRegistry.entersOnce_of_empty {r : AmfRegistry} (h : r.amf.ueContexts = ∅)
    (e : AmfEvent) : r.EntersOnce e := by
  intro t imsi _ t' hcarried
  simp [carried, h] at hcarried

theorem one_registration_per_imsi_first :
    (∃ r, runFrom (NasBsRegistry.step zeroDigest) (NasBsRegistry.fresh oneSubscriber)
      (attachCalls 65537 0) = some r ∧ r.OnePerImsi) ∧
    (∃ r, runFrom (AmfRegistry.step zeroDigest) (AmfRegistry.fresh oneSubscriber)
      (coreAttachCalls 65537 0) = some r ∧ r.OnePerImsi) := by
  constructor
  · have hrun := Option.some_get (show (runFrom (NasBsRegistry.step zeroDigest)
      (NasBsRegistry.fresh oneSubscriber) (attachCalls 65537 0)).isSome by decide)
    refine ⟨_, hrun.symm, (one_registration_per_imsi zeroDigest oneSubscriber).1 _ _ hrun.symm ?_⟩
    refine ⟨NasBsRegistry.entersOnce_of_empty rfl _, fun r hr =>
      ⟨NasBsRegistry.entersOnce_of_empty ?_ _, fun _ _ => trivial⟩⟩
    have hempty : (NasBsRegistry.step zeroDigest (NasBsRegistry.fresh oneSubscriber)
        (.message [] (Vector.replicate 16 0) 0 attachMessage)).map (·.nas.ueContexts) = some ∅ := by
      decide
    rw [hr] at hempty
    exact Option.some.inj hempty
  · have hrun := Option.some_get (show (runFrom (AmfRegistry.step zeroDigest)
      (AmfRegistry.fresh oneSubscriber) (coreAttachCalls 65537 0)).isSome by decide)
    refine ⟨_, hrun.symm, (one_registration_per_imsi zeroDigest oneSubscriber).2 _ _ hrun.symm ?_⟩
    refine ⟨AmfRegistry.entersOnce_of_empty rfl _, fun r hr =>
      ⟨AmfRegistry.entersOnce_of_empty ?_ _, fun _ _ => trivial⟩⟩
    have hempty : (AmfRegistry.step zeroDigest (AmfRegistry.fresh oneSubscriber)
        (.message (Vector.replicate 16 0)
          ⟨.initialUeMsg, putU16 7 ++ attachMessage⟩)).map (·.amf.ueContexts) = some ∅ := by
      decide
    rw [hr] at hempty
    exact Option.some.inj hempty

/-- The same subscriber attaches twice, as it does after a failed re-establishment: both
contexts stay registered. -/
theorem reattach_registers_twice :
    ∃ r, runFrom (NasBsRegistry.step zeroDigest) (NasBsRegistry.fresh oneSubscriber)
      (attachCalls 65537 0 ++ attachCalls 65538 1) = some r ∧ ¬ r.OnePerImsi := by
  refine ⟨(runFrom (NasBsRegistry.step zeroDigest) (NasBsRegistry.fresh oneSubscriber)
    (attachCalls 65537 0 ++ attachCalls 65538 1)).get (by decide),
    (Option.some_get _).symm, ?_⟩
  intro h
  have htwice := h.unique 65537 65538 firstContext
    { firstContext with tmsi := 65538, rand := List.replicate 16 1 }
    (by decide) (by decide) rfl rfl rfl
  omega

end AetherStack.Guarantees
