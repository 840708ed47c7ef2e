import AetherStack.Lib.Run
import AetherStack.Source.Amf

/-!
# A known subscriber is registered only by its own answer

Both registrars, the NAS of a base station and the AMF of the separated core, keep an
IMSI of the subscriber database out of `ue_contexts_` until an AUTH_RESPONSE with the
expected sixteen octets arrives for a challenge they issued for that IMSI. The results
are about every sequence of messages, well-formed or not, and every RAND. The other way
in, `adopt_ue` of a handover, is an event of its own.

The invariants speak of the whole history: each pending challenge was sent at some
moment of the run, and each registered context was written at some moment by the answer
to a challenge pending at that moment.
-/
namespace AetherStack.Guarantees
open Source Lib

/-! ## The registrar of a base station -/

inductive NasBsEvent where
  | message (order : List Nat) (rand : Rand) (tmsi : Nat) (pdu : Bytes)
  | adopt (tmsi : Nat) (imsi : Bytes)
  | release (tmsi : Nat)
  | setSqn (imsi : Bytes) (sqn : UInt64)

namespace NasBsRun

variable (hmac : KeyedDigest)

/-- One call. The loops over the pending challenges run in any order of their keys. -/
def step (b : NasBs) : NasBsEvent → Option NasBs
  | .message order rand tmsi pdu =>
    if order.Perm b.pendingAuth.keys then some (b.handleMessage hmac order rand tmsi pdu).1
    else none
  | .adopt tmsi imsi => some (b.adoptUe tmsi imsi)
  | .release tmsi => some (b.releaseUe tmsi)
  | .setSqn imsi sqn => some (b.setSubscriberSqn imsi sqn)

/-- A registrar with the subscriber database `db` that has not handled anything yet. -/
def fresh (db : Bytes → Option Key256) : NasBs := { keys := db }

/-- The event makes the registrar send an AUTH_REQUEST to `t`, built with the key of
`imsi`, and wait for the answer `xres` under that IMSI. -/
def Challenges (db : Bytes → Option Key256) (t : Nat) (imsi xres : Bytes)
    (_before : List NasBsEvent) (b : NasBs) (e : NasBsEvent) : Prop :=
  ∃ order rand tmsi pdu k sqn ctx,
    e = .message order rand tmsi pdu ∧ db imsi = some k ∧
    (t, NasBs.challengeMessage (Aka.generate hmac k sqn rand.toList)) ∈
      (b.handleMessage hmac order rand tmsi pdu).2 ∧
    (Aka.generate hmac k sqn rand.toList).xres = xres ∧
    (b.handleMessage hmac order rand tmsi pdu).1.pendingAuth[t]? = some ctx ∧
    ctx.imsi = imsi ∧ ctx.xres = xres

/-- The event is an AUTH_RESPONSE whose sixteen octets are the expected response of a
challenge that was issued for `imsi` before and is still pending, under `t`. -/
def Answers (db : Bytes → Option Key256) (t : Nat) (imsi : Bytes) (before : List NasBsEvent)
    (b : NasBs) (e : NasBsEvent) : Prop :=
  ∃ order rand tmsi pdu pending,
    e = .message order rand tmsi pdu ∧
    (NasMessage.decode pdu).msgType = .authResponse ∧
    (NasMessage.decode pdu).value.length = 16 ∧
    b.pendingAuth[t]? = some pending ∧ pending.imsi = imsi ∧
    (NasMessage.decode pdu).value = pending.xres ∧
    Occurred (step hmac) (fresh db) (Challenges hmac db t imsi pending.xres) before

def Adopts (t : Nat) (imsi : Bytes) (_before : List NasBsEvent) (_b : NasBs) (e : NasBsEvent) :
    Prop :=
  e = .adopt t imsi

/-- What every history leaves: the database is untouched, each pending challenge was
issued for its IMSI, and each registered subscriber of the database was adopted or has
answered. -/
structure Authenticated (db : Bytes → Option Key256) (es : List NasBsEvent) (b : NasBs) :
    Prop where
  keys : b.keys = db
  pending : ∀ t ctx, b.pendingAuth[t]? = some ctx →
    ctx.tmsi = t ∧ db ctx.imsi = some ctx.k ∧
    Occurred (step hmac) (fresh db) (Challenges hmac db t ctx.imsi ctx.xres) es
  registered : ∀ t ctx, b.ueContexts[t]? = some ctx → db ctx.imsi ≠ none →
    Occurred (step hmac) (fresh db) (Adopts t ctx.imsi) es ∨
    Occurred (step hmac) (fresh db) (Answers hmac db t ctx.imsi) es

variable {hmac} {db : Bytes → Option Key256} {es : List NasBsEvent} {b b' : NasBs}

theorem authenticated_fresh : Authenticated hmac db [] (fresh db) where
  keys := rfl
  pending := by simp [fresh]
  registered := by simp [fresh]

/-- A step that adds no pending challenge and no context. -/
theorem Authenticated.of_subset (h : Authenticated hmac db es b) (e : NasBsEvent)
    (hkeys : b'.keys = b.keys)
    (hpending : b'.pendingAuth.Within b.pendingAuth)
    (hcontexts : b'.ueContexts.Within b.ueContexts) :
    Authenticated hmac db (es ++ [e]) b' where
  keys := hkeys.trans h.keys
  pending := by
    intro t ctx hget
    obtain ⟨htmsi, hkey, hissued⟩ := h.pending t ctx (hpending t ctx hget)
    exact ⟨htmsi, hkey, hissued.snoc e⟩
  registered := by
    intro t ctx hget hknown
    rcases h.registered t ctx (hcontexts t ctx hget) hknown with hadopted | hanswered
    · exact .inl (hadopted.snoc e)
    · exact .inr (hanswered.snoc e)

/-- A step that challenges `ctx`, whose key is the one of the database. -/
theorem Authenticated.of_challenge (h : Authenticated hmac db es b)
    (run : runFrom (step hmac) (fresh db) es = some b)
    {order : List Nat} {rand : Rand} {tmsi : Nat} {pdu : Bytes} {c : NasBs} {ctx : NasUeContext}
    (hkeys : c.keys = b.keys)
    (hpending : c.pendingAuth.Within b.pendingAuth)
    (hcontexts : c.ueContexts = b.ueContexts) (hkey : db ctx.imsi = some ctx.k)
    (heq : b.handleMessage hmac order rand tmsi pdu = c.sendChallenge hmac rand ctx) :
    Authenticated hmac db (es ++ [.message order rand tmsi pdu])
      (c.sendChallenge hmac rand ctx).1 where
  keys := hkeys.trans h.keys
  pending := by
    intro t p hget
    rw [NasBs.sendChallenge, TmsiMap.getElem?_insert_eq] at hget
    split at hget
    · rename_i ht
      obtain rfl := Option.some.inj hget
      subst ht
      refine ⟨rfl, hkey, occurred_last run ?_⟩
      refine ⟨order, rand, tmsi, pdu, ctx.k, (c.sqn ctx.imsi + 1) &&& Aka.kSqnMask,
        c.challenged hmac rand ctx, rfl, hkey, ?_, rfl, ?_, rfl, rfl⟩
      · rw [heq]
        exact List.mem_singleton.mpr rfl
      · rw [heq]
        exact Std.ExtTreeMap.getElem?_insert_self
    · obtain ⟨htmsi, hk, hissued⟩ := h.pending t p (hpending t p hget)
      exact ⟨htmsi, hk, hissued.snoc _⟩
  registered := by
    intro t p hget hknown
    have hold : b.ueContexts[t]? = some p := by rw [← hcontexts]; exact hget
    rcases h.registered t p hold hknown with hadopted | hanswered
    · exact .inl (hadopted.snoc _)
    · exact .inr (hanswered.snoc _)

/-- A step that enters one context, which is outside the database, adopted or answered. -/
theorem Authenticated.of_context (h : Authenticated hmac db es b) (e : NasBsEvent)
    {t : Nat} {ctx : NasUeContext} (hkeys : b'.keys = b.keys)
    (hpending : b'.pendingAuth.Within b.pendingAuth)
    (hcontexts : b'.ueContexts = b.ueContexts.insert t ctx)
    (hentered : db ctx.imsi ≠ none →
      Occurred (step hmac) (fresh db) (Adopts t ctx.imsi) (es ++ [e]) ∨
      Occurred (step hmac) (fresh db) (Answers hmac db t ctx.imsi) (es ++ [e])) :
    Authenticated hmac db (es ++ [e]) b' where
  keys := hkeys.trans h.keys
  pending := by
    intro t' p hget
    obtain ⟨htmsi, hkey, hissued⟩ := h.pending t' p (hpending t' p hget)
    exact ⟨htmsi, hkey, hissued.snoc e⟩
  registered := by
    intro t' p hget hknown
    rw [hcontexts, TmsiMap.getElem?_insert_eq] at hget
    split at hget
    · rename_i ht
      obtain rfl := Option.some.inj hget
      subst ht
      exact hentered hknown
    · rcases h.registered t' p hget hknown with hadopted | hanswered
      · exact .inl (hadopted.snoc e)
      · exact .inr (hanswered.snoc e)

theorem Authenticated.message (h : Authenticated hmac db es b)
    (run : runFrom (step hmac) (fresh db) es = some b) (order : List Nat) (rand : Rand)
    (tmsi : Nat) (pdu : Bytes) :
    Authenticated hmac db (es ++ [.message order rand tmsi pdu])
      (b.handleMessage hmac order rand tmsi pdu).1 := by
  have hhandled := NasBs.handleMessage_handled hmac b order rand tmsi pdu
  generalize hres : b.handleMessage hmac order rand tmsi pdu = res at hhandled
  obtain ⟨b', out⟩ := res
  cases hhandled with
  | ignored => exact h.of_subset _ rfl (TmsiMap.within_refl _) (TmsiMap.within_refl _)
  | rejected => exact h.of_subset _ rfl (TmsiMap.within_empty _) (TmsiMap.within_refl _)
  | dropped t => exact h.of_subset _ rfl (TmsiMap.within_erase _ _) (TmsiMap.within_refl _)
  | detached t => exact h.of_subset _ rfl (TmsiMap.within_refl _) (TmsiMap.within_erase _ _)
  | accepted htype hlen hfound =>
    rename_i t ctx
    obtain ⟨hpending, hxres⟩ := NasBs.mem_of_answeredChallenge hfound
    obtain ⟨htmsi, -, hissued⟩ := h.pending t ctx hpending
    refine h.of_context _ rfl (TmsiMap.within_erase _ _) rfl ?_
    intro _
    refine .inr (occurred_last run ⟨order, rand, tmsi, pdu, ctx, rfl, htype, hlen, ?_, rfl,
      hxres.symm, ?_⟩)
    · rw [htmsi]
      exact hpending
    · rw [htmsi]
      exact hissued
  | resynchronised sqn htype hfound =>
    rename_i t ctx
    obtain ⟨-, hkey, -⟩ := h.pending t ctx (NasBs.mem_of_failedChallenge hfound)
    exact h.of_challenge run rfl (TmsiMap.within_erase _ _) rfl hkey hres
  | challenged htype hkey =>
    rw [h.keys] at hkey
    exact h.of_challenge run rfl (TmsiMap.within_refl _) rfl hkey hres
  | openAccess htype hkey =>
    rw [h.keys] at hkey
    exact h.of_context _ rfl (TmsiMap.within_refl _) rfl fun hknown => absurd hkey hknown

theorem Authenticated.step_preserved (h : Authenticated hmac db es b) {e : NasBsEvent}
    (run : runFrom (step hmac) (fresh db) es = some b) (hstep : step hmac b e = some b') :
    Authenticated hmac db (es ++ [e]) b' := by
  cases e with
  | message order rand tmsi pdu =>
    dsimp only [step] at hstep
    split at hstep
    · obtain rfl := Option.some.inj hstep
      exact h.message run order rand tmsi pdu
    · cases hstep
  | adopt tmsi imsi =>
    obtain rfl := Option.some.inj hstep
    exact h.of_context _ rfl (TmsiMap.within_refl _) rfl
      fun _ => .inl (occurred_last run rfl)
  | release tmsi =>
    obtain rfl := Option.some.inj hstep
    exact h.of_subset _ rfl (TmsiMap.within_refl _) (TmsiMap.within_erase _ _)
  | setSqn imsi sqn =>
    obtain rfl := Option.some.inj hstep
    exact h.of_subset _ rfl (TmsiMap.within_refl _) (TmsiMap.within_refl _)

theorem authenticated_of_run (run : runFrom (step hmac) (fresh db) es = some b) :
    Authenticated hmac db es b :=
  runFrom_history (Authenticated hmac db)
    (fun _ _ _ _ hrun h hstep => h.step_preserved hrun hstep) authenticated_fresh run

end NasBsRun

/-! ## The registrar of the core -/

inductive AmfEvent where
  | message (rand : Rand) (msg : CnMessage)
  | release (tmsi : Nat)

namespace AmfRun

variable (hmac : KeyedDigest)

def step (a : Amf) : AmfEvent → Option Amf
  | .message rand msg => some (a.handle hmac rand msg).1
  | .release tmsi => some (a.releaseUe tmsi)

def fresh (db : Bytes → Option Key256) : Amf := { keys := db }

/-- The event makes the AMF send an AUTH_REQUEST for `t`, built with the key of `imsi`,
and wait for the answer `xres` under that IMSI. -/
def Challenges (db : Bytes → Option Key256) (t : Nat) (imsi xres : Bytes)
    (_before : List AmfEvent) (a : Amf) (e : AmfEvent) : Prop :=
  ∃ rand msg rnti k sqn ctx,
    e = .message rand msg ∧ db imsi = some k ∧
    Amf.downlinkNas t rnti (NasBs.challengeMessage (Aka.generate hmac k sqn rand.toList)) ∈
      (a.handle hmac rand msg).2 ∧
    (Aka.generate hmac k sqn rand.toList).xres = xres ∧
    (a.handle hmac rand msg).1.pendingAuth[t]? = some ctx ∧ ctx.imsi = imsi ∧
    (a.handle hmac rand msg).1.pendingRnti[t]? = some xres

/-- The event is an AUTH_RESPONSE under the TMSI `t` whose sixteen octets are the expected
response of a challenge issued for `imsi` before and still pending. -/
def Answers (db : Bytes → Option Key256) (t : Nat) (imsi : Bytes) (before : List AmfEvent)
    (a : Amf) (e : AmfEvent) : Prop :=
  ∃ rand msg pending xres,
    e = .message rand msg ∧ msg.msgType = .uplinkNas ∧ 10 ≤ msg.value.length ∧
    getU32 msg.value 0 = t ∧
    (Amf.uplinkMessage msg.value).msgType = .authResponse ∧
    (Amf.uplinkMessage msg.value).value.length = 16 ∧
    a.pendingAuth[t]? = some pending ∧ pending.imsi = imsi ∧
    a.pendingRnti[t]? = some xres ∧ (Amf.uplinkMessage msg.value).value = xres ∧
    Occurred (step hmac) (fresh db) (Challenges hmac db t imsi xres) before

/-- The same three facts as for a base station; here a pending challenge also has its
expected response in the table beside it. -/
structure Authenticated (db : Bytes → Option Key256) (es : List AmfEvent) (a : Amf) : Prop where
  keys : a.keys = db
  pending : ∀ t ctx, a.pendingAuth[t]? = some ctx →
    ctx.tmsi = t ∧ (∃ k, db ctx.imsi = some k) ∧
    ∃ xres, a.pendingRnti[t]? = some xres ∧
      Occurred (step hmac) (fresh db) (Challenges hmac db t ctx.imsi xres) es
  registered : ∀ t ctx, a.ueContexts[t]? = some ctx → db ctx.imsi ≠ none →
    Occurred (step hmac) (fresh db) (Answers hmac db t ctx.imsi) es

variable {hmac} {db : Bytes → Option Key256} {es : List AmfEvent} {a a' : Amf}

theorem authenticated_fresh : Authenticated hmac db [] (fresh db) where
  keys := rfl
  pending := by simp [fresh]
  registered := by simp [fresh]

/-- The pending challenges of `a'` are among those of `a`, with the same expected responses. -/
def KeepsPending (a a' : Amf) : Prop :=
  ∀ (t : Nat) (ctx : AmfUeContext), a'.pendingAuth[t]? = some ctx →
    a.pendingAuth[t]? = some ctx ∧ a'.pendingRnti[t]? = a.pendingRnti[t]?

theorem keepsPending_of_eq (hauth : a'.pendingAuth = a.pendingAuth)
    (hrnti : a'.pendingRnti = a.pendingRnti) : KeepsPending a a' := by
  intro t ctx hget
  rw [hauth] at hget
  rw [hrnti]
  exact ⟨hget, rfl⟩

/-- Erasing the same TMSI from both tables keeps them in step. -/
theorem keepsPending_of_erase {tmsi : Nat} (hauth : a'.pendingAuth = a.pendingAuth.erase tmsi)
    (hrnti : a'.pendingRnti = a.pendingRnti.erase tmsi) : KeepsPending a a' := by
  intro t ctx hget
  rw [hauth, TmsiMap.getElem?_erase_eq] at hget
  rw [hrnti, TmsiMap.getElem?_erase_eq]
  split at hget
  · cases hget
  · rename_i ht
    rw [if_neg ht]
    exact ⟨hget, rfl⟩

theorem Authenticated.pending_snoc (h : Authenticated hmac db es a) (e : AmfEvent)
    (hpending : KeepsPending a a') {t : Nat} {ctx : AmfUeContext}
    (hget : a'.pendingAuth[t]? = some ctx) :
    ctx.tmsi = t ∧ (∃ k, db ctx.imsi = some k) ∧
    ∃ xres, a'.pendingRnti[t]? = some xres ∧
      Occurred (step hmac) (fresh db) (Challenges hmac db t ctx.imsi xres) (es ++ [e]) := by
  obtain ⟨hold, hrnti⟩ := hpending t ctx hget
  obtain ⟨htmsi, hkey, xres, hxres, hissued⟩ := h.pending t ctx hold
  exact ⟨htmsi, hkey, xres, hrnti.trans hxres, hissued.snoc e⟩

theorem Authenticated.of_subset (h : Authenticated hmac db es a) (e : AmfEvent)
    (hkeys : a'.keys = a.keys) (hpending : KeepsPending a a')
    (hcontexts : a'.ueContexts.Within a.ueContexts) :
    Authenticated hmac db (es ++ [e]) a' where
  keys := hkeys.trans h.keys
  pending := fun _ _ hget => h.pending_snoc e hpending hget
  registered := by
    intro t ctx hget hknown
    exact (h.registered t ctx (hcontexts t ctx hget) hknown).snoc e

/-- A step that enters one context: outside the database, answered, or already there with
the same IMSI. -/
theorem Authenticated.of_context (h : Authenticated hmac db es a) (e : AmfEvent)
    {t : Nat} {ctx : AmfUeContext} (hkeys : a'.keys = a.keys) (hpending : KeepsPending a a')
    (hcontexts : a'.ueContexts = a.ueContexts.insert t ctx)
    (hentered : db ctx.imsi ≠ none →
      Occurred (step hmac) (fresh db) (Answers hmac db t ctx.imsi) (es ++ [e])) :
    Authenticated hmac db (es ++ [e]) a' where
  keys := hkeys.trans h.keys
  pending := fun _ _ hget => h.pending_snoc e hpending hget
  registered := by
    intro t' p hget hknown
    rw [hcontexts, TmsiMap.getElem?_insert_eq] at hget
    split at hget
    · rename_i ht
      obtain rfl := Option.some.inj hget
      subst ht
      exact hentered hknown
    · exact (h.registered t' p hget hknown).snoc e

/-- A new challenge is one that has just been issued. -/
theorem Authenticated.of_challenge (h : Authenticated hmac db es a)
    (run : runFrom (step hmac) (fresh db) es = some a) {rand : Rand} {msg : CnMessage} {c : Amf}
    {k : Key256} {ctx : AmfUeContext} (hkeys : c.keys = a.keys) (hpending : KeepsPending a c)
    (hcontexts : c.ueContexts = a.ueContexts) (hkey : db ctx.imsi = some k)
    (heq : a.handle hmac rand msg = c.issueChallenge hmac rand k ctx) :
    Authenticated hmac db (es ++ [.message rand msg]) (c.issueChallenge hmac rand k ctx).1 where
  keys := hkeys.trans h.keys
  pending := by
    intro t p hget
    dsimp only [Amf.issueChallenge] at hget ⊢
    rw [TmsiMap.getElem?_insert_eq] at hget ⊢
    split at hget
    · rename_i ht
      obtain rfl := Option.some.inj hget
      subst ht
      refine ⟨rfl, ⟨k, hkey⟩, _, if_pos rfl, occurred_last run ?_⟩
      refine ⟨rand, msg, ctx.servingRnti, k, (c.sqn ctx.imsi + 1) &&& Aka.kSqnMask, ctx, rfl, hkey,
        ?_, rfl, ?_, rfl, ?_⟩
      · rw [heq]
        exact List.mem_singleton.mpr rfl
      · rw [heq]
        exact Std.ExtTreeMap.getElem?_insert_self
      · rw [heq]
        exact Std.ExtTreeMap.getElem?_insert_self
    · rename_i ht
      rw [if_neg ht]
      exact h.pending_snoc _ hpending hget
  registered := by
    intro t p hget hknown
    have hold : a.ueContexts[t]? = some p := by rw [← hcontexts]; exact hget
    exact (h.registered t p hold hknown).snoc _

theorem Authenticated.message (h : Authenticated hmac db es a)
    (run : runFrom (step hmac) (fresh db) es = some a) (rand : Rand) (msg : CnMessage) :
    Authenticated hmac db (es ++ [.message rand msg]) (a.handle hmac rand msg).1 := by
  have hhandled := Amf.handle_handled hmac a rand msg
  generalize hres : a.handle hmac rand msg = res at hhandled
  obtain ⟨a', out⟩ := res
  cases hhandled with
  | kept hoTarget =>
    exact h.of_subset _ rfl (keepsPending_of_eq rfl rfl) (TmsiMap.within_refl _)
  | challenged rnti htype hkey =>
    rw [h.keys] at hkey
    exact h.of_challenge run rfl (keepsPending_of_eq rfl rfl) rfl hkey hres
  | openAccess rnti out htype hnas hlen hkey =>
    rw [h.keys] at hkey
    exact h.of_context _ rfl (keepsPending_of_eq rfl rfl) rfl fun hknown => absurd hkey hknown
  | resynchronised sqn tmsi rnti hpending =>
    rename_i ctx
    obtain ⟨-, ⟨k, hkey⟩, -⟩ := h.pending tmsi ctx hpending
    have hindex : a.keys ctx.imsi = some k := by rw [h.keys, hkey]
    -- the subscriber is known, so `keys_[fimsi]` reads and does not write
    rw [Amf.indexKey_eq_self hindex, hindex, Option.getD_some] at hres ⊢
    exact h.of_challenge run rfl (keepsPending_of_erase rfl rfl) rfl hkey hres
  | refused tmsi hpending =>
    rename_i ctx
    obtain ⟨-, ⟨k, hkey⟩, -⟩ := h.pending tmsi ctx hpending
    have hindex : a.keys ctx.imsi = some k := by rw [h.keys, hkey]
    rw [Amf.indexKey_eq_self hindex]
    exact h.of_subset _ rfl (keepsPending_of_erase rfl rfl) (TmsiMap.within_refl _)
  | dropped tmsi =>
    exact h.of_subset _ rfl (keepsPending_of_erase rfl rfl) (TmsiMap.within_refl _)
  | accepted out htype hlen hnas hsize hpending hmatch =>
    rename_i ctx
    obtain ⟨htmsi, -, xres, hxres, hissued⟩ := h.pending _ ctx hpending
    have hvalue : (Amf.uplinkMessage msg.value).value = xres := by
      rw [← hmatch, Std.ExtTreeMap.getD_eq_getD_getElem?, hxres, Option.getD_some]
    refine h.of_context _ rfl (keepsPending_of_erase rfl rfl) rfl ?_
    intro _
    rw [htmsi]
    exact occurred_last run ⟨rand, msg, ctx, xres, rfl, htype, hlen, rfl, hnas, hsize, hpending, rfl,
      hxres, hvalue, hissued⟩
  | released tmsi =>
    exact h.of_subset _ rfl (keepsPending_of_erase rfl rfl) (TmsiMap.within_erase _ _)
  | moved tmsi newRnti hoTarget out hctx =>
    exact h.of_context _ rfl (keepsPending_of_eq rfl rfl) rfl
      fun hknown => (h.registered tmsi _ hctx hknown).snoc _

theorem Authenticated.step_preserved (h : Authenticated hmac db es a) {e : AmfEvent}
    (run : runFrom (step hmac) (fresh db) es = some a) (hstep : step hmac a e = some a') :
    Authenticated hmac db (es ++ [e]) a' := by
  cases e with
  | message rand msg =>
    obtain rfl := Option.some.inj hstep
    exact h.message run rand msg
  | release tmsi =>
    obtain rfl := Option.some.inj hstep
    exact h.of_subset _ rfl (keepsPending_of_erase rfl rfl) (TmsiMap.within_erase _ _)

theorem authenticated_of_run (run : runFrom (step hmac) (fresh db) es = some a) :
    Authenticated hmac db es a :=
  runFrom_history (Authenticated hmac db)
    (fun _ _ _ _ hrun h hstep => h.step_preserved hrun hstep) authenticated_fresh run

end AmfRun

/-- In every run of either registrar over any fixed subscriber database, a context that
carries an IMSI of the database and is registered (and was not adopted) was preceded by an
AUTH_RESPONSE equal to the expected response of a challenge issued for that IMSI and
pending at that moment. -/
theorem registered_subscriber_has_answered (hmac : KeyedDigest) (db : Bytes → Option Key256) :
    (∀ (events : List NasBsEvent) (b : NasBs) (t : Nat) (ctx : NasUeContext),
      runFrom (NasBsRun.step hmac) (NasBsRun.fresh db) events = some b →
      b.ueContexts[t]? = some ctx → ctx.registered = true → db ctx.imsi ≠ none →
      Occurred (NasBsRun.step hmac) (NasBsRun.fresh db) (NasBsRun.Adopts t ctx.imsi) events ∨
      Occurred (NasBsRun.step hmac) (NasBsRun.fresh db)
        (NasBsRun.Answers hmac db t ctx.imsi) events) ∧
    (∀ (events : List AmfEvent) (a : Amf) (t : Nat) (ctx : AmfUeContext),
      runFrom (AmfRun.step hmac) (AmfRun.fresh db) events = some a →
      a.ueContexts[t]? = some ctx → ctx.registered = true → db ctx.imsi ≠ none →
      Occurred (AmfRun.step hmac) (AmfRun.fresh db) (AmfRun.Answers hmac db t ctx.imsi) events) := by
  constructor
  · intro events b t ctx run hget _ hknown
    exact (NasBsRun.authenticated_of_run run).registered t ctx hget hknown
  · intro events a t ctx run hget _ hknown
    exact (AmfRun.authenticated_of_run run).registered t ctx hget hknown

/-! ## One subscriber that attaches -/

/-- A digest to run the registrars with. -/
def zeroDigest : KeyedDigest := fun _ _ => Vector.replicate 32 0

def oneSubscriber : Bytes → Option Key256 :=
  fun imsi => if imsi = [1] then some (Vector.replicate 32 1) else none

def attachMessage : Bytes := NasMessage.encode { msgType := .attachRequest, value := [1] }

def responseMessage : Bytes :=
  NasMessage.encode { msgType := .authResponse, value := List.replicate 16 0 }

/-- ATTACH_REQUEST and the answer to the challenge for `tmsi`. -/
def attachCalls (tmsi : Nat) (rand : UInt8) : List NasBsEvent :=
  [.message [] (Vector.replicate 16 rand) 0 attachMessage,
    .message [tmsi] (Vector.replicate 16 rand) 0 responseMessage]

def coreAttachCalls (tmsi : Nat) (rand : UInt8) : List AmfEvent :=
  [.message (Vector.replicate 16 rand) ⟨.initialUeMsg, putU16 7 ++ attachMessage⟩,
    .message (Vector.replicate 16 rand)
      ⟨.uplinkNas, putU32 tmsi ++ putU16 7 ++ putU16 19 ++ responseMessage⟩]

/-- The context both registrars hold after the first attach. -/
def firstContext : NasUeContext :=
  { imsi := [1], tmsi := 65537, registered := true, k := Vector.replicate 32 1,
    xres := List.replicate 16 0, sessionK := Vector.replicate 32 0, rand := List.replicate 16 0 }

def firstCoreContext : AmfUeContext :=
  { imsi := [1], tmsi := 65537, registered := true, servingRnti := 7 }

theorem registered_subscriber_has_answered_first :
    (Occurred (NasBsRun.step zeroDigest) (NasBsRun.fresh oneSubscriber)
        (NasBsRun.Adopts 65537 [1]) (attachCalls 65537 0) ∨
      Occurred (NasBsRun.step zeroDigest) (NasBsRun.fresh oneSubscriber)
        (NasBsRun.Answers zeroDigest oneSubscriber 65537 [1]) (attachCalls 65537 0)) ∧
    Occurred (AmfRun.step zeroDigest) (AmfRun.fresh oneSubscriber)
      (AmfRun.Answers zeroDigest oneSubscriber 65537 [1]) (coreAttachCalls 65537 0) := by
  constructor
  · exact (registered_subscriber_has_answered zeroDigest oneSubscriber).1 (attachCalls 65537 0)
      ((runFrom (NasBsRun.step zeroDigest) (NasBsRun.fresh oneSubscriber)
        (attachCalls 65537 0)).get (by decide))
      65537 firstContext (Option.some_get _).symm (by decide) rfl (by decide)
  · exact (registered_subscriber_has_answered zeroDigest oneSubscriber).2 (coreAttachCalls 65537 0)
      ((runFrom (AmfRun.step zeroDigest) (AmfRun.fresh oneSubscriber)
        (coreAttachCalls 65537 0)).get (by decide))
      65537 firstCoreContext (Option.some_get _).symm (by decide) rfl (by decide)

end AetherStack.Guarantees
