import AetherStack.Guarantees.Network

/-!
# The C-RNTIs of a run

`Kept` are the C-RNTIs of contexts the UE may still ask for: suspended, waiting for
re-establishment, or named in the request its RACH carries. With the one it holds and the one
MSG4 offers they are its anchors: the contexts it may come back to.

`Allocated` holds in every run in which no C-RNTI is handed out twice. The order in which the
UE takes up C-RNTIs matters for it: a handover command is addressed to the C-RNTI it replaces,
so that no command is carried out twice.
-/
namespace AetherStack.Guarantees
open Source Lib

def Kept (u : UeNode) (rnti : Nat) : Prop :=
  rnti ≠ 0 ∧
    ((u.rrc = .inactive ∧ rnti = u.suspendedCrnti) ∨
      (u.rachActive = true ∧ (u.pendingCcch = some (.resumeRequest rnti) ∨
        u.pendingCcch = some (.reestablishmentRequest rnti))) ∨
      (u.reestablishPending = true ∧ rnti = u.preRlfCrnti))

/-- The node gives up its C-RNTI or holds on to it, and keeps no context but its own. -/
structure Retreats (u u' : UeNode) : Prop where
  crnti : u'.crntiCache = u.crntiCache ∨ u'.crntiCache = 0
  rach : (u.rachActive = true → u.crntiCache = 0) → u'.rachActive = true → u'.crntiCache = 0
  kept : ∀ rnti, Kept u' rnti → Kept u rnti ∨ (rnti = u.crntiCache ∧ u'.crntiCache = 0)

/-- Only the C-RNTI, the random access and what the UE still names matter. -/
theorem Retreats.of_control {u u' : UeNode} (hcrnti : u'.crntiCache = u.crntiCache)
    (hrach : u'.rachActive = u.rachActive) (hkept : ∀ rnti, Kept u' rnti → Kept u rnti) :
    Retreats u u' where
  crnti := .inl hcrnti
  rach := by rw [hrach, hcrnti]; exact id
  kept := fun rnti h => .inl (hkept rnti h)

theorem Retreats.trans {u u' u'' : UeNode} (h : Retreats u u') (h' : Retreats u' u'') :
    Retreats u u'' where
  crnti := by
    rcases h'.crnti with heq | hzero
    · rw [heq]
      exact h.crnti
    · exact .inr hzero
  rach := fun hu => h'.rach (h.rach hu)
  kept := by
    intro rnti hkept
    rcases h'.kept rnti hkept with hmid | ⟨hrnti, hzero⟩
    · rcases h.kept rnti hmid with hold | ⟨hrnti, hzero⟩
      · exact .inl hold
      · refine .inr ⟨hrnti, ?_⟩
        rcases h'.crnti with heq | hzero'
        · rw [heq, hzero]
        · exact hzero'
    · rcases h.crnti with heq | hzero'
      · exact .inr ⟨hrnti.trans heq, hzero⟩
      · exact absurd (hrnti.trans hzero') hkept.1

theorem retreats_maybeStartAttach (u : UeNode) : Retreats u u.maybeStartAttach := by
  unfold UeNode.maybeStartAttach
  split
  · exact .of_control rfl rfl fun _ h => h
  · split
    · rename_i hpending
      refine ⟨.inr rfl, fun _ _ => rfl, ?_⟩
      rintro rnti ⟨hne, ⟨hrrc, hrnti⟩ | ⟨-, hresume | hreest⟩ | hpre⟩
      · exact .inl ⟨hne, .inl ⟨hrrc, hrnti⟩⟩
      · cases hresume
      · cases hreest
        exact .inl ⟨hne, .inr (.inr ⟨hpending, rfl⟩)⟩
      · exact .inl ⟨hne, .inr (.inr hpre)⟩
    · refine ⟨.inr rfl, fun _ _ => rfl, ?_⟩
      rintro rnti ⟨hne, ⟨hrrc, -⟩ | ⟨-, hresume | hreest⟩ | hpre⟩
      · cases hrrc
      · cases hresume
      · cases hreest
      · exact .inl ⟨hne, .inr (.inr hpre)⟩

theorem retreats_attachRetry (u : UeNode) : Retreats u u.attachRetry := by
  unfold UeNode.attachRetry
  split
  · exact .of_control rfl rfl fun _ h => h
  · rename_i hguard
    refine Retreats.trans ⟨.inr rfl, fun _ _ => rfl, ?_⟩ (retreats_maybeStartAttach _)
    rintro rnti ⟨hne, ⟨hrrc, -⟩ | hrest⟩
    · cases hrrc
    · exact .inl ⟨hne, .inr hrest⟩

theorem retreats_wake (u : UeNode) : Retreats u u.wake := by
  unfold UeNode.wake
  split
  · exact .of_control rfl rfl fun _ h => h
  · rename_i hinactive
    refine ⟨.inr rfl, fun _ _ => rfl, ?_⟩
    rintro rnti ⟨hne, ⟨hrrc, -⟩ | ⟨-, hresume | hreest⟩ | hpre⟩
    · cases hrrc
    · cases hresume
      exact .inl ⟨hne, .inl ⟨not_not.mp hinactive, rfl⟩⟩
    · cases hreest
    · exact .inl ⟨hne, .inr (.inr hpre)⟩

theorem retreats_onRelease (u : UeNode) : Retreats u u.onRelease := by
  unfold UeNode.onRelease
  split
  · refine .of_control rfl rfl ?_
    rintro rnti ⟨hne, ⟨hrrc, -⟩ | hrest⟩
    · cases hrrc
    · exact ⟨hne, .inr hrest⟩
  · refine ⟨.inr rfl, fun _ _ => rfl, ?_⟩
    rintro rnti ⟨hne, ⟨-, hrnti⟩ | hrest⟩
    · exact .inr ⟨hrnti, rfl⟩
    · exact .inl ⟨hne, .inr hrest⟩

/-- Procedures that end in a state with no context suspended and no RACH running. -/
theorem Retreats.of_idle {u u' : UeNode} (hcrnti : u'.crntiCache = u.crntiCache ∨ u'.crntiCache = 0)
    (hrrc : u'.rrc ≠ .inactive) (hrach : u'.rachActive = false)
    (hpre : u'.reestablishPending = true →
      u.reestablishPending = true ∧ u'.preRlfCrnti = u.preRlfCrnti) : Retreats u u' where
  crnti := hcrnti
  rach := by
    intro _ hactive
    rw [hrach] at hactive
    cases hactive
  kept := by
    rintro rnti ⟨hne, ⟨hinactive, -⟩ | ⟨hactive, -⟩ | ⟨hpending, hrnti⟩⟩
    · exact absurd hinactive hrrc
    · rw [hrach] at hactive
      cases hactive
    · obtain ⟨hpending', heq⟩ := hpre hpending
      exact .inl ⟨hne, .inr (.inr ⟨hpending', hrnti.trans heq⟩)⟩

/-- No procedure leads to a C-RNTI the UE did not have. -/
theorem retreats_procedure (u : UeNode) (p : UeNode.Procedure) : Retreats u (u.procedure p) := by
  cases p with
  | attachRequest => exact .of_control rfl rfl fun _ h => h
  | nas m =>
    dsimp only [UeNode.procedure, UeNode.handleNas]
    split <;> exact .of_control rfl rfl fun _ h => h
  | maybeStartAttach => exact retreats_maybeStartAttach u
  | attachRetry => exact retreats_attachRetry u
  | rachFailure =>
    refine ⟨.inl rfl, fun _ hactive => (by cases hactive), ?_⟩
    rintro rnti ⟨hne, hsusp | ⟨hactive, -⟩ | hpre⟩
    · exact .inl ⟨hne, .inl hsusp⟩
    · cases hactive
    · exact .inl ⟨hne, .inr (.inr hpre)⟩
  | wake => exact retreats_wake u
  | setup | resumeOk =>
    dsimp only [UeNode.procedure, UeNode.onSetup, UeNode.onResumeOk]
    split
    · exact .of_control rfl rfl fun _ h => h
    · refine .of_control rfl rfl ?_
      rintro rnti ⟨hne, ⟨hrrc, -⟩ | hrest⟩
      · cases hrrc
      · exact ⟨hne, .inr hrest⟩
  | reestablishmentOk =>
    dsimp only [UeNode.procedure, UeNode.onReestablishmentOk]
    split
    · exact .of_control rfl rfl fun _ h => h
    · refine .of_control rfl rfl ?_
      rintro rnti ⟨hne, ⟨hrrc, -⟩ | hrach | ⟨hpending, -⟩⟩
      · cases hrrc
      · exact ⟨hne, .inr (.inl hrach)⟩
      · cases hpending
  | release => exact retreats_onRelease u
  | resumeFailure =>
    dsimp only [UeNode.procedure, UeNode.onResumeFailure]
    split
    · exact .of_control rfl rfl fun _ h => h
    · exact .of_idle (.inr rfl) (by simp) rfl fun h => ⟨h, rfl⟩
  | resumeGuard =>
    dsimp only [UeNode.procedure, UeNode.onResumeGuard]
    split
    · exact .of_control rfl rfl fun _ h => h
    · exact .of_idle (.inl rfl) (by simp) rfl fun h => ⟨h, rfl⟩

theorem retreats_reestablishFailed (u : UeNode) : Retreats u u.reestablishFailed :=
  .of_idle (.inr rfl) (by simp [UeNode.reestablishFailed]) rfl fun h => by cases h

theorem retreats_abortAttach (u : UeNode) : Retreats u u.abortAttach :=
  .of_idle (.inr rfl) (by simp [UeNode.abortAttach]) rfl fun h => ⟨h, rfl⟩

/-- After a radio link failure the UE asks for one context only. -/
theorem kept_declareRlf {u : UeNode} {rnti : Nat} (h : Kept u.declareRlf rnti) :
    rnti = u.crntiCache := by
  obtain ⟨-, ⟨hrrc, -⟩ | ⟨-, hresume | hreest⟩ | ⟨-, hpre⟩⟩ := h
  · cases hrrc
  · cases hresume
  · cases hreest
    rfl
  · exact hpre

theorem retreats_declareRlf (u : UeNode) : Retreats u u.declareRlf where
  crnti := .inr rfl
  rach := fun _ _ => rfl
  kept := fun _ hkept => .inr ⟨kept_declareRlf hkept, rfl⟩

theorem retreats_detach {hmac : Hmac} {u u' : UeNode} {detachPdu : Bytes} {b : AirBlock}
    (h : u.detach hmac detachPdu = (u', b)) (hactive : u.rrc ≠ .inactive) : Retreats u u' := by
  obtain ⟨rfl, -⟩ := Prod.mk.inj h
  refine .of_idle (.inr rfl) ?_ rfl fun h => ⟨h, rfl⟩
  dsimp only
  split
  · simp
  · exact hactive

namespace Network

structure Allocated (s : Network) : Prop where
  zero : 0 ∉ s.issued
  crnti : s.ue.crntiCache = 0 ∨ s.ue.crntiCache ∈ s.issued
  left : ∀ rnti ∈ s.left, rnti = 0 ∨ rnti ∈ s.issued
  current : s.ue.crntiCache ≠ 0 → s.ue.crntiCache ∉ s.left
  rach : s.ue.rachActive = true → s.ue.crntiCache = 0
  msg4 : ∀ c, s.msg4 = some c →
    c ∈ s.issued ∧ c ∉ s.left ∧ c ≠ s.ue.crntiCache ∧ ∀ x ∈ s.commands, x.2 ≠ c
  command : ∀ x ∈ s.commands, x.1 ∈ s.issued ∧ x.2 ∈ s.issued
  once : ∀ x ∈ s.commands, x.2 = s.ue.crntiCache ∨ x.2 ∈ s.left → x.1 ∈ s.left
  unique : ∀ x ∈ s.commands, ∀ y ∈ s.commands, x.2 = y.2 → x.1 = y.1
  kept : ∀ rnti, Kept s.ue rnti → rnti ∈ s.left
  detached : ∀ rnti ∈ s.detached, rnti = 0 ∨ rnti ∈ s.left
  admitted : ∀ rnti ∈ s.admitted, rnti ∈ s.issued
  contexts : ∀ rnti, s.contexts rnti = true → rnti ∈ s.admitted
  flows : ∀ rnti, rnti ∉ s.issued → s.flows rnti = {}
  uplink : ∀ b ∈ s.uplink, b.rnti = s.ue.crntiCache ∨ b.rnti ∈ s.left
  downlink : ∀ b ∈ s.downlink, b.rnti ∈ s.issued

theorem allocated_init (limit : Nat) : (init limit).Allocated where
  zero := by simp [init]
  crnti := .inl rfl
  left := by simp [init]
  current := fun h => absurd rfl h
  rach := fun _ => rfl
  msg4 := by simp [init]
  command := by simp [init]
  once := by simp [init]
  unique := by simp [init]
  kept := by simp [init, Kept]
  detached := by simp [init]
  admitted := by simp [init]
  contexts := by simp [init]
  flows := fun _ _ => rfl
  uplink := by simp [init]
  downlink := by simp [init]

variable {s s' : Network}

theorem Allocated.ne_zero (h : s.Allocated) {rnti : Nat} (hissued : rnti ∈ s.issued) : rnti ≠ 0 := by
  rintro rfl
  exact h.zero hissued

/-- A context stands at a C-RNTI that was issued. -/
theorem Allocated.issued_of_context (h : s.Allocated) {rnti : Nat} (hctx : s.contexts rnti = true) :
    rnti ∈ s.issued :=
  h.admitted rnti (h.contexts rnti hctx)

/-- Every step but those that hand out or take up a C-RNTI. -/
theorem Allocated.of_retreat (h : s.Allocated) (hr : Retreats s.ue s'.ue)
    (hleft : s'.left =
      if s'.ue.crntiCache = s.ue.crntiCache then s.left else s.ue.crntiCache :: s.left)
    (hissued : s'.issued = s.issued) (hcommands : s'.commands = s.commands)
    (hmsg4 : ∀ c, s'.msg4 = some c → s.msg4 = some c)
    (hdetached : ∀ rnti ∈ s'.detached,
      rnti ∈ s.detached ∨ (rnti = s.ue.crntiCache ∧ s'.ue.crntiCache = 0))
    (hadmitted : s'.admitted = s.admitted)
    (hcontexts : ∀ rnti, s'.contexts rnti = true → s.contexts rnti = true)
    (hflows : ∀ rnti, rnti ∉ s.issued → s'.flows rnti = s.flows rnti)
    (huplink : ∀ b ∈ s'.uplink, b ∈ s.uplink ∨ b.rnti = s.ue.crntiCache)
    (hdownlink : ∀ b ∈ s'.downlink, b ∈ s.downlink ∨ b.rnti ∈ s.issued) : s'.Allocated := by
  have hsub : ∀ rnti ∈ s.left, rnti ∈ s'.left := by
    intro rnti hmem
    rw [hleft]
    split
    · exact hmem
    · exact List.mem_cons_of_mem _ hmem
  have hmem : ∀ rnti ∈ s'.left, rnti = s.ue.crntiCache ∨ rnti ∈ s.left := by
    intro rnti hmem
    rw [hleft] at hmem
    split at hmem
    · exact .inr hmem
    · exact List.mem_cons.mp hmem
  have hgone : s.ue.crntiCache = s'.ue.crntiCache ∨ s.ue.crntiCache ∈ s'.left := by
    by_cases hsame : s'.ue.crntiCache = s.ue.crntiCache
    · exact .inl hsame.symm
    · right
      rw [hleft, if_neg hsame]
      exact List.mem_cons_self
  constructor
  · rw [hissued]
    exact h.zero
  · rcases hr.crnti with hsame | hzero
    · rw [hissued, hsame]
      exact h.crnti
    · exact .inl hzero
  · intro rnti hrnti
    rw [hissued]
    rcases hmem rnti hrnti with rfl | hold
    · exact h.crnti
    · exact h.left rnti hold
  · intro hne
    rcases hr.crnti with hsame | hzero
    · rw [hleft, if_pos hsame, hsame]
      exact h.current (by rwa [← hsame])
    · exact absurd hzero hne
  · exact hr.rach h.rach
  · intro c hc
    obtain ⟨hin, hnot, hne, htarget⟩ := h.msg4 c (hmsg4 c hc)
    rw [hissued, hcommands]
    refine ⟨hin, fun hl => ?_, ?_, htarget⟩
    · rcases hmem c hl with heq | hold
      · exact hne heq
      · exact hnot hold
    · rcases hr.crnti with hsame | hzero
      · rw [hsame]
        exact hne
      · rw [hzero]
        exact h.ne_zero hin
  · rw [hcommands, hissued]
    exact h.command
  · intro x hx htaken
    rw [hcommands] at hx
    apply hsub
    apply h.once x hx
    rcases htaken with hcur | hl
    · rcases hr.crnti with hsame | hzero
      · exact .inl (hcur.trans hsame)
      · exact absurd (hcur.trans hzero) (h.ne_zero (h.command x hx).2)
    · exact hmem x.2 hl
  · rw [hcommands]
    exact h.unique
  · intro rnti hkept
    rcases hr.kept rnti hkept with hold | ⟨hrnti, hzero⟩
    · exact hsub rnti (h.kept rnti hold)
    · rcases hgone with hsame | hl
      · exact absurd (hrnti.trans (hsame.trans hzero)) hkept.1
      · rw [hrnti]
        exact hl
  · intro rnti hrnti
    rcases hdetached rnti hrnti with hold | ⟨heq, hzero⟩
    · rcases h.detached rnti hold with hzero | hl
      · exact .inl hzero
      · exact .inr (hsub rnti hl)
    · rcases hgone with hsame | hl
      · exact .inl (heq.trans (hsame.trans hzero))
      · rw [heq]
        exact .inr hl
  · rw [hadmitted, hissued]
    exact h.admitted
  · intro rnti hctx
    rw [hadmitted]
    exact h.contexts rnti (hcontexts rnti hctx)
  · intro rnti hrnti
    rw [hissued] at hrnti
    rw [hflows rnti hrnti]
    exact h.flows rnti hrnti
  · intro b hb
    have hcur : b.rnti = s.ue.crntiCache → b.rnti = s'.ue.crntiCache ∨ b.rnti ∈ s'.left := by
      intro heq
      rw [heq]
      exact hgone
    rcases huplink b hb with hold | hnew
    · rcases h.uplink b hold with heq | hl
      · exact hcur heq
      · exact .inr (hsub _ hl)
    · exact hcur hnew
  · intro b hb
    rw [hissued]
    rcases hdownlink b hb with hold | hnew
    · exact h.downlink b hold
    · exact hnew

/-- The UE takes up a C-RNTI it never had: by MSG4, or by the command for the one it holds. -/
theorem Allocated.takeUp (h : s.Allocated) {c : Nat} (hc : c ∈ s.issued) (hnew : c ∉ s.left)
    (hne : c ≠ s.ue.crntiCache)
    (hcommand : ∀ x ∈ s.commands, x.2 = c → x.1 = s.ue.crntiCache)
    (hcrnti : s'.ue.crntiCache = c) (hrach : s'.ue.rachActive = false)
    (hkept : ∀ rnti, Kept s'.ue rnti → Kept s.ue rnti)
    (hleft : s'.left = s.ue.crntiCache :: s.left)
    (hmsg4 : ∀ c', s'.msg4 = some c' → s.msg4 = some c' ∧ c' ≠ c)
    (hissued : s'.issued = s.issued) (hcommands : s'.commands = s.commands)
    (hdetached : s'.detached = s.detached) (hadmitted : s'.admitted = s.admitted)
    (hcontexts : s'.contexts = s.contexts) (hflows : s'.flows = s.flows)
    (huplink : s'.uplink = s.uplink) (hdownlink : s'.downlink = s.downlink) : s'.Allocated := by
  have hsub : ∀ rnti ∈ s.left, rnti ∈ s'.left := by
    rw [hleft]
    exact fun rnti hmem => List.mem_cons_of_mem _ hmem
  have hgone : s.ue.crntiCache ∈ s'.left := by
    rw [hleft]
    exact List.mem_cons_self
  constructor
  · rw [hissued]
    exact h.zero
  · rw [hcrnti, hissued]
    exact .inr hc
  · intro rnti hrnti
    rw [hissued]
    rw [hleft] at hrnti
    rcases List.mem_cons.mp hrnti with rfl | hold
    · exact h.crnti
    · exact h.left rnti hold
  · intro _
    rw [hcrnti, hleft]
    exact fun hl => (List.mem_cons.mp hl).elim hne hnew
  · intro hactive
    rw [hrach] at hactive
    cases hactive
  · intro c' hc'
    obtain ⟨hold, hdiff⟩ := hmsg4 c' hc'
    obtain ⟨hin, hnot, hcur, htarget⟩ := h.msg4 c' hold
    rw [hissued, hcommands, hcrnti, hleft]
    exact ⟨hin, fun hl => (List.mem_cons.mp hl).elim hcur hnot, hdiff, htarget⟩
  · rw [hcommands, hissued]
    exact h.command
  · intro x hx htaken
    rw [hcommands] at hx
    rw [hcrnti, hleft] at htaken
    rcases htaken with heq | hl
    · rw [hcommand x hx heq]
      exact hgone
    · exact hsub _ (h.once x hx (List.mem_cons.mp hl))
  · rw [hcommands]
    exact h.unique
  · exact fun rnti hk => hsub rnti (h.kept rnti (hkept rnti hk))
  · intro rnti hrnti
    rw [hdetached] at hrnti
    exact (h.detached rnti hrnti).imp id (hsub rnti)
  · rw [hadmitted, hissued]
    exact h.admitted
  · rw [hcontexts, hadmitted]
    exact h.contexts
  · rw [hflows, hissued]
    exact h.flows
  · intro b hb
    rw [huplink] at hb
    right
    rcases h.uplink b hb with heq | hl
    · rw [heq]
      exact hgone
    · exact hsub _ hl
  · rw [hdownlink, hissued]
    exact h.downlink

/-- A new C-RNTI is handed out, by MSG4 or for a handover. -/
theorem Allocated.issue (h : s.Allocated) {c : Nat} (hzero : c ≠ 0) (hfresh : c ∉ s.issued)
    (hissued : s'.issued = c :: s.issued)
    (hmsg4 : ∀ c', s'.msg4 = some c' → s.msg4 = some c' ∨ (c' = c ∧ s'.commands = s.commands))
    (hcommands : ∀ x ∈ s'.commands, x ∈ s.commands ∨ (x.1 ∈ s.issued ∧ x.2 = c))
    (hunique : ∀ x ∈ s'.commands, ∀ y ∈ s'.commands, x.2 = c → y.2 = c → x.1 = y.1)
    (hadmitted : s'.admitted = s.admitted ∨ s'.admitted = c :: s.admitted)
    (hcontexts : ∀ rnti, s'.contexts rnti = true → rnti ∈ s'.admitted)
    (hflows : ∀ rnti, rnti ≠ c → s'.flows rnti = s.flows rnti ∨ s'.flows rnti = {})
    (hue : s'.ue = s.ue) (hleft : s'.left = s.left) (hdetached : s'.detached = s.detached)
    (huplink : s'.uplink = s.uplink) (hdownlink : s'.downlink = s.downlink) : s'.Allocated := by
  have hne : ∀ rnti ∈ s.issued, rnti ≠ c := by
    rintro rnti hin rfl
    exact hfresh hin
  have hsub : ∀ rnti ∈ s.issued, rnti ∈ s'.issued := by
    rw [hissued]
    exact fun rnti hin => List.mem_cons_of_mem _ hin
  have hmem : c ∈ s'.issued := by
    rw [hissued]
    exact List.mem_cons_self
  have hnotleft : c ∉ s.left := fun hl => (h.left c hl).elim hzero hfresh
  have hnotcur : c ≠ s.ue.crntiCache := by
    rintro rfl
    exact h.crnti.elim hzero hfresh
  constructor
  · rw [hissued]
    exact fun hin => (List.mem_cons.mp hin).elim hzero.symm h.zero
  · rw [hue]
    exact h.crnti.imp id (hsub _)
  · intro rnti hrnti
    rw [hleft] at hrnti
    exact (h.left rnti hrnti).imp id (hsub _)
  · rw [hue, hleft]
    exact h.current
  · rw [hue]
    exact h.rach
  · intro c' hc'
    rw [hue, hleft]
    rcases hmsg4 c' hc' with hold | ⟨rfl, hsame⟩
    · obtain ⟨hin, hnot, hcur, htarget⟩ := h.msg4 c' hold
      refine ⟨hsub _ hin, hnot, hcur, fun x hx => ?_⟩
      rcases hcommands x hx with hx' | ⟨-, heq⟩
      · exact htarget x hx'
      · rw [heq]
        exact (hne c' hin).symm
    · refine ⟨hmem, hnotleft, hnotcur, fun x hx => ?_⟩
      rw [hsame] at hx
      exact hne _ (h.command x hx).2
  · intro x hx
    rcases hcommands x hx with hx' | ⟨hin, heq⟩
    · exact ⟨hsub _ (h.command x hx').1, hsub _ (h.command x hx').2⟩
    · rw [heq]
      exact ⟨hsub _ hin, hmem⟩
  · intro x hx htaken
    rw [hue, hleft] at htaken
    rw [hleft]
    rcases hcommands x hx with hx' | ⟨-, heq⟩
    · exact h.once x hx' htaken
    · rw [heq] at htaken
      exact (htaken.elim hnotcur hnotleft).elim
  · intro x hx y hy hxy
    rcases hcommands x hx with hx' | ⟨-, hxc⟩
    · rcases hcommands y hy with hy' | ⟨-, hyc⟩
      · exact h.unique x hx' y hy' hxy
      · exact absurd (hxy.trans hyc) (hne _ (h.command x hx').2)
    · exact hunique x hx y hy hxc (hxy.symm.trans hxc)
  · rw [hue, hleft]
    exact h.kept
  · rw [hdetached, hleft]
    exact h.detached
  · intro rnti hrnti
    rcases hadmitted with hsame | hcons
    · rw [hsame] at hrnti
      exact hsub _ (h.admitted rnti hrnti)
    · rw [hcons] at hrnti
      rcases List.mem_cons.mp hrnti with rfl | hold
      · exact hmem
      · exact hsub _ (h.admitted rnti hold)
  · exact hcontexts
  · intro rnti hrnti
    rw [hissued] at hrnti
    obtain ⟨hrc, hold⟩ := not_or.mp (mt List.mem_cons.mpr hrnti)
    rcases hflows rnti hrc with hsame | hempty
    · rw [hsame]
      exact h.flows rnti hold
    · exact hempty
  · rw [huplink, hue, hleft]
    exact h.uplink
  · intro b hb
    rw [hdownlink] at hb
    exact hsub _ (h.downlink b hb)

/-- Steps that change the UE and the uplink only. -/
theorem Allocated.of_ue (h : s.Allocated) (hr : Retreats s.ue s'.ue)
    (hleft : s'.left =
      if s'.ue.crntiCache = s.ue.crntiCache then s.left else s.ue.crntiCache :: s.left)
    (hmsg4 : ∀ c, s'.msg4 = some c → s.msg4 = some c) (hissued : s'.issued = s.issued)
    (hcommands : s'.commands = s.commands) (hdetached : s'.detached = s.detached)
    (hadmitted : s'.admitted = s.admitted) (hcontexts : s'.contexts = s.contexts)
    (hflows : s'.flows = s.flows)
    (huplink : ∀ b ∈ s'.uplink, b ∈ s.uplink ∨ b.rnti = s.ue.crntiCache)
    (hdownlink : s'.downlink = s.downlink) : s'.Allocated := by
  apply h.of_retreat hr hleft hissued hcommands hmsg4
  · rw [hdetached]
    exact fun _ hmem => .inl hmem
  · exact hadmitted
  · rw [hcontexts]
    exact fun _ hctx => hctx
  · rw [hflows]
    exact fun _ _ => rfl
  · exact huplink
  · rw [hdownlink]
    exact fun _ hmem => .inl hmem

/-- Steps that change a flow in use and the downlink only. -/
theorem Allocated.of_flow (h : s.Allocated) {rnti : Nat} (hin : rnti ∈ s.issued)
    (hue : s'.ue = s.ue) (hleft : s'.left = s.left) (hmsg4 : s'.msg4 = s.msg4)
    (hissued : s'.issued = s.issued) (hcommands : s'.commands = s.commands)
    (hdetached : s'.detached = s.detached) (hadmitted : s'.admitted = s.admitted)
    (hcontexts : ∀ rnti, s'.contexts rnti = true → s.contexts rnti = true)
    (hflows : ∀ rnti', rnti' ≠ rnti → s'.flows rnti' = s.flows rnti')
    (huplink : s'.uplink = s.uplink)
    (hdownlink : ∀ b ∈ s'.downlink, b ∈ s.downlink ∨ b.rnti = rnti) : s'.Allocated := by
  apply h.of_retreat _ _ hissued hcommands _ _ hadmitted hcontexts
  · rintro rnti' hnot
    apply hflows
    rintro rfl
    exact hnot hin
  · rw [huplink]
    exact fun _ hmem => .inl hmem
  · intro b hb
    rcases hdownlink b hb with hold | rfl
    · exact .inl hold
    · exact .inr hin
  · rw [hue]
    exact .of_control rfl rfl fun _ hk => hk
  · rw [hue, if_pos rfl]
    exact hleft
  · rw [hmsg4]
    exact fun _ hc => hc
  · rw [hdetached]
    exact fun _ hmem => .inl hmem

@[simp] theorem setFlow_self (s : Network) (rnti : Nat) (f : DlFlow) :
    (s.setFlow rnti f).flows rnti = f := by
  simp [setFlow]

theorem setFlow_of_ne {rnti rnti' : Nat} (f : DlFlow) (hne : rnti' ≠ rnti) :
    (s.setFlow rnti f).flows rnti' = s.flows rnti' := by
  simp [setFlow, hne]

/-- Erasing a flow allocates nothing. -/
theorem Allocated.eraseFlow (h : s.Allocated) (rnti : Nat) : (s.eraseFlow rnti).Allocated := by
  refine h.of_retreat (.of_control rfl rfl fun _ hk => hk) (if_pos rfl).symm rfl rfl
    (fun _ hc => hc) (fun _ hmem => .inl hmem) rfl (fun _ hctx => hctx) (fun rnti' hnot => ?_)
    (fun _ hmem => .inl hmem) fun _ hmem => .inl hmem
  by_cases hrnti : rnti' = rnti
  · subst hrnti
    simp [Network.eraseFlow, setFlow, h.flows rnti' hnot]
  · exact setFlow_of_ne _ hrnti

theorem update_true {f : Nat → Bool} {crnti rnti : Nat}
    (h : Function.update f crnti true rnti = true) : rnti = crnti ∨ f rnti = true := by
  by_cases hrnti : rnti = crnti
  · exact .inl hrnti
  · rw [Function.update_of_ne hrnti] at h
    exact .inr h

theorem update_false {f : Nat → Bool} {old rnti : Nat}
    (h : Function.update f old false rnti = true) : rnti ≠ old ∧ f rnti = true := by
  by_cases hrnti : rnti = old
  · rw [hrnti, Function.update_self] at h
    cases h
  · rw [Function.update_of_ne hrnti] at h
    exact ⟨hrnti, h⟩

theorem Allocated.contexts_cons (h : s.Allocated) {crnti : Nat} {contexts : Nat → Bool}
    (hnew : ∀ {rnti}, contexts rnti = true → rnti = crnti ∨ s.contexts rnti = true) (rnti : Nat)
    (hctx : contexts rnti = true) : rnti ∈ crnti :: s.admitted := by
  rcases hnew hctx with rfl | hold
  · exact List.mem_cons_self
  · exact List.mem_cons_of_mem _ (h.contexts rnti hold)

/-- MSG4 with any of the answers to the request: contexts go or come at the new C-RNTI, and
flows are erased. -/
theorem Allocated.sendMsg4 (h : s.Allocated) {crnti : Nat} (hzero : crnti ≠ 0)
    (hfresh : crnti ∉ s.issued) (hissued : s'.issued = crnti :: s.issued)
    (hmsg4 : s'.msg4 = some crnti) (hcommands : s'.commands = s.commands)
    (hadmitted : s'.admitted = s.admitted ∨ s'.admitted = crnti :: s.admitted)
    (hcontexts : ∀ rnti, s'.contexts rnti = true → rnti ∈ s'.admitted)
    (hflows : ∀ rnti, rnti ≠ crnti → s'.flows rnti = s.flows rnti ∨ s'.flows rnti = {})
    (hue : s'.ue = s.ue) (hleft : s'.left = s.left) (hdetached : s'.detached = s.detached)
    (huplink : s'.uplink = s.uplink) (hdownlink : s'.downlink = s.downlink) : s'.Allocated := by
  refine h.issue hzero hfresh hissued ?_ ?_ ?_ hadmitted hcontexts hflows hue hleft hdetached huplink
    hdownlink
  · intro c hc
    rw [hmsg4] at hc
    exact .inr ⟨(Option.some.inj hc).symm, hcommands⟩
  · rw [hcommands]
    exact fun x hx => .inl hx
  · rw [hcommands]
    exact fun x hx y hy hxc hyc => h.unique x hx y hy (hxc.trans hyc.symm)

/-- A fresh C-RNTI in MSG4 is allocated from then on. -/
theorem Allocated.answerMsg3 (h : s.Allocated) {crnti : Nat} (hzero : crnti ≠ 0)
    (hfresh : crnti ∉ s.issued) (known : Bool) : (s.answerMsg3 crnti known).Allocated := by
  rcases s.answerMsg3_cases crnti known with ⟨-, heq⟩ | ⟨old, -, -, heq⟩ | heq
  · rw [heq]
    exact h.sendMsg4 hzero hfresh rfl rfl rfl (.inr rfl) (h.contexts_cons update_true)
      (fun _ _ => .inl rfl) rfl rfl rfl rfl rfl
  · rw [heq]
    refine h.sendMsg4 hzero hfresh rfl rfl rfl (.inr rfl) (h.contexts_cons fun hctx => ?_)
      (fun rnti hrnti => ?_) rfl rfl rfl rfl rfl
    · exact (update_true hctx).imp id fun hold => (update_false hold).2
    · simp only [Network.sendMsg4, moveFlow, Network.eraseFlow, setFlow,
        Function.update_of_ne hrnti]
      by_cases hold : rnti = old
      · simp [hold]
      · simp [hold]
  · rw [heq]
    exact h.sendMsg4 hzero hfresh rfl rfl rfl (.inl rfl) h.contexts (fun _ _ => .inl rfl)
      rfl rfl rfl rfl rfl

theorem Allocated.prepareHandover (h : s.Allocated) {source crnti : Nat}
    (hsource : source ∈ s.issued) (hzero : crnti ≠ 0) (hfresh : crnti ∉ s.issued) :
    (s.prepareHandover source crnti).Allocated := by
  have hcommands : ∀ x ∈ (s.prepareHandover source crnti).commands,
      x ∈ s.commands ∨ x = (source, crnti) := by
    intro x hx
    exact (List.mem_append.mp hx).imp id List.mem_singleton.mp
  have hsingle : ∀ x ∈ (s.prepareHandover source crnti).commands, x.2 = crnti → x.1 = source := by
    intro x hx hxc
    rcases hcommands x hx with hold | rfl
    · rw [← hxc] at hfresh
      exact absurd (h.command x hold).2 hfresh
    · rfl
  refine h.issue hzero hfresh rfl (fun _ hc => .inl hc) ?_ ?_ (.inr rfl)
    (h.contexts_cons update_true) (fun rnti hrnti => .inl (setFlow_of_ne _ hrnti)) rfl rfl rfl rfl rfl
  · intro x hx
    rcases hcommands x hx with hold | rfl
    · exact .inl hold
    · exact .inr ⟨hsource, rfl⟩
  · exact fun x hx y hy hxc hyc => (hsingle x hx hxc).trans (hsingle y hy hyc).symm

/-- A C-RNTI that is handed out is one that was not in use. -/
def FreshCrnti (s : Network) : NetworkEvent → Prop
  | .bsMsg3 crnti _ | .bsPrepareHandover _ crnti => crnti ≠ 0 ∧ crnti ∉ s.issued
  | _ => True

variable {hmac : Hmac}

/-- A block of the UE, which goes out under the C-RNTI it holds. -/
theorem Allocated.transmitUl (h : s.Allocated) {u u' : UeNode} {lcid : UInt8} {sdu : Bytes}
    {b : AirBlock} (hsend : UeNode.uplinkSend hmac u lcid sdu = (u', b))
    (hcrnti : u.crntiCache = s.ue.crntiCache) (hrach : u.rachActive = s.ue.rachActive)
    (hkept : ∀ rnti, Kept u rnti → Kept s.ue rnti) : (s.transmitUl (u', b)).Allocated := by
  obtain ⟨⟨hrnti, -⟩, hcases⟩ := UeNode.uplinkSend_cases hsend
  have hr : u'.crntiCache = s.ue.crntiCache ∧ Retreats s.ue u' := by
    rcases hcases with ⟨-, -, -, rfl⟩ | ⟨-, rfl⟩
    · exact ⟨hcrnti, .of_control hcrnti hrach hkept⟩
    · exact ⟨hcrnti, .of_control hcrnti hrach hkept⟩
  refine h.of_ue hr.2 (if_pos hr.1).symm (fun _ hc => hc) rfl rfl rfl rfl rfl rfl (fun b' hb' => ?_) rfl
  rcases List.mem_append.mp hb' with hold | hnew
  · exact .inl hold
  · rw [List.mem_singleton.mp hnew]
    exact .inr (hrnti.trans hcrnti)

/-- A command the UE can follow leads to a C-RNTI it has neither had nor left. -/
theorem Allocated.handover (h : s.Allocated) {index c : Nat}
    (hget : s.commands[index]? = some (s.ue.crntiCache, c)) :
    c ∈ s.issued ∧ c ∉ s.left ∧ c ≠ s.ue.crntiCache ∧ s.ue.crntiCache ≠ 0 := by
  have hx := List.mem_of_getElem? hget
  obtain ⟨hcur, hc⟩ := h.command _ hx
  have hne := h.ne_zero hcur
  refine ⟨hc, fun hl => ?_, fun heq => ?_, hne⟩
  · exact h.current hne (h.once _ hx (.inr hl))
  · exact h.current hne (h.once _ hx (.inl heq))

/-- Something to send is found in flows of issued C-RNTIs only. -/
theorem Allocated.issued_of_schedule (h : s.Allocated) {rnti : Nat} {f : DlFlow} {b : AirBlock}
    (hsched : (s.flows rnti).scheduleDownlink hmac rnti = some (f, b)) : rnti ∈ s.issued := by
  by_contra hnot
  rw [h.flows rnti hnot] at hsched
  cases hsched

/-- Step lemma: with fresh C-RNTIs the allocation stays in order. -/
theorem Allocated.step (h : s.Allocated) {e : NetworkEvent} (hfresh : s.FreshCrnti e)
    (hstep : step hmac s e = some s') : s'.Allocated := by
  cases transition_of_step hmac hstep with
  | ueSend | ueTick =>
    exact h.of_ue (.of_control rfl rfl fun _ hk => hk) (if_pos rfl).symm (fun _ hc => hc) rfl rfl
      rfl rfl rfl rfl (fun _ hmem => .inl hmem) rfl
  | uePump u b hpump =>
    obtain ⟨p, bearers, -, hsend⟩ := UeNode.pumpAppBearers_cases hpump
    exact h.transmitUl hsend rfl rfl fun _ hk => hk
  | ueSendNas nasPdu u b hsend => exact h.transmitUl hsend rfl rfl fun _ hk => hk
  | ueReceive index b =>
    rcases s.ue.handleDedicatedSdu_cases hmac b.lcid b.sdu with ⟨q, pdu, -, heq⟩ | ⟨q, heq⟩ | heq
    all_goals
      rw [heq]
      exact h.of_ue (.of_control rfl rfl fun _ hk => hk) (if_pos rfl).symm (fun _ hc => hc) rfl rfl
        rfl rfl rfl rfl (fun _ hmem => .inl hmem) rfl
  | ueProcedure p =>
    refine h.of_ue (retreats_procedure s.ue p) rfl (fun c hc => ?_) rfl rfl rfl rfl rfl rfl
      (fun _ hmem => .inl hmem) rfl
    dsimp only at hc
    split at hc
    · cases hc
    · exact hc
  | ueResolve c hmsg4 hrach =>
    obtain ⟨hin, hnot, hne, htarget⟩ := h.msg4 c hmsg4
    refine h.takeUp hin hnot hne (fun x hx hxc => absurd hxc (htarget x hx)) rfl rfl ?_ (if_neg hne)
      (fun _ hc => (by cases hc)) rfl rfl rfl rfl rfl rfl rfl rfl
    rintro rnti ⟨hzero, hsusp | ⟨hactive, -⟩ | hpre⟩
    · exact ⟨hzero, .inl hsusp⟩
    · cases hactive
    · exact ⟨hzero, .inr (.inr hpre)⟩
  | ueReestablishFailed =>
    exact h.of_ue (retreats_reestablishFailed s.ue) rfl (fun _ hc => hc) rfl rfl rfl rfl rfl rfl
      (fun _ hmem => .inl hmem) rfl
  | ueAbort =>
    exact h.of_ue (retreats_abortAttach s.ue) rfl (fun _ hc => hc) rfl rfl rfl rfl rfl rfl
      (fun _ hmem => .inl hmem) rfl
  | ueDetach detachPdu u b hregistered hactive hdetach =>
    have hzero : u.crntiCache = 0 := by
      obtain ⟨rfl, -⟩ := Prod.mk.inj hdetach
      rfl
    have hrnti : b.rnti = s.ue.crntiCache := by
      obtain ⟨-, rfl⟩ := Prod.mk.inj hdetach
      exact (UeNode.uplinkSend_cases rfl).1.1
    refine h.of_retreat (retreats_detach hdetach hactive) rfl rfl rfl (fun _ hc => hc)
      (fun rnti hrnti => ?_) rfl (fun _ hctx => hctx) (fun _ _ => rfl) (fun b' hb' => ?_)
      fun _ hmem => .inl hmem
    · exact (List.mem_cons.mp hrnti).elim (fun heq => .inr ⟨heq, hzero⟩) .inl
    · rcases List.mem_append.mp hb' with hold | hnew
      · exact .inl hold
      · rw [List.mem_singleton.mp hnew]
        exact .inr hrnti
  | ueHandover index c hget =>
    obtain ⟨hin, hnot, hne, hcur⟩ := h.handover hget
    have hx := List.mem_of_getElem? hget
    have hrach : s.ue.rachActive = false := by
      by_contra hactive
      exact hcur (h.rach (by simpa using hactive))
    refine h.takeUp hin hnot hne (fun x hx' hxc => h.unique x hx' _ hx hxc) rfl hrach ?_
      (if_neg hne) (fun c' hc' => ⟨hc', ((h.msg4 c' hc').2.2.2 _ hx).symm⟩) rfl rfl rfl rfl rfl rfl rfl
      rfl
    rintro rnti ⟨hzero, ⟨hrrc, -⟩ | hrest⟩
    · cases hrrc
    · exact ⟨hzero, .inr hrest⟩
  | ueRlf =>
    exact h.of_ue (retreats_declareRlf s.ue) rfl (fun _ hc => (by cases hc)) rfl rfl rfl rfl rfl rfl
      (fun _ hmem => .inl hmem) rfl
  | bsMsg3 c known => exact h.answerMsg3 hfresh.1 hfresh.2 known
  | bsSend rnti nowMs q sdu hadmitted =>
    exact h.of_flow (h.admitted rnti hadmitted) rfl rfl rfl rfl rfl rfl rfl (fun _ hctx => hctx)
      (fun _ hne => setFlow_of_ne _ hne) rfl fun _ hmem => .inl hmem
  | bsOperate rnti nowMs op hissued =>
    exact h.of_flow hissued rfl rfl rfl rfl rfl rfl rfl (fun _ hctx => hctx)
      (fun _ hne => setFlow_of_ne _ hne) rfl fun _ hmem => .inl hmem
  | bsSchedule rnti f b hsched =>
    obtain ⟨p, -, hblock, -⟩ := DlFlow.scheduleDownlink_cases hsched
    refine h.of_flow (h.issued_of_schedule hsched) rfl rfl rfl rfl rfl rfl rfl (fun _ hctx => hctx)
      (fun _ hne => setFlow_of_ne _ hne) rfl fun b' hb' => ?_
    rcases List.mem_append.mp hb' with hold | hnew
    · exact .inl hold
    · rw [List.mem_singleton.mp hnew]
      exact .inr hblock.1
  | bsReceive index nowMs b hget hcontext =>
    exact h.of_flow (h.issued_of_context hcontext) rfl rfl rfl rfl rfl rfl rfl (fun _ hctx => hctx)
      (fun _ hne => setFlow_of_ne _ hne) rfl fun _ hmem => .inl hmem
  | bsPrepareHandover source c hadmitted =>
    exact h.prepareHandover (h.admitted source hadmitted) hfresh.1 hfresh.2
  | bsDetach rnti => exact h.eraseFlow rnti
  | bsRelease rnti =>
    refine (h.eraseFlow rnti).of_retreat (.of_control rfl rfl fun _ hk => hk) (if_pos rfl).symm rfl
      rfl (fun _ hc => hc) (fun _ hmem => .inl hmem) rfl (fun _ hctx => (update_false hctx).2)
      (fun _ _ => rfl) (fun _ hmem => .inl hmem) fun _ hmem => .inl hmem

/-! ## Anchors -/

/-- Blocks to this C-RNTI reach the UE, now or once it has heard MSG4. -/
def Reaches (s : Network) (rnti : Nat) : Prop :=
  rnti ≠ 0 ∧ (rnti = s.ue.crntiCache ∨ (s.ue.rachActive = true ∧ s.msg4 = some rnti))

def Anchored (s : Network) (rnti : Nat) : Prop := s.Reaches rnti ∨ Kept s.ue rnti

theorem anchored_crnti {rnti : Nat} (hne : rnti ≠ 0) (hrnti : rnti = s.ue.crntiCache) :
    s.Anchored rnti :=
  .inl ⟨hne, .inl hrnti⟩

/-- An answer to MSG3 in `s'` is one in `s`. -/
def KeepsMsg4 (s s' : Network) : Prop :=
  ∀ c, s'.ue.rachActive = true → s'.msg4 = some c → s.ue.rachActive = true ∧ s.msg4 = some c

theorem reaches_of_retreat (hr : Retreats s.ue s'.ue) (hmsg4 : KeepsMsg4 s s') {rnti : Nat}
    (h : s'.Reaches rnti) : s.Reaches rnti := by
  obtain ⟨hne, hrnti | ⟨hactive, hc⟩⟩ := h
  · rcases hr.crnti with hsame | hzero
    · exact ⟨hne, .inl (hrnti.trans hsame)⟩
    · exact absurd (hrnti.trans hzero) hne
  · exact ⟨hne, .inr (hmsg4 rnti hactive hc)⟩

/-- A UE that retreats anchors no further C-RNTI. -/
theorem anchored_of_retreat (hr : Retreats s.ue s'.ue) (hmsg4 : KeepsMsg4 s s') {rnti : Nat}
    (h : s'.Anchored rnti) : s.Anchored rnti := by
  rcases h with hreach | hkept
  · exact .inl (reaches_of_retreat hr hmsg4 hreach)
  · rcases hr.kept rnti hkept with hold | ⟨hrnti, -⟩
    · exact .inr hold
    · exact anchored_crnti hkept.1 hrnti

/-- Random access is active when the procedure starts it or it was active before. -/
theorem procedure_rachActive (u : UeNode) (p : UeNode.Procedure)
    (h : (u.procedure p).rachActive = true) : p.startsRach = true ∨ u.rachActive = true := by
  cases p with
  | maybeStartAttach | attachRetry | wake => exact .inl rfl
  | attachRequest => exact .inr h
  | rachFailure => cases h
  | nas m =>
    dsimp only [UeNode.procedure, UeNode.handleNas] at h
    split at h <;> exact .inr h
  | setup => dsimp only [UeNode.procedure, UeNode.onSetup] at h; split at h <;> exact .inr h
  | resumeOk => dsimp only [UeNode.procedure, UeNode.onResumeOk] at h; split at h <;> exact .inr h
  | reestablishmentOk =>
    dsimp only [UeNode.procedure, UeNode.onReestablishmentOk] at h
    split at h <;> exact .inr h
  | release => dsimp only [UeNode.procedure, UeNode.onRelease] at h; split at h <;> exact .inr h
  | resumeFailure =>
    dsimp only [UeNode.procedure, UeNode.onResumeFailure] at h
    split at h
    · exact .inr h
    · cases h
  | resumeGuard =>
    dsimp only [UeNode.procedure, UeNode.onResumeGuard] at h
    split at h
    · exact .inr h
    · cases h

theorem keepsMsg4_procedure (s : Network) (p : UeNode.Procedure) : KeepsMsg4 s
    { s.setUe (s.ue.procedure p) with msg4 := if p.startsRach then none else s.msg4 } := by
  intro c hactive hc
  rcases procedure_rachActive s.ue p hactive with hstarts | hold
  · rw [if_pos hstarts] at hc
    cases hc
  · refine ⟨hold, ?_⟩
    dsimp only at hc
    split at hc
    · cases hc
    · exact hc

/-- MSG4 is the only way to the C-RNTI it offers. -/
theorem reaches_of_msg4 {c rnti : Nat} (hue : s'.ue = s.ue) (hmsg4 : s'.msg4 = some c)
    (hne : rnti ≠ c) (h : s'.Reaches rnti) : s.Reaches rnti := by
  obtain ⟨hzero, hcur | ⟨-, hc⟩⟩ := h
  · exact ⟨hzero, .inl (hue ▸ hcur)⟩
  · rw [hmsg4] at hc
    exact absurd (Option.some.inj hc).symm hne

theorem anchored_of_msg4 {c rnti : Nat} (hue : s'.ue = s.ue) (hmsg4 : s'.msg4 = some c)
    (hne : rnti ≠ c) (h : s'.Anchored rnti) : s.Anchored rnti :=
  h.imp (reaches_of_msg4 hue hmsg4 hne) fun hkept => hue ▸ hkept

/-- No block under way bears a fresh C-RNTI. -/
theorem Allocated.uplink_ne (h : s.Allocated) {c : Nat} (hzero : c ≠ 0) (hfresh : c ∉ s.issued)
    {b : AirBlock} (hb : b ∈ s.uplink) : b.rnti ≠ c := by
  rintro rfl
  rcases h.uplink b hb with hcur | hleft
  · rw [hcur] at hzero hfresh
    exact h.crnti.elim hzero hfresh
  · exact (h.left _ hleft).elim hzero hfresh

theorem Allocated.downlink_ne (h : s.Allocated) {c : Nat} (hfresh : c ∉ s.issued) {b : AirBlock}
    (hb : b ∈ s.downlink) : b.rnti ≠ c := by
  rintro rfl
  exact hfresh (h.downlink b hb)

/-- The context a request names is one the UE keeps. -/
theorem Allocated.requested (h : s.Allocated) (hrach : s.ue.rachActive = true) {old : Nat}
    (hrequest : s.ue.pendingCcch = some (.resumeRequest old) ∨
      s.ue.pendingCcch = some (.reestablishmentRequest old)) (hctx : s.contexts old = true) :
    old ∈ s.issued ∧ s.Anchored old := by
  have hin := h.issued_of_context hctx
  exact ⟨hin, .inr ⟨h.ne_zero hin, .inr (.inl ⟨hrach, hrequest⟩)⟩⟩

end Network

end AetherStack.Guarantees
