import AetherStack.Lib.Run
import AetherStack.Source.U2u

/-!
# The conferences of a base station

The table follows the signalling that passes through. `maybeEnd` compares two lengths; that the
comparison asks for an open invitation rests on the answered parties being invited ones.
-/
namespace AetherStack.Guarantees
open Source Lib

namespace ConferenceTable

/-- The lists of one conference. -/
structure Consistent (c : Conference) : Prop where
  named : c.host ≠ []
  host : c.host ∈ c.members
  members : c.members.Nodup
  invited : c.invited.Nodup
  resolved : c.resolved.Nodup
  answered : c.resolved ⊆ c.invited

/-- Somebody to talk to, or somebody who may still come. -/
def Ongoing (c : Conference) : Prop := 2 ≤ c.members.length ∨ ∃ party ∈ c.invited, party ∉ c.resolved

def Sound (t : ConfTable) : Prop := ∀ (id : Nat) (c : Conference), t[id]? = some c → Consistent c ∧ Ongoing c

variable {t : ConfTable} {c : Conference} {id : Nat} {src dst imsi : Imsi}

/-- The comparison of `maybeEnd`. -/
theorem Consistent.ongoing (h : Consistent c)
    (hopen : c.members.length ≥ 2 ∨ c.invited.length ≠ c.resolved.length) : Ongoing c := by
  rcases hopen with hmembers | hlengths
  · exact .inl hmembers
  · refine .inr ?_
    by_contra hnone
    push Not at hnone
    have hle : c.invited.length ≤ c.resolved.length := (List.subperm_of_subset h.invited hnone).length_le
    have hge : c.resolved.length ≤ c.invited.length := (List.subperm_of_subset h.resolved h.answered).length_le
    exact hlengths (Nat.le_antisymm hle hge)

/-! ### Writers -/

theorem Sound.erase (ht : Sound t) (id : Nat) : Sound (t.erase id) := by
  intro j c hc
  rw [Std.ExtTreeMap.getElem?_erase] at hc
  split at hc
  · cases hc
  · exact ht j c hc

theorem Sound.insert (ht : Sound t) (hc : Consistent c) (hongoing : Ongoing c) : Sound (t.insert id c) := by
  intro j c' hc'
  rw [Std.ExtTreeMap.getElem?_insert] at hc'
  split at hc'
  · obtain rfl := Option.some.inj hc'
    exact ⟨hc, hongoing⟩
  · exact ht j c' hc'

/-- A changed conference that may have to end. -/
theorem Sound.insert_maybeEnd (ht : Sound t) (hc : Consistent c) :
    Sound (ConfTable.maybeEnd (t.insert id c) id) := by
  have hget : (t.insert id c)[id]? = some c := Std.ExtTreeMap.getElem?_insert_self
  simp only [ConfTable.maybeEnd, hget]
  split
  · rename_i hopen
    exact ht.insert hc (hc.ongoing hopen)
  · intro j c' hc'
    rw [Std.ExtTreeMap.getElem?_erase] at hc'
    split at hc'
    · cases hc'
    · rename_i hother
      rw [Std.ExtTreeMap.getElem?_insert, if_neg hother] at hc'
      exact ht j c' hc'

/-! ### Operations -/

/-- A member other than the host may leave. -/
theorem Consistent.filter (h : Consistent c) (hother : imsi ≠ c.host) :
    Consistent { c with members := c.members.filter (· ≠ imsi) } :=
  { h with
    host := by simpa using ⟨h.host, Ne.symm hother⟩
    members := h.members.filter _ }

theorem Sound.leave (ht : Sound t) (id : Nat) (imsi : Imsi) : Sound (t.leave id imsi) := by
  unfold ConfTable.leave
  split
  · exact ht
  · rename_i c hget
    split
    · exact ht.erase id
    · rename_i hother
      exact ht.insert_maybeEnd ((ht id c hget).1.filter hother)

theorem Sound.purgeMember (ht : Sound t) (imsi : Imsi) : Sound (t.purgeMember imsi) := by
  unfold ConfTable.purgeMember
  generalize t.keys = ids
  induction ids generalizing t with
  | nil => exact ht
  | cons id ids ih =>
    refine ih ?_
    dsimp only
    split
    · exact ht
    · split
      · exact ht.leave id imsi
      · exact ht

theorem Consistent.invite (h : Consistent c) (hnew : dst ∉ c.invited) :
    Consistent { c with invited := c.invited ++ [dst] } :=
  { h with
    invited := by
      rw [← List.concat_eq_append]
      exact h.invited.concat hnew
    answered := fun _ hx => List.mem_append_left _ (h.answered hx) }

theorem Ongoing.invite (h : Ongoing c) : Ongoing { c with invited := c.invited ++ [dst] } := by
  rcases h with hmembers | ⟨party, hinvited, hopen⟩
  · exact .inl hmembers
  · exact .inr ⟨party, List.mem_append_left _ hinvited, hopen⟩

/-- The first INVITE with an id opens the conference, with its sender as the host. -/
theorem Sound.onInvite (ht : Sound t) (hsrc : src ≠ []) : Sound (t.onInvite id src dst) := by
  unfold ConfTable.onInvite
  dsimp only
  cases hget : t[id]? with
  | none =>
    have hc : Consistent { host := src, members := [src], invited := [dst] } :=
      ⟨hsrc, by simp, by simp, by simp, by simp, by simp⟩
    have hongoing : Ongoing { host := src, members := [src], invited := [dst] } := .inr ⟨dst, by simp, by simp⟩
    simpa using ht.insert hc hongoing
  | some c =>
    obtain ⟨hc, hongoing⟩ := ht id c hget
    rw [Option.getD_some, if_neg hc.named]
    split
    · rename_i hnew
      exact ht.insert (hc.invite hnew.2) hongoing.invite
    · exact ht.insert hc hongoing

theorem Consistent.answer (h : Consistent c) {party : Imsi} (hinvited : party ∈ c.invited)
    (hopen : party ∉ c.resolved) : Consistent { c with resolved := c.resolved ++ [party] } :=
  { h with
    resolved := by
      rw [← List.concat_eq_append]
      exact h.resolved.concat hopen
    answered := by
      intro x hx
      rcases List.mem_append.mp hx with hx | hx
      · exact h.answered hx
      · rw [List.mem_singleton.mp hx]
        exact hinvited }

/-- An answer of an invited party keeps the table sound, also when it ends the conference. -/
theorem Sound.resolve (ht : Sound t) (hget : t[id]? = some c) (party : Imsi) : Sound (t.resolve id c party) := by
  unfold ConfTable.resolve
  split
  · rename_i hopen
    exact ht.insert_maybeEnd ((ht id c hget).1.answer hopen.1 hopen.2)
  · exact ht

/-- Who joins is not alone: the host is there. -/
theorem onJoin_sound (src : Imsi) (hc : Consistent c) (hongoing : Ongoing c) :
    Consistent (ConfTable.onJoin c src) ∧ Ongoing (ConfTable.onJoin c src) := by
  unfold ConfTable.onJoin
  split
  · exact ⟨hc, hongoing⟩
  · rename_i hnew
    have hmembers : (c.members ++ [src]).Nodup := by
      rw [← List.concat_eq_append]
      exact hc.members.concat hnew
    have htwo : 2 ≤ (c.members ++ [src]).length := by
      have hpos := List.length_pos_of_mem hc.host
      rw [List.length_append, List.length_singleton]
      omega
    refine ⟨?_, .inl htwo⟩
    dsimp only
    split
    · rename_i hopen
      exact { hc.answer hopen.1 hopen.2 with
        host := List.mem_append_left _ hc.host
        members := hmembers }
    · exact { hc with
        host := List.mem_append_left _ hc.host
        members := hmembers }

/-- Step lemma: every snooped message keeps the table sound. -/
theorem Sound.snoopSig (ht : Sound t) (hsrc : src ≠ []) (dst : Imsi) (msg : SigMessage) :
    Sound (t.snoopSig src dst msg) := by
  unfold ConfTable.snoopSig
  dsimp only
  split
  · exact ht.onInvite hsrc
  · split
    · exact ht
    · rename_i c hget
      obtain ⟨hc, hongoing⟩ := ht _ c hget
      split
      · obtain ⟨hjoined, hjoinedOngoing⟩ := onJoin_sound src hc hongoing
        exact ht.insert hjoined hjoinedOngoing
      · split
        · exact ht.leave _ src
        · exact ht
      · exact ht.resolve hget src
      · exact ht.resolve hget src
      · split
        · exact ht.resolve hget dst
        · exact ht
      · exact ht

/-! ### What a purge leaves -/

/-- What is left of a conference without a party: it ends with its host, and when nobody is left
to talk to or to come. -/
def without (imsi : Imsi) (c : Conference) : Option Conference :=
  if imsi = c.host then none
  else if (c.members.filter (· ≠ imsi)).length ≥ 2 ∨ c.invited.length ≠ c.resolved.length then
    some { c with members := c.members.filter (· ≠ imsi) }
  else none

theorem getElem?_leave (t : ConfTable) (id : Nat) (imsi : Imsi) (id' : Nat) :
    (t.leave id imsi)[id']? = if id = id' then t[id]?.bind (without imsi) else t[id']? := by
  unfold ConfTable.leave
  cases hget : t[id]? with
  | none =>
    dsimp only
    split
    · rename_i heq
      rw [← heq, hget]
      rfl
    · rfl
  | some c =>
    rw [Option.bind_some, without]
    dsimp only
    split
    · rw [Std.ExtTreeMap.getElem?_erase]
      simp only [compare_eq_iff_eq]
    · simp only [ConfTable.maybeEnd, Std.ExtTreeMap.getElem?_insert_self]
      split
      · rw [Std.ExtTreeMap.getElem?_insert]
        simp only [compare_eq_iff_eq]
      · rw [Std.ExtTreeMap.getElem?_erase]
        simp only [compare_eq_iff_eq]
        split
        · rfl
        · rename_i hother
          rw [Std.ExtTreeMap.getElem?_insert, if_neg (by simpa using hother)]

/-- A conference the party has no part in stays as it is. -/
def purged (imsi : Imsi) (c : Conference) : Option Conference :=
  if c.host = imsi ∨ imsi ∈ c.members then without imsi c else some c

/-- A loop that treats every entry by itself. -/
theorem getElem?_foldl_each {f : ConfTable → Nat → ConfTable} (g : Conference → Option Conference)
    (hf : ∀ (s : ConfTable) (i j : Nat), (f s i)[j]? = if i = j then s[i]?.bind g else s[j]?) {ids : List Nat}
    (hids : ids.Nodup) (s : ConfTable) (id : Nat) :
    (ids.foldl f s)[id]? = if id ∈ ids then s[id]?.bind g else s[id]? := by
  induction ids generalizing s with
  | nil => rfl
  | cons i ids ih =>
    obtain ⟨hfresh, hrest⟩ := List.nodup_cons.mp hids
    rw [List.foldl_cons, ih hrest, hf]
    by_cases heq : i = id
    · subst heq
      rw [if_neg hfresh, if_pos rfl, if_pos List.mem_cons_self]
    · simp only [if_neg heq, List.mem_cons, Ne.symm heq, false_or]

theorem getElem?_purgeMember (t : ConfTable) (imsi : Imsi) (id : Nat) :
    (t.purgeMember imsi)[id]? = t[id]?.bind (purged imsi) := by
  unfold ConfTable.purgeMember
  rw [getElem?_foldl_each (purged imsi) (fun s i j => ?_) t.nodup_keys]
  · split
    · rfl
    · rename_i hout
      rw [Std.ExtTreeMap.mem_keys] at hout
      rw [Std.ExtTreeMap.getElem?_eq_none hout]
      rfl
  · cases hget : s[i]? with
    | none =>
      dsimp only
      split
      · rename_i heq
        rw [← heq, hget]
        rfl
      · rfl
    | some c =>
      rw [Option.bind_some, purged]
      dsimp only
      split
      · rw [getElem?_leave, hget]
        rfl
      · split
        · rename_i heq
          rw [← heq, hget]
        · rfl

/-- The party is neither host nor member of a conference of the table. -/
def Apart (imsi : Imsi) (t : ConfTable) : Prop :=
  ∀ (id : Nat) (c : Conference), t[id]? = some c → c.host ≠ imsi ∧ imsi ∉ c.members

/-- After a purge the subscriber is in no conference. -/
theorem apart_purgeMember (t : ConfTable) (imsi : Imsi) : Apart imsi (t.purgeMember imsi) := by
  intro id c hc
  rw [getElem?_purgeMember] at hc
  obtain ⟨c₀, -, hpurged⟩ := Option.bind_eq_some_iff.mp hc
  unfold purged at hpurged
  split at hpurged
  · unfold without at hpurged
    split at hpurged
    · cases hpurged
    · rename_i hother
      split at hpurged
      · obtain rfl := Option.some.inj hpurged
        exact ⟨Ne.symm hother, by simp⟩
      · cases hpurged
  · rename_i hnot
    obtain rfl := Option.some.inj hpurged
    exact not_or.mp hnot

/-- The conference outlives the purge of a party. -/
def Outlives (imsi : Imsi) (c : Conference) : Prop :=
  c.host ≠ imsi ∧ (imsi ∈ c.members →
    (c.members.filter (· ≠ imsi)).length ≥ 2 ∨ c.invited.length ≠ c.resolved.length)

/-- The purge of one party and the conferences of another. -/
theorem apart_purgeMember_iff (t : ConfTable) (other imsi : Imsi) : Apart imsi (t.purgeMember other) ↔
    other = imsi ∨ ∀ (id : Nat) (c : Conference), t[id]? = some c → Outlives other c →
      c.host ≠ imsi ∧ imsi ∉ c.members := by
  by_cases heq : other = imsi
  · subst heq
    exact iff_of_true (apart_purgeMember t other) (.inl rfl)
  · have hkept : ∀ c : Conference, Outlives other c → ∃ c', purged other c = some c' ∧
        c'.host = c.host ∧ (imsi ∈ c'.members ↔ imsi ∈ c.members) := by
      intro c ⟨hhost, hmember⟩
      by_cases hmem : other ∈ c.members
      · refine ⟨{ c with members := c.members.filter (· ≠ other) }, ?_, rfl, ?_⟩
        · rw [purged, if_pos (.inr hmem), without, if_neg (Ne.symm hhost), if_pos (hmember hmem)]
        · simp [Ne.symm heq]
      · exact ⟨c, by rw [purged, if_neg (not_or.mpr ⟨hhost, hmem⟩)], rfl, Iff.rfl⟩
    constructor
    · intro hapart
      refine .inr fun id c hc houtlives => ?_
      obtain ⟨c', hpurged, hhost, hmem⟩ := hkept c houtlives
      have hc' : (t.purgeMember other)[id]? = some c' := by rw [getElem?_purgeMember, hc]; exact hpurged
      rw [← hhost, ← hmem]
      exact hapart id c' hc'
    · rintro (hsame | hrest) id c' hc'
      · exact absurd hsame heq
      · rw [getElem?_purgeMember] at hc'
        obtain ⟨c, hc, hpurged⟩ := Option.bind_eq_some_iff.mp hc'
        have houtlives : Outlives other c := by
          unfold purged without at hpurged
          split at hpurged
          · split at hpurged
            · cases hpurged
            · rename_i hother
              split at hpurged
              · rename_i hopen
                exact ⟨Ne.symm hother, fun _ => hopen⟩
              · cases hpurged
          · rename_i hnot
            exact ⟨fun h => hnot (.inl h), fun h => absurd (.inr h) hnot⟩
        obtain ⟨c'', hpurged', hhost, hmem⟩ := hkept c houtlives
        obtain rfl := Option.some.inj (hpurged.symm.trans hpurged')
        rw [hhost, hmem]
        exact hrest id c hc houtlives

/-! ### What snooping adds -/

variable {c' : Conference}

theorem getElem?_insert_some {j : Nat} (h : (t.insert id c)[j]? = some c') :
    (j = id ∧ c' = c) ∨ t[j]? = some c' := by
  rw [Std.ExtTreeMap.getElem?_insert] at h
  split at h
  · rename_i heq
    exact .inl ⟨(compare_eq_iff_eq.mp heq).symm, (Option.some.inj h).symm⟩
  · exact .inr h

theorem getElem?_maybeEnd_some {j : Nat} (h : (t.maybeEnd id)[j]? = some c') : t[j]? = some c' := by
  unfold ConfTable.maybeEnd at h
  split at h
  · exact h
  · split at h
    · exact h
    · rw [Std.ExtTreeMap.getElem?_erase] at h
      split at h
      · cases h
      · exact h

/-- The entry was in the table with the same host, and nobody new but `new` is a member. -/
def Kept (t : ConfTable) (j : Nat) (c' : Conference) (new : Imsi → Prop) : Prop :=
  ∃ c, t[j]? = some c ∧ c'.host = c.host ∧ ∀ party ∈ c'.members, party ∈ c.members ∨ new party

theorem Kept.refl {j : Nat} {new : Imsi → Prop} (h : t[j]? = some c') : Kept t j c' new :=
  ⟨c', h, rfl, fun _ hparty => .inl hparty⟩

/-- What a departure leaves is what was there, without the one who left. -/
theorem leave_kept {j : Nat} {new : Imsi → Prop} (h : (t.leave id imsi)[j]? = some c') : Kept t j c' new := by
  rw [getElem?_leave] at h
  split at h
  · rename_i heq
    obtain ⟨c, hc, hwithout⟩ := Option.bind_eq_some_iff.mp h
    refine ⟨c, heq ▸ hc, ?_⟩
    unfold without at hwithout
    split at hwithout
    · cases hwithout
    · split at hwithout
      · obtain rfl := Option.some.inj hwithout
        exact ⟨rfl, fun party hparty => .inl (List.mem_filter.mp hparty).1⟩
      · cases hwithout
  · exact .refl h

theorem purgeMember_kept {j : Nat} (h : (t.purgeMember imsi)[j]? = some c') :
    Kept t j c' fun _ => False := by
  rw [getElem?_purgeMember] at h
  obtain ⟨c, hc, hpurged⟩ := Option.bind_eq_some_iff.mp h
  unfold purged at hpurged
  split at hpurged
  · have hleft : (t.leave j imsi)[j]? = some c' := by
      rw [getElem?_leave, if_pos rfl, hc]
      exact hpurged
    exact leave_kept hleft
  · obtain rfl := Option.some.inj hpurged
    exact .refl hc

theorem resolve_kept {j : Nat} {new : Imsi → Prop} {party : Imsi} (hget : t[id]? = some c)
    (h : (t.resolve id c party)[j]? = some c') : Kept t j c' new := by
  unfold ConfTable.resolve at h
  split at h
  · rcases getElem?_insert_some (getElem?_maybeEnd_some h) with ⟨rfl, rfl⟩ | hold
    · exact ⟨c, hget, rfl, fun _ hparty => .inl hparty⟩
    · exact .refl hold
  · exact .refl h

/-- An entry after an INVITE: a member is the sender where the entry had no host. -/
theorem onInvite_kept {j : Nat} (h : (t.onInvite id src dst)[j]? = some c') :
    Kept t j c' (fun _ => False) ∨ (j = id ∧ c'.host = src ∧
      ∀ party ∈ c'.members, party = src ∨ ∃ c, t[j]? = some c ∧ c.host = [] ∧ party ∈ c.members) := by
  unfold ConfTable.onInvite at h
  dsimp only at h
  rcases getElem?_insert_some h with ⟨rfl, rfl⟩ | hold
  · cases hget : t[j]? with
    | none =>
      refine .inr ⟨rfl, ?_⟩
      rw [Option.getD_none, if_pos rfl]
      split
      · exact ⟨rfl, fun party hparty => .inl (List.mem_singleton.mp hparty)⟩
      · exact ⟨rfl, fun party hparty => .inl (List.mem_singleton.mp hparty)⟩
    | some c =>
      rw [Option.getD_some]
      by_cases hhost : c.host = []
      · refine .inr ⟨rfl, ?_⟩
        rw [if_pos hhost]
        have hmembers : ∀ party ∈ c.members ++ [src], party = src ∨
            ∃ c₀, some c = some c₀ ∧ c₀.host = [] ∧ party ∈ c₀.members := by
          intro party hparty
          rcases List.mem_append.mp hparty with hold | hnew
          · exact .inr ⟨c, rfl, hhost, hold⟩
          · exact .inl (List.mem_singleton.mp hnew)
        split
        · exact ⟨rfl, hmembers⟩
        · exact ⟨rfl, hmembers⟩
      · refine .inl ⟨c, hget, ?_⟩
        rw [if_neg hhost]
        split
        · exact ⟨rfl, fun _ hparty => .inl hparty⟩
        · exact ⟨rfl, fun _ hparty => .inl hparty⟩
  · exact .inl (.refl hold)

/-- An entry after a snooped message: at most the sender has joined it, or an INVITE has made the
sender its host. -/
theorem snoopSig_kept {msg : SigMessage} {j : Nat} (h : (t.snoopSig src dst msg)[j]? = some c') :
    Kept t j c' (fun party => j = msg.confId.toNat ∧ party = src) ∨
      (msg.method = .invite ∧ j = msg.confId.toNat ∧ c'.host = src ∧
        ∀ party ∈ c'.members, party = src ∨ ∃ c, t[j]? = some c ∧ c.host = [] ∧ party ∈ c.members) := by
  unfold ConfTable.snoopSig at h
  dsimp only at h
  split at h
  · rename_i hmethod
    rcases onInvite_kept h with ⟨c, hc, hhost, hmembers⟩ | hinvite
    · exact .inl ⟨c, hc, hhost, fun party hparty => .inl ((hmembers party hparty).resolve_right id)⟩
    · exact .inr ⟨hmethod, hinvite⟩
  · refine .inl ?_
    split at h
    · exact .refl h
    · rename_i c hget
      split at h
      · rcases getElem?_insert_some h with ⟨rfl, rfl⟩ | hold
        · refine ⟨c, hget, ?_⟩
          unfold ConfTable.onJoin
          split
          · exact ⟨rfl, fun _ hparty => .inl hparty⟩
          · refine ⟨rfl, fun party hparty => ?_⟩
            rcases List.mem_append.mp hparty with hold | hnew
            · exact .inl hold
            · exact .inr ⟨rfl, List.mem_singleton.mp hnew⟩
        · exact .refl hold
      · split at h
        · exact leave_kept h
        · exact .refl h
      · exact resolve_kept hget h
      · exact resolve_kept hget h
      · split at h
        · exact resolve_kept hget h
        · exact .refl h
      · exact .refl h

end ConferenceTable

/-- A message that passes, or a member whose context goes away. -/
inductive ConfEvent where
  | sig (src dst : Imsi) (msg : SigMessage)
  | purge (imsi : Imsi)
  deriving DecidableEq, Repr

/-- `decode_u2u` takes no packet without a source. -/
def ConfEvent.step (t : ConfTable) : ConfEvent → Option ConfTable
  | .sig src dst msg => if src = [] then none else some (t.snoopSig src dst msg)
  | .purge imsi => some (t.purgeMember imsi)

open ConferenceTable

/-- Step lemma: messages and purges alike. -/
theorem ConfEvent.step_sound {t t' : ConfTable} {e : ConfEvent} (ht : Sound t) (h : e.step t = some t') :
    Sound t' := by
  cases e with
  | sig src dst msg =>
    simp only [ConfEvent.step] at h
    split at h
    · cases h
    · rename_i hsrc
      obtain rfl := Option.some.inj h
      exact ht.snoopSig hsrc dst msg
  | purge imsi =>
    obtain rfl := Option.some.inj h
    exact ht.purgeMember imsi

/-- Every conference in the table, whatever was signalled: the host is a member, nobody is a member
or invited twice, who answered was invited, and there is somebody to talk to or to wait for. -/
theorem conferences_consistent {events : List ConfEvent} {t : ConfTable}
    (run : runFrom (fun t e => ConfEvent.step t e) ∅ events = some t) {id : Nat} {c : Conference}
    (h : t[id]? = some c) :
    c.host ∈ c.members ∧ c.members.Nodup ∧ c.resolved.Nodup ∧ c.resolved ⊆ c.invited ∧ c.invited.Nodup ∧
      (2 ≤ c.members.length ∨ ∃ party ∈ c.invited, party ∉ c.resolved) := by
  have hempty : Sound ∅ := fun id c hc => by simp at hc
  have hsound : Sound t :=
    runFrom_invariant Sound (fun _ _ _ ht hstep => ConfEvent.step_sound ht hstep) hempty run
  obtain ⟨hc, hongoing⟩ := hsound id c h
  exact ⟨hc.host, hc.members, hc.resolved, hc.answered, hc.invited, hongoing⟩

/-- A party that refused and joined after all, while another one is still asked. -/
theorem conferences_consistent_late_join :
    [1] ∈ ([[1], [2]] : List Imsi) ∧ ([[1], [2]] : List Imsi).Nodup ∧ ([[2]] : List Imsi).Nodup ∧
      ([[2]] : List Imsi) ⊆ [[2], [3]] ∧ ([[2], [3]] : List Imsi).Nodup ∧
      (2 ≤ ([[1], [2]] : List Imsi).length ∨ ∃ party ∈ ([[2], [3]] : List Imsi), party ∉ ([[2]] : List Imsi)) :=
  @conferences_consistent
    [.sig [1] [2] ⟨.invite, 1, .voice, 7⟩, .sig [1] [3] ⟨.invite, 2, .voice, 7⟩,
      .sig [2] [1] ⟨.decline603, 1, .voice, 7⟩, .sig [2] [1] ⟨.ok200, 1, .voice, 7⟩, .purge [4]]
    _ rfl 7 ⟨[1], [[1], [2]], [[2], [3]], [[2]], true⟩ (by decide)

end AetherStack.Guarantees
