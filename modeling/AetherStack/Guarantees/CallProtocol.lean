import Mathlib.Tactic

/-!
# The call protocol of two parties for one call number

What is left of the call control when only one call number between two parties is looked
at, and only the messages that move a party between having no dialog, ringing out, ringing
in and being established: INVITE, 200, BYE, CANCEL, and 486 or 603 as one refusal. A number
is used by each side at most once to start a call, the caller gives up only before the
other side answered, and the callee answers only while no CANCEL is on its way. Under these
rules what can be in flight is one of a few words for each phase, and the joint states are
few enough to check that the list below is closed under every move.
-/
namespace AetherStack.Guarantees.CallProtocol

inductive Phase where
  | none | outgoing | incoming | established
  deriving DecidableEq, Repr

inductive Msg where
  | invite | ok | bye | refuse | cancel
  deriving DecidableEq, Repr

/-- One side: its phase, whether it has started a call under the number, and what it has
sent that the other side has not received. -/
structure Party where
  phase : Phase
  used : Bool
  sent : List Msg
  deriving DecidableEq, Repr

def Party.become (s : Party) (phase : Phase) (msgs : List Msg) : Party :=
  { s with phase := phase, sent := s.sent ++ msgs }

/-- What receiving a message may do: the next phase and the reply. An INVITE to a party
without a dialog rings, or is refused because another call occupies the party. -/
def receive : Phase → Msg → List (Phase × List Msg)
  | .none, .invite => [(.incoming, []), (.none, [.refuse])]
  | .established, .invite => [(.established, [.ok])]
  | .outgoing, .ok => [(.established, [])]
  | .established, .bye => [(.none, [])]
  | .outgoing, .refuse => [(.none, [])]
  | .incoming, .cancel => [(.none, [])]
  | p, _ => [(p, [])]

/-- The moves of `s` against `t`. -/
def moves (s t : Party) : List (Party × Party) :=
  (match s.phase with
    | .none => if s.used then [] else [({ s.become .outgoing [.invite] with used := true }, t)]
    | .outgoing => if t.phase = .established then [] else [(s.become .none [.cancel], t)]
    | .incoming => (s.become .none [.refuse], t) ::
        (if .cancel ∈ t.sent then [] else [(s.become .established [.ok], t)])
    | .established => [(s.become .none [.bye], t)]) ++
  match t.sent with
  | [] => []
  | m :: rest => (receive s.phase m).map fun r => (s.become r.1 r.2, { t with sent := rest })

/-! ## The invariant -/

/-- What can be in flight from a party in each phase. -/
def words : Phase → List (List Msg)
  | .outgoing => [[], [.invite], [.bye, .invite], [.refuse, .invite], [.ok, .bye, .invite]]
  | .established => [[], [.ok], [.bye, .ok], [.cancel, .ok], [.invite, .cancel, .ok]]
  | .incoming => [[], [.bye], [.cancel], [.invite, .cancel]]
  | .none => [[], [.bye], [.cancel], [.refuse], [.bye, .refuse], [.cancel, .refuse],
      [.invite, .cancel], [.ok, .bye], [.bye, .invite, .cancel], [.bye, .ok, .bye],
      [.cancel, .ok, .bye], [.invite, .cancel, .refuse], [.refuse, .invite, .cancel],
      [.invite, .cancel, .ok, .bye], [.ok, .bye, .invite, .cancel]]

/-- An established party faces an established one, or one its 200 is on the way to, or one
whose BYE comes next. -/
def Settled (s t : Party) : Prop :=
  s.phase = .established →
    (t.sent = [] ∧ (t.phase = .established ∧ s.sent = [] ∨
      t.phase = .outgoing ∧ s.sent.getLast? = some .ok)) ∨
    t.sent.head? = some .bye ∧ s.sent = []

/-- A party that rings is still being called, or the CANCEL comes next; an INVITE on its way
has no answer yet and finds a party that was not called before. -/
def Fresh (s t : Party) : Prop :=
  (s.phase = .incoming → (t.sent = [] ∧ t.phase = .outgoing) ∨ t.sent.head? = some .cancel) ∧
  (.invite ∈ s.sent → .ok ∉ t.sent ∧ .refuse ∉ t.sent) ∧
  (.invite ∈ t.sent ∨ s.phase = .incoming → .bye ∈ s.sent → s.used = true ∧ .invite ∉ s.sent)

/-- Who must have started a call for the messages in flight to be there. -/
def Owned (s t : Party) : Prop :=
  (s.phase = .outgoing ∨ .invite ∈ s.sent ∨ .cancel ∈ s.sent ∨ .ok ∈ t.sent ∨
    .refuse ∈ t.sent ∨ s.sent.take 2 = [.bye, .refuse] ∨ s.sent.take 2 = [.bye, .ok] →
      s.used = true) ∧
  (s.phase = .established ∨ .bye ∈ s.sent → s.used = true ∨ t.used = true) ∧
  (s.sent.take 2 = [.bye, .invite] → t.used = true)

instance (s t : Party) : Decidable (Settled s t) := by
  unfold Settled
  infer_instance

instance (s t : Party) : Decidable (Fresh s t) := by
  unfold Fresh
  infer_instance

instance (s t : Party) : Decidable (Owned s t) := by
  unfold Owned
  infer_instance

def Fits (s t : Party) : Prop := Settled s t ∧ Fresh s t ∧ Owned s t

instance (s t : Party) : Decidable (Fits s t) :=
  inferInstanceAs (Decidable (Settled s t ∧ Fresh s t ∧ Owned s t))

/-- Both sides say what their phase allows, and fit each other. -/
structure Consistent (s t : Party) : Prop where
  spoken : s.sent ∈ words s.phase
  spoken' : t.sent ∈ words t.phase
  fits : Fits s t
  fits' : Fits t s

theorem Consistent.swap {s t : Party} (h : Consistent s t) : Consistent t s :=
  ⟨h.spoken', h.spoken, h.fits', h.fits⟩

/-- Every party that says what its phase allows. -/
def parties : List Party :=
  [Phase.none, .outgoing, .incoming, .established].flatMap fun p =>
    (words p).flatMap fun w => [⟨p, false, w⟩, ⟨p, true, w⟩]

theorem mem_parties {s : Party} (h : s.sent ∈ words s.phase) : s ∈ parties := by
  obtain ⟨phase, used, sent⟩ := s
  refine List.mem_flatMap.mpr ⟨phase, ?_, List.mem_flatMap.mpr ⟨sent, h, ?_⟩⟩
  · cases phase <;> decide
  · cases used <;> simp

/-- The moves of two consistent parties stay among the parties that were enumerated. -/
private theorem parties_closed : ∀ s ∈ parties, ∀ t ∈ parties, Fits s t → Fits t s →
    ∀ c ∈ moves s t, (c.1.sent ∈ words c.1.phase ∧ c.2.sent ∈ words c.2.phase) ∧
      Fits c.1 c.2 ∧ Fits c.2 c.1 := by
  decide +kernel

/-- Whatever either party does next, the two stay consistent. -/
theorem Consistent.move {s t : Party} (h : Consistent s t) {c : Party × Party}
    (hc : c ∈ moves s t) : Consistent c.1 c.2 := by
  obtain ⟨⟨hs, ht⟩, hfits, hfits'⟩ := parties_closed s (mem_parties h.spoken) t
    (mem_parties h.spoken') h.fits h.fits' c hc
  exact ⟨hs, ht, hfits, hfits'⟩

/-- A number taken for a call to somebody else changes nothing between these two. -/
theorem Consistent.take {s t : Party} (h : Consistent s t) :
    Consistent { s with used := true } t := by
  obtain ⟨hsettled, hfresh, howned⟩ := h.fits
  obtain ⟨hsettled', hfresh', howned'⟩ := h.fits'
  refine ⟨h.spoken, h.spoken', ⟨hsettled, ?_, ?_⟩, ⟨hsettled', hfresh', ?_⟩⟩
  · exact ⟨hfresh.1, hfresh.2.1, fun hring hbye => ⟨rfl, (hfresh.2.2 hring hbye).2⟩⟩
  · exact ⟨fun _ => rfl, fun _ => .inl rfl, howned.2.2⟩
  · exact ⟨howned'.1, fun _ => .inr rfl, fun _ => rfl⟩

/-- With nothing in flight both sides are established or neither is. -/
theorem Consistent.agree {s t : Party} (h : Consistent s t) (hs : s.sent = []) (ht : t.sent = []) :
    s.phase = .established ↔ t.phase = .established := by
  have hone : ∀ {s t : Party}, Consistent s t → s.sent = [] → t.sent = [] →
      s.phase = .established → t.phase = .established := by
    intro s t h hs ht hest
    rcases h.fits.1 hest with ⟨-, ⟨hother, -⟩ | ⟨-, hlast⟩⟩ | ⟨hhead, -⟩
    · exact hother
    · simp [hs] at hlast
    · simp [ht] at hhead
  exact ⟨hone h hs ht, hone h.swap ht hs⟩

end AetherStack.Guarantees.CallProtocol
