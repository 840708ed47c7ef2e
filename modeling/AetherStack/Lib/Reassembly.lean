import Mathlib.Tactic

/-!
# Segmentation and in-order reassembly of a byte stream

A transmitter cuts every service data unit (SDU) into one or more segments that
carry a framing tag; a receiver is fed segments in stream order, may jump forward
over lost ones, and rebuilds SDUs. Nothing here names a protocol: the alphabet is
arbitrary and the receiver is the four-case accumulator every such protocol uses.

`Cursor stream pos done pre` says where position `pos` of the segment stream lies:
behind the complete SDUs `done`, with the segments `pre` of the next one already
passed. `Tracks` relates the accumulator and everything delivered so far to that
position. One accepted segment, one forward jump and one more SDU on the sending
side each keep it; at any time it gives the order-preserving subsequence, and the
prefix when no jump ever happens.
-/
namespace AetherStack.Lib.Reassembly

variable {α : Type*}

inductive Fi where
  | complete | first | last | middle
  deriving DecidableEq, Repr

abbrev Segment (α : Type*) := Fi × List α

/-- The receiving accumulator: whether an SDU is being collected, and its octets so far. -/
structure Reassembler (α : Type*) where
  collecting : Bool
  buffer : List α

def Reassembler.idle : Reassembler α := ⟨false, []⟩

/-- Feed one segment; the second component is what gets delivered. -/
def Reassembler.accept (r : Reassembler α) : Segment α → Reassembler α × List (List α)
  | (.complete, payload) => (r, [payload])
  | (.first, payload) => (⟨true, payload⟩, [])
  | (.last, payload) => if r.collecting then (.idle, [r.buffer ++ payload]) else (r, [])
  | (.middle, payload) =>
    if r.collecting then (⟨r.collecting, r.buffer ++ payload⟩, []) else (r, [])

/-- The segments `segs` are a segmentation of `sdu`. -/
inductive Segmented : List α → List (Segment α) → Prop where
  | whole (sdu : List α) : Segmented sdu [(.complete, sdu)]
  | split (head tail : List α) (mids : List (List α)) :
      Segmented (head ++ mids.flatten ++ tail)
        ((.first, head) :: (mids.map (Prod.mk .middle) ++ [(.last, tail)]))

/-- Every SDU has a segment. -/
theorem Segmented.ne_nil {sdu : List α} {segs : List (Segment α)} (h : Segmented sdu segs) :
    segs ≠ [] := by
  cases h <;> simp

/-- A stream is the list of SDUs with their segmentations, in sending order. -/
abbrev Stream (α : Type*) := List (List α × List (Segment α))

def Stream.segments (stream : Stream α) : List (Segment α) := stream.flatMap Prod.snd

def Stream.sdus (stream : Stream α) : List (List α) := stream.map Prod.fst

def Stream.WellFormed (stream : Stream α) : Prop := ∀ x ∈ stream, Segmented x.1 x.2

def payloads (segs : List (Segment α)) : List α := segs.flatMap Prod.snd

@[simp] theorem payloads_nil : payloads ([] : List (Segment α)) = [] := rfl

@[simp] theorem payloads_append (a b : List (Segment α)) :
    payloads (a ++ b) = payloads a ++ payloads b := by
  simp [payloads]

@[simp] theorem payloads_singleton (s : Segment α) : payloads [s] = s.2 := by
  simp [payloads]

theorem payloads_middle (mids : List (List α)) :
    payloads (mids.map (Prod.mk Fi.middle)) = mids.flatten := by
  simp [payloads, List.flatMap_map, List.flatMap_id']

/-- A segmentation has the octets of the SDU. -/
theorem Segmented.payloads_eq {sdu : List α} {segs : List (Segment α)} (h : Segmented sdu segs) :
    payloads segs = sdu := by
  cases h with
  | whole => simp [payloads]
  | split head tail mids =>
    have hhead : payloads ((Fi.first, head) :: (mids.map (Prod.mk Fi.middle) ++ [(Fi.last, tail)])) =
        head ++ payloads (mids.map (Prod.mk Fi.middle) ++ [(Fi.last, tail)]) := rfl
    rw [hhead, payloads_append, payloads_middle, payloads_singleton, List.append_assoc]

@[simp] theorem segments_append (a b : Stream α) :
    Stream.segments (a ++ b) = a.segments ++ b.segments := by
  simp [Stream.segments]

@[simp] theorem segments_nil : Stream.segments ([] : Stream α) = [] := rfl

@[simp] theorem segments_cons (x : List α × List (Segment α)) (rest : Stream α) :
    Stream.segments (x :: rest) = x.2 ++ Stream.segments rest := by
  simp [Stream.segments]

@[simp] theorem sdus_append (a b : Stream α) : Stream.sdus (a ++ b) = a.sdus ++ b.sdus := by
  simp [Stream.sdus]

/-- Where a position of the segment stream lies relative to the SDU boundaries. -/
inductive Cursor (stream : Stream α) : Nat → List (List α) → List (Segment α) → Prop where
  | boundary (before after : Stream α) (split : stream = before ++ after) :
      Cursor stream before.segments.length before.sdus []
  | inside (before after : Stream α) (sdu : List α) (pre rest : List (Segment α))
      (split : stream = before ++ (sdu, pre ++ rest) :: after) (passed : pre ≠ [])
      (left : rest ≠ []) :
      Cursor stream (before.segments.length + pre.length) before.sdus pre

/-- What is behind the cursor is a prefix of what was sent. -/
theorem Cursor.done_prefix {stream : Stream α} {pos : Nat} {done : List (List α)}
    {pre : List (Segment α)} (h : Cursor stream pos done pre) : done <+: stream.sdus := by
  cases h with
  | boundary before after split => subst split; simp
  | inside before after sdu pre rest split passed left => subst split; simp

/-- Later SDUs do not move an earlier position. -/
theorem Cursor.append {stream : Stream α} {pos : Nat} {done : List (List α)}
    {pre : List (Segment α)} (h : Cursor stream pos done pre) (more : Stream α) :
    Cursor (stream ++ more) pos done pre := by
  cases h with
  | boundary before after split => exact .boundary before (after ++ more) (by simp [split])
  | inside before after sdu pre rest split passed left =>
    exact .inside before (after ++ more) sdu pre rest (by simp [split]) passed left

theorem cursor_zero (stream : Stream α) : Cursor stream 0 [] [] :=
  .boundary [] stream rfl

/-- Putting one more SDU in front shifts every position by its segments. -/
theorem Cursor.cons {stream : Stream α} {pos : Nat} {done : List (List α)}
    {pre : List (Segment α)} (h : Cursor stream pos done pre) (x : List α × List (Segment α)) :
    Cursor (x :: stream) (x.2.length + pos) (x.1 :: done) pre := by
  cases h with
  | boundary before after split =>
    have : Cursor (x :: stream) _ _ [] := .boundary (x :: before) after (by simp [split])
    simpa [Stream.sdus] using this
  | inside before after sdu pre rest split passed left =>
    have : Cursor (x :: stream) _ _ pre := .inside (x :: before) after sdu pre rest
      (by simp [split]) passed left
    simpa [Stream.sdus, Nat.add_assoc] using this

/-- Every position up to the end of the stream has a cursor. -/
theorem cursor_total (stream : Stream α) (pos : Nat) (h : pos ≤ stream.segments.length) :
    ∃ done pre, Cursor stream pos done pre := by
  induction stream generalizing pos with
  | nil =>
    obtain rfl : pos = 0 := by simpa using h
    exact ⟨_, _, cursor_zero _⟩
  | cons x rest ih =>
    by_cases hx : pos < x.2.length
    · cases pos with
      | zero => exact ⟨_, _, cursor_zero _⟩
      | succ n =>
        -- inside the first SDU: its segments split at the position
        have hlen : (x.2.take (n + 1)).length = n + 1 := by simp; omega
        have : Cursor (x :: rest) _ _ _ := .inside [] rest x.1 (x.2.take (n + 1))
          (x.2.drop (n + 1)) (by simp) (by intro e; simp [e] at hlen) (by simp; omega)
        rw [hlen] at this
        exact ⟨_, _, by simpa using this⟩
    · have hrest : pos - x.2.length ≤ (Stream.segments rest).length := by
        simp at h
        omega
      obtain ⟨done, pre, hc⟩ := ih (pos - x.2.length) hrest
      have := hc.cons x
      rw [show x.2.length + (pos - x.2.length) = pos by omega] at this
      exact ⟨_, _, this⟩

/-- Every cursor starts at an SDU boundary at or before its position. -/
theorem Cursor.start {stream : Stream α} {pos : Nat} {done : List (List α)}
    {pre : List (Segment α)} (h : Cursor stream pos done pre) :
    ∃ before after, stream = before ++ after ∧ done = before.sdus ∧
      before.segments.length ≤ pos := by
  cases h with
  | boundary before after split => exact ⟨before, after, split, rfl, Nat.le_refl _⟩
  | inside before after sdu _ rest split _ _ =>
    exact ⟨before, _, split, rfl, Nat.le_add_right _ _⟩

/-- An SDU boundary at or before the position is counted among the complete SDUs.
This is where segmentations must be nonempty. -/
theorem Cursor.boundary_le {stream : Stream α} (wf : stream.WellFormed) {pos : Nat}
    {done : List (List α)} {pre : List (Segment α)} (h : Cursor stream pos done pre)
    {before after : Stream α} (split : stream = before ++ after)
    (hle : before.segments.length ≤ pos) : before.length ≤ done.length := by
  by_contra hlt
  -- a longer boundary contains the SDU right behind `done`, whose end lies past the position
  have past : ∀ (b a : Stream α) (x : List α × List (Segment α)), stream = b ++ x :: a →
      b.length < before.length → b.segments.length + x.2.length ≤ before.segments.length := by
    intro b a x hb hlen
    obtain ⟨c, hc⟩ : (b ++ [x]) <+: before :=
      List.prefix_of_prefix_length_le ⟨a, by simp [hb]⟩ ⟨after, split.symm⟩ (by simp; omega)
    simp [← hc]
  cases h with
  | boundary b a hb =>
    cases a with
    | nil =>
      have := congrArg List.length (hb.symm.trans split)
      simp [Stream.sdus] at this hlt
      omega
    | cons x t =>
      have hx := List.length_pos_iff.mpr (wf x (by simp [hb])).ne_nil
      have := past b t x hb (by simpa [Stream.sdus] using hlt)
      omega
  | inside b a sdu _ rest hb _ left =>
    have hr := List.length_pos_iff.mpr left
    have := past b a _ hb (by simpa [Stream.sdus] using hlt)
    simp at this
    omega

/-- The complete SDUs behind a position are a prefix of those behind a later one. -/
theorem Cursor.mono {stream : Stream α} (wf : stream.WellFormed) {p q : Nat}
    {doneP doneQ : List (List α)} {preP preQ : List (Segment α)} (hp : Cursor stream p doneP preP)
    (hq : Cursor stream q doneQ preQ) (hle : p ≤ q) : doneP <+: doneQ := by
  obtain ⟨before, after, split, rfl, hstart⟩ := hp.start
  apply List.prefix_of_prefix_length_le hp.done_prefix hq.done_prefix
  simpa [Stream.sdus] using hq.boundary_le wf split (Nat.le_trans hstart hle)

/-- The first segment of a segmentation is the whole SDU or opens a longer one. -/
theorem Segmented.head_cases {sdu : List α} {next : Segment α} {rest : List (Segment α)}
    (h : Segmented sdu (next :: rest)) :
    (next = (.complete, sdu) ∧ rest = []) ∨ (next.1 = .first ∧ rest ≠ []) := by
  cases h with
  | whole => exact .inl ⟨rfl, rfl⟩
  | split head tail mids => exact .inr ⟨rfl, by simp⟩

/-- A later segment continues the SDU, or is its last one and completes the octets. -/
theorem Segmented.later_cases {sdu : List α} {pre rest : List (Segment α)} {next : Segment α}
    (h : Segmented sdu (pre ++ next :: rest)) (passed : pre ≠ []) :
    (next.1 = .middle ∧ rest ≠ []) ∨
    (next.1 = .last ∧ rest = [] ∧ sdu = payloads pre ++ next.2) := by
  obtain ⟨opening, pre, rfl⟩ := List.exists_cons_of_ne_nil passed
  generalize hsegs : opening :: pre ++ next :: rest = segs at h
  cases h with
  | whole => simp at hsegs
  | split head tail mids =>
    obtain ⟨rfl, htail⟩ : opening = (.first, head) ∧
        pre ++ next :: rest = mids.map (Prod.mk .middle) ++ [(.last, tail)] := by
      simpa using hsegs
    -- the last segment is either `next` itself or stands at the end of `rest`
    rcases List.eq_nil_or_concat rest with rfl | ⟨inner, final, rfl⟩
    · obtain ⟨rfl, hlast⟩ := List.append_inj' htail rfl
      obtain rfl := List.singleton_inj.mp hlast
      right
      refine ⟨rfl, rfl, ?_⟩
      have hpay : payloads ((Fi.first, head) :: mids.map (Prod.mk Fi.middle)) =
          head ++ mids.flatten := by
        rw [← payloads_middle mids]
        rfl
      rw [hpay]
    · left
      have hsplit : pre ++ next :: inner ++ [final] =
          mids.map (Prod.mk .middle) ++ [(.last, tail)] := by
        simpa using htail
      have hmids := (List.append_inj' hsplit rfl).1
      have hmem : next ∈ mids.map (Prod.mk Fi.middle) := by simp [← hmids]
      obtain ⟨payload, -, rfl⟩ := List.mem_map.mp hmem
      exact ⟨rfl, by simp⟩

/-- What the segment at the cursor is, and where the cursor goes behind it. -/
theorem Cursor.advance {stream : Stream α} (wf : stream.WellFormed) {pos : Nat}
    {done : List (List α)} {pre : List (Segment α)} {seg : Segment α}
    (h : Cursor stream pos done pre) (hseg : stream.segments[pos]? = some seg) :
    (pre = [] ∧ seg.1 = .complete ∧ Cursor stream (pos + 1) (done ++ [seg.2]) []) ∨
    (pre = [] ∧ seg.1 = .first ∧ Cursor stream (pos + 1) done [seg]) ∨
    (pre ≠ [] ∧ seg.1 = .middle ∧ Cursor stream (pos + 1) done (pre ++ [seg])) ∨
    (pre ≠ [] ∧ seg.1 = .last ∧ Cursor stream (pos + 1) (done ++ [payloads pre ++ seg.2]) []) := by
  cases h with
  | boundary before after split =>
    cases after with
    | nil => simp [split] at hseg
    | cons x t =>
      obtain ⟨sdu, segs⟩ := x
      have hx : Segmented sdu segs := wf (sdu, segs) (by simp [split])
      obtain ⟨next, rest, rfl⟩ := List.exists_cons_of_ne_nil hx.ne_nil
      obtain rfl : next = seg := by
        simpa [split, List.getElem?_append_right] using hseg
      rcases hx.head_cases with ⟨rfl, rfl⟩ | ⟨hfi, hrest⟩
      · have : Cursor stream _ _ [] := .boundary (before ++ [(sdu, [(.complete, sdu)])]) t
          (by simp [split])
        exact .inl ⟨rfl, rfl, by simpa [Stream.sdus] using this⟩
      · have : Cursor stream _ _ [next] := .inside before t sdu [next] rest
          (by simp [split]) (by simp) hrest
        exact .inr (.inl ⟨rfl, hfi, by simpa using this⟩)
  | inside before after sdu _ rest split passed left =>
    obtain ⟨next, rest, rfl⟩ := List.exists_cons_of_ne_nil left
    obtain rfl : next = seg := by
      simpa [split, List.getElem?_append_right] using hseg
    have hx : Segmented sdu (pre ++ next :: rest) :=
      wf (sdu, pre ++ next :: rest) (by simp [split])
    rcases hx.later_cases passed with ⟨hfi, hrest⟩ | ⟨hfi, rfl, rfl⟩
    · have : Cursor stream _ _ (pre ++ [next]) := .inside before after sdu (pre ++ [next]) rest
        (by simp [split]) (by simp) hrest
      exact .inr (.inr (.inl ⟨passed, hfi, by simpa [Nat.add_assoc] using this⟩))
    · have : Cursor stream _ _ [] := .boundary
        (before ++ [(payloads pre ++ next.2, pre ++ [next])]) after (by simp [split])
      exact .inr (.inr (.inr ⟨passed, hfi, by simpa [Stream.sdus, Nat.add_assoc] using this⟩))

/-- The accumulator and the delivered SDUs `out` of a receiver whose next expected
segment is number `pos`. `lossless` says that it never jumped over a segment. -/
def Tracks (lossless : Prop) (stream : Stream α) (pos : Nat) (r : Reassembler α)
    (out : List (List α)) : Prop :=
  ∃ done pre, Cursor stream pos done pre ∧ out.Sublist done ∧
    (r.collecting = true → pre ≠ [] ∧ r.buffer = payloads pre) ∧
    (lossless → out = done ∧ (pre ≠ [] → r.collecting = true))

theorem Tracks.start (lossless : Prop) (stream : Stream α) :
    Tracks lossless stream 0 .idle [] :=
  ⟨[], [], cursor_zero stream, .slnil, by simp [Reassembler.idle], by simp⟩

/-- The transmitter may segment further SDUs at any time. -/
theorem Tracks.append {lossless : Prop} {stream : Stream α} {pos : Nat} {r : Reassembler α}
    {out : List (List α)} (h : Tracks lossless stream pos r out) (more : Stream α) :
    Tracks lossless (stream ++ more) pos r out := by
  obtain ⟨done, pre, hc, hrest⟩ := h
  exact ⟨done, pre, hc.append more, hrest⟩

/-- Accepting the segment at the position moves the position behind it. -/
theorem Tracks.accept {lossless : Prop} {stream : Stream α} (wf : stream.WellFormed) {pos : Nat}
    {r : Reassembler α} {out : List (List α)} {seg : Segment α}
    (h : Tracks lossless stream pos r out) (hseg : stream.segments[pos]? = some seg) :
    Tracks lossless stream (pos + 1) (r.accept seg).1 (out ++ (r.accept seg).2) := by
  obtain ⟨done, pre, hc, hsub, hcol, hloss⟩ := h
  obtain ⟨fi, payload⟩ := seg
  rcases hc.advance wf hseg with ⟨rfl, rfl, hc'⟩ | ⟨rfl, rfl, hc'⟩ | ⟨hpre, rfl, hc'⟩ |
    ⟨hpre, rfl, hc'⟩
  · -- a complete SDU: nothing was being collected, and nothing is afterwards
    refine ⟨_, _, hc', hsub.append_right _, ?_, ?_⟩
    · intro hr
      exact absurd rfl (hcol hr).1
    · intro hl
      exact ⟨by rw [(hloss hl).1]; rfl, by simp⟩
  · refine ⟨_, _, hc', by simpa [Reassembler.accept] using hsub, ?_, ?_⟩
    · intro _
      simp [Reassembler.accept]
    · intro hl
      exact ⟨by simpa [Reassembler.accept] using (hloss hl).1, fun _ => rfl⟩
  · cases hr : r.collecting with
    | false =>
      -- the head of this SDU was jumped over: the segment is dropped
      have hlossy : ¬ lossless := fun hl => by simp [(hloss hl).2 hpre] at hr
      refine ⟨_, _, hc', by simpa [Reassembler.accept, hr] using hsub, ?_, ?_⟩
      · simp [Reassembler.accept, hr]
      · exact fun hl => absurd hl hlossy
    | true =>
      refine ⟨_, _, hc', by simpa [Reassembler.accept, hr] using hsub, ?_, ?_⟩
      · simp [Reassembler.accept, hr, (hcol hr).2]
      · intro hl
        exact ⟨by simpa [Reassembler.accept, hr] using (hloss hl).1,
          fun _ => by simp [Reassembler.accept, hr]⟩
  · cases hr : r.collecting with
    | false =>
      have hlossy : ¬ lossless := fun hl => by simp [(hloss hl).2 hpre] at hr
      refine ⟨_, _, hc', ?_, ?_, ?_⟩
      · simpa [Reassembler.accept, hr] using hsub.trans (List.sublist_append_left _ _)
      · simp [Reassembler.accept, hr]
      · exact fun hl => absurd hl hlossy
    | true =>
      refine ⟨_, _, hc', ?_, ?_, ?_⟩
      · simpa [Reassembler.accept, hr, (hcol hr).2] using hsub
      · simp [Reassembler.accept, hr, Reassembler.idle]
      · intro hl
        exact ⟨by simp [Reassembler.accept, hr, (hcol hr).2, (hloss hl).1], by simp⟩

/-- Jumping forward over lost segments drops the SDU being collected. -/
theorem Tracks.jump {lossless : Prop} (hlossy : ¬ lossless) {stream : Stream α}
    (wf : stream.WellFormed) {pos pos' : Nat} {r : Reassembler α} {out : List (List α)}
    (h : Tracks lossless stream pos r out) (hle : pos ≤ pos')
    (hend : pos' ≤ stream.segments.length) : Tracks lossless stream pos' .idle out := by
  obtain ⟨done, pre, hc, hsub, -, -⟩ := h
  obtain ⟨done', pre', hc'⟩ := cursor_total stream pos' hend
  refine ⟨done', pre', hc', hsub.trans (hc.mono wf hc' hle).sublist, ?_, ?_⟩
  · simp [Reassembler.idle]
  · exact fun hl => absurd hl hlossy

/-- Whatever was delivered is an order-preserving subsequence of the SDUs sent. -/
theorem Tracks.out_sublist {lossless : Prop} {stream : Stream α} {pos : Nat} {r : Reassembler α}
    {out : List (List α)} (h : Tracks lossless stream pos r out) : out.Sublist stream.sdus := by
  obtain ⟨done, pre, hc, hsub, -, -⟩ := h
  exact hsub.trans hc.done_prefix.sublist

/-- Without a jump it is a prefix of them. -/
theorem Tracks.out_prefix {lossless : Prop} (hl : lossless) {stream : Stream α} {pos : Nat}
    {r : Reassembler α} {out : List (List α)} (h : Tracks lossless stream pos r out) :
    out <+: stream.sdus := by
  obtain ⟨done, pre, hc, -, -, hloss⟩ := h
  obtain ⟨rfl, -⟩ := hloss hl
  exact hc.done_prefix

/-- At the end of the stream, without a jump, everything has been delivered. -/
theorem Tracks.out_eq {lossless : Prop} (hl : lossless) {stream : Stream α}
    (wf : stream.WellFormed) {r : Reassembler α} {out : List (List α)}
    (h : Tracks lossless stream stream.segments.length r out) : out = stream.sdus := by
  obtain ⟨done, pre, hc, -, -, hloss⟩ := h
  obtain ⟨rfl, -⟩ := hloss hl
  apply hc.done_prefix.eq_of_length_le
  have := hc.boundary_le wf (List.append_nil stream).symm (Nat.le_refl _)
  simpa [Stream.sdus] using this

/-- Before the end of the stream something is still missing. -/
theorem Tracks.out_ne {lossless : Prop} (hl : lossless) {stream : Stream α} {pos : Nat}
    {r : Reassembler α} {out : List (List α)} (h : Tracks lossless stream pos r out)
    (hpos : pos < stream.segments.length) : out ≠ stream.sdus := by
  obtain ⟨done, pre, hc, -, -, hloss⟩ := h
  obtain ⟨rfl, -⟩ := hloss hl
  intro hall
  have hlen := congrArg List.length hall
  cases hc with
  | boundary before after split =>
    have hafter : after = [] := by
      simp [split, Stream.sdus] at hlen
      exact hlen
    simp [split, hafter] at hpos
  | inside before after sdu pre rest split passed left =>
    simp [split, Stream.sdus] at hlen

end AetherStack.Lib.Reassembly
