import EcmaTree.Program
import EcmaTree.Proofs.Grammar.Program
import EcmaTree.Proofs.Success
import EcmaTree.Proofs.Recording.Found
import Mathlib.Algebra.Group.Nat.Defs

/-!
# Spans nest

A node begins where the lookahead of some state began and ends with the last token consumed by then. The end of the
last consumed token moves forward only, and stays before the next token, except before anything is consumed. So what
is read since a state lies between the beginning of its lookahead and that end.
-/

namespace EcmaTree

open Cursor (Reaches)

/-! ## Nodes between offsets -/

namespace Node

/-- The node lies between the offsets, and what is below it lies inside of it. Parameters that wait for their arrow
have no place of their own. -/
inductive Within : Nat → Nat → Node → Prop
  | finished {lo hi : Nat} {n : Node} {e : Extent} : n.info.extent = some e → lo ≤ e.start.offset →
      e.start.offset ≤ e.stop.offset → e.stop.offset ≤ hi →
      (∀ c ∈ n.children, Within e.start.offset e.stop.offset c) → Within lo hi n
  | waiting {lo hi : Nat} {n : Node} : n.kind.isPlaceholder = true → (∀ c ∈ n.children, Within lo hi c) → Within lo hi n

namespace Within

variable {lo hi lo' hi' : Nat} {n m c : Node}

theorem mono (h : Within lo hi n) (hlo : lo' ≤ lo) (hhi : hi ≤ hi') : Within lo' hi' n := by
  induction h with
  | finished he hstart hle hstop hc _ => exact .finished he (Nat.le_trans hlo hstart) hle (Nat.le_trans hstop hhi) hc
  | waiting hw _ ih => exact .waiting hw fun c hc => ih c hc hlo hhi

theorem child (h : Within lo hi n) (hc : c ∈ n.children) : Within lo hi c := by
  cases h with
  | finished _ hstart _ hstop h => exact (h c hc).mono hstart hstop
  | waiting _ h => exact h c hc

theorem recast (h : Within lo hi n) (hr : Recast n m) : Within lo hi m := by
  induction h generalizing m with
  | finished he hstart hle hstop _ ih =>
    refine .finished (hr.extent.trans he) hstart hle hstop fun d hd => ?_
    obtain ⟨c, hc, hcd⟩ := hr.child hd
    exact ih c hc hcd
  | waiting hw _ ih =>
    refine .waiting (hr.isPlaceholder.trans hw) fun d hd => ?_
    obtain ⟨c, hc, hcd⟩ := hr.child hd
    exact ih c hc hcd

/-- Where nothing waits for an arrow, a node has an extent. -/
theorem span (h : Within lo hi n) (hn : n.kind.isPlaceholder = false) (hfits : hi < 2 ^ 32) :
    lo ≤ n.span.start ∧ n.span.start ≤ n.span.stop ∧ n.span.stop ≤ hi ∧
      ∀ c ∈ n.children, Within n.span.start n.span.stop c := by
  cases h with
  | @finished _ _ _ e he hstart hle hstop hc =>
    have stop : e.stop.offset < 2 ^ 32 := Nat.lt_of_le_of_lt hstop hfits
    have : n.span = ⟨e.start.offset, e.stop.offset⟩ := by
      rw [Node.span, he, Option.map_some, Option.getD_some, Extent.span_eq (Nat.lt_of_le_of_lt hle stop) stop]
    rw [this]
    exact ⟨hstart, hle, hstop, hc⟩
  | waiting hw => simp_all

/-- In a tree where nothing waits for an arrow, every node covers its children. -/
theorem spans {lo hi : Nat} {n : Node} (h : Within lo hi n) (hplain : n.All fun n => n.kind.isPlaceholder = false)
    (hfits : hi < 2 ^ 32) :
    n.All fun n => n.span.start ≤ n.span.stop ∧ n.span.stop ≤ hi ∧ ∀ c ∈ n.children, n.span.covers c.span = true := by
  obtain ⟨-, hle, hstop, hc⟩ := h.span hplain.root hfits
  refine all_iff.2 ⟨⟨hle, hstop, fun c hmem => ?_⟩, fun c hmem => ?_⟩
  · have := (hc c hmem).span (hplain.child hmem).root (by omega)
    exact Span.covers_iff.2 ⟨this.1, this.2.2.1⟩
  · exact ((hc c hmem).mono (Nat.le_refl _) hstop).spans (hplain.child hmem) hfits
termination_by sizeOf n
decreasing_by
  exact sizeOf_lt_of_mem_children hmem

end Within

end Node

/-! ## What every production keeps -/

namespace Spans

variable {source : Cursor} {m : Mode} {r s t u : ParseState}

/-- The next node begins with the lookahead. -/
def Fresh (s : ParseState) : Prop := s.lookahead.start = s.start.offset

/-- Nothing that has been consumed ends behind the next token. Before a token is consumed, the end of the first one
counts. -/
def Ended : Mode → ParseState → Prop
  | .ahead, s => s.last.offset ≤ s.start.offset ∨ s.last.offset = s.scanner.cursor.offset
  | .entering, _ => True
  | .inside, s => s.last.offset ≤ s.scanner.cursor.offset

/-- Where a strict parse stands. -/
structure Stands (source : Cursor) (m : Mode) (s : ParseState) : Prop where
  strict : s.dialect.tolerant = false
  placed : s.Placed source m
  ended : Ended m s

/-- The parse has moved on: either nothing was consumed or what was consumed lies between the next tokens. -/
structure Steps (s t : ParseState) : Prop where
  fresh : Fresh t → Fresh s
  start : s.start.offset ≤ t.start.offset
  last : t.last.offset = s.last.offset ∨ s.start.offset ≤ t.last.offset ∧ t.last.offset ≤ t.start.offset

/-- Something has been consumed. -/
structure Read (s t : ParseState) : Prop where
  fresh : Fresh s
  start : s.start.offset ≤ t.last.offset
  last : t.last.offset ≤ t.start.offset

/-- The node lies between the next token of the first state and what the second one has consumed. -/
def Good (s : ParseState) (n : Node) (t : ParseState) : Prop :=
  n.Within s.start.offset (min t.last.offset t.start.offset)

theorem Steps.trans (h : Steps r s) (h' : Steps s t) : Steps r t where
  fresh := h.fresh ∘ h'.fresh
  start := Nat.le_trans h.start h'.start
  last := by
    obtain ⟨-, _, _⟩ := h
    obtain ⟨-, _, _⟩ := h'
    omega

/-- Nothing has been consumed, and what comes next is the same or comes later. -/
theorem Steps.of_last (hfresh : Fresh t → Fresh s) (hstart : s.start.offset ≤ t.start.offset)
    (hlast : t.last.offset = s.last.offset) : Steps s t := ⟨hfresh, hstart, .inl hlast⟩

theorem Read.steps (h : Read s t) : Steps s t where
  fresh _ := h.fresh
  start := Nat.le_trans h.start h.last
  last := .inr ⟨h.start, h.last⟩

theorem Read.after (h : Steps r s) (h' : Read s t) : Read r t where
  fresh := h.fresh h'.fresh
  start := Nat.le_trans h.start h'.start
  last := h'.last

theorem Read.before (h : Read r s) (h' : Steps s t) : Read r t where
  fresh := h.fresh
  start := by
    obtain ⟨-, _, _⟩ := h
    obtain ⟨-, _, _⟩ := h'
    omega
  last := by
    obtain ⟨-, _, _⟩ := h
    obtain ⟨-, _, _⟩ := h'
    omega

theorem Good.steps {n : Node} (h : Good s n t) (h' : Steps t u) : Good s n u := by
  refine h.mono (Nat.le_refl _) ?_
  obtain ⟨-, _, _⟩ := h'
  omega

theorem Good.since {n : Node} (h : Steps r s) (h' : Good s n t) : Good r n t := h'.mono h.start (Nat.le_refl _)

theorem Steps.rests (h : s.Rests t) : Steps s t := by
  obtain ⟨_, _, _, _, _, rfl, _⟩ := h
  exact .of_last id (Nat.le_refl _) rfl

/-! ## Consuming tokens -/

namespace Stands

theorem fresh (h : Stands source .ahead s) : Fresh s := by
  have := (show s.Sited source from h.placed).lexed.eq
  rw [Fresh, this]
  rfl

theorem rests (h : Stands source m s) (ht : s.Rests t) : Stands source m t := by
  have placed := h.placed.rests ht
  obtain ⟨_, _, _, _, _, rfl, _⟩ := ht
  refine ⟨h.strict, placed, ?_⟩
  have := h.ended
  cases m <;> exact this

/-- Behind the end of the source nothing is left to consume. -/
theorem last_le_start (h : Stands source .ahead s) (hend : s.lookahead.isEnd = true) :
    s.last.offset ≤ s.start.offset := by
  have sited : s.Sited source := h.placed
  obtain ⟨cs, hrest, hoffset⟩ := sited.lexed.reaches
  have := h.ended
  simp_all [Ended, sited.lexed.end_iff.1 hend]
  omega

theorem start_le_cursor (h : s.Placed source .ahead) : s.start.offset ≤ s.scanner.cursor.offset :=
  (show s.Sited source from h).lexed.reaches.offset_le

/-- A token is consumed, or read again and then consumed. -/
theorem advances (hstrict : s.dialect.tolerant = false) (hs : s.Placed source m) (ht : s.Advances t) :
    Stands source .ahead t ∧ t.last.offset = s.scanner.cursor.offset ∧ s.scanner.cursor.offset ≤ t.start.offset := by
  have placed := hs.advances ht
  have next := (ParseState.nextStart_spec hs.start hs.cursor).1
  have skipped := (Trivia.skip_reaches s.scanner.keepsComments s.isScript s.scanner.cursor).offset_le
  obtain ⟨_, _, _, _, _, _, _, rfl⟩ := ht
  have le : s.scanner.cursor.offset ≤ s.nextStart.offset := by rw [next]; exact skipped
  exact ⟨⟨hstrict, placed, .inl le⟩, rfl, le⟩

theorem next (h : Stands source .ahead s) (ht : s.Advances t) : Stands source .ahead t ∧ Read s t := by
  obtain ⟨stands, last, start⟩ := advances h.strict h.placed ht
  exact ⟨stands, h.fresh, by rw [last]; exact start_le_cursor h.placed, by rw [last]; exact start⟩

theorem regex (h : Stands source .ahead s) (hu : s.Rescans u) (ht : u.Advances t) :
    Stands source .ahead t ∧ Read s t := by
  have placed : u.Placed source .ahead := hu.sited h.placed
  have reaches := start_le_cursor placed
  obtain ⟨strict, same⟩ : u.dialect.tolerant = false ∧ u.start = s.start := by
    obtain ⟨_, _, _, _, _, _, _, rfl⟩ := hu
    exact ⟨h.strict, rfl⟩
  obtain ⟨stands, last, start⟩ := advances strict placed ht
  exact ⟨stands, h.fresh, by rw [last, ← same]; exact reaches, by rw [last]; exact start⟩

theorem nextJsx {token : Token} (h : Stands source m s) (ht : s.AdvancesJsx token t) :
    Stands source .inside t ∧ Read s.unread t.unread := by
  have placed := h.placed.advancesJsx ht
  have skipped := (Trivia.skip_reaches s.scanner.keepsComments s.isScript s.scanner.cursor).offset_le
  obtain ⟨stop, _, _, lexed, _, rfl⟩ := ht
  have := lexed.reaches.offset_le
  exact ⟨⟨h.strict, placed, Nat.le_refl _⟩, rfl, Nat.le_trans skipped this, Nat.le_refl _⟩

theorem skips (h : Stands source m s) (hm : m ≠ .ahead) (ht : s.Skips t) :
    Stands source m t ∧ Steps s.unread t.unread := by
  have placed := h.placed.skips hm ht
  have skipped := (Trivia.skip_reaches s.scanner.keepsComments s.isScript s.scanner.cursor).offset_le
  obtain ⟨_, _, _, rfl⟩ := ht
  refine ⟨⟨h.strict, placed, ?_⟩, fun _ => rfl, skipped, .inl rfl⟩
  have := h.ended
  cases m
  · exact absurd rfl hm
  · exact trivial
  · exact Nat.le_trans this skipped

/-- A finished node begins where its base does and ends with what has been consumed. -/
theorem finishes {base : ParseState} {start : Place} {n : Node} (h : Stands source m s)
    (hread : Read base (s.view m)) (hstart : base.Marks start)
    (ht : t = { s with finished := s.finished + 1, record := s.record.report (.node n ⟨start, s.last⟩) }) :
    Stands source m t ∧ Steps (s.view m) (t.view m) ∧ Read base (t.view m) ∧
      start.offset = base.start.offset ∧ (s.view m).last = s.last := by
  have begins : start.offset = base.start.offset := by
    rcases hstart with rfl | ⟨lineAbove, rfl⟩
    · rfl
    · refine Eq.trans ?_ hread.fresh
      unfold Token.placeAfter
      split <;> rfl
  have steps : Steps (s.view m) (t.view m) := by
    subst ht
    cases m <;> exact .of_last id (Nat.le_refl _) rfl
  refine ⟨?_, steps, hread.before steps, begins, by cases m <;> rfl⟩
  subst ht
  refine ⟨h.strict, h.placed.congr rfl, ?_⟩
  have := h.ended
  cases m <;> exact this

theorem finish {base : ParseState} {start : Place} {kind : Kind Node} {n : Node} (h : Stands source m s)
    (hread : Read base (s.view m)) (hstart : base.Marks start) (hchildren : ∀ n ∈ kind.children, Good base n (s.view m))
    (hn : n = .mk (s.finishedInfo start) kind)
    (ht : t = { s with finished := s.finished + 1, record := s.record.report (.node n ⟨start, s.last⟩) }) :
    Stands source m t ∧ Steps (s.view m) (t.view m) ∧ Read base (t.view m) ∧ Good base n (t.view m) := by
  obtain ⟨stands, steps, read, begins, last⟩ := h.finishes hread hstart ht
  refine ⟨stands, steps, read, Good.steps (t := s.view m) ?_ steps⟩
  obtain ⟨-, hstart, hstop⟩ := hread
  rw [hn]
  rw [last] at hstart hstop
  refine .finished rfl (Nat.le_of_eq begins.symm) (by rw [begins]; exact hstart) ?_ fun c hc => ?_
  · rw [last]
    exact Nat.le_min.2 ⟨Nat.le_refl _, hstop⟩
  · refine (hchildren c hc).mono (Nat.le_of_eq begins) ?_
    rw [last]
    exact Nat.min_le_left _ _

theorem nextJsxText {token : Token} (h : Stands source m s) (ht : s.AdvancesText token t) :
    Stands source .inside t ∧ Read s.unread t.unread := by
  have placed := h.placed.advancesText ht
  obtain ⟨stop, _, _, _, reaches, _, _, rfl⟩ := ht
  exact ⟨⟨h.strict, placed, Nat.le_refl _⟩, rfl, reaches.offset_le, Nat.le_refl _⟩

theorem emptyExpression {n : Node} (h : Stands source .inside s) (ht : s.SkipsEmpty n t) :
    Stands source .inside t ∧ Read s.unread t.unread ∧ Good s.unread n t.unread := by
  obtain ⟨u, hu, rfl, rfl⟩ := ht
  obtain ⟨stands, steps⟩ := h.skips (by nofun) hu
  refine ⟨⟨stands.strict, stands.placed.congr rfl, Nat.le_refl _⟩, ⟨rfl, steps.start, Nat.le_refl _⟩, ?_⟩
  exact .finished rfl (Nat.le_refl _) steps.start (Nat.le_min.2 ⟨Nat.le_refl _, Nat.le_refl _⟩) nofun

theorem reenter (h : Stands source .ahead s) (ht : s.Reenters t) : Stands source .inside t ∧ Read s t.unread := by
  obtain ⟨brace, u, hu, -, rfl⟩ := ht
  have entered : Stands source .entering { s with scanner.cursor := s.start } := ⟨h.strict, h.placed.enter, trivial⟩
  obtain ⟨stands, read⟩ := entered.nextJsx hu
  exact ⟨⟨stands.strict, stands.placed.congr rfl, stands.ended⟩, h.fresh, read.start, read.last⟩

theorem opening (hstrict : s.dialect.tolerant = false) (hs : s.Placed source .entering) (hu : s.Advances u) :
    Stands source .ahead { u with last := u.scanner.cursor.place } ∧ Fresh u ∧
      u.start.offset ≤ u.scanner.cursor.offset := by
  obtain ⟨stands, -, -⟩ := advances hstrict hs hu
  exact ⟨⟨stands.strict, stands.placed.congr rfl, .inr rfl⟩, stands.fresh, start_le_cursor stands.placed⟩

/-- Behind the end of the source everything has been read. -/
theorem read_of_end (hs : Fresh s) (hlast : s.start.offset ≤ s.last.offset) (hst : Steps s t)
    (ht : Stands source .ahead t)
    (hend : t.lookahead.isEnd = true) : Read s t := by
  refine ⟨hs, ?_, ht.last_le_start hend⟩
  rcases hst.last with same | ⟨start, -⟩
  · rwa [same]
  · exact start

end Stands

/-- Nodes lie where they were read. -/
def contract (source : Cursor) : Contract where
  toJudgement := .onSuccess
  Stands := Stands source
  Steps := Steps
  Read := Read
  Later := Steps
  Good := Good
  Firm := Good
  Past _ _ := True
  Tells _ _ _ := True
  Escapes _ := True
  Initial s := s.dialect.tolerant = false ∧ s.start = source ∧ s.scanner.cursor = source
  Opened s := Fresh s ∧ s.start.offset ≤ s.last.offset
  steps_trans := Steps.trans
  steps_of_rests := Steps.rests
  steps_of_read := Read.steps
  read_of_steps := Read.after
  read_later := Read.before
  later_of_steps h := h
  stands_of_rests h h' := h'.rests h
  entering_of_inside h := ⟨h.strict, h.placed, trivial⟩
  good_steps := Good.steps
  good_from := Good.since
  firm_later := Good.steps
  firm_from := Good.since
  good_of_firm h := h
  firm_of_read h h' := h.steps h'.steps
  firm_of_not_arrow h _ := h
  firm_of_identifier h _ := h
  firm_toPattern h := h.recast (Node.toPattern_recast _)
  firm_child h hc := h.child hc
  firm_parameter h hn p hp := h.child (by rw [Node.children, hn]; exact hp)
  firm_yield h hn hr := h.recast (Node.yield_recast hn hr)
  good_placeholder _ _ h := .waiting rfl h
  good_escaped _ _ h := .waiting rfl h
  tells_of_rests _ _ _ := trivial
  tells_steps _ _ := trivial
  ofNext h := by
    refine Judgement.onSuccess.mono .next ?_
    rintro c t ⟨rfl, ht⟩
    obtain ⟨stands, read⟩ := h.next ht
    exact ⟨rfl, stands, read.steps, fun _ => read, trivial, fun _ _ => trivial⟩
  ofClose h _ _ _ := Judgement.onSuccess.mono .skip fun _ t ht => ⟨(h.next ht).1, (h.next ht).2, trivial⟩
  ofRegex h hslash := Judgement.onSuccess.mono (.regex h.placed hslash) fun _ t ⟨u, hu, _, ht⟩ =>
    ⟨(h.regex hu ht).1, (h.regex hu ht).2, trivial⟩
  ofTrail h := .modifying (fun _ _ _ => rfl) ⟨⟨h.strict, h.placed.congr rfl, .inl (Nat.le_refl _)⟩, id,
    Nat.le_refl _, .inr ⟨Nat.le_refl _, Nat.le_refl _⟩⟩
  ofFinish h hread hstart hk hchildren _ := by
    refine Judgement.onSuccess.mono .finish ?_
    rintro n t ⟨hn, ht⟩
    obtain ⟨stands, steps, read, good⟩ := h.finish hread hstart hchildren hn ht
    exact ⟨stands, by rw [ht], steps, read, by rw [hn]; rfl, good, fun _ => good⟩
  ofSeparator h := by
    refine Judgement.onSuccess.mono Judgement.onSuccess.expectSeparator ?_
    rintro _ t (⟨-, u, hu, ht⟩ | ht)
    · obtain ⟨stands, read⟩ := h.next hu
      exact ⟨stands.rests ht, read.steps.trans (.rests ht)⟩
    · exact ⟨h.rests ht, .rests ht⟩
  ofEndDoWhile h := by
    refine Judgement.onSuccess.mono Judgement.onSuccess.endDoWhile ?_
    rintro _ t (⟨-, u, hu, ht⟩ | ⟨-, ht⟩)
    · obtain ⟨stands, read⟩ := h.next hu
      rcases ht with rfl | ⟨-, ht⟩
      · exact ⟨stands, read⟩
      · exact ⟨(stands.next ht).1, read.before (stands.next ht).2.steps⟩
    · obtain ⟨u, hu, ht⟩ := ht.advances
      obtain ⟨stands, read⟩ := h.next hu
      exact ⟨stands.rests ht, read.before (.rests ht)⟩
  ofMissingParen h _ hnone _ := by
    refine Judgement.bind Judgement.onSuccess.missingParen ?_
    rintro e t (⟨rfl, rfl⟩ | ⟨tolerant, -⟩)
    · exact hnone
    · simp [h.strict] at tolerant
  ofStartJsx h _ _ := by
    refine Judgement.onSuccess.mono .startJsx ?_
    rintro _ _ rfl
    exact ⟨⟨h.strict, h.placed.enter.congr rfl, trivial⟩, fun _ => h.fresh, Nat.le_refl _, .inl rfl⟩
  ofSkipTrivia hm h := Judgement.onSuccess.mono .skipTrivia fun _ t ht =>
    ⟨(h.skips hm ht).1, (h.skips hm ht).2, ht.clear⟩
  ofNextJsx h := Judgement.onSuccess.mono .nextJsx fun _ t ht _ =>
    ⟨(h.nextJsx ht).1, (h.nextJsx ht).2, fun _ _ _ => trivial⟩
  ofNextJsxText h := Judgement.onSuccess.mono .nextJsxText fun _ t ht =>
    ⟨(h.nextJsxText ht).1, (h.nextJsxText ht).2, trivial⟩
  ofEmptyExpression h := Judgement.onSuccess.mono .jsxEmptyExpression fun _ t ht => h.emptyExpression ht
  ofSkipInside h := by
    refine Judgement.onSuccess.mono .skip fun _ t ht => ?_
    obtain ⟨stands, last, start⟩ := Stands.advances h.strict h.placed ht
    exact ⟨stands, rfl, Nat.le_of_eq last.symm, by rw [last]; exact start⟩
  ofReenterJsx _ _ h := Judgement.onSuccess.mono .reenterJsx fun _ t ht => h.reenter ht
  ofOpening := by
    rintro s ⟨strict, rfl, hcursor⟩
    refine Judgement.onSuccess.mono .opening ?_
    rintro _ _ ⟨u, hu, rfl⟩
    have placed : s.Placed s.start .entering := ⟨.refl _, hcursor ▸ .refl _⟩
    exact Stands.opening strict placed hu
  read_of_end h := Stands.read_of_end h.1 h.2

/-- What a strict parse gives back lies in the source. -/
theorem source_within {text : String} {dialect : Dialect} {root : Node} {s : ParseState}
    (hstrict : dialect.tolerant = false) (h : Parse.source text dialect = .ok root s) :
    root.Within 0 text.utf8ByteSize := by
  obtain ⟨first, -, held, -⟩ :=
    Contract.source_held (K := contract (.ofString text)) text dialect .complete ⟨hstrict, rfl, rfl⟩ root s h
  refine (held.good root (by simp)).mono (Nat.zero_le _) (Nat.le_trans (Nat.min_le_right _ _) ?_)
  rw [← held.stands.placed.start.offset_add_bytes]
  exact Nat.le_add_right _ _

/-- A strict parse has come to the end of the source. -/
theorem source_end {text : String} {dialect : Dialect} {root : Node} {s : ParseState}
    (hstrict : dialect.tolerant = false) (h : Parse.source text dialect = .ok root s) :
    s.Sited (.ofString text) ∧ s.lookahead.isEnd = true := by
  obtain ⟨_, -, held, hend⟩ :=
    Contract.source_held (K := contract (.ofString text)) text dialect .complete ⟨hstrict, rfl, rfl⟩ root s h
  exact ⟨held.stands.placed, hend⟩

end Spans

/-- Spans nest: in a tree where nothing waits for an arrow, every node lies in the source and covers its children. -/
theorem spans_nest {source : String} {o : ParseOptions} {p : Program} (hfits : source.utf8ByteSize < 2 ^ 32)
    (hstrict : o.tolerant = false) (hp : parse source o = .ok p)
    (hplain : ∀ entry ∈ p.root.walk, entry.2.kind.isPlaceholder = false) :
    ∀ entry ∈ p.root.walk, entry.2.span.start ≤ entry.2.span.stop ∧ entry.2.span.stop ≤ source.utf8ByteSize ∧
      ∀ child ∈ entry.2.children, entry.2.span.covers child.span = true := by
  obtain ⟨root, s, hs, rfl⟩ := parse_eq_ok.1 hp
  have within := (Spans.source_within hstrict hs).recast (Program.asked_recast o root s)
  exact within.spans hplain hfits

theorem spans_nest_call : "f(a)".utf8ByteSize < 2 ^ 32 ∧ ∃ p, parse "f(a)" {} = .ok p ∧
    (∀ entry ∈ p.root.walk, entry.2.kind.isPlaceholder = false) ∧
    ∀ entry ∈ p.root.walk, entry.2.span.start ≤ entry.2.span.stop ∧ entry.2.span.stop ≤ "f(a)".utf8ByteSize ∧
      ∀ child ∈ entry.2.children, entry.2.span.covers child.span = true := by
  have h : (match parse "f(a)" {} with
      | .ok p => p.root.walk.all fun entry => !entry.2.kind.isPlaceholder
      | .error _ => false) = true := by decide +kernel
  split at h
  next p hp =>
    have hplain : ∀ entry ∈ p.root.walk, entry.2.kind.isPlaceholder = false := by simpa using h
    have hfits : "f(a)".utf8ByteSize < 2 ^ 32 := by decide
    exact ⟨hfits, p, hp, hplain, spans_nest hfits rfl hp hplain⟩
  · cases h

end EcmaTree
