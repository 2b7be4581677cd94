import EcmaTree.Proofs.Spans
import EcmaTree.Proofs.Recording.Found

/-!
# Spans where errors are passed over

A tolerant parse may put an empty statement in the place of a body whose parenthesis is missing. That statement begins
with the token behind the one that is passed over and ends with the one that is, so it ends before it begins if there
is trivia between them. Every other node has the span of a strict parse: the end of what has been consumed lies between
what came before and the next token, whether errors are recorded or not.
-/

namespace EcmaTree

open Cursor (Reaches)

/-! ## Nodes between offsets -/

namespace Node

/-- The node lies between the offsets, as in `Within`, in a source of the given size. An empty statement that stands for
a body may begin behind its end. -/
inductive Nested (size : Nat) : Nat → Nat → Node → Prop
  | finished {lo hi : Nat} {n : Node} {e : Extent} : n.info.extent = some e → lo ≤ e.start.offset →
      e.start.offset ≤ e.stop.offset → e.stop.offset ≤ hi →
      (∀ c ∈ n.children, Nested size e.start.offset e.stop.offset c) → Nested size lo hi n
  | waiting {lo hi : Nat} {n : Node} : n.kind.isPlaceholder = true → (∀ c ∈ n.children, Nested size lo hi c) →
      Nested size lo hi n
  | recovered {lo hi : Nat} {n : Node} {e : Extent} : n.info.extent = some e → n.kind.isEmptyStatement = true →
      lo ≤ e.stop.offset → e.stop.offset ≤ e.start.offset → e.start.offset ≤ size → e.stop.offset ≤ hi →
      Nested size lo hi n

namespace Nested

variable {size lo hi lo' hi' : Nat} {n m c : Node}

theorem mono (h : Nested size lo hi n) (hlo : lo' ≤ lo) (hhi : hi ≤ hi') : Nested size lo' hi' n := by
  induction h with
  | finished he hstart hle hstop hc _ => exact .finished he (Nat.le_trans hlo hstart) hle (Nat.le_trans hstop hhi) hc
  | waiting hw _ ih => exact .waiting hw fun c hc => ih c hc hlo hhi
  | recovered he hk hstart hle hsize hstop =>
    exact .recovered he hk (Nat.le_trans hlo hstart) hle hsize (Nat.le_trans hstop hhi)

theorem child (h : Nested size lo hi n) (hc : c ∈ n.children) : Nested size lo hi c := by
  cases h with
  | finished _ hstart _ hstop h => exact (h c hc).mono hstart hstop
  | waiting _ h => exact h c hc
  | recovered _ hk =>
    rw [children, Kind.isEmptyStatement_iff.1 hk] at hc
    cases hc

theorem recast (h : Nested size lo hi n) (hr : Recast n m) : Nested size lo hi m := by
  induction h generalizing m with
  | finished he hstart hle hstop _ ih =>
    refine .finished (hr.extent.trans he) hstart hle hstop fun d hd => ?_
    obtain ⟨c, hc, hcd⟩ := hr.child hd
    exact ih c hc hcd
  | waiting hw _ ih =>
    refine .waiting (hr.isPlaceholder.trans hw) fun d hd => ?_
    obtain ⟨c, hc, hcd⟩ := hr.child hd
    exact ih c hc hcd
  | recovered he hk hstart hle hsize hstop =>
    exact .recovered (hr.extent.trans he) (hr.isEmptyStatement.trans hk) hstart hle hsize hstop

/-- Where nothing waits for an arrow, a node ends inside of what is around it, and it begins there and ends behind that
unless it is an empty statement. -/
theorem span (h : Nested size lo hi n) (hn : n.kind.isPlaceholder = false) (hsize : hi ≤ size) (hfits : size < 2 ^ 32) :
    lo ≤ n.span.start ∧ n.span.stop ≤ hi ∧ n.span.start ≤ size ∧
      (n.span.start ≤ n.span.stop ∨ n.kind = .emptyStatement) ∧
      ∀ c ∈ n.children, Nested size n.span.start n.span.stop c := by
  cases h with
  | @finished _ _ _ e he hstart hle hstop hc =>
    have start : e.start.offset < 2 ^ 32 := by omega
    have stop : e.stop.offset < 2 ^ 32 := by omega
    have : n.span = ⟨e.start.offset, e.stop.offset⟩ := by
      rw [Node.span, he, Option.map_some, Option.getD_some, Extent.span_eq start stop]
    rw [this]
    exact ⟨hstart, hstop, Nat.le_trans hle (Nat.le_trans hstop hsize), .inl hle, hc⟩
  | waiting hw => simp_all
  | @recovered _ _ _ e he hk hstart hle hsize hstop =>
    have start : e.start.offset < 2 ^ 32 := by omega
    have stop : e.stop.offset < 2 ^ 32 := by omega
    have : n.span = ⟨e.start.offset, e.stop.offset⟩ := by
      rw [Node.span, he, Option.map_some, Option.getD_some, Extent.span_eq start stop]
    have empty := Kind.isEmptyStatement_iff.1 hk
    rw [this]
    refine ⟨Nat.le_trans hstart hle, hstop, hsize, .inr empty, fun c hc => ?_⟩
    rw [children, empty] at hc
    cases hc

/-- In a tree where nothing waits for an arrow, every node covers its children, and only empty statements may begin
behind their end. -/
theorem spans {lo hi : Nat} {n : Node} (h : Nested size lo hi n) (hsize : hi ≤ size) (hfits : size < 2 ^ 32)
    (hplain : n.All fun n => n.kind.isPlaceholder = false) :
    n.All fun n => n.span.start ≤ size ∧ n.span.stop ≤ size ∧ (n.span.start ≤ n.span.stop ∨ n.kind = .emptyStatement) ∧
      ∀ c ∈ n.children, n.span.covers c.span = true := by
  obtain ⟨-, hstop, hstart, hle, hc⟩ := h.span hplain.root hsize hfits
  have within := Nat.le_trans hstop hsize
  refine all_iff.2 ⟨⟨hstart, within, hle, fun c hmem => ?_⟩, fun c hmem => ?_⟩
  · have := (hc c hmem).span (hplain.child hmem).root within hfits
    exact Span.covers_iff.2 ⟨this.1, this.2.1⟩
  · exact (hc c hmem).spans within hfits (hplain.child hmem)
termination_by sizeOf n
decreasing_by
  exact sizeOf_lt_of_mem_children hmem

/-- Every node that waits for no arrow lies in the source. -/
theorem inside {lo hi : Nat} {n : Node} (h : Nested size lo hi n) (hsize : hi ≤ size) :
    n.All fun n => n.kind.isPlaceholder = false → ∀ e, n.info.extent = some e →
      e.start.offset ≤ size ∧ e.stop.offset ≤ size := by
  have root : n.kind.isPlaceholder = false → ∀ e, n.info.extent = some e →
      e.start.offset ≤ size ∧ e.stop.offset ≤ size := by
    intro waits e he
    cases h with
    | finished he' _ hle hstop =>
      obtain rfl := Option.some.inj (he.symm.trans he')
      exact ⟨Nat.le_trans hle (Nat.le_trans hstop hsize), Nat.le_trans hstop hsize⟩
    | waiting hw => simp_all
    | recovered he' _ _ hle hstart hstop =>
      obtain rfl := Option.some.inj (he.symm.trans he')
      exact ⟨hstart, Nat.le_trans hstop hsize⟩
  exact all_iff.2 ⟨root, fun c hc => (h.child hc).inside hsize⟩
termination_by sizeOf n
decreasing_by
  exact sizeOf_lt_of_mem_children hc

end Nested

theorem Within.nested {size lo hi : Nat} {n : Node} (h : n.Within lo hi) : n.Nested size lo hi := by
  induction h with
  | finished he hstart hle hstop _ ih => exact .finished he hstart hle hstop ih
  | waiting hw _ ih => exact .waiting hw ih

end Node

/-! ## A tolerant parse seen as a strict one -/

namespace ParseState

variable {s t : ParseState}

/-- The state as a strict parse has it. -/
def asStrict (s : ParseState) : ParseState := s.heard false s.scanner.errors

theorem Advances.asStrict (h : s.Advances t) : s.asStrict.Advances t.asStrict := by
  obtain ⟨token, stop, regions, errors, newline, lexed, recorded, rfl⟩ := h
  exact ⟨token, stop, regions, errors, newline, lexed, recorded, rfl⟩

theorem Rescans.asStrict (h : s.Rescans t) : s.asStrict.Rescans t.asStrict := by
  obtain ⟨token, stop, regions, errors, lexed, isRegex, recorded, rfl⟩ := h
  exact ⟨token, stop, regions, errors, lexed, isRegex, recorded, rfl⟩

theorem Skips.asStrict (h : s.Skips t) : s.asStrict.Skips t.asStrict := by
  obtain ⟨regions, errors, recorded, rfl⟩ := h
  exact ⟨regions, errors, recorded, rfl⟩

theorem AdvancesJsx.asStrict {token : Token} (h : s.AdvancesJsx token t) : s.asStrict.AdvancesJsx token t.asStrict := by
  obtain ⟨stop, regions, errors, lexed, recorded, rfl⟩ := h
  exact ⟨stop, regions, errors, lexed, recorded, rfl⟩

theorem AdvancesText.asStrict {token : Token} (h : s.AdvancesText token t) :
    s.asStrict.AdvancesText token t.asStrict := by
  obtain ⟨stop, value, regions, errors, reaches, lexed, recorded, rfl⟩ := h
  exact ⟨stop, value, regions, errors, reaches, lexed, recorded, rfl⟩

theorem SkipsEmpty.asStrict {n : Node} (h : s.SkipsEmpty n t) : s.asStrict.SkipsEmpty n t.asStrict := by
  obtain ⟨u, hu, hn, rfl⟩ := h
  exact ⟨u.asStrict, hu.asStrict, hn, rfl⟩

theorem Reenters.asStrict (h : s.Reenters t) : s.asStrict.Reenters t.asStrict := by
  obtain ⟨brace, u, hu, closes, rfl⟩ := h
  exact ⟨brace, u.asStrict, hu.asStrict, closes, rfl⟩

theorem Rests.asStrict (h : s.Rests t) : s.asStrict.Rests t.asStrict := by
  obtain ⟨context, labels, cover, regions, errors, rfl, recorded⟩ := h
  exact ⟨context, labels, cover, regions, errors, rfl, recorded⟩

theorem view_asStrict (s : ParseState) (m : Mode) : s.asStrict.view m = (s.view m).asStrict := by
  cases m <;> rfl

end ParseState

namespace Recovery

open Spans (Fresh Ended Steps Read)

variable {source : Cursor} {size : Nat} {m : Mode} {r s t u : ParseState}

theorem steps_asStrict : Steps s.asStrict t.asStrict ↔ Steps s t :=
  ⟨fun h => ⟨h.fresh, h.start, h.last⟩, fun h => ⟨h.fresh, h.start, h.last⟩⟩

theorem read_asStrict : Read s.asStrict t.asStrict ↔ Read s t :=
  ⟨fun h => ⟨h.fresh, h.start, h.last⟩, fun h => ⟨h.fresh, h.start, h.last⟩⟩

/-- The parse stands where a strict one would. -/
def Stands (source : Cursor) (m : Mode) (s : ParseState) : Prop := Spans.Stands source m s.asStrict

/-- The node lies between the next token of the first state and what the second one has consumed. -/
def Good (size : Nat) (s : ParseState) (n : Node) (t : ParseState) : Prop :=
  n.Nested size s.start.offset (min t.last.offset t.start.offset)

theorem Good.steps {n : Node} (h : Good size s n t) (h' : Steps t u) : Good size s n u := by
  refine h.mono (Nat.le_refl _) ?_
  obtain ⟨-, _, _⟩ := h'
  omega

theorem Good.since {n : Node} (h : Steps r s) (h' : Good size s n t) : Good size r n t :=
  h'.mono h.start (Nat.le_refl _)

namespace Stands

theorem rests (h : Stands source m s) (ht : s.Rests t) : Stands source m t := Spans.Stands.rests h ht.asStrict

theorem next (h : Stands source .ahead s) (ht : s.Advances t) : Stands source .ahead t ∧ Read s t := by
  obtain ⟨stands, read⟩ := Spans.Stands.next h ht.asStrict
  exact ⟨stands, read_asStrict.1 read⟩

theorem passOver (h : Stands source .ahead s) (ht : s.PassesOver t) : Stands source .ahead t ∧ Read s t := by
  obtain ⟨u, hu, rests⟩ := ht.advances
  obtain ⟨stands, read⟩ := h.next hu
  exact ⟨stands.rests rests, read.before (.rests rests)⟩

theorem finish {base : ParseState} {start : Place} {kind : Kind Node} {n : Node} (h : Stands source m s)
    (hread : Read base (s.view m)) (hstart : base.Marks start)
    (hchildren : ∀ n ∈ kind.children, Good size base n (s.view m))
    (hn : n = .mk (s.finishedInfo start) kind)
    (ht : t = { s with finished := s.finished + 1, record := s.record.report (.node n ⟨start, s.last⟩) }) :
    Stands source m t ∧ Steps (s.view m) (t.view m) ∧ Read base (t.view m) ∧ Good size base n (t.view m) := by
  have base_read : Read base.asStrict (s.asStrict.view m) := by
    rw [s.view_asStrict]
    exact read_asStrict.2 hread
  obtain ⟨stands, steps, -, begins, last⟩ :=
    Spans.Stands.finishes (t := t.asStrict) (n := n) h base_read hstart (by rw [ht]; rfl)
  rw [s.view_asStrict, t.view_asStrict, steps_asStrict] at steps
  have last : (s.view m).last = s.last := by cases m <;> rfl
  refine ⟨stands, steps, hread.before steps, Good.steps (t := s.view m) ?_ steps⟩
  obtain ⟨-, hstart, hstop⟩ := hread
  rw [hn]
  rw [last] at hstart hstop
  refine .finished rfl (Nat.le_of_eq begins.symm) (Nat.le_trans (Nat.le_of_eq begins) hstart) ?_ fun c hc => ?_
  · rw [last]
    exact Nat.le_min.2 ⟨Nat.le_refl _, hstop⟩
  · refine (hchildren c hc).mono (Nat.le_of_eq begins) ?_
    rw [last]
    exact Nat.min_le_left _ _

/-- The empty statement ends where the last consumed token does, and that is no later than where the next one begins. -/
theorem recover {n : Node} (h : Stands source .ahead u) (hread : Read s u) (hsize : u.start.offset ≤ size)
    (hn : n = .mk (u.finishedInfo u.start.place) .emptyStatement)
    (ht : t = { u with finished := u.finished + 1, record := u.record.report (.node n ⟨u.start.place, u.last⟩) }) :
    Stands source .ahead t ∧ Read s t ∧ Good size s n t := by
  subst ht
  refine ⟨⟨h.strict, h.placed.congr rfl, h.ended⟩, ⟨hread.fresh, hread.start, hread.last⟩, ?_⟩
  rw [hn]
  exact .recovered rfl rfl hread.start hread.last hsize (Nat.le_min.2 ⟨Nat.le_refl _, hread.last⟩)

theorem nextJsx {token : Token} (h : Stands source m s) (ht : s.AdvancesJsx token t) :
    Stands source .inside t ∧ Read s.unread t.unread := by
  obtain ⟨stands, read⟩ := Spans.Stands.nextJsx h ht.asStrict
  exact ⟨stands, read_asStrict.1 read⟩

theorem nextJsxText {token : Token} (h : Stands source m s) (ht : s.AdvancesText token t) :
    Stands source .inside t ∧ Read s.unread t.unread := by
  obtain ⟨stands, read⟩ := Spans.Stands.nextJsxText h ht.asStrict
  exact ⟨stands, read_asStrict.1 read⟩

theorem regex (h : Stands source .ahead s) (hu : s.Rescans u) (ht : u.Advances t) :
    Stands source .ahead t ∧ Read s t := by
  obtain ⟨stands, read⟩ := Spans.Stands.regex h hu.asStrict ht.asStrict
  exact ⟨stands, read_asStrict.1 read⟩

theorem skips (h : Stands source m s) (hm : m ≠ .ahead) (ht : s.Skips t) :
    Stands source m t ∧ Steps s.unread t.unread := by
  obtain ⟨stands, steps⟩ := Spans.Stands.skips h hm ht.asStrict
  exact ⟨stands, steps_asStrict.1 steps⟩

theorem emptyExpression {n : Node} (h : Stands source .inside s) (ht : s.SkipsEmpty n t) :
    Stands source .inside t ∧ Read s.unread t.unread ∧ Good size s.unread n t.unread := by
  obtain ⟨stands, read, good⟩ := Spans.Stands.emptyExpression h ht.asStrict
  exact ⟨stands, read_asStrict.1 read, Node.Within.nested good⟩

theorem reenter (h : Stands source .ahead s) (ht : s.Reenters t) : Stands source .inside t ∧ Read s t.unread := by
  obtain ⟨stands, read⟩ := Spans.Stands.reenter h ht.asStrict
  exact ⟨stands, read_asStrict.1 read⟩

end Stands

variable {text : String}

theorem start_le_size (h : Stands (.ofString text) m s) : s.start.offset ≤ text.utf8ByteSize := by
  have reaches : (Cursor.ofString text).Reaches s.start := Spans.Stands.placed h |>.start
  rw [← reaches.offset_add_bytes]
  exact Nat.le_add_right _ _

/-- Nodes lie where they were read, also behind an error that is passed over. -/
def contract (text : String) : Contract where
  toJudgement := .onSuccess
  Stands := Stands (.ofString text)
  Steps := Steps
  Read := Read
  Later := Steps
  Good := Good text.utf8ByteSize
  Firm := Good text.utf8ByteSize
  Past _ _ := True
  Tells _ _ _ := True
  Escapes _ := True
  Initial s := s.start = .ofString text ∧ s.scanner.cursor = .ofString text
  Opened s := Fresh s ∧ s.start.offset ≤ s.last.offset
  steps_trans := Steps.trans
  steps_of_rests := Steps.rests
  steps_of_read := Read.steps
  read_of_steps := Read.after
  read_later := Read.before
  later_of_steps h := h
  stands_of_rests h h' := h'.rests h
  entering_of_inside h := ⟨h.strict, h.placed, trivial⟩
  good_steps := Good.steps
  good_from := Good.since
  firm_later := Good.steps
  firm_from := Good.since
  good_of_firm h := h
  firm_of_read h h' := h.steps h'.steps
  firm_of_not_arrow h _ := h
  firm_of_identifier h _ := h
  firm_toPattern h := h.recast (Node.toPattern_recast _)
  firm_child h hc := h.child hc
  firm_parameter h hn p hp := h.child (by rw [Node.children, hn]; exact hp)
  firm_yield h hn hr := h.recast (Node.yield_recast hn hr)
  good_placeholder _ _ h := .waiting rfl h
  good_escaped _ _ h := .waiting rfl h
  tells_of_rests _ _ _ := trivial
  tells_steps _ _ := trivial
  ofNext h := by
    refine Judgement.onSuccess.mono .next ?_
    rintro c t ⟨rfl, ht⟩
    obtain ⟨stands, read⟩ := h.next ht
    exact ⟨rfl, stands, read.steps, fun _ => read, trivial, fun _ _ => trivial⟩
  ofClose h _ _ _ := Judgement.onSuccess.mono .skip fun _ t ht => ⟨(h.next ht).1, (h.next ht).2, trivial⟩
  ofRegex h hslash := Judgement.onSuccess.mono (.regex (h.placed.congr rfl) hslash) fun _ t ⟨u, hu, _, ht⟩ =>
    ⟨(h.regex hu ht).1, (h.regex hu ht).2, trivial⟩
  ofTrail h := .modifying (fun _ _ _ => rfl) ⟨⟨h.strict, h.placed.congr rfl, .inl (Nat.le_refl _)⟩, id,
    Nat.le_refl _, .inr ⟨Nat.le_refl _, Nat.le_refl _⟩⟩
  ofFinish h hread hstart hk hchildren _ := by
    refine Judgement.onSuccess.mono .finish ?_
    rintro n t ⟨hn, ht⟩
    obtain ⟨stands, steps, read, good⟩ := h.finish hread hstart hchildren hn ht
    exact ⟨stands, by rw [ht], steps, read, by rw [hn]; rfl, good, fun _ => good⟩
  ofSeparator h := by
    refine Judgement.onSuccess.mono Judgement.onSuccess.expectSeparator ?_
    rintro _ t (⟨-, u, hu, ht⟩ | ht)
    · obtain ⟨stands, read⟩ := h.next hu
      exact ⟨stands.rests ht, read.steps.trans (.rests ht)⟩
    · exact ⟨h.rests ht, .rests ht⟩
  ofEndDoWhile h := by
    refine Judgement.onSuccess.mono Judgement.onSuccess.endDoWhile ?_
    rintro _ t (⟨-, u, hu, ht⟩ | ⟨-, ht⟩)
    · obtain ⟨stands, read⟩ := h.next hu
      rcases ht with rfl | ⟨-, ht⟩
      · exact ⟨stands, read⟩
      · exact ⟨(stands.next ht).1, read.before (stands.next ht).2.steps⟩
    · exact h.passOver ht
  ofMissingParen h _ hnone hsome := by
    refine Judgement.bind Judgement.onSuccess.missingParen ?_
    rintro e t (⟨rfl, rfl⟩ | ⟨-, u, n, hu, rfl, hn, ht⟩)
    · exact hnone
    · obtain ⟨stands, read⟩ := h.passOver hu
      obtain ⟨stands, read, good⟩ := stands.recover read (start_le_size stands) hn ht
      exact hsome n t stands read good
  ofStartJsx h _ _ := by
    refine Judgement.onSuccess.mono .startJsx ?_
    rintro _ _ rfl
    exact ⟨⟨h.strict, h.placed.enter.congr rfl, trivial⟩, fun _ => h.fresh, Nat.le_refl _, .inl rfl⟩
  ofSkipTrivia hm h := Judgement.onSuccess.mono .skipTrivia fun _ t ht =>
    ⟨(h.skips hm ht).1, (h.skips hm ht).2, ht.clear⟩
  ofNextJsx h := Judgement.onSuccess.mono .nextJsx fun _ t ht _ =>
    ⟨(h.nextJsx ht).1, (h.nextJsx ht).2, fun _ _ _ => trivial⟩
  ofNextJsxText h := Judgement.onSuccess.mono .nextJsxText fun _ t ht =>
    ⟨(h.nextJsxText ht).1, (h.nextJsxText ht).2, trivial⟩
  ofEmptyExpression h := Judgement.onSuccess.mono .jsxEmptyExpression fun _ t ht => h.emptyExpression ht
  ofSkipInside h := by
    refine Judgement.onSuccess.mono .skip fun _ t ht => ?_
    obtain ⟨stands, last, start⟩ := Spans.Stands.advances h.strict h.placed ht.asStrict
    exact ⟨stands, rfl, Nat.le_of_eq last.symm, Nat.le_trans (Nat.le_of_eq last) start⟩
  ofReenterJsx _ _ h := Judgement.onSuccess.mono .reenterJsx fun _ t ht => h.reenter ht
  ofOpening := by
    rintro s ⟨hstart, hcursor⟩
    refine Judgement.onSuccess.mono .opening ?_
    rintro _ _ ⟨u, hu, rfl⟩
    have placed : s.asStrict.Placed (.ofString text) .entering := ⟨hstart ▸ .refl _, hcursor ▸ .refl _⟩
    exact Spans.Stands.opening rfl placed hu.asStrict
  read_of_end h hsteps ht hend := read_asStrict.1 <|
    Spans.Stands.read_of_end (s := ParseState.asStrict _) h.1 h.2 (steps_asStrict.2 hsteps) ht hend

/-- What a parse gives back lies in the source. -/
theorem source_nested {dialect : Dialect} {root : Node} {s : ParseState} (h : Parse.source text dialect = .ok root s) :
    root.Nested text.utf8ByteSize 0 text.utf8ByteSize := by
  obtain ⟨first, -, held, -⟩ := Contract.source_held (K := contract text) text dialect .complete ⟨rfl, rfl⟩ root s h
  exact (held.good root (by simp)).mono (Nat.zero_le _)
    (Nat.le_trans (Nat.min_le_right _ _) (start_le_size held.stands))

end Recovery

/-- Recovery keeps the offsets in the source and the nodes in their parents: in a tree where nothing waits for an arrow,
every node covers its children, and none begins behind its end but an empty statement. -/
theorem spans_recover {source : String} {o : ParseOptions} {p : Program} (hfits : source.utf8ByteSize < 2 ^ 32)
    (hp : parse source o = .ok p) (hplain : ∀ entry ∈ p.root.walk, entry.2.kind.isPlaceholder = false) :
    ∀ entry ∈ p.root.walk, entry.2.span.start ≤ source.utf8ByteSize ∧ entry.2.span.stop ≤ source.utf8ByteSize ∧
      (entry.2.span.start ≤ entry.2.span.stop ∨ entry.2.kind = .emptyStatement) ∧
      ∀ child ∈ entry.2.children, entry.2.span.covers child.span = true := by
  obtain ⟨root, s, hs, rfl⟩ := parse_eq_ok.1 hp
  have nested : (Program.asked o root s).root.Nested source.utf8ByteSize 0 source.utf8ByteSize :=
    (Recovery.source_nested hs).recast (Program.asked_recast o root s)
  exact nested.spans (Nat.le_refl _) hfits hplain

/-- The empty statement behind `while(a b` begins with `c` and ends with `b`. -/
theorem spans_recover_while :
    "while(a b c".utf8ByteSize < 2 ^ 32 ∧ ∃ p, parse "while(a b c" { tolerant := true } = .ok p ∧
    (∀ entry ∈ p.root.walk, entry.2.kind.isPlaceholder = false) ∧
    (∀ entry ∈ p.root.walk, entry.2.span.start ≤ "while(a b c".utf8ByteSize ∧
      entry.2.span.stop ≤ "while(a b c".utf8ByteSize ∧
      (entry.2.span.start ≤ entry.2.span.stop ∨ entry.2.kind = .emptyStatement) ∧
      ∀ child ∈ entry.2.children, entry.2.span.covers child.span = true) := by
  have fits : "while(a b c".utf8ByteSize < 2 ^ 32 := by decide
  have h : (match parse "while(a b c" { tolerant := true } with
      | .ok p => p.root.walk.all fun entry => !entry.2.kind.isPlaceholder
      | .error _ => false) = true := by decide +kernel
  split at h
  next p hp =>
    have hplain : ∀ entry ∈ p.root.walk, entry.2.kind.isPlaceholder = false := by simpa using h
    exact ⟨fits, p, hp, hplain, spans_recover fits hp hplain⟩
  · cases h

/-- With an error passed over, a node may begin behind its end. -/
theorem span_reversed_while : ∃ p, parse "while(a b c" { tolerant := true } = .ok p ∧
    ∃ entry ∈ p.root.walk, entry.2.kind.isEmptyStatement = true ∧ entry.2.span = ⟨10, 9⟩ := by
  have h : (match parse "while(a b c" { tolerant := true } with
      | .ok p => p.root.walk.any fun entry => entry.2.kind.isEmptyStatement && entry.2.span == ⟨10, 9⟩
      | .error _ => false) = true := by decide +kernel
  split at h
  next p hp => exact ⟨p, hp, by simpa using h⟩
  · cases h

end EcmaTree
