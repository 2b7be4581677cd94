import EcmaTree.Proofs.Grammar.Program
import EcmaTree.Proofs.Partition
import EcmaTree.Proofs.Success
import EcmaTree.Proofs.Recording.Complete
import EcmaTree.Proofs.Recording.Found
import Mathlib.Algebra.Group.Nat.Defs

/-!
# Tokens and comments partition the source

A parse lexes some of the source more than once, and takes back what it has listed before it reads again: the slash
that begins a regular expression, the angle bracket that begins an element of JSX, the brace behind an expression in
one. What has been listed therefore partitions the source before the scanner, but for a chunk of a template that is
read where such a brace closes: it is listed whole, and its text is read again.
-/

namespace EcmaTree

open Cursor (Reaches)

namespace Tokens

variable {source : String} {jsx : Bool} {m : Mode} {s t u : ParseState} {tokens : List Token} {comments : List Comment}
  {c d : Cursor}

/-! ## What has been listed -/

/-- What is left of the tokens, and the comments, partition the source before the offset. -/
def Covers (source : String) (jsx : Bool) (tokens : List Token) (comments : List Comment) (stop : Nat) : Prop :=
  ∃ pieces : List (Token × Token), pieces.map Prod.fst = tokens ∧ (∀ p ∈ pieces, Cut source jsx p.1 p.2) ∧
    Partitions source stop (pieces.map Prod.snd) comments

namespace Covers

theorem nil (source : String) (jsx : Bool) : Covers source jsx [] [] (Cursor.ofString source).offset :=
  ⟨[], rfl, by simp, Partitions.nil source⟩

theorem piece {t : Token} {l : Lexeme} (h : Covers source jsx tokens comments c.offset)
    (hc : (Cursor.ofString source).Reaches c) (hd : c.Reaches d) (hlt : c.offset < d.offset)
    (hcut : Cut source jsx t (Scan.tokenBetween c d l)) : Covers source jsx (tokens ++ [t]) comments d.offset := by
  obtain ⟨pieces, rfl, cut, partitions⟩ := h
  refine ⟨pieces ++ [(t, Scan.tokenBetween c d l)], by simp, ?_, by simpa using partitions.token hc hd hlt⟩
  simp only [List.mem_append, List.mem_singleton]
  rintro p (hp | rfl)
  · exact cut p hp
  · exact hcut

/-- A token is read. -/
theorem lexed {t : Token} (h : Covers source jsx tokens comments c.offset) (hc : (Cursor.ofString source).Reaches c)
    (ht : Lexed c t d) (hend : t.isEnd = false) : Covers source jsx (tokens ++ [t]) comments d.offset := by
  refine h.piece (l := t.lexeme) hc ht.reaches (ht.advances hend) ?_
  rw [← ht.eq]
  exact .whole t

theorem passed {passed : List Comment} (h : Covers source jsx tokens comments c.offset)
    (hc : (Cursor.ofString source).Reaches c) (hp : Passed c passed d) :
    Covers source jsx tokens (comments ++ passed) d.offset := by
  obtain ⟨pieces, htokens, cut, partitions⟩ := h
  exact ⟨pieces, htokens, cut, partitions.passed hc hp⟩

end Covers

/-! ## What every production keeps -/

/-- Where a parse stands, what is listed covers what has been read. The lookahead is listed too, unless it is the end;
what is listed before it reaches as far as its beginning. -/
def Stands (source : String) : Mode → ParseState → Prop
  | .ahead, s => s.Complete ∧ s.Placed (.ofString source) .ahead ∧
    ∃ settled, listed s = settled ++ (if s.lookahead.isEnd then [] else [s.lookahead]) ∧
      Covers source s.dialect.jsx settled (reported s) s.start.offset
  | m, s => s.Complete ∧ s.Placed (.ofString source) m ∧ s.dialect.jsx = true ∧
    Covers source s.dialect.jsx (listed s) (reported s) s.scanner.cursor.offset

/-- The parse reads the same language. -/
def Steps (s t : ParseState) : Prop := t.dialect.jsx = s.dialect.jsx

namespace Stands

theorem complete (h : Stands source m s) : s.Complete := by cases m <;> exact h.1

theorem placed (h : Stands source m s) : s.Placed (.ofString source) m := by cases m <;> exact h.2.1

theorem covers (h : Stands source m s) :
    Covers source s.dialect.jsx (listed s) (reported s) s.scanner.cursor.offset := by
  cases m
  · obtain ⟨-, sited, settled, hlisted, covers⟩ := h
    have lexed : Lexed s.start s.lookahead s.scanner.cursor := sited.lexed
    rw [hlisted]
    cases hend : s.lookahead.isEnd with
    | true =>
      obtain ⟨cs, hrest, hoffset⟩ := lexed.reaches
      obtain ⟨rfl, -⟩ : cs = [] ∧ s.scanner.cursor.rest = [] := by simpa [lexed.end_iff.1 hend] using hrest
      have same : s.scanner.cursor.offset = s.start.offset := hoffset
      rw [if_pos rfl, List.append_nil, same]
      exact covers
    | false => exact covers.lexed sited.reaches lexed hend
  · exact h.2.2.2
  · exact h.2.2.2

theorem advances (hc : s.Complete) (hs : s.Placed (.ofString source) m)
    (hcovers : Covers source s.dialect.jsx (listed s) (reported s) s.scanner.cursor.offset) (ht : s.Advances t) :
    Stands source .ahead t ∧ Steps s t := by
  have placed := hs.advances ht
  have complete := hc.advances ht
  have tokens := listed_advances hc ht
  have comments := reported_advances hc ht
  obtain ⟨hstart, -⟩ := ParseState.nextStart_spec hs.start hs.cursor
  obtain ⟨token, stop, _, _, _, _, _, rfl⟩ := ht
  refine ⟨⟨complete, placed, listed s, tokens, ?_⟩, rfl⟩
  rw [hstart, comments]
  exact hcovers.passed hs.cursor hc.passed

theorem next (h : Stands source m s) (ht : s.Advances t) : Stands source .ahead t ∧ Steps s t :=
  advances h.complete h.placed h.covers ht

/-- What is neither scanned nor listed does not count. -/
theorem congr (h : Stands source m s) (hcomplete : t.Complete) (hplaced : t.Placed (.ofString source) m)
    (hsame : (t.dialect.jsx, listed t, t.lookahead, t.start, t.scanner.cursor) =
      (s.dialect.jsx, listed s, s.lookahead, s.start, s.scanner.cursor))
    (hreported : reported t = reported s) : Stands source m t := by
  obtain ⟨hjsx, hlisted, hahead, hstart, hcursor⟩ : t.dialect.jsx = s.dialect.jsx ∧ listed t = listed s ∧
    t.lookahead = s.lookahead ∧ t.start = s.start ∧ t.scanner.cursor = s.scanner.cursor := by simpa using hsame
  cases m
  · refine ⟨hcomplete, hplaced, ?_⟩
    rw [hlisted, hreported, hahead, hstart, hjsx]
    exact h.2.2
  all_goals
    refine ⟨hcomplete, hplaced, ?_⟩
    rw [hlisted, hreported, hcursor, hjsx]
    exact h.2.2

theorem rests (h : Stands source m s) (ht : s.Rests t) : Stands source m t ∧ Steps s t := by
  have placed := h.placed.rests ht
  have complete := h.complete.rests ht
  obtain ⟨_, _, _, _, _, rfl, _⟩ := ht
  exact ⟨h.congr complete placed rfl rfl, rfl⟩

theorem passesOver (h : Stands source .ahead s) (ht : s.PassesOver t) : Stands source .ahead t ∧ Steps s t := by
  obtain ⟨u, hu, ht⟩ := ht.advances
  obtain ⟨stands, steps⟩ := (h.next hu).1.rests ht
  exact ⟨stands, steps.trans (h.next hu).2⟩

/-- The last token that is listed is the lookahead. -/
theorem listed_pop (h : Stands source .ahead s) (hend : s.lookahead.isEnd = false) :
    Covers source s.dialect.jsx (listed s).dropLast (reported s) s.start.offset := by
  obtain ⟨-, -, settled, hlisted, covers⟩ := h
  rw [hlisted, hend]
  simpa using covers

theorem regex (h : Stands source .ahead s) (hslash : s.lookahead.isEnd = false) (hu : s.Rescans u) (ht : u.Advances t) :
    Stands source .ahead t ∧ Steps s t := by
  have placed : u.Placed (.ofString source) .ahead := hu.sited h.placed
  have covers := h.listed_pop hslash
  have complete := h.complete.rescans hu
  have tokens := listed_rescans h.complete hu
  have comments := reported_rescans hu
  have again : Stands source .ahead u ∧ u.dialect = s.dialect := by
    obtain ⟨token, stop, _, _, _, hregex, _, rfl⟩ := hu
    have hend : token.isEnd = false := by
      cases hl : token.lexeme <;> simp_all [Token.regex?, Token.isEnd]
    exact ⟨⟨complete, placed, _, by rw [tokens, hend]; rfl, by rw [comments]; exact covers⟩, rfl⟩
  obtain ⟨stands, steps⟩ := again.1.next ht
  exact ⟨stands, by rw [Steps, steps, again.2]⟩

theorem finish {n : Node} {e : Extent} (h : Stands source m s) : Stands source m
    { s with finished := s.finished + 1, record := s.record.report (.node n e) } :=
  h.congr (h.complete.finished _) (h.placed.congr rfl) rfl (reported_finished h.complete n e)

theorem startJsx (h : Stands source .ahead s) (hjsx : s.dialect.jsx = true) (hend : s.lookahead.isEnd = false) :
    Stands source .entering { s with record := s.record.unlist, scanner.cursor := s.start } := by
  refine ⟨h.complete.enters, h.placed.enter.congr rfl, hjsx, ?_⟩
  rw [listed_enters h.complete, reported_enters]
  exact h.listed_pop hend

/-- Inside an element. -/
theorem inside (h : Stands source m s) (hm : m ≠ .ahead) : s.dialect.jsx = true := by
  cases m
  · exact absurd rfl hm
  · exact h.2.2.1
  · exact h.2.2.1

theorem skips (h : Stands source m s) (hm : m ≠ .ahead) (ht : s.Skips t) : Stands source m t ∧ Steps s t := by
  have placed := h.placed.skips hm ht
  have complete := h.complete.skips ht
  have covers := h.covers.passed h.placed.cursor h.complete.passed
  rw [← reported_skips h.complete ht, ← listed_skips ht] at covers
  obtain ⟨_, _, _, rfl⟩ := ht
  cases m
  · exact absurd rfl hm
  · exact ⟨⟨complete, placed, h.2.2.1, covers⟩, rfl⟩
  · exact ⟨⟨complete, placed, h.2.2.1, covers⟩, rfl⟩

theorem nextJsx {token : Token} (h : Stands source m s) (hm : m ≠ .ahead) (ht : s.AdvancesJsx token t)
    (htag : token.mayTag = true) : Stands source .inside t ∧ Steps s t := by
  have placed := h.placed.advancesJsx ht
  have complete := h.complete.advancesJsx ht
  have jsx := h.inside hm
  have skipped := h.placed.cursor.trans h.complete.passed.reaches
  have covers := h.covers.passed h.placed.cursor h.complete.passed
  have tokens := listed_advancesJsx h.complete ht
  have comments := reported_advancesJsx h.complete ht
  obtain ⟨_, _, _, lexed, _, rfl⟩ := ht
  simp only [Token.mayTag, Bool.and_eq_true, Bool.not_eq_true'] at htag
  have covers := covers.lexed skipped (lexed.lexed htag.1.2) htag.1.1
  refine ⟨⟨complete, placed, jsx, ?_⟩, rfl⟩
  rw [tokens, comments]
  exact covers

theorem nextJsxText {token : Token} (h : Stands source .inside s) (ht : s.AdvancesText token t) :
    Stands source .inside t ∧ Steps s t := by
  have placed := h.placed.advancesText ht
  have complete := h.complete.advancesText ht
  have reaches := h.placed.cursor
  have covers := h.covers
  have tokens := listed_advancesText h.complete ht
  have comments := reported_advancesText ht
  obtain ⟨stop, value, _, _, text, rfl, _, rfl⟩ := ht
  refine ⟨⟨complete, placed, h.2.2.1, ?_⟩, rfl⟩
  rw [tokens, comments]
  dsimp only
  by_cases hlt : s.scanner.cursor.offset < stop.offset
  · rw [if_pos hlt]
    exact covers.piece reaches text hlt (.whole _)
  · rw [if_neg hlt, List.append_nil]
    have same : stop.offset = s.scanner.cursor.offset := Nat.le_antisymm (Nat.le_of_not_lt hlt) text.offset_le
    rw [same]
    exact covers

theorem emptyExpression {n : Node} (h : Stands source .inside s) (ht : s.SkipsEmpty n t) :
    Stands source .inside t ∧ Steps s t := by
  obtain ⟨u, hu, rfl, rfl⟩ := ht
  obtain ⟨stands, steps⟩ := h.skips (by nofun) hu
  refine ⟨stands.finish.congr ?_ (stands.placed.congr rfl) rfl rfl, steps⟩
  exact (stands.complete.finished _).congr rfl rfl

/-- A closing brace that is read again takes the place of the lookahead. If that is a chunk of a template, it is cut. -/
theorem covers_brace {stop : Cursor} (h : Stands source .ahead s) (hjsx : s.dialect.jsx = true)
    (hbrace : s.start.Across ['\x7d'] stop) :
    Covers source s.dialect.jsx (listed s) (reported s) stop.offset := by
  obtain ⟨-, sited, settled, hlisted, covers⟩ := h
  have lexed : Lexed s.start s.lookahead s.scanner.cursor := sited.lexed
  have one : stop.offset = s.start.offset + 1 := hbrace.offset
  have hend : s.lookahead.isEnd = false := by
    rw [← Bool.not_eq_true, lexed.end_iff, hbrace.rest]
    nofun
  rw [hlisted, hend]
  rcases lexed.braced hbrace.rest with hl | ⟨chunk, hl, hhead⟩
  · have same : s.scanner.cursor.offset = stop.offset := by rw [(lexed.spelled hl).offset, one]; rfl
    rw [← same]
    exact covers.lexed sited.reaches lexed hend
  · obtain ⟨e, last, first, reaches, across, hlast⟩ := lexed.closes (by simp [Token.isTemplate, hl])
    have ahead := lexed.eq
    have start : s.lookahead.start = s.start.offset := by rw [ahead]; rfl
    have ends : s.lookahead.stop = e.offset + 1 := by
      rw [show s.lookahead.stop = s.scanner.cursor.offset by rw [ahead]; rfl, across.offset]
      rcases hlast with rfl | rfl <;> rfl
    have byte : ByteOf source (s.lookahead.stop - 1) last := by
      refine byteOf_reaches (sited.reaches.trans reaches) across (by omega) ?_
      rw [ends, across.offset, bytes_cons]
      have := last.utf8Size_pos
      omega
    have beyond : stop.offset < s.lookahead.stop := by omega
    refine covers.piece (l := .punctuator .rightBrace) sited.reaches ⟨_, hbrace⟩ (by omega) ?_
    refine .brace hjsx hl hhead rfl hbrace.textUntil start.symm beyond byte ?_
    rcases hlast with rfl | rfl <;> decide

theorem reenter (h : Stands source .ahead s) (hjsx : s.dialect.jsx = true) (ht : s.Reenters t) :
    Stands source .inside t ∧ Steps s t := by
  have sited : s.Sited (.ofString source) := h.placed
  have complete := h.complete.reenters ht
  have tokens := listed_reenters h.complete ht
  have comments := reported_reenters h.complete sited ht
  obtain ⟨brace, u, hu, hbrace, rfl⟩ := ht
  have placed := h.placed.enter.advancesJsx hu
  have still : ParseState.trivia { s with scanner.cursor := s.start } = ⟨[], s.start, false⟩ := sited.settled rfl rfl
  obtain ⟨stop, regions, errors, lexed, _, rfl⟩ := hu
  rw [still] at lexed
  rw [Token.isPunctuator_iff] at hbrace
  have again : Lexed s.start brace stop := lexed.lexed (by simp [Token.isTemplate, hbrace])
  have covers := h.covers_brace hjsx (again.spelled hbrace)
  refine ⟨⟨complete, placed.congr rfl, hjsx, ?_⟩, rfl⟩
  rw [tokens, comments]
  simpa [still] using covers

end Stands

theorem isEnd_of_slash (h : (s.lookahead.isPunctuator .slash || s.lookahead.isPunctuator .divAssign) = true) :
    s.lookahead.isEnd = false := by
  rcases Bool.or_eq_true_iff.1 h with h | h
  · exact Token.isEnd_of_isPunctuator h
  · exact Token.isEnd_of_isPunctuator h

/-- Every token and every comment is listed. -/
def contract (source : String) (jsx : Bool) : Contract where
  toJudgement := .onSuccess
  Stands := Stands source
  Steps := Steps
  Read := Steps
  Later := Steps
  Good _ _ _ := True
  Firm _ _ _ := True
  Past _ _ := True
  Tells _ _ _ := True
  Escapes _ := True
  Initial s := s.Complete ∧ s.start = .ofString source ∧ s.scanner.cursor = .ofString source ∧
    s.record.tokens = #[] ∧ s.record.events = #[] ∧ s.dialect.jsx = jsx
  Opened s := s.dialect.jsx = jsx
  steps_trans h h' := h'.trans h
  steps_of_rests := by
    rintro s _ ⟨_, _, _, _, _, rfl, _⟩
    rfl
  steps_of_read h := h
  read_of_steps h h' := h'.trans h
  read_later h h' := h'.trans h
  later_of_steps h := h
  stands_of_rests h h' := (h'.rests h).1
  entering_of_inside h := h
  good_steps _ _ := trivial
  good_from _ _ := trivial
  firm_later _ _ := trivial
  firm_from _ _ := trivial
  good_of_firm _ := trivial
  firm_of_read _ _ := trivial
  firm_of_not_arrow _ _ := trivial
  firm_of_identifier _ _ := trivial
  firm_toPattern _ := trivial
  firm_child _ _ := trivial
  firm_parameter _ _ _ _ := trivial
  firm_yield _ _ _ := trivial
  good_placeholder _ _ _ := trivial
  good_escaped _ _ _ := trivial
  tells_of_rests _ _ _ := trivial
  tells_steps _ _ := trivial
  ofNext h := Judgement.onSuccess.mono .next fun _ _ ⟨hc, ht⟩ =>
    ⟨hc, (h.next ht).1, (h.next ht).2, fun _ => (h.next ht).2, trivial, fun _ _ => trivial⟩
  ofClose h _ _ _ := Judgement.onSuccess.mono .skip fun _ _ ht => ⟨(h.next ht).1, (h.next ht).2, trivial⟩
  ofRegex h hslash := Judgement.onSuccess.mono (.regex h.placed hslash) fun _ _ ⟨_, hu, _, ht⟩ =>
    have ⟨stands, read⟩ := h.regex (isEnd_of_slash hslash) hu ht
    ⟨stands, read, trivial⟩
  ofTrail h := .modifying (fun _ _ _ => rfl)
    ⟨h.congr (h.complete.congr rfl rfl) (h.placed.congr rfl) rfl rfl, rfl⟩
  ofFinish {m base s start kind} h hread _ _ _ _ := by
    refine Judgement.onSuccess.mono .finish ?_
    rintro n t ⟨hn, rfl⟩
    have steps : Steps (s.view m) (ParseState.view
        { s with finished := s.finished + 1, record := s.record.report (.node n ⟨start, s.last⟩) } m) := by
      cases m <;> rfl
    exact ⟨h.finish, rfl, steps, steps.trans hread, by rw [hn]; rfl, trivial, fun _ => trivial⟩
  ofSeparator h := by
    refine Judgement.onSuccess.mono Judgement.onSuccess.expectSeparator ?_
    rintro _ t (⟨-, u, hu, ht⟩ | ht)
    · exact ⟨((h.next hu).1.rests ht).1, ((h.next hu).1.rests ht).2.trans (h.next hu).2⟩
    · exact h.rests ht
  ofEndDoWhile h := by
    refine Judgement.onSuccess.mono Judgement.onSuccess.endDoWhile ?_
    rintro _ t (⟨-, u, hu, ht⟩ | ⟨-, ht⟩)
    · obtain ⟨stands, steps⟩ := h.next hu
      rcases ht with rfl | ⟨-, ht⟩
      · exact ⟨stands, steps⟩
      · exact ⟨(stands.next ht).1, (stands.next ht).2.trans steps⟩
    · exact h.passesOver ht
  ofMissingParen h _ hnone hsome := by
    refine Judgement.bind Judgement.onSuccess.missingParen ?_
    rintro e t (⟨rfl, rfl⟩ | ⟨-, u, n, hu, rfl, -, rfl⟩)
    · exact hnone
    · exact hsome n _ (h.passesOver hu).1.finish (h.passesOver hu).2 trivial
  ofStartJsx h hjsx hlt := by
    refine Judgement.onSuccess.mono .startJsx ?_
    rintro _ _ rfl
    refine ⟨h.startJsx hjsx ?_, rfl⟩
    rw [Token.isPunctuator_iff] at hlt
    simp [Token.isEnd, hlt]
  ofSkipTrivia hm h := Judgement.onSuccess.mono .skipTrivia fun _ _ ht =>
    ⟨(h.skips hm ht).1, (h.skips hm ht).2, ht.clear⟩
  ofNextJsx h := Judgement.onSuccess.mono .nextJsx fun _ _ ht htag =>
    have ⟨stands, read⟩ := h.nextJsx (by nofun) ht htag
    ⟨stands, read, fun _ _ _ => trivial⟩
  ofNextJsxText h := Judgement.onSuccess.mono .nextJsxText fun _ _ ht =>
    ⟨(h.nextJsxText ht).1, (h.nextJsxText ht).2, trivial⟩
  ofEmptyExpression h := Judgement.onSuccess.mono .jsxEmptyExpression fun _ _ ht =>
    ⟨(h.emptyExpression ht).1, (h.emptyExpression ht).2, trivial⟩
  ofSkipInside h := Judgement.onSuccess.mono .skip fun _ _ ht => h.next ht
  ofReenterJsx hr hsteps h := Judgement.onSuccess.mono .reenterJsx fun _ _ ht =>
    h.reenter (hsteps.trans (hr.inside (by nofun))) ht
  ofOpening {s} h := by
    obtain ⟨complete, hstart, hcursor, htokens, hevents, rfl⟩ := h
    refine Judgement.onSuccess.mono .opening ?_
    rintro _ _ ⟨u, hu, rfl⟩
    have placed : s.Placed (.ofString source) .entering := ⟨hstart ▸ .refl _, hcursor ▸ .refl _⟩
    have covers : Covers source s.dialect.jsx (listed s) (reported s) s.scanner.cursor.offset := by
      rw [listed, reported, htokens, hevents, hcursor]
      exact .nil source s.dialect.jsx
    obtain ⟨stands, steps⟩ := Stands.advances complete placed covers hu
    exact ⟨stands.congr (stands.complete.congr rfl rfl) (stands.placed.congr rfl) rfl rfl, steps⟩
  read_of_end _ h _ _ := h

/-- What a parse of a source lists, but for what is cut, partitions the source. -/
theorem source_covers {text : String} {dialect : Dialect} {root : Node} {s : ParseState}
    (h : Parse.source text dialect = .ok root s) :
    Covers text dialect.jsx (listed s) (reported s) text.utf8ByteSize := by
  obtain ⟨first, hjsx, held, hend⟩ := Contract.source_held (K := contract text dialect.jsx) text dialect .complete
    ⟨.initial text dialect, rfl, rfl, rfl, rfl, rfl⟩ root s h
  have same : s.dialect.jsx = dialect.jsx := Eq.trans held.moved hjsx
  obtain ⟨-, sited, settled, hlisted, covers⟩ : Stands text .ahead s := held.stands
  have lexed : Lexed s.start s.lookahead s.scanner.cursor := sited.lexed
  have whole : s.start.offset = text.utf8ByteSize := by
    rw [← Reaches.offset_add_bytes sited.reaches, lexed.end_iff.1 hend]
    rfl
  rw [hlisted, hend, ← whole, ← same]
  simpa using covers

end Tokens

/-- Tokens and comments have kept the ranges in which they stand. -/
def KeepRanges (tokens : List TokenEntry) (comments : List Comment) : Prop :=
  (∀ t ∈ tokens, t.placement.range = some ⟨t.token.start, t.token.stop⟩) ∧
    ∀ c ∈ comments, c.placement.range = some ⟨c.start, c.stop⟩

/-- Tokens and comments that end before 4 GiB keep their ranges, if that is asked for. -/
theorem Program.asked_ranges {o : ParseOptions} {tokens : List TokenEntry} {comments : List Comment} {size : Nat}
    (hrange : o.range = true) (hfits : size < 2 ^ 32)
    (ht : ∀ t ∈ tokens, t.token.start ≤ t.token.stop ∧ t.token.stop ≤ size)
    (hc : ∀ c ∈ comments, c.start ≤ c.stop ∧ c.stop ≤ size) :
    KeepRanges (tokens.map o.relisted) (comments.map o.placed) := by
  constructor
  · simp only [List.mem_map]
    rintro _ ⟨t, hmem, rfl⟩
    obtain ⟨hle, hstop⟩ := ht t hmem
    exact (if_pos hrange).trans (congrArg some (Span.inWords_eq (s := t.token.span)
      (by exact Nat.lt_of_le_of_lt (Nat.le_trans hle hstop) hfits)
      (Nat.lt_of_le_of_lt hstop hfits)))
  · simp only [List.mem_map]
    rintro _ ⟨c, hmem, rfl⟩
    obtain ⟨hle, hstop⟩ := hc c hmem
    exact (if_pos hrange).trans (congrArg some (Extent.span_eq (Nat.lt_of_le_of_lt (Nat.le_trans hle hstop) hfits)
      (Nat.lt_of_le_of_lt hstop hfits)))

/-- Tokens and comments partition the source, but for pieces of templates that JSX reads again. What is left of the
tokens partitions it always, and without JSX nothing is cut; with it the tokens as they are listed partition the source
just when nothing is cut. If ranges are asked for, they say where tokens and comments stand. -/
theorem tokens_partition {source : String} {o : ParseOptions} {p : Program} (hfits : source.utf8ByteSize < 2 ^ 32)
    (htokens : o.tokens = true) (hcomment : o.comment = true) (hp : parse source o = .ok p) :
    ∃ tokens comments, p.tokens = some tokens ∧ p.comments = some comments ∧
      (o.range = true → KeepRanges tokens comments) ∧
      (o.jsx = false → Partitions source source.utf8ByteSize (tokens.map (·.token)) comments) ∧
      ∃ pieces : List (Token × Token), pieces.map Prod.fst = tokens.map (·.token) ∧
        (∀ piece ∈ pieces, Cut source o.jsx piece.1 piece.2) ∧
        Partitions source source.utf8ByteSize (pieces.map Prod.snd) comments ∧
        (Partitions source source.utf8ByteSize (tokens.map (·.token)) comments ↔
          ∀ piece ∈ pieces, piece.1 = piece.2) := by
  obtain ⟨root, s, hs, rfl⟩ := parse_eq_ok.1 hp
  obtain ⟨pieces, listed, cut, partitions⟩ := Tokens.source_covers hs
  have tokens : (s.record.tokens.toList.map o.relisted).map (·.token) = Tokens.listed s := by
    rw [List.map_map]
    rfl
  have comments (ts : List Token) : Partitions source source.utf8ByteSize ts ((Tokens.reported s).map o.placed) ↔
      Partitions source source.utf8ByteSize ts (Tokens.reported s) := Partitions.map_comments fun _ => rfl
  have whole := partitions_iff_whole cut partitions
  rw [listed] at whole
  refine ⟨_, _, if_pos htokens, if_pos hcomment, fun hrange => ?_, fun hjsx => ?_, pieces,
    listed.trans tokens.symm, cut,
    (comments _).2 partitions, by rw [tokens]; exact (comments _).trans whole⟩
  · refine Program.asked_ranges hrange hfits (fun t ht => ?_) fun c hc => ?_
    · have hmem : t.token ∈ pieces.map Prod.fst := listed ▸ List.mem_map_of_mem ht
      obtain ⟨piece, hpiece, same⟩ := List.mem_map.1 hmem
      rw [← same]
      exact (cut piece hpiece).bounded (partitions.tokens_bounded _ (List.mem_map_of_mem hpiece))
    · obtain ⟨hlt, hstop⟩ := partitions.comments_bounded c hc
      exact ⟨Nat.le_of_lt hlt, hstop⟩
  · rw [tokens]
    exact (comments _).2 (whole.2 fun piece hpiece => (cut piece hpiece).eq_of_not_jsx hjsx)

theorem tokens_partition_element : "<a>\x7b/b/\x7d</a> // c".utf8ByteSize < 2 ^ 32 ∧ ∃ p,
    parse "<a>\x7b/b/\x7d</a> // c" { jsx := true, tokens := true, comment := true } = .ok p ∧
    ∃ tokens comments, p.tokens = some tokens ∧ p.comments = some comments ∧
      ∃ pieces : List (Token × Token), pieces.map Prod.fst = tokens.map (·.token) ∧
        Partitions "<a>\x7b/b/\x7d</a> // c" 17 (pieces.map Prod.snd) comments := by
  have hfits : "<a>\x7b/b/\x7d</a> // c".utf8ByteSize < 2 ^ 32 := by decide
  have h : (parse "<a>\x7b/b/\x7d</a> // c"
      { jsx := true, tokens := true, comment := true }).toOption.isSome = true := by
    decide +kernel
  obtain ⟨p, hp⟩ := exists_ok_of_isSome h
  obtain ⟨tokens, comments, htokens, hcomments, -, -, pieces, listed, -, partitions, -⟩ :=
    tokens_partition hfits rfl rfl hp
  exact ⟨hfits, p, hp, tokens, comments, htokens, hcomments, pieces, listed, partitions⟩

/-- A chunk that closes an expression in an element of JSX reaches over the tokens behind it. -/
theorem tokens_overlap_element : ∃ p tokens comments,
    parse "<a>\x7b`$\x7bx++ `y`\x7d</a>;``" { jsx := true, tokens := true, comment := true } = .ok p ∧
      p.tokens = some tokens ∧ p.comments = some comments ∧
      ¬ Partitions "<a>\x7b`$\x7bx++ `y`\x7d</a>;``" 22 (tokens.map (·.token)) comments := by
  have h : ((parse "<a>\x7b`$\x7bx++ `y`\x7d</a>;``"
      { jsx := true, tokens := true, comment := true }).toOption.any fun p =>
      p.comments.isSome && p.tokens.any fun tokens =>
        !decide ((tokens.map (·.token)).Pairwise fun t u => t.stop ≤ u.start)) = true := by decide +kernel
  obtain ⟨p, hp, h⟩ := exists_ok_of_any h
  simp only [Bool.and_eq_true] at h
  obtain ⟨comments, hcomments⟩ := Option.isSome_iff_exists.1 h.1
  obtain ⟨tokens, htokens, overlap⟩ := (Option.any_eq_true _ _).1 h.2
  refine ⟨p, tokens, comments, hp, htokens, hcomments, fun partitions => ?_⟩
  simp only [Bool.not_eq_true', decide_eq_false_iff_not] at overlap
  exact overlap partitions.tokens_ordered

end EcmaTree
