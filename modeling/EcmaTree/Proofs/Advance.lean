import EcmaTree.Proofs.Lexer.Scan
import EcmaTree.Proofs.Lexer.Trivia

/-!
# Steps from token to token

What consuming a token does to the whole state, for every judgement, and what is always true of the place where a
parse stands: the lookahead is the text between the beginning of the next token and the scanner.
-/

namespace EcmaTree

open Cursor (Reaches)

/-- How a parse stands: with a token read ahead, before an element of JSX or inside of one. -/
inductive Mode where
  | ahead
  | entering
  | inside

theorem Lexed.congr {c c' d : Cursor} {t : Token} (h : Lexed c t d) (hrest : c'.rest = c.rest)
    (hoffset : c'.offset = c.offset) : Lexed c' t d where
  reaches := by
    obtain ⟨cs, hc, hd⟩ := h.reaches
    exact ⟨cs, hrest.trans hc, by rw [hoffset, hd]⟩
  eq := by rw [h.eq]; simp [Scan.tokenBetween, Cursor.textUntil, Cursor.charsUntil, hrest, hoffset]
  end_iff := by rw [hrest, h.end_iff]
  advances hend := hoffset ▸ h.advances hend
  spelled hp := ⟨hrest.trans (h.spelled hp).rest, by rw [hoffset]; exact (h.spelled hp).offset⟩
  braced hc := h.braced (hrest ▸ hc)
  closes ht := by
    obtain ⟨e, ch, first, reaches, last⟩ := h.closes ht
    refine ⟨e, ch, hoffset ▸ first, ?_, last⟩
    obtain ⟨cs, hc, he⟩ := reaches
    exact ⟨cs, hrest.trans hc, by rw [hoffset, he]⟩
  marked := h.marked
  verbatim := h.verbatim

/-- In strict code only identifiers become something else: keywords. -/
theorem Lexed.inStrictCode {c d : Cursor} {t : Token} (h : Lexed c t d) : Lexed c t.inStrictCode d := by
  unfold Token.inStrictCode
  split
  next name hname =>
    split
    · have hend : t.isEnd = false := by simp [Token.isEnd, hname]
      have other (rest : List Char) : c.rest ≠ '\x7d' :: rest := fun hbrace => by
        rcases h.braced hbrace with hl | ⟨_, hl, _⟩ <;> rw [hname] at hl <;> cases hl
      have := Lexed.of_plain (l := .keyword name) h.reaches (h.advances hend) rfl other (by simp)
        (h.verbatim.keyword hname rfl (congrArg Token.raw h.eq).symm)
      rw [h.eq]
      exact this
    · exact h
  · exact h

namespace ParseState

/-- Is the source a script? -/
def isScript (s : ParseState) : Bool := s.scanner.goal == .script

/-- The trivia at the scanner. -/
def trivia (s : ParseState) : Trivia := Trivia.skip s.scanner.keepsComments s.isScript s.scanner.cursor

/-- The record behind the trivia at the scanner. -/
def passing (s : ParseState) : Record := s.record.pass s.trivia.comments

/-- Trivia is skipped, and its comments are reported. -/
def Skips (s t : ParseState) : Prop :=
  ∃ regions errors, s.scanner.errors <+: errors ∧ t = { s with
    scanner := { s.scanner with cursor := s.trivia.cursor, regions, errors }
    record := s.passing }

/-- Where the next token begins. -/
def nextStart (s : ParseState) : Cursor :=
  if s.trivia.cursor.offset = s.start.offset then s.start else s.trivia.cursor

/-- The lookahead is consumed, and the next token is read. -/
def Advances (s t : ParseState) : Prop :=
  ∃ token stop regions errors newline, Lexed s.trivia.cursor token stop ∧ s.scanner.errors <+: errors ∧ t = { s with
    scanner := { s.scanner with cursor := stop, regions, errors }
    lookahead := token
    newline
    start := s.nextStart
    last := s.scanner.cursor.place
    record := if token.isEnd then s.passing else s.passing.list token s.nextStart stop }

/-- The slash ahead is read again, as a regular expression. -/
def Rescans (s t : ParseState) : Prop :=
  ∃ token stop regions errors, Lexed s.start token stop ∧ token.regex?.isSome = true ∧
    s.scanner.errors <+: errors ∧ t = { s with
      scanner := { s.scanner with cursor := stop, regions, errors }
      lookahead := token
      record := s.record.unlist.list token s.start stop }

/-- The token of JSX is read and consumed. -/
def AdvancesJsx (s : ParseState) (token : Token) (t : ParseState) : Prop :=
  ∃ stop regions errors, LexedJsx s.trivia.cursor token stop ∧ s.scanner.errors <+: errors ∧ t = { s with
    scanner := { s.scanner with cursor := stop, regions, errors }
    start := s.trivia.cursor
    last := stop.place
    record := s.passing.list token s.trivia.cursor stop }

/-- Text between tags is read and consumed, if there is any. -/
def AdvancesText (s : ParseState) (token : Token) (t : ParseState) : Prop :=
  ∃ stop value regions errors, s.scanner.cursor.Reaches stop ∧
    token = Scan.tokenBetween s.scanner.cursor stop (.jsxText value) ∧ s.scanner.errors <+: errors ∧ t = { s with
      scanner := { s.scanner with cursor := stop, regions, errors }
      start := s.scanner.cursor
      last := stop.place
      record := if s.scanner.cursor.offset < stop.offset then
          s.record.list token s.scanner.cursor stop else s.record }

/-- The trivia between braces is skipped. The node that stands for it begins at `start`. -/
def SkipsEmpty (s : ParseState) (n : Node) (t : ParseState) : Prop :=
  ∃ u, s.Skips u ∧
    n = .mk ({ u with last := u.scanner.cursor.place }.finishedInfo s.scanner.cursor.place) .jsxEmptyExpression ∧
    t = { u with
      last := u.scanner.cursor.place
      finished := u.finished + 1
      record := u.record.report (.node n ⟨s.scanner.cursor.place, u.scanner.cursor.place⟩) }

/-- The closing brace ahead is read again, as a token of JSX. It stays listed once. -/
def Reenters (s t : ParseState) : Prop :=
  ∃ brace u, { s with scanner.cursor := s.start }.AdvancesJsx brace u ∧ brace.isPunctuator .rightBrace = true ∧
    t = { u with record := u.record.unlist }

/-! ## Where a parse stands -/

/-- The lookahead stands between the beginning of the next token and the scanner, and no trivia does. -/
structure Sited (source : Cursor) (s : ParseState) : Prop where
  reaches : source.Reaches s.start
  lexed : Lexed s.start s.lookahead s.scanner.cursor
  settled {c : Cursor} : c.rest = s.start.rest → c.offset = s.start.offset →
    Trivia.skip s.scanner.keepsComments s.isScript c = ⟨[], c, false⟩

namespace Sited

variable {source : Cursor} {s : ParseState}

theorem scanner (h : s.Sited source) : source.Reaches s.scanner.cursor := h.reaches.trans h.lexed.reaches

/-- What may begin a regular expression is a punctuator, and begins with a slash. -/
theorem slash (h : s.Sited source)
    (hslash : (s.lookahead.isPunctuator .slash || s.lookahead.isPunctuator .divAssign) = true) :
    ∃ p rest, s.lookahead.isPunctuator p = true ∧ s.start.rest = '/' :: rest := by
  rcases Bool.or_eq_true_iff.1 hslash with hp | hp
  · exact ⟨_, _, hp, (h.lexed.spelled (Token.isPunctuator_iff.1 hp)).rest⟩
  · exact ⟨_, _, hp, (h.lexed.spelled (Token.isPunctuator_iff.1 hp)).rest⟩

/-- What is read again as a brace is one, or goes on with a template. -/
theorem braced {t : ParseState} (h : s.Sited source) (ht : s.Reenters t) :
    s.lookahead.lexeme = .punctuator .rightBrace ∨ ∃ chunk, s.lookahead.lexeme = .template chunk ∧
      chunk.isHead = false := by
  obtain ⟨brace, u, ⟨stop, _, _, lexed, -, -⟩, hbrace, -⟩ := ht
  have still : ParseState.trivia { s with scanner.cursor := s.start } = ⟨[], s.start, false⟩ := h.settled rfl rfl
  rw [still] at lexed
  rw [Token.isPunctuator_iff] at hbrace
  have again : Lexed s.start brace stop := lexed.lexed (by simp [Token.isTemplate, hbrace])
  exact h.lexed.braced (again.spelled hbrace).rest

end Sited

variable {source : Cursor} {s t : ParseState}

theorem nextStart_spec (hs : source.Reaches s.start) (hc : source.Reaches s.scanner.cursor) :
    s.nextStart.offset = s.trivia.cursor.offset ∧ s.nextStart.rest = s.trivia.cursor.rest := by
  unfold nextStart
  split
  next h => exact ⟨h.symm, hs.rest_eq (hc.trans (Trivia.skip_reaches _ _ _)) h.symm⟩
  · exact ⟨rfl, rfl⟩

theorem Advances.sited (hs : source.Reaches s.start) (hc : source.Reaches s.scanner.cursor) (h : s.Advances t) :
    t.Sited source := by
  obtain ⟨token, stop, regions, errors, newline, lexed, -, rfl⟩ := h
  obtain ⟨offset, rest⟩ := nextStart_spec hs hc
  refine ⟨?_, lexed.congr rest offset, fun hrest hoffset => ?_⟩
  · unfold nextStart
    split
    · exact hs
    · exact hc.trans (Trivia.skip_reaches _ _ _)
  · exact Trivia.skip_skip (hrest.trans rest) (hoffset.trans offset)

theorem Rescans.sited (h : s.Rescans t) (hs : s.Sited source) : t.Sited source := by
  obtain ⟨token, stop, regions, errors, lexed, -, -, rfl⟩ := h
  exact ⟨hs.reaches, lexed, hs.settled⟩

/-- Where a parse may stand: with a token ahead, only where that token is what the scanner has passed. -/
def Placed (source : Cursor) : Mode → ParseState → Prop
  | .ahead, s => s.Sited source
  | .entering, s | .inside, s => source.Reaches s.start ∧ source.Reaches s.scanner.cursor

namespace Placed

variable {m : Mode}

theorem start (h : s.Placed source m) : source.Reaches s.start := by
  cases m
  · exact Sited.reaches h
  · exact h.1
  · exact h.1

theorem cursor (h : s.Placed source m) : source.Reaches s.scanner.cursor := by
  cases m
  · exact Sited.scanner h
  · exact h.2
  · exact h.2

theorem advances (h : s.Placed source m) (ht : s.Advances t) : t.Placed source .ahead := ht.sited h.start h.cursor

/-- Only the scanner and what it has read count. -/
theorem congr (h : s.Placed source m) (hsame : (t.start, t.lookahead, t.scanner.cursor, t.scanner.goal,
    t.scanner.keepsComments) = (s.start, s.lookahead, s.scanner.cursor, s.scanner.goal, s.scanner.keepsComments)) :
    t.Placed source m := by
  obtain ⟨hstart, hahead, hcursor, hgoal, hkeeps⟩ : t.start = s.start ∧ t.lookahead = s.lookahead ∧
    t.scanner.cursor = s.scanner.cursor ∧ t.scanner.goal = s.scanner.goal ∧
    t.scanner.keepsComments = s.scanner.keepsComments := by simpa using hsame
  cases m
  · obtain ⟨reaches, lexed, settled⟩ := h
    refine ⟨hstart ▸ reaches, by rw [hstart, hahead, hcursor]; exact lexed, fun hrest hoffset => ?_⟩
    rw [hstart] at hrest hoffset
    rw [isScript, hgoal, hkeeps]
    exact settled hrest hoffset
  · exact ⟨hstart ▸ h.1, hcursor ▸ h.2⟩
  · exact ⟨hstart ▸ h.1, hcursor ▸ h.2⟩

theorem rests (h : s.Placed source m) (ht : s.Rests t) : t.Placed source m := by
  obtain ⟨_, _, _, _, _, rfl, _⟩ := ht
  exact h.congr rfl

theorem skips (h : s.Placed source m) (hm : m ≠ .ahead) (ht : s.Skips t) : t.Placed source m := by
  obtain ⟨_, _, _, rfl⟩ := ht
  have reaches := h.cursor.trans (Trivia.skip_reaches s.scanner.keepsComments s.isScript _)
  cases m
  · exact absurd rfl hm
  · exact ⟨h.start, reaches⟩
  · exact ⟨h.start, reaches⟩

theorem enter (h : s.Placed source .ahead) : { s with scanner.cursor := s.start }.Placed source .entering :=
  ⟨h.start, h.start⟩

theorem advancesJsx {token : Token} (h : s.Placed source m) (ht : s.AdvancesJsx token t) : t.Placed source .inside := by
  obtain ⟨_, _, _, lexed, _, rfl⟩ := ht
  have reaches := h.cursor.trans (Trivia.skip_reaches s.scanner.keepsComments s.isScript _)
  exact ⟨reaches, reaches.trans lexed.reaches⟩

theorem advancesText {token : Token} (h : s.Placed source m) (ht : s.AdvancesText token t) :
    t.Placed source .inside := by
  obtain ⟨_, _, _, _, reaches, _, _, rfl⟩ := ht
  exact ⟨h.cursor, h.cursor.trans reaches⟩

end Placed

end ParseState

namespace Judgement

open Parse

variable {J : Judgement} {α β : Type} {s : ParseState}

theorem Ensures.skipTrivia : J.Ensures skipTrivia s fun _ t => s.Skips t := by
  refine Judgement.bind skipTrivia_ensures ?_
  rintro comments t ⟨⟨regions, errors, rfl, h⟩, rfl⟩
  exact .modifying (fun _ _ _ => rfl) ⟨regions, errors, h, rfl⟩

/-- The next token begins where the scanner stands, unless nothing has been passed since the last one. -/
theorem Ensures.setStart {Q : Unit → ParseState → Prop}
    (h : Q () { s with
      start := if s.scanner.cursor.offset = s.start.offset then s.start else s.scanner.cursor }) :
    J.Ensures (modify fun s : ParseState =>
      if s.scanner.cursor.offset = s.start.offset then s else { s with start := s.scanner.cursor }) s Q := by
  refine J.ofModify (fun s tolerant errors => ?_) ?_
  · by_cases hs : s.scanner.cursor.offset = s.start.offset <;> simp [ParseState.heard, hs]
  · split at h <;> simp_all

theorem Ensures.next : J.Ensures next s fun c t => c = s.lookahead ∧ s.Advances t := by
  refine J.ofBind (.modifying (fun _ _ _ => rfl) (Judgement.bind .skipTrivia ?_))
  rintro _ _ ⟨regions, errors, h, rfl⟩
  refine J.ofBind (.setStart (Judgement.bind token_ensures ?_))
  rintro read _ ⟨stop, ⟨regions', errors', rfl, h'⟩, lexed⟩
  have token : Lexed s.trivia.cursor (if s.context.strict then read.inStrictCode else read) stop := by
    split
    · exact lexed.inStrictCode
    · exact lexed
  refine .get (fun _ => rfl) (J.ofBind (.modifying (fun _ _ _ => rfl) (J.ofPure ⟨rfl, ?_⟩)))
  exact ⟨_, stop, regions', errors', _, token, h.trans h', rfl⟩

theorem Ensures.skip : J.Ensures skip s fun _ t => s.Advances t := by
  rw [Parse.skip_eq]
  exact Judgement.bind .next fun _ _ h => J.ofPure h.2

theorem Ensures.regex {source : Cursor} (hs : s.Sited source)
    (hslash : (s.lookahead.isPunctuator .slash || s.lookahead.isPunctuator .divAssign) = true) :
    J.Ensures regex s fun c t => ∃ u, s.Rescans u ∧ c = u.lookahead ∧ u.Advances t := by
  obtain ⟨_, rest, -, hrest⟩ := hs.slash hslash
  refine J.ofBind (.modifying (fun _ _ _ => rfl) (Judgement.bind .skipTrivia ?_))
  rintro _ _ ⟨regions, errors, h, rfl⟩
  have still : ParseState.trivia { s with scanner.cursor := { s.scanner.cursor with
      offset := s.start.offset, rest := s.start.rest } } = ⟨[], { s.scanner.cursor with
      offset := s.start.offset, rest := s.start.rest }, false⟩ := hs.settled rfl rfl
  refine Judgement.bind (regex_ensures (by rw [still]; exact hrest)) ?_
  rintro token _ ⟨stop, ⟨regions', errors', rfl, h'⟩, lexed, isRegex⟩
  refine J.ofBind (.modifying (fun _ _ _ => rfl) (Judgement.bind .skip fun _ u hu => J.ofPure ?_))
  rw [still] at lexed
  exact ⟨_, ⟨token, stop, regions', errors', lexed.congr rfl rfl, isRegex, h.trans h',
    by simp [still, ParseState.passing, Record.pass]⟩, rfl, hu⟩

theorem Ensures.nextJsx : J.Ensures nextJsx s fun c t => s.AdvancesJsx c t := by
  refine Judgement.bind .skipTrivia ?_
  rintro _ _ ⟨regions, errors, h, rfl⟩
  refine J.ofBind (.modifying (fun _ _ _ => rfl) (Judgement.bind jsxToken_ensures ?_))
  rintro token _ ⟨stop, ⟨regions', errors', rfl, h'⟩, lexed⟩
  exact J.ofBind (.modifying (fun _ _ _ => rfl) (J.ofPure ⟨stop, regions', errors', lexed, h.trans h', rfl⟩))

theorem Ensures.nextJsxText : J.Ensures nextJsxText s fun c t => s.AdvancesText c t := by
  refine J.ofBind (.modifying (fun _ _ _ => rfl) (Judgement.bind jsxText_ensures ?_))
  rintro token _ ⟨stop, ⟨regions, errors, rfl, h⟩, reaches, value, rfl⟩
  exact J.ofBind (.modifying (fun _ _ _ => rfl) (J.ofPure ⟨stop, value, regions, errors, reaches, rfl, h, rfl⟩))

theorem Ensures.nextJsxText_verbatim : J.Ensures Parse.nextJsxText s fun c _ => c.text = c.raw :=
  J.ofBind (.modifying (fun _ _ _ => rfl) (Judgement.bind jsxText_verbatim fun _ _ h =>
    J.ofBind (.modifying (fun _ _ _ => rfl) (J.ofPure h))))

theorem Ensures.opening : J.Ensures opening s fun _ t =>
    ∃ u, s.Advances u ∧ t = { u with last := u.scanner.cursor.place } :=
  Judgement.bind .skip fun _ u hu => .modifying (fun _ _ _ => rfl) ⟨u, hu, rfl⟩

theorem Ensures.finish {start : Place} {kind : Kind Node} : J.Ensures (finish start kind) s fun n t =>
    n = .mk (s.finishedInfo start) kind ∧
      t = { s with finished := s.finished + 1, record := s.record.report (.node n ⟨start, s.last⟩) } :=
  .get (fun _ => rfl) (J.ofBind (.modifying (fun _ _ _ => rfl) (J.ofPure ⟨rfl, rfl⟩)))

theorem Ensures.startJsx : J.Ensures startJsx s fun _ t =>
    t = { s with record := s.record.unlist, scanner.cursor := s.start } :=
  J.ofBind (.modifying (fun _ _ _ => rfl) (.modifying (fun _ _ _ => rfl) rfl))

theorem Ensures.jsxEmptyExpression : J.Ensures jsxEmptyExpression s fun n t => s.SkipsEmpty n t := by
  refine .scannerPlace (Judgement.bind .skipTrivia fun _ u hu => J.ofBind (.modifying (fun _ _ _ => rfl) ?_))
  refine J.mono .finish ?_
  rintro n t ⟨hn, ht⟩
  exact ⟨u, hu, hn, hn ▸ ht⟩

theorem Ensures.reenterJsx : J.Ensures reenterJsx s fun _ t => s.Reenters t := by
  refine J.ofBind (.modifying (fun _ _ _ => rfl) ?_)
  rw [expectJsx, bind_assoc]
  refine Judgement.bind .nextJsx fun brace u hu =>
    J.ofBind (.ite (fun hb => J.ofPure (.modifying (fun _ _ _ => rfl) ?_)) fun _ => .failAt)
  exact ⟨brace, u, hu, hb, rfl⟩

end Judgement

end EcmaTree
