import EcmaTree.Proofs.Success
import EcmaTree.Proofs.Lexer.Strict

/-!
# Steps that count lines

The scanner starts a line behind every line terminator, so what reads a token in strict mode leaves it with the line
and the column of its offset. Only the strings of JSX, which are read up to their closing quote, cross lines that
nobody counts.
-/

namespace EcmaTree

open Cursor (SameLine)

/-- Does a line end within the token? -/
def Token.crossesLines (t : Token) : Bool := t.raw.toList.any isLineTerminator

/-! ## Reading tokens -/

namespace Judgement.onSuccess

open Parse

variable {s : ParseState}

theorem token_tracks : onSuccess.Ensures (scan Scan.token) s fun _ t => s.scanner.cursor.Tracks t.scanner.cursor := by
  intro t u h
  rw [scan] at h
  split at h <;> cases h
  next hread => exact (Scan.token_ok hread).1

theorem regex_tracks {rest : List Char} (hrest : s.scanner.cursor.rest = '/' :: rest) :
    onSuccess.Ensures (scan Scan.regex) s fun _ t => s.scanner.cursor.Tracks t.scanner.cursor := by
  intro t u h
  rw [scan] at h
  split at h <;> cases h
  next scanner hread =>
    obtain ⟨r, hr, hcursor⟩ := Scan.regex_reads hread
    rw [show ParseState.scanner { s with scanner } = scanner from rfl, hcursor]
    exact (Regex.read_sameLine hrest hr).tracks

/-- A token of JSX counts lines as others do, but for strings: the lines that they cross are not counted. -/
theorem jsxToken_tracks : onSuccess.Ensures (scan Scan.jsxToken) s fun t u =>
    (t.isString = true → t.crossesLines = false) → s.scanner.cursor.Tracks u.scanner.cursor := by
  have ordinary := onSuccess.mono (token_tracks (s := s)) fun t u h (_ : t.isString = true →
    t.crossesLines = false) => h
  have tracks {d : Cursor} {l : Lexeme} (h : s.scanner.cursor.Tracks d) :
      onSuccess.Ensures (scan (Scan.jsxTokenTo d l)) s fun t u =>
      (t.isString = true → t.crossesLines = false) → s.scanner.cursor.Tracks u.scanner.cursor := by
    rintro _ _ ⟨⟩ -
    exact h
  refine .scanGet (fun _ => rfl) ?_
  simp only
  split
  · exact ordinary
  next ch rest hrest =>
    split
    next p hp =>
      have plain : isLineTerminator ch = false :=
        isLineTerminator_eq_false (p := fun ch => (Jsx.punctuator? ch).isSome) (by decide) (by simp [hp])
      exact tracks (SameLine.pass hrest plain).tracks
    split
    · rintro _ _ ⟨⟩ hplain
      obtain ⟨cs, hcs, hn⟩ := Jsx.readString_reaches ch rest
      have across : s.scanner.cursor.Across (ch :: cs)
          ((s.scanner.cursor.pass ch rest).moveTo (Jsx.readString ch rest).2.1 (Jsx.readString ch rest).2.2) :=
        ⟨hrest.trans (congrArg (ch :: ·) hcs), by rw [← hn]; exact Nat.add_assoc _ _ _⟩
      refine SameLine.tracks ⟨_, across, ?_, rfl, rfl⟩
      simpa [Token.crossesLines, Scan.tokenBetween, across.textUntil] using hplain rfl
    split
    next hdot =>
      obtain rfl := eq_of_beq hdot
      split
      · exact tracks (SameLine.moveTo ['.', '.', '.'] hrest rfl rfl).tracks
      · exact tracks (SameLine.pass hrest rfl).tracks
    split
    · exact tracks (.refl _)
    split
    next hname =>
      have first : isLineTerminator ch = false :=
        isLineTerminator_of_isIdentifierPart (isIdentifierPart_of_isIdentifierStart hname)
      exact tracks ((SameLine.pass hrest first).trans
        (.skipWhile (fun _ h => isLineTerminator_eq_false (by decide +kernel) h) _)).tracks
    · exact ordinary

theorem jsxText_tracks : onSuccess.Ensures (scan Scan.jsxText) s fun _ t =>
    s.scanner.cursor.Tracks t.scanner.cursor := by
  rintro _ _ ⟨⟩
  exact (Jsx.skipText_passes _).tracks

end Judgement.onSuccess

namespace ParseState

/-- The lookahead is consumed and the next token is read, and the lines are counted. -/
structure Moves (s t : ParseState) : Prop where
  advances : s.Advances t
  tracks : s.scanner.cursor.Tracks t.scanner.cursor

/-- The slash ahead is read again, as a regular expression, from where it begins on the line of the scanner. -/
structure Reads (s t : ParseState) : Prop where
  rescans : s.Rescans t
  tracks : Cursor.Tracks { s.scanner.cursor with offset := s.start.offset, rest := s.start.rest } t.scanner.cursor

/-- The token of JSX is read and consumed, and the lines are counted unless a string crosses some. -/
structure MovesJsx (s : ParseState) (token : Token) (t : ParseState) : Prop where
  advances : s.AdvancesJsx token t
  tracks : (token.isString = true → token.crossesLines = false) → s.scanner.cursor.Tracks t.scanner.cursor

/-- Text between tags is read and consumed, and the lines are counted. -/
structure MovesText (s : ParseState) (token : Token) (t : ParseState) : Prop where
  advances : s.AdvancesText token t
  tracks : s.scanner.cursor.Tracks t.scanner.cursor

end ParseState

namespace Judgement.onSuccess

open Parse

variable {s : ParseState}

theorem next_moves : onSuccess.Ensures next s fun c t => c = s.lookahead ∧ s.Moves t := by
  have tracks : onSuccess.Ensures next s fun _ t => s.scanner.cursor.Tracks t.scanner.cursor := by
    refine onSuccess.ofBind (.modifying (fun _ _ _ => rfl) (Judgement.bind .skipTrivia ?_))
    rintro _ _ ⟨regions, errors, -, rfl⟩
    refine onSuccess.ofBind (.setStart (Judgement.bind token_tracks fun read u h => ?_))
    refine .get (fun _ => rfl) (onSuccess.ofBind (.modifying (fun _ _ _ => rfl) (onSuccess.ofPure ?_)))
    exact (Trivia.skip_passes ..).tracks.trans h
  exact onSuccess.mono (and .next tracks) fun c t ⟨⟨hc, advances⟩, tracks⟩ => ⟨hc, advances, tracks⟩

theorem skip_moves : onSuccess.Ensures skip s fun _ t => s.Moves t := by
  rw [skip_eq]
  exact Judgement.bind next_moves fun _ _ h => onSuccess.ofPure h.2

/-- A regular expression is consumed as any token is, once it has been read. -/
theorem regex_reads {R : ParseState → ParseState → Prop} (hskip : ∀ u, onSuccess.Ensures skip u fun _ t => R u t)
    {source : Cursor} (hs : s.Sited source)
    (hslash : (s.lookahead.isPunctuator .slash || s.lookahead.isPunctuator .divAssign) = true) :
    onSuccess.Ensures regex s fun c t => ∃ u, s.Reads u ∧ c = u.lookahead ∧ R u t := by
  obtain ⟨_, rest, -, hrest⟩ := hs.slash hslash
  refine onSuccess.ofBind (.modifying (fun _ _ _ => rfl) (Judgement.bind .skipTrivia ?_))
  rintro _ _ ⟨regions, errors, h, rfl⟩
  have still : ParseState.trivia { s with scanner.cursor := { s.scanner.cursor with
      offset := s.start.offset, rest := s.start.rest } } = ⟨[], { s.scanner.cursor with
      offset := s.start.offset, rest := s.start.rest }, false⟩ := hs.settled rfl rfl
  have slash : (ParseState.trivia { s with scanner.cursor := { s.scanner.cursor with
      offset := s.start.offset, rest := s.start.rest } }).cursor.rest = '/' :: rest := by
    rw [still]
    exact hrest
  refine Judgement.bind (and (regex_ensures slash) (regex_tracks slash)) ?_
  rintro token _ ⟨⟨stop, ⟨regions', errors', rfl, h'⟩, lexed, isRegex⟩, tracks⟩
  refine onSuccess.ofBind (.modifying (fun _ _ _ => rfl) (Judgement.bind (hskip _) fun _ u hu => onSuccess.ofPure ?_))
  rw [still] at lexed tracks
  refine ⟨_, ?_, rfl, hu⟩
  refine ⟨?_, tracks⟩
  exact ⟨token, stop, regions', errors', lexed.congr rfl rfl, isRegex, h.trans h',
    by simp [still, ParseState.passing, Record.pass]⟩

theorem regex_moves {source : Cursor} (hs : s.Sited source)
    (hslash : (s.lookahead.isPunctuator .slash || s.lookahead.isPunctuator .divAssign) = true) :
    onSuccess.Ensures regex s fun _ t => ∃ u, s.Reads u ∧ u.Moves t :=
  onSuccess.mono (regex_reads (fun _ => skip_moves) hs hslash) fun _ _ ⟨u, hu, _, ht⟩ => ⟨u, hu, ht⟩

theorem nextJsx_moves : onSuccess.Ensures nextJsx s fun c t => s.MovesJsx c t := by
  have tracks : onSuccess.Ensures nextJsx s fun c t =>
      (c.isString = true → c.crossesLines = false) → s.scanner.cursor.Tracks t.scanner.cursor := by
    refine Judgement.bind .skipTrivia ?_
    rintro _ _ ⟨regions, errors, -, rfl⟩
    refine onSuccess.ofBind (.modifying (fun _ _ _ => rfl) (Judgement.bind jsxToken_tracks fun token u h => ?_))
    refine onSuccess.ofBind (.modifying (fun _ _ _ => rfl) (onSuccess.ofPure fun hplain => ?_))
    exact (Trivia.skip_passes ..).tracks.trans (h hplain)
  exact onSuccess.mono (and .nextJsx tracks) fun c t ⟨advances, tracks⟩ => ⟨advances, tracks⟩

theorem nextJsxText_moves : onSuccess.Ensures nextJsxText s fun c t => s.MovesText c t := by
  have tracks : onSuccess.Ensures nextJsxText s fun _ t => s.scanner.cursor.Tracks t.scanner.cursor := by
    refine onSuccess.ofBind (.modifying (fun _ _ _ => rfl) (Judgement.bind jsxText_tracks fun token u h => ?_))
    exact onSuccess.ofBind (.modifying (fun _ _ _ => rfl) (onSuccess.ofPure h))
  exact onSuccess.mono (and .nextJsxText tracks) fun c t ⟨advances, tracks⟩ => ⟨advances, tracks⟩

theorem expect_moves {p : Punctuator} : onSuccess.Ensures (expect p) s fun _ t => s.Moves t :=
  Judgement.bind next_moves fun _ _ h => .ite (fun _ => onSuccess.ofPure h.2) fun _ => .failAt

theorem expectSeparator_moves (hstrict : s.dialect.tolerant = false) :
    onSuccess.Ensures Parse.expectSeparator s fun _ t => s.Moves t :=
  get (.pos (by simp [hstrict]) expect_moves)

theorem endDoWhile_moves (hstrict : s.dialect.tolerant = false) :
    onSuccess.Ensures Parse.endDoWhile s fun _ t => ∃ u, s.Moves u ∧ (u = t ∨ u.Moves t) := by
  refine .check (get (.neg (by simp [hstrict]) (Judgement.bind expect_moves fun _ u hu => ?_)))
  rw [discard_eq]
  refine Judgement.bind (P := fun _ t => u = t ∨ u.Moves t) ?_ fun _ t ht => onSuccess.ofPure ⟨u, hu, ht⟩
  refine .check (.ite (fun _ => ?_) fun _ => onSuccess.ofPure (.inl rfl))
  exact Judgement.bind skip_moves fun _ t ht => onSuccess.ofPure (.inr ht)

theorem reenterJsx_moves : onSuccess.Ensures reenterJsx s fun _ t =>
    ∃ brace u, { s with scanner.cursor := s.start }.MovesJsx brace u ∧ brace.isPunctuator .rightBrace = true ∧
      t = { u with record := u.record.unlist } := by
  refine onSuccess.ofBind (.modifying (fun _ _ _ => rfl) ?_)
  rw [expectJsx, bind_assoc]
  refine Judgement.bind nextJsx_moves fun brace u hu => onSuccess.ofBind (.ite (fun hb => ?_) fun _ => .failAt)
  exact onSuccess.ofPure (.modifying (fun _ _ _ => rfl) ⟨brace, u, hu, hb, rfl⟩)

end Judgement.onSuccess

end EcmaTree
