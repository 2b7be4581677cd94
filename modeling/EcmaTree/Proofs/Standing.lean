import EcmaTree.Proofs.Ledger.Basic
import EcmaTree.Proofs.Lexer.Reports

/-!
# Where parses stand

The cursors of a parse, the end of the last consumed token and the errors that have been recorded lie in the source, in
every mode and whatever is read. A run that stops for an error stops for one that lies in the source.
-/

namespace EcmaTree

open Cursor (Counts Nears)

variable {source : String}

/-- The token was read in the source. -/
structure Token.InSource (source : String) (t : Token) : Prop where
  start_le : t.start ≤ source.utf8ByteSize
  line : LineOf source t.line

theorem Scan.Takes.inSource {c : Cursor} {t : Token} {s : Scanner} (h : Takes (SyntaxError.InSource source) c t s)
    (hc : (Cursor.ofString source).Counts c) : t.InSource source := by
  obtain ⟨⟨l, rfl⟩, counts, -⟩ := h
  exact ⟨hc.place.offset_le, (hc.trans counts).place.line⟩

namespace ParseState

variable {s : ParseState}

/-- The parse stands in the source, and all errors that it has recorded do. -/
structure Kept (source : String) (s : ParseState) : Prop where
  start : (Cursor.ofString source).Counts s.start
  cursor : s.start.Counts s.scanner.cursor
  last : s.last.InSource source
  records : s.scanner.Records (SyntaxError.InSource source)

namespace Kept

theorem counts (h : s.Kept source) : (Cursor.ofString source).Counts s.scanner.cursor := h.start.trans h.cursor

theorem placed (h : s.Kept source) : s.Placed (.ofString source) .inside := ⟨h.start.reaches, h.counts.reaches⟩

theorem pass (h : s.Kept source) : { s with last := s.scanner.cursor.place }.Kept source :=
  ⟨h.start, h.cursor, h.counts.place, h.records⟩

theorem errorAt (h : s.Kept source) {t : Token} (ht : t.InSource source) (cause : Cause) :
    (s.errorAt t cause).InSource source where
  index_le := ht.start_le
  line := ht.line
  column_pos hfits := by
    have := ht.start_le
    have := h.last.column_le
    simp only [ParseState.errorAt, inWord_eq_mod, UInt32.size]
    omega
  column_eq hfits hone := by
    have last := h.last.column_eq hone
    rw [inWord_eq (Nat.lt_of_le_of_lt h.last.offset_le hfits)] at last
    simp only [ParseState.errorAt, last]
    congr 1
    omega
  columnFits := by
    have := h.last.column_le
    refine .inl (Nat.le_trans (inWord_le _) ?_)
    simp only [ParseState.errorAt]
    omega

theorem errorHere (h : s.Kept source) (cause : Cause) : (s.errorHere cause).InSource source := h.last.error cause

theorem errorOnScannerLine (h : s.Kept source) (cause : Cause) : (s.errorOnScannerLine cause).InSource source :=
  have last := h.last.error cause
  ⟨last.index_le, h.counts.place.line, last.column_pos, last.column_eq, last.columnFits⟩

end Kept

end ParseState

/-! ## Reading tokens -/

namespace Parse

variable {α : Type} {s : ParseState}

theorem Safe.scan {Reports : SyntaxError → Prop} {p : Scan α} {Q : α → ParseState → Prop}
    (h : Scan.Safe (fun e _ => Reports e) p s.scanner fun a scanner => Q a { s with scanner }) :
      Safe Reports (scan p) s Q := by
  simp only [Scan.Safe] at h
  simp only [Safe, Parse.scan]
  cases hp : p s.scanner with
  | ok a scanner => rwa [hp] at h
  | error e scanner => rwa [hp] at h

theorem skipTrivia_safe (h : s.Kept source) : Safe (SyntaxError.InSource source) skipTrivia s fun _ t =>
    t.Kept source ∧ t.start = s.start ∧ t.scanner.cursor = s.trivia.cursor := by
  refine .bind (.scan ((Scan.skipTrivia_safe h.counts.reports h.records).mono fun _ t ⟨records, cursor⟩ => .modify ?_))
  refine ⟨⟨h.start, ?_, h.last, records⟩, rfl, cursor⟩
  simp only [cursor]
  exact h.cursor.trans (Trivia.skip_passes ..).counts

/-- The scanner reads a token, and only what depends on the token is changed. -/
theorem scanToken_safe {p : Scan Token} {f : Token → Parse α} {Q : α → ParseState → Prop} (h : s.Kept source)
    (hp : Scan.Safe (fun e _ => e.InSource source) p s.scanner
      (Scan.Takes (SyntaxError.InSource source) s.scanner.cursor))
    (hf : ∀ t u, u.Kept source → t.InSource source → Safe (SyntaxError.InSource source) (f t) u Q) :
    Safe (SyntaxError.InSource source) (Parse.scan p >>= f) s Q :=
  .bind (.scan (hp.mono fun t _ takes => hf t _ ⟨h.start, h.cursor.trans takes.counts, h.last, takes.records⟩
    (takes.inSource h.counts)))

theorem next_safe (h : s.Kept source) : Safe (SyntaxError.InSource source) next s fun _ t => t.Kept source := by
  refine .bind (.modify (.bind ((skipTrivia_safe h.pass).mono fun _ t ⟨h, _⟩ => .bind (.modify ?_))))
  have start : (if t.scanner.cursor.offset =
    t.start.offset then t else { t with start := t.scanner.cursor }).Kept source := by
    split
    · exact h
    · exact ⟨h.counts, .refl _, h.last, h.records⟩
  refine scanToken_safe start (Scan.token_safe start.counts.reports start.records) fun read u h _ =>
    .get (.bind (.modify ?_))
  exact ⟨h.start, h.cursor, h.last, h.records⟩

theorem skip_safe (h : s.Kept source) : Safe (SyntaxError.InSource source) skip s fun _ t => t.Kept source := by
  rw [skip_eq]
  exact .bind ((next_safe h).mono fun _ _ h => h)

/-- A slash is read again from its beginning, on the line where that is. -/
theorem regex_safe (h : s.Kept source) (hs : s.Sited (.ofString source))
    (hslash : (s.lookahead.isPunctuator .slash || s.lookahead.isPunctuator .divAssign) = true) :
    Safe (SyntaxError.InSource source) regex s fun _ t => t.Kept source := by
  obtain ⟨p, rest, hp, hrest⟩ := hs.slash hslash
  obtain ⟨line, lineStart⟩ :=
    h.cursor.plain _ (hs.lexed.spelled (Token.isPunctuator_iff.1 hp)) fun _ => Punctuator.isLineTerminator_of_mem
  have back : { s.scanner.cursor with offset := s.start.offset, rest := s.start.rest } = s.start := by
    simp only [line, lineStart]
  refine .bind (.modify ?_)
  rw [back]
  have entered : { s with scanner.cursor := s.start }.Kept source := ⟨h.start, .refl _, h.last, h.records⟩
  refine .bind ((skipTrivia_safe entered).mono fun _ t ⟨h, _, cursor⟩ => ?_)
  have still : t.scanner.cursor = s.start := cursor.trans (congrArg Trivia.cursor (hs.settled (c := s.start) rfl rfl))
  refine scanToken_safe h (Scan.regex_safe h.counts.reports h.records (by rw [still, hrest]))
    fun token u h _ => .bind (.modify ?_)
  refine .bind (.mono (skip_safe ?_) fun _ _ h => h)
  exact ⟨h.start, h.cursor, h.last, h.records⟩

theorem nextJsx_safe (h : s.Kept source) : Safe (SyntaxError.InSource source) nextJsx s fun t u =>
    t.InSource source ∧ u.Kept source := by
  refine .bind ((skipTrivia_safe h).mono fun _ t ⟨h, _⟩ => .bind (.modify ?_))
  have start : { t with start := t.scanner.cursor }.Kept source := ⟨h.counts, .refl _, h.last, h.records⟩
  refine scanToken_safe start (Scan.jsxToken_safe h.counts.reports h.records) fun token u h ht => .bind (.modify ?_)
  exact ⟨ht, h.start, h.cursor, h.counts.place, h.records⟩

theorem nextJsxText_safe (h : s.Kept source) : Safe (SyntaxError.InSource source) nextJsxText s fun t u =>
    t.InSource source ∧ u.Kept source := by
  refine .bind (.modify ?_)
  have start : { s with start := s.scanner.cursor }.Kept source := ⟨h.counts, .refl _, h.last, h.records⟩
  refine scanToken_safe start (Scan.jsxText_safe h.records) fun token u h ht => .bind (.modify ?_)
  exact ⟨ht, h.start, h.cursor, h.counts.place, h.records⟩

/-! ## Probes -/

/-- A probe records errors, and comes back. -/
theorem lookAhead_safe {p : Scan α} {Q : α → Prop} (h : s.Kept source)
    (hp : Scan.Safe (fun e _ => e.InSource source) p s.scanner fun a scanner =>
      Q a ∧ scanner.Records (SyntaxError.InSource source)) :
    Safe (SyntaxError.InSource source) (Parse.scan (Scan.lookAhead p)) s fun a t => Q a ∧ t.Kept source :=
  .scan (.lookAhead (hp.mono fun _ _ ⟨ha, records⟩ => ⟨ha, h.start, h.cursor, h.last, records⟩) fun _ _ he => he)

end Parse

theorem Scan.trivia_safe {α : Type} {f : Unit → Scan α} {s : Scanner} {Q : α → Scanner → Prop}
    (hs : s.Records (SyntaxError.InSource source))
    (hc : (Cursor.ofString source).Counts s.cursor)
    (hf : ∀ t : Scanner, t.Records (SyntaxError.InSource source) → (Cursor.ofString source).Counts t.cursor →
      Safe (fun e _ => e.InSource source) (f ()) t Q) :
    Safe (fun e _ => e.InSource source) (discard skipTrivia >>= f) s Q := by
  rw [discard_eq, bind_assoc]
  refine .bind (skipTrivia_safe hc.reports hs) fun _ t ⟨records, cursor⟩ => hf t records ?_
  rw [cursor]
  exact hc.trans (Trivia.skip_passes ..).counts

namespace Parse

variable {s : ParseState}

theorem second_safe (h : s.Kept source) : Safe (SyntaxError.InSource source) second s fun t u =>
    t.InSource source ∧ u.Kept source :=
  lookAhead_safe h (Scan.trivia_safe h.records h.counts fun _ records counts =>
    (Scan.token_safe counts.reports records).mono fun _ _ takes => ⟨takes.inSource counts, takes.records⟩)

theorem behindDot_safe (h : s.Kept source) : Safe (SyntaxError.InSource source) behindDot s fun t? u =>
    (∀ t, t? = some t → t.InSource source) ∧ u.Kept source := by
  refine lookAhead_safe h (Scan.trivia_safe h.records h.counts fun t records counts => ?_)
  refine .bind (Scan.token_safe counts.reports records) fun dot u takes => ?_
  split
  · refine Scan.trivia_safe takes.records (counts.trans takes.counts) fun v records counts => ?_
    refine .bind (Scan.token_safe counts.reports records) fun t w takes => ⟨?_, takes.records⟩
    rintro _ ⟨⟩
    exact takes.inSource counts
  · exact ⟨by simp, takes.records⟩

theorem checkJsx_safe (p : Punctuator) (h : s.Kept source) :
    Safe (SyntaxError.InSource source) (checkJsx p) s fun _ u =>
    u.Kept source :=
  .bind ((lookAhead_safe (Q := fun _ => True) h (Scan.trivia_safe h.records h.counts fun _ records counts =>
    (Scan.jsxToken_safe counts.reports records).mono fun _ _ takes => ⟨trivial, takes.records⟩)).mono fun _ _ h => h.2)

end Parse

end EcmaTree
