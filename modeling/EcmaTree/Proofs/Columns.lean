import EcmaTree.Proofs.Errors
import EcmaTree.Proofs.Tokenizer.Tolerance

/-!
# Columns

A column is the number of bytes between the start of a line and a place on it, so no cursor may stand before the start
of its line. All readers keep to that, also where they give up, but for one: a string that goes over the end of a line
and is not closed sends the cursor back to its opening quote and leaves it on the line that it has reached. There the
column wraps around. A tokenizer that is asked again reads the same string again, so it goes wrong in no other way.
-/

namespace EcmaTree

variable {source : String} {c : Cursor} {s : Scanner} {ch : Char} {rest : List Char}

/-- The scanner stands behind the start of its line, or before a string that breaks off, and the columns of the errors
that it has recorded fit. -/
structure Scanner.Aligned (source : String) (s : Scanner) : Prop where
  reaches : (Cursor.ofString source).Reaches s.cursor
  stands : s.cursor.InLine ∨ Quoted.BreaksOff s.cursor.rest
  records : s.Records (SyntaxError.ColumnFits source)

namespace Scan

/-- The scan leaves an aligned scanner behind, whether it gives something back or stops at an error, whose column
fits. -/
abbrev Aligns {α : Type} (source : String) (p : Scan α) (s : Scanner) : Prop :=
  Safe (fun e t => e.ColumnFits source ∧ t.Aligned source) p s fun _ t => t.Aligned source

theorem reports_of_inLine (hc : (Cursor.ofString source).Reaches c) (h : c.InLine) :
    c.Reports (SyntaxError.ColumnFits source) fun e t => e.ColumnFits source ∧ t.Aligned source where
  recorded near := Fault.error_columnFits (hc.trans near.reaches) ((near.inLine h).imp_right (·.breaksOff))
  stopped near hs records := ⟨Fault.error_columnFits (hc.trans near.reaches) ((near.inLine h).imp_right (·.breaksOff)),
    hs ▸ hc.trans near.reaches, hs ▸ (near.inLine h).imp_right (·.breaksOff), records⟩

theorem Takes.aligned {t : Token} (h : Takes (SyntaxError.ColumnFits source) c t s)
    (hc : (Cursor.ofString source).Reaches c)
    (inLine : c.InLine) : s.Aligned source :=
  ⟨hc.trans h.counts.reaches, .inl (h.counts.inLine inLine), h.records⟩

/-- A string that breaks off is read to where it breaks off, and then the scanner stands before it again. -/
theorem token_of_breaksOff (h : Quoted.BreaksOff s.cursor.rest) : ∃ line lineStart cause,
    token s = .error (Fault.error ⟨cause, { s.cursor with line, lineStart }⟩)
      { s with cursor := { s.cursor with line, lineStart } } := by
  obtain ⟨quote, rest, alone, hrest, hquote, halone, -⟩ := h
  have here : Cursor.SameText 0 ⟨0, 0, 0, rest⟩ (s.cursor.pass quote rest) := ⟨rfl, .inl rfl⟩
  obtain ⟨stop, hstop, -⟩ := Quoted.readFrom_sameText here halone [] false
  refine ⟨stop.line, stop.lineStart, .illegalToken, ?_⟩
  rw [token_of_quote hrest hquote, quoted, Quoted.read, hrest]
  simp only [hstop, hrest]
  rfl

theorem token_aligns (h : s.Aligned source) : Aligns source token s := by
  rcases h.stands with inLine | breaksOff
  · exact (token_safe (reports_of_inLine h.reaches inLine) h.records).mono fun _ _ takes =>
      takes.aligned h.reaches inLine
  · obtain ⟨line, lineStart, cause, run⟩ := token_of_breaksOff breaksOff
    rw [Aligns, Safe, run]
    have reaches : (Cursor.ofString source).Reaches { s.cursor with line, lineStart } :=
      h.reaches.imp fun _ h => ⟨h.rest, h.offset⟩
    exact ⟨.inr ⟨s.cursor, h.reaches, rfl, breaksOff⟩, reaches, .inr breaksOff, h.records⟩

theorem skipTrivia_aligns (h : s.Aligned source) : Aligns source skipTrivia s := by
  rcases h.stands with inLine | breaksOff
  · refine (skipTrivia_safe (reports_of_inLine h.reaches inLine) h.records).mono fun _ t ⟨records, cursor⟩ => ?_
    have counts := (Trivia.skip_passes s.keepsComments (s.goal == .script) s.cursor).counts
    exact ⟨cursor ▸ h.reaches.trans counts.reaches, .inl (cursor ▸ counts.inLine inLine), records⟩
  · -- No trivia begins with a quote.
    obtain ⟨quote, rest, -, hrest, hquote, -⟩ := id breaksOff
    have still : Trivia.skip s.keepsComments (s.goal == .script) s.cursor = ⟨[], s.cursor, false⟩ := by
      refine Trivia.Still.skipFrom ?_
      rw [hrest]
      rcases hquote with rfl | rfl <;> exact .cons (by decide) nofun nofun nofun nofun
    have run : skipTrivia s = (do
        moveTo (Trivia.skip s.keepsComments (s.goal == .script) s.cursor).cursor
        if (Trivia.skip s.keepsComments (s.goal == .script) s.cursor).unclosed then
          pass (.illegal (Trivia.skip s.keepsComments (s.goal == .script) s.cursor).cursor)
        return (Trivia.skip s.keepsComments (s.goal == .script) s.cursor).comments : Scan (List Comment)) s := rfl
    rw [Aligns, Safe, run, still]
    exact h

end Scan

namespace Tokenizer

variable {t t' : Tokenizer} {history : History}

/-- Behind a failed attempt at a regular expression the scanner is back where it stood. -/
theorem readToken_aligns (h : s.Aligned source) : Scan.Aligns source (readToken history) s := by
  have ordinary : Scan.Aligns source Scan.token s := Scan.token_aligns h
  rw [Scan.Aligns, Scan.Safe, readToken_run]
  by_cases hslash : (s.cursor.startsWith '/' && history.allowsRegex) = true
  · obtain ⟨rest, hrest⟩ := Cursor.rest_of_startsWith (Bool.and_eq_true _ _ ▸ hslash).1
    have inLine : s.cursor.InLine := by
      refine h.stands.resolve_right fun breaksOff => ?_
      obtain ⟨quote, _, _, hquoted, hquote, -⟩ := breaksOff
      obtain rfl : '/' = quote := by simpa using congrArg List.head? (hrest.symm.trans hquoted)
      simp at hquote
    have regex := Scan.regex_safe (Scan.reports_of_inLine h.reaches inLine) h.records hrest
    rw [if_pos hslash]
    cases hregex : Scan.regex s with
    | ok token after =>
      rw [scanEither_of_ok hregex]
      exact (regex.of_ok hregex).aligned h.reaches inLine
    | error e after =>
      rw [scanEither_of_error hregex]
      have back : (after.rewind s.bookmark).Aligned source := ⟨h.reaches, h.stands, (regex.of_error hregex).2.records⟩
      exact Scan.token_aligns back
  · rw [if_neg hslash]
    exact ordinary

/-- What one step of a tokenizer leaves behind. -/
def Steps {α : Type} (source : String) : EStateM.Result SyntaxError Tokenizer α → Prop
  | .ok _ t => t.scanner.Aligned source
  | .error e t => e.ColumnFits source ∧ t.scanner.Aligned source

theorem fill_steps (h : t.scanner.Aligned source) : Steps source (fill t) := by
  rw [fill_run]
  have trivia := Scan.skipTrivia_aligns h
  cases hskip : Scan.skipTrivia t.scanner with
  | error e s => exact trivia.of_error hskip
  | ok comments s =>
    have behind : s.Aligned source := trivia.of_ok hskip
    dsimp only
    split
    · exact behind
    · have token : Scan.Aligns source (readToken t.history) s := readToken_aligns behind
      cases hread : readToken t.history s with
      | error e s' => exact token.of_error hread
      | ok read s' => exact token.of_ok hread

theorem give_steps (h : t.scanner.Aligned source) : Steps source (give t) := by
  cases hw : t.waiting with
  | nil =>
    rw [give_of_nil hw]
    exact h
  | cons item waiting =>
    rw [give_of_cons hw]
    exact h

theorem next_steps (h : t.scanner.Aligned source) : Steps source (next t) := by
  by_cases hfills : (t.waiting.isEmpty && !t.done) = true
  · have filled := fill_steps h
    cases hfill : fill t with
    | ok _ u =>
      rw [next_of_fill hfills hfill]
      rw [hfill] at filled
      exact give_steps filled
    | error e u =>
      rw [next_of_fill_error hfills hfill]
      rw [hfill] at filled
      exact filled
  · rw [next_of_not hfills]
    exact give_steps h

/-- Asking the tokenizer for one item after the other leads here, also if some of the answers are errors. -/
inductive Asked (source : String) (o : TokenizeOptions) : Tokenizer → Prop
  | start : Asked source o (.start source o)
  | item {t t' : Tokenizer} {item : Option TokenItem} : Asked source o t → t.next = .ok item t' → Asked source o t'
  | error {t t' : Tokenizer} {e : SyntaxError} : Asked source o t → t.next = .error e t' → Asked source o t'

theorem Asked.aligned {o : TokenizeOptions} (h : t.Asked source o) : t.scanner.Aligned source := by
  induction h with
  | start => exact ⟨.refl _, .inl (Nat.le_refl 0), List.forall_mem_nil _⟩
  | item _ hnext ih =>
    have := next_steps ih
    rwa [hnext] at this
  | error _ hnext ih =>
    have := next_steps ih
    rw [hnext] at this
    exact this.2

end Tokenizer

/-- Columns are numbers of bytes, but for those of a string that goes over the end of a line and is not closed: for
every error of a parse, for every error that a tokenizer records or stops at, however often it is asked again, and
wherever such a tokenizer stands. -/
theorem columns_fit (source : String) :
    (∀ (o : ParseOptions), ∀ e ∈ reportedErrors (parse source o), e.column ≤ e.index + 1 ∨ BreaksOffAt source e.index) ∧
    ∀ (o : TokenizeOptions) (t : Tokenizer), t.Asked source o →
      (t.scanner.cursor.lineStart ≤ t.scanner.cursor.offset ∨ BreaksOffAt source t.scanner.cursor.offset) ∧
      (∀ e ∈ t.scanner.errors, e.column ≤ e.index + 1 ∨ BreaksOffAt source e.index) ∧
      ∀ e t', t.next = .error e t' → e.column ≤ e.index + 1 ∨ BreaksOffAt source e.index := by
  refine ⟨fun o e he => (inSource_of_mem_reportedErrors he).columnFits, fun o t ht => ⟨?_, ht.aligned.records, ?_⟩⟩
  · exact ht.aligned.stands.imp_right fun h => ⟨t.scanner.cursor, ht.aligned.reaches, rfl, h⟩
  · intro e t' hnext
    have steps := Tokenizer.next_steps ht.aligned
    rw [hnext] at steps
    exact steps.1

/-- The tokenizer is asked again behind an error, and fails at the same string. -/
theorem columns_fit_again : ∃ (t : Tokenizer) (e : SyntaxError) (t' : Tokenizer), t.Asked "a '\\\n" {} ∧
    t.next = .error e t' ∧ e.index = 2 ∧
    (e.column ≤ e.index + 1 ∨ BreaksOffAt "a '\\\n" e.index) := by
  have run : (match Tokenizer.next (.start "a '\\\n" {}) with
    | .ok _ t => match t.next with
      | .error _ u => match u.next with
        | .error e _ => e.index == 2
        | _ => false
      | _ => false
    | _ => false) = true := by decide +kernel
  split at run
  next t ht =>
    split at run
    next e u hu =>
      split at run
      next e' v hv =>
        have asked : u.Asked "a '\\\n" {} := .error (.item .start ht) hu
        exact ⟨u, e', v, asked, hv, by simpa using run, ((columns_fit "a '\\\n").2 {} u asked).2.2 e' v hv⟩
      · cases run
    · cases run
  · cases run

/-- The column of a string that is not closed behind the end of its line wraps around. -/
theorem columns_wrap : ¬ ∀ (source : String) (o : ParseOptions), ∀ e ∈ reportedErrors (parse source o),
    e.column ≤ e.index + 1 := by
  intro h
  have run : (match parse "\"\\\n" {} with
    | .error (.syntaxError e) => decide (e = ⟨0, 2, 4294967294, .illegalToken⟩)
    | _ => false) = true := by decide +kernel
  split at run
  next e he =>
    have small := h "\"\\\n" {} e (by rw [he]; exact List.mem_singleton_self _)
    rw [of_decide_eq_true run] at small
    exact absurd small (by decide)
  · cases run

end EcmaTree
