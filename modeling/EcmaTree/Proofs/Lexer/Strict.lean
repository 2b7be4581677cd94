import EcmaTree.Proofs.Lexer.Lines
import EcmaTree.Proofs.Lexer.Scan
import EcmaTree.Proofs.Lexer.Trivia
import EcmaTree.Proofs.Success

/-!
# Scans in strict mode

In strict mode a scan that succeeds records no error, so the scanner behind it differs in its cursor and in the open
braces alone, and these follow from the token that was read. A probe of one token, or of two if the first one is a dot,
therefore leaves the scanner as it was.
-/

namespace EcmaTree

/-- What runs a program with state and errors, run after run. -/
theorem run_bind_eq_ok {ε σ α β : Type} {p : EStateM ε σ α} {f : α → EStateM ε σ β} {s s' : σ} {b : β} :
    (p >>= f) s = .ok b s' ↔ ∃ a u, p s = .ok a u ∧ f a u = .ok b s' := by
  simp only [bind, EStateM.bind]
  cases p s <;> simp [and_assoc]

/-- The open braces behind a lexeme. -/
def Lexeme.regionsBehind : Lexeme → List Region → List Region
  | .punctuator p, regions => Scan.regionsAfter p regions
  | .template chunk, regions =>
    Scan.regionsAfterChunk chunk (if chunk.isTail then .backquote else .substitution) regions
  | _, regions => regions

namespace Scanner

/-- One token is read, in strict mode. -/
structure Lexes (s : Scanner) (t : Token) (s' : Scanner) : Prop where
  lexed : Lexed s.cursor t s'.cursor
  tracks : s.cursor.Tracks s'.cursor
  eq : s' = { s with cursor := s'.cursor, regions := t.lexeme.regionsBehind s.regions }

end Scanner

/-- Only punctuators and templates open and close braces. -/
theorem Lexeme.regionsBehind_of_isPlain {l : Lexeme} (h : l.isPlain = true) (regions : List Region) :
    l.regionsBehind regions = regions := by
  cases l <;> first | rfl | cases h

namespace Scan

variable {α β : Type} {p : Scan α} {f : α → Scan β} {s s' : Scanner} {t : Token}

theorem ofReading_eq_ok {r : Except Fault α} {a : α} : ofReading r s = .ok a s' ↔ r = .ok a ∧ s = s' := by
  cases r with
  | ok b => simp [ofReading, pure, EStateM.pure]
  | error fault => exact ⟨nofun, nofun⟩

theorem bind_eq_error {e : SyntaxError} (h : p s = .error e s') : (p >>= f) s = .error e s' := by
  simp only [bind, EStateM.bind, h]

/-- Strict mode passes over no fault. -/
theorem pass_eq (hs : s.tolerant = false) (fault : Fault) :
    pass fault s = .error fault.error { s with cursor := fault.cursor } := by
  have run : pass fault s =
      (if s.tolerant then modify fun s => { s with errors := s.errors ++ [fault.error] }
        else throw fault.error : Scan Unit) { s with cursor := fault.cursor } := rfl
  rw [run, hs]
  rfl

/-- Tolerant mode records the fault. -/
theorem pass_ok {fault : Fault} {a : Unit} (h : pass fault s = .ok a s') :
    s.tolerant = true ∧ s' = { s with cursor := fault.cursor, errors := s.errors ++ [fault.error] } := by
  by_cases hs : s.tolerant = true
  · have run : pass fault s =
        (if s.tolerant then modify fun s => { s with errors := s.errors ++ [fault.error] }
          else throw fault.error : Scan Unit) { s with cursor := fault.cursor } := rfl
    rw [run, if_pos hs] at h
    cases h
    exact ⟨hs, rfl⟩
  · rw [pass_eq (Bool.eq_false_iff.2 hs)] at h
    cases h

theorem pass_ne_ok {fault : Fault} (hs : s.tolerant = false) {a : Unit} : pass fault s ≠ .ok a s' := by
  rw [pass_eq hs]
  exact nofun

/-- A scan alone, as a step of a parse. -/
theorem of_ensures {a : α} {Q : ParseState → α → ParseState → Prop}
    (hp : ∀ u : ParseState, Judgement.onSuccess.Ensures (Parse.scan p) u (Q u)) (h : p s = .ok a s') :
    ∃ u : ParseState, u.scanner = s ∧ Q u a { u with scanner := s' } := by
  let u : ParseState := { ParseState.initial "" {} with scanner := s }
  have run : Parse.scan p u = .ok a { u with scanner := s' } := by
    rw [Parse.scan, show u.scanner = s from rfl, h]
  exact ⟨u, rfl, hp u a _ run⟩

theorem token_lexed (h : token s = .ok t s') : Lexed s.cursor t s'.cursor := by
  obtain ⟨u, rfl, d, hd, lexed⟩ := of_ensures (fun u => Judgement.token_ensures (J := .onSuccess)) h
  rwa [show s'.cursor = d from hd.cursor]

theorem token_of_end (h : s.cursor.rest = []) : token s = .ok (tokenBetween s.cursor s.cursor .endOfInput) s := by
  obtain ⟨⟨_, _, _, _⟩, _, _, _, _⟩ := s
  cases h
  rfl

/-- What a token does to the scanner. Only tolerant mode records errors. -/
theorem token_ok (h : token s = .ok t s') : s.cursor.Tracks s'.cursor ∧
    s' = { s with cursor := s'.cursor, regions := t.lexeme.regionsBehind s.regions, errors := s'.errors } ∧
    (s.tolerant = false → s'.errors = s.errors) := by
  obtain ⟨_, _, hget, h⟩ := run_bind_eq_ok.1 h
  cases hget
  cases hc : s.cursor.rest with
  | nil =>
    simp only [hc] at h
    cases h
    exact ⟨.refl _, rfl, fun _ => rfl⟩
  | cons ch rest =>
    simp only [hc] at h
    split at h
    next hword =>
      have plain : isLineTerminator ch = false :=
        isLineTerminator_eq_false (p := fun ch => isIdentifierStart ch || ch == '\\')
        (by decide +kernel) hword
      obtain ⟨⟨cs, stop⟩, _, hofReading, h⟩ := run_bind_eq_ok.1 h
      obtain ⟨hread, rfl⟩ := ofReading_eq_ok.1 hofReading
      have sameLine := Word.read_sameLine hc plain hread
      have same := Lexeme.regionsBehind_of_isPlain (Word.isPlain_classify (String.ofList cs)) s.regions
      simp only at h
      split at h
      · obtain ⟨_, _, hpass, h⟩ := run_bind_eq_ok.1 h
        obtain ⟨tolerant, rfl⟩ := pass_ok hpass
        cases h
        exact ⟨sameLine.tracks, by simp only [tokenBetween, same], by simp [tolerant]⟩
      · cases h
        exact ⟨sameLine.tracks, by simp only [tokenBetween, same], fun _ => rfl⟩
    split at h
    next hquoted =>
      obtain ⟨⟨q, stop⟩, _, hofReading, h⟩ := run_bind_eq_ok.1 h
      obtain ⟨hread, rfl⟩ := ofReading_eq_ok.1 hofReading
      cases h
      have plain : isLineTerminator ch = false := isLineTerminator_eq_false (p := fun ch => ch == '\'' || ch == '"')
        (by decide) hquoted
      exact ⟨(Quoted.read_passes hc plain hread).tracks, rfl, fun _ => rfl⟩
    split at h
    next hnumeral =>
      obtain ⟨⟨n, stop⟩, _, hofReading, h⟩ := run_bind_eq_ok.1 h
      obtain ⟨hread, rfl⟩ := ofReading_eq_ok.1 hofReading
      cases h
      exact ⟨(Numeral.read_sameLine hread).tracks, rfl, fun _ => rfl⟩
    split at h
    next htemplate =>
      obtain ⟨⟨chunk, closing, stop⟩, _, hofReading, h⟩ := run_bind_eq_ok.1 h
      obtain ⟨hread, rfl⟩ := ofReading_eq_ok.1 hofReading
      cases h
      have plain : isLineTerminator ch = false := by
        rcases (by grind : ch = '\x60' ∨ ch = '\x7d') with rfl | rfl <;> rfl
      refine ⟨(Template.read_passes hc plain hread).tracks, ?_, fun _ => rfl⟩
      have same : (if chunk.isTail then Template.Closing.backquote else .substitution) = closing := by
        rw [Template.read_isTail hread]
        cases closing <;> rfl
      simp only [tokenBetween, Lexeme.regionsBehind, same]
    · unfold punctuator at h
      cases hp : Punctuator.read? s.cursor.rest with
      | none =>
        simp only [hp] at h
        cases h
      | some p =>
        simp only [hp] at h
        cases h
        exact ⟨(Punctuator.read_sameLine hp).tracks, rfl, fun _ => rfl⟩

/-- What a token of strict mode does to the scanner. -/
theorem token_lexes (hs : s.tolerant = false) (h : token s = .ok t s') : s.Lexes t s' := by
  obtain ⟨tracks, eq, errors⟩ := token_ok h
  exact ⟨token_lexed h, tracks, by rwa [errors hs] at eq⟩

/-- Behind a regular expression the scanner stands where its reader does, whatever was passed over. -/
theorem regex_reads (h : regex s = .ok t s') : ∃ r, Regex.read s.cursor = .ok r ∧ s'.cursor = r.cursor := by
  obtain ⟨_, _, hget, h⟩ := run_bind_eq_ok.1 h
  cases hget
  obtain ⟨r, _, hofReading, h⟩ := run_bind_eq_ok.1 h
  obtain ⟨hread, rfl⟩ := ofReading_eq_ok.1 hofReading
  obtain ⟨_, u, -, h⟩ := run_bind_eq_ok.1 h
  cases h
  exact ⟨r, hread, rfl⟩

/-- A regular expression with a faulty flag is not read. -/
theorem regex_eq (hs : s.tolerant = false) : regex s =
    match Regex.read s.cursor with
    | .error fault => .error fault.error { s with cursor := fault.cursor }
    | .ok ⟨literal, [], stop⟩ => .ok (tokenBetween s.cursor stop (.regex literal)) { s with cursor := stop }
    | .ok ⟨_, fault :: _, _⟩ => .error fault.error { s with cursor := fault.cursor } := by
  have run : regex s = (ofReading (Regex.read s.cursor) >>= fun read => read.faults.forM pass >>= fun _ =>
      moveTo read.cursor >>= fun _ => pure (tokenBetween s.cursor read.cursor (.regex read.literal))) s := rfl
  rw [run]
  rcases Regex.read s.cursor with fault | ⟨literal, _ | ⟨fault, faults⟩, stop⟩
  · rfl
  · rfl
  · rw [ofReading, pure_bind]
    exact bind_eq_error (p := pass fault >>= fun _ => faults.forM pass) (bind_eq_error (pass_eq hs fault))

theorem regex_lexed {rest : List Char} (hc : s.cursor.rest = '/' :: rest) (h : regex s = .ok t s') :
    Lexed s.cursor t s'.cursor ∧ t.regex?.isSome = true := by
  obtain ⟨u, rfl, lexed⟩ := of_ensures (Q := fun u t v => u.scanner.cursor.rest = '/' :: rest →
      Lexed u.scanner.cursor t v.scanner.cursor ∧ t.regex?.isSome = true) (fun u t v hv hc => by
    obtain ⟨d, hd, lexed, isRegex⟩ := Judgement.regex_ensures (J := .onSuccess) hc t v hv
    exact ⟨by rwa [hd.cursor], isRegex⟩) h
  exact lexed hc

theorem regex_tracks {rest : List Char} (hc : s.cursor.rest = '/' :: rest) (h : regex s = .ok t s') :
    s.cursor.Tracks s'.cursor := by
  obtain ⟨r, hread, hcursor⟩ := regex_reads h
  rw [hcursor]
  exact (Regex.read_sameLine hc hread).tracks

/-- A regular expression leaves the open braces as they were. -/
theorem regex_ok {rest : List Char} (hs : s.tolerant = false) (hc : s.cursor.rest = '/' :: rest)
    (h : regex s = .ok t s') :
    Lexed s.cursor t s'.cursor ∧ s.cursor.Tracks s'.cursor ∧ t.regex?.isSome = true ∧
      s' = { s with cursor := s'.cursor } := by
  obtain ⟨lexed, isRegex⟩ := regex_lexed hc h
  refine ⟨lexed, regex_tracks hc h, isRegex, ?_⟩
  rw [regex_eq hs] at h
  split at h
  · cases h
  · cases h
    rfl
  · cases h

theorem regex_strict (hs : s.tolerant = false) (h : regex s = .ok t s') : s'.tolerant = false := by
  rw [regex_eq hs] at h
  split at h <;> cases h
  exact hs

/-- Where a regular expression cannot be read, only the cursor has moved. -/
theorem regex_error {e : SyntaxError} (hs : s.tolerant = false) (h : regex s = .error e s') :
    s' = { s with cursor := s'.cursor } := by
  rw [regex_eq hs] at h
  split at h <;> cases h <;> rfl

/-- Tolerant mode stands at the end of a comment that is not closed, as strict mode does. -/
theorem skipTrivia_ok {comments : List Comment} (h : skipTrivia s = .ok comments s') :
    comments = (Trivia.skip s.keepsComments (s.goal == .script) s.cursor).comments ∧
      s'.cursor = (Trivia.skip s.keepsComments (s.goal == .script) s.cursor).cursor := by
  obtain ⟨_, _, hget, h⟩ := run_bind_eq_ok.1 h
  cases hget
  obtain ⟨_, _, hmove, h⟩ := run_bind_eq_ok.1 h
  cases hmove
  simp only at h
  split at h
  · obtain ⟨_, _, hpass, h⟩ := run_bind_eq_ok.1 h
    obtain ⟨-, rfl⟩ := pass_ok hpass
    cases h
    exact ⟨rfl, rfl⟩
  · cases h
    exact ⟨rfl, rfl⟩

/-- All comments have to be closed. -/
theorem skipTrivia_eq (hs : s.tolerant = false) : skipTrivia s =
    let trivia := Trivia.skip s.keepsComments (s.goal == .script) s.cursor
    if trivia.unclosed then .error (Fault.illegal trivia.cursor).error { s with cursor := trivia.cursor }
    else .ok trivia.comments { s with cursor := trivia.cursor } := by
  let c := (Trivia.skip s.keepsComments (s.goal == .script) s.cursor).cursor
  have run : skipTrivia s = ((if (Trivia.skip s.keepsComments (s.goal == .script) s.cursor).unclosed then do
      pass (.illegal c)
      pure (Trivia.skip s.keepsComments (s.goal == .script) s.cursor).comments
    else pure (Trivia.skip s.keepsComments (s.goal == .script) s.cursor).comments) : Scan _)
      { s with cursor := c } := rfl
  rw [run]
  simp only
  split
  · exact bind_eq_error (pass_eq (s := { s with cursor := c }) hs _)
  · rfl

end Scan

/-! ## Probes -/

namespace Scanner

variable {s s' s'' : Scanner} {t : Token}

/-- Coming back over one token opens and closes the braces as they were. -/
theorem Bookmark.regions_regionsBehind (s : Scanner) (l : Lexeme) :
    s.bookmark.regions (l.regionsBehind s.regions) = s.regions := by
  have unchanged : s.bookmark.regions s.regions = s.regions := by simp [bookmark, Bookmark.regions]
  have opened (r : Region) : s.bookmark.regions (r :: s.regions) = s.regions := by
    refine (if_neg (Nat.not_lt.2 (Nat.le_succ _))).trans ?_
    simp [bookmark]
  have closed : s.bookmark.regions s.regions.tail = s.regions := by
    cases hr : s.regions with
    | nil => simp [bookmark, Bookmark.regions, hr]
    | cons r regions => simp [bookmark, Bookmark.regions, hr]
  cases l with
  | punctuator p => cases p <;> first | exact unchanged | exact opened _ | exact closed
  | template chunk =>
    simp only [Lexeme.regionsBehind, Scan.regionsAfterChunk]
    cases chunk.isTail <;> cases chunk.isHead <;> simp [unchanged, opened, closed]
  | _ => exact unchanged

/-- A probe that has read one token comes back to where it began. -/
theorem rewind_lexeme (s : Scanner) (c : Cursor) (l : Lexeme) :
    ({ s with cursor := c, regions := l.regionsBehind s.regions } : Scanner).rewind s.bookmark = s := by
  rw [rewind, Bookmark.regions_regionsBehind]
  rfl

end Scanner

namespace Scan

variable {s s' : Scanner} {t : Token}

/-- The trivia and the token behind it. -/
theorem trivia_token_ok (hs : s.tolerant = false) (h : (discard skipTrivia >>= fun _ => token) s = .ok t s') :
    ∃ c, s' = { s with cursor := c, regions := t.lexeme.regionsBehind s.regions } := by
  rw [discard_eq, bind_assoc] at h
  obtain ⟨comments, u, htrivia, h⟩ := run_bind_eq_ok.1 h
  rw [skipTrivia_eq hs] at htrivia
  simp only at htrivia
  split at htrivia <;> cases htrivia
  rw [pure_bind] at h
  have strict : Scanner.tolerant
      { s with cursor := (Trivia.skip s.keepsComments (s.goal == .script) s.cursor).cursor } = false := hs
  exact ⟨_, (token_lexes strict h).eq⟩

/-- The same, and behind a dot the trivia and one token more. -/
theorem behindDot_ok {t : Option Token} (hs : s.tolerant = false) (h : (do
      discard skipTrivia
      if (← token).isPunctuator .dot then
        discard skipTrivia
        return some (← token)
      else return none : Scan (Option Token)) s = .ok t s') :
    ∃ (c : Cursor) (l : Lexeme), s' = { s with cursor := c, regions := l.regionsBehind s.regions } := by
  rw [← bind_assoc] at h
  obtain ⟨dot, u, hfirst, h⟩ := run_bind_eq_ok.1 h
  obtain ⟨c, rfl⟩ := trivia_token_ok hs hfirst
  split at h
  next hdot =>
    rw [← bind_assoc] at h
    obtain ⟨behind, v, hsecond, h⟩ := run_bind_eq_ok.1 h
    have strict : Scanner.tolerant { s with cursor := c, regions := dot.lexeme.regionsBehind s.regions } = false := hs
    obtain ⟨d, rfl⟩ := trivia_token_ok strict hsecond
    cases h
    rw [Token.isPunctuator_iff.1 hdot]
    exact ⟨d, _, rfl⟩
  · cases h
    exact ⟨c, _, rfl⟩

end Scan

end EcmaTree
