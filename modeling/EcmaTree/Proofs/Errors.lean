import EcmaTree.Proofs.Ledger.Program
import EcmaTree.Proofs.Recording.Found
import EcmaTree.Proofs.Standing

/-!
# Places of errors

An error is said with the offset, the line and the column of what it is about, and these are put together from the
failing token, the end of the last consumed token and the scanner. Whatever is put together lies in the source: the
offset is one of its offsets, and the line one of its lines. The three may stand on different lines, so an error in a
source of several lines may have the column of one and the line of another. In a source of one line they agree.
-/

namespace EcmaTree

variable {source : String}

/-- Parses stand in the source, and so do the tokens that they read and the errors that they report. -/
def Ledger.places (source : String) : Ledger where
  Stands m s := s.Placed (.ofString source) m ∧ s.Kept source
  Seen := Token.InSource source
  Reports := SyntaxError.InSource source
  stands_of_same h hstart hahead hlast hscanner :=
    ⟨h.1.congr (by rw [hstart, hahead, hscanner]), by rw [hstart]; exact h.2.start,
      by rw [hstart, hscanner]; exact h.2.cursor,
      by rw [hlast]; exact h.2.last, by rw [hscanner]; exact h.2.records⟩
  stands_record h he := ⟨h.1.congr rfl, h.2.start, h.2.cursor, h.2.last, h.2.records.concat he⟩
  stands_trail h := ⟨h.1.congr rfl, h.2.start, h.2.cursor, h.2.start.place, h.2.records⟩
  stands_pass h := ⟨h.1.congr rfl, h.2.pass⟩
  stands_enter {s} h :=
    have kept : { s with scanner.cursor := s.start }.Kept source := ⟨h.2.start, .refl _, h.2.last, h.2.records⟩
    ⟨kept.placed, kept⟩
  stands_leave h := ⟨h.1, h.2.start, h.2.cursor, h.2.last, h.2.records⟩
  seen_ahead {s} h := by
    rw [h.1.lexed.eq]
    exact ⟨h.2.start.place.offset_le, h.2.counts.place.line⟩
  reports_at cause h ht := h.2.errorAt ht cause
  reports_here cause h := h.2.errorHere cause
  reports_onLine cause h := h.2.errorOnScannerLine cause
  ofNext h := (Parse.Safe.and (Parse.next_safe h.2) (Judgement.Ensures.next (J := .onSuccess))).mono
    fun _ _ ⟨kept, same, advances⟩ =>
    ⟨same, h.1.advances advances, kept⟩
  ofRegex h hslash := (Parse.Safe.and (Parse.regex_safe h.2 h.1 hslash)
    (Judgement.Ensures.regex (J := .onSuccess) h.1 hslash)).mono
    fun _ _ ⟨kept, u, rescans, _, advances⟩ =>
      have sited := rescans.sited h.1
      ⟨advances.sited sited.reaches sited.scanner, kept⟩
  ofSecond h := (Parse.Safe.and (Parse.second_safe h.2) (Judgement.Settles.second (J := .onSuccess) _)).mono
    fun _ _ ⟨⟨seen, kept⟩, rests⟩ => ⟨seen, h.1.rests rests, kept⟩
  ofBehindDot h := (Parse.Safe.and (Parse.behindDot_safe h.2) (Judgement.Settles.behindDot (J := .onSuccess) _)).mono
    fun _ _ ⟨⟨seen, kept⟩, rests⟩ => ⟨seen, h.1.rests rests, kept⟩
  ofSkipTrivia h := (Parse.skipTrivia_safe h.2).mono fun _ _ ⟨kept, _⟩ => ⟨kept.placed, kept⟩
  ofNextJsx h := (Parse.nextJsx_safe h.2).mono fun _ _ ⟨seen, kept⟩ => ⟨seen, kept.placed, kept⟩
  ofNextJsxText h := (Parse.nextJsxText_safe h.2).mono fun _ _ ⟨seen, kept⟩ => ⟨seen, kept.placed, kept⟩
  ofCheckJsx p h := (Parse.checkJsx_safe p h.2).mono fun _ _ kept => ⟨kept.placed, kept⟩

/-- A parse reports errors that lie in the source. -/
theorem source_errors (text : String) (dialect : Dialect) :
    Parse.Safe (SyntaxError.InSource text) (Parse.program (Parse.atLevels (Parse.levelsFor text.utf8ByteSize)))
      (.initial text dialect) fun _ s =>
        s.scanner.Records (SyntaxError.InSource text) := by
  have kept : (ParseState.initial text dialect).Kept text :=
    ⟨.refl _, .refl _, (Cursor.Counts.refl _).place, List.forall_mem_nil _⟩
  exact (Ledger.source_leads (L := .places text) text dialect ⟨kept.placed, kept⟩).mono fun _ _ h =>
    h.1.stands.2.records

/-- The errors that a parse gives back: the one at which it has stopped, or those that it has recorded. -/
def reportedErrors : Except Failure Program → List SyntaxError
  | .ok p => p.errors.getD []
  | .error (.syntaxError e) => [e]
  | .error .exhausted => []

theorem inSource_of_mem_reportedErrors {o : ParseOptions} {e : SyntaxError} (he : e ∈ reportedErrors (parse source o)) :
    e.InSource source := by
  have run := source_errors source o.dialect
  simp only [Parse.Safe] at run
  rw [parse, parseObserved_eq, Parse.source] at he
  cases hp : Parse.program (Parse.atLevels (Parse.levelsFor source.utf8ByteSize)) (.initial source o.dialect) with
  | ok root s =>
    rw [hp] at he run
    simp only [reportedErrors, Program.asked, wanted] at he
    split at he
    · exact run e he
    · cases he
  | error failure s =>
    rw [hp] at he run
    cases failure with
    | syntaxError e' => exact List.mem_singleton.1 he ▸ run
    | exhausted => cases he

/-- Every error lies in the source, on one of its lines. Columns are counted from one, and in a source of one line it
has that of its offset. -/
theorem errors_in_source {source : String} {o : ParseOptions} {e : SyntaxError} (hfits : source.utf8ByteSize < 2 ^ 32)
    (hne : source ≠ "") (he : e ∈ reportedErrors (parse source o)) :
    e.index ≤ source.utf8ByteSize ∧ (∃ k ≤ lineBreaks source.toList, e.line = inWord (1 + k)) ∧
      (1 ≤ e.column ∨ e.index + 1 = 2 ^ 32) ∧
      (lineBreaks source.toList = 0 → e.line = 1 ∧ e.column = inWord (e.index + 1)) := by
  have inSource := inSource_of_mem_reportedErrors he
  have first : (Cursor.ofString source).line = 1 := by
    simp [Cursor.ofString, String.isEmpty_iff, hne]
  have line : ∃ k ≤ lineBreaks source.toList, e.line = inWord (1 + k) := first ▸ inSource.line
  refine ⟨inSource.index_le, line, inSource.column_pos hfits, fun hone => ⟨?_, inSource.column_eq hfits hone⟩⟩
  obtain ⟨k, hk, hline⟩ := line
  obtain rfl : k = 0 := Nat.le_zero.1 (hone ▸ hk)
  rw [hline]
  exact inWord_eq (by decide)

/-- The line is that of the scanner, which has read `return` on the second line. The index is where `x` ends, on the
first one. -/
theorem errors_in_source_return : "x\nreturn".utf8ByteSize < 2 ^ 32 ∧ "x\nreturn" ≠ "" ∧
    (⟨1, 2, 2, .illegalReturn⟩ : SyntaxError) ∈ reportedErrors (parse "x\nreturn" {}) ∧
    1 ≤ "x\nreturn".utf8ByteSize ∧ (∃ k ≤ lineBreaks "x\nreturn".toList, 2 = inWord (1 + k)) ∧
      (1 ≤ 2 ∨ 1 + 1 = 2 ^ 32) ∧
      (lineBreaks "x\nreturn".toList = 0 → 2 = 1 ∧ 2 = inWord (1 + 1)) := by
  have reported : (⟨1, 2, 2, .illegalReturn⟩ : SyntaxError) ∈ reportedErrors (parse "x\nreturn" {}) := by
    have h : (match parse "x\nreturn" {} with
      | .error (.syntaxError e) => decide (e = ⟨1, 2, 2, .illegalReturn⟩)
      | _ => false) = true := by decide +kernel
    split at h
    next e he =>
      rw [he, ← of_decide_eq_true h]
      exact List.mem_singleton_self _
    · cases h
  exact ⟨by decide, by decide, reported, errors_in_source (by decide) (by decide) reported⟩

end EcmaTree
