import EcmaTree.Proofs.Tokenizer.Lossless

/-!
# Sessions of a scanner

Whoever drives a scanner skips trivia, reads tokens and, where a slash stands, regular expressions, and comes back to
places that were saved before. However it is driven, the cursor stands between two characters of the source, what it
has not read is all that follows there, and its line is the line of its offset. What is read is therefore never cut
short: tokens and comments are slices of the source. The empty source is left out, because it has no first line, and so
are sources of more lines than a word can count.
-/

namespace EcmaTree

open Cursor (Reaches)

/-- What stands before the last line of a text, with the line terminator that ends it. -/
def earlierLines (cs : List Char) : List Char := cs.rdropWhile (!isLineTerminator ·)

theorem bytes_earlierLines (cs : List Char) : bytes (earlierLines cs) + bytes (lastLine cs) = bytes cs := by
  rw [← bytes_append, earlierLines, lastLine, List.rdropWhile_append_rtakeWhile]

/-- The cursor stands between two characters of the source, and its line is that of its offset. Only at the end of the
source nothing is left to read. -/
structure Cursor.Sound (source : String) (c : Cursor) : Prop where
  le : c.offset ≤ source.utf8ByteSize
  boundary : (⟨c.offset⟩ : String.Pos.Raw).IsValid source
  atEnd_iff : c.atEnd = true ↔ c.offset = source.utf8ByteSize
  line : ∃ before, source = before ++ String.ofList c.rest ∧ before.utf8ByteSize = c.offset ∧
    c.line = 1 + lineBreaks before.toList ∧ c.lineStart = bytes (earlierLines before.toList) ∧
    ¬ SplitsBreak before.toList c.rest

section
variable {source : String} {c d : Cursor} {t : Token}

theorem Cursor.Reaches.atEnd_iff (h : (Cursor.ofString source).Reaches c) :
    c.rest = [] ↔ c.offset = source.utf8ByteSize := by
  have whole := h.offset_add_bytes
  rw [← bytes_eq_zero]
  omega

theorem Cursor.Located.sound (hlines : lineBreaks source.toList < 2 ^ 32 - 1) (h : c.Located source) :
    c.Sound source := by
  have ends := h.reaches.atEnd_iff
  have whole := h.reaches.offset_add_bytes
  obtain ⟨cs, across, hline, hstart, hbreak⟩ := h
  have before : source = String.ofList cs ++ String.ofList c.rest := ofList_append_after across
  have offset : bytes cs = c.offset := by simpa [Cursor.ofString] using across.offset.symm
  have size : (String.ofList cs).utf8ByteSize = c.offset := by rw [← bytes_eq_utf8ByteSize, offset]
  constructor
  case le => omega
  case boundary =>
    apply String.Pos.Raw.isValid_iff_exists_append.2
    exact ⟨_, _, before, by rw [← size]; rfl⟩
  case atEnd_iff => simpa [Cursor.atEnd] using ends
  case line =>
    have lines := bytes_earlierLines cs
    refine ⟨_, before, size, ?_, ?_, ?_⟩
    · have passed : lineBreaks source.toList = lineBreaks cs + lineBreaks c.rest := by
        rw [before, String.toList_append, String.toList_ofList, String.toList_ofList, lineBreaks_append hbreak]
      have fits : 1 + lineBreaks cs < 2 ^ 32 := by omega
      rw [hline, String.toList_ofList, inWord_eq fits]
    · rw [String.toList_ofList]
      omega
    · simpa using hbreak

end

/-! ## Sessions -/

namespace Scanner

/-- What a scanner is asked for. A place that was saved is named by how many were saved after it. -/
inductive Call where
  | trivia
  | token
  | regex
  | save
  | restore (later : Nat)

/-- A scanner and the places that were saved, the last one first. -/
structure Session where
  scanner : Scanner
  saved : List Bookmark

namespace Session

def start (source : String) (tolerant : Bool) (goal : Goal) (keepsComments : Bool) : Session :=
  ⟨.start source tolerant goal keepsComments, []⟩

/-- Go on behind a scan, unless it stops at an error. -/
def scan {α : Type} (p : Scan α) (s : Session) : Option Session :=
  match p s.scanner with
  | .ok _ scanner => some { s with scanner }
  | .error _ _ => none

/-- Regular expressions are asked for where a slash stands only. -/
def answer (s : Session) : Call → Option Session
  | .trivia => s.scan Scan.skipTrivia
  | .token => s.scan Scan.token
  | .regex => if s.scanner.cursor.startsWith '/' then s.scan Scan.regex else none
  | .save => some { s with saved := s.scanner.bookmark :: s.saved }
  | .restore later => s.saved[later]?.map fun b => { s with scanner := s.scanner.rewind b }

def run (calls : List Call) (s : Session) : Option Session := calls.foldlM answer s

/-- The scanner knows its line, also where it has saved a place. -/
structure Located (source : String) (s : Session) : Prop where
  cursor : s.scanner.cursor.Located source
  saved : ∀ b ∈ s.saved, b.cursor.Located source

variable {source : String} {s s' : Session} {tolerant keepsComments : Bool} {goal : Goal}
  {calls : List Call} {call : Call}

theorem Located.start (hsource : source.isEmpty = false) :
    (Session.start source tolerant goal keepsComments).Located source :=
  ⟨Cursor.located_ofString hsource, List.forall_mem_nil _⟩

theorem Located.scan {α : Type} {p : Scan α} (h : s.Located source)
    (tracks : ∀ a t, p s.scanner = .ok a t → s.scanner.cursor.Tracks t.cursor) (hscan : s.scan p = some s') :
    s'.Located source := by
  unfold Session.scan at hscan
  split at hscan
  next a t hp =>
    cases hscan
    exact ⟨tracks a t hp h.cursor, h.saved⟩
  · cases hscan

/-- Every answer leaves the scanner where it knows its line. -/
theorem Located.answer (h : s.Located source) (hanswer : s.answer call = some s') : s'.Located source := by
  cases call with
  | trivia =>
    apply h.scan _ hanswer
    intro comments t hp
    rw [(Scan.skipTrivia_ok hp).2]
    exact (Trivia.skip_passes ..).tracks
  | token =>
    apply h.scan _ hanswer
    intro token t hp
    exact (Scan.token_ok hp).1
  | regex =>
    simp only [Session.answer] at hanswer
    split at hanswer
    next hslash =>
      obtain ⟨rest, hrest⟩ := Cursor.rest_of_startsWith hslash
      apply h.scan _ hanswer
      intro token t hp
      exact Scan.regex_tracks hrest hp
    · cases hanswer
  | save =>
    cases hanswer
    exact ⟨h.cursor, List.forall_mem_cons.2 ⟨h.cursor, h.saved⟩⟩
  | restore later =>
    obtain ⟨b, hb, rfl⟩ := Option.map_eq_some_iff.1 hanswer
    exact ⟨h.saved b (List.mem_of_getElem? hb), h.saved⟩

theorem Located.run (h : s.Located source) (hrun : s.run calls = some s') : s'.Located source := by
  induction calls generalizing s with
  | nil =>
    cases hrun
    exact h
  | cons call calls ih =>
    obtain ⟨u, hanswer, hrun⟩ := Option.bind_eq_some_iff.1 hrun
    exact ih (h.answer hanswer) hrun

end Session

end Scanner

end EcmaTree
