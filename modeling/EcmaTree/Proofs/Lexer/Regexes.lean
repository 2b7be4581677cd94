import EcmaTree.Proofs.Lexer.Escapes
import EcmaTree.Proofs.Lexer.Strict

/-!
# Where regular expressions end

The body of a regular expression ends at the first slash that no backslash takes with it and that stands in no class.
What may be a body is said here of a text as a whole, by its units and the classes that they open and close. A regular
expression is read exactly where a body stands between two slashes; the identifier characters behind it, as many as
there are, are its flags, and no escape may follow them.
-/

namespace EcmaTree

open Cursor (Across)

namespace Regex

/-! ## Bodies -/

/-- A character of a body, with the backslash before it if there is one. -/
structure Piece where
  escaped : Bool
  ch : Char

/-- The pieces of a text. From left to right, a backslash takes the next character with it, so none may stand at the
end. -/
def pieces : List Char → Option (List Piece)
  | [] => some []
  | ['\\'] => none
  | '\\' :: ch :: rest => (pieces rest).map (⟨true, ch⟩ :: ·)
  | ch :: rest => (pieces rest).map (⟨false, ch⟩ :: ·)

/-- Is a class open behind the piece, if it is one before? A class goes from a bracket to the next closing one. -/
def Piece.inClass (inside : Bool) (p : Piece) : Bool :=
  if p.escaped then inside else if inside then p.ch != ']' else p.ch == '['

/-- Is a class open behind the pieces? -/
def inClass (inside : Bool) (ps : List Piece) : Bool := ps.foldl Piece.inClass inside

/-- The text may be the body of a regular expression, or the rest of one behind a class that is still open if
`inside`: it goes over no end of a line, every slash in it is escaped or in a class, and no class is open behind it.
-/
structure IsBody (inside : Bool) (body : List Char) : Prop where
  oneLine : ∀ ch ∈ body, isLineTerminator ch = false
  pieces : ∃ ps, pieces body = some ps ∧ (∀ before behind, ps = before ++ ⟨false, '/'⟩ :: behind →
    inClass inside before = true) ∧
    inClass inside ps = false

variable {inside : Bool} {ch : Char} {body rest flags : List Char} {c d : Cursor}

theorem pieces_cons (h : ch ≠ '\\') (body : List Char) :
    pieces (ch :: body) = (pieces body).map (⟨false, ch⟩ :: ·) := by
  rw [pieces]
  · exact fun he _ => h he
  · exact fun _ _ he _ => h he

namespace IsBody

theorem nil : IsBody inside [] ↔ inside = false :=
  ⟨fun ⟨_, ps, hps, _, hclosed⟩ => by cases hps; exact hclosed, fun h => ⟨nofun, [], rfl, by simp, h⟩⟩

/-- The first piece of a body decides where the others stand. -/
theorem of_piece (piece : Piece) (text : List Char)
    (htext : Regex.pieces (text ++ body) = (Regex.pieces body).map (piece :: ·)) :
    IsBody inside (text ++ body) ↔ (∀ ch ∈ text, isLineTerminator ch = false) ∧
      (piece = ⟨false, '/'⟩ → inside = true) ∧ IsBody (piece.inClass inside) body := by
  constructor
  · rintro ⟨oneLine, ps, hps, slashes, closed⟩
    obtain ⟨qs, hqs, rfl⟩ := Option.map_eq_some_iff.1 (htext.symm.trans hps)
    rw [List.forall_mem_append] at oneLine
    refine ⟨oneLine.1, fun hslash => slashes [] qs (by rw [hslash]; rfl), oneLine.2, qs, hqs,
      fun before behind hq => ?_, closed⟩
    exact slashes (piece :: before) behind (by rw [hq]; rfl)
  · rintro ⟨oneLine, slash, oneLine', qs, hqs, slashes, closed⟩
    refine ⟨List.forall_mem_append.2 ⟨oneLine, oneLine'⟩, piece :: qs, by rw [htext, hqs]; rfl,
      fun before behind hq => ?_, closed⟩
    cases before with
    | nil => exact slash (List.cons.inj hq).1
    | cons first before =>
      obtain ⟨rfl, rfl⟩ := List.cons.inj hq
      exact slashes before behind rfl

theorem escaped : IsBody inside ('\\' :: ch :: body) ↔ isLineTerminator ch = false ∧ IsBody inside body := by
  have first : IsBody inside (['\\', ch] ++ body) ↔ _ := of_piece ⟨true, ch⟩ ['\\', ch] rfl
  simpa [Piece.inClass, show isLineTerminator '\\' = false from rfl] using first

theorem not_slash : ¬ IsBody inside ['\\'] := fun ⟨_, _, h, _⟩ => nomatch h

theorem cons (h : ch ≠ '\\') : IsBody inside (ch :: body) ↔
    isLineTerminator ch = false ∧ (ch = '/' → inside = true) ∧
      IsBody (if inside then ch != ']' else ch == '[') body := by
  have first : IsBody inside ([ch] ++ body) ↔ _ := of_piece ⟨false, ch⟩ [ch] (pieces_cons h body)
  simpa [Piece.inClass] using first

end IsBody

/-! ## Where a body ends -/

/-- A body stands between the cursors, and a slash behind it. -/
def EndsAt (inside : Bool) (c d : Cursor) : Prop :=
  ∃ body rest, IsBody inside body ∧ c.rest = body ++ '/' :: rest ∧ d = c.moveTo (bytes body) ('/' :: rest)

namespace EndsAt

theorem not_nil (hc : c.rest = []) : ¬ EndsAt inside c d := by
  rintro ⟨body, rest, -, hrest, -⟩
  simp [hc] at hrest

theorem not_slash (hc : c.rest = ['\\']) : ¬ EndsAt inside c d := by
  rintro ⟨_ | ⟨ch, body⟩, rest, -, hrest, -⟩ <;> simp [hc] at hrest

/-- A slash outside of classes ends the body. -/
theorem close (hc : c.rest = '/' :: rest) : EndsAt false c d ↔ d = c := by
  constructor
  · rintro ⟨_ | ⟨ch, body⟩, behind, isBody, hrest, rfl⟩
    · rw [← List.nil_append ('/' :: behind), ← hrest]
      rfl
    · obtain rfl : '/' = ch := (List.cons.inj (hc.symm.trans hrest)).1
      exact absurd (((IsBody.cons (by decide)).1 isBody).2.1 rfl) Bool.false_ne_true
  · rintro rfl
    exact ⟨[], rest, IsBody.nil.2 rfl, hc, by rw [← hc]; rfl⟩

theorem escaped (hc : c.rest = '\\' :: ch :: rest) : EndsAt inside c d ↔
    isLineTerminator ch = false ∧ EndsAt inside ((c.moveTo 1 (ch :: rest)).pass ch rest) d := by
  have moved (body behind : List Char) : ((c.moveTo 1 (ch :: rest)).pass ch rest).moveTo (bytes body) behind =
      c.moveTo (bytes ('\\' :: ch :: body)) behind := by
    rw [Cursor.pass_moveTo, Cursor.moveTo_moveTo, Nat.add_comm]
    rfl
  constructor
  · rintro ⟨_ | ⟨first, _ | ⟨second, body⟩⟩, behind, isBody, hrest, rfl⟩
    · simp [hc] at hrest
    · obtain rfl : '\\' = first := (List.cons.inj (hc.symm.trans hrest)).1
      exact absurd isBody IsBody.not_slash
    · obtain ⟨rfl, rfl, left⟩ : '\\' = first ∧ ch = second ∧ rest = body ++ '/' :: behind := by simpa [hc] using hrest
      obtain ⟨hline, isBody⟩ := IsBody.escaped.1 isBody
      exact ⟨hline, body, behind, isBody, left, (moved ..).symm⟩
  · rintro ⟨hline, body, behind, isBody, hrest, rfl⟩
    have hrest : rest = body ++ '/' :: behind := hrest
    exact ⟨'\\' :: ch :: body, behind, IsBody.escaped.2 ⟨hline, isBody⟩, by rw [hc, hrest]; rfl, moved ..⟩

theorem cons (hc : c.rest = ch :: rest) (hch : ch ≠ '\\') (hslash : ch = '/' → inside = true) : EndsAt inside c d ↔
    isLineTerminator ch = false ∧ EndsAt (if inside then ch != ']' else ch == '[') (c.pass ch rest) d := by
  constructor
  · rintro ⟨_ | ⟨first, body⟩, behind, isBody, hrest, rfl⟩
    · obtain rfl : ch = '/' := (List.cons.inj (hc.symm.trans hrest)).1
      simp [IsBody.nil.1 isBody] at hslash
    · obtain ⟨rfl, left⟩ := List.cons.inj (hc.symm.trans hrest)
      obtain ⟨hline, -, isBody⟩ := (IsBody.cons hch).1 isBody
      exact ⟨hline, body, behind, isBody, left, (Cursor.pass_moveTo ..).symm⟩
  · rintro ⟨hline, body, behind, isBody, hrest, rfl⟩
    have hrest : rest = body ++ '/' :: behind := hrest
    exact ⟨ch :: body, behind, (IsBody.cons hch).2 ⟨hline, hslash, isBody⟩, by rw [hc, hrest]; rfl,
      Cursor.pass_moveTo ..⟩

end EndsAt

theorem ne_backslash (h : ch = '\\' → rest = [] → False) (h' : ∀ next behind, ch = '\\' →
    rest = next :: behind → False) :
    ch ≠ '\\' := by
  rintro rfl
  cases rest with
  | nil => exact h rfl rfl
  | cons next behind => exact h' next behind rfl rfl

theorem skipBody_eq_ok : skipBody inside c = .ok d ↔ EndsAt inside c d := by
  fun_induction skipBody inside c with
  | case1 inside c hc => simp [EndsAt.not_nil hc]
  | case2 inside c hc => simp [EndsAt.not_slash hc]
  | case3 inside c ch rest hc next hline => simp [EndsAt.escaped hc, hline]
  | case4 inside c ch rest hc next hline ih =>
    rw [ih, EndsAt.escaped hc, iff_and_self]
    exact fun _ => by simpa using hline
  | case5 inside c ch rest h h' hc hline =>
    have unslashed : ch = '/' → inside = true := by
      rintro rfl
      cases hline
    simp [EndsAt.cons hc (ne_backslash h h') unslashed, hline]
  | case6 c ch rest h h' hc hline ih =>
    rw [ih, EndsAt.cons hc (ne_backslash h h') fun _ => rfl]
    simp [hline]
  | case7 inside c ch rest h h' hc hline hinside hslash =>
    obtain rfl : ch = '/' := by simpa using hslash
    rw [Bool.eq_false_iff.2 hinside, EndsAt.close hc, Except.ok.injEq, eq_comm]
  | case8 inside c ch rest h h' hc hline hinside hslash ih =>
    have unslashed : ch = '/' → inside = true := fun hch => absurd (beq_iff_eq.2 hch) hslash
    rw [ih, EndsAt.cons hc (ne_backslash h h') unslashed]
    simp [hline, hinside]

/-! ## Flags -/

/-- The text is all of the flags before the rest: it has as many identifier characters as there are, and no escape
follows. -/
structure AreFlags (flags rest : List Char) : Prop where
  parts : ∀ ch ∈ flags, isIdentifierPart ch = true
  longest : ∀ ch ∈ rest.head?, isIdentifierPart ch = false
  unescaped : rest.head? ≠ some '\\'

theorem AreFlags.cons : AreFlags (ch :: flags) rest ↔ isIdentifierPart ch = true ∧ AreFlags flags rest := by
  constructor
  · rintro ⟨parts, longest, unescaped⟩
    obtain ⟨first, others⟩ := List.forall_mem_cons.1 parts
    exact ⟨first, others, longest, unescaped⟩
  · rintro ⟨first, others, longest, unescaped⟩
    exact ⟨List.forall_mem_cons.2 ⟨first, others⟩, longest, unescaped⟩

/-- The text stands between the cursors, and is all of the flags there. -/
def FlagsTo (flags : List Char) (c d : Cursor) : Prop :=
  ∃ rest, AreFlags flags rest ∧ c.rest = flags ++ rest ∧ d = c.moveTo (bytes flags) rest

namespace FlagsTo

theorem nil (longest : ∀ ch ∈ c.rest.head?, isIdentifierPart ch = false) (unescaped : c.rest.head? ≠ some '\\') :
    FlagsTo flags c d ↔ flags = [] ∧ d = c := by
  constructor
  · rintro ⟨rest, areFlags, hrest, rfl⟩
    cases flags with
    | nil => exact ⟨rfl, by rw [show rest = c.rest from hrest.symm]; rfl⟩
    | cons first flags =>
      have part := (AreFlags.cons.1 areFlags).1
      rw [longest first (by rw [hrest]; rfl)] at part
      cases part
  · rintro ⟨rfl, rfl⟩
    exact ⟨_, ⟨nofun, longest, unescaped⟩, rfl, rfl⟩

theorem not_escape (hc : c.rest = '\\' :: rest) : ¬ FlagsTo flags c d := by
  rintro ⟨behind, areFlags, hrest, -⟩
  cases flags with
  | nil => exact areFlags.unescaped (by rw [← List.nil_append behind, ← hrest, hc]; rfl)
  | cons first flags =>
    obtain rfl : '\\' = first := (List.cons.inj (hc.symm.trans hrest)).1
    exact absurd (AreFlags.cons.1 areFlags).1 (by decide +kernel)

theorem cons (hc : c.rest = ch :: rest) (hpart : isIdentifierPart ch = true) :
    FlagsTo flags c d ↔ ∃ others, flags = ch :: others ∧ FlagsTo others (c.pass ch rest) d := by
  constructor
  · rintro ⟨behind, areFlags, hrest, rfl⟩
    cases flags with
    | nil =>
      have longest := areFlags.longest ch (by rw [← List.nil_append behind, ← hrest, hc]; rfl)
      exact absurd hpart (Bool.eq_false_iff.1 longest)
    | cons first flags =>
      obtain ⟨rfl, left⟩ := List.cons.inj (hc.symm.trans hrest)
      exact ⟨flags, rfl, behind, (AreFlags.cons.1 areFlags).2, left, (Cursor.pass_moveTo ..).symm⟩
  · rintro ⟨others, rfl, behind, areFlags, left, rfl⟩
    have left : rest = others ++ behind := left
    exact ⟨behind, AreFlags.cons.2 ⟨hpart, areFlags⟩, by rw [hc, left]; rfl, Cursor.pass_moveTo ..⟩

end FlagsTo

/-- No fault is met among the flags just where all that stands there are flags. -/
theorem readFlagsFrom_eq_nil {read : List Char} {faults : List Fault} {text : String} :
    readFlagsFrom read faults c = (text, [], d) ↔
    faults = [] ∧ ∃ flags, FlagsTo flags c d ∧ text = String.ofList (read.reverse ++ flags) := by
  fun_induction readFlagsFrom read faults c with
  | case1 read faults c hc =>
    have longest : ∀ ch ∈ c.rest.head?, isIdentifierPart ch = false := by simp [hc]
    have unescaped : c.rest.head? ≠ some '\\' := by simp [hc]
    simp only [FlagsTo.nil longest unescaped, Prod.mk.injEq, List.reverse_eq_nil_iff]
    grind
  | case2 read faults c rest hc escape ih =>
    rw [ih]
    simp [FlagsTo.not_escape hc]
  | case3 read faults c ch rest _ hc hpart ih =>
    rw [ih]
    simp [FlagsTo.cons hc hpart]
  | case4 read faults c ch rest hescape hc hpart =>
    have longest : ∀ ch ∈ c.rest.head?, isIdentifierPart ch = false := by simpa [hc] using hpart
    have unescaped : c.rest.head? ≠ some '\\' := by simpa [hc] using hescape
    simp only [FlagsTo.nil longest unescaped, Prod.mk.injEq, List.reverse_eq_nil_iff]
    grind

/-! ## Regular expressions -/

/-- A regular expression is read without a fault in two steps, its body and its flags. -/
theorem read_eq_ok_iff {text : List Char} {literal : RegexLiteral} (hc : c.rest = '/' :: text) :
    read c = .ok ⟨literal, [], d⟩ ↔ ∃ last, EndsAt false (c.moveTo 1 text) last ∧
      literal.pattern = (c.moveTo 1 text).textUntil last.offset ∧
      readFlagsFrom [] [] (last.moveTo 1 last.rest.tail) = (literal.flags, [], d) := by
  obtain ⟨pattern, flags⟩ := literal
  simp only [← skipBody_eq_ok, read, hc, List.drop_one, List.tail_cons]
  cases skipBody false (c.moveTo 1 text) with
  | error fault => simp
  | ok last =>
    simp only [Prod.ext_iff]
    grind

/-- A regular expression is read without a fault just where a body stands between two slashes, and flags behind it. -/
theorem read_eq_ok {text : List Char} {literal : RegexLiteral} (hc : c.rest = '/' :: text) :
    read c = .ok ⟨literal, [], d⟩ ↔
    ∃ body flags rest, text = body ++ '/' :: (flags ++ rest) ∧ IsBody false body ∧ AreFlags flags rest ∧
      literal = ⟨String.ofList body, String.ofList flags⟩ ∧
        d = c.moveTo (bytes ('/' :: (body ++ '/' :: flags))) rest := by
  have moved (body flags rest : List Char) : (((c.moveTo 1 text).moveTo (bytes body) ('/' :: (flags ++ rest))).moveTo 1
      (flags ++ rest)).moveTo (bytes flags) rest = c.moveTo (bytes ('/' :: (body ++ '/' :: flags))) rest := by
    have size : '/'.utf8Size = 1 := rfl
    simp only [Cursor.moveTo_moveTo, bytes_cons, bytes_append, size]
    congr 1
    omega
  have written {body behind : List Char} (h : text = body ++ '/' :: behind) :
      (c.moveTo 1 text).textUntil ((c.moveTo 1 text).moveTo (bytes body) ('/' :: behind)).offset = String.ofList body :=
    (Across.moveTo (c := c.moveTo 1 text) h rfl).textUntil
  rw [read_eq_ok_iff hc]
  -- The cursors of the two steps are put together to one move over what is written, and taken apart again.
  constructor
  · rintro ⟨_, ⟨body, behind, isBody, hrest, rfl⟩, hpattern, hflags⟩
    obtain ⟨-, flags, ⟨rest, areFlags, left, rfl⟩, htext⟩ := readFlagsFrom_eq_nil.1 hflags
    obtain rfl : behind = flags ++ rest := left
    refine ⟨body, flags, rest, hrest, isBody, areFlags, ?_, moved ..⟩
    rw [written hrest] at hpattern
    cases literal
    exact congrArg₂ _ hpattern htext
  · rintro ⟨body, flags, rest, htext, isBody, areFlags, rfl, rfl⟩
    exact ⟨_, ⟨body, flags ++ rest, isBody, htext, rfl⟩, (written htext).symm,
      readFlagsFrom_eq_nil.2 ⟨rfl, flags, ⟨rest, areFlags, rfl, (moved ..).symm⟩, rfl⟩⟩

end Regex

/-- In strict mode a regular expression is read just where a body stands between two slashes and is followed by flags.
The token holds the two of them, and ends behind the flags. -/
theorem regex_delimited {s s' : Scanner} {t : Token} {text : List Char} (hs : s.tolerant = false)
    (hrest : s.cursor.rest = '/' :: text) : Scan.regex s = .ok t s' ↔
      ∃ body flags rest, text = body ++ '/' :: (flags ++ rest) ∧ Regex.IsBody false body ∧ Regex.AreFlags flags rest ∧
        let written := '/' :: (body ++ '/' :: flags)
        let stop := s.cursor.offset + bytes written
        t = ⟨.regex ⟨String.ofList body, String.ofList flags⟩, String.ofList written, ⟨s.cursor.offset, stop⟩,
          s.cursor.line, s.cursor.lineStart⟩ ∧
        s' = { s with cursor := ⟨stop, s.cursor.line, s.cursor.lineStart, rest⟩ } := by
  have reads : Scan.regex s = .ok t s' ↔ ∃ literal stop, Regex.read s.cursor = .ok ⟨literal, [], stop⟩ ∧
      t = Scan.tokenBetween s.cursor stop (.regex literal) ∧ s' = { s with cursor := stop } := by
    rw [Scan.regex_eq hs]
    rcases Regex.read s.cursor with fault | ⟨literal, _ | ⟨fault, faults⟩, stop⟩ <;> simp [eq_comm]
  have across (body flags rest : List Char) (h : text = body ++ '/' :: (flags ++ rest)) :
      s.cursor.Across ('/' :: (body ++ '/' :: flags)) (s.cursor.moveTo (bytes ('/' :: (body ++ '/' :: flags))) rest) :=
    .moveTo (by rw [hrest, h]; simp) rfl
  rw [reads]
  constructor
  · rintro ⟨literal, stop, hread, rfl, rfl⟩
    obtain ⟨body, flags, rest, htext, isBody, areFlags, rfl, rfl⟩ := (Regex.read_eq_ok hrest).1 hread
    refine ⟨body, flags, rest, htext, isBody, areFlags, ?_, rfl⟩
    rw [Scan.tokenBetween, (across body flags rest htext).textUntil]
    rfl
  · rintro ⟨body, flags, rest, htext, isBody, areFlags, rfl, rfl⟩
    refine ⟨_, _, (Regex.read_eq_ok hrest).2 ⟨body, flags, rest, htext, isBody, areFlags, rfl, rfl⟩, ?_, rfl⟩
    rw [Scan.tokenBetween, (across body flags rest htext).textUntil]
    rfl

/-- A slash in a class and an escaped one, two flags, and a semicolon that is no flag. -/
theorem regex_delimited_class : Scan.regex (.start "/[/]\\/a/gi;" false .script) = .ok
    ⟨.regex ⟨"[/]\\/a", "gi"⟩, "/[/]\\/a/gi", ⟨0, 10⟩, 1, 0⟩
    { Scanner.start "/[/]\\/a/gi;" false .script with cursor := ⟨10, 1, 0, [';']⟩ } := by
  have here : (Scanner.start "/[/]\\/a/gi;" false .script).cursor.rest =
      '/' :: ['[', '/', ']', '\\', '/', 'a', '/', 'g', 'i', ';'] := by decide +kernel
  have isBody : Regex.IsBody false ['[', '/', ']', '\\', '/', 'a'] := by
    simp [Regex.IsBody.cons, Regex.IsBody.escaped, Regex.IsBody.nil]
    decide
  have areFlags : Regex.AreFlags ['g', 'i'] [';'] := by
    refine ⟨List.all_eq_true.1 (by decide +kernel), ?_, by decide⟩
    rintro _ ⟨⟩
    decide +kernel
  exact (regex_delimited rfl here).2 ⟨_, _, _, rfl, isBody, areFlags, rfl, rfl⟩

end EcmaTree
