import Mathlib.Algebra.Group.Nat.Defs
import Mathlib.Data.List.DropRight
import EcmaTree.Proofs.Lexer.Trivia

/-!
# Lines and columns

The line and the column of an offset are counted from the text before it: every line break makes a line, and the column
is the number of bytes behind the last one. A cursor carries both along and never looks back; here they are shown to
be those of its offset, whatever has been read on the way. Within a token most readers stay on their line; only
strings, templates and comments go over line terminators, and they pass them whole.
-/

namespace EcmaTree

/-- The number of line breaks in a text. A line feed right behind a carriage return belongs to it. -/
def lineBreaks : List Char → Nat
  | [] => 0
  | '\r' :: '\n' :: cs => lineBreaks cs + 1
  | ch :: cs => lineBreaks cs + if isLineTerminator ch then 1 else 0

/-- What stands behind the last line terminator of a text. -/
def lastLine (cs : List Char) : List Char := cs.rtakeWhile (!isLineTerminator ·)

/-- The line, counted in a word, and the column behind a text that begins on the first line. -/
def positionBehind (cs : List Char) : Position := ⟨inWord (1 + lineBreaks cs), bytes (lastLine cs)⟩

/-- A line break stands across the end of the first text. -/
def SplitsBreak (cs ds : List Char) : Prop := cs.getLast? = some '\r' ∧ ds.head? = some '\n'

section
variable {cs ds : List Char} {ch : Char}

theorem lineBreaks_cons (h : ¬ SplitsBreak [ch] cs) :
    lineBreaks (ch :: cs) = lineBreaks cs + if isLineTerminator ch then 1 else 0 := by
  rw [lineBreaks.eq_3]
  rintro rest rfl rfl
  exact h ⟨rfl, rfl⟩

theorem lineBreaks_append (h : ¬ SplitsBreak cs ds) : lineBreaks (cs ++ ds) = lineBreaks cs + lineBreaks ds := by
  fun_induction lineBreaks cs with
  | case1 => simp
  | case2 cs ih =>
    have tail : ¬ SplitsBreak cs ds := fun ⟨hcs, hds⟩ => h ⟨by simp [List.getLast?_cons, hcs], hds⟩
    rw [List.cons_append, List.cons_append, lineBreaks, ih tail]
    omega
  | case3 ch cs hne ih =>
    have tail : ¬ SplitsBreak cs ds := fun ⟨hcs, hds⟩ => h ⟨by simp [List.getLast?_cons, hcs], hds⟩
    have whole : ¬ SplitsBreak [ch] (cs ++ ds) := by
      rintro ⟨hch, hhead⟩
      obtain rfl : ch = '\r' := by simpa using hch
      cases cs with
      | nil => exact h ⟨rfl, hhead⟩
      | cons x cs => exact hne cs rfl (by simpa using hhead)
    rw [List.cons_append, lineBreaks_cons whole, ih tail]
    omega

theorem lineBreaks_eq_zero (h : ∀ ch ∈ cs, isLineTerminator ch = false) : lineBreaks cs = 0 := by
  induction cs with
  | nil => rfl
  | cons ch cs ih =>
    have hch := h ch (List.mem_cons_self ..)
    rw [lineBreaks_cons, ih fun x hx => h x (List.mem_cons_of_mem _ hx), hch]
    · rfl
    · rintro ⟨hr, -⟩
      obtain rfl : ch = '\r' := by simpa using hr
      cases hch

theorem lastLine_append (h : ∀ ch ∈ ds, isLineTerminator ch = false) : lastLine (cs ++ ds) = lastLine cs ++ ds := by
  induction ds using List.reverseRecOn with
  | nil => simp
  | append_singleton ds ch ih =>
    have hch := h ch (by simp)
    have := ih fun x hx => h x (List.mem_append_left _ hx)
    rw [lastLine] at this
    rw [lastLine, ← List.append_assoc, List.rtakeWhile_concat_pos _ _ _ (by simp [hch]), this,
      lastLine, List.append_assoc]

theorem lastLine_concat (h : isLineTerminator ch = true) : lastLine (cs ++ [ch]) = [] := by
  rw [lastLine, List.rtakeWhile_concat_neg _ _ _ (by simp [h])]

/-- Characters of a class that holds no line terminators. -/
theorem isLineTerminator_eq_false {p : Char → Bool} (hp : ['\n', '\r', '\u2028', '\u2029'].all (!p ·) = true)
    (h : p ch = true) :
    isLineTerminator ch = false := by
  rw [← Bool.not_eq_true]
  intro hch
  simp only [isLineTerminator, Bool.or_eq_true, beq_iff_eq] at hch
  simp only [List.all_cons, List.all_nil, Bool.and_eq_true, Bool.not_eq_true'] at hp
  rcases hch with ((rfl | rfl) | rfl) | rfl <;> simp_all

end

namespace Cursor

variable {source : String} {c d e : Cursor} {cs rest : List Char} {ch : Char} {n : Nat}

/-! ## Cursors that know their line -/

/-- The cursor stands in the source, and its line and the start of it are those of its offset. -/
def Located (source : String) (c : Cursor) : Prop :=
  ∃ cs, (ofString source).Across cs c ∧ c.line = inWord (1 + lineBreaks cs) ∧
    c.lineStart + bytes (lastLine cs) = c.offset ∧
    ¬ SplitsBreak cs c.rest

theorem located_ofString (h : source.isEmpty = false) : (ofString source).Located source :=
  ⟨[], ⟨rfl, rfl⟩, by simp [ofString, h, lineBreaks, inWord_eq_mod, UInt32.size], rfl, nofun⟩

theorem Located.reaches (h : c.Located source) : (ofString source).Reaches c := h.imp fun _ h => h.1

/-- Reading goes on on the same line. -/
def SameLine (c d : Cursor) : Prop :=
  ∃ cs, c.Across cs d ∧ (∀ ch ∈ cs, isLineTerminator ch = false) ∧ d.line = c.line ∧ d.lineStart = c.lineStart

/-- Reading goes on with the line and the column of the offset. -/
def Tracks (c d : Cursor) : Prop := ∀ ⦃source⦄, c.Located source → d.Located source

theorem Tracks.refl (c : Cursor) : c.Tracks c := fun _ h => h

theorem Tracks.trans (h : c.Tracks d) (h' : d.Tracks e) : c.Tracks e := fun _ hc => h' (h hc)

namespace SameLine

theorem refl (c : Cursor) : c.SameLine c := ⟨[], ⟨rfl, rfl⟩, nofun, rfl, rfl⟩

theorem trans (h : c.SameLine d) (h' : d.SameLine e) : c.SameLine e := by
  obtain ⟨cs, hc, hcs, hline, hstart⟩ := h
  obtain ⟨ds, hd, hds, hline', hstart'⟩ := h'
  refine ⟨cs ++ ds, hc.trans hd, fun ch hch => ?_, hline'.trans hline, hstart'.trans hstart⟩
  exact (List.mem_append.1 hch).elim (hcs ch) (hds ch)

theorem moveTo (cs : List Char) (h : c.rest = cs ++ rest) (hn : bytes cs = n)
    (hcs : cs.all (!isLineTerminator ·) = true) :
    c.SameLine (c.moveTo n rest) :=
  ⟨cs, ⟨h, by rw [Cursor.moveTo, hn]⟩, by simpa using hcs, rfl, rfl⟩

theorem pass (h : c.rest = ch :: rest) (hch : isLineTerminator ch = false) : c.SameLine (c.pass ch rest) :=
  moveTo [ch] h rfl (by simp [hch])

theorem skipWhile {p : Char → Bool} (hp : ∀ ch, p ch = true → isLineTerminator ch = false) (c : Cursor) :
    c.SameLine (c.skipWhile p) := by
  refine ⟨c.rest.takeWhile p, ⟨?_, ?_⟩, fun ch hch => hp ch (List.mem_takeWhile_imp hch), rfl, rfl⟩
  · rw [skipWhile_rest, List.takeWhile_append_dropWhile]
  · rw [Cursor.skipWhile, Cursor.moveTo, foldl_utf8Size, Nat.zero_add]

theorem tracks (h : c.SameLine d) : c.Tracks d := by
  rintro source ⟨passed, hpassed, hline, hstart, hwhole⟩
  obtain ⟨cs, hc, hcs, hline', hstart'⟩ := h
  have apart : ¬ SplitsBreak passed cs := by
    rintro ⟨-, hhead⟩
    have := hcs '\n' (List.mem_of_head? hhead)
    cases this
  refine ⟨passed ++ cs, hpassed.trans hc, ?_, ?_, ?_⟩
  · rw [hline', hline, lineBreaks_append apart, lineBreaks_eq_zero hcs, Nat.add_zero]
  · rw [hstart', lastLine_append hcs, bytes_append, hc.offset]
    omega
  · cases cs using List.reverseRecOn with
    | nil =>
      rw [hc.rest] at hwhole
      simpa using hwhole
    | append_singleton cs ch =>
      rintro ⟨hlast, -⟩
      obtain rfl : ch = '\r' := by simpa [List.getLast?_append] using hlast
      have := hcs '\r' (by simp)
      cases this

end SameLine

/-- A line terminator is passed whole: a line feed goes with the carriage return before it. -/
theorem passLine_eq (hne : ¬ (ch = '\r' ∧ rest.head? = some '\n')) :
    c.passLine ch rest = { c.pass ch rest with line := inWord (c.line + 1), lineStart := (c.pass ch rest).offset } := by
  unfold passLine startLine
  split
  next hr => exact absurd ⟨rfl, by rw [show rest = '\n' :: _ from hr]; rfl⟩ hne
  · rfl

theorem Tracks.passLine (h : c.rest = ch :: rest) (hch : isLineTerminator ch = true) :
    c.Tracks (c.passLine ch rest) := by
  rintro source ⟨passed, hpassed, hline, hstart, hwhole⟩
  by_cases hcr : ch = '\r' ∧ rest.head? = some '\n'
  · obtain ⟨rfl, hhead⟩ := hcr
    obtain ⟨rest, rfl⟩ : ∃ rest', rest = '\n' :: rest' := by
      cases rest with
      | nil => cases hhead
      | cons x rest => exact ⟨rest, by simpa using hhead⟩
    refine ⟨passed ++ ['\r', '\n'], hpassed.trans ⟨h, rfl⟩, ?_, ?_, ?_⟩
    · rw [lineBreaks_append (by simp [SplitsBreak])]
      exact (congrArg (inWord <| · + 1) hline).trans (inWord_inWord_add _ _)
    · rw [show passed ++ ['\r', '\n'] = (passed ++ ['\r']) ++ ['\n'] by simp, lastLine_concat rfl]
      rfl
    · simp [SplitsBreak, List.getLast?_append]
  · have whole : ¬ SplitsBreak passed [ch] := fun ⟨hlast, hhead⟩ => hwhole ⟨hlast, by simpa [h] using hhead⟩
    rw [passLine_eq hcr]
    refine ⟨passed ++ [ch], hpassed.trans ⟨h, rfl⟩, ?_, ?_, ?_⟩
    · rw [lineBreaks_append whole, lineBreaks_cons (by simp [SplitsBreak]), hch]
      simp [hline, lineBreaks, inWord_inWord_add, Nat.add_assoc]
    · rw [lastLine_concat hch]
      rfl
    · rintro ⟨hlast, hhead⟩
      exact hcr ⟨by simpa [List.getLast?_append] using hlast, hhead⟩

/-- Reading goes on, and a line is started behind every line terminator. -/
inductive Passes : Cursor → Cursor → Prop
  | sameLine {c d : Cursor} : c.SameLine d → Passes c d
  | passLine {c : Cursor} {ch : Char} {rest : List Char} : c.rest = ch :: rest → isLineTerminator ch = true →
      Passes c (c.passLine ch rest)
  | trans {c d e : Cursor} : Passes c d → Passes d e → Passes c e

theorem Passes.refl (c : Cursor) : c.Passes c := .sameLine (.refl c)

theorem Passes.tracks (h : c.Passes d) : c.Tracks d := by
  induction h with
  | sameLine h => exact h.tracks
  | passLine hc hch => exact .passLine hc hch
  | trans _ _ ih ih' => exact ih.trans ih'

end Cursor

open Cursor (Passes SameLine)

/-! ## Readers that stay on their line -/

variable {c d : Cursor}

theorem isLineTerminator_of_digitValue? {radix value : Nat} {ch : Char} (h : digitValue? radix ch = some value) :
    isLineTerminator ch = false := by
  refine isLineTerminator_eq_false (p := fun ch => (digitValue? radix ch).isSome) ?_ (by simp [h])
  simp [digitValue?]

theorem isLineTerminator_of_isDecimalDigit {ch : Char} (h : isDecimalDigit ch = true) : isLineTerminator ch = false :=
  isLineTerminator_eq_false (by decide) h

theorem isLineTerminator_of_isOctalDigit {ch : Char} (h : isOctalDigit ch = true) : isLineTerminator ch = false :=
  isLineTerminator_eq_false (by decide) h

theorem isLineTerminator_of_isIdentifierPart {ch : Char} (h : isIdentifierPart ch = true) :
    isLineTerminator ch = false :=
  isLineTerminator_eq_false (by decide +kernel) h

namespace Escape

theorem hexDigits_sameLine (digits value : Nat) (c : Cursor) : c.SameLine (hexDigits digits value c).2 := by
  fun_induction hexDigits digits value c with
  | case1 | case2 | case4 => exact .refl _
  | case3 digits value c ch rest h d hd ih => exact (SameLine.pass h (isLineTerminator_of_digitValue? hd)).trans ih

theorem unit_sameLine (c : Cursor) : c.SameLine (unit c).2 := by
  have first := hexDigits_sameLine 4 0 c
  unfold unit
  split
  next d h => simpa [h] using first
  next code d h =>
    rw [h] at first
    split
    next rest _ hd =>
      have second := hexDigits_sameLine 4 0 (d.moveTo 2 rest)
      split
      next low e he =>
        rw [he] at second
        split
        · exact first.trans ((SameLine.moveTo ['\\', 'u'] hd rfl rfl).trans second)
        · exact first
      · exact first
    · exact first

theorem codeDigits_sameLine (value count : Nat) (c : Cursor) : c.SameLine (codeDigits value count c).2 := by
  fun_induction codeDigits value count c with
  | case1 | case3 | case4 => exact .refl _
  | case2 value count c ch rest h d hd _ ih => exact (SameLine.pass h (isLineTerminator_of_digitValue? hd)).trans ih

theorem codePoint_sameLine (c : Cursor) : c.SameLine (codePoint c).2 := by
  have digits := codeDigits_sameLine 0 0 c
  unfold codePoint
  split
  next d h => simpa [h] using digits
  next value count d h =>
    rw [h] at digits
    split
    next rest hd =>
      split
      · exact digits
      · exact digits.trans (SameLine.moveTo ['\x7d'] hd rfl rfl)
    · exact digits

theorem unicode_sameLine (c : Cursor) : c.SameLine (unicode c).2 := by
  unfold unicode
  split
  next rest h => exact (SameLine.moveTo ['\x7b'] h rfl rfl).trans (codePoint_sameLine _)
  · exact unit_sameLine c

theorem byte_sameLine (c : Cursor) : c.SameLine (byte c).2 := by
  have digits := hexDigits_sameLine 2 0 c
  unfold byte
  split <;> simp_all

end Escape

namespace Word

theorem escaped_sameLine {accepts : Char → Bool} {ch : Char} (h : escaped accepts c = .ok (ch, d)) : c.SameLine d := by
  unfold escaped at h
  split at h
  next rest hc =>
    have code := Escape.codePoint_sameLine (c.moveTo 2 rest)
    split at h
    next e he =>
      cases h
      rw [he] at code
      exact (SameLine.moveTo ['u', '\x7b'] hc rfl rfl).trans code
    · cases h
  next rest _ hc =>
    have code := Escape.unit_sameLine (c.moveTo 1 rest)
    split at h
    next e he =>
      split at h
      · cases h
        rw [he] at code
        exact (SameLine.moveTo ['u'] hc rfl rfl).trans code
      · cases h
    · cases h
  · cases h

theorem readFrom_sameLine {read cs : List Char} (h : readFrom read c = .ok (cs, d)) : c.SameLine d := by
  fun_induction readFrom read c with
  | case1 => cases h; exact .refl _
  | case2 read c rest hc ch e he ih =>
    exact (SameLine.moveTo ['\\'] hc rfl rfl).trans ((escaped_sameLine he).trans (ih h))
  | case3 => cases h
  | case4 read c ch rest _ hc hch ih => exact (SameLine.pass hc (isLineTerminator_of_isIdentifierPart hch)).trans (ih h)
  | case5 => cases h; exact .refl _

theorem read_sameLine {ch : Char} {rest cs : List Char} (hc : c.rest = ch :: rest) (hch : isLineTerminator ch = false)
    (h : read c = .ok (cs, d)) : c.SameLine d := by
  unfold read at h
  split at h
  · cases h
  next rest hc =>
    split at h
    next ch e he => exact (SameLine.moveTo ['\\'] hc rfl rfl).trans ((escaped_sameLine he).trans (readFrom_sameLine h))
    · cases h
  next hc' =>
    obtain ⟨rfl, rfl⟩ := List.cons.inj (hc.symm.trans hc')
    exact (SameLine.pass hc hch).trans (readFrom_sameLine h)

end Word

namespace Numeral

variable {n : Numeral}

theorem readRadix_sameLine {radix : Nat} {legacy : Bool} (h : readRadix radix legacy c = .ok (n, d)) :
    c.SameLine d := by
  simp only [readRadix] at h
  split at h
  · cases h
  · rw [finish_eq h]
    refine .skipWhile (fun ch hch => ?_) _
    obtain ⟨value, hvalue⟩ := Option.isSome_iff_exists.1 hch
    exact isLineTerminator_of_digitValue? hvalue

theorem passSign_sameLine {ch : Char} {rest : List Char} (hc : c.rest = ch :: rest) (hch : ch = 'e' ∨ ch = 'E') :
    c.SameLine (passSign c rest).2 := by
  have size : ch.utf8Size = 1 := by rcases hch with rfl | rfl <;> rfl
  have plain : isLineTerminator ch = false := by rcases hch with rfl | rfl <;> rfl
  unfold passSign
  split
  · exact .moveTo [ch, '-'] hc (by rw [bytes_cons, size]; rfl) (by simp [plain]; rfl)
  · exact .moveTo [ch, '+'] hc (by rw [bytes_cons, size]; rfl) (by simp [plain]; rfl)
  · exact .moveTo [ch] hc (by rw [bytes_cons, size]; rfl) (by simp [plain])

theorem readExponent_sameLine {value : Int} (h : readExponent c = .ok (value, d)) : c.SameLine d := by
  unfold readExponent at h
  split at h
  · cases h; exact .refl _
  next ch rest hc =>
    split at h
    next he =>
      simp only at h
      split at h
      · cases h
      · simp only [Except.ok.injEq, Prod.mk.injEq] at h
        have digits := SameLine.skipWhile (fun _ => isLineTerminator_of_isDecimalDigit) (passSign c rest).2
        exact h.2 ▸ (passSign_sameLine hc (by simpa using he)).trans digits
    · cases h; exact .refl _

theorem readFraction_sameLine (c : Cursor) : c.SameLine (readFraction c).2 := by
  unfold readFraction
  split
  next rest hc =>
    exact (SameLine.moveTo ['.'] hc rfl rfl).trans (.skipWhile (fun _ => isLineTerminator_of_isDecimalDigit) _)
  · exact .refl c

theorem readDecimal_sameLine (h : readDecimal c = .ok (n, d)) : c.SameLine d := by
  unfold readDecimal at h
  simp only [bind, Except.bind] at h
  split at h
  · cases h
  next exponent he =>
    rw [finish_eq h]
    have whole := SameLine.skipWhile (fun _ => isLineTerminator_of_isDecimalDigit) c
    exact whole.trans ((readFraction_sameLine _).trans (readExponent_sameLine he))

theorem read_sameLine (h : read c = .ok (n, d)) : c.SameLine d := by
  unfold read at h
  split at h
  next hc => exact (SameLine.moveTo ['0', 'x'] hc rfl rfl).trans (readRadix_sameLine h)
  next hc => exact (SameLine.moveTo ['0', 'X'] hc rfl rfl).trans (readRadix_sameLine h)
  next hc => exact (SameLine.moveTo ['0', 'b'] hc rfl rfl).trans (readRadix_sameLine h)
  next hc => exact (SameLine.moveTo ['0', 'B'] hc rfl rfl).trans (readRadix_sameLine h)
  next hc => exact (SameLine.moveTo ['0', 'o'] hc rfl rfl).trans (readRadix_sameLine h)
  next hc => exact (SameLine.moveTo ['0', 'O'] hc rfl rfl).trans (readRadix_sameLine h)
  next hc =>
    split at h
    · exact (SameLine.moveTo ['0'] hc rfl rfl).trans (readRadix_sameLine h)
    · exact readDecimal_sameLine h
  · exact readDecimal_sameLine h

end Numeral

namespace Regex

theorem skipBody_sameLine {inClass : Bool} (h : skipBody inClass c = .ok d) : c.SameLine d := by
  fun_induction skipBody inClass c with
  | case1 | case2 | case3 | case5 => cases h
  | case4 inClass c ch rest hc next hch ih =>
    refine (SameLine.moveTo ['\\'] hc rfl rfl).trans (.trans (.pass rfl ?_) (ih h))
    simpa using hch
  | case6 c ch rest _ _ hc hch ih | case8 inClass c ch rest _ _ hc hch _ _ ih =>
    exact (SameLine.pass hc (by simpa using hch)).trans (ih h)
  | case7 => cases h; exact .refl _

theorem skipFlagEscape_sameLine (c : Cursor) : c.SameLine (skipFlagEscape c).2 := by
  unfold skipFlagEscape
  split
  next rest hc =>
    have unit := Escape.unit_sameLine (c.moveTo 1 rest)
    split
    next he =>
      rw [he] at unit
      exact (SameLine.moveTo ['u'] hc rfl rfl).trans unit
    · exact .moveTo ['u'] hc rfl rfl
  · exact .refl c

theorem readFlagsFrom_sameLine (read : List Char) (faults : List Fault) (c : Cursor) :
    c.SameLine (readFlagsFrom read faults c).2.2 := by
  fun_induction readFlagsFrom read faults c with
  | case1 | case4 => exact .refl _
  | case2 read faults c rest hc escape ih =>
    exact (SameLine.moveTo ['\\'] hc rfl rfl).trans ((skipFlagEscape_sameLine _).trans ih)
  | case3 read faults c ch rest _ hc hch ih =>
    exact (SameLine.pass hc (isLineTerminator_of_isIdentifierPart hch)).trans ih

theorem read_sameLine {rest : List Char} {r : Reading} (hc : c.rest = '/' :: rest) (h : read c = .ok r) :
    c.SameLine r.cursor := by
  simp only [read, hc, List.drop_one, List.tail_cons] at h
  split at h
  · cases h
  next last hlast =>
    cases h
    obtain ⟨-, flags, hflags⟩ := skipBody_reaches hlast
    have closing : last.SameLine (last.moveTo 1 (last.rest.drop 1)) :=
      .moveTo ['/'] (by rw [hflags]; rfl) rfl rfl
    refine (SameLine.moveTo ['/'] hc rfl rfl).trans ((skipBody_sameLine hlast).trans (closing.trans ?_))
    simpa [hflags] using readFlagsFrom_sameLine [] [] (last.moveTo 1 flags)

end Regex

theorem Punctuator.isLineTerminator_of_mem {p : Punctuator} {ch : Char} (h : ch ∈ p.spelling) :
    isLineTerminator ch = false := by
  have plain : p.spelling.all (!isLineTerminator ·) = true := by cases p <;> rfl
  simpa using List.all_eq_true.1 plain ch h

theorem Punctuator.read_sameLine {p : Punctuator} (h : read? c.rest = some p) :
    c.SameLine (c.moveTo p.spelling.length (c.rest.drop p.spelling.length)) := by
  have across := read_across h
  exact .moveTo _ across.rest (by cases p <;> rfl) (by cases p <;> rfl)

/-! ## Readers that pass lines -/

namespace Quoted

theorem readOctal_sameLine (first : Nat) (c : Cursor) : c.SameLine (readOctal first c).2.2 := by
  unfold readOctal
  split
  next a rest hc =>
    split
    next ha =>
      have size := utf8Size_of_isOctalDigit ha
      have plain := isLineTerminator_of_isOctalDigit ha
      simp only
      split
      next b rest =>
        split
        next hb =>
          have hb : isOctalDigit b = true := (Bool.and_eq_true _ _ ▸ hb).2
          exact .moveTo [a, b] hc (by simp [size, utf8Size_of_isOctalDigit hb])
            (by simp [plain, isLineTerminator_of_isOctalDigit hb])
        · exact .moveTo [a] hc (by simp [size]) (by simp [plain])
      · exact .moveTo [a] hc (by simp [size]) (by simp [plain])
    · exact .refl c
  · exact .refl c

theorem readEscape_passes {text : List Char} {legacy : Bool} (h : readEscape c = .ok (text, legacy, d)) :
    c.Passes d := by
  unfold readEscape at h
  split at h
  · cases h; exact .refl _
  next ch rest hc =>
    simp only at h
    split at h
    next hch =>
      simp only [Except.ok.injEq, Prod.mk.injEq] at h
      exact h.2.2 ▸ .passLine hc hch
    next hch =>
      have first : c.SameLine (c.pass ch rest) := .pass hc (by simpa using hch)
      have unicode := Escape.unicode_sameLine (c.pass ch rest)
      have byte := Escape.byte_sameLine (c.pass ch rest)
      refine .sameLine (first.trans ?_)
      repeat' split at h
      all_goals simp_all
      · exact h.2.2 ▸ .refl _
      · exact (by simp_all : (readOctal (ch.toNat - 48) (c.pass ch rest)).2.2 = d) ▸ readOctal_sameLine _ _
      · exact h.2.2 ▸ .refl _

theorem readFrom_passes {quote : Char} {read : List Char} {legacy : Bool} {q : Quoted}
    (hquote : isLineTerminator quote = false)
    (h : readFrom quote read legacy c = .ok (.inl (q, d))) : c.Passes d := by
  fun_induction readFrom quote read legacy c with
  | case1 => cases h
  | case2 read legacy c ch rest hc hch =>
    cases h
    exact .sameLine (.pass hc (by rwa [eq_of_beq hch]))
  | case3 read legacy c ch rest hc _ hch text forbidden e he ih =>
    obtain rfl := eq_of_beq hch
    exact (Passes.sameLine (.pass hc rfl)).trans ((readEscape_passes he).trans (ih h))
  | case4 | case5 => cases h
  | case6 read legacy c ch rest hc _ _ hch ih => exact (Passes.sameLine (.pass hc (by simpa using hch))).trans (ih h)

theorem read_passes {quote : Char} {rest : List Char} {q : Quoted} (hc : c.rest = quote :: rest)
    (hquote : isLineTerminator quote = false) (h : read c = .ok (q, d)) : c.Passes d := by
  unfold read at h
  split at h
  · cases h
  next hc' =>
    obtain ⟨rfl, rfl⟩ := List.cons.inj (hc.symm.trans hc')
    split at h
    next result he =>
      cases h
      exact (Passes.sameLine (.pass hc hquote)).trans (readFrom_passes hquote he)
    · cases h
    · cases h

end Quoted

namespace Template

theorem readEscape_passes (p : Progress) (c : Cursor) : c.Passes (readEscape p c).2 := by
  unfold readEscape
  split
  · exact .refl c
  next ch rest hc =>
    simp only
    split
    next hch => exact .passLine hc hch
    next hch =>
      have first : c.SameLine (c.pass ch rest) := .pass hc (by simpa using hch)
      repeat' split
      case h_2.isTrue => exact .sameLine (first.trans (Escape.unicode_sameLine _))
      case h_2.isFalse.isTrue => exact .sameLine (first.trans (Escape.byte_sameLine _))
      all_goals exact .sameLine first

theorem readFrom_passes (p : Progress) (c : Cursor) : c.Passes (readFrom p c).2.2 := by
  fun_induction readFrom p c with
  | case1 => exact .refl _
  | case2 p c rest hc => exact .sameLine (.moveTo ['\x60'] hc rfl rfl)
  | case3 p c rest hc => exact .sameLine (.moveTo ['$', '\x7b'] hc rfl rfl)
  | case4 p c rest hc read =>
    exact (Passes.sameLine (.moveTo ['\\'] hc rfl rfl)).trans ((readEscape_passes _ _).trans ‹_›)
  | case5 p c ch rest _ _ _ hc hch ih => exact (Passes.passLine hc hch).trans ih
  | case6 p c ch rest _ _ _ hc hch ih => exact (Passes.sameLine (.pass hc (by simpa using hch))).trans ih

theorem read_passes {ch : Char} {rest : List Char} {chunk : TemplateChunk} {closing : Closing}
    (hc : c.rest = ch :: rest)
    (hch : isLineTerminator ch = false) (h : read c = .ok (chunk, closing, d)) : c.Passes d := by
  unfold read at h
  split at h
  · cases h
  next hc' =>
    obtain ⟨rfl, rfl⟩ := List.cons.inj (hc.symm.trans hc')
    have passes := readFrom_passes ⟨[], none⟩ (c.pass ch rest)
    simp only at h
    split at h
    · cases h
    next he =>
      cases h
      rw [he] at passes
      exact (Passes.sameLine (.pass hc hch)).trans passes

end Template

namespace Trivia

variable {body : List Char}

theorem readLine_passes (opener : List Char) {n : Nat} (hc : c.rest = opener ++ body) (hn : bytes opener = n)
    (hplain : opener.all (!isLineTerminator ·) = true) : c.Passes (readLine c n body).2 := by
  have first : c.SameLine (c.moveTo n body) := .moveTo opener hc hn hplain
  have last : c.SameLine ((c.moveTo n body).skipWhile (!isLineTerminator ·)) := first.trans (.skipWhile (by simp) _)
  unfold readLine
  simp only
  split
  · exact .sameLine last
  next ch rest hrest =>
    refine (Passes.sameLine last).trans (.passLine hrest ?_)
    have := List.head?_dropWhile_not (fun ch => !isLineTerminator ch) body
    simp_all [Cursor.skipWhile, Cursor.moveTo]

theorem skipBlock_passes (c : Cursor) : c.Passes (skipBlock c) := by
  fun_induction skipBlock c with
  | case1 | case2 => exact .refl _
  | case3 c ch rest _ h hch ih => exact (Passes.passLine h hch).trans ih
  | case4 c ch rest _ h hch ih => exact (Passes.sameLine (.pass h (by simpa using hch))).trans ih

theorem readBlock_passes (hc : c.rest = '/' :: '*' :: body) : c.Passes (readBlock c body).2.1 := by
  have first : c.SameLine (c.moveTo 2 body) := .moveTo ['/', '*'] hc rfl rfl
  have inner : c.Passes (skipBlock (c.moveTo 2 body)) := (Passes.sameLine first).trans (skipBlock_passes _)
  unfold readBlock
  simp only
  split
  next rest hrest => exact inner.trans (.sameLine (.moveTo ['*', '/'] hrest rfl rfl))
  · exact inner

theorem skipFrom_passes (keep script fresh : Bool) (found : List Comment) (c : Cursor) :
    c.Passes (skipFrom keep script fresh found c).cursor := by
  fun_induction skipFrom keep script fresh found c with
  | case1 fresh found c body hc read ih => exact (readLine_passes ['/', '/'] hc rfl rfl).trans ih
  | case2 fresh found c body hc read hopen => exact readBlock_passes hc
  | case3 fresh found c body hc read _ ih => exact (readBlock_passes hc).trans ih
  | case4 fresh found c body hc _ read ih => exact (readLine_passes ['-', '-', '>'] hc rfl rfl).trans ih
  | case6 fresh found c body hc _ read ih => exact (readLine_passes ['<', '!', '-', '-'] hc rfl rfl).trans ih
  | case8 fresh found c ch rest _ _ _ _ hc hblank ih =>
    have plain : isLineTerminator ch = false := isLineTerminator_eq_false (p := isBlank) (by decide +kernel) hblank
    exact (Passes.sameLine (.pass hc plain)).trans ih
  | case9 fresh found c ch rest _ _ _ _ hc _ hline ih => exact (Passes.passLine hc hline).trans ih
  | case5 | case7 | case10 | case11 => exact .refl _

theorem skip_passes (keep script : Bool) (c : Cursor) : c.Passes (skip keep script c).cursor := skipFrom_passes ..

end Trivia

theorem Jsx.skipText_passes (c : Cursor) : c.Passes (skipText c) := by
  fun_induction skipText c with
  | case1 | case2 => exact .refl _
  | case3 c ch rest hc _ hch ih => exact (Passes.passLine hc hch).trans ih
  | case4 c ch rest hc _ hch ih => exact (Passes.sameLine (.pass hc (by simpa using hch))).trans ih

end EcmaTree
