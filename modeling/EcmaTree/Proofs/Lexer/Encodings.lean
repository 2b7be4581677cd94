import EcmaTree.Proofs.Lexer.Reports

/-!
# Ways to write a string

A character may be written in a string literal as itself or as one of several escapes, and between characters the
literal may go over the end of a line. However it is written, the literal has the string as its value, is not marked
as a form that strict code forbids, and ends at its closing quote, whatever follows.
-/

namespace EcmaTree

open Cursor (Across)

/-- Characters that write a number in hexadecimal digits, letters in either case. -/
structure HexFor (number : Nat) (ds : List Char) : Prop where
  digits : ∀ d ∈ ds, isHexDigit d = true
  number : Escape.hexNumber 0 ds = number

/-- The letters that stand for a control character behind a backslash. -/
def controlLetters : List (Char × Char) :=
  [('n', '\n'), ('r', '\r'), ('t', '\t'), ('b', '\x08'), ('f', '\x0c'), ('v', '\x0b')]

/-- The letters that do not stand for themselves behind a backslash. -/
def escapeLetters : List Char := ['n', 'r', 't', 'b', 'f', 'v', 'u', 'x']

/-- The form writes the character between two quotes. -/
inductive Encodes (quote : Char) : Char → List Char → Prop
  | itself {ch : Char} : ch ≠ quote → ch ≠ '\\' → isLineTerminator ch = false → Encodes quote ch [ch]
  | control {letter ch : Char} : (letter, ch) ∈ controlLetters → Encodes quote ch ['\\', letter]
  | escaped {ch : Char} : isDecimalDigit ch = false → ch ∉ escapeLetters → isLineTerminator ch = false →
      Encodes quote ch ['\\', ch]
  | byte {ch : Char} {ds : List Char} : ds.length = 2 → HexFor ch.toNat ds → Encodes quote ch ('\\' :: 'x' :: ds)
  | unit {ch : Char} {ds : List Char} : ds.length = 4 → HexFor ch.toNat ds → Encodes quote ch ('\\' :: 'u' :: ds)
  /-- Two code units that form a surrogate pair. -/
  | pair {ch : Char} {high low : Nat} {ds es : List Char} : ds.length = 4 → HexFor (0xD800 + high) ds → es.length = 4 →
      HexFor (0xDC00 + low) es → low < 0x400 → ch.toNat = 0x10000 + high * 0x400 + low →
      Encodes quote ch ('\\' :: 'u' :: (ds ++ '\\' :: 'u' :: es))
  /-- A code point between braces, with as many zeros in front as one likes. -/
  | point {ch : Char} {ds : List Char} :
      ds ≠ [] → HexFor ch.toNat ds → Encodes quote ch ('\\' :: 'u' :: '\x7b' :: (ds ++ ['\x7d']))

/-- The ends of lines. -/
def lineEnds : List (List Char) := [['\n'], ['\r'], ['\r', '\n'], ['\u2028'], ['\u2029']]

/-- The body, between two quotes, writes the characters. A backslash before the end of a line writes nothing. -/
inductive Writes (quote : Char) : List Char → List Char → Prop
  | nil : Writes quote [] []
  | char {ch : Char} {form value body : List Char} : Encodes quote ch form → Writes quote value body →
      Writes quote (ch :: value) (form ++ body)
  | continuation {lineEnd value body : List Char} : lineEnd ∈ lineEnds → Writes quote value body →
      Writes quote value ('\\' :: (lineEnd ++ body))

variable {quote ch : Char} {value body form ds es rest : List Char} {c d : Cursor} {number : Nat}

/-! ## Numbers in escapes -/

namespace HexFor

/-- As many digits as there are. -/
theorem hexDigits (h : HexFor number ds) (hc : c.rest = ds ++ rest) :
    Escape.hexDigits ds.length 0 c = (some number, c.moveTo (bytes ds) rest) := by
  have digits : Escape.digitsOf c.rest = ds ++ Escape.digitsOf rest := by
    rw [hc]
    exact List.takeWhile_append_of_pos h.digits
  rw [Escape.hexDigits_eq, digits, if_pos (by simp), List.take_left, h.number, List.length_append,
    Nat.min_eq_left (by omega),
    Escape.skip, hc, List.drop_left, bytes_of_digits h.digits]

/-- All digits before a brace. -/
theorem codeDigits (h : HexFor number ds) (hnumber : number ≤ 0x10FFFF) (hc : c.rest = ds ++ '\x7d' :: rest) :
    Escape.codeDigits 0 0 c = (some (number, ds.length), c.moveTo (bytes ds) ('\x7d' :: rest)) := by
  have digits : Escape.digitsOf c.rest = ds := by
    rw [hc, Escape.digitsOf, List.takeWhile_append_of_pos h.digits, List.takeWhile_cons_of_neg (by decide),
      List.append_nil]
  rcases Escape.codeDigits_eq 0 0 c with read | ⟨large, -⟩
  · rw [read, digits, h.number, Nat.zero_add, Escape.skip, hc, List.drop_left, bytes_of_digits h.digits]
  · have limit : Escape.codeLimit = 0x100000000 := by decide
    rw [digits, h.number] at large
    omega

end HexFor

namespace Escape

theorem ofCode_toNat (ch : Char) : ofCode ch.toNat = ch := by
  rw [ofCode, if_pos (show ch.toNat.isValidChar from ch.valid), Char.ofNat_toNat]

theorem byte_of_digits (hds : ds.length = 2) (h : HexFor ch.toNat ds) (hc : c.rest = ds ++ rest) :
    byte c = (some ch, c.moveTo (bytes ds) rest) := by
  simp only [byte, hds ▸ h.hexDigits hc, ofCode_toNat]

/-- A character is no surrogate, so what follows is not looked at. -/
theorem unit_of_digits (hds : ds.length = 4) (h : HexFor ch.toNat ds) (hc : c.rest = ds ++ rest) :
    unit c = (some ch, c.moveTo (bytes ds) rest) := by
  have single : isHighSurrogate ch.toNat = false := by
    have valid : ch.toNat < 0xD800 ∨ 0xDFFF < ch.toNat ∧ ch.toNat < 0x110000 := ch.valid
    simp only [isHighSurrogate, Bool.and_eq_false_iff, decide_eq_false_iff_not]
    omega
  simp only [unit, hds ▸ h.hexDigits hc, single, ofCode_toNat]

theorem unit_of_pair {high low : Nat} (hds : ds.length = 4) (first : HexFor (0xD800 + high) ds) (hes : es.length = 4)
    (second : HexFor (0xDC00 + low) es) (hlow : low < 0x400) (hch : ch.toNat = 0x10000 + high * 0x400 + low)
    (hc : c.rest = ds ++ '\\' :: 'u' :: (es ++ rest)) :
      unit c = (some ch, c.moveTo (bytes (ds ++ '\\' :: 'u' :: es)) rest) := by
  have valid : ch.toNat < 0xD800 ∨ 0xDFFF < ch.toNat ∧ ch.toNat < 0x110000 := ch.valid
  have isHigh : isHighSurrogate (0xD800 + high) = true := by
    simp only [isHighSurrogate, Bool.and_eq_true, decide_eq_true_eq]
    omega
  have isLow : isLowSurrogate (0xDC00 + low) = true := by
    simp only [isLowSurrogate, Bool.and_eq_true, decide_eq_true_eq]
    omega
  have joined : joinSurrogates (0xD800 + high) (0xDC00 + low) = ch := by
    rw [joinSurrogates, Nat.add_sub_cancel_left, Nat.add_sub_cancel_left, ← hch, ofCode_toNat]
  let behind := c.moveTo (bytes ds) ('\\' :: 'u' :: (es ++ rest))
  have read : hexDigits 4 0 c = (some (0xD800 + high), behind) := hds ▸ first.hexDigits hc
  have read' : hexDigits 4 0 (behind.moveTo 2 (es ++ rest)) = (some (0xDC00 + low),
    (behind.moveTo 2 (es ++ rest)).moveTo (bytes es) rest) :=
    hes ▸ second.hexDigits (c := behind.moveTo 2 (es ++ rest)) rfl
  have width : bytes (ds ++ '\\' :: 'u' :: es) = bytes es + 2 + bytes ds := by
    simp only [bytes_append, bytes_cons, show '\\'.utf8Size = 1 from rfl, show 'u'.utf8Size = 1 from rfl]
    omega
  simp only [unit, read, isHigh, show behind.rest = '\\' :: 'u' :: (es ++ rest) from rfl, read', isLow, if_true, joined]
  rw [Cursor.moveTo_moveTo, Cursor.moveTo_moveTo, width]

/-- A digit is no brace. -/
theorem unicode_eq_unit (hds : ds.length = 4) (hdigits : ∀ d ∈ ds, isHexDigit d = true) (hc : c.rest = ds ++ rest) :
    unicode c = unit c := by
  obtain ⟨d, ds, rfl⟩ := List.exists_cons_of_length_pos (show 0 < ds.length by omega)
  unfold unicode
  split
  next hbrace =>
    obtain rfl : d = '\x7b' := by simpa using congrArg List.head? (hc.symm.trans hbrace)
    exact absurd (hdigits _ (List.mem_cons_self ..)) (by decide)
  · rfl

theorem codePoint_of_digits (hds : ds ≠ []) (h : HexFor ch.toNat ds) (hc : c.rest = ds ++ '\x7d' :: rest) :
    codePoint c = (some ch, c.moveTo (bytes (ds ++ ['\x7d'])) rest) := by
  have small : ch.toNat ≤ 0x10FFFF := by
    have valid : ch.toNat < 0xD800 ∨ 0xDFFF < ch.toNat ∧ ch.toNat < 0x110000 := ch.valid
    omega
  have valid : (ds.length = 0 || 0x10FFFF < ch.toNat) = false := by simpa [hds] using small
  simp only [codePoint, h.codeDigits small hc, show (c.moveTo (bytes ds) ('\x7d' :: rest)).rest =
    '\x7d' :: rest from rfl, valid,
    Bool.false_eq_true, if_false, ofCode_toNat, Cursor.moveTo_moveTo, bytes_append, Nat.add_comm]
  rfl

theorem unicode_of_digits (hds : ds.length = 4) (h : HexFor ch.toNat ds) (hc : c.rest = ds ++ rest) :
    unicode c = (some ch, c.moveTo (bytes ds) rest) :=
  (unicode_eq_unit hds h.digits hc).trans (unit_of_digits hds h hc)

theorem unicode_of_pair {high low : Nat} (hds : ds.length = 4) (first : HexFor (0xD800 + high) ds) (hes : es.length = 4)
    (second : HexFor (0xDC00 + low) es) (hlow : low < 0x400) (hch : ch.toNat = 0x10000 + high * 0x400 + low)
    (hc : c.rest = ds ++ '\\' :: 'u' :: (es ++ rest)) :
      unicode c = (some ch, c.moveTo (bytes (ds ++ '\\' :: 'u' :: es)) rest) :=
  (unicode_eq_unit hds first.digits hc).trans (unit_of_pair hds first hes second hlow hch hc)

theorem unicode_of_point (hds : ds ≠ []) (h : HexFor ch.toNat ds) (hc : c.rest = '\x7b' :: (ds ++ '\x7d' :: rest)) :
    unicode c = (some ch, c.moveTo (bytes ('\x7b' :: (ds ++ ['\x7d']))) rest) := by
  have brace : unicode c = codePoint (c.moveTo 1 (ds ++ '\x7d' :: rest)) := by
    rw [unicode, hc]
    rfl
  rw [brace, codePoint_of_digits hds h rfl, Cursor.moveTo_moveTo, bytes_cons, Nat.add_comm]
  rfl

end Escape

/-! ## Escapes -/

namespace Quoted

/-- The escape behind a backslash reads as the text, is not marked, and ends before the rest. -/
def Decodes (form text rest : List Char) : Prop :=
  ∀ c : Cursor, c.rest = form ++ rest → ∃ d, readEscape c = .ok (text, false, d) ∧ c.Across form d

theorem across_moveTo (hc : c.rest = form ++ rest) : c.Across form (c.moveTo (bytes form) rest) := .moveTo hc rfl

theorem decodes_control {letter : Char} (h : (letter, ch) ∈ controlLetters) : Decodes [letter] [ch] rest := by
  intro c hc
  refine ⟨c.pass letter rest, ?_, .pass hc⟩
  simp only [readEscape, hc, List.singleton_append]
  simp only [controlLetters, List.mem_cons, Prod.mk.injEq, List.not_mem_nil, or_false] at h
  rcases h with ⟨rfl, rfl⟩ | ⟨rfl, rfl⟩ | ⟨rfl, rfl⟩ | ⟨rfl, rfl⟩ | ⟨rfl, rfl⟩ | ⟨rfl, rfl⟩ <;> rfl

theorem isOctalDigit_eq_false (h : isDecimalDigit ch = false) : isOctalDigit ch = false := by
  rw [← Bool.not_eq_true] at h ⊢
  simp only [isDecimalDigit, isOctalDigit, Bool.and_eq_true, decide_eq_true_eq] at h ⊢
  exact fun octal => h ⟨octal.1, Char.le_trans octal.2 (by decide)⟩

theorem decodes_escaped (hdigit : isDecimalDigit ch = false) (hletter : ch ∉ escapeLetters)
    (hline : isLineTerminator ch = false) :
    Decodes [ch] [ch] rest := by
  intro c hc
  refine ⟨c.pass ch rest, ?_, .pass hc⟩
  simp only [escapeLetters, List.mem_cons, List.not_mem_nil, or_false, not_or] at hletter
  have control : Escape.control? ch = none := by
    unfold Escape.control?
    split <;> simp_all
  simp [readEscape, hc, hline, control, hletter, isOctalDigit_eq_false hdigit, hdigit]

theorem decodes_byte (hds : ds.length = 2) (h : HexFor ch.toNat ds) : Decodes ('x' :: ds) [ch] rest := by
  intro c hc
  have next : (c.pass 'x' (ds ++ rest)).rest = ds ++ rest := rfl
  refine ⟨(c.pass 'x' (ds ++ rest)).moveTo (bytes ds) rest, ?_, (Across.pass hc).trans (across_moveTo next)⟩
  simp only [readEscape, hc, List.cons_append]
  rw [Escape.byte_of_digits hds h next]
  rfl

theorem decodes_unicode (h : ∀ c : Cursor, c.rest = form ++ rest →
    Escape.unicode c = (some ch, c.moveTo (bytes form) rest)) :
    Decodes ('u' :: form) [ch] rest := by
  intro c hc
  have next : (c.pass 'u' (form ++ rest)).rest = form ++ rest := rfl
  refine ⟨(c.pass 'u' (form ++ rest)).moveTo (bytes form) rest, ?_, (Across.pass hc).trans (across_moveTo next)⟩
  simp only [readEscape, hc, List.cons_append]
  rw [h _ next]
  rfl

/-- A backslash before the end of a line, and that end. -/
theorem decodes_lineEnd (h : form ∈ lineEnds) (hrest : rest.head? ≠ some '\n') : Decodes form [] rest := by
  have single {ch : Char} (hch : isLineTerminator ch = true) : Decodes [ch] [] rest := by
    intro c hc
    have apart : ¬ (ch = '\r' ∧ rest.head? = some '\n') := fun h => hrest h.2
    refine ⟨c.passLine ch rest, ?_, ?_⟩
    · simp only [readEscape, hc, List.singleton_append, hch, if_true]
      rfl
    · rw [Cursor.passLine_eq apart]
      exact ⟨hc, rfl⟩
  simp only [lineEnds, List.mem_cons, List.not_mem_nil, or_false] at h
  rcases h with rfl | rfl | rfl | rfl | rfl
  · exact single rfl
  · exact single rfl
  · exact fun c hc => ⟨_, by simp only [readEscape, hc, List.cons_append]; rfl, ⟨hc, rfl⟩⟩
  · exact single rfl
  · exact single rfl

/-- What a backslash begins is read, and reading goes on. -/
theorem readFrom_escape {text : List Char} (h : Decodes form text rest) (hquote : quote ≠ '\\')
    (hc : c.rest = '\\' :: (form ++ rest))
    (read : List Char) : ∃ d, readFrom quote read false c = readFrom quote (text.reverse ++ read) false d ∧
      c.Across ('\\' :: form) d := by
  obtain ⟨d, hd, across⟩ := h (c.pass '\\' (form ++ rest)) rfl
  refine ⟨d, ?_, (Across.pass hc).trans across⟩
  rw [readFrom_cons hc, if_neg (by simpa using hquote.symm), if_pos (beq_self_eq_true _), hd]
  rfl

theorem readFrom_form (h : Encodes quote ch form) (hquote : quote ≠ '\\') (hc : c.rest = form ++ rest)
    (read : List Char) :
    ∃ d, readFrom quote read false c = readFrom quote (ch :: read) false d ∧ c.Across form d := by
  cases h with
  | itself hq hs hline =>
    refine ⟨c.pass ch rest, ?_, .pass hc⟩
    rw [readFrom_cons hc, if_neg (by simpa using hq), if_neg (by simpa using hs), hline]
    rfl
  | control h => exact readFrom_escape (decodes_control h) hquote hc read
  | escaped hdigit hletter hline => exact readFrom_escape (decodes_escaped hdigit hletter hline) hquote hc read
  | byte hds h => exact readFrom_escape (decodes_byte hds h) hquote hc read
  | unit hds h => exact readFrom_escape (decodes_unicode fun _ => Escape.unicode_of_digits hds h) hquote hc read
  | pair hds first hes second hlow hch =>
    refine readFrom_escape (decodes_unicode fun e he => ?_) hquote hc read
    exact Escape.unicode_of_pair hds first hes second hlow hch (by simpa using he)
  | point hds h =>
    refine readFrom_escape (decodes_unicode fun e he => ?_) hquote hc read
    exact Escape.unicode_of_point hds h (by simpa using he)

/-- No line feed begins what is written, so the end of a line takes none with it. -/
theorem head?_ne_lineFeed (h : Writes quote value body) (hquote : quote ≠ '\n') :
    (body ++ quote :: rest).head? ≠ some '\n' := by
  cases h with
  | nil => simpa using hquote
  | char hform _ =>
    cases hform with
    | itself _ _ hline =>
      simp only [List.cons_append, List.nil_append, List.head?_cons, ne_eq, Option.some.injEq]
      rintro rfl
      cases hline
    | _ => simp
  | continuation => simp

/-- The whole body is read, and the quote behind it. -/
theorem readFrom_written (h : Writes quote value body) (hquote : quote = '\'' ∨ quote = '"')
    (hc : c.rest = body ++ quote :: rest)
    (read : List Char) : ∃ d, readFrom quote read false c =
      .ok (.inl (⟨String.ofList (read.reverse ++ value), false⟩, d)) ∧
      c.Across (body ++ [quote]) d := by
  have noSlash : quote ≠ '\\' := by rcases hquote with rfl | rfl <;> decide
  have noFeed : quote ≠ '\n' := by rcases hquote with rfl | rfl <;> decide
  induction h generalizing c read with
  | nil =>
    refine ⟨c.pass quote rest, ?_, .pass hc⟩
    rw [readFrom_cons hc, if_pos (by simp), List.append_nil]
  | @char ch form value body hform _ ih =>
    rw [List.append_assoc] at hc
    obtain ⟨e, hstep, across⟩ := readFrom_form hform noSlash hc read
    obtain ⟨d, hd, behind⟩ := ih (List.append_cancel_left (across.rest.symm.trans hc)) (ch :: read)
    exact ⟨d, by rw [hstep, hd]; simp, by simpa using across.trans behind⟩
  | @continuation lineEnd value body hend hbody ih =>
    rw [List.cons_append, List.append_assoc] at hc
    obtain ⟨e, hstep, across⟩ := readFrom_escape (decodes_lineEnd hend (head?_ne_lineFeed hbody noFeed)) noSlash hc read
    obtain ⟨d, hd, behind⟩ := ih (List.append_cancel_left (across.rest.symm.trans hc)) read
    exact ⟨d, hstep.trans hd, by simpa using across.trans behind⟩

end Quoted

/-- A string literal reads as the string that it writes, whichever way it does: it ends right behind its closing
quote, whatever stands there, and is in no form that strict code forbids. -/
theorem token_of_written {s : Scanner} {quote : Char} {value : String} {body rest : List Char}
    (hquote : quote = '\'' ∨ quote = '"')
    (h : Writes quote value.toList body) (hrest : s.cursor.rest = quote :: (body ++ quote :: rest)) :
    ∃ line lineStart, let stop := s.cursor.offset + bytes (quote :: body ++ [quote])
      Scan.token s = .ok
        ⟨.string value false, String.ofList (quote :: body ++ [quote]), ⟨s.cursor.offset, stop⟩, line, lineStart⟩
        { s with cursor := ⟨stop, line, lineStart, rest⟩ } := by
  obtain ⟨d, hread, behind⟩ := Quoted.readFrom_written h hquote
    (c := s.cursor.pass quote (body ++ quote :: rest)) rfl []
  have across : s.cursor.Across (quote :: body ++ [quote]) d := (Across.pass hrest).trans behind
  have left : d.rest = rest := List.append_cancel_left (across.rest.symm.trans (by simpa using hrest))
  have run : Scan.token s = .ok (Scan.tokenBetween s.cursor d (.string value false)) { s with cursor := d } := by
    rw [Scan.token_of_quote hrest hquote, Scan.quoted, Quoted.read, hrest]
    simp only [hread, List.reverse_nil, List.nil_append, String.ofList_toList]
    rfl
  refine ⟨d.line, d.lineStart, ?_⟩
  simp only [run, Scan.tokenBetween, across.textUntil, ← across.offset, ← left]

/-- Seven characters in as many forms, with the end of a line between them, before another quote. -/
theorem token_of_written_mixed : ∃ line lineStart,
    Scan.token (.start "\"a\\n\\'\\x41\\\r\n\\u00e9\\ud83D\\uDe00\\u\x7b0001f600\x7d\"\"" false .script) = .ok
      ⟨.string "a\n'Aé😀😀" false, "\"a\\n\\'\\x41\\\r\n\\u00e9\\ud83D\\uDe00\\u\x7b0001f600\x7d\"", ⟨0, 44⟩,
        line, lineStart⟩
      { Scanner.start "\"a\\n\\'\\x41\\\r\n\\u00e9\\ud83D\\uDe00\\u\x7b0001f600\x7d\"\"" false .script with
        cursor := ⟨44, line, lineStart, ['"']⟩ } := by
  have value : "a\n'Aé😀😀".toList = ['a', '\n', '\'', 'A', 'é', '😀', '😀'] := by decide +kernel
  have itself : Encodes '"' 'a' ['a'] := .itself (by decide) (by decide) rfl
  have control : Encodes '"' '\n' ['\\', 'n'] := .control (by decide)
  have escaped : Encodes '"' '\'' ['\\', '\''] := .escaped rfl (by decide) rfl
  have byte : Encodes '"' 'A' ['\\', 'x', '4', '1'] := .byte rfl ⟨List.all_eq_true.1 rfl, by decide⟩
  have unit : Encodes '"' 'é' ['\\', 'u', '0', '0', 'e', '9'] := .unit rfl ⟨List.all_eq_true.1 rfl, by decide⟩
  have high : HexFor (0xD800 + 0x3D) ['d', '8', '3', 'D'] := ⟨List.all_eq_true.1 rfl, by decide⟩
  have low : HexFor (0xDC00 + 0x200) ['D', 'e', '0', '0'] := ⟨List.all_eq_true.1 rfl, by decide⟩
  have pair : Encodes '"' '😀' _ := .pair rfl high rfl low (by decide) (by decide)
  have code : HexFor ('😀' : Char).toNat ['0', '0', '0', '1', 'f', '6', '0', '0'] := ⟨List.all_eq_true.1 rfl, by decide⟩
  have written := (Writes.char itself <| .char control <| .char escaped <| .char byte <|
    .continuation (show ['\r', '\n'] ∈ lineEnds by decide) <| .char unit <| .char pair <|
      .char (.point (by decide) code) .nil)
  rw [← value] at written
  exact @token_of_written
    (.start "\"a\\n\\'\\x41\\\r\n\\u00e9\\ud83D\\uDe00\\u\x7b0001f600\x7d\"\"" false .script) '"' _ _ ['"']
      (.inr rfl) written
    (by decide +kernel)

end EcmaTree
