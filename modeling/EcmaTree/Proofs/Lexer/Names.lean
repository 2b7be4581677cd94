import EcmaTree.Proofs.Lexer.Encodings
import EcmaTree.Proofs.RoundTrip.Spelling

/-!
# The characters of names

A name may be written with its characters as they are or with escapes. Every character but one kind has to be one that
may stand where it stands, an escape or not: a code point in braces is not asked what it is, so it may put any
character into an identifier. Keywords are words whatever they are written with.
-/

namespace EcmaTree

open Cursor (Across)

/-! ## Escapes backwards -/

namespace Escape

variable {c d : Cursor} {ch : Char} {number digits : Nat}

/-- The form, behind `\u`, writes the character in code units of four digits each. -/
inductive WritesUnits (ch : Char) : List Char → Prop
  | single {ds : List Char} : ds.length = 4 → HexFor ch.toNat ds → WritesUnits ch ds
  /-- The two halves of a surrogate pair. -/
  | pair {high low : Nat} {ds es : List Char} : ds.length = 4 → HexFor (0xD800 + high) ds → es.length = 4 →
      HexFor (0xDC00 + low) es → low < 0x400 → ch.toNat = 0x10000 + high * 0x400 + low →
        WritesUnits ch (ds ++ '\\' :: 'u' :: es)

/-- The form, behind `\u`, writes a code point in braces. A surrogate is written as well, but stands for no character.
-/
inductive WritesPoint : Char → List Char → Prop
  | point {code : Nat} {ds : List Char} : ds ≠ [] → HexFor code ds → code ≤ 0x10FFFF →
      WritesPoint (ofCode code) ('\x7b' :: (ds ++ ['\x7d']))

theorem hexFor_of_hexDigits (h : hexDigits digits 0 c = (some number, d)) :
    ∃ ds, ds.length = digits ∧ HexFor number ds ∧ c.Across ds d := by
  rw [hexDigits_eq] at h
  split at h
  next henough =>
    cases h
    refine ⟨(digitsOf c.rest).take digits, List.length_take_of_le henough,
      ⟨fun ch hch => isHexDigit_of_mem (List.mem_of_mem_take hch), rfl⟩, ?_⟩
    rw [Nat.min_eq_left henough]
    exact across_skip henough
  · cases h

theorem toNat_ofCode {code : Nat} (h : code.isValidChar) : (ofCode code).toNat = code := by
  rw [ofCode, if_pos h, Char.ofNat, dif_pos h]
  rfl

/-- What is read as a character is written so, or it stands in for a lone surrogate. -/
theorem writesUnits_of_unit (h : unit c = (some ch, d)) :
    ch = replacement ∨ ∃ form, WritesUnits ch form ∧ c.Across form d := by
  have single {code : Nat} {e : Cursor} {ds : List Char} (hds : ds.length = 4) (hex : HexFor code ds)
      (across : c.Across ds e) :
      ofCode code = replacement ∨ ∃ form, WritesUnits (ofCode code) form ∧ c.Across form e := by
    by_cases valid : code.isValidChar
    · exact .inr ⟨ds, .single hds (by rwa [toNat_ofCode valid]), across⟩
    · exact .inl (if_neg valid)
  unfold unit at h
  split at h
  · cases h
  next code e he =>
    obtain ⟨ds, hds, hex, across⟩ := hexFor_of_hexDigits he
    split at h
    next rest hhigh hrest =>
      split at h
      next low f hf =>
        obtain ⟨es, hes, hex', across'⟩ := hexFor_of_hexDigits hf
        have escape : e.Across ['\\', 'u'] (e.moveTo 2 rest) := .moveTo hrest rfl
        simp only [isHighSurrogate, Bool.and_eq_true, decide_eq_true_eq] at hhigh
        split at h
        next hlow =>
          simp only [Prod.mk.injEq, Option.some.injEq] at h
          obtain ⟨rfl, rfl⟩ := h
          simp only [isLowSurrogate, Bool.and_eq_true, decide_eq_true_eq] at hlow
          have valid : (0x10000 + (code - 0xD800) * 0x400 + (low - 0xDC00)).isValidChar := .inr ⟨by omega, by omega⟩
          refine .inr ⟨ds ++ '\\' :: 'u' :: es, .pair hds ?_ hes ?_ ?_ (toNat_ofCode valid),
            across.trans (escape.trans across')⟩
          · rwa [show 0xD800 + (code - 0xD800) = code by omega]
          · rwa [show 0xDC00 + (low - 0xDC00) = low by omega]
          · omega
        · cases h
          exact .inl rfl
      · cases h
        exact .inl rfl
    · cases h
      exact single hds hex across

theorem writesPoint_of_codePoint {rest : List Char} (hc : c.rest = '\x7b' :: rest)
    (h : codePoint (c.moveTo 1 rest) = (some ch, d)) :
    ∃ form, WritesPoint ch form ∧ c.Across form d := by
  have brace : c.Across ['\x7b'] (c.moveTo 1 rest) := .moveTo hc rfl
  unfold codePoint at h
  split at h
  · cases h
  next value count e he =>
    rcases codeDigits_eq 0 0 (c.moveTo 1 rest) with read | ⟨-, n, -, read⟩
    · cases he.symm.trans read
      split at h
      next behind hbehind =>
        split at h
        · cases h
        next hvalue =>
          cases h
          simp only [Nat.zero_add, Bool.or_eq_true, decide_eq_true_eq, not_or, Nat.not_lt] at hvalue
          have closing : Cursor.Across _ ['\x7d'] _ := .moveTo hbehind rfl
          have across := brace.trans ((across_skip (Nat.le_refl _)).trans closing)
          rw [List.take_length] at across
          exact ⟨_, .point (fun h => hvalue.1 (by simp [h])) ⟨fun ch hch => isHexDigit_of_mem hch,
            rfl⟩ hvalue.2, across⟩
      · cases h
    · cases he.symm.trans read

end Escape

/-! ## Names -/

namespace Word

variable {accepts : Char → Bool} {ch : Char} {c d : Cursor} {cs : List Char}

/-- The form writes the character where a name accepts such characters. -/
inductive WritesChar (accepts : Char → Bool) : Char → List Char → Prop
  | itself {ch : Char} : accepts ch = true → WritesChar accepts ch [ch]
  | units {ch : Char} {form : List Char} : accepts ch = true → Escape.WritesUnits ch form →
      WritesChar accepts ch ('\\' :: 'u' :: form)
  /-- Nobody asks whether the character is accepted. -/
  | point {ch : Char} {form : List Char} : Escape.WritesPoint ch form → WritesChar accepts ch ('\\' :: 'u' :: form)

/-- The text writes the name, which has one character at least. -/
def Writes (name written : List Char) : Prop :=
  ∃ first others form forms, name = first :: others ∧ written = form ++ forms.flatten ∧
    WritesChar isIdentifierStart first form ∧ List.Forall₂ (WritesChar isIdentifierPart) others forms

/-- The name begins with a character that may begin one, and all others may stand in one. -/
def IsName : List Char → Prop
  | [] => False
  | first :: others => isIdentifierStart first = true ∧ ∀ ch ∈ others, isIdentifierPart ch = true

instance decidableIsName : DecidablePred IsName
  | [] => .isFalse id
  | first :: others => decidable_of_iff (isIdentifierStart first && others.all isIdentifierPart) (by simp [IsName])

theorem WritesChar.accepted {form : List Char} (h : WritesChar accepts ch form) (hform : '\x7b' ∉ form) :
    accepts ch = true := by
  cases h with
  | itself h => exact h
  | units h => exact h
  | point h =>
    cases h
    simp at hform

/-- Only code points in braces may put characters into a name that are none of a name. -/
theorem Writes.isName {written : List Char} (h : Writes cs written) (hwritten : '\x7b' ∉ written) : IsName cs := by
  obtain ⟨first, others, form, forms, rfl, rfl, hfirst, hothers⟩ := h
  rw [List.mem_append, not_or] at hwritten
  refine ⟨hfirst.accepted hwritten.1, ?_⟩
  obtain ⟨-, hwritten⟩ := hwritten
  induction hothers with
  | nil => exact List.forall_mem_nil _
  | cons h _ ih =>
    rw [List.flatten_cons, List.mem_append, not_or] at hwritten
    exact List.forall_mem_cons.2 ⟨h.accepted hwritten.1, ih hwritten.2⟩

theorem writesChar_of_escaped {rest : List Char} (hc : c.rest = '\\' :: rest)
    (hreplacement : accepts Escape.replacement = false)
    (h : escaped accepts (c.moveTo 1 rest) = .ok (ch, d)) : ∃ form, WritesChar accepts ch form ∧ c.Across form d := by
  have backslash : c.Across ['\\'] (c.moveTo 1 rest) := .moveTo hc rfl
  unfold escaped at h
  split at h
  next behind hbehind =>
    have letter : (c.moveTo 1 rest).Across ['u'] ((c.moveTo 1 rest).moveTo 1 ('\x7b' :: behind)) := .moveTo hbehind rfl
    split at h
    next found stop hpoint =>
      cases h
      obtain ⟨form, writes, across⟩ :=
        Escape.writesPoint_of_codePoint (c := (c.moveTo 1 rest).moveTo 1 ('\x7b' :: behind)) rfl
        ((congrArg _ (Cursor.moveTo_moveTo ..)).trans hpoint)
      exact ⟨_, .point writes, backslash.trans (letter.trans across)⟩
    · cases h
  next behind _ hbehind =>
    have letter : (c.moveTo 1 rest).Across ['u'] ((c.moveTo 1 rest).moveTo 1 behind) := .moveTo hbehind rfl
    split at h
    next found stop hunit =>
      split at h
      next haccepts =>
        cases h
        rw [Bool.and_eq_true] at haccepts
        obtain rfl | ⟨form, writes, across⟩ := Escape.writesUnits_of_unit hunit
        · exact absurd haccepts.2 (Bool.eq_false_iff.1 hreplacement)
        · exact ⟨_, .units haccepts.2 writes, backslash.trans (letter.trans across)⟩
      · cases h
    · cases h
  · cases h

theorem writes_of_readFrom {read : List Char} (h : readFrom read c = .ok (cs, d)) :
    ∃ others forms, cs = read.reverse ++ others ∧ List.Forall₂ (WritesChar isIdentifierPart) others forms ∧
      c.Across forms.flatten d := by
  fun_induction readFrom read c with
  | case1 read c hc | case5 read c ch rest _ hc _ =>
    cases h
    exact ⟨[], [], (List.append_nil _).symm, .nil, .refl _⟩
  | case2 read c rest hc ch e he ih =>
    obtain ⟨form, writes, across⟩ := writesChar_of_escaped hc (by decide +kernel) he
    obtain ⟨others, forms, rfl, hothers, across'⟩ := ih h
    exact ⟨ch :: others, form :: forms, by simp, .cons writes hothers, across.trans across'⟩
  | case3 => cases h
  | case4 read c ch rest _ hc hpart ih =>
    obtain ⟨others, forms, rfl, hothers, across⟩ := ih h
    exact ⟨ch :: others, [ch] :: forms, by simp, .cons (.itself hpart) hothers, (Across.pass hc).trans across⟩

theorem writes_of_read (hc : ∃ ch rest, c.rest = ch :: rest ∧ (isIdentifierStart ch || ch == '\\') = true)
    (h : read c = .ok (cs, d)) :
    ∃ written, Writes cs written ∧ c.Across written d := by
  obtain ⟨first, behind, hc, hfirst⟩ := hc
  unfold read at h
  split at h
  · cases h
  next rest hrest =>
    split at h
    next ch e he =>
      obtain ⟨form, writes, across⟩ := writesChar_of_escaped hrest (by decide +kernel) he
      obtain ⟨others, forms, rfl, hothers, across'⟩ := writes_of_readFrom h
      exact ⟨_, ⟨ch, others, form, forms, rfl, rfl, writes, hothers⟩, across.trans across'⟩
    · cases h
  next ch rest hslash hrest =>
    obtain ⟨rfl, rfl⟩ := List.cons.inj (hc.symm.trans hrest)
    obtain ⟨others, forms, rfl, hothers, across⟩ := writes_of_readFrom h
    have start : isIdentifierStart first = true := by
      rw [Bool.or_eq_true, beq_iff_eq] at hfirst
      exact hfirst.resolve_right hslash
    exact ⟨_, ⟨first, others, [first], forms, rfl, rfl, .itself start, hothers⟩, (Across.pass hrest).trans across⟩

/-- The keywords are names. -/
theorem isName_of_classify {name keyword : String} (h : classify name = .keyword keyword) : IsName name.toList := by
  -- An escape may spell a keyword in part, but what it spells is in the list.
  have all : ∀ word ∈ keywords, IsName word.toList := by decide +kernel
  unfold classify at h
  split at h
  · cases h
  split at h
  next hname => exact all name (List.contains_iff_mem.1 hname)
  all_goals
    repeat' split at h
    all_goals cases h

end Word

/-- What a token that is an identifier or a keyword has as its name is written in the source. The name of a keyword
begins with a character that may begin a name, and all its others may stand in one; and so it is with an identifier,
unless a code point in braces has been written into it. -/
theorem words_are_names {s s' : Scanner} {t : Token} {name : String} (h : Scan.token s = .ok t s')
    (ht : t.lexeme = .identifier name ∨ t.lexeme = .keyword name) :
    Word.Writes name.toList t.raw.toList ∧
      (t.lexeme = .keyword name ∨ '\x7b' ∉ t.raw.toList → Word.IsName name.toList) := by
  have isWord : t.lexeme.isWord = true := by rcases ht with ht | ht <;> rw [ht] <;> rfl
  obtain ⟨characters, begins, hread, hlexeme, -⟩ := Scan.word_of_token h isWord
  have spelled : name = String.ofList characters := by
    have text := (Word.isName_classify hlexeme.symm).2
    rcases ht with ht | ht <;> simpa [Token.text, ht] using text
  obtain ⟨written, writes, across⟩ := Word.writes_of_read begins hread
  have raw : t.raw = String.ofList written := by
    rw [(Scan.token_lexed h).eq]
    exact across.textUntil
  rw [raw, spelled, String.toList_ofList, String.toList_ofList]
  refine ⟨writes, fun hname => ?_⟩
  rcases hname with hkeyword | hbrace
  · rw [← String.toList_ofList (l := characters)]
    exact Word.isName_of_classify (hlexeme.trans hkeyword)
  · exact writes.isName hbrace

/-- A letter, an escape, and two escapes that are one letter. -/
theorem words_are_names_escaped : ∃ t s', Scan.token (.start "a\\u0062\\ud835\\udc00+" false .script) = .ok t s' ∧
    t.lexeme = .identifier "ab𝐀" ∧ Word.Writes "ab𝐀".toList t.raw.toList ∧ Word.IsName "ab𝐀".toList := by
  have run : ((Scan.token.run' (.start "a\\u0062\\ud835\\udc00+" false .script)).any
      fun t => t.isIdentifierNamed "ab𝐀" && decide ('\x7b' ∉ t.raw.toList)) = true := by decide +kernel
  obtain ⟨t, ht, written⟩ := (Option.any_eq_true ..).1 run
  obtain ⟨s', htoken⟩ := eq_ok_of_run' ht
  obtain ⟨hname, hbrace⟩ := Bool.and_eq_true_iff.1 written
  have lexeme := Token.isIdentifierNamed_iff.1 hname
  obtain ⟨writes, isName⟩ := words_are_names htoken (.inl lexeme)
  exact ⟨t, s', htoken, lexeme, writes, isName (.inr (of_decide_eq_true hbrace))⟩

/-- A space in braces is an identifier. -/
theorem space_is_identifier : ∃ t s', Scan.token (.start "\\u\x7b20\x7d" false .script) = .ok t s' ∧
    t.lexeme = .identifier " " ∧ ¬ Word.IsName " ".toList := by
  have run : ((Scan.token.run' (.start "\\u\x7b20\x7d" false .script)).any (·.isIdentifierNamed " ")) = true := by
    decide +kernel
  obtain ⟨t, ht, hname⟩ := (Option.any_eq_true ..).1 run
  obtain ⟨s', htoken⟩ := eq_ok_of_run' ht
  exact ⟨t, s', htoken, Token.isIdentifierNamed_iff.1 hname, by decide +kernel⟩

end EcmaTree
