import EcmaTree.Proofs.Lexer.Reports

/-!
# Where chunks of templates end

A chunk ends at the first backquote or `${` that no backslash takes with it. The readers of escapes may take more than
one character, also of an escape that turns out to be invalid, and behind the first invalid escape a backslash takes
one character only. Neither makes a difference: what a reader takes is digits, braces and escapes that stand for
themselves, so no closing is lost in it and none is made up. A chunk without a closing is the only one that is not
read.
-/

namespace EcmaTree

open Cursor (Across)

namespace Template

/-- The text before the first closing, the closing, and what follows it. From left to right, a backslash takes the next
character with it. -/
def split : List Char → Option (List Char × Closing × List Char)
  | [] => none
  | '\x60' :: rest => some ([], .backquote, rest)
  | '$' :: '\x7b' :: rest => some ([], .substitution, rest)
  | '\\' :: ch :: rest => (split rest).map fun (text, behind) => ('\\' :: ch :: text, behind)
  | ch :: rest => (split rest).map fun (text, behind) => (ch :: text, behind)

/-- An escape in the text of a chunk: the character behind the backslash, and the text behind that. -/
structure Escaped where
  head : Char
  behind : List Char

/-- The escapes in the text of a chunk. -/
def escapes : List Char → List Escaped
  | '\\' :: ch :: rest => ⟨ch, rest⟩ :: escapes rest
  | _ :: rest => escapes rest
  | [] => []

/-- Does the text begin with the code of a character between braces? -/
def isCodePoint (cs : List Char) : Bool :=
  let ds := Escape.digitsOf cs
  !ds.isEmpty && Escape.hexNumber 0 ds ≤ 0x10FFFF && (cs.drop ds.length).head? == some '\x7d'

/-- Does the text begin with what may follow `\u`, that is four digits or a code between braces? -/
def isUnicode : List Char → Bool
  | '\x7b' :: cs => isCodePoint cs
  | cs => 4 ≤ (Escape.digitsOf cs).length

/-- Is the escape valid? A zero with no digit behind it is, and other digits are not. -/
def Escaped.isValid (e : Escaped) : Bool :=
  if e.head == 'u' then isUnicode e.behind
  else if e.head == 'x' then 2 ≤ (Escape.digitsOf e.behind).length
  else if e.head == '0' then !e.behind.head?.any isDecimalDigit
  else !isDecimalDigit e.head

/-- The character behind the backslash of the first invalid escape. -/
def firstInvalid (text : List Char) : Option Char := ((escapes text).find? (!·.isValid)).map (·.head)

variable {p q : Progress} {c d : Cursor} {ch : Char} {cs text rest taken : List Char}
  {closing : Closing} {bad : Option Char}

/-! ## The text before a closing -/

theorem eq_of_split (h : split cs = some (text, closing, rest)) : cs = text ++ closing.spelling ++ rest := by
  fun_induction split cs generalizing text with
  | case1 => cases h
  | case2 | case3 => cases h; rfl
  | case4 ch more ih =>
    obtain ⟨⟨inner, behind⟩, hmore, he⟩ := Option.map_eq_some_iff.1 h
    cases he
    simp [ih hmore]
  | case5 ch more _ _ _ ih =>
    obtain ⟨⟨inner, behind⟩, hmore, he⟩ := Option.map_eq_some_iff.1 h
    cases he
    simp [ih hmore]

/-! ### Escapes at a closing -/

/-- The characters that closings begin with are part of no escape. -/
def IsStop (ch : Char) : Prop := ch = '\x60' ∨ ch = '$'

theorem Closing.spelling_eq (closing : Closing) : ∃ stop more, closing.spelling = stop :: more ∧ IsStop stop := by
  cases closing with
  | backquote => exact ⟨_, _, rfl, .inl rfl⟩
  | substitution => exact ⟨_, _, rfl, .inr rfl⟩

section Stop

variable {stop : Char} {more : List Char}

theorem digitsOf_append_stop (h : IsStop stop) (text : List Char) :
    Escape.digitsOf (text ++ stop :: more) = Escape.digitsOf text := by
  have none : (stop :: more).takeWhile isHexDigit = [] := by
    rcases h with rfl | rfl <;> exact List.takeWhile_cons_of_neg (by decide)
  rw [Escape.digitsOf, Escape.digitsOf, List.takeWhile_append, none, List.append_nil]
  split
  next hall => exact ((List.takeWhile_prefix _).eq_of_length hall).symm
  · rfl

theorem isCodePoint_append_stop (h : IsStop stop) (text : List Char) :
    isCodePoint (text ++ stop :: more) = isCodePoint text := by
  have short : (Escape.digitsOf text).length ≤ text.length := (List.takeWhile_prefix _).length_le
  have brace : (((text ++ stop :: more).drop (Escape.digitsOf text).length).head? == some '\x7d') =
      ((text.drop (Escape.digitsOf text).length).head? == some '\x7d') := by
    rw [List.drop_append_of_le_length short]
    cases text.drop (Escape.digitsOf text).length with
    | nil => rcases h with rfl | rfl <;> rfl
    | cons => rfl
  simp only [isCodePoint, digitsOf_append_stop h, brace]

theorem isUnicode_of_ne (h : ch ≠ '\x7b') (cs : List Char) :
    isUnicode (ch :: cs) = decide (4 ≤ (Escape.digitsOf (ch :: cs)).length) := by
  rw [isUnicode]
  exact fun more he => h (List.cons.inj he).1

theorem isUnicode_append_stop (h : IsStop stop) (text : List Char) :
    isUnicode (text ++ stop :: more) = isUnicode text := by
  cases text with
  | nil => rcases h with rfl | rfl <;> rfl
  | cons first text =>
    by_cases hbrace : first = '\x7b'
    · subst hbrace
      exact isCodePoint_append_stop h text
    · rw [List.cons_append, isUnicode_of_ne hbrace, isUnicode_of_ne hbrace, ← List.cons_append, digitsOf_append_stop h]

theorem isValid_append_stop (h : IsStop stop) (ch : Char) (text : List Char) :
    (Escaped.mk ch (text ++ stop :: more)).isValid = (Escaped.mk ch text).isValid := by
  have digit : (text ++ stop :: more).head?.any isDecimalDigit = text.head?.any isDecimalDigit := by
    cases text with
    | nil => rcases h with rfl | rfl <;> rfl
    | cons => rfl
  simp only [Escaped.isValid, isUnicode_append_stop h, digitsOf_append_stop h, digit]

end Stop

/-- Whether an escape of a chunk is valid does not depend on what follows the chunk. -/
theorem isValid_of_split (h : split rest = some (text, closing, cs)) (ch : Char) :
    (Escaped.mk ch rest).isValid = (Escaped.mk ch text).isValid := by
  obtain ⟨stop, more, spelling, hstop⟩ := closing.spelling_eq
  rw [eq_of_split h, spelling, List.append_assoc, List.cons_append]
  exact isValid_append_stop hstop ch text

/-! ### Skimming -/

/-- What is taken before the rest holds no closing and no part of one, and `bad` is the first invalid escape in it. -/
structure Skims (taken rest : List Char) (bad : Option Char) : Prop where
  split : split (taken ++ rest) = (split rest).map fun (text, behind) => (taken ++ text, behind)
  invalid {text cs : List Char} {closing : Closing} : Template.split rest = some (text, closing, cs) →
    firstInvalid (taken ++ text) = bad.or (firstInvalid text)

namespace Skims

theorem nil : Skims [] rest none where
  split := by simp
  invalid _ := rfl

theorem trans {taken' : List Char} {bad' : Option Char} (h : Skims taken (taken' ++ rest) bad)
    (h' : Skims taken' rest bad') :
    Skims (taken ++ taken') rest (bad.or bad') where
  split := by
    rw [List.append_assoc, h.split, h'.split, Option.map_map]
    simp [Function.comp_def]
  invalid htext := by
    rw [List.append_assoc, h.invalid (by rw [h'.split, htext]; rfl), h'.invalid htext, Option.or_assoc]

/-- One character, unless a closing or an escape begins there. -/
theorem char (hquote : ch ≠ '\x60') (hslash : ch ≠ '\\') (hdollar : ∀ more, ch = '$' → rest = '\x7b' :: more → False) :
    Skims [ch] rest none where
  split := by
    rw [List.singleton_append, Template.split]
    · rfl
    · exact hquote
    · exact hdollar
    · rintro next more rfl rfl
      exact hslash rfl
  invalid {text _ _} _ := by
    rw [List.singleton_append, firstInvalid, escapes]
    · rfl
    · rintro next more rfl rfl
      exact hslash rfl

/-- An escape before what it reads. -/
theorem escape (ch : Char) (rest : List Char) :
    Skims ['\\', ch] rest (if (Escaped.mk ch rest).isValid then none else some ch) where
  split := by
    rw [List.cons_append, List.cons_append, List.nil_append, Template.split]
    rfl
  invalid {text _ _} htext := by
    rw [List.cons_append, List.cons_append, List.nil_append, firstInvalid, escapes,
      List.find?_cons, isValid_of_split htext]
    cases (Escaped.mk ch text).isValid <;> rfl

/-- A backslash at the end of the source takes nothing. -/
theorem slash : Skims ['\\'] [] none where
  split := rfl
  invalid h := by cases h

/-- Digits and braces. -/
theorem plain (h : ∀ ch ∈ taken, ch = '\x7b' ∨ ch = '\x7d' ∨ isHexDigit ch = true) : Skims taken rest none := by
  induction taken with
  | nil => exact nil
  | cons ch taken ih =>
    obtain ⟨first, others⟩ := List.forall_mem_cons.1 h
    have no {x : Char} (hx : isHexDigit x = false) (hopen : x ≠ '\x7b') (hclose : x ≠ '\x7d') : ch ≠ x := by
      rintro rfl
      simp [hx, hopen, hclose] at first
    exact (char (no rfl (by decide) (by decide)) (no rfl (by decide) (by decide))
      fun _ hch => absurd hch (no rfl (by decide) (by decide))).trans (ih others)

theorem digits (h : ∀ ch ∈ taken, isHexDigit ch = true) : Skims taken rest none :=
  plain fun ch hch => .inr (.inr (h ch hch))

end Skims

/-! ## What the readers of escapes take -/

/-- What an escape reader takes is skimmed, and it finds a character in valid escapes. -/
def Reads (c : Cursor) (valid : Bool) (read : Option Char × Cursor) : Prop :=
  ∃ taken, c.Across taken read.2 ∧ Skims taken read.2.rest none ∧ read.1.isSome = valid

/-- Digits are read as far as asked for, or as far as there are any. -/
theorem across_hexDigits (digits : Nat) (c : Cursor) :
    ∃ taken, c.Across taken (Escape.hexDigits digits 0 c).2 ∧ (∀ ch ∈ taken, isHexDigit ch = true) ∧
      (Escape.hexDigits digits 0 c).1.isSome = decide (digits ≤ (Escape.digitsOf c.rest).length) := by
  rw [Escape.hexDigits_eq]
  refine ⟨_, Escape.across_skip (Nat.min_le_right ..),
    fun ch h => Escape.isHexDigit_of_mem (List.mem_of_mem_take h), ?_⟩
  split <;> simp [*]

theorem byte_reads (c : Cursor) : Reads c (2 ≤ (Escape.digitsOf c.rest).length) (Escape.byte c) := by
  obtain ⟨taken, across, digits, found⟩ := across_hexDigits 2 c
  have run : Escape.byte c = ((Escape.hexDigits 2 0 c).1.map Escape.ofCode, (Escape.hexDigits 2 0 c).2) := by
    unfold Escape.byte
    split <;> simp [*]
  rw [run]
  exact ⟨taken, across, .digits digits, by simpa using found⟩

theorem isUnicode_of_digits (h : 4 ≤ (Escape.digitsOf cs).length) : isUnicode cs = true := by
  cases cs with
  | nil => cases h
  | cons ch cs =>
    have hbrace : ch ≠ '\x7b' := by
      rintro rfl
      cases h
    rw [isUnicode_of_ne hbrace, decide_eq_true h]

theorem unit_reads (c : Cursor) : Reads c (4 ≤ (Escape.digitsOf c.rest).length) (Escape.unit c) := by
  obtain ⟨taken, across, digits, found⟩ := across_hexDigits 4 c
  have skims {rest : List Char} : Skims taken rest none := .digits digits
  unfold Escape.unit
  split
  next d he =>
    rw [he] at across found
    exact ⟨taken, across, skims, found⟩
  next code d he =>
    rw [he] at across found
    replace found : true = decide (4 ≤ (Escape.digitsOf c.rest).length) := found
    split
    next rest _ hrest =>
      obtain ⟨taken', across', digits', found'⟩ := across_hexDigits 4 (d.moveTo 2 rest)
      split
      next low e he' =>
        rw [he'] at across' found'
        split
        -- A second half has four digits, so it is a valid escape of its own and no invalid one is lost.
        · have valid : isUnicode (taken' ++ e.rest) = true :=
            isUnicode_of_digits (across'.rest ▸ of_decide_eq_true found'.symm)
          have second : Skims ['\\', 'u'] (taken' ++ e.rest) none :=
            by simpa [Escaped.isValid, valid] using Skims.escape 'u' (taken' ++ e.rest)
          exact ⟨taken ++ (['\\', 'u'] ++ taken'),
            across.trans ((Across.moveTo (l := ['\\', 'u']) hrest rfl).trans across'),
            skims.trans (second.trans (.digits digits')), found⟩
        · exact ⟨taken, across, skims, found⟩
      · exact ⟨taken, across, skims, found⟩
    · exact ⟨taken, across, skims, found⟩

theorem codePoint_reads (c : Cursor) : Reads c (isCodePoint c.rest) (Escape.codePoint c) := by
  have skims {n : Nat} {rest : List Char} : Skims ((Escape.digitsOf c.rest).take n) rest none :=
    .digits fun ch h => Escape.isHexDigit_of_mem (List.mem_of_mem_take h)
  rcases Escape.codeDigits_eq 0 0 c with read | ⟨large, n, hn, read⟩
  · have across := Escape.across_skip (Nat.le_refl (Escape.digitsOf c.rest).length)
    simp only [Escape.codePoint, read, isCodePoint]
    split
    next rest hrest =>
      have brace : (c.rest.drop (Escape.digitsOf c.rest).length).head? = some '\x7d' := congrArg List.head? hrest
      have close : Skims ['\x7d'] rest none := .plain (by simp)
      split
      next hbad => exact ⟨_, across, skims, by grind⟩
      next hgood => exact ⟨_, across.trans (.moveTo (l := ['\x7d']) hrest rfl), skims.trans close, by grind⟩
    next hno =>
      have brace : (c.rest.drop (Escape.digitsOf c.rest).length).head? ≠ some '\x7d' := fun h =>
        hno _ (List.head?_eq_some_iff.1 h).choose_spec
      exact ⟨_, across, skims, by grind⟩
  -- Reading may stop at any of the digits of a number that is too large, and the others are read as text.
  · have tooLarge : isCodePoint c.rest = false := by
      have limit : Escape.codeLimit = 0x100000000 := by decide
      have : ¬ Escape.hexNumber 0 (Escape.digitsOf c.rest) ≤ 0x10FFFF := by omega
      simp [isCodePoint, this]
    rw [tooLarge, Escape.codePoint, read]
    exact ⟨_, Escape.across_skip hn, skims, rfl⟩

theorem unicode_reads (c : Cursor) : Reads c (isUnicode c.rest) (Escape.unicode c) := by
  unfold Escape.unicode
  split
  next rest hc =>
    obtain ⟨taken, across, skims, found⟩ := codePoint_reads (c.moveTo 1 rest)
    have brace : Skims ['\x7b'] (taken ++ (Escape.codePoint (c.moveTo 1 rest)).2.rest) none := .plain (by simp)
    exact ⟨_, (Across.moveTo (l := ['\x7b']) hc rfl).trans across, brace.trans skims, by rw [hc]; exact found⟩
  next hno =>
    have unit : isUnicode c.rest = decide (4 ≤ (Escape.digitsOf c.rest).length) := by
      rw [isUnicode]
      exact hno
    exact unit ▸ unit_reads c

/-! ## What a chunk takes -/

theorem isValid_of_ne (hu : ch ≠ 'u') (hx : ch ≠ 'x') (hdigit : isDecimalDigit ch = false) :
    (Escaped.mk ch rest).isValid = true := by
  have zero : ch ≠ '0' := by
    rintro rfl
    cases hdigit
  simp [Escaped.isValid, hu, hx, zero, hdigit]

theorem isValid_of_isLineTerminator (h : isLineTerminator ch = true) : (Escaped.mk ch rest).isValid = true := by
  simp only [isLineTerminator, Bool.or_eq_true, beq_iff_eq] at h
  rcases h with ((rfl | rfl) | rfl) | rfl <;> exact isValid_of_ne (by decide) (by decide) rfl

theorem isValid_of_control {control : Char} (h : Escape.control? ch = some control) :
    (Escaped.mk ch rest).isValid = true := by
  unfold Escape.control? at h
  split at h
  case h_7 => cases h
  all_goals exact isValid_of_ne (by decide) (by decide) rfl

theorem decode_invalid (p : Progress) (head : Char) (found : Option Char) :
    (p.decode head found).invalid = if found.isSome then p.invalid else some head := by
  cases found <;> rfl

/-- A line feed behind a carriage return is taken with it. -/
theorem across_passLine (hc : c.rest = ch :: rest) (hch : isLineTerminator ch = true) :
    ∃ feed, rest = feed ++ (c.passLine ch rest).rest ∧ c.Across (ch :: feed) (c.passLine ch rest) ∧
      Skims feed (c.passLine ch rest).rest none := by
  by_cases hfeed : ch = '\r' ∧ rest.head? = some '\n'
  · obtain ⟨rfl, hhead⟩ := hfeed
    obtain ⟨rest, rfl⟩ := List.head?_eq_some_iff.1 hhead
    exact ⟨['\n'], rfl, ⟨hc, rfl⟩, .char (by decide) (by decide) nofun⟩
  · rw [Cursor.passLine_eq hfeed]
    exact ⟨[], rfl, ⟨hc, rfl⟩, .nil⟩

/-- From one cursor to the other, behind a backslash, an escape is skimmed, and noted if it is the first invalid one. -/
def SkimsEscape (p : Progress) (c : Cursor) (read : Progress × Cursor) : Prop :=
  ∃ taken bad, c.Across taken read.2 ∧ Skims ('\\' :: taken) read.2.rest bad ∧ read.1.invalid = p.invalid.or bad

namespace SkimsEscape

/-- Nothing behind the first character is taken. -/
theorem single (hc : c.rest = ch :: rest)
    (h : q.invalid = p.invalid.or (if (Escaped.mk ch rest).isValid then none else some ch)) :
    SkimsEscape p c (q, c.pass ch rest) :=
  ⟨[ch], _, .pass hc, .escape ch rest, h⟩

theorem of_valid (hc : c.rest = ch :: rest) (hvalid : (Escaped.mk ch rest).isValid = true) (h : q.invalid = p.invalid) :
    SkimsEscape p c (q, c.pass ch rest) :=
  single hc (by rw [h, if_pos hvalid, Option.or_none])

theorem of_invalid (hc : c.rest = ch :: rest) (hp : p.invalid = none) (hvalid : (Escaped.mk ch rest).isValid = false) :
    SkimsEscape p c (p.reject ch, c.pass ch rest) :=
  single hc (by rw [hp, hvalid]; rfl)

/-- A number is taken behind the first character. -/
theorem of_reads {found : Option Char × Cursor} (hc : c.rest = ch :: rest) (hp : p.invalid = none)
    (h : Reads (c.pass ch rest) (Escaped.mk ch rest).isValid found) :
      SkimsEscape p c (p.decode ch found.1, found.2) := by
  obtain ⟨taken, across, skims, hfound⟩ := h
  have left : rest = taken ++ found.2.rest := across.rest
  refine ⟨_, _, (Across.pass hc).trans across, (left ▸ Skims.escape ch rest).trans skims, ?_⟩
  rw [decode_invalid, hfound, hp, Option.or_none, Option.none_or, ← left]

theorem of_line (hc : c.rest = ch :: rest) (hch : isLineTerminator ch = true) :
    SkimsEscape p c (p, c.passLine ch rest) := by
  obtain ⟨feed, -, across, skims⟩ := across_passLine hc hch
  have escape := Skims.escape ch (feed ++ (c.passLine ch rest).rest)
  rw [if_pos (isValid_of_isLineTerminator hch)] at escape
  exact ⟨_, none, across, escape.trans skims, by simp⟩

end SkimsEscape

theorem readEscape_skims (p : Progress) (c : Cursor) : SkimsEscape p c (readEscape p c) := by
  unfold readEscape
  split
  next hc => exact ⟨[], none, .refl c, hc ▸ .slash, by simp⟩
  next ch rest hc =>
    dsimp only
    split
    next hline => exact .of_line hc hline
    split
    -- Behind an invalid escape, a backslash takes one character. That is what the escape counts as before its number,
    -- too.
    next hbad =>
      obtain ⟨bad, hbad⟩ := Option.isSome_iff_exists.1 hbad
      exact .single hc (by rw [hbad]; rfl)
    next hgood =>
    have good : p.invalid = none := by simpa using hgood
    split
    next hcontrol => exact .of_valid hc (isValid_of_control hcontrol) rfl
    split
    next hu =>
      obtain rfl : ch = 'u' := by simpa using hu
      exact .of_reads hc good (unicode_reads _)
    next hu =>
    split
    next hx =>
      obtain rfl : ch = 'x' := by simpa using hx
      exact .of_reads hc good (byte_reads _)
    next hx =>
    split
    next hzero =>
      obtain rfl : ch = '0' := by simpa using hzero
      split
      next hdigit => exact .of_invalid hc good (by simp [Escaped.isValid, hdigit])
      next hdigit => exact .of_valid hc (by simpa [Escaped.isValid] using hdigit) rfl
    next hzero =>
    split
    next hdigit => exact .of_invalid hc good (by simp_all [Escaped.isValid])
    next hdigit =>
      exact .of_valid hc (isValid_of_ne (by simpa using hu) (by simpa using hx) (by simpa using hdigit)) rfl

/-- The chunk ends at the first closing behind the cursor, if there is one, and its first invalid escape is noted. -/
def EndsAt (p : Progress) (c : Cursor) (read : Progress × Option Closing × Cursor) : Prop :=
  match split c.rest with
  | none => read.2.1 = none
  | some (text, closing, _) =>
    read.2.1 = some closing ∧ c.Across (text ++ closing.spelling) read.2.2 ∧
      read.1.invalid = p.invalid.or (firstInvalid text)

/-- What is skimmed makes no difference. -/
theorem EndsAt.of_skims {read : Progress × Option Closing × Cursor} (across : c.Across taken d)
    (skims : Skims taken d.rest bad)
    (hq : q.invalid = p.invalid.or bad) (h : EndsAt q d read) : EndsAt p c read := by
  unfold EndsAt at h ⊢
  rw [across.rest, skims.split]
  split at h
  next hnone => rw [hnone]; exact h
  next text closing rest hsome =>
    obtain ⟨hclosing, behind, invalid⟩ := h
    rw [hsome]
    refine ⟨hclosing, by rw [List.append_assoc]; exact across.trans behind, ?_⟩
    rw [invalid, hq, skims.invalid hsome, Option.or_assoc]

theorem readFrom_endsAt (p : Progress) (c : Cursor) : EndsAt p c (readFrom p c) := by
  fun_induction readFrom p c with
  | case1 p c hc => simp [EndsAt, hc, split]
  | case2 p c rest hc =>
    simp only [EndsAt, hc, split]
    exact ⟨trivial, .moveTo hc rfl, (Option.or_none ..).symm⟩
  | case3 p c rest hc =>
    simp only [EndsAt, hc, split]
    exact ⟨trivial, .moveTo hc rfl, (Option.or_none ..).symm⟩
  | case4 p c rest hc read ih =>
    obtain ⟨taken, bad, across, skims, invalid⟩ := readEscape_skims p (c.moveTo 1 rest)
    exact ih.of_skims ((Across.moveTo (l := ['\\']) hc rfl).trans across) skims invalid
  | case5 p c ch rest hquote hdollar hslash hc hline ih =>
    obtain ⟨feed, left, across, skims⟩ := across_passLine hc hline
    exact ih.of_skims across ((left ▸ Skims.char hquote hslash hdollar).trans skims) (Option.or_none ..).symm
  | case6 p c ch rest hquote hdollar hslash hc hline ih =>
    exact ih.of_skims (.pass hc) (.char hquote hslash hdollar) (Option.or_none ..).symm

theorem firstInvalid_eq_none : firstInvalid text = none ↔ ∀ e ∈ escapes text, e.isValid = true := by
  simp [firstInvalid]

variable {behind : List Char}

theorem read_of_unclosed (hc : c.rest = ch :: behind) (h : split behind = none) : ∃ fault, read c = .error fault := by
  have ends := readFrom_endsAt ⟨[], none⟩ (c.pass ch behind)
  simp only [EndsAt, show (c.pass ch behind).rest = behind from rfl, h] at ends
  simp only [read, hc]
  split
  · exact ⟨_, rfl⟩
  next he => simp [he] at ends

theorem read_of_split (hc : c.rest = ch :: behind) (h : split behind = some (text, closing, rest)) :
    ∃ cooked d, read c = .ok (⟨String.ofList text, cooked, firstInvalid text, ch == '\x60',
      closing == .backquote⟩, closing, d) ∧
      c.Across (ch :: text ++ closing.spelling) d ∧ (cooked.isSome = true ↔ ∀ e ∈ escapes text, e.isValid = true) := by
  have ends := readFrom_endsAt ⟨[], none⟩ (c.pass ch behind)
  simp only [EndsAt, show (c.pass ch behind).rest = behind from rfl, h] at ends
  simp only [read, hc]
  split
  next he => simp [he] at ends
  next p last stop he =>
    rw [he] at ends
    obtain ⟨hlast, across, invalid⟩ := ends
    obtain rfl : last = closing := Option.some.inj hlast
    replace invalid : p.invalid = firstInvalid text := invalid
    let stand := (c.pass ch behind).moveTo (bytes text) (last.spelling ++ stop.rest)
    have before : (c.pass ch behind).Across text stand := .moveTo (across.rest.trans (List.append_assoc ..)) rfl
    have closes : stand.Across last.spelling stop := ⟨rfl, by rw [across.offset, bytes_append, ← Nat.add_assoc]; rfl⟩
    refine ⟨if p.invalid.isNone then some (String.ofList p.cooked.reverse) else none, stop, ?_,
      (Across.pass hc).trans across, ?_⟩
    · rw [← invalid, ← before.textUntil, ← Closing.before closes]
    · rw [invalid, ← firstInvalid_eq_none]
      cases firstInvalid text <;> simp

end Template

namespace Scan

variable {s : Scanner} {ch : Char} {behind : List Char}

/-- Where a backquote or a brace that closes a substitution stands, a chunk is read. -/
theorem token_of_opening (hrest : s.cursor.rest = ch :: behind)
    (hch : ch = '\x60' ∨ ch = '\x7d' ∧ s.regions.head? = some .substitution) : token s = template s.cursor s := by
  rw [token_eq hrest]
  rcases hch with rfl | ⟨rfl, hregions⟩
  · rfl
  · rw [hregions]
    rfl

theorem template_of_unclosed (hrest : s.cursor.rest = ch :: behind) (h : Template.split behind = none) :
    ∃ error after, template s.cursor s = .error error after := by
  obtain ⟨fault, hread⟩ := Template.read_of_unclosed hrest h
  rw [template, hread]
  exact ⟨_, _, rfl⟩

theorem template_of_split {text rest : List Char} {closing : Template.Closing} (hrest : s.cursor.rest = ch :: behind)
    (h : Template.split behind = some (text, closing, rest)) :
    ∃ cooked d, let chunk : TemplateChunk :=
        ⟨String.ofList text, cooked, Template.firstInvalid text, ch == '\x60', closing == .backquote⟩
      template s.cursor s = .ok (tokenBetween s.cursor d (.template chunk))
        { s with cursor := d, regions := regionsAfterChunk chunk closing s.regions } ∧
      s.cursor.Across (ch :: text ++ closing.spelling) d ∧
      (cooked.isSome = true ↔ ∀ e ∈ Template.escapes text, e.isValid = true) := by
  obtain ⟨cooked, d, hread, across, valid⟩ := Template.read_of_split hrest h
  refine ⟨cooked, d, ?_, across, valid⟩
  rw [template, hread]
  rfl

end Scan

/-- A chunk that begins with a backquote, or with a brace that closes a substitution, is read if and only if a closing
follows that no backslash takes with it. It ends right behind the first one, which tells whether it is the last chunk,
and its text is what stands between. It has a cooked value if and only if all its escapes are valid, and names the
first one that is not. -/
theorem token_of_chunk {s : Scanner} {opening : Char} {behind : List Char} (hrest : s.cursor.rest = opening :: behind)
    (hopening : opening = '\x60' ∨ opening = '\x7d' ∧ s.regions.head? = some .substitution) :
    ((∃ t after, Scan.token s = .ok t after) ↔ (Template.split behind).isSome = true) ∧
    ∀ text closing rest, Template.split behind = some (text, closing, rest) →
      ∃ cooked line lineStart,
        let written := opening :: text ++ closing.spelling
        let stop := s.cursor.offset + bytes written
        let chunk : TemplateChunk :=
          ⟨String.ofList text, cooked, Template.firstInvalid text, opening == '\x60', closing == .backquote⟩
        Scan.token s = .ok ⟨.template chunk, String.ofList written, ⟨s.cursor.offset, stop⟩, line, lineStart⟩
          { s with
            cursor := ⟨stop, line, lineStart, rest⟩
            regions := Scan.regionsAfterChunk chunk closing s.regions } ∧
        (cooked.isSome = true ↔ ∀ e ∈ Template.escapes text, e.isValid = true) := by
  rw [Scan.token_of_opening hrest hopening]
  refine ⟨?_, fun text closing rest h => ?_⟩
  · cases h : Template.split behind with
    | none =>
      obtain ⟨error, after, run⟩ := Scan.template_of_unclosed hrest h
      simp [run]
    | some found =>
      obtain ⟨text, closing, rest⟩ := found
      obtain ⟨cooked, d, run, -⟩ := Scan.template_of_split hrest h
      simp [run]
  · obtain ⟨cooked, d, run, across, valid⟩ := Scan.template_of_split hrest h
    have left : d.rest = rest := by
      refine List.append_cancel_left (across.rest.symm.trans ?_)
      rw [hrest, Template.eq_of_split h]
      rfl
    refine ⟨cooked, d.line, d.lineStart, ?_, valid⟩
    rw [run, Scan.tokenBetween, across.textUntil, ← across.offset, ← left]

/-- Behind an escape that has a digit too few, an escaped backquote and a dollar sign, a substitution opens. -/
theorem token_of_chunk_invalid : ∃ line lineStart,
    Scan.token (.start "\x60\\x4\\\x60$$\x7b" false .script) = .ok
      ⟨.template ⟨"\\x4\\\x60$", none, some 'x', true, false⟩, "\x60\\x4\\\x60$$\x7b", ⟨0, 9⟩, line, lineStart⟩
      { Scanner.start "\x60\\x4\\\x60$$\x7b" false .script with
        cursor := ⟨9, line, lineStart, []⟩
        regions := [.substitution] } := by
  have here : (Scanner.start "\x60\\x4\\\x60$$\x7b" false .script).cursor.rest =
      '\x60' :: ['\\', 'x', '4', '\\', '\x60', '$', '$', '\x7b'] := by decide +kernel
  obtain ⟨cooked, line, lineStart, run, valid⟩ := (token_of_chunk here (.inl rfl)).2 _ _ _ rfl
  obtain rfl : cooked = none := by
    have bad : ¬ ∀ e ∈ Template.escapes ['\\', 'x', '4', '\\', '\x60', '$'], e.isValid = true := by decide
    simpa using mt valid.1 bad
  exact ⟨line, lineStart, run⟩

end EcmaTree
