import EcmaTree.Lexer.Jsx

/-!
# What readers pass over

A cursor reaches another one if it may get there by passing characters. Every reader of the lexer goes on to a
cursor that it reaches; so what stands between the two is a piece of the source.
-/

namespace EcmaTree

/-- The number of bytes of characters. -/
def bytes (cs : List Char) : Nat := cs.foldr (·.utf8Size + ·) 0

@[simp] theorem bytes_nil : bytes [] = 0 := rfl

@[simp] theorem bytes_cons (c : Char) (cs : List Char) : bytes (c :: cs) = c.utf8Size + bytes cs := rfl

@[simp] theorem bytes_append (cs ds : List Char) : bytes (cs ++ ds) = bytes cs + bytes ds := by
  induction cs with
  | nil => simp
  | cons c cs ih => simp [ih, Nat.add_assoc]

theorem bytes_eq_zero {cs : List Char} : bytes cs = 0 ↔ cs = [] := by
  cases cs with
  | nil => simp
  | cons c cs => simp [Nat.pos_iff_ne_zero.1 c.utf8Size_pos]

theorem bytes_eq_utf8ByteSize (cs : List Char) : bytes cs = (String.ofList cs).utf8ByteSize := by
  induction cs with
  | nil => rfl
  | cons c cs ih =>
    rw [← List.singleton_append, String.ofList_append, String.utf8ByteSize_append, ← ih]
    simp

theorem foldl_utf8Size (cs : List Char) (n : Nat) : cs.foldl (· + ·.utf8Size) n = n + bytes cs := by
  induction cs generalizing n with
  | nil => rfl
  | cons c cs ih => simp [ih, Nat.add_assoc]

theorem utf8Size_of_le {c : Char} (h : c ≤ '9') : c.utf8Size = 1 := by
  rw [Char.utf8Size_eq_one_iff]
  exact UInt32.le_trans h (by decide)

theorem utf8Size_of_isOctalDigit {c : Char} (h : isOctalDigit c = true) : c.utf8Size = 1 := by
  simp only [isOctalDigit, Bool.and_eq_true, decide_eq_true_eq] at h
  exact utf8Size_of_le (Char.le_trans h.2 (by decide))

namespace Cursor

/-- The characters `cs` stand between the cursors. -/
structure Across (c : Cursor) (cs : List Char) (d : Cursor) : Prop where
  rest : c.rest = cs ++ d.rest
  offset : d.offset = c.offset + bytes cs

/-- The second cursor stands behind the first one, or where that stands. -/
def Reaches (c d : Cursor) : Prop := ∃ cs, c.Across cs d

variable {c d e : Cursor} {cs ds : List Char} {ch : Char} {rest : List Char}

namespace Across

theorem refl (c : Cursor) : c.Across [] c := ⟨rfl, rfl⟩

theorem trans (h : c.Across cs d) (h' : d.Across ds e) : c.Across (cs ++ ds) e :=
  ⟨by rw [h.rest, h'.rest, List.append_assoc], by rw [h'.offset, h.offset, bytes_append, Nat.add_assoc]⟩

theorem moveTo {l : List Char} (h : c.rest = l ++ rest) {n : Nat} (hn : bytes l = n) : c.Across l (c.moveTo n rest) :=
  ⟨h, by rw [Cursor.moveTo, hn]⟩

theorem pass (h : c.rest = ch :: rest) : c.Across [ch] (c.pass ch rest) := moveTo (l := [ch]) h rfl

end Across

/-! ## Where cursors get -/

namespace Reaches

@[refl] theorem refl (c : Cursor) : c.Reaches c := ⟨[], .refl c⟩

theorem trans (h : c.Reaches d) (h' : d.Reaches e) : c.Reaches e := by
  obtain ⟨cs, h⟩ := h
  obtain ⟨ds, h'⟩ := h'
  exact ⟨cs ++ ds, h.trans h'⟩

theorem offset_le (h : c.Reaches d) : c.offset ≤ d.offset := by
  obtain ⟨cs, -, h⟩ := h
  omega

/-- All cursors of a text see its end at the same offset. -/
theorem end_eq (h : c.Reaches d) : d.offset + bytes d.rest = c.offset + bytes c.rest := by
  obtain ⟨cs, hrest, hoffset⟩ := h
  rw [hoffset, hrest, bytes_append, Nat.add_assoc]

/-- What has been passed and what is left make up the source. -/
theorem offset_add_bytes {source : String} (h : (Cursor.ofString source).Reaches c) :
    c.offset + bytes c.rest = source.utf8ByteSize := by
  rw [h.end_eq, ofString, Nat.zero_add, bytes_eq_utf8ByteSize, String.ofList_toList]

/-- What is unread at an offset shows from any earlier cursor. -/
theorem rest_eq (h : c.Reaches d) (h' : c.Reaches e) (ho : d.offset = e.offset) : d.rest = e.rest := by
  obtain ⟨cs, hcs, hd⟩ := h
  obtain ⟨ds, hds, he⟩ := h'
  have bytes_eq : bytes cs = bytes ds := by omega
  rcases List.append_eq_append_iff.1 (hcs.symm.trans hds) with ⟨xs, rfl, h⟩ | ⟨xs, rfl, h⟩
  · have : xs = [] := bytes_eq_zero.1 (by simpa using bytes_eq.symm)
    simpa [this] using h
  · have : xs = [] := bytes_eq_zero.1 (by simpa using bytes_eq)
    simpa [this] using h.symm

theorem moveTo {l : List Char} (h : c.rest = l ++ rest) {n : Nat} (hn : bytes l = n) :
    c.Reaches (c.moveTo n rest) := ⟨l, .moveTo h hn⟩

theorem pass (h : c.rest = ch :: rest) : c.Reaches (c.pass ch rest) := moveTo (l := [ch]) h rfl

theorem startLine (c : Cursor) (ch : Char) : c.Reaches (c.startLine ch) := by
  unfold Cursor.startLine
  split
  next h => exact ⟨['\n'], h, rfl⟩
  · exact ⟨[], rfl, rfl⟩

theorem passLine (h : c.rest = ch :: rest) : c.Reaches (c.passLine ch rest) := (pass h).trans (startLine _ _)

theorem skipWhile (p : Char → Bool) (c : Cursor) : c.Reaches (c.skipWhile p) :=
  ⟨c.rest.takeWhile p, by rw [skipWhile_rest, List.takeWhile_append_dropWhile],
    by rw [Cursor.skipWhile, Cursor.moveTo, foldl_utf8Size, Nat.zero_add]⟩

end Reaches

theorem rest_of_startsWith (h : c.startsWith ch = true) : ∃ rest, c.rest = ch :: rest := by
  simpa [startsWith, List.head?_eq_some_iff] using h

/-! ## The text between cursors -/

theorem takeBytes_bytes (cs ds : List Char) : takeBytes (bytes cs) (cs ++ ds) = cs := by
  induction cs with
  | nil => cases ds <;> rfl
  | cons c cs ih =>
    obtain ⟨n, hn⟩ : ∃ n, bytes (c :: cs) = n + 1 :=
      ⟨bytes (c :: cs) - 1, by simp; have := c.utf8Size_pos; omega⟩
    rw [hn, List.cons_append, takeBytes, ← hn, bytes_cons, Nat.add_sub_cancel_left, ih]

theorem Across.textUntil (h : c.Across cs d) : c.textUntil d.offset = String.ofList cs := by
  rw [Cursor.textUntil, charsUntil, h.offset, Nat.add_sub_cancel_left, h.rest, takeBytes_bytes]

end Cursor

open Cursor (Across Reaches)

/-! ## Readers -/

namespace Escape

theorem hexDigits_reaches (digits value : Nat) (c : Cursor) : c.Reaches (hexDigits digits value c).2 := by
  fun_induction hexDigits digits value c with
  | case1 | case2 | case4 => rfl
  | case3 digits value c ch rest h d _ ih => exact (Reaches.pass h).trans ih

theorem unit_reaches (c : Cursor) : c.Reaches (unit c).2 := by
  have first := hexDigits_reaches 4 0 c
  unfold unit
  split
  next d h => simpa [h] using first
  next code d h =>
    rw [h] at first
    split
    next rest _ hd =>
      have second := hexDigits_reaches 4 0 (d.moveTo 2 rest)
      split
      next low e he =>
        rw [he] at second
        split
        · exact first.trans ((Reaches.moveTo (l := ['\\', 'u']) hd rfl).trans second)
        · exact first
      · exact first
    · exact first

theorem codeDigits_reaches (value count : Nat) (c : Cursor) : c.Reaches (codeDigits value count c).2 := by
  fun_induction codeDigits value count c with
  | case1 | case3 | case4 => rfl
  | case2 value count c ch rest h d _ _ ih => exact (Reaches.pass h).trans ih

theorem codePoint_reaches (c : Cursor) : c.Reaches (codePoint c).2 := by
  have digits := codeDigits_reaches 0 0 c
  unfold codePoint
  split
  next d h => simpa [h] using digits
  next value count d h =>
    rw [h] at digits
    split
    next rest hd =>
      split
      · exact digits
      · exact digits.trans (Reaches.moveTo (l := ['\x7d']) hd rfl)
    · exact digits

theorem unicode_reaches (c : Cursor) : c.Reaches (unicode c).2 := by
  unfold unicode
  split
  next rest h => exact (Reaches.moveTo (l := ['\x7b']) h rfl).trans (codePoint_reaches _)
  · exact unit_reaches c

theorem byte_reaches (c : Cursor) : c.Reaches (byte c).2 := by
  have digits := hexDigits_reaches 2 0 c
  unfold byte
  split <;> simp_all

end Escape

namespace Word

variable {c d : Cursor}

theorem escaped_reaches {accepts : Char → Bool} {ch : Char} (h : escaped accepts c = .ok (ch, d)) : c.Reaches d := by
  unfold escaped at h
  split at h
  next rest hc =>
    have code := Escape.codePoint_reaches (c.moveTo 2 rest)
    split at h
    next e he =>
      cases h
      rw [he] at code
      exact (Reaches.moveTo (l := ['u', '\x7b']) hc rfl).trans code
    · cases h
  next rest _ hc =>
    have code := Escape.unit_reaches (c.moveTo 1 rest)
    split at h
    next e he =>
      split at h
      · cases h
        rw [he] at code
        exact (Reaches.moveTo (l := ['u']) hc rfl).trans code
      · cases h
    · cases h
  · cases h

/-- What is read is what is passed, unless there is an escape in it. -/
theorem readFrom_across {read cs : List Char} (h : readFrom read c = .ok (cs, d)) :
    ∃ ds, c.Across ds d ∧ (cs = read.reverse ++ ds ∨ '\\' ∈ ds) := by
  fun_induction readFrom read c with
  | case1 read c hc => cases h; exact ⟨[], .refl _, .inl (by simp)⟩
  | case2 read c rest hc ch e he ih =>
    obtain ⟨es, escaped⟩ := escaped_reaches he
    obtain ⟨ds, across, -⟩ := ih h
    exact ⟨_, (Across.moveTo (l := ['\\']) hc rfl).trans (escaped.trans across), .inr (by simp)⟩
  | case3 => cases h
  | case4 read c ch rest _ hc _ ih =>
    obtain ⟨ds, across, spelled⟩ := ih h
    exact ⟨_, (Across.pass hc).trans across, spelled.imp (by simp [·]) (List.mem_append_right _)⟩
  | case5 => cases h; exact ⟨[], .refl _, .inl (by simp)⟩

/-- A word holds one character at least. -/
theorem read_across {cs : List Char} (h : read c = .ok (cs, d)) :
    ∃ ch ds, c.Across (ch :: ds) d ∧ (cs = ch :: ds ∨ '\\' ∈ ch :: ds) := by
  unfold read at h
  split at h
  · cases h
  next rest hc =>
    split at h
    next ch e he =>
      obtain ⟨es, escaped⟩ := escaped_reaches he
      obtain ⟨ds, across, -⟩ := readFrom_across h
      exact ⟨_, _, (Across.moveTo (l := ['\\']) hc rfl).trans (escaped.trans across), .inr (by simp)⟩
    · cases h
  next hc =>
    obtain ⟨ds, across, spelled⟩ := readFrom_across h
    exact ⟨_, _, (Across.pass hc).trans across, spelled.imp (by simp [·]) (List.mem_cons_of_mem _)⟩

end Word

namespace Numeral

variable {c d : Cursor} {n : Numeral}

theorem finish_eq {m : Numeral} (h : finish m c = .ok (n, d)) : d = c := by
  unfold finish at h
  split at h
  · split at h <;> cases h
    rfl
  · cases h
    rfl

theorem readRadix_reaches {radix : Nat} {legacy : Bool} (h : readRadix radix legacy c = .ok (n, d)) :
    c.Reaches d := by
  simp only [readRadix] at h
  split at h
  · cases h
  · rw [finish_eq h]
    exact .skipWhile _ _

theorem passSign_reaches {ch : Char} {rest : List Char} (hc : c.rest = ch :: rest) (hch : ch.utf8Size = 1) :
    c.Reaches (passSign c rest).2 := by
  unfold passSign
  split
  · exact Reaches.moveTo (l := [ch, '-']) hc (by rw [bytes_cons, hch]; rfl)
  · exact Reaches.moveTo (l := [ch, '+']) hc (by rw [bytes_cons, hch]; rfl)
  · exact Reaches.moveTo (l := [ch]) hc (by rw [bytes_cons, hch]; rfl)

theorem readExponent_reaches {value : Int} (h : readExponent c = .ok (value, d)) : c.Reaches d := by
  unfold readExponent at h
  split at h
  · cases h; rfl
  next ch rest hc =>
    split at h
    next he =>
      have hch : ch.utf8Size = 1 := by
        rcases (by simpa using he : ch = 'e' ∨ ch = 'E') with rfl | rfl <;> rfl
      simp only at h
      split at h
      · cases h
      · simp only [Except.ok.injEq, Prod.mk.injEq] at h
        exact h.2 ▸ (passSign_reaches hc hch).trans (.skipWhile _ _)
    · cases h; rfl

theorem readFraction_reaches (c : Cursor) : c.Reaches (readFraction c).2 := by
  unfold readFraction
  split
  next rest hc => exact (Reaches.moveTo (l := ['.']) hc rfl).trans (.skipWhile _ _)
  · rfl

theorem readDecimal_reaches (h : readDecimal c = .ok (n, d)) : c.Reaches d := by
  unfold readDecimal at h
  simp only [bind, Except.bind] at h
  split at h
  · cases h
  next exponent he =>
    rw [finish_eq h]
    exact (Reaches.skipWhile _ c).trans ((readFraction_reaches _).trans (readExponent_reaches he))

/-- A numeral that begins with a digit or a point is not empty. -/
theorem readDecimal_advances {ch : Char} {rest : List Char} (hc : c.rest = ch :: rest)
    (hch : isDecimalDigit ch = true ∨ ch = '.') (h : readDecimal c = .ok (n, d)) : c.offset < d.offset := by
  have fraction := readFraction_reaches (c.skipWhile isDecimalDigit)
  have hd : (readFraction (c.skipWhile isDecimalDigit)).2.Reaches d := by
    unfold readDecimal at h
    simp only [bind, Except.bind] at h
    split at h
    · cases h
    next exponent he => exact finish_eq h ▸ readExponent_reaches he
  refine Nat.lt_of_lt_of_le ?_ hd.offset_le
  rcases hch with hdigit | rfl
  · refine Nat.lt_of_lt_of_le ?_ fraction.offset_le
    simp [Cursor.skipWhile, Cursor.moveTo, hc, hdigit, foldl_utf8Size]
    have := ch.utf8Size_pos
    omega
  · have whole : c.skipWhile isDecimalDigit = c := by
      have hpoint : isDecimalDigit '.' = false := by decide
      cases c
      simp_all [Cursor.skipWhile, Cursor.moveTo]
    have point := (Reaches.skipWhile isDecimalDigit (c.moveTo 1 rest)).offset_le
    simp only [whole, readFraction, hc]
    exact Nat.lt_of_lt_of_le (Nat.lt_succ_self _) point

theorem read_reaches (h : read c = .ok (n, d)) : c.Reaches d := by
  unfold read at h
  split at h
  next hc => exact (Reaches.moveTo (l := ['0', 'x']) hc rfl).trans (readRadix_reaches h)
  next hc => exact (Reaches.moveTo (l := ['0', 'X']) hc rfl).trans (readRadix_reaches h)
  next hc => exact (Reaches.moveTo (l := ['0', 'b']) hc rfl).trans (readRadix_reaches h)
  next hc => exact (Reaches.moveTo (l := ['0', 'B']) hc rfl).trans (readRadix_reaches h)
  next hc => exact (Reaches.moveTo (l := ['0', 'o']) hc rfl).trans (readRadix_reaches h)
  next hc => exact (Reaches.moveTo (l := ['0', 'O']) hc rfl).trans (readRadix_reaches h)
  next hc =>
    split at h
    · exact (Reaches.moveTo (l := ['0']) hc rfl).trans (readRadix_reaches h)
    · exact readDecimal_reaches h
  · exact readDecimal_reaches h

theorem read_advances {ch : Char} {rest : List Char} (hc : c.rest = ch :: rest)
    (hch : isDecimalDigit ch = true ∨ ch = '.') (h : read c = .ok (n, d)) : c.offset < d.offset := by
  have behind {n : Nat} {rest : List Char} (h : (c.moveTo (n + 1) rest).Reaches d) : c.offset < d.offset :=
    Nat.lt_of_lt_of_le (Nat.lt_add_of_pos_right (Nat.succ_pos n)) h.offset_le
  unfold read at h
  split at h
  case h_7 =>
    split at h
    · exact behind (readRadix_reaches h)
    · exact readDecimal_advances hc hch h
  case h_8 => exact readDecimal_advances hc hch h
  all_goals exact behind (readRadix_reaches h)

theorem readRadix_legacy {radix : Nat} {legacy : Bool} (h : readRadix radix legacy c = .ok (n, d)) :
    n.legacy = legacy := by
  simp only [readRadix, finish] at h
  repeat' split at h
  all_goals cases h
  all_goals rfl

theorem readDecimal_legacy (h : readDecimal c = .ok (n, d)) :
    n.legacy = hasLeadingZero (c.rest.takeWhile isDecimalDigit) := by
  simp only [readDecimal, bind, Except.bind, finish] at h
  repeat' split at h
  all_goals cases h
  all_goals rfl

/-- A zero before another digit is marked, whatever the digits are. -/
theorem read_legacy {ch : Char} {rest : List Char} (hc : c.rest = '0' :: ch :: rest) (hch : isDecimalDigit ch = true)
    (h : read c = .ok (n, d)) : n.legacy = true := by
  have zero : isDecimalDigit '0' = true := by decide
  unfold read at h
  split at h
  case h_7 =>
    split at h
    · exact readRadix_legacy h
    · rw [readDecimal_legacy h, hc]
      simp [zero, hch, hasLeadingZero]
  case h_8 hno => exact absurd hc (hno _)
  all_goals
    next hx =>
    obtain ⟨rfl, -⟩ := by simpa using hc.symm.trans hx
    exact absurd hch (by decide)

end Numeral

namespace Quoted

variable {c d : Cursor}

theorem readOctal_reaches (first : Nat) (c : Cursor) : c.Reaches (readOctal first c).2.2 := by
  unfold readOctal
  split
  next a rest hc =>
    split
    next ha =>
      have ha := utf8Size_of_isOctalDigit ha
      simp only
      split
      next b rest =>
        split
        next hb =>
          have hb := utf8Size_of_isOctalDigit (Bool.and_eq_true _ _ ▸ hb).2
          exact Reaches.moveTo (l := [a, b]) hc (by simp [ha, hb])
        · exact Reaches.moveTo (l := [a]) hc (by simp [ha])
      · exact Reaches.moveTo (l := [a]) hc (by simp [ha])
    · rfl
  · rfl

theorem readEscape_reaches {text : List Char} {legacy : Bool} (h : readEscape c = .ok (text, legacy, d)) :
    c.Reaches d := by
  unfold readEscape at h
  split at h
  · cases h; rfl
  next ch rest hc =>
    have unicode := Escape.unicode_reaches (c.pass ch rest)
    have byte := Escape.byte_reaches (c.pass ch rest)
    refine (Reaches.pass hc).trans ?_
    simp only at h
    repeat' split at h
    all_goals simp_all
    · exact h.2.2 ▸ .startLine _ _
    · exact h.2.2 ▸ .refl _
    · exact (by simp_all : (readOctal (ch.toNat - 48) (c.pass ch rest)).2.2 = d) ▸ readOctal_reaches _ _
    · exact h.2.2 ▸ .refl _

theorem readFrom_reaches {quote : Char} {read : List Char} {legacy : Bool} {q : Quoted}
    (h : readFrom quote read legacy c = .ok (.inl (q, d))) : c.Reaches d := by
  fun_induction readFrom quote read legacy c with
  | case1 => cases h
  | case2 read legacy c ch rest hc => cases h; exact .pass hc
  | case3 read legacy c ch rest hc _ _ text forbidden e he ih =>
    exact (Reaches.pass hc).trans ((readEscape_reaches he).trans (ih h))
  | case4 | case5 => cases h
  | case6 read legacy c ch rest hc _ _ _ ih => exact (Reaches.pass hc).trans (ih h)

/-- A string literal holds its opening quote. -/
theorem read_reaches {q : Quoted} (h : read c = .ok (q, d)) :
    ∃ ch rest, c.rest = ch :: rest ∧ (c.pass ch rest).Reaches d := by
  unfold read at h
  split at h
  · cases h
  next quote rest hc =>
    split at h
    next result he => cases h; exact ⟨_, _, hc, readFrom_reaches he⟩
    · cases h
    · cases h

end Quoted

namespace Template

theorem readEscape_reaches (p : Progress) (c : Cursor) : c.Reaches (readEscape p c).2 := by
  unfold readEscape
  split
  · rfl
  next ch rest hc =>
    refine (Reaches.pass hc).trans ?_
    simp only
    repeat' split
    · exact .startLine _ _
    · rfl
    · rfl
    · exact Escape.unicode_reaches _
    · exact Escape.byte_reaches _
    all_goals rfl

/-- The characters of a closing. -/
def Closing.spelling : Closing → List Char
  | .backquote => ['\x60']
  | .substitution => ['$', '\x7b']

theorem Closing.before {c d : Cursor} {closing : Closing} (h : c.Across closing.spelling d) :
    d.offset - closing.width = c.offset := by
  rw [h.offset]
  cases closing <;> rfl

/-- A closing ends with a character that is no space. -/
theorem Closing.ends {c d : Cursor} {closing : Closing} (h : c.Across closing.spelling d) :
    ∃ e ch, c.Reaches e ∧ e.Across [ch] d ∧ (ch = '\x60' ∨ ch = '\x7b') := by
  cases closing with
  | backquote => exact ⟨c, _, .refl c, h, .inl rfl⟩
  | substitution => exact ⟨c.moveTo 1 ('\x7b' :: d.rest), _, .moveTo (l := ['$']) h.rest rfl, ⟨rfl, h.offset⟩, .inr rfl⟩

/-- A chunk ends behind its closing. -/
theorem readFrom_closes {p : Progress} {c : Cursor} {closing : Closing} (h : (readFrom p c).2.1 = some closing) :
    ∃ e, c.Reaches e ∧ e.Across closing.spelling (readFrom p c).2.2 := by
  fun_induction readFrom p c with
  | case1 => cases h
  | case2 p c rest hc => cases h; exact ⟨c, .refl c, ⟨hc, rfl⟩⟩
  | case3 p c rest hc => cases h; exact ⟨c, .refl c, ⟨hc, rfl⟩⟩
  | case4 p c rest hc read ih =>
    obtain ⟨e, reaches, closes⟩ := ih h
    exact ⟨e, (Reaches.moveTo (l := ['\\']) hc rfl).trans ((readEscape_reaches _ _).trans reaches), closes⟩
  | case5 p c ch rest _ _ _ hc _ ih =>
    obtain ⟨e, reaches, closes⟩ := ih h
    exact ⟨e, (Reaches.passLine hc).trans reaches, closes⟩
  | case6 p c ch rest _ _ _ hc _ ih =>
    obtain ⟨e, reaches, closes⟩ := ih h
    exact ⟨e, (Reaches.pass hc).trans reaches, closes⟩

theorem read_isTail {c d : Cursor} {chunk : TemplateChunk} {closing : Closing} (h : read c = .ok (chunk, closing, d)) :
    chunk.isTail = (closing == .backquote) := by
  unfold read at h
  split at h
  · cases h
  · simp only at h
    split at h
    · cases h
    · cases h
      rfl

/-- A chunk holds the character that it begins with, which tells whether it is a head, its text and its closing. -/
theorem read_across {c d : Cursor} {chunk : TemplateChunk} {closing : Closing} (h : read c = .ok (chunk, closing, d)) :
    ∃ ch cs e, c.Across (ch :: cs) e ∧ e.Across closing.spelling d ∧ chunk.isHead = (ch == '\x60') ∧
      chunk.raw = String.ofList cs := by
  unfold read at h
  split at h
  · cases h
  next ch rest hc =>
    simp only at h
    split at h
    · cases h
    next p closing stop he =>
      cases h
      obtain ⟨e, ⟨cs, across⟩, closes⟩ := @readFrom_closes ⟨[], none⟩ (c.pass ch rest) closing (by rw [he])
      rw [he] at closes
      refine ⟨ch, cs, e, (Across.pass hc).trans across, closes, rfl, ?_⟩
      simp only [Closing.before closes, across.textUntil]

end Template

namespace Regex

variable {c d : Cursor}

/-- The body ends before a slash. -/
theorem skipBody_reaches {inClass : Bool} (h : skipBody inClass c = .ok d) :
    c.Reaches d ∧ ∃ rest, d.rest = '/' :: rest := by
  fun_induction skipBody inClass c with
  | case1 | case2 | case3 | case5 => cases h
  | case4 inClass c ch rest hc next _ ih =>
    exact ⟨(Reaches.moveTo (l := ['\\']) hc rfl).trans ((Reaches.pass rfl).trans (ih h).1), (ih h).2⟩
  | case6 c ch rest _ _ hc _ ih => exact ⟨(Reaches.pass hc).trans (ih h).1, (ih h).2⟩
  | case7 inClass c ch rest _ _ hc _ _ hslash =>
    cases h
    rw [beq_iff_eq] at hslash
    exact ⟨.refl _, rest, hslash ▸ hc⟩
  | case8 inClass c ch rest _ _ hc _ _ _ ih => exact ⟨(Reaches.pass hc).trans (ih h).1, (ih h).2⟩

theorem skipFlagEscape_reaches (c : Cursor) : c.Reaches (skipFlagEscape c).2 := by
  unfold skipFlagEscape
  split
  next rest hc =>
    have unit := Escape.unit_reaches (c.moveTo 1 rest)
    split
    next he =>
      rw [he] at unit
      exact (Reaches.moveTo (l := ['u']) hc rfl).trans unit
    · exact .moveTo (l := ['u']) hc rfl
  · rfl

theorem readFlagsFrom_reaches (read : List Char) (faults : List Fault) (c : Cursor) :
    c.Reaches (readFlagsFrom read faults c).2.2 := by
  fun_induction readFlagsFrom read faults c with
  | case1 => rfl
  | case2 read faults c rest hc escape ih =>
    exact (Reaches.moveTo (l := ['\\']) hc rfl).trans ((skipFlagEscape_reaches _).trans ih)
  | case3 read faults c ch rest _ hc _ ih => exact (Reaches.pass hc).trans ih
  | case4 => rfl

/-- A regular expression holds its opening slash. -/
theorem read_reaches {rest : List Char} {r : Reading} (hc : c.rest = '/' :: rest) (h : read c = .ok r) :
    (c.pass '/' rest).Reaches r.cursor := by
  simp only [read, hc, List.drop_one, List.tail_cons] at h
  split at h
  · cases h
  next last hlast =>
    cases h
    obtain ⟨body, flags, hflags⟩ := skipBody_reaches hlast
    refine body.trans (.trans ?_ (readFlagsFrom_reaches _ _ _))
    exact .moveTo (l := ['/']) (by rw [hflags]; rfl) rfl

end Regex

namespace Jsx

theorem readString_reaches (quote : Char) (cs : List Char) :
    ∃ ds, cs = ds ++ (readString quote cs).2.2 ∧ bytes ds = (readString quote cs).2.1 := by
  fun_induction readString quote cs with
  | case1 => exact ⟨[], rfl, rfl⟩
  | case2 c rest => exact ⟨[c], rfl, rfl⟩
  | case3 c rest _ _ reference value n left h ih =>
    rw [h] at ih
    obtain ⟨ds, hds, hn⟩ := ih
    have taken := CharacterReference.read_append quote .opened rest
    refine ⟨c :: (reference.1 ++ ds), ?_, ?_⟩
    · rw [List.cons_append, List.append_assoc, ← hds, taken]
    · rw [bytes_cons, bytes_append, hn, foldl_utf8Size, Nat.zero_add, Nat.add_assoc]
  | case4 c rest _ _ value n left h ih =>
    rw [h] at ih
    obtain ⟨ds, hds, hn⟩ := ih
    exact ⟨c :: ds, by rw [List.cons_append, ← hds], by rw [bytes_cons, hn]⟩

theorem skipText_reaches (c : Cursor) : c.Reaches (skipText c) := by
  fun_induction skipText c with
  | case1 | case2 => rfl
  | case3 c ch rest hc _ _ ih => exact (Reaches.passLine hc).trans ih
  | case4 c ch rest hc _ _ ih => exact (Reaches.pass hc).trans ih

end Jsx

namespace Punctuator

/-- The spelling of a punctuator is read, one byte for each of its characters. -/
theorem read_across {c : Cursor} {p : Punctuator} (h : read? c.rest = some p) :
    c.Across p.spelling (c.moveTo p.spelling.length (c.rest.drop p.spelling.length)) := by
  have begins := begins_of_read? h
  simp only [Punctuator.begins, Bool.and_eq_true, List.isPrefixOf_iff_prefix] at begins
  obtain ⟨rest, hrest⟩ := begins.1
  have width : bytes p.spelling = p.spelling.length := by cases p <;> rfl
  exact ⟨by rw [← hrest, Cursor.moveTo, List.drop_left], by rw [Cursor.moveTo, width]⟩

end Punctuator

end EcmaTree
