import EcmaTree.Proofs.RoundTrip.Words

/-!
# Texts that spell lexemes

A text spells a list of lexemes if every scan of it in a script, with trivia skipped, finds these lexemes first. Words,
parentheses and operators with a space behind them are put before a text that spells lexemes.
-/

namespace EcmaTree

/-- The lexeme of an operator. -/
def BinaryOp.lexeme (op : BinaryOp) : Lexeme :=
  match Punctuator.longestFirst.find? (·.text == op.text) with
  | some p => .punctuator p
  | none => .keyword op.text

/-- An operator is a punctuator, or one of two keywords. -/
theorem BinaryOp.lexeme_cases (op : BinaryOp) : (∃ p, op.lexeme = .punctuator p ∧ p.binaryOp? = some op) ∨
    op.lexeme = .keyword op.text ∧ (op = .inside ∨ op = .instanceof) := by
  cases op <;> first
    | exact .inl ⟨_, rfl, rfl⟩
    | exact .inr ⟨rfl, .inl rfl⟩
    | exact .inr ⟨rfl, .inr rfl⟩

/-- The first lexeme of the text `cs` is `l`, and `rest` follows. -/
def NextLexeme (cs : List Char) (l : Lexeme) (rest : List Char) : Prop :=
  ∀ (s : Scanner) (keep fresh : Bool), s.goal = .script → s.cursor.rest = cs → ∃ comments c t s',
    Trivia.skipFrom keep true fresh [] s.cursor = ⟨comments, c, false⟩ ∧ Scan.token { s with cursor := c } = .ok t s' ∧
      t.lexeme = l ∧ s'.cursor.rest = rest ∧ s'.goal = .script

/-- The text begins with the lexemes. -/
def Spells : List Char → List Lexeme → Prop
  | _, [] => True
  | cs, l :: ls => ∃ rest, NextLexeme cs l rest ∧ Spells rest ls

variable {cs rest tail : List Char} {l : Lexeme} {ls : List Lexeme} {p : Punctuator}
  {op : BinaryOp} {text name : String}

theorem NextLexeme.of_still (still : Trivia.Still true true cs)
    (token : ∀ s : Scanner, s.goal = .script → s.cursor.rest = cs →
      ∃ t s', Scan.token s = .ok t s' ∧ t.lexeme = l ∧ s'.cursor.rest = rest ∧
        s'.goal = .script) : NextLexeme cs l rest := by
  rintro s keep fresh hgoal rfl
  obtain ⟨t, s', h⟩ := token s hgoal rfl
  exact ⟨[], s.cursor, t, s', (still.mono fun _ => rfl).skipFrom, h⟩

theorem NextLexeme.space (h : NextLexeme cs l rest) : NextLexeme (' ' :: cs) l rest := by
  intro s keep fresh hgoal hc
  obtain ⟨comments, c, t, s', hskip, htoken⟩ := h { s with cursor := s.cursor.pass ' ' cs } keep fresh hgoal rfl
  refine ⟨comments, c, t, s', ?_, htoken⟩
  rw [← hskip, Trivia.skipFrom]
  split <;> simp_all
  exact fun h => absurd h (by decide)

theorem Spells.space (h : Spells cs ls) : Spells (' ' :: cs) ls := by
  cases ls with
  | nil => trivial
  | cons l ls =>
    obtain ⟨rest, hnext, hrest⟩ := h
    exact ⟨rest, hnext.space, hrest⟩

theorem Spells.end : Spells [] [.endOfInput] := by
  refine ⟨[], .of_still .nil fun s hgoal hc => ⟨_, s, Scan.token_of_end hc, rfl, hc, hgoal⟩, trivial⟩

/-! ## Punctuators -/

/-- Is the punctuator an operator between two operands, or a parenthesis? -/
def Punctuator.joins (p : Punctuator) : Bool := p.binaryOp?.isSome || p == .leftParen || p == .rightParen

theorem Punctuator.read?_space (p : Punctuator) (tail : List Char) : read? (p.spelling ++ ' ' :: tail) = some p := by
  cases p <;> rfl

theorem Scan.token_of_joins {s : Scanner} (hp : p.joins = true) (hc : s.cursor.rest = p.spelling ++ tail) :
    token s = punctuator s.cursor s := by
  obtain ⟨⟨offset, line, lineStart, rest⟩, regions, errors, tolerant, goal⟩ := s
  cases hc
  cases p <;> first | rfl | cases hp

theorem NextLexeme.punctuator (hp : p.joins = true) (hread : Punctuator.read? (p.spelling ++ tail) = some p)
    (still : Trivia.Still true true (p.spelling ++ tail)) : NextLexeme (p.spelling ++ tail) (.punctuator p) tail := by
  refine .of_still still fun s hgoal hc => ?_
  have run : Scan.punctuator s.cursor s =
    .ok (Scan.tokenBetween s.cursor (s.cursor.moveTo p.spelling.length tail) (.punctuator p))
      { s with cursor := s.cursor.moveTo p.spelling.length tail, regions := Scan.regionsAfter p s.regions } := by
    simp only [Scan.punctuator, hc, hread, List.drop_left]
    rfl
  exact ⟨_, _, (Scan.token_of_joins hp hc).trans run, rfl, rfl, hgoal⟩

theorem NextLexeme.paren (hp : p = .leftParen ∨ p = .rightParen) :
    NextLexeme (p.spelling ++ tail) (.punctuator p) tail := by
  rcases hp with rfl | rfl
  · exact .punctuator rfl rfl (.cons (by decide) nofun nofun nofun nofun)
  · exact .punctuator rfl rfl (.cons (by decide) nofun nofun nofun nofun)

theorem NextLexeme.operator (hp : p.binaryOp? = some op) :
    NextLexeme (p.spelling ++ ' ' :: tail) (.punctuator p) (' ' :: tail) := by
  refine .punctuator (by simp [Punctuator.joins, hp]) (p.read?_space tail) ?_
  cases p <;> exact .cons (by decide) (by simp) (by simp) (by simp) (by simp)

/-! ## Words -/

/-- Is the lexeme a name or a keyword? -/
def Lexeme.isWord : Lexeme → Bool
  | .identifier _ | .keyword _ => true
  | _ => false

namespace Scan

/-- The token that a text is, if it is one and nothing else. -/
def only? (text : String) : Option Token :=
  match token (.start text false .script) with
  | .ok t s => if s.cursor.atEnd then some t else none
  | .error .. => none

/-- What a scan has found is a word. -/
structure FindsWord (c : Cursor) (characters : List Char) (stop : Cursor) : Prop where
  begins : ∃ ch rest, c.rest = ch :: rest ∧ (isIdentifierStart ch || ch == '\\') = true
  reads : Word.read c = .ok (characters, stop)
  plain : (Word.isReserved (Word.classify (.ofList characters)) &&
    c.offset + (String.ofList characters).utf8ByteSize != stop.offset) = false

variable {s s' : Scanner} {t : Token} {c stop : Cursor} {characters : List Char}

theorem FindsWord.token (h : FindsWord s.cursor characters stop) :
    token s = .ok (tokenBetween s.cursor stop (Word.classify (.ofList characters))) { s with cursor := stop } := by
  obtain ⟨ch, rest, hc, hch⟩ := h.begins
  have first : Scan.token s = word s.cursor s := by
    obtain ⟨⟨offset, line, lineStart, _⟩, regions, errors, tolerant, goal⟩ := s
    cases hc
    exact congrFun (if_pos hch) _
  rw [first, word, h.reads]
  simp only [ofReading, pure_bind, h.plain, Bool.false_eq_true, if_false]
  rfl

/-- A name or a keyword has been read as a word. -/
theorem word_of_token (h : Scan.token s = .ok t s') (hl : t.lexeme.isWord = true) :
    ∃ characters, (∃ ch rest, s.cursor.rest = ch :: rest ∧ (isIdentifierStart ch || ch == '\\') = true) ∧
      Word.read s.cursor = .ok (characters, s'.cursor) ∧ Word.classify (.ofList characters) = t.lexeme ∧
      (s.tolerant = false → (Word.isReserved (Word.classify (.ofList characters)) &&
        s.cursor.offset + (String.ofList characters).utf8ByteSize != s'.cursor.offset) = false) := by
  obtain ⟨_, _, hget, h⟩ := run_bind_eq_ok.1 h
  cases hget
  cases hc : s.cursor.rest with
  | nil =>
    simp only [hc] at h
    cases h
    cases hl
  | cons ch rest =>
    simp only [hc] at h
    split at h
    next hword =>
      obtain ⟨⟨characters, stop⟩, _, hofReading, h⟩ := run_bind_eq_ok.1 h
      obtain ⟨hread, rfl⟩ := ofReading_eq_ok.1 hofReading
      simp only at h
      split at h
      · obtain ⟨_, _, hpass, h⟩ := run_bind_eq_ok.1 h
        cases h
        exact ⟨characters, ⟨ch, rest, rfl, hword⟩, hread, rfl, fun hs => absurd hpass (pass_ne_ok hs)⟩
      next hplain =>
        cases h
        exact ⟨characters, ⟨ch, rest, rfl, hword⟩, hread, rfl, fun _ => by simpa using hplain⟩
    split at h
    next =>
      obtain ⟨⟨q, stop⟩, _, -, h⟩ := run_bind_eq_ok.1 h
      cases h
      cases hl
    split at h
    next =>
      obtain ⟨⟨n, stop⟩, _, -, h⟩ := run_bind_eq_ok.1 h
      cases h
      cases hl
    split at h
    next =>
      obtain ⟨⟨chunk, closing, stop⟩, _, -, h⟩ := run_bind_eq_ok.1 h
      cases h
      cases hl
    · unfold punctuator at h
      cases hp : Punctuator.read? s.cursor.rest with
      | none =>
        simp only [hp] at h
        cases h
      | some p =>
        simp only [hp] at h
        cases h
        cases hl

theorem findsWord_of_token (hs : s.tolerant = false) (h : Scan.token s = .ok t s') (hl : t.lexeme.isWord = true) :
    ∃ characters, FindsWord s.cursor characters s'.cursor ∧ Word.classify (.ofList characters) = t.lexeme := by
  obtain ⟨characters, begins, hread, hlexeme, hplain⟩ := word_of_token h hl
  exact ⟨characters, ⟨begins, hread, hplain hs⟩, hlexeme⟩

/-- A word is found wherever it stands. -/
theorem FindsWord.place (h : FindsWord c characters stop) (x : Surroundings) :
    FindsWord (x.place c) characters (x.place stop) := by
  obtain ⟨ch, rest, hc, hch⟩ := h.begins
  refine ⟨⟨ch, rest ++ x.behind, by simp [hc], hch⟩, Word.read_place x h.reads, ?_⟩
  have plain := h.plain
  simp only [Surroundings.place, Bool.and_eq_false_iff, bne_eq_false_iff_eq] at plain ⊢
  exact plain.imp_right fun _ => by omega

theorem findsWord_of_only? (h : only? text = some t) (hl : t.lexeme.isWord = true) :
    ∃ characters stop, FindsWord (Cursor.ofString text) characters stop ∧ stop.rest = [] ∧
      Word.classify (.ofList characters) = t.lexeme := by
  unfold only? at h
  split at h
  next t s' htoken =>
    split at h
    next hend =>
      cases h
      obtain ⟨characters, finds, hlexeme⟩ := findsWord_of_token rfl htoken hl
      exact ⟨characters, s'.cursor, finds, List.isEmpty_iff.1 hend, hlexeme⟩
    · cases h
  · cases h

end Scan

theorem isBlank_eq_false_of_beginsWord {ch : Char} (h : (isIdentifierStart ch || ch == '\\') = true) :
    isBlank ch = false := by
  rw [← Bool.not_eq_true]
  intro hblank
  have spaces : ∀ n < 11, (isIdentifierStart (.ofNat (0x2000 + n)) || Char.ofNat (0x2000 + n) == '\\') =
    false := by decide +kernel
  by_cases hrange : '\u2000' ≤ ch ∧ ch ≤ '\u200a'
  · have lower : 0x2000 ≤ ch.toNat := hrange.1
    have upper : ch.toNat ≤ 0x200a := hrange.2
    have := spaces (ch.toNat - 0x2000) (by omega)
    rw [Nat.add_sub_cancel' lower, Char.ofNat_toNat] at this
    simp_all
  · simp only [isBlank, Bool.or_eq_true, Bool.and_eq_true, beq_iff_eq, decide_eq_true_eq, hrange, or_false] at hblank
    rcases hblank with ((((((((rfl | rfl) | rfl) | rfl) | rfl) | rfl) | rfl) | rfl) | rfl) | rfl <;>
      exact absurd h (by decide +kernel)

/-- No trivia stands before a word. -/
theorem still_of_beginsWord {ch : Char} (h : (isIdentifierStart ch || ch == '\\') = true) :
    Trivia.Still true true (ch :: cs) := by
  have space : isSpace ch = false := by
    simp only [isSpace, isBlank_eq_false_of_beginsWord h, Bool.false_or]
    exact isLineTerminator_eq_false (p := fun ch => isIdentifierStart ch || ch == '\\') (by decide +kernel) h
  refine .cons space ?_ ?_ ?_ ?_ <;> rintro body hbody <;> cases hbody <;> exact absurd h (by decide)

theorem NextLexeme.word {t : Token} (h : Scan.only? text = some t) (hl : t.lexeme.isWord = true)
    (ends : EndsWord tail) :
    NextLexeme (text.toList ++ tail) t.lexeme tail := by
  obtain ⟨characters, stop, finds, hstop, hlexeme⟩ := Scan.findsWord_of_only? h hl
  rw [← hlexeme]
  obtain ⟨ch, rest, hc, hch⟩ := finds.begins
  refine .of_still ?_ fun s hgoal hs => ?_
  · rw [show text.toList = ch :: rest from hc]
    exact still_of_beginsWord hch
  · let x : Surroundings := ⟨s.cursor.offset, s.cursor.line, s.cursor.lineStart, tail, ends⟩
    have place : x.place (Cursor.ofString text) = s.cursor := by
      simp [x, Surroundings.place, Cursor.ofString, ← hs]
    have placed := finds.place x
    rw [place] at placed
    exact ⟨_, _, placed.token, rfl, by simp [hstop, x], hgoal⟩

theorem NextLexeme.identifier (h : (Scan.only? text).any (·.isIdentifierNamed name) = true) (ends : EndsWord tail) :
    NextLexeme (text.toList ++ tail) (.identifier name) tail := by
  obtain ⟨t, ht, hname⟩ := (Option.any_eq_true ..).1 h
  have lexeme := Token.isIdentifierNamed_iff.1 hname
  exact lexeme ▸ .word ht (by rw [lexeme]; rfl) ends

theorem NextLexeme.keyword (h : (Scan.only? text).any (·.isKeyword name) = true) (ends : EndsWord tail) :
    NextLexeme (text.toList ++ tail) (.keyword name) tail := by
  obtain ⟨t, ht, hname⟩ := (Option.any_eq_true ..).1 h
  have lexeme := Token.isKeyword_iff.1 hname
  exact lexeme ▸ .word ht (by rw [lexeme]; rfl) ends

end EcmaTree
