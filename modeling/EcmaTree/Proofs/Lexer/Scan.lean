import EcmaTree.Proofs.Judgement
import EcmaTree.Proofs.Lexer.Reach

/-!
# Scans in a parse

What a scan does to the state of a parse, for every judgement: it moves the cursor and changes the open regions, it
may record errors, and its token is the text that the cursor has passed.
-/

namespace EcmaTree

open Cursor (Across Reaches)

namespace Token

variable {t : Token} {p q : Punctuator} {word : String}

theorem isPunctuator_iff : t.isPunctuator p = true ↔ t.lexeme = .punctuator p := by
  unfold isPunctuator
  split <;> simp_all

theorem isEnd_of_isPunctuator (h : t.isPunctuator p = true) : t.isEnd = false := by
  simp [isEnd, isPunctuator_iff.1 h]

theorem isKeyword_iff : t.isKeyword word = true ↔ t.lexeme = .keyword word := by
  unfold isKeyword
  split <;> simp_all

theorem isIdentifier_iff : t.isIdentifier = true ↔ ∃ name, t.lexeme = .identifier name := by
  unfold isIdentifier
  split <;> simp_all

theorem isIdentifierNamed_iff : t.isIdentifierNamed word = true ↔ t.lexeme = .identifier word := by
  unfold isIdentifierNamed
  split <;> simp_all

theorem isName_iff : t.isName = true ↔ (∃ name, t.lexeme = .identifier name) ∨ (∃ name, t.lexeme = .keyword name) ∨
    (∃ value, t.lexeme = .boolean value) ∨ t.lexeme = .null := by
  unfold isName
  split <;> simp_all

theorem isName_of_isKeyword (h : t.isKeyword word = true) : t.isName = true :=
  isName_iff.2 (.inr (.inl ⟨_, isKeyword_iff.1 h⟩))

/-- Identifiers and keywords are names. -/
theorem isName_of_word (h : t.isIdentifier = true ∨ t.isAnyKeyword = true) : t.isName = true := by
  unfold isIdentifier isAnyKeyword at h
  rw [isName_iff]
  cases hl : t.lexeme <;> simp_all

theorem text_of_isKeyword (h : t.isKeyword word = true) : t.text = word := by
  simp [text, isKeyword_iff.1 h]

end Token

/-- Does the text begin with a zero before another digit? -/
def spellsLegacy (raw : String) : Bool :=
  match raw.toList with
  | '0' :: ch :: _ => isDecimalDigit ch
  | _ => false

/-- A number that is spelled with a zero before another digit is marked. -/
def Token.Marked (t : Token) : Prop :=
  ∀ {value legacy}, t.lexeme = .number value legacy → spellsLegacy t.raw = true → legacy = true

theorem Numeral.read_marked {c d : Cursor} {n : Numeral} (h : read c = .ok (n, d))
    (hraw : spellsLegacy (c.textUntil d.offset) = true) :
    n.legacy = true := by
  obtain ⟨cs, across⟩ := read_reaches h
  rw [across.textUntil, spellsLegacy, String.toList_ofList] at hraw
  split at hraw
  next ch rest => exact read_legacy across.rest hraw h
  · cases hraw

/-! ## How tokens are written -/

namespace TemplateChunk

/-- What stands before the text of a chunk. -/
def opening (chunk : TemplateChunk) : String := if chunk.isHead then "\x60" else "\x7d"

/-- What stands behind it. -/
def closing (chunk : TemplateChunk) : String := if chunk.isTail then "\x60" else "$\x7b"

end TemplateChunk

theorem Template.read_textUntil {c d : Cursor} {ch : Char} {rest : List Char}
    {chunk : TemplateChunk} {closing : Closing}
    (hc : c.rest = ch :: rest) (hch : ch = '\x60' ∨ ch = '\x7d') (h : read c = .ok (chunk, closing, d)) :
    c.textUntil d.offset = chunk.opening ++ chunk.raw ++ chunk.closing := by
  obtain ⟨_, cs, e, across, closes, head, raw⟩ := read_across h
  obtain ⟨rfl, -⟩ := List.cons.inj (hc.symm.trans across.rest)
  rw [(across.trans closes).textUntil, TemplateChunk.opening, TemplateChunk.closing, head, raw, read_isTail h]
  rcases hch with rfl | rfl <;> cases closing <;>
    simp [Closing.spelling, String.ofList_append, String.ofList_cons, String.append_assoc]

/-- The token is written as it reads. A name may hold escapes; what else reads differently does not begin like a name.
-/
structure Token.Verbatim (t : Token) : Prop where
  name : t.isName = true → t.raw = t.text ∨ '\\' ∈ t.raw.toList
  other : t.isName = false → t.raw = t.text ∨ ∀ ch ∈ t.raw.toList.head?, isIdentifierStart ch = false
  chunk {chunk : TemplateChunk} : t.lexeme = .template chunk → t.raw = chunk.opening ++ chunk.raw ++ chunk.closing
  tagName {name : String} : t.lexeme = .jsxIdentifier name → t.raw = name

namespace Token.Verbatim

variable {t : Token}

theorem of_name (hname : t.isName = true) (h : t.raw = t.text ∨ '\\' ∈ t.raw.toList) : t.Verbatim where
  name _ := h
  other hother := by simp [hname] at hother
  chunk hl := by simp [isName, hl] at hname
  tagName hl := by simp [isName, hl] at hname

theorem of_text (h : t.raw = t.text) (htemplate : t.isTemplate = false) : t.Verbatim where
  name _ := .inl h
  other _ := .inl h
  chunk hl := by simp [isTemplate, hl] at htemplate
  tagName hl := by simp [h, text, hl]

/-- A token that begins with a character of its own. -/
theorem of_first {ch : Char} {cs : List Char} (hname : t.isName = false) (hraw : t.raw = String.ofList (ch :: cs))
    (hch : isIdentifierStart ch = false)
    (hchunk : ∀ chunk, t.lexeme = .template chunk → t.raw = chunk.opening ++ chunk.raw ++ chunk.closing)
    (htag : ∀ name, t.lexeme ≠ .jsxIdentifier name) : t.Verbatim where
  name h := by simp [hname] at h
  other _ := .inr (by simpa [hraw] using hch)
  chunk hl := hchunk _ hl
  tagName hl := absurd hl (htag _)

theorem of_string {value : String} {legacy : Bool} {ch : Char} {cs : List Char} (hl : t.lexeme = .string value legacy)
    (hraw : t.raw = String.ofList (ch :: cs)) (hch : isIdentifierStart ch = false) : t.Verbatim :=
  of_first (by simp [isName, hl]) hraw hch (by simp [hl]) (by simp [hl])

/-- A name stays one as a keyword. -/
theorem keyword {u : Token} {name : String} (h : t.Verbatim) (ht : t.lexeme = .identifier name)
    (hu : u.lexeme = .keyword name)
    (hraw : u.raw = t.raw) : u.Verbatim := by
  have written := h.name (by simp [isName, ht])
  exact of_name (by simp [isName, hu]) (by simpa [text, ht, hu, hraw] using written)

end Token.Verbatim

theorem Word.isName_classify {name : String} {t : Token} (h : t.lexeme = classify name) :
    t.isName = true ∧ t.text = name := by
  unfold classify at h
  repeat' split at h
  all_goals simp_all [Token.isName, Token.text]

/-- Is the lexeme neither a punctuator nor a piece of a template nor the end? -/
def Lexeme.isPlain : Lexeme → Bool
  | .endOfInput | .punctuator _ | .template _ => false
  | _ => true

theorem Word.isPlain_classify (name : String) : (classify name).isPlain = true := by
  unfold classify
  repeat' split
  all_goals rfl

theorem Word.classify_ne_number (name : String) (value : Float) (legacy : Bool) :
    classify name ≠ .number value legacy := by
  unfold classify
  repeat' split
  all_goals simp

/-- The token is read between the cursors. -/
structure Lexed (c : Cursor) (t : Token) (d : Cursor) : Prop where
  reaches : c.Reaches d
  eq : t = Scan.tokenBetween c d t.lexeme
  end_iff : t.isEnd = true ↔ c.rest = []
  advances : t.isEnd = false → c.offset < d.offset
  spelled {p : Punctuator} : t.lexeme = .punctuator p → c.Across p.spelling d
  /-- A closing brace is a punctuator or goes on with a template. -/
  braced {rest : List Char} : c.rest = '\x7d' :: rest →
    t.lexeme = .punctuator .rightBrace ∨ ∃ chunk, t.lexeme = .template chunk ∧ chunk.isHead = false
  /-- A chunk has another character than its first one as its last one, which is no space. -/
  closes : t.isTemplate = true → ∃ e ch, c.offset < e.offset ∧ c.Reaches e ∧
    e.Across [ch] d ∧ (ch = '\x60' ∨ ch = '\x7b')
  marked : t.Marked
  verbatim : t.Verbatim

namespace Lexed

variable {c d : Cursor}

/-- The token that tells of the end of the source. -/
theorem of_end (hc : c.rest = []) : Lexed c (Scan.tokenBetween c c .endOfInput) c where
  reaches := .refl c
  eq := rfl
  end_iff := by simp [Token.isEnd, Scan.tokenBetween, hc]
  advances h := by simp [Token.isEnd, Scan.tokenBetween] at h
  spelled h := by simp [Scan.tokenBetween] at h
  braced h := by simp [hc] at h
  closes h := by simp [Token.isTemplate, Scan.tokenBetween] at h
  marked h := by simp [Scan.tokenBetween] at h
  verbatim := .of_text (by rw [Scan.tokenBetween, (Cursor.Across.refl c).textUntil]; rfl) rfl

/-- A token that is no punctuator and no piece of a template. -/
theorem of_plain {l : Lexeme} (h : c.Reaches d) (hd : c.offset < d.offset) (hl : l.isPlain = true)
    (hb : ∀ rest, c.rest ≠ '\x7d' :: rest)
    (hm : ∀ {value legacy}, l = .number value legacy → spellsLegacy (c.textUntil d.offset) = true → legacy = true)
    (hv : (Scan.tokenBetween c d l).Verbatim) : Lexed c (Scan.tokenBetween c d l) d where
  reaches := h
  eq := rfl
  end_iff := by
    obtain ⟨cs, hrest, hoffset⟩ := h
    refine ⟨fun hend => ?_, fun hc => ?_⟩
    · cases l <;> simp_all [Token.isEnd, Scan.tokenBetween, Lexeme.isPlain]
    · simp_all
  advances _ := hd
  spelled hp := by simp_all [Scan.tokenBetween, Lexeme.isPlain]
  braced hc := absurd hc (hb _)
  closes ht := by cases l <;> simp_all [Scan.tokenBetween, Token.isTemplate, Lexeme.isPlain]
  marked := hm
  verbatim := hv

theorem of_punctuator {p : Punctuator} (h : c.Across p.spelling d) :
    Lexed c (Scan.tokenBetween c d (.punctuator p)) d where
  reaches := ⟨_, h⟩
  eq := rfl
  end_iff := by
    have : p.spelling ≠ [] := by cases p <;> nofun
    simp_all [Token.isEnd, Scan.tokenBetween, h.rest]
  advances _ := by
    have : bytes p.spelling ≠ 0 := mt bytes_eq_zero.1 (by cases p <;> nofun)
    have := h.offset
    omega
  spelled := by rintro _ ⟨⟩; exact h
  braced hc := by
    have first : p.spelling.head? = some '\x7d' := by
      have : p.spelling ≠ [] := by cases p <;> nofun
      obtain ⟨ch, cs, hcs⟩ := List.exists_cons_of_ne_nil this
      simp_all [h.rest]
    refine .inl ?_
    cases p <;> first | rfl | cases first
  closes := nofun
  marked h := by simp [Scan.tokenBetween] at h
  verbatim := .of_text h.textUntil rfl

end Lexed

/-- A token of JSX, unless it is a stray piece of a template. It is no arrow. -/
structure LexedJsx (c : Cursor) (t : Token) (d : Cursor) : Prop where
  reaches : c.Reaches d
  lexed : t.isTemplate = false → Lexed c t d
  not_arrow : t.isPunctuator .arrow = false

namespace ParseState

/-- The scanner has moved on to `c`. -/
def Scans (s t : ParseState) (c : Cursor) : Prop :=
  ∃ regions errors, t = { s with scanner := { s.scanner with cursor := c, regions, errors } } ∧
    s.scanner.errors <+: errors

variable {s t u : ParseState} {c d : Cursor}

theorem Scans.refl (s : ParseState) : s.Scans s s.scanner.cursor := ⟨_, _, rfl, List.prefix_refl _⟩

theorem Scans.trans : s.Scans t c → t.Scans u d → s.Scans u d := by
  rintro ⟨_, _, rfl, h⟩ ⟨regions, errors, rfl, h'⟩
  exact ⟨regions, errors, rfl, h.trans h'⟩

theorem Scans.cursor : s.Scans t c → t.scanner.cursor = c := by
  rintro ⟨_, _, rfl, -⟩
  rfl

/-- Behind a probe only errors and regions differ. -/
theorem Scans.rewind (h : s.Scans t c) : s.Rests { t with scanner := t.scanner.rewind s.scanner.bookmark } := by
  obtain ⟨regions, errors, rfl, h⟩ := h
  exact ⟨s.context, s.labels, s.cover, _, errors, rfl, h⟩

end ParseState

theorem discard_eq {m : Type → Type} [Monad m] [LawfulMonad m] {α : Type} (p : m α) :
    discard p = p >>= fun _ => pure () := by
  simp only [discard, LawfulFunctor.map_const, map_eq_pure_bind, Function.comp, Function.const]

namespace Parse

variable {α β : Type}

theorem skip_eq : skip = next >>= fun _ => pure () := discard_eq _

theorem scan_bind (p : Scan α) (f : α → Scan β) : scan (p >>= f) = scan p >>= fun a => scan (f a) := by
  funext s
  simp only [scan, bind, EStateM.bind]
  cases p s.scanner <;> rfl

theorem scan_get_bind (f : Scanner → Scan α) : scan (get >>= f) = get >>= fun s => scan (f s.scanner) := rfl

end Parse

namespace Judgement

open Parse

variable {J : Judgement} {α β : Type} {s : ParseState}

/-! ## Steps of scans -/

namespace Ensures

variable {Q : α → ParseState → Prop}

theorem scanPure {a : α} (h : Q a s) : J.Ensures (scan (pure a)) s Q := J.ofPure h

theorem scanBind {p : Scan α} {f : α → Scan β} {P : α → ParseState → Prop} {Q : β → ParseState → Prop}
    (hp : J.Ensures (scan p) s P) (hf : ∀ a t, P a t → J.Ensures (scan (f a)) t Q) :
    J.Ensures (scan (p >>= f)) s Q := by
  rw [scan_bind]
  exact Judgement.bind hp hf

theorem scanGet {f : Scanner → Scan α} (hf : ∀ s : ParseState, f s.silent.scanner = f s.scanner)
    (h : J.Ensures (scan (f s.scanner)) s Q) :
    J.Ensures (scan (MonadState.get >>= f)) s Q := by
  rw [scan_get_bind]
  exact J.ofGet (fun s => by rw [hf]) h

theorem scanMoveTo (c : Cursor) : J.Ensures (scan (Scan.moveTo c)) s fun _ t => s.Scans t c :=
  .modifying (fun _ _ _ => rfl) ⟨_, _, rfl, List.prefix_refl _⟩

theorem scanPass (fault : Fault) : J.Ensures (scan (Scan.pass fault)) s fun _ t => s.Scans t fault.cursor :=
  .scanBind (.scanMoveTo _) fun _ t ht => J.mono (J.ofTolerate fault.error t) <| by
    obtain ⟨regions, errors, rfl, h⟩ := ht
    rintro _ u rfl
    exact ⟨regions, _, rfl, h.trans (List.prefix_append _ _)⟩

theorem scanFail {fault : Fault} : J.Ensures (scan (Scan.fail fault)) s Q :=
  .scanBind (.scanMoveTo _) fun _ _ _ => J.ofThrow

theorem scanReading {r : Except Fault β} {f : β → Scan α} (h : ∀ b, r = .ok b → J.Ensures (scan (f b)) s Q) :
    J.Ensures (scan (Scan.ofReading r >>= f)) s Q := by
  cases r with
  | ok b => exact .scanBind (J.ofPure (Q := fun a t => a = b ∧ t = s) ⟨rfl, rfl⟩) fun _ _ ⟨ha, ht⟩ => ha ▸ ht ▸ h b rfl
  | error fault => exact .scanBind .scanFail fun _ _ h => h

end Ensures

/-! ## Tokens -/

variable {c d : Cursor}

/-- Going over to the end of a token that has been read. -/
theorem Ensures.scanTo {t : ParseState} {l : Lexeme} {e : Cursor} (ht : s.Scans t e)
    (h : Lexed c (Scan.tokenBetween c d l) d) :
    J.Ensures (scan (do Scan.moveTo d; return Scan.tokenBetween c d l)) t fun t u => ∃ d, s.Scans u d ∧ Lexed c t d :=
  .scanBind (.scanMoveTo _) fun _ _ hu => .scanPure ⟨d, ht.trans hu, h⟩

theorem word_ensures (hb : ∀ rest, c.rest ≠ '\x7d' :: rest) :
    J.Ensures (scan (Scan.word c)) s fun t u => ∃ d, s.Scans u d ∧ Lexed c t d := by
  refine .scanReading fun (characters, stop) h => ?_
  obtain ⟨ch, cs, across, spelled⟩ := Word.read_across h
  have lexed : Lexed c (Scan.tokenBetween c stop (Word.classify (String.ofList characters))) stop := by
    refine .of_plain ⟨_, across⟩ ?_ (Word.isPlain_classify _) hb (fun hn =>
      absurd hn (Word.classify_ne_number _ _ _)) ?_
    · rw [across.offset, bytes_cons]
      have := ch.utf8Size_pos
      omega
    · obtain ⟨isName, text⟩ := Word.isName_classify
        (t := Scan.tokenBetween c stop (Word.classify (String.ofList characters))) rfl
      have raw : (Scan.tokenBetween c stop (Word.classify (String.ofList characters))).raw = String.ofList
        (ch :: cs) := across.textUntil
      exact .of_name isName (by rw [raw, text]; exact spelled.imp (by simp [·]) (by simp))
  simp only
  split
  · exact .scanBind (.scanPass _) fun _ t ht => .scanTo ht lexed
  · exact .scanTo (.refl s) lexed

theorem numeral_ensures {ch : Char} {rest : List Char} (hc : c.rest = ch :: rest)
    (hch : isDecimalDigit ch = true ∨ ch = '.') (hb : ∀ rest, c.rest ≠ '\x7d' :: rest) :
    J.Ensures (scan (Scan.numeral c)) s fun t u => ∃ d, s.Scans u d ∧ Lexed c t d :=
  .scanReading fun _ h => .scanTo (.refl s) <|
    .of_plain (Numeral.read_reaches h) (Numeral.read_advances hc hch h) rfl hb
      (fun hn hraw => (Lexeme.number.inj hn).2 ▸ Numeral.read_marked h hraw) (.of_text rfl rfl)

/-- No quote begins a name. -/
theorem isIdentifierStart_of_quote {ch : Char} (h : (ch == '"' || ch == '\'') = true) :
    isIdentifierStart ch = false := by
  simp only [Bool.or_eq_true, beq_iff_eq] at h
  rcases h with rfl | rfl <;> decide

theorem quoted_ensures {ch : Char} {rest : List Char} (hc : c.rest = ch :: rest) (hch : isIdentifierStart ch = false)
    (hb : ∀ rest, c.rest ≠ '\x7d' :: rest) :
    J.Ensures (scan (Scan.quoted c)) s fun t u => ∃ d, s.Scans u d ∧ Lexed c t d := by
  refine .scanReading fun (q, stop) h => .scanTo (.refl s) ?_
  obtain ⟨_, _, hc', reaches⟩ := Quoted.read_reaches h
  obtain ⟨rfl, rfl⟩ := List.cons.inj (hc.symm.trans hc')
  refine .of_plain ((Reaches.pass hc).trans reaches) (Nat.lt_of_lt_of_le ?_ reaches.offset_le) rfl hb (by simp) ?_
  · exact Nat.lt_add_of_pos_right ch.utf8Size_pos
  · obtain ⟨cs, across⟩ := reaches
    exact .of_string rfl ((Across.pass hc).trans across).textUntil hch

theorem template_ensures {ch : Char} {rest : List Char} (hc : c.rest = ch :: rest) (hch : ch = '\x60' ∨ ch = '\x7d') :
    J.Ensures (scan (Scan.template c)) s fun t u => ∃ d, s.Scans u d ∧ Lexed c t d := by
  refine .scanReading fun (chunk, closing, stop) h => ?_
  obtain ⟨_, cs, e, across, closes, head, -⟩ := Template.read_across h
  obtain ⟨rfl, -⟩ := List.cons.inj (hc.symm.trans across.rest)
  have first : c.offset < e.offset := by
    rw [across.offset, bytes_cons]
    have := ch.utf8Size_pos
    omega
  have whole := across.trans closes
  have lexed : Lexed c (Scan.tokenBetween c stop (.template chunk)) stop := by
    refine ⟨⟨_, whole⟩, rfl, ?_, fun _ => ?_, nofun, ?_, fun _ => ?_, ?_, ?_⟩
    · simp [Token.isEnd, Scan.tokenBetween, hc]
    · exact Nat.lt_of_lt_of_le first (Reaches.offset_le ⟨_, closes⟩)
    · rintro _ hbrace
      obtain ⟨rfl, -⟩ := List.cons.inj (hc.symm.trans hbrace)
      exact .inr ⟨chunk, rfl, head⟩
    · obtain ⟨f, last, reaches, ends, hlast⟩ := Template.Closing.ends closes
      exact ⟨f, last, Nat.lt_of_lt_of_le first reaches.offset_le, Reaches.trans ⟨_, across⟩ reaches, ends, hlast⟩
    · simp [Token.Marked, Scan.tokenBetween]
    · have raw : c.textUntil stop.offset = String.ofList (ch :: (cs ++ closing.spelling)) := whole.textUntil
      refine .of_first rfl raw (by rcases hch with rfl | rfl <;> decide) ?_ nofun
      rintro _ ⟨⟩
      exact Template.read_textUntil hc hch h
  exact .scanBind (.modifying (Q := fun _ t => s.Scans t stop) (fun _ _ _ => rfl) ⟨_, _, rfl,
    List.prefix_refl _⟩) fun _ t ht =>
    .scanPure ⟨stop, ht, lexed⟩

theorem punctuator_ensures : J.Ensures (scan (Scan.punctuator c)) s fun t u => ∃ d, s.Scans u d ∧ Lexed c t d := by
  unfold Scan.punctuator
  split
  · exact .scanFail
  next p hp =>
    refine .scanBind (.modifying (Q := fun _ t => s.Scans t _) (fun _ _ _ => rfl) ⟨_, _, rfl,
      List.prefix_refl _⟩) fun _ t ht => ?_
    exact .scanPure ⟨_, ht, .of_punctuator (Punctuator.read_across hp)⟩

theorem token_ensures :
    J.Ensures (scan Scan.token) s fun t u => ∃ d, s.Scans u d ∧ Lexed s.scanner.cursor t d := by
  refine .scanGet (fun _ => rfl) ?_
  simp only
  split
  next hc =>
    exact .scanPure ⟨_, .refl s, .of_end hc⟩
  next ch rest hc =>
    have other (hch : ch ≠ '\x7d') : ∀ rest, s.scanner.cursor.rest ≠ '\x7d' :: rest := by simp_all
    split
    next hword => exact word_ensures (other (by rintro rfl; revert hword; decide))
    split
    next hquoted =>
      exact quoted_ensures hc (isIdentifierStart_of_quote (Bool.or_comm _ _ ▸ hquoted))
        (other (by rintro rfl; revert hquoted; decide))
    split
    next hnumeral =>
      exact numeral_ensures hc (by grind)
        (other (by rintro rfl; simp [show isDecimalDigit '\x7d' = false by decide] at hnumeral))
    split
    next htemplate => exact template_ensures hc (by grind)
    · exact punctuator_ensures

theorem regex_ensures {rest : List Char} (hc : s.scanner.cursor.rest = '/' :: rest) :
    J.Ensures (scan Scan.regex) s fun t u => ∃ d, s.Scans u d ∧ Lexed s.scanner.cursor t d ∧
      t.regex?.isSome = true := by
  refine .scanGet (fun _ => rfl) (.scanReading fun read h => ?_)
  have reaches := Regex.read_reaches hc h
  have lexed : Lexed s.scanner.cursor (Scan.tokenBetween s.scanner.cursor read.cursor (.regex read.literal))
    read.cursor :=
    .of_plain ((Reaches.pass hc).trans reaches)
      (Nat.lt_of_lt_of_le (Nat.lt_add_of_pos_right (Char.utf8Size_pos _)) reaches.offset_le) rfl
        (by simp [hc]) (by simp) <| by
      obtain ⟨cs, across⟩ := reaches
      exact .of_first rfl ((Across.pass hc).trans across).textUntil (by decide) nofun nofun
  have faults : ∀ (faults : List Fault) (t : ParseState) (e : Cursor), s.Scans t e →
      J.Ensures (scan (faults.forM Scan.pass)) t fun _ u => ∃ e, s.Scans u e := by
    intro faults
    induction faults with
    | nil => exact fun t e ht => .scanPure ⟨e, ht⟩
    | cons fault faults ih => exact fun t e ht => .scanBind (.scanPass fault) fun _ u hu => ih u _ (ht.trans hu)
  refine .scanBind (faults read.faults s _ (.refl s)) fun _ t ⟨e, ht⟩ => ?_
  exact .scanBind (.scanMoveTo _) fun _ u hu => .scanPure ⟨_, ht.trans hu, lexed, rfl⟩

/-! ## Tokens of JSX -/

theorem jsxTokenTo_ensures {l : Lexeme} {P : Token → Cursor → Prop}
    (h : P (Scan.tokenBetween s.scanner.cursor d l) d) :
    J.Ensures (scan (Scan.jsxTokenTo d l)) s fun t u => ∃ d, s.Scans u d ∧ P t d :=
  .scanGet (fun _ => rfl) (.scanBind (.scanMoveTo _) fun _ _ hu => .scanPure ⟨d, hu, h⟩)

theorem jsxPunctuator_across {ch : Char} {rest : List Char} {p : Punctuator} (hc : c.rest = ch :: rest)
    (hp : Jsx.punctuator? ch = some p) : c.Across p.spelling (c.pass ch rest) ∧ p ≠ .arrow := by
  unfold Jsx.punctuator? at hp
  split at hp <;> cases hp <;> exact ⟨⟨hc, rfl⟩, by decide⟩

theorem jsxToken_ensures :
    J.Ensures (scan Scan.jsxToken) s fun t u => ∃ d, s.Scans u d ∧ LexedJsx s.scanner.cursor t d := by
  have ordinary (hno : ∀ rest, s.scanner.cursor.rest ≠ '=' :: rest) :
      J.Ensures (scan Scan.token) s fun t u => ∃ d, s.Scans u d ∧ LexedJsx s.scanner.cursor t d :=
    J.mono token_ensures fun t u ht => by
      obtain ⟨d, hu, h⟩ := ht
      refine ⟨d, hu, h.reaches, fun _ => h, ?_⟩
      rw [← Bool.not_eq_true, Token.isPunctuator_iff]
      exact fun harrow => hno _ (h.spelled harrow).rest
  have plain {d : Cursor} {l : Lexeme} (h : s.scanner.cursor.Reaches d) (hd : s.scanner.cursor.offset < d.offset)
      (hl : l.isPlain = true) (hb : ∀ rest, s.scanner.cursor.rest ≠ '\x7d' :: rest) (hm : ∀ value legacy,
        l ≠ .number value legacy)
      (hv : (Scan.tokenBetween s.scanner.cursor d l).Verbatim) :
      LexedJsx s.scanner.cursor (Scan.tokenBetween s.scanner.cursor d l) d :=
    ⟨h, fun _ => .of_plain h hd hl hb (fun hn => absurd hn (hm _ _)) hv, by cases l <;> first | rfl | cases hl⟩
  have punctuator {d : Cursor} {p : Punctuator} (h : s.scanner.cursor.Across p.spelling d) (hp : p ≠ .arrow) :
      LexedJsx s.scanner.cursor (Scan.tokenBetween s.scanner.cursor d (.punctuator p)) d :=
    ⟨⟨_, h⟩, fun _ => .of_punctuator h, by simpa [Token.isPunctuator, Scan.tokenBetween] using hp⟩
  refine .scanGet (fun _ => rfl) ?_
  simp only
  split
  next hc => exact ordinary (by simp [hc])
  next ch rest hc =>
    have first : s.scanner.cursor.offset < (s.scanner.cursor.pass ch rest).offset :=
      Nat.lt_add_of_pos_right ch.utf8Size_pos
    split
    next p hp =>
      obtain ⟨across, hne⟩ := jsxPunctuator_across hc hp
      exact jsxTokenTo_ensures (punctuator across hne)
    next hp =>
      have other (hch : ch ≠ '\x7d') : ∀ rest, s.scanner.cursor.rest ≠ '\x7d' :: rest := by simp_all
      split
      next hquoted =>
        obtain ⟨ds, hds, hn⟩ := Jsx.readString_reaches ch rest
        have across : (s.scanner.cursor.pass ch rest).Across ds
            ((s.scanner.cursor.pass ch rest).moveTo (Jsx.readString ch rest).2.1 (Jsx.readString ch rest).2.2) :=
          .moveTo hds hn
        have whole := (Across.pass hc).trans across
        exact jsxTokenTo_ensures (plain ⟨_, whole⟩ (Nat.lt_of_lt_of_le first (Reaches.offset_le ⟨_, across⟩)) rfl
          (other (by rintro rfl; revert hquoted; decide)) (by simp)
          (.of_string rfl whole.textUntil (isIdentifierStart_of_quote hquoted)))
      split
      next hdot =>
        obtain rfl := eq_of_beq hdot
        split
        · exact jsxTokenTo_ensures (punctuator (p := .ellipsis) ⟨hc, rfl⟩ (by decide))
        · exact jsxTokenTo_ensures (punctuator (p := .dot) ⟨hc, rfl⟩ (by decide))
      split
      · exact jsxTokenTo_ensures ⟨.refl _, by simp [Token.isTemplate, Scan.tokenBetween], rfl⟩
      split
      next hname =>
        have reaches := Reaches.skipWhile Jsx.isNamePart (s.scanner.cursor.pass ch rest)
        exact jsxTokenTo_ensures (plain ((Reaches.pass hc).trans reaches)
          (Nat.lt_of_lt_of_le first reaches.offset_le) rfl
          (other (by rintro rfl; revert hname; decide)) (by simp) (.of_text rfl rfl))
      · refine ordinary fun _ h => ?_
        obtain ⟨rfl, -⟩ := List.cons.inj (hc.symm.trans h)
        exact hp _ rfl

theorem jsxText_ensures :
    J.Ensures (scan Scan.jsxText) s fun t u => ∃ d, s.Scans u d ∧ s.scanner.cursor.Reaches d ∧
      ∃ value, t = Scan.tokenBetween s.scanner.cursor d (.jsxText value) :=
  .scanGet (fun _ => rfl) (jsxTokenTo_ensures (P := fun t d => s.scanner.cursor.Reaches d ∧
    ∃ value, t = Scan.tokenBetween s.scanner.cursor d (.jsxText value)) ⟨Jsx.skipText_reaches _, _, rfl⟩)

/-- The text between tags is taken as it is written. -/
theorem jsxText_verbatim : J.Ensures (scan Scan.jsxText) s fun t _ => t.text = t.raw :=
  .scanGet (fun _ => rfl) (J.mono (jsxTokenTo_ensures (P := fun t _ => t.text = t.raw) rfl) fun _ _ ⟨_, _, h⟩ => h)

/-! ## Probes -/

theorem skipTrivia_ensures :
    J.Ensures (scan Scan.skipTrivia) s fun comments t =>
      s.Scans t (Trivia.skip s.scanner.keepsComments (s.scanner.goal == .script) s.scanner.cursor).cursor ∧
        comments = (Trivia.skip s.scanner.keepsComments (s.scanner.goal == .script) s.scanner.cursor).comments := by
  refine .scanGet (fun _ => rfl) (.scanBind (.scanMoveTo _) fun _ t ht => ?_)
  split
  · exact .scanBind (.scanPass _) fun _ u hu => .scanPure ⟨ht.trans hu, rfl⟩
  · exact .scanPure ⟨ht, rfl⟩

/-- A probe that moves the scanner comes back. -/
theorem Settles.probe {α : Type} {probe : Scan α} (h : ∀ s, J.Ensures (scan probe) s fun _ t => ∃ d, s.Scans t d) :
    J.Settles (scan (Scan.lookAhead probe)) := fun s =>
  J.mono (J.ofLookAhead (h s)) fun _ _ ⟨_, ⟨_, hu⟩, ht⟩ => ht ▸ hu.rewind

/-- Passing trivia and going on. -/
theorem Ensures.scanTrivia {f : Unit → Scan α} (hf : ∀ t, J.Ensures (scan (f ())) t fun _ u => ∃ d, t.Scans u d) :
    J.Ensures (scan (discard Scan.skipTrivia >>= f)) s fun _ t => ∃ d, s.Scans t d := by
  rw [discard_eq, bind_assoc]
  refine .scanBind skipTrivia_ensures fun _ t ⟨ht, _⟩ => .scanBind (.scanPure (Q := fun _ u => u = t) rfl) ?_
  rintro _ _ rfl
  exact J.mono (hf _) fun _ _ ⟨d, hu⟩ => ⟨d, ht.trans hu⟩

namespace Settles

theorem second : J.Settles second :=
  .probe fun _ => .scanTrivia fun _ => J.mono token_ensures fun _ _ ⟨d, hd, _⟩ => ⟨d, hd⟩

theorem behindDot : J.Settles behindDot := by
  refine .probe fun _ => .scanTrivia fun _ => .scanBind token_ensures fun t u ⟨d, hu, _⟩ => ?_
  split
  · refine J.mono (.scanTrivia fun v => .scanBind token_ensures fun _ w ⟨e, hw, _⟩ => .scanPure ⟨e, hw⟩) ?_
    exact fun _ _ ⟨e, hw⟩ => ⟨e, hu.trans hw⟩
  · exact .scanPure ⟨d, hu⟩

theorem checkJsx (p : Punctuator) : J.Settles (checkJsx p) := by
  refine .bind (.probe fun _ => .scanTrivia fun _ => ?_) fun _ => .pure _
  exact J.mono jsxToken_ensures fun _ _ ⟨d, hd, _⟩ => ⟨d, hd⟩

end Settles

end Judgement

end EcmaTree
