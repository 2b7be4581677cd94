import EcmaTree.Proofs.Constants
import EcmaTree.Proofs.Lexer.Faults
import EcmaTree.Proofs.Partition
import EcmaTree.Proofs.Positions
import EcmaTree.Proofs.Recording.Found

/-!
# Line terminators before the lookahead

Statements may end where a line terminator stands before the lookahead, so the parser asks whether one does. It compares
the line where the consumed token ends with the line where the lookahead ends. What it learns is whether a line
terminator stands before the *end* of the lookahead: a template or a string that crosses lines counts as well.
-/

namespace EcmaTree

open Cursor (Reaches Located)

/-- Some line ends in the text. -/
def EndsLine (text : String) : Prop := ∃ ch ∈ text.toList, isLineTerminator ch = true

theorem endsLine_append {first second : String} : EndsLine (first ++ second) ↔ EndsLine first ∨ EndsLine second := by
  simp [EndsLine, or_and_right, exists_or]

/-- Two places in a source are on one line just when no line ends between them. -/
theorem Cursor.Located.line_eq_iff {source : String} {c d : Cursor} (hfits : source.utf8ByteSize < 2 ^ 32)
    (hc : c.Located source) (hd : d.Located source) (h : c.Reaches d) :
    c.line = d.line ↔ ¬ EndsLine (c.textUntil d.offset) := by
  obtain ⟨ds, across⟩ := h
  obtain ⟨cs, hcs, line, -, whole⟩ := hc
  obtain ⟨cs', hcs', line', -, -⟩ := id hd
  obtain rfl : cs' = cs ++ ds := List.append_cancel_right (hcs'.rest.symm.trans (hcs.trans across).rest)
  have apart : ¬ SplitsBreak cs ds := by
    rintro ⟨hlast, hhead⟩
    refine whole ⟨hlast, ?_⟩
    rw [across.rest, List.head?_append, hhead]
    rfl
  have fits : lineBreaks ds < 2 ^ 32 := by
    have := hd.reaches.offset_add_bytes
    have := across.offset
    have := lineBreaks_le_bytes ds
    omega
  rw [lineBreaks_append apart, inWord_eq_mod, UInt32.size] at line'
  rw [inWord_eq_mod, UInt32.size] at line
  rw [across.textUntil, EndsLine, String.toList_ofList]
  have plain : lineBreaks ds = 0 ↔ _ := lineBreaks_eq_zero_iff
  constructor
  · rintro hline ⟨ch, hch, hends⟩
    rw [plain.1 (by omega) ch hch] at hends
    cases hends
  · intro hnone
    have := plain.2 fun ch hch => by
      by_contra hends
      exact hnone ⟨ch, hch, by simpa using hends⟩
    omega

/-! ## Consuming a token -/

namespace ParseState

/-- The lookahead is consumed, and the line where it ends is compared with the line where the next one ends. -/
structure Compares (s t : ParseState) : Prop extends s.Moves t where
  newline : t.newline = (s.lookahead.line != t.lookahead.line)

end ParseState

theorem Token.inStrictCode_line (t : Token) : t.inStrictCode.line = t.line := by
  unfold inStrictCode
  repeat' split
  all_goals rfl

namespace Judgement.onSuccess

open Parse

variable {s : ParseState}

theorem next_compares : onSuccess.Ensures next s fun c t => c = s.lookahead ∧ s.Compares t := by
  have compares : onSuccess.Ensures next s fun c t => t.newline = (c.line != t.lookahead.line) := by
    refine onSuccess.ofBind (.modifying (fun _ _ _ => rfl) (Judgement.bind .skipTrivia ?_))
    rintro _ u -
    refine onSuccess.ofBind (.setStart (Judgement.bind (P := fun _ _ => True) (fun _ _ _ => trivial)
      fun read u _ => ?_))
    refine .get (fun _ => rfl) (onSuccess.ofBind (.modifying (fun _ _ _ => rfl) (onSuccess.ofPure ?_)))
    simp only
    split
    · rw [Token.inStrictCode_line]
    · rfl
  refine onSuccess.mono (and next_moves compares) ?_
  rintro c t ⟨⟨rfl, moves⟩, newline⟩
  exact ⟨rfl, moves, newline⟩

theorem skip_compares : onSuccess.Ensures skip s fun _ t => s.Compares t := by
  rw [skip_eq]
  exact Judgement.bind next_compares fun _ _ h => onSuccess.ofPure h.2

end Judgement.onSuccess

/-! ## Where a parse may get -/

open Parse in
/-- The state may be reached in a parse without elements of JSX, by the steps that its productions are made of. The
token consumed last ends at the offset `stop`; before a token is consumed that is 0. -/
inductive Reached (source : String) (dialect : Dialect) (record : Record) : Nat → ParseState → Prop
  | opened {s : ParseState} : opening (.initial source dialect record) = .ok () s → Reached source dialect record 0 s
  | next {stop : Nat} {s t : ParseState} {c : Token} : Reached source dialect record stop s → next s = .ok c t →
      Reached source dialect record c.stop t
  | regex {stop : Nat} {s t : ParseState} {c : Token} : Reached source dialect record stop s →
      (s.lookahead.isPunctuator .slash || s.lookahead.isPunctuator .divAssign) = true → regex s = .ok c t →
      Reached source dialect record c.stop t
  | rests {stop : Nat} {s t : ParseState} : Reached source dialect record stop s → s.Rests t →
      Reached source dialect record stop t
  | finish {stop : Nat} {s t : ParseState} {n : Node} {start : Place} {kind : Kind Node} :
      Reached source dialect record stop s →
      finish start kind s = .ok n t → Reached source dialect record stop t
  | trail {stop : Nat} {s : ParseState} : Reached source dialect record stop s →
      Reached source dialect record stop { s with last := s.start.place }

/-- The lookahead and the token consumed last are what they should be, and the flag tells whether they end on
different lines. -/
structure Tells (source : String) (stop : Nat) (s : ParseState) : Prop where
  sited : s.Sited (.ofString source)
  start : s.start.Located source
  cursor : s.scanner.cursor.Located source
  consumed : ∃ c : Cursor, c.Located source ∧ c.offset = stop ∧ c.Reaches s.start ∧
    s.newline = (c.line != s.scanner.cursor.line)

namespace Tells

variable {source : String} {dialect : Dialect} {record : Record} {stop : Nat} {s t u : ParseState}

theorem line (h : s.Sited (.ofString source)) : s.lookahead.line = s.scanner.cursor.line := by
  rw [h.lexed.eq]
  rfl

/-- One token further. -/
theorem compares (start : s.start.Located source) (cursor : s.scanner.cursor.Located source)
    (hline : s.lookahead.line = s.scanner.cursor.line) (ht : s.Compares t) :
      Tells source s.scanner.cursor.offset t := by
  have sited := ht.advances.sited start.reaches cursor.reaches
  have located := ParseState.nextStart_located start cursor
  have reaches : s.scanner.cursor.Reaches s.nextStart := by
    obtain ⟨offset, rest⟩ := ParseState.nextStart_spec start.reaches cursor.reaches
    obtain ⟨cs, across⟩ := Trivia.skip_reaches s.scanner.keepsComments s.isScript s.scanner.cursor
    exact ⟨cs, across.rest.trans (congrArg _ rest.symm), offset.trans across.offset⟩
  have same : t.start = s.nextStart := by
    obtain ⟨_, _, _, _, _, _, _, rfl⟩ := ht.advances
    rfl
  refine ⟨sited, same ▸ located, ht.tracks cursor, s.scanner.cursor, cursor, rfl, same ▸ reaches, ?_⟩
  rw [ht.newline, line sited, hline]

theorem next (h : Tells source stop s) (ht : s.Compares t) : Tells source s.lookahead.stop t := by
  have ends : s.lookahead.stop = s.scanner.cursor.offset := by
    rw [h.sited.lexed.eq]
    rfl
  rw [ends]
  exact compares h.start h.cursor (line h.sited) ht

theorem regex (h : Tells source stop s)
    (hslash : (s.lookahead.isPunctuator .slash || s.lookahead.isPunctuator .divAssign) = true) (hu : s.Reads u)
    (ht : u.Compares t) : Tells source u.lookahead.stop t := by
  have sited := hu.rescans.sited h.sited
  have start : u.start.Located source := by
    obtain ⟨_, _, _, _, _, _, _, rfl⟩ := hu.rescans
    exact h.start
  have ends : u.lookahead.stop = u.scanner.cursor.offset := by
    rw [sited.lexed.eq]
    rfl
  rw [ends]
  exact compares start (hu.located h.sited hslash h.start h.cursor) (line sited) ht

theorem congr (h : Tells source stop s)
    (hsame : (t.start, t.lookahead, t.newline, t.scanner.cursor, t.scanner.goal, t.scanner.keepsComments) =
      (s.start, s.lookahead, s.newline, s.scanner.cursor, s.scanner.goal, s.scanner.keepsComments)) : Tells
        source stop t := by
  simp only [Prod.mk.injEq] at hsame
  obtain ⟨hstart, hahead, hnewline, hcursor, hgoal, hkeep⟩ := hsame
  refine ⟨(show s.Placed (.ofString source) .ahead from h.sited).congr (by simp [*]),
    hstart ▸ h.start, hcursor ▸ h.cursor, ?_⟩
  rw [hstart, hnewline, hcursor]
  exact h.consumed

end Tells

/-- Every step keeps to it. -/
theorem Reached.tells {source : String} {dialect : Dialect} {record : Record} {stop : Nat}
    {s : ParseState} (hne : source ≠ "")
    (h : Reached source dialect record stop s) : Tells source stop s := by
  induction h with
  | opened hs =>
    have located : (Cursor.ofString source).Located source :=
      Cursor.located_ofString (by simpa [String.isEmpty_iff] using hne)
    have opens : Judgement.onSuccess.Ensures Parse.opening (.initial source dialect record) fun _ t =>
      Tells source 0 t :=
      Judgement.bind Judgement.onSuccess.skip_compares fun _ u hu => .modifying (fun _ _ _ => rfl)
        ((Tells.compares located located rfl hu).congr rfl)
    exact opens _ _ hs
  | next _ ht ih =>
    obtain ⟨rfl, compares⟩ := Judgement.onSuccess.next_compares _ _ ht
    exact ih.next compares
  | regex _ hslash ht ih =>
    obtain ⟨u, hu, rfl, compares⟩ :=
      Judgement.onSuccess.regex_reads (fun _ => Judgement.onSuccess.skip_compares) ih.sited hslash _ _ ht
    exact ih.regex hslash hu compares
  | rests _ ht ih =>
    obtain ⟨_, _, _, _, _, rfl, _⟩ := ht
    exact ih.congr rfl
  | finish _ ht ih =>
    obtain ⟨-, rfl⟩ := Judgement.Ensures.finish (J := .onSuccess) _ _ ht
    exact ih.congr rfl
  | trail _ ih => exact ih.congr rfl

theorem Reached.dialect {source : String} {dialect : Dialect} {record : Record} {stop : Nat} {s : ParseState}
    (h : Reached source dialect record stop s) :
    s.dialect = dialect := by
  induction h with
  | opened hs =>
    obtain ⟨u, hu, rfl⟩ := Judgement.Ensures.opening (J := .onSuccess) _ _ hs
    exact congrArg Prod.fst hu.constants
  | next _ ht ih => exact (congrArg Prod.fst (Judgement.Ensures.next (J := .onSuccess) _ _ ht).2.constants).trans ih
  | regex _ _ ht ih => exact (congrArg Prod.fst (Constants.regex_constants _ _ _ ht)).trans ih
  | rests _ ht ih => exact (congrArg Prod.fst ht.constants).trans ih
  | finish _ ht ih =>
    obtain ⟨-, rfl⟩ := Judgement.Ensures.finish (J := .onSuccess) _ _ ht
    exact ih
  | trail _ ih => exact ih

/-! ## Every production -/

namespace Newlines

open Judgement Parse

variable {source : String} {dialect : Dialect} {record : Record} {s t : ParseState}

/-- A parse stands where it may get, and never in an element of JSX. -/
def Stands (source : String) (dialect : Dialect) (record : Record) (m : Mode) (s : ParseState) : Prop :=
  m = .ahead ∧ ∃ stop, Reached source dialect record stop s

namespace Stands

theorem rests {m : Mode} (h : Stands source dialect record m s) (ht : s.Rests t) : Stands source dialect record m t :=
  ⟨h.1, h.2.imp fun _ h => h.rests ht⟩

theorem next (h : Stands source dialect record .ahead s) : onSuccess.Ensures next s fun c t =>
    c = s.lookahead ∧ Stands source dialect record .ahead t := by
  obtain ⟨-, stop, h⟩ := h
  exact fun c t ht => ⟨(Judgement.Ensures.next (J := .onSuccess) c t ht).1, rfl, _, h.next ht⟩

theorem skip (h : Stands source dialect record .ahead s) :
    onSuccess.Ensures skip s fun _ t => Stands source dialect record .ahead t := by
  rw [skip_eq]
  exact Judgement.bind h.next fun _ _ ht => onSuccess.ofPure ht.2

theorem expect {p : Punctuator} (h : Stands source dialect record .ahead s) :
    onSuccess.Ensures (expect p) s fun _ t => Stands source dialect record .ahead t :=
  Judgement.bind h.next fun _ _ ht => .ite (fun _ => onSuccess.ofPure ht.2) fun _ => .failAt

theorem passOver (h : Stands source dialect record .ahead s) :
    onSuccess.Ensures passOver s fun _ t => Stands source dialect record .ahead t :=
  Judgement.bind h.next fun _ _ ht => onSuccess.mono (Settles.tolerateAt _ _) fun _ _ hu => ht.2.rests hu

theorem finish {start : Place} {kind : Kind Node} (h : Stands source dialect record .ahead s) :
    onSuccess.Ensures (finish start kind) s fun _ t => Stands source dialect record .ahead t := by
  obtain ⟨-, stop, h⟩ := h
  exact fun _ _ ht => ⟨rfl, stop, h.finish ht⟩

end Stands

/-- Without elements of JSX, no production gets anywhere else. -/
def contract (source : String) (dialect : Dialect) (record : Record) (hjsx : dialect.jsx = false) : Contract where
  toJudgement := .onSuccess
  Stands := Stands source dialect record
  Steps _ _ := True
  Read _ _ := True
  Later _ _ := True
  Good _ _ _ := True
  Firm _ _ _ := True
  Past _ _ := True
  Tells _ _ _ := True
  Escapes _ := True
  Initial s := s = .initial source dialect record
  Opened _ := True
  steps_trans _ _ := trivial
  steps_of_rests _ := trivial
  steps_of_read _ := trivial
  read_of_steps _ _ := trivial
  read_later _ _ := trivial
  later_of_steps _ := trivial
  stands_of_rests ht h := h.rests ht
  entering_of_inside h := by cases h.1
  good_steps _ _ := trivial
  good_from _ _ := trivial
  firm_later _ _ := trivial
  firm_from _ _ := trivial
  good_of_firm _ := trivial
  firm_of_read _ _ := trivial
  firm_of_not_arrow _ _ := trivial
  firm_of_identifier _ _ := trivial
  firm_toPattern _ := trivial
  firm_child _ _ := trivial
  firm_parameter _ _ _ _ := trivial
  firm_yield _ _ _ := trivial
  good_placeholder _ _ _ := trivial
  good_escaped _ _ _ := trivial
  tells_of_rests _ _ _ := trivial
  tells_steps _ _ := trivial
  ofNext h := onSuccess.mono h.next fun _ _ ht => ⟨ht.1, ht.2, trivial, fun _ => trivial, trivial, fun _ _ => trivial⟩
  ofClose h _ _ _ := onSuccess.mono h.skip fun _ _ ht => ⟨ht, trivial, trivial⟩
  ofRegex := by
    rintro s ⟨-, stop, h⟩ hslash _ t ht
    exact ⟨⟨rfl, _, h.regex hslash ht⟩, trivial, trivial⟩
  ofTrail := by
    rintro s ⟨-, stop, h⟩ _ _ ⟨⟩
    exact ⟨⟨rfl, stop, h.trail⟩, trivial⟩
  ofFinish {m _ _ _ _} h _ _ _ _ _ := by
    obtain rfl := h.1
    refine onSuccess.mono (onSuccess.and h.finish .finish) ?_
    rintro n t ⟨stands, rfl, rfl⟩
    exact ⟨stands, rfl, trivial, trivial, rfl, trivial, fun _ => trivial⟩
  ofSeparator {s} h := by
    refine onSuccess.mono (Q := fun _ t => Stands source dialect record .ahead t) ?_ fun _ _ ht => ⟨ht, trivial⟩
    refine onSuccess.get (.ite (fun _ => h.expect) fun _ => .ite (fun _ => h.skip) fun _ =>
      .ite (fun _ => h.passOver) fun _ => ?_)
    exact onSuccess.mono (Settles.tolerateWith _ _ s) fun _ _ ht => h.rests ht
  ofEndDoWhile {s} h := by
    refine onSuccess.mono (Q := fun _ t => Stands source dialect record .ahead t) ?_ fun _ _ ht => ⟨ht, trivial⟩
    refine .check (onSuccess.get (.ite (fun _ => h.passOver) fun _ => Judgement.bind h.expect fun _ u hu => ?_))
    rw [discard_eq]
    refine Judgement.bind (P := fun _ t => Stands source dialect record .ahead t)
      (.check (.ite (fun _ => ?_) fun _ => onSuccess.ofPure hu))
      fun _ _ ht => onSuccess.ofPure ht
    exact Judgement.bind hu.skip fun _ _ ht => onSuccess.ofPure ht
  ofMissingParen {β s f Q} h _ hnone hsome := by
    refine Judgement.bind (P := fun e t => e = none ∧ t = s ∨ ∃ n, e = some n ∧
      Stands source dialect record .ahead t) ?_ ?_
    · refine onSuccess.get (.ite (fun _ => onSuccess.ofPure (.inl ⟨rfl, rfl⟩)) fun _ => ?_)
      refine Judgement.bind h.passOver fun _ u hu => .mark (Judgement.bind hu.finish fun n t ht => ?_)
      exact onSuccess.ofPure (.inr ⟨n, rfl, ht⟩)
    · rintro _ _ (⟨rfl, rfl⟩ | ⟨n, rfl, ht⟩)
      · exact hnone
      · exact hsome n _ ht trivial trivial
  ofStartJsx := by
    rintro s ⟨-, stop, h⟩ hjsx' -
    rw [h.dialect, hjsx] at hjsx'
    cases hjsx'
  ofSkipTrivia hm h := absurd h.1 hm
  ofNextJsx h := by cases h.1
  ofNextJsxText h := by cases h.1
  ofEmptyExpression h := by cases h.1
  ofSkipInside h := by cases h.1
  ofReenterJsx h _ _ := by cases h.1
  ofOpening := by
    rintro s rfl _ t ht
    exact ⟨⟨rfl, 0, .opened ht⟩, trivial⟩
  read_of_end _ _ _ _ := trivial

end Newlines

/-- The flag is set just when a line ends between the token consumed last and the lookahead, or within the lookahead.
Without elements of JSX a parse gets nowhere else. -/
theorem newline_tells {source : String} {dialect : Dialect} {record : Record} (hfits : source.utf8ByteSize < 2 ^ 32)
    (hne : source ≠ "") (hjsx : dialect.jsx = false) :
    (∀ stop s, Reached source dialect record stop s → ∃ gap, SliceOf source stop s.lookahead.start gap ∧
      SliceOf source s.lookahead.start s.lookahead.stop s.lookahead.raw ∧
      (s.newline = true ↔ EndsLine gap ∨ EndsLine s.lookahead.raw)) ∧
    ∀ root s, Parse.source source dialect record = .ok root s → ∃ stop, Reached source dialect record stop s := by
  refine ⟨fun stop s h => ?_, fun root s hs => ?_⟩
  · obtain ⟨sited, start, cursor, c, located, rfl, reaches, newline⟩ := h.tells hne
    have whole := located.line_eq_iff hfits cursor (reaches.trans sited.lexed.reaches)
    obtain ⟨cs, across⟩ := reaches
    obtain ⟨ds, across'⟩ := sited.lexed.reaches
    have gap := slice_of_reaches located.reaches ⟨cs, across⟩
    have token := slice_of_reaches start.reaches ⟨ds, across'⟩
    rw [sited.lexed.eq]
    refine ⟨_, gap, token, ?_⟩
    rw [newline, bne_iff_ne, ne_eq, whole, not_not, (across.trans across').textUntil,
      String.ofList_append, endsLine_append,
      ← across.textUntil, ← across'.textUntil]
    rfl
  · obtain ⟨_, _, held, -⟩ := Contract.source_held (K := Newlines.contract source dialect record hjsx) source
      dialect record rfl root s hs
    exact held.stands.2

/-- A source in which lines end between tokens and within a template. -/
theorem newline_tells_template : "a\n(\x60\n\x60)".utf8ByteSize < 2 ^ 32 ∧ "a\n(\x60\n\x60)" ≠ "" ∧
    ({} : Dialect).jsx = false ∧ ∃ root s stop gap, Parse.source "a\n(\x60\n\x60)" {} = .ok root s ∧
      Reached "a\n(\x60\n\x60)" {} .complete stop s ∧ SliceOf "a\n(\x60\n\x60)" stop s.lookahead.start gap ∧
      (s.newline = true ↔ EndsLine gap ∨ EndsLine s.lookahead.raw) := by
  obtain ⟨tells, reached⟩ := @newline_tells "a\n(\x60\n\x60)" {} .complete (by decide) (by decide) rfl
  have parses : (parse "a\n(\x60\n\x60)" {}).toOption.isSome = true := by decide +kernel
  obtain ⟨p, hp⟩ := exists_ok_of_isSome parses
  obtain ⟨root, s, hs, -⟩ := parse_eq_ok.1 hp
  obtain ⟨stop, hstop⟩ := reached root s hs
  obtain ⟨gap, slice, -, flag⟩ := tells stop s hstop
  exact ⟨by decide, by decide, rfl, root, s, stop, gap, hs, hstop, slice, flag⟩

/-- The end of the first token of a source, the flag behind it and the beginning of the second token. -/
def behindFirst : Parse (Nat × Bool × Nat) := do
  Parse.opening
  let first ← Parse.next
  let s ← get
  return (first.stop, s.newline, s.lookahead.start)

/-- In front of a template that crosses lines the flag is set, though no line ends before the template. -/
theorem newline_within_template : ∃ s, Reached "throw \x60\n\x60" {} .complete 5 s ∧ s.newline = true ∧
    SliceOf "throw \x60\n\x60" 5 s.lookahead.start " " ∧ ¬ EndsLine " " := by
  have run : behindFirst.run' (.initial "throw \x60\n\x60" {}) = some (5, true, 6) := by decide +kernel
  obtain ⟨t, hrun⟩ := eq_ok_of_run' run
  obtain ⟨_, s, hopening, hrun⟩ := Parse.bind_eq_ok.1 hrun
  obtain ⟨c, u, hnext, hrun⟩ := Parse.bind_eq_ok.1 hrun
  injection hrun with hfound _
  injection hfound with hstop hfound
  injection hfound with hnewline hstart
  refine ⟨u, hstop ▸ (Reached.opened hopening).next hnext, hnewline, ?_, ?_⟩
  · rw [hstart]
    exact ⟨"throw", "\x60\n\x60", by decide, by decide, by decide⟩
  · rintro ⟨ch, hch, hends⟩
    obtain rfl : ch = ' ' := by simpa using hch
    cases hends

end EcmaTree
