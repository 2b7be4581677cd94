import EcmaTree.Proofs.Grammar.Program
import EcmaTree.Proofs.Tokenizer.Lossless
import EcmaTree.Proofs.Tracking
import EcmaTree.Proofs.Recording.Found

/-!
# Lines and columns of nodes

A node ends where the last consumed token does, and begins at a mark or where its first token does. Marks and ends
have the line and the column of their offset. A token knows the line where it ends and not the one where it begins, so
the beginning of a node may be placed wrongly if a token begins there that crosses lines.
-/

namespace EcmaTree

/-- Below an offset of 4 GiB a place that a cursor stands at has the line and the column of its offset. -/
theorem Place.Located.positionAt {source : String} {p : Place} (h : p.Located source)
    (hfits : source.utf8ByteSize < 2 ^ 32) :
    PositionAt source p.offset p.position := by
  obtain ⟨c, hc, rfl⟩ := h
  exact hc.positionAt hfits

namespace Cursor

variable {source : String} {c d : Cursor} {cs : List Char}

theorem Located.located_place (h : c.Located source) : c.place.Located source := ⟨c, h, rfl⟩

theorem Located.lineStart_le (h : c.Located source) : c.lineStart ≤ c.offset := by
  obtain ⟨cs, -, -, hstart, -⟩ := h
  omega

/-- The offset tells the line and the column. -/
theorem Located.eq (hc : c.Located source) (hd : d.Located source) (hoffset : c.offset = d.offset) : c = d := by
  have hrest := hc.reaches.rest_eq hd.reaches hoffset
  obtain ⟨cs, across, hline, hstart, -⟩ := hc
  obtain ⟨ds, across', hline', hstart', -⟩ := hd
  obtain rfl : cs = ds := by
    have := across.rest.symm.trans across'.rest
    rw [hrest] at this
    exact List.append_cancel_right this
  have line : c.line = d.line := hline.trans hline'.symm
  have lineStart : c.lineStart = d.lineStart := by omega
  obtain ⟨_, _, _, _⟩ := c
  obtain ⟨_, _, _, _⟩ := d
  simp_all

/-- Over characters that are no line terminators, the line stays the same. -/
theorem Located.sameLine (hc : c.Located source) (hd : d.Located source) (across : c.Across cs d)
    (hcs : ∀ ch ∈ cs, isLineTerminator ch = false) : c.SameLine d := by
  let e : Cursor := { d with line := c.line, lineStart := c.lineStart }
  have same : c.SameLine e := ⟨cs, ⟨across.rest, across.offset⟩, hcs, rfl, rfl⟩
  rwa [hd.eq (same.tracks hc) rfl]

end Cursor

/-- A token that keeps to its line is placed where it begins. -/
theorem Scan.placeAfter_tokenBetween {source : String} {c d : Cursor} {l : Lexeme}
    {lineAbove : Nat} (hc : c.Located source)
    (hd : d.Located source) (h : c.Reaches d) (hplain : (tokenBetween c d l).crossesLines = false) :
    (tokenBetween c d l).placeAfter lineAbove = c.place := by
  obtain ⟨cs, across⟩ := h
  have hcs : ∀ ch ∈ cs, isLineTerminator ch = false := by
    simpa [Token.crossesLines, tokenBetween, across.textUntil] using hplain
  obtain ⟨-, -, -, hline, hstart⟩ := hc.sameLine hd across hcs
  have began : (tokenBetween c d l).lineStart ≤ (tokenBetween c d l).start :=
    Nat.le_trans (Nat.le_of_eq hstart) hc.lineStart_le
  rw [Token.placeAfter, if_pos began]
  simp only [tokenBetween, Token.start, hline, hstart, Cursor.place, Cursor.column_eq_inWord hc.lineStart_le]

/-- At the end of the source no line ends. -/
theorem Lexed.crossesLines_of_end {c d : Cursor} {t : Token} (h : Lexed c t d) (hc : c.rest = []) :
    t.crossesLines = false := by
  obtain ⟨cs, across⟩ := h.reaches
  obtain ⟨rfl, -⟩ := List.append_eq_nil_iff.1 (hc.symm.trans across.rest).symm
  rw [h.eq]
  simp [Token.crossesLines, Scan.tokenBetween, across.textUntil]

/-- A punctuator keeps to its line. -/
theorem Lexed.crossesLines_of_punctuator {c d : Cursor} {t : Token} {p : Punctuator} (h : Lexed c t d)
    (hp : t.isPunctuator p = true) : t.crossesLines = false := by
  have across := h.spelled (Token.isPunctuator_iff.1 hp)
  rw [h.eq]
  simpa [Token.crossesLines, Scan.tokenBetween, across.textUntil] using fun ch => Punctuator.isLineTerminator_of_mem

theorem ParseState.nextStart_located {source : String} {s : ParseState} (start : s.start.Located source)
    (cursor : s.scanner.cursor.Located source) : s.nextStart.Located source := by
  rw [nextStart]
  split
  · exact start
  · exact (Trivia.skip_passes ..).tracks cursor

/-- Where a slash is read again as a regular expression, the scanner knows its line behind that. -/
theorem ParseState.Reads.located {source : String} {s u : ParseState} (hu : s.Reads u) (hs : s.Sited (.ofString source))
    (hslash : (s.lookahead.isPunctuator .slash || s.lookahead.isPunctuator .divAssign) = true)
    (start : s.start.Located source)
    (cursor : s.scanner.cursor.Located source) : u.scanner.cursor.Located source := by
  obtain ⟨p, _, hp, -⟩ := hs.slash hslash
  obtain ⟨-, -, -, line, lineStart⟩ := start.sameLine cursor (hs.lexed.spelled (Token.isPunctuator_iff.1 hp)) fun _ =>
    Punctuator.isLineTerminator_of_mem
  have back : { s.scanner.cursor with offset := s.start.offset, rest := s.start.rest } = s.start := by
    simp only [line, lineStart]
  exact hu.tracks (back ▸ start)

/-! ## What every production keeps -/

namespace Positions

open Tokens

variable {source : String} {m : Mode} {r s t u : ParseState} {n : Node}

/-- Where elements of JSX may be read, no string crosses lines. -/
def Straight (s : ParseState) : Prop :=
  s.dialect.jsx = true → ∀ token ∈ listed s, token.isString = true → token.crossesLines = false

/-- No token that begins at the offset crosses lines. -/
def PlainAt (s : ParseState) (offset : Nat) : Prop :=
  ∀ token ∈ listed s, token.start = offset → token.crossesLines = false

/-- Tokens that cross lines stay listed. -/
structure Keeps (s t : ParseState) : Prop where
  dialect : t.dialect = s.dialect
  tokens : ∀ token ∈ listed s, token.crossesLines = true → token ∈ listed t

/-- The lookahead is the last token that is listed. -/
def Listed (s : ParseState) : Prop := ∃ tokens, listed s = tokens ++ [s.lookahead]

/-- The cursors of a parse and the end of the last consumed token know their lines. -/
structure Located (source : String) (s : ParseState) : Prop where
  start : s.start.Located source
  cursor : s.scanner.cursor.Located source
  last : s.last.Located source

/-- A node that begins with the lookahead is placed where it begins, unless a token is there that crosses lines. -/
def Marked (source : String) (s : ParseState) : Prop :=
  ∀ place, s.Marks place → PlainAt s place.offset → place.Located source

/-- A strict parse with a complete record knows its lines. -/
structure Runs (source : String) (s : ParseState) : Prop where
  complete : s.Complete
  strict : s.dialect.tolerant = false
  scanner : s.scanner.tolerant = false
  located : Straight s → Located source s

/-- Where a strict parse stands. -/
structure Stands (source : String) (m : Mode) (s : ParseState) : Prop where
  runs : Runs source s
  jsx : m ≠ .ahead → s.dialect.jsx = true
  placed : s.Placed (.ofString source) m
  listed : m = .ahead → s.lookahead.isEnd = false → Listed s

/-- The parse has moved on. -/
structure Steps (source : String) (s t : ParseState) : Prop where
  keeps : Keeps s t
  marked : Straight t → Marked source t → Marked source s

/-- Something has been consumed. -/
structure Read (source : String) (s t : ParseState) : Prop where
  keeps : Keeps s t
  marked : Straight t → Marked source s

/-- Every node ends where it says, and begins there unless a token does that crosses lines. -/
def Good (source : String) (n : Node) (t : ParseState) : Prop :=
  Straight t → n.All fun n => ∀ e, n.info.extent = some e → e.stop.Located source ∧
    (PlainAt t e.start.offset → e.start.Located source)

namespace Keeps

theorem of_eq (hdialect : t.dialect = s.dialect) (hlisted : listed t = listed s) : Keeps s t :=
  ⟨hdialect, fun _ h _ => hlisted ▸ h⟩

theorem trans (h : Keeps r s) (h' : Keeps s t) : Keeps r t where
  dialect := h'.dialect.trans h.dialect
  tokens token htoken hcrosses := h'.tokens token (h.tokens token htoken hcrosses) hcrosses

theorem straight (h : Keeps s t) (ht : Straight t) : Straight s := fun hjsx token htoken hstring => by
  rw [← Bool.not_eq_true]
  intro hcrosses
  have := ht (h.dialect ▸ hjsx) token (h.tokens token htoken hcrosses) hstring
  simp_all

theorem unread (h : Keeps s t) : Keeps s t.unread := ⟨h.dialect, h.tokens⟩

theorem plainAt {offset : Nat} (h : Keeps s t) (ht : PlainAt t offset) : PlainAt s offset :=
  fun token htoken hstart => by
  rw [← Bool.not_eq_true]
  intro hcrosses
  have := ht token (h.tokens token htoken hcrosses) hstart
  simp_all

end Keeps

theorem Steps.trans (h : Steps source r s) (h' : Steps source s t) : Steps source r t :=
  ⟨h.keeps.trans h'.keeps, fun ht hmarked => h.marked (h'.keeps.straight ht) (h'.marked ht hmarked)⟩

theorem Steps.rests (h : s.Rests t) : Steps source s t := by
  obtain ⟨_, _, _, _, _, rfl, _⟩ := h
  exact ⟨⟨rfl, fun _ h _ => h⟩, fun _ h => h⟩

theorem Read.steps (h : Read source s t) : Steps source s t := ⟨h.keeps, fun ht _ => h.marked ht⟩

theorem Read.after (h : Steps source r s) (h' : Read source s t) : Read source r t :=
  ⟨h.keeps.trans h'.keeps, fun ht => h.marked (h'.keeps.straight ht) (h'.marked ht)⟩

theorem Read.before (h : Read source r s) (h' : Steps source s t) : Read source r t :=
  ⟨h.keeps.trans h'.keeps, fun ht => h.marked (h'.keeps.straight ht)⟩

theorem Good.steps (h : Good source n t) (h' : Steps source t u) : Good source n u := fun hu entry hentry e he =>
  have ⟨stop, start⟩ := h (h'.keeps.straight hu) entry hentry e he
  ⟨stop, fun hplain => start (h'.keeps.plainAt hplain)⟩

theorem Good.recast {n' : Node} (h : Good source n t) (hn : n.Recast n') : Good source n' t := fun ht =>
  hn.all (fun hr hP e he => hP e (hr.extent.symm.trans he)) (h ht)

theorem Good.child {c : Node} (h : Good source n t) (hc : c ∈ n.children) : Good source c t := fun ht => (h ht).child hc

/-- Parameters that wait for their arrow have no place of their own. -/
theorem Good.placeholder {params : List Node} {async : Bool} (h : ∀ n ∈ params, Good source n t) :
    Good source (Parse.placeholder params async) t := fun ht => by
  refine Node.all_iff.2 ⟨fun e he => ?_, fun c hc => h c hc ht⟩
  cases he

/-! ## Consuming tokens -/

theorem Keeps.advances (hs : s.Complete) (h : s.Advances t) : Keeps s t := by
  have tokens := listed_advances hs h
  obtain ⟨token, _, _, _, _, _, _, rfl⟩ := h
  exact ⟨rfl, fun token htoken _ => tokens ▸ List.mem_append_left _ htoken⟩

/-- A token that keeps to its line may be left out. -/
theorem Keeps.pop (hs : Listed s) (hplain : s.lookahead.crossesLines = false) (hdialect : t.dialect = s.dialect)
    (htokens : ∀ token ∈ (listed s).dropLast, token ∈ listed t) : Keeps s t := by
  obtain ⟨tokens, hs⟩ := hs
  refine ⟨hdialect, fun token htoken hcrosses => htokens token ?_⟩
  rw [hs] at htoken ⊢
  rw [List.dropLast_concat]
  rcases List.mem_append.1 htoken with htoken | htoken
  · exact htoken
  · rw [List.mem_singleton.1 htoken, hplain] at hcrosses
    cases hcrosses

theorem Runs.advances (h : Runs source s) (ht : s.Moves t) : Runs source t := by
  have keeps := Keeps.advances h.complete ht.advances
  have complete := h.complete.advances ht.advances
  have tracks := ht.tracks
  obtain ⟨_, _, _, _, _, _, _, rfl⟩ := ht.advances
  refine ⟨complete, h.strict, h.scanner, fun hstraight => ?_⟩
  obtain ⟨start, cursor, -⟩ := h.located (keeps.straight hstraight)
  exact ⟨ParseState.nextStart_located start cursor, tracks cursor, cursor.located_place⟩

namespace Stands

theorem located (h : Stands source m s) (hs : Straight s) : Located source s := h.runs.located hs

theorem complete (h : Stands source m s) : s.Complete := h.runs.complete

/-- Only what has been read and recorded counts. -/
theorem rests (h : Stands source m s) (ht : s.Rests t) : Stands source m t := by
  have placed := h.placed.rests ht
  have complete := h.complete.rests ht
  obtain ⟨_, _, _, _, _, rfl, _⟩ := ht
  exact ⟨⟨complete, h.runs.strict, h.runs.scanner, fun hs => ⟨(h.located hs).start, (h.located hs).cursor,
    (h.located hs).last⟩⟩, h.jsx, placed, h.listed⟩

/-- A node that begins with the lookahead has its place, unless the lookahead crosses lines. -/
theorem marked (h : Stands source .ahead s) (hs : Straight s) : Marked source s := by
  obtain ⟨start, cursor, -⟩ := h.located hs
  have lexed := (show s.Sited (.ofString source) from h.placed).lexed
  rintro place (rfl | ⟨lineAbove, rfl⟩) hplain
  · exact start.located_place
  · have plain : s.lookahead.crossesLines = false := by
      by_cases hend : s.lookahead.isEnd = true
      · exact lexed.crossesLines_of_end (lexed.end_iff.1 hend)
      · obtain ⟨tokens, htokens⟩ := h.listed rfl (Bool.eq_false_iff.2 hend)
        refine hplain s.lookahead (htokens ▸ List.mem_append_right _ (List.mem_singleton_self _)) ?_
        unfold Token.placeAfter
        split <;> rfl
    rw [lexed.eq] at plain ⊢
    rw [Scan.placeAfter_tokenBetween start cursor lexed.reaches plain]
    exact start.located_place

/-- Where nothing is read ahead, a node begins at the scanner. -/
theorem marked_unread (h : s.scanner.cursor.Located source) : Marked source s.unread := by
  rintro place (rfl | ⟨lineAbove, rfl⟩) -
  · exact h.located_place
  · have across : s.scanner.cursor.Across [] s.scanner.cursor := ⟨rfl, rfl⟩
    rw [ParseState.unread, Scan.placeAfter_tokenBetween h h ⟨_, across⟩]
    · exact h.located_place
    · simp [Token.crossesLines, Scan.tokenBetween, across.textUntil]

/-- In an element of JSX no token is read ahead. -/
theorem of_ne (hm : m ≠ .ahead) (h : Runs source s) (hjsx : s.dialect.jsx = true) (hs : s.Placed (.ofString source) m) :
    Stands source m s := ⟨h, fun _ => hjsx, hs, fun hahead => absurd hahead hm⟩

/-- A token that has been read is listed. -/
theorem ahead (h : Runs source t) (hc : s.Complete) (hs : s.Placed (.ofString source) m) (ht : s.Advances t) :
    Stands source .ahead t := by
  refine ⟨h, fun hm => absurd rfl hm, hs.advances ht, fun _ hend => ⟨Tokens.listed s, ?_⟩⟩
  rw [listed_advances hc ht, if_neg (ne_true_of_eq_false hend)]

theorem read (h : Stands source .ahead s) (keeps : Keeps s t) : Read source s t :=
  ⟨keeps, fun hs => h.marked (keeps.straight hs)⟩

theorem read_unread (h : Stands source m s) (keeps : Keeps s t) : Read source s.unread t :=
  ⟨⟨keeps.dialect, keeps.tokens⟩, fun hs => marked_unread (h.located (keeps.straight hs)).cursor⟩

theorem next (h : Stands source .ahead s) (ht : s.Moves t) : Stands source .ahead t ∧ Read source s t := by
  exact ⟨.ahead (h.runs.advances ht) h.complete h.placed ht.advances, h.read (.advances h.complete ht.advances)⟩

theorem skipInside (h : Stands source .inside s) (ht : s.Moves t) :
    Stands source .ahead t ∧ Read source s.unread t := by
  exact ⟨.ahead (h.runs.advances ht) h.complete h.placed ht.advances, h.read_unread (.advances h.complete ht.advances)⟩

theorem regex (h : Stands source .ahead s)
    (hslash : (s.lookahead.isPunctuator .slash || s.lookahead.isPunctuator .divAssign) = true)
    (hu : s.Reads u) (ht : u.Moves t) : Stands source .ahead t ∧ Read source s t := by
  obtain ⟨p, _, hp, -⟩ := (show s.Sited (.ofString source) from h.placed).slash hslash
  have lexed := (show s.Sited (.ofString source) from h.placed).lexed
  have placed := hu.rescans.sited h.placed
  have complete := h.complete.rescans hu.rescans
  have tokens := listed_rescans h.complete hu.rescans
  have keeps : Keeps s u := by
    refine .pop (h.listed rfl (Token.isEnd_of_isPunctuator hp)) (lexed.crossesLines_of_punctuator hp) ?_ fun _ htoken =>
      tokens ▸ List.mem_append_left _ htoken
    obtain ⟨_, _, _, _, _, _, _, rfl⟩ := hu.rescans
    rfl
  have runs : Runs source u := by
    have located := fun hu : Straight u => h.located (keeps.straight hu)
    have cursor := fun hu' : Straight u => hu.located h.placed hslash (located hu').start (located hu').cursor
    obtain ⟨_, _, _, _, _, _, _, rfl⟩ := hu.rescans
    exact ⟨complete, h.runs.strict, h.runs.scanner, fun hs => ⟨(located hs).start, cursor hs, (located hs).last⟩⟩
  exact ⟨.ahead (runs.advances ht) complete (m := .ahead) placed ht.advances,
    h.read (keeps.trans (.advances complete ht.advances))⟩

theorem trail (h : Stands source .ahead s) :
    Stands source .ahead { s with last := s.start.place } ∧ Steps source s { s with last := s.start.place } := by
  refine ⟨⟨⟨⟨h.complete.record, h.complete.scanner⟩, h.runs.strict, h.runs.scanner, fun hs => ?_⟩, h.jsx,
    h.placed.congr rfl,
    h.listed⟩, ⟨rfl, fun _ h _ => h⟩, fun _ h => h⟩
  have located := h.located hs
  exact ⟨located.start, located.cursor, located.start.located_place⟩

theorem finish {base : ParseState} {start : Place} {kind : Kind Node} (h : Stands source m s)
    (hread : Read source base (s.view m)) (hstart : base.Marks start)
    (hchildren : ∀ n ∈ kind.children, Good source n (s.view m))
    (hn : n = .mk (s.finishedInfo start) kind)
    (ht : t = { s with finished := s.finished + 1, record := s.record.report (.node n ⟨start, s.last⟩) }) :
    Stands source m t ∧ Steps source (s.view m) (t.view m) ∧ Good source n (t.view m) := by
  have steps : Steps source (s.view m) (t.view m) := by
    subst ht
    cases m <;> exact ⟨⟨rfl, fun _ h _ => h⟩, fun _ h => h⟩
  have good : Good source n (s.view m) := fun hs => by
    have last : s.last.Located source := by
      refine (h.located ?_).last
      cases m <;> exact hs
    rw [hn]
    refine Node.all_iff.2 ⟨?_, fun c hc => hchildren c hc hs⟩
    rintro _ ⟨⟩
    exact ⟨last, fun hplain => hread.marked hs start hstart (hread.keeps.plainAt hplain)⟩
  refine ⟨?_, steps, good.steps steps⟩
  subst ht
  exact ⟨⟨h.complete.finished _, h.runs.strict, h.runs.scanner, fun hs =>
    ⟨(h.located hs).start, (h.located hs).cursor, (h.located hs).last⟩⟩, h.jsx, h.placed.congr rfl, h.listed⟩

/-! ### JSX -/

theorem startJsx (h : Stands source .ahead s) (hjsx : s.dialect.jsx = true) (hlt : s.lookahead.isPunctuator .lt = true)
    (ht : t = { s with record := s.record.unlist, scanner.cursor := s.start }) :
    Stands source .entering t ∧ Steps source s t.unread := by
  have lexed := (show s.Sited (.ofString source) from h.placed).lexed
  have keeps : Keeps s t.unread := by
    rw [ht]
    have tokens := listed_enters h.complete
    exact .pop (h.listed rfl (Token.isEnd_of_isPunctuator hlt)) (lexed.crossesLines_of_punctuator hlt) rfl
      fun _ htoken =>
      tokens ▸ htoken
  refine ⟨.of_ne (by simp) ⟨?_, ?_, ?_, fun hstraight => ?_⟩ ?_ ?_, (h.read keeps).steps⟩
  · rw [ht]
    exact h.complete.enters
  · exact keeps.dialect ▸ h.runs.strict
  · rw [ht]
    exact h.runs.scanner
  · have located := h.located (keeps.straight hstraight)
    rw [ht]
    exact ⟨located.start, located.start, located.last⟩
  · rw [ht]
    exact hjsx
  · rw [ht]
    exact h.placed.enter.congr rfl

theorem skips (h : Stands source m s) (hm : m ≠ .ahead) (ht : s.Skips t) :
    Stands source m t ∧ Steps source s.unread t.unread := by
  have placed := h.placed.skips hm ht
  have complete := h.complete.skips ht
  have keeps : Keeps s t := by
    have tokens := listed_skips ht
    obtain ⟨_, _, _, rfl⟩ := ht
    exact .of_eq rfl tokens
  obtain ⟨_, _, _, rfl⟩ := ht
  refine ⟨.of_ne hm ⟨complete, h.runs.strict, h.runs.scanner, fun hs => ?_⟩ (h.jsx hm) placed,
    Read.steps (h.read_unread keeps.unread)⟩
  have located := h.located (keeps.straight hs)
  exact ⟨located.start, (Trivia.skip_passes ..).tracks located.cursor, located.last⟩

theorem nextJsx {token : Token} (h : Stands source m s) (hjsx : s.dialect.jsx = true) (ht : s.MovesJsx token t) :
    Stands source .inside t ∧ Read source s.unread t.unread := by
  have placed := h.placed.advancesJsx ht.advances
  have tracks := ht.tracks
  have complete := h.complete.advancesJsx ht.advances
  have tokens := listed_advancesJsx h.complete ht.advances
  have keeps : Keeps s t := by
    refine ⟨?_, fun _ htoken _ => tokens ▸ List.mem_append_left _ htoken⟩
    obtain ⟨_, _, _, _, _, rfl⟩ := ht.advances
    rfl
  have located := fun ht : Straight t => h.located (keeps.straight ht)
  have last : token ∈ Tokens.listed t := tokens ▸ List.mem_append_right _ (List.mem_singleton_self _)
  refine ⟨?_, h.read_unread keeps.unread⟩
  obtain ⟨_, _, _, _, _, rfl⟩ := ht.advances
  refine .of_ne (by simp) ⟨complete, h.runs.strict, h.runs.scanner, fun hstraight => ?_⟩ hjsx placed
  have stop := tracks (hstraight hjsx _ last) (located hstraight).cursor
  exact ⟨(Trivia.skip_passes ..).tracks (located hstraight).cursor, stop, stop.located_place⟩

theorem nextJsxText {token : Token} (h : Stands source .inside s) (ht : s.MovesText token t) :
    Stands source .inside t ∧ Read source s.unread t.unread := by
  have placed := h.placed.advancesText ht.advances
  have tracks := ht.tracks
  have complete := h.complete.advancesText ht.advances
  have keeps : Keeps s t := by
    have tokens := listed_advancesText h.complete ht.advances
    refine ⟨?_, fun _ htoken _ => tokens ▸ List.mem_append_left _ htoken⟩
    obtain ⟨_, _, _, _, _, _, _, rfl⟩ := ht.advances
    rfl
  have located := fun ht : Straight t => h.located (keeps.straight ht)
  refine ⟨?_, h.read_unread keeps.unread⟩
  obtain ⟨_, _, _, _, _, _, _, rfl⟩ := ht.advances
  refine .of_ne (by simp) ⟨complete, h.runs.strict, h.runs.scanner, fun hstraight => ?_⟩ (h.jsx (by simp)) placed
  have stop := tracks (located hstraight).cursor
  exact ⟨(located hstraight).cursor, stop, stop.located_place⟩

theorem emptyExpression (h : Stands source .inside s) (ht : s.SkipsEmpty n t) :
    Stands source .inside t ∧ Read source s.unread t.unread ∧ Good source n t.unread := by
  have complete := h.complete.skipsEmpty ht
  obtain ⟨u, hu, rfl, rfl⟩ := ht
  obtain ⟨stands, steps⟩ := h.skips (by simp) hu
  have keeps : Keeps s u := ⟨steps.keeps.dialect, steps.keeps.tokens⟩
  refine ⟨.of_ne (by simp) ⟨complete, stands.runs.strict, stands.runs.scanner, fun hs => ?_⟩
    (stands.jsx (by simp)) (stands.placed.congr rfl),
    h.read_unread ⟨keeps.dialect, keeps.tokens⟩, fun hs => ?_⟩
  · have located := stands.located hs
    exact ⟨located.start, located.cursor, located.cursor.located_place⟩
  · refine Node.all_iff.2 ⟨?_, fun c hc => by cases hc⟩
    rintro _ ⟨⟩
    exact ⟨(stands.located hs).cursor.located_place, fun _ => (h.located (keeps.straight hs)).cursor.located_place⟩

theorem reenter {brace : Token} (h : Stands source .ahead s) (hjsx : s.dialect.jsx = true)
    (hu : { s with scanner.cursor := s.start }.MovesJsx brace u) (hbrace : brace.isPunctuator .rightBrace = true)
    (ht : t = { u with record := u.record.unlist }) : Stands source .inside t ∧ Read source s t.unread := by
  have entered : Stands source .entering { s with scanner.cursor := s.start } :=
    .of_ne (by simp) ⟨⟨h.complete.record, h.complete.scanner⟩, h.runs.strict, h.runs.scanner, fun hs =>
      ⟨(h.located hs).start, (h.located hs).start, (h.located hs).last⟩⟩ hjsx h.placed.enter
  have complete := h.complete.reenters ⟨brace, u, hu.advances, hbrace, ht⟩
  have tokens := listed_reenters h.complete ⟨brace, u, hu.advances, hbrace, ht⟩
  obtain ⟨stands, -⟩ := entered.nextJsx hjsx hu
  have pushed := listed_advancesJsx entered.complete hu.advances
  have htokens : Tokens.listed u = Tokens.listed s ++ [brace] := pushed
  have same : u.dialect = s.dialect := by
    obtain ⟨_, _, _, _, _, rfl⟩ := hu.advances
    rfl
  have straight : Straight t → Straight u := by
    intro hs hjsx token htoken hstring
    rw [htokens] at htoken
    rcases List.mem_append.1 htoken with htoken | htoken
    · exact hs (by rwa [ht]) token (tokens ▸ htoken) hstring
    · rw [List.mem_singleton.1 htoken] at hstring
      simp [Token.isString, Token.isPunctuator_iff.1 hbrace] at hstring
  have keeps : Keeps s t := .of_eq (by rw [ht]; exact same) tokens
  refine ⟨?_, h.read keeps.unread⟩
  refine .of_ne (by simp) ⟨complete, ?_, ?_, fun hs => ?_⟩ ?_ ?_
  · rw [ht]
    exact stands.runs.strict
  · rw [ht]
    exact stands.runs.scanner
  · have located := stands.located (straight hs)
    rw [ht]
    exact ⟨located.start, located.cursor, located.last⟩
  · rw [ht]
    exact stands.jsx (by simp)
  · rw [ht]
    exact stands.placed.congr rfl

end Stands

/-- Nodes end where they say, and begin there unless a token does that crosses lines. -/
def contract (source : String) (dialect : Dialect) : Contract where
  toJudgement := .onSuccess
  Stands := Stands source
  Steps := Steps source
  Read := Read source
  Later := Steps source
  Good _ := Good source
  Firm _ := Good source
  Past _ _ := True
  Tells _ _ _ := True
  Escapes _ := True
  Initial s := s.dialect = dialect ∧ Runs source s ∧ s.Placed (.ofString source) .entering
  Opened s := s.dialect = dialect
  steps_trans := Steps.trans
  steps_of_rests := Steps.rests
  steps_of_read := Read.steps
  read_of_steps := Read.after
  read_later := Read.before
  later_of_steps h := h
  stands_of_rests h h' := h'.rests h
  entering_of_inside h := .of_ne (by simp) h.runs (h.jsx (by simp)) h.placed
  good_steps := Good.steps
  good_from _ h := h
  firm_later := Good.steps
  firm_from _ h := h
  good_of_firm h := h
  firm_of_read h h' := h.steps h'.steps
  firm_of_not_arrow h _ := h
  firm_of_identifier h _ := h
  firm_toPattern h := h.recast (Node.toPattern_recast _)
  firm_child h hc := h.child hc
  firm_parameter h hn p hp := h.child (by rw [Node.children, hn]; exact hp)
  firm_yield h hn hr := h.recast (Node.yield_recast hn hr)
  good_placeholder _ _ h := Good.placeholder h
  good_escaped _ _ h := Good.placeholder h
  tells_of_rests _ _ _ := trivial
  tells_steps _ _ := trivial
  ofNext h := by
    refine Judgement.onSuccess.mono Judgement.onSuccess.next_moves ?_
    rintro c t ⟨rfl, ht⟩
    obtain ⟨stands, read⟩ := h.next ht
    exact ⟨rfl, stands, read.steps, fun _ => read, trivial, fun _ _ => trivial⟩
  ofClose h _ _ _ := Judgement.onSuccess.mono Judgement.onSuccess.skip_moves fun _ t ht =>
    ⟨(h.next ht).1, (h.next ht).2, trivial⟩
  ofRegex h hslash := Judgement.onSuccess.mono (Judgement.onSuccess.regex_moves h.placed hslash)
    fun _ t ⟨u, hu, ht⟩ => ⟨(h.regex hslash hu ht).1, (h.regex hslash hu ht).2, trivial⟩
  ofTrail h := .modifying (fun _ _ _ => rfl) h.trail
  ofFinish h hread hstart hk hchildren _ := by
    refine Judgement.onSuccess.mono .finish ?_
    rintro n t ⟨hn, ht⟩
    obtain ⟨stands, steps, good⟩ := h.finish hread hstart hchildren hn ht
    exact ⟨stands, by rw [ht], steps, hread.before steps, by rw [hn]; rfl, good, fun _ => good⟩
  ofSeparator h := by
    refine Judgement.onSuccess.mono (Judgement.onSuccess.expectSeparator_moves h.runs.strict) fun _ t ht => ?_
    exact ⟨(h.next ht).1, (h.next ht).2.steps⟩
  ofEndDoWhile h := by
    refine Judgement.onSuccess.mono (Judgement.onSuccess.endDoWhile_moves h.runs.strict) ?_
    rintro _ t ⟨u, hu, rfl | ht⟩
    · exact h.next hu
    · obtain ⟨stands, read⟩ := h.next hu
      exact ⟨(stands.next ht).1, read.before (stands.next ht).2.steps⟩
  ofMissingParen h _ hnone _ := by
    refine Judgement.bind Judgement.onSuccess.missingParen ?_
    rintro e t (⟨rfl, rfl⟩ | ⟨tolerant, -⟩)
    · exact hnone
    · simp [h.runs.strict] at tolerant
  ofStartJsx h hjsx hlt := Judgement.onSuccess.mono .startJsx fun _ _ ht => h.startJsx hjsx hlt ht
  ofSkipTrivia hm h := Judgement.onSuccess.mono .skipTrivia fun _ t ht =>
    ⟨(h.skips hm ht).1, (h.skips hm ht).2, ht.clear⟩
  ofNextJsx h := Judgement.onSuccess.mono Judgement.onSuccess.nextJsx_moves fun _ t ht _ =>
    ⟨(h.nextJsx (h.jsx (by simp)) ht).1, (h.nextJsx (h.jsx (by simp)) ht).2, fun _ _ _ => trivial⟩
  ofNextJsxText h := Judgement.onSuccess.mono Judgement.onSuccess.nextJsxText_moves fun _ t ht =>
    ⟨(h.nextJsxText ht).1, (h.nextJsxText ht).2, trivial⟩
  ofEmptyExpression h := Judgement.onSuccess.mono .jsxEmptyExpression fun _ t ht => h.emptyExpression ht
  ofSkipInside h := Judgement.onSuccess.mono Judgement.onSuccess.skip_moves fun _ t ht => h.skipInside ht
  ofReenterJsx hr hsteps h := by
    refine Judgement.onSuccess.mono Judgement.onSuccess.reenterJsx_moves ?_
    rintro _ t ⟨brace, u, hu, hbrace, ht⟩
    exact h.reenter (hsteps.keeps.dialect ▸ hr.jsx (by simp)) hu hbrace ht
  ofOpening := by
    rintro s ⟨same, runs, placed⟩
    refine Judgement.bind Judgement.onSuccess.skip_moves fun _ u hu => .modifying (fun _ _ _ => rfl) ?_
    have stands := Stands.ahead (runs.advances hu) runs.complete placed hu.advances
    refine ⟨⟨⟨⟨stands.complete.record, stands.complete.scanner⟩, stands.runs.strict, stands.runs.scanner,
      fun hs => ?_⟩, stands.jsx, stands.placed.congr rfl, stands.listed⟩,
      (Keeps.advances runs.complete hu.advances).dialect.trans same⟩
    have located := stands.located hs
    exact ⟨located.start, located.cursor, located.cursor.located_place⟩
  read_of_end _ hsteps ht _ := ⟨hsteps.keeps, fun hs => hsteps.marked hs (ht.marked hs)⟩

/-- What a strict parse gives back. -/
theorem source_good {text : String} {dialect : Dialect} {root : Node} (hne : text ≠ "")
    (hstrict : dialect.tolerant = false)
    (h : Parse.source text dialect = .ok root s) : Good text root s ∧ s.dialect = dialect := by
  have located : (Cursor.ofString text).Located text :=
    Cursor.located_ofString (by simpa [String.isEmpty_iff] using hne)
  have runs : Runs text (.initial text dialect) :=
    ⟨⟨rfl, rfl⟩, hstrict, hstrict, fun _ => ⟨located, located, located.located_place⟩⟩
  obtain ⟨first, same, held, -⟩ :=
    Contract.source_held (K := contract text dialect) text dialect .complete ⟨rfl, runs, .refl _, .refl _⟩ root s h
  exact ⟨held.good root (by simp), held.moved.keeps.dialect.trans same⟩

end Positions

/-- The tokens that a source is read as. -/
def tokensRead (source : String) (o : ParseOptions) : List TokenEntry :=
  match parse source { o with tokens := true } with
  | .ok p => p.tokens.getD []
  | .error _ => []

/-- What is written of the place of a node comes from its extent. The end of every node has the line and the column of
its offset, and so has its beginning, unless a token begins there that crosses lines. Where elements of JSX are read,
this takes strings that do not cross lines. -/
theorem positions_counted {source : String} {o : ParseOptions} {p : Program} (hfits : source.utf8ByteSize < 2 ^ 32)
    (hne : source ≠ "") (hstrict : o.tolerant = false) (hp : parse source o = .ok p)
    (hstrings : o.jsx = true → ∀ t ∈ tokensRead source o, t.token.isString = true → t.token.crossesLines = false) :
    ∀ entry ∈ p.root.walk, ∀ e, entry.2.info.extent = some e →
      entry.2.info.placement = o.presentation.placeOf e ∧ PositionAt source e.stop.offset e.stop.position ∧
      ((∀ t ∈ tokensRead source o, t.token.start = e.start.offset → t.token.crossesLines = false) →
        PositionAt source e.start.offset e.start.position) := by
  obtain ⟨root, s, hs, rfl⟩ := parse_eq_ok.1 hp
  obtain ⟨good, same⟩ := Positions.source_good hne hstrict hs
  have tokens : tokensRead source o = s.record.tokens.toList.map o.relisted := by
    have : parse source { o with tokens := true } = .ok (.asked { o with tokens := true } root s) :=
      parse_eq_ok.2 ⟨root, s, hs, rfl⟩
    rw [tokensRead, this]
    rfl
  have listed (P : Token → Prop) : (∀ t ∈ tokensRead source o, P t.token) ↔ ∀ token ∈ Tokens.listed s, P token := by
    rw [tokens, Tokens.listed, List.forall_mem_map, List.forall_mem_map]
    exact Iff.rfl
  have straight : Positions.Straight s := by
    rw [Positions.Straight, same]
    exact fun hjsx => (listed fun token => token.isString = true → token.crossesLines = false).1 (hstrings hjsx)
  intro entry hentry e he
  obtain ⟨stop, start⟩ := good.recast (Program.asked_recast o root s) straight entry hentry e he
  refine ⟨Program.asked_placement hentry he, stop.positionAt hfits, fun hplain => (start ?_).positionAt hfits⟩
  exact (listed fun token => token.start = e.start.offset → token.crossesLines = false).1 hplain

theorem positions_counted_element :
    "<a b='c'>\n</a>".utf8ByteSize < 2 ^ 32 ∧ ∃ p, parse "<a b='c'>\n</a>" { jsx := true } = .ok p ∧
    "<a b='c'>\n</a>" ≠ "" ∧
    (∀ t ∈ tokensRead "<a b='c'>\n</a>" { jsx := true }, t.token.isString = true → t.token.crossesLines = false) ∧
    ∀ entry ∈ p.root.walk, ∀ e, entry.2.info.extent = some e →
      entry.2.info.placement = ({ jsx := true } : ParseOptions).presentation.placeOf e ∧
      PositionAt "<a b='c'>\n</a>" e.stop.offset e.stop.position ∧
      ((∀ t ∈ tokensRead "<a b='c'>\n</a>" { jsx := true }, t.token.start = e.start.offset →
        t.token.crossesLines = false) →
        PositionAt "<a b='c'>\n</a>" e.start.offset e.start.position) := by
  have fits : "<a b='c'>\n</a>".utf8ByteSize < 2 ^ 32 := by decide
  have parses : (parse "<a b='c'>\n</a>" { jsx := true }).toOption.isSome = true := by decide +kernel
  have strings : ∀ t ∈ tokensRead "<a b='c'>\n</a>" { jsx := true }, t.token.isString = true →
    t.token.crossesLines = false := by
    have : (tokensRead "<a b='c'>\n</a>" { jsx := true }).all (fun t => !t.token.isString ||
      !t.token.crossesLines) = true := by
      decide +kernel
    simpa [or_iff_not_imp_left] using this
  obtain ⟨p, hp⟩ := exists_ok_of_isSome parses
  exact ⟨fits, p, hp, by decide, strings, positions_counted fits (by decide) rfl hp fun _ => strings⟩

/-- A template over three lines is placed one line above its end where an operator follows. -/
example : (match parse "\x60\n\n\x60+1" {} with
    | .ok p => p.root.walk.filterMap fun entry => entry.2.info.extent.map (·.start.position)
    | .error _ => []) = [⟨1, 0⟩, ⟨1, 0⟩, ⟨2, 0⟩, ⟨1, 0⟩, ⟨1, 0⟩, ⟨3, 2⟩] := by decide +kernel

end EcmaTree
