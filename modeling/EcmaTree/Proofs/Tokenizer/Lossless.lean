import EcmaTree.Proofs.Lexer.Strict
import EcmaTree.Proofs.Partition
import EcmaTree.Tokenizer.Basic

/-!
# Tokenizing loses nothing

The tokens and the comments that a tokenizer gives back partition the source, stand in the order of the source, and know
the lines and columns of their ends. Nothing is given back twice or left out where a slash is first tried as a regular
expression and then read again.
-/

namespace EcmaTree

open Cursor (Reaches SameLine Tracks)

/-- The line and the column of an offset, counted in the text before it. -/
def PositionAt (source : String) (offset : Nat) (p : Position) : Prop :=
  ∃ before after, source = before ++ after ∧ before.utf8ByteSize = offset ∧ p = positionBehind before.toList

/-- What opens and what closes the comments of a kind. The end of the line, which closes a line comment, is no part
of it. -/
def CommentKind.delimiters : CommentKind → List (String × String)
  | line => [("//", ""), ("<!--", ""), ("-->", "")]
  | block => [("/*", "*/")]

/-- The text of the comment is what stands in the source between its delimiters. -/
def Comment.Delimited (source : String) (k : Comment) : Prop :=
  ∃ d ∈ k.kind.delimiters, SliceOf source k.start k.stop (d.1 ++ k.text ++ d.2)

namespace TokenItem

/-- The token that is given back. -/
def token? : TokenItem → Option Token
  | token entry => some entry.token
  | comment _ => none

/-- The comment that is given back. -/
def comment? : TokenItem → Option Comment
  | token _ => none
  | comment k => some k

/-- The bytes of an item. -/
def span : TokenItem → Span
  | token entry => entry.token.span
  | comment k => ⟨k.start, k.stop⟩

/-- What is kept of the place of an item. -/
def placement : TokenItem → Placement
  | token entry => entry.placement
  | comment k => k.placement

end TokenItem

/-- The items are all that stands in the source before the offset, but for space, and each one has kept what is wanted
of its place. -/
structure Lossless (source : String) (p : Presentation) (stop : Nat) (items : List TokenItem) : Prop where
  partitions : Partitions source stop (items.filterMap TokenItem.token?) (items.filterMap TokenItem.comment?)
  ordered : items.Pairwise fun a b => a.span.stop ≤ b.span.start
  delimited : ∀ k ∈ items.filterMap TokenItem.comment?, k.Delimited source
  placed : ∀ item ∈ items, ∃ first last, item.placement = p.place item.span first last ∧
    PositionAt source item.span.start first ∧ PositionAt source item.span.stop last

theorem Cursor.Located.offset_le {source : String} {c : Cursor} (h : c.Located source) :
    c.offset ≤ source.utf8ByteSize := by
  rw [← h.reaches.offset_add_bytes]
  exact Nat.le_add_right _ _

theorem Cursor.Located.positionAt {source : String} {c : Cursor} (h : c.Located source)
    (hfits : source.utf8ByteSize < 2 ^ 32) : PositionAt source c.offset c.position := by
  have bounded := h.offset_le
  obtain ⟨cs, across, hline, hstart, -⟩ := h
  refine ⟨String.ofList cs, String.ofList c.rest, ofList_append_after across, ?_, ?_⟩
  · rw [← bytes_eq_utf8ByteSize]
    simpa [Cursor.ofString] using across.offset.symm
  · rw [Cursor.position, Cursor.column_eq (by omega) (Nat.lt_of_le_of_lt bounded hfits), positionBehind,
      String.toList_ofList, hline, ← hstart, Nat.add_sub_cancel_left]

/-! ## Comments -/

/-- A cursor stands at the place that knows its line. -/
def Place.Located (source : String) (p : Place) : Prop := ∃ c : Cursor, c.Located source ∧ p = c.place

/-- The comment stands in the source as it says. -/
structure Comment.Fits (source : String) (k : Comment) : Prop where
  delimited : k.Delimited source
  start : k.extent.start.Located source
  stop : k.extent.stop.Located source

/-- A block comment that is never closed reaches to the end of the source. -/
structure Comment.RunsOut (source : String) (k : Comment) : Prop where
  block : k.kind = .block
  slice : SliceOf source k.start k.stop ("/*" ++ k.text)
  ends : k.stop = source.utf8ByteSize
  start : k.extent.start.Located source
  stop : k.extent.stop.Located source

namespace Trivia

variable {source : String} {c : Cursor} {body : List Char} {found : List Comment} {keep script fresh : Bool}

/-- What has been read between two cursors that know their places is a comment. -/
theorem fits_of_across {opener inner closer : List Char} {kind : CommentKind} {d : Cursor} (hc : c.Located source)
    (hd : d.Located source) (across : c.Across (opener ++ inner ++ closer) d)
    (hkind : (String.ofList opener, String.ofList closer) ∈ kind.delimiters) :
    Comment.Fits source ⟨kind, String.ofList inner, ⟨c.place, d.place⟩, {}⟩ := by
  refine ⟨⟨_, hkind, ?_⟩, ⟨c, hc, rfl⟩, ⟨d, hd, rfl⟩⟩
  have slice := slice_of_reaches hc.reaches ⟨_, across⟩
  rwa [across.textUntil, String.ofList_append, String.ofList_append] at slice

theorem readLine_fits (opener : List Char) {n : Nat} (h : c.Located source) (hc : c.rest = opener ++ body)
    (hn : bytes opener = n) (hplain : opener.all (!isLineTerminator ·) = true)
    (hkind : (String.ofList opener, "") ∈ CommentKind.line.delimiters) :
    (readLine c n body).1.Fits source ∧ (readLine c n body).2.Located source := by
  have first : (c.moveTo n body).Located source := (SameLine.moveTo opener hc hn hplain).tracks h
  have last : ((c.moveTo n body).skipWhile (!isLineTerminator ·)).Located source :=
    (SameLine.skipWhile (by simp) _).tracks first
  have opened : c.Across opener (c.moveTo n body) := ⟨hc, by rw [← hn]; rfl⟩
  obtain ⟨inner, hinner⟩ := Reaches.skipWhile (!isLineTerminator ·) (c.moveTo n body)
  have whole : c.Across (opener ++ inner ++ []) ((c.moveTo n body).skipWhile (!isLineTerminator ·)) :=
    by simpa using opened.trans hinner
  have fits := fits_of_across h last whole hkind
  rw [← hinner.textUntil] at fits
  unfold readLine
  simp only
  split
  · exact ⟨fits, last⟩
  next ch rest hrest =>
    refine ⟨fits, Tracks.passLine hrest ?_ last⟩
    have := List.head?_dropWhile_not (fun ch => !isLineTerminator ch) body
    simp_all [Cursor.skipWhile, Cursor.moveTo]

theorem readBlock_fits (h : c.Located source) (hc : c.rest = '/' :: '*' :: body)
    (hclosed : (readBlock c body).2.2 = false) :
    (readBlock c body).1.Fits source ∧ (readBlock c body).2.1.Located source := by
  have first : (c.moveTo 2 body).Located source := (SameLine.moveTo ['/', '*'] hc rfl rfl).tracks h
  have last : (skipBlock (c.moveTo 2 body)).Located source := (skipBlock_passes _).tracks first
  have opened : c.Across ['/', '*'] (c.moveTo 2 body) := ⟨hc, rfl⟩
  obtain ⟨inner, hinner⟩ := skipBlock_reaches (c.moveTo 2 body)
  simp only [readBlock] at hclosed ⊢
  split
  next rest hrest =>
    have stop : ((skipBlock (c.moveTo 2 body)).moveTo 2 rest).Located source :=
      (SameLine.moveTo ['*', '/'] hrest rfl rfl).tracks last
    have closed : (skipBlock (c.moveTo 2 body)).Across ['*',
      '/'] ((skipBlock (c.moveTo 2 body)).moveTo 2 rest) := ⟨hrest, rfl⟩
    refine ⟨?_, stop⟩
    rw [hinner.textUntil]
    exact fits_of_across h stop ((opened.trans hinner).trans closed) (by decide)
  next hno =>
    split at hclosed
    next rest hrest => exact absurd hrest (hno rest)
    · cases hclosed

theorem readBlock_runsOut (h : c.Located source) (hc : c.rest = '/' :: '*' :: body)
    (hopen : (readBlock c body).2.2 = true) :
    (readBlock c body).1.RunsOut source := by
  have hend : (skipBlock (c.moveTo 2 body)).rest = [] := by
    rcases skipBlock_stops (c.moveTo 2 body) with hend | ⟨rest, hrest⟩
    · exact hend
    · simp [readBlock, hrest] at hopen
  have first : (c.moveTo 2 body).Located source := (SameLine.moveTo ['/', '*'] hc rfl rfl).tracks h
  have last : (skipBlock (c.moveTo 2 body)).Located source := (skipBlock_passes _).tracks first
  have opened : c.Across ['/', '*'] (c.moveTo 2 body) := ⟨hc, rfl⟩
  obtain ⟨inner, hinner⟩ := skipBlock_reaches (c.moveTo 2 body)
  have slice := slice_of_reaches h.reaches ⟨_, opened.trans hinner⟩
  rw [(opened.trans hinner).textUntil, String.ofList_append, ← hinner.textUntil] at slice
  have ends : (skipBlock (c.moveTo 2 body)).offset = source.utf8ByteSize :=
    by simpa [hend] using last.reaches.offset_add_bytes
  simp only [readBlock, hend]
  exact ⟨rfl, slice, ends, ⟨_, h, rfl⟩, ⟨_, last, rfl⟩⟩

theorem skipFrom_fits (h : c.Located source) (hfound : ∀ k ∈ found, k.Fits source) :
    ∀ k ∈ (skipFrom keep script fresh found c).comments,
      k.Fits source ∨ (skipFrom keep script fresh found c).unclosed = true ∧ k.RunsOut source := by
  have more {k : Comment} (hk : k.Fits source) {found : List Comment} (hfound : ∀ k ∈ found, k.Fits source) :
      ∀ j ∈ noted keep k found, j.Fits source := fun j hj => by
    rcases mem_noted hj with rfl | hj
    · exact hk
    · exact hfound j hj
  fun_induction skipFrom keep script fresh found c with
  | case1 fresh found c body hc read ih =>
    obtain ⟨fits, located⟩ := readLine_fits ['/', '/'] h hc rfl rfl (by decide)
    exact ih located (more fits hfound)
  | case2 fresh found c body hc read hopen =>
    intro k hk
    rcases mem_noted (List.mem_reverse.1 hk) with rfl | hk
    · exact .inr ⟨rfl, readBlock_runsOut h hc hopen⟩
    · exact .inl (hfound k hk)
  | case3 fresh found c body hc read hopen ih =>
    obtain ⟨fits, located⟩ := readBlock_fits h hc (by simpa using hopen)
    exact ih located (more fits hfound)
  | case4 fresh found c body hc _ read ih =>
    obtain ⟨fits, located⟩ := readLine_fits ['-', '-', '>'] h hc rfl rfl (by decide)
    exact ih located (more fits hfound)
  | case6 fresh found c body hc _ read ih =>
    obtain ⟨fits, located⟩ := readLine_fits ['<', '!', '-', '-'] h hc rfl rfl (by decide)
    exact ih located (more fits hfound)
  | case8 fresh found c ch rest _ _ _ _ hc hblank ih =>
    have plain : isLineTerminator ch = false := isLineTerminator_eq_false (p := isBlank) (by decide +kernel) hblank
    exact ih ((SameLine.pass hc plain).tracks h) hfound
  | case9 fresh found c ch rest _ _ _ _ hc _ hline ih => exact ih (Tracks.passLine hc hline h) hfound
  | case5 | case7 | case10 | case11 => exact fun k hk => .inl (hfound k (List.mem_reverse.1 hk))

/-- Comments stand in the source as they say, and behind them line and column are known again. -/
theorem skip_fits (h : c.Located source) (hclosed : (skip keep script c).unclosed = false) :
    (∀ k ∈ (skip keep script c).comments, k.Fits source) ∧ (skip keep script c).cursor.Located source := by
  refine ⟨fun k hk => ?_, (skip_passes keep script c).tracks h⟩
  rcases skipFrom_fits h (List.forall_mem_nil _) k hk with fits | ⟨hopen, -⟩
  · exact fits
  · exact absurd (hopen.symm.trans hclosed) (by simp)

end Trivia

theorem Passed.ordered {c d : Cursor} {comments : List Comment} (h : Passed c comments d) :
    (∀ k ∈ comments, c.offset ≤ k.start) ∧ comments.Pairwise fun j k => j.stop ≤ k.start := by
  induction h with
  | refl c => exact ⟨List.forall_mem_nil _, .nil⟩
  | space _ _ _ hoffset _ ih => exact ⟨fun k hk => Nat.le_trans (by omega) (ih.1 k hk), ih.2⟩
  | comment hd hlt hstart hstop _ ih =>
    refine ⟨List.forall_mem_cons.2 ⟨Nat.le_of_eq hstart.symm, fun k hk => ?_⟩,
      .cons (fun k hk => hstop ▸ ih.1 k hk) ih.2⟩
    exact Nat.le_trans hd.offset_le (ih.1 k hk)

/-! ## Growing to the right -/

namespace Lossless

variable {source : String} {p : Presentation} {stop : Nat} {items : List TokenItem} {c d : Cursor}

theorem nil (source : String) (p : Presentation) : Lossless source p 0 [] :=
  ⟨.nil source, .nil, List.forall_mem_nil _, List.forall_mem_nil _⟩

theorem bounded (h : Lossless source p stop items) :
    ∀ item ∈ items, item.span.start < item.span.stop ∧ item.span.stop ≤ stop := by
  rintro (entry | k) hitem
  · exact h.partitions.tokens_bounded entry.token (List.mem_filterMap.2 ⟨_, hitem, rfl⟩)
  · exact h.partitions.comments_bounded k (List.mem_filterMap.2 ⟨_, hitem, rfl⟩)

/-- What begins behind the offset comes after everything before it. -/
theorem ordered_append {later : List TokenItem} (h : Lossless source p stop items)
    (hlater : ∀ item ∈ later, stop ≤ item.span.start)
    (hordered : later.Pairwise fun a b => a.span.stop ≤ b.span.start) :
    (items ++ later).Pairwise fun a b => a.span.stop ≤ b.span.start :=
  List.pairwise_append.2 ⟨h.ordered, hordered, fun a ha b hb => Nat.le_trans (h.bounded a ha).2 (hlater b hb)⟩

/-- A token is read. -/
theorem token {l : Lexeme} (h : Lossless source p c.offset items) (hfits : source.utf8ByteSize < 2 ^ 32)
    (hc : c.Located source) (hd : d.Located source) (reaches : c.Reaches d) (hlt : c.offset < d.offset) :
    Lossless source p d.offset (items ++ [.token ⟨Scan.tokenBetween c d l, c.position, d.position,
      p.place (Scan.tokenBetween c d l).range c.position d.position⟩]) := by
  let item := TokenItem.token ⟨Scan.tokenBetween c d l, c.position, d.position,
    p.place (Scan.tokenBetween c d l).range c.position d.position⟩
  have range : (Scan.tokenBetween c d l).range = (Scan.tokenBetween c d l).span :=
    Span.inWords_eq (Nat.lt_of_le_of_lt hc.offset_le hfits) (Nat.lt_of_le_of_lt hd.offset_le hfits)
  have tokens : (items ++ [item]).filterMap TokenItem.token? =
      items.filterMap TokenItem.token? ++ [Scan.tokenBetween c d l] := by
    rw [List.filterMap_append]
    rfl
  have comments : (items ++ [item]).filterMap TokenItem.comment? = items.filterMap TokenItem.comment? := by
    rw [List.filterMap_append]
    exact List.append_nil _
  refine ⟨?_, h.ordered_append (by simp [TokenItem.span, Scan.tokenBetween]) (List.pairwise_singleton _ _), ?_, ?_⟩
  · rw [tokens, comments]
    exact h.partitions.token hc.reaches reaches hlt
  · rw [comments]
    exact h.delimited
  · refine List.forall_mem_append.2 ⟨h.placed, List.forall_mem_singleton.2 ⟨c.position, d.position, ?_, ?_, ?_⟩⟩
    · exact congrArg (p.place · c.position d.position) range
    · exact hc.positionAt hfits
    · exact hd.positionAt hfits

/-- Trivia is passed. -/
theorem passed {comments : List Comment} (h : Lossless source p c.offset items) (hfits : source.utf8ByteSize < 2 ^ 32)
    (hc : c.Located source) (hp : Passed c comments d) (fits : ∀ k ∈ comments, k.Fits source) :
    Lossless source p d.offset (items ++ comments.map fun k =>
      .comment { k with placement := p.placeOf k.extent }) := by
  let kept := comments.map fun k => { k with placement := p.placeOf k.extent }
  have same : comments.map (fun k => TokenItem.comment { k with placement := p.placeOf k.extent }) =
      kept.map TokenItem.comment := by simp [kept]
  have tokens : (items ++ kept.map TokenItem.comment).filterMap TokenItem.token? =
    items.filterMap TokenItem.token? := by
    simp [List.filterMap_map, Function.comp_def, TokenItem.token?]
  have all : (items ++ kept.map TokenItem.comment).filterMap TokenItem.comment? =
      items.filterMap TokenItem.comment? ++ kept := by
    simp [List.filterMap_map, Function.comp_def, TokenItem.comment?]
  have passed : Passed c kept d := hp.map fun _ => rfl
  rw [same]
  refine ⟨?_, h.ordered_append ?_ (List.pairwise_map.2 passed.ordered.2), ?_, ?_⟩
  · rw [tokens, all]
    exact h.partitions.passed hc.reaches passed
  · rintro _ hitem
    obtain ⟨k, hk, rfl⟩ := List.mem_map.1 hitem
    exact passed.ordered.1 k hk
  · rw [all]
    exact List.forall_mem_append.2 ⟨h.delimited, List.forall_mem_map.2 fun k hk => (fits k hk).delimited⟩
  · refine List.forall_mem_append.2 ⟨h.placed, List.forall_mem_map.2 (List.forall_mem_map.2 fun k hk => ?_)⟩
    obtain ⟨-, ⟨first, hfirst, start⟩, ⟨last, hlast, stop⟩⟩ := fits k hk
    refine ⟨first.position, last.position, ?_, ?_, ?_⟩
    · rw [TokenItem.placement, Presentation.placeOf, Extent.span_eq, start, stop]
      · simp only [TokenItem.span, Comment.start, Comment.stop, start, stop]; rfl
      · rw [start]; exact Nat.lt_of_le_of_lt hfirst.offset_le hfits
      · rw [stop]; exact Nat.lt_of_le_of_lt hlast.offset_le hfits
    · have := hfirst.positionAt hfits
      rwa [show first.offset = k.start by rw [Comment.start, start]; rfl] at this
    · have := hlast.positionAt hfits
      rwa [show last.offset = k.stop by rw [Comment.stop, stop]; rfl] at this

/-- Every item takes a byte at least. -/
theorem length_le (h : Lossless source p stop items) : items.length ≤ stop := by
  suffices ∀ (start : Nat) (items : List TokenItem), start ≤ stop →
      (∀ item ∈ items, start ≤ item.span.start ∧ item.span.start < item.span.stop ∧ item.span.stop ≤ stop) →
      items.Pairwise (fun a b => a.span.stop ≤ b.span.start) → start + items.length ≤ stop by
    simpa using this 0 items (Nat.zero_le _) (fun item hitem => ⟨Nat.zero_le _, h.bounded item hitem⟩) h.ordered
  intro start items hstart bounds ordered
  induction items generalizing start with
  | nil => exact hstart
  | cons item items ih =>
    obtain ⟨first, rest⟩ := List.forall_mem_cons.1 bounds
    obtain ⟨behind, ordered⟩ := List.pairwise_cons.1 ordered
    have := ih item.span.stop first.2.2 (fun item hitem => ⟨behind item hitem, (rest item hitem).2⟩) ordered
    simp only [List.length_cons]
    omega

end Lossless

/-! ## Steps of a tokenizer -/

namespace Tokenizer

variable {source : String} {history : History} {s s' : Scanner} {t t' : Tokenizer}
  {p : Presentation} {given : List TokenItem}

/-- A failed attempt at a regular expression leaves nothing behind. -/
theorem scanEither_regex_ok {token : Token} (hs : s.tolerant = false)
    (h : scanEither Scan.regex Scan.token s = .ok token s') :
    Scan.regex s = .ok token s' ∨ Scan.token s = .ok token s' := by
  unfold scanEither at h
  split at h
  next hregex =>
    cases h
    exact .inl hregex
  next hregex =>
    have back := Scan.regex_error hs hregex
    rw [back] at h
    exact .inr (by simpa [Scanner.rewind, Scanner.bookmark, Scanner.Bookmark.regions] using h)

theorem readToken_ok {token : Token} (hs : s.tolerant = false) (h : readToken history s = .ok token s') :
    Lexed s.cursor token s'.cursor ∧ s.cursor.Tracks s'.cursor ∧ ∃ regions,
      s' = { s with cursor := s'.cursor, regions } := by
  have ordinary (h : Scan.token s = .ok token s') : Lexed s.cursor token s'.cursor ∧ s.cursor.Tracks s'.cursor ∧
      ∃ regions, s' = { s with cursor := s'.cursor, regions } :=
    have lexes := Scan.token_lexes hs h
    ⟨lexes.lexed, lexes.tracks, _, lexes.eq⟩
  obtain ⟨_, _, hget, h⟩ := run_bind_eq_ok.1 h
  cases hget
  split at h
  next hslash =>
    rcases scanEither_regex_ok hs h with h | h
    · obtain ⟨rest, hrest⟩ := Cursor.rest_of_startsWith (Bool.and_eq_true _ _ ▸ hslash).1
      obtain ⟨lexed, tracks, -, eq⟩ := Scan.regex_ok hs hrest h
      exact ⟨lexed, tracks, _, eq⟩
    · exact ordinary h
  · exact ordinary h

/-- The tokenizer behind the trivia where it stands. -/
def behindTrivia (t : Tokenizer) : Tokenizer :=
  let trivia := Trivia.skip t.scanner.keepsComments (t.scanner.goal == .script) t.scanner.cursor
  { t with
    scanner.cursor := trivia.cursor
    waiting := if t.scanner.keepsComments then t.waiting ++ trivia.comments.map t.commentItem else t.waiting }

/-- The tokenizer behind a token that brings the scanner to `s`. -/
def behindToken (t : Tokenizer) (token : Token) (s : Scanner) : Tokenizer :=
  { t with
    scanner := s
    waiting := t.waiting ++ [tokenItem { t with scanner := s } token t.scanner.cursor.position]
    history := t.history.push token }

/-- Filling passes the trivia and reads the token behind it, unless the source ends there. -/
theorem fill_eq (hs : t.scanner.tolerant = false) : fill t =
    if (Trivia.skip t.scanner.keepsComments (t.scanner.goal == .script) t.scanner.cursor).unclosed then
      .error (Fault.illegal t.behindTrivia.scanner.cursor).error { t with scanner := t.behindTrivia.scanner }
    else if t.behindTrivia.scanner.cursor.atEnd then .ok () { t.behindTrivia with done := true }
    else match readToken t.history t.behindTrivia.scanner with
      | .ok token s => .ok () (t.behindTrivia.behindToken token s)
      | .error e s => .error e { t.behindTrivia with scanner := s } := by
  have kept (comments : List Comment) (u : Tokenizer) : (modify fun t : Tokenizer =>
      if t.scanner.keepsComments then { t with waiting := t.waiting ++ comments.map t.commentItem } else t :
        Tokenize Unit) u = .ok ()
      { u with waiting := if u.scanner.keepsComments then u.waiting ++ comments.map u.commentItem else u.waiting } := by
    have same : (if u.scanner.keepsComments then { u with waiting := u.waiting ++ comments.map u.commentItem } else u) =
        { u with
          waiting := if u.scanner.keepsComments then u.waiting ++ comments.map u.commentItem else u.waiting } := by
      split <;> rfl
    exact congrArg (EStateM.Result.ok ()) same
  by_cases hopen : (Trivia.skip t.scanner.keepsComments (t.scanner.goal == .script) t.scanner.cursor).unclosed = true
  · simp only [fill, bind, EStateM.bind, scan, Scan.skipTrivia_eq hs, if_pos hopen]
    rfl
  · have run : fill t = (if t.behindTrivia.scanner.cursor.atEnd then set { t.behindTrivia with done := true }
        else scan (readToken t.behindTrivia.history) >>= fun token => modify fun u => { u with
          history := u.history.push token
          waiting := u.waiting ++ [u.tokenItem token t.behindTrivia.scanner.cursor.position] } :
        Tokenize Unit) t.behindTrivia := by
      simp only [fill, bind, EStateM.bind, scan, Scan.skipTrivia_eq hs, if_neg hopen, kept]
      rfl
    rw [run, if_neg hopen]
    split
    · rfl
    · simp only [bind, EStateM.bind, scan]
      cases hread : readToken t.behindTrivia.history t.behindTrivia.scanner with
      | ok token s =>
        rw [show t.history = t.behindTrivia.history from rfl, hread]
        rfl
      | error e s =>
        rw [show t.history = t.behindTrivia.history from rfl, hread]

/-- What a tokenizer has given back and what waits in it are all that it has read. -/
structure Follows (source : String) (p : Presentation) (given : List TokenItem) (t : Tokenizer) : Prop where
  strict : t.scanner.tolerant = false
  keeps : t.scanner.keepsComments = true
  presentation : t.presentation = p
  located : t.scanner.cursor.Located source
  lossless : Lossless source p t.scanner.cursor.offset (given ++ t.waiting)
  ended : t.done = true → t.scanner.cursor.rest = []

theorem Follows.fill (h : t.Follows source p given) (hfits : source.utf8ByteSize < 2 ^ 32) (hdone : t.done = false)
    (hfill : t.fill = .ok () t') : t'.Follows source p given ∧ (t'.waiting = [] → t'.done = true) := by
  rw [fill_eq h.strict] at hfill
  split at hfill
  · cases hfill
  next hclosed =>
    obtain ⟨fits, located⟩ := Trivia.skip_fits h.located (Bool.not_eq_true _ ▸ hclosed)
    obtain rfl := h.presentation
    have comments := Trivia.skip_passed (t.scanner.goal == .script) t.scanner.cursor
    rw [h.keeps] at fits
    have passed : Lossless source t.presentation t.behindTrivia.scanner.cursor.offset
      (given ++ t.behindTrivia.waiting) := by
      have := h.lossless.passed hfits h.located comments fits
      rw [behindTrivia, h.keeps, if_pos rfl, ← List.append_assoc]
      exact this
    split at hfill
    next hend =>
      cases hfill
      exact ⟨⟨h.strict, h.keeps, h.presentation, located, passed, fun _ => List.isEmpty_iff.1 hend⟩, fun _ => rfl⟩
    next hrest =>
      split at hfill
      next token s hread =>
        cases hfill
        obtain ⟨lexed, tracks, regions, hs⟩ := readToken_ok (s := t.behindTrivia.scanner) h.strict hread
        have more : token.isEnd = false := by
          rw [← Bool.not_eq_true, lexed.end_iff]
          exact fun hnil => hrest (List.isEmpty_iff.2 hnil)
        have kept : s.tolerant = false ∧ s.keepsComments = true := by
          rw [hs]
          exact ⟨h.strict, h.keeps⟩
        refine ⟨⟨kept.1, kept.2, h.presentation, tracks located, ?_, by simp [behindToken, behindTrivia, hdone]⟩,
          by simp [behindToken]⟩
        have := passed.token (l := token.lexeme) hfits located (tracks located) lexed.reaches (lexed.advances more)
        rw [← lexed.eq, List.append_assoc] at this
        exact this
      · cases hfill

/-- Give back the first item that waits. -/
def give : Tokenize (Option TokenItem) := do
  let t ← get
  match t.waiting with
  | [] => return none
  | item :: waiting =>
    set { t with waiting }
    return some item

theorem give_of_nil (h : t.waiting = []) : give t = .ok none t := by
  cases t
  cases h
  rfl

theorem give_of_cons {item : TokenItem} {waiting : List TokenItem} (h : t.waiting = item :: waiting) :
    give t = .ok (some item) { t with waiting } := by
  cases t
  cases h
  rfl

/-- Nothing is read while something waits, or behind the end of the source. -/
theorem next_eq (t : Tokenizer) :
    t.next = (if t.waiting.isEmpty && !t.done then fill >>= fun _ => give else give) t := rfl

theorem next_of_not (h : ¬ (t.waiting.isEmpty && !t.done) = true) : t.next = give t := by rw [next_eq, if_neg h]

theorem next_of_fill (h : (t.waiting.isEmpty && !t.done) = true) (hfill : t.fill = .ok () t') : t.next = give t' := by
  rw [next_eq, if_pos h]
  simp only [bind, EStateM.bind, hfill]

theorem next_of_fill_error {e : SyntaxError} (h : (t.waiting.isEmpty && !t.done) = true)
    (hfill : t.fill = .error e t') :
    t.next = .error e t' := by
  rw [next_eq, if_pos h]
  simp only [bind, EStateM.bind, hfill]

/-- What is given back next stands behind all that has been given back. Nothing is given back at the end of the source
only. -/
theorem Follows.give {item : Option TokenItem} (h : t.Follows source p given) (hend : t.waiting = [] → t.done = true)
    (hgive : give t = .ok item t') :
    t'.Follows source p (given ++ item.toList) ∧ (item = none → t'.waiting = [] ∧ t'.done = true) := by
  cases hlist : t.waiting with
  | nil =>
    rw [give_of_nil hlist] at hgive
    cases hgive
    exact ⟨by simpa using h, fun _ => ⟨hlist, hend hlist⟩⟩
  | cons first waiting =>
    rw [give_of_cons hlist] at hgive
    cases hgive
    exact ⟨⟨h.strict, h.keeps, h.presentation, h.located, by simpa [hlist] using h.lossless, h.ended⟩, by simp⟩

theorem Follows.next {item : Option TokenItem} (h : t.Follows source p given) (hfits : source.utf8ByteSize < 2 ^ 32)
    (hnext : t.next = .ok item t') :
    t'.Follows source p (given ++ item.toList) ∧ (item = none → t'.waiting = [] ∧ t'.done = true) := by
  by_cases hfills : (t.waiting.isEmpty && !t.done) = true
  · cases hfill : t.fill with
    | ok _ u =>
      rw [next_of_fill hfills hfill] at hnext
      obtain ⟨hu, hwaiting⟩ := h.fill hfits (by simp_all) hfill
      exact hu.give hwaiting hnext
    | error e u =>
      rw [next_eq, if_pos hfills] at hnext
      obtain ⟨_, _, hok, -⟩ := run_bind_eq_ok.1 hnext
      exact absurd (hfill.symm.trans hok) (by simp)
  · rw [next_of_not hfills] at hnext
    exact h.give (fun hempty => by simpa [hempty] using hfills) hnext

/-- Everything is given back before the bound is reached, because every item takes a byte. -/
theorem Follows.collect {read items : List TokenItem} {bound : Nat} (h : t.Follows source p read.reverse)
    (hfits : source.utf8ByteSize < 2 ^ 32) (hbound : source.utf8ByteSize < read.length + bound)
    (hcollect : Tokenizer.collect read bound t = (items, none, t')) :
    Lossless source p source.utf8ByteSize items := by
  induction bound generalizing read t with
  | zero =>
    have taken := h.lossless.length_le
    have := h.located.reaches.offset_add_bytes
    simp only [List.length_append, List.length_reverse] at taken
    omega
  | succ bound ih =>
    unfold Tokenizer.collect at hcollect
    split at hcollect
    next after hnext =>
      obtain ⟨rfl, rfl⟩ : read.reverse = items ∧ after = t' := by simpa using hcollect
      obtain ⟨hafter, hend⟩ := h.next hfits hnext
      obtain ⟨hwaiting, hdone⟩ := hend rfl
      have whole := hafter.located.reaches.offset_add_bytes
      rw [hafter.ended hdone, bytes_nil, Nat.add_zero] at whole
      simpa [hwaiting, whole] using hafter.lossless
    next item after hnext =>
      refine ih (t := after) ?_ (by simp only [List.length_cons]; omega) hcollect
      simpa using (h.next hfits hnext).1
    · cases hcollect

end Tokenizer

end EcmaTree
