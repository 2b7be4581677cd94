import EcmaTree.Proofs.Tokenizer.Tolerance

/-!
# What an error leaves of a tokenizing

In tolerant mode tokenizing always gives something back. Where no token can be read it stops, and what it gives back
are all tokens before that place, but not all comments: those behind the last token have been read, and wait in the
tokenizer for the next token to be read, and are dropped with it. At the end of the source nothing is dropped.
-/

namespace EcmaTree

open Cursor (Reaches)

variable {source : String} {c d : Cursor} {stop : Nat} {items later : List TokenItem} {comments lost : List Comment}

/-- The tokens among items. -/
def tokensOf (items : List TokenItem) : List Token := items.filterMap TokenItem.token?

/-- The comments among items. -/
def commentsOf (items : List TokenItem) : List Comment := items.filterMap TokenItem.comment?

@[simp] theorem tokensOf_append : tokensOf (items ++ later) = tokensOf items ++ tokensOf later := List.filterMap_append

@[simp] theorem commentsOf_append : commentsOf (items ++ later) = commentsOf items ++ commentsOf later :=
  List.filterMap_append

/-- The comment with what a tokenizer keeps of its place. -/
def Tokenizer.placed (t : Tokenizer) (c : Comment) : Comment := { c with placement := t.presentation.placeOf c.extent }

@[simp] theorem tokensOf_comments (t : Tokenizer) : tokensOf (comments.map t.commentItem) = [] := by
  simp [tokensOf, List.filterMap_map, Function.comp_def, Tokenizer.commentItem, TokenItem.token?]

@[simp] theorem commentsOf_comments (t : Tokenizer) :
    commentsOf (comments.map t.commentItem) = comments.map t.placed := by
  simp [commentsOf, List.filterMap_map, Function.comp_def, Tokenizer.commentItem, TokenItem.comment?, Tokenizer.placed]

@[simp] theorem tokensOf_token (t : Tokenizer) (token : Token) (first : Position) :
    tokensOf [t.tokenItem token first] = [token] := rfl

@[simp] theorem commentsOf_token (t : Tokenizer) (token : Token) (first : Position) :
    commentsOf [t.tokenItem token first] = [] := rfl

/-- The items have kept their ranges, if these are asked for. -/
def Ranged (asked : Bool) (items : List TokenItem) : Prop :=
  ∀ item ∈ items, item.placement.range = wanted asked item.span

/-- The items and the lost comments are all that stands in the source before the offset, but for space, and the items
have kept their ranges. The lost comments are those behind the last token. -/
structure GivenBack (source : String) (ranges : Bool) (stop : Nat) (items : List TokenItem)
    (lost : List Comment) : Prop where
  ranges : Ranged ranges items
  partitions : Partitions source stop (tokensOf items) (commentsOf items ++ lost)
  behind : ∀ k ∈ lost, ∀ t ∈ tokensOf items, t.stop ≤ k.start
  before : lost = [] ∨ ∀ k ∈ commentsOf items, ∃ t ∈ tokensOf items, k.stop ≤ t.start

/-- Comments begin where they are passed. -/
theorem Passed.offset_le_start (h : Passed c comments d) : ∀ k ∈ comments, c.offset ≤ k.start := by
  induction h with
  | refl => exact List.forall_mem_nil _
  | space _ _ _ hoffset _ ih => exact fun k hk => Nat.le_trans (by omega) (ih k hk)
  | comment _ hlt hstart _ _ ih =>
    refine List.forall_mem_cons.2 ⟨Nat.le_of_eq hstart.symm, fun k hk => ?_⟩
    exact Nat.le_trans (Nat.le_of_lt hlt) (ih k hk)

namespace Scan

variable {s s' : Scanner} {t : Token}

/-- Tolerant mode passes over a comment that is left open. -/
theorem skipTrivia_of_tolerant (hs : s.tolerant = true) : ∃ errors, skipTrivia s =
    .ok (Trivia.skip s.keepsComments (s.goal == .script) s.cursor).comments
      { s with cursor := (Trivia.skip s.keepsComments (s.goal == .script) s.cursor).cursor, errors } := by
  let trivia := Trivia.skip s.keepsComments (s.goal == .script) s.cursor
  have run : skipTrivia s = (do
      if trivia.unclosed then pass (.illegal trivia.cursor)
      return trivia.comments : Scan (List Comment)) { s with cursor := trivia.cursor } := rfl
  rw [run]
  split
  · exact ⟨_, by simp only [bind, EStateM.bind, pass_of_tolerant (s := { s with cursor := trivia.cursor }) hs]; rfl⟩
  · exact ⟨_, rfl⟩

theorem token_modes (h : token s = .ok t s') : s'.tolerant = s.tolerant ∧ s'.keepsComments = s.keepsComments := by
  obtain ⟨u, rfl, _, ⟨_, _, hs', -⟩, -⟩ := of_ensures (fun u => Judgement.token_ensures (J := .onSuccess)) h
  exact ⟨congrArg (fun u => u.scanner.tolerant) hs', congrArg (fun u => u.scanner.keepsComments) hs'⟩

end Scan

namespace Tokenizer

variable {history : History} {s s' : Scanner} {t t' : Tokenizer} {given : List TokenItem} {ranges : Bool}

/-- In tolerant mode a token leaves the scanner as it is to read on. -/
theorem readToken_modes {token : Token} (hs : s.tolerant = true) (h : readToken history s = .ok token s') :
    s'.tolerant = s.tolerant ∧ s'.keepsComments = s.keepsComments := by
  rw [readToken_run] at h
  split at h
  · have hregex := Scan.regex_eq_of_tolerant hs
    split at hregex
    · rw [scanEither_of_error hregex, rewind_cursor] at h
      exact Scan.token_modes h
    · rw [scanEither_of_ok hregex] at h
      cases h
      exact ⟨rfl, rfl⟩
  · exact Scan.token_modes h

/-- What a tokenizer has given back and what waits in it are all that it has read, and every comment but those at the
end of the source stands before a token. -/
structure Covers (source : String) (ranges : Bool) (given : List TokenItem) (t : Tokenizer) : Prop where
  tolerant : t.scanner.tolerant = true
  keeps : t.scanner.keepsComments = true
  presentation : t.presentation.range = ranges
  ranges : Ranged ranges (given ++ t.waiting)
  reached : (Cursor.ofString source).Reaches t.scanner.cursor
  partitions : Partitions source t.scanner.cursor.offset (tokensOf (given ++ t.waiting))
    (commentsOf (given ++ t.waiting))
  history : t.history = (tokensOf (given ++ t.waiting)).foldl History.push {}
  ended : t.done = true → t.scanner.cursor.rest = []
  before : t.done = false → ∀ k ∈ commentsOf (given ++ t.waiting), ∃ u ∈ tokensOf (given ++ t.waiting), k.stop ≤ u.start

/-- Reading has stopped behind the items and the comments that are lost, where no token can be read. -/
def Stopped (source : String) (ranges : Bool) (items : List TokenItem) (e : SyntaxError) : Prop :=
  ∃ s s' lost, (Cursor.ofString source).Reaches s.cursor ∧
    readToken ((tokensOf items).foldl History.push {}) s = .error e s' ∧
      GivenBack source ranges s.cursor.offset items lost

/-- A run has given back everything, or it has stopped at the error. -/
def Ended (source : String) (ranges : Bool) (items : List TokenItem) : Option SyntaxError → Prop
  | none => GivenBack source ranges source.utf8ByteSize items []
  | some e => Stopped source ranges items e

/-- A token keeps the range where it was read. -/
theorem tokenItem_range (hfits : token.stop < 2 ^ 32) (hle : token.start ≤ token.stop) (first : Position) :
    (t.tokenItem token first).placement.range = wanted t.presentation.range token.span :=
  congrArg (wanted t.presentation.range) (Span.inWords_eq (Nat.lt_of_le_of_lt hle hfits) hfits)

/-- A comment keeps the range where it was passed. -/
theorem commentItem_range {c : Comment} (hfits : c.stop < 2 ^ 32) (hle : c.start ≤ c.stop) :
    (t.commentItem c).placement.range = wanted t.presentation.range ⟨c.start, c.stop⟩ :=
  congrArg (wanted t.presentation.range) (Extent.span_eq (Nat.lt_of_le_of_lt hle hfits) hfits)

namespace Covers

/-- Filling reads on, or stops. Nothing waits when it begins. -/
theorem fill (h : t.Covers source ranges given) (hfits : source.utf8ByteSize < 2 ^ 32) (hdone : t.done = false)
    (hwaiting : t.waiting = []) :
    (∃ t', t.fill = .ok () t' ∧ t'.Covers source ranges given) ∨
      ∃ e t', t.fill = .error e t' ∧ Stopped source ranges given e := by
  obtain ⟨errors, hskip⟩ := Scan.skipTrivia_of_tolerant h.tolerant
  have passed := Trivia.skip_passed (t.scanner.goal == .script) t.scanner.cursor
  have partitions := h.partitions
  have before := h.before hdone
  have history := h.history
  have kept := h.ranges
  rw [hwaiting, List.append_nil] at partitions before history kept
  rw [fill_run, hskip, h.keeps]
  generalize Trivia.skip true (t.scanner.goal == .script) t.scanner.cursor = trivia at passed
  have reached := h.reached.trans passed.reaches
  have bounded := reached.offset_add_bytes
  have grown := partitions.passed h.reached passed
  have placed := partitions.passed h.reached (passed.map (f := t.placed) fun _ => rfl)
  have behind : ∀ k ∈ trivia.comments, ∀ u ∈ tokensOf given, u.stop ≤ k.start := fun k hk u hu =>
    Nat.le_trans (partitions.tokens_bounded u hu).2 (passed.offset_le_start k hk)
  have ranged : Ranged ranges (given ++ trivia.comments.map t.commentItem) := by
    refine List.forall_mem_append.2 ⟨kept, List.forall_mem_map.2 fun k hk => ?_⟩
    have := grown.comments_bounded k (List.mem_append_right _ hk)
    exact (commentItem_range (by omega) (Nat.le_of_lt this.1)).trans (congrArg (wanted · _) h.presentation)
  dsimp only
  split
  next hend =>
    refine .inl ⟨_, rfl, ⟨h.tolerant, rfl, h.presentation, ?_, reached, ?_, ?_,
      fun _ => List.isEmpty_iff.1 hend, fun h => absurd h.symm Bool.false_ne_true⟩⟩
    · simpa [behindComments, h.keeps, hwaiting] using ranged
    · simpa [behindComments, h.keeps, hwaiting] using placed
    · simpa [behindComments, h.keeps, hwaiting] using history
  next hmore =>
    rw [history]
    split
    next e s' hread =>
      exact .inr ⟨e, _, rfl, _, _, trivia.comments, reached, hread, kept, grown, behind, .inr before⟩
    next token s' hread =>
      have lexed := readToken_lexed hread
      have advances : trivia.cursor.offset < s'.cursor.offset := lexed.advances (by
        rw [← Bool.not_eq_true, lexed.end_iff]
        exact fun hnil => hmore (List.isEmpty_iff.2 hnil))
      have whole := placed.token (l := token.lexeme) reached lexed.reaches advances
      rw [← lexed.eq] at whole
      have last := (reached.trans lexed.reaches).offset_add_bytes
      have start : token.start = trivia.cursor.offset := by
        rw [lexed.eq]
        rfl
      have stop : token.stop = s'.cursor.offset := by
        rw [lexed.eq]
        rfl
      obtain ⟨tolerant, keeps⟩ := readToken_modes (by exact h.tolerant) hread
      refine .inl ⟨_, rfl, ⟨tolerant.trans h.tolerant, keeps, h.presentation, ?_, reached.trans lexed.reaches, ?_, ?_,
        by simp [behindToken, behindComments, hdone], fun _ k hk => ?_⟩⟩
      · rw [behindToken, behindComments, if_pos rfl, hwaiting, List.nil_append, ← List.append_assoc]
        refine List.forall_mem_append.2 ⟨ranged, List.forall_mem_singleton.2 ?_⟩
        exact (tokenItem_range (by omega) (by omega) _).trans (congrArg (wanted · _) h.presentation)
      · simpa [behindToken, behindComments, h.keeps, hwaiting] using whole
      · simp [behindToken, behindComments, hwaiting, history]
      · refine ⟨token, by simp [behindToken, behindComments, hwaiting], ?_⟩
        rw [start]
        exact (placed.comments_bounded k (by simpa [behindToken, behindComments, h.keeps, hwaiting] using hk)).2

/-- What waits first is given back. -/
theorem give {item : TokenItem} {waiting : List TokenItem} (h : t.Covers source ranges given)
    (hw : t.waiting = item :: waiting) :
    Covers source ranges (given ++ [item]) { t with waiting } := by
  have same : given ++ [item] ++ waiting = given ++ t.waiting := by simp [hw]
  exact ⟨h.tolerant, h.keeps, h.presentation, same ▸ h.ranges, h.reached, same ▸ h.partitions,
    same ▸ h.history, h.ended,
    same ▸ h.before⟩

/-- At the end of the source everything has been given back. -/
theorem whole (h : t.Covers source ranges given) (hdone : t.done = true) (hw : t.waiting = []) :
    GivenBack source ranges source.utf8ByteSize given [] := by
  have partitions := h.partitions
  have kept := h.ranges
  have last := h.reached.offset_add_bytes
  rw [h.ended hdone, bytes_nil, Nat.add_zero] at last
  rw [hw, List.append_nil, last] at partitions
  rw [hw, List.append_nil] at kept
  exact ⟨kept, by simpa using partitions, List.forall_mem_nil _, .inl rfl⟩

/-- Each round gives back what waits first, or it fills before; a run has more rounds than the source has bytes. -/
theorem collect {read : List TokenItem} {bound : Nat} (h : t.Covers source ranges read.reverse)
    (hmetered : t.Metered source read.length)
    (hfits : source.utf8ByteSize < 2 ^ 32) (hbound : source.utf8ByteSize < read.length + bound) :
    Ended source ranges (Tokenizer.collect read bound t).1 (Tokenizer.collect read bound t).2.1 := by
  induction bound generalizing read t with
  | zero => exact absurd hmetered.bounded (by omega)
  | succ bound ih =>
    have gives {t : Tokenizer} (h : t.Covers source ranges read.reverse) (hmetered : t.Metered source read.length)
        (hready : ¬ (t.waiting.isEmpty && !t.done) = true) :
        Ended source ranges (Tokenizer.collect read (bound + 1) t).1 (Tokenizer.collect read (bound + 1) t).2.1 := by
      cases hw : t.waiting with
      | nil =>
        rw [collect_of_nil hready hw]
        exact h.whole (by simpa [hw] using hready) hw
      | cons item waiting =>
        rw [collect_of_cons hw]
        have given : Tokenizer.Metered source (item :: read).length { t with waiting } := by
          simpa using hmetered.next ((next_of_not hready).trans (give_of_cons hw))
        exact ih (by simpa using h.give hw) given (by rw [List.length_cons]; omega)
    by_cases hfills : (t.waiting.isEmpty && !t.done) = true
    · obtain ⟨hempty, hdone⟩ : t.waiting = [] ∧ t.done = false := by simpa using hfills
      rcases h.fill hfits hdone hempty with ⟨u, hfill, hu⟩ | ⟨e, u, hfill, hstopped⟩
      · rw [collect_fill hfills hfill]
        exact gives hu (hmetered.fill hfill) (fill_gives hfill)
      · rw [collect_stopped hfills hfill]
        exact hstopped
    · exact gives h hmetered hfills

end Covers

end Tokenizer

/-- Tolerant tokenizing gives back all that stands in the source, but for space; or it stops at an error where no
token can be read, and gives back all that stands before that place but for space and the comments behind the last
token. -/
theorem tokenize_stops {source : String} {o : TokenizeOptions} (hfits : source.utf8ByteSize < 2 ^ 32)
    (hcomment : o.comment = true) (htolerant : o.tolerant = true) :
    ∃ items errors, tokenize source o = .ok ⟨items, some errors⟩ ∧
      (GivenBack source o.range source.utf8ByteSize items [] ∨
        ∃ e, errors.getLast? = some e ∧ Tokenizer.Stopped source o.range items e) := by
  have start : (Tokenizer.start source o).Covers source o.range [] :=
    ⟨htolerant, hcomment, rfl, List.forall_mem_nil _, .refl _, .nil source, rfl, fun h => absurd h Bool.false_ne_true,
      fun _ => List.forall_mem_nil _⟩
  have metered : (Tokenizer.start source o).Metered source ([] : List TokenItem).length := ⟨.refl _, Nat.le_refl _⟩
  have room : source.utf8ByteSize < ([] : List TokenItem).length + (source.utf8ByteSize + 1) := by simp
  have h := start.collect metered hfits room
  rcases hrun : Tokenizer.collect [] (source.utf8ByteSize + 1) (.start source o) with ⟨items, stopped, t⟩
  rw [hrun] at h
  refine ⟨items, t.scanner.errors ++ stopped.toList, by simp only [tokenize, hrun, htolerant, if_true], ?_⟩
  cases stopped with
  | none => exact .inl h
  | some e => exact .inr ⟨e, by simp, h⟩

/-- The second comment is dropped, and the first one is not: `a` stands behind it. -/
theorem tokenize_stops_comments : "/*x*/ a /*y*/ '".utf8ByteSize < 2 ^ 32 ∧ ∃ items errors,
    tokenize "/*x*/ a /*y*/ '" { comment := true, tolerant := true, range := true } = .ok ⟨items, some errors⟩ ∧
      (GivenBack "/*x*/ a /*y*/ '" true 15 items [] ∨
        ∃ e, errors.getLast? = some e ∧ Tokenizer.Stopped "/*x*/ a /*y*/ '" true items e) :=
  ⟨by decide, tokenize_stops (by decide) rfl rfl⟩

/-- The comment before the string that is not closed is dropped, though it has been read: it is neither given back nor
space. -/
theorem tokenize_drops_comment : ∃ e, tokenize "/*a*/'" { comment := true, tolerant := true } = .ok ⟨[], some [e]⟩ ∧
    e.index = 5 ∧ ¬ Partitions "/*a*/'" e.index (tokensOf []) (commentsOf []) := by
  have h : ((tokenize "/*a*/'" { comment := true, tolerant := true }).toOption.any fun stream =>
      stream.items.isEmpty && stream.errors == some [⟨5, 1, 6, .illegalToken⟩]) = true := by decide +kernel
  have first : ByteOf "/*a*/'" 0 '/' := ⟨"", "*a*/'", rfl, by decide, by decide⟩
  refine ⟨⟨5, 1, 6, .illegalToken⟩, ?_, rfl, fun partitions => ?_⟩
  · obtain ⟨⟨items, errors⟩, hrun, h⟩ := exists_ok_of_any h
    simp only [Bool.and_eq_true, List.isEmpty_iff, beq_iff_eq] at h
    rw [hrun, h.1, h.2]
  · rcases partitions.gaps 0 (by decide) with ⟨_, ht, -⟩ | ⟨_, hk, -⟩ | ⟨ch, hch, hspace⟩
    · cases ht
    · cases hk
    · rw [hch.unique first] at hspace
      cases hspace

end EcmaTree
