import EcmaTree.Proofs.Lexer.Reach

/-!
# Trivia between tokens

What is skipped between two tokens is comments, white space and line terminators, and nothing else. Skipping again
where skipping has stopped skips nothing.
-/

namespace EcmaTree

open Cursor (Reaches)

/-- Does the character belong to no token and to no comment? -/
def isSpace (ch : Char) : Bool := isBlank ch || isLineTerminator ch

/-- From the first cursor to the second one stand the comments, with nothing but space around them. -/
inductive Passed : Cursor → List Comment → Cursor → Prop
  | refl (c : Cursor) : Passed c [] c
  | space {c d e : Cursor} {ch : Char} {rest : List Char} {comments : List Comment} : c.rest = ch :: rest →
      isSpace ch = true → d.rest = rest → d.offset = c.offset + ch.utf8Size → Passed d comments e →
      Passed c comments e
  | comment {c d e : Cursor} {comment : Comment} {comments : List Comment} : c.Reaches d → c.offset < d.offset →
      comment.start = c.offset → comment.stop = d.offset → Passed d comments e → Passed c (comment :: comments) e

namespace Passed

variable {c d e : Cursor} {comments : List Comment} {ch : Char} {rest : List Char}

theorem reaches (h : Passed c comments d) : c.Reaches d := by
  induction h with
  | refl c => rfl
  | space hc _ hd ho _ ih => exact .trans ⟨[_], by rw [hc, hd]; rfl, by rw [ho]; rfl⟩ ih
  | comment h _ _ _ _ ih => exact h.trans ih

/-- Only the extents of the comments count. -/
theorem map {f : Comment → Comment} (hf : ∀ k, (f k).extent = k.extent) (h : Passed c comments d) :
    Passed c (comments.map f) d := by
  have start (k : Comment) : (f k).start = k.start := by rw [Comment.start, hf, Comment.start]
  have stop (k : Comment) : (f k).stop = k.stop := by rw [Comment.stop, hf, Comment.stop]
  induction h with
  | refl c => exact .refl c
  | space hc hch hd ho _ ih => exact .space hc hch hd ho ih
  | comment h hlt hstart hstop _ ih => exact .comment h hlt ((start _).trans hstart) ((stop _).trans hstop) ih

theorem line (hc : c.rest = ch :: rest) (hch : isLineTerminator ch = true)
    (h : Passed (c.passLine ch rest) comments e) :
    Passed c comments e := by
  have space : isSpace ch = true := by simp [isSpace, hch]
  unfold Cursor.passLine Cursor.startLine at h
  split at h
  next hr => exact .space (d := c.pass '\r' rest) hc space rfl rfl (.space hr (by decide) rfl rfl h)
  · exact .space hc space rfl rfl h

end Passed

namespace Trivia

variable {c : Cursor} {cs body : List Char} {n : Nat}

/-- A line comment ends before a line terminator, which is passed too. -/
theorem readLine_passed {l : List Char} {comments : List Comment} {e : Cursor}
    (hc : c.rest = l ++ body) (hn : bytes l = n)
    (hpos : 0 < n) (h : Passed (readLine c n body).2 comments e) : Passed c ((readLine c n body).1 :: comments) e := by
  have first : c.Reaches (c.moveTo n body) := .moveTo hc hn
  have last := Reaches.skipWhile (!isLineTerminator ·) (c.moveTo n body)
  have offset : c.offset < (c.moveTo n body).offset := Nat.lt_add_of_pos_right hpos
  refine .comment (first.trans last) (Nat.lt_of_lt_of_le offset last.offset_le) ?_ ?_ ?_
  · unfold readLine; simp only; split <;> rfl
  · unfold readLine; simp only; split <;> rfl
  · unfold readLine at h
    simp only at h
    split at h
    · exact h
    next ch rest hrest =>
      refine .line hrest ?_ h
      have := List.head?_dropWhile_not (fun ch => !isLineTerminator ch) body
      simp_all [Cursor.skipWhile, Cursor.moveTo]

theorem skipBlock_reaches (c : Cursor) : c.Reaches (skipBlock c) := by
  fun_induction skipBlock c with
  | case1 | case2 => rfl
  | case3 c ch rest _ h _ ih => exact (Reaches.passLine h).trans ih
  | case4 c ch rest _ h _ ih => exact (Reaches.pass h).trans ih

theorem skipBlock_stops (c : Cursor) : (skipBlock c).rest = [] ∨ ∃ rest, (skipBlock c).rest = '*' :: '/' :: rest := by
  fun_induction skipBlock c with
  | case1 c h => exact .inl h
  | case2 c rest h => exact .inr ⟨_, h⟩
  | case3 _ _ _ _ _ _ ih | case4 _ _ _ _ _ _ ih => exact ih

/-- A block comment reaches behind its end, or to the end of the text if it is left open. -/
theorem readBlock_spec (hc : c.rest = '/' :: '*' :: body) :
    c.Reaches (readBlock c body).2.1 ∧ c.offset < (readBlock c body).2.1.offset ∧
      (readBlock c body).1.start = c.offset ∧ (readBlock c body).1.stop = (readBlock c body).2.1.offset ∧
      ((readBlock c body).2.2 = true → (readBlock c body).2.1.rest = []) := by
  have first : c.Reaches (c.moveTo 2 body) := .moveTo (l := ['/', '*']) hc rfl
  have last := skipBlock_reaches (c.moveTo 2 body)
  have offset : c.offset < (c.moveTo 2 body).offset := Nat.lt_add_of_pos_right (by decide)
  simp only [readBlock]
  split
  next rest hrest =>
    have stop : (skipBlock (c.moveTo 2 body)).Reaches ((skipBlock (c.moveTo 2 body)).moveTo 2 rest) :=
      .moveTo (l := ['*', '/']) hrest rfl
    exact ⟨first.trans (last.trans stop), Nat.lt_of_lt_of_le offset (last.trans stop).offset_le, rfl, rfl, nofun⟩
  next hno =>
    refine ⟨first.trans last, Nat.lt_of_lt_of_le offset last.offset_le, rfl, rfl, fun _ => ?_⟩
    rcases skipBlock_stops (c.moveTo 2 body) with h | ⟨rest, h⟩
    · exact h
    · exact absurd h (hno rest)

/-- Comments that are not kept are skipped all the same. -/
theorem skipFrom_keep (keep script fresh : Bool) (found found' : List Comment) (c : Cursor) :
    (skipFrom keep script fresh found c).cursor = (skipFrom true script fresh found' c).cursor ∧
      (skipFrom keep script fresh found c).unclosed = (skipFrom true script fresh found' c).unclosed := by
  fun_induction skipFrom keep script fresh found c generalizing found' <;>
    rw [skipFrom.eq_def true] <;> split <;> grind

theorem skipFrom_comments_of_dropped (script fresh : Bool) (found : List Comment) (c : Cursor) :
    (skipFrom false script fresh found c).comments = found.reverse := by
  fun_induction skipFrom false script fresh found c <;> simp_all [noted]

/-- Whether comments are kept shows in what is given back, and nowhere else. -/
theorem skip_keep (keep script : Bool) (c : Cursor) : skip keep script c =
    ⟨if keep then (skip true script c).comments else [], (skip true script c).cursor,
      (skip true script c).unclosed⟩ := by
  cases keep with
  | true => rfl
  | false =>
    obtain ⟨hcursor, hunclosed⟩ := skipFrom_keep false script (c.offset == 0) [] [] c
    have hcomments := skipFrom_comments_of_dropped script (c.offset == 0) [] c
    rw [skip, skip, if_neg Bool.false_ne_true, ← hcursor, ← hunclosed]
    cases hread : skipFrom false script (c.offset == 0) [] c
    simp_all

theorem skipFrom_passed (script fresh : Bool) (found : List Comment) (c : Cursor) :
    ∃ comments, (skipFrom true script fresh found c).comments = found.reverse ++ comments ∧
      Passed c comments (skipFrom true script fresh found c).cursor := by
  fun_induction skipFrom true script fresh found c with
  | case1 fresh found c body hc read ih =>
    obtain ⟨comments, h, passed⟩ := ih
    exact ⟨read.1 :: comments, h.trans (by simp [noted]), readLine_passed (l := ['/', '/']) hc rfl (by decide) passed⟩
  | case2 fresh found c body hc read hopen =>
    obtain ⟨reaches, offset, start, stop, -⟩ := readBlock_spec hc
    exact ⟨[read.1], by simp [noted], .comment reaches offset start stop (.refl _)⟩
  | case3 fresh found c body hc read _ ih =>
    obtain ⟨reaches, offset, start, stop, -⟩ := readBlock_spec hc
    obtain ⟨comments, h, passed⟩ := ih
    exact ⟨read.1 :: comments, h.trans (by simp [noted]), .comment reaches offset start stop passed⟩
  | case4 fresh found c body hc _ read ih =>
    obtain ⟨comments, h, passed⟩ := ih
    exact ⟨read.1 :: comments, h.trans (by simp [noted]),
      readLine_passed (l := ['-', '-', '>']) hc rfl (by decide) passed⟩
  | case6 fresh found c body hc _ read ih =>
    obtain ⟨comments, h, passed⟩ := ih
    exact ⟨read.1 :: comments, h.trans (by simp [noted]),
      readLine_passed (l := ['<', '!', '-', '-']) hc rfl (by decide) passed⟩
  | case8 fresh found c ch rest _ _ _ _ hc hblank ih =>
    obtain ⟨comments, h, passed⟩ := ih
    exact ⟨comments, h, .space hc (by simp [isSpace, hblank]) rfl rfl passed⟩
  | case9 fresh found c ch rest _ _ _ _ hc _ hline ih =>
    obtain ⟨comments, h, passed⟩ := ih
    exact ⟨comments, h, .line hc hline passed⟩
  | case5 | case7 | case10 | case11 => exact ⟨[], by simp, .refl _⟩

theorem skip_passed (script : Bool) (c : Cursor) :
    Passed c (skip true script c).comments (skip true script c).cursor := by
  obtain ⟨comments, h, passed⟩ := skipFrom_passed script (c.offset == 0) [] c
  rw [skip, h]
  simpa using passed

theorem mem_noted {keep : Bool} {j k : Comment} {found : List Comment} (h : j ∈ noted keep k found) :
    j = k ∨ j ∈ found := by
  unfold noted at h
  split at h
  · exact List.mem_cons.1 h
  · exact .inr h

theorem readLine_placement (c : Cursor) (opener : Nat) (body : List Char) :
    (readLine c opener body).1.placement = {} := by
  unfold readLine
  dsimp only
  split <;> rfl

theorem readBlock_placement (c : Cursor) (body : List Char) : (readBlock c body).1.placement = {} := by
  unfold readBlock
  dsimp only
  split <;> rfl

theorem skipFrom_placement (keep script fresh : Bool) (found : List Comment) (c : Cursor)
    (h : ∀ k ∈ found, k.placement = {}) : ∀ k ∈ (skipFrom keep script fresh found c).comments, k.placement = {} := by
  have more {first : Comment} {found : List Comment} (hfirst : first.placement = {})
      (h : ∀ k ∈ found, k.placement = {}) : ∀ k ∈ noted keep first found, k.placement = {} := by
    unfold noted
    split
    · exact List.forall_mem_cons.2 ⟨hfirst, h⟩
    · exact h
  fun_induction skipFrom keep script fresh found c with
  | case1 _ _ _ _ _ _ ih | case4 _ _ _ _ _ _ _ ih | case6 _ _ _ _ _ _ _ ih =>
    exact ih (more (readLine_placement ..) h)
  | case2 => simpa only [List.mem_reverse] using more (readBlock_placement ..) h
  | case3 _ _ _ _ _ _ _ ih => exact ih (more (readBlock_placement ..) h)
  | case8 _ _ _ _ _ _ _ _ _ _ _ ih | case9 _ _ _ _ _ _ _ _ _ _ _ _ ih => exact ih h
  | case5 | case7 | case10 | case11 => simpa using h

/-- Nothing is kept of the places of the comments yet. -/
theorem skip_placement (keep script : Bool) (c : Cursor) : ∀ k ∈ (skip keep script c).comments, k.placement = {} :=
  skipFrom_placement keep script _ [] c nofun

theorem skip_reaches (keep script : Bool) (c : Cursor) : c.Reaches (skip keep script c).cursor := by
  rw [skip_keep]
  exact (skip_passed script c).reaches

/-! ## Skipping again -/

/-- Nothing is skipped before the text. A comment `-->` counts only at the beginning of a line. -/
inductive Still (script fresh : Bool) : List Char → Prop
  | nil : Still script fresh []
  | cons {ch : Char} {rest : List Char} : isSpace ch = false → (∀ body, ch :: rest ≠ '/' :: '/' :: body) →
      (∀ body, ch :: rest ≠ '/' :: '*' :: body) →
      (∀ body, ch :: rest = '-' :: '-' :: '>' :: body → (script && fresh) = false) →
      (∀ body, ch :: rest = '<' :: '!' :: '-' :: '-' :: body → script = false) → Still script fresh (ch :: rest)

theorem Still.mono {script fresh fresh' : Bool} {cs : List Char} (h : Still script fresh' cs)
    (hf : fresh = true → fresh' = true) : Still script fresh cs := by
  cases h with
  | nil => exact .nil
  | cons space line block close open' =>
    refine .cons space line block (fun body hbody => ?_) open'
    have := close body hbody
    cases fresh <;> simp_all

theorem Still.skipFrom {keep script fresh : Bool} {found : List Comment} {c : Cursor} (h : Still script fresh c.rest) :
    skipFrom keep script fresh found c = ⟨found.reverse, c, false⟩ := by
  unfold Trivia.skipFrom
  split
  next hc => rw [hc] at h; cases h with | cons _ line => exact absurd rfl (line _)
  next hc => rw [hc] at h; cases h with | cons _ _ block => exact absurd rfl (block _)
  next hc => rw [hc] at h; cases h with | cons _ _ _ close => simp [close _ rfl]
  next hc => rw [hc] at h; cases h with | cons _ _ _ _ open' => simp [open' _ rfl]
  next hc =>
    rw [hc] at h
    cases h with | cons space => simp_all [isSpace]
  · rfl

theorem skipFrom_still (keep script fresh : Bool) (found : List Comment) (c : Cursor) :
    ∃ fresh', (fresh = true → fresh' = true) ∧
      Still script fresh' (Trivia.skipFrom keep script fresh found c).cursor.rest := by
  fun_induction Trivia.skipFrom keep script fresh found c with
  | case1 fresh found c body hc read ih | case3 fresh found c body hc read _ ih | case4 fresh found c body hc _ read ih
  | case6 fresh found c body hc _ read ih | case8 fresh found c ch rest _ _ _ _ hc hblank ih
  | case9 fresh found c ch rest _ _ _ _ hc _ hline ih =>
    obtain ⟨fresh', h, still⟩ := ih
    exact ⟨fresh', fun hf => h (by simp [hf]), still⟩
  | case2 fresh found c body hc read hopen =>
    exact ⟨fresh, id, by rw [(readBlock_spec hc).2.2.2.2 hopen]; exact .nil⟩
  | case5 fresh found c body hc hno =>
    refine ⟨fresh, id, ?_⟩
    rw [hc]
    exact .cons (by decide) nofun nofun (by simpa using hno) nofun
  | case7 fresh found c body hc hno =>
    refine ⟨fresh, id, ?_⟩
    rw [hc]
    exact .cons (by decide) nofun nofun nofun (by simpa using hno)
  | case10 fresh found c ch rest line block close open' hc hblank hline =>
    refine ⟨fresh, id, ?_⟩
    rw [hc]
    exact .cons (by simp_all [isSpace]) (by simp_all) (by simp_all) (by simp_all) (by simp_all)
  | case11 fresh found c hc =>
    refine ⟨fresh, id, ?_⟩
    rw [hc]
    exact .nil

/-- Where skipping has stopped, skipping stops again, on whichever line. -/
theorem skip_skip {keep script : Bool} {c d : Cursor} (hrest : d.rest = (skip keep script c).cursor.rest)
    (hoffset : d.offset = (skip keep script c).cursor.offset) : skip keep script d = ⟨[], d, false⟩ := by
  obtain ⟨fresh', hf, still⟩ := skipFrom_still keep script (c.offset == 0) [] c
  refine Still.skipFrom (.mono (hrest ▸ still) fun hd => hf ?_)
  have := (skip_reaches keep script c).offset_le
  simp_all

end Trivia

end EcmaTree
