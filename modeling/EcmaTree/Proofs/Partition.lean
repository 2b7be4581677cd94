import EcmaTree.Proofs.Lexer.Scan
import EcmaTree.Proofs.Lexer.Trivia

/-!
# Partitions of a source

Tokens and comments partition a source if they stand in order without overlapping, and leave nothing out but space.
A partition of what stands before an offset grows to the right: by a token, a comment or a space that begins there.
-/

namespace EcmaTree

open Cursor (Reaches)

/-- The text is what stands in the source between the offsets. -/
def SliceOf (source : String) (start stop : Nat) (text : String) : Prop :=
  ∃ before after, source = before ++ text ++ after ∧ before.utf8ByteSize = start ∧ (before ++ text).utf8ByteSize = stop

/-- The byte at the offset belongs to the character. -/
def ByteOf (source : String) (offset : Nat) (ch : Char) : Prop :=
  ∃ before after, source = before ++ String.singleton ch ++ after ∧ before.utf8ByteSize ≤ offset ∧
    offset < before.utf8ByteSize + ch.utf8Size

/-- The tokens and the comments partition what stands in the source before the offset. -/
structure Partitions (source : String) (stop : Nat) (tokens : List Token) (comments : List Comment) : Prop where
  tokens_bounded : ∀ t ∈ tokens, t.start < t.stop ∧ t.stop ≤ stop
  comments_bounded : ∀ c ∈ comments, c.start < c.stop ∧ c.stop ≤ stop
  tokens_ordered : tokens.Pairwise fun t u => t.stop ≤ u.start
  comments_ordered : comments.Pairwise fun c d => c.stop ≤ d.start
  disjoint : ∀ t ∈ tokens, ∀ c ∈ comments, t.stop ≤ c.start ∨ c.stop ≤ t.start
  raw : ∀ t ∈ tokens, SliceOf source t.start t.stop t.raw
  /-- What belongs to no token and no comment is space. -/
  gaps : ∀ offset < stop, (∃ t ∈ tokens, t.start ≤ offset ∧ offset < t.stop) ∨
    (∃ c ∈ comments, c.start ≤ offset ∧ offset < c.stop) ∨ ∃ ch, ByteOf source offset ch ∧ isSpace ch = true

/-! ## Texts and cursors -/

section
variable {source : String} {c d e : Cursor} {cs : List Char} {ch : Char} {offset : Nat}

theorem ofList_append_after (h : (Cursor.ofString source).Across cs c) :
    source = String.ofList cs ++ String.ofList c.rest := by
  rw [← String.ofList_append, ← h.rest]
  exact String.ofList_toList.symm

theorem slice_of_reaches (hc : (Cursor.ofString source).Reaches c) (hd : c.Reaches d) :
    SliceOf source c.offset d.offset (c.textUntil d.offset) := by
  obtain ⟨cs, hc⟩ := hc
  obtain ⟨ds, hd⟩ := hd
  have start : bytes cs = c.offset := by simpa [Cursor.ofString] using hc.offset.symm
  refine ⟨String.ofList cs, String.ofList d.rest, ?_, by rw [← bytes_eq_utf8ByteSize, start], ?_⟩
  · rw [hd.textUntil, ← String.ofList_append]
    exact ofList_append_after (hc.trans hd)
  · rw [hd.textUntil, ← String.ofList_append, ← bytes_eq_utf8ByteSize, bytes_append, start, hd.offset]

theorem byteOf_reaches (hc : (Cursor.ofString source).Reaches c) (hd : c.Across [ch] d) (hle : c.offset ≤ offset)
    (hlt : offset < d.offset) : ByteOf source offset ch := by
  obtain ⟨cs, hc⟩ := hc
  have start : bytes cs = c.offset := by simpa [Cursor.ofString] using hc.offset.symm
  refine ⟨String.ofList cs, String.ofList d.rest, ?_, by rw [← bytes_eq_utf8ByteSize, start]; exact hle, ?_⟩
  · rw [String.singleton_eq_ofList, ← String.ofList_append]
    exact ofList_append_after (hc.trans hd)
  · rw [← bytes_eq_utf8ByteSize, start]
    simpa [hd.offset] using hlt

theorem ByteOf.toList (h : ByteOf source offset ch) :
    ∃ cs ds, source.toList = cs ++ ch :: ds ∧ bytes cs ≤ offset ∧ offset < bytes cs + ch.utf8Size := by
  obtain ⟨before, after, rfl, hle, hlt⟩ := h
  refine ⟨before.toList, after.toList, by simp, ?_, ?_⟩ <;> rwa [bytes_eq_utf8ByteSize, String.ofList_toList]

theorem ByteOf.lt (h : ByteOf source offset ch) : offset < source.utf8ByteSize := by
  obtain ⟨before, after, rfl, -, hlt⟩ := h
  simp only [String.utf8ByteSize_append, String.utf8ByteSize_singleton]
  omega

/-- A byte belongs to one character only. -/
theorem ByteOf.unique {ch' : Char} (h : ByteOf source offset ch) (h' : ByteOf source offset ch') : ch = ch' := by
  obtain ⟨cs, ds, hcs, hle, hlt⟩ := h.toList
  obtain ⟨cs', ds', hcs', hle', hlt'⟩ := h'.toList
  rcases List.append_eq_append_iff.1 (hcs.symm.trans hcs') with ⟨xs, rfl, hxs⟩ | ⟨xs, rfl, hxs⟩
  · cases xs with
    | nil => exact (List.cons.inj hxs).1
    | cons x xs =>
      obtain ⟨rfl, -⟩ := List.cons.inj hxs
      simp only [bytes_append, bytes_cons] at hle'
      omega
  · cases xs with
    | nil => exact (List.cons.inj hxs).1.symm
    | cons x xs =>
      obtain ⟨rfl, -⟩ := List.cons.inj hxs
      simp only [bytes_append, bytes_cons] at hle
      omega

end

/-! ## Growing to the right -/

namespace Partitions

variable {source : String} {stop : Nat} {tokens : List Token} {comments : List Comment} {c d : Cursor}

theorem nil (source : String) : Partitions source 0 [] [] where
  tokens_bounded := List.forall_mem_nil _
  comments_bounded := List.forall_mem_nil _
  tokens_ordered := .nil
  comments_ordered := .nil
  disjoint := List.forall_mem_nil _
  raw := List.forall_mem_nil _
  gaps n hn := absurd hn (Nat.not_lt_zero n)

/-- A token is read. -/
theorem token {l : Lexeme} (h : Partitions source c.offset tokens comments) (hc : (Cursor.ofString source).Reaches c)
    (hd : c.Reaches d) (hlt : c.offset < d.offset) :
    Partitions source d.offset (tokens ++ [Scan.tokenBetween c d l]) comments := by
  have new : ∀ t ∈ [Scan.tokenBetween c d l], t.start = c.offset ∧ t.stop = d.offset ∧
    t.raw = c.textUntil d.offset := by
    simp [Scan.tokenBetween, Token.start, Token.stop]
  refine ⟨?_, fun k hk => ?_, ?_, h.comments_ordered, ?_, ?_, fun offset hoffset => ?_⟩
  · simp only [List.mem_append]
    rintro t (ht | ht)
    · exact ⟨(h.tokens_bounded t ht).1, Nat.le_trans (h.tokens_bounded t ht).2 hd.offset_le⟩
    · obtain ⟨hstart, hstop, -⟩ := new t ht
      exact ⟨by rw [hstart, hstop]; exact hlt, Nat.le_of_eq hstop⟩
  · exact ⟨(h.comments_bounded k hk).1, Nat.le_trans (h.comments_bounded k hk).2 hd.offset_le⟩
  · refine List.pairwise_append.2 ⟨h.tokens_ordered, List.pairwise_singleton _ _, fun t ht u hu => ?_⟩
    rw [(new u hu).1]
    exact (h.tokens_bounded t ht).2
  · simp only [List.mem_append]
    rintro t (ht | ht) k hk
    · exact h.disjoint t ht k hk
    · rw [(new t ht).1]
      exact .inr (h.comments_bounded k hk).2
  · simp only [List.mem_append]
    rintro t (ht | ht)
    · exact h.raw t ht
    · obtain ⟨hstart, hstop, hraw⟩ := new t ht
      rw [hstart, hstop, hraw]
      exact slice_of_reaches hc hd
  · by_cases hbefore : offset < c.offset
    · rcases h.gaps offset hbefore with ⟨t, ht, covers⟩ | rest
      · exact .inl ⟨t, List.mem_append_left _ ht, covers⟩
      · exact .inr rest
    · refine .inl ⟨_, List.mem_append_right _ (List.mem_singleton_self _), ?_⟩
      exact ⟨Nat.le_of_not_lt hbefore, hoffset⟩

/-- A comment is passed. -/
theorem comment {k : Comment} (h : Partitions source c.offset tokens comments) (hlt : c.offset < d.offset)
    (hstart : k.start = c.offset) (hstop : k.stop = d.offset) :
    Partitions source d.offset tokens (comments ++ [k]) := by
  have le := Nat.le_of_lt hlt
  refine ⟨fun t ht => ?_, ?_, h.tokens_ordered, ?_, fun t ht => ?_, h.raw, fun offset hoffset => ?_⟩
  · exact ⟨(h.tokens_bounded t ht).1, Nat.le_trans (h.tokens_bounded t ht).2 le⟩
  · simp only [List.mem_append, List.mem_singleton]
    rintro j (hj | rfl)
    · exact ⟨(h.comments_bounded j hj).1, Nat.le_trans (h.comments_bounded j hj).2 le⟩
    · exact ⟨by rw [hstart, hstop]; exact hlt, Nat.le_of_eq hstop⟩
  · refine List.pairwise_append.2 ⟨h.comments_ordered, List.pairwise_singleton _ _, fun j hj => ?_⟩
    simp only [List.mem_singleton, forall_eq, hstart]
    exact (h.comments_bounded j hj).2
  · simp only [List.mem_append, List.mem_singleton]
    rintro j (hj | rfl)
    · exact h.disjoint t ht j hj
    · rw [hstart]
      exact .inl (h.tokens_bounded t ht).2
  · by_cases hbefore : offset < c.offset
    · rcases h.gaps offset hbefore with covered | ⟨j, hj, covers⟩ | space
      · exact .inl covered
      · exact .inr (.inl ⟨j, List.mem_append_left _ hj, covers⟩)
      · exact .inr (.inr space)
    · refine .inr (.inl ⟨k, List.mem_append_right _ (List.mem_singleton_self _), ?_⟩)
      rw [hstart, hstop]
      exact ⟨Nat.le_of_not_lt hbefore, hoffset⟩

/-- A space is passed. -/
theorem space {ch : Char} (h : Partitions source c.offset tokens comments) (hc : (Cursor.ofString source).Reaches c)
    (hd : c.Across [ch] d) (hch : isSpace ch = true) : Partitions source d.offset tokens comments := by
  have le : c.offset ≤ d.offset := Reaches.offset_le ⟨_, hd⟩
  refine ⟨fun t ht => ?_, fun k hk => ?_, h.tokens_ordered, h.comments_ordered, h.disjoint,
    h.raw, fun offset hoffset => ?_⟩
  · exact ⟨(h.tokens_bounded t ht).1, Nat.le_trans (h.tokens_bounded t ht).2 le⟩
  · exact ⟨(h.comments_bounded k hk).1, Nat.le_trans (h.comments_bounded k hk).2 le⟩
  · by_cases hbefore : offset < c.offset
    · exact h.gaps offset hbefore
    · exact .inr (.inr ⟨ch, byteOf_reaches hc hd (Nat.le_of_not_lt hbefore) hoffset, hch⟩)

/-- Trivia is passed. -/
theorem passed {passed : List Comment} (h : Partitions source c.offset tokens comments)
    (hc : (Cursor.ofString source).Reaches c) (hp : Passed c passed d) :
    Partitions source d.offset tokens (comments ++ passed) := by
  induction hp generalizing comments with
  | refl c => simpa using h
  | @space c d e ch rest passed hrest hch hd hoffset _ ih =>
    have across : c.Across [ch] d := ⟨by rw [hrest, hd]; rfl, by rw [hoffset]; rfl⟩
    exact ih (h.space hc across hch) (hc.trans ⟨_, across⟩)
  | @comment c d e k passed hd hlt hstart hstop _ ih =>
    have := ih (h.comment hlt hstart hstop) (hc.trans hd)
    simpa using this

/-- It does not matter what is kept of comments besides their extents. -/
theorem map_comments {f : Comment → Comment} (hf : ∀ c, (f c).extent = c.extent) :
    Partitions source stop tokens (comments.map f) ↔ Partitions source stop tokens comments := by
  have start (c : Comment) : (f c).start = c.start := congrArg (·.start.offset) (hf c)
  have stops (c : Comment) : (f c).stop = c.stop := congrArg (·.stop.offset) (hf c)
  have covered (offset : Nat) : (∃ c ∈ comments.map f, c.start ≤ offset ∧ offset < c.stop) ↔
      ∃ c ∈ comments, c.start ≤ offset ∧ offset < c.stop := by
    constructor
    · rintro ⟨_, hmem, h⟩
      obtain ⟨c, hc, rfl⟩ := List.mem_map.1 hmem
      rw [start, stops] at h
      exact ⟨c, hc, h⟩
    · rintro ⟨c, hc, h⟩
      exact ⟨f c, List.mem_map_of_mem hc, by rwa [start, stops]⟩
  constructor
  · intro h
    refine ⟨h.tokens_bounded, ?_, h.tokens_ordered, ?_, ?_, h.raw,
      fun offset ho => by simpa only [covered] using h.gaps offset ho⟩
    · simpa only [List.forall_mem_map, start, stops] using h.comments_bounded
    · simpa only [List.pairwise_map, start, stops] using h.comments_ordered
    · simpa only [List.forall_mem_map, start, stops] using h.disjoint
  · intro h
    refine ⟨h.tokens_bounded, ?_, h.tokens_ordered, ?_, ?_, h.raw,
      fun offset ho => by simpa only [covered] using h.gaps offset ho⟩
    · simpa only [List.forall_mem_map, start, stops] using h.comments_bounded
    · simpa only [List.pairwise_map, start, stops] using h.comments_ordered
    · simpa only [List.forall_mem_map, start, stops] using h.disjoint

end Partitions

/-! ## Tokens that are read again -/

/-- What is left of a listed token. A chunk that closes an expression inside an element of JSX is listed whole, but the
element goes on behind its first character, the brace. -/
inductive Cut (source : String) (jsx : Bool) : Token → Token → Prop
  | whole (t : Token) : Cut source jsx t t
  | brace {t brace : Token} {chunk : TemplateChunk} {last : Char} : jsx = true → t.lexeme = .template chunk →
      chunk.isHead = false → brace.lexeme = .punctuator .rightBrace → brace.raw = "\x7d" → brace.start = t.start →
      brace.stop < t.stop → ByteOf source (t.stop - 1) last → isSpace last = false → Cut source jsx t brace

section
variable {source : String} {jsx : Bool} {stop offset : Nat} {pieces : List (Token × Token)} {comments : List Comment}

/-- In an ordered list one token at most covers a byte. -/
theorem eq_of_covers {p q : Token × Token}
    (h : (pieces.map Prod.fst).Pairwise fun t u => t.stop ≤ u.start) (hp : p ∈ pieces) (hq : q ∈ pieces)
    (hpo : p.1.start ≤ offset ∧ offset < p.1.stop) (hqo : q.1.start ≤ offset ∧ offset < q.1.stop) : p = q := by
  obtain ⟨i, hi, rfl⟩ := List.mem_iff_getElem.1 hp
  obtain ⟨j, hj, rfl⟩ := List.mem_iff_getElem.1 hq
  have ordered := List.pairwise_iff_getElem.1 (List.pairwise_map.1 h)
  rcases Nat.lt_trichotomy i j with hij | rfl | hij
  · have := ordered i j hi hj hij
    omega
  · rfl
  · have := ordered j i hj hi hij
    omega

/-- Only JSX cuts tokens. -/
theorem Cut.eq_of_not_jsx {t u : Token} (h : Cut source jsx t u) (hjsx : jsx = false) : t = u := by
  cases h with
  | whole => rfl
  | brace on => simp [hjsx] at on

/-- A listed token reaches as far as what is left of it. -/
theorem Cut.covers {t u : Token} (h : Cut source jsx t u) (hu : u.start ≤ offset ∧ offset < u.stop) :
    t.start ≤ offset ∧ offset < t.stop := by
  cases h with
  | whole => exact hu
  | brace => omega

/-- A listed token ends in the source, if what is left of it does. -/
theorem Cut.bounded {t u : Token} (h : Cut source jsx t u) (hu : u.start < u.stop ∧ u.stop ≤ source.utf8ByteSize) :
    t.start ≤ t.stop ∧ t.stop ≤ source.utf8ByteSize := by
  cases h with
  | whole => exact ⟨Nat.le_of_lt hu.1, hu.2⟩
  | brace _ _ _ _ _ hstart hstop hlast =>
    have := hlast.lt
    omega

/-- Where what is left partitions the source, the listed tokens do just when they are left whole. -/
theorem partitions_iff_whole (hcut : ∀ p ∈ pieces, Cut source jsx p.1 p.2)
    (h : Partitions source stop (pieces.map Prod.snd) comments) :
    Partitions source stop (pieces.map Prod.fst) comments ↔ ∀ p ∈ pieces, p.1 = p.2 := by
  refine ⟨fun listed => ?_, fun whole => by rwa [List.map_congr_left whole]⟩
  rintro ⟨t, u⟩ hp
  cases hcut _ hp with
  | whole => rfl
  | brace _ _ _ _ _ hstart hstop hlast hspace =>
    -- The last byte of the chunk is in nothing that is left.
    have ht : t ∈ pieces.map Prod.fst := List.mem_map_of_mem hp
    have bounded := listed.tokens_bounded t ht
    have covered : t.start ≤ t.stop - 1 ∧ t.stop - 1 < t.stop := by omega
    rcases h.gaps (t.stop - 1) (by omega) with ⟨v, hv, covers⟩ | ⟨c, hc, covers⟩ | ⟨ch, hch, space⟩
    · obtain ⟨q, hq, rfl⟩ := List.mem_map.1 hv
      have same := eq_of_covers listed.tokens_ordered hp hq covered ((hcut q hq).covers covers)
      subst same
      have : u.stop < t.stop := hstop
      exact absurd covers.2 (by simp only; omega)
    · have := listed.disjoint t ht c hc
      omega
    · rw [hch.unique hlast, hspace] at space
      cases space

end

end EcmaTree
