import EcmaTree.Proofs.Course.Program
import EcmaTree.Proofs.Recording.Found
import EcmaTree.Proofs.Tokenizer.Lossless

/-!
# Parsing and tokenizing end

The bounds of a parse are the levels of nested productions and the rounds of a loop. Twice as many levels as the
source has bytes, and two more, are enough for any source, and so are two rounds more than it has bytes: with any more
of them a parse still ends before they are used up. A tokenizer gives back one item for each byte at most.
-/

namespace EcmaTree

/-- Every comment takes a byte at least. -/
theorem Passed.length_le {c d : Cursor} {comments : List Comment} (h : Passed c comments d) :
    c.offset + comments.length ≤ d.offset := by
  induction h with
  | refl => exact Nat.le_refl _
  | space _ _ _ hoffset _ ih => omega
  | comment _ hlt _ _ _ ih =>
    rw [List.length_cons]
    omega

namespace Tokenizer

variable {source : String} {history : History} {s s' : Scanner} {t t' : Tokenizer} {given : Nat} {α : Type}

theorem scan_eq_ok {p : Scan α} {a : α} :
    scan p t = .ok a t' ↔ ∃ s, p t.scanner = .ok a s ∧ t' = { t with scanner := s } := by
  unfold scan
  cases p t.scanner <;> simp [eq_comm]

/-- A token is read from where the scanner stands, also if a regular expression has been tried there before. -/
theorem readToken_lexed {token : Token} (h : readToken history s = .ok token s') : Lexed s.cursor token s'.cursor := by
  obtain ⟨_, _, hget, h⟩ := run_bind_eq_ok.1 h
  cases hget
  split at h
  next hslash =>
    obtain ⟨rest, hrest⟩ := Cursor.rest_of_startsWith (Bool.and_eq_true _ _ ▸ hslash).1
    unfold scanEither at h
    split at h
    next hregex =>
      cases h
      exact (Scan.regex_lexed hrest hregex).1
    next after _ =>
      have rewound : (after.rewind s.bookmark).cursor = s.cursor := rfl
      exact rewound ▸ Scan.token_lexed h
  · exact Scan.token_lexed h

/-- Every item that has been given back, or waits to be, takes a byte at least. -/
structure Metered (source : String) (given : Nat) (t : Tokenizer) : Prop where
  reached : (Cursor.ofString source).Reaches t.scanner.cursor
  counted : given + t.waiting.length ≤ t.scanner.cursor.offset

theorem Metered.bounded (h : t.Metered source given) : given ≤ source.utf8ByteSize := by
  have := h.reached.offset_add_bytes
  have := h.counted
  omega

theorem Metered.fill (h : t.Metered source given) (hfill : t.fill = .ok () t') : t'.Metered source given := by
  obtain ⟨comments, u, hskip, hrest⟩ := run_bind_eq_ok.1 hfill
  obtain ⟨s, hs, rfl⟩ := scan_eq_ok.1 hskip
  obtain ⟨hcomments, hcursor⟩ := Scan.skipTrivia_ok hs
  have passed := Trivia.skip_passed (t.scanner.goal == .script) t.scanner.cursor
  have kept : comments.length ≤ (Trivia.skip true (t.scanner.goal == .script) t.scanner.cursor).comments.length := by
    rw [hcomments, Trivia.skip_keep]
    dsimp only
    split <;> simp
  rw [Trivia.skip_keep] at hcursor
  rw [← hcursor] at passed
  have counted := h.counted
  have more := passed.length_le
  obtain ⟨_, u, hmodify, hread⟩ := run_bind_eq_ok.1 hrest
  have waits : u.scanner = s ∧ u.waiting.length ≤ t.waiting.length + comments.length := by
    cases hmodify
    dsimp only
    split <;> simp
  obtain ⟨hscanner, hwaits⟩ := waits
  have reached : (Cursor.ofString source).Reaches u.scanner.cursor := hscanner ▸ h.reached.trans passed.reaches
  rw [← hscanner] at more
  obtain ⟨_, w, hget, hend⟩ := run_bind_eq_ok.1 hread
  cases hget
  split at hend
  · cases hend
    exact ⟨reached, by show given + u.waiting.length ≤ u.scanner.cursor.offset; omega⟩
  next hmore =>
    obtain ⟨token, w, htoken, hpush⟩ := run_bind_eq_ok.1 hend
    obtain ⟨s', hs', rfl⟩ := scan_eq_ok.1 htoken
    cases hpush
    have lexed := readToken_lexed hs'
    have advances := lexed.advances (by
      rw [← Bool.not_eq_true, lexed.end_iff]
      exact fun hnil => hmore (List.isEmpty_iff.2 hnil))
    refine ⟨reached.trans lexed.reaches, ?_⟩
    show given + (u.waiting ++ [_]).length ≤ s'.cursor.offset
    rw [List.length_append, List.length_singleton]
    omega

theorem Metered.next {item : Option TokenItem} (h : t.Metered source given) (hnext : t.next = .ok item t') :
    t'.Metered source (given + item.toList.length) := by
  have give {u : Tokenizer} (hu : u.Metered source given) (hgive : give u = .ok item t') :
      t'.Metered source (given + item.toList.length) := by
    cases hlist : u.waiting with
    | nil =>
      rw [give_of_nil hlist] at hgive
      cases hgive
      exact hu
    | cons first waiting =>
      rw [give_of_cons hlist] at hgive
      cases hgive
      have counted := hu.counted
      rw [hlist, List.length_cons] at counted
      exact ⟨hu.reached, by simp; omega⟩
  by_cases hfills : (t.waiting.isEmpty && !t.done) = true
  · rw [next_eq, if_pos hfills] at hnext
    obtain ⟨_, u, hfill, hgive⟩ := run_bind_eq_ok.1 hnext
    exact give (h.fill hfill) hgive
  · rw [next_of_not hfills] at hnext
    exact give h hnext

/-- The bound is never what ends a collection: one more than the source has bytes is as good as any other. -/
theorem Metered.collect {read : List TokenItem} {bound : Nat} (h : t.Metered source read.length)
    (hbound : source.utf8ByteSize < read.length + bound) (more : Nat) :
    collect read (bound + more) t = collect read bound t := by
  induction bound generalizing read t with
  | zero => exact absurd h.bounded (by omega)
  | succ bound ih =>
    rw [Nat.add_right_comm, Tokenizer.collect, Tokenizer.collect]
    split
    · rfl
    next item after hnext =>
      have given : after.Metered source (item :: read).length := by simpa using h.next hnext
      exact ih given (by rw [List.length_cons]; omega)
    · rfl

end Tokenizer

/-- Parsing and tokenizing end, for all sources and options. Each level of the grammar nests only what a source with
fewer bytes left can hold, and each round of a loop consumes something, so that neither bound is ever used up,
whatever the options. With any more levels and rounds it is the same, and a tokenizer that may go on finds nothing
more. -/
theorem reading_ends (source : String) (more : Nat) :
    (∀ (o : ParseOptions) (observed : Bool) (rounds : Nat) (s : ParseState),
      Parse.program (Parse.atLevels (2 * (source.utf8ByteSize + 1) + more))
        { ParseState.initial source o.dialect (o.record observed) with bound := source.utf8ByteSize + 2 + rounds } ≠
          .error .exhausted s) ∧
    (∀ o : ParseOptions, parse source o ≠ .error .exhausted ∧ (parseWithEvents source o).2 ≠ .error .exhausted) ∧
    ∀ o : TokenizeOptions, Tokenizer.collect [] (source.utf8ByteSize + 1 + more) (.start source o) =
      Tokenizer.collect [] (source.utf8ByteSize + 1) (.start source o) := by
  have ends (dialect : Dialect) (rounds : Nat) {levels : Nat} (h : 2 * (source.utf8ByteSize + 1) ≤ levels)
      (s : ParseState) :
      Parse.program (Parse.atLevels levels)
        { ParseState.initial source dialect with bound := source.utf8ByteSize + 2 + rounds } ≠ .error .exhausted s :=
    (Course.source_ends source dialect rounds h).not_exhausted s
  have observed_ends (observed : Bool) (o : ParseOptions) :
      (parseObserved observed source o).2 ≠ .error .exhausted := by
    have enough : 2 * (source.utf8ByteSize + 1) ≤ Parse.levelsFor source.utf8ByteSize := by
      rw [Parse.levelsFor]
      omega
    intro ho
    rw [parseObserved_eq] at ho
    cases hrun : Parse.source source o.dialect with
    | ok root s =>
      rw [hrun] at ho
      cases ho
    | error failure s =>
      rw [hrun] at ho
      cases ho
      exact ends o.dialect 0 enough s hrun
  refine ⟨fun o observed rounds s hrun => ?_, fun o => ⟨observed_ends false o, observed_ends true o⟩, fun o => ?_⟩
  · have mirrors := Parse.program_mirrors source o.dialect (2 * (source.utf8ByteSize + 1) + more)
      (source.utf8ByteSize + 2 + rounds) (o.record observed) (o.share_complete observed)
    rw [hrun] at mirrors
    generalize hcomplete : Parse.program _ _ = complete at mirrors
    cases mirrors with
    | error _ _ => exact ends o.dialect rounds (Nat.le_add_right _ _) _ hcomplete
  · have start : (Tokenizer.start source o).Metered source 0 := ⟨.refl _, Nat.le_refl _⟩
    have room : source.utf8ByteSize < ([] : List TokenItem).length + (source.utf8ByteSize + 1) := by simp
    exact start.collect room more

end EcmaTree
