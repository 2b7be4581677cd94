import EcmaTree.Grammar.Program
import EcmaTree.Proofs.RoundTrip.Spelling

/-!
# Productions that take lexemes

`Takes` is a judgement of total correctness for scripts in sloppy code: where a parse has certain lexemes ahead, the
action succeeds, and leaves certain lexemes ahead. It is closed under the combinators of the grammar, so that a
production takes what its parts take.
-/

namespace EcmaTree

/-- The context of a script outside of functions. -/
def Context.script : Context := { isModule := false, strict := false }

namespace ParseState

/-- The parse is in sloppy code of a script, and the lexemes are ahead. -/
structure Ahead (d : Dialect) (ls : List Lexeme) (s : ParseState) : Prop where
  dialect : s.dialect = d
  bound : 2 ≤ s.bound
  context : s.context = .script
  pending : s.cover.pending = none
  goal : s.scanner.goal = .script
  lookahead : ls.head? = some s.lookahead.lexeme
  spells : Spells s.scanner.cursor.rest ls.tail

theorem Ahead.withLast {d : Dialect} {ls : List Lexeme} {s : ParseState} (h : s.Ahead d ls) (last : Place) :
    ParseState.Ahead d ls { s with last } :=
  ⟨h.dialect, h.bound, h.context, h.pending, h.goal, h.lookahead, h.spells⟩

end ParseState

/-- Comments that are closed are skipped in tolerant mode too. -/
theorem Scan.skipTrivia_of_closed {s : Scanner} {comments : List Comment} {c : Cursor} (hgoal : s.goal = .script)
    (h : Trivia.skip s.keepsComments true s.cursor = ⟨comments, c, false⟩) :
    skipTrivia s = .ok comments { s with cursor := c } := by
  obtain ⟨cursor, regions, errors, tolerant, goal, keep⟩ := s
  cases hgoal
  have run : skipTrivia ⟨cursor, regions, errors, tolerant, .script, keep⟩ = ((do
      if (Trivia.skip keep true cursor).unclosed then pass (.illegal (Trivia.skip keep true cursor).cursor)
      return (Trivia.skip keep true cursor).comments : Scan _)
        ⟨(Trivia.skip keep true cursor).cursor, regions, errors, tolerant, .script, keep⟩) := rfl
  rw [run, h]
  rfl

namespace Parse

variable {α β σ : Type} {d : Dialect} {p : Parse α} {f : α → Parse β} {ls ls₁ ls₂ : List Lexeme} {P : α →
  Prop} {Q : β → Prop}
  {s : ParseState} {l : Lexeme}

/-- From the state the action succeeds. -/
def Succeeds (p : Parse α) (s : ParseState) (R : α → ParseState → Prop) : Prop := ∃ a t, p s = .ok a t ∧ R a t

namespace Succeeds

variable {R : β → ParseState → Prop} {S : α → ParseState → Prop} {g : ParseState → ParseState}

theorem bind (hp : Succeeds p s S) (hf : ∀ a t, S a t → Succeeds (f a) t R) : Succeeds (p >>= f) s R := by
  obtain ⟨a, t, ha, hS⟩ := hp
  obtain ⟨b, u, hb, hR⟩ := hf a t hS
  exact ⟨b, u, (bind_of_ok ha).trans hb, hR⟩

theorem pure {a : α} (h : S a s) : Succeeds (Pure.pure a) s S := ⟨a, s, rfl, h⟩

theorem modifying {f : Unit → Parse β} (h : Succeeds (f ()) (g s) R) : Succeeds (modify g >>= f) s R := h

theorem scan {action : Scan α} {a : α} {scanner : Scanner} (h : action s.scanner = .ok a scanner)
    (hf : Succeeds (f a) { s with scanner } R) : Succeeds (scan action >>= f) s R := by
  rwa [Succeeds, bind_of_ok (p := Parse.scan action) (by rw [Parse.scan, h])]

theorem skipTrivia {comments : List Comment} {c : Cursor} (hgoal : s.scanner.goal = .script)
    (h : Trivia.skip s.scanner.keepsComments true s.scanner.cursor = ⟨comments, c, false⟩) :
    Succeeds skipTrivia s fun _ t => ∃ record, t = { s with scanner := { s.scanner with cursor := c }, record } := by
  exact .scan (Scan.skipTrivia_of_closed hgoal h) ⟨(), _, rfl, _, rfl⟩

theorem setStart {f : Unit → Parse β} (h : ∀ start, Succeeds (f ()) { s with start } R) :
    Succeeds ((modify fun s : ParseState =>
      if s.scanner.cursor.offset = s.start.offset then s else { s with start := s.scanner.cursor }) >>= f) s R := by
  refine .modifying ?_
  split
  · exact h s.start
  · exact h s.scanner.cursor

end Succeeds

/-- Where the lexemes `ls` are ahead, the action succeeds and leaves `rest` ahead. -/
def Takes (d : Dialect) (p : Parse α) (ls rest : List Lexeme) (P : α → Prop) : Prop :=
  ∀ s : ParseState, s.Ahead d ls → Succeeds p s fun a t => t.Ahead d rest ∧ P a

namespace Takes

theorem pure {a : α} (h : P a) : Takes d (Pure.pure a) ls ls P := fun _ hs => .pure ⟨hs, h⟩

theorem bind {r : List Lexeme} (hp : Takes d p ls r P) (hf : ∀ a, P a → Takes d (f a) r ls₂ Q) :
    Takes d (p >>= f) ls ls₂ Q :=
  fun s hs => (hp s hs).bind fun a t ⟨ht, ha⟩ => hf a ha t ht

theorem mono {P' : α → Prop} (hp : Takes d p ls ls₁ P) (h : ∀ a, P a → P' a) : Takes d p ls ls₁ P' := fun s hs => by
  obtain ⟨a, t, run, ht, ha⟩ := hp s hs
  exact ⟨a, t, run, ht, h a ha⟩

theorem get {f : ParseState → Parse β} (h : ∀ s : ParseState, s.Ahead d ls → Takes d (f s) ls ls₁ Q) :
    Takes d (get >>= f) ls ls₁ Q := fun s hs => h s hs s hs

theorem modifying {g : ParseState → ParseState} (h : ∀ s : ParseState, s.Ahead d ls → (g s).Ahead d ls₁) :
    Takes d (modify g) ls ls₁ fun _ => True := fun s hs => ⟨(), g s, rfl, h s hs, trivial⟩

/-! ## Tokens -/

theorem next {l' : Lexeme} : Takes d next (l :: l' :: ls) (l' :: ls) (·.lexeme = l) := by
  intro s hs
  obtain ⟨rest, hnext, hrest⟩ := hs.spells
  obtain ⟨comments, c, t, s', hskip, htoken, rfl, rfl, hgoal⟩ :=
    hnext s.scanner s.scanner.keepsComments (s.scanner.cursor.offset == 0) hs.goal rfl
  refine .modifying (.bind (.skipTrivia hs.goal hskip) ?_)
  rintro _ _ ⟨record, rfl⟩
  refine .setStart fun start =>
    .scan htoken ⟨_, _, rfl, ⟨hs.dialect, hs.bound, hs.context, hs.pending, hgoal, ?_, hrest⟩, ?_⟩
  · simp [hs.context, Context.script]
  · simpa using hs.lookahead.symm

theorem skip {l' : Lexeme} : Takes d skip (l :: l' :: ls) (l' :: ls) fun _ => True := by
  rw [skip_eq]
  exact next.bind fun _ _ => .pure trivial

/-- The lookahead is known. -/
theorem lexeme_eq (hs : s.Ahead d (l :: ls)) : s.lookahead.lexeme = l := by
  simpa using hs.lookahead.symm

theorem ahead : Takes d ahead (l :: ls) (l :: ls) (·.lexeme = l) := get fun _ hs => .pure (lexeme_eq hs)

/-- Whatever the lookahead is. -/
theorem peek : Takes d Parse.ahead ls ls fun _ => True := get fun _ _ => .pure trivial

theorem check {p : Punctuator} (h : l ≠ .punctuator p) : Takes d (check p) (l :: ls) (l :: ls) (· = false) :=
  get fun _ hs => .pure (Bool.eq_false_iff.2 fun hp => h (lexeme_eq hs ▸ Token.isPunctuator_iff.1 hp))

theorem checkKeyword {word : String} (h : l ≠ .keyword word) :
    Takes d (checkKeyword word) (l :: ls) (l :: ls) (· = false) :=
  get fun _ hs => .pure (Bool.eq_false_iff.2 fun hp => h (lexeme_eq hs ▸ Token.isKeyword_iff.1 hp))

theorem checkWord {word : String} (h : l ≠ .identifier word) :
    Takes d (checkWord word) (l :: ls) (l :: ls) (· = false) :=
  get fun _ hs => .pure (Bool.eq_false_iff.2 fun hp => h (lexeme_eq hs ▸ Token.isIdentifierNamed_iff.1 hp))

theorem expect {p : Punctuator} {l' : Lexeme} :
    Takes d (expect p) (.punctuator p :: l' :: ls) (l' :: ls) fun _ => True := by
  refine next.bind fun t ht => ?_
  rw [if_pos (Token.isPunctuator_iff.2 ht)]
  exact .pure trivial

theorem accept_ahead {p : Punctuator} {l' : Lexeme} :
    Takes d (accept p) (.punctuator p :: l' :: ls) (l' :: ls) (· = true) :=
  .bind (P := (· = true)) (get fun _ hs => .pure (Token.isPunctuator_iff.2 (lexeme_eq hs))) fun _ hb => by
    rw [if_pos hb]
    exact skip.bind fun _ _ => .pure rfl

theorem accept {p : Punctuator} (h : l ≠ .punctuator p) : Takes d (accept p) (l :: ls) (l :: ls) (· = false) :=
  (check h).bind fun _ hb => by
    subst hb
    exact .pure rfl

/-! ## Nodes, context and cover -/

theorem mark : Takes d mark ls ls fun _ => True := get fun _ _ => .pure trivial

theorem finish {start : Place} {kind : Kind Node} : Takes d (finish start kind) ls ls (·.kind = kind) := fun _ hs =>
  ⟨_, _, rfl, ⟨hs.dialect, hs.bound, hs.context, hs.pending, hs.goal, hs.lookahead, hs.spells⟩, rfl⟩

theorem context : Takes d context ls ls (· = .script) := get fun _ hs => .pure hs.context

theorem withContext {change : Context → Context} (h : change .script = .script) (hp : Takes d p ls ls₁ P) :
    Takes d (withContext change p) ls ls₁ P := by
  have keep {ls : List Lexeme} {t : ParseState} (ht : t.Ahead d ls) {c : Context} (hc : c = .script) :
      ParseState.Ahead d ls { t with context := c } :=
    ⟨ht.dialect, ht.bound, hc, ht.pending, ht.goal, ht.lookahead, ht.spells⟩
  refine get fun s hs => (modifying fun t ht => keep ht ?_).bind fun _ _ => hp.bind fun _ ha =>
    (modifying fun t ht => keep ht ?_).bind fun _ _ => .pure ha
  · rw [hs.context, h]
  · exact hs.context

theorem modifyCover {change : Cover → Cover} (h : ∀ c, c.pending = none → (change c).pending = none) :
    Takes d (modifyCover change) ls ls fun _ => True :=
  modifying fun _ ht => ⟨ht.dialect, ht.bound, ht.context, h _ ht.pending, ht.goal, ht.lookahead, ht.spells⟩

theorem nonPattern : Takes d nonPattern ls ls fun _ => True := modifyCover fun _ h => h

theorem isolate (hp : Takes d p ls ls₁ P) : Takes d (isolate p) ls ls₁ P := by
  refine get fun s hs => (modifyCover fun _ _ => rfl).bind fun _ _ => hp.bind fun _ ha => get fun t ht => ?_
  rw [ht.pending]
  exact (modifyCover fun _ _ => hs.pending).bind fun _ _ => .pure ha

theorem inherit (hp : Takes d p ls ls₁ P) : Takes d (inherit p) ls ls₁ P := by
  refine get fun s hs => (modifyCover fun _ _ => rfl).bind fun _ _ => hp.bind fun _ ha => ?_
  refine (modifyCover fun c hc => ?_).bind fun _ _ => .pure ha
  simp [hs.pending, hc]

/-! ## Repetition -/

/-- The loop is done, and its state satisfies `R`. -/
def Done (R : σ → Prop) (r : Progress σ) : Prop := ∃ x, r = .done x ∧ R x

/-- The loop goes on in a state that satisfies `R`. -/
def More (R : σ → Prop) (r : Progress σ) : Prop := ∃ x, r = .more x ∧ R x

variable {step : σ → Parse (Progress σ)} {x : σ} {R S : σ → Prop}

theorem loop_done (h : Takes d (step x) ls ls₁ (Done R)) : Takes d (loop x step) ls ls₁ R := fun s hs => by
  obtain ⟨bound, hbound⟩ : ∃ bound, s.bound = bound + 1 := ⟨s.bound - 1, by have := hs.bound; omega⟩
  have run : loop x step s = iterate step s.bound x s := rfl
  rw [Succeeds, run, hbound]
  refine (h.bind (Q := R) ?_) s hs
  rintro _ ⟨y, rfl, hy⟩
  exact .pure hy

theorem loop_more {r : List Lexeme} (h : Takes d (step x) ls r (More S))
    (h' : ∀ y, S y → Takes d (step y) r ls₂ (Done R)) :
    Takes d (loop x step) ls ls₂ R := fun s hs => by
  obtain ⟨bound, hbound⟩ : ∃ bound, s.bound = bound + 2 := ⟨s.bound - 2, by have := hs.bound; omega⟩
  have run : loop x step s = iterate step s.bound x s := rfl
  rw [Succeeds, run, hbound]
  refine (h.bind (Q := R) ?_) s hs
  rintro _ ⟨y, rfl, hy⟩
  refine (h' y hy).bind ?_
  rintro _ ⟨z, rfl, hz⟩
  exact .pure hz

end Takes

end Parse

end EcmaTree
