import EcmaTree.Grammar.Program
import EcmaTree.Proofs.Derivation.Yields

/-!
# Parses without JSX

Without JSX no expression begins with `<`. With JSX a strict parse takes the same way, step by step, with one exception:
behind `yield` an operand begins with `<`, where none was before. So the two parses go together until one stops before
a `<`; and there a parse without JSX is stuck, because nothing that may end with a `yield` is followed by a `<`.

`Goes` says that a production takes the same way with JSX, or, if it may, ends before a `<`. `Halts` says that it gets
nowhere when it is started there. Both are stated for an invariant of the parse, which has to hold until the ways part.
-/

namespace EcmaTree

namespace ParseState

/-- JSX and tolerant mode are off. -/
structure Plain (s : ParseState) : Prop where
  jsx : s.dialect.jsx = false
  strict : s.dialect.tolerant = false
  scanner : s.scanner.tolerant = false

/-- The same state with JSX on. -/
def withJsx (s : ParseState) : ParseState := { s with dialect.jsx := true }

/-- What differs has no part in reading tokens and listing them. -/
def Aside (s t : ParseState) : Prop :=
  ∃ context labels cover last finished record,
    t = { s with context, labels, cover, last, finished, record } ∧
    (record.recording, record.tokens) = (s.record.recording, s.record.tokens)

/-- A `<` stands ahead, on the line of the last consumed token. -/
structure AtLess (s : ParseState) : Prop where
  plain : s.Plain
  less : s.lookahead.lexeme = .punctuator .lt
  sameLine : s.newline = false

variable {s t : ParseState}

theorem Aside.plain (h : s.Plain) : s.Aside t → t.Plain := by
  rintro ⟨_, _, _, _, _, _, rfl, -⟩
  exact ⟨h.jsx, h.strict, h.scanner⟩

theorem Aside.atLess (h : s.AtLess) (ht : s.Aside t) : t.AtLess := by
  have plain := ht.plain h.plain
  obtain ⟨_, _, _, _, _, _, rfl, -⟩ := ht
  exact ⟨plain, h.less, h.sameLine⟩

theorem AtLess.isPunctuator (h : s.AtLess) (p : Punctuator) : s.lookahead.isPunctuator p = (p == .lt) := by
  rw [Token.isPunctuator, h.less]
  exact Bool.beq_comm

end ParseState

namespace Parse

/-- What is true of the states of a parse from token to token. -/
structure Invariant where
  Holds : ParseState → Prop
  plain {s : ParseState} : Holds s → s.Plain
  aside {s t : ParseState} : Holds s → s.Aside t → Holds t
  next {s t : ParseState} {a : Token} : Holds s → next s = .ok a t → Holds t
  regex {s t : ParseState} {a : Token} : Holds s →
    (s.lookahead.isPunctuator .slash || s.lookahead.isPunctuator .divAssign) = true → regex s = .ok a t → Holds t

variable {I : Invariant} {α β σ : Type} {free : Bool} {s t : ParseState}

/-- With JSX, `p` takes the same way from `s`, unless it is free to end before a `<` and does. -/
def GoesFrom (I : Invariant) (free : Bool) (p : Parse α) (s : ParseState) : Prop :=
  ∀ a t, p s = .ok a t → (I.Holds t ∧ p s.withJsx = .ok a t.withJsx) ∨ (free = true ∧ t.AtLess)

/-- With JSX, `p` takes the same way from everywhere. -/
def Goes (I : Invariant) (free : Bool) (p : Parse α) : Prop := ∀ s, I.Holds s → GoesFrom I free p s

/-- Before a `<`, `p` stops, unless it is free to leave the `<` where it is. -/
def Halts (free : Bool) (p : Parse α) : Prop := ∀ s, s.AtLess → ∀ a t, p s = .ok a t → free = true ∧ t.AtLess

/-- What does not look at the dialect takes the same way with JSX. -/
def Blind (p : Parse α) : Prop := ∀ s a t, p s = .ok a t → p s.withJsx = .ok a t.withJsx

/-! ## Actions that do not look at the dialect -/

namespace Blind

theorem bind {p : Parse α} {f : α → Parse β} (hp : Blind p) (hf : ∀ a, Blind (f a)) : Blind (p >>= f) :=
  fun s b u h => by
  obtain ⟨a, t, ha, hb⟩ := bind_eq_ok.1 h
  exact bind_eq_ok.2 ⟨a, _, hp s a t ha, hf a t b u hb⟩

theorem pure (a : α) : Blind (Pure.pure a) := by
  rintro s _ _ ⟨⟩
  rfl

theorem scan (action : Scan α) : Blind (scan action) := fun s a t h => by
  have same : s.withJsx.scanner = s.scanner := rfl
  rw [Parse.scan] at h ⊢
  rw [same]
  cases hrun : action s.scanner <;> rw [hrun] at h <;> cases h
  rfl

theorem modifying {f : ParseState → ParseState} (hf : ∀ s, f s.withJsx = (f s).withJsx) :
    Blind (modify f : Parse Unit) := by
  rintro s _ _ ⟨⟩
  exact congrArg (EStateM.Result.ok ()) (hf s)

theorem get {f : ParseState → Parse β} (hf : ∀ s, f s.withJsx = f s) (h : ∀ s, Blind (f s)) : Blind (get >>= f) :=
  fun s a t ht => by
    rw [get_bind] at ht ⊢
    rw [hf]
    exact h s s a t ht

theorem skipTrivia : Blind skipTrivia := (scan _).bind fun _ => .modifying fun _ => rfl

theorem next : Blind next := by
  refine .bind (.modifying fun _ => rfl) fun _ => .bind .skipTrivia fun _ => .bind (.modifying fun s => ?_) fun _ => ?_
  · by_cases h : s.scanner.cursor.offset = s.start.offset <;> simp [ParseState.withJsx, h]
  · exact .bind (.scan _) fun _ => .get (fun _ => rfl) fun _ => .bind (.modifying fun _ => rfl) fun _ => .pure _

theorem skip : Blind skip := by
  rw [skip_eq]
  exact next.bind fun _ => pure _

theorem regex : Blind regex :=
  .bind (.modifying fun _ => rfl) fun _ => .bind .skipTrivia fun _ => .bind (.scan _) fun _ =>
    .bind (.modifying fun _ => rfl) fun _ => .bind .skip fun _ => .pure _

end Blind

/-! ## Both judgements -/

namespace GoesFrom

theorem bind {p : Parse α} {f : α → Parse β} (hp : GoesFrom I false p s)
    (hf : ∀ a t, I.Holds t → p s = .ok a t → GoesFrom I free (f a) t) : GoesFrom I free (p >>= f) s := fun b u h => by
  obtain ⟨a, t, ha, hb⟩ := bind_eq_ok.1 h
  obtain ⟨ht, same⟩ : I.Holds t ∧ p s.withJsx = .ok a t.withJsx := by simpa using hp a t ha
  exact (hf a t ht ha b u hb).imp (fun h => ⟨h.1, bind_eq_ok.2 ⟨a, _, same, h.2⟩⟩) id

/-- What is read with JSX on only. -/
theorem unlessJsx {b : Bool} {p q : Parse α} (hs : I.Holds s) (hq : GoesFrom I free q s)
    (hb : b = true → ∀ a t, q s ≠ .ok a t) :
    GoesFrom I free (get >>= fun s => if (s.dialect.jsx && b) = true then p else q) s := fun a t h => by
  rw [get_bind, (I.plain hs).jsx] at h
  cases b with
  | true => exact absurd h (hb rfl a t)
  | false =>
    rw [get_bind, Bool.and_false]
    exact hq a t h

theorem get {f : ParseState → Parse β} (hf : f s.withJsx = f s) (h : GoesFrom I free (f s) s) :
    GoesFrom I free (get >>= f) s :=
  fun a t ha => by
    rw [get_bind] at ha
    rw [get_bind, hf]
    exact h a t ha

theorem ahead {f : Token → Parse β} (h : GoesFrom I free (f s.lookahead) s) : GoesFrom I free (ahead >>= f) s := h

end GoesFrom

namespace Goes

theorem bind {p : Parse α} {f : α → Parse β} (hp : Goes I false p) (hf : ∀ a, Goes I free (f a)) :
    Goes I free (p >>= f) :=
  fun s hs => (hp s hs).bind fun a t ht _ => hf a t ht

/-- Behind a part that may end before a `<`, nothing else may read on there. -/
theorem bindFree {p : Parse α} {f : α → Parse β} (hp : Goes I true p) (hf : ∀ a, Goes I free (f a))
    (hstop : ∀ a, Halts free (f a)) : Goes I free (p >>= f) := fun s hs b u h => by
  obtain ⟨a, t, ha, hb⟩ := bind_eq_ok.1 h
  rcases hp s hs a t ha with ⟨ht, same⟩ | ⟨-, ht⟩
  · exact (hf a t ht b u hb).imp (fun h => ⟨h.1, bind_eq_ok.2 ⟨a, _, same, h.2⟩⟩) id
  · exact .inr (hstop a t ht b u hb)

theorem loosen {p : Parse α} (h : Goes I false p) : Goes I free p := fun s hs a t ha =>
  (h s hs a t ha).imp id fun h => by cases h.1

theorem of_stops {p : Parse α} (h : Stops p) : Goes I free p := fun s hs a t ha =>
  absurd ha (h s (I.plain hs).scanner a t)

theorem of_blind {p : Parse α} (h : Blind p) (hI : ∀ {s t a}, I.Holds s → p s = .ok a t → I.Holds t) : Goes I free p :=
  fun s hs a t ha => .inl ⟨hI hs ha, h s a t ha⟩

theorem pure (a : α) : Goes I free (Pure.pure a) := of_blind (.pure a) fun hs h => by
  cases h
  exact hs

theorem modifying {f : ParseState → ParseState} (hf : ∀ s, f s.withJsx = (f s).withJsx)
    (h : ∀ s : ParseState, s.Aside (f s)) :
    Goes I free (modify f : Parse Unit) := of_blind (.modifying hf) fun hs h' => by
  cases h'
  exact I.aside hs (h _)

theorem get {f : ParseState → Parse β} (hf : ∀ s, f s.withJsx = f s) (h : ∀ s, Goes I free (f s)) :
    Goes I free (get >>= f) :=
  fun s hs => .get (hf s) (h s s hs)

theorem ite {c : Prop} [Decidable c] {p q : Parse α} (hp : Goes I free p) (hq : Goes I free q) :
    Goes I free (if c then p else q) := by
  split
  · exact hp
  · exact hq

theorem exhausted : Goes I free (throw .exhausted : Parse α) := fun _ _ _ _ h => by cases h

end Goes

namespace Halts

theorem bind {p : Parse α} {f : α → Parse β} (hp : Halts true p) (hf : ∀ a, Halts free (f a)) : Halts free (p >>= f) :=
  fun s hs b u h => by
    obtain ⟨a, t, ha, hb⟩ := bind_eq_ok.1 h
    exact hf a t (hp s hs a t ha).2 b u hb

/-- What comes behind a part that stops does not matter. -/
theorem first {p : Parse α} {f : α → Parse β} (hp : Halts false p) : Halts free (p >>= f) := fun s hs b u h => by
  obtain ⟨a, t, ha, -⟩ := bind_eq_ok.1 h
  cases (hp s hs a t ha).1

theorem of_stops {p : Parse α} (h : Stops p) : Halts free p := fun s hs a t ha => absurd ha (h s hs.plain.scanner a t)

theorem pure (a : α) : Halts true (Pure.pure a) := by
  rintro s hs _ _ ⟨⟩
  exact ⟨rfl, hs⟩

theorem modifying {f : ParseState → ParseState} (h : ∀ s : ParseState, s.Aside (f s)) :
    Halts true (modify f : Parse Unit) := by
  rintro s hs _ _ ⟨⟩
  exact ⟨rfl, (h s).atLess hs⟩

theorem get {f : ParseState → Parse β} (h : ∀ s : ParseState, s.AtLess → Halts free (f s)) : Halts free (get >>= f) :=
  fun s hs a t ha => h s hs s hs a t ha

theorem ite {c : Prop} [Decidable c] {p q : Parse α} (hp : c → Halts free p) (hq : ¬ c → Halts free q) :
    Halts free (if c then p else q) := by
  split
  · exact hp ‹_›
  · exact hq ‹_›

theorem exhausted : Halts free (throw .exhausted : Parse α) := fun _ _ _ _ h => by cases h

end Halts

/-! ## Actions that read no token -/

/-- The action reads no token, and does not look at the dialect. -/
structure Quiet (p : Parse α) : Prop where
  goes (I : Invariant) : Goes I false p
  halts : Halts true p

namespace Quiet

theorem pure (a : α) : Quiet (Pure.pure a) := ⟨fun _ => .pure a, .pure a⟩

theorem bind {p : Parse α} {f : α → Parse β} (hp : Quiet p) (hf : ∀ a, Quiet (f a)) : Quiet (p >>= f) :=
  ⟨fun I => (hp.goes I).bind fun a => (hf a).goes I, hp.halts.bind fun a => (hf a).halts⟩

theorem of_stops {p : Parse α} (h : Stops p) : Quiet p := ⟨fun _ => .of_stops h, .of_stops h⟩

theorem get {f : ParseState → Parse β} (hf : ∀ s, f s.withJsx = f s) (h : ∀ s, Quiet (f s)) : Quiet (get >>= f) :=
  ⟨fun I => .get hf fun s => (h s).goes I, .get fun s _ => (h s).halts⟩

theorem modifying {f : ParseState → ParseState} (hf : ∀ s, f s.withJsx = (f s).withJsx)
    (h : ∀ s : ParseState, s.Aside (f s)) :
    Quiet (modify f : Parse Unit) := ⟨fun _ => .modifying hf h, .modifying h⟩

theorem ite {c : Prop} [Decidable c] {p q : Parse α} (hp : Quiet p) (hq : Quiet q) : Quiet (if c then p else q) := by
  split
  · exact hp
  · exact hq

/-- A complaint that ends a strict parse, if it is made. -/
theorem guard {c : Prop} [Decidable c] {p : Parse Unit} {f : Unit → Parse α} (hp : Stops p) (hf : Quiet (f ())) :
    Quiet (if c then p >>= f else f ()) := ite (of_stops hp.bind) hf

theorem guardUnless {c : Prop} [Decidable c] {p : Parse Unit} {f : Unit → Parse α} (hp : Stops p) (hf : Quiet (f ())) :
    Quiet (if c then f () else p >>= f) := ite hf (of_stops hp.bind)

/-- A probe comes back to where it began. -/
theorem of_probe {probe : Scan α} (h : ∀ s : ParseState, s.Plain → ∀ a t, scan probe s = .ok a t → t = s) :
    Quiet (scan probe) where
  goes I s hs a t ha := .inl ⟨h s (I.plain hs) a t ha ▸ hs, Blind.scan _ s a t ha⟩
  halts s hs a t ha := ⟨rfl, h s hs.plain a t ha ▸ hs⟩

theorem ahead : Quiet ahead := .get (fun _ => rfl) fun _ => .pure _

theorem check (p : Punctuator) : Quiet (check p) := .get (fun _ => rfl) fun _ => .pure _

theorem checkKeyword (word : String) : Quiet (checkKeyword word) := .get (fun _ => rfl) fun _ => .pure _

theorem checkWord (word : String) : Quiet (checkWord word) := .get (fun _ => rfl) fun _ => .pure _

theorem mark : Quiet mark := .get (fun _ => rfl) fun _ => .pure _

theorem context : Quiet context := .get (fun _ => rfl) fun _ => .pure _

theorem isStrict : Quiet isStrict := .get (fun _ => rfl) fun _ => .pure _

theorem setContext (f : Context → Context) :
    Quiet (modify fun s : ParseState => { s with context := f s.context } : Parse Unit) :=
  .modifying (fun _ => rfl) fun _ => ⟨_, _, _, _, _, _, rfl, rfl⟩

theorem modifyCover (f : Cover → Cover) : Quiet (modifyCover f) :=
  .modifying (fun _ => rfl) fun _ => ⟨_, _, _, _, _, _, rfl, rfl⟩

theorem nonPattern : Quiet nonPattern := modifyCover _

theorem setLabels (f : List String → List String) :
    Quiet (modify fun s : ParseState => { s with labels := f s.labels } : Parse Unit) :=
  .modifying (fun _ => rfl) fun _ => ⟨_, _, _, _, _, _, rfl, rfl⟩

theorem finish (start : Place) (kind : Kind Node) : Quiet (finish start kind) :=
  .get (fun _ => rfl) fun _ => .bind (.modifying (fun _ => rfl) fun _ => ⟨_, _, _, _, _, _, rfl, rfl⟩) fun _ => .pure _

end Quiet

end Parse

end EcmaTree
