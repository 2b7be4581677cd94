import EcmaTree.Grammar.Program

/-!
# Judgements about parses

A judgement says of a parse, started in a state, what holds of its result and of the state behind it. `Judgement`
collects the rules by which one is proved of the productions; it leaves open what the judgement means. Partial
correctness is one instance (`Judgement.partial`), the comparison of a strict run with a tolerant one another.
A rule about reading the state forbids to look at what tolerant mode changes: `ParseState.silent` hides it.
-/

namespace EcmaTree

namespace ParseState

/-- The state in another mode, with other errors recorded. -/
def heard (s : ParseState) (tolerant : Bool) (errors : List SyntaxError) : ParseState :=
  { s with dialect := { s.dialect with tolerant }, scanner := { s.scanner with tolerant, errors } }

/-- The state without what tolerant mode changes. -/
def silent (s : ParseState) : ParseState := s.heard false []

/-- The change neither looks at what tolerant mode changes nor touches it. -/
def Quiet (f : ParseState → ParseState) : Prop :=
  ∀ s tolerant errors, f (s.heard tolerant errors) = (f s).heard tolerant errors

/-- The states differ in what governs the productions, in the regions that a probe restores and in the errors
recorded since. -/
def Rests (s t : ParseState) : Prop :=
  ∃ context labels cover regions errors,
    t = { s with context, labels, cover, scanner.regions := regions, scanner.errors := errors } ∧
      s.scanner.errors <+: errors

theorem Rests.refl (s : ParseState) : s.Rests s :=
  ⟨s.context, s.labels, s.cover, s.scanner.regions, s.scanner.errors, rfl, List.prefix_refl _⟩

theorem Rests.trans {s t u : ParseState} : s.Rests t → t.Rests u → s.Rests u := by
  rintro ⟨_, _, _, _, _, rfl, h⟩ ⟨context, labels, cover, regions, errors, rfl, h'⟩
  exact ⟨context, labels, cover, regions, errors, rfl, h.trans h'⟩

theorem Rests.lookahead {s t : ParseState} : s.Rests t → t.lookahead = s.lookahead
  | ⟨_, _, _, _, _, h, _⟩ => by rw [h]

end ParseState

/-- A judgement about parses, with its rules. -/
structure Judgement where
  /-- Whatever `p`, started in `s`, gives back satisfies `Q` together with the state behind it. -/
  Ensures {α : Type} (p : Parse α) (s : ParseState) (Q : α → ParseState → Prop) : Prop
  ofPure {α : Type} {a : α} {s : ParseState} {Q : α → ParseState → Prop} : Q a s → Ensures (pure a) s Q
  ofBind {α β : Type} {p : Parse α} {f : α → Parse β} {s : ParseState} {Q : β → ParseState → Prop} :
    Ensures p s (fun a t => Ensures (f a) t Q) → Ensures (p >>= f) s Q
  mono {α : Type} {p : Parse α} {s : ParseState} {Q R : α → ParseState → Prop} :
    Ensures p s Q → (∀ a t, Q a t → R a t) → Ensures p s R
  ofThrow {α : Type} {e : SyntaxError} {s : ParseState} {Q : α → ParseState → Prop} :
    Ensures (throw (.syntaxError e)) s Q
  ofGet {α : Type} {f : ParseState → Parse α} {s : ParseState} {Q : α → ParseState → Prop} :
    (∀ s, f s.silent = f s) → Ensures (f s) s Q → Ensures (get >>= f) s Q
  ofModify {f : ParseState → ParseState} {s : ParseState} {Q : Unit → ParseState → Prop} :
    ParseState.Quiet f → Q () (f s) → Ensures (modify f) s Q
  /-- An error is passed over. -/
  ofTolerate (e : SyntaxError) (s : ParseState) : Ensures (Parse.tolerate e) s fun _ t =>
    t = { s with scanner.errors := s.scanner.errors ++ [e] }
  /-- A probe comes back to where it began. -/
  ofLookAhead {α : Type} {probe : Scan α} {s : ParseState} {Q : α → ParseState → Prop} :
    Ensures (Parse.scan probe) s Q → Ensures (Parse.scan (Scan.lookAhead probe)) s fun a t =>
      ∃ u, Q a u ∧ t = { u with scanner := u.scanner.rewind s.scanner.bookmark }

/-- The judgement says nothing of a parse whose bound is used up. -/
class Judgement.Loose (J : Judgement) : Prop where
  ofExhausted {α : Type} {s : ParseState} {Q : α → ParseState → Prop} : J.Ensures (throw .exhausted) s Q

namespace Judgement

open Parse

variable {J : Judgement} {α β : Type} {s : ParseState} {Q : α → ParseState → Prop}

theorem bind {p : Parse α} {f : α → Parse β} {P : α → ParseState → Prop} {Q : β → ParseState → Prop}
    (hp : J.Ensures p s P) (hf : ∀ a t, P a t → J.Ensures (f a) t Q) : J.Ensures (p >>= f) s Q :=
  J.ofBind (J.mono hp hf)

/-- The action leaves everything but errors and what governs the productions as it is. -/
def Settles (J : Judgement) (p : Parse α) : Prop := ∀ s, J.Ensures p s fun _ t => s.Rests t

/-! ## Reading the state -/

namespace Ensures

theorem get {f : ParseState → Parse α} (hf : ∀ s, f s.silent = f s) (h : J.Ensures (f s) s Q) :
    J.Ensures (get >>= f) s Q := J.ofGet hf h

theorem ite {c : Prop} [Decidable c] {p q : Parse α} (hp : c → J.Ensures p s Q) (hq : ¬ c → J.Ensures q s Q) :
    J.Ensures (if c then p else q) s Q := by
  split
  · exact hp ‹_›
  · exact hq ‹_›

theorem pos {c : Prop} [Decidable c] {p q : Parse α} (hc : c) (hp : J.Ensures p s Q) :
    J.Ensures (if c then p else q) s Q := by rwa [if_pos hc]

theorem neg {c : Prop} [Decidable c] {p q : Parse α} (hc : ¬ c) (hq : J.Ensures q s Q) :
    J.Ensures (if c then p else q) s Q := by rwa [if_neg hc]

/-- A value that is given back to the rest of a block. -/
theorem value {a : β} {f : β → Parse α} (h : J.Ensures (f a) s Q) : J.Ensures (pure a >>= f) s Q :=
  J.ofBind (J.ofPure h)

/-- Reading a part of the state. -/
theorem reading {g : ParseState → β} {f : β → Parse α} (hg : ∀ s, g s.silent = g s)
    (h : J.Ensures (f (g s)) s Q) : J.Ensures ((do return g (← MonadState.get)) >>= f) s Q :=
  J.ofBind (J.ofGet (fun s => by rw [hg]) (J.ofPure h))

theorem modifying {f : ParseState → ParseState} {Q : Unit → ParseState → Prop} (hf : ParseState.Quiet f)
    (h : Q () (f s)) : J.Ensures (modify f) s Q := J.ofModify hf h

theorem ahead {f : Token → Parse α} (h : J.Ensures (f s.lookahead) s Q) : J.Ensures (ahead >>= f) s Q :=
  reading (fun _ => rfl) h

theorem check {p : Punctuator} {f : Bool → Parse α} (h : J.Ensures (f (s.lookahead.isPunctuator p)) s Q) :
    J.Ensures (check p >>= f) s Q := reading (g := fun s => s.lookahead.isPunctuator p) (fun _ => rfl) h

theorem checkKeyword {word : String} {f : Bool → Parse α}
    (h : J.Ensures (f (s.lookahead.isKeyword word)) s Q) : J.Ensures (checkKeyword word >>= f) s Q :=
  reading (g := fun s => s.lookahead.isKeyword word) (fun _ => rfl) h

theorem checkWord {word : String} {f : Bool → Parse α}
    (h : J.Ensures (f (s.lookahead.isIdentifierNamed word)) s Q) : J.Ensures (checkWord word >>= f) s Q :=
  reading (g := fun s => s.lookahead.isIdentifierNamed word) (fun _ => rfl) h

theorem mark {f : Place → Parse α} (h : J.Ensures (f s.start.place) s Q) : J.Ensures (mark >>= f) s Q :=
  reading (g := fun s => s.start.place) (fun _ => rfl) h

theorem scannerPlace {f : Place → Parse α} (h : J.Ensures (f s.scanner.cursor.place) s Q) :
    J.Ensures (scannerPlace >>= f) s Q := reading (g := fun s => s.scanner.cursor.place) (fun _ => rfl) h

theorem context {f : Context → Parse α} (h : J.Ensures (f s.context) s Q) : J.Ensures (context >>= f) s Q :=
  reading (g := fun s => s.context) (fun _ => rfl) h

theorem isStrict {f : Bool → Parse α} (h : J.Ensures (f s.context.strict) s Q) :
    J.Ensures (isStrict >>= f) s Q := reading (g := fun s => s.context.strict) (fun _ => rfl) h

/-! ## Stopping -/

section
variable {t : Token} {cause : Cause}

theorem fail {e : SyntaxError} : J.Ensures (fail e) s Q := J.ofThrow

theorem failAt : J.Ensures (failAt t) s Q := .get (fun _ => rfl) J.ofThrow

theorem failWith : J.Ensures (failWith t cause) s Q := .get (fun _ => rfl) J.ofThrow

theorem failHere : J.Ensures (failHere cause) s Q := .get (fun _ => rfl) J.ofThrow

theorem failAhead : J.Ensures failAhead s Q := .get (fun _ => rfl) (.get (fun _ => rfl) J.ofThrow)

end

end Ensures

/-! ## Actions that consume nothing -/

namespace Settles

theorem pure (a : α) : J.Settles (pure a : Parse α) := fun s => J.ofPure (.refl s)

theorem bind {p : Parse α} {f : α → Parse β} (hp : J.Settles p) (hf : ∀ a, J.Settles (f a)) :
    J.Settles (p >>= f) := fun s =>
  Judgement.bind (hp s) fun a t ht => J.mono (hf a t) fun _ _ hu => ht.trans hu

theorem get {f : ParseState → Parse α} (hf : ∀ s, f s.silent = f s) (h : ∀ s, J.Settles (f s)) :
    J.Settles (get >>= f) := fun s => J.ofGet hf (h s s)

theorem ite {c : Prop} [Decidable c] {p q : Parse α} (hp : J.Settles p) (hq : J.Settles q) :
    J.Settles (if c then p else q) := fun s => .ite (fun _ => hp s) (fun _ => hq s)

theorem fail (e : SyntaxError) : J.Settles (fail e : Parse α) := fun _ => Ensures.fail

theorem failAt (t : Token) : J.Settles (failAt t : Parse α) := fun _ => Ensures.failAt

theorem failWith (t : Token) (cause : Cause) : J.Settles (failWith t cause : Parse α) :=
  fun _ => Ensures.failWith

theorem failHere (cause : Cause) : J.Settles (failHere cause : Parse α) := fun _ => Ensures.failHere

theorem failAhead : J.Settles (failAhead : Parse α) := fun _ => Ensures.failAhead

theorem tolerate (e : SyntaxError) : J.Settles (tolerate e) := fun s =>
  J.mono (J.ofTolerate e s) fun _ _ h => ⟨s.context, s.labels, s.cover, s.scanner.regions, _, h, List.prefix_append _ _⟩

theorem tolerateAt (t : Token) : J.Settles (tolerateAt t) := .get (fun _ => rfl) fun _ => tolerate _

theorem tolerateWith (t : Token) (cause : Cause) : J.Settles (tolerateWith t cause) :=
  .get (fun _ => rfl) fun _ => tolerate _

theorem tolerateHere (cause : Cause) : J.Settles (tolerateHere cause) := .get (fun _ => rfl) fun _ => tolerate _

theorem modifyCover (change : Cover → Cover) : J.Settles (modifyCover change) := fun _ =>
  .modifying (fun _ _ _ => rfl) ⟨_, _, _, _, _, rfl, List.prefix_refl _⟩

theorem nonPattern : J.Settles nonPattern := modifyCover _

theorem setLabels (change : List String → List String) :
    J.Settles (modify fun s => { s with labels := change s.labels }) := fun _ =>
  .modifying (fun _ _ _ => rfl) ⟨_, _, _, _, _, rfl, List.prefix_refl _⟩

theorem setContext (change : Context → Context) :
    J.Settles (modify fun s => { s with context := change s.context }) := fun _ =>
  .modifying (fun _ _ _ => rfl) ⟨_, _, _, _, _, rfl, List.prefix_refl _⟩

end Settles

end Judgement

end EcmaTree
