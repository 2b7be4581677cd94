import EcmaTree.Proofs.Combinators
import EcmaTree.Proofs.Success

/-!
# What a strict parse gives back

`Yields` says of a production what it gives back in a strict parse that goes on, in terms of what governs the
productions: the setting, which a production finds around it and leaves as it was, and the cover. Of the rest of the
state it knows no more than that the parse stands in the source; so the rules read tokens without naming states, and an
error that tolerant mode passes over ends the matter.
-/

namespace EcmaTree

/-- What a production finds around it, besides the cover. -/
structure Setting where
  context : Context
  labels : List String

namespace ParseState

/-- The setting of the state. -/
def setting (s : ParseState) : Setting := ⟨s.context, s.labels⟩

/-- A strict parse stands in the source. -/
structure Strict (source : String) (m : Mode) (s : ParseState) : Prop where
  dialect : s.dialect.tolerant = false
  scanner : s.scanner.tolerant = false
  placed : s.Placed (.ofString source) m

namespace Strict

variable {source : String} {m : Mode} {s t : ParseState}

/-- Only the mode and where the scanner stands count. -/
theorem congr (h : s.Strict source m)
    (hmode : (t.dialect.tolerant, t.scanner.tolerant) = (s.dialect.tolerant, s.scanner.tolerant))
    (hsame : (t.start, t.lookahead, t.scanner.cursor, t.scanner.goal, t.scanner.keepsComments) =
      (s.start, s.lookahead, s.scanner.cursor, s.scanner.goal, s.scanner.keepsComments)) : t.Strict source m := by
  obtain ⟨hdialect, hscanner⟩ : t.dialect.tolerant = s.dialect.tolerant ∧ t.scanner.tolerant = s.scanner.tolerant := by
    simpa using hmode
  exact ⟨hdialect.trans h.dialect, hscanner.trans h.scanner, h.placed.congr hsame⟩

theorem rests (h : s.Strict source m) (ht : s.Rests t) : t.Strict source m := by
  have placed := h.placed.rests ht
  obtain ⟨_, _, _, _, _, rfl, _⟩ := ht
  exact ⟨h.dialect, h.scanner, placed⟩

theorem advances (h : s.Strict source m) (ht : s.Advances t) :
    t.Strict source .ahead ∧ t.setting = s.setting ∧ t.cover = s.cover := by
  have placed := h.placed.advances ht
  obtain ⟨_, _, _, _, _, _, _, rfl⟩ := ht
  exact ⟨⟨h.dialect, h.scanner, placed⟩, rfl, rfl⟩

end Strict

end ParseState

namespace Parse

open Judgement (onSuccess)

variable {α β σ : Type} {source : String} {m n o : Mode} {E : Setting} {c : Cover} {s : ParseState}

/-- What is given back does not matter. -/
theorem any {p : Parse α} : onSuccess.Ensures p s fun _ _ => True := fun _ _ _ => trivial

/-- In a strict parse the production never gives anything back. -/
def Stops (p : Parse α) : Prop := ∀ s, s.scanner.tolerant = false → ∀ a t, p s ≠ .ok a t

/-- Started with the setting `E` and the cover `c` in a strict parse, `p` gives back what satisfies `Q` together with
the setting and the cover behind it. -/
def Yields (source : String) (m o : Mode) (E : Setting) (c : Cover) (p : Parse α)
    (Q : α → Setting → Cover → Prop) : Prop :=
  ∀ s, s.Strict source m → s.setting = E → s.cover = c →
    onSuccess.Ensures p s fun a t => t.Strict source o ∧ Q a t.setting t.cover

/-- A production that leaves the setting as it was. -/
abbrev Reads (source : String) (E : Setting) (c : Cover) (p : Parse α) (Q : α → Cover → Prop) : Prop :=
  Yields source .ahead .ahead E c p fun a E' c' => E = E' ∧ Q a c'

/-- A production that leaves the setting and the cover as they were. -/
def Keeps (source : String) (m o : Mode) (p : Parse α) (R : α → Prop) : Prop :=
  ∀ E c, Yields source m o E c p fun a E' c' => E = E' ∧ c = c' ∧ R a

/-! ## Stopping -/

namespace Stops

theorem failAt {t : Token} : Stops (failAt t : Parse α) := fun _ _ _ _ h => by cases h

theorem failWith {t : Token} {cause : Cause} : Stops (failWith t cause : Parse α) := fun _ _ _ _ h => by cases h

theorem failHere {cause : Cause} : Stops (failHere cause : Parse α) := fun _ _ _ _ h => by cases h

theorem failAhead : Stops (failAhead : Parse α) := fun _ _ _ _ h => by cases h

theorem tolerate (e : SyntaxError) : Stops (tolerate e) := fun s hs a t h => by
  rw [tolerate_eq, hs] at h
  cases h

theorem tolerateAt {t : Token} : Stops (tolerateAt t) := fun s hs => tolerate _ s hs

theorem tolerateWith {t : Token} {cause : Cause} : Stops (tolerateWith t cause) := fun s hs => tolerate _ s hs

theorem tolerateHere {cause : Cause} : Stops (tolerateHere cause) := fun s hs => tolerate _ s hs

theorem bind {p : Parse α} {f : α → Parse β} (h : Stops p) : Stops (p >>= f) := fun s hs b u hb => by
  obtain ⟨a, t, ha, -⟩ := bind_eq_ok.1 hb
  exact h s hs a t ha

theorem ensures {p : Parse α} {Q : α → ParseState → Prop} (h : Stops p) (hs : s.scanner.tolerant = false) :
    onSuccess.Ensures p s Q :=
  fun a t ht => absurd ht (h s hs a t)

theorem yields {p : Parse α} {Q : α → Setting → Cover → Prop} (h : Stops p) : Yields source m o E c p Q :=
  fun s hs _ _ a t ha => absurd ha (h s hs.scanner a t)

end Stops

/-! ## Rules -/

namespace Yields

variable {Q : α → Setting → Cover → Prop}

theorem pure {a : α} (h : Q a E c) : Yields source m m E c (pure a) Q := by
  rintro s hs rfl rfl _ _ ⟨⟩
  exact ⟨hs, h⟩

theorem bind {p : Parse α} {f : α → Parse β} {P : α → Setting → Cover → Prop} {Q : β → Setting → Cover → Prop}
    (hp : Yields source m n E c p P) (hf : ∀ a E' c', P a E' c' → Yields source n o E' c' (f a) Q) :
    Yields source m o E c (p >>= f) Q := fun s hs hE hc =>
  Judgement.bind (hp s hs hE hc) fun a t ⟨ht, ha⟩ => hf a _ _ ha t ht rfl rfl

/-- A part of a production. -/
theorem part {p : Parse α} {f : α → Parse β} {P : α → Cover → Prop} {Q : β → Setting → Cover → Prop}
    (hp : Yields source m n E c p fun a E' c' => E = E' ∧ P a c')
    (hf : ∀ a c', P a c' → Yields source n o E c' (f a) Q) :
    Yields source m o E c (p >>= f) Q := bind hp (by rintro a _ c' ⟨rfl, ha⟩; exact hf a c' ha)

theorem mono {p : Parse α} {P : α → Setting → Cover → Prop} (hp : Yields source m o E c p P)
    (h : ∀ a E' c', P a E' c' → Q a E' c') : Yields source m o E c p Q := fun s hs hE hc =>
  onSuccess.mono (hp s hs hE hc) fun a _ ⟨ht, ha⟩ => ⟨ht, h a _ _ ha⟩

theorem get {f : ParseState → Parse α}
    (h : ∀ s, s.Strict source m → s.setting = E → s.cover = c → Yields source m o E c (f s) Q) :
    Yields source m o E c (get >>= f) Q := fun s hs hE hc => h s hs hE hc s hs hE hc

theorem ite {b : Prop} [Decidable b] {p q : Parse α} (hp : b → Yields source m o E c p Q)
    (hq : ¬ b → Yields source m o E c q Q) : Yields source m o E c (if b then p else q) Q := by
  split
  · exact hp ‹_›
  · exact hq ‹_›

/-- A value that is given back to the rest of a block. -/
theorem value {a : β} {f : β → Parse α} (h : Yields source m o E c (f a) Q) :
    Yields source m o E c (Pure.pure a >>= f) Q :=
  bind (P := fun b E' c' => a = b ∧ E = E' ∧ c = c') (.pure ⟨rfl, rfl, rfl⟩) (by rintro _ _ _ ⟨rfl, rfl, rfl⟩; exact h)

/-- Reading a part of the state. -/
theorem reading {g : ParseState → β} {f : β → Parse α} (h : ∀ b, Yields source m o E c (f b) Q) :
    Yields source m o E c ((do return g (← MonadState.get)) >>= f) Q := fun s hs hE hc => h (g s) s hs hE hc

section
variable {f : Token → Parse α} {g : Bool → Parse α} {k : Place → Parse α} {p : Punctuator} {word : String}

theorem ahead (h : ∀ t, Yields source m o E c (f t) Q) : Yields source m o E c (ahead >>= f) Q := reading h

/-- The token ahead is spelled as it is marked. -/
theorem aheadMarked (h : ∀ t, t.Marked → Yields source .ahead o E c (f t) Q) :
    Yields source .ahead o E c (Parse.ahead >>= f) Q :=
  fun s hs hE hc => h s.lookahead (ParseState.Sited.lexed hs.placed).marked s hs hE hc

theorem check (h : ∀ b, Yields source m o E c (g b) Q) : Yields source m o E c (check p >>= g) Q := reading h

theorem checkKeyword (h : ∀ b, Yields source m o E c (g b) Q) : Yields source m o E c (checkKeyword word >>= g) Q :=
  reading h

theorem checkWord (h : ∀ b, Yields source m o E c (g b) Q) : Yields source m o E c (checkWord word >>= g) Q :=
  reading h

theorem mark (h : ∀ start, Yields source m o E c (k start) Q) : Yields source m o E c (mark >>= k) Q := reading h

theorem scannerPlace (h : ∀ start, Yields source m o E c (k start) Q) :
    Yields source m o E c (scannerPlace >>= k) Q := reading h

theorem context {f : Context → Parse α} (h : Yields source m o E c (f E.context) Q) :
    Yields source m o E c (context >>= f) Q := by
  rintro s hs rfl rfl
  exact h s hs rfl rfl

theorem isStrict (h : Yields source m o E c (g E.context.strict) Q) : Yields source m o E c (isStrict >>= g) Q := by
  rintro s hs rfl rfl
  exact h s hs rfl rfl

end

/-! ## Checks -/

/-- Something that a strict parse stops at if the condition holds. -/
theorem assert {b : Prop} [Decidable b] {p : Parse Unit} {f : Unit → Parse α} (hp : Stops p)
    (h : ¬ b → Yields source m o E c (f ()) Q) : Yields source m o E c (if b then p >>= f else f ()) Q :=
  .ite (fun _ => hp.bind.yields) h

/-- Something that a strict parse stops at unless the condition holds. -/
theorem require {b : Prop} [Decidable b] {p : Parse Unit} {f : Unit → Parse α} (hp : Stops p)
    (h : b → Yields source m o E c (f ()) Q) : Yields source m o E c (if b then f () else p >>= f) Q :=
  .ite h fun _ => hp.bind.yields

/-! ## Cover and context -/

theorem modifyCover {change : Cover → Cover} {f : Unit → Parse α} (h : Yields source m o E (change c) (f ()) Q) :
    Yields source m o E c (modifyCover change >>= f) Q := fun s hs hE hc =>
  h { s with cover := change s.cover } (hs.congr rfl rfl) hE (by rw [← hc])

theorem nonPattern {f : Unit → Parse α} (h : Yields source m o E c.nonPattern (f ()) Q) :
    Yields source m o E c (nonPattern >>= f) Q := modifyCover h

theorem setLabels (change : List String → List String) {f : Unit → Parse α}
    (h : Yields source m o { E with labels := change E.labels } c (f ()) Q) :
    Yields source m o E c ((modify fun s => { s with labels := change s.labels }) >>= f) Q := by
  rintro s hs rfl rfl
  exact h { s with labels := change s.labels } (hs.congr rfl rfl) rfl rfl

theorem setContext (change : Context → Context) {f : Unit → Parse α}
    (h : Yields source m o { E with context := change E.context } c (f ()) Q) :
    Yields source m o E c ((modify fun s => { s with context := change s.context }) >>= f) Q := by
  rintro s hs rfl rfl
  exact h { s with context := change s.context } (hs.congr rfl rfl) rfl rfl

theorem withContext {change : Context → Context} {p : Parse α} {Q : α → Cover → Prop}
    (h : Yields source m o { E with context := change E.context } c p fun a E' c' => E'.labels = E.labels ∧ Q a c') :
    Yields source m o E c (withContext change p) fun a E' c' => E = E' ∧ Q a c' := by
  refine get fun s _ hE _ => ?_
  subst hE
  refine setContext (fun _ => change s.context) (bind h ?_)
  rintro a E' c' ⟨labels, ha⟩
  exact setContext (fun _ => s.context) (.pure ⟨by rw [labels]; rfl, ha⟩)

theorem inContext {change : Context → Context} {p : Parse α} {Q : α → Cover → Prop}
    (h : Yields source m o { E with context := change E.context } c p fun a E' c' =>
      { E with context := change E.context } = E' ∧ Q a c') :
    Yields source m o E c (Parse.withContext change p) fun a E' c' => E = E' ∧ Q a c' :=
  withContext (h.mono fun _ _ _ ⟨hE, ha⟩ => ⟨by rw [← hE], ha⟩)

theorem isolate {p : Parse α} {P : α → Setting → Cover → Prop} (h : Yields source m o E .fresh p P) :
    Yields source m o E c (isolate p) fun a E' c' => c = c' ∧ ∃ d, d.pending = none ∧ P a E' d := by
  refine get fun s hs hE hc => modifyCover (bind h fun a E' d ha => get fun t ht _ hd => ?_)
  split
  · exact Stops.failAt.bind.yields
  next hnone =>
    exact modifyCover (.pure ⟨hc.symm, d, Option.eq_none_iff_forall_ne_some.2 (by rw [← hd]; exact hnone), ha⟩)

/-- What is read is no more than what is around it may be. -/
theorem inherit {p : Parse α} {P : α → Cover → Prop} (h : Yields source m o E .fresh p fun a E' c' => E = E' ∧ P a c') :
    Yields source m o E c (inherit p) fun a E' c' => E = E' ∧ ∃ d, P a d ∧
      c' = ⟨d.isAssignmentTarget && c.isAssignmentTarget, d.isBindingElement && c.isBindingElement,
        c.pending <|> d.pending⟩ := by
  refine get fun s hs hE hc => modifyCover (bind h ?_)
  rintro a _ d ⟨rfl, ha⟩
  exact modifyCover (.pure ⟨rfl, d, ha, by rw [hc]⟩)

/-! ## Nodes -/

theorem finish {start : Place} {kind : Kind Node} {Q : Node → Setting → Cover → Prop} (h : ∀ i, Q (.mk i kind) E c) :
    Yields source m m E c (finish start kind) Q := by
  rintro s hs rfl rfl
  refine onSuccess.mono .finish ?_
  rintro _ _ ⟨rfl, rfl⟩
  exact ⟨hs.congr rfl rfl, h _⟩

theorem node {start : Place} {kind : Kind Node} {f : Node → Parse α}
    (h : ∀ i, Yields source m o E c (f (.mk i kind)) Q) :
    Yields source m o E c (Parse.finish start kind >>= f) Q :=
  bind (P := fun n E' c' => (∃ i, n = .mk i kind) ∧ E = E' ∧ c = c') (.finish fun i => ⟨⟨i, rfl⟩, rfl, rfl⟩) <| by
    rintro _ _ _ ⟨⟨i, rfl⟩, rfl, rfl⟩
    exact h i

end Yields

theorem Reads.also {p : Parse α} {P : α → Cover → Prop} {R : α → Prop} (h : Reads source E c p P)
    (h' : ∀ s, onSuccess.Ensures p s fun a _ => R a) : Reads source E c p fun a c' => P a c' ∧ R a :=
  fun s hs hE hc a t ht =>
  have ⟨strict, setting, ha⟩ := h s hs hE hc a t ht
  ⟨strict, setting, ha, h' s a t ht⟩

/-- What is given back has all properties that it has one by one. -/
theorem Reads.all {ι : Type} [Inhabited ι] {p : Parse α} {Q : ι → α → Cover → Prop}
    (h : ∀ x, Reads source E c p (Q x)) :
    Reads source E c p fun a c' => ∀ x, Q x a c' := fun s hs hE hc a t ht =>
  ⟨(h default s hs hE hc a t ht).1, (h default s hs hE hc a t ht).2.1, fun x => (h x s hs hE hc a t ht).2.2⟩

/-! ## Productions that leave everything as it was -/

namespace Keeps

variable {R : α → Prop}

theorem pure {a : α} (h : R a) : Keeps source m m (pure a) R := fun _ _ => .pure ⟨rfl, rfl, h⟩

theorem bind {p : Parse α} {f : α → Parse β} {R' : β → Prop} (hp : Keeps source m n p R)
    (hf : ∀ a, R a → Keeps source n o (f a) R') : Keeps source m o (p >>= f) R' := fun E c =>
  .bind (hp E c) (by rintro a _ _ ⟨rfl, rfl, ha⟩; exact hf a ha _ _)

theorem ofStops {p : Parse α} (h : Stops p) : Keeps source m o p R := fun _ _ => h.yields

/-- What is given back has, too, what it has in every parse that goes on. -/
theorem also {p : Parse α} {R' : α → Prop} (h : Keeps source m o p R)
    (h' : ∀ s, onSuccess.Ensures p s fun a _ => R' a) :
    Keeps source m o p fun a => R a ∧ R' a := fun E c s hs hE hc a t ht =>
  have ⟨strict, setting, cover, ha⟩ := h E c s hs hE hc a t ht
  ⟨strict, setting, cover, ha, h' s a t ht⟩

end Keeps

/-- A part of a production that leaves everything as it was. -/
theorem Yields.keep {p : Parse α} {f : α → Parse β} {R : α → Prop} {Q : β → Setting → Cover → Prop}
    (hp : Keeps source m n p R) (hf : ∀ a, R a → Yields source n o E c (f a) Q) : Yields source m o E c (p >>= f) Q :=
  .bind (hp E c) (by rintro a _ _ ⟨rfl, rfl, ha⟩; exact hf a ha)

/-! ## Tokens -/

namespace Keeps

/-- An action that is known to lead on in the source. -/
theorem ofEnsures {p : Parse α} {R : α → Prop}
    (h : ∀ s : ParseState, s.Strict source m → onSuccess.Ensures p s fun a t =>
    t.Strict source o ∧ s.setting = t.setting ∧ s.cover = t.cover ∧ R a) : Keeps source m o p R := by
  rintro E c s hs rfl rfl
  exact h s hs

theorem nextMarked : Keeps source .ahead .ahead next Token.Marked :=
  ofEnsures fun _ hs => onSuccess.mono .next <| by
    rintro _ _ ⟨rfl, hu⟩
    exact ⟨(hs.advances hu).1, (hs.advances hu).2.1.symm, (hs.advances hu).2.2.symm,
      (ParseState.Sited.lexed hs.placed).marked⟩

theorem next : Keeps source m .ahead next fun _ => True :=
  ofEnsures fun _ hs => onSuccess.mono .next fun _ _ hu =>
    have ⟨stands, context, cover⟩ := hs.advances hu.2
    ⟨stands, context.symm, cover.symm, trivial⟩

theorem skip : Keeps source m .ahead skip fun _ => True := by
  rw [skip_eq]
  exact .bind .next fun _ _ => .pure trivial

theorem expect {p : Punctuator} : Keeps source m .ahead (expect p) fun _ => True :=
  .bind .next fun _ _ _ _ => .ite (fun _ => .pure ⟨rfl, rfl, trivial⟩) fun _ => Stops.failAt.yields

theorem expectKeyword {word : String} : Keeps source m .ahead (expectKeyword word) fun _ => True :=
  .bind .next fun _ _ _ _ => .ite (fun _ => .pure ⟨rfl, rfl, trivial⟩) fun _ => Stops.failAt.yields

theorem accept {p : Punctuator} : Keeps source .ahead .ahead (accept p) fun _ => True := fun _ _ =>
  .check fun _ => .ite (fun _ => .keep .skip fun _ _ => .pure ⟨rfl, rfl, trivial⟩) fun _ => .pure ⟨rfl, rfl, trivial⟩

theorem acceptKeyword {word : String} : Keeps source .ahead .ahead (acceptKeyword word) fun _ => True := fun _ _ =>
  .checkKeyword fun _ => .ite (fun _ => .keep .skip fun _ _ => .pure ⟨rfl, rfl, trivial⟩) fun _ =>
    .pure ⟨rfl, rfl, trivial⟩

/-- A probe comes back to where it began. -/
theorem scan {action : Scan α} (h : onSuccess.Settles (scan action)) : Keeps source m m (scan action) fun _ => True :=
  ofEnsures fun s hs a t ht => by
    refine ⟨hs.rests (h s a t ht), ?_⟩
    unfold Parse.scan at ht
    split at ht
    · cases ht
      exact ⟨rfl, rfl, trivial⟩
    · cases ht

theorem second : Keeps source m m second fun _ => True := scan Judgement.Settles.second

theorem behindDot : Keeps source m m behindDot fun _ => True := scan Judgement.Settles.behindDot

theorem endStatement : Keeps source .ahead .ahead endStatement fun _ => True := fun E c => by
  refine .get fun s hs hE hc => .ite (fun _ => Keeps.skip E c) fun _ =>
    .ite (fun _ => .pure ⟨rfl, rfl, trivial⟩) fun _ => .ite (fun _ => ?_) fun _ => ?_
  · rintro t ht rfl rfl _ _ ⟨⟩
    exact ⟨ht.congr rfl rfl, rfl, rfl, trivial⟩
  · exact Stops.failAt.yields

theorem expectSeparator : Keeps source .ahead .ahead expectSeparator fun _ => True := fun E c =>
  .get fun s hs _ _ => .ite (fun _ => Keeps.expect E c) fun h => absurd hs.dialect (by simpa using h)

theorem endDoWhile : Keeps source .ahead .ahead endDoWhile fun _ => True := fun E c => by
  refine .check fun _ => .get fun s hs _ _ => .ite (fun h => ?_) fun _ => ?_
  · exact absurd hs.dialect (by simp_all)
  · rw [discard_eq]
    exact .keep .expect fun _ _ => .keep .accept fun _ _ => .pure ⟨rfl, rfl, trivial⟩

theorem missingParen : Keeps source .ahead .ahead missingParen (· = none) := fun E c =>
  .get fun s hs _ _ => .ite (fun _ => .pure ⟨rfl, rfl, rfl⟩) fun h => absurd hs.dialect (by simp_all)

end Keeps

/-! ## Repetition -/

/-- What holds when a loop goes on, and what when it is done. -/
def Progress.Meets (more done : σ → Setting → Cover → Prop) : Progress σ → Setting → Cover → Prop
  | .more x => more x
  | .done x => done x

namespace Yields

theorem iterate {step : σ → Parse (Progress σ)} {I D : σ → Setting → Cover → Prop}
    (hstep : ∀ x E c, I x E c → Yields source m m E c (step x) (Progress.Meets I D)) :
    ∀ {bound : Nat} {x : σ} {E : Setting} {c : Cover}, I x E c → Yields source m m E c (iterate step bound x) D
  | 0, _, _, _, _ => fun _ _ _ _ _ _ h => by cases h
  | _ + 1, x, E, c, h => by
    refine bind (hstep x E c h) ?_
    rintro (y | y) E' c' hy
    · exact iterate hstep hy
    · exact .pure hy

/-- A loop keeps the invariant `I` until it is done; then `D` holds. -/
theorem loop {step : σ → Parse (Progress σ)} {I D : σ → Setting → Cover → Prop} {x : σ} (h : I x E c)
    (hstep : ∀ x E c, I x E c → Yields source m m E c (step x) (Progress.Meets I D)) :
    Yields source m m E c (loop x step) D := .get fun _ _ _ _ => .iterate hstep h

end Yields

/-- A loop that leaves the setting as it was. -/
theorem Reads.loop {step : σ → Parse (Progress σ)} {I D : σ → Cover → Prop} {x : σ} (h : I x c)
    (hstep : ∀ x c, I x c → Yields source m m E c (step x)
      (Progress.Meets (fun x E' c' => E = E' ∧ I x c') (fun x E' c' => E = E' ∧ D x c'))) :
    Yields source m m E c (loop x step) fun x E' c' => E = E' ∧ D x c' :=
  .loop (I := fun x E' c' => E = E' ∧ I x c') ⟨rfl, h⟩ (by rintro x _ c ⟨rfl, hx⟩; exact hstep x c hx)

section
variable {I : Cover → Prop} {R : α → Cover → Prop} {item : Parse α}

/-- Every item has a property that the items behind it do not take away. -/
theorem Reads.manyBefore {stop : Parse Bool} (hstop : Keeps source m m stop fun _ => True) (hc : I c)
    (hitem : ∀ c, I c → Yields source m m E c item fun a E' c' => E = E' ∧ I c' ∧ R a c' ∧ ∀ b, R b c → R b c') :
    Yields source m m E c (manyBefore stop item) fun items E' c' => E = E' ∧ I c' ∧ ∀ a ∈ items, R a c' := by
  refine .bind (Reads.loop (I := fun items c => I c ∧ ∀ a ∈ items, R a c) (D := fun items c => I c ∧ ∀ a ∈ items, R a c)
    ⟨hc, by simp⟩ fun items c ⟨hc, h⟩ => ?_) ?_
  · refine .keep hstop fun _ _ => .ite (fun _ => .pure ⟨rfl, hc, h⟩) fun _ => .bind (hitem c hc) ?_
    rintro a _ c' ⟨rfl, hc', ha, keeps⟩
    exact .pure ⟨rfl, hc', List.forall_mem_cons.2 ⟨ha, fun b hb => keeps b (h b hb)⟩⟩
  · rintro items _ c' ⟨rfl, hc', h⟩
    exact .pure ⟨rfl, hc', by simpa using h⟩

theorem Reads.itemsBefore {p : Punctuator} (hc : I c)
    (hitem : ∀ c, I c → Reads source E c item fun a c' => I c' ∧ R a c' ∧ ∀ b, R b c → R b c') :
    Reads source E c (itemsBefore p item) fun items c' => I c' ∧ ∀ a ∈ items, R a c' :=
  .manyBefore (fun _ _ => .get fun _ _ _ _ => .pure ⟨rfl, rfl, trivial⟩) hc hitem

theorem Reads.commaSeparated (hc : I c)
    (hitem : ∀ c, I c → Reads source E c item fun a c' => I c' ∧ R a c' ∧ ∀ b, R b c → R b c') :
    Reads source E c (commaSeparated item) fun items c' => I c' ∧ ∀ a ∈ items, R a c' := by
  refine .bind (hitem c hc) ?_
  rintro first _ c ⟨rfl, hc, hfirst, -⟩
  refine .bind (Reads.loop (I := fun items c => I c ∧ ∀ a ∈ first :: items, R a c)
    (D := fun items c => I c ∧ ∀ a ∈ first :: items, R a c) ⟨hc, by simpa using hfirst⟩ fun items c ⟨hc, h⟩ => ?_) ?_
  · refine .keep .accept fun _ _ => .ite (fun _ => .bind (hitem c hc) ?_) fun _ => .pure ⟨rfl, hc, h⟩
    rintro a _ c' ⟨rfl, hc', ha, keeps⟩
    refine .pure ⟨rfl, hc', fun b hb => ?_⟩
    rcases List.mem_cons.1 hb with rfl | hb
    · exact keeps _ (h _ (List.mem_cons_self ..))
    · rcases List.mem_cons.1 hb with rfl | hb
      · exact ha
      · exact keeps b (h b (List.mem_cons_of_mem _ hb))
  · rintro items _ c' ⟨rfl, hc', h⟩
    exact .pure ⟨rfl, hc', by simpa using h⟩

end

end Parse

end EcmaTree
