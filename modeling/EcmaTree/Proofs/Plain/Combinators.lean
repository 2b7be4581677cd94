import EcmaTree.Proofs.Lexer.Strict
import EcmaTree.Proofs.Plain.Basic

/-!
# Combinators of parses without JSX

Rules for consuming tokens, for changing the context or the cover for a while, and for repetition.
-/

namespace EcmaTree

/-- Is the punctuator another one than `<`? -/
@[reducible] def Punctuator.isNoLess : Punctuator → Bool
  | .lt => false
  | _ => true

namespace Parse

variable {I : Invariant} {α β σ : Type} {free : Bool} {s t : ParseState} {p : Punctuator} {word : String}

theorem scan_eq_ok {action : Scan α} {a : α} : scan action s = .ok a t ↔
    ∃ u, action s.scanner = .ok a u ∧ t = { s with scanner := u } := by
  rw [scan]
  cases action s.scanner <;> simp [eq_comm]

/-! ## Probes -/

namespace Quiet

theorem second : Quiet second := .of_probe fun s hs a t h => by
  obtain ⟨u, hu, rfl⟩ := scan_lookAhead_eq_ok.1 h
  obtain ⟨v, hv, rfl⟩ := scan_eq_ok.1 hu
  obtain ⟨c, rfl⟩ := Scan.trivia_token_ok hs.scanner hv
  simp only [Scanner.rewind_lexeme]

theorem behindDot : Quiet behindDot := .of_probe fun s hs a t h => by
  obtain ⟨u, hu, rfl⟩ := scan_lookAhead_eq_ok.1 h
  obtain ⟨v, hv, rfl⟩ := scan_eq_ok.1 hu
  obtain ⟨c, l, rfl⟩ := Scan.behindDot_ok hs.scanner hv
  simp only [Scanner.rewind_lexeme]

end Quiet

/-! ## Tokens -/

namespace Goes

theorem next : Goes I free next := of_blind .next I.next

theorem skip : Goes I free skip := by
  rw [skip_eq]
  exact bind next fun _ => .pure _

theorem expect (p : Punctuator) : Goes I free (expect p) := bind next fun _ => .ite (.pure _) (.of_stops .failAt)

theorem expectKeyword (word : String) : Goes I free (expectKeyword word) :=
  bind next fun _ => .ite (.pure _) (.of_stops .failAt)

/-- A part that reads no token. -/
theorem quiet {p : Parse α} {f : α → Parse β} (hp : Quiet p) (hf : ∀ a, Goes I free (f a)) : Goes I free (p >>= f) :=
  bind (hp.goes I) hf

/-- A production that is nothing but quiet. -/
theorem of_quiet {p : Parse α} (hp : Quiet p) : Goes I free p := (hp.goes I).loosen

/-- The last part that reads tokens. -/
theorem last {p : Parse α} {f : α → Parse β} (hp : Goes I free p) (hf : ∀ a, Quiet (f a)) : Goes I free (p >>= f) := by
  cases free
  · exact bind hp fun a => (hf a).goes I
  · exact bindFree hp (fun a => of_quiet (hf a)) fun a => (hf a).halts

/-- A complaint that ends a strict parse, if it is made. -/
theorem guard {c : Prop} [Decidable c] {p : Parse Unit} {f : Unit → Parse α} (hp : Stops p) (hf : Goes I free (f ())) :
    Goes I free (if c then p >>= f else f ()) := ite (of_stops hp.bind) hf

theorem guardUnless {c : Prop} [Decidable c] {p : Parse Unit} {f : Unit → Parse α}
    (hp : Stops p) (hf : Goes I free (f ())) :
    Goes I free (if c then f () else p >>= f) := ite hf (of_stops hp.bind)

theorem accept (p : Punctuator) : Goes I free (accept p) :=
  quiet (.check p) fun _ => .ite (bind skip fun _ => .pure _) (.pure _)

theorem passOver : Goes I free passOver := bind next fun _ => .of_stops .tolerateAt

theorem expectSeparator : Goes I free expectSeparator := .get (fun _ => rfl) fun _ =>
  .ite (expect _) (.ite skip (.ite passOver (.of_stops .tolerateWith)))

theorem endStatement : Goes I free endStatement := .get (fun _ => rfl) fun _ =>
  .ite skip (.ite (.pure _) (.ite (.modifying (fun _ => rfl) fun _ => ⟨_, _, _, _, _, _, rfl, rfl⟩)
    (.of_stops .failAt)))

end Goes

namespace Halts

theorem quiet {p : Parse α} {f : α → Parse β} (hp : Quiet p) (hf : ∀ a, Halts free (f a)) : Halts free (p >>= f) :=
  bind hp.halts hf

/-- A part that stops, or leaves the rest to what reads no token. -/
theorem last {p : Parse α} {f : α → Parse β} (hp : Halts free p) (hf : ∀ a, Quiet (f a)) : Halts free (p >>= f) := by
  cases free
  · exact first hp
  · exact bind hp fun a => (hf a).halts

theorem guard {c : Prop} [Decidable c] {p : Parse Unit} {f : Unit → Parse α} (hp : Stops p) (hf : Halts free (f ())) :
    Halts free (if c then p >>= f else f ()) := ite (fun _ => of_stops hp.bind) fun _ => hf

theorem ahead {f : Token → Parse β} (h : ∀ t : Token, t.lexeme = .punctuator .lt → Halts free (f t)) :
    Halts free (ahead >>= f) :=
  fun s hs => h _ hs.less s hs

theorem check [hp : Evident p.isNoLess] {f : Bool → Parse β} (h : Halts free (f false)) : Halts free (check p >>= f) :=
  fun s hs => by
    have other : s.lookahead.isPunctuator p = false := by
      rw [hs.isPunctuator, beq_eq_false_iff_ne]
      rintro rfl
      exact absurd hp.eq (by decide)
    have run : (Parse.check p >>= f) s = f (s.lookahead.isPunctuator p) s := rfl
    rw [run, other]
    exact h s hs

theorem checkKeyword {f : Bool → Parse β} (h : Halts free (f false)) : Halts free (checkKeyword word >>= f) :=
  fun s hs => by
  have other : s.lookahead.isKeyword word = false := by rw [Token.isKeyword, hs.less]
  have run : (Parse.checkKeyword word >>= f) s = f (s.lookahead.isKeyword word) s := rfl
  rw [run, other]
  exact h s hs

theorem accept [Evident p.isNoLess] {f : Bool → Parse β} (h : Halts free (f false)) : Halts free (accept p >>= f) := by
  rw [Parse.accept, bind_assoc]
  exact check (by simpa using h)

/-- The `<` is consumed, and is not what was expected. -/
theorem next {f : Token → Parse β} (h : ∀ t : Token, t.lexeme = .punctuator .lt → Stops (f t)) :
    Halts free (next >>= f) :=
  fun s hs b u hb => by
    obtain ⟨a, t, ha, hb⟩ := bind_eq_ok.1 hb
    obtain ⟨rfl, ht⟩ := Judgement.Ensures.next (J := Judgement.onSuccess) a t ha
    have strict : t.scanner.tolerant = false := by
      obtain ⟨_, _, _, _, _, _, _, rfl⟩ := ht
      exact hs.plain.scanner
    exact absurd hb (h _ hs.less t strict b u)

theorem expect [hp : Evident p.isNoLess] : Halts free (expect p) := next fun t ht => by
  have other : t.isPunctuator p = false := by
    rw [Token.isPunctuator, ht]
    refine beq_eq_false_iff_ne.2 ?_
    rintro rfl
    exact absurd hp.eq (by decide)
  rw [other]
  exact .failAt

theorem expectKeyword : Halts free (expectKeyword word) := next fun t ht => by
  rw [Token.isKeyword, ht]
  exact .failAt

theorem expectSeparator : Halts free expectSeparator := get fun s hs => by
  rw [hs.plain.strict]
  exact expect

theorem endStatement : Halts free endStatement := get fun s hs => by
  rw [hs.isPunctuator, hs.isPunctuator, hs.sameLine, Token.isEnd, hs.less]
  exact of_stops .failAt

end Halts

/-! ## Productions in another setting -/

theorem Quiet.behindIsolate {a : α} (previous : Cover) : Quiet (do
    if let some t := (← MonadState.get).cover.pending then failAt t
    Parse.modifyCover fun _ => previous
    return a) := .get (fun _ => rfl) fun s => by
  split
  · exact .of_stops (.bind .failAt)
  · exact .bind (.modifyCover _) fun _ => .pure _

namespace Goes

variable {p : Parse α}

theorem withContext {change : Context → Context} (h : Goes I free p) : Goes I free (withContext change p) :=
  .get (fun _ => rfl) fun s => quiet (.setContext fun _ => change s.context) fun _ =>
    last h fun _ => .bind (.setContext fun _ => s.context) fun _ => .pure _

theorem isolate (h : Goes I free p) : Goes I free (isolate p) :=
  .get (fun _ => rfl) fun s => quiet (.modifyCover _) fun _ => last h fun _ => .behindIsolate s.cover

theorem inherit (h : Goes I free p) : Goes I free (inherit p) :=
  .get (fun _ => rfl) fun _ => quiet (.modifyCover _) fun _ => last h fun _ => .bind (.modifyCover _) fun _ => .pure _

end Goes

namespace Halts

variable {p : Parse α}

theorem withContext {change : Context → Context} (h : Halts free p) : Halts free (withContext change p) :=
  .get fun s _ => quiet (.setContext fun _ => change s.context) fun _ =>
    last h fun _ => .bind (.setContext fun _ => s.context) fun _ => .pure _

theorem isolate (h : Halts free p) : Halts free (isolate p) :=
  .get fun s _ => quiet (.modifyCover _) fun _ => last h fun _ => .behindIsolate s.cover

theorem inherit (h : Halts free p) : Halts free (inherit p) :=
  .get fun _ _ => quiet (.modifyCover _) fun _ => last h fun _ => .bind (.modifyCover _) fun _ => .pure _

end Halts

/-! ## Repetition -/

section
variable {step : σ → Parse (Progress σ)}

theorem Halts.iterate (h : ∀ x, Halts true (step x)) : ∀ bound x, Halts true (iterate step bound x)
  | 0, _ => .exhausted
  | bound + 1, x => .bind (h x) fun
    | .more y => Halts.iterate h bound y
    | .done y => .pure y

theorem Halts.loop (h : ∀ x, Halts true (step x)) (x : σ) : Halts true (loop x step) := .get fun _ _ => .iterate h _ x

theorem Goes.iterate (h : ∀ x, Goes I false (step x)) : ∀ bound x, Goes I free (iterate step bound x)
  | 0, _ => .exhausted
  | bound + 1, x => .bind (h x) fun
    | .more y => Goes.iterate h bound y
    | .done y => .pure y

theorem Goes.loop (h : ∀ x, Goes I false (step x)) (x : σ) : Goes I free (loop x step) :=
  .get (fun _ => rfl) fun _ => .iterate h _ x

theorem Goes.iterateFree (h : ∀ x, Goes I true (step x)) (hstop : ∀ x, Halts true (step x)) :
    ∀ bound x, Goes I true (Parse.iterate step bound x)
  | 0, _ => .exhausted
  | bound + 1, x => .bindFree (h x)
    (fun
      | .more y => Goes.iterateFree h hstop bound y
      | .done y => .pure y)
    (fun
      | .more y => Halts.iterate hstop bound y
      | .done y => .pure y)

/-- A loop whose step may end before a `<`, where the next step consumes nothing. -/
theorem Goes.loopFree (h : ∀ x, Goes I true (step x)) (hstop : ∀ x, Halts true (step x)) (x : σ) :
    Goes I true (Parse.loop x step) :=
  .get (fun _ => rfl) fun _ => .iterateFree h hstop _ x

end

section
variable {item : Parse α}

/-- Items until something other than a `<` stops them. An item may end before a `<`, but none begins with it. -/
theorem Goes.manyBefore {stop : Parse Bool} (hstop : Quiet stop)
    (hless : ∀ s : ParseState, s.AtLess → stop s = .ok false s)
    (hitem : Goes I true item) (hhalt : Halts false item) : Goes I free (manyBefore stop item) := by
  let step (items : List α) : Parse (Progress (List α)) := do
    if ← stop then return .done items else return .more ((← item) :: items)
  have round (bound : Nat) (items : List α) : Parse.iterate step (bound + 1) items = stop >>= fun b =>
      if b then Pure.pure items else item >>= fun a => Parse.iterate step bound (a :: items) := by
    simp only [Parse.iterate, step, bind_assoc]
    congr 1
    funext b
    cases b <;> simp
  have halts (bound : Nat) (items : List α) : Halts false (Parse.iterate step bound items) := by
    cases bound with
    | zero => exact .exhausted
    | succ bound =>
      rw [round]
      intro s hs a t h
      rw [bind_of_ok (hless s hs)] at h
      exact Halts.first hhalt s hs a t h
  have goes (bound : Nat) : ∀ items, Goes I false (Parse.iterate step bound items) := by
    induction bound with
    | zero => exact fun _ => .exhausted
    | succ bound ih =>
      intro items
      rw [round]
      exact .quiet hstop fun _ => .ite (.pure _) (.bindFree hitem (fun _ => ih _) fun _ => halts _ _)
  exact .bind (.get (fun _ => rfl) fun s => goes s.bound []) fun _ => .pure _

/-- Items of which none ends before a `<`. -/
theorem Goes.many {stop : Parse Bool} (hstop : Quiet stop) (hitem : Goes I false item) :
    Goes I free (Parse.manyBefore stop item) :=
  .bind (.loop (fun _ => .quiet hstop fun _ => .ite (.pure _) (.bind hitem fun _ => .pure _)) _) fun _ => .pure _

theorem Goes.items (hitem : Goes I false item) : Goes I free (itemsBefore p item) := many (.check p) hitem

theorem Goes.itemsBefore [hp : Evident p.isNoLess] (hitem : Goes I true item) (hhalt : Halts false item) :
    Goes I free (Parse.itemsBefore p item) := manyBefore (.check p) (fun s hs => by
  have other : s.lookahead.isPunctuator p = false := by
    rw [hs.isPunctuator, beq_eq_false_iff_ne]
    rintro rfl
    exact absurd hp.eq (by decide)
  exact congrArg (EStateM.Result.ok · s) other) hitem hhalt

theorem Goes.commaSeparated (hitem : Goes I true item) : Goes I true (commaSeparated item) :=
  .bindFree hitem
    (fun _ => .last (.loopFree (fun _ => .bind (.accept _) fun _ => .ite (.last hitem fun _ => .pure _) (.pure _))
      (fun _ => .accept (.pure _)) _) fun _ => .pure _)
    (fun _ => .bind (.loop (fun _ => .accept (.pure _)) _) fun _ => .pure _)

theorem Halts.commaSeparated (hitem : Halts false item) : Halts free (Parse.commaSeparated item) := first hitem

end

end Parse

end EcmaTree
