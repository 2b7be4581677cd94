import EcmaTree.Proofs.Grammar.Program
import EcmaTree.Proofs.Success
import EcmaTree.Proofs.Recording.Found

/-!
# Tolerant parses and strict ones

A parse in tolerant mode is compared with the strict parse of the same source. They go the same way until an error is
recorded; then the strict parse has stopped, and the tolerant one ends with an error recorded, if it does not stop too.
-/

namespace EcmaTree

namespace ParseState

/-- Are errors recorded? -/
def Lenient (s : ParseState) : Prop := s.dialect.tolerant = true ∧ s.scanner.tolerant = true

/-- The same state, where errors stop the parse. -/
def strict (s : ParseState) : ParseState := s.heard false s.scanner.errors

theorem Lenient.heard_eq {s : ParseState} (h : s.Lenient) : s.heard true s.scanner.errors = s := by
  obtain ⟨⟨_, _, _, _⟩, _, ⟨_, _, _, _, _⟩⟩ := s
  obtain ⟨rfl, rfl⟩ := h
  rfl

end ParseState

open Parse

variable {α β : Type} {p q : Parse α} {s t : ParseState} {Q : α → ParseState → Prop}

/-- What a parse in tolerant mode, started in `s`, has in common with the strict one. -/
inductive Keeps (Q : α → ParseState → Prop) (s : ParseState) :
    EStateM.Result Failure ParseState α → EStateM.Result Failure ParseState α → Prop
  /-- They go the same way. -/
  | same {a : α} {t : ParseState} : t.Lenient → t.scanner.errors = s.scanner.errors → Q a t →
      Keeps Q s (.ok a t) (.ok a t.strict)
  /-- An error was recorded at which the strict one stopped. -/
  | told {a : α} {t u : ParseState} {e : Failure} : t.Lenient → s.scanner.errors.length < t.scanner.errors.length →
      Q a t → Keeps Q s (.ok a t) (.error e u)
  | stopped {t u : ParseState} {e f : Failure} : Keeps Q s (.error e t) (.error f u)

namespace Keeps

variable {r x y : EStateM.Result Failure ParseState α}

theorem mono {R : α → ParseState → Prop} (h : Keeps Q s x y) (hQR : ∀ a t, Q a t → R a t) : Keeps R s x y := by
  cases h with
  | same ht hs hq => exact .same ht hs (hQR _ _ hq)
  | told ht hs hq => exact .told ht hs (hQR _ _ hq)
  | stopped => exact .stopped

/-- It does not matter how the strict parse stops. -/
theorem congr {e f : Failure} {t u : ParseState} (h : Keeps Q s x (.error e t)) : Keeps Q s x (.error f u) := by
  cases h with
  | told ht hs hq => exact .told ht hs hq
  | stopped => exact .stopped

/-- What is true of a run from a state where an error had been recorded. -/
theorem after {e : Failure} {u : ParseState} (h : Keeps Q t x y)
    (hs : s.scanner.errors.length < t.scanner.errors.length) :
    Keeps Q s x (.error e u) := by
  cases h with
  | same ht he hq => exact .told ht (he ▸ hs) hq
  | told ht he hq => exact .told ht (Nat.lt_trans hs he) hq
  | stopped => exact .stopped

theorem since (h : Keeps Q t x y) (hs : t.scanner.errors = s.scanner.errors) : Keeps Q s x y := by
  cases h with
  | same ht he hq => exact .same ht (he.trans hs) hq
  | told ht he hq => exact .told ht (hs ▸ he) hq
  | stopped => exact .stopped

end Keeps

/-- A tolerant run keeps to the strict one. -/
def Judgement.twins : Judgement where
  Ensures p s Q := s.Lenient → Keeps Q s (p s) (p s.strict)
  ofPure h hs := .same hs rfl h
  ofBind {α β p f s Q} h hs := by
    have := h hs
    generalize hx : p s = x at this
    generalize hy : p s.strict = y at this
    cases this with
    | same ht he hf =>
      rw [bind_of_ok hx, bind_of_ok hy]
      exact (hf ht).since he
    | told ht he hf =>
      rw [bind_of_ok hx, bind_of_error hy]
      exact (hf ht).after he
    | stopped =>
      rw [bind_of_error hx, bind_of_error hy]
      exact .stopped
  mono h hQR hs := (h hs).mono hQR
  ofThrow _ := .stopped
  ofGet {α f s Q} hf h hs := by
    have same : f s.strict = f s := by
      rw [← hf, ← hf s]
      rfl
    show Keeps Q s (f s s) (f s.strict s.strict)
    rw [same]
    exact h hs
  ofModify {f s Q} hf h hs := by
    have lenient := hf s true s.scanner.errors
    rw [hs.heard_eq] at lenient
    have errors : (f s).scanner.errors = s.scanner.errors := by rw [lenient]; rfl
    have strict : f s.strict = (f s).strict := by rw [ParseState.strict, hf, ParseState.strict, errors]
    have := Keeps.same (s := s) (Q := Q) (a := ()) (t := f s) ⟨by rw [lenient]; rfl, by rw [lenient]; rfl⟩ errors h
    rw [← strict] at this
    exact this
  ofTolerate e s hs := by
    have strict : s.strict.scanner.tolerant = false := rfl
    rw [tolerate_eq, tolerate_eq, if_pos hs.2, strict]
    exact .told hs (by simp) rfl
  ofLookAhead {α probe s Q} h hs := by
    have := h hs
    rw [scan_lookAhead_eq, scan_lookAhead_eq]
    generalize scan probe s = x at this
    generalize scan probe s.strict = y at this
    cases this with
    | same ht he hq => exact .same ht he ⟨_, hq, rfl⟩
    | told ht he hq => exact .told ht he ⟨_, hq, rfl⟩
    | stopped => exact .stopped

instance : Judgement.twins.Loose := ⟨fun _ => .stopped⟩

/-! ## What tolerant mode does otherwise -/

/-- The parse does not succeed. -/
def Stops (p : Parse α) (s : ParseState) : Prop := Judgement.onSuccess.Ensures p s fun _ _ => False

theorem Stops.eq_error (h : Stops p s) : ∃ e t, p s = .error e t := by
  cases hp : p s with
  | ok a t => exact (h a t hp).elim
  | error e t => exact ⟨e, t, rfl⟩

theorem Stops.bind {f : α → Parse β} (h : Stops p s) : Stops (p >>= f) s := Judgement.bind h fun _ _ => False.elim

/-- Where a parse would stop, a tolerant one may go another way, if that tells an error. -/
theorem keeps_of_stops (hp : Judgement.twins.Ensures p s Q) (hs : s.Lenient) (hstops : Stops p s.strict)
    (hq : Stops q s.strict) : Keeps Q s (p s) (q s.strict) := by
  obtain ⟨e, t, hp'⟩ := hstops.eq_error
  obtain ⟨f, u, hq'⟩ := hq.eq_error
  have := hp hs
  rw [hp'] at this
  rw [hq']
  exact this.congr

theorem tolerate_stops (e : SyntaxError) (hs : s.scanner.tolerant = false) : Stops (tolerate e) s := by
  intro _ _ h
  simp [tolerate_eq, hs] at h

theorem passOver_stops (hs : s.scanner.tolerant = false) : Stops passOver s := by
  refine Judgement.bind .next ?_
  rintro _ t ⟨-, _, _, _, _, _, _, _, rfl⟩
  exact Judgement.onSuccess.get (tolerate_stops _ hs)

theorem expect_stops {p : Punctuator} (hp : s.lookahead.isPunctuator p = false) : Stops (expect p) s :=
  Judgement.onSuccess.mono .expect fun _ _ ⟨h, _⟩ => by simp [hp] at h

/-- Where the punctuator is ahead, expecting it consumes it. -/
theorem expect_eq_skip {p : Punctuator} (hp : s.lookahead.isPunctuator p = true) : expect p s = skip s := by
  rw [skip_eq, expect]
  cases h : next s with
  | error e t => rw [bind_of_error h, bind_of_error h]
  | ok c t =>
    obtain ⟨rfl, -⟩ := Judgement.Ensures.next (J := .onSuccess) c t h
    rw [bind_of_ok h, bind_of_ok h, if_pos hp]

section
variable {source : Cursor} (hplaced : s.Placed source .ahead)
include hplaced

theorem passOver_twins : Judgement.twins.Ensures passOver s fun _ t => t.Placed source .ahead :=
  Judgement.twins.mono .passOver fun _ _ ht => by
    obtain ⟨u, hu, ht⟩ := ht.advances
    exact (hplaced.advances hu).rests ht

theorem skip_twins : Judgement.twins.Ensures skip s fun _ t => t.Placed source .ahead :=
  Judgement.twins.mono .skip fun _ _ => hplaced.advances

theorem expectSeparator_twins : Judgement.twins.Ensures expectSeparator s fun _ t => t.Placed source .ahead := by
  intro hs
  have strict : expectSeparator s.strict = expect .comma s.strict := rfl
  have lenient : expectSeparator s = (if s.lookahead.isPunctuator .comma then skip
      else if s.lookahead.isPunctuator .semicolon then passOver
      else tolerateWith s.lookahead (.unexpectedToken s.lookahead.text)) s := by
    rw [expectSeparator, get_bind, hs.1]
    rfl
  rw [strict, lenient]
  split
  next hcomma =>
    rw [expect_eq_skip (s := s.strict) hcomma]
    exact skip_twins hplaced hs
  next hcomma =>
    have stops : Stops (expect .comma) s.strict := expect_stops (Bool.eq_false_iff.2 hcomma)
    split
    · exact keeps_of_stops (passOver_twins hplaced) hs (passOver_stops rfl) stops
    · have settles := Judgement.twins.mono (Judgement.Settles.tolerateWith s.lookahead
        (.unexpectedToken s.lookahead.text) s) fun _ _ => hplaced.rests
      exact keeps_of_stops settles hs (Judgement.onSuccess.get (tolerate_stops _ rfl)) stops

theorem endDoWhile_twins : Judgement.twins.Ensures endDoWhile s fun _ t => t.Placed source .ahead := by
  refine .check fun hs => ?_
  cases hparen : s.lookahead.isPunctuator .rightParen with
  | true =>
    have closes : Judgement.twins.Ensures (do expect .rightParen; discard (accept .semicolon)) s
        fun _ t => t.Placed source .ahead := by
      refine Judgement.bind .expect fun _ t ⟨_, ht⟩ => ?_
      have placed := hplaced.advances ht
      rw [discard_eq]
      refine Judgement.bind (P := fun _ u => u.Placed source .ahead) ?_ fun _ _ h => Judgement.twins.ofPure h
      refine .check (.ite (fun _ => ?_) fun _ => Judgement.twins.ofPure placed)
      exact Judgement.bind (skip_twins placed) fun _ _ h => Judgement.twins.ofPure h
    exact closes hs
  | false =>
    have lenient : (get >>= fun s => if !false && s.dialect.tolerant then passOver else do
        expect .rightParen
        discard (accept .semicolon) : Parse Unit) s = passOver s := by
      rw [get_bind, hs.1]
      rfl
    rw [lenient]
    have stops : Stops (do expect .rightParen; discard (accept .semicolon)) s.strict :=
      Stops.bind (expect_stops (s := s.strict) hparen)
    exact keeps_of_stops (passOver_twins hplaced) hs (passOver_stops rfl) stops

theorem missingParen_twins {f : Option Node → Parse β} {Q : β → ParseState → Prop}
    (hrest : ∃ rest, f none = expect .rightParen >>= rest)
    (hnone : Judgement.twins.Ensures (f none) s Q)
    (hsome : ∀ n t, t.Placed source .ahead → Judgement.twins.Ensures (f (some n)) t Q) :
    Judgement.twins.Ensures (missingParen >>= f) s Q := by
  intro hs
  have strict : (missingParen >>= f) s.strict = f none s.strict := by
    refine bind_of_ok ?_
    rw [missingParen, get_bind, show s.strict.dialect.tolerant = false from rfl, Bool.not_false, Bool.or_true]
    rfl
  rw [strict]
  cases hparen : s.lookahead.isPunctuator .rightParen with
  | true =>
    have lenient : (missingParen >>= f) s = f none s := by
      refine bind_of_ok ?_
      rw [missingParen, get_bind, hparen]
      rfl
    rw [lenient]
    exact hnone hs
  | false =>
    have lenient : (missingParen >>= f) s = (do
        passOver
        let start ← mark
        f (some (← finish start .emptyStatement))) s := by
      rw [missingParen, bind_assoc, get_bind, hparen, hs.1]
      simp only [Bool.not_true, Bool.or_false, Bool.false_eq_true, if_false, bind_assoc, pure_bind]
    rw [lenient]
    refine keeps_of_stops ?_ hs (Stops.bind (passOver_stops rfl)) ?_
    · refine Judgement.bind (passOver_twins hplaced) fun _ t ht => .mark (Judgement.bind .finish ?_)
      rintro n _ ⟨-, rfl⟩
      exact hsome n _ (ht.congr rfl)
    · obtain ⟨rest, hrest⟩ := hrest
      rw [hrest]
      exact Stops.bind (expect_stops (s := s.strict) hparen)

end

namespace Tolerance

/-- A tolerant parse and a strict one, whatever they read. -/
def contract (source : Cursor) : Contract where
  toJudgement := .twins
  Stands m s := s.Placed source m
  Steps _ _ := True
  Read _ _ := True
  Later _ _ := True
  Good _ _ _ := True
  Firm _ _ _ := True
  Past _ _ := True
  Tells _ _ _ := True
  Escapes _ := True
  Initial s := s.start = source ∧ s.scanner.cursor = source
  Opened _ := True
  steps_trans _ _ := trivial
  steps_of_rests _ := trivial
  steps_of_read _ := trivial
  read_of_steps _ _ := trivial
  read_later _ _ := trivial
  later_of_steps _ := trivial
  stands_of_rests h h' := h'.rests h
  entering_of_inside h := h
  good_steps _ _ := trivial
  good_from _ _ := trivial
  firm_later _ _ := trivial
  firm_from _ _ := trivial
  good_of_firm _ := trivial
  firm_of_read _ _ := trivial
  firm_of_not_arrow _ _ := trivial
  firm_of_identifier _ _ := trivial
  firm_toPattern _ := trivial
  firm_child _ _ := trivial
  firm_parameter _ _ _ _ := trivial
  firm_yield _ _ _ := trivial
  good_placeholder _ _ _ := trivial
  good_escaped _ _ _ := trivial
  tells_of_rests _ _ _ := trivial
  tells_steps _ _ := trivial
  ofNext h := Judgement.twins.mono .next fun _ _ ⟨hc, ht⟩ => ⟨hc, h.advances ht, trivial, fun _ => trivial,
    trivial, fun _ _ => trivial⟩
  ofClose h _ _ _ := Judgement.twins.mono .skip fun _ _ ht => ⟨h.advances ht, trivial, trivial⟩
  ofRegex h hslash := Judgement.twins.mono (.regex h hslash) fun _ _ ⟨_, hu, _, ht⟩ =>
    ⟨(show ParseState.Placed source .ahead _ from hu.sited h).advances ht, trivial, trivial⟩
  ofTrail h := .modifying (fun _ _ _ => rfl) ⟨h.congr rfl, trivial⟩
  ofFinish h _ _ _ _ _ := by
    refine Judgement.twins.mono .finish ?_
    rintro n _ ⟨rfl, rfl⟩
    exact ⟨h.congr rfl, rfl, trivial, trivial, rfl, trivial, fun _ => trivial⟩
  ofSeparator h := Judgement.twins.mono (expectSeparator_twins h) fun _ _ ht => ⟨ht, trivial⟩
  ofEndDoWhile h := Judgement.twins.mono (endDoWhile_twins h) fun _ _ ht => ⟨ht, trivial⟩
  ofMissingParen h hrest hnone hsome :=
    missingParen_twins h hrest hnone fun n t ht => hsome n t ht trivial trivial
  ofStartJsx h _ _ := by
    refine Judgement.twins.mono .startJsx ?_
    rintro _ _ rfl
    exact ⟨h.enter.congr rfl, trivial⟩
  ofSkipTrivia hm h := Judgement.twins.mono .skipTrivia fun _ _ ht => ⟨h.skips hm ht, trivial, ht.clear⟩
  ofNextJsx h := Judgement.twins.mono .nextJsx fun _ _ ht _ => ⟨h.advancesJsx ht, trivial, fun _ _ _ => trivial⟩
  ofNextJsxText h := Judgement.twins.mono .nextJsxText fun _ _ ht => ⟨h.advancesText ht, trivial, trivial⟩
  ofEmptyExpression h := by
    refine Judgement.twins.mono .jsxEmptyExpression ?_
    rintro _ _ ⟨u, hu, rfl, rfl⟩
    exact ⟨(h.skips (by nofun) hu).congr rfl, trivial, trivial⟩
  ofSkipInside h := Judgement.twins.mono .skip fun _ _ ht => ⟨h.advances ht, trivial⟩
  ofReenterJsx _ _ h := by
    refine Judgement.twins.mono .reenterJsx ?_
    rintro _ _ ⟨_, u, hu, -, rfl⟩
    exact ⟨(h.enter.advancesJsx hu).congr rfl, trivial⟩
  ofOpening := by
    rintro s ⟨rfl, hcursor⟩
    refine Judgement.twins.mono .opening ?_
    rintro _ _ ⟨u, hu, rfl⟩
    have placed : s.Placed s.start .entering := ⟨.refl _, hcursor ▸ .refl _⟩
    exact ⟨(placed.advances hu).congr rfl, trivial⟩
  read_of_end _ _ _ _ := trivial

/-- A tolerant parse of a source keeps to the strict one. -/
theorem source_keeps (text : String) (o : ParseOptions) :
    Keeps (fun _ _ => True) (.initial text { o with tolerant := true }.dialect)
      (Parse.source text { o with tolerant := true }.dialect)
      (Parse.source text { o with tolerant := false }.dialect) := by
  have initial : ParseState.initial text { o with tolerant := false }.dialect =
    (ParseState.initial text { o with tolerant := true }.dialect).strict := rfl
  have := Contract.source_held (K := contract (.ofString text)) text { o with tolerant := true }.dialect
    .complete ⟨rfl, rfl⟩ ⟨rfl, rfl⟩
  rw [Parse.source, Parse.source, initial]
  exact this.mono fun _ _ _ => trivial

end Tolerance

/-- A strict parse gives back what the tolerant one gives back without recording an error. -/
theorem parse_strict_iff (source : String) (o : ParseOptions) (p : Program) :
    parse source { o with tolerant := false } = .ok p ↔
      p.errors = none ∧ parse source { o with tolerant := true } = .ok { p with errors := some [] } := by
  have keeps := Tolerance.source_keeps source o
  rw [parse_eq_ok, parse_eq_ok]
  generalize Parse.source source { o with tolerant := true }.dialect = x at keeps ⊢
  generalize Parse.source source { o with tolerant := false }.dialect = y at keeps ⊢
  cases keeps with
  | @same root t _ he _ =>
    have ofParse : Program.asked { o with tolerant := true } root t =
        { Program.asked { o with tolerant := false } root t.strict with errors := some [] } := by
      rw [Program.asked, Program.asked, he]
      rfl
    constructor
    · rintro ⟨_, _, ⟨⟩, rfl⟩
      exact ⟨rfl, root, t, rfl, ofParse.symm⟩
    · rintro ⟨hnone, _, _, ⟨⟩, h⟩
      refine ⟨root, t.strict, rfl, ?_⟩
      rw [ofParse] at h
      obtain ⟨_, _, _, _⟩ := p
      obtain rfl : _ = none := hnone
      simp_all [Program.asked, wanted]
  | @told root t _ _ _ he _ =>
    constructor
    · rintro ⟨_, _, ⟨⟩, -⟩
    · rintro ⟨-, _, _, ⟨⟩, h⟩
      have none_told : [] = t.scanner.errors := Option.some.inj (congrArg Program.errors h)
      rw [← none_told] at he
      exact absurd he (Nat.not_lt_zero _)
  | stopped => simp

/-- Tolerant parsing extends strict parsing: a strict parse succeeds just when the tolerant one does without recording
an error, and then they give back the same program but for the errors. -/
theorem tolerance_conservative (source : String) (o : ParseOptions) :
    ((∃ p, parse source { o with tolerant := false } = .ok p) ↔
      ∃ q, parse source { o with tolerant := true } = .ok q ∧ q.errors = some []) ∧
    ∀ p, parse source { o with tolerant := false } = .ok p ↔
      p.errors = none ∧ parse source { o with tolerant := true } = .ok { p with errors := some [] } := by
  refine ⟨⟨fun ⟨p, hp⟩ => ?_, fun ⟨q, hq, he⟩ => ?_⟩, parse_strict_iff source o⟩
  · exact ⟨_, ((parse_strict_iff source o p).1 hp).2, rfl⟩
  · refine ⟨{ q with errors := none }, (parse_strict_iff source o _).2 ⟨rfl, ?_⟩⟩
    rw [hq, ← he]

end EcmaTree
