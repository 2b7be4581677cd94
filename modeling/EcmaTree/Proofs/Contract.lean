import EcmaTree.Proofs.Advance
import EcmaTree.Proofs.Tree

/-!
# What every production keeps

A `Contract` is a judgement with relations between the states of a parse, closed under everything that the
productions do to the state. It says of a state whether a parse may stand there (`Stands`), of two states what has
happened between them (`Steps`, `Read`, `Later`), and of a node read since a state, its base, whether it is good
there. From these rules the modules below `EcmaTree.Proofs.Grammar` prove once, for every contract, that each
production leads from a state where a parse stands to another one and gives back good nodes.

Inside an element of JSX no token is read ahead. There the relations look at the state as if the lookahead had been
given back (`ParseState.unread`), so that one rule serves both.
-/

namespace EcmaTree

namespace ParseState

/-- The state with nothing read ahead. -/
def unread (s : ParseState) : ParseState :=
  { s with
    start := s.scanner.cursor
    lookahead := Scan.tokenBetween s.scanner.cursor s.scanner.cursor .endOfInput }

/-- The state as the relations of a contract look at it. -/
def view (s : ParseState) : Mode → ParseState
  | .ahead => s
  | .entering | .inside => s.unread

@[simp] theorem view_ahead (s : ParseState) : s.view .ahead = s := rfl

@[simp] theorem view_entering (s : ParseState) : s.view .entering = s.unread := rfl

@[simp] theorem view_inside (s : ParseState) : s.view .inside = s.unread := rfl

/-- Is the arrow of a function the lookahead? -/
def arrowAhead (s : ParseState) : Prop := s.lookahead.isPunctuator .arrow = true

/-- A node that begins at `place` begins with the lookahead. Its line may be counted from any start. -/
def Marks (s : ParseState) (place : Place) : Prop :=
  place = s.start.place ∨ ∃ lineAbove, place = s.lookahead.placeAfter lineAbove

theorem Rests.view {s t : ParseState} (h : s.Rests t) (m : Mode) : (s.view m).Rests (t.view m) := by
  obtain ⟨context, labels, cover, regions, errors, rfl, he⟩ := h
  cases m <;> exact ⟨context, labels, cover, regions, errors, rfl, he⟩

end ParseState

namespace ParseState

/-- No trivia stands at the scanner. -/
def Clear (s : ParseState) : Prop := s.trivia.cursor = s.scanner.cursor

/-- Behind trivia no trivia stands. -/
theorem Skips.clear {s t : ParseState} (h : s.Skips t) : t.Clear := by
  obtain ⟨_, _, _, rfl⟩ := h
  have again : Trivia.skip s.scanner.keepsComments s.isScript s.trivia.cursor = ⟨[], s.trivia.cursor, false⟩ :=
    Trivia.skip_skip rfl rfl
  show (Trivia.skip s.scanner.keepsComments s.isScript s.trivia.cursor).cursor = s.trivia.cursor
  rw [again]

end ParseState

/-- The leaf is one that the token alone makes up. A `var` may be called `let`, however that is written. -/
inductive Token.Spells (t : Token) : Leaf → Prop
  | literal : Spells t (.literal t.raw)
  | word : t.isName = true ∨ t.text = "let" → Spells t (.word t.text)
  | chunk {chunk : TemplateChunk} : t.lexeme = .template chunk → Spells t (.chunk chunk.raw chunk.isTail)
  | tagName {name : String} : t.lexeme = .jsxIdentifier name → Spells t (.tagName name)

/-- May the token stand in a tag of JSX? -/
def Token.mayTag (t : Token) : Bool := !t.isEnd && !t.isTemplate && !t.isPunctuator .rightParen

open Parse in
/-- A judgement with relations that all productions keep. -/
structure Contract extends Judgement where
  [loose : toJudgement.Loose]
  /-- A parse may stand in the state. -/
  Stands : Mode → ParseState → Prop
  /-- The parse has moved on, perhaps over nothing. -/
  Steps : ParseState → ParseState → Prop
  /-- The parse has consumed something; if an arrow was ahead, an error tells. -/
  Read : ParseState → ParseState → Prop
  /-- The parse has moved on, perhaps over the arrow of a function. -/
  Later : ParseState → ParseState → Prop
  /-- A node read since the first state is good in the second one. -/
  Good : ParseState → Node → ParseState → Prop
  /-- The node is good whatever comes next. -/
  Firm : ParseState → Node → ParseState → Prop
  /-- The token is the last one consumed. -/
  Past : Token → ParseState → Prop
  /-- What has been consumed since the first state is what the leaf says, or begins with the word that it says. -/
  Tells : ParseState → Leaf → ParseState → Prop
  /-- Parameters may wait here for an arrow that is not ahead. -/
  Escapes : ParseState → Prop
  /-- Nothing has been read. -/
  Initial : ParseState → Prop
  /-- Only the first token has been read. -/
  Opened : ParseState → Prop

  -- The relations.
  steps_trans {r s t : ParseState} : Steps r s → Steps s t → Steps r t
  steps_of_rests {s t : ParseState} : s.Rests t → Steps s t
  steps_of_read {s t : ParseState} : Read s t → Steps s t
  read_of_steps {r s t : ParseState} : Steps r s → Read s t → Read r t
  read_later {r s t : ParseState} : Read r s → Later s t → Read r t
  later_of_steps {s t : ParseState} : Steps s t → Later s t
  stands_of_rests {m : Mode} {s t : ParseState} : s.Rests t → Stands m s → Stands m t
  entering_of_inside {s : ParseState} : Stands .inside s → Stands .entering s

  -- Nodes.
  good_steps {s t u : ParseState} {n : Node} : Good s n t → Steps t u → Good s n u
  good_from {r s t : ParseState} {n : Node} : Steps r s → Good s n t → Good r n t
  firm_later {s t u : ParseState} {n : Node} : Firm s n t → Later t u → Firm s n u
  firm_from {r s t : ParseState} {n : Node} : Steps r s → Firm s n t → Firm r n t
  good_of_firm {s t : ParseState} {n : Node} : Firm s n t → Good s n t
  firm_of_read {s t u : ParseState} {n : Node} : Good s n t → Read t u → Firm s n u
  firm_of_not_arrow {s t : ParseState} {n : Node} : Good s n t → ¬ t.arrowAhead → Firm s n t
  firm_of_identifier {s t : ParseState} {n : Node} : Good s n t → n.isIdentifier = true → Firm s n t
  firm_toPattern {s t : ParseState} {n : Node} : Firm s n t → Firm s n.toPattern t
  firm_child {s t : ParseState} {n c : Node} : Firm s n t → c ∈ n.children → Firm s c t
  firm_parameter {s t : ParseState} {n : Node} {params : List Node} {async : Bool} : Good s n t →
    n.kind = .arrowParameters params async → ∀ p ∈ params, Firm s p t
  /-- A default value `yield` becomes the name. -/
  firm_yield {s t : ParseState} {n left right : Node} {d : Bool} : Firm s n t →
    n.kind = .assignmentPattern left right → right.kind = .yield none d →
    Firm s (n.withKind (.assignmentPattern left (right.withKind (.identifier "yield")))) t
  good_placeholder {s t : ParseState} {params : List Node} (async : Bool) :
    t.arrowAhead → (∀ n ∈ params, Firm s n t) → Good s (placeholder params async) t
  good_escaped {s t : ParseState} {params : List Node} :
    Escapes t → params ≠ [] → (∀ n ∈ params, Firm s n t) → Good s (placeholder params false) t
  tells_of_rests {r s t u : ParseState} {leaf : Leaf} : r.Rests s → Tells s leaf t → t.Rests u → Tells r leaf u
  tells_steps {s t u : ParseState} {name : String} : Tells s (.word name) t → Steps t u → Tells s (.word name) u

  -- What consumes tokens, and what finishes nodes.
  ofNext {s : ParseState} : Stands .ahead s → Ensures next s fun c t =>
    c = s.lookahead ∧ Stands .ahead t ∧ Later s t ∧ (¬ s.arrowAhead → Read s t) ∧ Past c t ∧
      ∀ leaf, c.Spells leaf → Tells s leaf t
  /-- A parenthesis that closes a list behind a comma. -/
  ofClose {c : Token} {s : ParseState} : Stands .ahead s → Past c s → c.isPunctuator .comma = true →
    s.lookahead.isPunctuator .rightParen = true →
    Ensures skip s fun _ t => Stands .ahead t ∧ Read s t ∧ Escapes t
  ofRegex {s : ParseState} : Stands .ahead s →
    (s.lookahead.isPunctuator .slash || s.lookahead.isPunctuator .divAssign) = true →
    Ensures regex s fun c t => Stands .ahead t ∧ Read s t ∧ Tells s (.literal c.raw) t
  /-- A statement that ends where a semicolon may be left out ends where the next token begins. -/
  ofTrail {s : ParseState} : Stands .ahead s →
    Ensures (modify fun s => { s with last := s.start.place }) s fun _ t => Stands .ahead t ∧ Steps s t
  ofFinish {m : Mode} {base s : ParseState} {start : Place} {kind : Kind Node} : Stands m s →
    Read base (s.view m) → base.Marks start → kind.isPlaceholder = false →
    (∀ n ∈ kind.children, Good base n (s.view m)) → (∀ leaf ∈ kind.leaf?, Tells base leaf (s.view m)) →
    Ensures (finish start kind) s fun n t => Stands m t ∧ t.lookahead = s.lookahead ∧
      Steps (s.view m) (t.view m) ∧ Read base (t.view m) ∧ n.kind = kind ∧ Good base n (t.view m) ∧
      ((∀ n ∈ kind.children, Firm base n (s.view m)) → Firm base n (t.view m))

  -- What tolerant mode does otherwise.
  ofSeparator {s : ParseState} : Stands .ahead s →
    Ensures expectSeparator s fun _ t => Stands .ahead t ∧ Steps s t
  ofEndDoWhile {s : ParseState} : Stands .ahead s →
    Ensures endDoWhile s fun _ t => Stands .ahead t ∧ Read s t
  ofMissingParen {β : Type} {s : ParseState} {f : Option Node → Parse β} {Q : β → ParseState → Prop} :
    Stands .ahead s → (∃ rest, f none = expect .rightParen >>= rest) → Ensures (f none) s Q →
    (∀ n t, Stands .ahead t → Read s t → Good s n t → Ensures (f (some n)) t Q) →
    Ensures (missingParen >>= f) s Q

  -- JSX.
  ofStartJsx {s : ParseState} : Stands .ahead s → s.dialect.jsx = true →
    s.lookahead.isPunctuator .lt = true →
    Ensures startJsx s fun _ t => Stands .entering t ∧ Steps s t.unread
  ofSkipTrivia {m : Mode} {s : ParseState} : m ≠ .ahead → Stands m s →
    Ensures skipTrivia s fun _ t => Stands m t ∧ Steps s.unread t.unread ∧ t.Clear
  ofNextJsx {s : ParseState} : Stands .entering s → Ensures nextJsx s fun c t => c.mayTag = true →
    Stands .inside t ∧ Read s.unread t.unread ∧ (s.Clear → ∀ leaf, c.Spells leaf → Tells s.unread leaf t.unread)
  ofNextJsxText {s : ParseState} : Stands .inside s → Ensures nextJsxText s fun c t =>
    Stands .inside t ∧ Read s.unread t.unread ∧ Tells s.unread (.text c.text c.raw) t.unread
  ofEmptyExpression {s : ParseState} : Stands .inside s → Ensures jsxEmptyExpression s fun n t =>
    Stands .inside t ∧ Read s.unread t.unread ∧ Good s.unread n t.unread
  /-- The first ordinary token behind tokens of JSX. -/
  ofSkipInside {s : ParseState} : Stands .inside s →
    Ensures skip s fun _ t => Stands .ahead t ∧ Read s.unread t
  ofReenterJsx {r s : ParseState} : Stands .entering r → Steps r.unread s → Stands .ahead s →
    Ensures reenterJsx s fun _ t => Stands .inside t ∧ Read s t.unread

  -- The whole program.
  ofOpening {s : ParseState} : Initial s → Ensures opening s fun _ t => Stands .ahead t ∧ Opened t
  read_of_end {s t : ParseState} : Opened s → Steps s t → Stands .ahead t → t.lookahead.isEnd = true →
    Read s t

attribute [instance] Contract.loose

end EcmaTree
