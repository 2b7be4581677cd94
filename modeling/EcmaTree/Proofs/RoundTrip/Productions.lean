import EcmaTree.Proofs.RoundTrip.Takes

/-!
# Operands, groups and operators

What the productions between a statement and a name take, if what they read is a name, an operator between two operands,
or one of these in parentheses.
-/

namespace EcmaTree

/-- The lexeme ends an expression: a source ends, or a group. -/
inductive Lexeme.EndsExpression : Lexeme → Prop
  | endOfInput : EndsExpression .endOfInput
  | rightParen : EndsExpression (.punctuator .rightParen)

/-- May an operand end before the lexeme? -/
def Lexeme.endsOperand : Lexeme → Bool
  | .endOfInput => true
  | .punctuator p => p == .rightParen || p.binaryOp?.isSome
  | .keyword word => word == "in" || word == "instanceof"
  | _ => false

/-- Does an operand that is a name or a group begin with the lexeme? -/
def Lexeme.beginsOperand : Lexeme → Bool
  | .identifier name => name != "async"
  | .punctuator p => p == .leftParen
  | _ => false

section

variable {l m : Lexeme} {t : Token}

theorem ne_of_endsOperand (h : l.endsOperand = true) (hm : m.endsOperand = false) : l ≠ m := by
  rintro rfl
  simp_all

theorem Lexeme.EndsExpression.endsOperand (h : l.EndsExpression) : l.endsOperand = true := by cases h <;> rfl

theorem ne_of_beginsOperand (h : l.beginsOperand = true) (hm : m.beginsOperand = false) : l ≠ m := by
  rintro rfl
  simp_all

/-- Behind an operand stands neither an update nor an assignment. -/
theorem op?_of_endsOperand (h : t.lexeme.endsOperand = true) : t.updateOp? = none ∧ t.assignOp? = none := by
  obtain ⟨lexeme, raw, span, line, lineStart⟩ := t
  cases lexeme with
  | punctuator p => cases p <;> first | exact ⟨rfl, rfl⟩ | cases h
  | _ => exact ⟨rfl, rfl⟩

/-- An operand begins with neither an update nor another operator. -/
theorem op?_of_beginsOperand (h : t.lexeme.beginsOperand = true) : t.updateOp? = none ∧ t.unaryOp? = none := by
  obtain ⟨lexeme, raw, span, line, lineStart⟩ := t
  cases lexeme with
  | punctuator p => cases p <;> first | exact ⟨rfl, rfl⟩ | cases h
  | identifier => exact ⟨rfl, rfl⟩
  | _ => cases h

end

namespace Precedence

/-- The punctuators of the table that are no operators. -/
def closers : List String := [")", ";", ",", "=", "]"]

/-- With the override these have no strength, and all others of the table have one. -/
def Override.Separates (f : Override) : Prop := ∀ entry ∈ defaults, strength f entry.1 = 0 ↔ entry.1 ∈ closers

instance (f : Override) : Decidable f.Separates :=
  inferInstanceAs (Decidable (∀ entry ∈ defaults, strength f entry.1 = 0 ↔ entry.1 ∈ closers))

theorem Override.Separates.strength_ne_zero {f : Override} (hf : f.Separates) {p : Punctuator} {op : BinaryOp}
    (hp : p.binaryOp? = some op) (hpow : op ≠ .pow) : strength f p.text ≠ 0 := by
  have keys : ∀ p ∈ Punctuator.longestFirst, p.binaryOp?.isSome = true → p ≠ .pow →
      ∃ entry ∈ defaults, entry.1 = p.text ∧ entry.1 ∉ closers := by decide +kernel
  obtain ⟨entry, hentry, htext, hkey⟩ :=
    keys p p.mem_longestFirst (by simp [hp]) (by rintro rfl; cases hp; exact hpow rfl)
  rw [← htext]
  exact mt (hf entry hentry).1 hkey

theorem Override.Separates.strength_rightParen {f : Override} (hf : f.Separates) : strength f ")" = 0 :=
  (hf (")", 0) (by decide)).2 (by decide)

end Precedence

namespace Parse

variable {d : Dialect} {nested : Nested} {ls ls₁ ls₂ : List Lexeme} {l l' m : Lexeme} {P P' : Node →
  Prop} {name : String} {op : BinaryOp}

namespace Takes

theorem checkAsyncFunction (h : l ≠ .identifier "async") :
    Takes d checkAsyncFunction (l :: ls) (l :: ls) (· = false) := by
  refine (checkWord h).bind ?_
  rintro _ rfl
  exact .pure rfl

theorem nameExpression (h : name ≠ "async") :
    Takes d (nameExpression nested) (.identifier name :: m :: ls) (m :: ls) (·.kind = .identifier name) := by
  refine mark.bind fun start _ => ahead.bind fun t ht => context.bind ?_
  rintro _ rfl
  refine (checkAsyncFunction (by simpa using h)).bind ?_
  rintro _ rfl
  refine next.bind fun t ht => ?_
  rw [show name = t.text by rw [Token.text, ht]]
  exact finish

/-! ## Groups -/

theorem closeGroup {e : Node} (hm : m.endsOperand = true) (he : P e) :
    Takes d (closeGroup e) (.punctuator .rightParen :: m :: ls) (m :: ls) P := by
  refine expect.bind fun _ _ => (check (ne_of_endsOperand hm rfl)).bind ?_
  rintro _ rfl
  refine .bind (pure he) fun _ he => .bind (modifyCover fun _ h => h) fun _ _ => pure he

theorem group (hl : l.beginsOperand = true) (hm : m.endsOperand = true)
    (h : Takes d (nested .assignment) (l :: ls) (.punctuator .rightParen :: m :: ls₁) P) :
    Takes d (group nested) (.punctuator .leftParen :: l :: ls) (m :: ls₁) P := by
  refine expect.bind fun _ _ => (accept (ne_of_beginsOperand hl rfl)).bind ?_
  rintro _ rfl
  refine (check (ne_of_beginsOperand hl rfl)).bind ?_
  rintro _ rfl
  refine ahead.bind fun _ _ => .bind (modifyCover fun _ h => h) fun _ _ => (inherit h).bind fun e he =>
    (check (ne_of_endsOperand rfl rfl)).bind ?_
  rintro _ rfl
  exact closeGroup hm he

theorem primary_name (h : name ≠ "async") :
    Takes d (primary nested) (.identifier name :: m :: ls) (m :: ls) (·.kind = .identifier name) := by
  refine ahead.bind fun t ht => get fun s hs => ?_
  obtain ⟨_, raw, span, line, lineStart⟩ := t
  cases ht
  simp only [Token.isPunctuator, Bool.and_false, Bool.false_eq_true, if_false]
  exact nameExpression h

theorem primary_group (h : Takes d (Parse.group nested) (.punctuator .leftParen :: ls) ls₁ P) :
    Takes d (primary nested) (.punctuator .leftParen :: ls) ls₁ P := by
  refine ahead.bind fun t ht => get fun s hs => ?_
  obtain ⟨_, raw, span, line, lineStart⟩ := t
  cases ht
  simp only [Token.isPunctuator, Bool.and_eq_true, reduceCtorEq, and_false, if_false, beq_iff_eq]
  exact .bind (modifyCover fun _ h => h) fun _ _ => inherit h

/-! ## An operand without operators -/

theorem link {start : Place} {c : Chain} (hm : m.endsOperand = true) :
    Takes d (link nested start c false) (m :: ls) (m :: ls) (· = none) := by
  refine ahead.bind fun t ht => ?_
  have not_punctuator {p : Punctuator} (hp : (Lexeme.punctuator p).endsOperand = false) :
      ¬ t.isPunctuator p = true := fun h =>
    ne_of_endsOperand hm hp (ht ▸ Token.isPunctuator_iff.1 h)
  have not_head : ¬ t.isTemplateHead = true := by
    unfold Token.isTemplateHead
    split
    next chunk hchunk => simp [← ht, hchunk, Lexeme.endsOperand] at hm
    · simp
  rw [if_neg (not_punctuator rfl), if_neg not_head, if_neg (by simpa using not_punctuator rfl)]
  exact .pure rfl

theorem chainLinks {first : Token} {c : Chain} (hm : m.endsOperand = true) (hc : c.hasOptional = false)
    (h : P c.expression) :
    Takes d (chainLinks nested first c) (m :: ls) (m :: ls) fun c => c.hasOptional = false ∧ P c.expression := by
  refine loop_done ((accept (ne_of_endsOperand hm rfl)).bind ?_)
  rintro _ rfl
  refine (check (ne_of_endsOperand hm rfl)).bind ?_
  rintro _ rfl
  refine (link hm).bind ?_
  rintro _ rfl
  exact .pure ⟨_, rfl, by simpa [Chain.after] using hc, h⟩

theorem chainFrom {first : Token} (hfirst : first.lexeme = l) (hl : l.beginsOperand = true) (hm : m.endsOperand = true)
    (h : Takes d (primary nested) (l :: ls) (m :: ls₁) P) :
      Takes d (chainFrom nested first) (l :: ls) (m :: ls₁) P := by
  have not_super : first.isKeyword "super" = false :=
    Bool.eq_false_iff.2 fun h => ne_of_beginsOperand hl rfl (hfirst ▸ Token.isKeyword_iff.1 h)
  have head : Takes d (chainHead nested false true) (l :: ls) (m :: ls₁) P := by
    refine context.bind fun _ _ => (checkKeyword (ne_of_beginsOperand hl rfl)).bind ?_
    rintro _ rfl
    exact inherit h
  unfold Parse.chainFrom
  rw [not_super]
  refine head.bind fun base hbase => (check (ne_of_endsOperand hm rfl)).bind ?_
  rintro _ rfl
  refine context.bind fun _ _ => (chainLinks hm rfl hbase).bind ?_
  rintro ⟨e, hasOptional⟩ ⟨rfl, he⟩
  exact pure he

theorem callChain (hl : l.beginsOperand = true) (hm : m.endsOperand = true)
    (h : Takes d (primary nested) (l :: ls) (m :: ls₁) P) : Takes d (callChain nested) (l :: ls) (m :: ls₁) P :=
  ahead.bind fun _ hfirst => withContext rfl (chainFrom hfirst hl hm h)

theorem update (hl : l.beginsOperand = true) (hm : m.endsOperand = true)
    (h : Takes d (primary nested) (l :: ls) (m :: ls₁) P) : Takes d (update nested) (l :: ls) (m :: ls₁) P := by
  refine ahead.bind fun first hfirst => ?_
  rw [(op?_of_beginsOperand (hfirst ▸ hl)).1]
  refine (inherit (callChain hl hm h)).bind fun e he => get fun s hs => ?_
  rw [(op?_of_endsOperand (lexeme_eq hs ▸ hm)).1]
  exact pure he

theorem unary (hl : l.beginsOperand = true) (hm : m.endsOperand = true)
    (h : Takes d (primary nested) (l :: ls) (m :: ls₁) P) : Takes d (unary nested) (l :: ls) (m :: ls₁) P := by
  refine ahead.bind fun first hfirst => ?_
  rw [(op?_of_beginsOperand (hfirst ▸ hl)).2]
  refine context.bind ?_
  rintro _ rfl
  exact update hl hm h

/-! ## Operators -/

/-- The node is a name, or an operator between two operands. -/
def IsOperand (n : Node) : Prop := isUnary n = false ∧ waitingFor? n = none

theorem exponentiation (hpow : m ≠ .punctuator .pow) (hP : ∀ n, P n → IsOperand n)
    (h : Takes d (Parse.unary nested) ls (m :: ls₁) P) : Takes d (exponentiation nested) ls (m :: ls₁) P := by
  refine peek.bind fun _ _ => (inherit h).bind fun left hleft => ?_
  rw [(hP left hleft).1]
  refine (accept hpow).bind ?_
  rintro _ rfl
  exact pure hleft

theorem exponentiation_pow (hP : ∀ n, P n → IsOperand n)
    (left : Takes d (Parse.unary nested) ls (.punctuator .pow :: l' :: ls₁) P)
    (right : Takes d (nested .exponentiation) (l' :: ls₁) ls₂ P') :
    Takes d (Parse.exponentiation nested) ls ls₂ fun n => ∃ a b, n.kind = .binary .pow a b ∧ P a ∧ P' b := by
  refine peek.bind fun _ _ => (inherit left).bind fun a ha => ?_
  rw [(hP a ha).1]
  refine accept_ahead.bind ?_
  rintro _ rfl
  exact nonPattern.bind fun _ _ => (isolate right).bind fun b hb => finish.mono fun n hn => ⟨a, b, hn, ha, hb⟩

/-- Before what ends an operand no operator waits. -/
theorem strengthOf_end {s : ParseState} {t : Token} (hs : s.dialect.strengths.Separates)
    (ht : t.lexeme.EndsExpression) : strengthOf s t = 0 := by
  obtain ⟨lexeme, raw, span, line, lineStart⟩ := t
  cases ht
  · rfl
  · exact hs.strength_rightParen

theorem strengthOf_operator {s : ParseState} {t : Token} (hs : s.dialect.strengths.Separates)
    (hin : s.context.allowIn = true)
    (hop : op ≠ .pow) (ht : t.lexeme = op.lexeme) : strengthOf s t ≠ 0 := by
  unfold strengthOf
  rw [ht]
  rcases op.lexeme_cases with ⟨p, hl, hp⟩ | ⟨hl, rfl | rfl⟩ <;> rw [hl]
  · exact hs.strength_ne_zero hp hop
  · simp [BinaryOp.text, hin, Precedence.relationalKeyword]
  · simp [BinaryOp.text, Precedence.relationalKeyword]

theorem binaryOp?_operator {t : Token} (ht : t.lexeme = op.lexeme) : t.binaryOp? = some op := by
  unfold Token.binaryOp?
  rw [ht]
  rcases op.lexeme_cases with ⟨p, hl, hp⟩ | ⟨hl, rfl | rfl⟩ <;> rw [hl]
  · exact hp
  · rfl
  · rfl

theorem binary (hd : d.strengths.Separates) (hm : m.EndsExpression)
    (h : Takes d (Parse.exponentiation nested) ls (m :: ls₁) P) : Takes d (binary nested) ls (m :: ls₁) P := by
  refine peek.bind fun first _ => (inherit h).bind fun operand hoperand => ?_
  refine .bind (r := m :: ls₁) (loop_done (R := fun r => r.1 = [] ∧ P r.2.1) (get fun s hs => ?_)) ?_
  · have strength := strengthOf_end (hs.dialect ▸ hd) (lexeme_eq hs ▸ hm)
    simp only [strength, if_true]
    exact pure ⟨_, rfl, rfl, hoperand⟩
  · rintro ⟨stack, right, last, mix⟩ ⟨rfl, hright⟩
    exact pure hright

/-- What the loop has read when one operator waits for its right operand. -/
structure Waits (op : BinaryOp) (P P' : Node → Prop) (r : List Pending × Node × Token × LogicalMix) : Prop where
  stack : ∃ p, r.1 = [p] ∧ p.operator.binaryOp? = some op ∧ P p.left
  right : P' r.2.1

theorem binary_operator (hd : d.strengths.Separates) (hm : m.EndsExpression) (hop : op ≠ .pow)
    (left : Takes d (Parse.exponentiation nested) ls (op.lexeme :: l' :: ls₁) P)
    (right : Takes d (Parse.exponentiation nested) (l' :: ls₁) (m :: ls₂) P') :
    Takes d (Parse.binary nested) ls (m :: ls₂) fun n => ∃ a b, n.kind = .binary op a b ∧ P a ∧ P' b := by
  refine peek.bind fun first _ => (inherit left).bind fun operand hoperand => ?_
  refine .bind (r := m :: ls₂) (loop_more (r := m :: ls₂) (R := Waits op P P') (S := Waits op P P')
    (get fun s hs => ?_) ?_) ?_
  · -- The first round: nothing is on the stack, so nothing is joined and the operator waits.
    have strength := strengthOf_operator (hs.dialect ▸ hd) (by rw [hs.context]; rfl) hop (lexeme_eq hs)
    have operator := binaryOp?_operator (lexeme_eq hs)
    have allowed : LogicalMix.allows {} s.lookahead = true := by
      rw [LogicalMix.allows, operator]
      cases op <;> rfl
    rw [if_neg strength, if_pos allowed]
    refine .bind (P := (· = ([], operand, first))) (pure rfl) ?_
    rintro _ rfl
    refine skip.bind fun _ _ => nonPattern.bind fun _ _ => ahead.bind fun rightFirst _ =>
      (isolate right).bind fun b hb => ?_
    exact pure ⟨_, rfl, ⟨_, rfl, operator, hoperand⟩, hb⟩
  · -- The second round finds no operator.
    rintro ⟨stack, right, last, mix⟩ hwaits
    refine get fun s hs => ?_
    have strength := strengthOf_end (hs.dialect ▸ hd) (lexeme_eq hs ▸ hm)
    simp only [strength, if_true]
    exact pure ⟨_, rfl, hwaits⟩
  · rintro ⟨stack, right, last, mix⟩ ⟨⟨p, rfl, hp, hleft⟩, hright⟩
    refine .bind (P := fun n => ∃ a b, n.kind = .binary op a b ∧ P a ∧ P' b) ?_ fun n hn => pure hn
    unfold joinOperands
    rw [hp]
    exact finish.mono fun n hn => ⟨_, _, hn, hleft, hright⟩

/-- Two operands and any operator between them. The right operand of `**` is read one level deeper. -/
theorem operator (hd : d.strengths.Separates) (hm : m.EndsExpression) (hP : ∀ n, P n → IsOperand n)
    (hP' : ∀ n, P' n → IsOperand n)
    (left : Takes d (Parse.unary nested) ls (op.lexeme :: l' :: ls₁) P)
    (right : Takes d (Parse.unary nested) (l' :: ls₁) (m :: ls₂) P')
    (power : Takes d (nested .exponentiation) (l' :: ls₁) (m :: ls₂) P') :
    Takes d (Parse.binary nested) ls (m :: ls₂) fun n => ∃ a b, n.kind = .binary op a b ∧ P a ∧ P' b := by
  by_cases hop : op = .pow
  · subst hop
    exact binary hd hm (exponentiation_pow hP left power)
  · have not_pow : op.lexeme ≠ .punctuator .pow := by
      cases op <;> first | exact absurd rfl hop | exact nofun
    refine binary_operator hd hm hop (exponentiation not_pow hP left) (exponentiation ?_ hP' right)
    rintro rfl
    cases hm

theorem conditional (hm : m.EndsExpression) (h : Takes d (Parse.binary nested) ls (m :: ls₁) P) :
    Takes d (conditional nested) ls (m :: ls₁) P := by
  refine peek.bind fun _ _ => (inherit h).bind fun e he => (accept (ne_of_endsOperand hm.endsOperand rfl)).bind ?_
  rintro _ rfl
  exact pure he

theorem assignment (hl : l.beginsOperand = true) (hm : m.EndsExpression) (hP : ∀ n, P n → IsOperand n)
    (h : Takes d (Parse.binary nested) (l :: ls) (m :: ls₁) P) :
      Takes d (assignment nested) (l :: ls) (m :: ls₁) P := by
  refine ahead.bind fun first hfirst => context.bind ?_
  rintro _ rfl
  have not_async : first.isIdentifierNamed "async" = false :=
    Bool.eq_false_iff.2 fun h => ne_of_beginsOperand hl rfl (hfirst ▸ Token.isIdentifierNamed_iff.1 h)
  refine (conditional hm h).bind fun e he => .bind (r := m :: ls₁) (P := P) (ahead.bind fun t _ => ?_) fun e he => ?_
  · rw [not_async]
    exact pure he
  · simp only [(hP e he).2]
    refine (check (ne_of_endsOperand hm.endsOperand rfl)).bind ?_
    rintro _ rfl
    refine ahead.bind fun t ht => ?_
    rw [(op?_of_endsOperand (ht ▸ hm.endsOperand)).2]
    exact pure he

/-! ## Statements and programs -/

theorem expression (h : Takes d (nested .assignment) (l :: ls) [.endOfInput] P) :
    Takes d (expression nested) (l :: ls) [.endOfInput] P := by
  refine ahead.bind fun first _ => .bind (r := [.endOfInput]) (P := fun es => ∃ e, es = [e] ∧ P e) ?_ ?_
  · refine (isolate h).bind fun e he =>
      .bind (r := [.endOfInput]) (loop_done (R := (· = [])) ((accept (ne_of_endsOperand rfl rfl)).bind ?_)) ?_
    · rintro _ rfl
      exact pure ⟨_, rfl, rfl⟩
    · rintro _ rfl
      exact pure ⟨e, rfl, he⟩
  · rintro _ ⟨e, rfl, he⟩
    exact pure he

theorem endStatement : Takes d endStatement [.endOfInput] [.endOfInput] fun _ => True := by
  refine get fun s hs => ?_
  simp only [Token.isPunctuator, Token.isEnd, lexeme_eq hs]
  rw [if_neg (by decide)]
  split
  · exact pure trivial
  · exact modifying fun t ht => ht.withLast _

/-- The statement is an expression that satisfies `P`. -/
def States (P : Node → Prop) (n : Node) : Prop := ∃ e, n.kind = .expressionStatement e none ∧ P e

theorem expressionStatement (h : Takes d (nested .assignment) (l :: ls) [.endOfInput] P) :
    Takes d (expressionStatement nested) (l :: ls) [.endOfInput] (States P) :=
  mark.bind fun _ _ => (expression h).bind fun e he => endStatement.bind fun _ _ => finish.mono fun _ hn => ⟨e, hn, he⟩

theorem labeledStatement (h : Takes d (nested .assignment) (l :: ls) [.endOfInput] P) :
    Takes d (labeledStatement nested) (l :: ls) [.endOfInput] (States P) := by
  refine mark.bind fun _ _ => (expression h).bind fun e he => (check (ne_of_endsOperand rfl rfl)).bind ?_
  rintro _ rfl
  have unlabeled : (e.identifierName?.filter fun _ => false) = none := by cases e.identifierName? <;> rfl
  simp only [unlabeled]
  exact endStatement.bind fun _ _ => finish.mono fun _ hn => ⟨e, hn, he⟩

theorem statement (hl : l.beginsOperand = true) (h : Takes d (nested .assignment) (l :: ls) [.endOfInput] P) :
    Takes d (statement nested) (l :: ls) [.endOfInput] (States P) := by
  refine ahead.bind fun t ht => ?_
  rw [ht]
  cases l with
  | identifier name =>
    refine (checkAsyncFunction (ne_of_beginsOperand hl rfl)).bind ?_
    rintro _ rfl
    exact labeledStatement h
  | punctuator p =>
    cases p <;> first | exact expressionStatement h | cases hl
  | _ => cases hl

theorem listItem (hl : l.beginsOperand = true) (h : Takes d (nested .assignment) (l :: ls) [.endOfInput] P) :
    Takes d (listItem nested) (l :: ls) [.endOfInput] (States P) := by
  refine .bind (modifyCover fun _ h => h) fun _ _ => ahead.bind fun t ht => ?_
  rw [ht]
  cases l with
  | identifier | punctuator => exact statement hl h
  | _ => cases hl

theorem prologue (hl : l.beginsOperand = true) : Takes d (prologue nested) (l :: ls) (l :: ls) (· = []) := by
  refine .bind (r := l :: ls) (loop_done (R := fun r => r.1 = []) (ahead.bind fun t ht => ?_)) ?_
  · have not_string : t.isString = false := by
      unfold Token.isString
      rw [ht]
      cases l <;> first | rfl | cases hl
    rw [not_string]
    exact pure ⟨_, rfl, rfl⟩
  · rintro ⟨statements, legacy⟩ rfl
    exact pure rfl

theorem statements (hl : l.beginsOperand = true) (h : Takes d (nested .listItem) (l :: ls) [.endOfInput] P) :
    Takes d (manyBefore atEnd (nested .listItem)) (l :: ls) [.endOfInput] fun ns => ∃ n, ns = [n] ∧ P n := by
  have notAtEnd : Takes d atEnd (l :: ls) (l :: ls) (· = false) := ahead.bind fun t ht => pure <| by
    unfold Token.isEnd
    rw [ht]
    cases l <;> first | rfl | cases hl
  have atEnd : Takes d atEnd [.endOfInput] [.endOfInput] (· = true) := ahead.bind fun t ht => pure <| by
    rw [Token.isEnd, ht]
  refine .bind (r := [.endOfInput]) (loop_more (r := [.endOfInput]) (R := fun ns => ∃ n, ns = [n] ∧ P n)
    (S := fun ns => ∃ n, ns = [n] ∧ P n) (notAtEnd.bind ?_) ?_) ?_
  · rintro _ rfl
    exact h.bind fun n hn => pure ⟨_, rfl, n, rfl, hn⟩
  · rintro ns hns
    refine atEnd.bind ?_
    rintro _ rfl
    exact pure ⟨ns, rfl, hns⟩
  · rintro _ ⟨n, rfl, hn⟩
    exact pure ⟨n, rfl, hn⟩

theorem program (hl : l.beginsOperand = true) (h : Takes d (nested .listItem) (l :: ls) [.endOfInput] P) :
    Takes d (program nested) (.endOfInput :: l :: ls) [.endOfInput] fun root => ∃ n,
      root.kind = .program .script [n] ∧ P n := by
  refine .bind (r := l :: ls) (P := fun _ => True) (skip.bind fun _ _ => modifying fun t ht => ht.withLast _)
    fun _ _ => ?_
  refine mark.bind fun _ _ => (prologue hl).bind ?_
  rintro _ rfl
  refine (statements hl h).bind ?_
  rintro _ ⟨n, rfl, hn⟩
  refine context.bind ?_
  rintro _ rfl
  exact finish.mono fun root hroot => ⟨n, hroot, hn⟩

end Takes

/-- Nothing has been read of the text. -/
theorem ahead_initial {text : String} (hd : d.goal = .script) (h : Spells text.toList ls) :
    (ParseState.initial text d).Ahead d (.endOfInput :: ls) where
  dialect := rfl
  bound := Nat.le_add_left 2 _
  context := by simp [ParseState.initial, hd, Context.script]
  pending := rfl
  goal := hd
  lookahead := rfl
  spells := h

end Parse

end EcmaTree
