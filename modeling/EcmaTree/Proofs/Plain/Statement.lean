import EcmaTree.Grammar.Statement
import EcmaTree.Proofs.Plain.Expression

/-!
# Statements without JSX

A statement ends with a token of its own, with a semicolon, or where one may be left out: never before a `<` on its
line.
-/

namespace EcmaTree.Parse

variable {I : Invariant} {free : Bool} {nested : Nested} {s : ParseState}

section
variable (hn : Tame I nested)
include hn

/-! ## Declarations -/

omit hn in
theorem checkBound_quiet (target : Node) : Quiet (checkBound target) :=
  .bind .isStrict fun _ => .ite (.of_stops .tolerateHere) (.pure _)

theorem initializer_goes : Goes I true (initializer nested) :=
  .bind (.expect _) fun _ => .last hn.assignment.goes.isolate fun _ => .pure _

theorem varBinding_goes (inHead : Bool) : Goes I true (varBinding nested inHead) := by
  refine .quiet .mark fun _ => .bind (pattern_proceeds hn _).goes fun (_, _) => .quiet (checkBound_quiet _)
    fun _ => .quiet (.check _) fun _ => ?_
  exact .ite (.last (initializer_goes hn) fun _ => .finish _ _) (.bind (.pure _) fun _ => .of_quiet (.finish _ _))

theorem constInitializer_goes : Goes I true (constInitializer nested) :=
  .quiet .ahead fun _ => .ite (.pure _) (.ite (initializer_goes hn) (.of_stops .failHere))

theorem lexicalBinding_goes (kind : VariableKind) (inHead : Bool) :
    Goes I true (lexicalBinding nested kind inHead) := by
  refine .quiet .mark fun _ => .bind (pattern_proceeds hn _).goes fun (_, _) => .quiet (checkBound_quiet _)
    fun _ => .quiet (.check _) fun _ => ?_
  refine .ite (.last (constInitializer_goes hn) fun _ => .finish _ _)
    (.ite (.last (initializer_goes hn) fun _ => .finish _ _) ?_)
  exact .bind (.pure _) fun _ => .of_quiet (.finish _ _)

theorem bindings_goes (kind : VariableKind) (inHead : Bool) : Goes I true (bindings nested kind inHead) :=
  .commaSeparated (.ite (varBinding_goes hn _) (lexicalBinding_goes hn _ _))

theorem varStatement_goes : Goes I free (varStatement nested) := by
  refine .quiet .mark fun _ => .bind (.expectKeyword _) fun _ => .bindFree (bindings_goes hn _ _) (fun _ => ?_)
    fun _ => .first .endStatement
  exact .bind .endStatement fun _ => .of_quiet (.finish _ _)

omit hn in
theorem declarationWord_goes : Goes I free declarationWord := .bind .next fun t => by
  split
  · exact .pure _
  · exact .of_stops .failAt

theorem lexicalDeclaration_goes : Goes I free (lexicalDeclaration nested) := by
  refine .quiet .mark fun _ => .bind declarationWord_goes fun _ =>
    .bindFree (bindings_goes hn _ _) (fun _ => ?_) fun _ => .first .endStatement
  exact .bind .endStatement fun _ => .of_quiet (.finish _ _)

omit hn in
theorem checkLet_quiet : Quiet checkLet := .bind .second fun _ => .pure _

/-! ## Loops -/

omit hn in
theorem missingParen_goes : Goes I free missingParen := .get (fun _ => rfl) fun _ => .ite (.pure _)
  (.bind .passOver fun _ => .of_quiet (.bind .mark fun _ => .bind (.finish _ _) fun _ => .pure _))

omit hn in
theorem missingParen_halts {β : Type} {f : Option Node → Parse β} (h : Halts free (f none)) :
    Halts free (missingParen >>= f) := by
  intro s hs a t ha
  have run : missingParen s = .ok none s := by
    have strict : (s.lookahead.isPunctuator .rightParen || !s.dialect.tolerant) = true :=
      by rw [hs.plain.strict, Bool.not_false, Bool.or_true]
    rw [missingParen, get_bind, if_pos strict]
    rfl
  rw [bind_of_ok run] at ha
  exact h s hs a t ha

omit hn in
theorem bodyAfterParen_goes {body : Parse Node} (hbody : Goes I free body) : Goes I free (bodyAfterParen body) :=
  .bind missingParen_goes fun
    | some _ => .pure _
    | none => .bind (.expect _) fun _ => hbody

omit hn in
theorem bodyAfterParen_halts (body : Parse Node) : Halts free (bodyAfterParen body) :=
  missingParen_halts (.first .expect)

omit hn in
theorem checkLoopBody_quiet : Quiet checkLoopBody := .bind .ahead fun _ => .ite (.of_stops .tolerateHere) (.pure _)

omit hn in
theorem endDoWhile_goes : Goes I free endDoWhile := by
  have ordinary : Goes I free (do expect .rightParen; discard (accept .semicolon)) := by
    refine .bind (.expect _) fun _ => ?_
    rw [discard_eq]
    exact .bind (.accept _) fun _ => .pure _
  exact .quiet (.check _) fun _ => .get (fun _ => rfl) fun _ => .ite .passOver ordinary

omit hn in
theorem endDoWhile_halts : Halts free endDoWhile := .quiet (.check _) fun _ => .get fun s hs => by
  rw [hs.plain.strict, Bool.and_false]
  exact .first .expect

theorem doWhileStatement_goes : Goes I free (doWhileStatement nested) := by
  refine .quiet .mark fun _ => .bind (.expectKeyword _) fun _ => .quiet checkLoopBody_quiet fun _ =>
    .bind (.withContext hn.statement.goes) fun _ => ?_
  refine .bind (.expectKeyword _) fun _ => .bind (.expect _) fun _ =>
    .bindFree (expression_proceeds hn).goes (fun _ => ?_) fun _ => .first endDoWhile_halts
  exact .bind endDoWhile_goes fun _ => .of_quiet (.finish _ _)

theorem whileStatement_goes : Goes I free (whileStatement nested) := by
  refine .quiet .mark fun _ => .bind (.expectKeyword _) fun _ => .bind (.expect _) fun _ =>
    .bindFree (expression_proceeds hn).goes (fun _ => ?_) fun _ =>
    .first (bodyAfterParen_halts _)
  exact .bind (bodyAfterParen_goes (.withContext hn.statement.goes)) fun _ => .of_quiet (.finish _ _)

theorem headSteps_goes (init : Option Node) : Goes I true (headSteps nested init) := by
  have step (test : Option Node) : Goes I true (do
      expect .semicolon
      let step ← if ← check .rightParen then pure none else pure (some (← isolate (expression nested)))
      return ForHead.steps init test step) := by
    refine .bind (.expect _) fun _ => .quiet (.check _) fun _ => .ite (.bind (.pure _) fun _ => .pure _) ?_
    exact .last (expression_proceeds hn).goes.isolate fun _ => .bind (.pure _) fun _ => .pure _
  refine .quiet (.check _) fun _ => .ite (.bind (.pure _) fun _ => step _) ?_
  exact .bindFree (expression_proceeds hn).goes.isolate (fun _ => .bind (.pure _) fun _ => step _) fun _ =>
    .bind (.pure _) fun _ => .first .expect

theorem headKeys_goes (left : Node) : Goes I true (headKeys nested left) :=
  .bind .skip fun _ => .last (expression_proceeds hn).goes fun _ => .pure _

theorem headValues_goes (left : Node) : Goes I true (headValues nested left) :=
  .bind .skip fun _ => .last hn.assignment.goes fun _ => .pure _

omit hn in
theorem checkLoopTarget_quiet (target : Node) (cause : Cause) : Quiet (checkLoopTarget target cause) :=
  .get (fun _ => rfl) fun _ => .ite (.of_stops .tolerateHere) (.pure _)

theorem varHead_goes (isAwait : Bool) : Goes I true (varHead nested isAwait) := by
  refine .quiet .mark fun start => .bind .skip fun _ =>
    .bindFree (.withContext (bindings_goes hn _ _)) (fun declarations => ?_) fun declarations => ?_
  · have steps : Goes I true (do
        let init ← finish start (.variableDeclaration .var declarations)
        expect .semicolon
        headSteps nested (some init)) := .quiet (.finish _ _) fun _ => .bind (.expect _) fun _ => headSteps_goes hn _
    refine .quiet .ahead fun t => ?_
    cases onlyBinding? declarations with
    | none => exact steps
    | some binding =>
      have keys : Goes I true (do headKeys nested (← finish start (.variableDeclaration .var declarations))) :=
        .quiet (.finish _ _) fun _ => headKeys_goes hn _
      refine .ite (.quiet .isStrict fun _ => .guard .tolerateHere keys) (.ite ?_ steps)
      exact .quiet (.finish _ _) fun _ => headValues_goes hn _
  · have steps : Halts true (do
        let init ← finish start (.variableDeclaration .var declarations)
        expect .semicolon
        headSteps nested (some init)) := .quiet (.finish _ _) fun _ => .first .expect
    refine .ahead fun t ht => ?_
    cases onlyBinding? declarations with
    | none => exact steps
    | some binding =>
      simp only [Token.isKeyword, Token.isIdentifierNamed, ht, Bool.and_false]
      exact steps

theorem lexicalHead_goes : Goes I true (lexicalHead nested) := by
  refine .quiet .mark fun start => .bind declarationWord_goes fun kind => .quiet .isStrict fun _ =>
    .quiet .ahead fun _ => .ite ?_ ?_
  · exact .quiet (.finish _ _) fun _ => headKeys_goes hn _
  refine .bindFree (.withContext (bindings_goes hn _ _)) (fun declarations => .quiet .ahead fun t => ?_)
    fun declarations => .ahead fun t ht => ?_
  · refine .ite ?_ (.ite ?_ (.bind .endStatement fun _ => .quiet (.finish _ _) fun _ => headSteps_goes hn _))
    · exact .quiet (.finish _ _) fun _ => headKeys_goes hn _
    · exact .quiet (.finish _ _) fun _ => headValues_goes hn _
  · simp only [Token.isKeyword, Token.isIdentifierNamed, ht, Bool.and_false]
    exact .first .endStatement

theorem headExpressions_goes (first : Token) (init : Node) : Goes I true (headExpressions nested first init) := by
  refine .quiet (.check _) fun _ => .ite ?_ (.pure _)
  refine .last (.loopFree (fun _ => ?_) (fun _ => .accept (.pure _)) _) fun _ => .finish _ _
  exact .bind (.accept _) fun _ => .ite (.last hn.assignment.goes.isolate fun _ => .pure _) (.pure _)

omit hn in
theorem headExpressions_halts (first : Token) (init : Node) : Halts true (headExpressions nested first init) :=
  .check (.pure _)

theorem expressionHead_goes : Goes I true (expressionHead nested) := by
  refine .quiet .ahead fun first => .get (fun _ => rfl) fun s =>
    .bindFree (.withContext hn.assignment.goes.inherit) (fun init => ?_) fun init => ?_
  · refine .quiet .ahead fun t => .ite ?_ (.ite ?_ (.quiet (.modifyCover _) fun _ => ?_))
    · exact .quiet (checkLoopTarget_quiet _ _) fun _ => headKeys_goes hn _
    · exact .quiet (checkLoopTarget_quiet _ _) fun _ => headValues_goes hn _
    · exact .bindFree (headExpressions_goes hn _ _) (fun _ => .bind (.expect _) fun _ => headSteps_goes hn _)
        fun _ => .first .expect
  · refine .ahead fun t ht => ?_
    simp only [Token.isKeyword, Token.isIdentifierNamed, ht]
    exact .quiet (.modifyCover _) fun _ => .bind (headExpressions_halts _ _) fun _ => .first .expect

theorem forHead_goes (isAwait : Bool) : Goes I true (forHead nested isAwait) := by
  refine .bind (.accept _) fun _ =>
    .ite (headSteps_goes hn _) (.quiet (.checkKeyword _) fun _ => .ite (varHead_goes hn _) ?_)
  exact .quiet (.checkKeyword _) fun _ => .quiet (.checkKeyword _) fun _ =>
    .ite (lexicalHead_goes hn) (expressionHead_goes hn)

omit hn in
theorem forAwait_goes : Goes I free forAwait := by
  have word : Goes I free (do skip; return true) := .bind .skip fun _ => .pure _
  exact .quiet .ahead fun _ => .ite (.quiet .context fun _ => .guardUnless .tolerateAt word) (.pure _)

theorem forStatement_goes : Goes I free (forStatement nested) := by
  refine .quiet .mark fun _ => .bind (.expectKeyword _) fun _ => .bind forAwait_goes fun _ =>
    .bind (.expect _) fun _ => ?_
  refine .bindFree (forHead_goes hn _) (fun _ => ?_) fun _ => .first (bodyAfterParen_halts _)
  exact .bind (bodyAfterParen_goes (.withContext hn.statement.goes.isolate)) fun _ => .of_quiet (.finish _ _)

/-! ## Blocks and expressions -/

theorem block_goes : Goes I free (block nested) := by
  refine .quiet .mark fun _ => .bind (.expect _) fun _ =>
    .bind (.itemsBefore hn.listItem.goes hn.listItem.halts) fun _ => ?_
  exact .bind (.expect _) fun _ => .of_quiet (.finish _ _)

omit hn in
theorem emptyStatement_goes : Goes I free emptyStatement :=
  .quiet .mark fun _ => .bind (.expect _) fun _ => .of_quiet (.finish _ _)

theorem expressionStatement_goes : Goes I free (expressionStatement nested) := by
  refine .quiet .mark fun _ => .bindFree (expression_proceeds hn).goes (fun _ => ?_) fun _ => .first .endStatement
  exact .bind .endStatement fun _ => .of_quiet (.finish _ _)

theorem expressionStatement_halts : Halts free (expressionStatement nested) :=
  .quiet .mark fun _ => .first (expression_proceeds hn).halts

/-! ## Choices -/

theorem branch_goes : Goes I free (branch nested) :=
  .quiet .isStrict fun _ => .quiet (.checkKeyword _) fun _ => .guard .tolerateHere hn.statement.goes.loosen

omit hn in
theorem acceptKeyword_goes (word : String) : Goes I free (acceptKeyword word) :=
  .quiet (.checkKeyword _) fun _ => .ite (.bind .skip fun _ => .pure _) (.pure _)

theorem ifStatement_goes : Goes I free (ifStatement nested) := by
  refine .quiet .mark fun _ => .bind (.expectKeyword _) fun _ => .bind (.expect _) fun _ =>
    .bindFree (expression_proceeds hn).goes (fun _ => ?_) fun _ =>
    missingParen_halts (.first .expect)
  refine .bind missingParen_goes fun
    | some _ => .of_quiet (.finish _ _)
    | none => .bind (.expect _) fun _ => .bind (branch_goes hn) fun _ => .bind (acceptKeyword_goes _) fun _ => ?_
  exact .ite (.bind (branch_goes hn) fun _ => .bind (.pure _) fun _ => .of_quiet (.finish _ _))
    (.bind (.pure _) fun _ => .of_quiet (.finish _ _))

theorem withStatement_goes : Goes I free (withStatement nested) := by
  refine .quiet .isStrict fun _ => .guard .tolerateHere (.quiet .mark fun _ => .bind (.expectKeyword _)
    fun _ => .bind (.expect _) fun _ => ?_)
  refine .bindFree (expression_proceeds hn).goes (fun _ => ?_) fun _ => .first (bodyAfterParen_halts _)
  exact .bind (bodyAfterParen_goes hn.statement.goes) fun _ => .of_quiet (.finish _ _)

omit hn in
theorem atCaseEnd_quiet : Quiet atCaseEnd := .bind .ahead fun _ => .pure _

theorem switchCase_goes : Goes I free (switchCase nested) := by
  have rest (start : Place) (test : Option Node) : Goes I free (do
      expect .colon
      let consequent ← manyBefore atCaseEnd (nested .listItem)
      return (← finish start (.switchCase test consequent), test.isNone)) := by
    refine .bind (.expect _) fun _ =>
      .bind (.manyBefore atCaseEnd_quiet (fun s hs => ?_) hn.listItem.goes hn.listItem.halts) fun _ => ?_
    · have last : (s.lookahead.isPunctuator .rightBrace || s.lookahead.isKeyword "default" ||
        s.lookahead.isKeyword "case") = false := by
        rw [hs.isPunctuator, Token.isKeyword, Token.isKeyword, hs.less]
        rfl
      exact congrArg (EStateM.Result.ok · s) last
    · exact .of_quiet (.bind (.finish _ _) fun _ => .pure _)
  refine .quiet .mark fun _ => .bind (acceptKeyword_goes _) fun _ => .ite (.bind (.pure _) fun _ => rest _ _) ?_
  exact .bind (.expectKeyword _) fun _ =>
    .bindFree (expression_proceeds hn).goes (fun _ => .bind (.pure _) fun _ => rest _ _) fun _ =>
    .bind (.pure _) fun _ => .first .expect

theorem switchCases_goes : Goes I free (switchCases nested) := by
  refine .bind (.expect _) fun _ => .bind (.loop ?_ _) fun (_, _) => .bind (.expect _) fun _ => .pure _
  intro (cases, hasDefault)
  exact .quiet (.check _) fun _ => .ite (.pure _) (.bind (switchCase_goes hn) fun (_, _) => .guard .failHere (.pure _))

theorem switchStatement_goes : Goes I free (switchStatement nested) := by
  refine .quiet .mark fun _ => .bind (.expectKeyword _) fun _ => .bind (.expect _) fun _ =>
    .bindFree (expression_proceeds hn).goes (fun _ => ?_) fun _ =>
    .first .expect
  exact .bind (.expect _) fun _ => .bind (.withContext (switchCases_goes hn)) fun _ => .of_quiet (.finish _ _)

/-! ## Jumps -/

omit hn in
theorem jumpLabel_goes : Goes I free jumpLabel :=
  .get (fun _ => rfl) fun _ => .ite (.bind (bindingName_goes none) fun _ => .guardUnless .failHere (.pure _)) (.pure _)

omit hn in
theorem continueStatement_goes : Goes I free continueStatement := by
  refine .quiet .mark fun _ => .bind (.expectKeyword _) fun _ => .bind jumpLabel_goes fun _ =>
    .bind .endStatement fun _ => ?_
  exact .of_quiet (.bind .context fun _ => .guard .failHere (.finish _ _))

omit hn in
theorem breakStatement_goes : Goes I free breakStatement := by
  refine .quiet .mark fun _ => .bind (.expectKeyword _) fun _ => .bind jumpLabel_goes fun _ =>
    .bind .endStatement fun _ => ?_
  exact .of_quiet (.bind .context fun _ => .guard .failHere (.finish _ _))

theorem returnStatement_goes : Goes I free (returnStatement nested) := by
  have rest (start : Place) (argument : Option Node) : Goes I free (do
      endStatement
      finish start (.returnStatement argument)) := .bind .endStatement fun _ => .of_quiet (.finish _ _)
  refine .quiet .context fun _ => .guardUnless .tolerateHere (.quiet .mark fun _ => .bind (.expectKeyword _)
    fun _ => .get (fun _ => rfl) fun s => ?_)
  refine .ite ?_ (.bind (.pure _) fun _ => rest _ _)
  exact .bindFree (expression_proceeds hn).goes (fun _ => .bind (.pure _) fun _ => rest _ _) fun _ =>
    .bind (.pure _) fun _ => .first .endStatement

theorem throwStatement_goes : Goes I free (throwStatement nested) := by
  refine .quiet .mark fun _ => .bind (.expectKeyword _) fun _ => .get (fun _ => rfl) fun s => .guard .failHere ?_
  refine .bindFree (expression_proceeds hn).goes (fun _ => ?_) fun _ => .first .endStatement
  exact .bind .endStatement fun _ => .of_quiet (.finish _ _)

omit hn in
theorem checkDistinct_quiet (names : List Token) : ∀ seen, Quiet (checkDistinct seen names) := by
  induction names with
  | nil => exact fun _ => .pure _
  | cons t names ih => exact fun _ => .ite (.of_stops (.bind .tolerateHere)) (ih _)

theorem catchParameter_goes : Goes I free (catchParameter nested) := by
  refine .bind (.expect _) fun _ => .quiet (.check _) fun _ =>
    .guard .failAhead (.bind (pattern_proceeds hn _).goes fun (_, _) => ?_)
  exact .quiet (checkDistinct_quiet _ _) fun _ => .quiet .isStrict fun _ =>
    .guard .tolerateHere (.bind (.expect _) fun _ => .pure _)

theorem catchClause_goes : Goes I free (catchClause nested) := by
  have rest (start : Place) (param : Option Node) : Goes I free (do
      let body ← block nested
      finish start (.catchClause param body)) := .bind (block_goes hn) fun _ => .of_quiet (.finish _ _)
  refine .quiet .mark fun _ => .bind (.expectKeyword _) fun _ => .quiet (.check _) fun _ =>
    .ite ?_ (.bind (.pure _) fun _ => rest _ _)
  exact .bind (catchParameter_goes hn) fun _ => .bind (.pure _) fun _ => rest _ _

theorem tryStatement_goes : Goes I free (tryStatement nested) := by
  have rest (start : Place) (body : Node) (handler : Option Node) : Goes I free (do
      let finalizer ← if ← acceptKeyword "finally" then pure (some (← block nested)) else pure none
      if handler.isNone && finalizer.isNone then failHere .missingHandler
      finish start (.tryStatement body handler finalizer)) := by
    refine .bind (acceptKeyword_goes _) fun _ =>
      .ite ?_ (.bind (.pure _) fun _ => .guard .failHere (.of_quiet (.finish _ _)))
    exact .bind (block_goes hn) fun _ => .bind (.pure _) fun _ => .guard .failHere (.of_quiet (.finish _ _))
  refine .quiet .mark fun _ => .bind (.expectKeyword _) fun _ => .bind (block_goes hn) fun _ =>
    .quiet (.checkKeyword _) fun _ => ?_
  exact .ite (.bind (catchClause_goes hn) fun _ => .bind (.pure _) fun _ => rest _ _ _)
    (.bind (.pure _) fun _ => rest _ _ _)

omit hn in
theorem debuggerStatement_goes : Goes I free debuggerStatement :=
  .quiet .mark fun _ => .bind (.expectKeyword _) fun _ => .bind .endStatement fun _ => .of_quiet (.finish _ _)

/-! ## Labels -/

theorem labeledBody_goes : Goes I free (labeledBody nested) := by
  refine .quiet .ahead fun t =>
    .ite (.of_stops (.bind .tolerateAt)) (.ite (.bind (function_goes hn _ _) fun _ => ?_) hn.statement.goes.loosen)
  exact .quiet .isStrict fun _ =>
    .ite (.of_stops (.bind .tolerateWith)) (.ite (.of_stops (.bind .tolerateWith)) (.pure _))

theorem labeled_goes (start : Place) (label : Node) (name : String) :
    Goes I free (labeled nested start label name) := by
  refine .bind .skip fun _ => .get (fun _ => rfl) fun s =>
    .guard .failHere (.quiet (.setLabels fun labels => name :: labels) fun _ => ?_)
  exact .bind (labeledBody_goes hn) fun _ => .quiet (.setLabels fun labels => labels.erase name) fun _ =>
    .of_quiet (.finish _ _)

theorem labeledStatement_goes : Goes I free (labeledStatement nested) := by
  refine .quiet .mark fun _ => .bindFree (expression_proceeds hn).goes (fun e => .quiet (.check _)
    fun isLabel => ?_) fun e => .check ?_
  · cases e.identifierName?.filter fun _ => isLabel with
    | some name => exact labeled_goes hn _ _ _
    | none => exact .bind .endStatement fun _ => .of_quiet (.finish _ _)
  · rw [Option.filter_eq_none_iff.2 (by simp)]
    exact .first .endStatement

/-! ## All statements -/

theorem keywordStatement_goes (word : String) : Goes I free (keywordStatement nested word) := by
  unfold keywordStatement
  split
  · exact breakStatement_goes
  · exact continueStatement_goes
  · exact debuggerStatement_goes
  · exact doWhileStatement_goes hn
  · exact forStatement_goes hn
  · exact function_goes hn _ _
  · exact ifStatement_goes hn
  · exact returnStatement_goes hn
  · exact switchStatement_goes hn
  · exact throwStatement_goes hn
  · exact tryStatement_goes hn
  · exact varStatement_goes hn
  · exact whileStatement_goes hn
  · exact withStatement_goes hn
  · exact expressionStatement_goes hn

theorem statement_proceeds : Proceeds I free (statement nested) where
  goes := .quiet .ahead fun t => by
    split
    case h_7 => exact block_goes hn
    case h_8 => exact emptyStatement_goes
    case h_10 => exact .quiet checkAsyncFunction_quiet fun _ => .ite (function_goes hn _ _) (labeledStatement_goes hn)
    case h_11 => exact keywordStatement_goes hn _
    case h_12 | h_13 | h_14 => exact .of_stops .failAt
    all_goals exact expressionStatement_goes hn
  halts := .ahead fun t ht => by
    rw [ht]
    exact expressionStatement_halts hn

end

end EcmaTree.Parse
