import EcmaTree.Proofs.Ledger.Expression

/-!
# Declarations and statements

In tolerant mode an empty statement stands for a body whose parenthesis is missing.
-/

namespace EcmaTree

instance : HasTokens Parse.ForHead := ⟨fun _ => []⟩

instance : HasTokens.Mute Parse.ForHead := ⟨fun _ => rfl⟩

namespace Ledger

open Parse

variable {L : Ledger} {m : Mode} {nested : Nested} {base s : ParseState} {ns l : List Node}

/-! ## Declarations -/

theorem checkBound_leads (target : Node) : L.Leads m m (checkBound target) := fun s h =>
  .isStrict (.ite (fun _ => h.last .tolerateHere (by simp)) fun _ => h.give (by simp) (by simp))

section
variable (hn : L.Sound nested)
include hn

theorem initializer_reads : L.Reads (initializer nested) := fun s h =>
  h.expect fun t h => h.read hn.assignment.isolate fun e u h _ => h.give (by simp) (by simp)

theorem varBinding_reads (inHead : Bool) : L.Reads (varBinding nested inHead) := fun s h => by
  refine .mark (h.read (pattern_reads hn _) fun (target, names) t h _ => h.read (checkBound_leads target)
    fun _ u h _ => .check ?_)
  refine .ite (fun _ => ?_) fun _ => .value (h.finish rfl (by simp [Kind.children]))
  exact h.read (initializer_reads hn) fun init v h _ => h.finish rfl (by simp +arith [Kind.children])

theorem constInitializer_reads : L.Reads (constInitializer nested) := fun s h =>
  .ahead (.ite (fun _ => h.give (by simp) (by simp)) fun _ =>
    .ite (fun _ => h.last (initializer_reads hn) (by simp)) fun _ =>
    h.failHere)

theorem lexicalBinding_reads (kind : VariableKind) (inHead : Bool) :
    L.Reads (lexicalBinding nested kind inHead) := fun s h => by
  refine .mark (h.read (pattern_reads hn _) fun (target, names) t h _ => h.read (checkBound_leads target)
    fun _ u h _ => .check ?_)
  refine .ite (fun _ => ?_) fun _ => .ite (fun _ => ?_) fun _ => .value (h.finish rfl (by simp [Kind.children]))
  · exact h.read (constInitializer_reads hn) fun init v h _ => h.finish rfl (by simp +arith [Kind.children])
  · exact h.read (initializer_reads hn) fun init v h _ => h.finish rfl (by simp +arith [Kind.children])

theorem bindings_reads (kind : VariableKind) (inHead : Bool) : L.Reads (bindings nested kind inHead) := by
  refine .commaSeparated ?_
  split
  · exact varBinding_reads hn inHead
  · exact lexicalBinding_reads hn kind inHead

theorem varStatement_reads : L.Reads (varStatement nested) := fun s h =>
  .mark (h.expectKeyword fun t h => h.read (bindings_reads hn _ _) fun declarations u h _ => h.endStatement fun v h =>
    h.finish rfl (by simp [Kind.children]))

omit hn in
theorem declarationWord_reads : L.Reads declarationWord := fun s h => by
  refine h.next fun t ht => ?_
  split
  · exact ht.give (by simp) (by simp)
  · exact ht.failAt h.seen

theorem lexicalDeclaration_reads : L.Reads (lexicalDeclaration nested) := fun s h =>
  .mark (h.read declarationWord_reads fun kind t h _ => h.read (bindings_reads hn _ _) fun declarations u h _ =>
    h.endStatement fun v h => h.finish rfl (by simp [Kind.children]))

omit hn in
theorem checkLet_reads : L.Reads checkLet := fun _ h => h.read .second fun _ _ h _ => h.give (by simp) (by simp)

/-! ## Loops -/

omit hn in
theorem missingParen_reads : L.Reads missingParen := fun s h => by
  refine .get (.ite (fun _ => h.give (by simp) (by simp)) fun _ => h.read .passOver fun _ t h _ => .mark ?_)
  exact h.node [] rfl (by simp [Kind.children]) fun n u _ h => h.give (by simp) (by simp)

omit hn in
theorem bodyAfterParen_reads {body : Parse Node} (hbody : L.Reads body) : L.Reads (bodyAfterParen body) := fun s h => by
  refine h.read missingParen_reads fun empty t h _ => ?_
  cases empty with
  | some empty => exact h.give (by simp) (by simp)
  | none => exact h.expect fun u h => h.last hbody (by simp)

omit hn in
theorem checkLoopBody_reads : L.Reads checkLoopBody := fun s h =>
  .ahead (.ite (fun _ => h.last .tolerateHere (by simp)) fun _ => h.give (by simp) (by simp))

omit hn in
theorem endDoWhile_reads : L.Reads endDoWhile := fun s h => by
  refine .check (.get (.ite (fun _ => h.last .passOver (by simp)) fun _ => h.expect fun t h => ?_))
  rw [discard_eq]
  exact h.accept fun b u h => h.give (by simp) (by simp)

theorem doWhileStatement_reads : L.Reads (doWhileStatement nested) := fun s h => by
  refine .mark (h.expectKeyword fun t h => h.read checkLoopBody_reads fun _ u h _ => ?_)
  refine h.read hn.statement.withContext fun body v h _ => h.expectKeyword fun w h => h.expect fun x h => ?_
  refine h.read (expression_reads hn) fun test y h _ => h.read endDoWhile_reads fun _ z h _ => ?_
  exact h.finish rfl (by simp +arith [Kind.children])

theorem whileStatement_reads : L.Reads (whileStatement nested) := fun s h => by
  refine .mark (h.expectKeyword fun t h => h.expect fun u h => h.read (expression_reads hn) fun test v h _ => ?_)
  exact h.read (bodyAfterParen_reads hn.statement.withContext) fun body w h _ =>
    h.finish rfl (by simp +arith [Kind.children])

theorem headSteps_gives {init : Option Node} (h : L.Held .ahead base (init.toList ++ l) s) :
    L.Safe (headSteps nested init) s (L.Gives .ahead base l) := by
  have step {test : Option Node} {t : ParseState} (h : L.Held .ahead base (test.toList ++ (init.toList ++ l)) t) :
      L.Safe (do
        expect .semicolon
        let step ← if ← check .rightParen then pure none else pure (some (← isolate (expression nested)))
        return ForHead.steps init test step) t (L.Gives .ahead base l) := by
    refine h.expect fun u h => .check (.ite (fun _ => .value (h.give (by simp +arith) (by simp))) fun _ => ?_)
    exact h.read (expression_reads hn).isolate fun step v h _ => .value (h.give (by simp +arith) (by simp))
  refine .check (.ite (fun _ => .value (step h)) fun _ => ?_)
  exact h.read (expression_reads hn).isolate fun test t h _ => .value (step h)

theorem headKeys_gives {left : Node} (h : L.Held .ahead base (left :: l) s) :
    L.Safe (headKeys nested left) s (L.Gives .ahead base l) :=
  h.skip fun t h => h.read (expression_reads hn) fun right u h _ => h.give (by simp +arith) (by simp)

theorem headValues_gives {left : Node} (h : L.Held .ahead base (left :: l) s) :
    L.Safe (headValues nested left) s (L.Gives .ahead base l) :=
  h.skip fun t h => h.read hn.assignment fun right u h _ => h.give (by simp +arith) (by simp)

section
variable {kind : VariableKind} {declarations : List Node} {start : Place} (h : L.Held .ahead base (declarations ++ l) s)
include h

theorem declaredKeys_gives : L.Safe (do headKeys nested (← finish start (.variableDeclaration kind declarations))) s
    (L.Gives .ahead base l) :=
  h.node l rfl (by simp [Kind.children]) fun n t _ h => headKeys_gives hn h

theorem declaredValues_gives : L.Safe (do headValues nested (← finish start (.variableDeclaration kind declarations))) s
    (L.Gives .ahead base l) :=
  h.node l rfl (by simp [Kind.children]) fun n t _ h => headValues_gives hn h

theorem declaredSteps_gives : L.Safe (do
    let init ← finish start (.variableDeclaration kind declarations)
    expect .semicolon
    headSteps nested (some init)) s (L.Gives .ahead base l) :=
  h.node l rfl (by simp [Kind.children]) fun n t _ h => h.expect fun u h => headSteps_gives hn h

end

theorem varHead_reads (isAwait : Bool) : L.Reads (varHead nested isAwait) := fun s h => by
  refine .mark (h.skip fun t h => h.read (bindings_reads hn _ _).withContext fun declarations u h _ => .ahead ?_)
  have h : L.Held .ahead s (declarations ++ []) u := by simpa using h
  split
  · exact declaredSteps_gives hn h
  refine .ite (fun _ => .isStrict ?_) fun _ => .ite (fun _ => declaredValues_gives hn h) fun _ =>
    declaredSteps_gives hn h
  exact h.settleIf .tolerateHere fun v h => declaredKeys_gives hn h

theorem lexicalHead_reads : L.Reads (lexicalHead nested) := fun s h => by
  refine .mark (h.read declarationWord_reads fun kind t h _ => .isStrict (.ahead (.ite (fun _ => ?_) fun _ => ?_)))
  · exact h.node [] rfl (by simp [Kind.children]) fun n u _ h => headKeys_gives hn h
  refine h.read (bindings_reads hn _ _).withContext fun declarations u h _ => .ahead ?_
  have h : L.Held .ahead s (declarations ++ []) u := by simpa using h
  refine .ite (fun _ => declaredKeys_gives hn h) fun _ => ?_
  refine .ite (fun _ => declaredValues_gives hn h) fun _ => h.endStatement fun v h => ?_
  exact h.node [] rfl (by simp [Kind.children]) fun n w _ h => headSteps_gives hn h

omit hn in
theorem checkLoopTarget_leads (target : Node) (cause : Cause) : L.Leads m m (checkLoopTarget target cause) := fun s h =>
  .get (.ite (fun _ => h.last .tolerateHere (by simp)) fun _ => h.give (by simp) (by simp))

theorem headExpressions_gives {first : Token} {init : Node} (h : L.Held .ahead base (init :: l) s) :
    L.Safe (headExpressions nested first init) s (L.Gives .ahead base l) := by
  refine .check (.ite (fun _ => ?_) fun _ => h.give (by simp) (by simp))
  refine h.loop (init :: l) (by simp) (by simp) (fun items t h _ => ?_) fun items t h _ =>
    h.finish rfl (by simp +arith [Kind.children])
  refine h.accept fun b u h => .ite (fun _ => ?_) fun _ => h.give (by simp) (by simp)
  exact h.read hn.assignment.isolate fun item v h _ => h.give (by simp) (by simp)

theorem expressionHead_reads : L.Reads (expressionHead nested) := fun s h => by
  have saved {t : Token} : s.cover.pending = some t → L.Seen t := h.pending
  refine .ahead (.get (h.read hn.assignment.inherit.withContext fun init t h _ => .ahead ?_))
  have pattern {u : ParseState} (h : L.Held .ahead s (init :: []) u) : L.Held .ahead s (init.toPattern :: []) u :=
    h.alike (Node.outline_toPattern init)
  refine .ite (fun _ => ?_) fun _ => .ite (fun _ => ?_) fun _ => ?_
  · exact h.read (checkLoopTarget_leads _ _) fun _ u h _ => headKeys_gives hn (pattern h)
  · exact h.read (checkLoopTarget_leads _ _) fun _ u h _ => headValues_gives hn (pattern h)
  · refine h.read (.modifyCover fun _ _ hu => .inr (saved hu)) fun _ u h _ => ?_
    refine after (headExpressions_gives hn h) fun init v h _ => h.expect fun w h => headSteps_gives hn h

theorem forHead_reads (isAwait : Bool) : L.Reads (forHead nested isAwait) := fun s h => by
  refine h.accept fun b t h => .ite (fun _ => headSteps_gives hn h) fun _ =>
    .checkKeyword (.ite (fun _ => ?_) fun _ => ?_)
  · exact h.last (varHead_reads hn isAwait) (by simp)
  refine .checkKeyword (.checkKeyword (.ite (fun _ => h.last (lexicalHead_reads hn) (by simp)) fun _ => ?_))
  exact h.last (expressionHead_reads hn) (by simp)

omit hn in
theorem forAwait_reads : L.Reads forAwait := fun s h => by
  refine .ahead (.ite (fun _ => .context ?_) fun _ => h.give (by simp) (by simp))
  exact h.settleUnless (.tolerateAt h.seen) fun t h => h.skip fun u h => h.give (by simp) (by simp)

theorem forStatement_reads : L.Reads (forStatement nested) := fun s h => by
  refine .mark (h.expectKeyword fun t h => h.read forAwait_reads fun isAwait u h _ => h.expect fun v h => ?_)
  refine h.read (forHead_reads hn isAwait) fun head w h _ => ?_
  refine h.read (bodyAfterParen_reads hn.statement.isolate.withContext) fun body x h _ => ?_
  cases head <;> exact h.finish rfl (by simp +arith [Kind.children])

/-! ## Choices and jumps -/

theorem block_reads : L.Reads (block nested) := fun s h =>
  .mark (h.expect fun t h => h.read (.itemsBefore hn.listItem) fun body u h _ => h.expect fun v h =>
    h.finish rfl (by simp [Kind.children]))

omit hn in
theorem emptyStatement_reads : L.Reads emptyStatement := fun _ h =>
  .mark (h.expect fun _ h => h.finish rfl (by simp [Kind.children]))

theorem expressionStatement_reads : L.Reads (expressionStatement nested) := fun s h =>
  .mark (h.read (expression_reads hn) fun e t h _ => h.endStatement fun u h => h.finish rfl (by simp [Kind.children]))

theorem branch_reads : L.Reads (branch nested) := fun s h =>
  .isStrict (.checkKeyword (h.settleIf .tolerateHere fun t h => h.last hn.statement (by simp)))

omit hn in
theorem acceptKeyword_reads (word : String) : L.Reads (acceptKeyword word) := fun s h =>
  .checkKeyword (.ite (fun _ => h.skip fun t h => h.give (by simp) (by simp)) fun _ => h.give (by simp) (by simp))

theorem ifStatement_reads : L.Reads (ifStatement nested) := fun s h => by
  refine .mark (h.expectKeyword fun t h => h.expect fun u h => h.read (expression_reads hn) fun test v h _ => ?_)
  refine h.read missingParen_reads fun empty w h _ => ?_
  cases empty with
  | some empty => exact h.finish rfl (by simp +arith [Kind.children])
  | none =>
    refine h.expect fun x h => h.read (branch_reads hn) fun consequent y h _ =>
      h.read (acceptKeyword_reads _) fun b z h _ => ?_
    refine .ite (fun _ => ?_) fun _ => .value (h.finish rfl (by simp +arith [Kind.children]))
    exact h.read (branch_reads hn) fun alternate a h _ => .value (h.finish rfl (by simp +arith [Kind.children]))

theorem withStatement_reads : L.Reads (withStatement nested) := fun s h => by
  refine .isStrict (h.settleIf .tolerateHere fun t h => .mark (h.expectKeyword fun u h => h.expect fun v h => ?_))
  refine h.read (expression_reads hn) fun scope w h _ => h.read (bodyAfterParen_reads hn.statement) fun body x h _ => ?_
  exact h.finish rfl (by simp +arith [Kind.children])

theorem switchCase_reads : L.Reads (switchCase nested) := fun s h => by
  have rest {start : Place} {test : Option Node} {t : ParseState} (h : L.Held .ahead s (test.toList ++ []) t) :
      L.Safe (do
      expect .colon
      let consequent ← manyBefore atCaseEnd (nested .listItem)
      return (← finish start (.switchCase test consequent), test.isNone)) t (L.Gives .ahead s []) := by
    have atEnd : L.Reads atCaseEnd := fun u h => .ahead (h.give (by simp) (by simp))
    refine h.expect fun u h => h.read (.manyBefore atEnd hn.listItem) fun consequent v h _ => ?_
    exact h.node [] rfl (by simp +arith [Kind.children]) fun n w _ h => h.give (by simp) (by simp)
  refine .mark (h.read (acceptKeyword_reads _) fun b t h _ => .ite (fun _ => .value (rest h)) fun _ => ?_)
  exact h.expectKeyword fun u h => h.read (expression_reads hn) fun test v h _ => .value (rest h)

theorem switchCases_reads : L.Reads (switchCases nested) := fun s h => by
  refine h.expect fun t h => ?_
  refine h.loop (σ := List Node × Bool) [] (by simp) (by simp) (fun (cases, hasDefault) u h _ => ?_)
    fun (cases, hasDefault) u h _ => h.expect fun v h => h.give (by simp) (by simp)
  refine .check (.ite (fun _ => h.give (by simp) (by simp)) fun _ => h.read (switchCase_reads hn)
    fun (clause, isDefault) v h _ => ?_)
  exact h.settleIf .failHere fun w h => h.give (by simp) (by simp)

theorem switchStatement_reads : L.Reads (switchStatement nested) := fun s h => by
  refine .mark (h.expectKeyword fun t h => h.expect fun u h => h.read (expression_reads hn)
    fun discriminant v h _ => ?_)
  exact h.expect fun w h => h.read (switchCases_reads hn).withContext fun cases x h _ =>
    h.finish rfl (by simp +arith [Kind.children])

omit hn in
theorem jumpLabel_reads : L.Reads jumpLabel := fun s h => by
  refine .get (.ite (fun _ => ?_) fun _ => h.give (by simp) (by simp))
  exact h.read (bindingName_reads none) fun label t h _ => h.settleUnless .failHere fun u h =>
    h.give (by simp) (by simp)

omit hn in
theorem continueStatement_reads : L.Reads continueStatement := fun s h => by
  refine .mark (h.expectKeyword fun t h => h.read jumpLabel_reads fun label u h _ =>
    h.endStatement fun v h => .context ?_)
  exact h.settleIf .failHere fun w h => h.finish rfl (by simp [Kind.children])

omit hn in
theorem breakStatement_reads : L.Reads breakStatement := fun s h => by
  refine .mark (h.expectKeyword fun t h => h.read jumpLabel_reads fun label u h _ =>
    h.endStatement fun v h => .context ?_)
  exact h.settleIf .failHere fun w h => h.finish rfl (by simp [Kind.children])

theorem returnStatement_reads : L.Reads (returnStatement nested) := fun s h => by
  have rest {start : Place} {argument : Option Node} {t : ParseState}
      (h : L.Held .ahead s (argument.toList ++ []) t) : L.Safe (do
      endStatement
      finish start (.returnStatement argument)) t (L.Gives .ahead s []) :=
    h.endStatement fun u h => h.finish rfl (by simp [Kind.children])
  refine .context (h.settleUnless .tolerateHere fun t h => .mark (h.expectKeyword fun u h => .get ?_))
  refine .ite (fun _ => ?_) fun _ => .value (rest h)
  exact h.read (expression_reads hn) fun argument v h _ => .value (rest h)

theorem throwStatement_reads : L.Reads (throwStatement nested) := fun s h => by
  refine .mark (h.expectKeyword fun t h => .get (h.settleIf .failHere fun u h => h.read (expression_reads hn)
    fun argument v h _ => ?_))
  exact h.endStatement fun w h => h.finish rfl (by simp [Kind.children])

/-! ## Handlers -/

omit hn in
theorem checkDistinct_reads (seen : List String) (names : List Token) : L.Reads (checkDistinct seen names) := by
  induction names generalizing seen with
  | nil => exact fun s h => h.give (by simp) (by simp)
  | cons t names ih =>
    intro s h
    rw [checkDistinct]
    exact h.settleIf .tolerateHere fun u h => h.last (ih _) (by simp)

theorem catchParameter_reads : L.Reads (catchParameter nested) := fun s h => by
  refine h.expect fun t h => .check (h.settleIf .failAhead fun u h => h.read (pattern_reads hn none)
    fun (target, names) v h _ => ?_)
  refine h.read (checkDistinct_reads _ _) fun _ w h _ => .isStrict (h.settleIf .tolerateHere fun x h => ?_)
  exact h.expect fun y h => h.give (by simp) (by simp)

theorem catchClause_reads : L.Reads (catchClause nested) := fun s h => by
  have rest {start : Place} {param : Option Node} {t : ParseState}
      (h : L.Held .ahead s (param.toList ++ []) t) : L.Safe (do
      let body ← block nested
      finish start (.catchClause param body)) t (L.Gives .ahead s []) :=
    h.read (block_reads hn) fun body u h _ => h.finish rfl (by simp +arith [Kind.children])
  refine .mark (h.expectKeyword fun t h => .check (.ite (fun _ => ?_) fun _ => .value (rest h)))
  exact h.read (catchParameter_reads hn) fun param u h _ => .value (rest h)

theorem tryStatement_reads : L.Reads (tryStatement nested) := fun s h => by
  have finished {start : Place} {body : Node} {handler finalizer : Option Node} {t : ParseState}
      (h : L.Held .ahead s (finalizer.toList ++ (handler.toList ++ [body])) t) : L.Safe (do
        if handler.isNone && finalizer.isNone then failHere .missingHandler
        finish start (.tryStatement body handler finalizer)) t (L.Gives .ahead s []) :=
    h.settleIf .failHere fun u h => h.finish rfl (by simp +arith [Kind.children])
  have rest {start : Place} {body : Node} {handler : Option Node} {t : ParseState}
      (h : L.Held .ahead s (handler.toList ++ [body]) t) : L.Safe (do
        let finalizer ← if ← acceptKeyword "finally" then pure (some (← block nested)) else pure none
        if handler.isNone && finalizer.isNone then failHere .missingHandler
        finish start (.tryStatement body handler finalizer)) t (L.Gives .ahead s []) := by
    refine h.read (acceptKeyword_reads _) fun b u h _ => .ite (fun _ => ?_) fun _ => .value (finished h)
    exact h.read (block_reads hn) fun finalizer v h _ => .value (finished h)
  refine .mark (h.expectKeyword fun t h => h.read (block_reads hn) fun body u h _ =>
    .checkKeyword (.ite (fun _ => ?_) fun _ => ?_))
  · exact h.read (catchClause_reads hn) fun handler v h _ => .value (rest h)
  · exact .value (rest h)

omit hn in
theorem debuggerStatement_reads : L.Reads debuggerStatement := fun _ h =>
  .mark (h.expectKeyword fun _ h => h.endStatement fun _ h => h.finish rfl (by simp [Kind.children]))

/-! ## Labels -/

theorem labeledBody_reads : L.Reads (labeledBody nested) := fun s h => by
  have seen := h.seen
  refine .ahead (.ite (fun _ => ?_) fun _ => .ite (fun _ => ?_) fun _ => h.last hn.statement (by simp))
  · exact h.read (.tolerateAt seen) fun _ t h _ => h.last (classOf_reads hn _ _) (by simp)
  · refine h.read (function_reads hn _ _) fun declaration t h _ => .isStrict (.ite (fun _ => ?_) fun _ => ?_)
    · exact h.read (.tolerateWith seen) fun _ u h _ => h.give (by simp) (by simp)
    · exact h.settleIf (.tolerateWith seen) fun u h => h.give (by simp) (by simp)

theorem labeled_gives {start : Place} {label : Node} {name : String} (h : L.Held .ahead base (label :: l) s) :
    L.Safe (labeled nested start label name) s (L.Gives .ahead base l) := by
  refine h.skip fun t h => .get (h.settleIf .failHere fun u h => .bind (.modify ?_))
  refine (h.setLabels _).read (labeledBody_reads hn) fun body v h _ => .bind (.modify ?_)
  exact (h.setLabels _).finish rfl (by simp +arith [Kind.children])

theorem labeledStatement_reads : L.Reads (labeledStatement nested) := fun s h => by
  refine .mark (h.read (expression_reads hn) fun e t h _ => .check ?_)
  split
  · exact labeled_gives hn h
  · exact h.endStatement fun u h => h.finish rfl (by simp [Kind.children])

/-! ## All statements -/

theorem keywordStatement_reads (word : String) : L.Reads (keywordStatement nested word) := by
  unfold keywordStatement
  split
  · exact breakStatement_reads
  · exact continueStatement_reads
  · exact debuggerStatement_reads
  · exact doWhileStatement_reads hn
  · exact forStatement_reads hn
  · exact function_reads hn _ _
  · exact ifStatement_reads hn
  · exact returnStatement_reads hn
  · exact switchStatement_reads hn
  · exact throwStatement_reads hn
  · exact tryStatement_reads hn
  · exact varStatement_reads hn
  · exact whileStatement_reads hn
  · exact withStatement_reads hn
  · exact expressionStatement_reads hn

theorem statement_reads : L.Reads (statement nested) := fun s h => by
  refine .ahead ?_
  split
  · exact h.last (expressionStatement_reads hn) (by simp)
  · exact h.last (expressionStatement_reads hn) (by simp)
  · exact h.last (expressionStatement_reads hn) (by simp)
  · exact h.last (expressionStatement_reads hn) (by simp)
  · exact h.last (expressionStatement_reads hn) (by simp)
  · exact h.last (expressionStatement_reads hn) (by simp)
  · exact h.last (block_reads hn) (by simp)
  · exact h.last emptyStatement_reads (by simp)
  · exact h.last (expressionStatement_reads hn) (by simp)
  · refine h.read checkAsyncFunction_reads fun b t h _ => .ite (fun _ => ?_) fun _ => ?_
    · exact h.last (function_reads hn _ _) (by simp)
    · exact h.last (labeledStatement_reads hn) (by simp)
  · exact h.last (keywordStatement_reads hn _) (by simp)
  all_goals exact h.failAt h.seen

end

end Ledger

end EcmaTree
