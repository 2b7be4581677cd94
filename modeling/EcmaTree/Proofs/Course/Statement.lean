import EcmaTree.Proofs.Course.Expression

/-!
# Declarations and statements

A statement may be an expression, which nests an assignment right away. That is one more thing to know of the nested
productions: an assignment is sound where one byte more is left.
-/

namespace EcmaTree.Course

open Parse

variable {text : String} {n : Nat} {nested : Nested} {s : ParseState}

section
variable (hn : Sound text n nested)
include hn

/-! ## Declarations -/

theorem initializer_reads : Reads text (n + 1) (initializer nested) := fun _ h =>
  h.expect fun _ h => h.nest hn.assignment.isolate fun _ _ h => h.give

theorem varBinding_reads (inHead : Bool) : Reads text (n + 1) (varBinding nested inHead) := fun s h => by
  refine .mark (h.read (pattern_reads hn _) fun (target, names) t h => h.settle (.checkBound target)
    fun _ u h => .check ?_)
  refine .ite (fun _ => ?_) fun _ => .value (h.finish rfl)
  exact h.pass (initializer_reads hn).reading fun init v h => h.finish rfl

theorem constInitializer_passes : Passes text (n + 1) (constInitializer nested) := fun _ h =>
  .ahead (.ite (fun _ => h.give) fun _ => .ite (fun _ => h.last (initializer_reads hn).reading) fun _ => .failHere)

theorem lexicalBinding_reads (kind : VariableKind) (inHead : Bool) :
    Reads text (n + 1) (lexicalBinding nested kind inHead) :=
    fun s h => by
  refine .mark (h.read (pattern_reads hn _) fun (target, names) t h => h.settle (.checkBound target)
    fun _ u h => .check ?_)
  refine .ite (fun _ => ?_) fun _ => .ite (fun _ => ?_) fun _ => .value (h.finish rfl)
  · exact h.pass (constInitializer_passes hn) fun init v h => h.finish rfl
  · exact h.pass (initializer_reads hn).reading fun init v h => h.finish rfl

theorem bindings_reads (kind : VariableKind) (inHead : Bool) : Reads text (n + 1) (bindings nested kind inHead) := by
  refine .commaSeparated ?_
  split
  · exact varBinding_reads hn inHead
  · exact lexicalBinding_reads hn kind inHead

theorem varStatement_reads : Reads text (n + 1) (varStatement nested) := fun _ h =>
  .mark (h.expectKeyword fun _ h => h.pass (bindings_reads hn _ _).reading fun _ _ h =>
    h.pass .endStatement fun _ _ h =>
    h.finish rfl)

omit hn in
theorem declarationWord_passes : Passes text n declarationWord := fun s h => by
  refine h.next fun t ht _ => ?_
  split
  · exact ht.give
  · exact .failAt

theorem lexicalDeclaration_reads : Reads text (n + 1) (lexicalDeclaration nested) := fun _ h =>
  .mark (h.pass declarationWord_passes fun _ _ h => h.read (bindings_reads hn _ _) fun _ _ h =>
    h.pass .endStatement fun _ _ h =>
    h.finish rfl)

/-! ## Loops -/

omit hn in
theorem missingParen_passes : Passes text n missingParen := fun s h => by
  refine .seeing (.ite (fun _ => h.give) fun _ => h.pass .passOver fun _ t h => .mark ?_)
  exact h.node rfl fun _ _ h => h.give

omit hn in
theorem bodyAfterParen_passes {body : Parse Node} (hbody : Passes text n body) : Passes text n (bodyAfterParen body) :=
    fun s h => by
  refine h.pass missingParen_passes fun empty t h => ?_
  cases empty with
  | some empty => exact h.give
  | none => exact h.expect fun u h => (h.reading (r := false)).last hbody

omit hn in
theorem endDoWhile_passes : Passes text n endDoWhile := fun s h => by
  refine .check (Ends.seeing (.ite (fun _ => h.last .passOver) fun _ => h.expect fun t h => ?_))
  rw [discard_eq]
  exact h.accept (fun u h => h.reading.give) h.reading.give

theorem doWhileStatement_reads : Reads text (n + 1) (doWhileStatement nested) := fun s h => by
  refine .mark (h.expectKeyword fun t h => h.settle .checkLoopBody fun _ u h => ?_)
  refine h.nest hn.statement.withContext fun body v h => h.expectKeyword fun w h => h.expect fun x h => ?_
  exact h.nest (expression_reads hn.assignment) fun test y h => h.pass endDoWhile_passes fun _ z h => h.finish rfl

theorem whileStatement_reads : Reads text (n + 1) (whileStatement nested) := fun s h => by
  refine .mark (h.expectKeyword fun t h => h.expect fun u h => h.nest (expression_reads hn.assignment)
    fun test v h => ?_)
  exact h.nest (bodyAfterParen_passes hn.statement.withContext.reading) fun body w h => h.finish rfl

/-! ### The head of `for` -/

theorem headSteps_passes (init : Option Node) : Passes text n (headSteps nested init) := fun s h => by
  have step {test : Option Node} {t : ParseState} (h : Held text n .ahead false (s.site .ahead) t) : Ends (do
      expect .semicolon
      let step ← if ← check .rightParen then pure none else pure (some (← isolate (expression nested)))
      return ForHead.steps init test step) t fun _ u => Held text n .ahead false (s.site .ahead) u := by
    refine h.expect fun u h => .check (.ite (fun _ => .value h.reading.give) fun _ => ?_)
    exact h.read (expression_reads hn.assignment).isolate fun step v h => .value h.reading.give
  refine .check (.ite (fun _ => .value (step h)) fun _ => ?_)
  exact h.pass (expression_reads hn.assignment).isolate.reading fun test t h => .value (step h)

theorem headKeys_passes (left : Node) : Passes text n (headKeys nested left) := fun _ h =>
  h.pass .skip fun _ _ h => h.pass (expression_reads hn.assignment).reading fun _ _ h => h.give

theorem headValues_passes (left : Node) : Passes text n (headValues nested left) := fun _ h =>
  h.pass .skip fun _ _ h => h.pass hn.assignment.reading fun _ _ h => h.give

theorem varHead_passes (isAwait : Bool) : Passes text n (varHead nested isAwait) := fun s h => by
  refine .mark (h.pass .skip fun _ t h => ?_)
  refine h.pass (bindings_reads hn _ _).weaken.withContext.reading fun declarations u h => .ahead ?_
  have steps {v : ParseState} (h : Held text n .ahead false (s.site .ahead) v) : Ends (do
      let init ← finish s.start.place (.variableDeclaration .var declarations)
      expect .semicolon
      headSteps nested (some init)) v fun _ w => Held text n .ahead false (s.site .ahead) w :=
    h.node rfl fun _ w h => h.expect fun x h => (h.reading (r := false)).last (headSteps_passes hn _)
  split
  · exact steps h
  refine .ite (fun _ => .isStrict ?_) fun _ => .ite (fun _ => ?_) fun _ => steps h
  · exact h.settleIf (.tolerateHere _) fun v h => h.node rfl fun _ w h => h.last (headKeys_passes hn _)
  · exact h.node rfl fun _ w h => h.last (headValues_passes hn _)

theorem lexicalHead_passes : Passes text n (lexicalHead nested) := fun s h => by
  refine .mark (h.pass declarationWord_passes fun kind t h => .isStrict (.ahead (.ite (fun _ => ?_) fun _ => ?_)))
  · exact h.node rfl fun _ u h => h.last (headKeys_passes hn _)
  refine h.pass (bindings_reads hn _ _).weaken.withContext.reading fun declarations u h => .ahead ?_
  refine .ite (fun _ => h.node rfl fun _ v h => h.last (headKeys_passes hn _)) fun _ => ?_
  refine .ite (fun _ => h.node rfl fun _ v h => h.last (headValues_passes hn _)) fun _ =>
    h.pass .endStatement fun _ v h => ?_
  exact h.node rfl fun _ w h => h.last (headSteps_passes hn _)

theorem headExpressions_passes (first : Token) (init : Node) : Passes text n (headExpressions nested first init) :=
    fun s h => by
  refine .check (.ite (fun _ => ?_) fun _ => h.give)
  refine h.pass (.loop fun items t h => ?_) fun items t h => h.finish rfl
  refine h.accept (fun u h => .pos rfl ?_) (.neg nofun (Judgement.ending.ofPure h))
  exact h.read hn.assignment.isolate fun item v h => Judgement.ending.ofPure h

theorem expressionHead_passes : Passes text n (expressionHead nested) := fun s h => by
  refine .ahead (.get (fun _ => rfl) (h.pass hn.assignment.inherit.withContext.reading fun init t h => .ahead ?_))
  refine .ite (fun _ => ?_) fun _ => .ite (fun _ => ?_) fun _ => ?_
  · exact h.settle (.checkLoopTarget _ _) fun _ u h => h.last (headKeys_passes hn _)
  · exact h.settle (.checkLoopTarget _ _) fun _ u h => h.last (headValues_passes hn _)
  · refine h.settle (.modifyCover _) fun _ u h => h.pass (headExpressions_passes hn _ init) fun init v h => ?_
    exact h.expect fun w h => (h.reading (r := false)).last (headSteps_passes hn _)

theorem forHead_passes (isAwait : Bool) : Passes text n (forHead nested isAwait) := fun s h => by
  refine h.accept (fun t h => .pos rfl ((h.reading (r := false)).last (headSteps_passes hn none)))
    (.neg nofun (.checkKeyword ?_))
  refine .ite (fun _ => h.last (varHead_passes hn isAwait)) fun _ => .checkKeyword (.checkKeyword ?_)
  exact .ite (fun _ => h.last (lexicalHead_passes hn)) fun _ => h.last (expressionHead_passes hn)

omit hn in
theorem forAwait_passes : Passes text n forAwait := fun s h => by
  refine .ahead (.ite (fun _ => .context ?_) fun _ => h.give)
  exact h.settleUnless (.tolerateAt _) fun t h => h.pass .skip fun _ u h => h.give

theorem forStatement_reads : Reads text (n + 1) (forStatement nested) := fun s h => by
  refine .mark (h.expectKeyword fun t h => h.pass forAwait_passes fun isAwait u h => h.expect fun v h => ?_)
  refine h.nest (forHead_passes hn isAwait) fun head w h => ?_
  refine h.nest (bodyAfterParen_passes hn.statement.isolate.withContext.reading) fun body x h => ?_
  cases head <;> exact h.finish rfl

/-! ## Choices and jumps -/

theorem block_reads : Reads text (n + 1) (block nested) := fun _ h =>
  .mark (h.expect fun _ h => h.nest (.itemsBefore hn.listItem) fun _ _ h => h.expect fun _ h => h.finish rfl)

omit hn in
theorem emptyStatement_reads : Reads text n emptyStatement := fun _ h => .mark (h.expect fun _ h => h.finish rfl)

theorem branch_reads : Reads text n (branch nested) := fun _ h =>
  .isStrict (.checkKeyword (h.settleIf (.tolerateHere _) fun _ h => h.last hn.statement))

omit hn in
/-- A keyword that is consumed if it is ahead. -/
theorem Held.acceptKeyword {β : Type} {base : Nat} {r : Bool} {word : String} {f : Bool → Parse β}
    {Q : β → ParseState → Prop} (h : Held text n .ahead r base s)
    (hyes : ∀ t, Held text n .ahead true base t → Ends (f true) t Q) (hno : Ends (f false) s Q) :
    Ends (acceptKeyword word >>= f) s Q := by
  rw [Parse.acceptKeyword, bind_assoc]
  refine .checkKeyword ?_
  split
  next hword =>
    rw [bind_assoc]
    exact h.skip (not_end_of (f := (·.isKeyword word)) hword fun _ => rfl) fun t ht => .value (hyes t ht)
  next => exact .value hno

theorem ifStatement_reads : Reads text (n + 1) (ifStatement nested) := fun s h => by
  refine .mark (h.expectKeyword fun t h => h.expect fun u h => h.nest (expression_reads hn.assignment)
    fun test v h => ?_)
  refine h.pass missingParen_passes fun empty w h => ?_
  cases empty with
  | some empty => exact h.finish rfl
  | none =>
    refine h.expect fun x h => h.nest (branch_reads hn) fun consequent y h =>
      h.acceptKeyword (fun z h => .pos rfl ?_) ?_
    · exact h.nest (branch_reads hn) fun alternate a h => .value (h.finish rfl)
    · exact .neg nofun (.value (h.finish rfl))

theorem withStatement_reads : Reads text (n + 1) (withStatement nested) := fun s h => by
  refine .isStrict (h.settleIf (.tolerateHere _) fun t h => .mark (h.expectKeyword fun u h => h.expect fun v h => ?_))
  refine h.nest (expression_reads hn.assignment) fun scope w h => ?_
  exact h.nest (bodyAfterParen_passes hn.statement.reading) fun body x h => h.finish rfl

theorem switchCase_reads : Reads text (n + 1) (switchCase nested) := fun s h => by
  have rest {start : Place} {test : Option Node} {t : ParseState}
      (h : Held text (n + 1) .ahead true (s.site .ahead) t) :
      Ends (do
        expect .colon
        let consequent ← manyBefore atCaseEnd (nested .listItem)
        return (← finish start (.switchCase test consequent), test.isNone)) t
          fun _ u => Held text (n + 1) .ahead true (s.site .ahead) u := by
    have atEnd : Judgement.ending.Settles atCaseEnd := .get (fun _ => rfl) fun _ => .pure _
    refine h.expect fun u h => h.nest (.manyBefore atEnd hn.listItem) fun consequent v h => ?_
    exact h.node rfl fun _ w h => h.give
  refine .mark (h.acceptKeyword (fun t h => .pos rfl (.value (rest h))) (.neg nofun ?_))
  exact h.expectKeyword fun t h => h.nest (expression_reads hn.assignment) fun test u h => .value (rest h)

theorem switchCases_reads : Reads text (n + 1) (switchCases nested) := fun s h => by
  refine h.expect fun t h => h.pass (.loop fun (cases, hasDefault) u h => ?_)
    fun (cases, hasDefault) u h => h.expect fun v h => h.give
  refine .check (.ite (fun _ => Judgement.ending.ofPure h) fun _ => h.read (switchCase_reads hn)
    fun (clause, isDefault) v h => ?_)
  exact h.settleIf (.failHere _) fun w h => Judgement.ending.ofPure h

theorem switchStatement_reads : Reads text (n + 1) (switchStatement nested) := fun s h => by
  refine .mark (h.expectKeyword fun t h => h.expect fun u h => h.nest (expression_reads hn.assignment)
    fun discriminant v h => ?_)
  exact h.expect fun w h => h.read (switchCases_reads hn).withContext fun cases x h => h.finish rfl

omit hn in
theorem jumpLabel_passes : Passes text n jumpLabel := fun s h => by
  refine .get (fun _ => rfl) (.ite (fun _ => ?_) fun _ => h.give)
  exact h.pass (bindingName_reads none).reading fun label t h => h.settleUnless (.failHere _) fun u h => h.give

omit hn in
theorem continueStatement_reads : Reads text n continueStatement := fun s h => by
  refine .mark (h.expectKeyword fun t h => h.pass jumpLabel_passes fun label u h => h.pass .endStatement
    fun _ v h => .context ?_)
  exact h.settleIf (.failHere _) fun w h => h.finish rfl

omit hn in
theorem breakStatement_reads : Reads text n breakStatement := fun s h => by
  refine .mark (h.expectKeyword fun t h => h.pass jumpLabel_passes fun label u h => h.pass .endStatement
    fun _ v h => .context ?_)
  exact h.settleIf (.failHere _) fun w h => h.finish rfl

theorem returnStatement_reads : Reads text (n + 1) (returnStatement nested) := fun s h => by
  have finished {start : Place} {argument : Option Node} {t : ParseState}
      (h : Held text (n + 1) .ahead true (s.site .ahead) t) :
      Ends (do
        endStatement
        finish start (.returnStatement argument)) t fun _ u => Held text (n + 1) .ahead true (s.site .ahead) u :=
    h.pass .endStatement fun _ u h => h.finish rfl
  refine .context (h.settleUnless (.tolerateHere _) fun t h =>
    .mark (h.expectKeyword fun u h => .get (fun _ => rfl) ?_))
  refine .ite (fun _ => ?_) fun _ => .value (finished h)
  exact h.nest (expression_reads hn.assignment) fun argument v h => .value (finished h)

theorem throwStatement_reads : Reads text (n + 1) (throwStatement nested) := fun s h => by
  refine .mark (h.expectKeyword fun t h => .get (fun _ => rfl) (h.settleIf (.failHere _) fun u h => ?_))
  exact h.nest (expression_reads hn.assignment) fun argument v h => h.pass .endStatement fun _ w h => h.finish rfl

theorem catchParameter_reads : Reads text (n + 1) (catchParameter nested) := fun s h => by
  refine h.expect fun t h => .check (h.settleIf .failAhead fun u h => ?_)
  refine h.pass (pattern_reads hn none).reading fun (target, names) v h =>
    h.settle (.checkDistinct _ _) fun _ w h => .isStrict ?_
  exact h.settleIf (.tolerateHere _) fun x h => h.expect fun y h => h.give

theorem catchClause_reads : Reads text (n + 1) (catchClause nested) := fun s h => by
  refine .mark (h.expectKeyword fun t h => .check (.ite (fun _ => ?_) fun _ => .value ?_))
  · exact h.read (catchParameter_reads hn) fun param u h =>
      .value (h.read (block_reads hn) fun body v h => h.finish rfl)
  · exact h.read (block_reads hn) fun body u h => h.finish rfl

theorem tryStatement_reads : Reads text (n + 1) (tryStatement nested) := fun s h => by
  have finished {start : Place} {body : Node} {handler finalizer : Option Node} {t : ParseState}
      (h : Held text (n + 1) .ahead true (s.site .ahead) t) : Ends (do
        if handler.isNone && finalizer.isNone then failHere .missingHandler
        finish start (.tryStatement body handler finalizer)) t fun _ u =>
          Held text (n + 1) .ahead true (s.site .ahead) u :=
    h.settleIf (.failHere _) fun u h => h.finish rfl
  have finalized {start : Place} {body : Node} {handler : Option Node} {t : ParseState}
      (h : Held text (n + 1) .ahead true (s.site .ahead) t) : Ends (do
        let finalizer ← if ← acceptKeyword "finally" then pure (some (← block nested)) else pure none
        if handler.isNone && finalizer.isNone then failHere .missingHandler
        finish start (.tryStatement body handler finalizer)) t fun _ u =>
          Held text (n + 1) .ahead true (s.site .ahead) u :=
    h.acceptKeyword (fun u h => .pos rfl (h.read (block_reads hn) fun finalizer v h => .value (finished h)))
      (.neg nofun (.value (finished h)))
  refine .mark (h.expectKeyword fun t h => h.read (block_reads hn) fun body u h =>
    .checkKeyword (.ite (fun _ => ?_) fun _ => ?_))
  · exact h.read (catchClause_reads hn) fun handler v h => .value (finalized h)
  · exact .value (finalized h)

omit hn in
theorem debuggerStatement_reads : Reads text n debuggerStatement := fun _ h =>
  .mark (h.expectKeyword fun _ h => h.pass .endStatement fun _ _ h => h.finish rfl)

/-! ## Labels -/

theorem labeledBody_reads : Reads text n (labeledBody nested) := fun s h => by
  refine .ahead (.ite (fun _ => ?_) fun _ => .ite (fun _ => ?_) fun _ => h.last hn.statement)
  · exact h.settle (.tolerateAt _) fun _ t h => h.last (classOf_reads hn _ _).weaken
  · refine h.read (function_reads hn _ _).weaken fun declaration t h => .isStrict (.ite (fun _ => ?_) fun _ => ?_)
    · exact h.settle (.tolerateWith _ _) fun _ u h => h.give
    · exact h.settleIf (.tolerateWith _ _) fun u h => h.give

theorem labeled_passes (start : Place) (label : Node) (name : String) :
    Passes text n (labeled nested start label name) :=
    fun s h => by
  refine h.pass .skip fun _ t h => .get (fun _ => rfl) (h.settleIf (.failHere _) fun u h => ?_)
  refine h.settle (.setLabels (name :: ·)) fun _ v h => h.pass (labeledBody_reads hn).reading fun body w h => ?_
  exact h.settle (.setLabels (·.erase name)) fun _ x h => h.finish rfl

/-! ## All statements -/

section
variable (he : Reads text (n + 1) (nested .assignment))
include he

omit hn in
theorem expressionStatement_reads : Reads text (n + 1) (expressionStatement nested) := fun _ h =>
  .mark (h.read (expression_reads he) fun _ _ h => h.pass .endStatement fun _ _ h => h.finish rfl)

theorem labeledStatement_reads : Reads text (n + 1) (labeledStatement nested) := fun s h => by
  refine .mark (h.read (expression_reads he) fun e t h => .check ?_)
  split
  · exact h.nestLast (labeled_passes hn _ _ _)
  · exact h.pass .endStatement fun _ u h => h.finish rfl

theorem keywordStatement_reads (word : String) : Reads text (n + 1) (keywordStatement nested word) := by
  unfold keywordStatement
  split
  · exact breakStatement_reads
  · exact continueStatement_reads
  · exact debuggerStatement_reads
  · exact doWhileStatement_reads hn
  · exact forStatement_reads hn
  · exact function_reads hn _ _
  · exact ifStatement_reads hn
  · exact returnStatement_reads hn
  · exact switchStatement_reads hn
  · exact throwStatement_reads hn
  · exact tryStatement_reads hn
  · exact varStatement_reads hn
  · exact whileStatement_reads hn
  · exact withStatement_reads hn
  · exact expressionStatement_reads he

theorem statement_reads : Reads text (n + 1) (statement nested) := fun s h => by
  refine .ahead ?_
  split
  · exact h.last (expressionStatement_reads he)
  · exact h.last (expressionStatement_reads he)
  · exact h.last (expressionStatement_reads he)
  · exact h.last (expressionStatement_reads he)
  · exact h.last (expressionStatement_reads he)
  · exact h.last (expressionStatement_reads he)
  · exact h.last (block_reads hn)
  · exact h.last emptyStatement_reads
  · exact h.last (expressionStatement_reads he)
  · refine h.settle .checkAsyncFunction fun b t h => .ite (fun _ => h.last (function_reads hn _ _)) fun _ => ?_
    exact h.last (labeledStatement_reads hn he)
  · exact h.last (keywordStatement_reads hn he _)
  · exact .failAt
  · exact .failAt
  · exact .failAt

end

end

end EcmaTree.Course
