import EcmaTree.Grammar.Program
import EcmaTree.Grammar.Statement
import EcmaTree.Proofs.Recording.Expression

/-!
# Statements and programs with another record

What a head of a `for` is, what may be jumped to and which names are bound shows in kinds and names, which are the same.
All productions go the same way at any number of levels; so a whole source is read the same way, whatever is recorded.
-/

namespace EcmaTree.Parse

open Marked (marked)

attribute [local simp] Kind.map Kind.traverse Kind.traverseOption_eq Kind.traverseList_eq Kind.traverseSparse_eq
  Marked.marked_option

instance : Marked ForHead where
  marked g
    | .steps init test step => .steps (marked g init) (marked g test) (marked g step)
    | .keys left right => .keys (marked g left) (marked g right)
    | .values left right => .values (marked g left) (marked g right)

@[simp] theorem marked_steps (g : NodeInfo → NodeInfo) (init test step : Option Node) :
    marked g (ForHead.steps init test step) = .steps (marked g init) (marked g test) (marked g step) := rfl

variable {r : Record} {nested : Nested}

section
variable (hn : Followed r nested)
include hn

/-! ## Variable declarations -/

omit hn in
theorem checkBound_follows (target : Node) : Follows r (checkBound target) (checkBound (target.mapInfo r.stamp)) := by
  rw [checkBound, checkBound, Node.isRestrictedName_mapInfo]
  exact .step .isStrict fun _ => .ite (.tolerateHere _) (.pure ())

theorem initializer_follows : Follows r (initializer nested) (initializer nested) :=
  .step (.expect _) fun _ => .bind (.isolate hn.assignment) fun e => .pure (some e)

omit hn in
theorem declarator_follows (start : Place) (target : Node) (init : Option Node) :
    Follows r (finish start (.variableDeclarator target init))
      (finish start (.variableDeclarator (target.mapInfo r.stamp) (marked r.stamp init))) := .finishing _ (by simp)

theorem varBinding_follows (inHead : Bool) : Follows r (varBinding nested inHead) (varBinding nested inHead) := by
  refine .step .mark fun start => .bindPair (pattern_follows hn _) fun target _ =>
    .step (checkBound_follows target) fun _ => ?_
  dsimp only
  rw [Marked.marked_node, Node.isIdentifier_mapInfo]
  refine .step (.check _) fun _ =>
    .ite (.bind (initializer_follows hn) fun init => ?_) (.bind (.pure none) fun init => ?_)
  · exact declarator_follows start target init
  · exact declarator_follows start target init

theorem constInitializer_follows : Follows r (constInitializer nested) (constInitializer nested) :=
  .step .ahead fun _ => .ite (.pure none) (.ite (initializer_follows hn) (.failHere _))

theorem lexicalBinding_follows (kind : VariableKind) (inHead : Bool) :
    Follows r (lexicalBinding nested kind inHead) (lexicalBinding nested kind inHead) := by
  refine .step .mark fun start => .bindPair (pattern_follows hn _) fun target _ =>
    .step (checkBound_follows target) fun _ => ?_
  dsimp only
  rw [Marked.marked_node, Node.isIdentifier_mapInfo]
  refine .step (.check _) fun _ => .ite (.bind (constInitializer_follows hn) fun init => ?_) (.ite ?_ ?_)
  · exact declarator_follows start target init
  · exact .bind (initializer_follows hn) fun init => declarator_follows start target init
  · exact .bind (.pure none) fun init => declarator_follows start target init

theorem bindings_follows (kind : VariableKind) (inHead : Bool) :
    Follows r (bindings nested kind inHead) (bindings nested kind inHead) :=
  .commaSeparated (.ite (varBinding_follows hn _) (lexicalBinding_follows hn _ _))

theorem varStatement_follows : Follows r (varStatement nested) (varStatement nested) :=
  .step .mark fun _ => .step (.expectKeyword _) fun _ => .bind (bindings_follows hn _ _) fun _ =>
    .step .endStatement fun _ => .finishing _ (by simp)

omit hn in
theorem declarationWord_follows : Follows r declarationWord declarationWord := by
  refine .step .next fun t => ?_
  cases VariableKind.ofText? t.text with
  | some kind => exact .pure kind
  | none => exact .failAt t

theorem lexicalDeclaration_follows : Follows r (lexicalDeclaration nested) (lexicalDeclaration nested) :=
  .step .mark fun _ => .step declarationWord_follows fun _ => .bind (bindings_follows hn _ _) fun _ =>
    .step .endStatement fun _ => .finishing _ (by simp)

omit hn in
theorem checkLet_follows : Follows r checkLet checkLet := .step .second fun _ => .pure _

/-! ## Loops -/

omit hn in
theorem missingParen_follows : Follows r missingParen missingParen :=
  .get fun _ => .ite (.pure none) (.step .passOver fun _ => .step .mark fun _ =>
    .bind (.finish _ _) fun n => .pure (some n))

omit hn in
theorem bodyAfterParen_follows {body : Parse Node} (hbody : Follows r body body) :
    Follows r (bodyAfterParen body) (bodyAfterParen body) :=
  .bind missingParen_follows fun
    | some empty => .pure empty
    | none => .step (.expect _) fun _ => hbody

omit hn in
theorem checkLoopBody_follows : Follows r checkLoopBody checkLoopBody :=
  .step .ahead fun _ => .ite (.tolerateHere _) (.pure ())

omit hn in
theorem endDoWhile_follows : Follows r endDoWhile endDoWhile := by
  refine .step (.check _) fun _ => .get fun _ => .ite .passOver (.step (.expect _) fun _ => ?_)
  rw [discard_eq]
  exact .step (.accept _) fun _ => .pure ()

theorem doWhileStatement_follows : Follows r (doWhileStatement nested) (doWhileStatement nested) := by
  refine .step .mark fun _ => .step (.expectKeyword _) fun _ => .step checkLoopBody_follows fun _ =>
    .bind (.withContext hn.statement) fun _ => ?_
  refine .step (.expectKeyword _) fun _ => .step (.expect _) fun _ => .bind (expression_follows hn) fun _ => ?_
  exact .step endDoWhile_follows fun _ => .finish _ _

theorem whileStatement_follows : Follows r (whileStatement nested) (whileStatement nested) := by
  refine .step .mark fun _ => .step (.expectKeyword _) fun _ => .step (.expect _) fun _ =>
    .bind (expression_follows hn) fun _ => ?_
  exact .bind (bodyAfterParen_follows (.withContext hn.statement)) fun _ => .finish _ _

/-! ## The head of `for` -/

theorem headSteps_follows (init : Option Node) :
    Follows r (headSteps nested init) (headSteps nested (marked r.stamp init)) := by
  refine .step (.check _) fun _ => .optionalUnless (.isolate (expression_follows hn)) fun _ =>
    .step (.expect _) fun _ => ?_
  exact .step (.check _) fun _ => .optionalUnless (.isolate (expression_follows hn)) fun _ => .pure _

theorem headKeys_follows (left : Node) : Follows r (headKeys nested left) (headKeys nested (left.mapInfo r.stamp)) :=
  .step .skip fun _ => .bind (expression_follows hn) fun _ => .pure _

theorem headValues_follows (left : Node) :
    Follows r (headValues nested left) (headValues nested (left.mapInfo r.stamp)) :=
  .step .skip fun _ => .bind hn.assignment fun _ => .pure _

omit hn in
theorem onlyBinding?_mapInfo (g : NodeInfo → NodeInfo) (declarations : List Node) :
    onlyBinding? (declarations.map (Node.mapInfo g)) =
      (onlyBinding? declarations).map fun found => (found.1.mapInfo g, found.2.map (Node.mapInfo g)) := by
  match declarations with
  | [] | _ :: _ :: _ => rfl
  | [d] =>
    rw [List.map_singleton, onlyBinding?, onlyBinding?, Node.kind_mapInfo]
    cases d.kind with
    | variableDeclarator target init => rw [Kind.map_variableDeclarator]; rfl
    | _ => rfl

theorem varHead_follows (isAwait : Bool) : Follows r (varHead nested isAwait) (varHead nested isAwait) := by
  refine .step .mark fun start => .step .skip fun _ => .bind (.withContext (bindings_follows hn _ _))
    fun declarations => ?_
  have declaration : Follows r (finish start (.variableDeclaration .var declarations))
      (finish start (.variableDeclaration .var (marked r.stamp declarations))) := .finishing _ (by simp)
  have steps : Follows r (finish start (.variableDeclaration .var declarations) >>= fun init =>
      expect .semicolon >>= fun _ => headSteps nested (some init))
      (finish start (.variableDeclaration .var (marked r.stamp declarations)) >>= fun init =>
      expect .semicolon >>= fun _ => headSteps nested (some init)) :=
    .bind declaration fun init => .step (.expect _) fun _ => headSteps_follows hn (some init)
  refine .step .ahead fun t => ?_
  rw [Marked.marked_list, Marked.marked_node, onlyBinding?_mapInfo]
  cases onlyBinding? declarations with
  | none => exact steps
  | some found =>
    obtain ⟨target, init⟩ := found
    simp only [Option.map_some, Option.isSome_map, Option.isNone_map, Node.isPattern_mapInfo]
    refine .ite (.step .isStrict fun _ => .guard (.tolerateHere _) ?_) (.ite ?_ steps)
    · exact .bind declaration fun n => headKeys_follows hn n
    · exact .bind declaration fun n => headValues_follows hn n

theorem lexicalHead_follows : Follows r (lexicalHead nested) (lexicalHead nested) := by
  refine .step .mark fun start => .step declarationWord_follows fun kind => .step .isStrict fun _ =>
    .step .ahead fun _ => .ite ?_ ?_
  · exact .bind (.finish _ _) fun n => headKeys_follows hn n
  refine .bind (.withContext (bindings_follows hn _ _)) fun declarations => ?_
  have declaration : Follows r (finish start (.variableDeclaration kind declarations))
      (finish start (.variableDeclaration kind (marked r.stamp declarations))) := .finishing _ (by simp)
  have single : (onlyBinding? (marked r.stamp declarations)).any (·.2.isNone) =
    (onlyBinding? declarations).any (·.2.isNone) := by
    rw [Marked.marked_list, Marked.marked_node, onlyBinding?_mapInfo]
    cases onlyBinding? declarations <;> simp
  rw [single]
  refine .step .ahead fun _ => .ite (.bind declaration fun n => headKeys_follows hn n) (.ite ?_ ?_)
  · exact .bind declaration fun n => headValues_follows hn n
  · exact .step .endStatement fun _ => .bind declaration fun n => headSteps_follows hn (some n)

omit hn in
theorem checkLoopTarget_follows (target : Node) (cause : Cause) :
    Follows r (checkLoopTarget target cause) (checkLoopTarget (target.mapInfo r.stamp) cause) := by
  rw [checkLoopTarget, checkLoopTarget, Node.isAssignment_mapInfo]
  exact .get fun _ => .ite (.tolerateHere _) (.pure ())

theorem headExpressions_follows (first : Token) (init : Node) :
    Follows r (headExpressions nested first init) (headExpressions nested first (init.mapInfo r.stamp)) := by
  refine .step (.check _) fun _ =>
    .ite (.bind (.loop (fun items => ?_) []) fun _ => .finishing _ (by simp)) (.pure init)
  · exact .step (.accept _) fun _ => .ite (.bind (.isolate hn.assignment) fun _ => .pure _) (.pure _)

theorem expressionHead_follows : Follows r (expressionHead nested) (expressionHead nested) := by
  refine .step .ahead fun first => .get fun s => .bind (.withContext (.inherit hn.assignment)) fun init =>
    .step .ahead fun _ => ?_
  rw [Marked.marked_node, ← Node.mapInfo_toPattern]
  refine .ite (.step (checkLoopTarget_follows init _) fun _ => headKeys_follows hn init.toPattern) (.ite ?_ ?_)
  · exact .step (checkLoopTarget_follows init _) fun _ => headValues_follows hn init.toPattern
  · refine .step (.modifyCover _) fun _ => .bind (headExpressions_follows hn first init) fun init => ?_
    exact .step (.expect _) fun _ => headSteps_follows hn (some init)

theorem forHead_follows (isAwait : Bool) : Follows r (forHead nested isAwait) (forHead nested isAwait) := by
  refine .step (.accept _) fun _ => .ite (headSteps_follows hn none) (.step (.checkKeyword _) fun _ =>
    .ite (varHead_follows hn _) ?_)
  exact .step (.checkKeyword _) fun _ => .step (.checkKeyword _) fun _ =>
    .ite (lexicalHead_follows hn) (expressionHead_follows hn)

omit hn in
theorem forAwait_follows : Follows r forAwait forAwait :=
  .step .ahead fun _ => .ite (.step .context fun _ => .guardUnless (.tolerateAt _) (.step .skip
    fun _ => .pure true)) (.pure false)

theorem forStatement_follows : Follows r (forStatement nested) (forStatement nested) := by
  refine .step .mark fun _ => .step (.expectKeyword _) fun _ => .step forAwait_follows fun _ =>
    .step (.expect _) fun _ => ?_
  refine .bind (forHead_follows hn _) fun head =>
    .bind (bodyAfterParen_follows (.withContext (.isolate hn.statement))) fun _ => ?_
  cases head with
  | steps init test step => exact .finishing _ (by simp)
  | keys left right => exact .finish _ _
  | values left right => exact .finish _ _

/-! ## Statements -/

theorem block_follows : Follows r (block nested) (block nested) :=
  .step .mark fun _ => .step (.expect _) fun _ => .bind (.itemsBefore _ hn.listItem) fun _ =>
    .step (.expect _) fun _ => .finishing _ (by simp)

omit hn in
theorem emptyStatement_follows : Follows r emptyStatement emptyStatement :=
  .step .mark fun _ => .step (.expect _) fun _ => .finish _ _

theorem expressionStatement_follows : Follows r (expressionStatement nested) (expressionStatement nested) :=
  .step .mark fun _ => .bind (expression_follows hn) fun _ => .step .endStatement fun _ => .finish _ _

theorem branch_follows : Follows r (branch nested) (branch nested) :=
  .step .isStrict fun _ => .step (.checkKeyword _) fun _ => .guard (.tolerateHere _) hn.statement

omit hn in
theorem acceptKeyword_follows (word : String) : Follows r (acceptKeyword word) (acceptKeyword word) :=
  .step (.checkKeyword _) fun _ => .ite (.step .skip fun _ => .pure true) (.pure false)

theorem ifStatement_follows : Follows r (ifStatement nested) (ifStatement nested) := by
  refine .step .mark fun _ => .step (.expectKeyword _) fun _ => .step (.expect _) fun _ =>
    .bind (expression_follows hn) fun _ => ?_
  refine .bind missingParen_follows fun
    | some _ => .finish _ _
    | none => .step (.expect _) fun _ => .bind (branch_follows hn) fun _ => .step (acceptKeyword_follows _) fun _ => ?_
  exact .optional (branch_follows hn) fun _ => .finishing _ (by simp)

theorem withStatement_follows : Follows r (withStatement nested) (withStatement nested) := by
  refine .step .isStrict fun _ => .guard (.tolerateHere _) (.step .mark fun _ => .step (.expectKeyword _) fun _ => ?_)
  exact .step (.expect _) fun _ => .bind (expression_follows hn) fun _ =>
    .bind (bodyAfterParen_follows hn.statement) fun _ => .finish _ _

omit hn in
theorem atCaseEnd_follows : Follows r atCaseEnd atCaseEnd := .step .ahead fun _ => .pure _

theorem switchCase_follows : Follows r (switchCase nested) (switchCase nested) := by
  have clause (start : Place) (test : Option Node) : Follows r
      (expect .colon >>= fun _ => manyBefore atCaseEnd (nested .listItem) >>= fun consequent =>
        finish start (.switchCase test consequent) >>= fun n => pure (n, test.isNone))
      (expect .colon >>= fun _ => manyBefore atCaseEnd (nested .listItem) >>= fun consequent =>
        finish start (.switchCase (marked r.stamp test) consequent) >>= fun n =>
          pure (n, (marked r.stamp test).isNone)) :=
    .step (.expect _) fun _ => .bind (.manyBefore atCaseEnd_follows hn.listItem) fun _ =>
      .bind (.finishing _ (by simp)) fun _ =>
      .giving (by simp [Marked.marked_option])
  refine .step .mark fun start => .step (acceptKeyword_follows _) fun _ =>
    .ite (.bind (.pure none) fun test => clause start test) ?_
  exact .step (.expectKeyword _) fun _ => .bind (expression_follows hn) fun e => .bind (.pure (some e))
    fun test => clause start test

theorem switchCases_follows : Follows r (switchCases nested) (switchCases nested) := by
  refine .step (.expect _) fun _ => .bindPair (.loop (fun (cases, hasDefault) => ?round) ([], false)) fun cases _ => ?_
  case round =>
    refine .step (.check _) fun _ => .ite (.pure _) (.bindPair (switchCase_follows hn) fun _ _ => ?_)
    exact .guard (.failHere _) (.pure _)
  · exact .step (.expect _) fun _ => .giving (by simp)

theorem switchStatement_follows : Follows r (switchStatement nested) (switchStatement nested) := by
  refine .step .mark fun _ => .step (.expectKeyword _) fun _ => .step (.expect _) fun _ =>
    .bind (expression_follows hn) fun _ => ?_
  exact .step (.expect _) fun _ => .bind (.withContext (switchCases_follows hn)) fun _ => .finishing _ (by simp)

/-! ## Jumps -/

omit hn in
theorem jumpLabel_follows : Follows r jumpLabel jumpLabel := by
  refine .get fun s => .ite (.bind (bindingName_follows none) fun label => ?_) (.pure none)
  rw [Marked.marked_node]
  dsimp only
  rw [Node.identifierName?_mapInfo]
  exact .guardUnless (.failHere _) (.pure (some label))

omit hn in
theorem continueStatement_follows : Follows r continueStatement continueStatement := by
  refine .step .mark fun _ => .step (.expectKeyword _) fun _ => .bind jumpLabel_follows fun label =>
    .step .endStatement fun _ => ?_
  rw [Marked.marked_option, Option.isNone_map]
  exact .step .context fun _ => .guard (.failHere _) (.finishing _ (by simp))

omit hn in
theorem breakStatement_follows : Follows r breakStatement breakStatement := by
  refine .step .mark fun _ => .step (.expectKeyword _) fun _ => .bind jumpLabel_follows fun label =>
    .step .endStatement fun _ => ?_
  rw [Marked.marked_option, Option.isNone_map]
  exact .step .context fun _ => .guard (.failHere _) (.finishing _ (by simp))

theorem returnStatement_follows : Follows r (returnStatement nested) (returnStatement nested) := by
  refine .step .context fun _ =>
    .guardUnless (.tolerateHere _) (.step .mark fun _ => .step (.expectKeyword _) fun _ => .get fun _ => ?_)
  exact .optional (expression_follows hn) fun _ => .step .endStatement fun _ => .finishing _ (by simp)

theorem throwStatement_follows : Follows r (throwStatement nested) (throwStatement nested) := by
  refine .step .mark fun _ => .step (.expectKeyword _) fun _ => .get fun _ => .guard (.failHere _) ?_
  exact .bind (expression_follows hn) fun _ => .step .endStatement fun _ => .finish _ _

omit hn in
theorem checkDistinct_follows :
    ∀ (seen : List String) (names : List Token), Follows r (checkDistinct seen names) (checkDistinct seen names)
  | _, [] => .pure ()
  | seen, t :: names => by
    rw [checkDistinct]
    exact .guard (.tolerateHere _) (checkDistinct_follows (t.text :: seen) names)

theorem catchParameter_follows : Follows r (catchParameter nested) (catchParameter nested) := by
  refine .step (.expect _) fun _ => .step (.check _) fun _ =>
    .guard .failAhead (.bindPair (pattern_follows hn none) fun target names => ?_)
  dsimp only
  rw [Marked.marked_node, Node.isRestrictedName_mapInfo]
  refine .step (checkDistinct_follows _ _) fun _ => .step .isStrict fun _ => .guard (.tolerateHere _) ?_
  exact .step (.expect _) fun _ => .pure target

theorem catchClause_follows : Follows r (catchClause nested) (catchClause nested) := by
  refine .step .mark fun _ => .step (.expectKeyword _) fun _ => .step (.check _) fun _ =>
    .optional (catchParameter_follows hn) fun _ => ?_
  exact .bind (block_follows hn) fun _ => .finishing _ (by simp)

theorem tryStatement_follows : Follows r (tryStatement nested) (tryStatement nested) := by
  refine .step .mark fun start => .step (.expectKeyword _) fun _ => .bind (block_follows hn) fun body =>
    .step (.checkKeyword _) fun _ => ?_
  refine .optional (catchClause_follows hn) fun handler => .step (acceptKeyword_follows _) fun _ =>
    .optional (block_follows hn) fun finalizer => ?_
  dsimp only
  rw [Marked.marked_option, Marked.marked_option, Option.isNone_map, Option.isNone_map]
  exact .guard (.failHere _) (.finishing _ (by simp))

omit hn in
theorem debuggerStatement_follows : Follows r debuggerStatement debuggerStatement :=
  .step .mark fun _ => .step (.expectKeyword _) fun _ => .step .endStatement fun _ => .finish _ _

/-! ## Labels -/

theorem labeledBody_follows : Follows r (labeledBody nested) (labeledBody nested) := by
  refine .step .ahead fun t => .ite (.step (.tolerateAt _) fun _ => classOf_follows hn _ _) (.ite ?_ hn.statement)
  refine .bind (function_follows hn _ _) fun declaration => .step .isStrict fun _ => ?_
  rw [Marked.marked_node, Node.isGenerator_mapInfo]
  exact .ite (.step (.tolerateWith _ _) fun _ => .pure declaration) (.guard (.tolerateWith _ _) (.pure declaration))

theorem labeled_follows (start : Place) (label : Node) (name : String) :
    Follows r (labeled nested start label name) (labeled nested start (label.mapInfo r.stamp) name) := by
  refine .step .skip fun _ => .get fun s =>
    .guard (.failHere _) (.step (.modifyLabels fun labels => name :: labels) fun _ => ?_)
  exact .bind (labeledBody_follows hn) fun _ => .step (.modifyLabels fun labels => labels.erase name) fun _ =>
    .finish _ _

theorem labeledStatement_follows : Follows r (labeledStatement nested) (labeledStatement nested) := by
  refine .step .mark fun start => .bind (expression_follows hn) fun e => .step (.check _) fun isLabel => ?_
  rw [Marked.marked_node, Node.identifierName?_mapInfo]
  cases e.identifierName?.filter fun _ => isLabel with
  | some name => exact labeled_follows hn start e name
  | none => exact .step .endStatement fun _ => .finish _ _

/-! ## All statements -/

theorem keywordStatement_follows (word : String) :
    Follows r (keywordStatement nested word) (keywordStatement nested word) := by
  unfold keywordStatement
  split
  · exact breakStatement_follows
  · exact continueStatement_follows
  · exact debuggerStatement_follows
  · exact doWhileStatement_follows hn
  · exact forStatement_follows hn
  · exact function_follows hn _ _
  · exact ifStatement_follows hn
  · exact returnStatement_follows hn
  · exact switchStatement_follows hn
  · exact throwStatement_follows hn
  · exact tryStatement_follows hn
  · exact varStatement_follows hn
  · exact whileStatement_follows hn
  · exact withStatement_follows hn
  · exact expressionStatement_follows hn

theorem statement_follows : Follows r (statement nested) (statement nested) := by
  refine .step .ahead fun t => ?_
  split
  case h_7 => exact block_follows hn
  case h_8 => exact emptyStatement_follows
  case h_10 =>
    exact .step checkAsyncFunction_follows fun _ => .ite (function_follows hn _ _) (labeledStatement_follows hn)
  case h_11 word _ => exact keywordStatement_follows hn word
  case h_12 | h_13 | h_14 => exact .failAt t
  all_goals exact expressionStatement_follows hn

end

end EcmaTree.Parse

/-! ## Programs -/

namespace EcmaTree

namespace Parse

open Marked (marked)

attribute [local simp] Kind.map Kind.traverse Kind.traverseOption_eq Kind.traverseList_eq Kind.traverseSparse_eq
  Marked.marked_option

variable {r : Record} {nested : Nested}

section
variable (hn : Followed r nested)
include hn

/-! ## Imports -/

omit hn in
theorem moduleSpecifier_follows : Follows r moduleSpecifier moduleSpecifier :=
  .step .mark fun _ => .step .ahead fun _ => .ite (.step .skip fun _ => .finish _ _) (.failHere _)

omit hn in
theorem failMissingFrom_follows : Follows r failMissingFrom failMissingFrom := .step .ahead fun _ => .failHere _

omit hn in
theorem fromModule_follows : Follows r fromModule fromModule :=
  .step (.checkWord _) fun _ => .guardUnless failMissingFrom_follows (.step .skip fun _ => moduleSpecifier_follows)

omit hn in
theorem specifiersInBraces_follows {item : Parse Node} (hitem : Follows r item item) :
    Follows r (specifiersInBraces item) (specifiersInBraces item) := by
  refine .step (.expect _) fun _ => .bind (.itemsBefore _ (.bind hitem fun n => ?_)) fun items =>
    .step (.expect _) fun _ => .pure items
  exact .step (.check _) fun _ => .guardUnless (.expect _) (.pure n)

omit hn in
theorem importSpecifier_follows : Follows r importSpecifier importSpecifier := by
  refine .step .mark fun _ => .step .ahead fun _ =>
    .ite (.bind (bindingName_follows none) fun imported => .step (.checkWord _) fun _ => .ite ?_ ?_) ?_
  · exact .step .skip fun _ => .bind (bindingName_follows none) fun _ => .finish _ _
  · exact .bind (.pure imported) fun _ => .finish _ _
  · refine .bind identifierName_follows fun _ => .step .next fun _ => .guardUnless (.failAt _) ?_
    exact .bind (bindingName_follows none) fun _ => .finish _ _

omit hn in
theorem importDefault_follows : Follows r importDefault importDefault :=
  .step .mark fun _ => .bind identifierName_follows fun _ => .finish _ _

omit hn in
theorem importNamespace_follows : Follows r importNamespace importNamespace := by
  refine .step .mark fun _ => .step (.expect _) fun _ => .step (.checkWord _) fun _ => .guardUnless (.failHere _) ?_
  exact .step .skip fun _ => .bind identifierName_follows fun _ => .finish _ _

omit hn in
theorem importsAfterDefault_follows : Follows r importsAfterDefault importsAfterDefault := by
  refine .step (.accept _) fun _ =>
    .ite (.step (.check _) fun _ => .ite ?_ (.step (.check _) fun _ => .ite ?_ .failAhead)) (.pure [])
  · exact .bind importNamespace_follows fun n => .pure [n]
  · exact specifiersInBraces_follows importSpecifier_follows

omit hn in
theorem importClause_follows : Follows r importClause importClause := by
  refine .step .ahead fun _ => .ite (specifiersInBraces_follows importSpecifier_follows)
    (.ite ?_ (.ite ?_ (.step .next fun _ => .failAt _)))
  · exact .bind importNamespace_follows fun n => .pure [n]
  · exact .bind importDefault_follows fun n => .bind importsAfterDefault_follows fun ns => .pure (n :: ns)

omit hn in
theorem importDeclaration_follows : Follows r importDeclaration importDeclaration := by
  have ended (start : Place) (specifiers : List Node) (source : Node) : Follows r
      (endStatement >>= fun _ => finish start (.importDeclaration specifiers source))
      (endStatement >>= fun _ => finish start (.importDeclaration (marked r.stamp specifiers)
        (source.mapInfo r.stamp))) :=
    .step .endStatement fun _ => .finishing _ (by simp)
  refine .step .context fun _ => .guard (.failHere _) (.step .mark fun start => .step (.expectKeyword _)
    fun _ => .step .ahead fun _ => .ite ?_ ?_)
  · exact .bind moduleSpecifier_follows fun source => .bind (.pure ([], source)) fun (specifiers, source) =>
      ended start specifiers source
  · refine .bind importClause_follows fun specifiers => .bind fromModule_follows fun source => ?_
    exact .bind (.pure (specifiers, source)) fun (specifiers, source) => ended start specifiers source

/-! ## Exports -/

omit hn in
theorem exportSpecifier_follows : Follows r exportSpecifier exportSpecifier := by
  refine .step .mark fun _ => .bind identifierName_follows fun localName => .step (.checkWord _) fun _ => .ite ?_ ?_
  · exact .step .skip fun _ => .bind identifierName_follows fun _ => .finish _ _
  · exact .bind (.pure localName) fun _ => .finish _ _

theorem defaultExpression_follows : Follows r (defaultExpression nested) (defaultExpression nested) := by
  have ended (e : Node) : Follows r (endStatement >>= fun _ => pure e) (endStatement >>= fun _ =>
      pure (e.mapInfo r.stamp)) :=
    .step .endStatement fun _ => .pure e
  refine .step .ahead fun _ => .guard (.failHere _) (.ite (.bind (objectLiteral_follows hn) ended) ?_)
  exact .ite (.bind (arrayLiteral_follows hn) ended) (.bind hn.assignment ended)

theorem exportedDefault_follows : Follows r (exportedDefault nested) (exportedDefault nested) := by
  refine .step .ahead fun _ => .ite (function_follows hn _ _)
    (.ite (classOf_follows hn _ _) (.ite ?_ (defaultExpression_follows hn)))
  exact .step checkAsyncFunction_follows fun _ => .ite (function_follows hn _ _) hn.assignment

theorem exportedDeclaration_follows : Follows r (exportedDeclaration nested) (exportedDeclaration nested) := by
  have found {p : Parse Node} (hp : Follows r p p) :
      Follows r (p >>= fun n => pure (some n)) (p >>= fun n => pure (some n)) :=
    .bind hp fun n => .pure (some n)
  refine .step .ahead fun t => ?_
  split
  · exact found (lexicalDeclaration_follows hn)
  · exact found (lexicalDeclaration_follows hn)
  · exact found (varStatement_follows hn)
  · exact found (classOf_follows hn _ _)
  · exact found (function_follows hn _ _)
  · exact .failAt t
  · exact .step checkAsyncFunction_follows fun _ => .ite (found (function_follows hn _ _)) (.pure none)

omit hn in
theorem exportedNames_follows (start : Place) : Follows r (exportedNames start) (exportedNames start) := by
  have ended (items : List (Node × Bool)) (source : Option Node) : Follows r
      (endStatement >>= fun _ => finish start (.exportNamedDeclaration none (items.map (·.1)) source))
      (endStatement >>= fun _ =>
        finish start (.exportNamedDeclaration none ((marked r.stamp items).map (·.1)) (marked r.stamp source))) :=
    .step .endStatement fun _ => .finishing _ (by rw [Marked.map_fst]; simp; rfl)
  have names (items : List (Node × Bool)) :
      (marked r.stamp items).any (fun item => item.2) = items.any fun item => item.2 := by
    simp [Function.comp_def]
  refine .step (.expect _) fun _ => .bind (.itemsBefore _ ?_) fun items => .step (.expect _) fun _ => ?_
  · refine .step (.checkKeyword _) fun isDefault => .bind exportSpecifier_follows fun specifier => ?_
    refine .step (.check _) fun _ => .guardUnless (.expect _) (.giving ?_)
    rw [Marked.marked_pair, Marked.marked_nodeless r.stamp isDefault]
  · refine .step (.checkWord _) fun _ => .ite ?_ ?_
    · exact .bind fromModule_follows fun source => ended items (some source)
    · dsimp only
      rw [names]
      exact .guard failMissingFrom_follows (ended items none)

theorem exportDeclaration_follows : Follows r (exportDeclaration nested) (exportDeclaration nested) := by
  refine .step .context fun _ => .guard (.failHere _) (.step .mark fun start => .step (.expectKeyword _) fun _ => ?_)
  refine .step (acceptKeyword_follows _) fun _ => .ite (.bind (exportedDefault_follows hn) fun _ => .finish _ _) ?_
  refine .step (.accept _) fun _ => .ite (.bind fromModule_follows fun _ => .step .endStatement fun _ => .finish _ _) ?_
  exact .bind (exportedDeclaration_follows hn) fun
    | some _ => .finish _ _
    | none => exportedNames_follows start

/-! ## Items of statement lists -/

theorem importItem_follows : Follows r (importItem nested) (importItem nested) := by
  refine .step .ahead fun _ => .step checkImportCall_follows fun _ =>
    .ite (expressionStatement_follows hn) (.step checkImportMeta_follows fun _ => ?_)
  exact .ite (statement_follows hn) (.step .context fun _ => .guardUnless (.tolerateWith _ _) importDeclaration_follows)

theorem listItem_follows : Follows r (listItem nested) (listItem nested) := by
  refine .step (.modifyCover _) fun _ => .step .ahead fun t => ?_
  split
  · exact .step .context fun _ => .guardUnless (.tolerateWith _ _) (exportDeclaration_follows hn)
  · exact importItem_follows hn
  · exact lexicalDeclaration_follows hn
  · exact function_follows hn _ _
  · exact classOf_follows hn _ _
  · exact .step checkLet_follows fun _ => .ite (lexicalDeclaration_follows hn) (statement_follows hn)
  · exact statement_follows hn

/-! ## All levels -/

theorem step_followed : Followed r (step nested) where
  assignment := assignment_follows hn
  unary := unary_follows hn
  exponentiation := exponentiation_follows hn
  callee := callee_follows hn
  callChain := callChain_follows hn
  pattern := pattern_follows hn
  statement := statement_follows hn
  listItem := listItem_follows hn
  jsxElement := jsxElement_follows hn

omit hn in
theorem atLevels_followed : ∀ levels, Followed r (atLevels levels)
  | 0 => by constructor <;> intros <;> exact .throwing _
  | levels + 1 => step_followed (atLevels_followed levels)

theorem program_follows : Follows r (program nested) (program nested) := by
  have opening : Follows r opening opening := .step .skip fun _ => .modifying fun _ hs => ⟨⟨hs.record, hs.scanner⟩, rfl⟩
  have atEnd : Follows r atEnd atEnd := .step .ahead fun _ => .pure _
  refine .step opening fun _ => .step .mark fun _ => .bind (prologue_follows hn) fun directives => ?_
  exact .bind (.manyBefore atEnd hn.listItem) fun statements => .step .context fun _ => .finishing _ (by simp)

end

/-- A source is read the same way, whatever is recorded, with any number of levels and rounds. -/
theorem program_mirrors (text : String) (dialect : Dialect) (levels bound : Nat) (r : Record)
    (hr : r.share .complete = r) :
    Mirrors r (program (atLevels levels) { ParseState.initial text dialect with bound })
      (program (atLevels levels) { ParseState.initial text dialect r with bound }) := by
  have first : ParseState.sharing { ParseState.initial text dialect with bound } r =
      { ParseState.initial text dialect r with bound } := by
    rw [ParseState.sharing, ParseState.initial, ParseState.initial]
    simp only [hr]
    rfl
  have follows := program_follows (r := r) (atLevels_followed levels)
    { ParseState.initial text dialect with bound } ⟨rfl, rfl⟩
  rwa [first] at follows

theorem source_follows (text : String) (dialect : Dialect) (r : Record) (hr : r.share .complete = r) :
    Mirrors r (source text dialect) (source text dialect r) := program_mirrors text dialect _ _ r hr

end Parse

end EcmaTree
