import EcmaTree.Grammar.Function
import EcmaTree.Grammar.Template
import EcmaTree.Proofs.Plain.Combinators

/-!
# Templates, patterns, parameters and functions without JSX

`Tame` is what the productions assume of the nested ones.
-/

namespace EcmaTree

theorem Token.not_punctuator_of_less {t : Token} (ht : t.lexeme = .punctuator .lt)
    (p : Punctuator) [hp : Evident p.isNoLess] :
    ¬ t.isPunctuator p = true := by
  rw [Token.isPunctuator, ht, beq_iff_eq]
  rintro rfl
  exact absurd hp.eq (by decide)

namespace Parse

/-- The production takes the same way with JSX, and does not begin with `<`. -/
structure Proceeds {α : Type} (I : Invariant) (free : Bool) (p : Parse α) : Prop where
  goes : Goes I free p
  halts : Halts false p

/-- No nested production begins with `<`, and only assignments and items of statement lists may end before one. -/
structure Tame (I : Invariant) (nested : Nested) : Prop where
  assignment : Proceeds (α := Node) I true (nested .assignment)
  unary : Proceeds (α := Node) I false (nested .unary)
  exponentiation : Proceeds (α := Node) I false (nested .exponentiation)
  callee : Proceeds (α := Node) I false (nested .callee)
  callChain : Proceeds (α := Node) I false (nested .callChain)
  pattern (kind : Option VariableKind) : Proceeds (α := Node × List Token) I false (nested (.pattern kind))
  statement : Proceeds (α := Node) I false (nested .statement)
  listItem : Proceeds (α := Node) I true (nested .listItem)

variable {I : Invariant} {free : Bool} {nested : Nested}

/-! ## Names -/

theorem identifierName_goes : Goes I free identifierName :=
  .quiet .mark fun _ => .bind .next fun _ => .ite (.of_quiet (.finish _ _)) (.of_stops .failAt)

theorem bindingName_goes (kind : Option VariableKind) : Goes I free (bindingName kind) := by
  refine .quiet .mark fun _ => .bind .next fun t => .quiet .context fun c => ?_
  have done (start : Place) : Goes I free (finish start (.identifier t.text)) := .of_quiet (.finish _ _)
  refine .ite (.ite (.of_stops (.bind .tolerateWith)) (.guard .failAt (done _))) (.ite ?_ (.guard .tolerateAt (done _)))
  exact .ite (.of_stops (.bind .tolerateWith)) (.ite (.of_stops (.bind .failAt)) (done _))

theorem bindingName_halts (kind : Option VariableKind) : Halts free (bindingName kind) :=
  .quiet .mark fun _ => .next fun t ht s _ a u h => by
  have other : Punctuator.lt.text ≠ "let" := by decide
  simp [context, Token.isKeyword, Token.isIdentifier, Token.isAnyKeyword, Token.text, ht, other] at h
  cases h

section
variable (hn : Tame I nested)
include hn

theorem expression_proceeds : Proceeds I true (expression nested) where
  goes := .quiet .ahead fun _ => .last (.commaSeparated hn.assignment.goes.isolate) fun _ => by
    split
    · exact .pure _
    · exact .finish _ _
  halts := .quiet .ahead fun _ => .first (.commaSeparated hn.assignment.halts.isolate)

/-! ## Templates -/

omit hn in
theorem templateElement_goes (tagged : Bool) : Goes I free (templateElement tagged) := .quiet .ahead fun _ => by
  split
  · refine .quiet .mark fun _ => .bind .next fun t => ?_
    have done (start : Place) (chunk : TemplateChunk) : Goes I free (do
        return (← finish start (.templateElement chunk.raw chunk.cooked chunk.isTail), chunk.isTail)) :=
      .of_quiet (.bind (.finish _ _) fun _ => .pure _)
    split
    · exact .guardUnless .failWith (done _ _)
    · exact done _ _
  · exact .of_stops .failHere

omit hn in
theorem templateElement_halts (tagged : Bool) : Halts free (templateElement tagged) := .ahead fun t ht => by
  rw [ht]
  exact .of_stops .failHere

theorem template_goes (tagged : Bool) : Goes I free (template nested tagged) := by
  refine .quiet .mark fun _ => .bind (templateElement_goes _) fun (_, _) => .bind (.loop ?_ _) fun (_, _, _) =>
    .of_quiet (.finish _ _)
  intro (quasis, expressions, isTail)
  refine .ite (.pure _) (.bindFree (expression_proceeds hn).goes (fun _ => ?_) fun _ =>
    .first (templateElement_halts _))
  exact .bind (templateElement_goes _) fun (_, _) => .pure _

/-! ## Keys and patterns -/

theorem propertyKey_goes : Goes I free (propertyKey nested) := by
  refine .quiet .mark fun start => .bind .next fun t => ?_
  have literal : Quiet (do
      if (← isStrict) && t.isLegacy then tolerateWith t .octalInStrict
      finish start (literalOf t)) := .bind .isStrict fun _ => .guard .tolerateWith (.finish _ _)
  split
  case h_1 | h_2 => exact .of_quiet literal
  case h_7 =>
    exact .bindFree hn.assignment.goes.isolate (fun _ => .bind (.expect _) fun _ => .pure _) fun _ => .first .expect
  case h_8 => exact .of_stops .failAt
  all_goals exact .of_quiet (.finish _ _)

theorem patternWithDefault_goes (kind : Option VariableKind) : Goes I true (patternWithDefault nested kind) := by
  refine .quiet .ahead fun _ => .bind (hn.pattern kind).goes fun (_, _) => .bind (.accept _) fun _ => .ite ?_ (.pure _)
  exact .last hn.assignment.goes.isolate.withContext fun _ => .bind (.finish _ _) fun _ => .pure _

theorem restElement_goes (kind : Option VariableKind) : Goes I free (restElement nested kind) :=
  .quiet .mark fun _ => .bind (.expect _) fun _ => .bind (hn.pattern kind).goes fun (_, _) =>
    .of_quiet (.bind (.finish _ _) fun _ => .pure _)

theorem arrayPattern_goes (kind : Option VariableKind) : Goes I free (arrayPattern nested kind) := by
  refine .quiet .mark fun _ => .bind (.expect _) fun _ => .bind (.loop (fun items => ?_) _) fun _ =>
    .bind (.expect _) fun _ => .of_quiet (.bind (.finish _ _) fun _ => .pure _)
  refine .quiet (.check _) fun _ =>
    .ite (.pure _) (.bind (.accept _) fun _ => .ite (.pure _) (.quiet (.check _) fun _ => .ite ?_ ?_))
  · exact .bind (restElement_goes hn kind) fun (_, _) => .pure _
  · refine .bindFree (patternWithDefault_goes hn kind) (fun (_, _) => ?_) fun (_, _) => .check (.first .expect)
    exact .quiet (.check _) fun _ => .ite (.pure _) (.bind (.expect _) fun _ => .pure _)

theorem finalRest_goes (closing : Punctuator) (notLast : Cause) : Goes I free (finalRest nested closing notLast) := by
  refine .quiet .mark fun _ => .bind (.expect _) fun _ => .bind (hn.pattern none).goes fun (_, _) => .of_quiet ?_
  refine .bind (.check _) fun _ => .guard .failHere (.bind (.check _) fun _ => .guardUnless .failHere ?_)
  exact .bind (.finish _ _) fun _ => .pure _

theorem namedMemberValue_goes (kind : Option VariableKind) (name : Token) (target : Node) :
    Goes I true (namedMemberValue nested kind name target) := by
  refine .bind (.accept _) fun _ => .ite ?_ (.quiet (.check _) fun _ => .ite (.pure _) (.bind (.expect _) fun _ => ?_))
  · exact .last hn.assignment.goes fun _ => .bind (.finish _ _) fun _ => .pure _
  · exact .last (patternWithDefault_goes hn kind) fun (_, _) => .pure _

theorem memberPattern_goes (kind : Option VariableKind) : Goes I true (memberPattern nested kind) := by
  refine .quiet .mark fun _ => .quiet .ahead fun _ => .ite ?_ ?_
  · refine .bind (bindingName_goes none) fun _ => .quiet (.finish _ _) fun _ => ?_
    exact .last (namedMemberValue_goes hn kind _ _) fun (_, _, _) => .bind (.finish _ _) fun _ => .pure _
  · refine .quiet (.check _) fun _ => .bind (propertyKey_goes hn) fun _ => .bind (.expect _) fun _ => ?_
    exact .last (patternWithDefault_goes hn kind) fun (_, _) => .bind (.finish _ _) fun _ => .pure _

theorem objectPattern_goes (kind : Option VariableKind) : Goes I free (objectPattern nested kind) := by
  refine .quiet .mark fun _ => .bind (.expect _) fun _ => .bind (.items ?_) fun _ => .bind (.expect _) fun _ =>
    .of_quiet (.bind (.finish _ _) fun _ => .pure _)
  have closed (item : Node × List Token) : Goes I false (do
      unless ← check .rightBrace do expect .comma
      return item) := .quiet (.check _) fun _ => .ite (.pure _) (.bind (.expect _) fun _ => .pure _)
  refine .quiet (.check _) fun _ => .ite (.bind (finalRest_goes hn _ _) closed) ?_
  exact .bindFree (memberPattern_goes hn kind) closed fun _ => .check (.first .expect)

theorem pattern_proceeds (kind : Option VariableKind) : Proceeds I free (pattern nested kind) where
  goes := by
    refine .quiet .ahead fun _ =>
      .ite (arrayPattern_goes hn kind) (.ite (objectPattern_goes hn kind) (.guard .tolerateWith ?_))
    exact .bind (bindingName_goes kind) fun _ => .pure _
  halts := .ahead fun t ht => by
    refine .ite (fun h => absurd h (Token.not_punctuator_of_less ht _)) fun _ =>
      .ite (fun h => absurd h (Token.not_punctuator_of_less ht _)) fun _ => ?_
    exact .guard .tolerateWith (.first (bindingName_halts kind))

/-! ## Parameters -/

omit hn in
theorem failOffender_quiet (cause : Option Cause) (offender : Option Offender) :
    Quiet (failOffender cause offender) := by
  unfold failOffender
  split
  · exact .of_stops fun s hs a t h => by cases h
  · exact .pure _

omit hn in
theorem tolerateOffender_quiet (cause : Option Cause) (offender : Option Offender) :
    Quiet (tolerateOffender cause offender) := by
  unfold tolerateOffender
  split
  · exact .of_stops fun s hs => Stops.tolerate _ s hs
  · exact .pure _

theorem parameter_goes (ps : Parameters) : Goes I true (parameter nested ps) := by
  have added (names : List Token) (param : Node) : Quiet (do
      let strict ← isStrict
      return (names.foldl (fun ps t => ps.bind strict (.token t) t.text) ps).add param) :=
        .bind .isStrict fun _ => .pure _
  refine .quiet (.check _) fun _ => .ite (.last (finalRest_goes hn _ _) fun (_, _) => added _ _) ?_
  exact .last (patternWithDefault_goes hn none) fun (_, _) => added _ _

theorem parameterList_goes (first : Parameters) : Goes I free (parameterList nested first) := by
  refine .quiet (.check _) fun _ => .ite (.pure _) (.loop (fun ps => ?_) _)
  refine .quiet .ahead fun _ => .ite (.pure _) (.bindFree (parameter_goes hn ps) (fun _ => ?_)
    fun _ => .check (.first .expect))
  exact .quiet (.check _) fun _ =>
    .ite (.pure _) (.bind (.expect _) fun _ => .quiet (.check _) fun _ => .ite (.pure _) (.pure _))

theorem parameters_goes (restricted : Option Token) : Goes I free (parameters nested restricted) :=
  .bind (.expect _) fun _ => .bind (parameterList_goes hn _) fun _ => .bind (.expect _) fun _ =>
    .quiet .context fun _ => .guard .failHere (.pure _)

omit hn in
theorem arrowParameter_quiet (isAsync : Bool) (param : Node) : Quiet (arrowParameter isAsync param) := by
  unfold arrowParameter
  split
  · split
    · exact .of_stops .failAhead
    · exact .pure _
    · exact .pure _
  · exact .ite (.of_stops .failAhead) (.pure _)

omit hn in
theorem arrowParameters_quiet (list : Node) (isAsync : Bool) : Quiet (arrowParameters list isAsync) := by
  have nodes : Quiet (arrowNodes list) := by
    unfold arrowNodes
    split
    · exact .pure _
    · exact .pure _
    · exact .of_stops .failAhead
  have each : ∀ params : List Node, Quiet (params.mapM (arrowParameter isAsync)) := fun params => by
    induction params with
    | nil => exact .pure _
    | cons param params ih =>
      rw [List.mapM_cons]
      exact .bind (arrowParameter_quiet isAsync param) fun _ => .bind ih fun _ => .pure _
  exact .bind nodes fun params => .bind (each params) fun _ => .bind .context fun _ =>
    .guard .failAhead (.guard .failHere (.pure _))

/-! ## Bodies -/

theorem directive_goes : Goes I free (directive nested) := by
  refine .quiet .ahead fun _ => .quiet .mark fun _ => .bindFree (expression_proceeds hn).goes (fun _ => ?_)
    fun _ => .first .endStatement
  exact .bind .endStatement fun _ => .of_quiet (.bind (.finish _ _) fun _ => .pure _)

omit hn in
theorem useStrict_quiet (first : Token) (legacy : Option Token) : Quiet (useStrict first legacy) := by
  have allowed : Quiet (do
      unless (← context).allowStrictDirective do tolerateWith first .strictDirectiveNotSimple) :=
    .bind .context fun _ => .ite (.pure _) (.of_stops .tolerateWith)
  refine .bind (.setContext fun c => { c with strict := true }) fun _ => ?_
  split
  · exact .of_stops (.bind .tolerateWith)
  · exact allowed

theorem prologue_goes : Goes I free (prologue nested) := by
  refine .bind (.loop (fun (statements, legacy) => ?_) _) fun (_, _) => .pure _
  refine .quiet .ahead fun _ => .ite (.pure _) (.bind (directive_goes hn) fun (_, text?) => ?_)
  cases text? with
  | none => exact .pure _
  | some text => exact .ite (.quiet (useStrict_quiet _ _) fun _ => .pure _) (.pure _)

omit hn in
theorem atBodyEnd_quiet : Quiet atBodyEnd := .bind .ahead fun _ => .pure _

theorem functionBody_goes : Goes I free (functionBody nested) := by
  refine .quiet .mark fun _ => .bind (.expect _) fun _ => .bind (prologue_goes hn) fun directives =>
    .get (fun _ => rfl) fun s => ?_
  refine .quiet (.setLabels fun _ => []) fun _ =>
    .bind (.withContext (.bind ?_ fun _ => .bind (.expect _) fun _ => .pure _)) fun _ => ?_
  · refine .manyBefore atBodyEnd_quiet (fun s hs => ?_) hn.listItem.goes hn.listItem.halts
    have last : (s.lookahead.isEnd || s.lookahead.isPunctuator .rightBrace) = false := by
      rw [hs.isPunctuator, Token.isEnd, hs.less]
      rfl
    exact congrArg (EStateM.Result.ok · s) last
  · exact .of_quiet (.bind (.setLabels fun _ => s.labels) fun _ => .finish _ _)

/-! ## Functions -/

omit hn in
theorem checkAsyncFunction_quiet : Quiet checkAsyncFunction :=
  .bind (.checkWord _) fun _ => .ite (.get (fun _ => rfl) fun _ => .bind .second fun _ => .pure _) (.pure _)

omit hn in
theorem checkFunctionName_quiet (t : Token) : Quiet (checkFunctionName t) :=
  .bind .isStrict fun _ => .ite (.guard .tolerateWith (.pure _)) (.ite (.pure _) (.ite (.pure _) (.pure _)))

theorem functionRest_goes (restricted : Option Token) (cause : Option Cause) :
    Goes I free (functionRest nested restricted cause) := by
  refine .bind (parameters_goes hn _) fun ps => .bind (.withContext ?_) fun _ => .pure _
  refine .bind (functionBody_goes hn) fun _ => .quiet .isStrict fun _ => .ite (.of_quiet ?_) (.pure _)
  exact .bind (failOffender_quiet _ _) fun _ => .bind (tolerateOffender_quiet _ _) fun _ => .pure _

omit hn in
theorem functionName_goes (isExpression generator : Bool) : Goes I free (functionName isExpression generator) := by
  refine .quiet .ahead fun _ => .quiet .isStrict fun _ =>
    .ite (.bind identifierName_goes fun _ => ?_) (.bind (bindingName_goes none) fun _ => ?_)
  all_goals exact .quiet (checkFunctionName_quiet _) fun (_, _) => .pure _

omit hn in
theorem acceptAsync_goes (form : FunctionForm) : Goes I free (acceptAsync form) := by
  have word : Goes I free (do skip; return true) := .bind .skip fun _ => .pure _
  exact .quiet (.checkWord _) fun _ => .ite (.quiet .context fun _ => .guard .tolerateHere word) (.pure _)

omit hn in
theorem optionalFunctionName_goes (form : FunctionForm) (nameIsOptional generator : Bool) :
    Goes I free (optionalFunctionName form nameIsOptional generator) :=
  .quiet (.check _) fun _ => .ite (.pure _) (.bind (functionName_goes _ _) fun (_, _, _) => .pure _)

theorem function_goes (form : FunctionForm) (nameIsOptional : Bool) :
    Goes I free (function nested form nameIsOptional) := by
  refine .quiet .mark fun _ => .bind (acceptAsync_goes form) fun _ => .bind (.expectKeyword _) fun _ =>
    .bind (.accept _) fun _ => ?_
  refine .bind (.withContext ?_) fun (_, _, _) => .of_quiet (.finish _ _)
  refine .bind (optionalFunctionName_goes _ _ _) fun (_, _, _) =>
    .bind (.withContext (functionRest_goes hn _ _)) fun (_, _) => .pure _

/-! ## Methods -/

theorem methodBody_goes (ps : Parameters) : Goes I free (methodBody nested ps) := by
  refine .quiet .nonPattern fun _ =>
    .withContext (.bind (functionBody_goes hn).isolate fun _ => .quiet .isStrict fun _ => ?_)
  refine .ite (.of_quiet ?_) (.pure _)
  exact .bind (tolerateOffender_quiet _ _) fun _ => .bind (tolerateOffender_quiet _ _) fun _ => .pure _

theorem method_goes (generator async : Bool) : Goes I free (method nested generator async) := by
  refine .quiet .mark fun _ => .bind (.withContext (.bind (parameters_goes hn _) fun _ => ?_)) fun (_, _) =>
    .of_quiet (.finish _ _)
  exact .bind (methodBody_goes hn _) fun _ => .pure _

theorem accessor_goes {checkParams : List Node → Parse Unit} (hcheck : ∀ params, Quiet (checkParams params)) :
    Goes I free (accessor nested checkParams) := by
  refine .quiet .mark fun _ => .bind (.withContext (.bind (parameters_goes hn _) fun _ => ?_)) fun (_, _) =>
    .of_quiet (.finish _ _)
  exact .quiet (hcheck _) fun _ => .bind (methodBody_goes hn _) fun _ => .pure _

theorem getter_goes : Goes I free (getter nested) := accessor_goes hn fun _ => .ite (.pure _) (.of_stops .tolerateHere)

theorem setter_goes : Goes I free (setter nested) := accessor_goes hn fun params => by
  unfold checkSetter
  split
  · split
    · exact .of_stops .tolerateHere
    · exact .pure _
  · exact .of_stops .tolerateHere

theorem generatorMethod_goes : Goes I free (generatorMethod nested) :=
  .quiet .mark fun _ => .bind (.withContext (parameters_goes hn _)) fun _ =>
    .bind (.withContext (methodBody_goes hn _)) fun _ => .of_quiet (.finish _ _)

end

end Parse

end EcmaTree
