import EcmaTree.Proofs.Recording.Basic

/-!
# Names, patterns and functions with another record

What a pattern binds and what is wrong with parameters shows in their names, which are the same.
-/

namespace EcmaTree.Parse

open Marked (marked)

attribute [local simp] Kind.map Kind.traverse Kind.traverseOption_eq Kind.traverseList_eq Kind.traverseSparse_eq
  Marked.marked_option

variable {r : Record}

/-- The nested productions go the same way with the record `r`. -/
structure Followed (r : Record) (nested : Nested) : Prop where
  assignment : Follows r (nested .assignment : Parse Node) (nested .assignment)
  unary : Follows r (nested .unary : Parse Node) (nested .unary)
  exponentiation : Follows r (nested .exponentiation : Parse Node) (nested .exponentiation)
  callee : Follows r (nested .callee : Parse Node) (nested .callee)
  callChain : Follows r (nested .callChain : Parse Node) (nested .callChain)
  pattern (kind : Option VariableKind) :
    Follows r (nested (.pattern kind) : Parse (Node × List Token)) (nested (.pattern kind))
  statement : Follows r (nested .statement : Parse Node) (nested .statement)
  listItem : Follows r (nested .listItem : Parse Node) (nested .listItem)
  jsxElement : Follows r (nested .jsxElement : Parse Node) (nested .jsxElement)

variable {nested : Nested}

theorem expression_follows (hn : Followed r nested) : Follows r (expression nested) (expression nested) := by
  refine .step .ahead fun first => .bind (.commaSeparated (.isolate hn.assignment)) fun
    | [] => .finishing _ (by simp)
    | [e] => .pure e
    | _ :: _ :: _ => .finishing _ (by simp)

/-! ## Templates -/

theorem templateElement_follows (tagged : Bool) : Follows r (templateElement tagged) (templateElement tagged) := by
  refine .step .ahead fun t => ?_
  split
  next chunk _ =>
    refine .step .mark fun start => .step .next fun t => ?_
    have element : Follows r
        (do return (← finish start (.templateElement chunk.raw chunk.cooked chunk.isTail), chunk.isTail))
        (do return (← finish start (.templateElement chunk.raw chunk.cooked chunk.isTail), chunk.isTail)) :=
      .bind (.finishing _ (by simp)) fun _ => .pure _
    cases chunk.invalidEscape with
    | some c => exact .ite element (.step (.failWith _ _) fun _ => element)
    | none => exact element
  · exact .failHere _

section
variable (hn : Followed r nested)
include hn

theorem template_follows (tagged : Bool) : Follows r (template nested tagged) (template nested tagged) := by
  refine .step .mark fun _ => .bind (templateElement_follows _) fun (first, isTail) => ?_
  refine .bind (.loop (fun (quasis, expressions, isTail) => .ite (.pure _) ?_) ([first], [], isTail))
    fun (quasis, expressions, _) => ?_
  · exact .finishing _ (by simp)
  · exact .bind (expression_follows hn) fun e => .bind (templateElement_follows _) fun (quasi, isTail) => .pure _

/-! ## Names and keys -/

omit hn in
theorem identifierName_follows : Follows r identifierName identifierName :=
  .step .mark fun _ => .step .next fun _ => .ite (.finishing _ (by simp)) (.failAt _)

omit hn in
theorem bindingName_follows (kind : Option VariableKind) : Follows r (bindingName kind) (bindingName kind) := by
  refine .step .mark fun start => .step .next fun t => .step .context fun _ => ?_
  have name : Follows r (finish start (.identifier t.text)) (finish start (.identifier t.text)) :=
    .finishing _ (by simp)
  have checked {p : Parse Unit} (hp : Follows r p p) : Follows r (p >>= fun _ => finish start (.identifier t.text))
      (p >>= fun _ => finish start (.identifier t.text)) := .step hp fun _ => name
  refine .ite (.ite (checked (.tolerateWith _ _)) (.ite (checked (.failAt _)) name)) (.ite (.ite ?_ ?_) ?_)
  · exact checked (.tolerateWith _ _)
  · exact .ite (checked (.failAt _)) name
  · exact .ite (checked (.tolerateAt _)) name

theorem propertyKey_follows : Follows r (propertyKey nested) (propertyKey nested) := by
  refine .step .mark fun _ => .step .next fun t => ?_
  split
  · exact .step .isStrict fun _ => .ite (.step (.tolerateWith _ _) fun _ => .finish _ _) (.finish _ _)
  · exact .step .isStrict fun _ => .ite (.step (.tolerateWith _ _) fun _ => .finish _ _) (.finish _ _)
  · exact .finishing _ (by simp)
  · exact .finishing _ (by simp)
  · exact .finishing _ (by simp)
  · exact .finishing _ (by simp)
  · exact .bind (.isolate hn.assignment) fun _ => .step (.expect _) fun _ => .pure _
  · exact .failAt _

/-! ## Patterns -/

theorem patternWithDefault_follows (kind : Option VariableKind) :
    Follows r (patternWithDefault nested kind) (patternWithDefault nested kind) := by
  refine .step .ahead fun _ => .bind (hn.pattern kind) fun (pattern, names) => .step (.accept _) fun _ =>
    .ite ?_ (.pure (pattern, names))
  exact .bind (.withContext (.isolate hn.assignment)) fun _ => .bind (.finishing _ (by simp)) fun _ => .pure (_, names)

theorem restElement_follows (kind : Option VariableKind) :
    Follows r (restElement nested kind) (restElement nested kind) :=
  .step .mark fun _ => .step (.expect _) fun _ => .bind (hn.pattern kind) fun (_, names) =>
    .bind (.finish _ _) fun _ => .pure (_, names)

theorem arrayPattern_follows (kind : Option VariableKind) :
    Follows r (arrayPattern nested kind) (arrayPattern nested kind) := by
  refine .step .mark fun _ => .step (.expect _) fun _ => .bind (.loop (fun items => ?item) []) fun items => ?rest
  case item =>
    refine .step (.check _) fun _ => .ite (.pure _) (.step (.accept _) fun _ => .ite (.pure _) ?_)
    refine .step (.check _) fun _ => .ite (.bind (restElement_follows hn kind) fun (_, _) => .pure _) ?_
    refine .bind (patternWithDefault_follows hn kind) fun (_, _) => .step (.check _) fun _ => ?_
    exact .ite (.pure _) (.step (.expect _) fun _ => .pure _)
  case rest =>
    exact .step (.expect _) fun _ => .bind (.finishing _ (by simp)) fun _ =>
      .giving (by simp [List.flatMap_def, Function.comp_def])

theorem finalRest_follows (closing : Punctuator) (notLast : Cause) :
    Follows r (finalRest nested closing notLast) (finalRest nested closing notLast) := by
  refine .step .mark fun _ => .step (.expect _) fun _ => .bind (hn.pattern none) fun (_, names) =>
    .step (.check _) fun _ => ?_
  refine .guard (.failHere _) (.step (.check _) fun _ => .guardUnless (.failHere _) ?_)
  exact .bind (.finish _ _) fun _ => .pure (_, names)

theorem namedMemberValue_follows (kind : Option VariableKind) (name : Token) (target : Node) :
    Follows r (namedMemberValue nested kind name target)
      (namedMemberValue nested kind name (target.mapInfo r.stamp)) := by
  refine .step (.accept _) fun _ => .ite ?_ (.step (.check _) fun _ => .ite (.pure (target, [name], true)) ?_)
  · exact .bind hn.assignment fun _ => .bind (.finish _ _) fun _ => .pure (_, [name], true)
  · exact .step (.expect _) fun _ => .bind (patternWithDefault_follows hn kind) fun (value, names) =>
      .pure (value, names, false)

theorem memberPattern_follows (kind : Option VariableKind) :
    Follows r (memberPattern nested kind) (memberPattern nested kind) := by
  refine .step .mark fun _ => .step .ahead fun first => .ite ?_ (.step (.check _) fun _ => ?_)
  · refine .bind (bindingName_follows none) fun _ => .bind (.finish _ (.identifier first.text)) fun target => ?_
    refine .bind (namedMemberValue_follows hn kind first target) fun (_, names, _) => ?_
    exact .bind (.finish _ _) fun _ => .pure (_, names)
  · refine .bind (propertyKey_follows hn) fun _ => .step (.expect _) fun _ =>
      .bind (patternWithDefault_follows hn kind) fun (_, names) => ?_
    exact .bind (.finish _ _) fun _ => .pure (_, names)

theorem objectPattern_follows (kind : Option VariableKind) :
    Follows r (objectPattern nested kind) (objectPattern nested kind) := by
  refine .step .mark fun _ => .step (.expect _) fun _ => .bind (.itemsBefore _ ?item) fun items => ?rest
  case item =>
    refine .step (.check _) fun _ =>
      .ite (.bind (finalRest_follows hn _ _) fun _ => ?_) (.bind (memberPattern_follows hn kind) fun _ => ?_)
    · exact .step (.check _) fun _ => .guardUnless (.expect _) (.pure _)
    · exact .step (.check _) fun _ => .guardUnless (.expect _) (.pure _)
  case rest =>
    exact .step (.expect _) fun _ => .bind (.finishing _ (by rw [Marked.map_fst]; simp)) fun _ =>
      .giving (by simp [List.flatMap_def, Function.comp_def])

theorem pattern_follows (kind : Option VariableKind) : Follows r (pattern nested kind) (pattern nested kind) := by
  refine .step .ahead fun t => .ite (arrayPattern_follows hn kind) (.ite (objectPattern_follows hn kind) ?_)
  have name : Follows r (do return (← bindingName kind, [t])) (do return (← bindingName kind, [t])) :=
    .bind (bindingName_follows kind) fun n => .pure (n, [t])
  exact .guard (.tolerateWith _ _) name

end

end EcmaTree.Parse


namespace EcmaTree

open Marked (marked)

attribute [local simp] Kind.map Kind.traverse Kind.traverseOption_eq Kind.traverseList_eq Kind.traverseSparse_eq
  Marked.marked_option

/-! ## Parameters -/

namespace Parameters

instance : Marked Parameters := ⟨fun g ps => { ps with params := marked g ps.params }⟩

variable (g : NodeInfo → NodeInfo) (ps : Parameters)

theorem bind_marked (strict : Bool) (offender : Offender) (name : String) :
    (marked g ps).bind strict offender name = marked g (ps.bind strict offender name) := by
  simp only [bind, show (marked g ps).names = ps.names from rfl, show (marked g ps).restricted = ps.restricted from rfl]
  split_ifs <;> rfl

theorem add_marked (param : Node) : (marked g ps).add (param.mapInfo g) = marked g (ps.add param) := by
  have params : (marked g ps).params = ps.params.map (Node.mapInfo g) := rfl
  rw [add, params, Node.isIdentifier_mapInfo, add, ← List.map_singleton, ← List.map_append]
  rfl

theorem binds_marked {α : Type} (strict : Bool) (offender : α → Offender) (name : α → String) (names : List α) :
    names.foldl (fun ps a => ps.bind strict (offender a) (name a)) (marked g ps) =
      marked g (names.foldl (fun ps a => ps.bind strict (offender a) (name a)) ps) := by
  induction names generalizing ps with
  | nil => rfl
  | cons a names ih => rw [List.foldl_cons, List.foldl_cons, bind_marked, ih]

theorem ofNodes_marked (strict : Bool) (nodes : List Node) :
    ofNodes strict (nodes.map (Node.mapInfo g)) = marked g (ofNodes strict nodes) := by
  have step (ps : Parameters) (nodes : List Node) : (nodes.map (Node.mapInfo g)).foldl (fun ps param =>
      (param.boundNames.foldl (fun ps name => ps.bind strict .binding name) ps).add param) (marked g ps) =
        marked g (nodes.foldl (fun ps param =>
          (param.boundNames.foldl (fun ps name => ps.bind strict .binding name) ps).add param) ps) := by
    induction nodes generalizing ps with
    | nil => rfl
    | cons n nodes ih =>
      have bound : n.boundNames.foldl (fun ps name => ps.bind strict .binding name) (marked g ps) =
          marked g (n.boundNames.foldl (fun ps name => ps.bind strict .binding name) ps) :=
        binds_marked g ps strict (fun _ => .binding) (fun name => name) _
      rw [List.map_cons, List.foldl_cons, List.foldl_cons, Node.boundNames_mapInfo, bound, add_marked, ih]
  exact step {} nodes

end Parameters

namespace Parse

variable {r : Record} {nested : Nested}

theorem failOffender_follows (cause : Option Cause) (offender : Option Offender) :
    Follows r (failOffender cause offender) (failOffender cause offender) := by
  cases offender with
  | none => exact .pure ()
  | some o => exact .get fun s => by cases o <;> exact .fail _

theorem tolerateOffender_follows (cause : Option Cause) (offender : Option Offender) :
    Follows r (tolerateOffender cause offender) (tolerateOffender cause offender) := by
  cases offender with
  | none => exact .pure ()
  | some o => exact .get fun s => by cases o <;> exact .tolerate _

section
variable (hn : Followed r nested)
include hn

theorem parameter_follows (ps : Parameters) :
    Follows r (parameter nested ps) (parameter nested (marked r.stamp ps)) := by
  have named (param : Node) (names : List Token) : Follows r
      (isStrict >>= fun strict => pure ((names.foldl (fun ps t => ps.bind strict (.token t) t.text) ps).add param))
      (isStrict >>= fun strict => pure (((marked r.stamp names).foldl (fun ps t => ps.bind strict (.token t) t.text)
        (marked r.stamp ps)).add (param.mapInfo r.stamp))) := by
    refine .step .isStrict fun strict => .giving ?_
    rw [Marked.marked_nodeless, Parameters.binds_marked, Parameters.add_marked]
  refine .step (.check _) fun _ => .ite (.bind (finalRest_follows hn _ _) fun (param, names) => ?_)
    (.bind (patternWithDefault_follows hn none) fun (param, names) => ?_)
  · exact named param names
  · exact named param names

theorem parameterList_follows (first : Parameters) :
    Follows r (parameterList nested first) (parameterList nested (marked r.stamp first)) := by
  refine .step (.check _) fun _ => .ite (.pure _) (.loop (fun ps => .step .ahead fun _ => .ite (.pure _) ?_) first)
  refine .bind (parameter_follows hn ps) fun _ => .step (.check _) fun _ => .ite (.pure _) ?_
  exact .step (.expect _) fun _ => .step (.check _) fun _ => .ite (.pure _) (.pure _)

theorem parameters_follows (restricted : Option Token) :
    Follows r (parameters nested restricted) (parameters nested restricted) := by
  refine .step (.expect _) fun _ => .bind (parameterList_follows hn { restricted := restricted.map .token })
    fun ps => ?_
  exact .step (.expect _) fun _ => .step .context fun _ => .guard (.failHere _) (.pure ps)

/-! ## Parameters that were read as expressions -/

omit hn in
theorem arrowParameter_follows (isAsync : Bool) (param : Node) :
    Follows r (arrowParameter isAsync param) (arrowParameter isAsync (param.mapInfo r.stamp)) := by
  have same : Follows r (pure param) (pure (param.mapInfo r.stamp)) := .pure param
  have name : Follows r (if isAsync && param.identifierName? == some "await" then failAhead else pure param)
      (if isAsync && param.identifierName? == some "await" then failAhead else pure (param.mapInfo r.stamp)) :=
    .ite .failAhead same
  rw [arrowParameter, arrowParameter, Node.identifierName?_mapInfo, Node.kind_mapInfo]
  cases hk : param.kind with
  | assignmentPattern left right =>
    rw [Kind.map_assignmentPattern]
    dsimp only
    rw [Node.kind_mapInfo]
    cases right.kind with
    | yield argument delegate =>
      cases argument with
      | some argument => exact .failAhead
      | none => exact .giving (by simp [Node.withKind, Node.mapInfo_mk, Kind.map, Kind.traverse])
    | _ => exact same
  | _ => exact name

omit hn in
theorem arrowNodes_follows (list : Node) : Follows r (arrowNodes list) (arrowNodes (list.mapInfo r.stamp)) := by
  rw [arrowNodes, arrowNodes, Node.kind_mapInfo]
  cases list.kind with
  | arrowParameters params async =>
    rw [Kind.map_arrowParameters]
    exact .pure params
  | identifier name => exact .pure [list]
  | _ => exact .failAhead

omit hn in
theorem arrowParameters_follows (list : Node) (isAsync : Bool) :
    Follows r (arrowParameters list isAsync) (arrowParameters (list.mapInfo r.stamp) isAsync) := by
  refine .bind (arrowNodes_follows list) fun nodes => .bind (.mapM (arrowParameter_follows isAsync) nodes)
    fun params => ?_
  refine .step .context fun c => ?_
  have same : (marked r.stamp params).any isYield = params.any isYield := by simp [Function.comp_def]
  rw [same, Marked.marked_list, Marked.marked_node, Parameters.ofNodes_marked]
  exact .guard .failAhead (.guard (.failHere _) (.pure _))

/-! ## Bodies -/

theorem directive_follows : Follows r (directive nested) (directive nested) := by
  refine .step .ahead fun first => .step .mark fun start => .bind (expression_follows hn) fun e =>
    .step .endStatement fun _ => ?_
  dsimp only
  rw [Marked.marked_node, Node.directiveText?_mapInfo]
  exact .bind (.finish _ _) fun n => .giving (by simp)

omit hn in
theorem useStrict_follows (first : Token) (legacy : Option Token) :
    Follows r (useStrict first legacy) (useStrict first legacy) := by
  have allowed : Follows r (context >>= fun c => if c.allowStrictDirective then pure
    () else tolerateWith first .strictDirectiveNotSimple)
      (context >>= fun c => if c.allowStrictDirective then pure () else tolerateWith first .strictDirectiveNotSimple) :=
    .step .context fun _ => .ite (.pure ()) (.tolerateWith _ _)
  refine .step (.modifyContext fun c => { c with strict := true }) fun _ => ?_
  cases legacy with
  | some t => exact .step (.tolerateWith _ _) fun _ => allowed
  | none => exact allowed

theorem prologue_follows : Follows r (prologue nested) (prologue nested) := by
  refine .bind (.loop (fun (statements, legacy) => ?round) ([], none)) fun (statements, _) => .giving (by simp)
  case round =>
    rw [Marked.marked_pair, Marked.marked_nodeless r.stamp legacy]
    refine .step .ahead fun first =>
      .ite (.giving (by simp)) (.bind (directive_follows hn) fun (statement, text?) => ?_)
    cases text? with
    | none => exact .giving (by simp)
    | some text => exact .ite (.step (useStrict_follows _ _) fun _ => .giving (by simp)) (.giving (by simp))

omit hn in
theorem atBodyEnd_follows : Follows r atBodyEnd atBodyEnd := .step .ahead fun _ => .pure _

theorem functionBody_follows : Follows r (functionBody nested) (functionBody nested) := by
  refine .step .mark fun _ => .step (.expect _) fun _ => .bind (prologue_follows hn) fun directives => .get fun s => ?_
  refine .step (.modifyLabels fun _ => []) fun _ => .bind (.withContext ?_) fun statements => ?_
  · exact .bind (.manyBefore atBodyEnd_follows hn.listItem) fun _ => .step (.expect _) fun _ => .pure _
  · exact .step (.modifyLabels fun _ => s.labels) fun _ => .finishing _ (by simp)

/-! ## Functions -/

omit hn in
theorem checkAsyncFunction_follows : Follows r checkAsyncFunction checkAsyncFunction :=
  .step (.checkWord _) fun _ => .ite (.get fun _ => .step .second fun _ => .pure _) (.pure _)

omit hn in
theorem checkFunctionName_follows (t : Token) : Follows r (checkFunctionName t) (checkFunctionName t) :=
  .step .isStrict fun _ => .ite (.guard (.tolerateWith _ _) (.same _)) (.ite (.same _) (.ite (.same _) (.same _)))

theorem functionRest_follows (restricted : Option Token) (cause : Option Cause) :
    Follows r (functionRest nested restricted cause) (functionRest nested restricted cause) := by
  refine .bind (parameters_follows hn restricted) fun ps => .bind (.withContext ?_) fun body => .pure (ps.params, body)
  refine .bind (functionBody_follows hn) fun body => .step .isStrict fun _ => ?_
  exact .ite (.step (failOffender_follows _ _) fun _ => .step (tolerateOffender_follows _ _)
    fun _ => .pure body) (.pure body)

omit hn in
theorem functionName_follows (isExpression generator : Bool) :
    Follows r (functionName isExpression generator) (functionName isExpression generator) := by
  have checked (name : Node) (t : Token) : Follows r
      (checkFunctionName t >>= fun found => pure (name, found.1, found.2))
      (checkFunctionName t >>= fun found => pure (name.mapInfo r.stamp, found.1, found.2)) :=
    .step (checkFunctionName_follows t) fun _ => .giving (by simp)
  refine .step .ahead fun t => .step .isStrict fun _ => .ite ?_ ?_
  · exact .bind identifierName_follows fun name => checked name t
  · exact .bind (bindingName_follows none) fun name => checked name t

omit hn in
theorem acceptAsync_follows (form : FunctionForm) : Follows r (acceptAsync form) (acceptAsync form) := by
  refine .step (.checkWord _) fun _ => .ite (.step .context fun _ => .guard (.tolerateHere _) ?_) (.pure _)
  exact .step .skip fun _ => .pure _

omit hn in
theorem optionalFunctionName_follows (form : FunctionForm) (nameIsOptional generator : Bool) :
    Follows r (optionalFunctionName form nameIsOptional generator)
      (optionalFunctionName form nameIsOptional generator) := by
  have named : Follows r (functionName (form == .expression) generator >>= fun found =>
    pure (some found.1, found.2.1, found.2.2))
      (functionName (form == .expression) generator >>= fun found => pure (some found.1, found.2.1, found.2.2)) :=
    .bindPair (functionName_follows _ _) fun _ _ => .giving (by simp)
  exact .step (.check _) fun _ => .ite (.giving (by simp)) named

theorem function_follows (form : FunctionForm) (nameIsOptional : Bool) :
    Follows r (function nested form nameIsOptional) (function nested form nameIsOptional) := by
  refine .step .mark fun _ => .step (acceptAsync_follows _) fun _ => .step (.expectKeyword _) fun _ =>
    .step (.accept _) fun _ => ?_
  refine .bind (.withContext (.bindPair (optionalFunctionName_follows _ _ _) fun _ (_, _) => ?_))
    fun (_, _, _) => .finishing _ (by simp)
  exact .bind (.withContext (functionRest_follows hn _ _)) fun (_, _) => .pure (_, _, _)

/-! ## Methods -/

theorem methodBody_follows (ps : Parameters) :
    Follows r (methodBody nested ps) (methodBody nested (marked r.stamp ps)) := by
  refine .step .nonPattern fun _ => .withContext (.bind (.isolate (functionBody_follows hn)) fun body =>
    .step .isStrict fun _ => ?_)
  exact .ite (.step (tolerateOffender_follows _ _) fun _ => .step (tolerateOffender_follows _ _)
    fun _ => .pure body) (.pure body)

omit hn in
theorem methodKind_follows (start : Place) (params : List Node) (body : Node) (generator async : Bool) :
    Follows r (finish start (methodKind params body generator async))
      (finish start (methodKind (marked r.stamp params) (body.mapInfo r.stamp) generator async)) :=
  .finishing _ (by simp [methodKind, Kind.map, Kind.traverse, Kind.traverseList_eq]; rfl)

theorem method_follows (generator async : Bool) :
    Follows r (method nested generator async) (method nested generator async) := by
  refine .step .mark fun _ => .bind (.withContext (.bind (parameters_follows hn none) fun ps => ?_))
    fun (params, body) => ?_
  · exact .bind (methodBody_follows hn ps) fun body => .pure (ps.params, body)
  · exact methodKind_follows _ params body _ _

theorem accessor_follows {checkParams : List Node → Parse Unit}
    (hcheck : ∀ params, Follows r (checkParams params) (checkParams (marked r.stamp params))) :
    Follows r (accessor nested checkParams) (accessor nested checkParams) := by
  refine .step .mark fun _ => .bind (.withContext (.bind (parameters_follows hn none) fun ps => ?_))
    fun (params, body) => ?_
  · exact .step (hcheck ps.params) fun _ => .bind (methodBody_follows hn ps) fun body => .pure (ps.params, body)
  · exact methodKind_follows _ params body _ _

theorem getter_follows : Follows r (getter nested) (getter nested) := accessor_follows hn fun params => by
  rw [checkGetter, checkGetter, Marked.marked_list, List.isEmpty_map]
  exact .ite (.pure ()) (.tolerateHere _)

theorem setter_follows : Follows r (setter nested) (setter nested) := accessor_follows hn fun params => by
  match params with
  | [] => exact .tolerateHere _
  | [param] =>
    simp only [checkSetter, marked, List.map_singleton, Node.kind_mapInfo]
    cases param.kind with
    | rest _ => exact .tolerateHere _
    | _ => exact .pure ()
  | _ :: _ :: _ => exact .tolerateHere _

theorem generatorMethod_follows : Follows r (generatorMethod nested) (generatorMethod nested) := by
  refine .step .mark fun _ => .bind (.withContext (parameters_follows hn none)) fun ps => ?_
  exact .bind (.withContext (methodBody_follows hn ps)) fun body => methodKind_follows _ ps.params body _ _

end

end Parse

end EcmaTree
