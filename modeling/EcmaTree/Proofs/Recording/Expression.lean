import EcmaTree.Grammar.Assignment
import EcmaTree.Grammar.Object
import EcmaTree.Proofs.Recording.Function
import EcmaTree.Proofs.Recording.Jsx

/-!
# Expressions with another record

The words before a member and the name of its key decide what the member is, and they are the same. What an expression
may become shows in its kind and in the cover, which are the same, too. Parameters that wait for their arrow were
never finished, so nothing is kept of their place.
-/

namespace EcmaTree.Parse

open Marked (marked)

attribute [local simp] Kind.map Kind.traverse Kind.traverseOption_eq Kind.traverseList_eq Kind.traverseSparse_eq
  Marked.marked_option

instance : Marked MemberHead := ⟨fun g head => { head with key := marked g head.key }⟩

instance : Marked MemberRest := ⟨fun g m => { m with key := marked g m.key, value := marked g m.value }⟩

variable {r : Record} {nested : Nested}

section
variable (hn : Followed r nested)
include hn

/-! ## Members -/

theorem keyAndForm_follows : Follows r (keyAndForm nested) (keyAndForm nested) :=
  .step (.check _) fun _ => .bind (propertyKey_follows hn) fun key => .pure (key, _)

theorem staticHead_follows (head : MemberHead) :
    Follows r (staticHead nested head) (staticHead nested (marked r.stamp head)) := by
  have word : (marked r.stamp head).key.bind (·.identifierName?) = head.key.bind (·.identifierName?) := by
    change (marked r.stamp head.key).bind _ = _
    cases head.key with
    | none => rfl
    | some key => exact key.identifierName?_mapInfo r.stamp
  refine .step .ahead fun t => ?_
  rw [word]
  refine .ite (.step (.check _) fun _ => .step (.accept _) fun _ => .ite (.pure _) ?_) (.pure head)
  exact .bind (propertyKey_follows hn) fun key =>
    .pure { head with token := t, static := true, computed := _, key := some key }

theorem asyncHead_follows (head : MemberHead) :
    Follows r (asyncHead nested head) (asyncHead nested (marked r.stamp head)) := by
  refine .get fun _ => .step (.check _) fun _ => .step (.check _) fun _ =>
    .ite (.step (.accept _) fun _ => ?_) (.pure head)
  refine .step .ahead fun t => .bindPair (keyAndForm_follows hn) fun key computed => .guard (.tolerateWith _ _) ?_
  exact .pure { head with token := t, key := some key, computed, async := true, generator := _ }

theorem memberHead_follows : Follows r (memberHead nested) (memberHead nested) := by
  refine .step .ahead fun t => .step (.accept _) fun _ => .ite (.pure _) ?_
  refine .bindPair (keyAndForm_follows hn) fun key computed => ?_
  exact .bind (staticHead_follows hn { token := t, key := some key, computed }) fun head => asyncHead_follows hn head

theorem keyAndRest_follows (kind : MethodKind) (isMethod : Bool) {rest : Parse Node} (hrest : Follows r rest rest) :
    Follows r (keyAndRest nested kind isMethod rest) (keyAndRest nested kind isMethod rest) :=
  .bindPair (keyAndForm_follows hn) fun _ _ => .bind hrest fun _ => .pure _

theorem wordedMember_follows (head : MemberHead) :
    Follows r (wordedMember nested head) (wordedMember nested (marked r.stamp head)) := by
  refine .step .ahead fun _ => .ite (.pure none) (.ite (keyAndRest_follows hn _ _ (getter_follows hn)) ?_)
  exact .ite (keyAndRest_follows hn _ _ (setter_follows hn))
    (.ite (keyAndRest_follows hn _ _ (generatorMethod_follows hn)) (.pure none))

theorem keyedMember_follows (head : MemberHead) :
    Follows r (keyedMember nested head) (keyedMember nested (marked r.stamp head)) := by
  obtain ⟨token, key, computed, static, async, generator⟩ := head
  cases key with
  | none => exact .pure none
  | some key =>
    refine .step (.check _) fun _ => .ite (.bind (.withContext (method_follows hn _ _)) fun value => ?_) (.pure none)
    exact .pure _

theorem memberRest_follows (head : MemberHead) :
    Follows r (memberRest nested head) (memberRest nested (marked r.stamp head)) :=
  .bind (wordedMember_follows hn head) fun
    | some m => .pure (some m)
    | none => keyedMember_follows hn head

/-! ## Classes -/

omit hn in
theorem checkMemberName_follows (hasConstructor : Bool) (head : MemberHead) (m : MemberRest) :
    Follows r (checkMemberName hasConstructor head m)
      (checkMemberName hasConstructor (marked r.stamp head) (marked r.stamp m)) := by
  have key (name : String) : isKeyNamed (marked r.stamp m).key name = isKeyNamed m.key name :=
    m.key.isKeyNamed_mapInfo r.stamp name
  have value : isGenerator (marked r.stamp m).value = isGenerator m.value := m.value.isGenerator_mapInfo r.stamp
  rw [checkMemberName, checkMemberName, key, key, value]
  refine .ite (.pure false) (.ite (.guard (.failWith _ _) (.pure false)) (.ite ?_ (.pure false)))
  exact .guard (.failWith _ _) (.guard (.failWith _ _) (.pure true))

theorem classMember_follows (hasConstructor : Bool) :
    Follows r (classMember nested hasConstructor) (classMember nested hasConstructor) := by
  refine .step .mark fun _ => .bind (memberHead_follows hn) fun head => .bind (memberRest_follows hn head) fun
    | none => .failAhead
    | some m => .step (checkMemberName_follows _ _ _) fun _ => .bind (.finish _ _) fun member => .pure (member, _)

theorem classBody_follows : Follows r (classBody nested) (classBody nested) := by
  refine .step .mark fun _ => .step (.expect _) fun _ =>
    .bindPair (.loop (fun (members, hasConstructor) => ?_) ([], false)) fun members _ => ?_
  · exact .step (.expect _) fun _ => .finishing _ (by simp)
  · refine .step (.check _) fun _ => .ite (.pure _) (.step (.accept _) fun _ => .ite (.pure _) ?_)
    exact .bindPair (classMember_follows hn _) fun _ _ => .pure _

theorem classTail_follows : Follows r (classTail nested) (classTail nested) := by
  refine .step (.checkKeyword _) fun _ =>
    .ite (.step .skip fun _ => .bind (.isolate hn.callChain) fun superClass => ?_) ?_
  · exact .bind (.pure (some superClass)) fun superClass => .bind (classBody_follows hn) fun body =>
      .pure (superClass, body)
  · exact .bind (.pure none) fun superClass => .bind (classBody_follows hn) fun body => .pure (superClass, body)

omit hn in
theorem className_follows (form : ClassForm) (nameIsOptional : Bool) :
    Follows r (className form nameIsOptional) (className form nameIsOptional) := by
  have named : Follows r (do return some (← bindingName none)) (do return some (← bindingName none)) :=
    .bind (bindingName_follows none) fun name => .pure (some name)
  exact .step .ahead fun _ => .ite named (.ite (.pure none) named)

theorem classOf_follows (form : ClassForm) (nameIsOptional : Bool) :
    Follows r (classOf nested form nameIsOptional) (classOf nested form nameIsOptional) := by
  refine .step .mark fun _ => .bind (.withContext (.step (.expectKeyword _) fun _ => ?_)) fun (_, _, _) =>
    .finishing _ (by simp)
  exact .bind (className_follows _ _) fun _ => .bind (classTail_follows hn) fun (_, _) => .pure (_, _, _)

/-! ## Array and object literals -/

theorem spread_follows : Follows r (spread nested) (spread nested) :=
  .step .mark fun _ => .step (.expect _) fun _ => .bind (.inherit hn.assignment) fun _ => .finish _ _

theorem arrayElement_follows : Follows r (arrayElement nested) (arrayElement nested) := by
  refine .step (.accept _) fun _ => .ite (.pure none) (.step (.check _) fun _ => .ite ?_ ?_)
  · refine .bind (spread_follows hn) fun e => .step (.check _) fun _ =>
      .ite (.pure (some e)) (.step .nonPattern fun _ => ?_)
    exact .step (.expect _) fun _ => .pure (some e)
  · refine .bind (.inherit hn.assignment) fun e => .step (.check _) fun _ => .guardUnless (.expect _) (.pure (some e))

theorem arrayLiteral_follows : Follows r (arrayLiteral nested) (arrayLiteral nested) :=
  .step .mark fun _ => .step (.expect _) fun _ => .bind (.itemsBefore _ (arrayElement_follows hn)) fun _ =>
    .step (.expect _) fun _ => .finishing _ (by simp)

omit hn in
theorem checkAsyncWord_follows : Follows r checkAsyncWord checkAsyncWord :=
  .get fun _ => .step (.check _) fun _ => .step (.check _) fun _ => .step (.check _) fun _ => .pure _

theorem nameOrKey_follows (start : Place) (name : Token) (isWord : Bool) :
    Follows r (nameOrKey nested start name isWord) (nameOrKey nested start name isWord) :=
  .ite (propertyKey_follows hn) (.finish _ _)

theorem objectMemberHead_follows : Follows r (objectMemberHead nested) (objectMemberHead nested) := by
  refine .step .mark fun start => .step .ahead fun t => .ite (.step .skip fun _ => ?_) ?_
  · refine .step (.check _) fun computed => .step checkAsyncWord_follows fun _ => .step (.accept _) fun generator => ?_
    exact .bind (nameOrKey_follows hn _ _ _) fun _ => .pure _
  · refine .step (.accept _) fun _ => .ite (.pure _) (.bindPair (keyAndForm_follows hn) fun key computed => ?_)
    exact .pure _

theorem shorthandValue_follows (start : Place) (name : Token) :
    Follows r (shorthandValue nested start name) (shorthandValue nested start name) := by
  refine .bind (.finish _ _) fun target => .step .ahead fun _ =>
    .ite (.step (.modifyCover _) fun _ => ?_) (.pure target)
  exact .step .skip fun _ => .bind (.isolate hn.assignment) fun _ => .finish _ _

theorem keyedProperty_follows (hasProto : Bool) (start : Place) (head : MemberHead) (key : Node) :
    Follows r (keyedProperty nested hasProto start head key)
      (keyedProperty nested hasProto start (marked r.stamp head) (key.mapInfo r.stamp)) := by
  have property (value : Node) (method shorthand isProto : Bool) : Follows r
      (do return (← finish start (.property .init key value head.computed method shorthand), isProto))
      (do return (← finish start (.property .init (key.mapInfo r.stamp) (value.mapInfo r.stamp) head.computed
        method shorthand), isProto)) :=
    .bind (.finish _ _) fun n => .pure (n, isProto)
  rw [keyedProperty, keyedProperty, Node.isKeyNamed_mapInfo]
  refine .step (.check _) fun _ => .ite (.guard (.tolerateHere _) (.step .skip fun _ => ?_)) (.step (.check _)
    fun _ => .ite ?_ (.ite ?_ ?_))
  · exact .bind (.inherit hn.assignment) fun value => property value _ _ _
  · exact .bind (method_follows hn _ _) fun value => property value _ _ _
  · exact .bind (shorthandValue_follows hn _ _) fun value => property value _ _ _
  · exact .step .next fun _ => .failAt _

theorem objectMember_follows (hasProto : Bool) :
    Follows r (objectMember nested hasProto) (objectMember nested hasProto) := by
  refine .step .mark fun start => .bind (objectMemberHead_follows hn) fun head =>
    .bind (wordedMember_follows hn head) fun
    | some m => .bind (.finish _ _) fun member => .pure (member, false)
    | none => ?_
  obtain ⟨token, key, computed, static, async, generator⟩ := head
  cases key with
  | some key => exact keyedProperty_follows hn hasProto start ⟨token, some key, computed, static, async, generator⟩ key
  | none => exact .failAhead

theorem objectLiteral_follows : Follows r (objectLiteral nested) (objectLiteral nested) := by
  refine .step .mark fun _ => .step (.expect _) fun _ =>
    .bindPair (.loop (fun (members, hasProto) => ?_) ([], false)) fun members _ => ?_
  · exact .step (.expect _) fun _ => .finishing _ (by simp)
  have closed (member : Node) (isProto : Bool) : Follows r (do
      unless ← check .rightBrace do expectSeparator
      return Progress.more (member :: members, hasProto || isProto)) (do
      unless ← check .rightBrace do expectSeparator
      return Progress.more (member.mapInfo r.stamp :: marked r.stamp members, hasProto || isProto)) :=
    .step (.check _) fun _ => .guardUnless .expectSeparator (.pure _)
  refine .step (.check _) fun _ => .ite (.pure _) (.step (.check _) fun _ => .ite ?_ ?_)
  · exact .bind (spread_follows hn) fun member => closed member false
  · exact .bindPair (objectMember_follows hn _) fun member isProto => closed member isProto

end

end EcmaTree.Parse

/-! ## Chains, operators and assignments -/

namespace EcmaTree.Parse

open Marked (marked)

attribute [local simp] Kind.map Kind.traverse Kind.traverseOption_eq Kind.traverseList_eq Kind.traverseSparse_eq
  Marked.marked_option

instance : Marked Chain := ⟨fun g c => { c with expression := marked g c.expression }⟩

instance : Marked Pending := ⟨fun g p => { p with left := marked g p.left }⟩

instance : Nodeless LogicalMix := { marked := fun _ a => a, marked_eq := fun _ _ => rfl }

variable {r : Record} {nested : Nested}

/-! ## Parentheses -/

theorem placeholder_follows (params : List Node) (async : Bool) :
    Follows r (pure (placeholder params async)) (pure (placeholder (params.map (Node.mapInfo r.stamp)) async)) := by
  refine .giving ?_
  rw [placeholder, placeholder, Marked.marked_node, Node.mapInfo_mk, Kind.map_arrowParameters]
  rfl

theorem map_toPatterns (g : NodeInfo → NodeInfo) (nodes : List Node) :
    (nodes.map (Node.mapInfo g)).map Node.toPattern = (nodes.map Node.toPattern).map (Node.mapInfo g) := by
  simp [Node.mapInfo_toPattern]

theorem groupParameters_mapInfo (g : NodeInfo → NodeInfo) (e : Node) :
    groupParameters (e.mapInfo g) = (groupParameters e).map (Node.mapInfo g) := by
  have single : [(e.mapInfo g).toPattern] = [e.toPattern].map (Node.mapInfo g) := by simp [Node.mapInfo_toPattern]
  rw [groupParameters, groupParameters, Node.kind_mapInfo]
  cases e.kind with
  | sequence expressions =>
    rw [Kind.map_sequence]
    exact map_toPatterns g expressions
  | _ => exact single

theorem requireArrow_follows : Follows r requireArrow requireArrow :=
  .step (.check _) fun _ => .ite (.pure ()) (.expect _)

theorem closeGroup_follows (e : Node) : Follows r (closeGroup e) (closeGroup (e.mapInfo r.stamp)) := by
  have closed (result : Node) : Follows r
      (modifyCover ({ · with isBindingElement := false }) >>= fun _ => pure result)
      (modifyCover ({ · with isBindingElement := false }) >>= fun _ => pure (result.mapInfo r.stamp)) :=
    .step (.modifyCover _) fun _ => .pure result
  rw [closeGroup, closeGroup, Node.identifierName?_mapInfo, groupParameters_mapInfo]
  refine .step (.expect _) fun _ => .step (.check _) fun _ =>
    .ite (.ite ?_ (.get fun _ => .guardUnless .failAhead ?_)) ?_
  · exact .bind (placeholder_follows [e] false) closed
  · exact .bind (placeholder_follows _ false) closed
  · exact .bind (.pure e) closed

section
variable (hn : Followed r nested)
include hn

theorem groupRest_follows : Follows r (groupRest nested) (groupRest nested) :=
  .bind (finalRest_follows hn _ _) fun (rest, _) => .step (.expect _) fun _ =>
    .step requireArrow_follows fun _ => .pure rest

theorem groupItems_follows (first : Node) :
    Follows r (groupItems nested first) (groupItems nested (first.mapInfo r.stamp)) := by
  refine .step (.modifyCover _) fun _ =>
    .bindPair (.loop (fun (items, isParameters) => ?round) ([first], false)) fun _ _ => .giving (by simp)
  refine .step (.accept _) fun _ =>
    .ite (.pure _) (.step (.accept _) fun _ => .ite (.pure _) (.step (.check _) fun _ => .ite ?_ ?_))
  · refine .get fun _ => .guardUnless .failAhead (.bind (groupRest_follows hn) fun _ => ?_)
    exact .step (.modifyCover _) fun _ => .pure _
  · exact .bind (.inherit hn.assignment) fun _ => .pure _

theorem groupContents_follows : Follows r (groupContents nested) (groupContents nested) := by
  refine .step .ahead fun start => .step (.modifyCover _) fun _ => .bind (.inherit hn.assignment) fun first => ?_
  refine .step (.check _) fun _ => .ite (.bindPair (groupItems_follows hn first) fun items _ => .ite ?_ ?_)
    (closeGroup_follows first)
  · rw [Marked.marked_list, Marked.marked_node, map_toPatterns]
    exact placeholder_follows _ false
  · exact .bind (.finishing _ (by simp)) closeGroup_follows

theorem group_follows : Follows r (group nested) (group nested) := by
  refine .step (.expect _) fun _ => .step (.accept _) fun _ =>
    .ite ?_ (.step (.check _) fun _ => .ite ?_ (groupContents_follows hn))
  · exact .step requireArrow_follows fun _ => placeholder_follows [] false
  · exact .bind (groupRest_follows hn) fun rest => placeholder_follows [rest] false

/-! ## Primary expressions -/

omit hn in
theorem checkImportCall_follows : Follows r checkImportCall checkImportCall :=
  .step (.checkKeyword _) fun _ => .ite (.step .second fun _ => .pure _) (.pure _)

omit hn in
theorem behindDot_follows : Follows r behindDot behindDot := by
  refine .scan (.lookAhead (.skipping (.bind .token fun t =>
    .ite (.skipping (.bind .token fun _ => .pure _)) (.pure _))))

omit hn in
theorem checkImportMeta_follows : Follows r checkImportMeta checkImportMeta := by
  refine .step (.checkKeyword _) fun _ => .ite (.step behindDot_follows fun t => ?_) (.pure false)
  cases t with
  | some t => exact .ite (.guard (.tolerateWith _ _) (.pure true)) (.pure false)
  | none => exact .pure false

omit hn in
theorem importCallee_follows : Follows r importCallee importCallee :=
  .step .mark fun _ => .step (.expectKeyword _) fun _ => .finish _ _

omit hn in
theorem importMeta_follows : Follows r importMeta importMeta :=
  .step .mark fun _ => .bind identifierName_follows fun _ => .step (.expect _) fun _ =>
    .bind identifierName_follows fun _ => .step (.modifyCover _) fun _ => .finish _ _

omit hn in
theorem literal_follows : Follows r literal literal := by
  refine .step .mark fun _ => .step .ahead fun _ => .step .isStrict fun _ => .guard (.tolerateWith _ _) ?_
  exact .step .nonPattern fun _ => .step .skip fun _ => .finish _ _

omit hn in
theorem regexLiteral_follows : Follows r regexLiteral regexLiteral :=
  .step .mark fun _ => .step .nonPattern fun _ => .step .regex fun _ => .finish _ _

omit hn in
theorem noExpression_follows : Follows r noExpression noExpression := .step .next fun _ => .failAt _

theorem nameExpression_follows : Follows r (nameExpression nested) (nameExpression nested) := by
  refine .step .mark fun _ => .step .ahead fun _ => .step .context fun _ =>
    .guard (.tolerateAt _) (.step checkAsyncFunction_follows fun _ => ?_)
  exact .ite (function_follows hn _ _) (.step .next fun _ => .finish _ _)

theorem keywordExpression_follows : Follows r (keywordExpression nested) (keywordExpression nested) := by
  refine .step .mark fun _ => .step .ahead fun _ => .step .context fun _ =>
    .ite identifierName_follows (.ite ?_ (.step .nonPattern fun _ => ?_))
  · exact .step .skip fun _ => .finish _ _
  refine .ite (function_follows hn _ _) (.ite (.step .skip fun _ => .finish _ _) (.ite (classOf_follows hn _ _) ?_))
  refine .step checkImportCall_follows fun _ => .ite importCallee_follows (.step checkImportMeta_follows fun _ => ?_)
  exact .ite (.guardUnless (.tolerateWith _ _) importMeta_follows) noExpression_follows

theorem primary_follows : Follows r (primary nested) (primary nested) := by
  refine .step .ahead fun t => .get fun s => .ite (jsxExpression_follows hn) ?_
  split
  case h_1 => exact nameExpression_follows hn
  case h_2 | h_3 | h_4 | h_5 => exact literal_follows
  case h_6 => exact template_follows hn false
  case h_7 => exact .step (.modifyCover _) fun _ => .inherit (group_follows hn)
  case h_8 => exact .inherit (arrayLiteral_follows hn)
  case h_9 => exact .inherit (objectLiteral_follows hn)
  case h_10 | h_11 => exact regexLiteral_follows
  case h_12 => exact keywordExpression_follows hn
  case h_13 => exact noExpression_follows

/-! ## Member accesses and calls -/

theorem argument_follows (maybeParameter : Bool) :
    Follows r (argument nested maybeParameter) (argument nested maybeParameter) := by
  refine .step (.check _) fun _ => .ite (spread_follows hn) (.isolate (.bind hn.assignment fun e => ?_))
  exact .guard (.modifyCover _) (.pure e)

theorem arguments_follows (maybeParameters : Bool) :
    Follows r (arguments nested maybeParameters) (arguments nested maybeParameters) := by
  have closed (args : List Node) : Follows r (expect .rightParen >>= fun _ => pure args.reverse)
      (expect .rightParen >>= fun _ => pure (marked r.stamp args).reverse) :=
        .step (.expect _) fun _ => .giving (by simp)
  refine .step (.expect _) fun _ => .step (.check _) fun _ =>
    .ite (.bind (.pure []) closed) (.bind (.loop (fun args => ?_) []) closed)
  refine .bind (argument_follows hn _) fun _ => .step (.check _) fun _ =>
    .ite (.pure _) (.step .expectSeparator fun _ => ?_)
  exact .step (.check _) fun _ => .ite (.pure _) (.pure _)

theorem newExpression_follows : Follows r (newExpression nested) (newExpression nested) := by
  have finished (start : Place) (callee : Node) (args : List Node) : Follows r
      (nonPattern >>= fun _ => finish start (.new callee args))
      (nonPattern >>= fun _ => finish start (.new (callee.mapInfo r.stamp) (marked r.stamp args))) :=
    .step .nonPattern fun _ => .finishing _ (by simp)
  refine .step .mark fun _ => .bind identifierName_follows fun _ => .step (.accept _) fun _ => .ite ?_ ?_
  · refine .step .ahead fun _ => .step .context fun _ => .ite ?_ .failAhead
    exact .bind identifierName_follows fun _ => .finish _ _
  · refine .step (.checkKeyword _) fun _ => .ite .failAhead (.bind (.isolate hn.callee) fun callee => ?_)
    refine .step (.check _) fun _ =>
      .ite (.bind (arguments_follows hn _) fun args => ?_) (.bind (.pure []) fun args => ?_)
    · exact finished _ callee args
    · exact finished _ callee args

theorem chainBase_follows : Follows r (chainBase nested) (chainBase nested) :=
  .step (.checkKeyword _) fun _ => .ite (.inherit (newExpression_follows hn)) (.inherit (primary_follows hn))

omit hn in
theorem superBase_follows (allowsCall : Bool) : Follows r (superBase allowsCall) (superBase allowsCall) := by
  refine .step .mark fun _ => .step (.expectKeyword _) fun _ => .step (.check _) fun _ =>
    .step (.check _) fun _ => .step (.check _) fun _ => ?_
  refine .ite (.bind (.finish _ _) fun n => .ite (.pure n) .failAhead) (.ite (.finish _ _) .failAhead)

theorem chainHead_follows (isSuper allowsCall : Bool) :
    Follows r (chainHead nested isSuper allowsCall) (chainHead nested isSuper allowsCall) :=
  .step .context fun _ => .ite (superBase_follows _) (chainBase_follows hn)

theorem link_follows (start : Place) (c : Chain) (optional : Bool) :
    Follows r (link nested start c optional) (link nested start (marked r.stamp c) optional) := by
  refine .step .ahead fun _ => .ite ?_ (.ite ?_ (.ite ?_ (.pure none)))
  · refine .step (.modifyCover _) fun _ => .step .skip fun _ => .bind (.isolate (expression_follows hn)) fun _ => ?_
    exact .step (.expect _) fun _ => .bind (.finish _ _) fun n => .pure (some n)
  · refine .guard .failAhead (.guard (.failHere _) (.bind (template_follows hn true) fun _ => ?_))
    exact .bind (.finish _ _) fun n => .pure (some n)
  · refine .step (.modifyCover _) fun _ => .guardUnless (.expect _) (.bind identifierName_follows fun _ => ?_)
    exact .bind (.finish _ _) fun n => .pure (some n)

omit hn in
theorem finishChain_follows (start : Place) (c : Chain) :
    Follows r (finishChain start c) (finishChain start (marked r.stamp c)) :=
  .ite (.finish _ _) (.pure c.expression)

theorem goOn_follows (start : Place) (c : Chain) (optional : Bool) :
    Follows r (goOn nested start c optional) (goOn nested start (marked r.stamp c) optional) := by
  refine .bind (link_follows hn start c optional) fun
    | some _ => .pure _
    | none => .pure _

theorem accessLinks_follows (start : Place) (c : Chain) :
    Follows r (accessLinks nested start c) (accessLinks nested start (marked r.stamp c)) := by
  refine .loop (fun c => .step (.accept _) fun optional => ?_) c
  exact goOn_follows hn start (c.after optional) optional

theorem callee_follows : Follows r (callee nested) (callee nested) := by
  refine .step .ahead fun _ => .step (.checkKeyword _) fun _ => .bind (chainHead_follows hn _ _) fun base => ?_
  exact .bind (accessLinks_follows hn _ ⟨base, false⟩) fun c => finishChain_follows _ c

theorem call_follows (first : Token) (c : Chain) (optional : Bool) :
    Follows r (call nested first c optional) (call nested first (marked r.stamp c) optional) := by
  have callee : isImport (marked r.stamp c).expression = isImport c.expression := c.expression.isImport_mapInfo r.stamp
  refine .step .ahead fun _ => .step .nonPattern fun _ => .bind (arguments_follows hn _) fun args => ?_
  rw [callee, Marked.marked_list, Marked.marked_node, List.length_map, map_toPatterns]
  refine .guard (.tolerateHere _) (.step (.check _) fun _ => .ite (placeholder_follows _ true) ?_)
  exact .finishing _ (by simp [Kind.map, Kind.traverse, Kind.traverseList_eq, Marked.marked])

theorem chainLinks_follows (first : Token) (c : Chain) :
    Follows r (chainLinks nested first c) (chainLinks nested first (marked r.stamp c)) := by
  refine .loop (fun c => .step (.accept _) fun optional => .step (.check _) fun _ => .ite ?_ ?_) c
  · exact .bind (call_follows hn first (c.after optional) optional) fun _ => .pure _
  · exact goOn_follows hn _ (c.after optional) optional

theorem chainFrom_follows (first : Token) : Follows r (chainFrom nested first) (chainFrom nested first) := by
  refine .bind (chainHead_follows hn _ _) fun base => .step (.check _) fun _ => .step .context fun _ =>
    .guard (.tolerateHere _) ?_
  exact .bind (chainLinks_follows hn first ⟨base, false⟩) fun c => finishChain_follows _ c

theorem callChain_follows : Follows r (callChain nested) (callChain nested) :=
  .step .ahead fun first => .withContext (chainFrom_follows hn first)

/-! ## Operators -/

omit hn in
theorem checkUpdated_follows (operand : Node) (restricted : Cause) :
    Follows r (checkUpdated operand restricted) (checkUpdated (operand.mapInfo r.stamp) restricted) := by
  have target : Follows r (get >>= fun s => if s.cover.isAssignmentTarget then pure
    () else tolerateHere .assignmentTarget)
      (get >>= fun s => if s.cover.isAssignmentTarget then pure () else tolerateHere .assignmentTarget) :=
    .get fun _ => .ite (.pure ()) (.tolerateHere _)
  rw [checkUpdated, checkUpdated, Node.isRestrictedName_mapInfo]
  exact .step .isStrict fun _ => .guard (.tolerateHere _) target

theorem updateBefore_follows (first : Token) (op : UpdateOp) :
    Follows r (updateBefore nested first op) (updateBefore nested first op) := by
  refine .step .skip fun _ => .bind (.inherit hn.unary) fun operand =>
    .step (checkUpdated_follows operand _) fun _ => ?_
  exact .bind (.finish _ _) fun n => .step .nonPattern fun _ => .pure n

theorem update_follows : Follows r (update nested) (update nested) := by
  refine .step .ahead fun first => ?_
  cases first.updateOp? with
  | some op => exact updateBefore_follows hn first op
  | none =>
    refine .bind (.inherit (callChain_follows hn)) fun operand => .get fun s => ?_
    rw [show (s.sharing r).lookahead = s.lookahead from rfl]
    cases s.lookahead.updateOp? with
    | none => exact .pure operand
    | some op =>
      refine .ite (.pure operand) (.step (checkUpdated_follows operand _) fun _ => .step .nonPattern fun _ => ?_)
      exact .step .skip fun _ => .finish _ _

theorem await_follows : Follows r (await nested) (await nested) :=
  .step .mark fun _ => .step .skip fun _ => .bind hn.unary fun _ => .finish _ _

theorem unary_follows : Follows r (unary nested) (unary nested) := by
  refine .step .ahead fun first => ?_
  cases first.unaryOp? with
  | some op =>
    refine .step .skip fun _ => .bind (.inherit hn.unary) fun operand => .bind (.finish _ _) fun n => ?_
    rw [Marked.marked_node, Node.isIdentifier_mapInfo]
    exact .step .isStrict fun _ => .guard (.tolerateHere _) (.step .nonPattern fun _ => .pure n)
  | none => exact .step .context fun _ => .ite (await_follows hn) (update_follows hn)

theorem exponentiation_follows : Follows r (exponentiation nested) (exponentiation nested) := by
  refine .step .ahead fun _ => .bind (.inherit (unary_follows hn)) fun left => ?_
  rw [Marked.marked_node, Node.isUnary_mapInfo]
  refine .ite (.pure left) (.step (.accept _) fun _ => .ite (.step .nonPattern fun _ => ?_) (.pure left))
  exact .bind (.isolate hn.exponentiation) fun _ => .finish _ _

omit hn in
theorem joinOperands_follows (p : Pending) (lineAbove : Nat) (right : Node) :
    Follows r (joinOperands p lineAbove right) (joinOperands (marked r.stamp p) lineAbove (right.mapInfo r.stamp)) := by
  rw [joinOperands, joinOperands, show (marked r.stamp p).operator = p.operator from rfl]
  cases p.operator.binaryOp? with
  | some op => exact .finish _ _
  | none => exact .failHere _

omit hn in
theorem reduceWhile_follows (strength : Nat) : ∀ (stack : List Pending) (right : Node) (first : Token),
    Follows r (reduceWhile strength stack right first)
      (reduceWhile strength (marked r.stamp stack) (right.mapInfo r.stamp) first)
  | [], right, first => .pure ([], right, first)
  | p :: stack, right, first => by
    refine .ite (.bind (joinOperands_follows p _ right) fun node => ?_) (.pure (p :: stack, right, first))
    exact reduceWhile_follows strength stack node p.first

omit hn in
theorem reduceAll_follows : ∀ (stack : List Pending) (right : Node) (first : Token),
    Follows r (reduceAll stack right first) (reduceAll (marked r.stamp stack) (right.mapInfo r.stamp) first)
  | [], right, _ => .pure right
  | p :: stack, right, _ => .bind (joinOperands_follows p _ right) fun node => reduceAll_follows stack node p.first

theorem binary_follows : Follows r (binary nested) (binary nested) := by
  refine .step .ahead fun first => .bind (.inherit (exponentiation_follows hn)) fun operand => ?_
  refine .bind (.loop (fun (stack, right, last, mix) => .get fun s => ?_) (([] : List Pending), operand, first,
    ({} : LogicalMix))) fun (stack, right, last, _) =>
    reduceAll_follows stack right last
  refine .ite (.pure _) (.guardUnless (.failAt _) (.bind (reduceWhile_follows _ stack right last) fun (_, _, _) => ?_))
  refine .step .skip fun _ => .step .nonPattern fun _ => .step .ahead fun _ =>
    .bind (.isolate (exponentiation_follows hn)) fun _ => ?_
  exact .pure _

theorem conditional_follows : Follows r (conditional nested) (conditional nested) := by
  refine .step .ahead fun _ => .bind (.inherit (binary_follows hn)) fun test => .step (.accept _) fun _ =>
    .ite ?_ (.pure test)
  refine .bind (.withContext (.isolate hn.assignment)) fun _ => .step (.expect _) fun _ =>
    .bind (.isolate hn.assignment) fun _ => ?_
  exact .bind (.finish _ _) fun n => .step .nonPattern fun _ => .pure n

/-! ## Assignments and arrow functions -/

theorem arrowBody_follows : Follows r (arrowBody nested) (arrowBody nested) :=
  .step (.check _) fun _ => .ite (.withContext (functionBody_follows hn)) (.isolate hn.assignment)

theorem arrowFunction_follows (first : Token) (ps : Parameters) (async : Bool) :
    Follows r (arrowFunction nested first ps async) (arrowFunction nested first (marked r.stamp ps) async) := by
  refine .get fun s => .guard (.tolerateAt _) (.step (.modifyCover _) fun _ =>
    .withContext (.step (.expect _) fun _ => ?_))
  refine .bind (arrowBody_follows hn) fun body => .step .isStrict fun _ => ?_
  have finished : Follows r (finish first.place (.function .arrow none ps.params body false (!isBlock body) async))
      (finish first.place (.function .arrow none (marked r.stamp ps).params (body.mapInfo r.stamp) false
        (!isBlock (body.mapInfo r.stamp)) async)) :=
    .finishing _ (by simp [Kind.map, Kind.traverse, Kind.traverseList_eq, Marked.marked]; rfl)
  refine .ite (.step (failOffender_follows _ _) fun _ => .step (tolerateOffender_follows _ _) fun _ =>
    finished) finished

theorem yieldArgument_follows : Follows r (yieldArgument nested) (yieldArgument nested) := by
  have handed (delegate : Bool) : Follows r (do return (some (← nested .assignment), delegate))
      (do return (some (← nested .assignment), delegate)) := .bind hn.assignment fun e => .pure (some e, delegate)
  refine .get fun s => .ite (.pure (none, false)) (.withContext (.step (.accept _) fun _ => .ite (handed true) ?_))
  exact .ite (handed false) (.pure (none, false))

theorem yieldExpression_follows : Follows r (yieldExpression nested) (yieldExpression nested) :=
  .step .mark fun _ => .step (.expectKeyword _) fun _ => .bindPair (yieldArgument_follows hn) fun _ _ =>
    .finishing _ (by simp)

omit hn in
theorem checkTarget_follows (first : Token) (target : Node) :
    Follows r (checkTarget first target) (checkTarget first (target.mapInfo r.stamp)) := by
  rw [checkTarget, checkTarget, Node.identifierName?_mapInfo]
  refine .get fun _ => .guardUnless (.tolerateHere _) (.step .isStrict fun _ => .ite ?_ (.pure ()))
  cases target.identifierName? with
  | none => exact .pure ()
  | some name => exact .guard (.tolerateWith _ _) (.ite (.tolerateWith _ _) (.pure ()))

theorem assignTo_follows (first : Token) (target : Node) (op : AssignOp) :
    Follows r (assignTo nested first target op) (assignTo nested first (target.mapInfo r.stamp) op) := by
  have assigned (target : Node) : Follows r (skip >>= fun _ => isolate (nested .assignment) >>= fun value =>
      finish first.place (.assignment op target value) >>= fun n =>
        modifyCover ({ · with pending := none }) >>= fun _ => pure n)
      (skip >>= fun _ => isolate (nested .assignment) >>= fun value =>
      finish first.place (.assignment op (target.mapInfo r.stamp) value) >>= fun n =>
        modifyCover ({ · with pending := none }) >>= fun _ => pure n) :=
    .step .skip fun _ => .bind (.isolate hn.assignment) fun _ => .bind (.finish _ _) fun n =>
      .step (.modifyCover _) fun _ => .pure n
  rw [assignTo, assignTo, ← Node.mapInfo_toPattern]
  refine .step (checkTarget_follows first target) fun _ => .ite ?_ (.step .nonPattern fun _ => ?_)
  · exact .bind (.pure target.toPattern) assigned
  · exact .bind (.pure target) assigned

theorem asyncParameter_follows (first : Token) (e : Node) :
    Follows r (asyncParameter nested first e) (asyncParameter nested first (e.mapInfo r.stamp)) := by
  refine .step .ahead fun _ => .ite (.bind (primary_follows hn) fun param => ?_) (.pure e)
  rw [Marked.marked_node, ← Node.mapInfo_toPattern]
  exact placeholder_follows [param.toPattern] true

theorem assignment_follows : Follows r (assignment nested) (assignment nested) := by
  refine .step .ahead fun first => .step .context fun _ =>
    .ite (yieldExpression_follows hn) (.bind (conditional_follows hn) fun e => ?_)
  refine .bind (asyncParameter_follows hn first e) fun e => ?_
  rw [Marked.marked_node, Node.waitingFor?_mapInfo, Node.isIdentifier_mapInfo]
  refine .step (.check _) fun _ => .ite (.step .nonPattern fun _ => .ite (.pure e) ?_) (.step .ahead fun t => ?_)
  · exact .bind (arrowParameters_follows e _) fun ps => arrowFunction_follows hn first ps _
  · cases t.assignOp? with
    | some op => exact assignTo_follows hn first e op
    | none => exact .pure e

end

end EcmaTree.Parse
