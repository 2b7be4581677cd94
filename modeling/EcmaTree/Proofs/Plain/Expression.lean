import EcmaTree.Grammar.Assignment
import EcmaTree.Proofs.Plain.Binding

/-!
# Expressions without JSX

A primary expression looks for JSX where it begins, but a parse without JSX fails there. Only `yield` goes another
way: it takes an operand that begins with `<`, and without JSX it stops before it.
-/

namespace EcmaTree.Parse

/-- What an assignment does behind the expression that it begins with. -/
def assignmentRest (nested : Nested) (first : Token) (e : Node) : Parse Node := do
  let waiting := waitingFor? e
  if waiting.isSome || (← check .arrow) then
    nonPattern
    if waiting.isNone && !e.isIdentifier then return e
    let async := waiting.getD false
    arrowFunction nested first (← arrowParameters e async) async
  else
    match (← ahead).assignOp? with
    | some op => assignTo nested first e op
    | none => return e

variable {I : Invariant} {free : Bool} {nested : Nested} {s : ParseState}

section
variable (hn : Tame I nested)
include hn

/-! ## Classes -/

theorem keyAndForm_goes : Goes I free (keyAndForm nested) :=
  .quiet (.check _) fun _ => .bind (propertyKey_goes hn) fun _ => .pure _

theorem staticHead_goes (head : MemberHead) : Goes I free (staticHead nested head) := by
  refine .quiet .ahead fun _ => .ite (.quiet (.check _) fun _ => .bind (.accept _) fun _ => .ite (.pure _) ?_) (.pure _)
  exact .bind (propertyKey_goes hn) fun _ => .pure _

theorem asyncHead_goes (head : MemberHead) : Goes I free (asyncHead nested head) := by
  refine .get (fun _ => rfl) fun _ => .quiet (.check _) fun _ => .quiet (.check _) fun _ => .ite ?_ (.pure _)
  exact .bind (.accept _) fun _ => .quiet .ahead fun _ => .bind (keyAndForm_goes hn) fun (_, _) =>
    .guard .tolerateWith (.pure _)

theorem memberHead_goes : Goes I free (memberHead nested) := by
  refine .quiet .ahead fun _ => .bind (.accept _) fun _ => .ite (.pure _) (.bind (keyAndForm_goes hn) fun (_, _) => ?_)
  exact .bind (staticHead_goes hn _) fun _ => asyncHead_goes hn _

theorem keyAndRest_goes (kind : MethodKind) (isMethod : Bool) {rest : Parse Node} (hrest : Goes I false rest) :
    Goes I free (keyAndRest nested kind isMethod rest) :=
  .bind (keyAndForm_goes hn) fun (_, _) => .bind hrest fun _ => .pure _

theorem wordedMember_goes (head : MemberHead) : Goes I free (wordedMember nested head) := by
  refine .quiet .ahead fun _ => .ite (.pure _) (.ite (keyAndRest_goes hn _ _ (getter_goes hn)) ?_)
  exact .ite (keyAndRest_goes hn _ _ (setter_goes hn))
    (.ite (keyAndRest_goes hn _ _ (generatorMethod_goes hn)) (.pure _))

theorem keyedMember_goes (head : MemberHead) : Goes I free (keyedMember nested head) := by
  unfold keyedMember
  split
  · exact .pure _
  · refine .quiet (.check _) fun _ => .ite (.bind (.withContext (method_goes hn _ _)) fun _ => .pure _) (.pure _)

theorem memberRest_goes (head : MemberHead) : Goes I free (memberRest nested head) :=
  .bind (wordedMember_goes hn head) fun
  | some _ => .pure _
  | none => keyedMember_goes hn head

omit hn in
theorem checkMemberName_quiet (hasConstructor : Bool) (head : MemberHead) (m : MemberRest) :
    Quiet (checkMemberName hasConstructor head m) :=
  .ite (.pure _) (.ite (.guard .failWith (.pure _)) (.ite (.guard .failWith (.guard .failWith (.pure _))) (.pure _)))

theorem classMember_goes (hasConstructor : Bool) : Goes I free (classMember nested hasConstructor) :=
  .quiet .mark fun _ => .bind (memberHead_goes hn) fun head => .bind (memberRest_goes hn head) fun
    | none => .of_stops .failAhead
    | some _ => .of_quiet (.bind (checkMemberName_quiet _ _ _) fun _ => .bind (.finish _ _) fun _ => .pure _)

theorem classBody_goes : Goes I free (classBody nested) := by
  refine .quiet .mark fun _ => .bind (.expect _) fun _ => .bind (.loop (fun (members, hasConstructor) => ?_) _)
    fun (_, _) =>
    .bind (.expect _) fun _ => .of_quiet (.finish _ _)
  refine .quiet (.check _) fun _ => .ite (.pure _) (.bind (.accept _) fun _ => .ite (.pure _) ?_)
  exact .bind (classMember_goes hn _) fun (_, _) => .pure _

theorem classTail_goes : Goes I free (classTail nested) := by
  have body (superClass : Option Node) : Goes I free (do return (superClass, ← classBody nested)) :=
    .bind (classBody_goes hn) fun _ => .pure _
  refine .quiet (.checkKeyword _) fun _ =>
    .ite (.bind .skip fun _ => .bind hn.callChain.goes.isolate fun _ => body _) (body _)

omit hn in
theorem className_goes (form : ClassForm) (nameIsOptional : Bool) : Goes I free (className form nameIsOptional) := by
  have named : Goes I free (do return some (← bindingName none)) := .bind (bindingName_goes none) fun _ => .pure _
  exact .quiet .ahead fun _ => .ite named (.ite (.pure _) named)

theorem classOf_goes (form : ClassForm) (nameIsOptional : Bool) : Goes I free (classOf nested form nameIsOptional) := by
  refine .quiet .mark fun _ => .bind (.withContext (.bind (.expectKeyword _) fun _ => ?_)) fun (_, _, _) =>
    .of_quiet (.finish _ _)
  exact .bind (className_goes _ _) fun _ => .bind (classTail_goes hn) fun (_, _) => .pure _

/-! ## Array and object literals -/

theorem spread_goes : Goes I true (spread nested) :=
  .quiet .mark fun _ => .bind (.expect _) fun _ => .last hn.assignment.goes.inherit fun _ => .finish _ _

theorem arrayElement_goes : Goes I free (arrayElement nested) := by
  refine .bind (.accept _) fun _ => .ite (.pure _) (.quiet (.check _) fun _ => .ite ?_ ?_)
  · refine .bindFree (spread_goes hn) (fun _ => ?_) fun _ => .check (.quiet .nonPattern fun _ => .first .expect)
    exact .quiet (.check _) fun _ => .ite (.pure _) (.quiet .nonPattern fun _ => .bind (.expect _) fun _ => .pure _)
  · refine .bindFree hn.assignment.goes.inherit (fun _ => ?_) fun _ => .check (.first .expect)
    exact .quiet (.check _) fun _ => .ite (.pure _) (.bind (.expect _) fun _ => .pure _)

theorem arrayLiteral_goes : Goes I free (arrayLiteral nested) :=
  .quiet .mark fun _ => .bind (.expect _) fun _ => .bind (.items (arrayElement_goes hn)) fun _ =>
    .bind (.expect _) fun _ => .of_quiet (.finish _ _)

omit hn in
theorem checkAsyncWord_quiet : Quiet checkAsyncWord := .get (fun _ => rfl) fun _ =>
  .bind (.check _) fun _ => .bind (.check _) fun _ => .bind (.check _) fun _ => .pure _

theorem nameOrKey_goes (start : Place) (name : Token) (isWord : Bool) :
    Goes I free (nameOrKey nested start name isWord) :=
  .ite (propertyKey_goes hn) (.of_quiet (.finish _ _))

theorem objectMemberHead_goes : Goes I free (objectMemberHead nested) := by
  refine .quiet .mark fun _ => .quiet .ahead fun _ => .ite (.bind .skip fun _ => ?_) ?_
  · refine .quiet (.check _) fun _ => .quiet checkAsyncWord_quiet fun _ => .bind (.accept _) fun _ => ?_
    exact .bind (nameOrKey_goes hn _ _ _) fun _ => .pure _
  · exact .bind (.accept _) fun _ => .ite (.pure _) (.bind (keyAndForm_goes hn) fun (_, _) => .pure _)

theorem shorthandValue_goes (start : Place) (name : Token) : Goes I true (shorthandValue nested start name) := by
  refine .quiet (.finish _ _) fun _ => .quiet .ahead fun _ => .ite (.quiet (.modifyCover _) fun _ => ?_) (.pure _)
  exact .bind .skip fun _ => .last hn.assignment.goes.isolate fun _ => .finish _ _

theorem keyedProperty_goes (hasProto : Bool) (start : Place) (head : MemberHead) (key : Node) :
    Goes I true (keyedProperty nested hasProto start head key) := by
  refine .quiet (.check _) fun _ =>
    .ite ?_ (.quiet (.check _) fun _ => .ite ?_ (.ite ?_ (.bind .next fun _ => .of_stops .failAt)))
  · refine .guard .tolerateHere (.bind .skip fun _ => .last hn.assignment.goes.inherit fun _ => ?_)
    exact .bind (.finish _ _) fun _ => .pure _
  · exact .last (method_goes hn _ _) fun _ => .bind (.finish _ _) fun _ => .pure _
  · exact .last (shorthandValue_goes hn _ _) fun _ => .bind (.finish _ _) fun _ => .pure _

theorem objectMember_goes (hasProto : Bool) : Goes I true (objectMember nested hasProto) := by
  refine .quiet .mark fun _ => .bind (objectMemberHead_goes hn) fun head => .bind (wordedMember_goes hn head) fun
    | some _ => .of_quiet (.bind (.finish _ _) fun _ => .pure _)
    | none => ?_
  cases head.key with
  | some key => exact keyedProperty_goes hn _ _ _ key
  | none => exact .of_stops .failAhead

theorem objectLiteral_goes : Goes I free (objectLiteral nested) := by
  refine .quiet .mark fun _ => .bind (.expect _) fun _ => .bind (.loop (fun (members, hasProto) => ?_) _) fun (_, _) =>
    .bind (.expect _) fun _ => .of_quiet (.finish _ _)
  have closed (member : Node) (isProto : Bool) : Goes I false (do
      unless ← check .rightBrace do expectSeparator
      return Progress.more (member :: members, hasProto || isProto)) :=
    .quiet (.check _) fun _ => .ite (.pure _) (.bind .expectSeparator fun _ => .pure _)
  have halts (member : Node) (isProto : Bool) : Halts false (do
      unless ← check .rightBrace do expectSeparator
      return Progress.more (member :: members, hasProto || isProto)) := .check (.first .expectSeparator)
  refine .quiet (.check _) fun _ => .ite (.pure _) (.quiet (.check _) fun _ => .ite ?_ ?_)
  · exact .bindFree (spread_goes hn) (fun _ => closed _ _) fun _ => halts _ _
  · exact .bindFree (objectMember_goes hn _) (fun (_, _) => closed _ _) fun (_, _) => halts _ _

/-! ## Parentheses -/

omit hn in
theorem requireArrow_goes : Goes I free requireArrow := .quiet (.check _) fun _ => .ite (.pure _) (.expect _)

theorem groupRest_goes : Goes I free (groupRest nested) :=
  .bind (finalRest_goes hn _ _) fun (_, _) => .bind (.expect _) fun _ => .bind requireArrow_goes fun _ => .pure _

omit hn in
theorem closeGroup_goes (e : Node) : Goes I free (closeGroup e) := by
  have restored (result : Node) : Quiet (do modifyCover ({ · with isBindingElement := false }); return result) :=
    .bind (.modifyCover _) fun _ => .pure _
  refine .bind (.expect _) fun _ =>
    .of_quiet (.bind (.check _) fun _ => .ite (.ite ?_ (.get (fun _ => rfl) fun _ => ?_)) ?_)
  · exact .bind (.pure _) fun _ => restored _
  · exact .guardUnless .failAhead (.bind (.pure _) fun _ => restored _)
  · exact .bind (.pure _) fun _ => restored _

omit hn in
theorem closeGroup_halts (e : Node) : Halts free (closeGroup e) := .first .expect

/-- The items of a group may end before a `<` only if the group is not known to be a list of parameters. -/
theorem groupItems_goes {β : Type} {f : List Node × Bool → Parse β} (first : Node) (hf : ∀ a, Goes I free (f a))
    (hstop : ∀ items, Halts free (f (items, false))) : Goes I free (groupItems nested first >>= f) := by
  unfold groupItems
  rw [bind_assoc]
  refine .quiet (.modifyCover _) fun _ => ?_
  rw [bind_assoc]
  generalize [first] = items
  unfold loop
  rw [bind_assoc]
  refine .get (fun _ => rfl) fun s => ?_
  generalize s.bound = bound
  induction bound generalizing items with
  | zero => exact .of_stops fun _ _ _ _ h => by cases h
  | succ bound ih =>
    rw [iterate, bind_assoc, bind_assoc]
    refine .bind (.accept _) fun more => ?_
    cases more with
    | false => exact hf _
    | true =>
      refine (bind_assoc (accept .rightParen) _ _).symm ▸ .bind (.accept _) fun closed => ?_
      cases closed with
      | true => exact hf _
      | false =>
        refine (bind_assoc (check .ellipsis) _ _).symm ▸ .quiet (.check _) fun rest => ?_
        cases rest with
        | true =>
          refine (bind_assoc (get : Parse ParseState) _ _).symm ▸ .get (fun _ => rfl) fun _ => ?_
          split
          · refine (bind_assoc (groupRest nested) _ _).symm ▸ .bind (groupRest_goes hn) fun rest => ?_
            exact (bind_assoc (modifyCover _) _ _).symm ▸ .quiet (.modifyCover _) fun _ => hf _
          · exact .of_stops (.bind (.bind .failAhead))
        | false =>
          refine (bind_assoc (inherit (nested .assignment)) _ _).symm ▸ .bindFree hn.assignment.goes.inherit
            (fun e => ih _) fun e => ?_
          -- The next round finds the `<`, and ends the list without another item.
          cases bound with
          | zero => exact .of_stops fun _ _ _ _ h => by cases h
          | succ bound =>
            rw [pure_bind]
            dsimp only
            rw [iterate, bind_assoc, bind_assoc]
            exact .accept (hstop _)

theorem groupContents_goes : Goes I free (groupContents nested) := by
  refine .quiet .ahead fun start => .quiet (.modifyCover _) fun _ =>
    .bindFree hn.assignment.goes.inherit (fun _ => ?_) fun _ =>
    .check (closeGroup_halts _)
  refine .quiet (.check _) fun _ =>
    .ite (groupItems_goes hn _ (fun (_, isParameters) => ?_) fun _ => ?_) (closeGroup_goes _)
  · exact .ite (.pure _) (.quiet (.finish _ _) fun _ => closeGroup_goes _)
  · exact .quiet (.finish _ _) fun _ => closeGroup_halts _

theorem group_goes : Goes I free (group nested) := by
  refine .bind (.expect _) fun _ => .bind (.accept _) fun _ => .ite (.bind requireArrow_goes fun _ => .pure _) ?_
  exact .quiet (.check _) fun _ => .ite (.bind (groupRest_goes hn) fun _ => .pure _) (groupContents_goes hn)

/-! ## Primary expressions -/

omit hn in
theorem checkImportCall_quiet : Quiet checkImportCall :=
  .bind (.checkKeyword _) fun _ => .ite (.bind .second fun _ => .pure _) (.pure _)

omit hn in
theorem checkImportMeta_quiet : Quiet checkImportMeta := by
  refine .bind (.checkKeyword _) fun _ => .ite (.bind .behindDot fun t => ?_) (.pure _)
  cases t with
  | some t => exact .ite (.guard .tolerateWith (.pure _)) (.pure _)
  | none => exact .pure _

omit hn in
theorem importCallee_goes : Goes I free importCallee :=
  .quiet .mark fun _ => .bind (.expectKeyword _) fun _ => .of_quiet (.finish _ _)

omit hn in
theorem importMeta_goes : Goes I free importMeta :=
  .quiet .mark fun _ => .bind identifierName_goes fun _ => .bind (.expect _) fun _ => .bind identifierName_goes fun _ =>
    .of_quiet (.bind (.modifyCover _) fun _ => .finish _ _)

omit hn in
theorem literal_goes : Goes I free literal := by
  refine .quiet .mark fun _ => .quiet .ahead fun _ => .quiet .isStrict fun _ => .guard .tolerateWith ?_
  exact .quiet .nonPattern fun _ => .bind .skip fun _ => .of_quiet (.finish _ _)

omit hn in
theorem regexLiteral_goes (hs : I.Holds s)
    (hslash : (s.lookahead.isPunctuator .slash || s.lookahead.isPunctuator .divAssign) = true) :
    GoesFrom I free regexLiteral s := by
  refine .bind (Quiet.mark.goes I s hs) ?_
  rintro _ _ ht ⟨⟩
  refine .bind (Quiet.nonPattern.goes I s hs) ?_
  rintro _ _ ht ⟨⟩
  refine .bind (fun a t ha => .inl ⟨I.regex ht hslash ha, Blind.regex _ a t ha⟩) fun _ t ht _ => ?_
  exact Goes.of_quiet (.finish _ _) t ht

omit hn in
theorem noExpression_goes : Goes I free noExpression := .bind .next fun _ => .of_stops .failAt

omit hn in
theorem noExpression_halts : Halts free noExpression := .next fun _ _ => .failAt

theorem nameExpression_goes : Goes I free (nameExpression nested) := by
  refine .quiet .mark fun _ => .quiet .ahead fun _ => .quiet .context fun _ =>
    .guard .tolerateAt (.quiet checkAsyncFunction_quiet fun _ => ?_)
  exact .ite (function_goes hn _ _) (.bind .next fun _ => .of_quiet (.finish _ _))

theorem keywordExpression_goes : Goes I free (keywordExpression nested) := by
  have word (start : Place) (kind : Kind Node) : Goes I free (do skip; finish start kind) :=
    .bind .skip fun _ => .of_quiet (.finish _ _)
  refine .quiet .mark fun start => .quiet .ahead fun t => .quiet .context fun c =>
    .ite identifierName_goes (.ite (word _ _) ?_)
  refine .quiet .nonPattern fun _ => .ite (function_goes hn _ _) (.ite (word _ _) (.ite (classOf_goes hn _ _) ?_))
  refine .quiet checkImportCall_quiet fun _ =>
    .ite importCallee_goes (.quiet checkImportMeta_quiet fun _ => .ite ?_ noExpression_goes)
  exact .guardUnless .tolerateWith importMeta_goes

theorem primary_goes : Goes I free (primary nested) := by
  refine fun s hs => .ahead (.unlessJsx hs ?_ fun hless a t h => ?_)
  · split
    case h_1 => exact nameExpression_goes hn s hs
    case h_2 | h_3 | h_4 | h_5 => exact literal_goes s hs
    case h_6 => exact template_goes hn _ s hs
    case h_7 => exact Goes.quiet (.modifyCover _) (fun _ => (group_goes hn).inherit) s hs
    case h_8 => exact (arrayLiteral_goes hn).inherit s hs
    case h_9 => exact (objectLiteral_goes hn).inherit s hs
    case h_10 hl => exact regexLiteral_goes hs (by simp [Token.isPunctuator, hl])
    case h_11 hl => exact regexLiteral_goes hs (by simp [Token.isPunctuator, hl])
    case h_12 => exact keywordExpression_goes hn s hs
    case h_13 => exact noExpression_goes s hs
  · rw [Token.isPunctuator_iff] at hless
    rw [hless] at h
    obtain ⟨_, _, _, h⟩ := bind_eq_ok.1 h
    cases h

omit hn in
theorem primary_halts : Halts free (primary nested) := .ahead fun t ht => .get fun s hs => by
  rw [hs.plain.jsx, ht]
  exact noExpression_halts

/-! ## Member accesses and calls -/

theorem argument_goes (maybeParameter : Bool) : Goes I true (argument nested maybeParameter) := by
  refine .quiet (.check _) fun _ => .ite (spread_goes hn) (.isolate (.last hn.assignment.goes fun _ => ?_))
  exact .ite (.bind (.modifyCover _) fun _ => .pure _) (.pure _)

theorem arguments_goes (maybeParameters : Bool) : Goes I free (arguments nested maybeParameters) := by
  have closed (args : List Node) : Goes I free (do expect .rightParen; return args.reverse) :=
    .bind (.expect _) fun _ => .pure _
  refine .bind (.expect _) fun _ => .quiet (.check _) fun _ =>
    .ite (.bind (.pure _) fun _ => closed _) (.bind (.loop (fun args => ?_) _) closed)
  refine .bindFree (argument_goes hn _) (fun _ => ?_) fun _ => .check (.first .expectSeparator)
  refine .quiet (.check _) fun _ => .ite (.pure _) (.bind .expectSeparator fun _ => ?_)
  exact .quiet (.check _) fun _ => .ite (.pure _) (.pure _)

theorem newExpression_goes : Goes I free (newExpression nested) := by
  have finished (start : Place) (callee : Node) (args : List Node) :
      Goes I free (do nonPattern; finish start (.new callee args)) :=
    .of_quiet (.bind .nonPattern fun _ => .finish _ _)
  refine .quiet .mark fun _ => .bind identifierName_goes fun _ => .bind (.accept _) fun _ => .ite ?_ ?_
  · refine .quiet .ahead fun _ => .quiet .context fun _ => .ite ?_ (.of_stops .failAhead)
    exact .bind identifierName_goes fun _ => .of_quiet (.finish _ _)
  · refine .quiet (.checkKeyword _) fun _ => .ite (.of_stops .failAhead) (.bind hn.callee.goes.isolate fun _ => ?_)
    exact .quiet (.check _) fun _ => .ite (.bind (arguments_goes hn _) fun _ => finished _ _ _)
      (.bind (.pure _) fun _ => finished _ _ _)

theorem chainBase_goes : Goes I free (chainBase nested) :=
  .quiet (.checkKeyword _) fun _ => .ite (newExpression_goes hn).inherit (primary_goes hn).inherit

omit hn in
theorem chainBase_halts : Halts free (chainBase nested) := .checkKeyword primary_halts.inherit

omit hn in
theorem superBase_goes (allowsCall : Bool) : Goes I free (superBase allowsCall) := by
  refine .quiet .mark fun _ => .bind (.expectKeyword _) fun _ => .of_quiet ?_
  refine .bind (.check _) fun _ => .bind (.check _) fun _ => .bind (.check _) fun _ =>
    .ite ?_ (.ite (.finish _ _) (.of_stops .failAhead))
  exact .bind (.finish _ _) fun _ => .ite (.pure _) (.of_stops .failAhead)

theorem chainHead_goes (isSuper allowsCall : Bool) : Goes I free (chainHead nested isSuper allowsCall) :=
  .quiet .context fun _ => .ite (superBase_goes _) (chainBase_goes hn)

omit hn in
theorem chainHead_halts (isSuper allowsCall : Bool) : Halts free (chainHead nested isSuper allowsCall) :=
  .quiet .context fun _ => .ite (fun _ => .quiet .mark fun _ => .first .expectKeyword) fun _ => chainBase_halts

theorem link_goes (start : Place) (c : Chain) (optional : Bool) : Goes I free (link nested start c optional) := by
  refine .quiet .ahead fun _ => .ite ?_ (.ite ?_ (.ite ?_ (.pure _)))
  · refine .quiet (.modifyCover _) fun _ => .bind .skip fun _ =>
      .bindFree (expression_proceeds hn).goes.isolate (fun _ => ?_) fun _ => .first .expect
    exact .bind (.expect _) fun _ => .of_quiet (.bind (.finish _ _) fun _ => .pure _)
  · refine .guard .failAhead (.guard .failHere (.bind (template_goes hn _) fun _ => ?_))
    exact .of_quiet (.bind (.finish _ _) fun _ => .pure _)
  · have field : Goes I free (do
        let field ← identifierName
        return some (← finish start (.member c.expression field false optional))) :=
      .bind identifierName_goes fun _ => .of_quiet (.bind (.finish _ _) fun _ => .pure _)
    exact .quiet (.modifyCover _) fun _ => .ite field (.bind (.expect _) fun _ => field)

theorem goOn_goes (start : Place) (c : Chain) (optional : Bool) : Goes I free (goOn nested start c optional) :=
  .bind (link_goes hn start c optional) fun
    | some _ => .pure _
    | none => .pure _

omit hn in
theorem finishChain_quiet (start : Place) (c : Chain) : Quiet (finishChain start c) := .ite (.finish _ _) (.pure _)

theorem callee_goes : Goes I free (callee nested) := by
  refine .quiet .ahead fun _ => .quiet (.checkKeyword _) fun _ => .bind (chainHead_goes hn _ _) fun _ => ?_
  refine .bind (.loop (fun c => ?_) _) fun _ => .of_quiet (finishChain_quiet _ _)
  exact .bind (.accept _) fun _ => goOn_goes hn _ _ _

omit hn in
theorem callee_halts : Halts free (callee nested) := .ahead fun _ _ => .checkKeyword (.first (chainHead_halts _ _))

theorem call_goes (first : Token) (c : Chain) (optional : Bool) : Goes I free (call nested first c optional) := by
  refine .quiet .ahead fun _ => .quiet .nonPattern fun _ => .bind (arguments_goes hn _) fun _ =>
    .of_quiet (.guard .tolerateHere ?_)
  exact .bind (.check _) fun _ => .ite (.pure _) (.finish _ _)

theorem chainFrom_goes (first : Token) : Goes I free (chainFrom nested first) := by
  have links (base : Node) : Goes I free (do finishChain first.place (← chainLinks nested first ⟨base, false⟩)) := by
    refine .bind (.loop (fun c => ?_) _) fun _ => .of_quiet (finishChain_quiet _ _)
    refine .bind (.accept _) fun _ => .quiet (.check _) fun _ => .ite ?_ (goOn_goes hn _ _ _)
    exact .bind (call_goes hn _ _ _) fun _ => .pure _
  refine .bind (chainHead_goes hn _ _) fun _ => .quiet (.check _) fun _ => .quiet .context fun _ =>
    .guard .tolerateHere (links _)

theorem callChain_goes : Goes I free (callChain nested) := .quiet .ahead fun _ => .withContext (chainFrom_goes hn _)

omit hn in
theorem callChain_halts : Halts free (callChain nested) := .ahead fun _ _ => .withContext (.first (chainHead_halts _ _))

/-! ## Operators -/

omit hn in
theorem checkUpdated_quiet (operand : Node) (restricted : Cause) : Quiet (checkUpdated operand restricted) :=
  .bind .isStrict fun _ => .guard .tolerateHere (.get (fun _ => rfl) fun _ => .ite (.pure _) (.of_stops .tolerateHere))

theorem update_goes : Goes I free (update nested) := by
  refine .quiet .ahead fun first => ?_
  cases first.updateOp? with
  | some op =>
    refine .bind .skip fun _ => .bind hn.unary.goes.inherit fun _ =>
      .of_quiet (.bind (checkUpdated_quiet _ _) fun _ => ?_)
    exact .bind (.finish _ _) fun _ => .bind .nonPattern fun _ => .pure _
  | none =>
    refine .bind (callChain_goes hn).inherit fun operand => .get (fun _ => rfl) fun s => ?_
    cases s.lookahead.updateOp? with
    | some op =>
      refine .ite (.pure _) (.quiet (checkUpdated_quiet _ _) fun _ => .quiet .nonPattern
        fun _ => .bind .skip fun _ => ?_)
      exact .of_quiet (.finish _ _)
    | none => exact .pure _

omit hn in
theorem update_halts : Halts free (update nested) := .ahead fun t ht => by
  rw [Token.updateOp?, ht]
  exact .first callChain_halts.inherit

theorem unary_goes : Goes I free (unary nested) := by
  refine .quiet .ahead fun first => ?_
  cases first.unaryOp? with
  | some op =>
    refine .bind .skip fun _ => .bind hn.unary.goes.inherit fun _ =>
      .of_quiet (.bind (.finish _ _) fun _ => .bind .isStrict fun _ => ?_)
    exact .guard .tolerateHere (.bind .nonPattern fun _ => .pure _)
  | none =>
    refine .quiet .context fun _ => .ite (.quiet .mark fun _ => .bind .skip fun _ => ?_) (update_goes hn)
    exact .bind hn.unary.goes fun _ => .of_quiet (.finish _ _)

omit hn in
theorem unary_halts : Halts free (unary nested) := .ahead fun t ht => by
  rw [Token.unaryOp?, ht]
  refine .quiet .context fun c => .ite (fun h => ?_) fun _ => update_halts
  simp [Token.isIdentifierNamed, ht] at h

theorem exponentiation_goes : Goes I free (exponentiation nested) := by
  refine .quiet .ahead fun _ => .bind (unary_goes hn).inherit fun _ =>
    .ite (.pure _) (.bind (.accept _) fun _ => .ite ?_ (.pure _))
  exact .quiet .nonPattern fun _ => .bind hn.exponentiation.goes.isolate fun _ => .of_quiet (.finish _ _)

omit hn in
theorem exponentiation_halts : Halts free (exponentiation nested) := .ahead fun _ _ => .first unary_halts.inherit

omit hn in
theorem joinOperands_quiet (p : Pending) (lineAbove : Nat) (right : Node) : Quiet (joinOperands p lineAbove right) := by
  unfold joinOperands
  split
  · exact .finish _ _
  · exact .of_stops .failHere

omit hn in
theorem reduceWhile_quiet (strength : Nat) (stack : List Pending) :
    ∀ right first, Quiet (reduceWhile strength stack right first) := by
  induction stack with
  | nil => exact fun _ _ => .pure _
  | cons p stack ih => exact fun _ _ => .ite (.bind (joinOperands_quiet _ _ _) fun _ => ih _ _) (.pure _)

omit hn in
theorem reduceAll_quiet (stack : List Pending) : ∀ right first, Quiet (reduceAll stack right first) := by
  induction stack with
  | nil => exact fun _ _ => .pure _
  | cons p stack ih => exact fun _ _ => .bind (joinOperands_quiet _ _ _) fun _ => ih _ _

theorem binary_goes : Goes I free (binary nested) := by
  refine .quiet .ahead fun _ => .bind (exponentiation_goes hn).inherit fun _ => .bind (.loop ?_ _) fun (_, _, _, _) =>
    .of_quiet (reduceAll_quiet _ _ _)
  rintro ⟨stack, right, last, mix⟩
  refine .get (fun _ => rfl) fun s =>
    .ite (.pure _) (.guardUnless .failAt (.quiet (reduceWhile_quiet _ _ _ _) fun (_, _, _) => ?_))
  refine .bind .skip fun _ => .quiet .nonPattern fun _ => .quiet .ahead fun _ => ?_
  exact .bind (exponentiation_goes hn).isolate fun _ => .pure _

omit hn in
theorem binary_halts : Halts free (binary nested) := .ahead fun _ _ => .first exponentiation_halts.inherit

theorem conditional_goes : Goes I true (conditional nested) := by
  refine .quiet .ahead fun _ => .bind (binary_goes hn).inherit fun _ => .bind (.accept _) fun _ => .ite ?_ (.pure _)
  have alternate (first : Token) (test consequent : Node) : Goes I true (do
      let alternate ← isolate (nested .assignment)
      let node ← finish first.place (.conditional test consequent alternate)
      nonPattern
      return node) :=
    .last hn.assignment.goes.isolate fun _ => .bind (.finish _ _) fun _ => .bind .nonPattern fun _ => .pure _
  exact .bindFree hn.assignment.goes.isolate.withContext (fun _ => .bind (.expect _) fun _ => alternate _ _ _)
    fun _ => .first .expect

omit hn in
theorem conditional_halts : Halts free (conditional nested) := .ahead fun _ _ => .first binary_halts.inherit

/-! ## Assignments -/

theorem arrowFunction_goes (first : Token) (ps : Parameters) (async : Bool) :
    Goes I true (arrowFunction nested first ps async) := by
  have body : Goes I true (arrowBody nested) :=
    .quiet (.check _) fun _ => .ite (.withContext (functionBody_goes hn)) hn.assignment.goes.isolate
  refine .get (fun _ => rfl) fun _ =>
    .guard .tolerateAt (.quiet (.modifyCover _) fun _ => .withContext (.bind (.expect _) fun _ => ?_))
  refine .last body fun _ => .bind .isStrict fun _ => .ite ?_ (.finish _ _)
  exact .bind (failOffender_quiet _ _) fun _ => .bind (tolerateOffender_quiet _ _) fun _ => .finish _ _

omit hn in
theorem arrowFunction_halts (first : Token) (ps : Parameters) (async : Bool) :
    Halts free (arrowFunction nested first ps async) :=
  .get fun _ _ => .guard .tolerateAt (.quiet (.modifyCover _) fun _ => .withContext (.first .expect))

omit hn in
theorem beginsExpression_withJsx {t : Token} (ht : t.lexeme ≠ .punctuator .lt) :
    beginsExpression true t = beginsExpression false t := by
  unfold beginsExpression
  split
  next p hp =>
    have other : (p == .lt) = false := by
      rw [beq_eq_false_iff_ne]
      rintro rfl
      exact ht hp
    simp [other]
  · rfl
  · rfl

omit hn in
theorem yieldArgument_halts : Halts true (yieldArgument nested) := .get fun s hs => by
  have other : beginsExpression s.dialect.jsx s.lookahead = false := by
    rw [hs.plain.jsx, beginsExpression, hs.less]
    rfl
  rw [hs.sameLine, other]
  exact .ite nofun fun _ => .withContext (.accept (p := .star) (.ite nofun fun _ => .ite nofun fun _ => .pure _))

/-- The one place where the ways part: with JSX a `<` behind `yield` begins an operand. -/
theorem yieldArgument_goes : Goes I true (yieldArgument nested) := by
  intro s hs
  by_cases hline : s.newline = true
  · refine .get (by rw [show s.withJsx.newline = true from hline, hline]; rfl) ?_
    rw [hline]
    exact Goes.pure _ s hs
  by_cases hless : s.lookahead.lexeme = .punctuator .lt
  · have atLess : s.AtLess := ⟨I.plain hs, hless, by simpa using hline⟩
    exact fun a t h => .inr (yieldArgument_halts s atLess a t h)
  · have argument (delegate : Bool) : Goes I true (do return (some (← nested .assignment), delegate)) :=
      .last hn.assignment.goes fun _ => .pure _
    refine .get ?_ ?_
    · have same : beginsExpression s.withJsx.dialect.jsx s.withJsx.lookahead =
        beginsExpression s.dialect.jsx s.lookahead := by
        rw [(I.plain hs).jsx]
        exact beginsExpression_withJsx hless
      rw [same]
      rfl
    · refine Goes.ite (.pure _) (.withContext (.bind (.accept _) fun _ =>
        .ite (argument _) (.ite (argument _) (.pure _)))) s hs

theorem yieldExpression_goes : Goes I true (yieldExpression nested) :=
  .quiet .mark fun _ => .bind (.expectKeyword _) fun _ => .last (yieldArgument_goes hn) fun (_, _) => .finish _ _

omit hn in
theorem checkTarget_quiet (first : Token) (target : Node) : Quiet (checkTarget first target) := by
  refine .get (fun _ => rfl) fun _ => .guardUnless .tolerateHere (.bind .isStrict fun _ => .ite ?_ (.pure _))
  cases target.identifierName? with
  | some name => exact .guard .tolerateWith (.ite (.of_stops .tolerateWith) (.pure _))
  | none => exact .pure _

theorem assignTo_goes (first : Token) (target : Node) (op : AssignOp) :
    Goes I true (assignTo nested first target op) := by
  have value (target : Node) : Goes I true (do
      skip
      let value ← isolate (nested .assignment)
      let node ← finish first.place (.assignment op target value)
      modifyCover ({ · with pending := none })
      return node) :=
    .bind .skip fun _ => .last hn.assignment.goes.isolate fun _ => .bind (.finish _ _) fun _ =>
      .bind (.modifyCover _) fun _ => .pure _
  refine .quiet (checkTarget_quiet _ _) fun _ =>
    .ite (.bind (.pure _) fun _ => value _) (.quiet .nonPattern fun _ => ?_)
  exact .bind (.pure _) fun _ => value _

theorem asyncParameter_goes (first : Token) (e : Node) : Goes I free (asyncParameter nested first e) :=
  .quiet .ahead fun _ => .ite (.bind (primary_goes hn) fun _ => .pure _) (.pure _)

omit hn in
theorem asyncParameter_halts (first : Token) (e : Node) : Halts true (asyncParameter nested first e) :=
  .ahead fun t ht => by
  have other : (t.isIdentifier || t.isKeyword "yield") = false := by simp [Token.isIdentifier, Token.isKeyword, ht]
  rw [other, Bool.and_false]
  exact .pure _

theorem assignmentRest_goes (first : Token) (e : Node) : Goes I true (assignmentRest nested first e) := by
  refine .quiet (.check _) fun _ => .ite (.quiet .nonPattern fun _ => .ite (.pure _) ?_) (.quiet .ahead fun t => ?_)
  · exact .quiet (arrowParameters_quiet _ _) fun _ => arrowFunction_goes hn _ _ _
  · cases t.assignOp? with
    | some op => exact assignTo_goes hn _ _ op
    | none => exact .pure _

omit hn in
theorem assignmentRest_halts (first : Token) (e : Node) : Halts true (assignmentRest nested first e) := by
  refine .check (.ite (fun _ => .quiet .nonPattern fun _ => .ite (fun _ => .pure _) fun _ => ?_)
    fun _ => .ahead fun t ht => ?_)
  · exact .quiet (arrowParameters_quiet _ _) fun _ => arrowFunction_halts _ _ _
  · rw [Token.assignOp?, ht]
    exact .pure _

theorem assignment_goes : Goes I true (assignment nested) := by
  refine .quiet .ahead fun first => .quiet .context fun _ => .ite (yieldExpression_goes hn) ?_
  refine .bindFree (conditional_goes hn) (fun e => .bind (asyncParameter_goes hn first e) fun e =>
    assignmentRest_goes hn first e) ?_
  exact fun e => .bind (asyncParameter_halts first e) fun e => assignmentRest_halts first e

omit hn in
theorem assignment_halts : Halts free (assignment nested) :=
  .ahead fun t ht => .quiet .context fun c => .ite (fun h => by
  simp [Token.isKeyword, ht] at h) fun _ => .first conditional_halts

end

end EcmaTree.Parse
