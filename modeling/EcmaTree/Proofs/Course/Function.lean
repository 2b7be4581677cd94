import EcmaTree.Proofs.Course.Binding

/-!
# Functions and members

Parameters begin with a parenthesis, and a body begins with a brace: what they nest stands behind that token. The words
before a member, and its key, consume something. What follows the key may be nothing.
-/

namespace EcmaTree.Course

open Parse

variable {text : String} {n : Nat} {nested : Nested} {s : ParseState}

/-! ## Bodies -/

section
variable (he : Reads text n (nested .assignment))
include he

theorem directive_reads : Reads text n (directive nested) := fun s h => by
  refine .ahead (.mark (h.read (expression_reads he) fun e t h => h.pass .endStatement fun _ u h => ?_))
  exact h.node rfl fun _ _ h => h.give

theorem prologue_passes : Passes text n (prologue nested) := fun s h => by
  refine h.pass (.loop fun (statements, legacy) t h => .ahead ?_) fun (statements, legacy) t h => h.give
  refine .ite (fun _ => Judgement.ending.ofPure h) fun _ => h.read (directive_reads he) fun (statement, text?) u h => ?_
  cases text? with
  | none => exact Judgement.ending.ofPure h.reading
  | some text =>
    refine .ite (fun _ => ?_) fun _ => Judgement.ending.ofPure h
    exact h.settle (.useStrict _ _) fun _ v h => Judgement.ending.ofPure h

end

section
variable (hn : Sound text n nested)
include hn

theorem functionBody_reads : Reads text (n + 1) (functionBody nested) := fun s h => by
  have items : Reads text n (do
      let statements ← manyBefore atBodyEnd (nested .listItem)
      expect .rightBrace
      return statements) := fun t h =>
    h.pass (.manyBefore (.get (fun _ => rfl) fun _ => .pure _) hn.listItem) fun statements u h =>
      h.expect fun v h => h.give
  refine .mark (h.expect fun t h => h.nest (prologue_passes hn.assignment) fun directives u h => .get (fun _ => rfl) ?_)
  refine h.settle (.setLabels fun _ => []) fun _ v h => h.nest items.withContext fun statements w h => ?_
  exact h.settle (.setLabels fun _ => u.labels) fun _ x h => h.finish rfl

/-! ## Functions -/

theorem functionRest_reads (restricted : Option Token) (cause : Option Cause) :
    Reads text (n + 1) (functionRest nested restricted cause) := fun s h => by
  refine h.read (parameters_reads hn restricted) fun ps t h => ?_
  have body : Reads text (n + 1) (do
      let body ← functionBody nested
      if ← isStrict then
        failOffender (ps.cause <|> cause) ps.restricted
        tolerateOffender (ps.cause <|> cause) ps.stricted
      return body) := fun u h => by
    refine h.read (functionBody_reads hn) fun body v h => .isStrict (.ite (fun _ => ?_) fun _ => h.give)
    exact h.settle (.failOffender _ _) fun _ w h => h.settle (.tolerateOffender _ _) fun _ x h => h.give
  exact h.pass body.withContext.reading fun body u h => h.give

omit hn in
theorem functionName_reads (isExpression generator : Bool) : Reads text n (functionName isExpression generator) :=
    fun s h => by
  refine .ahead (.isStrict (.ite (fun _ => ?_) fun _ => ?_))
  · exact h.read identifierName_reads fun _ t h => h.settle (.checkFunctionName _) fun (restricted, cause) u h => h.give
  · exact h.read (bindingName_reads none) fun _ t h => h.settle (.checkFunctionName _)
      fun (restricted, cause) u h => h.give

omit hn in
theorem acceptAsync_passes (form : FunctionForm) : Passes text n (acceptAsync form) := fun s h => by
  refine .checkWord (.ite (fun _ => .context ?_) fun _ => h.give)
  exact h.settleIf (.tolerateHere _) fun t h => h.pass .skip fun _ u h => h.give

omit hn in
theorem optionalFunctionName_passes (form : FunctionForm) (nameIsOptional generator : Bool) :
    Passes text n (optionalFunctionName form nameIsOptional generator) := fun s h => by
  refine .check (.ite (fun _ => h.give) fun _ => ?_)
  exact h.pass (functionName_reads _ _).reading fun (name, restricted, cause) t h => h.give

/-- The name, the parameters and the body, with `own` what governs the last two. -/
theorem functionParts_reads (form : FunctionForm) (nameIsOptional generator : Bool) (own : Context → Context) :
    Reads text (n + 1) (do
      let (name, restricted, cause) ← optionalFunctionName form nameIsOptional generator
      let (params, body) ← withContext own (functionRest nested restricted cause)
      return (name, params, body)) := fun s h => by
  refine h.pass (optionalFunctionName_passes _ _ _) fun (name, restricted, cause) t h => ?_
  exact h.read (functionRest_reads hn restricted cause).withContext fun (params, body) u h => h.give

theorem function_reads (form : FunctionForm) (nameIsOptional : Bool) :
    Reads text (n + 1) (function nested form nameIsOptional) := fun s h => by
  refine .mark (h.pass (acceptAsync_passes form) fun async t h => h.expectKeyword fun u h => ?_)
  refine h.accept (fun v h => ?generator) ?plain
  all_goals
    refine h.pass (functionParts_reads hn form nameIsOptional _ _).withContext.reading
      fun (name, params, body) w h => ?_
    exact h.finish rfl

/-! ## Methods -/

theorem methodBody_reads (ps : Parameters) : Reads text (n + 1) (methodBody nested ps) := fun s h => by
  have body : Reads text (n + 1) (do
      let body ← isolate (functionBody nested)
      if ← isStrict then
        tolerateOffender ps.cause ps.restricted
        tolerateOffender ps.cause ps.stricted
      return body) := fun u h => by
    refine h.read (functionBody_reads hn).isolate fun body v h => .isStrict (.ite (fun _ => ?_) fun _ => h.give)
    exact h.settle (.tolerateOffender _ _) fun _ w h => h.settle (.tolerateOffender _ _) fun _ x h => h.give
  exact h.settle .nonPattern fun _ t h => h.last body.withContext

theorem method_reads (generator async : Bool) : Reads text (n + 1) (method nested generator async) := fun s h => by
  have parts : Reads text (n + 1) (do
      let ps ← parameters nested none
      return (ps.params, ← methodBody nested ps)) := fun t h =>
    h.read (parameters_reads hn none) fun ps u h => h.read (methodBody_reads hn ps) fun body v h => h.give
  exact .mark (h.read parts.withContext fun (params, body) t h => h.finish rfl)

theorem accessor_reads {checkParams : List Node → Parse Unit}
    (hc : ∀ params, Judgement.ending.Settles (checkParams params)) :
    Reads text (n + 1) (accessor nested checkParams) := fun s h => by
  have parts : Reads text (n + 1) (do
      let ps ← parameters nested none
      checkParams ps.params
      return (ps.params, ← methodBody nested ps)) := fun t h =>
    h.read (parameters_reads hn none) fun ps u h => h.settle (hc _) fun _ v h =>
      h.read (methodBody_reads hn ps) fun body w h => h.give
  exact .mark (h.read parts.withContext fun (params, body) t h => h.finish rfl)

theorem generatorMethod_reads : Reads text (n + 1) (generatorMethod nested) := fun _ h =>
  .mark (h.read (parameters_reads hn none).withContext fun ps _ h =>
    h.read (methodBody_reads hn ps).withContext fun _ _ h => h.finish rfl)

end

end EcmaTree.Course

/-! ## Members of classes and objects -/

namespace EcmaTree.Course

open Parse

variable {text : String} {n : Nat} {nested : Nested} {s : ParseState}

section
variable (hn : Sound text n nested)
include hn

/-! ## Heads -/

theorem keyAndForm_reads : Reads text (n + 1) (keyAndForm nested) := fun _ h =>
  .check (h.read (propertyKey_reads hn) fun _ _ h => h.give)

theorem staticHead_passes (head : MemberHead) : Passes text (n + 1) (staticHead nested head) := fun s h => by
  refine .ahead (.ite (fun _ => .check (h.accept (fun t h => .pos rfl h.reading.give) (.neg nofun ?_))) fun _ => h.give)
  exact h.read (propertyKey_reads hn) fun key u h => h.reading.give

theorem asyncHead_passes (head : MemberHead) : Passes text (n + 1) (asyncHead nested head) := fun s h => by
  refine .get (fun _ => rfl) (.check (.check (.ite (fun _ => ?_) fun _ => h.give)))
  refine h.accept (fun t h => ?_) ?_
  · refine .ahead (h.read (keyAndForm_reads hn) fun (key, computed) u h => ?_)
    exact h.settleIf (.tolerateWith _ _) fun v h => h.reading.give
  · refine .ahead (h.read (keyAndForm_reads hn) fun (key, computed) u h => ?_)
    exact h.settleIf (.tolerateWith _ _) fun v h => h.reading.give

theorem memberHead_reads : Reads text (n + 1) (memberHead nested) := fun s h => by
  refine .ahead (h.accept (fun t h => .pos rfl h.give) (.neg nofun ?_))
  refine h.read (keyAndForm_reads hn) fun (key, computed) t h => h.pass (staticHead_passes hn _) fun head u h => ?_
  exact h.last (asyncHead_passes hn head)

/-! ## The rest of a member -/

theorem keyAndRest_reads {rest : Parse Node} (hrest : Reads text (n + 1) rest) (kind : MethodKind) (isMethod : Bool) :
    Reads text (n + 1) (keyAndRest nested kind isMethod rest) := fun _ h =>
  h.read (keyAndForm_reads hn) fun (_, _) _ h => h.read hrest fun _ _ h => h.give

theorem wordedMember_passes (head : MemberHead) : Passes text (n + 1) (wordedMember nested head) := fun s h => by
  refine .ahead (.ite (fun _ => h.give) fun _ => .ite (fun _ => ?_) fun _ => .ite (fun _ => ?_) fun _ =>
    .ite (fun _ => ?_) fun _ => h.give)
  · exact h.last (keyAndRest_reads hn (accessor_reads hn Judgement.Settles.checkGetter) _ _).reading
  · exact h.last (keyAndRest_reads hn (accessor_reads hn Judgement.Settles.checkSetter) _ _).reading
  · exact h.last (keyAndRest_reads hn (generatorMethod_reads hn) _ _).reading

theorem keyedMember_passes (head : MemberHead) : Passes text (n + 1) (keyedMember nested head) := fun s h => by
  unfold keyedMember
  split
  · exact h.give
  · refine .check (.ite (fun _ => ?_) fun _ => h.give)
    exact h.pass (method_reads hn _ _).withContext.reading fun value t h => h.give

theorem memberRest_passes (head : MemberHead) : Passes text (n + 1) (memberRest nested head) := fun s h => by
  refine h.pass (wordedMember_passes hn head) fun m t h => ?_
  cases m with
  | some m => exact h.give
  | none => exact h.last (keyedMember_passes hn head)

theorem classMember_reads (hasConstructor : Bool) : Reads text (n + 1) (classMember nested hasConstructor) :=
  fun s h => by
  refine .mark (h.read (memberHead_reads hn) fun head t h => h.pass (memberRest_passes hn head) fun m u h => ?_)
  cases m with
  | none => exact .failAhead
  | some m => exact h.settle (.checkMemberName _ head m) fun isConstructor v h => h.node rfl fun _ _ h => h.give

/-! ## Classes -/

theorem classBody_reads : Reads text (n + 1) (classBody nested) := fun s h => by
  refine .mark (h.expect fun t h => h.pass (.loop fun (members, hasConstructor) u h => ?_)
    fun (members, hasConstructor) u h => h.expect fun v h => h.finish rfl)
  refine .check (.ite (fun _ => Judgement.ending.ofPure h) fun _ =>
    h.accept (fun v h => .pos rfl (Judgement.ending.ofPure h)) (.neg nofun ?_))
  exact h.read (classMember_reads hn _) fun (member, isConstructor) v h => Judgement.ending.ofPure h

theorem classTail_reads : Reads text (n + 1) (classTail nested) := fun s h => by
  refine .checkKeyword (.ite (fun hword => ?_) fun _ => .value (h.read (classBody_reads hn) fun body t h => h.give))
  refine h.skip (not_end_of (f := (·.isKeyword "extends")) hword fun _ => rfl) fun t h => ?_
  exact h.nest hn.callChain.isolate fun superClass u h => .value (h.read (classBody_reads hn) fun body v h => h.give)

omit hn in
theorem className_passes (form : ClassForm) (nameIsOptional : Bool) : Passes text n (className form nameIsOptional) :=
    fun s h => by
  have name : Ends (do return some (← bindingName none)) s fun _ t => Held text n .ahead false (s.site .ahead) t :=
    h.read (bindingName_reads none) fun _ t h => h.reading.give
  exact .ahead (.ite (fun _ => name) fun _ => .ite (fun _ => h.give) fun _ => name)

/-- The name, what the class extends, and the body. -/
theorem classParts_reads (form : ClassForm) (nameIsOptional : Bool) : Reads text (n + 1) (do
    expectKeyword "class"
    let name ← className form nameIsOptional
    let (superClass, body) ← classTail nested
    return (name, superClass, body)) := fun _ h =>
  h.expectKeyword fun _ h => h.pass (className_passes form nameIsOptional) fun _ _ h =>
    h.read (classTail_reads hn) fun (_, _) _ h => h.give

theorem classOf_reads (form : ClassForm) (nameIsOptional : Bool) :
    Reads text (n + 1) (classOf nested form nameIsOptional) :=
  fun _ h => .mark (h.read (classParts_reads hn form nameIsOptional).withContext fun (_, _, _) _ h => h.finish rfl)

/-! ## Array and object literals -/

theorem spread_reads : Reads text (n + 1) (spread nested) := fun _ h =>
  .mark (h.expect fun _ h => h.nest hn.assignment.inherit fun _ _ h => h.finish rfl)

theorem arrayElement_reads : Reads text n (arrayElement nested) := fun s h => by
  refine h.accept (fun t h => .pos rfl h.give) (.neg nofun (.check (.ite (fun _ => ?_) fun _ => ?_)))
  · refine h.read (spread_reads hn).weaken fun element t h => .check (.ite (fun _ => h.give) fun _ => ?_)
    exact h.settle .nonPattern fun _ u h => h.expect fun v h => h.give
  · refine h.read hn.assignment.inherit fun element t h => .check (.ite (fun _ => h.give) fun _ => ?_)
    exact h.expect fun u h => h.give

theorem arrayLiteral_reads : Reads text (n + 1) (arrayLiteral nested) := fun s h => by
  refine .mark (h.expect fun t h => h.nest (.itemsBefore (arrayElement_reads hn)) fun elements u h => ?_)
  exact h.expect fun v h => h.finish rfl

theorem nameOrKey_passes (start : Place) (name : Token) (isWord : Bool) :
    Passes text (n + 1) (nameOrKey nested start name isWord) := fun _ h =>
  .ite (fun _ => h.last (propertyKey_reads hn).reading) fun _ => h.finish rfl

theorem objectMemberHead_reads : Reads text (n + 1) (objectMemberHead nested) := fun s h => by
  have rest {start : Place} {computed async generator : Bool} {t : ParseState}
      (h : Held text (n + 1) .ahead true (s.site .ahead) t) : Ends (do
        return ({
          token := s.lookahead, key := some (← nameOrKey nested start s.lookahead async)
          computed, async, generator } : MemberHead)) t fun _ u => Held text (n + 1) .ahead true (s.site .ahead) u :=
    h.pass (nameOrKey_passes hn _ _ _) fun key u h => h.give
  refine .mark (.ahead (.ite (fun hname => ?_) fun _ => h.accept (fun t h => .pos rfl h.give) (.neg nofun ?_)))
  · refine h.skip (not_end_of hname fun _ => rfl) fun t h => .check (h.settle ?_ fun b u h => ?_)
    · exact .get (fun _ => rfl) fun _ => .bind (.check _) fun _ => .bind (.check _) fun _ =>
        .bind (.check _) fun _ => .pure _
    · exact h.accept (fun v h => rest h) (rest h)
  · exact h.read (keyAndForm_reads hn) fun (key, computed) u h => h.give

theorem shorthandValue_passes (start : Place) (name : Token) : Passes text n (shorthandValue nested start name) :=
    fun s h => by
  refine h.node rfl fun target t h => .ahead (.ite (fun _ => ?_) fun _ => h.give)
  refine h.settle (.modifyCover _) fun _ u h => h.pass .skip fun _ v h => ?_
  exact h.pass hn.assignment.isolate.reading fun value w h => h.finish rfl

theorem keyedProperty_passes (hasProto : Bool) (start : Place) (head : MemberHead) (key : Node) :
    Passes text n (keyedProperty nested hasProto start head key) := fun s h => by
  have property {value : Node} {method shorthand isProto : Bool} {t : ParseState}
      (h : Held text n .ahead false (s.site .ahead) t) : Ends (do
        return (← finish start (.property .init key value head.computed method shorthand), isProto)) t
          fun _ u => Held text n .ahead false (s.site .ahead) u := h.node rfl fun _ _ h => h.give
  refine .check (.ite (fun _ => ?_) fun _ => .check (.ite (fun _ => ?_) fun _ => .ite (fun _ => ?_) fun _ => ?_))
  · refine h.settleIf (.tolerateHere _) fun t h => h.pass .skip fun _ u h => ?_
    exact h.pass hn.assignment.inherit.reading fun value v h => property h
  · exact h.pass (method_reads hn _ _).weaken.reading fun value t h => property h
  · exact h.pass (shorthandValue_passes hn _ _) fun value t h => property h
  · exact h.next fun t _ _ => .failAt

theorem objectMember_reads (hasProto : Bool) : Reads text (n + 1) (objectMember nested hasProto) := fun s h => by
  refine .mark (h.read (objectMemberHead_reads hn) fun head t h => h.pass (wordedMember_passes hn head) fun m u h => ?_)
  cases m with
  | some m => exact h.node rfl fun _ _ h => h.give
  | none =>
    obtain ⟨token, key, computed, static, async, generator⟩ := head
    cases key with
    | some key => exact h.nestLast (keyedProperty_passes hn _ _ _ key)
    | none => exact .failAhead

theorem objectLiteral_reads : Reads text (n + 1) (objectLiteral nested) := fun s h => by
  have item {σ : Type} {a : σ} {base : Nat} {t : ParseState} (h : Held text (n + 1) .ahead true base t) : Ends (do
      unless ← check .rightBrace do expectSeparator
      return Progress.more a) t (Leads.Round text (n + 1) .ahead base) :=
    .check (.ite (fun _ => Judgement.ending.ofPure h) fun _ => h.pass .expectSeparator
      fun _ u h => Judgement.ending.ofPure h)
  refine .mark (h.expect fun t h => h.pass (.loop fun (members, hasProto) u h => ?_)
    fun (members, hasProto) u h => h.expect fun v h => h.finish rfl)
  refine .check (.ite (fun _ => Judgement.ending.ofPure h) fun _ => .check (.ite (fun _ => ?_) fun _ => ?_))
  · exact h.read (spread_reads hn) fun member v h => .value (item h)
  · exact h.read (objectMember_reads hn _) fun (member, isProto) v h => item h

end

end EcmaTree.Course
