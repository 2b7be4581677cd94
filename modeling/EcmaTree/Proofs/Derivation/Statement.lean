import EcmaTree.Grammar.Statement
import EcmaTree.Proofs.Derivation.Class
import EcmaTree.Proofs.Derivation.Iteration

/-!
# Statements

A jump has its target around it, since the setting says what is there; statements leave the setting as they found it,
so what a statement adds to it holds inside of it only.
-/

namespace EcmaTree.Parse

variable {source : String} {E : Setting} {c : Cover} {nested : Nested}

section
variable (hn : Sound source nested)
include hn

theorem block_derived (E : Setting) (c : Cover) :
    Reads source E c (block nested) fun n _ => DerivedHere source E .node n := by
  refine .mark fun start => .keep .expect fun _ _ => .part (Reads.itemsBefore (I := fun _ => True)
    (R := fun n _ => DerivedHere source E .node n) trivial fun c _ => ?_) fun body c ⟨_, h⟩ => ?_
  · exact .mono (hn.listItem E c) fun n E' c' ⟨hE, h⟩ => ⟨hE, trivial, h, fun _ hb => hb⟩
  · exact .keep .expect fun _ _ => .finish fun i => ⟨rfl, .plain rfl (by simpa [Kind.children] using h)⟩

omit hn in
theorem emptyStatement_derived (E : Setting) (c : Cover) :
    Reads source E c emptyStatement fun n _ => DerivedHere source E .node n :=
  .mark fun start => .keep .expect fun _ _ => .finish fun i => ⟨rfl, .plain rfl (by simp [Kind.children])⟩

omit hn in
/-- An expression that has been read as a statement. -/
theorem closeExpression_derived {start : Place} {e : Node} (h : DerivedHere source E (.expression .value) e) :
    Reads source E c (do
      endStatement
      finish start (.expressionStatement e none)) fun n _ => DerivedHere source E .node n :=
  .keep .endStatement fun _ _ => .finish fun i => ⟨rfl, .plain rfl (by simpa [Kind.children] using .of_value h)⟩

theorem expressionStatement_derived (E : Setting) (c : Cover) :
    Reads source E c (expressionStatement nested) fun n _ => DerivedHere source E .node n :=
  .mark fun _ => .expression E.scope hn fun _ he => closeExpression_derived he

/-! ## Choices -/

theorem branch_derived : States source (branch nested) := fun E c =>
  .isStrict (.checkKeyword fun _ => .assert Stops.tolerateHere fun _ => hn.statement E c)

theorem ifStatement_derived (E : Setting) (c : Cover) :
    Reads source E c (ifStatement nested) fun n _ => DerivedHere source E .node n := by
  refine .mark fun start => .keep .expectKeyword fun _ _ => .keep .expect fun _ _ =>
    .expression E.scope hn fun test ht => ?_
  refine .keep .missingParen ?_
  rintro _ rfl
  refine .keep .expect fun _ _ => .part (branch_derived hn E c) fun consequent c hc =>
    .keep .acceptKeyword fun _ _ => .ite (fun _ => ?_) fun _ => .value ?_
  · refine .part (branch_derived hn E c) fun alternate c ha => .value (.finish fun i => ⟨rfl, .plain rfl ?_⟩)
    simpa [Kind.children] using ⟨.of_value ht, hc, ha⟩
  · exact .finish fun i => ⟨rfl, .plain rfl (by simpa [Kind.children] using ⟨.of_value ht, hc⟩)⟩

theorem withStatement_derived (E : Setting) (c : Cover) :
    Reads source E c (withStatement nested) fun n _ => DerivedHere source E .node n := by
  refine .isStrict (.assert Stops.tolerateHere fun hstrict => .mark fun start => .keep .expectKeyword
    fun _ _ => .keep .expect fun _ _ => ?_)
  refine .expression E.scope hn fun scope hs => .part (bodyAfterParen_derived (hn.statement E) c) fun body c hb => ?_
  exact .finish fun i => ⟨rfl, .withStatement (by simpa [Setting.scopeIn, Setting.scope] using hstrict)
    (.of_value hs) hb⟩

theorem switchCase_derived (E : Setting) (c : Cover) :
    Reads source E c (switchCase nested) fun r _ => DerivedHere source E .node r.1 := by
  have consequent {start : Place} {test : Option Node} (ht : ∀ n ∈ test, DerivedHere source E .node n) :
      Reads source E c (do
      expect .colon
      let consequent ← manyBefore atCaseEnd (nested .listItem)
      return (← finish start (.switchCase test consequent), test.isNone)) fun r _ =>
        DerivedHere source E .node r.1 := by
    refine .keep .expect fun _ _ =>
      .part (Reads.manyBefore (I := fun _ => True) (R := fun n _ => DerivedHere source E .node n)
      (fun _ _ => .ahead fun _ => .pure ⟨rfl, rfl, trivial⟩) trivial fun c _ => ?_)
        fun consequent c ⟨_, h⟩ => .node fun i => ?_
    · exact .mono (hn.listItem E c) fun n E' c' ⟨hE, h⟩ => ⟨hE, trivial, h, fun _ hb => hb⟩
    · refine .pure ⟨rfl, .plain rfl ?_⟩
      simpa [Kind.children, or_imp, forall_and] using ⟨ht, h⟩
  refine .mark fun start => .keep .acceptKeyword fun _ _ => .ite (fun _ => .value (consequent (by nofun))) fun _ => ?_
  exact .keep .expectKeyword fun _ _ => .expression E.scope hn fun test ht =>
    .value (consequent (by simpa using .of_value ht))

theorem switchCases_derived (E : Setting) (c : Cover) :
    Reads source E c (switchCases nested) fun ns _ => ∀ n ∈ ns, DerivedHere source E .node n := by
  refine .keep .expect fun _ _ => .part (Reads.loop (I := fun r _ => ∀ n ∈ r.1, DerivedHere source E .node n)
    (D := fun r _ => ∀ n ∈ r.1, DerivedHere source E .node n) (by simp) ?_) ?_
  · rintro ⟨cases, hasDefault⟩ c h
    refine .check fun _ => .ite (fun _ => .pure ⟨rfl, h⟩) fun _ => .part (switchCase_derived hn E c)
      fun (clause, isDefault) c hc => ?_
    exact .assert Stops.failHere fun _ => .pure ⟨rfl, List.forall_mem_cons.2 ⟨hc, h⟩⟩
  · rintro ⟨cases, hasDefault⟩ c h
    exact .keep .expect fun _ _ => .pure ⟨rfl, by simpa using h⟩

theorem switchStatement_derived (E : Setting) (c : Cover) :
    Reads source E c (switchStatement nested) fun n _ => DerivedHere source E .node n := by
  refine .mark fun start => .keep .expectKeyword fun _ _ => .keep .expect fun _ _ =>
    .expression E.scope hn fun discriminant hd => ?_
  refine .keep .expect fun _ _ =>
    .part (P := fun ns _ => ∀ n ∈ ns, Derives source.utf8ByteSize { E.scope with inSwitch := true } .node n)
    (.inContext (switchCases_derived hn _ c)) fun cases c h => .finish fun i => ⟨rfl, .switchStatement (.of_value hd) h⟩

/-! ## Jumps -/

omit hn in
theorem jumpLabel_keeps (E : Setting) (c : Cover) : Reads source E c jumpLabel fun r c' => c = c' ∧
    (∀ n ∈ r, ∃ name ∈ E.labels, n.identifierName? = some name) ∧ ∀ n ∈ r, DerivedHere source E .node n := by
  refine .get fun s _ hs _ => .ite (fun _ => .keep (bindingName_keeps none) ?_) fun _ => .pure ⟨rfl, rfl, nofun, nofun⟩
  rintro _ ⟨i, name, rfl⟩
  refine .require Stops.failHere fun hname => .pure ⟨rfl, rfl, ?_, by simpa using .name⟩
  subst hs
  have : name ∈ s.labels := by simpa [Node.identifierName?, Node.kind] using hname
  simpa using ⟨name, this, rfl⟩

omit hn in
theorem continueStatement_derived (E : Setting) (c : Cover) :
    Reads source E c continueStatement fun n _ => DerivedHere source E .node n := by
  refine .mark fun start => .keep .expectKeyword fun _ _ => .part (jumpLabel_keeps E c) ?_
  rintro label _ ⟨rfl, hlabel, hn⟩
  refine .keep .endStatement fun _ _ =>
    .context (.assert Stops.failHere fun h => .finish fun i => ⟨rfl, .continueStatement ?_ hlabel hn⟩)
  rintro rfl
  simpa [Setting.scopeIn, Setting.scope] using h

omit hn in
theorem breakStatement_derived (E : Setting) (c : Cover) :
    Reads source E c breakStatement fun n _ => DerivedHere source E .node n := by
  refine .mark fun start => .keep .expectKeyword fun _ _ => .part (jumpLabel_keeps E c) ?_
  rintro label _ ⟨rfl, hlabel, hn⟩
  refine .keep .endStatement fun _ _ =>
    .context (.assert Stops.failHere fun h => .finish fun i => ⟨rfl, .breakStatement ?_ hlabel hn⟩)
  rintro rfl
  by_cases hloop : E.context.inIteration = true <;> simp_all [Setting.scopeIn, Setting.scope]

theorem returnStatement_derived (E : Setting) (c : Cover) :
    Reads source E c (returnStatement nested) fun n _ => DerivedHere source E .node n := by
  refine .context (.require Stops.tolerateHere fun hfunction => .mark fun start => .keep .expectKeyword
    fun _ _ => .get fun _ _ _ _ => ?_)
  have close {argument : Option Node} (ha : ∀ n ∈ argument, DerivedHere source E .node n) : Reads source E c (do
      endStatement
      finish start (.returnStatement argument)) fun n _ => DerivedHere source E .node n :=
    .keep .endStatement fun _ _ => .finish fun i => ⟨rfl, .returnStatement hfunction ha⟩
  refine .ite (fun _ => .expression E.scope hn fun argument ha => .value (close (by simpa using .of_value ha)))
    fun _ => .value (close (by nofun))

theorem throwStatement_derived (E : Setting) (c : Cover) :
    Reads source E c (throwStatement nested) fun n _ => DerivedHere source E .node n := by
  refine .mark fun start => .keep .expectKeyword fun _ _ => .get fun _ _ _ _ => .assert Stops.failHere fun _ => ?_
  refine .expression E.scope hn fun argument ha => .keep .endStatement fun _ _ => .finish fun i => ⟨rfl, .plain rfl ?_⟩
  simpa [Kind.children] using .of_value ha

omit hn in
theorem checkDistinct_keeps : ∀ {seen : List String} {names : List Token},
    Keeps source .ahead .ahead (checkDistinct seen names) fun _ => True
  | _, [] => .pure trivial
  | _, _ :: _ => fun E c => by
    rw [checkDistinct]
    exact .assert Stops.tolerateHere fun _ => checkDistinct_keeps E c

theorem catchParameter_derived (E : Setting) (c : Cover) :
    Reads source E c (catchParameter nested) fun n _ => DerivedHere source E .node n := by
  refine .keep .expect fun _ _ => .check fun _ => .assert Stops.failAhead fun _ =>
    .part (pattern_derived E.scope hn none E c) fun (target, names) c ht => ?_
  refine .keep checkDistinct_keeps fun _ _ =>
    .isStrict (.assert Stops.tolerateHere fun _ => .keep .expect fun _ _ => .pure ⟨rfl, .bound ht⟩)

theorem catchClause_derived (E : Setting) (c : Cover) :
    Reads source E c (catchClause nested) fun n _ => DerivedHere source E .node n := by
  have body {start : Place} {param : Option Node} {c : Cover}
      (hp : ∀ n ∈ param, DerivedHere source E .node n) : Reads source E c (do
      let body ← block nested
      finish start (.catchClause param body)) fun n _ => DerivedHere source E .node n := by
    refine .part (block_derived hn E c) fun body c hb => .finish fun i => ⟨rfl, .plain rfl ?_⟩
    simpa [Kind.children, or_imp, forall_and] using ⟨hp, hb⟩
  refine .mark fun start => .keep .expectKeyword fun _ _ => .check fun _ => .ite (fun _ => ?_) fun _ =>
    .value (body (by nofun))
  exact .part (catchParameter_derived hn E c) fun param c hp => .value (body (by simpa using hp))

theorem tryStatement_derived (E : Setting) (c : Cover) :
    Reads source E c (tryStatement nested) fun n _ => DerivedHere source E .node n := by
  refine .mark fun start => .keep .expectKeyword fun _ _ => .part (block_derived hn E c) fun body c hb =>
    .checkKeyword fun _ => ?_
  have close {handler finalizer : Option Node} {c : Cover} (hh : ∀ n ∈ handler, DerivedHere source E .node n)
      (hf : ∀ n ∈ finalizer, DerivedHere source E .node n) : Reads source E c (do
        if handler.isNone && finalizer.isNone then failHere .missingHandler
        finish start (.tryStatement body handler finalizer)) fun n _ => DerivedHere source E .node n := by
    refine .assert Stops.failHere fun _ => .finish fun i => ⟨rfl, .plain rfl ?_⟩
    simpa [Kind.children, or_imp, forall_and] using ⟨hb, hh, hf⟩
  have finalized {handler : Option Node} {c : Cover} (hh : ∀ n ∈ handler, DerivedHere source E .node n) :
      Reads source E c (do
      let finalizer ← if ← acceptKeyword "finally" then pure (some (← block nested)) else pure none
      if handler.isNone && finalizer.isNone then failHere .missingHandler
      finish start (.tryStatement body handler finalizer)) fun n _ => DerivedHere source E .node n := by
    refine .keep .acceptKeyword fun _ _ => .ite (fun _ => ?_) fun _ => .value (close hh (by nofun))
    exact .part (block_derived hn E _) fun finalizer c hf => .value (close hh (by simpa using hf))
  refine .ite (fun _ => ?_) fun _ => .value (finalized (by nofun))
  exact .part (catchClause_derived hn E c) fun handler c hh => .value (finalized (by simpa using hh))

omit hn in
theorem debuggerStatement_derived (E : Setting) (c : Cover) :
    Reads source E c debuggerStatement fun n _ => DerivedHere source E .node n :=
  .mark fun start => .keep .expectKeyword fun _ _ => .keep .endStatement fun _ _ =>
    .finish fun i => ⟨rfl, .plain rfl (by simp [Kind.children])⟩

/-! ## Labels -/

theorem functionDeclaration_derived (nameIsOptional : Bool) (E : Setting) (c : Cover) :
    Reads source E c (functionDeclaration nested nameIsOptional) fun n _ => DerivedHere source E .node n :=
  .mono (function_derived E.scope hn (nofun : FunctionForm.declaration ≠ .arrow) nameIsOptional E c)
    fun _ _ _ ⟨hE, h⟩ => ⟨hE, .complete rfl h⟩

theorem classDeclaration_derived (nameIsOptional : Bool) (E : Setting) (c : Cover) :
    Reads source E c (classDeclaration nested nameIsOptional) fun n _ => DerivedHere source E .node n :=
  .mono (classOf_derived E.scope hn _ nameIsOptional E c) fun _ _ _ ⟨hE, _, h⟩ => ⟨hE, .of_value h⟩

theorem labeledBody_derived : States source (labeledBody nested) := fun E c => by
  refine .ahead fun t => .ite (fun _ => Stops.tolerateAt.bind.yields) fun _ =>
    .ite (fun _ => ?_) fun _ => hn.statement E c
  refine .part (functionDeclaration_derived hn false E c) fun n c h =>
    .isStrict (.ite (fun _ => Stops.tolerateWith.bind.yields) fun _ => ?_)
  exact .assert Stops.tolerateWith fun _ => .pure ⟨rfl, h⟩

/-- The label holds inside the statement behind it only. -/
theorem labeled_derived (start : Place) {label : Node} {name : String} (hname : label.identifierName? = some name)
    (h : DerivedHere source E .node label) (c : Cover) :
    Reads source E c (labeled nested start label name) fun n _ => DerivedHere source E .node n := by
  refine .keep .skip fun _ _ => .get fun s _ hs _ => .assert Stops.failHere fun hnew =>
    .setLabels (name :: ·) (.part (labeledBody_derived hn _ c) fun body c hb => ?_)
  refine .setLabels (·.erase name) (.finish fun i => ⟨?_, .labeled hname ?_ h hb⟩)
  · simp
  · subst hs
    simpa [Setting.scopeIn, Setting.scope, ParseState.setting] using hnew

theorem labeledStatement_derived (E : Setting) (c : Cover) :
    Reads source E c (labeledStatement nested) fun n _ => DerivedHere source E .node n := by
  refine .mark fun start => .expression E.scope hn fun e he => .check fun isLabel => ?_
  split
  next name hname => exact labeled_derived hn start (Option.eq_some_of_filter_eq_some hname) (.of_value he) c
  · exact closeExpression_derived he

/-! ## All statements -/

theorem keywordStatement_derived (word : String) (E : Setting) (c : Cover) :
    Reads source E c (keywordStatement nested word) fun n _ => DerivedHere source E .node n := by
  unfold keywordStatement
  split
  · exact breakStatement_derived E c
  · exact continueStatement_derived E c
  · exact debuggerStatement_derived E c
  · exact doWhileStatement_derived hn E c
  · exact forStatement_derived hn E c
  · exact functionDeclaration_derived hn false E c
  · exact ifStatement_derived hn E c
  · exact returnStatement_derived hn E c
  · exact switchStatement_derived hn E c
  · exact throwStatement_derived hn E c
  · exact tryStatement_derived hn E c
  · exact varStatement_derived hn E c
  · exact whileStatement_derived hn E c
  · exact withStatement_derived hn E c
  · exact expressionStatement_derived hn E c

theorem statement_derived : States source (statement nested) := fun E c => by
  have simple := expressionStatement_derived hn E c
  refine .ahead fun t => ?_
  split
  · exact simple
  · exact simple
  · exact simple
  · exact simple
  · exact simple
  · exact simple
  · exact block_derived hn E c
  · exact emptyStatement_derived E c
  · exact simple
  · exact .keep checkAsyncFunction_keeps fun _ _ =>
      .ite (fun _ => functionDeclaration_derived hn false E c) fun _ => labeledStatement_derived hn E c
  · exact keywordStatement_derived hn _ E c
  · exact Stops.failAt.yields
  · exact Stops.failAt.yields
  · exact Stops.failAt.yields

end

end EcmaTree.Parse
