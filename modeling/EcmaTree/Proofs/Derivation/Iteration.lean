import EcmaTree.Grammar.Iteration
import EcmaTree.Proofs.Derivation.Operators

/-!
# Declarations and loops

The head of a loop drops the pending error of an expression that it goes on to read as one, and so does what stands
behind `of`.
-/

namespace EcmaTree.Parse

variable {source : String} {E : Setting} {c : Cover} {nested : Nested}

theorem checkBound_keeps (target : Node) : Keeps source .ahead .ahead (checkBound target) fun _ => True := fun _ _ =>
  .isStrict (.ite (fun _ => Stops.tolerateHere.yields) fun _ => .pure ⟨rfl, rfl, trivial⟩)

theorem declarationWord_keeps : Keeps source .ahead .ahead declarationWord fun _ => True := fun E c => by
  refine .keep .next fun t _ => ?_
  cases VariableKind.ofText? t.text with
  | none => exact Stops.failAt.yields
  | some kind => exact .pure ⟨rfl, rfl, trivial⟩

section
variable (hn : Sound source nested)
include hn

/-! ## Declarations -/

theorem initializer_derived (E : Setting) (c : Cover) :
    Reads source E c (initializer nested) fun r c' => c = c' ∧ ∀ n ∈ r, DerivedHere source E .node n :=
  .keep .expect fun _ _ => .isolated (hn.assignment E.scope) fun n h => .pure ⟨rfl, rfl, by simpa using .of_value h⟩

theorem constInitializer_derived (E : Setting) (c : Cover) :
    Reads source E c (constInitializer nested) fun r c' => c = c' ∧ ∀ n ∈ r, DerivedHere source E .node n :=
  .ahead fun _ => .ite (fun _ => .pure ⟨rfl, rfl, nofun⟩) fun _ => .ite (fun _ => initializer_derived hn E c) fun _ =>
    Stops.failHere.yields

omit hn in
/-- A binding, where something reads its initial value or not. -/
theorem declarator_derived {start : Place} {target : Node} {init : Option Node}
    (ht : DerivedHere source E .pattern target)
    (hi : ∀ n ∈ init, DerivedHere source E .node n) :
    Reads source E c (finish start (.variableDeclarator target init)) fun n _ => DerivedHere source E .node n := by
  refine .finish fun i => ⟨rfl, .plain rfl ?_⟩
  simpa [Kind.children] using ⟨.bound ht, hi⟩

theorem varBinding_derived (inHead : Bool) (E : Setting) (c : Cover) :
    Reads source E c (varBinding nested inHead) fun n _ => DerivedHere source E .node n := by
  refine .mark fun start => .part (pattern_derived E.scope hn _ E c) fun (target, names) c ht =>
    .keep (checkBound_keeps _) fun _ _ => ?_
  refine .check fun _ => .ite (fun _ => .part (initializer_derived hn E c) fun init c ⟨_, hi⟩ => ?_) fun _ => .value ?_
  · exact declarator_derived ht hi
  · exact declarator_derived ht nofun

theorem lexicalBinding_derived (kind : VariableKind) (inHead : Bool) (E : Setting) (c : Cover) :
    Reads source E c (lexicalBinding nested kind inHead) fun n _ => DerivedHere source E .node n := by
  refine .mark fun start => .part (pattern_derived E.scope hn _ E c) fun (target, names) c ht =>
    .keep (checkBound_keeps _) fun _ _ => ?_
  refine .check fun _ => .ite (fun _ => ?_) fun _ => .ite (fun _ => ?_) fun _ => .value ?_
  · exact .part (constInitializer_derived hn E c) fun init c ⟨_, hi⟩ => declarator_derived ht hi
  · exact .part (initializer_derived hn E c) fun init c ⟨_, hi⟩ => declarator_derived ht hi
  · exact declarator_derived ht nofun

theorem bindings_derived (kind : VariableKind) (inHead : Bool) (E : Setting) (c : Cover) :
    Reads source E c (bindings nested kind inHead) fun ns _ => ∀ n ∈ ns, DerivedHere source E .node n := by
  refine .mono (Reads.commaSeparated (I := fun _ => True) (R := fun n _ =>
    DerivedHere source E .node n) trivial fun c _ => ?_)
    fun ns E' c' ⟨hE, _, h⟩ => ⟨hE, h⟩
  have item {p : Parse Node} (h : Reads source E c p fun n _ => DerivedHere source E .node n) :
      Reads source E c p fun n _ =>
      True ∧ DerivedHere source E .node n ∧ ∀ m, DerivedHere source E .node m → DerivedHere source E .node m :=
    .mono h fun n E' c' ⟨hE, h⟩ => ⟨hE, trivial, h, fun _ hm => hm⟩
  exact .ite (fun _ => item (varBinding_derived hn inHead E c)) fun _ =>
    item (lexicalBinding_derived hn kind inHead E c)

omit hn in
theorem declaration_derived {start : Place} {kind : VariableKind} {declarations : List Node}
    (h : ∀ n ∈ declarations, DerivedHere source E .node n) :
    Reads source E c (finish start (.variableDeclaration kind declarations)) fun n c' => c = c' ∧
      DerivedHere source E .node n :=
  .finish fun i => ⟨rfl, rfl, .plain rfl (by simpa [Kind.children] using h)⟩

theorem varStatement_derived (E : Setting) (c : Cover) :
    Reads source E c (varStatement nested) fun n _ => DerivedHere source E .node n :=
  .mark fun _ => .keep .expectKeyword fun _ _ => .part (bindings_derived hn _ _ E c) fun _ _ h =>
    .keep .endStatement fun _ _ => .mono (declaration_derived h) fun _ _ _ ⟨hE, _, h⟩ => ⟨hE, h⟩

theorem lexicalDeclaration_derived (E : Setting) (c : Cover) :
    Reads source E c (lexicalDeclaration nested) fun n _ => DerivedHere source E .node n :=
  .mark fun _ => .keep declarationWord_keeps fun _ _ => .part (bindings_derived hn _ _ E c) fun _ _ h =>
    .keep .endStatement fun _ _ => .mono (declaration_derived h) fun _ _ _ ⟨hE, _, h⟩ => ⟨hE, h⟩

/-! ## Loops -/

omit hn in
theorem bodyAfterParen_derived {body : Parse Node} {P : Node → Prop}
    (h : ∀ c, Reads source E c body fun n _ => P n) (c : Cover) :
    Reads source E c (bodyAfterParen body) fun n _ => P n := by
  refine .keep .missingParen ?_
  rintro _ rfl
  exact .keep .expect fun _ _ => h c

omit hn in
/-- The setting in the body of a loop. -/
theorem iterated_derived {body : Parse Node} (h : ∀ E c, Reads source E c body fun n _ => DerivedHere source E .node n)
    (E : Setting) (c : Cover) :
    Reads source E c (iterated body) fun n _ => Derives source.utf8ByteSize E.scope.ofLoop .node n :=
  .inContext (h _ c)

omit hn in
theorem checkLoopBody_keeps : Keeps source .ahead .ahead checkLoopBody fun _ => True := fun _ _ =>
  .ahead fun _ => .ite (fun _ => Stops.tolerateHere.yields) fun _ => .pure ⟨rfl, rfl, trivial⟩

theorem doWhileStatement_derived (E : Setting) (c : Cover) :
    Reads source E c (doWhileStatement nested) fun n _ => DerivedHere source E .node n := by
  refine .mark fun start => .keep .expectKeyword fun _ _ => .keep checkLoopBody_keeps fun _ _ => ?_
  refine .part (iterated_derived hn.statement E c) fun body c hb => .keep .expectKeyword fun _ _ =>
    .keep .expect fun _ _ => ?_
  exact .expression E.scope hn fun test ht => .keep .endDoWhile fun _ _ => .finish fun i =>
    ⟨rfl, .doWhileStatement hb (.of_value ht)⟩

theorem whileStatement_derived (E : Setting) (c : Cover) :
    Reads source E c (whileStatement nested) fun n _ => DerivedHere source E .node n := by
  refine .mark fun start => .keep .expectKeyword fun _ _ => .keep .expect fun _ _ =>
    .expression E.scope hn fun test ht => ?_
  refine .part (bodyAfterParen_derived (iterated_derived hn.statement E) c) fun body c hb => ?_
  exact .finish fun i => ⟨rfl, .whileStatement (.of_value ht) hb⟩

/-! ## The head of `for` -/

/-- What the parts of a head are. -/
def DerivedFor (source : String) (E : Setting) : ForHead → Prop
  | .steps init test step => (∀ n ∈ init, DerivedHere source E .dropped n) ∧
    (∀ n ∈ test, DerivedHere source E .node n) ∧
      ∀ n ∈ step, DerivedHere source E .node n
  | .keys left right => DerivedHere source E .loopTarget left ∧ DerivedHere source E .node right
  | .values left right => DerivedHere source E .loopTarget left ∧ DerivedHere source E .dropped right

theorem headSteps_derived {init : Option Node} (hi : ∀ n ∈ init, DerivedHere source E .dropped n) (c : Cover) :
    Reads source E c (headSteps nested init) fun head _ => DerivedFor source E head := by
  have step {test : Option Node} (ht : ∀ n ∈ test, DerivedHere source E .node n) (c : Cover) : Reads source E c (do
      expect .semicolon
      let step ← if ← check .rightParen then pure none else pure (some (← isolate (expression nested)))
      return .steps init test step) fun head _ => DerivedFor source E head := by
    refine .keep .expect fun _ _ => .check fun _ => .ite (fun _ => .value (.pure ⟨rfl, hi, ht, nofun⟩)) fun _ => ?_
    exact .part (Reads.isolate (expression_gives E.scope hn E _)) fun n c' ⟨_, h⟩ =>
      .value (.pure ⟨rfl, hi, ht, by simpa using .of_value h⟩)
  refine .check fun _ => .ite (fun _ => .value (step (by nofun) c)) fun _ => ?_
  exact .part (Reads.isolate (expression_gives E.scope hn E _)) fun n c' ⟨_, h⟩ =>
    .value (step (by simpa using .of_value h) c')

theorem headKeys_derived {left : Node} (h : DerivedHere source E .loopTarget left) (c : Cover) :
    Reads source E c (headKeys nested left) fun head _ => DerivedFor source E head :=
  .keep .skip fun _ _ => .expression E.scope hn fun _ hr => .pure ⟨rfl, h, .of_value hr⟩

theorem headValues_derived {left : Node} (h : DerivedHere source E .loopTarget left) (c : Cover) :
    Reads source E c (headValues nested left) fun head _ => DerivedFor source E head :=
  .keep .skip fun _ _ => .part (hn.assignment E.scope E c) fun _ _ hr => .pure ⟨rfl, h, .drop hr⟩

omit hn in
/-- A declaration in a head. -/
theorem headDeclaration {i : NodeInfo} {kind : VariableKind} {declarations : List Node}
    (h : ∀ n ∈ declarations, DerivedHere source E .node n) :
    DerivedHere source E .loopTarget (.mk i (.variableDeclaration kind declarations)) ∧
      ∀ n ∈ some (Node.mk i (.variableDeclaration kind declarations)), DerivedHere source E .dropped n :=
  ⟨.declared h, by simpa using .whole (.plain rfl (by simpa [Kind.children] using h))⟩

theorem headBindings_derived (kind : VariableKind) (E : Setting) (c : Cover) :
    Reads source E c (withContext ({ · with allowIn := false }) (bindings nested kind true)) fun ns _ =>
      ∀ n ∈ ns, DerivedHere source E .node n := .inContext (bindings_derived hn kind true _ c)

theorem varHead_derived (isAwait : Bool) (E : Setting) (c : Cover) :
    Reads source E c (varHead nested isAwait) fun head _ => DerivedFor source E head := by
  refine .mark fun start => .keep .skip fun _ _ => .part (headBindings_derived hn _ E c)
    fun declarations c h => .ahead fun t => ?_
  have steps : Reads source E c (do
      let init ← finish start (.variableDeclaration .var declarations)
      expect .semicolon
      headSteps nested (some init)) fun head _ => DerivedFor source E head :=
    .node fun i => .keep .expect fun _ _ => headSteps_derived hn (headDeclaration h).2 c
  have keys : Reads source E c (do headKeys nested (← finish start (.variableDeclaration .var declarations)))
    fun head _ =>
      DerivedFor source E head := .node fun i => headKeys_derived hn (headDeclaration h).1 c
  split
  · exact steps
  · refine .ite (fun _ => .isStrict (.assert Stops.tolerateHere fun _ => keys)) fun _ =>
      .ite (fun _ => ?_) fun _ => steps
    exact .node fun i => headValues_derived hn (headDeclaration h).1 c

theorem lexicalHead_derived (E : Setting) (c : Cover) :
    Reads source E c (lexicalHead nested) fun head _ => DerivedFor source E head := by
  refine .mark fun start => .keep declarationWord_keeps fun kind _ =>
    .isStrict (.ahead fun t => .ite (fun _ => ?_) fun _ => ?_)
  · exact .node fun i => headKeys_derived hn (.target (n := .mk i (.identifier _)) rfl rfl .identifier) c
  refine .part (headBindings_derived hn _ E c) fun declarations c h => .ahead fun t =>
    .ite (fun _ => ?_) fun _ => .ite (fun _ => ?_) fun _ => ?_
  · exact .node fun i => headKeys_derived hn (headDeclaration h).1 c
  · exact .node fun i => headValues_derived hn (headDeclaration h).1 c
  · exact .keep .endStatement fun _ _ => .node fun i => headSteps_derived hn (headDeclaration h).2 c

omit hn in
theorem checkLoopTarget_yields (target : Node) (cause : Cause) (E : Setting) (c : Cover) :
    Yields source .ahead .ahead E c (checkLoopTarget target cause) fun _ E' c' =>
      E = E' ∧ c = c' ∧ c.prospect.target = true ∧ isAssignment target = false :=
  .get fun s _ _ hc => .ite (fun _ => Stops.tolerateHere.yields) fun h =>
    .pure ⟨rfl, rfl, by simpa [hc, Cover.prospect] using h⟩

theorem headExpressions_derived (first : Token) {init : Node} {p : Prospect}
    (h : DerivedHere source E (.expression p) init) (c : Cover) :
    Reads source E c (headExpressions nested first init) fun n _ => DerivedHere source E .dropped n := by
  refine .check fun _ => .ite (fun _ => ?_) fun _ => .pure ⟨rfl, .drop h⟩
  refine .part (Reads.loop (I := fun ns _ => ∀ n ∈ ns, DerivedHere source E (.expression .value) n)
    (D := fun ns _ => ∀ n ∈ ns, DerivedHere source E (.expression .value) n) (by simp) fun ns c hns => ?_)
      fun others c ho => .finish fun i => ⟨rfl, ?_⟩
  · refine .keep .accept fun _ _ => .ite (fun _ => .isolated (hn.assignment E.scope) fun n hn => ?_) fun _ =>
      .pure ⟨rfl, hns⟩
    exact .pure ⟨rfl, List.forall_mem_cons.2 ⟨hn, hns⟩⟩
  · refine .drop (.sequence (p := p.closed) (List.forall_mem_cons.2 ⟨.weaken (by simp [Prospect.le_iff]) h,
      fun n hn => ?_⟩))
    exact .weaken (by simp [Prospect.le_iff]) (ho n (List.mem_reverse.1 hn))

theorem expressionHead_derived (E : Setting) (c : Cover) :
    Reads source E c (expressionHead nested) fun head _ => DerivedFor source E head := by
  refine .ahead fun first => .get fun s _ _ _ =>
    .part (P := fun n c' => DerivedHere source E (.expression c'.prospect) n)
    (.inContext (.mono ((hn.assignment E.scope).inherit _ c) fun n E' c' ⟨hE, _, h⟩ => ⟨hE, h⟩))
      fun init c' hi => .ahead fun t => ?_
  refine .ite (fun _ => .bind (checkLoopTarget_yields init _ E c') ?_) fun _ =>
    .ite (fun _ => .bind (checkLoopTarget_yields init _ E c') ?_) fun _ => .modifyCover ?_
  · rintro _ _ _ ⟨rfl, rfl, htarget, hassign⟩
    exact headKeys_derived hn (.target htarget hassign hi) c'
  · rintro _ _ _ ⟨rfl, rfl, htarget, hassign⟩
    exact headValues_derived hn (.target htarget hassign hi) c'
  · exact .part (headExpressions_derived hn first hi _) fun n c hn' => .keep .expect fun _ _ =>
      headSteps_derived hn (by simpa using hn') c

theorem forHead_derived (isAwait : Bool) (E : Setting) (c : Cover) :
    Reads source E c (forHead nested isAwait) fun head _ => DerivedFor source E head := by
  refine .keep .accept fun _ _ => .ite (fun _ => headSteps_derived hn (by nofun) c) fun _ =>
    .checkKeyword fun _ => .ite (fun _ => varHead_derived hn isAwait E c) fun _ => ?_
  exact .checkKeyword fun _ => .checkKeyword fun _ => .ite (fun _ => lexicalHead_derived hn E c) fun _ =>
    expressionHead_derived hn E c

omit hn in
theorem forAwait_keeps : Keeps source .ahead .ahead forAwait fun _ => True := fun _ _ =>
  .ahead fun _ => .ite (fun _ => .context (.require Stops.tolerateAt fun _ => .keep .skip fun _ _ =>
    .pure ⟨rfl, rfl, trivial⟩))
    fun _ => .pure ⟨rfl, rfl, trivial⟩

theorem forStatement_derived (E : Setting) (c : Cover) :
    Reads source E c (forStatement nested) fun n _ => DerivedHere source E .node n := by
  refine .mark fun start => .keep .expectKeyword fun _ _ => .keep forAwait_keeps fun isAwait _ =>
    .keep .expect fun _ _ => ?_
  refine .part (forHead_derived hn isAwait E c) fun head c hh => ?_
  have body : States source (isolate (nested .statement)) := fun E c =>
    .mono (Reads.isolate (hn.statement E _)) fun n E' c' ⟨hE, _, h⟩ => ⟨hE, h⟩
  refine .part (bodyAfterParen_derived (iterated_derived body E) c) fun body c hb => .finish fun i => ⟨rfl, ?_⟩
  cases head with
  | steps init test step => exact .forStatement hh.1 hh.2.1 hh.2.2 hb
  | keys left right => exact .forInStatement hh.1 hh.2 hb
  | values left right => exact .forOfStatement hh.1 hh.2 hb

end

end EcmaTree.Parse
