import EcmaTree.Grammar.Assignment
import EcmaTree.Grammar.Operators
import EcmaTree.Proofs.Derivation.CallChain

/-!
# Operators and assignments

What an operator joins is no pattern. On the stack of the binary operators only the leftmost operand is more than a
value. What is assigned to was a target. An arrow takes the parameters that wait for it, or a name; an assignment and an
arrow let go of a pending error, which was about what became a pattern.
-/

namespace EcmaTree.Parse

variable {source : String} {outer : Scope} {E : Setting} {c : Cover} {nested : Nested}

theorem checkUpdated_yields (operand : Node) (restricted : Cause) (E : Setting) (c : Cover) :
    Yields source .ahead .ahead E c (checkUpdated operand restricted) fun _ E' c' =>
      E = E' ∧ c = c' ∧ c.prospect.target = true := by
  refine .isStrict (.assert Stops.tolerateHere fun _ => .get fun s hs _ hc =>
    .ite (fun h => .pure ⟨rfl, rfl, ?_⟩) fun _ => Stops.tolerateHere.yields)
  rw [← hc]
  exact h

section
variable (outer) (hn : Sound source nested)
include hn

/-! ## One operand -/

theorem updateBefore_derived (first : Token) (op : UpdateOp) :
    Covers source outer .expression (updateBefore nested first op) := fun E c => by
  refine .keep .skip fun _ _ => .inherited (hn.unary outer) fun operand c' _ ho =>
    .bind (checkUpdated_yields operand .strictPrefixUpdate E c') ?_
  rintro _ _ _ ⟨rfl, rfl, htarget⟩
  exact .node fun i => .nonPattern (.pure ⟨rfl, .update htarget ho⟩)

theorem update_derived : Covers source outer .expression (update nested) := fun E c => by
  refine .ahead fun first => ?_
  cases first.updateOp? with
  | some op => exact updateBefore_derived outer hn first op E c
  | none =>
    refine .inherited (callChain_derived outer hn) fun operand c' _ ho => .get fun s _ _ _ => ?_
    cases s.lookahead.updateOp? with
    | none => exact .pure ⟨rfl, ho⟩
    | some op =>
      refine .ite (fun _ => .pure ⟨rfl, ho⟩) fun _ => .bind (checkUpdated_yields operand .strictPostfixUpdate E c') ?_
      rintro _ _ _ ⟨rfl, rfl, htarget⟩
      exact .nonPattern (.keep .skip fun _ _ => .finish fun i => ⟨rfl, .update htarget ho⟩)

theorem unary_derived : Covers source outer .expression (unary nested) := fun E c => by
  refine .ahead fun first => ?_
  cases first.unaryOp? with
  | some op =>
    refine .keep .skip fun _ _ => .inherited (hn.unary outer) fun operand c' _ ho => .node fun i => ?_
    refine .isStrict (.assert Stops.tolerateHere fun hdelete =>
      .nonPattern (.pure ⟨rfl, .unary (fun hstrict hop => ?_) ho⟩))
    simp_all [Setting.scopeIn]
  | none =>
    refine .context (.ite (fun _ => ?_) fun _ => update_derived outer hn E c)
    exact .mark fun start => .keep .skip fun _ _ => .part ((hn.unary outer) E c) fun operand c' ho =>
      .finish fun i => ⟨rfl, .await ho⟩

theorem exponentiation_derived : Covers source outer .expression (exponentiation nested) := fun E c => by
  refine .ahead fun first => .inherited (unary_derived outer hn) fun left c' _ hl =>
    .ite (fun _ => .pure ⟨rfl, hl⟩) fun _ => ?_
  refine .keep .accept fun _ _ =>
    .ite (fun _ => .nonPattern (.isolated (hn.exponentiation outer) fun right hr => ?_)) fun _ => .pure ⟨rfl, hl⟩
  exact .finish fun i => ⟨rfl, .binary hl hr⟩

end

/-! ## Binary operators -/

/-- The operands on the stack and the one on top of it. -/
def Operands (source : String) (outer : Scope) (E : Setting) (p : Prospect) : List Pending → Node → Prop
  | [], right => Derived source outer E (.expression p) right
  | q :: stack, right => Derived source outer E (.expression .value) right ∧ Operands source outer E p stack q.left

namespace Operands

variable {p q : Prospect} {stack : List Pending} {right : Node}

theorem weaken (hq : q ≤ p) : ∀ {stack : List Pending} {right : Node}, Operands source outer E p stack right →
    Operands source outer E q stack right
  | [], _, h => Derives.weaken hq h
  | _ :: _, _, ⟨hr, h⟩ => ⟨hr, weaken hq h⟩

/-- An operator takes the two operands on top of the stack for its own. -/
theorem join {pending : Pending} {op : BinaryOp} {i : NodeInfo} (hp : p ≤ .value)
    (h : Operands source outer E p (pending :: stack) right) :
      Operands source outer E p stack (.mk i (.binary op pending.left right)) := by
  obtain ⟨hr, hl⟩ := h
  cases stack with
  | nil => exact .weaken (by simp_all [Prospect.le_iff]) (.binary hl hr)
  | cons => exact ⟨.binary hl.1 hr, hl.2⟩

end Operands

theorem joinOperands_derived {p : Prospect} {pending : Pending} {stack : List Pending} {right : Node} (lineAbove : Nat)
    (hp : p ≤ .value) (h : Operands source outer E p (pending :: stack) right) :
    Reads source E c (joinOperands pending lineAbove right) fun n c' => c = c' ∧ Operands source outer E p stack n := by
  unfold joinOperands
  split
  · exact .finish fun i => ⟨rfl, rfl, h.join hp⟩
  · exact Stops.failHere.yields

theorem reduceWhile_derived {p : Prospect} (strength : Nat) : ∀ {stack : List Pending} {right : Node} {first : Token},
    (stack ≠ [] → p ≤ .value) → Operands source outer E p stack right →
      Reads source E c (reduceWhile strength stack right first) fun r c' => c = c' ∧ Operands source outer E p r.1 r.2.1
  | [], _, _, _, h => .pure ⟨rfl, rfl, h⟩
  | pending :: stack, right, first, hp, h => by
    have hp := hp (List.cons_ne_nil _ _)
    refine .ite (fun _ => .part (joinOperands_derived _ hp h) ?_) fun _ => .pure ⟨rfl, rfl, h⟩
    rintro n _ ⟨rfl, h⟩
    exact reduceWhile_derived strength (fun _ => hp) h

theorem reduceAll_derived {p : Prospect} : ∀ {stack : List Pending} {right : Node} {first : Token},
    (stack ≠ [] → p ≤ .value) → Operands source outer E p stack right →
      Reads source E c (reduceAll stack right first) fun n c' => c = c' ∧ Derived source outer E (.expression p) n
  | [], _, _, _, h => .pure ⟨rfl, rfl, h⟩
  | pending :: stack, right, first, hp, h => by
    have hp := hp (List.cons_ne_nil _ _)
    refine .part (joinOperands_derived _ hp h) ?_
    rintro n _ ⟨rfl, h⟩
    exact reduceAll_derived (fun _ => hp) h

section
variable (outer) (hn : Sound source nested)
include hn

theorem binary_derived : Covers source outer .expression (binary nested) := fun E c => by
  refine .ahead fun first => .inherited (exponentiation_derived outer hn) fun operand c' _ ho => ?_
  have alone : Operands source outer E c'.prospect [] operand := ho
  refine .part (Reads.loop
    (I := fun r c => (r.1 ≠ [] → c.prospect ≤ .value) ∧ Operands source outer E c.prospect r.1 r.2.1)
    (D := fun r c => (r.1 ≠ [] → c.prospect ≤ .value) ∧ Operands source outer E c.prospect r.1 r.2.1) ⟨by simp,
      alone⟩ ?_) ?_
  · rintro ⟨stack, right, last, mix⟩ c ⟨hc, h⟩
    refine .get fun s _ _ _ => .ite (fun _ => .pure ⟨rfl, hc, h⟩) fun _ => .require Stops.failAt fun _ => ?_
    refine .part (reduceWhile_derived _ hc h) ?_
    rintro ⟨stack, left, leftFirst⟩ _ ⟨rfl, h⟩
    refine .keep .skip fun _ _ =>
      .nonPattern (.ahead fun rightFirst => .isolated (exponentiation_derived outer hn) fun right hr => ?_)
    refine .pure ⟨rfl, fun _ => ?_, hr, h.weaken c.nonPattern_le⟩
    simp [Prospect.le_iff, Cover.prospect, Cover.nonPattern]
  · rintro ⟨stack, right, last, mix⟩ c ⟨hc, h⟩
    refine .mono (reduceAll_derived hc h) ?_
    rintro n _ _ ⟨rfl, rfl, h⟩
    exact ⟨rfl, h⟩

theorem conditional_derived : Covers source outer .expression (conditional nested) := fun E c => by
  refine .ahead fun first => .inherited (binary_derived outer hn) fun test c' _ ht => .keep .accept fun _ _ =>
    .ite (fun _ => ?_) fun _ => .pure ⟨rfl, ht⟩
  refine .part (.inContext ((hn.assignment outer).isolate _ c')) ?_
  rintro consequent _ ⟨rfl, hconsequent⟩
  refine .keep .expect fun _ _ => .isolated (hn.assignment outer) fun alternate halternate => .node fun i =>
    .nonPattern (.pure ⟨rfl, ?_⟩)
  exact .conditional ht hconsequent halternate

end

end EcmaTree.Parse

/-! ## Assignments and arrow functions -/

namespace EcmaTree.Parse

variable {source : String} {outer : Scope} {E : Setting} {c : Cover} {nested : Nested}

section
variable (outer) (hn : Sound source nested)
include hn

/-! ## Arrow functions -/

theorem arrowBody_derived (E : Setting) (c : Cover) :
    Reads source E c (arrowBody nested) fun n _ => DerivedBody source outer E n := by
  refine .check fun _ => .ite (fun _ => .withContext (.mono (functionBody_yields outer hn _ c) ?_)) fun _ => ?_
  · rintro n _ c' ⟨rfl, h⟩
    exact ⟨rfl, h⟩
  · refine .mono ((hn.assignment outer.ofFunction).isolate E c) fun n E' c' ⟨hE, _, h⟩ => ⟨hE, ?_⟩
    simp only [DerivedBody, h.statements_eq_nil, Scope.under_nil]
    exact .concise h

theorem arrowFunction_derived (first : Token) {ps : Parameters} (async : Bool)
    (hp : ∀ n ∈ ps.params, Derived source outer.ofFunction E .parameter n)
    (hnames : DistinctNames E.context.strict true false ps.params)
    (c : Cover) : Reads source E c (arrowFunction nested first ps async) fun n _ =>
      Derived source outer E (.expression .free) n := by
  refine .get fun s _ _ _ => .assert Stops.tolerateAt fun _ => .modifyCover (.inContext (.keep .expect fun _ _ => ?_))
  refine .part (arrowBody_derived outer hn _ _) fun body c' hb =>
    .isStrict (.ite (fun _ => ?_) fun _ => .finish fun i => ⟨rfl, .arrow hp hb hnames⟩)
  exact .keep (failOffender_keeps _ _) fun _ _ => .keep (tolerateOffender_keeps _ _) fun _ _ =>
    .finish fun i => ⟨rfl, .arrow hp hb hnames⟩

/-! ## `yield` -/

theorem yieldExpression_derived : Covers source outer .expression (yieldExpression nested) := fun E c => by
  have handed {E : Setting} {c : Cover} (delegate : Bool) :
      Reads source E c (do return (some (← nested .assignment), delegate))
      fun r c' => ∀ n ∈ r.1, Derived source outer E (.expression c'.prospect) n :=
    .part ((hn.assignment outer) E c) fun n c' h => .pure ⟨rfl, by simpa using h⟩
  have argument : Reads source E c (yieldArgument nested) fun r c' => ∀ n ∈ r.1,
    Derived source outer E (.expression c'.prospect) n := by
    refine .get fun s _ _ _ => .ite (fun _ => .pure ⟨rfl, nofun⟩) fun _ => .inContext ?_
    refine .keep .accept fun _ _ => .ite (fun _ => handed true) fun _ => .ite (fun _ => handed false) fun _ => ?_
    exact .pure ⟨rfl, nofun⟩
  refine .mark fun start => .keep .expectKeyword fun _ _ => .part argument ?_
  rintro ⟨_ | n, delegate⟩ c' h
  · exact .finish fun i => ⟨rfl, .of_free .yieldNothing⟩
  · exact .finish fun i => ⟨rfl, .yield (h n rfl)⟩

/-! ## Assignments -/

omit hn in
theorem checkTarget_yields (first : Token) (target : Node) (E : Setting) (c : Cover) :
    Yields source .ahead .ahead E c (checkTarget first target) fun _ E' c' => E = E' ∧ c = c' ∧
      c.prospect.target = true := by
  refine .get fun s hs _ hc => .require Stops.tolerateHere fun htarget => .isStrict ?_
  have done : E = E ∧ c = c ∧ c.prospect.target = true := ⟨rfl, rfl, hc ▸ htarget⟩
  refine .ite (fun _ => ?_) fun _ => .pure done
  cases target.identifierName? with
  | none => exact .pure done
  | some name => exact .assert Stops.tolerateWith fun _ => .ite (fun _ => Stops.tolerateWith.yields) fun _ => .pure done

theorem assignTo_derived (first : Token) {target : Node} (op : AssignOp)
    (h : Derived source outer E (.expression c.prospect) target) :
    Reads source E c (assignTo nested first target op) fun n c' =>
      Derived source outer E (.expression c'.prospect) n := by
  refine .bind (checkTarget_yields first target E c) ?_
  rintro _ _ _ ⟨rfl, rfl, htarget⟩
  refine .ite (fun hop => .value ?_) fun hop => .nonPattern (.value ?_)
  · obtain rfl := eq_of_beq hop
    refine .keep .skip fun _ _ => .isolated (hn.assignment outer) fun value hv => .node fun i =>
      .modifyCover (.pure ⟨rfl, ?_⟩)
    exact .assignment htarget h hv
  · refine .keep .skip fun _ _ => .isolated (hn.assignment outer) fun value hv => .node fun i =>
      .modifyCover (.pure ⟨rfl, ?_⟩)
    exact .compound (by simpa using hop) htarget h hv

theorem asyncParameter_derived (first : Token) {e : Node} (h : Derived source outer E (.expression c.prospect) e) :
    Reads source E c (asyncParameter nested first e) fun n c' =>
      Derived source outer E (.expression c'.prospect) n := by
  refine .ahead fun t => .ite (fun _ => .part (Reads.all fun outer => primary_derived outer hn E c)
    fun param c' hp => .pure ⟨rfl, ?_⟩) fun _ => .pure ⟨rfl, h⟩
  exact placeholder_derived fun outer => by simpa using (hp outer).expressionParameter

theorem assignment_derived : Covers source outer .expression (assignment nested) := fun E c => by
  refine .ahead fun first => .context (.ite (fun _ => yieldExpression_derived outer hn E c) fun _ => ?_)
  refine .part (conditional_derived outer hn E c) fun e c he =>
    .part (asyncParameter_derived outer hn first he) fun e c he => ?_
  refine .check fun _ => .ite (fun _ => .nonPattern (.ite (fun _ => .pure ⟨rfl, .of_le c.nonPattern_le he⟩)
    fun _ => ?_)) fun _ => .ahead fun t => ?_
  · refine .part (arrowParameters_derived _ he) fun ps c ⟨hps, hnames⟩ => ?_
    exact .mono (arrowFunction_derived outer hn first _ hps hnames _) fun n E' c' ⟨hE, h⟩ => ⟨hE, .of_free h⟩
  · cases t.assignOp? with
    | some op => exact assignTo_derived outer hn first op he
    | none => exact .pure ⟨rfl, he⟩

end

end EcmaTree.Parse
