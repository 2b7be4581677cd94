import EcmaTree.Proofs.Derivation.Opening
import EcmaTree.Proofs.Lexer.Probes

/-!
# Expressions restore the context

What a production changes in the context, it changes for a part of itself: behind an expression the context is the one
before it, in strict and in tolerant mode. What a chain of accesses and calls holds need not be looked at, because the
whole chain is read in a context of its own, and so are the parameters and the body of a function.
-/

namespace EcmaTree.Parse

open Judgement (onSuccess)

variable {α β σ : Type} {nested : Nested}

/-- What is given back, is given back in the context around it. -/
def Restores (p : Parse α) : Prop := ∀ s, onSuccess.Ensures p s fun _ t => t.context = s.context

namespace Restores

theorem pure (a : α) : Restores (pure a) := fun _ => onSuccess.ofPure rfl

theorem bind {p : Parse α} {f : α → Parse β} (hp : Restores p) (hf : ∀ a, Restores (f a)) :
    Restores (p >>= f) := fun s =>
  Judgement.bind (hp s) fun a t ht => onSuccess.mono (hf a t) fun _ _ hu => hu.trans ht

theorem get {f : ParseState → Parse α} (h : ∀ s, Restores (f s)) : Restores (get >>= f) :=
  fun s => onSuccess.get (h s s)

/-- Reading a part of the state. -/
theorem reading {f : ParseState → α} : Restores (do return f (← MonadState.get)) :=
  fun _ => onSuccess.get (onSuccess.ofPure rfl)

theorem modify {f : ParseState → ParseState} (h : ∀ s, (f s).context = s.context) : Restores (modify f) := by
  rintro s _ _ ⟨⟩
  exact h s

theorem ite {b : Prop} [Decidable b] {p q : Parse α} (hp : Restores p) (hq : Restores q) :
    Restores (if b then p else q) := by
  split
  · exact hp
  · exact hq

/-- Whatever the context is changed to, and whatever is read in it. -/
theorem withContext {change : Context → Context} {p : Parse α} : Restores (withContext change p) := fun s =>
  onSuccess.get <| behind fun _ _ => behind fun _ _ => by
    rintro _ _ ⟨⟩
    rfl

theorem loop {step : σ → Parse (Progress σ)} {state : σ} (h : ∀ x, Restores (step x)) :
    Restores (loop state step) := fun s =>
  Judgement.Ensures.loop (I := fun _ t => t.context = s.context) rfl fun x t ht =>
    onSuccess.mono (h x t) (by rintro (y | y) u hu <;> exact hu.trans ht)

/-- What is never given back. -/
theorem of_fail {p : Parse α} (h : ∀ s, onSuccess.Ensures p s fun _ _ => False) : Restores p := fun s =>
  onSuccess.mono (h s) fun _ _ h => h.elim

theorem modifyCover (change : Cover → Cover) : Restores (modifyCover change) := modify fun _ => rfl

theorem tolerate (e : SyntaxError) : Restores (tolerate e) := fun s => onSuccess.mono (onSuccess.ofTolerate e s) <| by
  rintro _ _ rfl
  rfl

theorem tolerateAt (t : Token) : Restores (tolerateAt t) := get fun _ => tolerate _

theorem tolerateWith (t : Token) (cause : Cause) : Restores (tolerateWith t cause) := get fun _ => tolerate _

theorem tolerateHere (cause : Cause) : Restores (tolerateHere cause) := get fun _ => tolerate _

theorem next : Restores next := fun _ => onSuccess.mono .next <| by
  rintro _ _ ⟨-, _, _, _, _, _, _, _, rfl⟩
  rfl

theorem skip : Restores skip := by
  rw [skip_eq]
  exact bind next fun _ => pure _

theorem second : Restores second := fun s t u h => by
  have back := (second_runs s).behind
  rw [h] at back
  rw [show u = _ from back]

theorem behindDot : Restores behindDot := fun s t u h => by
  have back := (behindDot_runs s).behind
  rw [h] at back
  rw [show u = _ from back]

theorem expect (p : Punctuator) : Restores (expect p) := bind next fun _ => ite (pure _) (of_fail fun _ => .failAt)

theorem expectKeyword (word : String) : Restores (expectKeyword word) :=
  bind next fun _ => ite (pure _) (of_fail fun _ => .failAt)

theorem accept (p : Punctuator) : Restores (accept p) := bind reading fun _ => ite (bind skip fun _ => pure _) (pure _)

theorem finish (start : Place) (kind : Kind Node) : Restores (finish start kind) :=
  get fun _ => bind (modify fun _ => rfl) fun _ => pure _

theorem endStatement : Restores endStatement := get fun _ =>
  ite skip (ite (pure _) (ite (modify fun _ => rfl) (of_fail fun _ => .failAt)))

theorem isolate {p : Parse α} (h : Restores p) : Restores (isolate p) :=
  get fun _ => bind (modifyCover _) fun _ => bind h fun _ => get fun s => by
    cases s.cover.pending with
    | none => exact bind (modifyCover _) fun _ => pure _
    | some t => exact bind (of_fail fun _ => .failAt) fun _ => bind (modifyCover _) fun _ => pure _

theorem inherit {p : Parse α} (h : Restores p) : Restores (inherit p) :=
  get fun _ => bind (modifyCover _) fun _ => bind h fun _ => bind (modifyCover _) fun _ => pure _

theorem mapM {f : α → Parse β} (h : ∀ a, Restores (f a)) (as : List α) : Restores (as.mapM f) := by
  induction as with
  | nil => exact pure _
  | cons a as ih =>
    rw [List.mapM_cons]
    exact bind (h a) fun _ => bind ih fun _ => pure _

theorem commaSeparated {p : Parse α} (h : Restores p) : Restores (commaSeparated p) :=
  bind h fun _ => bind (loop fun _ => bind (accept _) fun _ => ite (bind h fun _ => pure _) (pure _)) fun _ => pure _

theorem exhausted : Restores (throw .exhausted : Parse α) := fun _ _ _ h => by cases h

end Restores

/-! ## Expressions restore the context -/

/-- The productions that expressions are made of restore the context. Those that a chain holds are read in a context
of its own. -/
structure Restoring (nested : Nested) : Prop where
  assignment : Restores (nested .assignment)
  unary : Restores (nested .unary)
  exponentiation : Restores (nested .exponentiation)

theorem function_restores (form : FunctionForm) (nameIsOptional : Bool) :
    Restores (function nested form nameIsOptional) := by
  have async : Restores (acceptAsync form) := .bind .reading fun _ => .ite (.bind .reading fun _ => ?_) (.pure _)
  · exact .bind .reading fun _ => .bind async fun _ => .bind (.expectKeyword _) fun _ => .bind (.accept _) fun _ =>
      .bind .withContext fun _ => .finish _ _
  · exact .ite (.bind (.tolerateHere _) fun _ => .bind .skip fun _ => .pure _) (.bind .skip fun _ => .pure _)

theorem identifierName_restores : Restores identifierName :=
  .bind .reading fun _ => .bind .next fun _ => .ite (.finish _ _) (.of_fail fun _ => .failAt)

theorem checkAsyncFunction_restores : Restores checkAsyncFunction :=
  .bind .reading fun _ => .ite (.get fun _ => .bind .second fun _ => .pure _) (.pure _)

theorem nameExpression_restores : Restores (nameExpression nested) := by
  have named (start : Place) : Restores (do
      if ← checkAsyncFunction then functionExpression nested
      else
        let t ← next
        finish start (.identifier t.text)) :=
    .bind checkAsyncFunction_restores fun _ => .ite (function_restores _ _) (.bind .next fun _ => .finish _ _)
  exact .bind .reading fun _ => .bind .reading fun _ => .bind .reading fun _ =>
    .ite (.bind (.tolerateAt _) fun _ => named _) (named _)

theorem classExpression_restores : Restores (classExpression nested) :=
  .bind .reading fun _ => .bind .withContext fun _ => .finish _ _

theorem importCallee_restores : Restores importCallee :=
  .bind .reading fun _ => .bind (.expectKeyword _) fun _ => .finish _ _

theorem importMeta_restores : Restores importMeta :=
  .bind .reading fun _ => .bind identifierName_restores fun _ => .bind (.expect _) fun _ =>
    .bind identifierName_restores fun _ =>
    .bind (.modifyCover _) fun _ => .finish _ _

theorem checkImportCall_restores : Restores checkImportCall :=
  .bind .reading fun _ => .ite (.bind .second fun _ => .pure _) (.pure _)

theorem checkImportMeta_restores : Restores checkImportMeta := by
  refine .bind .reading fun _ => .ite (.bind .behindDot fun behind => ?_) (.pure _)
  cases behind with
  | none => exact .pure _
  | some t => exact .ite (.ite (.bind (.tolerateWith _ _) fun _ => .pure _) (.pure _)) (.pure _)

theorem keywordExpression_restores : Restores (keywordExpression nested) := by
  refine .bind .reading fun _ => .bind .reading fun _ => .bind .reading fun _ => .ite identifierName_restores ?_
  refine .ite (.bind .skip fun _ => .finish _ _) (.bind (.modifyCover _) fun _ => .ite (function_restores _ _) ?_)
  refine .ite (.bind .skip fun _ => .finish _ _) (.ite classExpression_restores ?_)
  refine .bind checkImportCall_restores fun _ =>
    .ite importCallee_restores (.bind checkImportMeta_restores fun _ => .ite ?_ ?_)
  · exact .ite importMeta_restores (.bind (.tolerateWith _ _) fun _ => importMeta_restores)
  · exact .bind .next fun _ => .of_fail fun _ => .failAt

/-- The parameter of `async x => …` is a name, or something that `async` stands before on its line. -/
theorem asyncParameter_restores (first : Token) (e : Node) : Restores (asyncParameter nested first e) := fun s => by
  refine .ahead (.ite (fun h => ?_) fun _ => onSuccess.ofPure rfl)
  have named : s.lookahead.isIdentifier = true ∨ s.lookahead.isKeyword "yield" = true := by
    simp only [Bool.and_eq_true, Bool.or_eq_true] at h
    exact h.2
  refine Judgement.bind (P := fun _ t => t.context = s.context) ?_ fun _ _ h => onSuccess.ofPure h
  have word : (∃ name, s.lookahead.lexeme = .identifier name) ∨ s.lookahead.lexeme = .keyword "yield" := by
    rcases named with h | h
    · exact .inl (Token.isIdentifier_iff.1 h)
    · exact .inr (Token.isKeyword_iff.1 h)
  rcases word with ⟨name, hl⟩ | hl
  · refine .ahead (onSuccess.get (.neg (by simp [Token.isPunctuator, hl]) ?_))
    rw [hl]
    exact nameExpression_restores s
  · refine .ahead (onSuccess.get (.neg (by simp [Token.isPunctuator, hl]) ?_))
    rw [hl]
    exact keywordExpression_restores s

theorem yieldExpression_restores : Restores (yieldExpression nested) :=
  .bind .reading fun _ => .bind (.expectKeyword _) fun _ => .bind (.get fun _ => .ite (.pure _) .withContext)
    fun _ => .finish _ _

/-- What strict code says of the name that is assigned to. -/
theorem assignedName_restores (first : Token) (target : Node) : Restores (do
    if ← isStrict then
      if let some name := target.identifierName? then
        if isRestricted name then tolerateWith first .strictAssignment
        if isStrictReserved name then tolerateWith first .strictReservedWord) := by
  have reserved (name : String) : Restores (do if isStrictReserved name then tolerateWith first .strictReservedWord) :=
    .ite (.tolerateWith _ _) (.pure _)
  refine .bind .reading fun _ => .ite ?_ (.pure _)
  cases target.identifierName? with
  | none => exact .pure _
  | some name => exact .ite (.bind (.tolerateWith _ _) fun _ => reserved name) (reserved name)

theorem checkTarget_restores (first : Token) (target : Node) : Restores (checkTarget first target) :=
  .get fun _ => .ite (assignedName_restores first target) (.bind (.tolerateHere _) fun _ =>
    assignedName_restores first target)

theorem assignTo_restores (hn : Restoring nested) (first : Token) (target : Node) (op : AssignOp) :
    Restores (assignTo nested first target op) := by
  have done (target : Node) : Restores (do
      skip
      let value ← isolate (nested .assignment)
      let node ← finish first.place (.assignment op target value)
      modifyCover ({ · with pending := none })
      return node) :=
    .bind .skip fun _ => .bind (.isolate hn.assignment) fun _ => .bind (.finish _ _) fun _ =>
      .bind (.modifyCover _) fun _ => .pure _
  exact .bind (checkTarget_restores _ _) fun _ => .ite (done _) (.bind (.modifyCover _) fun _ => done _)

theorem arrowFunction_restores (first : Token) (ps : Parameters) (async : Bool) :
    Restores (arrowFunction nested first ps async) :=
  have done : Restores (do
      modifyCover ({ · with pending := none })
      withContext ({ · with allowStrictDirective := ps.simple, allowYield := true, isAsync := async }) do
        expect .arrow
        let body ← arrowBody nested
        if ← isStrict then
          failOffender ps.cause ps.restricted
          tolerateOffender ps.cause ps.stricted
        finish first.place (.function .arrow none ps.params body false (!isBlock body) async)) :=
          .bind (.modifyCover _) fun _ => .withContext
  .get fun _ => .ite (.bind (.tolerateAt _) fun _ => done) done

theorem arrowParameter_restores (isAsync : Bool) (param : Node) : Restores (arrowParameter isAsync param) := by
  unfold arrowParameter
  split
  · split
    · exact .of_fail fun _ => .failAhead
    · exact .pure _
    · exact .pure _
  · exact .ite (.of_fail fun _ => .failAhead) (.pure _)

theorem arrowParameters_restores (list : Node) (isAsync : Bool) : Restores (arrowParameters list isAsync) := by
  have nodes : Restores (arrowNodes list) := by
    unfold arrowNodes
    split
    · exact .pure _
    · exact .pure _
    · exact .of_fail fun _ => .failAhead
  refine .bind nodes fun nodes => .bind (.mapM (arrowParameter_restores isAsync) nodes) fun _ =>
    .bind .reading fun _ => ?_
  exact .ite (.bind (.of_fail fun _ => .failAhead) fun _ => .ite (.bind (.of_fail fun _ => .failHere)
    fun _ => .pure _) (.pure _))
    (.ite (.bind (.of_fail fun _ => .failHere) fun _ => .pure _) (.pure _))

theorem checkUpdated_restores (operand : Node) (cause : Cause) : Restores (checkUpdated operand cause) := by
  have target : Restores (do unless (← get).cover.isAssignmentTarget do tolerateHere .assignmentTarget) :=
    .get fun _ => .ite (.pure _) (.tolerateHere _)
  exact .bind .reading fun _ => .ite (.bind (.tolerateHere _) fun _ => target) target

theorem update_restores (hn : Restoring nested) : Restores (update nested) := by
  refine .bind .reading fun first => ?_
  cases first.updateOp? with
  | some op =>
    exact .bind .skip fun _ => .bind (.inherit hn.unary) fun _ => .bind (checkUpdated_restores _ _) fun _ =>
      .bind (.finish _ _) fun _ =>
      .bind (.modifyCover _) fun _ => .pure _
  | none =>
    refine .bind (.inherit (.bind .reading fun _ => .withContext)) fun _ => .get fun s => ?_
    cases s.lookahead.updateOp? with
    | none => exact .pure _
    | some op =>
      exact .ite (.pure _) (.bind (checkUpdated_restores _ _) fun _ => .bind (.modifyCover _) fun _ =>
        .bind .skip fun _ => .finish _ _)

theorem unary_restores (hn : Restoring nested) : Restores (unary nested) := by
  refine .bind .reading fun first => ?_
  cases first.unaryOp? with
  | some op =>
    have node (node : Node) : Restores (do
        nonPattern
        return node) := .bind (.modifyCover _) fun _ => .pure _
    exact .bind .skip fun _ => .bind (.inherit hn.unary) fun _ => .bind (.finish _ _) fun _ => .bind .reading fun _ =>
      .ite (.bind (.tolerateHere _) fun _ => node _) (node _)
  | none =>
    refine .bind .reading fun _ => .ite ?_ (update_restores hn)
    exact .bind .reading fun _ => .bind .skip fun _ => .bind hn.unary fun _ => .finish _ _

theorem exponentiation_restores (hn : Restoring nested) : Restores (exponentiation nested) :=
  .bind .reading fun _ => .bind (.inherit (unary_restores hn)) fun _ => .ite (.pure _) <| .bind (.accept _) fun _ =>
    .ite (.bind (.modifyCover _) fun _ => .bind (.isolate hn.exponentiation) fun _ => .finish _ _) (.pure _)

theorem joinOperands_restores (p : Pending) (lineAbove : Nat) (right : Node) :
    Restores (joinOperands p lineAbove right) := by
  unfold joinOperands
  split
  · exact .finish _ _
  · exact .of_fail fun _ => .failHere

theorem reduceWhile_restores (strength : Nat) : ∀ stack right first, Restores (reduceWhile strength stack right first)
  | [], _, _ => .pure _
  | _ :: stack, _, _ => .ite (.bind (joinOperands_restores _ _ _) fun _ =>
    reduceWhile_restores strength stack _ _) (.pure _)

theorem reduceAll_restores : ∀ stack right first, Restores (reduceAll stack right first)
  | [], _, _ => .pure _
  | _ :: stack, _, _ => .bind (joinOperands_restores _ _ _) fun _ => reduceAll_restores stack _ _

/-- One operator more and the operand behind it. -/
theorem push_restores (hn : Restoring nested) (op : Token) (strength : Nat) (stack : List Pending)
    (right : Node) (last : Token) (mix : LogicalMix) :
    Restores (do
      let (stack, left, leftFirst) ← reduceWhile strength stack right last
      skip
      nonPattern
      let rightFirst ← ahead
      let right ← isolate (exponentiation nested)
      return Progress.more (⟨left, leftFirst, op, strength⟩ :: stack, right, rightFirst, mix.after op)) :=
  .bind (reduceWhile_restores _ _ _ _) fun _ => .bind .skip fun _ => .bind (.modifyCover _) fun _ =>
    .bind .reading fun _ =>
    .bind (.isolate (exponentiation_restores hn)) fun _ => .pure _

theorem binary_restores (hn : Restoring nested) : Restores (binary nested) := by
  refine .bind .reading fun _ => .bind (.inherit (exponentiation_restores hn)) fun _ =>
    .bind (.loop ?_) fun _ => reduceAll_restores _ _ _
  rintro ⟨stack, right, last, mix⟩
  have goOn (s : ParseState) := push_restores hn s.lookahead (strengthOf s s.lookahead) stack right last mix
  exact .get fun s => .ite (.pure _) (.ite (goOn s) (.bind (.of_fail fun _ => .failAt) fun _ => goOn s))

theorem conditional_restores (hn : Restoring nested) : Restores (conditional nested) :=
  .bind .reading fun _ => .bind (.inherit (binary_restores hn)) fun _ => .bind (.accept _) fun _ => .ite
    (.bind .withContext fun _ => .bind (.expect _) fun _ => .bind (.isolate hn.assignment) fun _ =>
      .bind (.finish _ _) fun _ =>
      .bind (.modifyCover _) fun _ => .pure _) (.pure _)

theorem assignment_restores (hn : Restoring nested) : Restores (assignment nested) := by
  refine .bind .reading fun _ => .bind .reading fun _ => .ite yieldExpression_restores ?_
  refine .bind (conditional_restores hn) fun e => .bind (asyncParameter_restores _ _) fun e =>
    .bind .reading fun _ => .ite ?_ ?_
  · exact .bind (.modifyCover _) fun _ =>
      .ite (.pure _) (.bind (arrowParameters_restores _ _) fun _ => arrowFunction_restores _ _ _)
  · refine .bind .reading fun t => ?_
    cases t.assignOp? with
    | none => exact .pure _
    | some op => exact assignTo_restores hn _ _ _

theorem restoring : ∀ levels, Restoring (atLevels levels)
  | 0 => ⟨.exhausted, .exhausted, .exhausted⟩
  | levels + 1 => ⟨assignment_restores (restoring levels), unary_restores (restoring levels),
    exponentiation_restores (restoring levels)⟩

theorem expression_restores (hn : Restoring nested) : Restores (expression nested) := by
  refine .bind .reading fun _ => .bind (.commaSeparated (.isolate hn.assignment)) fun expressions => ?_
  split
  · exact .pure _
  · exact .finish _ _

theorem directive_restores (hn : Restoring nested) : Restores (directive nested) :=
  .bind .reading fun _ => .bind .reading fun _ => .bind (expression_restores hn) fun _ => .bind .endStatement fun _ =>
    .bind (.finish _ _) fun _ => .pure _

end EcmaTree.Parse
