import EcmaTree.Proofs.Ledger.Primary

/-!
# Chains, operators and assignments

A binary operator waits on a stack with its left operand. Arrow functions take the nodes out of the placeholder that
held them.
-/

namespace EcmaTree

instance : HasTokens Parse.Pending := ⟨fun p => [p.first]⟩

instance : HasNodes Parse.LogicalMix := ⟨fun _ => []⟩

instance : HasNodes.Bare Parse.LogicalMix := ⟨fun _ => rfl⟩

instance : HasTokens Parse.LogicalMix := ⟨fun _ => []⟩

instance : HasTokens.Mute Parse.LogicalMix := ⟨fun _ => rfl⟩

namespace Ledger

open Parse

variable {L : Ledger} {m : Mode} {nested : Nested} {base s : ParseState} {ns l : List Node}

@[simp] theorem nodes_pending (p : Pending) : nodes p = [p.left] := rfl

@[simp] theorem fine_pending {p : Pending} : L.Fine p ↔ L.Seen p.first := by simp [Fine, tokens]

section
variable (hn : L.Sound nested)
include hn

/-! ## Arguments and chains -/

theorem argument_reads (maybeParameter : Bool) : L.Reads (argument nested maybeParameter) := fun s h => by
  have isolated : L.Reads (do
      let e ← nested .assignment
      if maybeParameter then modifyCover ({ · with pending := none })
      return e) := fun t h =>
    h.read hn.assignment fun e u h _ => h.settleIf .dropPending fun v h => h.give (by simp) (by simp)
  exact .check (.ite (fun _ => h.last (spread_reads hn) (by simp)) fun _ => h.last isolated.isolate (by simp))

theorem arguments_reads (maybeParameters : Bool) : L.Reads (arguments nested maybeParameters) := fun s h => by
  refine h.expect fun t h => .check (.ite (fun _ => .value (h.expect fun u h => h.give (by simp) (by simp)))
    fun _ => ?_)
  refine h.loop [] (by simp) (by simp) (fun args u h _ => ?_) fun args u h _ => h.expect fun v h =>
    h.give (by simp) (by simp)
  refine h.read (argument_reads hn _) fun arg v h _ => .check (.ite (fun _ => h.give (by simp) (by simp)) fun _ => ?_)
  refine h.read .expectSeparator fun _ w h _ => .check ?_
  exact .ite (fun _ => h.give (by simp) (by simp)) fun _ => h.give (by simp) (by simp)

theorem newExpression_reads : L.Reads (newExpression nested) := fun s h => by
  refine .mark (h.read identifierName_reads fun word t h _ => h.accept fun b u h =>
    .ite (fun _ => .ahead ?_) fun _ => ?_)
  · refine .context (.ite (fun _ => ?_) fun _ => h.failAhead)
    exact h.read identifierName_reads fun field v h _ => h.finish rfl (by simp +arith [Kind.children])
  refine .checkKeyword (.ite (fun _ => h.failAhead) fun _ => h.read hn.callee.isolate fun callee v h _ => .check ?_)
  refine .ite (fun _ => h.read (arguments_reads hn _) fun args w h _ => ?_) fun _ => .value ?_
  · exact h.read .nonPattern fun _ x h _ => h.finish rfl (by simp +arith [Kind.children])
  · exact h.read .nonPattern fun _ x h _ => h.finish rfl (by simp [Kind.children])

theorem chainBase_reads : L.Reads (chainBase nested) := fun s h =>
  .checkKeyword (.ite (fun _ => h.last (newExpression_reads hn).inherit (by simp)) fun _ =>
    h.last (primary_reads hn).inherit (by simp))

omit hn in
theorem superBase_reads (allowsCall : Bool) : L.Reads (superBase allowsCall) := fun s h => by
  refine .mark (h.expectKeyword fun t h => .check (.check (.check (.ite (fun _ => ?_) fun _ => ?_))))
  · refine h.node [] rfl (by simp [Kind.children]) fun n u _ h => ?_
    exact .ite (fun _ => h.give (by simp) (by simp)) fun _ => h.failAhead
  · exact .ite (fun _ => h.finish rfl (by simp [Kind.children])) fun _ => h.failAhead

theorem chainHead_reads (isSuper allowsCall : Bool) : L.Reads (chainHead nested isSuper allowsCall) := fun s h =>
  .context (.ite (fun _ => h.last (superBase_reads _) (by simp)) fun _ => h.last (chainBase_reads hn) (by simp))

omit hn in
theorem accessCover_leads (optional : Bool) : L.Leads m m (accessCover optional) := .modifyCover fun _ _ => .inl

/-- A link takes the chain before it. Without one the chain is as it was. -/
theorem link_safe {start : Place} {c : Chain} {optional : Bool} (h : L.Held .ahead base (c.expression :: l) s) :
    L.Safe (link nested start c optional) s fun e t => L.Held .ahead base (e.getD c.expression :: l) t := by
  refine .ahead (.ite (fun _ => ?_) fun _ => .ite (fun _ => ?_) fun _ => .ite (fun _ => ?_) fun _ => .pure h)
  · refine h.read (accessCover_leads _) fun _ t h _ => h.skip fun u h =>
      h.read (expression_reads hn).isolate fun field v h _ => ?_
    exact h.expect fun w h => h.node l rfl (by simp +arith [Kind.children]) fun n x _ h => .pure h
  · refine h.settleIf .failAhead fun t h => h.settleIf .failHere fun u h =>
      h.read (template_reads hn true) fun quasi v h _ => ?_
    exact h.node l rfl (by simp +arith [Kind.children]) fun n w _ h => .pure h
  · refine h.read (accessCover_leads _) fun _ t h _ => h.settleUnless .expect fun u h => ?_
    refine h.read identifierName_reads fun field v h _ => ?_
    exact h.node l rfl (by simp +arith [Kind.children]) fun n w _ h => .pure h

omit hn in
theorem finishChain_gives {start : Place} {c : Chain} (h : L.Held .ahead base (c.expression :: l) s) :
    L.Safe (finishChain start c) s (L.Gives .ahead base l) :=
  .ite (fun _ => h.finish rfl (by simp [Kind.children])) fun _ => h.give (by simp) (by simp)

theorem goOn_gives {start : Place} {c : Chain} {optional : Bool} (h : L.Held .ahead base (c.expression :: l) s) :
    L.Safe (goOn nested start c optional) s (L.Gives .ahead base l) := by
  refine .bind ((link_safe hn h).mono fun e t h => ?_)
  cases e with
  | some e => exact h.give (by simp) (by simp)
  | none => exact h.give (by simp) (by simp)

theorem callee_reads : L.Reads (callee nested) := fun s h => by
  refine .ahead (.checkKeyword (h.read (chainHead_reads hn _ _) fun first t h _ => ?_))
  refine after (l := []) ?_ fun c u h _ => finishChain_gives (by simpa using h)
  rw [accessLinks, ← bind_pure (loop _ _)]
  refine h.loop [] (by simp) (by simp) (fun c u h _ => ?_) fun c u h _ => h.give (by simp) (by simp)
  exact h.accept fun optional v h => goOn_gives hn h

theorem call_gives {first : Token} {c : Chain} {optional : Bool} (h : L.Held .ahead base (c.expression :: l) s) :
    L.Safe (call nested first c optional) s (L.Gives .ahead base l) := by
  have finished {args : List Node} {t : ParseState} (h : L.Held .ahead base (args ++ c.expression :: l) t) :
      L.Safe (finish first.place (.call c.expression args optional)) t (L.Gives .ahead base l) :=
    h.finish rfl (by simp +arith [Kind.children])
  refine .ahead (h.read .nonPattern fun _ t h _ => h.read (arguments_reads hn _) fun args u h _ => ?_)
  refine h.settleIf .tolerateHere fun v h => .check (.ite (fun _ => ?_) fun _ => finished (by simpa using h))
  have args : L.Held .ahead base (args ++ l) v := h.fewer (by simp)
  exact (args.patterns.hold true).give (by simp) (by simp)

theorem chainFrom_reads (first : Token) : L.Reads (chainFrom nested first) := fun s h => by
  refine h.read (chainHead_reads hn _ _) fun head t h _ => .check (.context ?_)
  refine h.settleIf .tolerateHere fun u h => after (l := []) ?_ fun c v h _ => finishChain_gives (by simpa using h)
  rw [chainLinks, ← bind_pure (loop _ _)]
  refine h.loop [] (by simp) (by simp) (fun c v h _ => ?_) fun c v h _ => h.give (by simp) (by simp)
  refine h.accept fun optional w h => .check (.ite (fun _ => ?_) fun _ => goOn_gives hn h)
  exact after (call_gives hn h) fun e x h _ => h.give (by simp) (by simp)

theorem callChain_reads : L.Reads (callChain nested) := fun s h =>
  .ahead (h.last (chainFrom_reads hn _).withContext (by simp))

/-! ## Operators -/

omit hn in
theorem checkUpdated_leads (operand : Node) (restricted : Cause) :
    L.Leads m m (checkUpdated operand restricted) := fun s h => by
  refine .isStrict (h.settleIf .tolerateHere fun t h => .get ?_)
  exact .ite (fun _ => h.give (by simp) (by simp)) fun _ => h.last .tolerateHere (by simp)

theorem updateBefore_reads (first : Token) (op : UpdateOp) : L.Reads (updateBefore nested first op) := fun s h => by
  refine h.skip fun t h => h.read hn.unary.inherit fun operand u h _ =>
    h.read (checkUpdated_leads _ _) fun _ v h _ => ?_
  exact h.node [] rfl (by simp [Kind.children]) fun n w _ h => h.read .nonPattern fun _ x h _ =>
    h.give (by simp) (by simp)

theorem update_reads : L.Reads (update nested) := fun s h => by
  refine .ahead ?_
  split
  · exact h.last (updateBefore_reads hn _ _) (by simp)
  refine h.read (callChain_reads hn).inherit fun operand t h _ => .get ?_
  split
  · refine .ite (fun _ => h.give (by simp) (by simp)) fun _ => h.read (checkUpdated_leads _ _) fun _ u h _ => ?_
    exact h.read .nonPattern fun _ v h _ => h.skip fun w h => h.finish rfl (by simp [Kind.children])
  · exact h.give (by simp) (by simp)

theorem await_reads : L.Reads (await nested) := fun s h =>
  .mark (h.skip fun t h => h.read hn.unary fun operand u h _ => h.finish rfl (by simp [Kind.children]))

theorem unary_reads : L.Reads (unary nested) := fun s h => by
  refine .ahead ?_
  split
  · refine h.skip fun t h => h.read hn.unary.inherit fun operand u h _ => ?_
    refine h.node [] rfl (by simp [Kind.children]) fun n v _ h => .isStrict (h.settleIf .tolerateHere fun w h => ?_)
    exact h.read .nonPattern fun _ x h _ => h.give (by simp) (by simp)
  · exact .context (.ite (fun _ => h.last (await_reads hn) (by simp)) fun _ => h.last (update_reads hn) (by simp))

theorem exponentiation_reads : L.Reads (exponentiation nested) := fun s h => by
  refine .ahead (h.read (unary_reads hn).inherit fun left t h _ => .ite (fun _ => h.give (by simp) (by simp))
    fun _ => ?_)
  refine h.accept fun b u h => .ite (fun _ => h.read .nonPattern fun _ v h _ => ?_) fun _ => h.give (by simp) (by simp)
  exact h.read hn.exponentiation.isolate fun right w h _ => h.finish rfl (by simp +arith [Kind.children])

omit hn in
theorem joinOperands_gives {p : Pending} {lineAbove : Nat} {right : Node}
    (h : L.Held .ahead base (right :: p.left :: l) s) :
    L.Safe (joinOperands p lineAbove right) s (L.Gives .ahead base l) := by
  unfold joinOperands
  split
  · exact h.finish rfl (by simp +arith [Kind.children])
  · exact h.failHere

omit hn in
theorem reduceWhile_gives (strength : Nat) {stack : List Pending} {right : Node} {first : Token}
    (h : L.Held .ahead base (right :: nodes stack ++ l) s) (fine : L.Fine stack) (hfirst : L.Seen first) :
    L.Safe (reduceWhile strength stack right first) s (L.Gives .ahead base l) := by
  induction stack generalizing right first s with
  | nil => exact h.give (by simp) (by simpa using hfirst)
  | cons p stack ih =>
    obtain ⟨hp, others⟩ : L.Seen p.first ∧ L.Fine stack := by simpa using fine
    refine .ite (fun _ => ?_) fun _ => h.give (by simp +arith) (by simpa using ⟨⟨hp, others⟩, hfirst⟩)
    exact after (joinOperands_gives (by simpa using h)) fun n t h _ => ih (by simpa using h) others hp

omit hn in
theorem reduceAll_gives {stack : List Pending} {right : Node} {first : Token}
    (h : L.Held .ahead base (right :: nodes stack ++ l) s) :
      L.Safe (reduceAll stack right first) s (L.Gives .ahead base l) := by
  induction stack generalizing right first s with
  | nil => exact h.give (by simp) (by simp)
  | cons p stack ih => exact after (joinOperands_gives (by simpa using h)) fun n t h _ => ih (by simpa using h)

theorem binary_reads : L.Reads (binary nested) := fun s h => by
  have first := h.seen
  refine .ahead (h.read (exponentiation_reads hn).inherit fun operand t h _ => ?_)
  refine h.loop (σ := List Pending × Node × Token × LogicalMix) [] (by simp) (by simpa using first)
    (fun (stack, right, last, mix) u h fine => .get ?_) fun (stack, right, last, mix) u h _ =>
      reduceAll_gives (h.fewer (by simp +arith))
  obtain ⟨others, hlast⟩ : L.Fine stack ∧ L.Seen last := by simpa using fine
  refine .ite (fun _ => h.give (by simp) (by simpa using fine)) fun _ => h.settleUnless (.failAt h.seen) fun v h => ?_
  have operands : L.Held .ahead s (right :: nodes stack ++ []) v := h.fewer (by simp +arith)
  refine after (reduceWhile_gives _ operands others hlast) fun (stack, left, leftFirst) w h fine => ?_
  refine h.skip fun x h => h.read .nonPattern fun _ y h _ => .ahead ?_
  have seen := h.seen
  refine h.read (exponentiation_reads hn).isolate fun right z h _ => h.give (by simp +arith) ?_
  simp_all

theorem conditional_reads : L.Reads (conditional nested) := fun s h => by
  refine .ahead (h.read (binary_reads hn).inherit fun test t h _ => h.accept fun b u h => ?_)
  refine .ite (fun _ => ?_) fun _ => h.give (by simp) (by simp)
  refine h.read hn.assignment.isolate.withContext fun consequent v h _ => h.expect fun w h => ?_
  refine h.read hn.assignment.isolate fun alternate x h _ =>
    h.node [] rfl (by simp +arith [Kind.children]) fun n y _ h => ?_
  exact h.read .nonPattern fun _ z h _ => h.give (by simp) (by simp)

/-! ## Arrow functions -/

theorem arrowBody_reads : L.Reads (arrowBody nested) := fun s h =>
  .check (.ite (fun _ => h.last (functionBody_reads hn).withContext (by simp)) fun _ =>
    h.last hn.assignment.isolate (by simp))

theorem arrowFunction_gives {first : Token} {ps : Parameters} {async : Bool} (h : L.Held .ahead base (ps.params ++ l) s)
    (fine : L.Fine ps) : L.Safe (arrowFunction nested first ps async) s (L.Gives .ahead base l) := by
  refine .get (h.settleIf (.tolerateAt h.seen) fun t h => h.read .dropPending fun _ u h _ =>
    h.withContext fun v h => ?_)
  refine h.expect fun w h => h.read (arrowBody_reads hn) fun body x h _ => .isStrict ?_
  have finished {t : ParseState} (h : L.Held .ahead base (nodes body ++ (ps.params ++ l)) t) :
      L.Safe (finish first.place (.function .arrow none ps.params body false (!isBlock body) async)) t
        (L.Gives .ahead base l) := h.finish rfl (by simp +arith [Kind.children])
  refine .ite (fun _ => ?_) fun _ => finished h
  refine h.read (failOffender_leads fun t => fine_restricted fine) fun _ y h _ => ?_
  exact h.read (tolerateOffender_leads fun t => fine_stricted fine) fun _ z h _ => finished h

/-! ## Assignments -/

theorem yieldArgument_reads : L.Reads (yieldArgument nested) := fun s h => by
  refine .get (.ite (fun _ => h.give (by simp) (by simp)) fun _ => ?_)
  have argument : L.Reads (do
      if ← accept .star then return (some (← nested .assignment), true)
      else if beginsExpression s.dialect.jsx s.lookahead then return (some (← nested .assignment), false)
      else return (none, false)) := fun t h => by
    refine h.accept fun b u h => .ite (fun _ => ?_) fun _ => .ite (fun _ => ?_) fun _ => h.give (by simp) (by simp)
    · exact h.read hn.assignment fun e v h _ => h.give (by simp) (by simp)
    · exact h.read hn.assignment fun e v h _ => h.give (by simp) (by simp)
  exact h.last argument.withContext (by simp)

theorem yieldExpression_reads : L.Reads (yieldExpression nested) := fun s h => by
  refine .mark (h.expectKeyword fun t h => h.read (yieldArgument_reads hn) fun (argument, delegate) u h _ => ?_)
  exact h.finish rfl (by simp [Kind.children])

omit hn in
theorem checkTarget_leads {first : Token} (hfirst : L.Seen first) (target : Node) :
    L.Leads m m (checkTarget first target) :=
    fun s h => by
  refine .get (h.settleUnless .tolerateHere fun t h =>
    .isStrict (.ite (fun _ => ?_) fun _ => h.give (by simp) (by simp)))
  split
  · refine h.settleIf (.tolerateWith hfirst) fun u h => .ite (fun _ => ?_) fun _ => h.give (by simp) (by simp)
    exact h.last (.tolerateWith hfirst) (by simp)
  · exact h.give (by simp) (by simp)

theorem assignTo_gives {first : Token} {target : Node} {op : AssignOp} (h : L.Held .ahead base (target :: l) s)
    (hfirst : L.Seen first) : L.Safe (assignTo nested first target op) s (L.Gives .ahead base l) := by
  have rest {target : Node} {t : ParseState} (h : L.Held .ahead base (target :: l) t) : L.Safe (do
      skip
      let value ← isolate (nested .assignment)
      let node ← finish first.place (.assignment op target value)
      modifyCover ({ · with pending := none })
      return node) t (L.Gives .ahead base l) := by
    refine h.skip fun u h => h.read hn.assignment.isolate fun value v h _ => ?_
    refine h.node l rfl (by simp +arith [Kind.children]) fun n w _ h => ?_
    exact h.read .dropPending fun _ x h _ => h.give (by simp) (by simp)
  refine h.read (checkTarget_leads hfirst target) fun _ t h _ => .ite (fun _ => .value ?_) fun _ => ?_
  · exact rest (h.alike (Node.outline_toPattern target))
  · exact h.read .nonPattern fun _ u h _ => .value (rest h)

theorem asyncParameter_gives {first : Token} {e : Node} (h : L.Held .ahead base (e :: l) s) :
    L.Safe (asyncParameter nested first e) s (L.Gives .ahead base l) := by
  refine .ahead (.ite (fun _ => ?_) fun _ => h.give (by simp) (by simp))
  refine h.read (primary_reads hn) fun param t h _ => ?_
  have one : L.Held .ahead base ([param.toPattern] ++ l) t := (h.fewer (by simp)).alike (Node.outline_toPattern param)
  exact (one.hold true).give (by simp) (by simp)

theorem assignment_reads : L.Reads (assignment nested) := fun s h => by
  have first := h.seen
  refine .ahead (.context (.ite (fun _ => h.last (yieldExpression_reads hn) (by simp)) fun _ => ?_))
  refine h.read (conditional_reads hn) fun e t h _ => after (asyncParameter_gives hn h) fun e u h _ => .check ?_
  refine .ite (fun _ => h.read .nonPattern fun _ v h _ => .ite (fun _ => h.give (by simp) (by simp))
    fun _ => ?_) fun _ => .ahead ?_
  · exact after (arrowParameters_gives h) fun ps w h fine => arrowFunction_gives hn h fine
  · split
    · exact assignTo_gives hn h first
    · exact h.give (by simp) (by simp)

end

end Ledger

end EcmaTree
