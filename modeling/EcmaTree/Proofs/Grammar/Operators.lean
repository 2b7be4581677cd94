import EcmaTree.Grammar.CallChain
import EcmaTree.Grammar.Operators
import EcmaTree.Proofs.Grammar.Primary

/-!
# Chains and operators

A chain of member accesses and calls holds one node, its expression so far. The operators that wait on the stack each
began before the next one, so an operator and its operands begin with the first token of the left operand.
-/

namespace EcmaTree.Contract

open Parse

instance : HasNodes Chain := ⟨fun c => [c.expression]⟩

@[simp] theorem nodes_chain (c : Chain) : nodes c = [c.expression] := rfl

variable {K : Contract} {base s : ParseState} {ns : List Node} {r : Bool} {nested : Nested} (hn : K.Sound nested)
include hn

/-! ## Arguments -/

theorem argument_reads (maybeParameter : Bool) : K.Reads (argument nested maybeParameter) := by
  intro s hs
  have isolated : K.Reads (do
      let e ← nested .assignment
      if maybeParameter then modifyCover ({ · with pending := none })
      return e) := fun s hs =>
    (K.start hs).read hn.assignment fun e t h => h.settleIf (.modifyCover _) fun u h => h.give (by simp)
  exact .check (.ite (fun _ => spread_reads hn s hs) fun _ => isolated.isolate s hs)

theorem arguments_closes (maybeParameters : Bool) : K.Closes (arguments nested maybeParameters) := by
  intro s hs
  refine (K.start hs).expect fun t h =>
    .check (.ite (fun _ => .value (h.expectClosing fun u h => h.give (by simp))) fun _ => ?_)
  refine h.loop (l := []) (by simp) (fun args u h => ?_) fun args u h => h.expectClosing fun v h => h.give (by simp)
  refine h.read (argument_reads hn _) fun arg v h => .check (.ite (fun _ => h.give (by simp)) fun _ => ?_)
  exact h.pass expectSeparator_passes fun _ w h => .check (.ite (fun _ => h.give (by simp)) fun _ => h.give (by simp))

/-! ## `new` and `super` -/

theorem newExpression_reads : K.Reads (newExpression nested) := by
  intro s hs
  refine .mark ((K.start hs).read identifierName_reads fun word t h => h.accept (fun u h => .pos rfl ?_) fun _ => ?_)
  · refine .ahead (.context (.ite (fun _ => ?_) fun _ => .failAhead))
    exact h.read identifierName_reads fun field v h => h.finish rfl (by simp [Kind.children])
  refine .neg nofun (.checkKeyword (.ite (fun _ => .failAhead) fun _ => ?_))
  refine h.read hn.callee.isolate fun callee u h => .check (.ite (fun _ => ?_) fun _ => .value ?_)
  · exact h.read (arguments_closes hn _).reads fun args v h => h.settle .nonPattern fun _ w h =>
      h.finish rfl (by simp [Kind.children]; grind)
  · exact h.settle .nonPattern fun _ w h => h.finish rfl (by simp [Kind.children])

theorem chainBase_reads : K.Reads (chainBase nested) := by
  intro s hs
  refine .checkKeyword (.ite (fun _ => (newExpression_reads hn).inherit s hs) fun _ => ?_)
  exact (primary_reads hn).inherit s hs

omit hn in
theorem superBase_reads (allowsCall : Bool) : K.Reads (superBase allowsCall) := by
  intro s hs
  refine .mark ((K.start hs).expectKeyword fun t h => .check (.check (.check (.ite (fun _ => ?_) fun _ => ?_))))
  · exact h.node rfl (by simp [Kind.children]) fun n u _ h => .ite (fun _ => h.give (by simp)) fun _ => .failAhead
  · exact .ite (fun _ => h.finish rfl (by simp [Kind.children])) fun _ => .failAhead

theorem chainHead_reads (isSuper allowsCall : Bool) : K.Reads (chainHead nested isSuper allowsCall) := fun s hs =>
  .context (.ite (fun _ => superBase_reads allowsCall s hs) fun _ => chainBase_reads hn s hs)

/-! ## Links -/

theorem link_held {start : Place} {c : Chain} {optional : Bool} (h : K.Held .ahead true base [c.expression] s)
    (hstart : base.Marks start) :
    K.Ensures (link nested start c optional) s fun n t => K.Held .ahead true base (nodes n ++ [c.expression]) t := by
  refine .ahead (.ite (fun hbracket => ?_) fun _ => .ite (fun _ => ?_) fun _ => .ite (fun _ => ?_) fun _ =>
    h.give (by simp))
  · refine Judgement.bind (Judgement.Settles.modifyCover _ s) fun _ t ht => (h.rests ht).skip ?_ fun u h => ?_
    · exact ParseState.not_arrow_of_punctuator (p := .leftBracket) (ht.lookahead ▸ hbracket)
    refine h.read (expression_reads hn).isolate fun field v h => h.expect fun w h => ?_
    exact h.nodeFrom hstart rfl (by simp [Kind.children]) (fun n x _ h => h.give (by simp))
  · refine h.settleIf .failAhead fun t h => h.settleIf (.failHere _) fun u h => ?_
    exact h.read (template_reads hn _) fun quasi v h =>
      h.nodeFrom hstart rfl (by simp [Kind.children]) (fun n w _ h => h.give (by simp))
  · have named {t : ParseState} (h : K.Held .ahead true base [c.expression] t) : K.Ensures (do
        let field ← identifierName
        return some (← finish start (.member c.expression field false optional))) t
          fun n u => K.Held .ahead true base (nodes n ++ [c.expression]) u :=
      h.read identifierName_reads fun field u h =>
        h.nodeFrom hstart rfl (by simp [Kind.children]) (fun n v _ h => h.give (by simp))
    refine h.settle (.modifyCover _) fun _ t h => .ite (fun _ => named h) fun _ => ?_
    exact h.expect fun u h => named h

omit hn in
theorem finishChain_held {start : Place} {c : Chain} (h : K.Held .ahead true base [c.expression] s)
    (hstart : base.Marks start) :
    K.Ensures (finishChain start c) s fun n t => K.Held .ahead true base (nodes n) t :=
  .ite (fun _ => h.finishFrom hstart rfl (by simp [Kind.children])) fun _ => h.give (by simp)

theorem goOn_held {start : Place} {c : Chain} {optional : Bool} (h : K.Held .ahead true base (nodes c) s)
    (hstart : base.Marks start) :
    K.Ensures (goOn nested start c optional) s fun p t => K.Held .ahead true base (nodes p ++ []) t := by
  refine Judgement.bind (link_held hn h hstart) fun n t h => ?_
  cases n with
  | some e => exact h.give (by simp)
  | none => exact h.give (by simp)

theorem accessLinks_held {start : Place} {c : Chain} (h : K.Held .ahead true base (nodes c) s)
    (hstart : base.Marks start) :
    K.Ensures (accessLinks nested start c) s fun c t => K.Held .ahead true base (nodes c) t := by
  rw [accessLinks, ← bind_pure (loop c _)]
  refine h.loop (l := []) (by simp) (fun c t h => ?_) fun c t h => h.give (by simp)
  exact h.accept (fun u h => goOn_held hn (h.mono (by simp [Chain.after])) hstart) fun _ =>
    goOn_held hn (h.mono (by simp [Chain.after])) hstart

theorem callee_reads : K.Reads (callee nested) := by
  intro s hs
  refine .ahead (.checkKeyword ((K.start hs).read (chainHead_reads hn _ _) fun head t h => ?_))
  refine Judgement.bind (accessLinks_held hn (h.mono (by simp)) (.inr ⟨0, rfl⟩)) fun c u h => ?_
  exact finishChain_held h (.inr ⟨0, rfl⟩)

/-! ## Calls -/

theorem call_held {first : Token} {c : Chain} {optional : Bool} (h : K.Held .ahead true base (nodes c) s)
    (hstart : base.Marks first.place) :
    K.Ensures (call nested first c optional) s fun n t => K.Held .ahead true base (nodes n) t := by
  have rest {args : List Node} {maybeParameters : Bool} {t : ParseState} (h : K.Closed base (args ++ nodes c) t) :
      K.Ensures (check .arrow >>= fun isArrow =>
        if maybeParameters && isArrow then pure (placeholder (args.map Node.toPattern) true)
        else finish first.place (.call c.expression args optional)) t
          fun n u => K.Held .ahead true base (nodes n) u := by
    refine .check (.ite (fun harrow => ?_) fun _ => h.toHeld.finishFrom hstart rfl (by simp [Kind.children]; grind))
    rw [Bool.and_eq_true] at harrow
    refine (h.placeholder (args.map Node.toPattern) true harrow.2 ?_).give (by simp)
    simpa using fun n hn => K.firm_toPattern (h.firm n (by simp [hn]))
  refine .ahead (h.settle .nonPattern fun _ t h => h.close (arguments_closes hn _) fun args u h => ?_)
  exact h.settleIf (.tolerateHere _) fun v h => rest (h.mono (by simp))

theorem chainLinks_held {first : Token} {c : Chain} (h : K.Held .ahead true base (nodes c) s)
    (hstart : base.Marks first.place) :
    K.Ensures (chainLinks nested first c) s fun c t => K.Held .ahead true base (nodes c) t := by
  rw [chainLinks, ← bind_pure (loop c _)]
  refine h.loop (l := []) (by simp) (fun c t h => ?_) fun c t h => h.give (by simp)
  have link {optional : Bool} {t : ParseState} (h : K.Held .ahead true base (nodes c) t) :
      K.Ensures (check .leftParen >>= fun isCall => do
        if isCall then
          return .more { c.after optional with expression := ← call nested first (c.after optional) optional }
        else goOn nested first.place (c.after optional) optional) t
          fun p u => K.Held .ahead true base (nodes p ++ []) u := by
    refine .check (.ite (fun _ => ?_) fun _ => goOn_held hn h hstart)
    exact Judgement.bind (call_held hn h hstart) fun e u h => h.give (by simp)
  exact h.accept (fun u h => link (h.mono (by simp))) fun _ => link (h.mono (by simp))

theorem chainFrom_reads (hs : K.Stands .ahead s) :
    K.Ensures (chainFrom nested s.lookahead) s fun n t => K.Held .ahead true s (nodes n) t := by
  refine (K.start hs).read (chainHead_reads hn _ _) fun head t h => .check (.context ?_)
  refine h.settleIf (.tolerateHere _) fun u h => ?_
  refine Judgement.bind (chainLinks_held hn (h.mono (by simp)) (.inr ⟨0, rfl⟩)) fun c v h => ?_
  exact finishChain_held h (.inr ⟨0, rfl⟩)

theorem callChain_reads : K.Reads (callChain nested) := by
  intro s hs
  refine .ahead (.withContext fun t ht => ?_)
  rw [← ht.lookahead]
  refine K.mono (chainFrom_reads hn (K.stands_of_rests ht hs)) fun n u h v hv => ?_
  exact (h.rests hv).since (K.steps_of_rests ht)

end EcmaTree.Contract

/-! ## Operators -/

namespace EcmaTree

namespace Judgement.Settles

open Parse

variable {J : Judgement}

theorem checkUpdated (operand : Node) (restricted : Cause) : J.Settles (checkUpdated operand restricted) := by
  have target : J.Settles (MonadState.get >>= fun s : ParseState =>
      if s.cover.isAssignmentTarget then Pure.pure () else Parse.tolerateHere .assignmentTarget) :=
    .get (fun _ => rfl) fun _ => .ite (.pure _) (.tolerateHere _)
  exact .bind .isStrict fun _ => .ite (.bind (.tolerateHere _) fun _ => target) target

end Judgement.Settles

namespace Contract

open Parse

variable {K : Contract} {base s : ParseState} {ns : List Node} {r : Bool} {nested : Nested}

/-! ## One operand -/

section
variable (hn : K.Sound nested)
include hn

theorem updateBefore_reads {op : UpdateOp} (hs : K.Stands .ahead s) (hop : s.lookahead.updateOp? = some op) :
    K.Ensures (updateBefore nested s.lookahead op) s fun n t => K.Held .ahead true s (nodes n) t := by
  refine (K.start hs).skip (ParseState.not_arrow_of_some hop (fun _ => rfl)) fun t h =>
    h.read hn.unary.inherit fun operand u h => ?_
  refine h.settle (.checkUpdated _ _) fun _ v h =>
    h.nodeFrom (.inr ⟨0, rfl⟩) rfl (by simp [Kind.children]) (fun n w _ h => ?_)
  exact h.settle .nonPattern fun _ x h => h.give (by simp)

theorem update_reads : K.Reads (update nested) := by
  intro s hs
  refine .ahead ?_
  split
  next op hop => exact updateBefore_reads hn hs hop
  · refine (K.start hs).read (callChain_reads hn).inherit fun operand t h => .get (fun _ => rfl) ?_
    split
    next op hop =>
      refine .ite (fun _ => h.give (by simp)) fun _ => ?_
      refine Judgement.bind (Judgement.Settles.checkUpdated _ _ t) fun _ u hu => ?_
      refine Judgement.bind (Judgement.Settles.nonPattern u) fun _ v hv => ?_
      have ht := hu.trans hv
      exact (h.rests ht).skip (ht.not_arrow (ParseState.not_arrow_of_some hop (fun _ => rfl))) fun w h =>
        h.finishFrom (.inr ⟨0, rfl⟩) rfl (by simp [Kind.children])
    · exact h.give (by simp)

theorem await_reads (hs : K.Stands .ahead s) (hl : ¬ s.arrowAhead) :
    K.Ensures (await nested) s fun n t => K.Held .ahead true s (nodes n) t :=
  .mark ((K.start hs).skip hl fun t h => h.read hn.unary fun operand u h => h.finish rfl (by simp [Kind.children]))

theorem unary_reads : K.Reads (unary nested) := by
  intro s hs
  refine .ahead ?_
  split
  next op hop =>
    have hop : ¬ s.arrowAhead := fun harrow => by
      simp [Token.unaryOp?, Token.isPunctuator_iff.1 harrow, Punctuator.unaryOp?] at hop
    refine (K.start hs).skip hop fun t h => h.read hn.unary.inherit fun operand u h => ?_
    refine h.nodeFrom (.inr ⟨0, rfl⟩) rfl (by simp [Kind.children]) (fun n v _ h =>
      .isStrict (h.settleIf (.tolerateHere _) fun w h => ?_))
    exact h.settle .nonPattern fun _ x h => h.give (by simp)
  · refine .context (.ite (fun hawait => ?_) fun _ => update_reads hn s hs)
    rw [Bool.and_eq_true] at hawait
    exact await_reads hn hs (ParseState.not_arrow_of_word hawait.2)

theorem exponentiation_reads : K.Reads (exponentiation nested) := by
  intro s hs
  refine .ahead ((K.start hs).read (unary_reads hn).inherit fun left t h => .ite (fun _ => h.give (by simp))
    fun _ => ?_)
  refine h.accept (fun u h => .pos rfl ?_) fun _ => .neg nofun (h.give (by simp))
  refine h.settle .nonPattern fun _ v h => h.read hn.exponentiation.isolate fun right w h => ?_
  exact h.finishFrom (.inr ⟨0, rfl⟩) rfl (by simp [Kind.children])

end

/-! ## Binary operators -/

instance : HasNodes Pending := ⟨fun p => [p.left]⟩

theorem strengthOf_arrow {t : Token} (h : t.isPunctuator .arrow = true) : strengthOf s t = 0 := by
  rw [Token.isPunctuator_iff] at h
  simp only [strengthOf, h]
  exact Precedence.strength_of_not_mem rfl _

/-- The operand read last, which begins with the token `first`, with the operators that wait around it. -/
def Operands (K : Contract) (base : ParseState) (stack : List Pending) (right : Node) (first : Token)
    (s : ParseState) : Prop :=
  ∃ inner, inner.lookahead = first ∧ K.Held .ahead true inner [right] s ∧
    K.Around .ahead (fun p t => t.lookahead = p.first) base s inner stack

theorem Operands.held {stack : List Pending} {right : Node} {first : Token}
    (h : K.Operands base stack right first s) : K.Held .ahead true base [right] s := by
  obtain ⟨inner, -, held, around⟩ := h
  exact held.since around.steps

/-- Joining an operator takes it from the stack. -/
theorem joinOperands_operands {p : Pending} {stack : List Pending} {right : Node} {first : Token} {lineAbove : Nat}
    (h : K.Operands base (p :: stack) right first s) :
    K.Ensures (joinOperands p lineAbove right) s fun n t =>
      K.Operands base stack n p.first t ∧ t.lookahead = s.lookahead := by
  obtain ⟨inner, -, held, outer, steps, first, held', around⟩ := h
  unfold joinOperands
  split
  · refine K.mono ((held'.and (held.since steps)).finished (.inr ⟨lineAbove, by rw [first]⟩) rfl ?_) ?_
    · simp [Kind.children, nodes]
    · rintro n t ⟨held, moved, lookahead⟩
      exact ⟨⟨outer, first, held, around.step held.stands moved⟩, lookahead⟩
  · exact .failHere

theorem reduceWhile_operands {strength : Nat} : ∀ {stack : List Pending} {right : Node} {first : Token}
    {s : ParseState}, K.Operands base stack right first s →
    K.Ensures (reduceWhile strength stack right first) s fun p t =>
      K.Operands base p.1 p.2.1 p.2.2 t ∧ t.lookahead = s.lookahead
  | [], _, _, _, h => K.ofPure ⟨h, rfl⟩
  | p :: stack, right, first, s, h => by
    refine .ite (fun _ => Judgement.bind (joinOperands_operands h) ?_) fun _ => K.ofPure ⟨h, rfl⟩
    rintro n t ⟨h, lookahead⟩
    exact K.mono (reduceWhile_operands h) fun p u ⟨h, lookahead'⟩ => ⟨h, lookahead'.trans lookahead⟩

theorem reduceAll_held : ∀ {stack : List Pending} {right : Node} {first : Token} {s : ParseState},
    K.Operands base stack right first s →
    K.Ensures (reduceAll stack right first) s fun n t => K.Held .ahead true base (nodes n) t
  | [], _, _, _, h => h.held.give (by simp)
  | p :: stack, right, first, s, h =>
    Judgement.bind (joinOperands_operands h) fun n t ⟨h, _⟩ => reduceAll_held h

/-- What is read behind an operator becomes the operand read last. -/
theorem Operands.push {stack : List Pending} {left right : Node} {first operator : Token} {strength : Nat}
    {t u : ParseState} (h : K.Operands base stack left first s) (ht : K.Held .ahead true s [] t)
    (hu : K.Held .ahead true t [right] u) :
    K.Operands base (⟨left, first, operator, strength⟩ :: stack) right t.lookahead u := by
  obtain ⟨inner, first, held, around⟩ := h
  have steps : K.Steps s u := K.steps_trans ht.moved.steps hu.moved.steps
  refine ⟨t, rfl, hu, inner, K.steps_trans held.moved.steps ht.moved.steps, first, ?_, ?_⟩
  · exact held.step (q := false) hu.stands steps
  · exact around.step hu.stands steps

theorem binary_reads (hn : K.Sound nested) : K.Reads (binary nested) := by
  intro s hs
  let I (x : List Pending × Node × Token × LogicalMix) (t : ParseState) : Prop := K.Operands s x.1 x.2.1 x.2.2.1 t
  refine .ahead (Judgement.bind ((exponentiation_reads hn).inherit s hs) fun operand t h => ?_)
  refine Judgement.bind (P := I) (.loop (I := I) ⟨s, rfl, by simpa using h, steps_refl _⟩ ?_)
    fun (stack, right, last, _) u h => reduceAll_held h
  rintro ⟨stack, right, last, mix⟩ u h
  refine .get (fun _ => rfl) (.ite (fun _ => K.ofPure h) fun hstrength => .ite (fun _ => ?_) fun _ => ?_)
  · refine Judgement.bind (reduceWhile_operands h) fun (stack, left, leftFirst) v ⟨h, lookahead⟩ => ?_
    have harrow : ¬ v.arrowAhead := fun harrow => hstrength (strengthOf_arrow (lookahead ▸ harrow))
    refine (K.start h.held.stands).skip harrow fun w hw => hw.settle .nonPattern fun _ x hx => .ahead ?_
    exact Judgement.bind ((exponentiation_reads hn).isolate x hx.stands) fun right y hy => K.ofPure (h.push hx hy)
  · exact Judgement.bind (Judgement.Ensures.failAt (Q := fun _ _ => False)) fun _ _ => False.elim

theorem conditional_reads (hn : K.Sound nested) : K.Reads (conditional nested) := by
  intro s hs
  refine .ahead ((K.start hs).read (binary_reads hn).inherit fun test t h => h.accept (fun u h => .pos rfl ?_)
    fun _ => ?_)
  · refine h.read hn.assignment.isolate.withContext fun consequent v h => h.expect fun w h => ?_
    refine h.read hn.assignment.isolate fun alternate x h =>
      h.nodeFrom (.inr ⟨0, rfl⟩) rfl (by simp [Kind.children]) (fun n y _ h => ?_)
    exact h.settle .nonPattern fun _ z h => h.give (by simp)
  · exact .neg nofun (h.give (by simp))

end Contract

end EcmaTree
