import EcmaTree.Grammar.Assignment
import EcmaTree.Grammar.Declaration
import EcmaTree.Proofs.Grammar.Operators

/-!
# Assignments, arrow functions and variable declarations

Nothing can be told of an expression before the arrow of a function once the arrow is consumed. So what the arrow
makes parameters of must be firm before it.
-/

namespace EcmaTree

namespace Judgement.Settles

open Parse

variable {J : Judgement}

theorem checkAssignedName (first : Token) (target : Node) : J.Settles (do
    if ← Parse.isStrict then
      if let some name := target.identifierName? then
        if isRestricted name then Parse.tolerateWith first .strictAssignment
        if isStrictReserved name then Parse.tolerateWith first .strictReservedWord) := by
  refine .bind .isStrict fun _ => .ite ?_ (.pure _)
  split
  · have reserved {name : String} := Settles.ite (J := J) (c := isStrictReserved name = true)
      (.tolerateWith first .strictReservedWord) (.pure ())
    exact .ite (.bind (.tolerateWith _ _) fun _ => reserved) reserved
  · exact .pure _

theorem checkTarget (first : Token) (target : Node) : J.Settles (checkTarget first target) :=
  .get (fun _ => rfl) fun _ =>
    .ite (checkAssignedName first target) (.bind (.tolerateHere _) fun _ => checkAssignedName first target)

end Judgement.Settles

namespace Contract

open Parse

variable {K : Contract} {base s : ParseState} {nested : Nested}

/-! ## Arrow functions -/

/-- Consuming a token that may be an arrow. -/
theorem Closed.expectAny {β : Type} {Q : β → ParseState → Prop} {ns : List Node} {p : Punctuator} {f : Unit → Parse β}
    (h : K.Closed base ns s) (hf : ∀ t, K.Closed base ns t → K.Ensures (f ()) t Q) :
    K.Ensures (expect p >>= f) s Q := by
  rw [expect, bind_assoc]
  refine Judgement.bind (K.ofNext h.stands) ?_
  rintro _ t ⟨rfl, stands, later, -, -⟩
  have firm : ∀ n ∈ ns, K.Firm base n t := fun n hn => K.firm_later (h.firm n hn) later
  refine K.ofBind (.ite (fun _ => K.ofPure (hf t ⟨⟨stands, K.read_later h.moved later, ?_⟩, firm⟩)) fun _ => .failAt)
  exact fun n hn => K.good_of_firm (firm n hn)

theorem arrowBody_reads (hn : K.Sound nested) : K.Reads (arrowBody nested) := fun s hs =>
  .check (.ite (fun _ => (functionBody_closes hn).withContext.reads s hs) fun _ => hn.assignment.isolate s hs)

theorem arrowFunction_held (hn : K.Sound nested) {first : Token} {ps : Parameters} {async : Bool}
    (h : K.Closed base ps.params s) (hstart : base.Marks first.place) :
    K.Ensures (arrowFunction nested first ps async) s fun n t => K.Held .ahead true base (nodes n) t := by
  have rest {t : ParseState} (h : K.Closed base ps.params t) : K.Ensures (do
      expect .arrow
      let body ← arrowBody nested
      if ← isStrict then
        failOffender ps.cause ps.restricted
        tolerateOffender ps.cause ps.stricted
      finish first.place (.function .arrow none ps.params body false (!isBlock body) async)) t
        fun n u => K.Held .ahead true base (nodes n) u := by
    refine h.expectAny fun u h => h.toHeld.read (arrowBody_reads hn) fun body v h => .isStrict ?_
    refine .ite (fun _ => ?_) fun _ => h.finishFrom hstart rfl (by simp [Kind.children]; grind)
    exact h.settle (.failOffender _ _) fun _ w h => h.settle (.tolerateOffender _ _) fun _ x h =>
      h.finishFrom hstart rfl (by simp [Kind.children]; grind)
  refine .get (fun _ => rfl) (h.settleIf (.tolerateAt _) fun t h => h.settle (.modifyCover _)
    fun _ u h => .withContext ?_)
  exact fun v hv => K.mono (rest (h.rests hv)) fun n w h x hx => h.rests hx

/-! ## `yield` -/

theorem yieldArgument_passes (hn : K.Sound nested) : K.Passes (yieldArgument nested) := by
  intro s hs
  have argument : K.Passes (do
      if ← accept .star then return (some (← nested .assignment), true)
      else if beginsExpression s.dialect.jsx s.lookahead then return (some (← nested .assignment), false)
      else return ((none : Option Node), false)) := by
    intro t ht
    refine (K.start ht).accept (fun u h => .pos rfl (h.read hn.assignment fun e v h =>
      h.reading.give (by simp))) fun _ => ?_
    refine .neg nofun (.ite (fun _ => ?_) fun _ => (K.start ht).give (by simp))
    exact (K.start ht).read hn.assignment fun e u h => h.reading.give (by simp)
  exact .get (fun _ => rfl) (.ite (fun _ => (K.start hs).give (by simp)) fun _ => argument.withContext s hs)

theorem yieldExpression_reads (hn : K.Sound nested) : K.Reads (yieldExpression nested) := by
  intro s hs
  refine .mark ?_
  rw [expectKeyword, bind_assoc]
  refine take hs (.refl s) fun t h => K.ofBind (.ite (fun hyield => K.ofPure ?_) fun _ => .failAt)
  have h := h (ParseState.not_arrow_of_keyword hyield)
  have tells := h.tells _ (.word (.inl (Token.isName_of_isKeyword hyield)))
  rw [Token.text_of_isKeyword hyield] at tells
  refine Judgement.bind (yieldArgument_passes hn t h.stands) ?_
  rintro ⟨argument, delegate⟩ u hu
  have tells := K.tells_steps tells hu.moved.steps
  have h := h.toHeld.trans hu
  cases argument with
  | none => exact K.mono (h.leafFrom (.inl rfl) rfl tells) fun n v hn => hn.1.mono (by simp)
  | some argument => exact h.finish rfl (by simp [Kind.children])

/-! ## Assignments -/

theorem assignTo_held (hn : K.Sound nested) {first : Token} {target : Node} {op : AssignOp}
    (h : K.Held .ahead true base [target] s) (hstart : base.Marks first.place)
    (hop : s.lookahead.assignOp? = some op) :
    K.Ensures (assignTo nested first target op) s fun n t => K.Held .ahead true base (nodes n) t := by
  have rest {target : Node} {t : ParseState} (ht : s.Rests t) (h : K.Held .ahead true base [target] t) :
      K.Ensures (do
        skip
        let value ← isolate (nested .assignment)
        let node ← finish first.place (.assignment op target value)
        modifyCover ({ · with pending := none })
        return node) t fun n u => K.Held .ahead true base (nodes n) u := by
    refine h.skip (ht.not_arrow (ParseState.not_arrow_of_some hop (fun _ => rfl))) fun u h =>
      h.read hn.assignment.isolate ?_
    exact fun value v h => h.nodeFrom hstart rfl (by simp [Kind.children]) (fun n w _ h =>
      h.settle (.modifyCover _) fun _ x h => h.give (by simp))
  refine Judgement.bind (Judgement.Settles.checkTarget _ _ s) fun _ t ht => .ite (fun _ => .value ?_) fun _ => ?_
  · have firm : K.Firm base target t :=
      K.firm_of_not_arrow ((h.rests ht).good target (by simp))
        (ht.not_arrow (ParseState.not_arrow_of_some hop (fun _ => rfl)))
    exact rest ht ⟨(h.rests ht).stands, (h.rests ht).moved, by simpa using K.good_of_firm (K.firm_toPattern firm)⟩
  · refine Judgement.bind (Judgement.Settles.nonPattern t) fun _ u hu => .value ?_
    exact rest (ht.trans hu) (h.rests (ht.trans hu))

/-- Behind an expression that may be parameters. -/
theorem asyncParameter_held (hn : K.Sound nested) {first : Token} {e : Node} (h : K.Held .ahead true base [e] s) :
    K.Ensures (asyncParameter nested first e) s fun n t =>
      K.Held .ahead true base [] t ∧ K.BeforeArrow base n t := by
  refine .ahead (.ite (fun hname => ?_) fun _ => K.ofPure ⟨h.mono (by simp), .inl (h.good e (by simp))⟩)
  refine Judgement.bind (primary_closes hn h.stands (by simp_all)) fun param t ht => K.ofPure ?_
  have closed := h.closed ht
  refine ⟨closed.toHeld.mono (by simp), .inr ⟨_, _, rfl, ?_⟩⟩
  simpa using K.firm_toPattern (closed.firm param (by simp))

theorem BeforeArrow.rests {e : Node} {t : ParseState} (h : K.BeforeArrow base e s) (ht : s.Rests t) :
    K.BeforeArrow base e t := by
  have steps := K.steps_of_rests ht
  obtain he | ⟨params, async, he, firm⟩ := h
  · exact .inl (K.good_steps he steps)
  · exact .inr ⟨params, async, he, fun n hn => K.firm_later (firm n hn) (K.later_of_steps steps)⟩

theorem assignment_reads (hn : K.Sound nested) : K.Reads (assignment nested) := by
  intro s hs
  refine .ahead (.context (.ite (fun _ => ?_) fun _ => ?_))
  · exact yieldExpression_reads hn s hs
  refine (K.start hs).read (conditional_reads hn) fun e t h => ?_
  refine Judgement.bind (asyncParameter_held hn (h.mono (by simp))) ?_
  rintro e u ⟨h, before⟩
  have good (hwaiting : waitingFor? e = none) : K.Held .ahead true s [e] u := by
    refine ⟨h.stands, h.moved, ?_⟩
    obtain he | ⟨_, _, hkind, _⟩ := before
    · simpa using he
    · simp [waitingFor?, hkind] at hwaiting
  refine .check (.ite (fun _ => ?_) fun hno => .ahead ?_)
  · refine Judgement.bind (Judgement.Settles.nonPattern u) fun _ v hv => .ite (fun hno => ?_) fun _ => ?_
    · exact (good (by simp_all)).rests hv |>.give (by simp)
    refine Judgement.bind (arrowParameters_firm (before.rests hv)) ?_
    rintro ps _ ⟨rfl, firm⟩
    have closed : K.Closed s ps.params v :=
      ⟨⟨(h.rests hv).stands, (h.rests hv).moved, fun n hn => K.good_of_firm (firm n hn)⟩, firm⟩
    exact arrowFunction_held hn closed (.inr ⟨0, rfl⟩)
  · have waiting : waitingFor? e = none := by simp_all
    split
    next op hop => exact assignTo_held hn (good waiting) (.inr ⟨0, rfl⟩) hop
    · exact (good waiting).give (by simp)

end Contract

end EcmaTree

/-! ## Variable declarations -/

namespace EcmaTree

namespace Judgement.Settles

open Parse

variable {J : Judgement}

theorem checkBound (target : Node) : J.Settles (checkBound target) :=
  .bind .isStrict fun _ => .ite (.tolerateHere _) (.pure _)

theorem checkLet : J.Settles checkLet := .bind .second fun _ => .pure _

end Judgement.Settles

namespace Contract

open Parse

variable {K : Contract} {base s : ParseState} {ns : List Node} {nested : Nested} (hn : K.Sound nested)

section
include hn

/-! ## Bindings -/

theorem initializer_reads : K.Reads (initializer nested) := fun _ hs =>
  (K.start hs).expect fun t h => h.read hn.assignment.isolate fun value u h => h.give (by simp)

theorem varBinding_reads (inHead : Bool) : K.Reads (varBinding nested inHead) := by
  intro s hs
  refine .mark ((K.start hs).read (pattern_reads hn _) fun (target, names) t h => ?_)
  refine h.settle (.checkBound _) fun _ u h =>
    .check (.ite (fun _ => ?_) fun _ => .value (h.finish rfl (by simp [Kind.children])))
  exact h.read (initializer_reads hn) fun init v h => h.finish rfl (by simp [Kind.children]; grind)

theorem constInitializer_passes : K.Passes (constInitializer nested) := by
  intro s hs
  refine .ahead (.ite (fun _ => (K.start hs).give (by simp)) fun _ => .ite (fun _ => ?_) fun _ => .failHere)
  exact K.mono (initializer_reads hn s hs) fun _ _ h => h.reading

theorem lexicalBinding_reads (kind : VariableKind) (inHead : Bool) : K.Reads (lexicalBinding nested kind inHead) := by
  intro s hs
  refine .mark ((K.start hs).read (pattern_reads hn _) fun (target, names) t h => ?_)
  refine h.settle (.checkBound _) fun _ u h => .check (.ite (fun _ => ?_) fun _ => .ite (fun _ => ?_) fun _ =>
    .value (h.finish rfl (by simp [Kind.children])))
  · exact h.pass (constInitializer_passes hn) fun init v h => h.finish rfl (by simp [Kind.children]; grind)
  · exact h.read (initializer_reads hn) fun init v h => h.finish rfl (by simp [Kind.children]; grind)

theorem bindings_reads (kind : VariableKind) (inHead : Bool) : K.Reads (bindings nested kind inHead) := by
  refine commaSeparated_reads ?_
  split
  · exact varBinding_reads hn inHead
  · exact lexicalBinding_reads hn kind inHead

/-! ## Declarations -/

theorem varStatement_reads : K.Reads (varStatement nested) := by
  intro s hs
  refine .mark ((K.start hs).expectKeyword fun t h => h.read (bindings_reads hn _ _) fun declarations u h => ?_)
  exact h.pass endStatement_passes fun _ v h => h.finish rfl (by simp [Kind.children])

omit hn in
/-- The word is consumed. -/
theorem declarationWord_took (hs : K.Stands .ahead s) :
    K.Ensures declarationWord s fun kind t => K.Took s s.lookahead t ∧ s.lookahead.text = kind.text := by
  refine take hs (.refl s) fun t h => ?_
  split
  next kind hkind =>
    refine K.ofPure ⟨h (ParseState.not_arrow_of_some (f := fun t => VariableKind.ofText? t.text) hkind
      (fun _ => rfl)), ?_⟩
    exact Eq.symm (by simpa using List.find?_some hkind)
  · exact .failAt

theorem lexicalDeclaration_reads : K.Reads (lexicalDeclaration nested) := by
  intro s hs
  refine .mark (Judgement.bind (declarationWord_took hs) fun kind t ⟨h, _⟩ => ?_)
  refine h.toHeld.read (bindings_reads hn _ _) fun declarations u h => ?_
  exact h.pass endStatement_passes fun _ v h => h.finish rfl (by simp [Kind.children])

end

end Contract

end EcmaTree
