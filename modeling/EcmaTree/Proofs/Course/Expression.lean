import EcmaTree.Proofs.Course.Function
import EcmaTree.Proofs.Course.Jsx

/-!
# Expressions

A template, a group and a literal begin with a token of their own, and so do the expressions in them. No operand and
no link nests anything before it has consumed a token. The bodies and the arguments that come behind such a token nest
at once.
-/

namespace EcmaTree.Course

open Parse

variable {text : String} {n : Nat} {nested : Nested} {s : ParseState}

/-! ## Templates -/

theorem templateElement_reads (tagged : Bool) : Reads text n (templateElement tagged) := fun s h => by
  refine .ahead ?_
  split
  next chunk hl =>
    refine .mark (h.next fun t _ ht => ?_)
    have h := ht (by simp [Token.isEnd, hl])
    split
    · exact h.settleUnless (.failWith _ _) fun u h => h.node rfl fun _ _ h => h.give
    · exact h.node rfl fun _ _ h => h.give
  · exact .failHere

section
variable (hn : Sound text n nested)
include hn

theorem template_reads (tagged : Bool) : Reads text (n + 1) (template nested tagged) := fun s h => by
  refine .mark (h.read (templateElement_reads tagged) fun (first, isTail) t h => ?_)
  refine h.nest (.loop fun (quasis, expressions, isTail) u h => ?_) fun (quasis, expressions, isTail) u h =>
    h.finish rfl
  refine .ite (fun _ => Judgement.ending.ofPure h) fun _ => h.read (expression_reads hn.assignment) fun e v h => ?_
  exact h.read (templateElement_reads tagged) fun (quasi, isTail) w h => Judgement.ending.ofPure h

/-! ## Parentheses -/

omit hn in
theorem requireArrow_passes : Passes text n requireArrow := fun _ h =>
  .check (.ite (fun _ => h.give) fun _ => h.last Leads.expect.reading)

theorem groupRest_reads : Reads text (n + 1) (groupRest nested) := fun _ h =>
  h.read (finalRest_reads hn _ _) fun (_, _) _ h => h.expect fun _ h => h.pass requireArrow_passes fun _ _ h => h.give

theorem groupItems_passes (first : Node) : Passes text n (groupItems nested first) := fun s h => by
  refine h.settle (.modifyCover _) fun _ t h => h.pass (.loop fun (items, isParameters) u h => ?_)
    fun (items, isParameters) u h => h.give
  refine h.accept (fun v h => .neg nofun ?_) (.pos rfl (Judgement.ending.ofPure h))
  refine h.accept (fun w h => .pos rfl (Judgement.ending.ofPure h.reading))
    (.neg nofun (.check (.ite (fun _ => ?_) fun _ => ?_)))
  · refine .get (fun _ => rfl) (h.settleUnless .failAhead fun w h => h.read (groupRest_reads hn).weaken
      fun rest x h => ?_)
    exact h.settle (.modifyCover _) fun _ y h => Judgement.ending.ofPure h.reading
  · exact h.read hn.assignment.inherit fun item w h => Judgement.ending.ofPure h

omit hn in
theorem closeGroup_reads (e : Node) : Reads text n (closeGroup e) := fun s h => by
  have closed {result : Node} {t : ParseState} (h : Held text n .ahead true (s.site .ahead) t) : Ends (do
      modifyCover ({ · with isBindingElement := false })
      return result) t fun _ u => Held text n .ahead true (s.site .ahead) u :=
    h.settle (.modifyCover _) fun _ u h => h.give
  refine h.expect fun t h => .check (.ite (fun _ => .ite (fun _ => .value (closed h)) fun _ => ?_) fun _ =>
    .value (closed h))
  exact .get (fun _ => rfl) (h.settleUnless .failAhead fun u h => .value (closed h))

theorem groupContents_reads : Reads text n (groupContents nested) := fun s h => by
  refine .ahead (h.settle (.modifyCover _) fun _ t h => h.read hn.assignment.inherit fun first u h => .check ?_)
  refine .ite (fun _ => ?_) fun _ => h.last (closeGroup_reads first)
  refine h.pass (groupItems_passes hn first) fun (items, isParameters) v h => .ite (fun _ => h.give) fun _ => ?_
  exact h.node rfl fun e w h => h.last (closeGroup_reads e)

theorem group_reads : Reads text (n + 1) (group nested) := fun s h => by
  refine h.expect fun t h => h.accept (fun u h => .pos rfl ?_) (.neg nofun (.check (.ite (fun _ => ?_) fun _ => ?_)))
  · exact h.pass requireArrow_passes fun _ v h => h.give
  · exact h.read (groupRest_reads hn) fun rest u h => h.give
  · exact h.nestLast (groupContents_reads hn)

/-! ## `import` -/

omit hn in
theorem importCallee_reads : Reads text n importCallee := fun _ h =>
  .mark (h.expectKeyword fun _ h => h.finish rfl)

omit hn in
theorem importMeta_reads : Reads text n importMeta := fun s h => by
  refine .mark (h.read identifierName_reads fun owner t h => h.expect fun u h => h.read identifierName_reads
    fun field v h => ?_)
  exact h.settle (.modifyCover _) fun _ w h => h.finish rfl

/-! ## Primary expressions -/

section
variable (hend : s.lookahead.isEnd = false)
include hend

omit hn in
theorem literal_reads (h : Held text n .ahead false (s.site .ahead) s) :
    Ends literal s fun _ t => Held text n .ahead true (s.site .ahead) t := by
  have consumed {t : ParseState} (ht : t.lookahead = s.lookahead)
      (h : Held text n .ahead false (s.site .ahead) t) : Ends (do
      nonPattern
      skip
      finish s.start.place (literalOf s.lookahead)) t fun _ u => Held text n .ahead true (s.site .ahead) u := by
    refine h.settleAhead .nonPattern fun _ u hu h => h.skip (by rw [hu, ht, hend]) fun v h => h.finish rfl
  refine .mark (.ahead (.isStrict (.ite (fun _ => ?_) fun _ => consumed rfl h)))
  exact h.settleAhead (.tolerateWith _ _) fun _ t ht h => consumed ht h

theorem nameExpression_reads (h : Held text (n + 1) .ahead false (s.site .ahead) s) :
    Ends (nameExpression nested) s fun _ t => Held text (n + 1) .ahead true (s.site .ahead) t := by
  have rest {t : ParseState} (ht : t.lookahead = s.lookahead)
      (h : Held text (n + 1) .ahead false (s.site .ahead) t) : Ends (do
      if ← checkAsyncFunction then functionExpression nested
      else
        let t ← next
        finish s.start.place (.identifier t.text)) t fun _ u => Held text (n + 1) .ahead true (s.site .ahead) u := by
    refine h.settleAhead .checkAsyncFunction fun b u hu h => .ite (fun _ => h.last (function_reads hn _ _)) fun _ => ?_
    exact h.next fun v _ hv => (hv (by rw [hu, ht, hend])).finish rfl
  refine .mark (.ahead (.context (.ite (fun _ => ?_) fun _ => rest rfl h)))
  exact h.settleAhead (.tolerateAt _) fun _ t ht h => rest ht h

end

omit hn in
theorem regexLiteral_reads (h : Held text n .ahead false (s.site .ahead) s)
    (hslash : (s.lookahead.isPunctuator .slash || s.lookahead.isPunctuator .divAssign) = true) :
    Ends regexLiteral s fun _ t => Held text n .ahead true (s.site .ahead) t := by
  refine .mark (h.settleAhead .nonPattern fun _ t ht h => ?_)
  rw [← ht] at hslash
  refine Judgement.bind (.regex (show t.Sited (.ofString text) from h.stands.placed) hslash) ?_
  rintro _ u ⟨v, hv, -, hu⟩
  obtain ⟨stands, lt⟩ := h.stands.regex hv hu
  have read : Held text n .ahead true (t.site .ahead) u := ⟨stands, lt, h.self.room⟩
  exact Held.finish (by simpa using h.trans read) rfl

omit hn in
theorem noExpression_reads : Reads text n noExpression := fun _ h => h.next fun _ _ _ => .failAt

theorem keywordExpression_reads : Reads text (n + 1) (keywordExpression nested) := fun s h => by
  refine .mark (.ahead (.context (.ite (fun _ => h.last identifierName_reads) fun _ =>
    .ite (fun hlet => ?_) fun _ => ?_)))
  · have word : s.lookahead.isKeyword "let" = true := by simp_all
    exact h.skip (not_end_of (f := (·.isKeyword "let")) word fun _ => rfl) fun t h => h.finish rfl
  refine h.settleAhead .nonPattern fun _ t ht h => .ite (fun _ => h.last (function_reads hn _ _)) fun _ => ?_
  refine .ite (fun word => ?_) fun _ => .ite (fun _ => h.last (classOf_reads hn _ _)) fun _ => ?_
  · rw [← ht] at word
    exact h.skip (not_end_of (f := (·.isKeyword "this")) word fun _ => rfl) fun u h => h.finish rfl
  refine h.settle .checkImportCall fun b u h => .ite (fun _ => h.last importCallee_reads) fun _ => ?_
  refine h.settle .checkImportMeta fun b v h => .ite (fun _ => ?_) fun _ => h.last noExpression_reads
  exact h.settleUnless (.tolerateWith _ _) fun w h => h.last importMeta_reads

theorem primary_reads : Reads text (n + 1) (primary nested) := fun s h => by
  refine .ahead (.get (fun _ => rfl) (.ite (fun _ => h.last (jsxExpression_reads hn)) fun _ => ?_))
  split
  next hl => exact nameExpression_reads hn (by simp [Token.isEnd, hl]) h
  next hl => exact literal_reads (by simp [Token.isEnd, hl]) h
  next hl => exact literal_reads (by simp [Token.isEnd, hl]) h
  next hl => exact literal_reads (by simp [Token.isEnd, hl]) h
  next hl => exact literal_reads (by simp [Token.isEnd, hl]) h
  · exact h.last (template_reads hn false)
  · exact h.settle (.modifyCover _) fun _ t h => h.last (group_reads hn).inherit
  · exact h.last (arrayLiteral_reads hn).inherit
  · exact h.last (objectLiteral_reads hn).inherit
  next hl => exact regexLiteral_reads h (by simp [Token.isPunctuator, hl])
  next hl => exact regexLiteral_reads h (by simp [Token.isPunctuator, hl])
  · exact h.last (keywordExpression_reads hn)
  · exact h.last noExpression_reads

end

end EcmaTree.Course

/-! ## Chains, operators and assignments -/

namespace EcmaTree.Course

open Parse

variable {text : String} {n : Nat} {nested : Nested} {s : ParseState} {base : Nat} {r : Bool}

section
variable (hn : Sound text n nested)
include hn

/-! ## Arguments and chains -/

theorem argument_reads (maybeParameter : Bool) : Reads text n (argument nested maybeParameter) := fun s h => by
  have isolated : Reads text n (do
      let e ← nested .assignment
      if maybeParameter then modifyCover ({ · with pending := none })
      return e) := fun t h =>
    h.read hn.assignment fun e u h => h.settleIf (.modifyCover _) fun v h => h.give
  exact .check (.ite (fun _ => h.last (spread_reads hn).weaken) fun _ => h.last isolated.isolate)

theorem arguments_reads (maybeParameters : Bool) : Reads text (n + 1) (arguments nested maybeParameters) :=
  fun s h => by
  refine h.expect fun t h => .check (.ite (fun _ => .value (h.expect fun u h => h.give)) fun _ => ?_)
  refine h.nest (.loop fun args u h => ?_) fun args u h => h.expect fun v h => h.give
  refine h.read (argument_reads hn _) fun arg v h =>
    .check (.ite (fun _ => Judgement.ending.ofPure h.reading) fun _ => ?_)
  refine h.pass .expectSeparator fun _ w h => .check ?_
  exact .ite (fun _ => Judgement.ending.ofPure h.reading) fun _ => Judgement.ending.ofPure h

theorem newExpression_reads : Reads text (n + 1) (newExpression nested) := fun s h => by
  refine .mark (h.read identifierName_reads fun word t h =>
    h.accept (fun u h => .pos rfl (.ahead (.context ?_))) (.neg nofun ?_))
  · exact .ite (fun _ => h.read identifierName_reads fun field v h => h.finish rfl) fun _ => .failAhead
  refine .checkKeyword (.ite (fun _ => .failAhead) fun _ => h.nest hn.callee.isolate fun callee u h => .check ?_)
  refine .ite (fun _ => h.read (arguments_reads hn _) fun args v h => ?_) fun _ => .value ?_
  · exact h.settle .nonPattern fun _ w h => h.finish rfl
  · exact h.settle .nonPattern fun _ v h => h.finish rfl

theorem chainBase_reads : Reads text (n + 1) (chainBase nested) := fun _ h =>
  .checkKeyword (.ite (fun _ => h.last (newExpression_reads hn).inherit) fun _ => h.last (primary_reads hn).inherit)

omit hn in
theorem superBase_reads (allowsCall : Bool) : Reads text n (superBase allowsCall) := fun s h => by
  refine .mark (h.expectKeyword fun t h => .check (.check (.check (.ite (fun _ => ?_) fun _ => ?_))))
  · exact h.node rfl fun _ u h => .ite (fun _ => h.give) fun _ => .failAhead
  · exact .ite (fun _ => h.finish rfl) fun _ => .failAhead

theorem chainHead_reads (isSuper allowsCall : Bool) :
    Reads text (n + 1) (chainHead nested isSuper allowsCall) := fun _ h =>
  .context (.ite (fun _ => h.last (superBase_reads _)) fun _ => h.last (chainBase_reads hn))

/-- A link consumes something, if there is one. -/
theorem link_ends {start : Place} {c : Chain} {optional : Bool} (h : Held text (n + 1) .ahead false base s) :
    Ends (link nested start c optional) s fun e t => Held text (n + 1) .ahead e.isSome base t := by
  refine .ahead (.ite (fun hleft => ?_) fun _ => .ite (fun _ => ?_) fun _ => .ite (fun _ => ?_)
    fun _ => Judgement.ending.ofPure h)
  · refine h.settleAhead (.modifyCover _) fun _ t ht h => ?_
    refine h.skip (Token.isEnd_of_isPunctuator (by rw [ht, hleft])) fun u h => ?_
    refine h.nest (expression_reads hn.assignment).isolate fun field v h => h.expect fun w h => ?_
    exact h.node rfl fun _ _ h => Judgement.ending.ofPure h
  · refine h.settleIf .failAhead fun t h => h.settleIf (.failHere _) fun u h =>
      h.read (template_reads hn true) fun quasi v h => ?_
    exact h.node rfl fun _ _ h => Judgement.ending.ofPure h
  · have field {t : ParseState} (h : Held text (n + 1) .ahead false base t) : Ends (do
        let field ← identifierName
        return some (← finish start (.member c.expression field false optional))) t
          fun e u => Held text (n + 1) .ahead e.isSome base u :=
      h.read identifierName_reads fun field u h => h.node rfl fun _ _ h => Judgement.ending.ofPure h
    refine h.settle (.modifyCover _) fun _ t h => .ite (fun _ => field h) fun _ => ?_
    exact h.expect fun u h => field h.reading

theorem goOn_round {start : Place} {c : Chain} {optional : Bool} (h : Held text (n + 1) .ahead false base s) :
    Ends (goOn nested start c optional) s (Leads.Round text (n + 1) .ahead base) := by
  refine Judgement.bind (link_ends hn h) fun e t h => ?_
  cases e with
  | some e => exact Judgement.ending.ofPure h
  | none => exact Judgement.ending.ofPure h

omit hn in
theorem finishChain_passes (start : Place) (c : Chain) : Passes text n (finishChain start c) := fun _ h =>
  .ite (fun _ => h.finish rfl) fun _ => h.give

theorem callee_reads : Reads text (n + 1) (callee nested) := fun s h => by
  refine .ahead (.checkKeyword (h.read (chainHead_reads hn _ _) fun first t h => ?_))
  refine h.pass (.loop fun c u h => ?_) fun c u h => h.last (finishChain_passes _ _)
  exact h.accept (fun v h => goOn_round hn h.reading) (goOn_round hn h)

theorem call_reads (first : Token) (c : Chain) (optional : Bool) : Reads text (n + 1) (call nested first c optional) :=
    fun s h => by
  refine .ahead (h.settle .nonPattern fun _ t h => h.read (arguments_reads hn _) fun args u h => ?_)
  exact h.settleIf (.tolerateHere _) fun v h => .check (.ite (fun _ => h.give) fun _ => h.finish rfl)

theorem chainFrom_reads (first : Token) : Reads text (n + 1) (chainFrom nested first) := fun s h => by
  refine h.read (chainHead_reads hn _ _) fun head t h => .check (.context (h.settleIf (.tolerateHere _) fun u h => ?_))
  refine h.pass (.loop fun c v h => ?_) fun c v h => h.last (finishChain_passes _ _)
  have round {optional : Bool} {w : ParseState} (h : Held text (n + 1) .ahead false (v.site .ahead) w) : Ends (do
      if ← check .leftParen then
        return .more { c.after optional with expression := ← call nested first (c.after optional) optional }
      else goOn nested first.place (c.after optional) optional) w
        (Leads.Round text (n + 1) .ahead (v.site .ahead)) := by
    refine .check (.ite (fun _ => ?_) fun _ => goOn_round hn h)
    exact h.read (call_reads hn _ _ _) fun e x h => Judgement.ending.ofPure h
  exact h.accept (fun w h => round h.reading) (round h)

theorem callChain_reads : Reads text (n + 1) (callChain nested) := fun _ h =>
  .ahead (h.last (chainFrom_reads hn _).withContext)

/-! ## Operators -/

theorem updateBefore_reads {op : UpdateOp} (h : Held text (n + 1) .ahead false (s.site .ahead) s)
    (hop : s.lookahead.updateOp? = some op) :
    Ends (updateBefore nested s.lookahead op) s fun _ t => Held text (n + 1) .ahead true (s.site .ahead) t := by
  refine h.skip (not_end_of (f := fun t => t.updateOp?.isSome) (by simp [hop]) fun _ => rfl) fun t h => ?_
  refine h.nest hn.unary.inherit fun operand u h => h.settle (.checkUpdated _ _) fun _ v h => ?_
  exact h.node rfl fun _ w h => h.settle .nonPattern fun _ x h => h.give

theorem update_reads : Reads text (n + 1) (update nested) := fun s h => by
  refine .ahead ?_
  split
  next hop => exact updateBefore_reads hn h hop
  refine h.read (callChain_reads hn).inherit fun operand t h => .get (fun _ => rfl) ?_
  split
  · refine .ite (fun _ => h.give) fun _ => h.settle (.checkUpdated _ _) fun _ u h =>
      h.settle .nonPattern fun _ v h => ?_
    exact h.pass .skip fun _ w h => h.finish rfl
  · exact h.give

theorem unary_reads : Reads text (n + 1) (unary nested) := fun s h => by
  refine .ahead ?_
  split
  next op hop =>
    refine h.skip (not_end_of (f := fun t => t.unaryOp?.isSome) (by simp [hop]) fun _ => rfl) fun t h => ?_
    refine h.nest hn.unary.inherit fun operand u h => h.node rfl fun _ v h => .isStrict ?_
    exact h.settleIf (.tolerateHere _) fun w h => h.settle .nonPattern fun _ x h => h.give
  · refine .context (.ite (fun hawait => .mark ?_) fun _ => h.last (update_reads hn))
    have word : s.lookahead.isIdentifierNamed "await" = true := by simp_all
    refine h.skip (not_end_of (f := (·.isIdentifierNamed "await")) word fun _ => rfl) fun t h => ?_
    exact h.nest hn.unary fun operand u h => h.finish rfl

theorem exponentiation_reads : Reads text (n + 1) (exponentiation nested) := fun s h => by
  refine .ahead (h.read (unary_reads hn).inherit fun left t h => .ite (fun _ => h.give) fun _ => ?_)
  refine h.accept (fun u h => .pos rfl (h.settle .nonPattern fun _ v h => ?_)) (.neg nofun h.give)
  exact h.nest hn.exponentiation.isolate fun right w h => h.finish rfl

omit hn in
theorem joinOperands_passes (p : Pending) (lineAbove : Nat) (right : Node) :
    Passes text n (joinOperands p lineAbove right) :=
    fun s h => by
  unfold joinOperands
  split
  · exact h.finish rfl
  · exact .failHere

omit hn in
theorem reduceWhile_passes (strength : Nat) (stack : List Pending) (right : Node) (first : Token) :
    Passes text n (reduceWhile strength stack right first) := by
  induction stack generalizing right first with
  | nil => exact fun s h => h.give
  | cons p stack ih =>
    exact fun s h => .ite (fun _ => h.pass (joinOperands_passes _ _ _) fun e t h => h.last (ih e p.first))
      fun _ => h.give

omit hn in
theorem reduceAll_passes (stack : List Pending) (right : Node) (first : Token) :
    Passes text n (reduceAll stack right first) := by
  induction stack generalizing right first with
  | nil => exact fun s h => h.give
  | cons p stack ih => exact fun s h => h.pass (joinOperands_passes _ _ _) fun e t h => h.last (ih e p.first)

theorem binary_reads : Reads text (n + 1) (binary nested) := fun s h => by
  refine .ahead (h.read (exponentiation_reads hn).inherit fun operand t h => ?_)
  refine h.pass (.loop fun (stack, right, last, mix) u h => .get (fun _ => rfl) ?_)
    fun (stack, right, last, mix) u h => h.last (reduceAll_passes _ _ _)
  refine .ite (fun _ => Judgement.ending.ofPure h) fun _ => h.settleUnless (.failAt _) fun v h => ?_
  refine h.pass (reduceWhile_passes _ _ _ _) fun (stack, left, leftFirst) w h => h.pass .skip fun _ x h => ?_
  refine h.settle .nonPattern fun _ y h => .ahead ?_
  exact h.read (exponentiation_reads hn).isolate fun right z h => Judgement.ending.ofPure h

theorem conditional_reads : Reads text (n + 1) (conditional nested) := fun s h => by
  refine .ahead (h.read (binary_reads hn).inherit fun test t h => h.accept (fun u h => .pos rfl ?_) (.neg nofun h.give))
  refine h.nest hn.assignment.isolate.withContext fun consequent v h => h.expect fun w h => ?_
  refine h.nest hn.assignment.isolate fun alternate x h => h.node rfl fun _ y h => ?_
  exact h.settle .nonPattern fun _ z h => h.give

/-! ## Arrow functions -/

theorem arrowBody_reads : Reads text n (arrowBody nested) := fun _ h =>
  .check (.ite (fun _ => h.last (functionBody_reads hn).weaken.withContext) fun _ => h.last hn.assignment.isolate)

theorem arrowFunction_reads (first : Token) (ps : Parameters) (async : Bool) :
    Reads text (n + 1) (arrowFunction nested first ps async) := fun s h => by
  have body : Reads text (n + 1) (do
      expect .arrow
      let body ← arrowBody nested
      if ← isStrict then
        failOffender ps.cause ps.restricted
        tolerateOffender ps.cause ps.stricted
      finish first.place (.function .arrow none ps.params body false (!isBlock body) async)) := fun t h => by
    refine h.expect fun u h => h.nest (arrowBody_reads hn) fun body v h =>
      .isStrict (.ite (fun _ => ?_) fun _ => h.finish rfl)
    exact h.settle (.failOffender _ _) fun _ w h => h.settle (.tolerateOffender _ _) fun _ x h => h.finish rfl
  refine .get (fun _ => rfl) (h.settleIf (.tolerateAt _) fun t h => h.settle (.modifyCover _) fun _ u h => ?_)
  exact h.last body.withContext

/-! ## Assignments -/

theorem yieldArgument_passes : Passes text n (yieldArgument nested) := fun s h => by
  refine .get (fun _ => rfl) (.ite (fun _ => h.give) fun _ => ?_)
  have argument : Passes text n (do
      if ← accept .star then return (some (← nested .assignment), true)
      else if beginsExpression s.dialect.jsx s.lookahead then return (some (← nested .assignment), false)
      else return (none, false)) := fun t h => by
    refine h.accept (fun u h => .pos rfl ?_) (.neg nofun (.ite (fun _ => ?_) fun _ => h.give))
    · exact h.read hn.assignment fun e v h => h.reading.give
    · exact h.read hn.assignment fun e v h => h.reading.give
  exact h.last argument.withContext

theorem assignTo_passes (first : Token) (target : Node) (op : AssignOp) :
    Passes text n (assignTo nested first target op) :=
    fun s h => by
  have rest {target : Node} {t : ParseState} (h : Held text n .ahead false (s.site .ahead) t) : Ends (do
      skip
      let value ← isolate (nested .assignment)
      let node ← finish first.place (.assignment op target value)
      modifyCover ({ · with pending := none })
      return node) t fun _ u => Held text n .ahead false (s.site .ahead) u := by
    refine h.pass .skip fun _ u h => h.pass hn.assignment.isolate.reading fun value v h => h.node rfl fun _ w h => ?_
    exact h.settle (.modifyCover _) fun _ x h => h.give
  refine h.settle (.checkTarget _ _) fun _ t h => .ite (fun _ => .value (rest h)) fun _ => ?_
  exact h.settle .nonPattern fun _ u h => .value (rest h)

theorem asyncParameter_passes (first : Token) (e : Node) :
    Passes text (n + 1) (asyncParameter nested first e) := fun s h => by
  refine .ahead (.ite (fun _ => ?_) fun _ => h.give)
  exact h.pass (primary_reads hn).reading fun param t h => h.give

theorem assignment_reads : Reads text (n + 1) (assignment nested) := fun s h => by
  refine .ahead (.context (.ite (fun _ => .mark (h.expectKeyword fun t h => ?_)) fun _ => ?_))
  · exact h.nest (yieldArgument_passes hn) fun (argument, delegate) u h => h.finish rfl
  refine h.read (conditional_reads hn) fun e t h => h.pass (asyncParameter_passes hn _ e) fun e u h => .check ?_
  refine .ite (fun _ => h.settle .nonPattern fun _ v h => .ite (fun _ => h.give) fun _ => ?_) fun _ => .ahead ?_
  · exact h.pass (arrowParameters_passes e) fun ps w h => h.last (arrowFunction_reads hn _ ps _)
  · split
    · exact h.nestLast (assignTo_passes hn _ e _)
    · exact h.give

end

end EcmaTree.Course
