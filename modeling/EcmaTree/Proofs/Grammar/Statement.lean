import EcmaTree.Grammar.Statement
import EcmaTree.Proofs.Grammar.Iteration

/-!
# Statements
-/

namespace EcmaTree

namespace Judgement.Settles

open Parse

variable {J : Judgement}

theorem checkDistinct (names : List Token) : ∀ seen, J.Settles (checkDistinct seen names) := by
  induction names with
  | nil => exact fun _ => .pure _
  | cons t names ih => exact fun seen => .ite (.bind (.tolerateHere _) fun _ => ih _) (ih _)

end Judgement.Settles

namespace Contract

open Parse

variable {K : Contract} {base s : ParseState} {ns : List Node} {r : Bool} {nested : Nested}

theorem Held.acceptKeyword {β : Type} {Q : β → ParseState → Prop} {word : String} {f : Bool → Parse β}
    (h : K.Held .ahead r base ns s) (hyes : ∀ t, K.Held .ahead true base ns t → K.Ensures (f true) t Q)
    (hno : K.Ensures (f false) s Q) : K.Ensures (acceptKeyword word >>= f) s Q := by
  rw [Parse.acceptKeyword, bind_assoc]
  refine .checkKeyword ?_
  split
  next hs =>
    rw [bind_assoc]
    exact h.skip (ParseState.not_arrow_of_keyword hs) fun t ht => .value (hyes t ht)
  next => exact .value hno

section
variable (hn : K.Sound nested)
include hn

theorem block_reads : K.Reads (block nested) := by
  intro s hs
  refine .mark ((K.start hs).expect fun t h => h.pass (itemsBefore_leads hn.listItem) fun body u h => ?_)
  exact h.expect fun v h => h.finish rfl (by simp [Kind.children])

omit hn in
theorem emptyStatement_reads : K.Reads emptyStatement := fun _ hs =>
  .mark ((K.start hs).expect fun t h => h.finish rfl (by simp [Kind.children]))

theorem expressionStatement_reads : K.Reads (expressionStatement nested) := by
  intro s hs
  refine .mark ((K.start hs).read (expression_reads hn) fun e t h => ?_)
  exact h.pass endStatement_passes fun _ u h => h.finish rfl (by simp [Kind.children])

/-! ## Choices -/

theorem branch_reads : K.Reads (branch nested) := fun _ hs =>
  .isStrict (.checkKeyword ((K.start hs).settleIf (.tolerateHere _) fun _ h => h.last hn.statement))

theorem ifStatement_reads : K.Reads (ifStatement nested) := by
  intro s hs
  refine .mark ((K.start hs).expectKeyword fun t h => h.expect fun u h => h.read (expression_reads hn)
    fun test v h => ?_)
  refine h.missingParen ⟨_, rfl⟩ ?_ fun empty w h => h.finish rfl (by simp [Kind.children])
  refine h.expect fun w h => h.read (branch_reads hn) fun consequent x h => h.acceptKeyword (fun y h => ?_) ?_
  · exact h.read (branch_reads hn) fun alternate z h => .value (h.finish rfl (by simp [Kind.children]))
  · exact .value (h.finish rfl (by simp [Kind.children]))

theorem withStatement_reads : K.Reads (withStatement nested) := by
  have statement : K.Reads (do
      let start ← mark
      expectKeyword "with"
      expect .leftParen
      let scope ← expression nested
      let body ← bodyAfterParen (nested .statement)
      finish start (.withStatement scope body)) := by
    intro s hs
    refine .mark ((K.start hs).expectKeyword fun t h => h.expect fun u h => h.read (expression_reads hn) ?_)
    exact fun scope v h => h.read (bodyAfterParen_reads hn.statement) fun body w h =>
      h.finish rfl (by simp [Kind.children])
  exact fun s hs => .isStrict ((K.start hs).settleIf (.tolerateHere _) fun t h => h.last statement)

theorem switchCase_reads : K.Reads (switchCase nested) := by
  intro s hs
  have rest {test : Option Node} {t : ParseState} (h : K.Held .ahead true s test.toList t) : K.Ensures (do
      expect .colon
      let consequent ← manyBefore atCaseEnd (nested .listItem)
      return (← finish s.start.place (.switchCase test consequent), test.isNone)) t
        fun p u => K.Held .ahead true s (nodes p) u :=
    h.expect fun u h => h.pass (manyBefore_leads (.get (fun _ => rfl) fun _ => .pure _) hn.listItem)
      fun consequent v h =>
      h.node rfl (by simp [Kind.children]; grind) fun n w _ h => h.give (by simp)
  refine .mark ((K.start hs).acceptKeyword (fun t h => .value (rest h)) ?_)
  exact (K.start hs).expectKeyword fun t h => h.read (expression_reads hn) fun test u h =>
    .value (rest (h.mono (by simp)))

theorem switchCases_reads : K.Reads (switchCases nested) := by
  intro s hs
  refine (K.start hs).expect fun t h => ?_
  refine h.loop (l := []) (by simp) (fun (cases, hasDefault) u h => ?_) fun (cases, _) u h =>
    h.expect fun v h => h.give (by simp)
  refine .check (.ite (fun _ => h.give (by simp)) fun _ => h.read (switchCase_reads hn)
    fun (clause, isDefault) v h => ?_)
  exact h.settleIf (.failHere _) fun w h => h.give (by simp)

theorem switchStatement_reads : K.Reads (switchStatement nested) := by
  intro s hs
  refine .mark ((K.start hs).expectKeyword fun t h => h.expect fun u h => h.read (expression_reads hn) ?_)
  exact fun e v h => h.expect fun w h => h.read (switchCases_reads hn).withContext fun cases x h =>
    h.finish rfl (by simp [Kind.children]; grind)

/-! ## Jumps -/

omit hn in
theorem jumpLabel_passes : K.Passes jumpLabel := by
  intro s hs
  refine .get (fun _ => rfl) (.ite (fun _ => ?_) fun _ => (K.start hs).give (by simp))
  refine (K.start hs).read (bindingName_reads none) fun label t h => h.settleUnless (.failHere _) fun u h => ?_
  exact h.reading.give (by simp)

omit hn in
theorem continueStatement_reads : K.Reads continueStatement := by
  intro s hs
  refine .mark ((K.start hs).expectKeyword fun t h => h.pass jumpLabel_passes fun label u h => ?_)
  refine h.pass endStatement_passes fun _ v h =>
    .context (h.settleIf (.failHere _) fun w h => h.finish rfl (by simp [Kind.children]))

omit hn in
theorem breakStatement_reads : K.Reads breakStatement := by
  intro s hs
  refine .mark ((K.start hs).expectKeyword fun t h => h.pass jumpLabel_passes fun label u h => ?_)
  refine h.pass endStatement_passes fun _ v h =>
    .context (h.settleIf (.failHere _) fun w h => h.finish rfl (by simp [Kind.children]))

theorem returnStatement_reads : K.Reads (returnStatement nested) := by
  have statement : K.Reads (do
      let start ← mark
      expectKeyword "return"
      let s ← get
      let t := s.lookahead
      let ends := t.isPunctuator .semicolon || t.isPunctuator .rightBrace || s.newline || t.isEnd
      let argument ←
        if !ends || t.isString || t.isTemplate then pure (some (← expression nested)) else pure none
      endStatement
      finish start (.returnStatement argument)) := by
    intro s hs
    refine .mark ((K.start hs).expectKeyword fun t h => .get (fun _ => rfl) (.ite (fun _ => ?_) fun _ => ?_))
    · refine h.read (expression_reads hn) fun e u h => .value ?_
      exact h.pass endStatement_passes fun _ v h => h.finish rfl (by simp [Kind.children])
    · exact .value (h.pass endStatement_passes fun _ u h => h.finish rfl (by simp [Kind.children]))
  exact fun s hs => .context ((K.start hs).settleUnless (.tolerateHere _) fun t h => h.last statement)

theorem throwStatement_reads : K.Reads (throwStatement nested) := by
  intro s hs
  refine .mark ((K.start hs).expectKeyword fun t h => .get (fun _ => rfl) (h.settleIf (.failHere _) fun u h => ?_))
  refine h.read (expression_reads hn) fun e v h => h.pass endStatement_passes fun _ w h =>
    h.finish rfl (by simp [Kind.children])

theorem catchParameter_reads : K.Reads (catchParameter nested) := by
  intro s hs
  refine (K.start hs).expect fun t h => .check (h.settleIf .failAhead fun u h => ?_)
  refine h.read (pattern_reads hn _) fun (target, names) v h => h.settle (.checkDistinct names _) fun _ w h => ?_
  exact .isStrict (h.settleIf (.tolerateHere _) fun x h => h.expect fun y h => h.give (by simp))

theorem catchClause_reads : K.Reads (catchClause nested) := by
  intro s hs
  refine .mark ((K.start hs).expectKeyword fun t h => .check (.ite (fun _ => ?_) fun _ => ?_))
  · refine h.read (catchParameter_reads hn) fun param u h => .value ?_
    exact h.read (block_reads hn) fun body v h => h.finish rfl (by simp [Kind.children])
  · exact .value (h.read (block_reads hn) fun body u h => h.finish rfl (by simp [Kind.children]))

theorem tryStatement_reads : K.Reads (tryStatement nested) := by
  intro s hs
  have rest {body : Node} {handler : Option Node} {t : ParseState}
      (h : K.Held .ahead true s (body :: handler.toList) t) : K.Ensures (do
        let finalizer ← if ← acceptKeyword "finally" then pure (some (← block nested)) else pure none
        if handler.isNone && finalizer.isNone then failHere .missingHandler
        finish s.start.place (.tryStatement body handler finalizer)) t
          fun n u => K.Held .ahead true s (nodes n) u := by
    refine h.acceptKeyword (fun u h => ?_)
      (.value (h.settleIf (.failHere _) fun u h => h.finish rfl (by simp [Kind.children])))
    refine h.read (block_reads hn) fun finalizer v h =>
      .value (h.settleIf (.failHere _) fun w h => h.finish rfl (by simp [Kind.children]; grind))
  refine .mark ((K.start hs).expectKeyword fun t h => h.read (block_reads hn) fun body u h => ?_)
  refine .checkKeyword (.ite (fun _ => ?_) fun _ => .value (rest (h.mono (by simp))))
  exact h.read (catchClause_reads hn) fun handler v h => .value (rest (h.mono (by simp)))

omit hn in
theorem debuggerStatement_reads : K.Reads debuggerStatement := fun _ hs =>
  .mark ((K.start hs).expectKeyword fun t h => h.pass endStatement_passes fun _ u h =>
    h.finish rfl (by simp [Kind.children]))

/-! ## Labels -/

theorem labeledBody_reads : K.Reads (labeledBody nested) := by
  intro s hs
  refine .ahead (.ite (fun _ => ?_) fun _ => .ite (fun _ => ?_) fun _ => hn.statement s hs)
  · exact (K.start hs).settle (.tolerateAt _) fun _ t h => h.last (classOf_reads hn _ _)
  · refine (K.start hs).read (function_closes hn _ _).reads fun declaration t h =>
      .isStrict (.ite (fun _ => ?_) fun _ => ?_)
    · exact h.settle (.tolerateWith _ _) fun _ u h => h.give (by simp)
    · exact h.settleIf (.tolerateWith _ _) fun u h => h.give (by simp)

theorem labeled_held {start : Place} {label : Node} {name : String} (h : K.Held .ahead true base [label] s)
    (hstart : base.Marks start) (hs : ¬ s.arrowAhead) :
    K.Ensures (labeled nested start label name) s fun n t => K.Held .ahead true base (nodes n) t := by
  refine h.skip hs fun t h => .get (fun _ => rfl) (h.settleIf (.failHere _) fun u h => ?_)
  refine h.settle (.setLabels fun labels => name :: labels) fun _ v h =>
    h.read (labeledBody_reads hn) fun body w h => ?_
  exact h.settle (.setLabels fun labels => labels.erase name) fun _ x h =>
    h.finishFrom hstart rfl (by simp [Kind.children])

theorem labeledStatement_reads : K.Reads (labeledStatement nested) := by
  intro s hs
  refine .mark ((K.start hs).read (expression_reads hn) fun e t h => .check ?_)
  split
  next name hname =>
    have hcolon : t.lookahead.isPunctuator .colon = true := (Option.filter_eq_some_iff.1 hname).2
    exact labeled_held hn (h.mono (by simp)) (.inl rfl) (ParseState.not_arrow_of_punctuator hcolon)
  · exact h.pass endStatement_passes fun _ u h => h.finish rfl (by simp [Kind.children])

/-! ## All statements -/

theorem keywordStatement_reads (word : String) : K.Reads (keywordStatement nested word) := by
  unfold keywordStatement
  split
  · exact breakStatement_reads
  · exact continueStatement_reads
  · exact debuggerStatement_reads
  · exact doWhileStatement_reads hn
  · exact forStatement_reads hn
  · exact (function_closes hn _ _).reads
  · exact ifStatement_reads hn
  · exact returnStatement_reads hn
  · exact switchStatement_reads hn
  · exact throwStatement_reads hn
  · exact tryStatement_reads hn
  · exact varStatement_reads hn
  · exact whileStatement_reads hn
  · exact withStatement_reads hn
  · exact expressionStatement_reads hn

theorem statement_reads : K.Reads (statement nested) := by
  intro s hs
  refine .ahead ?_
  split
  case h_7 => exact block_reads hn s hs
  case h_8 => exact emptyStatement_reads s hs
  case h_10 =>
    refine (K.start hs).settle .checkAsyncFunction fun isFunction t h => .ite (fun _ => ?_) fun _ => ?_
    · exact h.last (function_closes hn _ _).reads
    · exact h.last (labeledStatement_reads hn)
  case h_11 => exact keywordStatement_reads hn _ s hs
  case h_12 | h_13 | h_14 => exact .failAt
  all_goals exact expressionStatement_reads hn s hs

end

end Contract

end EcmaTree
