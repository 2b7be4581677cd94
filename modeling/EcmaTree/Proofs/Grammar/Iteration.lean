import EcmaTree.Grammar.Iteration
import EcmaTree.Proofs.Grammar.Assignment

/-!
# Loops

A target before `in` or `of` is firm, since no arrow follows it.
-/

namespace EcmaTree

namespace Judgement.Settles

open Parse

variable {J : Judgement}

theorem checkLoopBody : J.Settles checkLoopBody := .get (fun _ => rfl) fun _ => .ite (.tolerateHere _) (.pure _)

theorem checkLoopTarget (target : Node) (cause : Cause) : J.Settles (checkLoopTarget target cause) :=
  .get (fun _ => rfl) fun _ => .ite (.tolerateHere _) (.pure _)

end Judgement.Settles

namespace Parse

instance : HasNodes ForHead where
  nodes
    | .steps init test step => init.toList ++ (test.toList ++ step.toList)
    | .keys left right | .values left right => [left, right]

@[simp] theorem nodes_steps (init test step : Option Node) :
    nodes (ForHead.steps init test step) = init.toList ++ (test.toList ++ step.toList) := rfl

@[simp] theorem nodes_keys (left right : Node) : nodes (ForHead.keys left right) = [left, right] := rfl

@[simp] theorem nodes_values (left right : Node) : nodes (ForHead.values left right) = [left, right] := rfl

end Parse

namespace Contract

open Parse

variable {K : Contract} {base s : ParseState} {ns : List Node} {r : Bool} {nested : Nested}

/-! ## Bodies -/

/-- A parenthesis that may be missing. -/
theorem Held.missingParen {β : Type} {Q : β → ParseState → Prop} {f : Option Node → Parse β}
    (h : K.Held .ahead r base ns s) (hf : ∃ rest, f none = Parse.expect .rightParen >>= rest)
    (hno : K.Ensures (f none) s Q) (hyes : ∀ n t, K.Held .ahead true base (n :: ns) t → K.Ensures (f (some n)) t Q) :
    K.Ensures (Parse.missingParen >>= f) s Q := by
  refine K.ofMissingParen h.stands hf hno fun n t stands read good => hyes n t ?_
  have ht : K.Held .ahead true s [n] t := ⟨stands, read, by simpa using good⟩
  simpa using h.trans ht

theorem bodyAfterParen_reads {body : Parse Node} (hbody : K.Reads body) : K.Reads (bodyAfterParen body) := by
  intro s hs
  refine (K.start hs).missingParen ⟨_, rfl⟩ ?_ fun n t h => h.give (by simp)
  exact (K.start hs).expect fun t h => h.last hbody

theorem endDoWhile_reads : K.Reads endDoWhile := fun _ hs =>
  K.mono (K.ofEndDoWhile hs) fun _ _ ⟨stands, read⟩ => ⟨stands, read, by simp⟩

section
variable (hn : K.Sound nested)
include hn

theorem doWhileStatement_reads : K.Reads (doWhileStatement nested) := by
  intro s hs
  refine .mark ((K.start hs).expectKeyword fun t h => h.settle .checkLoopBody fun _ u h => ?_)
  refine h.read hn.statement.withContext fun body v h => h.expectKeyword fun w h => h.expect fun x h => ?_
  exact h.read (expression_reads hn) fun test y h => h.read endDoWhile_reads fun _ z h =>
    h.finish rfl (by simp [Kind.children])

theorem whileStatement_reads : K.Reads (whileStatement nested) := by
  intro s hs
  refine .mark ((K.start hs).expectKeyword fun t h => h.expect fun u h => ?_)
  refine h.read (expression_reads hn) fun test v h => ?_
  exact h.read (bodyAfterParen_reads hn.statement.withContext) fun body w h => h.finish rfl (by simp [Kind.children])

/-! ## The head of `for` -/

theorem headSteps_held {init : Option Node} (h : K.Held .ahead true base init.toList s) :
    K.Ensures (headSteps nested init) s fun head t => K.Held .ahead true base (nodes head) t := by
  have step {test : Option Node} {t : ParseState} (h : K.Held .ahead true base (test.toList ++ init.toList) t) :
      K.Ensures (do
        expect .semicolon
        let step ← if ← check .rightParen then pure none else pure (some (← isolate (expression nested)))
        return ForHead.steps init test step) t fun head u => K.Held .ahead true base (nodes head) u := by
    refine h.expect fun u h => .check (.ite (fun _ => .value (h.give (by simp; grind))) fun _ => ?_)
    exact h.read (expression_reads hn).isolate fun step v h => .value (h.give (by simp; grind))
  refine .check (.ite (fun _ => .value (step h)) fun _ => ?_)
  exact h.read (expression_reads hn).isolate fun test t h => .value (step h)

theorem headKeys_held {left : Node} (h : K.Held .ahead true base [left] s) (hs : ¬ s.arrowAhead) :
    K.Ensures (headKeys nested left) s fun head t => K.Held .ahead true base (nodes head) t :=
  h.skip hs fun t h => h.read (expression_reads hn) fun right u h => h.give (by simp)

theorem headValues_held {left : Node} (h : K.Held .ahead true base [left] s) (hs : ¬ s.arrowAhead) :
    K.Ensures (headValues nested left) s fun head t => K.Held .ahead true base (nodes head) t :=
  h.skip hs fun t h => h.read hn.assignment fun right u h => h.give (by simp)

section
variable {kind : VariableKind} {declarations : List Node} {start : Place}
  (h : K.Held .ahead true base declarations s) (hstart : base.Marks start)
include h hstart

theorem declaredKeys_held (hs : ¬ s.arrowAhead) :
    K.Ensures (do headKeys nested (← finish start (.variableDeclaration kind declarations))) s
      fun head t => K.Held .ahead true base (nodes head) t := by
  refine Judgement.bind (h.finished hstart rfl (by simp [Kind.children])) ?_
  rintro n t ⟨held, -, lookahead⟩
  exact headKeys_held hn held (by rwa [ParseState.arrowAhead, lookahead])

theorem declaredValues_held (hs : ¬ s.arrowAhead) :
    K.Ensures (do headValues nested (← finish start (.variableDeclaration kind declarations))) s
      fun head t => K.Held .ahead true base (nodes head) t := by
  refine Judgement.bind (h.finished hstart rfl (by simp [Kind.children])) ?_
  rintro n t ⟨held, -, lookahead⟩
  exact headValues_held hn held (by rwa [ParseState.arrowAhead, lookahead])

theorem declaredSteps_held :
    K.Ensures (do
      let init ← finish start (.variableDeclaration kind declarations)
      expect .semicolon
      headSteps nested (some init)) s fun head t => K.Held .ahead true base (nodes head) t :=
  h.nodeFrom hstart rfl (by simp [Kind.children]) (fun init t _ h => h.expect fun u h =>
    headSteps_held hn (h.mono (by simp)))

end

theorem varHead_reads (isAwait : Bool) (hs : K.Stands .ahead s) (hvar : s.lookahead.isKeyword "var" = true) :
    K.Ensures (varHead nested isAwait) s fun head t => K.Held .ahead true s (nodes head) t := by
  refine .mark ((K.start hs).skip (ParseState.not_arrow_of_keyword hvar) fun t h => ?_)
  refine h.read (bindings_reads hn _ _).withContext fun declarations u h => .ahead ?_
  have h : K.Held .ahead true s declarations u := h.mono (by simp)
  split
  · exact declaredSteps_held hn h (.inl rfl)
  refine .ite (fun hin => .isStrict ?_) fun _ => .ite (fun hof => ?_) fun _ => declaredSteps_held hn h (.inl rfl)
  · rw [Bool.and_eq_true] at hin
    have harrow := ParseState.not_arrow_of_keyword hin.2
    refine .ite (fun _ => ?_) fun _ => declaredKeys_held hn h (.inl rfl) harrow
    refine Judgement.bind (Judgement.Settles.tolerateHere _ u) fun _ v hv => ?_
    exact declaredKeys_held hn (h.rests hv) (.inl rfl) (hv.not_arrow harrow)
  · rw [Bool.and_eq_true] at hof
    exact declaredValues_held hn h (.inl rfl) (ParseState.not_arrow_of_word hof.2)

theorem lexicalHead_held (hs : K.Stands .ahead s) (hword : s.lookahead.isAnyKeyword = true) :
    K.Ensures (lexicalHead nested) s fun head t => K.Held .ahead true s (nodes head) t := by
  refine .mark (Judgement.bind (declarationWord_took hs) fun kind t ⟨h, htext⟩ => .isStrict (.ahead ?_))
  refine .ite (fun hin => ?_) fun _ => ?_
  · have tells := h.tells _ (.word (.inl (Token.isName_of_word (.inr hword))))
    refine Judgement.bind (h.leafFrom (.inl rfl) rfl (htext ▸ tells)) ?_
    rintro n u ⟨held, -, lookahead, -⟩
    have harrow : ¬ t.arrowAhead := ParseState.not_arrow_of (f := fun t => t.text == "in") (by simp_all) (fun _ => rfl)
    exact headKeys_held hn held (by rwa [ParseState.arrowAhead, lookahead])
  refine h.toHeld.read (bindings_reads hn _ _).withContext fun declarations u h => .ahead ?_
  have h : K.Held .ahead true s declarations u := h.mono (by simp)
  refine .ite (fun hin => ?_) fun _ => .ite (fun hof => ?_) fun _ => ?_
  · rw [Bool.and_eq_true] at hin
    exact declaredKeys_held hn h (.inl rfl) (ParseState.not_arrow_of_keyword hin.2)
  · rw [Bool.and_eq_true] at hof
    exact declaredValues_held hn h (.inl rfl) (ParseState.not_arrow_of_word hof.2)
  · refine h.pass endStatement_passes fun _ v h => h.node rfl (by simp [Kind.children]) fun init w _ h => ?_
    exact headSteps_held hn (h.mono (by simp))

theorem headExpressions_held {first : Token} {init : Node} (h : K.Held .ahead true base [init] s)
    (hstart : base.Marks first.place) :
    K.Ensures (headExpressions nested first init) s fun n t => K.Held .ahead true base (nodes n) t := by
  refine .check (.ite (fun _ => ?_) fun _ => h.give (by simp))
  refine h.loop (l := [init]) (by simp) (fun items t h => ?_) fun items t h =>
    h.finishFrom hstart rfl (by simp [Kind.children]; grind)
  refine h.accept (fun u h => .pos rfl ?_) fun _ => .neg nofun (h.give (by simp))
  exact h.read hn.assignment.isolate fun item v h => h.give (by simp)

theorem expressionHead_reads : K.Reads (expressionHead nested) := by
  intro s hs
  refine .ahead (.get (fun _ => rfl) ((K.start hs).read hn.assignment.inherit.withContext fun init t h => .ahead ?_))
  have h : K.Held .ahead true s [init] t := h.mono (by simp)
  have pattern (harrow : ¬ t.arrowAhead) {u : ParseState} (hu : t.Rests u) :
      K.Held .ahead true s [init.toPattern] u := by
    have firm := K.firm_of_not_arrow ((h.rests hu).good init (by simp)) (hu.not_arrow harrow)
    exact ⟨(h.rests hu).stands, (h.rests hu).moved, by simpa using K.good_of_firm (K.firm_toPattern firm)⟩
  refine .ite (fun hin => ?_) fun _ => .ite (fun hof => ?_) fun _ => ?_
  · have harrow := ParseState.not_arrow_of_keyword hin
    refine Judgement.bind (Judgement.Settles.checkLoopTarget _ _ t) fun _ u hu => ?_
    exact headKeys_held hn (pattern harrow hu) (hu.not_arrow harrow)
  · have harrow := ParseState.not_arrow_of_word hof
    refine Judgement.bind (Judgement.Settles.checkLoopTarget _ _ t) fun _ u hu => ?_
    exact headValues_held hn (pattern harrow hu) (hu.not_arrow harrow)
  · refine h.settle (.modifyCover _) fun _ u h => ?_
    refine Judgement.bind (headExpressions_held hn h (.inr ⟨0, rfl⟩)) fun init v h => h.expect fun w h => ?_
    exact headSteps_held hn (h.mono (by simp))

theorem forHead_reads (isAwait : Bool) : K.Reads (forHead nested isAwait) := by
  intro s hs
  refine (K.start hs).accept (fun t h => .pos rfl (headSteps_held hn h)) fun _ => .neg nofun ?_
  refine .checkKeyword (.ite (fun hvar => varHead_reads hn isAwait hs hvar) fun _ => ?_)
  refine .checkKeyword (.checkKeyword (.ite (fun hword => lexicalHead_held hn hs ?_) fun _ => ?_))
  · obtain hword | hword := Bool.or_eq_true_iff.1 hword <;>
      simp [Token.isAnyKeyword, Token.isKeyword_iff.1 hword]
  exact expressionHead_reads hn s hs

omit hn in
theorem forAwait_passes : K.Passes forAwait := by
  intro s hs
  refine .ahead (.ite (fun hawait => .context ?_) fun _ => (K.start hs).give (by simp))
  have consumed {t : ParseState} (ht : s.Rests t) : K.Ensures (skip >>= fun _ => pure true) t
      fun a u => K.Held .ahead false s (nodes a) u :=
    ((K.start hs).rests ht).skip (ht.not_arrow (ParseState.not_arrow_of_word hawait)) fun u h =>
      h.reading.give (by simp)
  refine .ite (fun _ => consumed (.refl s)) fun _ => ?_
  exact Judgement.bind (Judgement.Settles.tolerateAt _ s) fun _ t ht => consumed ht

theorem forStatement_reads : K.Reads (forStatement nested) := by
  intro s hs
  refine .mark ((K.start hs).expectKeyword fun t h => h.pass forAwait_passes fun isAwait u h => h.expect fun v h => ?_)
  refine h.read (forHead_reads hn isAwait) fun head w h => ?_
  refine h.read (bodyAfterParen_reads hn.statement.isolate.withContext) fun body x h => ?_
  cases head <;> exact h.finish rfl (by simp [Kind.children] <;> grind)

end

end Contract

end EcmaTree
