import EcmaTree.Grammar.Function
import EcmaTree.Proofs.Grammar.Parameters

/-!
# Functions and their bodies

A body ends with its brace, so everything in a function is firm behind it.
-/

namespace EcmaTree

namespace Judgement.Settles

open Parse

variable {J : Judgement}

theorem tolerateOffender (cause : Option Cause) (offender : Option Offender) :
    J.Settles (tolerateOffender cause offender) := by
  unfold Parse.tolerateOffender
  split
  · exact .get (fun _ => rfl) fun _ => .tolerate _
  · exact .pure _

theorem check (p : Punctuator) : J.Settles (check p) := .get (fun _ => rfl) fun _ => .pure _

theorem checkKeyword (word : String) : J.Settles (checkKeyword word) := .get (fun _ => rfl) fun _ => .pure _

theorem checkWord (word : String) : J.Settles (checkWord word) := .get (fun _ => rfl) fun _ => .pure _

theorem isStrict : J.Settles isStrict := .get (fun _ => rfl) fun _ => .pure _

theorem checkAsyncFunction : J.Settles checkAsyncFunction :=
  .bind (.checkWord _) fun _ => .ite (.get (fun _ => rfl) fun _ => .bind .second fun _ => .pure _) (.pure _)

theorem checkFunctionName (t : Token) : J.Settles (checkFunctionName t) :=
  .bind .isStrict fun _ => .ite (.ite (.bind (.tolerateWith _ _) fun _ => .pure _) (.pure _))
    (.ite (.pure _) (.ite (.pure _) (.pure _)))

theorem useStrict (first : Token) (legacy : Option Token) : J.Settles (useStrict first legacy) := by
  refine .bind (.setContext fun c => { c with strict := true }) fun _ => ?_
  cases legacy with
  | none => exact .get (fun _ => rfl) fun _ => .ite (.pure _) (.tolerateWith _ _)
  | some t => exact .bind (.tolerateWith _ _) fun _ => .get (fun _ => rfl) fun _ => .ite (.pure _) (.tolerateWith _ _)

theorem checkGetter (params : List Node) : J.Settles (checkGetter params) :=
  .ite (.pure _) (.tolerateHere _)

theorem checkSetter (params : List Node) : J.Settles (checkSetter params) := by
  unfold Parse.checkSetter
  split
  · split
    · exact .tolerateHere _
    · exact .pure _
  · exact .tolerateHere _

end Judgement.Settles

namespace Contract

open Parse

variable {K : Contract} {nested : Nested} (hn : K.Sound nested)
include hn

/-! ## Bodies -/

theorem directive_reads : K.Reads (directive nested) := by
  intro s hs
  refine .ahead (.mark ((K.start hs).read (expression_reads hn) fun e t h => ?_))
  exact h.pass endStatement_passes fun _ u h => h.node rfl (by simp [Kind.children]) fun n v _ h => h.give (by simp)

theorem prologue_passes : K.Passes (prologue nested) := by
  intro s hs
  refine (K.start hs).loop (l := []) (by simp) (fun (statements, legacy) t h => ?_)
    fun (statements, legacy) t h => h.give (by simp)
  refine .ahead (.ite (fun _ => h.give (by simp)) fun _ => ?_)
  refine h.read (directive_reads hn) fun (statement, text?) u h => ?_
  cases text? with
  | none => exact h.reading.give (by simp)
  | some text =>
    refine .ite (fun _ => ?_) fun _ => h.reading.give (by simp)
    exact h.settle (.useStrict _ _) fun _ v h => h.reading.give (by simp)

theorem functionBody_closes : K.Closes (functionBody nested) := by
  intro s hs
  have statements : K.Closes (do
      let statements ← manyBefore atBodyEnd (nested .listItem)
      expect .rightBrace
      return statements) := by
    intro s hs
    refine (K.start hs).pass (manyBefore_leads (.get (fun _ => rfl) fun _ => .pure _) hn.listItem) fun items t h => ?_
    exact h.expectClosing fun u h => h.give (by simp)
  refine .mark ((K.start hs).expect fun t h => h.pass (prologue_passes hn) fun directives u h => .get (fun _ => rfl) ?_)
  refine h.settle (.setLabels fun _ => []) fun _ v h => h.close statements.withContext fun items w h => ?_
  exact h.settle (.setLabels fun _ => u.labels) fun _ x h => h.finish rfl (by simp [Kind.children]; grind)

/-! ## Functions -/

theorem functionRest_closes (restricted : Option Token) (cause : Option Cause) :
    K.Closes (functionRest nested restricted cause) := by
  intro s hs
  refine (K.start hs).read (parameters_reads hn restricted) fun ps t h => ?_
  have body : K.Closes (do
      let body ← functionBody nested
      if ← isStrict then
        failOffender (ps.cause <|> cause) ps.restricted
        tolerateOffender (ps.cause <|> cause) ps.stricted
      return body) := by
    intro s hs
    refine (K.start hs).close (functionBody_closes hn) fun body t h =>
      .isStrict (.ite (fun _ => ?_) fun _ => h.give (by simp))
    exact h.settle (.failOffender _ _) fun _ u h => h.settle (.tolerateOffender _ _) fun _ v h => h.give (by simp)
  exact h.close body.withContext fun body u h => h.give (by simp; grind)

omit hn in
theorem functionName_reads (isExpression generator : Bool) : K.Reads (functionName isExpression generator) := by
  intro s hs
  refine .ahead (.isStrict ?_)
  split
  · refine (K.start hs).read identifierName_reads fun name t h => ?_
    exact h.settle (.checkFunctionName _) fun _ u h => h.give (by simp)
  · refine (K.start hs).read (bindingName_reads none) fun name t h => ?_
    exact h.settle (.checkFunctionName _) fun _ u h => h.give (by simp)

omit hn in
theorem acceptAsync_passes (form : FunctionForm) : K.Passes (acceptAsync form) := by
  intro s hs
  have consumed {t : ParseState} (ht : s.Rests t) (hasync : s.lookahead.isIdentifierNamed "async" = true) :
      K.Ensures (skip >>= fun _ => pure true) t fun a u => K.Held .ahead false s (nodes a) u :=
    ((K.start hs).rests ht).skip (ParseState.not_arrow_of_word (ht.lookahead ▸ hasync)) fun u h =>
      h.reading.give (by simp)
  refine .checkWord (.ite (fun hasync => .context (.ite (fun _ => ?_) fun _ => ?_)) fun _ =>
    (K.start hs).give (by simp))
  · exact Judgement.bind (Judgement.Settles.tolerateHere _ s) fun _ t ht => consumed ht hasync
  · exact consumed (.refl s) hasync

omit hn in
theorem optionalFunctionName_passes (form : FunctionForm) (nameIsOptional generator : Bool) :
    K.Passes (optionalFunctionName form nameIsOptional generator) := by
  intro s hs
  refine .check (.ite (fun _ => (K.start hs).give (by simp)) fun _ => ?_)
  exact (K.start hs).read (functionName_reads _ _) fun (name, restricted, cause) t h => h.reading.give (by simp)

/-- The name, the parameters and the body, with `own` what governs the last two. -/
theorem functionParts_closes (form : FunctionForm) (nameIsOptional generator : Bool) (own : Context → Context) :
    K.Closes (do
      let (name, restricted, cause) ← optionalFunctionName form nameIsOptional generator
      let (params, body) ← withContext own (functionRest nested restricted cause)
      return (name, params, body)) := by
  intro s hs
  refine (K.start hs).pass (optionalFunctionName_passes _ _ _) ?_
  rintro ⟨name, restricted, cause⟩ t h
  refine h.close (functionRest_closes hn _ _).withContext ?_
  rintro ⟨params, body⟩ u h
  exact h.give (by simp; grind)

theorem function_closes (form : FunctionForm) (nameIsOptional : Bool) :
    K.Closes (function nested form nameIsOptional) := by
  intro s hs
  refine .mark ((K.start hs).pass (acceptAsync_passes form) fun async t h => h.expectKeyword fun u h => ?_)
  refine h.accept (fun v h => ?_) fun _ => ?_
  all_goals
    refine h.close (functionParts_closes hn form nameIsOptional _ _).withContext ?_
    rintro ⟨name, params, body⟩ w h
    exact h.finish rfl (by simp [Kind.children])

/-! ## Methods -/

theorem methodBody_closes (ps : Parameters) : K.Closes (methodBody nested ps) := by
  intro s hs
  have body : K.Closes (do
      let body ← isolate (functionBody nested)
      if ← isStrict then
        tolerateOffender ps.cause ps.restricted
        tolerateOffender ps.cause ps.stricted
      return body) := by
    intro s hs
    refine (K.start hs).close (functionBody_closes hn).isolate fun body t h => ?_
    refine .isStrict (.ite (fun _ => ?_) fun _ => h.give (by simp))
    exact h.settle (.tolerateOffender _ _) fun _ u h => h.settle (.tolerateOffender _ _) fun _ v h => h.give (by simp)
  exact (K.start hs).settle .nonPattern fun _ t h => h.closing body.withContext

omit hn in
theorem method_finish {base s : ParseState} {params : List Node} {body : Node} {generator async : Bool} {start : Place}
    (h : K.Closed base (nodes body ++ params) s) (hs : base.Marks start) :
    K.Ensures (finish start (methodKind params body generator async)) s fun n t => K.Closed base (nodes n) t :=
  h.finishFrom hs rfl (by simp [methodKind, Kind.children]; grind)

theorem method_closes (generator async : Bool) : K.Closes (method nested generator async) := by
  intro s hs
  have parts : K.Closes (do
      let ps ← parameters nested none
      return (ps.params, ← methodBody nested ps)) := fun s hs =>
    (K.start hs).read (parameters_reads hn none) fun ps t h => h.close (methodBody_closes hn ps)
      fun body u h => h.give (by simp; grind)
  exact .mark ((K.start hs).close parts.withContext fun (params, body) t h =>
    method_finish (h.mono (by simp; grind)) (.inl rfl))

theorem accessor_closes {checkParams : List Node → Parse Unit} (hcheck : ∀ params, K.Settles (checkParams params)) :
    K.Closes (accessor nested checkParams) := by
  intro s hs
  have parts : K.Closes (do
      let ps ← parameters nested none
      checkParams ps.params
      return (ps.params, ← methodBody nested ps)) := fun s hs =>
    (K.start hs).read (parameters_reads hn none) fun ps t h => h.settle (hcheck _) fun _ u h =>
      h.close (methodBody_closes hn ps) fun body v h => h.give (by simp; grind)
  exact .mark ((K.start hs).close parts.withContext fun (params, body) t h =>
    method_finish (h.mono (by simp; grind)) (.inl rfl))

theorem generatorMethod_closes : K.Closes (generatorMethod nested) := by
  intro s hs
  refine .mark ((K.start hs).read (parameters_reads hn none).withContext fun ps t h => ?_)
  exact h.close (methodBody_closes hn ps).withContext fun body u h =>
    method_finish (h.mono (by simp)) (.inl rfl)

end Contract

end EcmaTree
