import EcmaTree.Proofs.Ledger.Binding

/-!
# Functions and their bodies

What may become an error once a body turns out to be strict points to a token that has been read.
-/

namespace EcmaTree.Ledger

open Parse

variable {L : Ledger} {m : Mode} {nested : Nested} {base s : ParseState} {ns l : List Node}

/-! ## Offenders -/

section
variable {cause : Option Cause} {offender : Option Offender} (ho : ∀ t, offender.bind (·.token?) = some t → L.Seen t)
include ho

theorem reports_offender {o : Offender} (hs : L.Stands m s) (h : offender = some o) :
    L.Reports (offenderError s cause o) := by
  subst h
  unfold offenderError
  split
  next t =>
    have seen : L.Seen t := ho t rfl
    split
    · exact L.reports_at _ hs seen
    · exact L.reports_at _ hs seen
  · exact L.reports_here _ hs

theorem failOffender_leads : L.Leads m m (failOffender cause offender) := fun s h => by
  unfold failOffender
  split
  next o => exact .get (.fail (reports_offender ho h.stands rfl))
  · exact h.give (by simp) (by simp)

theorem tolerateOffender_leads : L.Leads m m (tolerateOffender cause offender) := fun s h => by
  unfold tolerateOffender
  split
  next o => exact h.last (.tolerate fun s hs => reports_offender ho hs rfl) (by simp)
  · exact h.give (by simp) (by simp)

end

theorem fine_stricted {ps : Parameters} (h : L.Fine ps) {t : Token}
    (ht : ps.stricted.bind (·.token?) = some t) : L.Seen t :=
  h t (by simp [Parameters.tokens_eq, ht])

theorem fine_restricted {ps : Parameters} (h : L.Fine ps) {t : Token}
    (ht : ps.restricted.bind (·.token?) = some t) : L.Seen t :=
  h t (by simp [Parameters.tokens_eq, ht])

/-! ## Bodies -/

theorem useStrict_reads {first : Token} {legacy : Option Token} (hfirst : L.Seen first) (hlegacy : L.Fine legacy) :
    L.Reads (useStrict first legacy) := fun s h => by
  have allowed {t : ParseState} (h : L.Held .ahead s [] t) : L.Safe (do
      unless (← context).allowStrictDirective do tolerateWith first .strictDirectiveNotSimple) t
        (L.Gives .ahead s []) :=
    .context (.ite (fun _ => h.give (by simp) (by simp)) fun _ => h.last (.tolerateWith hfirst) (by simp))
  refine .bind (.modify ?_)
  split
  next t => exact (h.setContext _).read (.tolerateWith (by simpa using hlegacy)) fun _ u h _ => allowed h
  · exact allowed (h.setContext _)

section
variable (hn : L.Sound nested)
include hn

theorem directive_reads : L.Reads (directive nested) := fun s h => by
  refine .ahead (.mark (h.read (expression_reads hn) fun e t h _ => h.endStatement fun u h => ?_))
  exact h.node [] rfl (by simp [Kind.children]) fun n v _ h => h.give (by simp) (by simp)

theorem prologue_reads : L.Reads (prologue nested) := fun s h => by
  refine h.loop (σ := List Node × Option Token) [] (by simp) (by simp) (fun (statements, legacy) t h fine => ?_) ?_
  · refine .ahead (.ite (fun _ => h.give (by simp) fine) fun _ => ?_)
    have first := h.seen
    have hlegacy : L.Fine legacy := by simpa using fine
    refine h.read (directive_reads hn) fun (statement, text?) u h _ => ?_
    cases text? with
    | none => exact h.give (by simp) (by simpa using hlegacy)
    | some text =>
      refine .ite (fun _ => ?_) fun _ => h.give (by simp) ?_
      · exact h.read (useStrict_reads first hlegacy) fun _ v h _ => h.give (by simp) (by simpa using hlegacy)
      · cases legacy with
        | none =>
          simp only [fine_more, fine_pair, fine_mute, true_and]
          split
          · simpa using first
          · simp
        | some t => simpa using hlegacy
  · rintro ⟨statements, legacy⟩ t h -
    exact h.give (by simp) (by simp)

omit hn in
theorem atBodyEnd_reads : L.Reads atBodyEnd := fun s h => .ahead (h.give (by simp) (by simp))

theorem functionBody_reads : L.Reads (functionBody nested) := fun s h => by
  have items : L.Reads (do
      let statements ← manyBefore atBodyEnd (nested .listItem)
      expect .rightBrace
      return statements) := fun t h =>
    h.read (.manyBefore atBodyEnd_reads hn.listItem) fun statements u h _ => h.expect fun v h =>
      h.give (by simp) (by simp)
  refine .mark (h.expect fun t h => h.read (prologue_reads hn) fun directives u h _ => .get (.bind (.modify ?_)))
  refine (h.setLabels []).read items.withContext fun statements v h _ => .bind (.modify ?_)
  exact (h.setLabels _).finish rfl (by simp +arith [Kind.children])

/-! ## Functions -/

omit hn in
theorem checkAsyncFunction_reads : L.Reads checkAsyncFunction := fun s h =>
  .checkWord (.ite (fun _ => .get (h.read .second fun t u h _ => h.give (by simp) (by simp))) fun _ =>
    h.give (by simp) (by simp))

omit hn in
theorem checkFunctionName_reads {t : Token} (ht : L.Seen t) : L.Reads (checkFunctionName t) := fun s h => by
  refine .isStrict (.ite (fun _ => ?_) fun _ => .ite (fun _ => ?_) fun _ => .ite (fun _ => ?_) fun _ => ?_)
  · exact h.settleIf (.tolerateWith ht) fun u h => h.give (by simp) (by simp)
  · exact h.give (by simp) (by simpa using ht)
  · exact h.give (by simp) (by simpa using ht)
  · exact h.give (by simp) (by simp)

theorem functionRest_reads {restricted : Option Token} (cause : Option Cause) (hr : L.Fine restricted) :
    L.Reads (functionRest nested restricted cause) := fun s h => by
  refine h.read (parameters_reads hn hr) fun ps t h fine => ?_
  have body : L.Reads (do
      let body ← functionBody nested
      if ← isStrict then
        failOffender (ps.cause <|> cause) ps.restricted
        tolerateOffender (ps.cause <|> cause) ps.stricted
      return body) := fun u h => by
    refine h.read (functionBody_reads hn) fun body v h _ =>
      .isStrict (.ite (fun _ => ?_) fun _ => h.give (by simp) (by simp))
    refine h.read (failOffender_leads fun t => fine_restricted fine) fun _ w h _ => ?_
    exact h.read (tolerateOffender_leads fun t => fine_stricted fine) fun _ x h _ => h.give (by simp) (by simp)
  exact h.read body.withContext fun body u h _ => h.give (by simp +arith) (by simp)

omit hn in
/-- The name of a function is checked behind it. -/
theorem checkedName_gives {name : Node} {t : Token} (ht : L.Seen t) (h : L.Held .ahead base [name] s) : L.Safe (do
    let (restricted, cause) ← checkFunctionName t
    return (name, restricted, cause)) s (L.Gives .ahead base []) := by
  refine h.read (checkFunctionName_reads ht) ?_
  rintro ⟨restricted, cause⟩ u h fine
  exact h.give (by simp) (by simpa using fine)

omit hn in
theorem functionName_reads (isExpression generator : Bool) : L.Reads (functionName isExpression generator) :=
  fun s h => by
  refine .ahead (.isStrict (.ite (fun _ => ?_) fun _ => ?_))
  · exact h.read identifierName_reads fun name t ht _ => checkedName_gives h.seen (by simpa using ht)
  · exact h.read (bindingName_reads _) fun name t ht _ => checkedName_gives h.seen (by simpa using ht)

omit hn in
theorem acceptAsync_reads (form : FunctionForm) : L.Reads (acceptAsync form) := fun s h => by
  refine .checkWord (.ite (fun _ => ?_) fun _ => h.give (by simp) (by simp))
  refine .context (h.settleIf .tolerateHere fun t h => h.skip fun u h => h.give (by simp) (by simp))

omit hn in
theorem optionalFunctionName_reads (form : FunctionForm) (nameIsOptional generator : Bool) :
    L.Reads (optionalFunctionName form nameIsOptional generator) := fun s h => by
  refine .check (.ite (fun _ => h.give (by simp) (by simp)) fun _ => ?_)
  exact h.read (functionName_reads _ _) fun (name, restricted, cause) t h fine => h.give (by simp) (by simpa using fine)

/-- The name, the parameters and the body, with `own` what governs the last two. -/
theorem functionParts_reads (form : FunctionForm) (nameIsOptional generator : Bool) (own : Context → Context) :
    L.Reads (do
      let (name, restricted, cause) ← optionalFunctionName form nameIsOptional generator
      let (params, body) ← withContext own (functionRest nested restricted cause)
      return (name, params, body)) := fun s h => by
  refine h.read (optionalFunctionName_reads _ _ _) ?_
  rintro ⟨name, restricted, cause⟩ t h fine
  refine h.read (functionRest_reads hn cause (by simpa using fine)).withContext ?_
  rintro ⟨params, body⟩ u h -
  exact h.give (by simp +arith) (by simp)

theorem function_reads (form : FunctionForm) (nameIsOptional : Bool) : L.Reads (function nested form nameIsOptional) :=
    fun s h => by
  refine .mark (h.read (acceptAsync_reads form) fun async t h _ => h.expectKeyword fun u h =>
    h.accept fun generator v h => ?_)
  refine h.read (functionParts_reads hn form nameIsOptional generator _).withContext ?_
  rintro ⟨name, params, body⟩ w h -
  exact h.finish rfl (by simp +arith [Kind.children])

/-! ## Methods -/

theorem methodBody_reads {ps : Parameters} (fine : L.Fine ps) : L.Reads (methodBody nested ps) := fun s h => by
  have body : L.Reads (do
      let body ← isolate (functionBody nested)
      if ← isStrict then
        tolerateOffender ps.cause ps.restricted
        tolerateOffender ps.cause ps.stricted
      return body) := fun u h => by
    refine h.read (functionBody_reads hn).isolate fun body v h _ =>
      .isStrict (.ite (fun _ => ?_) fun _ => h.give (by simp) (by simp))
    refine h.read (tolerateOffender_leads fun t => fine_restricted fine) fun _ w h _ => ?_
    exact h.read (tolerateOffender_leads fun t => fine_stricted fine) fun _ x h _ => h.give (by simp) (by simp)
  exact h.read .nonPattern fun _ t h _ => h.last body.withContext (by simp)

theorem method_reads (generator async : Bool) : L.Reads (method nested generator async) := fun s h => by
  have parts : L.Reads (do
      let ps ← parameters nested none
      return (ps.params, ← methodBody nested ps)) := fun t h =>
    h.read (parameters_reads hn (by simp)) fun ps u h fine => h.read (methodBody_reads hn fine) fun body v h _ =>
      h.give (by simp +arith) (by simp)
  refine .mark (h.read parts.withContext fun (params, body) t h _ => ?_)
  exact h.finish rfl (by simp +arith [Kind.children, methodKind])

theorem accessor_reads {checkParams : List Node → Parse Unit} (hc : ∀ params, L.Reads (checkParams params)) :
    L.Reads (accessor nested checkParams) := fun s h => by
  have parts : L.Reads (do
      let ps ← parameters nested none
      checkParams ps.params
      return (ps.params, ← methodBody nested ps)) := fun t h =>
    h.read (parameters_reads hn (by simp)) fun ps u h fine => h.read (hc _) fun _ v h _ =>
      h.read (methodBody_reads hn fine) fun body w h _ => h.give (by simp +arith) (by simp)
  refine .mark (h.read parts.withContext fun (params, body) t h _ => ?_)
  exact h.finish rfl (by simp +arith [Kind.children, methodKind])

omit hn in
theorem checkGetter_reads (params : List Node) : L.Reads (checkGetter params) := fun s h =>
  .ite (fun _ => h.give (by simp) (by simp)) fun _ => h.last .tolerateHere (by simp)

omit hn in
theorem checkSetter_reads (params : List Node) : L.Reads (checkSetter params) := fun s h => by
  unfold checkSetter
  split
  · split
    · exact h.last .tolerateHere (by simp)
    · exact h.give (by simp) (by simp)
  · exact h.last .tolerateHere (by simp)

theorem generatorMethod_reads : L.Reads (generatorMethod nested) := fun s h => by
  refine .mark (h.read (parameters_reads hn (by simp)).withContext fun ps t h fine => ?_)
  exact h.read (methodBody_reads hn fine).withContext fun body u h _ =>
    h.finish rfl (by simp +arith [Kind.children, methodKind])

end

end EcmaTree.Ledger
