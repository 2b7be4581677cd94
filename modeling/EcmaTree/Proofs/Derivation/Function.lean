import EcmaTree.Proofs.Derivation.Binding

/-!
# Functions

The parameters of a function are binding patterns; those of an arrow function were read as expressions. Their list has
noted what they bind, and is asked about repetitions behind the parameters and behind the body. A body is read in a
scope of its own, which a directive may make strict; the context around the body is restored behind it.
-/

namespace EcmaTree

namespace Setting

/-- The setting in strict or in sloppy code. -/
def inCode (E : Setting) (strict : Bool) : Setting := { E with context := { E.context with strict } }

theorem isModule_inCode (E : Setting) (strict : Bool) : (E.inCode strict).context.isModule = E.context.isModule := rfl

theorem scopeIn_inCode_true (E : Setting) (outer : Scope) :
    (E.inCode true).scopeIn outer = (E.scopeIn outer).tightened true := by
  rw [Scope.tightened_true]
  rfl

end Setting

theorem Derives.waitingParameters {size : Nat} {σ : Scope} {form : Form} {p : Prospect} {n : Node} {params : List Node}
    {async : Bool} (h : Derives size σ (.covered form p) n) (hn : n.kind = .arrowParameters params async) :
    ∀ m ∈ params, Derives size σ.ofFunction .parameter m := by
  generalize hs : Symbol.covered form p = symbol at h
  induction h generalizing form p with
  | weaken _ _ ih | operand _ ih | base _ ih | endChain _ _ ih => exact ih hn rfl
  | waiting h | waitingChain h =>
    cases hn
    exact h σ.ofFunction
  | _ => first | cases hs; cases hn | cases hs

namespace Parse

open Judgement (onSuccess)

variable {source : String} {outer : Scope} {E : Setting} {c : Cover} {s : ParseState} {nested : Nested}

/-- A tree of the source that is the body of a function in the scope `outer`. -/
abbrev DerivedBody (source : String) (outer : Scope) (E : Setting) (n : Node) : Prop :=
  Derives source.utf8ByteSize ((E.scopeIn outer.ofFunction).under n.statements) .body n

/-- The list holds trees of the source and has noted what they bind. `forbidden`: is the name of the function one that
strict code forbids? -/
abbrev DerivedParameters (source : String) (outer : Scope) (E : Setting) (forbidden : Bool) (ps : Parameters) : Prop :=
  (∀ n ∈ ps.params, Derived source outer E .pattern n) ∧ ps.Listed E.context.strict forbidden

/-- If a name of the list repeats, this may turn out to be no error. -/
abbrev MayRepeat (E : Setting) (ps : Parameters) : Prop :=
  ps.duplicated = true → E.context.strict = false ∧ E.context.isAsync = false ∧ ps.simple = true

/-- The body of a function, behind which no parameter of the list turned out to be an error. -/
abbrev CheckedBody (source : String) (outer : Scope) (E : Setting) (ps : Parameters) (n : Node) : Prop :=
  DerivedBody source outer E n ∧ (((E.scopeIn outer).under n.statements).strict = true →
    ps.restricted = none ∧ ps.stricted = none)

/-- Parameters and the body behind them. -/
abbrev DerivedParts (source : String) (outer : Scope) (E : Setting) (forbidden : Bool) (r : List Node × Node) : Prop :=
  (∀ n ∈ r.1, Derived source outer.ofFunction E .pattern n) ∧ DerivedBody source outer E r.2 ∧
    DistinctNames ((E.scopeIn outer).under r.2.statements).strict E.context.isAsync forbidden r.1

/-- As a method they are a function without a name. -/
theorem DerivedParts.method {own : Setting} {r : List Node × Node} (h : DerivedParts source outer own false r)
    (generator async : Bool)
    (hstrict : own.context.strict = E.context.strict) (hasync : async = true → own.context.isAsync = true)
    (i : NodeInfo) :
    Derived source outer E (.expression .free) (.mk i (methodKind r.1 r.2 generator async)) := by
  simp only [DerivedParts, Derived, DerivedBody, Setting.scopeIn, hstrict] at h
  exact .function (by simp) (by simp) h.1 h.2.1 (h.2.2.mono hasync (by simp))

theorem DerivedParameters.parts {forbidden : Bool} {ps : Parameters} {body : Node}
    (h : DerivedParameters source outer.ofFunction E forbidden ps) (hdup : MayRepeat E ps)
    (hb : CheckedBody source outer E ps body) :
    DerivedParts source outer E forbidden (ps.params, body) :=
  ⟨h.1, hb.1, h.2.distinct _ hdup fun h => hb.2 (by simp [Scope.under, Scope.tightened, h])⟩

/-! ## Parameters -/

theorem failOffender_keeps (cause : Option Cause) (offender : Option Offender) :
    Keeps source .ahead .ahead (failOffender cause offender) fun _ => offender = none := by
  cases offender with
  | none => exact .pure rfl
  | some o => exact .ofStops fun _ _ _ _ h => by cases h

theorem tolerateOffender_keeps (cause : Option Cause) (offender : Option Offender) :
    Keeps source .ahead .ahead (tolerateOffender cause offender) fun _ => offender = none := by
  cases offender with
  | none => exact .pure rfl
  | some o => exact .ofStops fun s hs => Stops.tolerate _ s hs

theorem useStrict_yields (first : Token) (legacy : Option Token) (E : Setting) (c : Cover) :
    Yields source .ahead .ahead E c (useStrict first legacy) fun _ E' c' => E.inCode true = E' ∧ c = c' := by
  refine .setContext (fun c => { c with strict := true }) ?_
  have allowed {E : Setting} {c : Cover} : Yields source .ahead .ahead E c (do
      unless (← context).allowStrictDirective do tolerateWith first .strictDirectiveNotSimple) fun _ E' c' =>
        E = E' ∧ c = c' :=
    .context (.ite (fun _ => .pure ⟨rfl, rfl⟩) fun _ => Stops.tolerateWith.yields)
  cases legacy with
  | none => exact allowed
  | some t => exact Stops.tolerateWith.bind.yields

section
variable (outer) (hn : Sound source nested)
include hn

theorem parameter_derived {forbidden : Bool} {ps : Parameters}
    (h : DerivedParameters source outer E forbidden ps) (c : Cover) :
    Reads source E c (parameter nested ps) fun ps _ => DerivedParameters source outer E forbidden ps := by
  have add {param : Node} {names : List Token} (hp : Derived source outer E .pattern param)
      (hnames : SpellsNames (param, names)) :
      DerivedParameters source outer E forbidden
        ((names.foldl (fun ps t => ps.bind E.context.strict (.token t) t.text) ps).add param) := by
    refine ⟨?_, h.2.add hnames⟩
    rw [Parameters.add_params, Parameters.foldl_bind_params E.context.strict Offender.token Token.text]
    exact List.forall_mem_append.2 ⟨h.1, List.forall_mem_singleton.2 hp⟩
  refine .check fun _ => .ite (fun _ => .part ((finalRest_derived outer hn .rightParen .restNotLast E c).also
    (finalRest_binds (hn.binds none))) ?_) fun _ => ?_
  · rintro ⟨param, names⟩ c ⟨⟨i, argument, rfl, hp⟩, hnames, -⟩
    exact .isStrict (.pure ⟨rfl, add (.rest hp) hnames⟩)
  · refine .part ((patternWithDefault_derived outer hn none E c).also (patternWithDefault_binds (hn.binds none))) ?_
    exact fun (param, names) c ⟨hp, hnames⟩ => .isStrict (.pure ⟨rfl, add hp hnames⟩)

theorem parameterList_derived {forbidden : Bool} {first : Parameters}
    (h : DerivedParameters source outer E forbidden first) (c : Cover) :
    Reads source E c (parameterList nested first) fun ps _ => DerivedParameters source outer E forbidden ps := by
  refine .check fun _ => .ite (fun _ => .pure ⟨rfl, h⟩) fun _ => Reads.loop
    (I := fun ps _ => DerivedParameters source outer E forbidden ps) h fun ps c h => ?_
  refine .ahead fun _ => .ite (fun _ => .pure ⟨rfl, h⟩) fun _ => .part (parameter_derived outer hn h c) fun ps c h => ?_
  refine .check fun _ => .ite (fun _ => .pure ⟨rfl, h⟩) fun _ => .keep .expect fun _ _ => ?_
  exact .check fun _ => .ite (fun _ => .pure ⟨rfl, h⟩) fun _ => .pure ⟨rfl, h⟩

theorem parameters_derived (restricted : Option Token) (E : Setting) (c : Cover) :
    Reads source E c (parameters nested restricted) fun ps _ =>
      DerivedParameters source outer E restricted.isSome ps ∧ MayRepeat E ps := by
  have first : DerivedParameters source outer E restricted.isSome { restricted := restricted.map .token } :=
    ⟨List.forall_mem_nil _, by simpa using Parameters.listed_start E.context.strict (restricted.map .token)⟩
  refine .keep .expect fun _ _ => .part (parameterList_derived outer hn first c) fun ps c h =>
    .keep .expect fun _ _ => ?_
  exact .context (.assert Stops.failHere fun hdup => .pure ⟨rfl, h, fun h' => by simpa [h', and_assoc] using hdup⟩)

/-! ## Bodies -/

theorem directive_derived (E : Setting) (c : Cover) : Reads source E c (directive nested) fun r _ =>
    ∃ i e, r.1 = .mk i (.expressionStatement e r.2) ∧ Derived source outer E .node e := by
  refine .ahead fun first => .mark fun start => .expression outer hn fun e he => ?_
  exact .keep .endStatement fun _ _ => .node fun i => .pure ⟨rfl, i, e, rfl, .of_value he⟩

/-- Behind the directives the code is strict if it was so before them or one of them makes it so. -/
theorem prologue_yields (E : Setting) (c : Cover) :
    Yields source .ahead .ahead E c (prologue nested) fun directives E' _ =>
    E.inCode (E.context.strict || directives.any (·.isUseStrict)) = E' ∧ ∀ n ∈ directives,
      Derived source outer E' .bodyItem n := by
  refine .bind (.loop (D := fun r E' _ => E.inCode (E.context.strict || r.1.any (·.isUseStrict)) = E' ∧
      ∀ n ∈ r.1, Derived source outer E' .bodyItem n)
    (I := fun r E' _ => E.inCode (E.context.strict || r.1.any (·.isUseStrict)) = E' ∧
      ∀ n ∈ r.1, ∀ σ, Derives source.utf8ByteSize σ .bodyItem n) ⟨by simp [Setting.inCode], by simp⟩ ?_) ?_
  · -- All but the last statement are strings, which are derived in every scope: no matter what makes the code strict
    -- later.
    rintro ⟨statements, legacy⟩ _ c ⟨rfl, h⟩ s hs hE hc
    refine .ahead (.ite (fun _ => onSuccess.ofPure ⟨hs, hE.symm, fun n hn => h n hn _⟩) fun hstring => ?_)
    have hstring : s.lookahead.isString = true := by simpa using hstring
    refine Judgement.bind (fun r t ht => And.intro (directive_derived outer hn _ c s hs hE hc r t ht)
      (directive_opens hn.opens hstring r t ht)) ?_
    rintro ⟨statement, _ | text⟩ t ⟨⟨ht, hE', i, e, hstatement, he⟩, hopens⟩
    · obtain rfl : statement = .mk i (.expressionStatement e none) := hstatement
      refine onSuccess.ofPure ⟨ht, by simp [← hE', Node.isUseStrict, Node.kind], ?_⟩
      exact List.forall_mem_cons.2 ⟨.item (.plain rfl (by simpa [Kind.children] using hE' ▸ he)), fun n hn => h n hn _⟩
    · obtain ⟨i, j, rfl, htext⟩ := hopens text rfl
      have more : ∀ n ∈ Node.mk i (.expressionStatement (.mk j (literalOf s.lookahead)) (some text)) :: statements,
          ∀ σ, Derives source.utf8ByteSize σ .bodyItem n :=
            List.forall_mem_cons.2 ⟨fun _ => .directive hstring htext, h⟩
      refine .ite (fun hstrict => ?_) fun hsloppy => onSuccess.ofPure ⟨ht, ?_, more⟩
      · refine Yields.bind (useStrict_yields _ legacy _ _) ?_ t ht rfl rfl
        rintro _ _ _ ⟨rfl, rfl⟩
        exact .pure ⟨by simp [← hE', Node.isUseStrict, Node.kind, hstrict, Setting.inCode], more⟩
      · simp [← hE', Node.isUseStrict, Node.kind, hsloppy]
  · rintro ⟨statements, legacy⟩ E' c ⟨hE, h⟩
    exact .pure ⟨by simpa using hE, by simpa using h⟩

omit outer in
theorem bodyStatements_derived (E : Setting) (c : Cover) : Reads source E c (do
      let statements ← manyBefore atBodyEnd (nested .listItem)
      expect .rightBrace
      return statements) fun statements _ => ∀ n ∈ statements, DerivedHere source E .node n := by
  refine .part (Reads.manyBefore (I := fun _ => True) (R := fun n _ => DerivedHere source E .node n)
    (fun _ _ => .get fun _ _ _ _ => .pure ⟨rfl, rfl, trivial⟩) trivial fun c _ => ?_) fun statements c ⟨_, h⟩ => ?_
  · exact .mono (hn.listItem E c) fun n E' c' ⟨hE, h⟩ => ⟨hE, trivial, h, fun _ hb => hb⟩
  · exact .keep .expect fun _ _ => .pure ⟨rfl, h⟩

/-- Behind a body the code is as strict as its directives made it. -/
theorem functionBody_yields (E : Setting) (c : Cover) :
    Yields source .ahead .ahead E c (functionBody nested) fun n E' _ =>
    E.inCode ((E.scopeIn outer).under n.statements).strict = E' ∧ DerivedBody source outer E n := by
  refine .mark fun start => .keep .expect fun _ _ => .bind (prologue_yields outer.ofFunction hn E c) ?_
  rintro directives _ c ⟨rfl, hd⟩
  refine .get fun s _ hs _ => .setLabels (fun _ => []) (.part (.inContext (bodyStatements_derived hn _ c))
    fun statements c h => ?_)
  have labels : s.labels = E.labels := congrArg Setting.labels hs
  refine .setLabels (fun _ => s.labels) (.finish fun i => ?_)
  rw [DerivedBody, Node.statements, Node.kind, Derives.under_append h, Derives.under_append h]
  refine ⟨by rw [labels]; rfl, ?_⟩
  exact .body (List.forall_mem_append.2 ⟨hd, fun n hn => .item (h n hn)⟩)

/-! ## Functions -/

theorem functionRest_derived (restricted : Option Token) (cause : Option Cause) (E : Setting) (c : Cover) :
    Reads source E c (functionRest nested restricted cause) fun r _ =>
      DerivedParts source outer E restricted.isSome r := by
  refine .part (parameters_derived outer.ofFunction hn restricted E c) fun ps c ⟨hp, hdup⟩ => ?_
  refine .part (n := .ahead) (P := fun body _ => CheckedBody source outer E ps body)
    (.withContext (.bind (functionBody_yields outer hn _ c) ?_)) fun body c hb => .pure ⟨rfl, hp.parts hdup hb⟩
  rintro body _ c ⟨rfl, hb⟩
  refine .isStrict (.ite (fun _ => ?_) fun hsloppy => .pure ⟨rfl, hb, fun h => absurd h hsloppy⟩)
  exact .keep (failOffender_keeps _ _) fun _ h => .keep (tolerateOffender_keeps _ _) fun _ h' =>
    .pure ⟨rfl, hb, fun _ => ⟨h, h'⟩⟩

end

theorem checkFunctionName_keeps (t : Token) : Keeps source .ahead .ahead (checkFunctionName t) fun _ => True :=
  fun E c => by
  refine .isStrict (.ite (fun _ => .assert Stops.tolerateWith fun _ => .pure ⟨rfl, rfl, trivial⟩) fun _ => ?_)
  exact .ite (fun _ => .pure ⟨rfl, rfl, trivial⟩) fun _ => .ite (fun _ => .pure ⟨rfl, rfl, trivial⟩) fun _ =>
    .pure ⟨rfl, rfl, trivial⟩

/-- What is kept for the body is a name that strict code forbids. -/
theorem checkFunctionName_forbids {t : Token} {s : ParseState} :
    onSuccess.Ensures (checkFunctionName t) s fun r _ => r.1.isSome = true → EcmaTree.isForbidden t.text = true := by
  have forbidden {o : Option Token} {cause : Option Cause} {u : ParseState} (h : isForbidden t.text = true) :
      onSuccess.Ensures (pure (o, cause)) u fun r _ => r.1.isSome = true → isForbidden t.text = true :=
        onSuccess.ofPure fun _ => h
  refine .isStrict (.ite (fun _ => ?_) fun _ => .ite (fun h => forbidden (by simp [isForbidden, h])) fun _ => ?_)
  · exact .ite (fun _ => behind fun _ _ => onSuccess.ofPure (by simp)) fun _ => onSuccess.ofPure (by simp)
  · exact .ite (fun h => forbidden (by simp [isForbidden, h])) fun _ => onSuccess.ofPure (by simp)

theorem checkedName_forbids {t : Token} {n : Node} (h : ∃ i, n = .mk i (.identifier t.text)) (s : ParseState) :
    onSuccess.Ensures (do
      let (restricted, cause) ← checkFunctionName t
      return (n, restricted, cause)) s fun r _ => r.2.1.isSome = true → r.1.isForbidden = true := by
  obtain ⟨i, rfl⟩ := h
  refine Judgement.bind checkFunctionName_forbids ?_
  rintro ⟨restricted, cause⟩ u hr
  exact onSuccess.ofPure hr

theorem functionName_forbids (isExpression generator : Bool) (s : ParseState) :
    onSuccess.Ensures (functionName isExpression generator) s fun r _ => r.2.1.isSome = true →
      r.1.isForbidden = true := by
  refine .ahead (.isStrict (.ite (fun _ => ?_) fun _ => ?_))
  · exact Judgement.bind (identifierName_spelled s) fun n u h => checkedName_forbids h u
  · exact Judgement.bind (bindingName_spelled s) fun n u h => checkedName_forbids h u

theorem functionName_keeps (isExpression generator : Bool) :
    Keeps source .ahead .ahead (functionName isExpression generator) fun r => ∃ i name,
      r.1 = .mk i (.identifier name) := by
  refine fun E c => .ahead fun t => .isStrict (.ite (fun _ => .keep identifierName_keeps fun n h => ?_)
    fun _ => .keep (bindingName_keeps none) fun n h => ?_)
  · exact .keep (checkFunctionName_keeps t) fun _ _ => .pure ⟨rfl, rfl, h⟩
  · exact .keep (checkFunctionName_keeps t) fun _ _ => .pure ⟨rfl, rfl, h⟩

theorem optionalFunctionName_keeps (form : FunctionForm) (nameIsOptional generator : Bool) :
    Keeps source .ahead .ahead (optionalFunctionName form nameIsOptional generator) fun r =>
      (∀ n ∈ r.1, ∃ i name, n = .mk i (.identifier name)) ∧
    (r.2.1.isSome = true → r.1.any Node.isForbidden = true) := fun E c => by
  refine .check fun _ => .ite (fun _ => .pure ⟨rfl, rfl, by simp⟩) fun _ => ?_
  refine .keep ((functionName_keeps _ generator).also (functionName_forbids _ generator)) ?_
  rintro ⟨name, restricted, cause⟩ ⟨h, h'⟩
  exact .pure ⟨rfl, rfl, by simpa using h, by simpa using h'⟩

theorem acceptAsync_keeps (form : FunctionForm) :
    Keeps source .ahead .ahead (acceptAsync form) fun _ => True := fun _ _ =>
  .checkWord fun _ => .ite (fun _ => .context (.assert Stops.tolerateHere fun _ => .keep .skip fun _ _ =>
    .pure ⟨rfl, rfl, trivial⟩)) fun _ => .pure ⟨rfl, rfl, trivial⟩

section
variable (outer) (hn : Sound source nested)
include hn

/-- The name of a function, its parameters and its body, where `own` is what it changes for the last two. -/
theorem functionParts_derived (form : FunctionForm) (nameIsOptional generator async : Bool) {own : Context → Context}
    (hown : ∀ c, (own c).strict = c.strict ∧ (own c).isAsync = async) (E : Setting) (c : Cover) : Reads source E c (do
      let (name, restricted, cause) ← optionalFunctionName form nameIsOptional generator
      let (params, body) ← withContext own (functionRest nested restricted cause)
      return (name, params, body)) fun r _ => (∀ n ∈ r.1, Derived source outer.ofFunction E .node n) ∧
        (∀ n ∈ r.2.1, Derived source outer.ofFunction E .pattern n) ∧ DerivedBody source outer E r.2.2 ∧
          DistinctNames ((E.scopeIn outer).under r.2.2.statements).strict async (r.1.any Node.isForbidden) r.2.1 := by
  refine .keep (optionalFunctionName_keeps form nameIsOptional generator) fun (name, restricted,
    cause) ⟨h, hforbidden⟩ => ?_
  have named : ∀ n ∈ name, Derived source outer.ofFunction E .node n := fun n hn => by
    obtain ⟨i, text, rfl⟩ := h n hn
    exact .name
  refine .part (.inContext (functionRest_derived outer hn restricted cause _ c)) fun (params, body) c hr =>
    .pure ⟨rfl, named, ?_⟩
  simp only [DerivedParts, Derived, DerivedBody, Setting.scopeIn, hown] at hr
  exact ⟨hr.1, hr.2.1, hr.2.2.mono id hforbidden⟩

theorem function_derived {form : FunctionForm} (hform : form ≠ .arrow) (nameIsOptional : Bool) (E : Setting)
    (c : Cover) :
    Reads source E c (function nested form nameIsOptional) fun n _ => Derived source outer E (.expression .free) n := by
  refine .mark fun start => .keep (acceptAsync_keeps form) fun async _ => .keep .expectKeyword fun _ _ =>
    .keep .accept fun generator _ => ?_
  have own (c : Context) :
      (ite (form == .expression) (fun c => { c with isAsync := async, allowYield := !generator }) id c).strict =
        c.strict := by split <;> rfl
  refine .part (.inContext (functionParts_derived outer hn form nameIsOptional generator async
    (by intro; exact ⟨rfl, rfl⟩) _ c)) ?_
  rintro ⟨name, params, body⟩ c hr
  simp only [Derived, DerivedBody, Setting.scopeIn, own] at hr
  exact .finish fun i => ⟨rfl, .function hform hr.1 hr.2.1 hr.2.2.1 hr.2.2.2⟩

/-! ## Methods -/

theorem methodBody_derived (ps : Parameters) (E : Setting) (c : Cover) :
    Reads source E c (methodBody nested ps) fun n c' =>
    c'.prospect ≤ .value ∧ CheckedBody source outer E ps n := by
  refine .nonPattern (.withContext (.bind (.isolate (functionBody_yields outer hn _ .fresh)) ?_))
  rintro body _ _ ⟨rfl, d, -, rfl, hb⟩
  have done : c.nonPattern.prospect ≤ .value := by simp [Prospect.le_iff, Cover.prospect, Cover.nonPattern]
  refine .isStrict (.ite (fun _ => ?_) fun hsloppy => .pure ⟨rfl, done, hb, fun h => absurd h hsloppy⟩)
  refine .keep (tolerateOffender_keeps _ _) fun _ h => .keep (tolerateOffender_keeps _ _) fun _ h' => ?_
  exact .pure ⟨rfl, done, hb, fun _ => ⟨h, h'⟩⟩

/-- The parameters and the body of a method or of an accessor. -/
theorem methodParts_derived {check : List Node → Parse Unit}
    (hcheck : ∀ params, Keeps source .ahead .ahead (check params) fun _ => True)
    (E : Setting) (c : Cover) : Reads source E c (do
      let ps ← parameters nested none
      check ps.params
      return (ps.params, ← methodBody nested ps)) fun r c' => c'.prospect ≤ .value ∧
        DerivedParts source outer E false r := by
  refine .part (parameters_derived outer.ofFunction hn none E c) fun ps c ⟨hp, hdup⟩ => .keep (hcheck _) fun _ _ => ?_
  exact .part (methodBody_derived outer hn ps E c) fun body c ⟨hc, hb⟩ => .pure ⟨rfl, hc, hp.parts hdup hb⟩

theorem method_derived (generator async : Bool) (E : Setting) (c : Cover) :
    Reads source E c (method nested generator async) fun n c' => c'.prospect ≤ .value ∧
      Derived source outer E (.expression .free) n := by
  have own (c : Context) :
      (if async then { c with allowYield := false, isAsync := true } else { c with allowYield := true }).strict =
        c.strict := by split <;> rfl
  have free (params : List Node) : Keeps source .ahead .ahead (pure () : Parse Unit) fun _ => True := .pure trivial
  have parts := methodParts_derived outer hn free
  refine .mark fun start => .part (.inContext (parts _ c)) fun r c ⟨hc, hr⟩ => .finish fun i => ⟨rfl, hc, ?_⟩
  exact hr.method generator async (own _) (fun h => by simp [h]) i

theorem accessor_derived {check : List Node → Parse Unit}
    (hcheck : ∀ params, Keeps source .ahead .ahead (check params) fun _ => True)
    (E : Setting) (c : Cover) :
    Reads source E c (accessor nested check) fun n c' => c'.prospect ≤ .value ∧
      Derived source outer E (.expression .free) n :=
  .mark fun _ => .part (.inContext (methodParts_derived outer hn hcheck _ c)) fun _ _ ⟨hc, hr⟩ =>
    .finish fun i => ⟨rfl, hc, hr.method false false rfl nofun i⟩

theorem getter_derived (E : Setting) (c : Cover) :
    Reads source E c (getter nested) fun n c' => c'.prospect ≤ .value ∧ Derived source outer E (.expression .free) n :=
  accessor_derived outer hn (fun _ _ _ => .ite (fun _ => .pure ⟨rfl, rfl, trivial⟩) fun _ =>
    Stops.tolerateHere.yields) E c

theorem setter_derived (E : Setting) (c : Cover) :
    Reads source E c (setter nested) fun n c' => c'.prospect ≤ .value ∧
      Derived source outer E (.expression .free) n := by
  refine accessor_derived outer hn (fun params => ?_) E c
  unfold checkSetter
  split
  · split
    · exact .ofStops .tolerateHere
    · exact .pure trivial
  · exact .ofStops .tolerateHere

theorem generatorMethod_derived (E : Setting) (c : Cover) :
    Reads source E c (generatorMethod nested) fun n c' => c'.prospect ≤ .value ∧
      Derived source outer E (.expression .free) n := by
  refine .mark fun start => .part (.inContext (parameters_derived outer.ofFunction hn none _ c))
    fun ps c ⟨hp, hdup⟩ => ?_
  refine .part (.inContext (methodBody_derived outer hn ps _ c)) fun body c ⟨hc, hb⟩ => .finish fun i => ⟨rfl, hc, ?_⟩
  exact (hp.parts hdup hb).method true false rfl nofun i

end

/-! ## Parameters of arrow functions -/

theorem arrowParameter_keeps (isAsync : Bool) {param : Node} (h : Derived source outer E .parameter param) :
    Keeps source .ahead .ahead (arrowParameter isAsync param) fun n => Derived source outer E .parameter n := by
  unfold arrowParameter
  split
  next left right hparam =>
    split
    · exact .ofStops .failAhead
    next delegate hright => exact .pure (.yieldParameter h hparam hright)
    · exact .pure h
  · exact fun _ _ => .ite (fun _ => Stops.failAhead.yields) fun _ => .pure ⟨rfl, rfl, h⟩

theorem mapM_arrowParameter_keeps (isAsync : Bool) :
    ∀ {params : List Node}, (∀ n ∈ params, Derived source outer E .parameter n) →
      Keeps source .ahead .ahead (params.mapM (arrowParameter isAsync)) fun ns => ∀ n ∈ ns,
        Derived source outer E .parameter n
  | [], _ => by simpa only [List.mapM_nil] using .pure (by simp)
  | param :: params, h => by
    rw [List.forall_mem_cons] at h
    rw [List.mapM_cons]
    refine .bind (arrowParameter_keeps isAsync h.1) fun n hn =>
      .bind (mapM_arrowParameter_keeps isAsync h.2) fun ns hns => ?_
    exact .pure (List.forall_mem_cons.2 ⟨hn, hns⟩)

theorem arrowNodes_keeps {form : Form} {p : Prospect} {list : Node}
    (h : Derived source outer E (.covered form p) list) :
    Keeps source .ahead .ahead (arrowNodes list) fun ns => ∀ n ∈ ns,
      Derived source outer.ofFunction E .parameter n := by
  obtain ⟨i, kind⟩ := list
  unfold arrowNodes
  split
  next params async hlist => exact .pure (h.waitingParameters hlist)
  next name hlist =>
    obtain rfl : kind = .identifier name := hlist
    exact .pure (by simpa using .boundParameter .namePattern)
  · exact .ofStops .failAhead

/-- The body of an arrow function has not been read; so it does not count whether it makes the code strict. -/
theorem arrowParameters_derived {form : Form} {p : Prospect} {list : Node} (isAsync : Bool)
    (h : Derived source outer E (.covered form p) list) : Reads source E c (arrowParameters list isAsync) fun ps _ =>
      (∀ n ∈ ps.params, Derived source outer.ofFunction E .parameter n) ∧
        DistinctNames E.context.strict true false ps.params := by
  refine .keep (arrowNodes_keeps h) fun nodes hnodes => .keep (mapM_arrowParameter_keeps isAsync hnodes)
    fun params hp => ?_
  refine .context (.assert Stops.failAhead fun _ => .assert Stops.failHere fun hdup => .pure ⟨rfl, ?_, ?_⟩)
  · simpa only [Parameters.ofNodes_params] using hp
  · simpa using (Parameters.ofNodes_listed E.context.strict params).distinct false (fun h => absurd h hdup) nofun

end Parse

end EcmaTree
