import EcmaTree.Proofs.Ledger.Rules

/-!
# Names, keys, binding patterns and parameters

`Sound` is what the productions assume of the nested ones. The names that a pattern binds are tokens that have been
read.
-/

namespace EcmaTree

/-! ## Tokens that wait for a body -/

/-- The token that an offender points to. -/
def Offender.token? : Offender → Option Token
  | .token t => some t
  | .binding => none

namespace Parameters

instance : HasTokens Parameters :=
  ⟨fun ps => (ps.stricted.bind (·.token?)).toList ++ (ps.restricted.bind (·.token?)).toList⟩

theorem tokens_eq (ps : Parameters) :
    tokens ps = (ps.stricted.bind (·.token?)).toList ++ (ps.restricted.bind (·.token?)).toList := rfl

/-- A name that is bound adds its own token at most. -/
theorem mem_tokens_bind {strict : Bool} {ps : Parameters} {offender : Offender} {name : String} {t : Token}
    (h : t ∈ tokens (ps.bind strict offender name)) : offender.token? = some t ∨ t ∈ tokens ps := by
  simp only [tokens_eq, List.mem_append, Option.mem_toList] at h ⊢
  unfold bind at h
  repeat' split at h
  all_goals simp_all
  all_goals grind

@[simp] theorem tokens_add (ps : Parameters) (param : Node) : tokens (ps.add param) = tokens ps := rfl

theorem mem_tokens_foldl_bind {strict : Bool} {names : List Token} {ps : Parameters} {t : Token}
    (h : t ∈ tokens (names.foldl (fun ps t => ps.bind strict (.token t) t.text) ps)) : t ∈ names ∨ t ∈ tokens ps := by
  induction names generalizing ps with
  | nil => exact .inr h
  | cons name names ih =>
    rcases ih h with h | h
    · exact .inl (List.mem_cons_of_mem _ h)
    · rcases mem_tokens_bind h with h | h
      · exact .inl (by cases h; exact List.mem_cons_self ..)
      · exact .inr h

theorem tokens_foldl_binding {strict : Bool} {names : List String} {ps : Parameters} {t : Token}
    (h : t ∈ tokens (names.foldl (fun ps name => ps.bind strict .binding name) ps)) : t ∈ tokens ps := by
  induction names generalizing ps with
  | nil => exact h
  | cons name names ih => exact (mem_tokens_bind (ih h)).resolve_left nofun

/-- The parameters of an arrow function point to no token. -/
theorem tokens_ofNodes (strict : Bool) (params : List Node) : tokens (ofNodes strict params) = [] := by
  have keep {ps : Parameters} {t : Token} (h : t ∈ tokens (params.foldl (fun ps param =>
      (param.boundNames.foldl (fun ps name => ps.bind strict .binding name) ps).add param) ps)) : t ∈ tokens ps := by
    induction params generalizing ps with
    | nil => exact h
    | cons param params ih =>
      rw [List.foldl_cons] at h
      have before := ih h
      rw [tokens_add] at before
      exact tokens_foldl_binding before
  refine List.eq_nil_iff_forall_not_mem.2 fun t h => ?_
  cases keep h

end Parameters

namespace Ledger

open Parse

/-- Every nested production keeps the ledger. -/
structure Sound (L : Ledger) (nested : Nested) : Prop where
  assignment : L.Reads (α := Node) (nested .assignment)
  unary : L.Reads (α := Node) (nested .unary)
  exponentiation : L.Reads (α := Node) (nested .exponentiation)
  callee : L.Reads (α := Node) (nested .callee)
  callChain : L.Reads (α := Node) (nested .callChain)
  pattern (kind : Option VariableKind) : L.Reads (α := Node × List Token) (nested (.pattern kind))
  statement : L.Reads (α := Node) (nested .statement)
  listItem : L.Reads (α := Node) (nested .listItem)
  jsxElement : L.Leads (α := Node) .inside .inside (nested .jsxElement)

variable {L : Ledger} {nested : Nested} {base s : ParseState} {ns l : List Node}

/-! ## Names -/

theorem identifierName_reads : L.Reads identifierName := fun s h =>
  .mark (h.next fun t ht => .ite (fun _ => ht.finish rfl (by simp [Kind.children])) fun _ => ht.failAt h.seen)

theorem bindingName_reads (kind : Option VariableKind) : L.Reads (bindingName kind) := fun s h => by
  have name {start : Place} {t : ParseState} (ht : L.Held .ahead s [] t) :
      L.Safe (finish start (.identifier s.lookahead.text)) t (L.Gives .ahead s []) :=
        ht.finish rfl (by simp [Kind.children])
  refine .mark (h.next fun t ht => .context (.ite (fun _ => ?_) fun _ => .ite (fun _ => ?_) fun _ => ?_))
  · refine .ite (fun _ => ht.read (.tolerateWith h.seen) fun _ u hu _ => name hu) fun _ => ?_
    exact ht.settleIf (.failAt h.seen) fun u hu => name hu
  · refine .ite (fun _ => ht.read (.tolerateWith h.seen) fun _ u hu _ => name hu) fun _ => ?_
    exact ht.settleIf (.failAt h.seen) fun u hu => name hu
  · exact ht.settleIf (.tolerateAt h.seen) fun u hu => name hu

/-! ## Keys and patterns -/

section
variable (hn : L.Sound nested)
include hn

theorem expression_reads : L.Reads (expression nested) := fun s h => by
  refine .ahead (h.read (.commaSeparated hn.assignment.isolate) fun expressions t h _ => ?_)
  split
  · exact h.give (by simp) (by simp)
  · exact h.finish rfl (by simp [Kind.children])

theorem propertyKey_reads : L.Reads (propertyKey nested) := fun s h => by
  refine .mark (h.next fun t ht => ?_)
  have literal {start : Place} : L.Safe (do
      if (← isStrict) && s.lookahead.isLegacy then tolerateWith s.lookahead .octalInStrict
      finish start (literalOf s.lookahead)) t (L.Gives .ahead s []) :=
    .isStrict (ht.settleIf (.tolerateWith h.seen) fun u hu => hu.finish rfl (by simp [Kind.children, literalOf]))
  split
  · exact literal
  · exact literal
  · exact ht.finish rfl (by simp [Kind.children])
  · exact ht.finish rfl (by simp [Kind.children])
  · exact ht.finish rfl (by simp [Kind.children])
  · exact ht.finish rfl (by simp [Kind.children])
  · exact ht.read hn.assignment.isolate fun key u hu _ => hu.expect fun v hv => hv.give (by simp) (by simp)
  · exact ht.failAt h.seen

theorem patternWithDefault_reads (kind : Option VariableKind) : L.Reads (patternWithDefault nested kind) :=
  fun s h => by
  refine .ahead (h.read (hn.pattern kind) fun (pattern, names) t h fine => h.accept fun b u h =>
    .ite (fun _ => ?_) fun _ => ?_)
  · refine h.read hn.assignment.isolate.withContext fun right v h _ => ?_
    exact h.node [] rfl (by simp +arith [Kind.children]) fun n w _ h => h.give (by simp) (by simpa using fine)
  · exact h.give (by simp) fine

theorem restElement_reads (kind : Option VariableKind) : L.Reads (restElement nested kind) := fun s h => by
  refine .mark (h.expect fun t h => h.read (hn.pattern kind) fun (argument, names) u h fine => ?_)
  exact h.node [] rfl (by simp [Kind.children]) fun n w _ h => h.give (by simp) (by simpa using fine)

theorem arrayPattern_reads (kind : Option VariableKind) : L.Reads (arrayPattern nested kind) := fun s h => by
  refine .mark (h.expect fun t h => ?_)
  refine h.loop (σ := List (Option Node × List Token)) [] (by simp) (by simp) (fun items t h fine => ?_)
    fun items t h fine => ?_
  · refine .check (.ite (fun _ => h.give (by simp) fine) fun _ => ?_)
    refine h.accept fun b u h => .ite (fun _ => h.give (by simp) (by simpa using fine)) fun _ => ?_
    refine .check (.ite (fun _ => ?_) fun _ => ?_)
    · refine h.read (restElement_reads hn kind) fun (element, names) v h fe => h.give (by simp) ?_
      simpa [fine] using fe
    · refine h.read (patternWithDefault_reads hn kind) fun (element, names) v h fe => .check ?_
      refine h.settleUnless .expect fun w h => h.give (by simp) ?_
      simpa [fine] using fe
  · exact h.expect fun u h => h.node [] rfl (by simp [Kind.children]) fun n v _ h =>
      h.give (by simp) (by simpa using fine)

theorem finalRest_reads (closing : Punctuator) (notLast : Cause) :
    L.Reads (finalRest nested closing notLast) := fun s h => by
  refine .mark (h.expect fun t h => h.read (hn.pattern none) fun (argument, names) u h fine => .check ?_)
  refine h.settleIf .failHere fun v h => .check (h.settleUnless .failHere fun w h => ?_)
  exact h.node [] rfl (by simp [Kind.children]) fun n x _ h => h.give (by simp) (by simpa using fine)

theorem namedMemberValue_gives {kind : Option VariableKind} {name : Token} {target : Node}
    (h : L.Held .ahead base (target :: l) s) (hname : L.Seen name) :
    L.Safe (namedMemberValue nested kind name target) s (L.Gives .ahead base l) := by
  refine h.accept fun b t h => .ite (fun _ => ?_) fun _ => .check (.ite (fun _ => ?_) fun _ => ?_)
  · refine h.read hn.assignment fun right u h _ => ?_
    exact h.node l rfl (by simp +arith [Kind.children]) fun n v _ h => h.give (by simp) (by simpa using hname)
  · exact h.give (by simp) (by simpa using hname)
  · refine h.expect fun u h => h.read (patternWithDefault_reads hn kind) fun (value, names) v h fine => ?_
    exact h.give (by simp) (by simpa using fine)

theorem memberPattern_reads (kind : Option VariableKind) : L.Reads (memberPattern nested kind) := fun s h => by
  refine .mark (.ahead (.ite (fun _ => ?_) fun _ => .check ?_))
  · refine h.read (bindingName_reads none) fun key t ht _ => ?_
    refine ht.node [key] rfl (by simp [Kind.children]) fun target u _ hu => ?_
    refine after (namedMemberValue_gives hn hu h.seen) fun (value, names, shorthand) v hv fine => ?_
    exact hv.node [] rfl (by simp +arith [Kind.children]) fun n w _ h => h.give (by simp) (by simpa using fine)
  · refine h.read (propertyKey_reads hn) fun key t h _ => h.expect fun u h => ?_
    refine h.read (patternWithDefault_reads hn kind) fun (value, names) v h fine => ?_
    exact h.node [] rfl (by simp +arith [Kind.children]) fun n w _ h => h.give (by simp) (by simpa using fine)

theorem objectPattern_reads (kind : Option VariableKind) : L.Reads (objectPattern nested kind) := fun s h => by
  refine .mark (h.expect fun t h => h.read (.itemsBefore fun u h => ?_) fun items u h fine => ?_)
  · have item {v : ParseState} {a : Node × List Token} (h : L.Held .ahead u (nodes a) v) (fine : L.Fine a) :
        L.Safe (do
          unless ← check .rightBrace do expect .comma
          return a) v (L.Gives .ahead u []) :=
      .check (h.settleUnless .expect fun w h => h.give (by simp) fine)
    refine .check (.ite (fun _ => ?_) fun _ => ?_)
    · exact h.read (finalRest_reads hn _ _) fun a v h fine => item (by simpa using h) fine
    · exact h.read (memberPattern_reads hn kind) fun a v h fine => item (by simpa using h) fine
  · exact h.expect fun v h => h.node [] rfl (by simp [Kind.children]) fun n w _ h =>
      h.give (by simp) (by simpa using fine)

theorem pattern_reads (kind : Option VariableKind) : L.Reads (pattern nested kind) := fun s h => by
  refine .ahead (.ite (fun _ => h.last (arrayPattern_reads hn kind) (by simp)) fun _ => .ite (fun _ => ?_) fun _ => ?_)
  · exact h.last (objectPattern_reads hn kind) (by simp)
  · refine h.settleIf (.tolerateWith h.seen) fun t ht => ht.read (bindingName_reads kind) fun name u hu _ => ?_
    exact hu.give (by simp) (by simpa using h.seen)

/-! ## Parameters -/

theorem parameter_gives {ps : Parameters} (h : L.Held .ahead base ps.params s) (fine : L.Fine ps) :
    L.Safe (parameter nested ps) s (L.Gives .ahead base []) := by
  have bound {param : Node} {names : List Token} {t : ParseState}
      (h : L.Held .ahead base (nodes (param, names) ++ ps.params) t)
      (hnames : L.Fine (param, names)) : L.Safe (do
        let strict ← isStrict
        return (names.foldl (fun ps t => ps.bind strict (.token t) t.text) ps).add param) t
          (L.Gives .ahead base []) := by
    refine .isStrict (h.give ?_ fun u hu => ?_)
    · simp +arith [Parameters.foldl_bind_params]
    · exact (Parameters.mem_tokens_foldl_bind hu).elim (fun h => by simpa using hnames u (by simpa using h)) (fine u)
  refine .check (.ite (fun _ => ?_) fun _ => ?_)
  · exact h.read (finalRest_reads hn _ _) fun (param, names) t h hnames => bound h hnames
  · exact h.read (patternWithDefault_reads hn _) fun (param, names) t h hnames => bound h hnames

theorem parameterList_gives {first : Parameters} (fine : L.Fine first) (h : L.Held .ahead base first.params s) :
    L.Safe (parameterList nested first) s (L.Gives .ahead base []) := by
  refine .check (.ite (fun _ => h.give (by simp) fine) fun _ => ?_)
  rw [← bind_pure (loop first _)]
  refine h.loop [] (by simp) fine (fun ps t h fine => ?_) fun ps t h fine => h.give (by simp) fine
  refine .ahead (.ite (fun _ => h.give (by simp) fine) fun _ => ?_)
  refine after (parameter_gives hn (by simpa using h) fine) fun ps u h fine => ?_
  refine .check (.ite (fun _ => h.give (by simp) fine) fun _ => h.expect fun v h => ?_)
  exact .check (.ite (fun _ => h.give (by simp) fine) fun _ => h.give (by simp) fine)

theorem parameters_reads {restricted : Option Token} (hr : L.Fine restricted) :
    L.Reads (parameters nested restricted) :=
    fun s h => by
  have first : L.Fine ({ restricted := restricted.map .token } : Parameters) := fun u hu => by
    refine hr u ?_
    cases restricted <;> simp_all [Parameters.tokens_eq, Offender.token?]
  refine h.expect fun t h => after (parameterList_gives hn first h) fun ps u h fine => ?_
  exact h.expect fun v h => .context (h.settleIf .failHere fun w h => h.give (by simp) fine)

end

/-! ## Parameters of an arrow function -/

variable {isAsync : Bool}

theorem arrowParameter_gives {param : Node} (h : L.Held .ahead base (param :: l) s) :
    L.Safe (arrowParameter isAsync param) s (L.Gives .ahead base l) := by
  unfold arrowParameter
  split
  next left right hkind =>
    split
    · exact h.failAhead
    next d hright => exact (h.alike (Node.outline_yield hkind hright)).give (by simp) (by simp)
    · exact h.give (by simp) (by simp)
  · exact .ite (fun _ => h.failAhead) fun _ => h.give (by simp) (by simp)

theorem mapM_arrowParameter_gives {params : List Node} (h : L.Held .ahead base (params ++ l) s) :
    L.Safe (params.mapM (arrowParameter isAsync)) s (L.Gives .ahead base l) := by
  induction params generalizing l s with
  | nil =>
    rw [List.mapM_nil]
    exact h.give (by simp) (by simp)
  | cons param params ih =>
    rw [List.mapM_cons]
    refine after (arrowParameter_gives h) fun n t h _ => ?_
    have others : L.Held .ahead base (params ++ n :: l) t := h.fewer (by simp +arith)
    exact after (ih others) fun ns u h _ => h.give (by simp +arith) (by simp)

theorem arrowNodes_gives {list : Node} (h : L.Held .ahead base (list :: l) s) :
    L.Safe (arrowNodes list) s (L.Gives .ahead base l) := by
  unfold arrowNodes
  split
  next params async hlist =>
    have opened := h.opened (by rw [hlist]; nofun)
    rw [Node.children, hlist] at opened
    exact opened.give (by simp [Kind.children]) (by simp)
  · exact h.give (by simp) (by simp)
  · exact h.failAhead

theorem arrowParameters_gives {list : Node} (h : L.Held .ahead base (list :: l) s) :
    L.Safe (arrowParameters list isAsync) s (L.Gives .ahead base l) := by
  refine after (arrowNodes_gives h) fun nodes t h _ => ?_
  refine after (mapM_arrowParameter_gives (by simpa using h)) fun params u h _ => .context ?_
  refine h.settleIf .failAhead fun v h => h.settleIf .failHere fun w h => h.give ?_ ?_
  · simp [Parameters.ofNodes_params]
  · simp [Fine, Parameters.tokens_ofNodes]

end Ledger

end EcmaTree
