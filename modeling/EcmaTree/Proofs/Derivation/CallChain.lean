import EcmaTree.Grammar.CallChain
import EcmaTree.Proofs.Derivation.Primary

/-!
# Member accesses and calls

What is known of a chain while its links are read depends on the token ahead: a link must follow `super`, and none
follows arguments that became parameters, since the arrow does.
-/

namespace EcmaTree.Parse

open Judgement (onSuccess)

variable {α β : Type} {source : String} {outer : Scope} {m o : Mode} {E : Setting} {c : Cover}
  {s t : ParseState} {nested : Nested}

/-! ## Arguments -/

/-- What arguments are that may or may not become parameters. -/
abbrev argumentProspect (maybeParameters : Bool) : Prospect := if maybeParameters then .bare else .value

/-- An argument, where the cover says something of what is spread. -/
abbrev DerivedArgument (source : String) (outer : Scope) (E : Setting) (maybeParameters : Bool)
    (n : Node) (c : Cover) : Prop :=
  (n.isSpread = false → Derived source outer E (.expression (argumentProspect maybeParameters)) n) ∧
    (n.isSpread = true → Derived source outer E (.element c.prospect) n)

section
variable (outer) (hn : Sound source nested)
include hn

theorem argument_derived (maybeParameter : Bool) (E : Setting) (c : Cover) :
    Reads source E c (argument nested maybeParameter) fun n c' =>
      c'.prospect ≤ c.prospect ∧ DerivedArgument source outer E maybeParameter n c' := by
  refine .check fun _ => .ite (fun _ => ?_) fun _ => ?_
  · refine .mono (spread_derived outer hn E c) ?_
    rintro _ _ c' ⟨rfl, hc, i, e, rfl, he⟩
    exact ⟨rfl, hc, nofun, fun _ => .spread he⟩
  refine .mono (.isolate (P := fun n E' d => E = E' ∧ (d.pending = none →
    Derived source outer E (.expression (argumentProspect maybeParameter)) n))
      (.part ((hn.assignment outer) E _) fun n d h => ?_)) ?_
  · refine .ite (fun hm => .modifyCover (.pure ⟨rfl, fun _ => ?_⟩)) fun hm => .pure ⟨rfl, fun hd => ?_⟩
    · exact .weaken (by simp [argumentProspect, hm, Prospect.bare_le]) h
    · exact .weaken (by simp [argumentProspect, hm, Prospect.le_iff, Cover.prospect, hd]) h
  · rintro n _ _ ⟨rfl, d, hd, rfl, h⟩
    exact ⟨rfl, Prospect.le_refl _, fun _ => h hd, fun hs => absurd hs (by simp [(h hd).isSpread (by simp)])⟩

theorem arguments_derived (maybeParameters : Bool) (E : Setting) (c : Cover) :
    Reads source E c (arguments nested maybeParameters) fun args c' =>
      c'.prospect ≤ c.prospect ∧ ∀ n ∈ args, DerivedArgument source outer E maybeParameters n c' := by
  have close {args : List Node} {c' : Cover} (hc : c'.prospect ≤ c.prospect)
      (ha : ∀ n ∈ args, DerivedArgument source outer E maybeParameters n c') : Reads source E c' (do
        expect .rightParen
        return args.reverse) fun args c' => c'.prospect ≤ c.prospect ∧ ∀ n ∈ args,
          DerivedArgument source outer E maybeParameters n c' :=
    .keep .expect fun _ _ => .pure ⟨rfl, hc, by simpa using ha⟩
  refine .keep .expect fun _ _ => .check fun _ =>
    .ite (fun _ => .value (close (Prospect.le_refl _) (List.forall_mem_nil _))) fun _ => ?_
  refine .part (Reads.loop (I := fun args c' => c'.prospect ≤ c.prospect ∧ ∀ n ∈ args,
    DerivedArgument source outer E maybeParameters n c')
    (D := fun args c' => c'.prospect ≤ c.prospect ∧ ∀ n ∈ args, DerivedArgument source outer E maybeParameters n c')
    ⟨Prospect.le_refl _, List.forall_mem_nil _⟩ ?_) fun args c' h => close h.1 h.2
  rintro args c' ⟨hc, ha⟩
  refine .part (argument_derived outer hn maybeParameters E c') ?_
  rintro n d ⟨hd, hn⟩
  have more : d.prospect ≤ c.prospect ∧ ∀ m ∈ n :: args, DerivedArgument source outer E maybeParameters m d :=
    ⟨Prospect.le_trans hd hc, List.forall_mem_cons.2 ⟨hn,
      fun m hm => ⟨(ha m hm).1, fun hs => .of_le hd ((ha m hm).2 hs)⟩⟩⟩
  refine .check fun _ => .ite (fun _ => .pure ⟨rfl, more⟩) fun _ => .keep .expectSeparator fun _ _ => ?_
  exact .check fun _ => .ite (fun _ => .pure ⟨rfl, more⟩) fun _ => .pure ⟨rfl, more⟩

/-! ## `new` and `super` -/

theorem newExpression_derived : Covers source outer .expression (newExpression nested) := fun E c => by
  refine .mark fun start => .keep identifierName_keeps ?_
  rintro _ ⟨i, name, rfl⟩
  refine .keep .accept fun _ _ =>
    .ite (fun _ => .ahead fun t => .context (.ite (fun _ => ?_) fun _ => Stops.failAhead.yields)) fun _ => ?_
  · refine .keep identifierName_keeps ?_
    rintro _ ⟨j, name', rfl⟩
    exact .finish fun k => ⟨rfl, .of_free (.metaProperty .name .name)⟩
  refine .checkKeyword fun _ => .ite (fun _ => Stops.failAhead.yields) fun _ =>
    .isolated (hn.callee outer) fun callee hcallee => ?_
  have close {args : List Node} {c' : Cover} (ha : ∀ n ∈ args, DerivedArgument source outer E false n c') :
      Reads source E c' (do
      nonPattern
      finish start (.new callee args)) fun n c' => Derived source outer E (.expression c'.prospect) n :=
    .nonPattern (.finish fun i => ⟨rfl, .newExpression hcallee (fun n hn => (ha n hn).1) fun n hn => (ha n hn).2⟩)
  refine .check fun _ => .ite (fun _ => ?_) fun _ => .value (close (List.forall_mem_nil _))
  exact .part (arguments_derived outer hn false E c) fun args c' h => close h.2

/-! ## The beginning of a chain -/

theorem chainBase_derived : Covers source outer .expression (chainBase nested) := fun E c => by
  have read {p : Parse Node} (h : Covers source outer .expression p) : Reads source E c (inherit p) fun n c' =>
      Derived source outer E (.expression c'.prospect) n := .mono (h.inherit E c) fun n E' c' ⟨hE, _, h⟩ => ⟨hE, h⟩
  exact .checkKeyword fun _ => .ite (fun _ => read (newExpression_derived outer hn)) fun _ =>
    read (primary_derived outer hn)

omit hn in
theorem superBase_derived (allowsCall : Bool) (E : Setting) (c : Cover) :
    Reads source E c (superBase allowsCall) fun n _ => Derived source outer E (.links false .free) n := by
  refine .mark fun start => .keep .expectKeyword fun _ _ => .check fun _ => .check fun _ => .check fun _ =>
    .ite (fun _ => ?_) fun _ => ?_
  · exact .node fun i => .ite (fun _ => .pure ⟨rfl, .superBase⟩) fun _ => Stops.failAhead.yields
  · exact .ite (fun _ => .finish fun i => ⟨rfl, .superBase⟩) fun _ => Stops.failAhead.yields

/-- A link is ahead, or a call if there may be one. -/
def LinkAhead (allowsCall : Bool) (s : ParseState) : Prop :=
  (s.lookahead.isPunctuator .leftBracket || s.lookahead.isPunctuator .dot ||
    (allowsCall && s.lookahead.isPunctuator .leftParen)) = true

omit hn in
theorem superBase_linkAhead (allowsCall : Bool) :
    onSuccess.Ensures (superBase allowsCall) s fun _ => LinkAhead allowsCall := by
  refine .mark (Judgement.bind any fun _ t _ => .check (.check (.check (.ite (fun hcall => ?_) fun hcall => ?_))))
  · refine Judgement.bind .finish fun _ u ⟨_, hu⟩ => .ite (fun h => onSuccess.ofPure ?_) fun _ => .failAhead
    simpa [LinkAhead, hcall, hu] using h
  · refine .ite (fun h => onSuccess.mono .finish fun _ u ⟨_, hu⟩ => ?_) fun _ => .failAhead
    rw [LinkAhead, hu]
    simp_all

/-- What is known of a chain so far. -/
structure ChainAt (source : String) (outer : Scope) (E : Setting) (first : Token) (allowsCall : Bool)
    (c : Chain) (s : ParseState) : Prop where
  strict : s.Strict source .ahead
  setting : E = s.setting
  links : Derived source outer E (.links c.hasOptional s.cover.prospect) c.expression
  super : c.expression.isSuper = true → LinkAhead allowsCall s
  async : first.isIdentifierNamed "async" = true → c.expression.beginsAsync = true ∨ s.arrowAhead

omit hn in
theorem chainBase_beginsAsync (hasync : s.lookahead.isIdentifierNamed "async" = true) :
    onSuccess.Ensures (chainBase nested) s fun n _ => n.beginsAsync = true := by
  refine .checkKeyword (.neg ?_ (.inherit fun t ht => ?_))
  · simp [Token.isKeyword, Token.isIdentifierNamed_iff.1 hasync]
  · exact onSuccess.mono (primary_beginsAsync (ht.lookahead ▸ hasync)) fun _ _ h _ _ => h

theorem chainHead_ensures {isSuper allowsCall : Bool} (hs : s.Strict source .ahead)
    (hsuper : isSuper = true → s.lookahead.isKeyword "super" = true) :
    onSuccess.Ensures (chainHead nested isSuper allowsCall) s fun n =>
      ChainAt source outer s.setting s.lookahead allowsCall ⟨n, false⟩ := by
  refine .context (.ite (fun h n t ht => ?_) fun _ n t ht => ?_)
  · rw [Bool.and_eq_true] at h
    obtain ⟨strict, setting, links⟩ := superBase_derived outer allowsCall _ _ s hs rfl rfl n t ht
    refine ⟨strict, setting, .weaken (Prospect.le_free _) links,
      fun _ => superBase_linkAhead allowsCall n t ht, fun hasync => ?_⟩
    simp [Token.isIdentifierNamed, Token.isKeyword_iff.1 (hsuper h.1)] at hasync
  · obtain ⟨strict, setting, base⟩ := chainBase_derived outer hn _ _ s hs rfl rfl n t ht
    refine ⟨strict, setting, .base base, fun h => ?_, fun hasync => .inl (chainBase_beginsAsync hasync n t ht)⟩
    simp [base.isSuper (by simp)] at h

/-! ## Links -/

/-- What is known of a chain when a link may follow, behind `?.` if it is optional. -/
structure LinkAt (source : String) (outer : Scope) (E : Setting) (first : Token) (allowsCall : Bool)
    (c : Chain) (optional : Bool) (s : ParseState) : Prop where
  strict : s.Strict source .ahead
  setting : E = s.setting
  links : Derived source outer E (.links c.hasOptional s.cover.prospect) c.expression
  super : c.expression.isSuper = true → optional = false ∧ LinkAhead allowsCall s
  async : first.isIdentifierNamed "async" = true → c.expression.beginsAsync = true ∨ optional = false ∧ s.arrowAhead

omit hn in
/-- Reading `?.`, if it is ahead. -/
theorem acceptOptional_ensures {first : Token} {allowsCall : Bool} {c : Chain}
    (h : ChainAt source outer E first allowsCall c s) :
    onSuccess.Ensures acceptOptional s fun optional => LinkAt source outer E first allowsCall c optional := by
  obtain ⟨strict, rfl, links, super, async⟩ := h
  refine .check (.ite (fun hdot => ?_) fun _ => onSuccess.ofPure ⟨strict, rfl, links,
    fun h => ⟨rfl, super h⟩, fun h => ?_⟩)
  · refine Judgement.bind .skip fun _ t ht => onSuccess.ofPure ?_
    obtain ⟨strict', setting, cover⟩ := strict.advances ht
    rw [Token.isPunctuator_iff] at hdot
    refine ⟨strict', setting.symm, cover ▸ links, fun h => ?_, fun h => .inl ((async h).resolve_right ?_)⟩
    · simpa [LinkAhead, Token.isPunctuator, hdot] using super h
    · simp [ParseState.arrowAhead, Token.isPunctuator, hdot]
  · exact (async h).imp_right fun h => ⟨rfl, h⟩

/-- A link that is no call, or none. -/
theorem link_ensures {first : Token} {allowsCall : Bool} {start : Place} {c : Chain} {optional : Bool}
    (h : LinkAt source outer E first allowsCall c optional s) :
      onSuccess.Ensures (link nested start (c.after optional) optional) s fun r t =>
      (∀ e ∈ r, ChainAt source outer E first allowsCall { c.after optional with expression := e } t) ∧
        (r = none → t = s ∧ optional = false ∧ s.lookahead.isPunctuator .leftBracket = false ∧
          s.lookahead.isPunctuator .dot = false) := by
  obtain ⟨strict, rfl, links, super, async⟩ := h
  have read {p : Parse (Option Node)} (hlink : optional = true ∨ ¬ s.arrowAhead)
      (hp : Reads source s.setting s.cover p fun r c' =>
      ∃ e, r = some e ∧ Derived source outer s.setting (.links (c.after optional).hasOptional c'.prospect) e ∧
        e.isSuper = false ∧
        (c.expression.beginsAsync = true → e.beginsAsync = true)) : onSuccess.Ensures p s fun r t =>
      (∀ e ∈ r, ChainAt source outer s.setting first allowsCall { c.after optional with expression := e } t) ∧
        (r = none → t = s ∧ optional = false ∧ s.lookahead.isPunctuator .leftBracket = false ∧
          s.lookahead.isPunctuator .dot = false) := by
    refine onSuccess.mono (hp s strict rfl rfl) ?_
    rintro _ t ⟨strict', setting, e, rfl, links', notSuper, begins⟩
    refine ⟨?_, by simp⟩
    rintro _ ⟨⟩
    refine ⟨strict', setting, links', fun h => by simp [notSuper] at h,
      fun h => .inl (begins ((async h).resolve_right ?_))⟩
    rintro ⟨hoptional, harrow⟩
    rcases hlink with h | h
    · simp [hoptional] at h
    · exact h harrow
  have member {field : Node} {computed : Bool} {i : NodeInfo} {c' : Cover}
      (hc : c'.prospect = ⟨!optional, false, s.cover.prospect.settled⟩)
        (hf : Derived source outer s.setting .node field) :
      ∃ e, some (.mk i (.member c.expression field computed optional)) = some e ∧
        Derived source outer s.setting (.links (c.after optional).hasOptional c'.prospect) e ∧ e.isSuper = false ∧
          (c.expression.beginsAsync = true → e.beginsAsync = true) :=
    ⟨_, rfl, hc ▸ .member links hf, rfl, id⟩
  refine .ahead (.ite (fun hp => ?_) fun hbracket => .ite (fun hp => ?_) fun _ => .ite (fun hp => ?_) fun hdot => ?_)
  · refine read (.inr (ParseState.not_arrow_of_punctuator hp)) (.modifyCover (.keep .skip fun _ _ => ?_))
    refine .part (Reads.isolate (expression_gives outer hn _ _)) ?_
    rintro field _ ⟨rfl, hf⟩
    exact .keep .expect fun _ _ => .node fun i => .pure ⟨rfl, member rfl (.of_value hf)⟩
  · refine read (.inr (ParseState.not_arrow_of (f := Token.isTemplateHead) hp fun _ => rfl)) ?_
    refine .assert Stops.failAhead fun ho => .assert Stops.failHere fun hc =>
      .part (template_derived outer hn true _ _) ?_
    rintro _ _ ⟨rfl, i, quasis, expressions, rfl, hq⟩
    refine .node fun j => .pure ⟨rfl, _, rfl, ?_, rfl, id⟩
    have chained : c.hasOptional = false := by simp_all [Chain.after]
    have notSuper : c.expression.isSuper = false := by
      refine Bool.not_eq_true _ ▸ fun h => ?_
      have := (super h).2
      cases hl : s.lookahead.lexeme <;> simp_all [LinkAhead, Token.isPunctuator, Token.isTemplateHead]
    rw [chained] at links
    simpa [Chain.after, chained, ho] using .taggedTemplate notSuper links (.complete rfl (.template hq))
  · rw [Bool.or_eq_true] at hp
    have named : Reads source s.setting ⟨!optional, false, s.cover.pending⟩ (do
        let field ← identifierName
        return some (← finish start (.member c.expression field false optional))) fun r c' =>
          ∃ e, r = some e ∧ Derived source outer s.setting (.links (c.after optional).hasOptional c'.prospect)
            e ∧ e.isSuper = false ∧
            (c.expression.beginsAsync = true → e.beginsAsync = true) := by
      refine .keep identifierName_keeps ?_
      rintro _ ⟨i, name, rfl⟩
      exact .node fun j => .pure ⟨rfl, member rfl .name⟩
    refine read (hp.symm.imp_right ParseState.not_arrow_of_punctuator)
      (.modifyCover (.ite (fun _ => named) fun _ => ?_))
    exact .keep .expect fun _ _ => named
  · rw [Bool.or_eq_true, not_or, Bool.not_eq_true, Bool.not_eq_true] at hdot
    exact onSuccess.ofPure ⟨by simp, fun _ => ⟨rfl, hdot.2, by simpa using hbracket, hdot.1⟩⟩

/-- Going on behind a link that is no call. The chain is done where nothing follows. -/
theorem goOn_ensures {first : Token} {allowsCall : Bool} {start : Place} {c : Chain} {optional : Bool}
    (h : LinkAt source outer E first allowsCall c optional s)
    (hcall : ¬ (allowsCall && s.lookahead.isPunctuator .leftParen) = true) :
    onSuccess.Ensures (goOn nested start (c.after optional) optional) s
      (Progress.Holds (ChainAt source outer E first allowsCall) fun c t =>
        ChainAt source outer E first allowsCall c t ∧ c.expression.isSuper = false) := by
  refine Judgement.bind (link_ensures outer hn h) ?_
  rintro (_ | e) t ⟨hsome, hnone⟩
  · obtain ⟨rfl, rfl, hbracket, hdot⟩ := hnone rfl
    have notSuper : c.expression.isSuper = false := by
      refine Bool.not_eq_true _ ▸ fun hsuper => ?_
      exact hcall (by simpa [LinkAhead, hbracket, hdot] using (h.super hsuper).2)
    have same : c.after false = c := by simp [Chain.after]
    rw [same]
    exact onSuccess.ofPure ⟨⟨h.strict, h.setting, h.links, fun h => by simp [notSuper] at h,
      fun ha => (h.async ha).imp_right (·.2)⟩, notSuper⟩
  · exact onSuccess.ofPure (hsome e rfl)

omit hn in
/-- A finished chain is an expression. -/
theorem finishChain_derived {first : Token} {allowsCall : Bool} {start : Place} {c : Chain}
    (h : ChainAt source outer E first allowsCall c s) (hsuper : c.expression.isSuper = false) :
    onSuccess.Ensures (finishChain start c) s fun n t => t.Strict source .ahead ∧ E = t.setting ∧
      Derived source outer E (.expression t.cover.prospect) n := by
  obtain ⟨strict, rfl, links, -, -⟩ := h
  refine .ite (fun hoptional => ?_) fun hoptional => onSuccess.ofPure ⟨strict, rfl, .endChain hsuper ?_⟩
  · rw [hoptional] at links
    exact Yields.finish (Q := fun n E' c' => s.setting = E' ∧
      Derived source outer s.setting (.expression c'.prospect) n)
      (fun i => ⟨rfl, .chain links⟩) s strict rfl rfl
  · simpa [hoptional] using links

theorem callee_derived : Covers source outer .expression (callee nested) := by
  rintro E c s hs rfl rfl
  refine .ahead (.checkKeyword (Judgement.bind (chainHead_ensures outer hn hs id) fun base t ht => ?_))
  refine Judgement.bind (P := fun c t => ChainAt source outer s.setting s.lookahead false c t ∧
    c.expression.isSuper = false)
    (Judgement.Ensures.loop (I := ChainAt source outer s.setting s.lookahead false) ht fun c u hu => ?_)
      fun c u hu => finishChain_derived outer hu.1 hu.2
  exact Judgement.bind (acceptOptional_ensures outer hu) fun optional v hv => goOn_ensures outer hn hv nofun

/-! ## Calls -/

omit hn in
theorem DerivedArgument.parameter {maybeParameters : Bool} {n : Node}
    (h : DerivedArgument source outer E maybeParameters n c) :
    Derived source outer E .parameter n.toPattern := by
  refine .operandParameter ?_
  cases hspread : n.isSpread with
  | false => exact .operand (h.1 hspread).to_bare
  | true => exact .weaken (Prospect.bare_le _) (h.2 hspread)

theorem call_ensures {first : Token} {c : Chain} {optional : Bool} (h : LinkAt source outer E first true c optional s)
    (hparen : s.lookahead.isPunctuator .leftParen = true) :
      onSuccess.Ensures (call nested first (c.after optional) optional) s fun e t =>
      ChainAt source outer E first true { c.after optional with expression := e } t := by
  obtain ⟨strict, rfl, links, -, async⟩ := h
  refine .ahead (onSuccess.ofBind (.modifying (fun _ _ _ => rfl) ?_))
  refine Judgement.bind (Reads.all (fun outer => arguments_derived outer hn _ _ _)
    { s with cover := s.cover.nonPattern } (strict.congr rfl rfl) rfl rfl) ?_
  rintro args t ⟨ht, setting, h⟩
  obtain ⟨hc, ha⟩ := h outer
  refine .ite (fun _ => Stops.tolerateHere.bind.ensures ht.scanner) fun _ => .check (.ite (fun hp => ?_) fun _ => ?_)
  · rw [Bool.and_eq_true] at hp
    refine onSuccess.ofPure ⟨ht, setting, .weaken (Prospect.le_free _) (.waitingChain fun outer => ?_),
      fun h => absurd h Bool.false_ne_true, fun _ => .inr hp.2⟩
    exact List.forall_mem_map.2 fun n hn => ((h outer).2 n hn).parameter outer
  · have begins (hasync : first.isIdentifierNamed "async" = true) : c.expression.beginsAsync = true :=
      (async hasync).resolve_right fun h => ParseState.not_arrow_of_punctuator hparen h.2
    have closed : t.cover.prospect ≤ t.cover.prospect.closed := by
      simp_all [Prospect.le_iff, Cover.prospect, Cover.nonPattern]
    have callee : Derived source outer s.setting (.links c.hasOptional t.cover.prospect) c.expression :=
      .weaken (Prospect.le_trans hc s.cover.nonPattern_le) links
    refine onSuccess.mono .finish ?_
    rintro e u ⟨rfl, rfl⟩
    refine ⟨ht.congr rfl rfl, setting, .weaken closed ?_, fun h => absurd h Bool.false_ne_true,
      fun hasync => .inl (begins hasync)⟩
    cases hm : first.isIdentifierNamed "async" && first.line == s.lookahead.line with
    | false =>
      rw [hm] at ha
      exact .call callee (fun n hn => (ha n hn).1) fun n hn => (ha n hn).2
    | true =>
      rw [hm] at ha
      rw [Bool.and_eq_true] at hm
      exact .asyncCall (begins hm.1) callee (fun n hn => (ha n hn).1) fun n hn => (ha n hn).2

theorem chainLinks_ensures {first : Token} {c : Chain} (h : ChainAt source outer E first true c s) :
    onSuccess.Ensures (chainLinks nested first c) s fun c t => ChainAt source outer E first true c t ∧
      c.expression.isSuper = false := by
  refine Judgement.Ensures.loop (I := ChainAt source outer E first true) h fun c t ht => ?_
  refine Judgement.bind (acceptOptional_ensures outer ht) fun optional u hu =>
    .check (.ite (fun hparen => ?_) fun hparen => ?_)
  · exact Judgement.bind (call_ensures outer hn hu hparen) fun e v hv => onSuccess.ofPure hv
  · exact goOn_ensures outer hn hu hparen

theorem chainFrom_ensures (hs : s.Strict source .ahead) : onSuccess.Ensures (chainFrom nested s.lookahead) s fun n t =>
    t.Strict source .ahead ∧ s.setting = t.setting ∧
      Derived source outer s.setting (.expression t.cover.prospect) n := by
  refine Judgement.bind (chainHead_ensures outer hn hs id) fun base t ht =>
    .check (.context (.ite (fun _ => ?_) fun _ => ?_))
  · exact Stops.tolerateHere.bind.ensures ht.strict.scanner
  · exact Judgement.bind (chainLinks_ensures outer hn ht) fun c u hu => finishChain_derived outer hu.1 hu.2

theorem callChain_derived : Covers source outer .expression (callChain nested) := by
  rintro E c s hs rfl rfl
  refine .ahead (onSuccess.get (onSuccess.ofBind (.modifying (fun _ _ _ => rfl) ?_)))
  refine Judgement.bind (chainFrom_ensures outer hn
    (s := { s with context := { s.context with allowIn := true } }) (hs.congr rfl rfl)) ?_
  rintro n t ⟨ht, setting, h⟩
  have labels : s.labels = t.labels := congrArg Setting.labels setting
  refine onSuccess.ofBind (.modifying (fun _ _ _ => rfl) (onSuccess.ofPure ⟨ht.congr rfl rfl, ?_, h⟩))
  simp [ParseState.setting, labels]

end

end EcmaTree.Parse
