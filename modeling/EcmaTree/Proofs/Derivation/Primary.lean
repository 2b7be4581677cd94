import EcmaTree.Grammar.Primary
import EcmaTree.Proofs.Derivation.Jsx
import EcmaTree.Proofs.Derivation.Object

/-!
# Primary expressions

A group is an expression, or parameters that wait for their arrow, which are patterns then. What begins with the name
`async` begins with an asynchronous function or with that name.
-/

namespace EcmaTree

theorem Derives.sequenceItems {size : Nat} {σ : Scope} {form : Form} {p : Prospect} {n : Node} {expressions : List Node}
    (h : Derives size σ (.covered form p) n) (hn : n.kind = .sequence expressions) :
    ∀ m ∈ expressions, Derives size σ (.expression .bare) m := by
  generalize hs : Symbol.covered form p = symbol at h
  induction h generalizing form p with
  | weaken _ _ ih | operand _ ih | base _ ih | endChain _ _ ih => exact ih hn rfl
  | sequence h =>
    cases hn
    exact fun m hm => (h m hm).to_bare
  | _ => first | cases hs; cases hn | cases hs

/-- An expression read as a parameter. -/
theorem Derives.expressionParameter {size : Nat} {σ : Scope} {p : Prospect} {n : Node}
    (h : Derives size σ (.expression p) n) :
    Derives size σ .parameter n.toPattern := .operandParameter (.operand h.to_bare)

namespace Parse

open Judgement (onSuccess)

variable {source : String} {outer : Scope} {E : Setting} {c : Cover} {s : ParseState} {nested : Nested}

/-! ## Parentheses -/

theorem requireArrow_keeps : Keeps source .ahead .ahead requireArrow fun _ => True := fun E c =>
  .check fun _ => .ite (fun _ => .pure ⟨rfl, rfl, trivial⟩) fun _ => Keeps.expect E c

theorem placeholder_derived {params : List Node} {async : Bool} {p : Prospect}
    (h : ∀ outer, ∀ n ∈ params, Derived source outer E .parameter n) :
    Derived source outer E (.expression p) (placeholder params async) := .of_free (.waiting h)

theorem groupParameters_derived {p : Prospect} {e : Node} (h : Derived source outer E (.expression p) e) :
    ∀ n ∈ groupParameters e, Derived source outer E .parameter n := by
  unfold groupParameters
  split
  next expressions he =>
    rw [List.forall_mem_map]
    exact fun n hn => (h.sequenceItems he n hn).expressionParameter
  · simpa using h.expressionParameter

section
variable (outer) (hn : Sound source nested)
include hn

theorem groupRest_derived (E : Setting) (c : Cover) : Reads source E c (groupRest nested) fun n _ =>
    Derived source outer E .parameter n.toPattern ∧ Derived source outer E .parameter n := by
  refine .part (finalRest_derived outer hn .rightParen .restNotLast E c) ?_
  rintro ⟨_, names⟩ c' ⟨i, argument, rfl, h⟩
  have param : Derived source outer E .parameter (.mk i (.rest argument)) := .boundParameter (.rest h)
  exact .keep .expect fun _ _ => .keep requireArrow_keeps fun _ _ =>
    .pure ⟨rfl, by simpa [Node.toPattern, Node.kindToPattern] using param, param⟩

/-- What is known of the items of a group that have been read. Before the arrow nobody knows whether they are
parameters. -/
def GroupItems (source : String) (E : Setting) (c : Cover) (r : List Node × Bool) : Prop :=
  (r.2 = true → ∀ n ∈ r.1, ∀ outer, Derived source outer E .parameter n.toPattern) ∧
    (r.2 = false → c.isAssignmentTarget = false ∧ ∀ n ∈ r.1, ∀ outer, Derived source outer E (.expression c.prospect) n)

omit outer in
theorem groupItems_derived {first : Node} (h : ∀ outer, Derived source outer E (.expression c.prospect) first) :
    Reads source E c (groupItems nested first) fun r c' => GroupItems source E c' r := by
  refine .modifyCover (.part (Reads.loop (I := fun r c => r.2 = false ∧ GroupItems source E c r)
    (D := fun r c => GroupItems source E c r) ⟨rfl, by simp, fun _ => ⟨rfl, ?_⟩⟩ ?_) ?_)
  · simpa using fun outer => .weaken (by simp [Prospect.le_iff, Cover.prospect]) (h outer)
  · rintro ⟨items, _⟩ c ⟨rfl, h⟩
    obtain ⟨htarget, hitems⟩ := h.2 rfl
    have params : ∀ n ∈ items, ∀ outer, Derived source outer E .parameter n.toPattern := fun n hn outer =>
      (hitems n hn outer).expressionParameter
    refine .keep .accept fun _ _ => .ite (fun _ => .pure ⟨rfl, h⟩) fun _ => .keep .accept fun _ _ =>
      .ite (fun _ => ?_) fun _ => ?_
    · exact .pure ⟨rfl, fun _ => params, by simp⟩
    · refine .check fun _ => .ite (fun _ => .get fun _ _ _ _ => .require Stops.failAhead fun _ => ?_) fun _ => ?_
      · refine .part (Reads.all fun outer => groupRest_derived outer hn E c) fun rest c' hr =>
          .modifyCover (.pure ⟨rfl, fun _ => ?_, by simp⟩)
        exact List.forall_mem_cons.2 ⟨fun outer => (hr outer).1, params⟩
      · refine .inheritedAnywhere hn.assignment fun e c' hc he => .pure ⟨rfl, rfl, by simp, fun _ => ⟨?_, ?_⟩⟩
        · simpa [Cover.prospect, htarget] using hc.1
        · exact List.forall_mem_cons.2 ⟨he, fun n hn outer => .of_le hc (hitems n hn outer)⟩
  · rintro ⟨items, isParameters⟩ c h
    exact .pure ⟨rfl, by simpa [GroupItems] using h⟩

omit hn in
theorem closeGroup_derived {e : Node} (h : ∀ outer, Derived source outer E (.expression c.prospect) e) :
    Reads source E c (closeGroup e) fun n c' => Derived source outer E (.expression c'.prospect) n := by
  have close {n : Node} {p : Prospect} (hn : Derived source outer E (.expression p) n)
      (hp : { c with isBindingElement := false }.prospect ≤ p) :
      Reads source E c (do
        modifyCover ({ · with isBindingElement := false })
        return n) fun n c' => Derived source outer E (.expression c'.prospect) n :=
    .modifyCover (.pure ⟨rfl, .weaken hp hn⟩)
  refine .keep .expect fun _ _ => .check fun _ => .ite (fun _ => .ite (fun hyield => .value ?_) fun _ => ?_)
    fun _ => .value ?_
  · refine close (placeholder_derived ?_) (Prospect.le_free _)
    obtain ⟨i, rfl⟩ := Node.eq_identifier (eq_of_beq hyield)
    exact fun _ => List.forall_mem_singleton.2 (.boundParameter .namePattern)
  · refine .get fun _ _ _ _ => .require Stops.failAhead fun _ =>
      .value (close (placeholder_derived ?_) (Prospect.le_free _))
    exact fun outer => groupParameters_derived (h outer)
  · exact close (h _) (by simp [Prospect.le_iff, Cover.prospect])

theorem groupContents_derived : Covers source outer .expression (groupContents nested) := fun E c => by
  refine .ahead fun start => .modifyCover (.inheritedAnywhere hn.assignment fun first c' _ hf => ?_)
  refine .check fun _ => .ite (fun _ => ?_) fun _ => closeGroup_derived outer hf
  refine .part (groupItems_derived hn hf) ?_
  rintro ⟨items, isParameters⟩ c' h
  refine .ite (fun hp => .pure ⟨rfl, ?_⟩) fun hp => ?_
  · exact placeholder_derived fun outer => List.forall_mem_map.2 fun n hn => h.1 hp n hn outer
  · obtain ⟨htarget, hitems⟩ := h.2 (by simpa using hp)
    refine .node fun i => closeGroup_derived outer fun outer => .weaken ?_ (.sequence fun n hn => hitems n hn outer)
    simp [Prospect.le_iff, Cover.prospect, htarget]

theorem group_derived : Covers source outer .expression (group nested) := fun E c => by
  refine .keep .expect fun _ _ => .keep .accept fun _ _ => .ite (fun _ => ?_) fun _ => .check fun _ =>
    .ite (fun _ => ?_) fun _ => ?_
  · exact .keep requireArrow_keeps fun _ _ => .pure ⟨rfl, placeholder_derived fun _ => List.forall_mem_nil _⟩
  · refine .part (Reads.all fun outer => groupRest_derived outer hn E c) fun rest c' h =>
      .pure ⟨rfl, placeholder_derived fun outer => ?_⟩
    simpa using (h outer).2
  · exact groupContents_derived outer hn E c

end

/-! ## Literals and names -/

theorem literal_derived (outer : Scope) (E : Setting) (c : Cover) :
    Reads source E c literal fun n c' => Derived source outer E (.expression c'.prospect) n := by
  refine .mark fun start => .aheadMarked fun t ht =>
    .isStrict (.assert Stops.tolerateWith fun hl => .nonPattern (.keep .skip fun _ _ => .finish fun i => ⟨rfl, ?_⟩))
  refine .weaken (by simp [Prospect.le_iff, Cover.prospect, Cover.nonPattern]) (.literal ht fun legacy => ?_)
  simpa [legacy, Setting.scopeIn] using hl

theorem regex_strict (hs : s.Strict source .ahead)
    (hslash : (s.lookahead.isPunctuator .slash || s.lookahead.isPunctuator .divAssign) = true) :
    onSuccess.Ensures regex s fun _ t => t.Strict source .ahead ∧ t.setting = s.setting ∧ t.cover = s.cover := by
  refine onSuccess.mono (.regex hs.placed hslash) ?_
  rintro _ t ⟨u, hu, -, ht⟩
  have strict : u.Strict source .ahead ∧ u.setting = s.setting ∧ u.cover = s.cover := by
    have placed := hu.sited hs.placed
    obtain ⟨_, _, _, _, _, _, _, rfl⟩ := hu
    exact ⟨⟨hs.dialect, hs.scanner, placed⟩, rfl, rfl⟩
  obtain ⟨ht, hE, hc⟩ := strict.1.advances ht
  exact ⟨ht, hE.trans strict.2.1, hc.trans strict.2.2⟩

theorem regexLiteral_derived (outer : Scope) (hs : s.Strict source .ahead)
    (hslash : (s.lookahead.isPunctuator .slash || s.lookahead.isPunctuator .divAssign) = true) :
    onSuccess.Ensures regexLiteral s fun n t => t.Strict source .ahead ∧ s.setting = t.setting ∧
      Derived source outer s.setting (.expression t.cover.prospect) n := by
  refine .mark (onSuccess.ofBind (.modifying (fun _ _ _ => rfl) ?_))
  refine Judgement.bind (regex_strict (s := { s with cover := s.cover.nonPattern }) (hs.congr rfl rfl) hslash)
    fun t u ⟨hu, hE, hc⟩ => ?_
  refine Yields.finish (Q := fun n E' c' => s.setting = E' ∧
    Derived source outer s.setting (.expression c'.prospect) n) (fun i => ⟨rfl, ?_⟩) u hu hE rfl
  refine .weaken ?_ .regex
  rw [hc]
  simp [Prospect.le_iff, Cover.prospect, Cover.nonPattern]

theorem checkAsyncFunction_keeps : Keeps source .ahead .ahead checkAsyncFunction fun _ => True := fun _ _ =>
  .checkWord fun _ => .ite (fun _ => .get fun _ _ _ _ => .keep .second fun _ _ => .pure ⟨rfl, rfl, trivial⟩) fun _ =>
    .pure ⟨rfl, rfl, trivial⟩

theorem checkImportCall_keeps : Keeps source .ahead .ahead checkImportCall fun _ => True := fun _ _ =>
  .checkKeyword fun _ => .ite (fun _ => .keep .second fun _ _ => .pure ⟨rfl, rfl, trivial⟩) fun _ =>
    .pure ⟨rfl, rfl, trivial⟩

theorem checkImportMeta_keeps : Keeps source .ahead .ahead checkImportMeta fun _ => True := fun E c => by
  refine .checkKeyword fun _ => .ite (fun _ => .keep .behindDot fun r _ => ?_) fun _ => .pure ⟨rfl, rfl, trivial⟩
  cases r with
  | none => exact .pure ⟨rfl, rfl, trivial⟩
  | some t =>
    exact .ite (fun _ => .assert Stops.tolerateWith fun _ => .pure ⟨rfl, rfl, trivial⟩) fun _ =>
      .pure ⟨rfl, rfl, trivial⟩

theorem importMeta_derived (outer : Scope) (E : Setting) (c : Cover) :
    Reads source E c importMeta fun n _ => Derived source outer E (.expression .free) n := by
  refine .mark fun start => .keep identifierName_keeps ?_
  rintro _ ⟨i, name, rfl⟩
  refine .keep .expect fun _ _ => .keep identifierName_keeps ?_
  rintro _ ⟨j, name', rfl⟩
  exact .modifyCover (.finish fun k => ⟨rfl, .metaProperty .name .name⟩)

section
variable (outer) (hn : Sound source nested)
include hn

theorem functionExpression_derived (E : Setting) (c : Cover) :
    Reads source E c (functionExpression nested) fun n c' => Derived source outer E (.expression c'.prospect) n :=
  .mono (function_derived outer hn (nofun : FunctionForm.expression ≠ .arrow) true E c) fun _ _ _ ⟨hE, h⟩ =>
    ⟨hE, .of_free h⟩

theorem nameExpression_derived : Covers source outer .expression (nameExpression nested) := fun E c => by
  refine .mark fun start => .ahead fun t => .context (.assert Stops.tolerateAt fun _ => ?_)
  refine .keep checkAsyncFunction_keeps fun _ _ => .ite (fun _ => functionExpression_derived outer hn E c) fun _ => ?_
  exact .keep .next fun t _ => .finish fun i => ⟨rfl, .of_free .identifier⟩

theorem keywordExpression_derived : Covers source outer .expression (keywordExpression nested) := fun E c => by
  refine .mark fun start => .ahead fun t =>
    .context (.ite (fun _ => ?_) fun _ => .ite (fun _ => ?_) fun _ => .nonPattern ?_)
  · refine .mono (identifierName_keeps E c) ?_
    rintro _ _ _ ⟨rfl, rfl, i, name, rfl⟩
    exact ⟨rfl, .of_free .identifier⟩
  · exact .keep .skip fun _ _ => .finish fun i => ⟨rfl, .of_free .identifier⟩
  have settled : c.nonPattern.prospect ≤ .value := by simp [Prospect.le_iff, Cover.prospect, Cover.nonPattern]
  refine .ite (fun _ => functionExpression_derived outer hn E _) fun _ => .ite (fun _ => ?_) fun _ =>
    .ite (fun _ => ?_) fun _ => ?_
  · exact .keep .skip fun _ _ => .finish fun i => ⟨rfl, .weaken settled .thisExpression⟩
  · exact .mono (classOf_derived outer hn _ _ E _) fun n E' c' h => ⟨h.1, .weaken (h.2.1 settled) h.2.2⟩
  refine .keep checkImportCall_keeps fun _ _ => .ite (fun _ => ?_) fun _ => ?_
  · exact .mark fun start => .keep .expectKeyword fun _ _ => .finish fun i => ⟨rfl, .weaken settled .importKeyword⟩
  refine .keep checkImportMeta_keeps fun _ _ => .ite (fun _ => .require Stops.tolerateWith fun _ => ?_) fun _ => ?_
  · exact .mono (importMeta_derived outer E _) fun n E' c' h => ⟨h.1, .of_free h.2⟩
  · exact .keep .next fun t _ => Stops.failAt.yields

theorem primary_derived : Covers source outer .expression (primary nested) := by
  rintro E c s hs hE hc
  have read {p : Parse Node} (h : Reads source E c p fun n c' =>
      Derived source outer E (.expression c'.prospect) n) := h s hs hE hc
  have simple := read (literal_derived outer E c)
  refine .ahead (onSuccess.get (.ite (fun _ => read ?_) fun _ => ?_))
  · exact .mono (jsxExpression_derived outer hn E c) fun n E' c' ⟨hE, h⟩ => ⟨hE, .of_free h⟩
  split
  · exact read (nameExpression_derived outer hn E c)
  · exact simple
  · exact simple
  · exact simple
  · exact simple
  · refine read (.mono (template_derived outer hn false E c) ?_)
    rintro _ _ _ ⟨rfl, rfl, i, quasis, expressions, rfl, h⟩
    exact ⟨rfl, .of_free (.template h)⟩
  · exact read (.modifyCover (.mono ((group_derived outer hn).inherit E _) fun n E' c' ⟨hE, _, h⟩ => ⟨hE, h⟩))
  · exact read (.mono ((arrayLiteral_derived outer hn).inherit E c) fun n E' c' ⟨hE, _, h⟩ => ⟨hE, h⟩)
  · exact read (.mono ((objectLiteral_derived outer hn).inherit E c) fun n E' c' ⟨hE, _, h⟩ => ⟨hE, h⟩)
  next hl => exact hE ▸ regexLiteral_derived outer hs (by simp [Token.isPunctuator, hl])
  next hl => exact hE ▸ regexLiteral_derived outer hs (by simp [Token.isPunctuator, hl])
  · exact read (keywordExpression_derived outer hn E c)
  · exact read (.keep .next fun t _ => Stops.failAt.yields)

end

/-! ## What begins with `async` -/

theorem function_beginsAsync (hasync : s.lookahead.isIdentifierNamed "async" = true) :
    onSuccess.Ensures (functionExpression nested) s fun n _ => n.beginsAsync = true := by
  refine .mark (Judgement.bind (P := fun async _ => async = true) ?_ ?_)
  · refine .checkWord (.pos hasync (.context (.ite (fun _ => ?_) fun _ => ?_)))
    · exact Judgement.bind any fun _ _ _ => Judgement.bind any fun _ _ _ => onSuccess.ofPure rfl
    · exact Judgement.bind any fun _ _ _ => onSuccess.ofPure rfl
  · rintro _ t rfl
    refine Judgement.bind any fun _ _ _ => Judgement.bind any fun _ _ _ => Judgement.bind any fun _ _ _ => ?_
    exact onSuccess.mono .finish fun _ _ ⟨hn, _⟩ => hn ▸ rfl

theorem primary_beginsAsync (hasync : s.lookahead.isIdentifierNamed "async" = true) :
    onSuccess.Ensures (primary nested) s fun n _ => n.beginsAsync = true := by
  have hl : s.lookahead.lexeme = .identifier "async" := Token.isIdentifierNamed_iff.1 hasync
  have rest {t : ParseState} (ht : s.Rests t) : onSuccess.Ensures (checkAsyncFunction >>= fun isFunction =>
      if isFunction then functionExpression nested
      else next >>= fun name => finish s.start.place (.identifier name.text)) t fun n _ => n.beginsAsync = true := by
    refine Judgement.bind (Judgement.Settles.checkAsyncFunction t) fun _ u hu => .ite (fun _ => ?_) fun _ => ?_
    · exact function_beginsAsync ((ht.trans hu).lookahead ▸ hasync)
    · refine Judgement.bind .next fun name v hname => onSuccess.mono .finish fun n _ hn => ?_
      rw [hn.1, hname.1, (ht.trans hu).lookahead, Token.text, hl]
      rfl
  refine .ahead (onSuccess.get (.neg (by simp [Token.isPunctuator, hl]) ?_))
  rw [hl]
  refine .mark (.ahead (.context (.ite (fun _ => ?_) fun _ => rest (.refl s))))
  exact Judgement.bind (Judgement.Settles.tolerateAt _ s) fun _ t ht => rest ht

end Parse

end EcmaTree
