import EcmaTree.Proofs.Derivation.Basic
import EcmaTree.Proofs.Derivation.BoundNames

/-!
# Expressions, keys and patterns

An expression is read as such, as a part that stands for its value, or as a part that may still become a pattern. A
pattern binds names; a default value in an object pattern is read without asking for a pending error.
-/

namespace EcmaTree

/-- What the setting says of a node. -/
def Setting.scope (E : Setting) : Scope :=
  ⟨E.context.strict, E.context.inFunctionBody, E.context.inIteration, E.context.inSwitch, E.labels⟩

/-- The scope `outer` in code that is as strict as the setting says. -/
def Setting.scopeIn (E : Setting) (outer : Scope) : Scope := { outer with strict := E.context.strict }

namespace Parse

variable {β : Type} {source : String} {o : Mode} {outer : Scope} {E : Setting} {c : Cover}
  {form : Form} {nested : Nested}

/-- A tree of the source that is derived from the symbol in the scope `outer`, where code is as strict as the setting
says. No jump in an expression leads out of it; so the scope of an expression is arbitrary. -/
abbrev Derived (source : String) (outer : Scope) (E : Setting) (symbol : Symbol) (n : Node) : Prop :=
  Derives source.utf8ByteSize (E.scopeIn outer) symbol n

/-- A tree of the source that is derived from the symbol where the setting holds. -/
abbrev DerivedHere (source : String) (E : Setting) (symbol : Symbol) (n : Node) : Prop :=
  Derived source E.scope E symbol n

/-- A node that is part of a tree in every scope. -/
abbrev DerivedAnywhere (source : String) (n : Node) : Prop := ∀ σ, Derives source.utf8ByteSize σ .node n

/-- The production gives back trees of a symbol, which may depend on the cover behind them. -/
abbrev Gives (source : String) (outer : Scope) (p : Parse Node) (symbol : Cover → Symbol) : Prop :=
  ∀ E c, Reads source E c p fun n c' => Derived source outer E (symbol c') n

/-- The production gives back statements. -/
abbrev States (source : String) (p : Parse Node) : Prop :=
  ∀ E c, Reads source E c p fun n _ => DerivedHere source E .node n

/-- The production gives back what the cover says something about. -/
abbrev Covers (source : String) (outer : Scope) (form : Form) (p : Parse Node) : Prop :=
  Gives source outer p fun c => .covered form c.prospect

/-- The nested productions give back trees of the grammar. -/
structure Sound (source : String) (nested : Nested) : Prop where
  assignment (outer : Scope) : Covers source outer .expression (nested .assignment)
  opens : Opens (nested .assignment)
  unary (outer : Scope) : Covers source outer .expression (nested .unary)
  exponentiation (outer : Scope) : Covers source outer .expression (nested .exponentiation)
  callee (outer : Scope) : Covers source outer .expression (nested .callee)
  callChain (outer : Scope) : Covers source outer .expression (nested .callChain)
  pattern (outer : Scope) (kind : Option VariableKind) (E : Setting) (c : Cover) :
    Reads source E c (nested (.pattern kind)) fun r _ => Derived source outer E .pattern r.1
  binds (kind : Option VariableKind) : Binds (nested (.pattern kind))
  statement : States source (nested .statement)
  listItem : States source (nested .listItem)
  jsxElement (outer : Scope) (E : Setting) (c : Cover) :
    Yields source .entering .inside E c (nested .jsxElement) fun n E' _ => E = E' ∧
      Derived source outer E (.expression .free) n

/-! ## Parts -/

theorem Covers.isolate {p : Parse Node} (h : Covers source outer .expression p) (E : Setting) (c : Cover) :
    Reads source E c (isolate p) fun n c' => c = c' ∧ Derived source outer E (.expression .value) n := by
  refine .mono (.isolate (h E .fresh)) ?_
  rintro n _ _ ⟨rfl, d, hd, rfl, hn⟩
  exact ⟨rfl, rfl, .weaken (by simp [Prospect.le_iff, Cover.prospect, hd]) hn⟩

theorem Covers.inherit {p : Parse Node} (h : Covers source outer form p) (E : Setting) (c : Cover) :
    Reads source E c (inherit p) fun n c' =>
      c'.prospect ≤ c.prospect ∧ Derived source outer E (.covered form c'.prospect) n := by
  refine .mono (.inherit (h E .fresh)) ?_
  rintro n _ _ ⟨rfl, d, hn, rfl⟩
  refine ⟨rfl, ?_, .weaken ?_ hn⟩
  · cases hc : c.pending <;> simp [Prospect.le_iff, Cover.prospect, hc]
  · cases c.pending <;> simp +contextual [Prospect.le_iff, Cover.prospect]

theorem Reads.isolate {p : Parse Node} {P : Node → Prop} (h : Reads source E .fresh p fun n _ => P n) :
    Reads source E c (isolate p) fun n c' => c = c' ∧ P n :=
  .mono (Yields.isolate h) (by rintro n _ _ ⟨rfl, d, -, rfl, hn⟩; exact ⟨rfl, rfl, hn⟩)

namespace Yields

variable {p : Parse Node} {f : Node → Parse β} {Q : β → Setting → Cover → Prop}

/-- A part that stands for its value. -/
theorem isolated (h : Covers source outer .expression p)
    (hf : ∀ n, Derived source outer E (.expression .value) n → Yields source .ahead o E c (f n) Q) :
    Yields source .ahead o E c (Parse.isolate p >>= f) Q :=
  .bind (h.isolate E c) (by rintro n _ _ ⟨rfl, rfl, hn⟩; exact hf n hn)

/-- A part that may still become a pattern. -/
theorem inherited (h : Covers source outer form p) (hf : ∀ n c', c'.prospect ≤ c.prospect →
      Derived source outer E (.covered form c'.prospect) n → Yields source .ahead o E c' (f n) Q) :
    Yields source .ahead o E c (Parse.inherit p >>= f) Q :=
  .part (h.inherit E c) fun n c' ⟨hc', hn⟩ => hf n c' hc' hn

/-- A part that may still become a parameter. -/
theorem inheritedAnywhere (h : ∀ outer, Covers source outer form p) (hf : ∀ n c', c'.prospect ≤ c.prospect →
      (∀ outer, Derived source outer E (.covered form c'.prospect) n) → Yields source .ahead o E c' (f n) Q) :
    Yields source .ahead o E c (Parse.inherit p >>= f) Q :=
  .part (Reads.all fun outer => (h outer).inherit E c) fun n c' h => hf n c' (h default).1 fun outer => (h outer).2

end Yields

/-! ## Names and keys -/

theorem identifierName_keeps :
    Keeps source .ahead .ahead identifierName fun n => ∃ i name, n = .mk i (.identifier name) :=
  fun _ _ => .mark fun _ => .keep .next fun _ _ =>
    .ite (fun _ => .finish fun i => ⟨rfl, rfl, i, _, rfl⟩) fun _ => Stops.failAt.yields

theorem bindingName_keeps (kind : Option VariableKind) :
    Keeps source .ahead .ahead (bindingName kind) fun n => ∃ i name, n = .mk i (.identifier name) := fun E c => by
  have done {E : Setting} {c : Cover} {start : Place} {t : Token} : Yields source .ahead .ahead E c
      (finish start (.identifier t.text)) fun n E' c' => E = E' ∧ c = c' ∧ ∃ i name, n = .mk i (.identifier name) :=
    .finish fun i => ⟨rfl, rfl, i, _, rfl⟩
  refine .mark fun start => .keep .next fun t _ => .context (.ite (fun _ => ?_) fun _ => .ite (fun _ => ?_) fun _ => ?_)
  · exact .ite (fun _ => Stops.tolerateWith.bind.yields) fun _ => .assert Stops.failAt fun _ => done
  · exact .ite (fun _ => Stops.tolerateWith.bind.yields) fun _ => .assert Stops.failAt fun _ => done
  · exact .assert Stops.tolerateAt fun _ => done

section
variable (outer) (hn : Sound source nested)
include hn

theorem expression_keeps (E : Setting) (c : Cover) :
    Reads source E c (expression nested) fun n c' => c = c' ∧ Derived source outer E (.expression .value) n := by
  refine .ahead fun first => .part (Reads.commaSeparated (I := (c = ·))
    (R := fun n _ => Derived source outer E (.expression .value) n) rfl fun c' hc' => ?_) ?_
  · exact .mono ((hn.assignment outer).isolate E c') fun n E' c'' ⟨hE, hc'', h⟩ =>
      ⟨hE, hc'.trans hc'', h, fun _ hb => hb⟩
  · rintro expressions _ ⟨rfl, h⟩
    split
    · exact .pure ⟨rfl, rfl, by simpa using h⟩
    · exact .finish fun i => ⟨rfl, rfl, .sequence h⟩

theorem expression_gives : Gives source outer (expression nested) fun _ => .expression .value := fun E c =>
  .mono (expression_keeps outer hn E c) fun _ _ _ ⟨hE, _, h⟩ => ⟨hE, h⟩

/-- Expressions with commas between them. -/
theorem Yields.expression {f : Node → Parse β} {Q : β → Setting → Cover → Prop}
    (hf : ∀ n, Derived source outer E (.expression .value) n → Yields source .ahead o E c (f n) Q) :
    Yields source .ahead o E c (Parse.expression nested >>= f) Q :=
  .bind (expression_keeps outer hn E c) (by rintro n _ _ ⟨rfl, rfl, hn⟩; exact hf n hn)

theorem propertyKey_keeps (E : Setting) (c : Cover) :
    Reads source E c (propertyKey nested) fun n c' => c = c' ∧ Derived source outer E .node n := by
  have done {start : Place} {t : Token} (hm : t.Marked) (h : ¬ (E.context.strict && t.isLegacy) = true) :
      Reads source E c
      (finish start (literalOf t)) fun n c' => c = c' ∧ Derived source outer E .node n :=
    .finish fun i => ⟨rfl, rfl, .of_value (.literal hm fun hl => by simp_all [Setting.scopeIn])⟩
  refine .mark fun start => .keep .nextMarked fun t ht => ?_
  split
  · exact .isStrict (.assert Stops.tolerateWith (done ht))
  · exact .isStrict (.assert Stops.tolerateWith (done ht))
  · exact .finish fun i => ⟨rfl, rfl, .name⟩
  · exact .finish fun i => ⟨rfl, rfl, .name⟩
  · exact .finish fun i => ⟨rfl, rfl, .name⟩
  · exact .finish fun i => ⟨rfl, rfl, .name⟩
  · exact .isolated (hn.assignment outer) fun key hk => .keep .expect fun _ _ => .pure ⟨rfl, rfl, .of_value hk⟩
  · exact Stops.failAt.yields

/-- A key, which leaves the cover as it was. -/
theorem Yields.propertyKey {f : Node → Parse β} {Q : β → Setting → Cover → Prop}
    (hf : ∀ n, Derived source outer E .node n → Yields source .ahead o E c (f n) Q) :
    Yields source .ahead o E c (Parse.propertyKey nested >>= f) Q :=
  .bind (propertyKey_keeps outer hn E c) (by rintro n _ _ ⟨rfl, rfl, hn⟩; exact hf n hn)

/-! ## Binding patterns -/

theorem patternWithDefault_derived (kind : Option VariableKind) (E : Setting) (c : Cover) :
    Reads source E c (patternWithDefault nested kind) fun r _ => Derived source outer E .pattern r.1 := by
  refine .ahead fun first => .part (hn.pattern outer kind E c) fun (pattern, names) c hp => ?_
  refine .keep .accept fun _ _ => .ite (fun _ => ?_) fun _ => .pure ⟨rfl, hp⟩
  refine .part (.inContext ((hn.assignment outer).isolate _ c)) fun right c ⟨_, hr⟩ => ?_
  exact .node fun i => .pure ⟨rfl, .assignmentPattern hp (.of_value hr)⟩

theorem restElement_derived (kind : Option VariableKind) (E : Setting) (c : Cover) :
    Reads source E c (restElement nested kind) fun r _ => Derived source outer E .pattern r.1 :=
  .mark fun _ => .keep .expect fun _ _ => .part (hn.pattern outer kind E c) fun (_, _) _ hp =>
    .node fun _ => .pure ⟨rfl, .rest hp⟩

theorem arrayPattern_derived (kind : Option VariableKind) (E : Setting) (c : Cover) :
    Reads source E c (arrayPattern nested kind) fun r _ => Derived source outer E .pattern r.1 := by
  refine .mark fun start => .keep .expect fun _ _ => .part (Reads.loop
    (I := fun items _ => ∀ r ∈ items, ∀ n ∈ r.1, Derived source outer E .pattern n)
    (D := fun items _ => ∀ r ∈ items, ∀ n ∈ r.1, Derived source outer E .pattern n) (by simp)
      fun items c h => ?_) fun items c h => ?_
  · refine .check fun _ => .ite (fun _ => .pure ⟨rfl, h⟩) fun _ => .keep .accept fun _ _ =>
      .ite (fun _ => ?_) fun _ => ?_
    · exact .pure ⟨rfl, List.forall_mem_cons.2 ⟨by simp, h⟩⟩
    · refine .check fun _ => .ite (fun _ => ?_) fun _ => ?_
      · refine .part (restElement_derived outer hn kind E c) fun (element, names) c he => ?_
        exact .pure ⟨rfl, List.forall_mem_cons.2 ⟨by simpa using he, h⟩⟩
      · refine .part (patternWithDefault_derived outer hn kind E c) fun (element, names) c he => ?_
        have more : ∀ r ∈ (some element, names) :: items, ∀ n ∈ r.1, Derived source outer E .pattern n :=
          List.forall_mem_cons.2 ⟨by simpa using he, h⟩
        exact .check fun _ => .ite (fun _ => .pure ⟨rfl, more⟩) fun _ => .keep .expect fun _ _ => .pure ⟨rfl, more⟩
  · refine .keep .expect fun _ _ => .node fun i => .pure ⟨rfl, .arrayPattern fun n hn => ?_⟩
    simp only [Kind.present, List.filterMap_map, List.mem_filterMap, List.mem_reverse, Function.comp_apply, id] at hn
    obtain ⟨r, hr, hn⟩ := hn
    exact h r hr n hn

theorem finalRest_derived (closing : Punctuator) (notLast : Cause) (E : Setting) (c : Cover) :
    Reads source E c (finalRest nested closing notLast) fun r _ =>
      ∃ i argument, r.1 = .mk i (.rest argument) ∧ Derived source outer E .pattern argument := by
  refine .mark fun start => .keep .expect fun _ _ => .part (hn.pattern outer none E c) fun (argument, names) c hp => ?_
  refine .check fun _ => .assert Stops.failHere fun _ => .check fun _ => .require Stops.failHere fun _ => ?_
  exact .node fun i => .pure ⟨rfl, i, argument, rfl, hp⟩

theorem namedMemberValue_derived (kind : Option VariableKind) (name : Token) {i : NodeInfo}
    {text : String} (E : Setting)
    (c : Cover) : Reads source E c (namedMemberValue nested kind name (.mk i (.identifier text))) fun r _ =>
      ∀ j key, Derived source outer E .node key →
        Derived source outer E .memberPattern (.mk j (.property .init key r.1 false false r.2.2)) := by
  refine .keep .accept fun _ _ => .ite (fun _ => ?_) fun _ => .check fun _ => .ite (fun _ => ?_) fun _ => ?_
  · refine .part ((hn.assignment outer) E c) fun right c' hr => .node fun j => .pure ⟨rfl, fun k key hk => ?_⟩
    exact .initializedPattern hk (.defaultedName rfl .namePattern (.drop hr))
  · exact .pure ⟨rfl, fun j key hk => .shorthandPattern hk⟩
  · refine .keep .expect fun _ _ => .part (patternWithDefault_derived outer hn kind E c) fun (value, names) c hv => ?_
    exact .pure ⟨rfl, fun j key hk => .propertyPattern hk hv⟩

theorem memberPattern_derived (kind : Option VariableKind) (E : Setting) (c : Cover) :
    Reads source E c (memberPattern nested kind) fun r _ => Derived source outer E .memberPattern r.1 := by
  refine .mark fun start => .ahead fun first => .ite (fun _ => ?_) fun _ => ?_
  · refine .keep (bindingName_keeps none) ?_
    rintro _ ⟨i, name, rfl⟩
    refine .node fun j => .part (namedMemberValue_derived outer hn kind first E c)
      fun (value, names, shorthand) c h => ?_
    exact .node fun k => .pure ⟨rfl, h k _ .name⟩
  · refine .check fun computed => .propertyKey outer hn fun key hk => ?_
    refine .keep .expect fun _ _ => .part (patternWithDefault_derived outer hn kind E _) fun (value, names) c hv => ?_
    exact .node fun k => .pure ⟨rfl, .propertyPattern hk hv⟩

theorem objectPattern_derived (kind : Option VariableKind) (E : Setting) (c : Cover) :
    Reads source E c (objectPattern nested kind) fun r _ => Derived source outer E .pattern r.1 := by
  refine .mark fun start => .keep .expect fun _ _ => .part (Reads.itemsBefore (I := fun _ => True)
    (R := fun r _ => Derived source outer E .memberPattern r.1) trivial fun c _ => ?_) fun items c ⟨_, h⟩ => ?_
  · have done {r : Node × List Token} {c : Cover} (h : Derived source outer E .memberPattern r.1) :
        Reads source E c (do
          unless ← Parse.check .rightBrace do Parse.expect .comma
          return r) fun r c' => True ∧ Derived source outer E .memberPattern r.1 ∧
            ∀ b : Node × List Token, Derived source outer E .memberPattern b.1 →
              Derived source outer E .memberPattern b.1 :=
      .check fun _ => .ite (fun _ => .pure ⟨rfl, trivial, h, fun _ hb => hb⟩) fun _ =>
        .keep .expect fun _ _ => .pure ⟨rfl, trivial, h, fun _ hb => hb⟩
    refine .check fun _ => .ite (fun _ =>
      .part (finalRest_derived outer hn .rightBrace .propertyAfterRest E c) ?_) fun _ => ?_
    · rintro ⟨rest, names⟩ c ⟨i, argument, rfl, hr⟩
      exact done (.restMember hr)
    · exact .part (memberPattern_derived outer hn kind E c) fun r c hr => done hr
  · refine .keep .expect fun _ _ => .node fun i => .pure ⟨rfl, .objectPattern ?_⟩
    simpa only [List.forall_mem_map] using h

theorem pattern_derived (kind : Option VariableKind) (E : Setting) (c : Cover) :
    Reads source E c (pattern nested kind) fun r _ => Derived source outer E .pattern r.1 := by
  refine .ahead fun t => .ite (fun _ => arrayPattern_derived outer hn kind E c) fun _ =>
    .ite (fun _ => objectPattern_derived outer hn kind E c) fun _ => .assert Stops.tolerateWith fun _ => ?_
  refine .keep (bindingName_keeps kind) ?_
  rintro _ ⟨i, name, rfl⟩
  exact .pure ⟨rfl, .namePattern⟩

end

end Parse

end EcmaTree
