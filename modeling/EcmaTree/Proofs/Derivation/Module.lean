import EcmaTree.Grammar.Module
import EcmaTree.Proofs.Derivation.Operators
import EcmaTree.Proofs.Derivation.Statement

/-!
# Imports and exports

Names and modules are parts of trees without rules of their own. What is exported as the default is not asked for a
pending error.
-/

namespace EcmaTree.Parse

variable {α : Type} {source : String} {E : Setting} {c : Cover} {nested : Nested}

/-- A name that has been read is part of a tree. -/
theorem name_derived {n : Node} : (∃ i name, n = .mk i (.identifier name)) → DerivedHere source E .node n := by
  rintro ⟨i, name, rfl⟩
  exact .name

theorem moduleSpecifier_derived (E : Setting) (c : Cover) :
    Reads source E c moduleSpecifier fun n _ => DerivedHere source E .node n :=
  .mark fun _ => .ahead fun _ => .ite (fun ht => .keep .skip fun _ _ => .finish fun _ => ⟨rfl, .text ht⟩) fun _ =>
    Stops.failHere.yields

theorem failMissingFrom_stops : Stops failMissingFrom := fun _ _ _ _ h => by cases h

theorem fromModule_derived (E : Setting) (c : Cover) :
    Reads source E c fromModule fun n _ => DerivedHere source E .node n :=
  .checkWord fun _ => .require failMissingFrom_stops fun _ => .keep .skip fun _ _ => moduleSpecifier_derived E c

/-- The end of an item in a list in braces. -/
theorem closeItem_derived {R : α → Cover → Prop} {a : α} (h : R a c) (hkeeps : ∀ b, R b c → R b c) :
    Reads source E c (do
      unless ← check .rightBrace do expect .comma
      return a) fun a c' => True ∧ R a c' ∧ ∀ b, R b c → R b c' :=
  .check fun _ => .ite (fun _ => .pure ⟨rfl, trivial, h, hkeeps⟩) fun _ => .keep .expect fun _ _ =>
    .pure ⟨rfl, trivial, h, hkeeps⟩

theorem specifiersInBraces_derived {item : Parse Node} (h : States source item) (E : Setting) (c : Cover) :
    Reads source E c (specifiersInBraces item) fun ns _ => ∀ n ∈ ns, DerivedHere source E .node n := by
  refine .keep .expect fun _ _ =>
    .part (Reads.itemsBefore (I := fun _ => True) (R := fun n _ => DerivedHere source E .node n) trivial
    fun c _ => .part (h E c) fun n c hn => closeItem_derived (R := fun n _ => DerivedHere source E .node n) hn
      fun _ hb => hb) fun ns c ⟨_, hns⟩ => ?_
  exact .keep .expect fun _ _ => .pure ⟨rfl, hns⟩

/-! ## Imports -/

theorem importSpecifier_derived : States source importSpecifier := fun E c => by
  have close {start : Place} {localName imported : Node} (hl : ∃ i name, localName = .mk i (.identifier name))
      (hi : ∃ i name, imported = .mk i (.identifier name)) :
        Reads source E c (finish start (.importSpecifier localName imported))
        fun n _ => DerivedHere source E .node n := by
    refine .finish fun i => ⟨rfl, .plain rfl ?_⟩
    simpa [Kind.children] using ⟨name_derived hl, name_derived hi⟩
  refine .mark fun start => .ahead fun t => .ite (fun _ => ?_) fun _ => ?_
  · refine .keep (bindingName_keeps none) fun imported hi => .checkWord fun _ => .ite (fun _ => ?_) fun _ =>
      .value (close hi hi)
    exact .keep .skip fun _ _ => .keep (bindingName_keeps none) fun localName hl => close hl hi
  · refine .keep identifierName_keeps fun imported hi => .keep .next fun t _ => .require Stops.failAt fun _ => ?_
    exact .keep (bindingName_keeps none) fun localName hl => close hl hi

theorem importDefault_derived (E : Setting) (c : Cover) :
    Reads source E c importDefault fun n _ => DerivedHere source E .node n :=
  .mark fun start => .keep identifierName_keeps fun n hn => .finish fun i =>
    ⟨rfl, .plain rfl (by simpa [Kind.children] using name_derived hn)⟩

theorem importNamespace_derived (E : Setting) (c : Cover) :
    Reads source E c importNamespace fun n _ => DerivedHere source E .node n :=
  .mark fun start => .keep .expect fun _ _ => .checkWord fun _ => .require Stops.failHere fun _ =>
    .keep .skip fun _ _ =>
    .keep identifierName_keeps fun n hn => .finish fun i =>
      ⟨rfl, .plain rfl (by simpa [Kind.children] using name_derived hn)⟩

/-- One namespace in a list. -/
theorem namespaceAlone_derived (E : Setting) (c : Cover) :
    Reads source E c (do return [← importNamespace]) fun ns _ => ∀ n ∈ ns, DerivedHere source E .node n :=
  .part (importNamespace_derived E c) fun n c hn => .pure ⟨rfl, by simpa using hn⟩

theorem importsAfterDefault_derived (E : Setting) (c : Cover) :
    Reads source E c importsAfterDefault fun ns _ => ∀ n ∈ ns, DerivedHere source E .node n := by
  refine .keep .accept fun _ _ => .ite (fun _ => .check fun _ => .ite (fun _ => namespaceAlone_derived E c)
    fun _ => ?_) fun _ => .pure ⟨rfl, List.forall_mem_nil _⟩
  exact .check fun _ => .ite (fun _ => specifiersInBraces_derived importSpecifier_derived E c) fun _ =>
    Stops.failAhead.yields

theorem importClause_derived (E : Setting) (c : Cover) :
    Reads source E c importClause fun ns _ => ∀ n ∈ ns, DerivedHere source E .node n := by
  refine .ahead fun t => .ite (fun _ => specifiersInBraces_derived importSpecifier_derived E c) fun _ =>
    .ite (fun _ => namespaceAlone_derived E c) fun _ => ?_
  refine .ite (fun _ => .part (importDefault_derived E c) fun first c hf => ?_) fun _ =>
    .keep .next fun t _ => Stops.failAt.yields
  exact .part (importsAfterDefault_derived E c) fun others c ho => .pure ⟨rfl, List.forall_mem_cons.2 ⟨hf, ho⟩⟩

theorem importDeclaration_derived (E : Setting) (c : Cover) :
    Reads source E c importDeclaration fun n _ => DerivedHere source E .node n := by
  have close {start : Place} {specifiers : List Node} {module : Node} {c : Cover}
      (hs : ∀ n ∈ specifiers, DerivedHere source E .node n)
      (hm : DerivedHere source E .node module) : Reads source E c (do
        endStatement
        finish start (.importDeclaration specifiers module)) fun n _ => DerivedHere source E .node n := by
    refine .keep .endStatement fun _ _ => .finish fun i => ⟨rfl, .plain rfl ?_⟩
    simpa [Kind.children, or_imp, forall_and] using ⟨hs, hm⟩
  refine .context (.assert Stops.failHere fun _ => .mark fun start => .keep .expectKeyword fun _ _ => .ahead
    fun t => .ite (fun _ => ?_) fun _ => ?_)
  · exact .part (moduleSpecifier_derived E c) fun module c hm => .value (close (by simp) hm)
  · exact .part (importClause_derived E c) fun specifiers c hs => .part (fromModule_derived E c)
      fun module c hm => .value (close hs hm)

/-! ## Exports -/

theorem exportSpecifier_derived : States source exportSpecifier := fun E c => by
  have close {start : Place} {localName exported : Node} (hl : ∃ i name, localName = .mk i (.identifier name))
      (he : ∃ i name, exported = .mk i (.identifier name)) :
        Reads source E c (finish start (.exportSpecifier localName exported))
        fun n _ => DerivedHere source E .node n := by
    refine .finish fun i => ⟨rfl, .plain rfl ?_⟩
    simpa [Kind.children] using ⟨name_derived hl, name_derived he⟩
  refine .mark fun start => .keep identifierName_keeps fun localName hl => .checkWord fun _ =>
    .ite (fun _ => ?_) fun _ => .value (close hl hl)
  exact .keep .skip fun _ _ => .keep identifierName_keeps fun exported he => close hl he

theorem checkLet_keeps : Keeps source .ahead .ahead checkLet fun _ => True := .bind .second fun _ _ => .pure trivial

section
variable (hn : Sound source nested)
include hn

theorem defaultExpression_derived (E : Setting) (c : Cover) :
    Reads source E c (defaultExpression nested) fun n _ => DerivedHere source E .dropped n := by
  have close {p : Parse Node} (h : Covers source E.scope .expression p) : Reads source E c (do
      let e ← p
      endStatement
      return e) fun n _ => DerivedHere source E .dropped n :=
    .part (h E c) fun e c he => .keep .endStatement fun _ _ => .pure ⟨rfl, .drop he⟩
  refine .ahead fun t => .assert Stops.failHere fun _ =>
    .ite (fun _ => close (objectLiteral_derived E.scope hn)) fun _ => ?_
  exact .ite (fun _ => close (arrayLiteral_derived E.scope hn)) fun _ => close (hn.assignment E.scope)

theorem exportedDefault_derived (E : Setting) (c : Cover) :
    Reads source E c (exportedDefault nested) fun n _ => DerivedHere source E .dropped n := by
  have whole {p : Parse Node} (h : Reads source E c p fun n _ => DerivedHere source E .node n) :
      Reads source E c p fun n _ => DerivedHere source E .dropped n := .mono h fun _ _ _ ⟨hE, h⟩ => ⟨hE, .whole h⟩
  refine .ahead fun t => .ite (fun _ => whole (functionDeclaration_derived hn true E c)) fun _ => ?_
  refine .ite (fun _ => whole (classDeclaration_derived hn true E c)) fun _ => .ite (fun _ => ?_) fun _ =>
    defaultExpression_derived hn E c
  refine .keep checkAsyncFunction_keeps fun _ _ =>
    .ite (fun _ => whole (functionDeclaration_derived hn true E c)) fun _ => ?_
  exact .mono (hn.assignment E.scope E c) fun n E' c' ⟨hE, h⟩ => ⟨hE, .drop h⟩

theorem exportedDeclaration_derived (E : Setting) (c : Cover) :
    Reads source E c (exportedDeclaration nested) fun r _ => ∀ n ∈ r, DerivedHere source E .node n := by
  have declared {p : Parse Node} (h : Reads source E c p fun n _ => DerivedHere source E .node n) :
      Reads source E c (do return some (← p)) fun r _ => ∀ n ∈ r, DerivedHere source E .node n :=
    .part h fun n c hn => .pure ⟨rfl, by simpa using hn⟩
  refine .ahead fun t => ?_
  split
  · exact declared (lexicalDeclaration_derived hn E c)
  · exact declared (lexicalDeclaration_derived hn E c)
  · exact declared (varStatement_derived hn E c)
  · exact declared (classDeclaration_derived hn false E c)
  · exact declared (functionDeclaration_derived hn false E c)
  · exact Stops.failAt.yields
  · refine .keep checkAsyncFunction_keeps fun _ _ => .ite (fun _ => ?_) fun _ => .pure ⟨rfl, nofun⟩
    exact declared (functionDeclaration_derived hn false E c)

omit hn in
theorem exportedNames_derived (start : Place) (E : Setting) (c : Cover) :
    Reads source E c (exportedNames start) fun n _ => DerivedHere source E .node n := by
  have close {items : List (Node × Bool)} {module : Option Node} {c : Cover}
      (hi : ∀ r ∈ items, DerivedHere source E .node r.1)
      (hm : ∀ n ∈ module, DerivedHere source E .node n) : Reads source E c (do
        endStatement
        finish start (.exportNamedDeclaration none (items.map (·.1)) module)) fun n _ =>
          DerivedHere source E .node n := by
    refine .keep .endStatement fun _ _ => .finish fun i => ⟨rfl, .plain rfl ?_⟩
    simpa only [Kind.children, Option.toList_none, List.nil_append, List.forall_mem_append,
      List.forall_mem_map, Option.mem_toList] using ⟨hi, hm⟩
  refine .keep .expect fun _ _ =>
    .part (Reads.itemsBefore (I := fun _ => True) (R := fun r _ => DerivedHere source E .node r.1) trivial
    fun c _ => ?_) fun items c ⟨_, hi⟩ => ?_
  · refine .checkKeyword fun isDefault => .part (exportSpecifier_derived E c) fun specifier c hs => ?_
    exact closeItem_derived (R := fun (r : Node × Bool) _ => DerivedHere source E .node r.1) hs fun _ hb => hb
  · refine .keep .expect fun _ _ => .checkWord fun _ => .ite (fun _ => ?_) fun _ =>
      .assert failMissingFrom_stops fun _ => .value (close hi (by nofun))
    exact .part (fromModule_derived E c) fun module c hm => .value (close hi (by simpa using hm))

theorem exportDeclaration_derived (E : Setting) (c : Cover) :
    Reads source E c (exportDeclaration nested) fun n _ => DerivedHere source E .node n := by
  refine .context (.assert Stops.failHere fun _ => .mark fun start => .keep .expectKeyword fun _ _ =>
    .keep .acceptKeyword fun _ _ => .ite (fun _ => ?_) fun _ => ?_)
  · exact .part (exportedDefault_derived hn E c) fun n c h => .finish fun i => ⟨rfl, .exportDefaultDeclaration h⟩
  refine .keep .accept fun _ _ => .ite (fun _ => ?_) fun _ => .part (exportedDeclaration_derived hn E c) ?_
  · refine .part (fromModule_derived E c) fun module c hm => .keep .endStatement fun _ _ =>
      .finish fun i => ⟨rfl, .plain rfl ?_⟩
    simpa [Kind.children] using hm
  · rintro (_ | declaration) c h
    · exact exportedNames_derived start E c
    · exact .finish fun i => ⟨rfl, .plain rfl (by simpa [Kind.children] using h)⟩

/-! ## Items of statement lists -/

theorem importItem_derived : States source (importItem nested) := fun E c => by
  refine .ahead fun t => .keep checkImportCall_keeps fun _ _ =>
    .ite (fun _ => expressionStatement_derived hn E c) fun _ => ?_
  refine .keep checkImportMeta_keeps fun _ _ => .ite (fun _ => statement_derived hn E c) fun _ =>
    .context (.require Stops.tolerateWith fun _ => ?_)
  exact importDeclaration_derived E c

theorem listItem_derived : States source (listItem nested) := fun E c => by
  refine .modifyCover (.ahead fun t => ?_)
  split
  · exact .context (.require Stops.tolerateWith fun _ => exportDeclaration_derived hn E _)
  · exact importItem_derived hn E _
  · exact lexicalDeclaration_derived hn E _
  · exact functionDeclaration_derived hn false E _
  · exact classDeclaration_derived hn false E _
  · exact .keep checkLet_keeps fun _ _ => .ite (fun _ => lexicalDeclaration_derived hn E _) fun _ =>
      statement_derived hn E _
  · exact statement_derived hn E _

end

end EcmaTree.Parse
