import EcmaTree.Proofs.Ledger.Statement

/-!
# Modules and programs

A specifier without `as` is the one place where a node is used twice: it is both the name in this module and the name
in the other one. What every production does over sound nested ones, all of them do at any number of levels.
-/

namespace EcmaTree

namespace Node

variable {id : Nat} {info : NodeInfo} {n : Node}

/-- Both children of a specifier without `as` are the one name, which counts once. -/
theorem occurrences_importSpecifier_le :
    (mk info (.importSpecifier n n)).occurrences id ≤ (if info.id = id then 1 else 0) + weigh (occurrences id) [n] := by
  have shared : ((Kind.importSpecifier n n).map outline).outlineForm = .shared := if_pos rfl
  rw [occurrences, ids, outline_mk, shared]
  simp [Outline.ids, Outline.firstIds, Kind.children, List.count_cons, occurrences, ids, Nat.add_comm]

theorem occurrences_exportSpecifier_le :
    (mk info (.exportSpecifier n n)).occurrences id ≤ (if info.id = id then 1 else 0) + weigh (occurrences id) [n] := by
  have shared : ((Kind.exportSpecifier n n).map outline).outlineForm = .shared := if_pos rfl
  rw [occurrences, ids, outline_mk, shared]
  simp [Outline.ids, Outline.firstIds, Kind.children, List.count_cons, occurrences, ids, Nat.add_comm]

end Node

namespace Ledger

open Parse

variable {L : Ledger} {m : Mode} {nested : Nested} {base s : ParseState} {ns l : List Node}

/-- A specifier whose two names are one node. -/
theorem Held.finishShared {start : Place} {kind : Kind Node} {name : Node} (h : L.Held m base (name :: l) s)
    (hk : kind.isPlaceholder = false) (hc : ∀ c ∈ kind.children, c = name)
    (ho : ∀ id info, (Node.mk info kind).occurrences id ≤ (if info.id = id then 1 else 0) + weigh
      (Node.occurrences id) [name]) :
    L.Safe (Parse.finish start kind) s (L.Gives m base l) := by
  rw [← bind_pure (Parse.finish start kind)]
  exact h.nodeOver [name] hk ho (fun c hmem => by simp [hc c hmem]) (fun _ => Nat.le_refl _) fun n t _ h =>
    h.give (by simp) (by simp)

/-! ## Imports -/

theorem moduleSpecifier_reads : L.Reads moduleSpecifier := fun s h =>
  .mark (.ahead (.ite (fun _ => h.skip fun t h => h.finish rfl (by simp [Kind.children, literalOf])) fun _ =>
    h.failHere))

theorem failMissingFrom_reads : L.Reads failMissingFrom := fun _ h => .ahead h.failHere

theorem fromModule_reads : L.Reads fromModule := fun s h =>
  .checkWord (h.settleUnless failMissingFrom_reads fun t h => h.skip fun u h => h.last moduleSpecifier_reads (by simp))

theorem specifiersInBraces_reads {item : Parse Node} (hitem : L.Reads item) :
    L.Reads (specifiersInBraces item) := fun s h => by
  have separated : L.Reads (do
      let specifier ← item
      unless ← check .rightBrace do expect .comma
      return specifier) := fun t h =>
    h.read hitem fun specifier u h _ => .check (h.settleUnless .expect fun v h => h.give (by simp) (by simp))
  exact h.expect fun t h => h.read (.itemsBefore separated) fun items u h _ => h.expect fun v h =>
    h.give (by simp) (by simp)

theorem importSpecifier_reads : L.Reads importSpecifier := fun s h => by
  refine .mark (.ahead (.ite (fun _ => ?_) fun _ => ?_))
  · refine h.read (bindingName_reads none) fun imported t h _ => .checkWord (.ite (fun _ => ?_) fun _ => .value ?_)
    · exact h.skip fun u h => h.read (bindingName_reads none) fun localName v h _ =>
        h.finish rfl (by simp +arith [Kind.children])
    · exact h.finishShared rfl (by simp [Kind.children]) fun _ _ => Node.occurrences_importSpecifier_le
  · refine h.read identifierName_reads fun imported t h _ => h.next fun u hu =>
      hu.settleUnless (.failAt h.seen) fun v h => ?_
    exact h.read (bindingName_reads none) fun localName w h _ => h.finish rfl (by simp +arith [Kind.children])

theorem importDefault_reads : L.Reads importDefault := fun s h =>
  .mark (h.read identifierName_reads fun name t h _ => h.finish rfl (by simp [Kind.children]))

theorem importNamespace_reads : L.Reads importNamespace := fun s h => by
  refine .mark (h.expect fun t h => .checkWord (h.settleUnless .failHere fun u h => h.skip fun v h => ?_))
  exact h.read identifierName_reads fun name w h _ => h.finish rfl (by simp [Kind.children])

theorem importsAfterDefault_reads : L.Reads importsAfterDefault := fun s h => by
  refine h.accept fun b t h => .ite (fun _ =>
    .check (.ite (fun _ => ?_) fun _ => .check (.ite (fun _ => ?_) fun _ => ?_)))
    fun _ => h.give (by simp) (by simp)
  · exact h.read importNamespace_reads fun n u h _ => h.give (by simp) (by simp)
  · exact h.last (specifiersInBraces_reads importSpecifier_reads) (by simp)
  · exact h.failAhead

theorem importClause_reads : L.Reads importClause := fun s h => by
  refine .ahead (.ite (fun _ => ?_) fun _ => .ite (fun _ => ?_) fun _ => .ite (fun _ => ?_) fun _ => ?_)
  · exact h.last (specifiersInBraces_reads importSpecifier_reads) (by simp)
  · exact h.read importNamespace_reads fun n u h _ => h.give (by simp) (by simp)
  · refine h.read importDefault_reads fun first t h _ => h.read importsAfterDefault_reads fun others u h _ => ?_
    exact h.give (by simp +arith) (by simp)
  · exact h.next fun t ht => ht.failAt h.seen

theorem importDeclaration_reads : L.Reads importDeclaration := fun s h => by
  have finished {start : Place} {specifiers : List Node} {source : Node} {t : ParseState}
      (h : L.Held .ahead s (source :: specifiers) t) : L.Safe (do
        endStatement
        finish start (.importDeclaration specifiers source)) t (L.Gives .ahead s []) :=
    h.endStatement fun u h => h.finish rfl (by simp +arith [Kind.children])
  refine .context (h.settleIf .failHere fun t h =>
    .mark (h.expectKeyword fun u h => .ahead (.ite (fun _ => ?_) fun _ => ?_)))
  · exact h.read moduleSpecifier_reads fun source v h _ => .value (finished h)
  · refine h.read importClause_reads fun specifiers v h _ => h.read fromModule_reads fun source w h _ => .value ?_
    exact finished (h.fewer (by simp))

/-! ## Exports -/

theorem exportSpecifier_reads : L.Reads exportSpecifier := fun s h => by
  refine .mark (h.read identifierName_reads fun localName t h _ => .checkWord (.ite (fun _ => ?_) fun _ => .value ?_))
  · exact h.skip fun u h => h.read identifierName_reads fun exported v h _ =>
      h.finish rfl (by simp +arith [Kind.children])
  · exact h.finishShared rfl (by simp [Kind.children]) fun _ _ => Node.occurrences_exportSpecifier_le

section
variable (hn : L.Sound nested)
include hn

theorem defaultExpression_reads : L.Reads (defaultExpression nested) := fun s h => by
  have rest {e : Node} {t : ParseState} (h : L.Held .ahead s [e] t) : L.Safe (do
      endStatement
      return e) t (L.Gives .ahead s []) := h.endStatement fun u h => h.give (by simp) (by simp)
  refine .ahead (h.settleIf .failHere fun t h => .ite (fun _ => ?_) fun _ => .ite (fun _ => ?_) fun _ => ?_)
  · exact h.read (objectLiteral_reads hn) fun e u h _ => rest h
  · exact h.read (arrayLiteral_reads hn) fun e u h _ => rest h
  · exact h.read hn.assignment fun e u h _ => rest h

theorem exportedDefault_reads : L.Reads (exportedDefault nested) := fun s h => by
  refine .ahead (.ite (fun _ => h.last (function_reads hn _ _) (by simp)) fun _ => .ite (fun _ => ?_) fun _ =>
    .ite (fun _ => ?_) fun _ => h.last (defaultExpression_reads hn) (by simp))
  · exact h.last (classOf_reads hn _ _) (by simp)
  · refine h.read checkAsyncFunction_reads fun b t h _ =>
      .ite (fun _ => h.last (function_reads hn _ _) (by simp)) fun _ => ?_
    exact h.last hn.assignment (by simp)

theorem exportedDeclaration_reads : L.Reads (exportedDeclaration nested) := fun s h => by
  refine .ahead ?_
  split
  · exact h.read (lexicalDeclaration_reads hn) fun n t h _ => h.give (by simp) (by simp)
  · exact h.read (lexicalDeclaration_reads hn) fun n t h _ => h.give (by simp) (by simp)
  · exact h.read (varStatement_reads hn) fun n t h _ => h.give (by simp) (by simp)
  · exact h.read (classOf_reads hn _ _) fun n t h _ => h.give (by simp) (by simp)
  · exact h.read (function_reads hn _ _) fun n t h _ => h.give (by simp) (by simp)
  · exact h.failAt h.seen
  · refine h.read checkAsyncFunction_reads fun b t h _ => .ite (fun _ => ?_) fun _ => h.give (by simp) (by simp)
    exact h.read (function_reads hn _ _) fun n u h _ => h.give (by simp) (by simp)

omit hn in
theorem exportedNames_reads (start : Place) : L.Reads (exportedNames start) := fun s h => by
  have item : L.Reads (do
      let isDefault ← checkKeyword "default"
      let specifier ← exportSpecifier
      unless ← check .rightBrace do expect .comma
      return (specifier, isDefault)) := fun t h =>
    .checkKeyword (h.read exportSpecifier_reads fun specifier u h _ =>
      .check (h.settleUnless .expect fun v h => h.give (by simp) (by simp)))
  have finished {items : List (Node × Bool)} {source : Option Node} {t : ParseState}
      (h : L.Held .ahead s (source.toList ++ nodes items) t) : L.Safe (do
        endStatement
        finish start (.exportNamedDeclaration none (items.map (·.1)) source)) t (L.Gives .ahead s []) :=
    h.endStatement fun u h => h.finish rfl (by simp +arith [Kind.children])
  refine h.expect fun t h => h.read (.itemsBefore item) fun items u h _ => h.expect fun v h =>
    .checkWord (.ite (fun _ => ?_) fun _ => ?_)
  · exact h.read fromModule_reads fun source w h _ => .value (finished (h.fewer (by simp)))
  · exact h.settleIf failMissingFrom_reads fun w h => .value (finished (h.fewer (by simp)))

theorem exportDeclaration_reads : L.Reads (exportDeclaration nested) := fun s h => by
  refine .context (h.settleIf .failHere fun t h =>
    .mark (h.expectKeyword fun u h => h.read (acceptKeyword_reads _) fun b v h _ => ?_))
  refine .ite (fun _ => ?_) fun _ => h.accept fun b w h => .ite (fun _ => ?_) fun _ => ?_
  · exact h.read (exportedDefault_reads hn) fun n w h _ => h.finish rfl (by simp [Kind.children])
  · exact h.read fromModule_reads fun source x h _ => h.endStatement fun y h => h.finish rfl (by simp [Kind.children])
  · refine h.read (exportedDeclaration_reads hn) fun declaration x h _ => ?_
    cases declaration with
    | some declaration => exact h.finish rfl (by simp [Kind.children])
    | none => exact h.last (exportedNames_reads _) (by simp)

/-! ## Items of statement lists -/

theorem importItem_reads : L.Reads (importItem nested) := fun s h => by
  have seen := h.seen
  refine .ahead (h.read checkImportCall_reads fun b t h _ =>
    .ite (fun _ => h.last (expressionStatement_reads hn) (by simp)) fun _ => ?_)
  refine h.read checkImportMeta_reads fun b u h _ => .ite (fun _ => h.last (statement_reads hn) (by simp))
    fun _ => .context ?_
  exact h.settleUnless (.tolerateWith seen) fun v h => h.last importDeclaration_reads (by simp)

theorem listItem_reads : L.Reads (listItem nested) := fun s h => by
  refine h.read (.modifyCover fun _ _ => .inl) fun _ t h _ => .ahead ?_
  split
  · exact .context (h.settleUnless (.tolerateWith h.seen) fun u h => h.last (exportDeclaration_reads hn) (by simp))
  · exact h.last (importItem_reads hn) (by simp)
  · exact h.last (lexicalDeclaration_reads hn) (by simp)
  · exact h.last (function_reads hn _ _) (by simp)
  · exact h.last (classOf_reads hn _ _) (by simp)
  · refine h.read checkLet_reads fun b u h _ => .ite (fun _ => ?_) fun _ => ?_
    · exact h.last (lexicalDeclaration_reads hn) (by simp)
    · exact h.last (statement_reads hn) (by simp)
  · exact h.last (statement_reads hn) (by simp)

/-! ## All productions -/

theorem step_sound : L.Sound (step nested) where
  assignment := assignment_reads hn
  unary := unary_reads hn
  exponentiation := exponentiation_reads hn
  callee := callee_reads hn
  callChain := callChain_reads hn
  pattern := pattern_reads hn
  statement := statement_reads hn
  listItem := listItem_reads hn
  jsxElement := jsxElement_leads hn

end

theorem atLevels_sound : ∀ levels, L.Sound (atLevels levels)
  | 0 => by constructor <;> intros <;> exact fun _ _ => .exhausted
  | levels + 1 => step_sound (atLevels_sound levels)

/-- A whole program, from the state before anything is read. -/
theorem program_leads (hn : L.Sound nested) : L.Leads .inside .ahead (program nested) := fun s h => by
  have opening : L.Leads .inside .ahead opening := fun t h => h.skip fun u h => by
    have passed : L.Held .ahead t [] { u with last := u.scanner.cursor.place } :=
      h.still (.of_record rfl rfl) rfl (L.stands_pass h.stands)
    exact .modify ⟨passed, by simp⟩
  have atEnd : L.Reads atEnd := fun t h => .ahead (h.give (by simp) (by simp))
  refine h.read opening fun _ t h _ => .mark (h.read (prologue_reads hn) fun directives u h _ => ?_)
  refine h.read (.manyBefore atEnd hn.listItem) fun statements v h _ => .context ?_
  exact h.finish rfl (by simp +arith [Kind.children])

/-- A source that is read from its beginning. -/
theorem source_leads (text : String) (dialect : Dialect) (hs : L.Stands .inside (.initial text dialect)) :
    L.Safe (program (atLevels (levelsFor text.utf8ByteSize))) (.initial text dialect)
      (L.Gives .ahead (.initial text dialect) []) :=
  program_leads (atLevels_sound _) _ ⟨.start ⟨rfl, rfl⟩, hs, nofun⟩

end Ledger

end EcmaTree
