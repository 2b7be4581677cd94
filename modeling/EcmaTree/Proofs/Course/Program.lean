import EcmaTree.Proofs.Course.Statement

/-!
# Modules and programs

Two levels of productions are sound where one byte more is left: an assignment is sound one level above the other
productions, and a statement, which may be an expression, one level above that.
-/

namespace EcmaTree.Course

open Parse

variable {text : String} {n : Nat} {nested : Nested} {s : ParseState} {base : Nat}

/-! ## Specifiers -/

/-- A specifier whose one name has just been finished. -/
theorem Named.shared {start : Cursor} {name : Node} {kind : Kind Node} (h : Named text n base start name s)
    (hk : kind = .importSpecifier name name ∨ kind = .exportSpecifier name name) :
    Ends (finish start.place kind) s fun _ t => Held text n .ahead true base t := by
  obtain ⟨es, hes, regular, clear⟩ := h.events
  obtain ⟨text, hname⟩ := h.identifier
  rw [← bind_pure (finish start.place kind)]
  refine h.held.nodeRegular (fun node hnode _ => ?_) fun _ _ h => h.give
  rw [hes, List.append_assoc]
  exact .named (hnode ▸ hk) hname h.extent clear regular

/-- A specifier with two names, one behind the other. -/
theorem Named.renamed {start : Place} {first second : Cursor} {name other : Node} {last : Place}
    {kind : Kind Node} {base' : Nat}
    (h : Named text n base' second other s) (held : Held text n .ahead true base s)
    (hname : name.info.extent = some ⟨first.place, last⟩) (hlt : first.offset < second.offset)
    (hk : kind = .importSpecifier other name ∨ kind = .exportSpecifier name other) :
    Ends (finish start kind) s fun _ t => Held text n .ahead true base t := by
  have differ : name.info.extent ≠ other.info.extent := by
    rw [hname, h.extent]
    rintro same
    have : first.offset = second.offset := by simpa [Cursor.place] using congrArg (fun e => e.map (·.start.offset)) same
    exact absurd hlt (this ▸ Nat.lt_irrefl _)
  rw [← bind_pure (finish start kind)]
  refine held.nodeRegular (fun node hnode hr => ?_) fun _ _ h => h.give
  rcases hk with rfl | rfl
  · exact hr.renamed _ (.inl hnode) differ.symm
  · exact hr.renamed _ (.inr hnode) differ

theorem importSpecifier_reads : Reads text n importSpecifier := fun s h => by
  -- The second name begins behind the first one.
  have renamed {imported : Node} {last : Place} {u : ParseState}
      (hname : imported.info.extent = some ⟨s.start.place, last⟩)
        (h : Held text n .ahead true (s.site .ahead) u) : Ends (do
        let localName ← bindingName none
        finish s.start.place (.importSpecifier localName imported)) u fun _ v =>
          Held text n .ahead true (s.site .ahead) v :=
    Judgement.bind (bindingName_names none h.self) fun localName v hv =>
      hv.renamed (by simpa using h.trans hv.held) hname h.moved (.inl rfl)
  refine .mark (.ahead (.ite (fun _ => ?_) fun _ => ?_))
  · refine Judgement.bind (bindingName_names none h) fun imported t ht => .checkWord (.ite (fun _ => ?_) fun _ => ?_)
    · exact ht.held.pass .skip fun _ u h => renamed ht.extent h
    · exact .value (ht.shared (.inl rfl))
  · refine Judgement.bind (identifierName_names h) fun imported t ht => ht.held.next fun u h _ => ?_
    exact h.settleUnless (.failAt _) fun v h => renamed ht.extent h

theorem exportSpecifier_reads : Reads text n exportSpecifier := fun s h => by
  refine .mark (Judgement.bind (identifierName_names h) fun localName t ht =>
    .checkWord (.ite (fun _ => ?_) fun _ => ?_))
  · refine ht.held.pass .skip fun _ u h => Judgement.bind (identifierName_names h.self) fun exported v hv => ?_
    exact hv.renamed (by simpa using h.trans hv.held) ht.extent h.moved (.inr rfl)
  · exact .value (ht.shared (.inr rfl))

/-! ## Imports -/

theorem moduleSpecifier_reads : Reads text n moduleSpecifier := fun _ h =>
  .mark (.ahead (.ite (fun hstring => h.skip (not_end_of hstring fun _ => rfl) fun _ h => h.finish rfl)
    fun _ => .failHere))

theorem fromModule_reads : Reads text n fromModule := fun _ h =>
  .checkWord (h.settleUnless .failMissingFrom fun _ h => h.pass .skip fun _ _ h => h.last moduleSpecifier_reads)

theorem specifiersInBraces_reads {item : Parse Node} (hitem : Reads text n item) :
    Reads text n (specifiersInBraces item) :=
    fun s h => by
  have separated : Reads text n (do
      let specifier ← item
      unless ← check .rightBrace do expect .comma
      return specifier) := fun t h =>
    h.read hitem fun specifier u h => .check (.ite (fun _ => h.give) fun _ => h.expect fun v h => h.give)
  exact h.expect fun t h => h.pass (.itemsBefore separated) fun items u h => h.expect fun v h => h.give

theorem importDefault_reads : Reads text n importDefault := fun _ h =>
  .mark (h.read identifierName_reads fun _ _ h => h.finish rfl)

theorem importNamespace_reads : Reads text n importNamespace := fun s h => by
  refine .mark (h.expect fun t h => .checkWord (h.settleUnless (.failHere _) fun u h => h.pass .skip fun _ v h => ?_))
  exact h.read identifierName_reads fun name w h => h.finish rfl

theorem importsAfterDefault_passes : Passes text n importsAfterDefault := fun s h => by
  refine h.accept (fun t h => .pos rfl (.check (.ite (fun _ => ?_) fun _ => .check (.ite (fun _ => ?_) fun _ => ?_))))
    (.neg nofun h.give)
  · exact h.read importNamespace_reads fun n u h => h.reading.give
  · exact (h.reading (r := false)).last (specifiersInBraces_reads importSpecifier_reads).reading
  · exact .failAhead

theorem importClause_reads : Reads text n importClause := fun s h => by
  refine .ahead (.ite (fun _ => ?_) fun _ => .ite (fun _ => ?_) fun _ => .ite (fun _ => ?_) fun _ => ?_)
  · exact h.last (specifiersInBraces_reads importSpecifier_reads)
  · exact h.read importNamespace_reads fun n u h => h.give
  · exact h.read importDefault_reads fun first t h => h.pass importsAfterDefault_passes fun others u h => h.give
  · exact h.next fun t _ _ => .failAt

theorem importDeclaration_reads : Reads text n importDeclaration := fun s h => by
  have finished {start : Place} {specifiers : List Node} {source : Node} {t : ParseState}
      (h : Held text n .ahead true (s.site .ahead) t) : Ends (do
        endStatement
        finish start (.importDeclaration specifiers source)) t fun _ u => Held text n .ahead true (s.site .ahead) u :=
    h.pass .endStatement fun _ u h => h.finish rfl
  refine .context (h.settleIf (.failHere _) fun t h =>
    .mark (h.expectKeyword fun u h => .ahead (.ite (fun _ => ?_) fun _ => ?_)))
  · exact h.read moduleSpecifier_reads fun source v h => .value (finished h)
  · exact h.read importClause_reads fun specifiers v h => h.read fromModule_reads fun source w h => .value (finished h)

/-! ## Exports -/

theorem exportedNames_reads (start : Place) : Reads text n (exportedNames start) := fun s h => by
  have item : Reads text n (do
      let isDefault ← checkKeyword "default"
      let specifier ← exportSpecifier
      unless ← check .rightBrace do expect .comma
      return (specifier, isDefault)) := fun t h =>
    .checkKeyword (h.read exportSpecifier_reads fun specifier u h =>
      .check (.ite (fun _ => h.give) fun _ => h.expect fun v h => h.give))
  have finished {items : List (Node × Bool)} {source : Option Node} {t : ParseState}
      (h : Held text n .ahead true (s.site .ahead) t) : Ends (do
        endStatement
        finish start (.exportNamedDeclaration none (items.map (·.1)) source)) t fun _ u =>
          Held text n .ahead true (s.site .ahead) u :=
    h.pass .endStatement fun _ u h => h.finish rfl
  refine h.expect fun t h => h.pass (.itemsBefore item) fun items u h => h.expect fun v h =>
    .checkWord (.ite (fun _ => ?_) fun _ => ?_)
  · exact h.read fromModule_reads fun source w h => .value (finished h)
  · exact h.settleIf .failMissingFrom fun w h => .value (finished h)

section
variable (hn : Sound text n nested)
include hn

theorem defaultExpression_reads : Reads text n (defaultExpression nested) := fun s h => by
  have rest {e : Node} {t : ParseState} (h : Held text n .ahead true (s.site .ahead) t) : Ends (do
      endStatement
      return e) t fun _ u => Held text n .ahead true (s.site .ahead) u := h.pass .endStatement fun _ u h => h.give
  refine .ahead (h.settleIf (.failHere _) fun t h => .ite (fun _ => ?_) fun _ => .ite (fun _ => ?_) fun _ => ?_)
  · exact h.read (objectLiteral_reads hn).weaken fun e u h => rest h
  · exact h.read (arrayLiteral_reads hn).weaken fun e u h => rest h
  · exact h.read hn.assignment fun e u h => rest h

theorem exportedDefault_reads : Reads text n (exportedDefault nested) := fun s h => by
  refine .ahead (.ite (fun _ => h.last (function_reads hn _ _).weaken) fun _ => .ite (fun _ => ?_) fun _ =>
    .ite (fun _ => ?_) fun _ => h.last (defaultExpression_reads hn))
  · exact h.last (classOf_reads hn _ _).weaken
  · refine h.settle .checkAsyncFunction fun b t h => .ite (fun _ => h.last (function_reads hn _ _).weaken) fun _ => ?_
    exact h.last hn.assignment

theorem exportedDeclaration_passes : Passes text (n + 1) (exportedDeclaration nested) := fun s h => by
  refine .ahead ?_
  split
  · exact h.pass (lexicalDeclaration_reads hn).reading fun n t h => h.give
  · exact h.pass (lexicalDeclaration_reads hn).reading fun n t h => h.give
  · exact h.pass (varStatement_reads hn).reading fun n t h => h.give
  · exact h.pass (classOf_reads hn _ _).reading fun n t h => h.give
  · exact h.pass (function_reads hn _ _).reading fun n t h => h.give
  · exact .failAt
  · refine h.settle .checkAsyncFunction fun b t h => .ite (fun _ => ?_) fun _ => h.give
    exact h.pass (function_reads hn _ _).reading fun n u h => h.give

theorem exportDeclaration_reads : Reads text (n + 1) (exportDeclaration nested) := fun s h => by
  refine .context (h.settleIf (.failHere _) fun t h =>
    .mark (h.expectKeyword fun u h => h.acceptKeyword (fun v h => ?_) ?_))
  · exact .pos rfl (h.nest (exportedDefault_reads hn) fun e w h => h.finish rfl)
  refine .neg nofun (h.accept (fun v h => .pos rfl ?_) (.neg nofun ?_))
  · exact h.read fromModule_reads fun source w h => h.pass .endStatement fun _ x h => h.finish rfl
  · refine h.pass (exportedDeclaration_passes hn) fun declaration v h => ?_
    cases declaration with
    | some declaration => exact h.finish rfl
    | none => exact h.last (exportedNames_reads _)

/-! ## Items of statement lists -/

section
variable (he : Reads text (n + 1) (nested .assignment))
include he

theorem importItem_reads : Reads text (n + 1) (importItem nested) := fun s h => by
  refine .ahead (h.settle .checkImportCall fun b t h => .ite (fun _ => h.last (expressionStatement_reads he))
    fun _ => ?_)
  refine h.settle .checkImportMeta fun b u h => .ite (fun _ => h.last (statement_reads hn he)) fun _ => .context ?_
  exact h.settleUnless (.tolerateWith _ _) fun v h => h.last importDeclaration_reads

theorem listItem_reads : Reads text (n + 1) (listItem nested) := fun s h => by
  refine h.settle (.modifyCover _) fun _ t h => .ahead ?_
  split
  · exact .context (h.settleUnless (.tolerateWith _ _) fun u h => h.last (exportDeclaration_reads hn))
  · exact h.last (importItem_reads hn he)
  · exact h.last (lexicalDeclaration_reads hn)
  · exact h.last (function_reads hn _ _)
  · exact h.last (classOf_reads hn _ _)
  · refine h.settle .checkLet fun b u h => .ite (fun _ => ?_) fun _ => ?_
    · exact h.last (lexicalDeclaration_reads hn)
    · exact h.last (statement_reads hn he)
  · exact h.last (statement_reads hn he)

/-! ## All productions -/

theorem Sound.step : Sound text (n + 1) (step nested) where
  assignment := assignment_reads hn
  unary := unary_reads hn
  exponentiation := exponentiation_reads hn
  callee := callee_reads hn
  callChain := callChain_reads hn
  pattern := pattern_reads hn
  statement := statement_reads hn he
  listItem := listItem_reads hn he
  jsxElement := jsxElement_reads hn

end

omit hn in
/-- There is no way to have fewer bytes left than none. -/
theorem Sound.zero : Sound text 0 nested := by
  constructor <;> intros <;> exact fun _ h => absurd h.room (Nat.not_lt_zero _)

end

theorem atLevels_sound : ∀ {n levels : Nat}, 2 * n ≤ levels → Sound text n (atLevels levels)
  | 0, _, _ => .zero
  | n + 1, levels, h => by
    obtain ⟨levels, rfl⟩ : ∃ l, levels = l + 2 := ⟨levels - 2, by omega⟩
    have below : Sound text n (atLevels levels) := atLevels_sound (by omega)
    have above : Sound text n (atLevels (levels + 1)) := atLevels_sound (by omega)
    exact above.step (assignment_reads below)

/-- A whole program, from the state before anything is read. -/
theorem program_passes (hn : Sound text n nested) : Leads text n .inside .ahead false (program nested) := fun s h => by
  refine Judgement.bind .opening ?_
  rintro _ _ ⟨u, hu, rfl⟩
  obtain ⟨stands, le⟩ := h.stands.advances hu
  have opened : Held text n .ahead false (s.site .inside) { u with last := u.scanner.cursor.place } :=
    ⟨stands.unrecorded (stands.placed.congr rfl) rfl (Nat.le_refl _), le, h.room⟩
  refine .mark (opened.pass (prologue_passes hn.assignment) fun directives t h => ?_)
  have atEnd : Judgement.ending.Settles atEnd := .get (fun _ => rfl) fun _ => .pure _
  exact h.pass (.manyBefore atEnd hn.listItem) fun statements v h => .context (h.finish rfl)

/-- The state before anything is read, where loops may go round more often than the source has bytes. -/
theorem stands_initial (text : String) (dialect : Dialect) (rounds : Nat) :
    Stands text .inside { ParseState.initial text dialect with bound := text.utf8ByteSize + 2 + rounds } where
  placed := ⟨.refl _, .refl _⟩
  complete := ⟨rfl, rfl⟩
  bound := Nat.le_add_right _ _
  regular := .nil
  passed := List.forall_mem_nil _

/-- A source that is read from its beginning. -/
theorem source_ends (text : String) (dialect : Dialect) {levels : Nat} (rounds : Nat)
    (h : 2 * (text.utf8ByteSize + 1) ≤ levels) :
    Ends (program (atLevels levels)) { ParseState.initial text dialect with bound := text.utf8ByteSize + 2 + rounds }
      fun _ t => Stands text .ahead t := by
  refine Judgement.ending.mono (program_passes (atLevels_sound h) _ ⟨stands_initial text dialect rounds,
    .refl _, ?_⟩) fun _ _ h => h.stands
  show text.utf8ByteSize - 0 < _
  omega

end EcmaTree.Course
