import EcmaTree.Grammar.Module
import EcmaTree.Grammar.Program
import EcmaTree.Proofs.Grammar.Statement

/-!
# Modules and programs

What every production does over sound nested ones, all of them do at any number of levels.
-/

namespace EcmaTree

namespace Judgement

open Parse

variable {J : Judgement}

theorem Ensures.failMissingFrom {s : ParseState} {Q : Unit → ParseState → Prop} : J.Ensures failMissingFrom s Q :=
  .ahead .failHere

theorem Settles.failMissingFrom : J.Settles failMissingFrom := fun _ => Ensures.failMissingFrom

end Judgement

namespace Contract

open Parse

variable {K : Contract} {base s : ParseState} {ns : List Node} {r : Bool} {nested : Nested}

theorem moduleSpecifier_reads : K.Reads moduleSpecifier := by
  intro s hs
  refine .mark (.ahead (.ite (fun hstring => ?_) fun _ => .failHere))
  exact takeSkip hs (.refl s) (ParseState.not_arrow_of hstring (fun _ => rfl)) fun t h => h.finish rfl .literal

theorem fromModule_reads : K.Reads fromModule := by
  intro s hs
  refine .checkWord (.ite (fun hfrom => ?_) fun _ => ?_)
  · exact (K.start hs).skip (ParseState.not_arrow_of_word hfrom) fun t h => h.last moduleSpecifier_reads
  · exact Judgement.bind .failMissingFrom fun _ _ h => h

theorem specifiersInBraces_reads {item : Parse Node} (hitem : K.Reads item) : K.Reads (specifiersInBraces item) := by
  intro s hs
  have separated : K.Reads (do
      let specifier ← item
      unless ← check .rightBrace do expect .comma
      return specifier) := fun s hs =>
    (K.start hs).read hitem fun specifier t h =>
      .check (.ite (fun _ => h.give (by simp)) fun _ => h.expect fun u h => h.give (by simp))
  refine (K.start hs).expect fun t h => h.pass (itemsBefore_leads separated) fun items u h => ?_
  exact h.expect fun v h => h.give (by simp)

/-! ## Imports -/

theorem importSpecifier_reads : K.Reads importSpecifier := by
  intro s hs
  refine .mark (.ahead (.ite (fun _ => ?_) fun _ => ?_))
  · refine (K.start hs).read (bindingName_reads none) fun imported t h => .checkWord (.ite (fun has => ?_) fun _ => ?_)
    · refine h.skip (ParseState.not_arrow_of_word has) fun u h => ?_
      exact h.read (bindingName_reads none) fun localName v h => h.finish rfl (by simp [Kind.children])
    · exact .value (h.finish rfl (by simp [Kind.children]))
  · refine (K.start hs).read identifierName_reads fun imported t h => h.next fun u h => ?_
    refine .ite (fun has => ?_) fun _ => ?_
    · exact (h (ParseState.not_arrow_of_word has)).read (bindingName_reads none) fun localName v h =>
        h.finish rfl (by simp [Kind.children])
    · exact Judgement.bind .failAt fun _ _ h => h

theorem importDefault_reads : K.Reads importDefault := fun _ hs =>
  .mark ((K.start hs).read identifierName_reads fun name t h => h.finish rfl (by simp [Kind.children]))

theorem importNamespace_reads : K.Reads importNamespace := by
  intro s hs
  refine .mark ((K.start hs).expect fun t h => .checkWord (.ite (fun has => ?_) fun _ => ?_))
  · refine h.skip (ParseState.not_arrow_of_word has) fun u h => h.read identifierName_reads fun name v h =>
      h.finish rfl (by simp [Kind.children])
  · exact Judgement.bind .failHere fun _ _ h => h

theorem importsAfterDefault_passes : K.Passes importsAfterDefault := by
  intro s hs
  refine (K.start hs).accept (fun t h => .pos rfl (.check (.ite (fun _ => ?_) fun _ => .check ?_))) fun _ => ?_
  · exact h.read importNamespace_reads fun n u h => h.reading.give (by simp)
  · refine .ite (fun _ => ?_) fun _ => .failAhead
    rw [← bind_pure (specifiersInBraces _)]
    exact h.read (specifiersInBraces_reads importSpecifier_reads) fun ns u h => h.reading.give (by simp)
  · exact .neg nofun ((K.start hs).give (by simp))

theorem importClause_reads : K.Reads importClause := by
  intro s hs
  refine .ahead (.ite (fun _ => specifiersInBraces_reads importSpecifier_reads s hs) fun _ => ?_)
  refine .ite (fun _ => ?_) fun _ => .ite (fun _ => ?_) fun _ => (K.start hs).next fun t _ => .failAt
  · exact (K.start hs).read importNamespace_reads fun n t h => h.give (by simp)
  · refine (K.start hs).read importDefault_reads fun n t h => h.pass importsAfterDefault_passes fun ns u h =>
      h.give (by simp +contextual)

theorem importParts_reads : K.Reads (do
    let start ← mark
    expectKeyword "import"
    let (specifiers, source) ←
      if (← ahead).isString then pure ([], ← moduleSpecifier)
      else
        let specifiers ← importClause
        pure (specifiers, ← fromModule)
    endStatement
    finish start (.importDeclaration specifiers source)) := by
  intro s hs
  refine .mark ((K.start hs).expectKeyword fun t h => .ahead (.ite (fun _ => ?_) fun _ => ?_))
  · refine h.read moduleSpecifier_reads fun source u h => .value ?_
    exact h.pass endStatement_passes fun _ v h => h.finish rfl (by simp [Kind.children])
  · refine h.read importClause_reads fun specifiers u h => h.read fromModule_reads fun source v h => .value ?_
    exact h.pass endStatement_passes fun _ w h => h.finish rfl (by simp [Kind.children]; grind)

theorem importDeclaration_reads : K.Reads importDeclaration := fun _ hs =>
  .context ((K.start hs).settleIf (.failHere _) fun _ h => h.last importParts_reads)

/-! ## Exports -/

theorem exportSpecifier_reads : K.Reads exportSpecifier := by
  intro s hs
  refine .mark ((K.start hs).read identifierName_reads fun localName t h =>
    .checkWord (.ite (fun has => ?_) fun _ => ?_))
  · refine h.skip (ParseState.not_arrow_of_word has) fun u h => ?_
    exact h.read identifierName_reads fun exported v h => h.finish rfl (by simp [Kind.children])
  · exact .value (h.finish rfl (by simp [Kind.children]))

/-- Names behind their braces end the export. -/
theorem exportedNames_held {start : Place} (h : K.Held .ahead true base [] s) (hstart : base.Marks start) :
    K.Ensures (exportedNames start) s fun n t => K.Held .ahead true base (nodes n) t := by
  have separated : K.Reads (do
      let isDefault ← checkKeyword "default"
      let specifier ← exportSpecifier
      unless ← check .rightBrace do expect .comma
      return (specifier, isDefault)) := by
    intro s hs
    refine .checkKeyword ((K.start hs).read exportSpecifier_reads fun specifier t h => .check ?_)
    exact .ite (fun _ => h.give (by simp)) fun _ => h.expect fun u h => h.give (by simp)
  refine h.expect fun t h => h.pass (itemsBefore_leads separated) fun items u h => h.expect fun v h => ?_
  refine .checkWord (.ite (fun _ => ?_) fun _ => h.settleIf .failMissingFrom fun w h => .value ?_)
  · refine h.read fromModule_reads fun source w h => .value ?_
    exact h.pass endStatement_passes fun _ x h => h.finishFrom hstart rfl (by simp [Kind.children]; grind)
  · exact h.pass endStatement_passes fun _ x h => h.finishFrom hstart rfl (by simp [Kind.children])

section
variable (hn : K.Sound nested)
include hn

theorem defaultExpression_reads : K.Reads (defaultExpression nested) := by
  intro s hs
  refine .ahead ((K.start hs).settleIf (.failHere _) fun t h => ?_)
  refine .ite (fun _ => ?_) fun _ => .ite (fun _ => ?_) fun _ => ?_
  · exact h.read (objectLiteral_reads hn) fun e u h => h.pass endStatement_passes fun _ v h => h.give (by simp)
  · exact h.read (arrayLiteral_reads hn) fun e u h => h.pass endStatement_passes fun _ v h => h.give (by simp)
  · exact h.read hn.assignment fun e u h => h.pass endStatement_passes fun _ v h => h.give (by simp)

theorem exportedDefault_reads : K.Reads (exportedDefault nested) := by
  intro s hs
  refine .ahead (.ite (fun _ => (function_closes hn _ _).reads s hs) fun _ => .ite (fun _ => ?_) fun _ => ?_)
  · exact classOf_reads hn _ _ s hs
  refine .ite (fun _ => ?_) fun _ => defaultExpression_reads hn s hs
  refine (K.start hs).settle .checkAsyncFunction fun isFunction t h => .ite (fun _ => ?_) fun _ => ?_
  · exact h.last (function_closes hn _ _).reads
  · exact h.last hn.assignment

theorem exportedDeclaration_passes : K.Passes (exportedDeclaration nested) := by
  intro s hs
  have h := K.start hs
  refine .ahead ?_
  split
  · exact h.read (lexicalDeclaration_reads hn) fun n t h => h.reading.give (by simp)
  · exact h.read (lexicalDeclaration_reads hn) fun n t h => h.reading.give (by simp)
  · exact h.read (varStatement_reads hn) fun n t h => h.reading.give (by simp)
  · exact h.read (classOf_reads hn _ _) fun n t h => h.reading.give (by simp)
  · exact h.read (function_closes hn _ _).reads fun n t h => h.reading.give (by simp)
  · exact .failAt
  · refine h.settle .checkAsyncFunction fun isFunction t h => .ite (fun _ => ?_) fun _ => h.give (by simp)
    exact h.read (function_closes hn _ _).reads fun n t h => h.reading.give (by simp)

theorem exportParts_reads : K.Reads (do
    let start ← mark
    expectKeyword "export"
    if ← acceptKeyword "default" then
      finish start (.exportDefaultDeclaration (← exportedDefault nested))
    else if ← accept .star then
      let source ← fromModule
      endStatement
      finish start (.exportAllDeclaration source)
    else
      match ← exportedDeclaration nested with
      | some declaration => finish start (.exportNamedDeclaration (some declaration) [] none)
      | none => exportedNames start) := by
  intro s hs
  refine .mark ((K.start hs).expectKeyword fun t h => h.acceptKeyword (fun u h => ?_) ?_)
  · exact h.read (exportedDefault_reads hn) fun e v h => h.finish rfl (by simp [Kind.children])
  refine h.accept (fun u h => ?_) fun _ => h.pass (exportedDeclaration_passes hn) fun declaration u h => ?_
  · refine h.read fromModule_reads fun source v h => h.pass endStatement_passes fun _ w h => ?_
    exact h.finish rfl (by simp [Kind.children])
  · cases declaration with
    | some declaration => exact h.finish rfl (by simp [Kind.children])
    | none => exact exportedNames_held (h.mono (by simp)) (.inl rfl)

theorem exportDeclaration_reads : K.Reads (exportDeclaration nested) := fun _ hs =>
  .context ((K.start hs).settleIf (.failHere _) fun _ h => h.last (exportParts_reads hn))

/-! ## Items of statement lists -/

theorem importItem_reads : K.Reads (importItem nested) := by
  intro s hs
  refine .ahead ((K.start hs).settle .checkImportCall fun isCall t h => .ite (fun _ => ?_) fun _ => ?_)
  · exact h.last (expressionStatement_reads hn)
  refine h.settle .checkImportMeta fun isMeta u h => .ite (fun _ => h.last (statement_reads hn)) fun _ => .context ?_
  exact h.settleUnless (.tolerateWith _ _) fun v h => h.last importDeclaration_reads

theorem listItem_reads : K.Reads (listItem nested) := by
  intro s hs
  refine (K.start hs).settle (.modifyCover _) fun _ t h => .ahead ?_
  split
  · exact .context (h.settleUnless (.tolerateWith _ _) fun u h => h.last (exportDeclaration_reads hn))
  · exact h.last (importItem_reads hn)
  · exact h.last (lexicalDeclaration_reads hn)
  · exact h.last (function_closes hn _ _).reads
  · exact h.last (classOf_reads hn _ _)
  · refine h.settle .checkLet fun isLet u h => .ite (fun _ => ?_) fun _ => ?_
    · exact h.last (lexicalDeclaration_reads hn)
    · exact h.last (statement_reads hn)
  · exact h.last (statement_reads hn)

end

end Contract

end EcmaTree

/-! ## Programs -/

namespace EcmaTree

namespace Contract

open Parse

variable {K : Contract} {base s : ParseState} {nested : Nested}

theorem step_sound (hn : K.Sound nested) : K.Sound (step nested) where
  assignment := assignment_reads hn
  unary := unary_reads hn
  exponentiation := exponentiation_reads hn
  callee := callee_reads hn
  callChain := callChain_reads hn
  pattern := pattern_reads hn
  statement := statement_reads hn
  listItem := listItem_reads hn
  jsxElement := jsxElement_reads hn

theorem atLevels_sound : ∀ levels, K.Sound (atLevels levels)
  | 0 => by constructor <;> intros <;> exact fun _ _ => Judgement.Loose.ofExhausted
  | levels + 1 => step_sound (atLevels_sound levels)

/-- The items of a program come before the end of the source. -/
theorem itemsBeforeEnd_held {item : Parse Node} {ns : List Node} (h : K.Held .ahead false base ns s)
    (hitem : K.Reads item) :
    K.Ensures (manyBefore atEnd item) s fun items t =>
      K.Held .ahead false base (items ++ ns) t ∧ t.lookahead.isEnd = true := by
  let I (items : List Node) (t : ParseState) : Prop := K.Held .ahead false base (items ++ ns) t
  refine Judgement.bind (P := fun items t => I items t ∧ t.lookahead.isEnd = true)
    (Judgement.Ensures.loop (I := I) (h.mono (by simp)) fun items t h => ?_) fun items t ⟨h, hend⟩ => ?_
  · refine .reading (fun _ => rfl) (.ite (fun hend => K.ofPure ⟨h, hend⟩) fun _ => ?_)
    exact h.read hitem fun item u h => K.ofPure (h.reading.mono (by simp))
  · exact K.ofPure ⟨h.mono (by simp), hend⟩

/-- A whole program. Its node is good behind the end of the source, where it began. -/
theorem program_held (hn : K.Sound nested) (hs : K.Initial s) :
    K.Ensures (program nested) s fun n t =>
      ∃ first, K.Opened first ∧ K.Held .ahead true first [n] t ∧ t.lookahead.isEnd = true := by
  refine Judgement.bind (K.ofOpening hs) fun _ first ⟨stands, opened⟩ => .mark ?_
  refine (K.start stands).pass (prologue_passes hn) fun directives t h => ?_
  refine Judgement.bind (itemsBeforeEnd_held h hn.listItem) fun items u ⟨h, hend⟩ => .context ?_
  have read : K.Held .ahead true first (directives ++ items) u :=
    ⟨h.stands, K.read_of_end opened h.moved h.stands hend, fun n hn => h.good n (by simp at hn ⊢; exact hn.symm)⟩
  refine K.mono (read.finished (.inl rfl) rfl (by simp [Kind.children])) ?_
  exact fun n v ⟨held, _, lookahead⟩ => ⟨first, opened, held, by rwa [lookahead]⟩

/-- A source that is read from its beginning. -/
theorem source_held (text : String) (dialect : Dialect) (record : Record)
    (hs : K.Initial (.initial text dialect record)) :
    K.Ensures (program (atLevels (levelsFor text.utf8ByteSize))) (.initial text dialect record) fun n t =>
      ∃ first, K.Opened first ∧ K.Held .ahead true first [n] t ∧ t.lookahead.isEnd = true :=
  program_held (atLevels_sound _) hs

end Contract

end EcmaTree
