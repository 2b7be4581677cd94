import EcmaTree.Proofs.Derivation.Module
import EcmaTree.Proofs.Grammar.Program
import EcmaTree.Proofs.Plain.Statement
import EcmaTree.Proofs.Recording.Found

/-!
# Programs without JSX

Only `export default async` reads an expression and leaves what follows it to the next item; and no item begins with
`<`. So what a parse without JSX reads, a parse with JSX reads too.
-/

namespace EcmaTree

namespace Parse

variable {I : Invariant} {free : Bool} {nested : Nested} {s : ParseState}

section
variable (hn : Tame I nested)
include hn

/-! ## Imports -/

omit hn in
theorem moduleSpecifier_goes : Goes I free moduleSpecifier :=
  .quiet .mark fun _ => .quiet .ahead fun _ => .ite (.bind .skip fun _ => .of_quiet (.finish _ _)) (.of_stops .failHere)

omit hn in
theorem fromModule_goes : Goes I free fromModule :=
  .quiet (.checkWord _) fun _ => .guardUnless failMissingFrom_stops (.bind .skip fun _ => moduleSpecifier_goes)

omit hn in
theorem specifiersInBraces_goes {item : Parse Node} (hitem : Goes I false item) :
    Goes I free (specifiersInBraces item) := by
  refine .bind (.expect _) fun _ => .bind (.items (.bind hitem fun _ => ?_)) fun _ => .bind (.expect _) fun _ => .pure _
  exact .quiet (.check _) fun _ => .ite (.pure _) (.bind (.expect _) fun _ => .pure _)

omit hn in
theorem importSpecifier_goes : Goes I free importSpecifier := by
  refine .quiet .mark fun _ => .quiet .ahead fun _ =>
    .ite (.bind (bindingName_goes none) fun _ => .quiet (.checkWord _) fun _ => .ite ?_ ?_) ?_
  · exact .bind .skip fun _ => .bind (bindingName_goes none) fun _ => .of_quiet (.finish _ _)
  · exact .bind (.pure _) fun _ => .of_quiet (.finish _ _)
  · exact .bind identifierName_goes fun _ => .bind .next fun _ =>
      .guardUnless .failAt (.bind (bindingName_goes none) fun _ => .of_quiet (.finish _ _))

omit hn in
theorem importDefault_goes : Goes I free importDefault :=
  .quiet .mark fun _ => .bind identifierName_goes fun _ => .of_quiet (.finish _ _)

omit hn in
theorem importNamespace_goes : Goes I free importNamespace := by
  refine .quiet .mark fun _ => .bind (.expect _) fun _ => .quiet (.checkWord _) fun _ =>
    .guardUnless .failHere (.bind .skip fun _ => ?_)
  exact .bind identifierName_goes fun _ => .of_quiet (.finish _ _)

omit hn in
theorem importsAfterDefault_goes : Goes I free importsAfterDefault := by
  refine .bind (.accept _) fun _ =>
    .ite (.quiet (.check _) fun _ => .ite ?_ (.quiet (.check _) fun _ => .ite ?_ (.of_stops .failAhead))) (.pure _)
  · exact .bind importNamespace_goes fun _ => .pure _
  · exact specifiersInBraces_goes importSpecifier_goes

omit hn in
theorem importClause_goes : Goes I free importClause := by
  refine .quiet .ahead fun _ =>
    .ite (specifiersInBraces_goes importSpecifier_goes) (.ite ?_ (.ite ?_ (.bind .next fun _ => .of_stops .failAt)))
  · exact .bind importNamespace_goes fun _ => .pure _
  · exact .bind importDefault_goes fun _ => .bind importsAfterDefault_goes fun _ => .pure _

omit hn in
theorem importDeclaration_goes : Goes I free importDeclaration := by
  have rest (start : Place) (specifiers : List Node) (source : Node) : Goes I free (do
      endStatement
      finish start (.importDeclaration specifiers source)) := .bind .endStatement fun _ => .of_quiet (.finish _ _)
  refine .quiet .context fun _ => .guard .failHere (.quiet .mark fun _ => .bind (.expectKeyword _) fun _ =>
    .quiet .ahead fun _ => .ite ?_ ?_)
  · exact .bind moduleSpecifier_goes fun _ => .bind (.pure _) fun _ => rest _ _ _
  · exact .bind importClause_goes fun _ => .bind fromModule_goes fun _ => .bind (.pure _) fun _ => rest _ _ _

/-! ## Exports -/

omit hn in
theorem exportSpecifier_goes : Goes I free exportSpecifier := by
  refine .quiet .mark fun _ => .bind identifierName_goes fun _ => .quiet (.checkWord _) fun _ => .ite ?_ ?_
  · exact .bind .skip fun _ => .bind identifierName_goes fun _ => .of_quiet (.finish _ _)
  · exact .bind (.pure _) fun _ => .of_quiet (.finish _ _)

theorem defaultExpression_goes : Goes I free (defaultExpression nested) := by
  have rest (e : Node) : Goes I free (do
      endStatement
      return e) := .bind .endStatement fun _ => .pure _
  refine .quiet .ahead fun _ =>
    .guard .failHere (.ite (.bind (objectLiteral_goes hn) rest) (.ite (.bind (arrayLiteral_goes hn) rest) ?_))
  exact .bindFree hn.assignment.goes rest fun _ => .first .endStatement

/-- What comes behind `export default async` may be an expression, with nothing to end it. -/
theorem exportedDefault_goes : Goes I true (exportedDefault nested) := by
  refine .quiet .ahead fun _ =>
    .ite (function_goes hn _ _) (.ite (classOf_goes hn _ _) (.ite ?_ (defaultExpression_goes hn)))
  exact .quiet checkAsyncFunction_quiet fun _ => .ite (function_goes hn _ _) hn.assignment.goes

theorem exportedDeclaration_goes : Goes I free (exportedDeclaration nested) := .quiet .ahead fun t => by
  split
  · exact .bind (lexicalDeclaration_goes hn) fun _ => .pure _
  · exact .bind (lexicalDeclaration_goes hn) fun _ => .pure _
  · exact .bind (varStatement_goes hn) fun _ => .pure _
  · exact .bind (classOf_goes hn _ _) fun _ => .pure _
  · exact .bind (function_goes hn _ _) fun _ => .pure _
  · exact .of_stops .failAt
  · exact .quiet checkAsyncFunction_quiet fun _ => .ite (.bind (function_goes hn _ _) fun _ => .pure _) (.pure _)

omit hn in
theorem exportedNames_goes (start : Place) : Goes I free (exportedNames start) := by
  have rest (specifiers : List Node) (source : Option Node) : Goes I free (do
      endStatement
      finish start (.exportNamedDeclaration none specifiers source)) := .bind .endStatement
        fun _ => .of_quiet (.finish _ _)
  refine .bind (.expect _) fun _ =>
    .bind (.items (.quiet (.checkKeyword _) fun _ => .bind exportSpecifier_goes fun _ => ?_)) fun _ => ?_
  · exact .quiet (.check _) fun _ => .ite (.pure _) (.bind (.expect _) fun _ => .pure _)
  · refine .bind (.expect _) fun _ => .quiet (.checkWord _) fun _ =>
      .ite ?_ (.guard failMissingFrom_stops (.bind (.pure _) fun _ => rest _ _))
    exact .bind fromModule_goes fun _ => .bind (.pure _) fun _ => rest _ _

theorem exportDeclaration_goes : Goes I true (exportDeclaration nested) := by
  refine .quiet .context fun _ => .guard .failHere (.quiet .mark fun _ => .bind (.expectKeyword _) fun _ =>
    .bind (acceptKeyword_goes _) fun _ => .ite ?_ ?_)
  · exact .last (exportedDefault_goes hn) fun _ => .finish _ _
  refine .bind (.accept _) fun _ =>
    .ite (.bind fromModule_goes fun _ => .bind .endStatement fun _ => .of_quiet (.finish _ _)) ?_
  exact .bind (exportedDeclaration_goes hn) fun
    | some _ => .of_quiet (.finish _ _)
    | none => exportedNames_goes _

/-! ## Items of statement lists -/

theorem importItem_goes : Goes I free (importItem nested) := by
  refine .quiet .ahead fun _ => .quiet checkImportCall_quiet fun _ =>
    .ite (expressionStatement_goes hn) (.quiet checkImportMeta_quiet fun _ => ?_)
  exact .ite (statement_proceeds hn).goes (.quiet .context fun _ => .guardUnless .tolerateWith importDeclaration_goes)

theorem listItem_proceeds : Proceeds I true (listItem nested) where
  goes := .quiet (.modifyCover _) fun _ => .quiet .ahead fun t => by
    split
    · exact .quiet .context fun _ => .guardUnless .tolerateWith (exportDeclaration_goes hn)
    · exact importItem_goes hn
    · exact lexicalDeclaration_goes hn
    · exact function_goes hn _ _
    · exact classOf_goes hn _ _
    · exact .quiet checkLet_quiet fun _ => .ite (lexicalDeclaration_goes hn) (statement_proceeds hn).goes
    · exact (statement_proceeds hn).goes
  halts := .quiet (.modifyCover _) fun _ => .ahead fun t ht => by
    rw [ht]
    exact (statement_proceeds hn : Proceeds I true _).halts

/-! ## All levels -/

theorem step_tame : Tame I (step nested) where
  assignment := ⟨assignment_goes hn, assignment_halts⟩
  unary := ⟨unary_goes hn, unary_halts⟩
  exponentiation := ⟨exponentiation_goes hn, exponentiation_halts⟩
  callee := ⟨callee_goes hn, callee_halts⟩
  callChain := ⟨callChain_goes hn, callChain_halts⟩
  pattern kind := pattern_proceeds hn kind
  statement := statement_proceeds hn
  listItem := listItem_proceeds hn

omit hn in
theorem exhausted_proceeds {α : Type} : Proceeds I free (throw .exhausted : Parse α) := ⟨.exhausted, .exhausted⟩

omit hn in
theorem atLevels_tame : ∀ levels, Tame I (atLevels levels)
  | 0 => ⟨exhausted_proceeds, exhausted_proceeds, exhausted_proceeds, exhausted_proceeds, exhausted_proceeds,
    fun _ => exhausted_proceeds,
    exhausted_proceeds, exhausted_proceeds⟩
  | levels + 1 => step_tame (atLevels_tame levels)

omit hn in
theorem opening_goes : Goes I free opening :=
  .bind .skip fun _ => .modifying (fun _ => rfl) fun _ => ⟨_, _, _, _, _, _, rfl, rfl⟩

omit hn in
theorem atEnd_quiet : Quiet atEnd := .bind .ahead fun _ => .pure _

theorem program_goes : Goes I free (program nested) := by
  refine .bind opening_goes fun _ => .quiet .mark fun _ => .bind (prologue_goes hn) fun directives => ?_
  refine .bind (.manyBefore atEnd_quiet (fun s hs => ?_) hn.listItem.goes hn.listItem.halts) fun _ => ?_
  · have last : s.lookahead.isEnd = false := by rw [Token.isEnd, hs.less]
    exact congrArg (EStateM.Result.ok · s) last
  · exact .of_quiet (.bind .context fun _ => .finish _ _)

end

/-! ## Sources -/

/-- A parse of a whole source keeps to the invariant. With JSX it takes the same way. -/
theorem source_goes (I : Invariant) {text : String} {dialect : Dialect} {root : Node}
    (hs : I.Holds (.initial text dialect))
    (h : source text dialect = .ok root s) :
      I.Holds s ∧ source text { dialect with jsx := true } = .ok root s.withJsx := by
  have whole : Goes I false (program (atLevels (levelsFor text.utf8ByteSize))) := program_goes (atLevels_tame _)
  have goes := whole _ hs root s h
  rw [or_iff_left nofun] at goes
  exact goes

end Parse

namespace ParseState

variable {s t : ParseState} {a : Token}

theorem Advances.plain (h : s.Advances t) (hs : s.Plain) : t.Plain := by
  obtain ⟨_, _, _, _, _, _, _, rfl⟩ := h
  exact ⟨hs.jsx, hs.strict, hs.scanner⟩

theorem Plain.next (hs : s.Plain) (h : Parse.next s = .ok a t) : t.Plain :=
  (Judgement.Ensures.next (J := .onSuccess) a t h).2.plain hs

theorem Plain.scan_regex (hs : s.Plain) (h : Parse.scan Scan.regex s = .ok a t) : t.Plain := by
  obtain ⟨_, hread, rfl⟩ := Parse.scan_eq_ok.1 h
  exact ⟨hs.jsx, hs.strict, Scan.regex_strict hs.scanner hread⟩

theorem Plain.regex (hs : s.Plain) (h : Parse.regex s = .ok a t) : t.Plain := by
  suffices Judgement.onSuccess.Ensures Parse.regex s fun _ t => t.Plain from this a t h
  refine Judgement.ofBind _ (.modifying (fun _ _ _ => rfl) (Judgement.bind .skipTrivia ?_))
  rintro _ u ⟨_, _, _, rfl⟩
  refine Judgement.bind (P := fun _ v => v.Plain) (fun _ _ => Plain.scan_regex ⟨hs.jsx, hs.strict, hs.scanner⟩)
    fun _ v hv => ?_
  refine Judgement.ofBind _ (.modifying (fun _ _ _ => rfl) (Judgement.bind .skip fun _ _ hw => Judgement.ofPure _ ?_))
  exact hw.plain ⟨hv.jsx, hv.strict, hv.scanner⟩

/-- JSX and tolerant mode stay off. -/
def Plain.invariant : Parse.Invariant := ⟨Plain, id, fun hs ht => ht.plain hs, .next, fun hs _ => hs.regex⟩

end ParseState

/-- Enabling JSX never changes a program that parses without it. -/
theorem parse_withJsx {source : String} {o : ParseOptions} {p : Program} (hjsx : o.jsx = false)
    (hstrict : o.tolerant = false)
    (h : parse source o = .ok p) : parse source { o with jsx := true } = .ok p := by
  obtain ⟨root, s, hs, rfl⟩ := parse_eq_ok.1 h
  have plain : (ParseState.initial source o.dialect).Plain := ⟨hjsx, hstrict, hstrict⟩
  exact parse_eq_ok.2 ⟨root, s.withJsx, (Parse.source_goes ParseState.Plain.invariant plain hs).2, rfl⟩

/-- A generator that compares what comes back from its `yield`s. -/
theorem parse_withJsx_yield : ∃ p, parse "function* g() \x7b a[yield] < (yield /b/) < c \x7d" {} = .ok p ∧
    parse "function* g() \x7b a[yield] < (yield /b/) < c \x7d" { jsx := true } = .ok p := by
  have h : (parse "function* g() \x7b a[yield] < (yield /b/) < c \x7d" {}).toOption.isSome = true := by decide +kernel
  obtain ⟨p, hrun⟩ := exists_ok_of_isSome h
  exact ⟨p, hrun, parse_withJsx (o := {}) rfl rfl hrun⟩

end EcmaTree
