import EcmaTree.Grammar.Module

/-!
# Programs

Here the grammar is closed: every production that another one nests is read by `step`, one level deeper. The
levels are bounded by the length of the source, since a level is never many levels away from the token that it
consumes.
-/

namespace EcmaTree.Parse

/-- Read a production over productions one level deeper. -/
def step (nested : Nested) : (p : Production) → Parse p.Result
  | .assignment => assignment nested
  | .unary => unary nested
  | .exponentiation => exponentiation nested
  | .callee => callee nested
  | .callChain => callChain nested
  | .pattern kind => pattern nested kind
  | .statement => statement nested
  | .listItem => listItem nested
  | .jsxElement => jsxElement nested

/-- Read a production at the given number of levels. -/
def atLevels : (levels : Nat) → Nested
  | 0, _ => throw .exhausted
  | levels + 1, p => step (atLevels levels) p

/-- The number of levels for a source of the given length in bytes. -/
def levelsFor (bytes : Nat) : Nat := 16 * (bytes + 2)

/-- Is the end of the source ahead? -/
def atEnd : Parse Bool := return (← ahead).isEnd

/-- Read the first token. Where it ends counts as the end of the last consumed token until another token is
consumed. -/
def opening : Parse Unit := do
  skip
  modify fun s => { s with last := s.scanner.cursor.place }

/-- A whole program (`parse_program`). -/
def program (nested : Nested) : Parse Node := do
  opening
  let start ← mark
  let directives ← prologue nested
  let statements ← manyBefore atEnd (nested .listItem)
  let goal := if (← context).isModule then Goal.module else .script
  finish start (.program goal (directives ++ statements))

/-- Read a source. If nothing else is said, everything is recorded. -/
def source (text : String) (dialect : Dialect) (record : Record := .complete) :
    EStateM.Result Failure ParseState Node :=
  program (atLevels (levelsFor text.utf8ByteSize)) (.initial text dialect record)

end EcmaTree.Parse
