import EcmaTree.Grammar.Operators

/-!
# Variable declarations

A declaration lists bindings. Patterns need an initial value, and so does every binding of a `const`, unless the
declaration is the head of a loop that gives the values.
-/

namespace EcmaTree.Parse

variable (nested : Nested)

/-- Check the name that a declaration binds. -/
def checkBound (target : Node) : Parse Unit := do
  if (← isStrict) && isRestrictedName target then tolerateHere .strictVariableName

/-- The initial value of a binding, behind its `=`. -/
def initializer : Parse (Option Node) := do
  expect .assign
  return some (← isolate (nested .assignment))

/-- One binding of a `var` (`parse_variable_declaration`). -/
def varBinding (inHead : Bool) : Parse Node := do
  let start ← mark
  let (target, _) ← pattern nested (some .var)
  checkBound target
  let needed := !target.isIdentifier && !inHead
  let init ← if needed || (← check .assign) then initializer nested else pure none
  finish start (.variableDeclarator target init)

/-- The initial value of a binding of a `const`. -/
def constInitializer : Parse (Option Node) := do
  let t ← ahead
  if t.isKeyword "in" || t.isIdentifierNamed "of" then return none
  else if t.isPunctuator .assign then initializer nested
  else failHere .missingInitializer

/-- One binding of a `let` or a `const` (`parse_lexical_binding`). -/
def lexicalBinding (kind : VariableKind) (inHead : Bool) : Parse Node := do
  let start ← mark
  let (target, _) ← pattern nested (some kind)
  checkBound target
  let needed := !target.isIdentifier && !inHead
  let init ←
    if kind == .const then constInitializer nested
    else if needed || (← check .assign) then initializer nested
    else pure none
  finish start (.variableDeclarator target init)

/-- The bindings of a declaration of the given kind (`parse_variable_declaration_list`, `parse_binding_list`). -/
def bindings (kind : VariableKind) (inHead : Bool) : Parse (List Node) :=
  commaSeparated <|
    if kind == .var then varBinding nested inHead else lexicalBinding nested kind inHead

/-- A declaration with `var` (`parse_variable_statement`). -/
def varStatement : Parse Node := do
  let start ← mark
  expectKeyword "var"
  let declarations ← bindings nested .var false
  endStatement
  finish start (.variableDeclaration .var declarations)

/-- The word that begins a declaration. -/
def declarationWord : Parse VariableKind := do
  let t ← next
  match VariableKind.ofText? t.text with
  | some kind => return kind
  | none => failAt t

/-- A declaration with `let` or `const` (`parse_lexical_declaration`). -/
def lexicalDeclaration : Parse Node := do
  let start ← mark
  let kind ← declarationWord
  let declarations ← bindings nested kind false
  endStatement
  finish start (.variableDeclaration kind declarations)

/-- Does `let`, which is ahead, begin a declaration (`is_lexical_declaration`)? Something that can be bound must
follow it. -/
def checkLet : Parse Bool := do
  let t ← second
  return t.isIdentifier || t.isPunctuator .leftBracket || t.isPunctuator .leftBrace ||
    t.isKeyword "let" || t.isKeyword "yield"

end EcmaTree.Parse
