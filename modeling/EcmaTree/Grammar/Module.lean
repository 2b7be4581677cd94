import EcmaTree.Grammar.Assignment
import EcmaTree.Grammar.Statement

/-!
# Imports and exports

Declarations by which modules import and export names. They stand in modules only, and not inside functions.
-/

namespace EcmaTree.Parse

variable (nested : Nested)

/-- The string that names a module (`parse_module_specifier`). -/
def moduleSpecifier : Parse Node := do
  let start ← mark
  let t ← ahead
  if t.isString then
    skip
    finish start (literalOf t)
  else failHere .moduleSpecifier

/-- Stop: `from` is missing (`missing_from_error`). -/
def failMissingFrom : Parse Unit := do
  let text := (← ahead).text
  failHere (if text.isEmpty then .missingFrom else .unexpectedToken text)

/-- `from` and the module behind it. -/
def fromModule : Parse Node := do
  unless ← checkWord "from" do failMissingFrom
  skip
  moduleSpecifier

/-- Items in braces, with commas between them (`parse_named_imports`). -/
def specifiersInBraces (item : Parse Node) : Parse (List Node) := do
  expect .leftBrace
  let items ← itemsBefore .rightBrace do
    let specifier ← item
    unless ← check .rightBrace do expect .comma
    return specifier
  expect .rightBrace
  return items

/-! ## Imports -/

/-- One import, which may rename (`parse_import_specifier`). A word that is no name must be renamed. -/
def importSpecifier : Parse Node := do
  let start ← mark
  if (← ahead).isIdentifier then
    let imported ← bindingName none
    let localName ←
      if ← checkWord "as" then
        skip
        bindingName none
      else pure imported
    finish start (.importSpecifier localName imported)
  else
    let imported ← identifierName
    let t ← next
    unless t.isIdentifierNamed "as" do failAt t
    let localName ← bindingName none
    finish start (.importSpecifier localName imported)

/-- The import of the default (`parse_import_default_specifier`). -/
def importDefault : Parse Node := do
  let start ← mark
  finish start (.importDefaultSpecifier (← identifierName))

/-- The import of everything under one name (`parse_import_namespace_specifier`). -/
def importNamespace : Parse Node := do
  let start ← mark
  expect .star
  unless ← checkWord "as" do failHere .missingAs
  skip
  finish start (.importNamespaceSpecifier (← identifierName))

/-- The imports behind that of the default. -/
def importsAfterDefault : Parse (List Node) := do
  if ← accept .comma then
    if ← check .star then return [← importNamespace]
    else if ← check .leftBrace then specifiersInBraces importSpecifier
    else failAhead
  else return []

/-- What an import imports. -/
def importClause : Parse (List Node) := do
  let t ← ahead
  if t.isPunctuator .leftBrace then specifiersInBraces importSpecifier
  else if t.isPunctuator .star then return [← importNamespace]
  else if t.isName && !t.isKeyword "default" then
    let first ← importDefault
    return first :: (← importsAfterDefault)
  else
    let t ← next
    failAt t

/-- An import (`parse_import_declaration`). -/
def importDeclaration : Parse Node := do
  if (← context).inFunctionBody then failHere .importPlacement
  let start ← mark
  expectKeyword "import"
  let (specifiers, source) ←
    if (← ahead).isString then pure ([], ← moduleSpecifier)
    else
      let specifiers ← importClause
      pure (specifiers, ← fromModule)
  endStatement
  finish start (.importDeclaration specifiers source)

/-! ## Exports -/

/-- One export, which may rename (`parse_export_specifier`). -/
def exportSpecifier : Parse Node := do
  let start ← mark
  let localName ← identifierName
  let exported ←
    if ← checkWord "as" then
      skip
      identifierName
    else pure localName
  finish start (.exportSpecifier localName exported)

/-- The expression that is exported as the default. -/
def defaultExpression : Parse Node := do
  let t ← ahead
  if t.isIdentifierNamed "from" then failHere (.unexpectedToken t.text)
  let e ←
    if t.isPunctuator .leftBrace then objectLiteral nested
    else if t.isPunctuator .leftBracket then arrayLiteral nested
    else nested .assignment
  endStatement
  return e

/-- What is exported as the default (`parse_export_default`). -/
def exportedDefault : Parse Node := do
  let t ← ahead
  if t.isKeyword "function" then functionDeclaration nested true
  else if t.isKeyword "class" then classDeclaration nested true
  else if t.isIdentifierNamed "async" then
    if ← checkAsyncFunction then functionDeclaration nested true else nested .assignment
  else defaultExpression nested

/-- A declaration that is exported, if one is ahead. -/
def exportedDeclaration : Parse (Option Node) := do
  let t ← ahead
  match t.lexeme with
  | .keyword "let" | .keyword "const" => return some (← lexicalDeclaration nested)
  | .keyword "var" => return some (← varStatement nested)
  | .keyword "class" => return some (← classDeclaration nested false)
  | .keyword "function" => return some (← functionDeclaration nested false)
  | .keyword _ => failAt t
  | _ =>
    if ← checkAsyncFunction then return some (← functionDeclaration nested false) else return none

/-- Names that are exported, in braces, from this module or from another. A name that is no variable can come
from another module only. -/
def exportedNames (start : Place) : Parse Node := do
  expect .leftBrace
  let items ← itemsBefore .rightBrace do
    let isDefault ← checkKeyword "default"
    let specifier ← exportSpecifier
    unless ← check .rightBrace do expect .comma
    return (specifier, isDefault)
  expect .rightBrace
  let source ←
    if ← checkWord "from" then pure (some (← fromModule))
    else
      if items.any (·.2) then failMissingFrom
      pure none
  endStatement
  finish start (.exportNamedDeclaration none (items.map (·.1)) source)

/-- An export (`parse_export_declaration`). -/
def exportDeclaration : Parse Node := do
  if (← context).inFunctionBody then failHere .exportPlacement
  let start ← mark
  expectKeyword "export"
  if ← acceptKeyword "default" then
    finish start (.exportDefaultDeclaration (← exportedDefault nested))
  else if ← accept .star then
    let source ← fromModule
    endStatement
    finish start (.exportAllDeclaration source)
  else
    match ← exportedDeclaration nested with
    | some declaration => finish start (.exportNamedDeclaration (some declaration) [] none)
    | none => exportedNames start

/-! ## Items of statement lists -/

/-- An expression or a declaration that begins with `import`. -/
def importItem : Parse Node := do
  let t ← ahead
  if ← checkImportCall then expressionStatement nested
  else if ← checkImportMeta then statement nested
  else
    unless (← context).isModule do tolerateWith t .importPlacement
    importDeclaration

/-- A statement or a declaration (`parse_statement_list_item`). -/
def listItem : Parse Node := do
  modifyCover ({ · with isAssignmentTarget := true, isBindingElement := true })
  let t ← ahead
  match t.lexeme with
  | .keyword "export" =>
    unless (← context).isModule do tolerateWith t .exportPlacement
    exportDeclaration nested
  | .keyword "import" => importItem nested
  | .keyword "const" => lexicalDeclaration nested
  | .keyword "function" => functionDeclaration nested false
  | .keyword "class" => classDeclaration nested false
  | .keyword "let" => if ← checkLet then lexicalDeclaration nested else statement nested
  | _ => statement nested

end EcmaTree.Parse
