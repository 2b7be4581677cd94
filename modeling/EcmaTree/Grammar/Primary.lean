import EcmaTree.Grammar.Jsx
import EcmaTree.Grammar.Object
import EcmaTree.Grammar.Template

/-!
# Primary expressions

A parenthesized list is an expression, or the parameters of an arrow function: what follows it tells. Lists that
can be parameters only, and those that an arrow follows, become a placeholder that holds patterns; it is
never finished, and only an arrow function uses it up.
-/

namespace EcmaTree.Parse

variable (nested : Nested)

/-- Parameters that wait for their arrow (`arrow_placeholder`). -/
def placeholder (params : List Node) (async : Bool) : Node :=
  .mk { id := 0, extent := none } (.arrowParameters params async)

/-! ## Parentheses -/

/-- Consume the token ahead unless it is an arrow, which must be there. -/
def requireArrow : Parse Unit := do
  unless ← check .arrow do expect .arrow

/-- A rest parameter, the closing parenthesis and the arrow behind it. -/
def groupRest : Parse Node := do
  let (rest, _) ← finalRest nested .rightParen .restNotLast
  expect .rightParen
  requireArrow
  return rest

/-- The items of a parenthesized list behind the first one, and whether the list can be parameters only. -/
def groupItems (first : Node) : Parse (List Node × Bool) := do
  modifyCover ({ · with isAssignmentTarget := false })
  let (items, isParameters) ← loop ([first], false) fun (items, isParameters) => do
    if !(← accept .comma) then return .done (items, isParameters)
    else if ← accept .rightParen then return .done (items, true)
    else if ← check .ellipsis then
      unless (← get).cover.isBindingElement do failAhead
      let rest ← groupRest nested
      modifyCover ({ · with isBindingElement := false })
      return .done (rest :: items, true)
    else return .more ((← inherit (nested .assignment)) :: items, isParameters)
  return (items.reverse, isParameters)

/-- The parameters that an expression in parentheses stands for. -/
def groupParameters (e : Node) : List Node :=
  match e.kind with
  | .sequence expressions => expressions.map Node.toPattern
  | _ => [e.toPattern]

/-- End a group that is an expression, or the parameters of an arrow function. -/
def closeGroup (e : Node) : Parse Node := do
  expect .rightParen
  let result ←
    if ← check .arrow then
      if e.identifierName? == some "yield" then pure (placeholder [e] false)
      else
        unless (← get).cover.isBindingElement do failAhead
        pure (placeholder (groupParameters e) false)
    else pure e
  modifyCover ({ · with isBindingElement := false })
  return result

/-- What stands in parentheses, if it is not empty and does not begin with a rest, with the closing parenthesis. -/
def groupContents : Parse Node := do
  let start ← ahead
  modifyCover ({ · with isBindingElement := true })
  let first ← inherit (nested .assignment)
  if ← check .comma then
    let (items, isParameters) ← groupItems nested first
    if isParameters then return placeholder (items.map Node.toPattern) false
    closeGroup (← finish start.place (.sequence items))
  else closeGroup first

/-- A parenthesized expression, or the parameters of an arrow function (`parse_group_expression`). -/
def group : Parse Node := do
  expect .leftParen
  if ← accept .rightParen then
    requireArrow
    return placeholder [] false
  else if ← check .ellipsis then return placeholder [← groupRest nested] false
  else groupContents nested

/-! ## `import` -/

/-- Do `import` and `(` stand ahead (`match_import_call`)? -/
def checkImportCall : Parse Bool := do
  if ← checkKeyword "import" then return (← second).isPunctuator .leftParen else return false

/-- The two tokens behind the lookahead, if the first one is a dot: the second one. -/
def behindDot : Parse (Option Token) := scan <| Scan.lookAhead do
  discard Scan.skipTrivia
  if (← Scan.token).isPunctuator .dot then
    discard Scan.skipTrivia
    return some (← Scan.token)
  else return none

/-- Do `import`, a dot and `meta` stand ahead (`match_import_meta`)? The word must not be spelled with an escape.
-/
def checkImportMeta : Parse Bool := do
  if ← checkKeyword "import" then
    match ← behindDot with
    | some t =>
      if t.isIdentifierNamed "meta" then
        if t.span.length != "meta".utf8ByteSize then tolerateWith t .escapedKeyword
        return true
      else return false
    | none => return false
  else return false

/-- The callee of a dynamic import (`parse_import_call`). -/
def importCallee : Parse Node := do
  let start ← mark
  expectKeyword "import"
  finish start .importKeyword

/-- `import.meta` (`parse_import_meta`). -/
def importMeta : Parse Node := do
  let start ← mark
  let owner ← identifierName
  expect .dot
  let field ← identifierName
  modifyCover ({ · with isAssignmentTarget := false })
  finish start (.metaProperty owner field)

/-! ## Primary expressions -/

/-- The lookahead is a literal. -/
def literal : Parse Node := do
  let start ← mark
  let t ← ahead
  if t.isLegacy && (← isStrict) then tolerateWith t .octalInStrict
  nonPattern
  skip
  finish start (literalOf t)

/-- A regular expression, where a slash is the lookahead. -/
def regexLiteral : Parse Node := do
  let start ← mark
  nonPattern
  let t ← regex
  finish start (.literal (.regex (t.regex?.getD ⟨"", ""⟩)) t.raw)

/-- A token that begins no expression. -/
def noExpression : Parse Node := do
  let t ← next
  failAt t

/-- The lookahead is a name. -/
def nameExpression : Parse Node := do
  let start ← mark
  let t ← ahead
  let c ← context
  if (c.isModule || c.isAsync) && t.text == "await" then tolerateAt t
  if ← checkAsyncFunction then functionExpression nested
  else
    let t ← next
    finish start (.identifier t.text)

/-- The lookahead is a keyword. -/
def keywordExpression : Parse Node := do
  let start ← mark
  let t ← ahead
  let c ← context
  if !c.strict && c.allowYield && t.isKeyword "yield" then identifierName
  else if !c.strict && t.isKeyword "let" then
    skip
    finish start (.identifier t.text)
  else
    nonPattern
    if t.isKeyword "function" then functionExpression nested
    else if t.isKeyword "this" then
      skip
      finish start .this
    else if t.isKeyword "class" then classExpression nested
    else if ← checkImportCall then importCallee
    else if ← checkImportMeta then
      unless c.isModule do tolerateWith t .importMeta
      importMeta
    else noExpression

/-- An expression without operators (`parse_primary_expression`). -/
def primary : Parse Node := do
  let t ← ahead
  if (← get).dialect.jsx && t.isPunctuator .lt then jsxExpression nested
  else match t.lexeme with
    | .identifier _ => nameExpression nested
    | .number .. | .string .. | .boolean _ | .null => literal
    | .template _ => template nested false
    | .punctuator .leftParen =>
      modifyCover ({ · with isBindingElement := false })
      inherit (group nested)
    | .punctuator .leftBracket => inherit (arrayLiteral nested)
    | .punctuator .leftBrace => inherit (objectLiteral nested)
    | .punctuator .slash | .punctuator .divAssign => regexLiteral
    | .keyword _ => keywordExpression nested
    | _ => noExpression

end EcmaTree.Parse
