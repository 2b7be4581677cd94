import EcmaTree.Grammar.Production
import EcmaTree.Syntax.Pattern

/-!
# Names, keys and binding patterns

A declaration or a parameter binds a name, or the names in an array or object pattern. Reading a pattern gives
back the tokens of the names that it binds, in the order of the source.
-/

namespace EcmaTree.Parse

variable (nested : Nested)

/-- The literal that a token stands for (`finalize_literal`). -/
def literalOf (t : Token) : Kind Node :=
  let value : LiteralValue := match t.lexeme with
    | .number value _ => .number value
    | .boolean value => .boolean value
    | .null => .null
    | _ => .string t.text
  .literal value t.raw

/-- A word that is a name whatever it means elsewhere (`parse_identifier_name`). -/
def identifierName : Parse Node := do
  let start ← mark
  let t ← next
  if t.isName then finish start (.identifier t.text) else failAt t

/-- The name of a variable, a function, a class or a label (`parse_variable_identifier`). A `var` of sloppy code
may be called `let`. -/
def bindingName (kind : Option VariableKind) : Parse Node := do
  let start ← mark
  let t ← next
  let c ← context
  if t.isKeyword "yield" then
    if c.strict then tolerateWith t .strictReservedWord
    else if !c.allowYield then failAt t
  else if !t.isIdentifier then
    if c.strict && t.isAnyKeyword && isStrictReserved t.text then
      tolerateWith t .strictReservedWord
    else if c.strict || t.text != "let" || kind != some .var then failAt t
  else if (c.isModule || c.isAsync) && t.text == "await" then tolerateAt t
  finish start (.identifier t.text)

/-- The key of a member of an object, of a class or of an object pattern (`parse_object_property_key`). -/
def propertyKey : Parse Node := do
  let start ← mark
  let t ← next
  match t.lexeme with
  | .string .. | .number .. =>
    if (← isStrict) && t.isLegacy then tolerateWith t .octalInStrict
    finish start (literalOf t)
  | .identifier _ | .boolean _ | .null | .keyword _ => finish start (.identifier t.text)
  | .punctuator .leftBracket =>
    let key ← isolate (nested .assignment)
    expect .rightBracket
    return key
  | _ => failAt t

/-- A pattern, and its default value if there is one (`parse_pattern_with_default`). -/
def patternWithDefault (kind : Option VariableKind) : Parse (Node × List Token) := do
  let first ← ahead
  let (pattern, names) ← nested (.pattern kind)
  if ← accept .assign then
    let right ← withContext ({ · with allowYield := true }) (isolate (nested .assignment))
    return (← finish first.place (.assignmentPattern pattern right), names)
  else return (pattern, names)

/-- The rest of an array pattern (`parse_binding_rest_element`). -/
def restElement (kind : Option VariableKind) : Parse (Node × List Token) := do
  let start ← mark
  expect .ellipsis
  let (argument, names) ← nested (.pattern kind)
  return (← finish start (.rest argument), names)

/-- An array pattern (`parse_array_pattern`). Its rest is its last element. -/
def arrayPattern (kind : Option VariableKind) : Parse (Node × List Token) := do
  let start ← mark
  expect .leftBracket
  let items ← loop [] fun items => do
    if ← check .rightBracket then return .done items
    else if ← accept .comma then return .more ((none, []) :: items)
    else if ← check .ellipsis then
      let (element, names) ← restElement nested kind
      return .done ((some element, names) :: items)
    else
      let (element, names) ← patternWithDefault nested kind
      unless ← check .rightBracket do expect .comma
      return .more ((some element, names) :: items)
  expect .rightBracket
  let items := items.reverse
  return (← finish start (.arrayPattern (items.map (·.1))), items.flatMap (·.2))

/-- The rest that ends a list of members or of parameters, before `closing` (`parse_rest_property`,
`parse_rest_element`). It has no default value. -/
def finalRest (closing : Punctuator) (notLast : Cause) : Parse (Node × List Token) := do
  let start ← mark
  expect .ellipsis
  let (argument, names) ← nested (.pattern none)
  if ← check .assign then failHere .restDefault
  unless ← check closing do failHere notLast
  return (← finish start (.rest argument), names)

/-- The value of a member of an object pattern that begins with a name, and whether the name stands for both
the key and the value. -/
def namedMemberValue (kind : Option VariableKind) (name : Token) (target : Node) :
    Parse (Node × List Token × Bool) := do
  if ← accept .assign then
    let right ← nested .assignment
    return (← finish name.place (.assignmentPattern target right), [name], true)
  else if !(← check .colon) then return (target, [name], true)
  else
    expect .colon
    let (value, names) ← patternWithDefault nested kind
    return (value, names, false)

/-- A member of an object pattern (`parse_property_pattern`). -/
def memberPattern (kind : Option VariableKind) : Parse (Node × List Token) := do
  let start ← mark
  let first ← ahead
  if first.isIdentifier then
    let key ← bindingName none
    let target ← finish start (.identifier first.text)
    let (value, names, shorthand) ← namedMemberValue nested kind first target
    return (← finish start (.property .init key value false false shorthand), names)
  else
    let computed ← check .leftBracket
    let key ← propertyKey nested
    expect .colon
    let (value, names) ← patternWithDefault nested kind
    return (← finish start (.property .init key value computed false false), names)

/-- An object pattern (`parse_object_pattern`). -/
def objectPattern (kind : Option VariableKind) : Parse (Node × List Token) := do
  let start ← mark
  expect .leftBrace
  let items ← itemsBefore .rightBrace do
    let item ←
      if ← check .ellipsis then finalRest nested .rightBrace .propertyAfterRest
      else memberPattern nested kind
    unless ← check .rightBrace do expect .comma
    return item
  expect .rightBrace
  return (← finish start (.objectPattern (items.map (·.1))), items.flatMap (·.2))

/-- A name, or a pattern of names (`parse_pattern`). -/
def pattern (kind : Option VariableKind) : Parse (Node × List Token) := do
  let t ← ahead
  if t.isPunctuator .leftBracket then arrayPattern nested kind
  else if t.isPunctuator .leftBrace then objectPattern nested kind
  else
    if t.isKeyword "let" && (kind == some .const || kind == some .let_) then
      tolerateWith t .letBinding
    return (← bindingName kind, [t])

end EcmaTree.Parse
