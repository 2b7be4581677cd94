import EcmaTree.Grammar.Class

/-!
# Array and object literals

What looks like a literal may become a pattern, so a literal may hold what only a pattern can: a member
`name = value`, whose `=` is kept as a pending error until the literal is known to be a pattern.
-/

namespace EcmaTree.Parse

variable (nested : Nested)

/-- Something spread into a list (`parse_spread_element`). -/
def spread : Parse Node := do
  let start ← mark
  expect .ellipsis
  let argument ← inherit (nested .assignment)
  finish start (.spread argument)

/-- An element of an array, or a hole, with the comma behind it. -/
def arrayElement : Parse (Option Node) := do
  if ← accept .comma then return none
  else if ← check .ellipsis then
    let element ← spread nested
    unless ← check .rightBracket do
      nonPattern
      expect .comma
    return some element
  else
    let element ← inherit (nested .assignment)
    unless ← check .rightBracket do expect .comma
    return some element

/-- An array literal (`parse_array_initializer`). -/
def arrayLiteral : Parse Node := do
  let start ← mark
  expect .leftBracket
  let elements ← itemsBefore .rightBracket (arrayElement nested)
  expect .rightBracket
  finish start (.array elements)

/-- Does what is ahead make `async`, the last consumed token, a word before a key? -/
def checkAsyncWord : Parse Bool := do
  let sameLine := !(← get).newline
  let isKey := (← check .colon) || (← check .leftParen) || (← check .comma)
  return sameLine && !isKey

/-- The key of a member that begins with a name at `start`: the name, unless it is a word before the key. -/
def nameOrKey (start : Place) (name : Token) (isWord : Bool) : Parse Node :=
  if isWord then propertyKey nested else finish start (.identifier name.text)

/-- The words before a member of an object, and its key unless `*` stands before it. -/
def objectMemberHead : Parse MemberHead := do
  let start ← mark
  let t ← ahead
  if t.isIdentifier then
    skip
    let computed ← check .leftBracket
    let async := (← checkAsyncWord) && t.text == "async"
    let generator ← accept .star
    return { token := t, key := some (← nameOrKey nested start t async), computed, async, generator }
  else if ← accept .star then return { token := t }
  else
    let (key, computed) ← keyAndForm nested
    return { token := t, key := some key, computed }

/-- The kind of a member of an object, from the kind that it would have in a class. -/
def propertyKind : MethodKind → PropertyKind
  | .get => .get
  | .set => .set
  | _ => .init

/-- The value of a member that is one name, with a default value if it is a member of a pattern. -/
def shorthandValue (start : Place) (name : Token) : Parse Node := do
  let target ← finish start (.identifier name.text)
  let t ← ahead
  if t.isPunctuator .assign then
    modifyCover ({ · with pending := some t })
    skip
    let value ← isolate (nested .assignment)
    finish start (.assignmentPattern target value)
  else return target

/-- A member whose key has been read, and whether it sets the prototype, which one member may do. -/
def keyedProperty (hasProto : Bool) (start : Place) (head : MemberHead) (key : Node) :
    Parse (Node × Bool) := do
  let property (value : Node) (method shorthand : Bool) :=
    finish start (.property .init key value head.computed method shorthand)
  if (← check .colon) && !head.async then
    let isProto := !head.computed && isKeyNamed key "__proto__"
    if isProto && hasProto then tolerateHere .duplicateProto
    skip
    let value ← inherit (nested .assignment)
    return (← property value false false, isProto)
  else if ← check .leftParen then
    let value ← method nested head.generator head.async
    return (← property value true false, false)
  else if head.token.isIdentifier then
    let value ← shorthandValue nested start head.token
    return (← property value false true, false)
  else
    let t ← next
    failAt t

/-- A member of an object, and whether it sets the prototype (`parse_object_property`). -/
def objectMember (hasProto : Bool) : Parse (Node × Bool) := do
  let start ← mark
  let head ← objectMemberHead nested
  match ← wordedMember nested head with
  | some m =>
    let kind := propertyKind m.kind
    return (← finish start (.property kind m.key m.value m.computed m.isMethod false), false)
  | none =>
    match head.key with
    | some key => keyedProperty nested hasProto start head key
    | none => failAhead

/-- An object literal (`parse_object_initializer`). -/
def objectLiteral : Parse Node := do
  let start ← mark
  expect .leftBrace
  let (members, _) ← loop (([] : List Node), false) fun (members, hasProto) => do
    if ← check .rightBrace then return .done (members, hasProto)
    let (member, isProto) ←
      if ← check .ellipsis then pure (← spread nested, false)
      else objectMember nested hasProto
    unless ← check .rightBrace do expectSeparator
    return .more (member :: members, hasProto || isProto)
  expect .rightBrace
  finish start (.object members.reverse)

end EcmaTree.Parse
