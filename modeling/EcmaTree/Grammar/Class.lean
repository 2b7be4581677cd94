import EcmaTree.Grammar.Function

/-!
# Classes

The words before a member tell what it is: `static`, `async`, `get`, `set` and `*` count as such only if another
key follows. All code of a class is strict.
-/

namespace EcmaTree.Parse

variable (nested : Nested)

/-- Is the key the name or the string `name` (`is_property_key`)? -/
def isKeyNamed (key : Node) (name : String) : Bool :=
  match key.kind with
  | .identifier text => text == name
  | .literal (.string text) _ => text == name
  | _ => false

/-- The words before a member of a class, and its key if it has been read. -/
structure MemberHead where
  /-- The token that decides what the member is. -/
  token : Token
  key : Option Node := none
  computed : Bool := false
  static : Bool := false
  async : Bool := false
  generator : Bool := false

/-- A key, and whether it is computed. -/
def keyAndForm : Parse (Node × Bool) := do
  let computed ← check .leftBracket
  return (← propertyKey nested, computed)

/-- Go on behind `static`, if another key follows it. -/
def staticHead (head : MemberHead) : Parse MemberHead := do
  let t ← ahead
  let isStatic := (head.key.bind (·.identifierName?)) == some "static"
  if isStatic && (t.beginsPropertyName || t.isPunctuator .star) then
    let computed ← check .leftBracket
    if ← accept .star then return { head with token := t, static := true, computed }
    else return { head with token := t, static := true, computed, key := some (← propertyKey nested) }
  else return head

/-- Go on behind `async`, if another key follows it. -/
def asyncHead (head : MemberHead) : Parse MemberHead := do
  let s ← get
  if head.token.isIdentifierNamed "async" && !s.newline && !(← check .colon) && !(← check .leftParen) then
    let generator ← accept .star
    let t ← ahead
    let (key, computed) ← keyAndForm nested
    if t.isIdentifierNamed "constructor" then tolerateWith t .asyncConstructor
    return { head with token := t, key := some key, computed, async := true, generator }
  else return head

/-- The words before a member, and its key unless `*` stands before it. -/
def memberHead : Parse MemberHead := do
  let t ← ahead
  if ← accept .star then return { token := t }
  else
    let (key, computed) ← keyAndForm nested
    asyncHead nested (← staticHead nested { token := t, key := some key, computed })

/-- What a member turned out to be. -/
structure MemberRest where
  kind : MethodKind
  key : Node
  computed : Bool
  value : Node
  /-- Is it a method, and no accessor? -/
  isMethod : Bool

/-- A key, and the rest of the member behind it. -/
def keyAndRest (kind : MethodKind) (isMethod : Bool) (rest : Parse Node) : Parse (Option MemberRest) := do
  let (key, computed) ← keyAndForm nested
  return some ⟨kind, key, computed, ← rest, isMethod⟩

/-- The key and the rest of an accessor or of a generator, whose word has been read. -/
def wordedMember (head : MemberHead) : Parse (Option MemberRest) := do
  let t ← ahead
  if !t.beginsPropertyName then return none
  else if head.token.isIdentifierNamed "get" then keyAndRest nested .get false (getter nested)
  else if head.token.isIdentifierNamed "set" then keyAndRest nested .set false (setter nested)
  else if head.token.isPunctuator .star then keyAndRest nested .method true (generatorMethod nested)
  else return none

/-- The rest of a method whose key has been read. -/
def keyedMember (head : MemberHead) : Parse (Option MemberRest) := do
  match head.key with
  | none => return none
  | some key =>
    if ← check .leftParen then
      let inConstructor := head.token.text == "constructor"
      let value ← withContext ({ · with inClassConstructor := inConstructor })
        (method nested head.generator head.async)
      return some ⟨.method, key, head.computed, value, true⟩
    else return none

/-- The rest of a member. -/
def memberRest (head : MemberHead) : Parse (Option MemberRest) := do
  match ← wordedMember nested head with
  | some m => return some m
  | none => keyedMember nested head

/-- Is the value a generator? -/
def isGenerator (value : Node) : Bool :=
  match value.kind with
  | .function _ _ _ _ generator _ _ => generator
  | _ => false

/-- Check the name of a member. Gives back whether it is the constructor. -/
def checkMemberName (hasConstructor : Bool) (head : MemberHead) (m : MemberRest) : Parse Bool := do
  if m.computed then return false
  else if head.static then
    if isKeyNamed m.key "prototype" then failWith head.token .staticPrototype
    return false
  else if isKeyNamed m.key "constructor" then
    if m.kind != .method || !m.isMethod || isGenerator m.value then
      failWith head.token .specialConstructor
    if hasConstructor then failWith head.token .duplicateConstructor
    return true
  else return false

/-- A member of a class, and whether it is the constructor (`parse_class_element`). -/
def classMember (hasConstructor : Bool) : Parse (Node × Bool) := do
  let start ← mark
  let head ← memberHead nested
  match ← memberRest nested head with
  | none => failAhead
  | some m =>
    let isConstructor ← checkMemberName hasConstructor head m
    let kind := if isConstructor then .constructor else m.kind
    return (← finish start (.methodDefinition kind m.key m.value m.computed head.static), isConstructor)

/-- The members of a class, in braces (`parse_class_body`). Semicolons between them say nothing. -/
def classBody : Parse Node := do
  let start ← mark
  expect .leftBrace
  let (members, _) ← loop (([] : List Node), false) fun (members, hasConstructor) => do
    if ← check .rightBrace then return .done (members, hasConstructor)
    else if ← accept .semicolon then return .more (members, hasConstructor)
    else
      let (member, isConstructor) ← classMember nested hasConstructor
      return .more (member :: members, hasConstructor || isConstructor)
  expect .rightBrace
  finish start (.classBody members.reverse)

/-- What the class extends, and its members (`parse_class_tail`). -/
def classTail : Parse (Option Node × Node) := do
  let superClass ←
    if ← checkKeyword "extends" then
      skip
      pure (some (← isolate (nested .callChain)))
    else pure none
  return (superClass, ← classBody nested)

/-- The name of a class, if it has one. Only a declaration may be called by a word that is no name, which
is an error. -/
def className (form : ClassForm) (nameIsOptional : Bool) : Parse (Option Node) := do
  if (← ahead).isIdentifier then return some (← bindingName none)
  else if form == .expression || nameIsOptional then return none
  else return some (← bindingName none)

/-- A class, from `class` on. -/
def classOf (form : ClassForm) (nameIsOptional : Bool) : Parse Node := do
  let start ← mark
  let (name, superClass, body) ← withContext ({ · with strict := true }) do
    expectKeyword "class"
    let name ← className form nameIsOptional
    let (superClass, body) ← classTail nested
    return (name, superClass, body)
  finish start (.classDefinition form name superClass body)

/-- A class declaration (`parse_class_declaration`). Only a default export may leave out the name. -/
def classDeclaration (nameIsOptional : Bool) : Parse Node := classOf nested .declaration nameIsOptional

/-- A class expression (`parse_class_expression`). -/
def classExpression : Parse Node := classOf nested .expression true

end EcmaTree.Parse
