import EcmaTree.Grammar.Primary

/-!
# Member accesses and calls

A chain is an expression followed by accesses, calls and tagged templates. If one of them is optional, the
finished chain is wrapped once. What `new` constructs is a chain without calls.
-/

namespace EcmaTree.Parse

variable (nested : Nested)

/-! ## Arguments -/

/-- An argument (`parse_async_argument`). Those of what may be an asynchronous arrow function may still become
patterns. -/
def argument (maybeParameter : Bool) : Parse Node := do
  if ← check .ellipsis then spread nested
  else isolate do
    let e ← nested .assignment
    if maybeParameter then modifyCover ({ · with pending := none })
    return e

/-- Arguments in parentheses (`parse_argument_list`). -/
def arguments (maybeParameters : Bool) : Parse (List Node) := do
  expect .leftParen
  let args ←
    if ← check .rightParen then pure []
    else loop [] fun args => do
      let args := (← argument nested maybeParameters) :: args
      if ← check .rightParen then return .done args
      expectSeparator
      if ← check .rightParen then return .done args else return .more args
  expect .rightParen
  return args.reverse

/-! ## `new` and `super` -/

/-- An expression that begins with `new` (`parse_new_expression`). -/
def newExpression : Parse Node := do
  let start ← mark
  let word ← identifierName
  if ← accept .dot then
    let t ← ahead
    if t.isIdentifierNamed "target" && (← context).inFunctionBody then
      let field ← identifierName
      finish start (.metaProperty word field)
    else failAhead
  else if ← checkKeyword "import" then failAhead
  else
    let callee ← isolate (nested .callee)
    let args ← if ← check .leftParen then arguments nested false else pure []
    nonPattern
    finish start (.new callee args)

/-- An expression that a chain may begin with (`parse_new_or_primary_expression`). -/
def chainBase : Parse Node := do
  if ← checkKeyword "new" then inherit (newExpression nested) else inherit (primary nested)

/-- `super`, which an access must follow, or a call if there may be one (`parse_super`). -/
def superBase (allowsCall : Bool) : Parse Node := do
  let start ← mark
  expectKeyword "super"
  let follows := (← check .leftBracket) || (← check .dot)
  let call ← check .leftParen
  if allowsCall then
    let node ← finish start .super
    if follows || call then return node else failAhead
  else if follows then finish start .super
  else failAhead

/-- What a chain begins with. -/
def chainHead (isSuper allowsCall : Bool) : Parse Node := do
  if isSuper && (← context).inFunctionBody then superBase allowsCall else chainBase nested

/-! ## Links -/

/-- A chain so far. -/
structure Chain where
  expression : Node
  /-- Is one of its links optional? -/
  hasOptional : Bool

/-- Consume `?.` if it is ahead. -/
def acceptOptional : Parse Bool := accept .optionalDot

/-- What an access makes of the chain: a target, unless the access is optional. -/
def accessCover (optional : Bool) : Parse Unit :=
  modifyCover ({ · with isBindingElement := false, isAssignmentTarget := !optional })

/-- A link that is no call, behind `?.` if it is optional, if there is one. -/
def link (start : Place) (c : Chain) (optional : Bool) : Parse (Option Node) := do
  let t ← ahead
  if t.isPunctuator .leftBracket then
    accessCover optional
    skip
    let field ← isolate (expression nested)
    expect .rightBracket
    return some (← finish start (.member c.expression field true optional))
  else if t.isTemplateHead then
    if optional then failAhead
    if c.hasOptional then failHere .templateOnOptionalChain
    let quasi ← template nested true
    return some (← finish start (.taggedTemplate c.expression quasi))
  else if t.isPunctuator .dot || optional then
    accessCover optional
    unless optional do expect .dot
    let field ← identifierName
    return some (← finish start (.member c.expression field false optional))
  else return none

/-- Wrap a finished chain if one of its links is optional. -/
def finishChain (start : Place) (c : Chain) : Parse Node :=
  if c.hasOptional then finish start (.chain c.expression) else pure c.expression

/-- Go on behind a link that is no call; the chain is done if there is none. -/
def goOn (start : Place) (c : Chain) (optional : Bool) : Parse (Progress Chain) := do
  match ← link nested start c optional with
  | some e => return .more { c with expression := e }
  | none => return .done c

/-- The chain behind `?.`, if it is there. -/
def Chain.after (c : Chain) (optional : Bool) : Chain := { c with hasOptional := c.hasOptional || optional }

/-- The links of a chain without calls. -/
def accessLinks (start : Place) (c : Chain) : Parse Chain :=
  loop c fun c => do
    let optional ← acceptOptional
    goOn nested start (c.after optional) optional

/-- What `new` constructs (`parse_left_hand_side_expression`). -/
def callee : Parse Node := do
  let start := (← ahead).place
  let base ← chainHead nested (← checkKeyword "super") false
  finishChain start (← accessLinks nested start ⟨base, false⟩)

/-- Is the node the callee of a dynamic import? -/
def isImport (n : Node) : Bool :=
  match n.kind with
  | .importKeyword => true
  | _ => false

/-- A call, or the parameters of an asynchronous arrow function if `async` begins the chain on the line of
the parenthesis. -/
def call (first : Token) (c : Chain) (optional : Bool) : Parse Node := do
  let maybeParameters := first.isIdentifierNamed "async" && first.line == (← ahead).line
  nonPattern
  let args ← arguments nested maybeParameters
  if isImport c.expression && args.length != 1 then tolerateHere .importCallArity
  if maybeParameters && (← check .arrow) then return placeholder (args.map Node.toPattern) true
  else finish first.place (.call c.expression args optional)

/-- The links of a chain. -/
def chainLinks (first : Token) (c : Chain) : Parse Chain :=
  loop c fun c => do
    let optional ← acceptOptional
    if ← check .leftParen then
      return .more { c.after optional with expression := ← call nested first (c.after optional) optional }
    else goOn nested first.place (c.after optional) optional

/-- A chain of accesses and calls, from its first token on (`parse_call_chain`). -/
def chainFrom (first : Token) : Parse Node := do
  let isSuper := first.isKeyword "super"
  let base ← chainHead nested isSuper true
  if isSuper && (← check .leftParen) && !(← context).inClassConstructor then
    tolerateHere .superCall
  finishChain first.place (← chainLinks nested first ⟨base, false⟩)

/-- A chain of accesses and calls (`parse_left_hand_side_expression_allow_call`). -/
def callChain : Parse Node := do
  let first ← ahead
  withContext ({ · with allowIn := true }) (chainFrom nested first)

end EcmaTree.Parse
