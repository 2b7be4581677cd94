import EcmaTree.Grammar.Operators

/-!
# Assignments and arrow functions

What an `=` or an arrow follows is no longer an expression: it becomes a pattern, and what the cover says of it
decides whether it may.
-/

namespace EcmaTree.Parse

variable (nested : Nested)

/-! ## Arrow functions -/

/-- Is the node a block? -/
def isBlock (n : Node) : Bool :=
  match n.kind with
  | .block _ => true
  | _ => false

/-- The body of an arrow function, in braces or an expression. -/
def arrowBody : Parse Node := do
  if ← check .leftBrace then withContext ({ · with allowIn := true }) (functionBody nested)
  else isolate (nested .assignment)

/-- An arrow function behind its parameters (`parse_arrow_function`). No line ends before the arrow. -/
def arrowFunction (first : Token) (ps : Parameters) (async : Bool) : Parse Node := do
  let s ← get
  if s.newline then tolerateAt s.lookahead
  modifyCover ({ · with pending := none })
  withContext ({ · with allowStrictDirective := ps.simple, allowYield := true, isAsync := async }) do
    expect .arrow
    let body ← arrowBody nested
    if ← isStrict then
      failOffender ps.cause ps.restricted
      tolerateOffender ps.cause ps.stricted
    finish first.place (.function .arrow none ps.params body false (!isBlock body) async)

/-! ## `yield` -/

/-- May an expression begin with the token (`is_start_of_expression`)? -/
def beginsExpression (jsx : Bool) (t : Token) : Bool :=
  match t.lexeme with
  | .punctuator p =>
    [.leftBracket, .leftParen, .leftBrace, .plus, .minus, .bang, .tilde, .increment, .decrement,
      .slash, .divAssign].contains p || (jsx && p == .lt)
  | .keyword word =>
    ["class", "delete", "function", "let", "new", "super", "this", "typeof", "void",
      "yield"].contains word
  | _ => true

/-- What `yield` hands over on its line, and whether it hands over to another generator. -/
def yieldArgument : Parse (Option Node × Bool) := do
  let s ← get
  if s.newline then return (none, false)
  withContext ({ · with allowYield := false }) do
    if ← accept .star then return (some (← nested .assignment), true)
    else if beginsExpression s.dialect.jsx s.lookahead then
      return (some (← nested .assignment), false)
    else return (none, false)

/-- `yield` in a generator (`parse_yield_expression`). -/
def yieldExpression : Parse Node := do
  let start ← mark
  expectKeyword "yield"
  let (argument, delegate) ← yieldArgument nested
  finish start (.yield argument delegate)

/-! ## Assignments -/

/-- Check the target of an assignment, which begins with the token `first`. -/
def checkTarget (first : Token) (target : Node) : Parse Unit := do
  unless (← get).cover.isAssignmentTarget do tolerateHere .assignmentTarget
  if ← isStrict then
    if let some name := target.identifierName? then
      if isRestricted name then tolerateWith first .strictAssignment
      if isStrictReserved name then tolerateWith first .strictReservedWord

/-- An assignment to a target that has been read. -/
def assignTo (first : Token) (target : Node) (op : AssignOp) : Parse Node := do
  checkTarget first target
  let target ←
    if op == .assign then pure target.toPattern
    else
      nonPattern
      pure target
  skip
  let value ← isolate (nested .assignment)
  let node ← finish first.place (.assignment op target value)
  modifyCover ({ · with pending := none })
  return node

/-- The parameter of an arrow function `async x => …`, if it is ahead on the line of `async`. -/
def asyncParameter (first : Token) (e : Node) : Parse Node := do
  let t ← ahead
  if first.isIdentifierNamed "async" && first.line == t.line && (t.isIdentifier || t.isKeyword "yield") then
    let param ← primary nested
    return placeholder [param.toPattern] true
  else return e

/-- The parameters that a node holds until their arrow is met, and whether the function is asynchronous. -/
def waitingFor? (n : Node) : Option Bool :=
  match n.kind with
  | .arrowParameters _ async => some async
  | _ => none

/-- An expression without a comma (`parse_assignment_expression`). -/
def assignment : Parse Node := do
  let first ← ahead
  if !(← context).allowYield && first.isKeyword "yield" then return ← yieldExpression nested
  let e ← asyncParameter nested first (← conditional nested)
  let waiting := waitingFor? e
  if waiting.isSome || (← check .arrow) then
    nonPattern
    if waiting.isNone && !e.isIdentifier then return e
    let async := waiting.getD false
    arrowFunction nested first (← arrowParameters e async) async
  else
    match (← ahead).assignOp? with
    | some op => assignTo nested first e op
    | none => return e

end EcmaTree.Parse
