import EcmaTree.Grammar.Declaration

/-!
# Loops

The head of a `for` is read up to where it shows which of three forms it has. In tolerant mode a missing closing
parenthesis takes the body with it.
-/

namespace EcmaTree.Parse

variable (nested : Nested)

/-- In tolerant mode, pass over a token that stands in place of a closing parenthesis, and give back an empty
statement as the body (`missing_paren_recovery`). -/
def missingParen : Parse (Option Node) := do
  let s ← get
  if s.lookahead.isPunctuator .rightParen || !s.dialect.tolerant then return none
  passOver
  let start ← mark
  return some (← finish start .emptyStatement)

/-- A body behind a closing parenthesis. -/
def bodyAfterParen (body : Parse Node) : Parse Node := do
  match ← missingParen with
  | some empty => return empty
  | none =>
    expect .rightParen
    body

/-- A statement in a loop (`parse_iteration_body`). -/
def iterated (body : Parse Node) : Parse Node := withContext ({ · with inIteration := true }) body

/-- A declaration is no body of a loop (`tolerate_invalid_loop_statement`). -/
def checkLoopBody : Parse Unit := do
  let t ← ahead
  if t.isKeyword "class" || t.isKeyword "function" then tolerateHere (.unexpectedToken t.text)

/-- The end of a loop with its test behind the body. In tolerant mode any token stands for the closing
parenthesis, and then no semicolon is consumed. -/
def endDoWhile : Parse Unit := do
  if !(← check .rightParen) && (← get).dialect.tolerant then passOver
  else
    expect .rightParen
    discard (accept .semicolon)

/-- A loop with its test behind the body (`parse_do_while_statement`). -/
def doWhileStatement : Parse Node := do
  let start ← mark
  expectKeyword "do"
  checkLoopBody
  let body ← iterated (nested .statement)
  expectKeyword "while"
  expect .leftParen
  let test ← expression nested
  endDoWhile
  finish start (.doWhileStatement body test)

/-- A loop with its test in front (`parse_while_statement`). -/
def whileStatement : Parse Node := do
  let start ← mark
  expectKeyword "while"
  expect .leftParen
  let test ← expression nested
  let body ← bodyAfterParen (iterated (nested .statement))
  finish start (.whileStatement test body)

/-! ## The head of `for` -/

/-- What the head of a `for` says. -/
inductive ForHead where
  | steps (init test step : Option Node)
  | keys (left right : Node)
  | values (left right : Node)

/-- The test and the step behind the first semicolon of a head. -/
def headSteps (init : Option Node) : Parse ForHead := do
  let test ← if ← check .semicolon then pure none else pure (some (← isolate (expression nested)))
  expect .semicolon
  let step ← if ← check .rightParen then pure none else pure (some (← isolate (expression nested)))
  return .steps init test step

/-- The keys behind `in`. -/
def headKeys (left : Node) : Parse ForHead := do
  skip
  return .keys left (← expression nested)

/-- The values behind `of`. -/
def headValues (left : Node) : Parse ForHead := do
  skip
  return .values left (← nested .assignment)

/-- The target and the initial value of the only binding of a list. -/
def onlyBinding? (declarations : List Node) : Option (Node × Option Node) :=
  match declarations with
  | [d] =>
    match d.kind with
    | .variableDeclarator target init => some (target, init)
    | _ => none
  | _ => none

/-- Is the node an array or object pattern? -/
def isPattern (n : Node) : Bool :=
  match n.kind with
  | .arrayPattern _ | .objectPattern _ => true
  | _ => false

/-- A head that begins with `var` (`parse_for_var_head`). -/
def varHead (isAwait : Bool) : Parse ForHead := do
  let start ← mark
  skip
  let declarations ← withContext ({ · with allowIn := false }) (bindings nested .var true)
  let declaration := finish start (.variableDeclaration .var declarations)
  let t ← ahead
  let steps : Parse ForHead := do
    let init ← declaration
    expect .semicolon
    headSteps nested (some init)
  match onlyBinding? declarations with
  | none => steps
  | some (target, init) =>
    if !isAwait && t.isKeyword "in" then
      if init.isSome && (isPattern target || (← isStrict)) then tolerateHere .forInInitializer
      headKeys nested (← declaration)
    else if init.isNone && t.isIdentifierNamed "of" then headValues nested (← declaration)
    else steps

/-- A head that begins with `let` or `const` (`parse_for_lexical_head`). In sloppy code `let` before `in` is a
name. -/
def lexicalHead : Parse ForHead := do
  let start ← mark
  let kind ← declarationWord
  if !(← isStrict) && (← ahead).text == "in" then
    headKeys nested (← finish start (.identifier kind.text))
  else
    let declarations ← withContext ({ · with allowIn := false }) (bindings nested kind true)
    let declaration := finish start (.variableDeclaration kind declarations)
    let t ← ahead
    let single := (onlyBinding? declarations).any (·.2.isNone)
    if single && t.isKeyword "in" then headKeys nested (← declaration)
    else if single && t.isIdentifierNamed "of" then headValues nested (← declaration)
    else
      endStatement
      headSteps nested (some (← declaration))

/-- Is the node an assignment? -/
def isAssignment (n : Node) : Bool :=
  match n.kind with
  | .assignment .. => true
  | _ => false

/-- Check the target of a loop over keys or values. -/
def checkLoopTarget (target : Node) (cause : Cause) : Parse Unit := do
  if !(← get).cover.isAssignmentTarget || isAssignment target then tolerateHere cause

/-- The first expression of a head, with those behind commas. -/
def headExpressions (first : Token) (init : Node) : Parse Node := do
  if ← check .comma then
    let others ← loop [] fun items => do
      if ← accept .comma then return .more ((← isolate (nested .assignment)) :: items)
      else return .done items
    finish first.place (.sequence (init :: others.reverse))
  else return init

/-- A head that begins with an expression (`parse_for_expression_head`). It is a target if `in` or `of` follows;
otherwise it has been an expression of its own. -/
def expressionHead : Parse ForHead := do
  let first ← ahead
  let saved := (← get).cover
  let init ← withContext ({ · with allowIn := false }) (inherit (nested .assignment))
  let t ← ahead
  if t.isKeyword "in" then
    checkLoopTarget init .forInTarget
    headKeys nested init.toPattern
  else if t.isIdentifierNamed "of" then
    checkLoopTarget init .forTarget
    headValues nested init.toPattern
  else
    modifyCover fun _ => saved
    let init ← headExpressions nested first init
    expect .semicolon
    headSteps nested (some init)

/-- The head of a `for`, behind its opening parenthesis. -/
def forHead (isAwait : Bool) : Parse ForHead := do
  if ← accept .semicolon then headSteps nested none
  else if ← checkKeyword "var" then varHead nested isAwait
  else if (← checkKeyword "const") || (← checkKeyword "let") then lexicalHead nested
  else expressionHead nested

/-- The word `await` behind `for`, which only asynchronous code may have. -/
def forAwait : Parse Bool := do
  let t ← ahead
  if t.isIdentifierNamed "await" then
    unless (← context).isAsync do tolerateAt t
    skip
    return true
  else return false

/-- A `for` loop of any form (`parse_for_statement`). -/
def forStatement : Parse Node := do
  let start ← mark
  expectKeyword "for"
  let isAwait ← forAwait
  expect .leftParen
  let head ← forHead nested isAwait
  let body ← bodyAfterParen (iterated (isolate (nested .statement)))
  finish start <| match head with
    | .steps init test step => .forStatement init test step body
    | .keys left right => .forInStatement left right body false
    | .values left right => .forOfStatement left right body isAwait

end EcmaTree.Parse
