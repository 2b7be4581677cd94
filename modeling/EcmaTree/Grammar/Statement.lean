import EcmaTree.Grammar.Iteration

/-!
# Statements

Statements other than loops and declarations. Jumps look at what is around them: a label must enclose its
`break` or `continue`, and without a label there must be a loop, or a `switch` for `break`.
-/

namespace EcmaTree.Parse

variable (nested : Nested)

/-- Statements in braces (`parse_block`). -/
def block : Parse Node := do
  let start ← mark
  expect .leftBrace
  let body ← itemsBefore .rightBrace (nested .listItem)
  expect .rightBrace
  finish start (.block body)

/-- A semicolon alone (`parse_empty_statement`). -/
def emptyStatement : Parse Node := do
  let start ← mark
  expect .semicolon
  finish start .emptyStatement

/-- An expression as a statement (`parse_expression_statement`). -/
def expressionStatement : Parse Node := do
  let start ← mark
  let e ← expression nested
  endStatement
  finish start (.expressionStatement e none)

/-! ## Choices -/

/-- A branch of an `if` (`parse_if_clause`). -/
def branch : Parse Node := do
  if (← isStrict) && (← checkKeyword "function") then tolerateHere .strictFunction
  nested .statement

/-- Consume the keyword `word` if it is ahead. Gives back whether it was. -/
def acceptKeyword (word : String) : Parse Bool := do
  if ← checkKeyword word then
    skip
    return true
  else return false

/-- A test and its branches (`parse_if_statement`). -/
def ifStatement : Parse Node := do
  let start ← mark
  expectKeyword "if"
  expect .leftParen
  let test ← expression nested
  match ← missingParen with
  | some empty => finish start (.ifStatement test empty none)
  | none =>
    expect .rightParen
    let consequent ← branch nested
    let alternate ← if ← acceptKeyword "else" then pure (some (← branch nested)) else pure none
    finish start (.ifStatement test consequent alternate)

/-- Statements with the members of an object in scope (`parse_with_statement`). -/
def withStatement : Parse Node := do
  if ← isStrict then tolerateHere .strictWith
  let start ← mark
  expectKeyword "with"
  expect .leftParen
  let scope ← expression nested
  let body ← bodyAfterParen (nested .statement)
  finish start (.withStatement scope body)

/-- Is the end of a case ahead? -/
def atCaseEnd : Parse Bool := do
  let t ← ahead
  return t.isPunctuator .rightBrace || t.isKeyword "default" || t.isKeyword "case"

/-- A case of a `switch`, and whether it is the default (`parse_switch_case`). -/
def switchCase : Parse (Node × Bool) := do
  let start ← mark
  let test ←
    if ← acceptKeyword "default" then pure none
    else
      expectKeyword "case"
      pure (some (← expression nested))
  expect .colon
  let consequent ← manyBefore atCaseEnd (nested .listItem)
  return (← finish start (.switchCase test consequent), test.isNone)

/-- The cases of a `switch`, in braces. One of them may be the default. -/
def switchCases : Parse (List Node) := do
  expect .leftBrace
  let (cases, _) ← loop (([] : List Node), false) fun (cases, hasDefault) => do
    if ← check .rightBrace then return .done (cases, hasDefault)
    let (clause, isDefault) ← switchCase nested
    if isDefault && hasDefault then failHere .duplicateDefault
    return .more (clause :: cases, hasDefault || isDefault)
  expect .rightBrace
  return cases.reverse

/-- A choice between cases (`parse_switch_statement`). -/
def switchStatement : Parse Node := do
  let start ← mark
  expectKeyword "switch"
  expect .leftParen
  let discriminant ← expression nested
  expect .rightParen
  let cases ← withContext ({ · with inSwitch := true }) (switchCases nested)
  finish start (.switchStatement discriminant cases)

/-! ## Jumps -/

/-- The label of a jump, on its line, if there is one. It must be one of those around. -/
def jumpLabel : Parse (Option Node) := do
  let s ← get
  if s.lookahead.isIdentifier && !s.newline then
    let label ← bindingName none
    let name := label.identifierName?.getD ""
    unless s.labels.contains name do failHere (.undefinedLabel name)
    return some label
  else return none

/-- A jump to the next round of a loop (`parse_continue_statement`). -/
def continueStatement : Parse Node := do
  let start ← mark
  expectKeyword "continue"
  let label ← jumpLabel
  endStatement
  if label.isNone && !(← context).inIteration then failHere .illegalContinue
  finish start (.continueStatement label)

/-- A jump out of a loop, a `switch` or a labeled statement (`parse_break_statement`). -/
def breakStatement : Parse Node := do
  let start ← mark
  expectKeyword "break"
  let label ← jumpLabel
  endStatement
  let c ← context
  if label.isNone && !c.inIteration && !c.inSwitch then failHere .illegalBreak
  finish start (.breakStatement label)

/-- A return from a function (`parse_return_statement`). Only a string or a template may stand on the next line. -/
def returnStatement : Parse Node := do
  unless (← context).inFunctionBody do tolerateHere .illegalReturn
  let start ← mark
  expectKeyword "return"
  let s ← get
  let t := s.lookahead
  let ends := t.isPunctuator .semicolon || t.isPunctuator .rightBrace || s.newline || t.isEnd
  let argument ←
    if !ends || t.isString || t.isTemplate then pure (some (← expression nested)) else pure none
  endStatement
  finish start (.returnStatement argument)

/-- A `throw`, with its value on the same line (`parse_throw_statement`). -/
def throwStatement : Parse Node := do
  let start ← mark
  expectKeyword "throw"
  if (← get).newline then failHere .newlineAfterThrow
  let argument ← expression nested
  endStatement
  finish start (.throwStatement argument)

/-- Check that no name is bound twice. -/
def checkDistinct : (seen : List String) → List Token → Parse Unit
  | _, [] => return
  | seen, t :: names => do
    if seen.contains t.text then tolerateHere (.duplicateBinding t.text)
    checkDistinct (t.text :: seen) names

/-- What a `catch` binds, in parentheses. -/
def catchParameter : Parse Node := do
  expect .leftParen
  if ← check .rightParen then failAhead
  let (target, names) ← pattern nested none
  checkDistinct [] names
  if (← isStrict) && isRestrictedName target then tolerateHere .strictCatchVariable
  expect .rightParen
  return target

/-- The handler of a `try` (`parse_catch_clause`). -/
def catchClause : Parse Node := do
  let start ← mark
  expectKeyword "catch"
  let param ← if ← check .leftParen then pure (some (← catchParameter nested)) else pure none
  let body ← block nested
  finish start (.catchClause param body)

/-- Statements with a handler, a finalizer, or both (`parse_try_statement`). -/
def tryStatement : Parse Node := do
  let start ← mark
  expectKeyword "try"
  let body ← block nested
  let handler ← if ← checkKeyword "catch" then pure (some (← catchClause nested)) else pure none
  let finalizer ← if ← acceptKeyword "finally" then pure (some (← block nested)) else pure none
  if handler.isNone && finalizer.isNone then failHere .missingHandler
  finish start (.tryStatement body handler finalizer)

/-- A stop for the debugger (`parse_debugger_statement`). -/
def debuggerStatement : Parse Node := do
  let start ← mark
  expectKeyword "debugger"
  endStatement
  finish start .debuggerStatement

/-! ## Labels -/

/-- What a label stands before. Strict code has no labeled functions, and no code labeled generators. -/
def labeledBody : Parse Node := do
  let t ← ahead
  if t.isKeyword "class" then
    tolerateAt t
    classDeclaration nested false
  else if t.isKeyword "function" then
    let declaration ← functionDeclaration nested false
    if ← isStrict then tolerateWith t .strictFunction
    else if isGenerator declaration then tolerateWith t .generatorAsBody
    return declaration
  else nested .statement

/-- A statement behind the label `name`, whose colon is ahead. -/
def labeled (start : Place) (label : Node) (name : String) : Parse Node := do
  skip
  if (← get).labels.contains name then failHere (.duplicateLabel name)
  modify fun s => { s with labels := name :: s.labels }
  let body ← labeledBody nested
  modify fun s => { s with labels := s.labels.erase name }
  finish start (.labeledStatement label body)

/-- A labeled statement, or an expression that begins like one (`parse_labelled_statement`). -/
def labeledStatement : Parse Node := do
  let start ← mark
  let e ← expression nested
  let isLabel ← check .colon
  match e.identifierName?.filter fun _ => isLabel with
  | some name => labeled nested start e name
  | none =>
    endStatement
    finish start (.expressionStatement e none)

/-! ## All statements -/

/-- A statement that begins with the given keyword. -/
def keywordStatement : String → Parse Node
  | "break" => breakStatement
  | "continue" => continueStatement
  | "debugger" => debuggerStatement
  | "do" => doWhileStatement nested
  | "for" => forStatement nested
  | "function" => functionDeclaration nested false
  | "if" => ifStatement nested
  | "return" => returnStatement nested
  | "switch" => switchStatement nested
  | "throw" => throwStatement nested
  | "try" => tryStatement nested
  | "var" => varStatement nested
  | "while" => whileStatement nested
  | "with" => withStatement nested
  | _ => expressionStatement nested

/-- A statement (`parse_statement`). -/
def statement : Parse Node := do
  let t ← ahead
  match t.lexeme with
  | .boolean _ | .null | .number .. | .string .. | .template _ | .regex _ => expressionStatement nested
  | .punctuator .leftBrace => block nested
  | .punctuator .semicolon => emptyStatement
  | .punctuator _ => expressionStatement nested
  | .identifier _ =>
    if ← checkAsyncFunction then functionDeclaration nested false else labeledStatement nested
  | .keyword word => keywordStatement nested word
  | .endOfInput | .jsxIdentifier _ | .jsxText _ => failAt t

end EcmaTree.Parse
