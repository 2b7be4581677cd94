import EcmaTree.Grammar.Parameters

/-!
# Functions and their bodies

A body begins with directives, which are statements of one string each; `use strict` makes the rest of the
body, and the checks of what stands before it, strict. Code stays strict up to the end of the context that
encloses the body.
-/

namespace EcmaTree.Parse

variable (nested : Nested)

/-! ## Bodies -/

/-- The text of a directive, from the string literal that it consists of; an empty one is none. -/
def directiveText? (literal : Token) (e : Node) : Option String :=
  match e.kind with
  | .literal .. =>
    let text := String.ofList (literal.raw.toList.drop 1).dropLast
    if text.isEmpty then none else some text
  | _ => none

/-- A statement that begins with a string, and the text if it is a directive (`parse_directive`). -/
def directive : Parse (Node × Option String) := do
  let first ← ahead
  let start ← mark
  let e ← expression nested
  endStatement
  let text? := directiveText? first e
  return (← finish start (.expressionStatement e text?), text?)

/-- The code is strict from here on: `use strict`, whose token is `first`, has been read. The token `legacy` of a
directive before it has an octal escape. -/
def useStrict (first : Token) (legacy : Option Token) : Parse Unit := do
  modify fun s => { s with context := { s.context with strict := true } }
  if let some t := legacy then tolerateWith t .octalInStrict
  unless (← context).allowStrictDirective do tolerateWith first .strictDirectiveNotSimple

/-- The directives at the beginning of a program or of a body (`parse_directive_prologues`). An octal escape in one
of them becomes an error if a later one makes the code strict. -/
def prologue : Parse (List Node) := do
  let (statements, _) ← loop (([] : List Node), (none : Option Token)) fun (statements, legacy) => do
    let first ← ahead
    if !first.isString then return .done (statements, legacy)
    let (statement, text?) ← directive nested
    match text? with
    | none => return .done (statement :: statements, legacy)
    | some text =>
      if text == "use strict" then
        useStrict first legacy
        return .more (statement :: statements, legacy)
      else
        let legacy := legacy <|> if first.isLegacy then some first else none
        return .more (statement :: statements, legacy)
  return statements.reverse

/-- Is the next token the end of a body, or of the source? -/
def atBodyEnd : Parse Bool := do
  let t ← ahead
  return t.isEnd || t.isPunctuator .rightBrace

/-- The body of a function, in braces (`parse_function_source_elements`). Labels, loops and `switch` around the
function do not reach into it. -/
def functionBody : Parse Node := do
  let start ← mark
  expect .leftBrace
  let directives ← prologue nested
  let labels := (← get).labels
  modify fun s => { s with labels := [] }
  let statements ← withContext
    ({ · with inIteration := false, inSwitch := false, inFunctionBody := true }) do
      let statements ← manyBefore atBodyEnd (nested .listItem)
      expect .rightBrace
      return statements
  modify fun s => { s with labels }
  finish start (.block (directives ++ statements))

/-! ## Functions -/

/-- Do `async` and `function` stand ahead on one line (`match_async_function`)? -/
def checkAsyncFunction : Parse Bool := do
  if ← checkWord "async" then
    let line := (← get).scanner.cursor.line
    let t ← second
    return line == t.line && t.isKeyword "function"
  else return false

/-- Check the name of a function (`check_function_name`). Gives back the name if it is an error once the function
turns out to be strict, and what to say then. -/
def checkFunctionName (t : Token) : Parse (Option Token × Option Cause) := do
  if ← isStrict then
    if isRestricted t.text then tolerateWith t .strictFunctionName
    return (none, none)
  else if isRestricted t.text then return (some t, some .strictFunctionName)
  else if isStrictReserved t.text then return (some t, some .strictReservedWord)
  else return (none, none)

/-- The parameters and the body of a function whose name has been checked (`parse_function_rest`). -/
def functionRest (restricted : Option Token) (cause : Option Cause) : Parse (List Node × Node) := do
  let ps ← parameters nested restricted
  let cause := ps.cause <|> cause
  let body ← withContext ({ · with allowStrictDirective := ps.simple }) do
    let body ← functionBody nested
    if ← isStrict then
      failOffender cause ps.restricted
      tolerateOffender cause ps.stricted
    return body
  return (ps.params, body)

/-- The name of a function. An expression may be called `yield` in sloppy code. -/
def functionName (isExpression generator : Bool) : Parse (Node × Option Token × Option Cause) := do
  let t ← ahead
  let name ←
    if isExpression && !(← isStrict) && !generator && t.isKeyword "yield" then identifierName
    else bindingName none
  let (restricted, cause) ← checkFunctionName t
  return (name, restricted, cause)

/-- Consume the word `async` if it is ahead. Gives back whether it was. -/
def acceptAsync (form : FunctionForm) : Parse Bool := do
  if ← checkWord "async" then
    if form != .expression && (← context).inIteration then tolerateHere .asyncFunctionAsBody
    skip
    return true
  else return false

/-- The name of a function, if it has one. -/
def optionalFunctionName (form : FunctionForm) (nameIsOptional generator : Bool) :
    Parse (Option Node × Option Token × Option Cause) := do
  if nameIsOptional && (← check .leftParen) then return (none, none, none)
  else
    let (name, restricted, cause) ← functionName (form == .expression) generator
    return (some name, restricted, cause)

/-- A function, from `async` or `function` on (`parse_function`). -/
def function (form : FunctionForm) (nameIsOptional : Bool) : Parse Node := do
  let start ← mark
  let async ← acceptAsync form
  expectKeyword "function"
  let generator ← accept .star
  let own (c : Context) : Context := { c with isAsync := async, allowYield := !generator }
  let (name, params, body) ← withContext (if form == .expression then own else id) do
    let (name, restricted, cause) ← optionalFunctionName form nameIsOptional generator
    let (params, body) ← withContext own (functionRest nested restricted cause)
    return (name, params, body)
  finish start (.function form name params body generator false async)

/-- A function declaration (`parse_function_declaration`). Only a default export may leave out the name. -/
def functionDeclaration (nameIsOptional : Bool) : Parse Node :=
  function nested .declaration nameIsOptional

/-- A function expression (`parse_function_expression`). -/
def functionExpression : Parse Node := function nested .expression true

/-! ## Methods -/

/-- The body of a method (`parse_property_method`). Errors about parameters are passed over in tolerant mode,
unlike those of other functions. -/
def methodBody (ps : Parameters) : Parse Node := do
  nonPattern
  withContext ({ · with allowStrictDirective := ps.simple }) do
    let body ← isolate (functionBody nested)
    if ← isStrict then
      tolerateOffender ps.cause ps.restricted
      tolerateOffender ps.cause ps.stricted
    return body

/-- A function expression without a name, as methods are written (`function_expression`). -/
def methodKind (params : List Node) (body : Node) (generator async : Bool) : Kind Node :=
  .function .expression none params body generator false async

/-- The parameters and the body of a method (`parse_property_method_function`,
`parse_property_method_async_function`). -/
def method (generator async : Bool) : Parse Node := do
  let start ← mark
  let change (c : Context) : Context :=
    if async then { c with allowYield := false, isAsync := true } else { c with allowYield := true }
  let (params, body) ← withContext change do
    let ps ← parameters nested none
    return (ps.params, ← methodBody nested ps)
  finish start (methodKind params body generator async)

/-- The parameters and the body of an accessor, where `check` looks at the parameters. -/
def accessor (checkParams : List Node → Parse Unit) : Parse Node := do
  let start ← mark
  let (params, body) ← withContext ({ · with allowYield := true }) do
    let ps ← parameters nested none
    checkParams ps.params
    return (ps.params, ← methodBody nested ps)
  finish start (methodKind params body false false)

/-- A getter has no parameter. -/
def checkGetter (params : List Node) : Parse Unit := do
  unless params.isEmpty do tolerateHere .getterArity

/-- A setter has one parameter, which is no rest. -/
def checkSetter (params : List Node) : Parse Unit := do
  match params with
  | [param] =>
    match param.kind with
    | .rest _ => tolerateHere .setterRest
    | _ => return
  | _ => tolerateHere .setterArity

/-- The parameters and the body of a getter (`parse_getter_method`). -/
def getter : Parse Node := accessor nested checkGetter

/-- The parameters and the body of a setter (`parse_setter_method`). -/
def setter : Parse Node := accessor nested checkSetter

/-- The parameters and the body of a generator method (`parse_generator_method`). -/
def generatorMethod : Parse Node := do
  let start ← mark
  let ps ← withContext ({ · with allowYield := true }) (parameters nested none)
  let body ← withContext ({ · with allowYield := false }) (methodBody nested ps)
  finish start (methodKind ps.params body true false)

end EcmaTree.Parse
