import EcmaTree.Grammar.Binding

/-!
# Parameters

Some names are forbidden to parameters in strict code only, and whether code is strict may turn out in the body,
behind the parameters. So a list of parameters keeps what will have to be reported then.
-/

namespace EcmaTree

/-- What an error about a parameter points to: the token of its name, or nothing in particular, where the
parameter was read as an expression. -/
inductive Offender where
  | token (token : Token)
  | binding

/-- A list of parameters and what is wrong with it (`FormalParameters`). -/
structure Parameters where
  /-- Are the parameters all mere names? -/
  simple : Bool := true
  duplicated : Bool := false
  params : List Node := []
  names : List String := []
  /-- An error if the function is strict. -/
  stricted : Option Offender := none
  /-- The first name that strict code forbids; sloppy code keeps it until the body has been read. -/
  restricted : Option Offender := none
  cause : Option Cause := none

namespace Parameters

/-- Add a name that is bound (`validate_param`). -/
def bind (strict : Bool) (ps : Parameters) (offender : Offender) (name : String) : Parameters :=
  let known := { ps with names := name :: ps.names }
  let duplicate := { known with stricted := some offender, duplicated := true }
  if strict then
    let checked :=
      if isRestricted name then
        { known with stricted := some offender, cause := some .strictParameterName }
      else known
    if ps.names.contains name then
      { checked with stricted := some offender, duplicated := true }
    else checked
  else if ps.restricted.isSome then known
  else if isRestricted name then
    { known with restricted := some offender, cause := some .strictParameterName }
  else if isStrictReserved name then
    { known with restricted := some offender, cause := some .strictReservedWord }
  else if ps.names.contains name then duplicate
  else known

/-- Add a parameter, whose names have been added already. -/
def add (ps : Parameters) (param : Node) : Parameters :=
  { ps with simple := ps.simple && param.isIdentifier, params := ps.params ++ [param] }

/-- The parameters of an arrow function, which were read as expressions (`check_pattern_param`). -/
def ofNodes (strict : Bool) (nodes : List Node) : Parameters :=
  nodes.foldl (fun ps param =>
    (param.boundNames.foldl (fun ps name => ps.bind strict .binding name) ps).add param) {}

end Parameters

namespace Parse

variable (nested : Nested)

/-- The error about a parameter (`offender_error`). -/
def offenderError (s : ParseState) (cause : Option Cause) : Offender → SyntaxError
  | .token t => match cause with
    | some cause => s.errorAt t cause
    | none => s.unexpected t
  | .binding => s.errorHere (cause.getD (.unexpectedToken "ILLEGAL"))

/-- Stop at a parameter, if one offends. -/
def failOffender (cause : Option Cause) (offender : Option Offender) : Parse Unit := do
  if let some o := offender then fail (offenderError (← get) cause o)

/-- Pass over a parameter that offends, in tolerant mode. -/
def tolerateOffender (cause : Option Cause) (offender : Option Offender) : Parse Unit := do
  if let some o := offender then tolerate (offenderError (← get) cause o)

/-- One parameter (`parse_formal_parameter`). -/
def parameter (ps : Parameters) : Parse Parameters := do
  let (param, names) ←
    if ← check .ellipsis then finalRest nested .rightParen .restNotLast
    else patternWithDefault nested none
  let strict ← isStrict
  return (names.foldl (fun ps t => ps.bind strict (.token t) t.text) ps).add param

/-- The parameters before the closing parenthesis, behind those of `first`. -/
def parameterList (first : Parameters) : Parse Parameters := do
  if ← check .rightParen then return first
  else loop first fun ps => do
    if (← ahead).isEnd then return .done ps
    let ps ← parameter nested ps
    if ← check .rightParen then return .done ps
    expect .comma
    if ← check .rightParen then return .done ps else return .more ps

/-- Parameters in parentheses (`parse_formal_parameters`). `restricted` is the name of the function, if strict code
forbids it. -/
def parameters (restricted : Option Token) : Parse Parameters := do
  expect .leftParen
  let ps ← parameterList nested { restricted := restricted.map .token }
  expect .rightParen
  let c ← context
  if ps.duplicated && (c.strict || c.isAsync || !ps.simple) then failHere .duplicateParameter
  return ps

/-- A parameter of an arrow function, as it has been read: a default value that is the word `yield` alone is
a name there. -/
def arrowParameter (isAsync : Bool) (param : Node) : Parse Node := do
  match param.kind with
  | .assignmentPattern left right =>
    match right.kind with
    | .yield (some _) _ => failAhead
    | .yield none _ => return param.withKind (.assignmentPattern left (right.withKind (.identifier "yield")))
    | _ => return param
  | _ => if isAsync && param.identifierName? == some "await" then failAhead else return param

/-- Is the node a `yield` expression? -/
def isYield (n : Node) : Bool :=
  match n.kind with
  | .yield .. => true
  | _ => false

/-- The nodes that stand for the parameters of an arrow function: a name, or a parenthesized list. -/
def arrowNodes (list : Node) : Parse (List Node) := do
  match list.kind with
  | .arrowParameters params _ => return params
  | .identifier _ => return [list]
  | _ => failAhead

/-- The parameters of an arrow function, from the name or the parenthesized list before the arrow
(`reinterpret_as_cover_formals_list`). -/
def arrowParameters (list : Node) (isAsync : Bool) : Parse Parameters := do
  let params ← (← arrowNodes list).mapM (arrowParameter isAsync)
  let c ← context
  if (c.strict || !c.allowYield) && params.any isYield then failAhead
  let ps := Parameters.ofNodes c.strict params
  if ps.duplicated then failHere .duplicateParameter
  return ps

end Parse

end EcmaTree
