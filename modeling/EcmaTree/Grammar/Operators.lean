import EcmaTree.Grammar.CallChain

/-!
# Operators

Operators before and behind one operand, `**`, the binary operators and the conditional. The binary operators
are read with a stack: an operator waits until one that binds less tightly, or none, follows. Their strengths
come from the dialect.
-/

namespace EcmaTree

namespace Token

/-- The update that the token stands for. -/
def updateOp? (t : Token) : Option UpdateOp :=
  match t.lexeme with
  | .punctuator p => p.updateOp?
  | _ => none

/-- The operator before one operand that the token stands for (`match_unary_op`). -/
def unaryOp? (t : Token) : Option UnaryOp :=
  match t.lexeme with
  | .punctuator p => p.unaryOp?
  | .keyword "delete" => some .delete
  | .keyword "void" => some .void
  | .keyword "typeof" => some .typeof
  | _ => none

/-- The assignment that the token stands for (`match_assign`). -/
def assignOp? (t : Token) : Option AssignOp :=
  match t.lexeme with
  | .punctuator p => p.assignOp?
  | _ => none

/-- The operator between two operands that the token stands for. -/
def binaryOp? (t : Token) : Option BinaryOp :=
  match t.lexeme with
  | .punctuator p => p.binaryOp?
  | .keyword "in" => some .inside
  | .keyword "instanceof" => some .instanceof
  | _ => none

end Token

namespace Parse

variable (nested : Nested)

/-! ## One operand -/

/-- Does the node name a variable that strict code neither binds nor assigns? -/
def isRestrictedName (n : Node) : Bool := n.identifierName?.any isRestricted

/-- Check the operand of an update. -/
def checkUpdated (operand : Node) (restricted : Cause) : Parse Unit := do
  if (← isStrict) && isRestrictedName operand then tolerateHere restricted
  unless (← get).cover.isAssignmentTarget do tolerateHere .assignmentTarget

/-- An update before its operand. -/
def updateBefore (first : Token) (op : UpdateOp) : Parse Node := do
  skip
  let operand ← inherit (nested .unary)
  checkUpdated operand .strictPrefixUpdate
  let node ← finish first.place (.update op operand true)
  nonPattern
  return node

/-- An operand, with an update before it or behind it (`parse_update_expression`). -/
def update : Parse Node := do
  let first ← ahead
  match first.updateOp? with
  | some op => updateBefore nested first op
  | none =>
    let operand ← inherit (callChain nested)
    let s ← get
    match s.lookahead.updateOp? with
    | some op =>
      if s.newline then return operand
      checkUpdated operand .strictPostfixUpdate
      nonPattern
      skip
      finish first.place (.update op operand false)
    | none => return operand

/-- `await` and its operand (`parse_await_expression`). -/
def await : Parse Node := do
  let start ← mark
  skip
  let operand ← nested .unary
  finish start (.await operand)

/-- An operand with its operators before it (`parse_unary_expression`). -/
def unary : Parse Node := do
  let first ← ahead
  match first.unaryOp? with
  | some op =>
    skip
    let operand ← inherit (nested .unary)
    let node ← finish first.place (.unary op operand true)
    if (← isStrict) && op == .delete && operand.isIdentifier then tolerateHere .strictDelete
    nonPattern
    return node
  | none =>
    if (← context).isAsync && first.isIdentifierNamed "await" then await nested else update nested

/-- Is the node an operator before one operand? -/
def isUnary (n : Node) : Bool :=
  match n.kind with
  | .unary .. => true
  | _ => false

/-- Operands joined by `**`, from the right (`parse_exponentiation_expression`). Its left operand has no operator
before it. -/
def exponentiation : Parse Node := do
  let first ← ahead
  let left ← inherit (unary nested)
  if isUnary left then return left
  else if ← accept .pow then
    nonPattern
    let right ← isolate (nested .exponentiation)
    finish first.place (.binary .pow left right)
  else return left

/-! ## Binary operators -/

/-- How tightly a token binds as a binary operator; zero if it is none (`binary_precedence`). -/
def strengthOf (s : ParseState) (t : Token) : Nat :=
  match t.lexeme with
  | .punctuator p => Precedence.strength s.dialect.strengths p.text
  | .keyword "instanceof" => Precedence.relationalKeyword
  | .keyword "in" => if s.context.allowIn then Precedence.relationalKeyword else 0
  | _ => 0

/-- Which logical operators may still follow: `??` does not stand beside the others without
parentheses. -/
structure LogicalMix where
  allowsAndOr : Bool := true
  allowsCoalesce : Bool := true

namespace LogicalMix

/-- May the token follow as an operator? -/
def allows (m : LogicalMix) (t : Token) : Bool :=
  match t.binaryOp? with
  | some .and | some .or => m.allowsAndOr
  | some .coalesce => m.allowsCoalesce
  | _ => true

/-- What may follow when the token has followed. -/
def after (m : LogicalMix) (t : Token) : LogicalMix :=
  match t.binaryOp? with
  | some .and | some .or => { m with allowsCoalesce := false }
  | some .coalesce => { m with allowsAndOr := false }
  | _ => m

end LogicalMix

/-- An operator that waits for the end of its right operand, with its left operand and the first token of
that. -/
structure Pending where
  left : Node
  first : Token
  operator : Token
  strength : Nat

/-- Join an operator with its operands (`binary_node`). The node begins with the first token of the left operand.
-/
def joinOperands (p : Pending) (lineAbove : Nat) (right : Node) : Parse Node := do
  match p.operator.binaryOp? with
  | some op => finish (p.first.placeAfter lineAbove) (.binary op p.left right)
  | none => failHere (.unexpectedToken p.operator.text)

/-- Join the operators on the stack that bind at least as tightly as `strength`. Gives back what is left of the
stack, and the operand on top of it with its first token. -/
def reduceWhile (strength : Nat) : List Pending → Node → Token → Parse (List Pending × Node × Token)
  | [], right, first => return ([], right, first)
  | p :: stack, right, first => do
    if strength ≤ p.strength then
      let node ← joinOperands p p.first.lineStart right
      reduceWhile strength stack node p.first
    else return (p :: stack, right, first)

/-- Join all operators on the stack. Lines are taken to start where the right operand's line does. -/
def reduceAll : List Pending → Node → Token → Parse Node
  | [], right, _ => return right
  | p :: stack, right, first => do
    let node ← joinOperands p first.lineStart right
    reduceAll stack node p.first

/-- Operands joined by binary operators (`parse_binary_expression`). -/
def binary : Parse Node := do
  let first ← ahead
  let operand ← inherit (exponentiation nested)
  let (stack, right, last, _) ←
    loop (([] : List Pending), operand, first, ({} : LogicalMix)) fun (stack, right, last, mix) => do
      let s ← get
      let operator := s.lookahead
      let strength := strengthOf s operator
      if strength = 0 then return .done (stack, right, last, mix)
      unless mix.allows operator do failAt operator
      let (stack, left, leftFirst) ← reduceWhile strength stack right last
      skip
      nonPattern
      let rightFirst ← ahead
      let right ← isolate (exponentiation nested)
      return .more (⟨left, leftFirst, operator, strength⟩ :: stack, right, rightFirst,
        mix.after operator)
  reduceAll stack right last

/-- A condition and its two branches, or an expression that is no condition (`parse_conditional_expression`). -/
def conditional : Parse Node := do
  let first ← ahead
  let test ← inherit (binary nested)
  if ← accept .question then
    let consequent ← withContext ({ · with allowIn := true }) (isolate (nested .assignment))
    expect .colon
    let alternate ← isolate (nested .assignment)
    let node ← finish first.place (.conditional test consequent alternate)
    nonPattern
    return node
  else return test

end Parse

end EcmaTree
