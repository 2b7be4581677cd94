import EcmaTree.Grammar.Parse

/-!
# Nested productions

The grammar is recursive. Its productions are written over `Nested`, which reads a production one level
deeper; only those by which the recursion goes back have a name here. Tying the knot is left to the module
that knows them all.
-/

namespace EcmaTree

/-- The productions by which the grammar is recursive. -/
inductive Production where
  /-- An expression without a comma. -/
  | assignment
  /-- An operand with its operators before it. -/
  | unary
  /-- Operands joined by `**`. -/
  | exponentiation
  /-- What `new` constructs. -/
  | callee
  /-- Member accesses and calls. -/
  | callChain
  /-- A binding pattern. In a declaration, `kind` is the word that begins it. -/
  | pattern (kind : Option VariableKind)
  | statement
  /-- A statement or a declaration. -/
  | listItem
  | jsxElement
  deriving DecidableEq

/-- What a production gives back: a node, and for patterns the tokens of the names that they bind. -/
abbrev Production.Result : Production → Type
  | .pattern _ => Node × List Token
  | _ => Node

/-- Reads a production one level deeper. -/
abbrev Nested := (p : Production) → Parse p.Result

namespace Parse

variable (nested : Nested)

/-- An expression, or several with commas between them (`parse_expression`). -/
def expression : Parse Node := do
  let first ← ahead
  let expressions ← commaSeparated (isolate (nested .assignment))
  match expressions with
  | [e] => return e
  | _ => finish first.place (.sequence expressions)

end Parse

end EcmaTree
