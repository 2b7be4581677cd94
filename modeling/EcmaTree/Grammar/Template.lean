import EcmaTree.Grammar.Production

/-!
# Templates

A template is a list of chunks with expressions between them. Its escapes must be valid unless a tag stands
before it, which may look at the raw text instead.
-/

namespace EcmaTree.Parse

variable (nested : Nested)

/-- What is wrong with an escape, from the character behind the backslash (`template_escape_error`). -/
def templateEscapeCause : Char → Cause
  | 'u' => .unicodeEscape
  | 'x' => .hexEscape
  | '8' | '9' => .decimalInTemplate
  | _ => .octalInTemplate

/-- One chunk, and whether it is the last one (`parse_template_element`). -/
def templateElement (tagged : Bool) : Parse (Node × Bool) := do
  match (← ahead).lexeme with
  | .template chunk =>
    let start ← mark
    let t ← next
    if let some c := chunk.invalidEscape then
      unless tagged do failWith t (templateEscapeCause c)
    return (← finish start (.templateElement chunk.raw chunk.cooked chunk.isTail), chunk.isTail)
  | _ => failHere (.unexpectedToken "ILLEGAL")

/-- A template (`parse_template_literal`). -/
def template (tagged : Bool) : Parse Node := do
  let start ← mark
  let (first, isTail) ← templateElement tagged
  let (quasis, expressions, _) ← loop ([first], ([] : List Node), isTail)
    fun (quasis, expressions, isTail) => do
      if isTail then return .done (quasis, expressions, isTail)
      let e ← expression nested
      let (quasi, isTail) ← templateElement tagged
      return .more (quasi :: quasis, e :: expressions, isTail)
  finish start (.template quasis.reverse expressions.reverse)

end EcmaTree.Parse
