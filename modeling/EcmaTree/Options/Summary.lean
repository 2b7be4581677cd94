import EcmaTree.Options
import EcmaTree.Source.IdentifierRanges
import EcmaTree.Source.InvisibleRanges

/-!
# Options at a glance

A summary writes all fields of `ParseOptions` on one line. The name of the source is quoted so that every
character of it can be told: controls, and characters that are invisible or merge with the one before, are
written as escapes.
-/

namespace EcmaTree

/-- Is the character written as its number? -/
def isInvisible (c : Char) : Bool :=
  c.toNat < 0x20 || (0x7f ≤ c.toNat && IdentifierRanges.contains c.toNat InvisibleRanges.all)

/-- The spelling of a character between double quotes. -/
def quotedSpelling (c : Char) : String :=
  match c with
  | '"' => "\\\""
  | '\\' => "\\\\"
  | '\n' => "\\n"
  | '\r' => "\\r"
  | '\t' => "\\t"
  | '\x00' => "\\0"
  | _ =>
    if isInvisible c then "\\u\x7b" ++ String.ofList (Nat.toDigits 16 c.toNat) ++ "\x7d"
    else c.toString

/-- The text between double quotes. -/
def quotedText (text : String) : String :=
  "\"" ++ String.join (text.toList.map quotedSpelling) ++ "\""

namespace ParseOptions

/-- A value that may be missing. -/
def summarizeOption : Option String → String
  | some text => "Some(" ++ quotedText text ++ ")"
  | none => "None"

/-- The name of a goal, as the summary has it. -/
def summarizeGoal : Goal → String
  | .script => "Script"
  | .module => "Module"

/-- A field that is on or off. -/
def summarizeFlag (value : Bool) : String := if value then "true" else "false"

/-- All fields on one line. Binding strengths cannot be told: only their presence is. -/
def summary (o : ParseOptions) : String :=
  let fields :=
    [("range", summarizeFlag o.range), ("loc", summarizeFlag o.loc),
      ("source", summarizeOption o.source), ("source_type", summarizeGoal o.goal),
      ("jsx", summarizeFlag o.jsx), ("tolerant", summarizeFlag o.tolerant),
      ("tokens", summarizeFlag o.tokens), ("comment", summarizeFlag o.comment),
      ("attach_comment", summarizeFlag o.attachComment),
      ("operator_precedence", summarizeOption (o.strengths.map fun _ => "<fn>"))]
  "ParseOptions \x7b " ++ ", ".intercalate (fields.map fun f => f.1 ++ ": " ++ f.2) ++ " \x7d"

end ParseOptions

end EcmaTree
