import EcmaTree.Comment.Attachment
import EcmaTree.Grammar.Program
import EcmaTree.Presentation

/-!
# Parsing

`parse` reads a source into a program: its tree, and with it the comments, the tokens and the errors that the
options ask for. `parseWithEvents` does so with an observer, and gives back what that has been told too, also if
the parse fails.
-/

namespace EcmaTree

/-- What a parse gives back (`Program`). -/
structure Program where
  root : Node
  comments : Option (List Comment)
  tokens : Option (List TokenEntry)
  errors : Option (List SyntaxError)

/-- The record with which a parse begins: nothing has been found. -/
def ParseOptions.record (o : ParseOptions) (observed : Bool) : Record :=
  { recording := o.recording observed
    handler := wanted o.collectsComments { attach := o.attachComment } }

namespace Program

/-- The program that a parse found, with what the options ask for (`parse_program`). -/
def ofParse (o : ParseOptions) (root : Node) (s : ParseState) : Program :=
  { root := match s.record.handler with
      | some handler => handler.finish root
      | none => root
    comments := s.record.handler.bind fun handler => wanted o.comment handler.comments.toList
    tokens := wanted o.tokens s.record.tokens.toList
    errors := wanted o.tolerant s.scanner.errors }

/-- The statements of the program (`body`). -/
def body (p : Program) : List Node :=
  match p.root.kind with
  | .program _ body => body
  | _ => []

/-- What the program was read as (`source_type`). -/
def goal (p : Program) : Goal :=
  match p.root.kind with
  | .program goal _ => goal
  | _ => .script

/-- The program as JSON (`to_json`). Errors stand behind everything else. -/
def toJson (p : Presentation) (program : Program) : Json :=
  let list {α : Type} (key : String) (write : α → Json) (items : Option (List α)) :=
    items.toList.map fun items => (key, Json.array (items.map write))
  let members : List (String × Json) := match program.root.toJson p with
    | .object members => members
    | _ => []
  .object (members ++ list "comments" (·.toJson p) program.comments ++
    list "tokens" (·.toJson p) program.tokens ++ list "errors" (·.toJson) program.errors)

end Program

/-- Parse a source with an observer or without one. Gives back what the observer has been told, too. -/
def parseObserved (observed : Bool) (source : String) (o : ParseOptions) :
    List ParseEvent × Except Failure Program :=
  match Parse.source source o.dialect (o.record observed) with
  | .ok root s => (s.record.events.toList, .ok (.ofParse o root s))
  | .error failure s => (s.record.events.toList, .error failure)

/-- Parse a source, and give back what was seen on the way (`parse_with_delegate`). -/
def parseWithEvents (source : String) (o : ParseOptions) : List ParseEvent × Except Failure Program :=
  parseObserved true source o

/-- Parse a source (`parse`). -/
def parse (source : String) (o : ParseOptions) : Except Failure Program := (parseObserved false source o).2

/-- Parse a source as a script, whatever the options say (`parse_script`). -/
def parseScript (source : String) (o : ParseOptions) : Except Failure Program :=
  parse source { o with goal := .script }

/-- Parse a source as a module, whatever the options say (`parse_module`). -/
def parseModule (source : String) (o : ParseOptions) : Except Failure Program :=
  parse source { o with goal := .module }

end EcmaTree
