import EcmaTree.Options
import EcmaTree.SyntaxError
import EcmaTree.Syntax.Node
import EcmaTree.Tokenizer.Basic

/-!
# Results as JSON

Trees, tokens, comments and errors are written as JSON objects. Byte offsets and lines and columns are written if
they have been kept, and if the `Presentation` wants them; both stand behind what an item says, and a node's comments
behind them.
-/

namespace EcmaTree

/-- A line and a column. -/
def Position.toJson (p : Position) : Json := .object [("line", .nat p.line), ("column", .nat p.column)]

/-- The first and the last offset. -/
def Span.toJson (s : Span) : Json := .array [.nat s.start, .nat s.stop]

/-- The lines and columns, and the name of the source if it is known. -/
def SourceLocation.toJson (l : SourceLocation) : Json :=
  .object ([("start", l.start.toJson), ("end", l.stop.toJson)] ++
    l.source.toList.map fun name => ("source", .string name))

namespace Presentation

/-- The members under which the place of an item is written: its byte offsets, and its lines and columns. -/
def fields (p : Presentation) (place : Placement) : List (String × Json) :=
  let range := if p.range then place.range else none
  let loc := if p.loc then place.loc else none
  range.toList.map (fun span => ("range", span.toJson)) ++ loc.toList.map fun l => ("loc", l.toJson)

end Presentation

/-- The type under which a comment is written among comments. -/
def CommentKind.typeName : CommentKind → String
  | line => "Line"
  | block => "Block"

/-- The type under which a comment is written among tokens. -/
def CommentKind.tokenTypeName : CommentKind → String
  | line => "LineComment"
  | block => "BlockComment"

namespace Comment

/-- A comment under the given type. -/
def toJsonAs (typeName : String) (p : Presentation) (c : Comment) : Json :=
  .object ([("type", .string typeName), ("value", .string c.text)] ++ p.fields c.placement)

/-- A comment. -/
def toJson (p : Presentation) (c : Comment) : Json := c.toJsonAs c.kind.typeName p

/-- A comment among tokens. -/
def tokenJson (p : Presentation) (c : Comment) : Json := c.toJsonAs c.kind.tokenTypeName p

/-- A comment that belongs to a node. Its offsets are always written. -/
def attachedJson (p : Presentation) (c : Comment) : Json := c.toJson { p with range := true }

end Comment

/-- A token. -/
def TokenEntry.toJson (p : Presentation) (t : TokenEntry) : Json :=
  .object ([("type", .string t.token.lexeme.typeName), ("value", .string t.token.raw)] ++
    t.token.regex?.toList.map (fun literal => ("regex", literal.toJson)) ++
    p.fields t.placement)

/-- A token or comment of a tokenizer. -/
def TokenItem.toJson (p : Presentation) : TokenItem → Json
  | token entry => entry.toJson p
  | comment c => c.tokenJson p

namespace SyntaxError

/-- An error among the errors of a result. -/
def toJson (e : SyntaxError) : Json :=
  .object [("index", .nat e.index), ("lineNumber", .nat e.line), ("column", .nat e.column),
    ("description", .string e.description)]

end SyntaxError

/-- The result of tokenizing. -/
def TokenStream.toJson (p : Presentation) (s : TokenStream) : Json :=
  .object (("tokens", .array (s.items.map (·.toJson p))) ::
    s.errors.toList.map fun errors => ("errors", .array (errors.map (·.toJson))))

namespace Kind.Field

/-- What a field holds, where every node has been written already. -/
def toJson : Field Json → Json
  | value json => json
  | node json => json
  | optional json => json.getD .null
  | list nodes => .array nodes
  | sparse nodes => .array (nodes.map (·.getD .null))

end Kind.Field

namespace NodeInfo

/-- Comments of a node under a key, if there are any. -/
def commentField (p : Presentation) (key : String) (comments : List Comment) :
    List (String × Json) :=
  if comments.isEmpty then [] else [(key, .array (comments.map (·.attachedJson p)))]

/-- The comments of a node. -/
def commentFields (p : Presentation) (info : NodeInfo) : List (String × Json) :=
  commentField p "leadingComments" info.leading ++ commentField p "trailingComments" info.trailing ++
    commentField p "innerComments" info.inner

end NodeInfo

namespace Node

/-- The members under which one node is written, where the nodes below have been written already. -/
def members (p : Presentation) (info : NodeInfo) (kind : Kind Json) : List (String × Json) :=
  ("type", .string kind.typeName) :: kind.fields.map (fun f => (f.1, f.2.toJson)) ++
    p.fields info.placement ++ info.commentFields p

/-- A tree. -/
def toJson (p : Presentation) (n : Node) : Json :=
  n.fold fun info kind => .object (members p info kind)

end Node

end EcmaTree
