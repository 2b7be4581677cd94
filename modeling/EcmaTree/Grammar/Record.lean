import EcmaTree.Comment.Attachment
import EcmaTree.Lexer.Token
import EcmaTree.Options
import EcmaTree.Source.Cursor

/-!
# What a parse records

Besides its tree a parse gives back tokens and comments, tells an observer what goes on, and keeps with every item
where it stands, each of that only if it is asked for. The `Record` is all that this needs: what is asked for, and
what there is of it so far. The grammar hands things over to it while it reads, and takes nothing from it but what
is kept with a node.
-/

namespace EcmaTree

/-- What a parse has recorded so far. -/
structure Record where
  recording : Recording
  /-- The tokens read so far. -/
  tokens : Array TokenEntry := #[]
  /-- What the observer has been told. -/
  events : Array ParseEvent := #[]
  handler : Option CommentHandler := none

namespace Record

/-- Everything is recorded, and nobody attaches comments. -/
def complete : Record := { recording := { tokens := true, comments := true, observed := true } }

/-- A token is listed that begins at `first` and ends at `last` (`convert_token`). -/
def list (r : Record) (t : Token) (first last : Cursor) : Record :=
  if r.recording.tokens then
    let placement := r.recording.presentation.unnamed.place t.range first.position last.position
    { r with tokens := r.tokens.push ⟨t, first.position, last.position, placement⟩ }
  else r

/-- The last token that was listed is forgotten. -/
def unlist (r : Record) : Record :=
  if r.recording.tokens then { r with tokens := r.tokens.pop } else r

/-- The observer and the handler of comments are told, as far as there are any. -/
def report (r : Record) (e : ParseEvent) : Record :=
  { r with
    events := if r.recording.observed then r.events.push e else r.events
    handler := r.handler.map (·.event e) }

/-- A comment with what is kept of its place. -/
def placed (r : Record) (c : Comment) : Comment :=
  { c with placement := r.recording.presentation.unnamed.placeOf c.extent }

/-- Comments are passed (`collect_comments`). -/
def pass (r : Record) (comments : List Comment) : Record :=
  if r.recording.comments then comments.foldl (fun r c => r.report (.comment (r.placed c))) r else r

end Record

end EcmaTree
