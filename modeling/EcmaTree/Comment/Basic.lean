import EcmaTree.Source.Span

/-!
# Comments

A comment has a text, which leaves out its delimiters, and an extent, which covers them.
-/

namespace EcmaTree

/-- How a comment is delimited (`CommentKind`). The forms of scripts that open with `<!--` and `-->` end with their
line, so they are line comments too. -/
inductive CommentKind where
  | line
  | block
  deriving DecidableEq, Inhabited

/-- A comment of the source (`Comment`). Where it stands is known while the source is read; the placement is what
is kept of that. -/
structure Comment where
  kind : CommentKind
  text : String
  extent : Extent
  placement : Placement := {}
  deriving DecidableEq, Inhabited

namespace Comment

/-- The offset at which a comment begins. -/
def start (c : Comment) : Nat := c.extent.start.offset

/-- The offset at which a comment ends. -/
def stop (c : Comment) : Nat := c.extent.stop.offset

/-- The bytes of a comment, as they are kept. -/
def span (c : Comment) : Span := c.extent.span

/-- The comment as it is attached: with its range, whatever else is kept of its place. -/
def ranged (c : Comment) : Comment := { c with placement.range := some c.span }

end Comment

end EcmaTree
