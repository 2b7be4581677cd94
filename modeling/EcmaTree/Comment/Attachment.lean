import EcmaTree.Syntax.Node
import Std.Data.HashMap

/-!
# Attaching comments to nodes

A comment belongs to the nodes beside it: it leads the one behind it and trails the one before it. Comments in
an empty block are inside it. Which node that is shows while the parse goes on: nodes are finished from the
inside out, so a comment is first claimed by an inner node and passes to the node around it, if that reaches
as far. The claims are kept by the identities of the nodes and written into the tree at the end.

Where a comment begins is known exactly as long as it waits to be claimed. Once it is claimed, all that is left of
its place is its range.
-/

namespace EcmaTree

/-- Comments by the identity of the node that claims them. -/
abbrev Claims := Std.HashMap Nat (List Comment)

/-- Claim comments for a node, if there are any. -/
def Claims.add (claims : Claims) (id : Nat) (comments : List Comment) : Claims :=
  if comments.isEmpty then claims else claims.insert id comments

/-- The comments that a node claims. -/
def Claims.of (claims : Claims) (id : Nat) : List Comment := claims.getD id []

/-- The claims on comments while a parse goes on (the fields of `CommentHandler`). -/
structure Attachment where
  /-- The finished nodes that may still hand on what they claim, the last one first, each with the offset at
  which it begins. -/
  open_ : List (Nat × Nat) := []
  /-- Comments that no node has claimed as leading yet. -/
  leading : List Comment := []
  /-- Comments behind the last finished node. -/
  trailing : List Comment := []
  leadingOf : Claims := {}
  trailingOf : Claims := {}
  innerOf : Claims := {}

namespace Attachment

/-- Is the node an empty block (`is_empty_block`)? -/
def isEmptyBlock (kind : Kind Node) : Bool :=
  match kind with
  | .block [] => true
  | _ => false

/-- Is the node a program that holds anything? -/
def isFullProgram (kind : Kind Node) : Bool :=
  match kind with
  | .program _ (_ :: _) => true
  | _ => false

/-- An empty block claims what begins before its end as inner comments (`insert_inner_comments`). -/
def claimInner (a : Attachment) (id : Nat) (kind : Kind Node) (extent : Extent) : Attachment :=
  if isEmptyBlock kind then
    let (inner, rest) := a.leading.partition fun c => decide (c.start ≤ extent.stop.offset)
    if inner.isEmpty then a
    else
      { a with
        leading := rest
        trailing := a.trailing.filter fun c => !inner.any (·.start == c.start)
        innerOf := a.innerOf.insert id inner }
  else a

/-- The comments that trail a node which ends at `stop`. If no comment has been passed since the last node
was finished, those of that node are handed on, provided that they lie behind this one too
(`find_trailing_comments`). -/
def claimTrailing (a : Attachment) (stop : Nat) : List Comment × Attachment :=
  if a.trailing.isEmpty then
    match a.open_ with
    | (last, _) :: _ =>
      let claimed := a.trailingOf.of last
      if claimed.head?.any fun c => decide (stop ≤ c.span.start) then
        (claimed, { a with trailingOf := a.trailingOf.erase last })
      else ([], a)
    | [] => ([], a)
  else (a.trailing.filter fun c => decide (stop ≤ c.start), { a with trailing := [] })

/-- Take the nodes off that begin at `start` or behind it. Gives back the last one taken, if there is one, and
the nodes that stay. -/
def takeFrom (start : Nat) (taken : Option Nat) : List (Nat × Nat) → Option Nat × List (Nat × Nat)
  | [] => (taken, [])
  | (id, begins) :: rest =>
    if begins < start then (taken, (id, begins) :: rest) else takeFrom start (some id) rest

/-- The comments that lead a node which begins at `start`. If it has nodes inside, the first of them hands on
what lies before this node too (`find_leading_comments`). -/
def claimLeading (a : Attachment) (start : Nat) : List Comment × Attachment :=
  let (inside, rest) := takeFrom start none a.open_
  let a := { a with open_ := rest }
  match inside with
  | some first =>
    let (taken, kept) := (a.leadingOf.of first).partition fun c => decide (c.span.stop ≤ start)
    (taken, { a with leadingOf := Claims.add (a.leadingOf.erase first) first kept })
  | none =>
    let (taken, rest) := a.leading.partition fun c => decide (c.start ≤ start)
    (taken, { a with leading := rest })

/-- A node is finished. A program that holds anything claims nothing (`visit_node`). -/
def node (a : Attachment) (id : Nat) (kind : Kind Node) (extent : Extent) : Attachment :=
  if isFullProgram kind then a
  else
    let (trailing, a) := (a.claimInner id kind extent).claimTrailing extent.stop.offset
    let (leading, a) := a.claimLeading extent.start.offset
    { a with
      leadingOf := a.leadingOf.add id leading
      trailingOf := a.trailingOf.add id trailing
      open_ := (id, extent.start.offset) :: a.open_ }

/-- A comment is passed (`visit_comment`). -/
def comment (a : Attachment) (c : Comment) : Attachment :=
  { a with leading := a.leading ++ [c], trailing := a.trailing ++ [c] }

/-- The claims after one more event. -/
def event (a : Attachment) : ParseEvent → Attachment
  | .node n extent => a.node n.info.id n.kind extent
  | .comment c => a.comment c

/-- The claims after all events of a parse. -/
def ofEvents (events : List ParseEvent) : Attachment := events.foldl event {}

/-- What is known of a node, with the comments that it claims (`attach`). -/
def inscribe (a : Attachment) (info : NodeInfo) : NodeInfo :=
  { info with
    leading := a.leadingOf.of info.id
    trailing := a.trailingOf.of info.id
    inner := a.innerOf.of info.id }

/-- Write the claims into a tree (`apply`). -/
def apply (a : Attachment) (tree : Node) : Node := tree.mapInfo a.inscribe

end Attachment

/-- Who gathers the comments of a parse, and attaches them if that is asked for. -/
structure CommentHandler where
  attach : Bool
  /-- The comments so far. -/
  comments : Array Comment := #[]
  claims : Attachment := {}

namespace CommentHandler

/-- A node is finished or a comment is passed (`visit_node`, `visit_comment`). -/
def event (h : CommentHandler) : ParseEvent → CommentHandler
  | .node n extent => if h.attach then { h with claims := h.claims.node n.info.id n.kind extent } else h
  | .comment c =>
    { h with
      comments := h.comments.push c
      claims := if h.attach then h.claims.comment c.ranged else h.claims }

/-- The tree with what has been attached to it (`finish`). -/
def finish (h : CommentHandler) (tree : Node) : Node := if h.attach then h.claims.apply tree else tree

end CommentHandler

end EcmaTree
