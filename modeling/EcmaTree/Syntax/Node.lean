import EcmaTree.Comment.Basic
import EcmaTree.Syntax.Kind

/-!
# Syntax trees

A node is a `Kind` over nodes, with what is known about the node itself: its identity in the parse, where
it stands, and the comments that belong to it. Recursion over a tree goes down to the children that
`Kind.children` lists; `Node.fold` gives every node a value from the values of its children.
-/

namespace EcmaTree

/-- What is known of a node besides what it says. -/
structure NodeInfo where
  /-- The ordinal at which the node was finished in its parse, counted from one; zero if it never was. -/
  id : Nat
  /-- Where the node stands, if it was finished. -/
  extent : Option Extent
  /-- What is kept of that for the result. -/
  placement : Placement := {}
  leading : List Comment := []
  trailing : List Comment := []
  inner : List Comment := []
  deriving DecidableEq, Inhabited

/-- A syntax tree (`Node`). -/
inductive Node where
  | mk (info : NodeInfo) (kind : Kind Node)

instance : Inhabited Node := ⟨.mk default .emptyStatement⟩

namespace Node

/-- What is known of the node besides what it says. -/
def info : Node → NodeInfo
  | mk info _ => info

/-- What the node says. -/
def kind : Node → Kind Node
  | mk _ kind => kind

/-- The same node, saying something else (`with_kind`). -/
def withKind (n : Node) (kind : Kind Node) : Node := mk n.info kind

/-- The nodes below, in the order of the walk. -/
def children (n : Node) : List Node := n.kind.children

/-- The bytes that the node covers; a node that was never finished covers none. -/
def span (n : Node) : Span := (n.info.extent.map Extent.span).getD ⟨0, 0⟩

/-- The name of an identifier (`identifier_name`). -/
def identifierName? (n : Node) : Option String :=
  match n.kind with
  | .identifier name => some name
  | _ => none

/-- Is the node an identifier (`is_identifier`)? -/
def isIdentifier (n : Node) : Bool := n.identifierName?.isSome

/-! ## Recursion over a tree -/

theorem sizeOf_present {x : Node} :
    {xs : List (Option Node)} → x ∈ Kind.present xs → sizeOf x < sizeOf xs
  | [], h => by simp [Kind.present] at h
  | none :: xs, h => by
    have : x ∈ Kind.present xs := by simpa [Kind.present] using h
    have := sizeOf_present this
    simp; omega
  | some y :: xs, h => by
    simp only [Kind.present, List.filterMap_cons, id_eq, List.mem_cons] at h
    rcases h with rfl | h
    · simp; omega
    · have := sizeOf_present h
      simp; omega

theorem sizeOf_option {x : Node} : {o : Option Node} → x ∈ o.toList → sizeOf x < sizeOf o
  | none, h => by simp at h
  | some y, h => by
    simp only [Option.toList_some, List.mem_singleton] at h
    subst h; simp

theorem sizeOf_list {x : Node} {xs : List Node} (h : x ∈ xs) : sizeOf x < sizeOf xs :=
  List.sizeOf_lt_of_mem h

theorem sizeOf_lt_of_mem_kind_children {x : Node} {k : Kind Node} (h : x ∈ k.children) :
    sizeOf x < sizeOf k := by
  cases k <;> delta Kind.children at h <;>
    simp only [List.mem_append, List.mem_cons, List.not_mem_nil, or_false] at h <;>
    grind [→ sizeOf_present, → sizeOf_option, → sizeOf_list]

theorem sizeOf_lt_of_mem_children {x n : Node} (h : x ∈ n.children) : sizeOf x < sizeOf n := by
  cases n with
  | mk info kind =>
    have := sizeOf_lt_of_mem_kind_children (k := kind) h
    simp only [mk.sizeOf_spec]; omega

/-- Give every node a value, from what is known of it and from the values of its children. -/
def fold {β : Type} (f : NodeInfo → Kind β → β) : Node → β
  | mk info kind => f info (Id.run (kind.traverse (m := Id) fun child _ => fold f child))
termination_by n => sizeOf n
decreasing_by
  next h =>
    have := sizeOf_lt_of_mem_kind_children h
    simp only [mk.sizeOf_spec]; omega

/-- The tree with something else known of its nodes. -/
def mapInfo (g : NodeInfo → NodeInfo) (n : Node) : Node := n.fold fun info kind => .mk (g info) kind

end Node

end EcmaTree

/-!
## Events of a parse

A parse can be followed while it goes on: every node that is finished and every comment that is passed is an
event. A node comes after all nodes below it, and with the kind that it has at that moment; nodes that end up
in no tree are among them.
-/

namespace EcmaTree

/-- What is seen of a parse while it goes on. -/
inductive ParseEvent where
  /-- A node is finished. -/
  | node (node : Node) (extent : Extent)
  /-- A comment is passed. -/
  | comment (comment : Comment)
  deriving Inhabited

/-- The comment that an event is about. -/
def ParseEvent.comment? : ParseEvent → Option Comment
  | comment c => some c
  | node .. => none

/-- The comments among events. -/
def ParseEvent.comments (events : List ParseEvent) : List Comment := events.filterMap comment?

end EcmaTree
