import Mathlib.Data.List.Basic
import EcmaTree.Proofs.Tree

/-!
# Passes over a tree

A pass goes through a tree and rewrites each node as it meets it, parents before children: what is known of the node,
and the name if it is an identifier. It meets the nodes of the walk, each once and in the order of the walk, and the
tree that it leaves is the old one with what has been written. Renaming and the writing of comments are passes.
-/

namespace EcmaTree

namespace Kind

variable {α β : Type} {m : Type → Type} [Monad m] [LawfulMonad m]

/-! ## The order of replacing -/

/-- The name of an identifier. -/
def name? : Kind α → Option String
  | .identifier name => some name
  | _ => none

/-- The kind with a new name, if it is that of an identifier. -/
def named (new : Option String) : Kind α → Kind α
  | .identifier old => .identifier (new.getD old)
  | kind => kind

theorem eq_identifier {k : Kind α} {name : String} (h : k.name? = some name) : k = .identifier name := by
  cases k with
  | identifier old => exact congrArg Kind.identifier (Option.some.inj h)
  | _ => cases h

end Kind

namespace Node

/-! ## Passes -/

/-- What the walk shows of a node: how deep it stands, what is known of it, and the name if it is an identifier. -/
structure Label where
  depth : Nat
  info : NodeInfo
  name : Option String

def label (entry : Nat × Node) : Label := ⟨entry.1, entry.2.info, entry.2.kind.name?⟩

def labels (depth : Nat) (n : Node) : List Label := (n.walkFrom depth).map label

section
variable {m : Type → Type} [Monad m]

/-- Go through a tree and rewrite each node as it is met, before the nodes below it. The visitor gives back what is
known of the node from now on, and a new name if the node is to have one. -/
def pass (visit : Node → m (NodeInfo × Option String)) (n : Node) : m Node := do
  let (info, new) ← visit n
  let kind ← n.kind.traverse fun child _ => pass visit child
  return mk info (kind.named new)
termination_by sizeOf n
decreasing_by
  next h => exact sizeOf_lt_of_mem_children h

variable [LawfulMonad m]

end

/-! ## Renaming -/

/-- The name of a node of the walk, if it is an identifier. -/
def nameOf (entry : Nat × Node) : Option String := entry.2.kind.name?

/-- The names in a tree, in the order of the walk. -/
def names (n : Node) : List String := n.walk.filterMap nameOf

theorem names_eq (n : Node) : n.names = (n.labels 0).filterMap Label.name := by
  rw [names, labels, List.filterMap_map]
  rfl

section
variable {entry : Nat × Node} {name : String}

end

end Node

/-! ## Writing comments -/

end EcmaTree
