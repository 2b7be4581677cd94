import EcmaTree.Syntax.Node

/-!
# Walking a tree

The walk lists every node of a tree with its depth, parents before children and children in the order of
`Node.children`. Renaming numbers the identifiers in the order in which the walk meets them.
-/

namespace EcmaTree.Node

/-- The nodes of a tree and their depths, where the root has the given depth. -/
def walkFrom (depth : Nat) (n : Node) : List (Nat × Node) :=
  (depth, n) :: n.children.attach.flatMap fun ⟨child, _⟩ => walkFrom (depth + 1) child
termination_by sizeOf n
decreasing_by
  next h => exact sizeOf_lt_of_mem_children h

/-- The nodes of a tree and their depths. -/
def walk (n : Node) : List (Nat × Node) := walkFrom 0 n

theorem walkFrom_eq (depth : Nat) (n : Node) :
    walkFrom depth n = (depth, n) :: n.children.flatMap (walkFrom (depth + 1)) := by
  rw [walkFrom]
  simp [List.flatMap_subtype]

/-- What a node says after the next free number has been given to it, if it is an identifier. -/
def numberIdentifier (kind : Kind Node) : StateM Nat (Kind Node) := do
  match kind with
  | .identifier _ =>
    modify (· + 1)
    return .identifier ("v" ++ toString (← get))
  | _ => return kind

/-- Rename the identifiers of a tree by ascending numbers. The state is the last number given. -/
def renameFrom (n : Node) : StateM Nat Node := do
  let kind ← n.kind.traverse fun child _ => renameFrom child
  return n.withKind (← numberIdentifier kind)
termination_by sizeOf n
decreasing_by
  next h => exact sizeOf_lt_of_mem_children h

/-- Rename the identifiers of a tree to `v1`, `v2` and so on. An identifier has no children, so the order
of a node and of what is below it does not show. Gives back the number of identifiers too. -/
def rename (n : Node) : Node × Nat := (renameFrom n).run 0

end EcmaTree.Node
