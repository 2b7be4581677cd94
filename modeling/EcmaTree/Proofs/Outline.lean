import EcmaTree.Proofs.Tree
import EcmaTree.Syntax.Node

/-!
# Outlines of trees

The outline of a tree says which nodes it is made of, and not what they say: the identity of every node, where it stands
and what is below it. Expressions that become patterns and comments that are written into a tree leave the outline as it
is. So whatever is true of the identities of the nodes when they are finished stays true up to the finished tree.
-/

namespace EcmaTree

/-- Whether the node of an outline was finished in its parse, and how its children count. -/
inductive Outline.Form where
  | finished
  /-- The node was never finished; its children wait for an arrow. -/
  | waiting
  /-- The node is a specifier without `as`: both its children are the one name. -/
  | shared
  deriving DecidableEq

/-- The nodes of a tree. -/
inductive Outline where
  | mk (id : Nat) (extent : Option Extent) (form : Outline.Form) (children : List Outline)

namespace Outline

/-- Where the node stands. -/
def extent : Outline → Option Extent
  | mk _ extent _ _ => extent

mutual

/-- The identities of the nodes of a tree, parents before children. The name of a specifier without `as` counts once. -/
def ids : Outline → List Nat
  | mk id _ .shared children => id :: firstIds children
  | mk id _ _ children => id :: allIds children

/-- The identities of the nodes of all trees. -/
def allIds : List Outline → List Nat
  | [] => []
  | o :: os => ids o ++ allIds os

/-- The identities of the nodes of the first tree. -/
def firstIds : List Outline → List Nat
  | [] => []
  | o :: _ => ids o

end

end Outline

/-- Do the children of a node of the kind count as other nodes do? -/
def Kind.outlineForm : Kind Outline → Outline.Form
  | .arrowParameters .. => .waiting
  | .importSpecifier localName imported => if localName.extent = imported.extent then .shared else .finished
  | .exportSpecifier localName exported => if localName.extent = exported.extent then .shared else .finished
  | _ => .finished

namespace Node

/-- The outline of a tree. -/
def outline : Node → Outline := fold fun info kind => .mk info.id info.extent kind.outlineForm kind.children

/-- The identities of the nodes of a tree, parents before children. The name of a specifier without `as` counts once. -/
def ids (n : Node) : List Nat := n.outline.ids

variable {info : NodeInfo} {kind : Kind Node} {n : Node}

theorem outline_mk (info : NodeInfo) (kind : Kind Node) : (mk info kind).outline =
    .mk info.id info.extent (kind.map outline).outlineForm (kind.children.map outline) := by
  rw [← (kind.map_spec outline).1, outline, fold]
  rfl

@[simp] theorem outline_extent (n : Node) : n.outline.extent = n.info.extent := by
  cases n
  rw [outline_mk]
  rfl

theorem outlineForm_eq_waiting : (kind.map outline).outlineForm = .waiting ↔ kind.isPlaceholder = true := by
  cases kind with
  | importSpecifier localName imported =>
    refine iff_of_false (fun h => ?_) (by simp [Kind.isPlaceholder, Kind.waiting?])
    change (if localName.outline.extent = imported.outline.extent then Outline.Form.shared else .finished) = _ at h
    split at h <;> cases h
  | exportSpecifier localName exported =>
    refine iff_of_false (fun h => ?_) (by simp [Kind.isPlaceholder, Kind.waiting?])
    change (if localName.outline.extent = exported.outline.extent then Outline.Form.shared else .finished) = _ at h
    split at h <;> cases h
  | arrowParameters => exact iff_of_true rfl rfl
  | _ => exact iff_of_false (fun h => by cases h) (fun h => by cases h)

/-- A node that is no specifier counts all its children. -/
theorem outline_of_finished (h : (kind.map outline).outlineForm = .finished) :
    (mk info kind).outline = .mk info.id info.extent .finished (kind.children.map outline) := by
  rw [outline_mk, h]

end Node

/-! ## Outlines and events -/

namespace Outline

/-- Every finished node of the tree is that of one of the events, as its identity says: it stands where that does,
over the same nodes, and those are nodes of events before. What waits to be finished has no identity. -/
inductive Reported : List (Node × Extent) → Outline → Prop
  | finished {events : List (Node × Extent)} {id : Nat} {n : Node} {e : Extent}
      {form : Form} {children : List Outline} :
      form ≠ .waiting → events[id]? = some (n, e) → n.outline = mk (id + 1) (some e) form children →
      (∀ c ∈ children, Reported (events.take id) c) →
      Reported events (mk (id + 1) (some e) form children)
  | waiting {events : List (Node × Extent)} {extent : Option Extent} {children : List Outline} :
      (∀ c ∈ children, Reported events c) → Reported events (mk 0 extent .waiting children)

theorem Reported.mono {events later : List (Node × Extent)} {o : Outline} (h : Reported events o)
    (hl : events <+: later) :
    Reported later o := by
  obtain ⟨rest, rfl⟩ := hl
  induction h generalizing rest with
  | @finished events id _ _ _ _ hform hevent ho hc =>
    obtain ⟨hid, -⟩ := List.getElem?_eq_some_iff.1 hevent
    refine .finished hform (by rw [List.getElem?_append_left hid, hevent]) ho fun c h => ?_
    rw [List.take_append_of_le_length (Nat.le_of_lt hid)]
    exact hc c h
  | waiting _ ih => exact .waiting fun c hc => ih c hc rest

end Outline

namespace Node

variable {info : NodeInfo} {kind : Kind Node} {n : Node}

/-! ## Saying the same again -/

mutual

/-- A pattern is made of the nodes of the expression. -/
theorem outline_toPattern : ∀ n : Node, n.toPattern.outline = n.outline
  | .mk info kind => by
    rw [toPattern]
    exact outline_kindToPattern info kind

theorem outline_kindToPattern (info : NodeInfo) (kind : Kind Node) :
    (mk info (kindToPattern kind)).outline = (mk info kind).outline := by
  unfold kindToPattern
  split
  next argument =>
    rw [outline_of_finished rfl, outline_of_finished rfl]
    simp [Kind.children, outline_toPattern argument]
  next elements =>
    rw [outline_of_finished rfl, outline_of_finished rfl]
    simp [Kind.children, outline_elementsToPatterns elements]
  next members =>
    rw [outline_of_finished rfl, outline_of_finished rfl]
    simp [Kind.children, outline_membersToPatterns members]
  next left right =>
    rw [outline_of_finished rfl, outline_of_finished rfl]
    simp [Kind.children, outline_toPattern left]
  · rfl

theorem outline_elementsToPatterns (elements : List (Option Node)) :
    (Kind.present (elementsToPatterns elements)).map outline = (Kind.present elements).map outline := by
  unfold elementsToPatterns
  split
  · rfl
  next elements => exact outline_elementsToPatterns elements
  next element elements =>
    change outline element.toPattern :: (Kind.present (elementsToPatterns elements)).map outline =
      outline element :: (Kind.present elements).map outline
    rw [outline_toPattern element, outline_elementsToPatterns elements]

theorem outline_membersToPatterns (members : List Node) :
    (membersToPatterns members).map outline = members.map outline := by
  unfold membersToPatterns
  split
  · rfl
  next info argument members =>
    rw [List.map_cons, List.map_cons, outline_membersToPatterns members, outline_of_finished rfl,
      outline_of_finished rfl]
    simp [Kind.children, outline_toPattern argument]
  next info kind key value computed method shorthand members =>
    rw [List.map_cons, List.map_cons, outline_membersToPatterns members, outline_of_finished rfl,
      outline_of_finished rfl]
    simp [Kind.children, outline_toPattern value]
  next member members _ _ => rw [List.map_cons, List.map_cons, outline_membersToPatterns members]

end

/-- A default value `yield` that becomes the name is the same node. -/
theorem outline_yield {left right : Node} {delegate : Bool} (hn : n.kind = .assignmentPattern left right)
    (hr : right.kind = .yield none delegate) :
    (n.withKind (.assignmentPattern left (right.withKind (.identifier "yield")))).outline = n.outline := by
  obtain ⟨info, kind⟩ := n
  obtain ⟨info', kind'⟩ := right
  obtain rfl : kind = _ := hn
  obtain rfl : kind' = _ := hr
  simp only [withKind, Node.info]
  rw [outline_of_finished rfl, outline_of_finished rfl]
  have name : (mk info' (.identifier "yield")).outline = (mk info' (.yield none delegate)).outline := by
    rw [outline_of_finished rfl, outline_of_finished rfl]
    rfl
  simp [Kind.children, name]

/-- What else is known of the nodes does not matter. -/
theorem outline_mapInfo {g : NodeInfo → NodeInfo} (hg : NodeInfo.Marks g) (n : Node) :
    (n.mapInfo g).outline = n.outline := by
  obtain ⟨info, kind⟩ := n
  have below : ∀ c ∈ kind.children, (c.mapInfo g).outline = c.outline := fun c hc => outline_mapInfo hg c
  have extents (c : Node) : (c.mapInfo g).outline.extent = c.outline.extent := by
    rw [outline_extent, outline_extent, (mapInfo_recast hg c).extent]
  have names (x y : Node) :
      (if (x.mapInfo g).outline.extent = (y.mapInfo g).outline.extent then Outline.Form.shared else .finished) =
        if x.outline.extent = y.outline.extent then .shared else .finished := by
    rw [extents, extents]
  have form : ((kind.map (mapInfo g)).map outline).outlineForm = (kind.map outline).outlineForm := by
    cases kind with
    | importSpecifier localName imported => exact names localName imported
    | exportSpecifier localName exported => exact names localName exported
    | _ => rfl
  rw [mapInfo_mk, outline_mk, outline_mk, form, (kind.map_spec (mapInfo g)).1, List.map_map, hg.id, hg.extent]
  exact congrArg _ (List.map_congr_left below)
termination_by sizeOf n
decreasing_by
  exact sizeOf_lt_of_mem_children (n := .mk info kind) hc

end Node

end EcmaTree
