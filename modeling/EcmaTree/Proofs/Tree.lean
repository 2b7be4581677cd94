import EcmaTree.Comment.Attachment
import EcmaTree.Syntax.Pattern
import EcmaTree.Syntax.Walk

/-!
# Trees that say the same again

Expressions become patterns, and comments are written into a finished tree. Both leave every node where it stands and
every leaf as it is, and neither makes parameters that wait for their arrow out of anything else: the new tree is a
recast of the old one.
-/

namespace EcmaTree

/-- What a leaf says in the words of the source. -/
inductive Leaf where
  | literal (raw : String)
  /-- A chunk of a template without its delimiters. -/
  | chunk (raw : String) (isTail : Bool)
  /-- What stands between tags, as a value and as it is written. -/
  | text (value raw : String)
  /-- A name in a tag. -/
  | tagName (name : String)
  | word (name : String)
  deriving DecidableEq

namespace Kind

variable {α β : Type}

/-- What the kind says if it is that of a leaf. A `yield` without an argument may turn out to be a name. -/
def leaf? : Kind α → Option Leaf
  | .literal _ raw => some (.literal raw)
  | .templateElement raw _ isTail => some (.chunk raw isTail)
  | .jsxText value raw => some (.text value raw)
  | .jsxIdentifier name => some (.tagName name)
  | .identifier name => some (.word name)
  | .yield none _ => some (.word "yield")
  | _ => none

/-- Parameters that wait for their arrow: how many there are, and whether the function is asynchronous. -/
def waiting? : Kind α → Option (Nat × Bool)
  | .arrowParameters params async => some (params.length, async)
  | _ => none

/-- Is the kind that of parameters that wait for their arrow? -/
def isPlaceholder (k : Kind α) : Bool := k.waiting?.isSome

/-- Is the kind neither that of a leaf nor that of parameters that wait for their arrow? -/
def isCompound (k : Kind α) : Bool := !k.isPlaceholder && k.leaf?.isNone

theorem isPlaceholder_of_isCompound {k : Kind α} (h : k.isCompound = true) : k.isPlaceholder = false := by
  simp_all [isCompound]

theorem leaf?_of_isCompound {k : Kind α} (h : k.isCompound = true) : k.leaf? = none := by
  simp_all [isCompound]

/-- A leaf waits for nothing and has no children. -/
theorem plain_of_leaf? {k : Kind α} {leaf : Leaf} (h : k.leaf? = some leaf) :
    k.isPlaceholder = false ∧ k.children = [] := by
  cases k with
  | literal | templateElement | jsxText | jsxIdentifier | identifier => exact ⟨rfl, rfl⟩
  | yield argument delegate =>
    cases argument
    · exact ⟨rfl, rfl⟩
    · cases h
  | _ => cases h

/-- Is the kind that of an empty statement? -/
def isEmptyStatement : Kind α → Bool
  | .emptyStatement => true
  | _ => false

/-! ## Replacing every child -/

section
variable (f : α → β)

theorem traverseOption_eq (x : Option α) : traverseOption (m := Id) x (fun a _ => pure (f a)) = pure (x.map f) := by
  cases x <;> rfl

theorem traverseList_eq (xs : List α) : traverseList (m := Id) xs (fun a _ => pure (f a)) = pure (xs.map f) := by
  induction xs with
  | nil => rfl
  | cons x xs ih => rw [traverseList, ih]; rfl

theorem traverseSparse_eq (xs : List (Option α)) :
    traverseSparse (m := Id) xs (fun a _ => pure (f a)) = pure (xs.map (Option.map f)) := by
  induction xs with
  | nil => rfl
  | cons x xs ih => cases x <;> rw [traverseSparse, ih] <;> rfl

theorem present_map (xs : List (Option α)) : present (xs.map (Option.map f)) = (present xs).map f := by
  induction xs with
  | nil => rfl
  | cons x xs ih => cases x <;> simp_all [present]

/-- The same kind over other children. -/
def map (k : Kind α) : Kind β := Id.run (k.traverse (m := Id) fun a _ => pure (f a))

/-- Every child is replaced, and nothing else. -/
theorem map_spec (k : Kind α) : (k.map f).children = k.children.map f ∧ (k.map f).waiting? = k.waiting? := by
  cases k <;>
    simp [map, traverse, traverseOption_eq, traverseList_eq, traverseSparse_eq, children, waiting?, present_map,
      Option.toList_map]

theorem isEmptyStatement_map (k : Kind α) : (k.map f).isEmptyStatement = k.isEmptyStatement := by
  cases k <;> rfl

theorem leaf?_map (k : Kind α) : (k.map f).leaf? = k.leaf? := by
  cases k with
  | yield argument delegate => cases argument <;> rfl
  | _ => rfl

end

theorem isEmptyStatement_iff {k : Kind α} : k.isEmptyStatement = true ↔ k = .emptyStatement := by
  cases k <;> simp [isEmptyStatement]

end Kind

namespace Node

/-! ## All nodes of a tree -/

/-- Every node of the tree has the property. -/
def All (P : Node → Prop) (n : Node) : Prop := ∀ entry ∈ n.walk, P entry.2

variable {P Q : Node → Prop} {n c : Node}

theorem walkFrom_all (depth : Nat) (n : Node) : (∀ entry ∈ n.walkFrom depth, P entry.2) ↔ n.All P := by
  rw [All, walk, walkFrom_eq, walkFrom_eq]
  simp only [List.forall_mem_cons, List.forall_mem_flatMap]
  refine and_congr .rfl (forall₂_congr fun c hc => ?_)
  exact (walkFrom_all (depth + 1) c).trans (walkFrom_all 1 c).symm
termination_by sizeOf n
decreasing_by
  all_goals exact sizeOf_lt_of_mem_children hc

theorem all_iff : n.All P ↔ P n ∧ ∀ c ∈ n.children, c.All P := by
  rw [All, walk, walkFrom_eq, List.forall_mem_cons, List.forall_mem_flatMap]
  exact and_congr .rfl (forall₂_congr fun c _ => walkFrom_all 1 c)

theorem All.root (h : n.All P) : P n := (all_iff.1 h).1

theorem All.child (h : n.All P) (hc : c ∈ n.children) : c.All P := (all_iff.1 h).2 c hc

/-! ## Recasts -/

/-- The second node stands where the first one does, waits for an arrow as the first one does, is an empty statement
if the first one is, and says the same as a leaf. Its children are recasts of children of the first one. -/
def Recast (n m : Node) : Prop :=
  (m.info.extent = n.info.extent ∧ m.kind.waiting? = n.kind.waiting? ∧
    m.kind.isEmptyStatement = n.kind.isEmptyStatement ∧ m.kind.leaf? = n.kind.leaf?) ∧
    ∀ d, d ∈ m.children → ∃ c, c ∈ n.children ∧ Recast c d
termination_by sizeOf m
decreasing_by
  exact sizeOf_lt_of_mem_children ‹_›

namespace Recast

variable {m : Node}

theorem iff : Recast n m ↔ (m.info.extent = n.info.extent ∧ m.kind.waiting? = n.kind.waiting? ∧
    m.kind.isEmptyStatement = n.kind.isEmptyStatement ∧ m.kind.leaf? = n.kind.leaf?) ∧
    ∀ d ∈ m.children, ∃ c, c ∈ n.children ∧ Recast c d := by
  rw [Recast]

theorem extent (h : Recast n m) : m.info.extent = n.info.extent := (iff.1 h).1.1

theorem waiting (h : Recast n m) : m.kind.waiting? = n.kind.waiting? := (iff.1 h).1.2.1

theorem isEmptyStatement (h : Recast n m) : m.kind.isEmptyStatement = n.kind.isEmptyStatement := (iff.1 h).1.2.2.1

theorem leaf? (h : Recast n m) : m.kind.leaf? = n.kind.leaf? := (iff.1 h).1.2.2.2

theorem isPlaceholder (h : Recast n m) : m.kind.isPlaceholder = n.kind.isPlaceholder := by
  rw [Kind.isPlaceholder, h.waiting, Kind.isPlaceholder]

theorem child {d : Node} (h : Recast n m) (hd : d ∈ m.children) : ∃ c, c ∈ n.children ∧ Recast c d := (iff.1 h).2 d hd

theorem refl (n : Node) : Recast n n := iff.2 ⟨⟨rfl, rfl, rfl, rfl⟩, fun c hc => ⟨c, hc, .refl c⟩⟩
termination_by sizeOf n
decreasing_by
  exact sizeOf_lt_of_mem_children hc

/-- A property that every node hands on to its recasts is handed on by whole trees. -/
theorem all {n m : Node} (h : Recast n m) (hP : ∀ {n m}, Recast n m → P n → P m) (hn : n.All P) : m.All P := by
  refine all_iff.2 ⟨hP h hn.root, fun d hd => ?_⟩
  obtain ⟨c, hc, hcd⟩ := h.child hd
  exact hcd.all hP (hn.child hc)
termination_by sizeOf m
decreasing_by
  exact sizeOf_lt_of_mem_children hd

/-- Only the children of a node that waits for nothing are recast. -/
theorem inside {info : NodeInfo} {k l : Kind Node} (hk : k.isPlaceholder = false) (hl : l.isPlaceholder = false)
    (he : l.isEmptyStatement = k.isEmptyStatement) (hleaf : l.leaf? = k.leaf?)
    (h : ∀ d ∈ l.children, ∃ c, c ∈ k.children ∧ Recast c d) : Recast (.mk info k) (.mk info l) := by
  refine iff.2 ⟨⟨rfl, ?_, he, hleaf⟩, h⟩
  simp only [Kind.isPlaceholder, Option.isSome_eq_false_iff, Option.isNone_iff_eq_none] at hk hl
  exact hl.trans hk.symm

end Recast

/-! ## Patterns -/

mutual

/-- A pattern stands where the expression does. -/
theorem toPattern_recast : ∀ n : Node, Recast n n.toPattern
  | .mk info kind => by
    rw [toPattern]
    exact kindToPattern_recast info kind

theorem kindToPattern_recast (info : NodeInfo) (kind : Kind Node) :
    Recast (.mk info kind) (.mk info (kindToPattern kind)) := by
  unfold kindToPattern
  split
  next argument => exact .inside rfl rfl rfl rfl (by simpa [Kind.children] using toPattern_recast argument)
  next elements => exact .inside rfl rfl rfl rfl (elementsToPatterns_recast elements)
  next members => exact .inside rfl rfl rfl rfl (membersToPatterns_recast members)
  next left right =>
    refine .inside rfl rfl rfl rfl (List.forall_mem_cons.2 ⟨⟨left, ?_, toPattern_recast left⟩, ?_⟩)
    · simp [Kind.children]
    · simpa [Kind.children] using .inr (.refl right)
  · exact .refl _

theorem elementsToPatterns_recast (elements : List (Option Node)) :
    ∀ d ∈ Kind.present (elementsToPatterns elements), ∃ c, c ∈ Kind.present elements ∧ Recast c d := by
  unfold elementsToPatterns
  split
  · nofun
  next elements => simpa [Kind.present] using elementsToPatterns_recast elements
  next element elements =>
    have first := toPattern_recast element
    have others := elementsToPatterns_recast elements
    simp only [Kind.present, List.filterMap_cons, id, List.mem_cons] at others ⊢
    rintro d (rfl | hd)
    · exact ⟨element, .inl rfl, first⟩
    · obtain ⟨c, hc, h⟩ := others d hd
      exact ⟨c, .inr hc, h⟩

theorem membersToPatterns_recast (members : List Node) :
    ∀ d ∈ membersToPatterns members, ∃ c, c ∈ members ∧ Recast c d := by
  have step {c d : Node} {cs ds : List Node} (h : Recast c d) (hs : ∀ e ∈ ds, ∃ b, b ∈ cs ∧ Recast b e) :
      ∀ e ∈ d :: ds, ∃ b, b ∈ c :: cs ∧ Recast b e := by
    refine List.forall_mem_cons.2 ⟨⟨c, by simp, h⟩, fun e he => ?_⟩
    obtain ⟨b, hb, h⟩ := hs e he
    exact ⟨b, by simp [hb], h⟩
  unfold membersToPatterns
  split
  · nofun
  next info argument members =>
    refine step (.inside rfl rfl rfl rfl ?_) (membersToPatterns_recast members)
    simpa [Kind.children] using toPattern_recast argument
  next info kind key value computed method shorthand members =>
    refine step (.inside rfl rfl rfl rfl (List.forall_mem_cons.2 ⟨⟨key, ?_, .refl key⟩, ?_⟩))
      (membersToPatterns_recast members)
    · simp [Kind.children]
    · simpa [Kind.children] using .inr (toPattern_recast value)
  next member members _ _ => exact step (.refl member) (membersToPatterns_recast members)

end

/-- A default value `yield` that becomes the name stands where it stood. -/
theorem yield_recast {n left right : Node} {delegate : Bool} (hn : n.kind = .assignmentPattern left right)
    (hr : right.kind = .yield none delegate) :
    Recast n (n.withKind (.assignmentPattern left (right.withKind (.identifier "yield")))) := by
  obtain ⟨info, kind⟩ := n
  obtain ⟨info', kind'⟩ := right
  obtain rfl : kind = _ := hn
  obtain rfl : kind' = _ := hr
  refine .inside rfl rfl rfl rfl (List.forall_mem_cons.2 ⟨⟨left, by simp [Kind.children], .refl left⟩, ?_⟩)
  simpa [Kind.children] using .inr (.inside rfl rfl rfl rfl nofun)

end Node

/-! ## What is known of nodes -/

namespace NodeInfo

/-- Something else is known of nodes, but neither who they are nor where they stand. -/
structure Marks (g : NodeInfo → NodeInfo) : Prop where
  id (info : NodeInfo) : (g info).id = info.id
  extent (info : NodeInfo) : (g info).extent = info.extent

end NodeInfo

namespace Node

variable {g : NodeInfo → NodeInfo}

theorem mapInfo_mk (g : NodeInfo → NodeInfo) (info : NodeInfo) (kind : Kind Node) :
    (mk info kind).mapInfo g = .mk (g info) (kind.map (mapInfo g)) := by
  rw [mapInfo, fold]
  rfl

/-- The shape of a tree stays, whatever else is known of its nodes. -/
theorem mapInfo_recast (hg : NodeInfo.Marks g) (n : Node) : n.Recast (n.mapInfo g) := by
  obtain ⟨info, kind⟩ := n
  obtain ⟨children, waiting⟩ := kind.map_spec (mapInfo g)
  rw [mapInfo_mk]
  refine Recast.iff.2 ⟨⟨hg.extent info, waiting, kind.isEmptyStatement_map _, kind.leaf?_map _⟩, fun d hd => ?_⟩
  rw [Node.children, Node.kind, children] at hd
  obtain ⟨c, hc, rfl⟩ := List.mem_map.1 hd
  exact ⟨c, hc, mapInfo_recast hg c⟩
termination_by sizeOf n
decreasing_by
  exact sizeOf_lt_of_mem_children (n := .mk info kind) hc

end Node

end EcmaTree
