import EcmaTree.Proofs.Attachment.Idle
import EcmaTree.Proofs.Course.Program
import EcmaTree.Proofs.Recording.Found
import Mathlib.Algebra.Group.Nat.Defs
import Mathlib.Data.List.Pairwise

/-!
# Comments are attached once

Claims are kept by identity, and no two of them have a comment in common. The only identity that a finished tree holds
twice is that of the name of a specifier without `as`, and that name claims nothing in the end. So no comment is
written into the tree twice.
-/

namespace EcmaTree

/-! ## The nodes of a tree and their identities -/

namespace Node

variable {n m : Node} {id : Nat} {events : List (Node × Extent)}

theorem all_reported {n : Node} (h : n.outline.Reported events) : n.All fun m => m.outline.Reported events :=
  all_iff.2 ⟨h, fun c hc => all_reported (h.child hc)⟩
termination_by sizeOf n
decreasing_by
  exact sizeOf_lt_of_mem_children hc

/-- A node of a tree is one of the events by its identity, unless it waits for an arrow and has no identity. -/
theorem origin (h : n.outline.Reported events) : n.kind.isPlaceholder = true ∧ n.info.id = 0 ∨
    n.kind.isPlaceholder = false ∧ ∃ k source e, n.info.id = k + 1 ∧ events[k]? = some (source, e) ∧
      n.info.extent = some e ∧ source.outline = n.outline := by
  obtain ⟨info, kind⟩ := n
  generalize ho : (mk info kind).outline = o at h ⊢
  rw [outline_mk] at ho
  cases h with
  | finished hform hevent hsource =>
    injection ho with hid hextent hkind
    refine .inr ⟨?_, _, _, _, hid, hevent, hextent, hsource⟩
    exact Bool.eq_false_iff.2 fun hwaits => hform (hkind ▸ outlineForm_eq_waiting.2 hwaits)
  | waiting =>
    injection ho with hid _ hform
    exact .inl ⟨outlineForm_eq_waiting.1 hform, hid⟩

end Node

/-! ## Comments in a tree -/

/-- The comments come in the order of the source, and each of them takes a byte at least. -/
structure InOrder (cs : List Comment) : Prop where
  taken : ∀ c ∈ cs, c.start < c.stop
  ordered : cs.Pairwise fun c d => c.stop ≤ d.start

namespace InOrder

variable {cs ds : List Comment}

theorem sublist (h : InOrder cs) (hs : ds.Sublist cs) : InOrder ds :=
  ⟨fun c hc => h.taken c (hs.subset hc), h.ordered.sublist hs⟩

theorem starts (h : InOrder cs) : cs.Pairwise fun c d => c.start ≤ d.start :=
  h.ordered.imp_of_mem fun hc _ hle => Nat.le_trans (Nat.le_of_lt (h.taken _ hc)) hle

theorem nodup (h : InOrder cs) : cs.Nodup := h.ordered.imp_of_mem fun {c d} hc _ hle he => by
  have := h.taken c hc
  rw [he] at this hle
  omega

/-- Copies that stand in the same places come in the same order. -/
theorem map {f : Comment → Comment} (hf : ∀ c, (f c).extent = c.extent) (h : InOrder cs) : InOrder (cs.map f) := by
  have start (c : Comment) : (f c).start = c.start := by rw [Comment.start, hf, Comment.start]
  have stop (c : Comment) : (f c).stop = c.stop := by rw [Comment.stop, hf, Comment.stop]
  refine ⟨List.forall_mem_map.2 fun c hc => ?_, List.pairwise_map.2 (h.ordered.imp fun {c d} hle => ?_)⟩
  · rw [start, stop]
    exact h.taken c hc
  · rwa [start, stop]

end InOrder

namespace Attachment

variable {a : Attachment} {held : Holder → List Comment} {comments : List Comment}

end Attachment

namespace ParseOptions

variable {o : ParseOptions}

/-- An attached comment has its range. -/
theorem attached_range (o : ParseOptions) (c : Comment) : (o.attached c).placement.range = some c.span := rfl

/-- Every node of the tree has what is claimed for its identity, as it is attached. -/
theorem given_claims (ho : o.attachComment = true) (claims : Attachment) (root : Node) :
    (root.mapInfo (o.given claims)).All fun n =>
      n.info.leading = (claims.leadingOf.of n.info.id).map o.attached ∧
      n.info.trailing = (claims.trailingOf.of n.info.id).map o.attached ∧
      n.info.inner = (claims.innerOf.of n.info.id).map o.attached := by
  intro entry hentry
  rw [Node.walk_mapInfo] at hentry
  obtain ⟨⟨_, n⟩, -, rfl⟩ := List.mem_map.1 hentry
  simp only [Node.info_mapInfo, given, if_pos ho]
  exact ⟨rfl, rfl, rfl⟩

end ParseOptions

/-- The comments in one of the lists of all nodes, in the order of the nodes. -/
def Program.claimed (p : Program) (list : NodeInfo → List Comment) : List Comment :=
  p.root.walk.flatMap fun entry => list entry.2.info

/-- What a parse has reported is in the order of the source. -/
theorem Tokens.source_ordered {text : String} {dialect : Dialect} {root : Node} {s : ParseState}
    (h : Parse.source text dialect = .ok root s) : InOrder (reported s) := by
  obtain ⟨_, -, -, partitions⟩ := source_covers h
  exact ⟨fun c hc => (partitions.comments_bounded c hc).1, partitions.comments_ordered⟩

/-- In a source that is not too long, all ranges of comments are kept as they are. -/
theorem Tokens.source_unclipped {text : String} {dialect : Dialect} {root : Node} {s : ParseState}
    (hfits : text.utf8ByteSize < 2 ^ 32) (h : Parse.source text dialect = .ok root s) :
      Attachment.Unclipped (reported s) := by
  obtain ⟨_, -, -, partitions⟩ := source_covers h
  intro c hc
  obtain ⟨taken, bounded⟩ := partitions.comments_bounded c hc
  exact Extent.span_eq (Nat.lt_trans taken (Nat.lt_of_le_of_lt bounded hfits)) (Nat.lt_of_le_of_lt bounded hfits)

/-- A tree with its comments is made of the nodes of the events, and their claims are written into it. -/
theorem parse_attached {source : String} {o : ParseOptions} {p : Program} (ho : o.attachComment = true)
    (hp : parse source o = .ok p) :
    ∃ root s, Parse.source source o.dialect = .ok root s ∧
      p.root = root.mapInfo (o.given (.ofEvents s.record.events.toList)) ∧
      ParseEvent.comments (parseWithEvents source o).1 = (Tokens.reported s).map o.placed ∧
      Accounts (.initial source o.dialect) [p.root] s := by
  obtain ⟨root, s, hs, rfl⟩ := parse_eq_ok.1 hp
  have keeps : (o.record true).recording.comments = true := by
    simp [ParseOptions.record, ParseOptions.recording, ParseOptions.collectsComments, ho]
  refine ⟨root, s, hs, rfl, ?_, ?_⟩
  · rw [parseWithEvents, parseObserved_eq, hs]
    exact (o.record true).comments_told s.record.events keeps
  · exact (source_accounts hs).alike [root] [_] (by simp [Program.asked, Node.outline_mapInfo (o.given_marks _)])

end EcmaTree
