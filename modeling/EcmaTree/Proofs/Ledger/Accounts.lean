import EcmaTree.Grammar.Primary
import EcmaTree.Proofs.Outline
import EcmaTree.Proofs.Recording.Share

/-!
# Nodes are used once

Every node gets an identity of its own when it is finished. So the nodes that have been read between two states of a
parse have identities that were given between them, and as long as each of them is used once, no identity occurs twice
among them. `Accounts` says this of a list of nodes, and that each of them is made of nodes that the events of the
parse report.
-/

namespace EcmaTree

/-- The node that an event is about, and where it stands. -/
def ParseEvent.node? : ParseEvent → Option (Node × Extent)
  | node n e => some (n, e)
  | comment _ => none

/-- The nodes among events. -/
def ParseEvent.nodes (events : List ParseEvent) : List (Node × Extent) := events.filterMap node?

/-- Comments that are passed are no nodes. -/
theorem Record.pass_nodes (r : Record) (comments : List Comment) :
    ParseEvent.nodes (r.pass comments).events.toList = ParseEvent.nodes r.events.toList := by
  induction comments generalizing r with
  | nil => rw [pass_nil]
  | cons c cs ih =>
    rw [pass_cons]
    split
    · rw [ih, report]
      dsimp only
      split
      · simp [ParseEvent.nodes, ParseEvent.node?]
      · rfl
    · rfl

/-! ## Weighing nodes -/

/-- The weight of nodes. -/
def weigh (f : Node → Nat) : List Node → Nat
  | [] => 0
  | n :: ns => f n + weigh f ns

@[simp] theorem weigh_nil (f : Node → Nat) : weigh f [] = 0 := rfl

@[simp] theorem weigh_cons (f : Node → Nat) (n : Node) (ns : List Node) : weigh f (n :: ns) = f n + weigh f ns := rfl

@[simp] theorem weigh_append (f : Node → Nat) (ns ms : List Node) : weigh f (ns ++ ms) = weigh f ns + weigh f ms := by
  induction ns with
  | nil => simp
  | cons n ns ih => simp [ih, Nat.add_assoc]

@[simp] theorem weigh_reverse (f : Node → Nat) (ns : List Node) : weigh f ns.reverse = weigh f ns := by
  induction ns with
  | nil => rfl
  | cons n ns ih => simp [ih, Nat.add_comm]

@[simp] theorem weigh_present_reverse (f : Node → Nat) (ns : List (Option Node)) :
    weigh f (Kind.present ns.reverse) = weigh f (Kind.present ns) := by
  rw [Kind.present, List.filterMap_reverse, weigh_reverse, Kind.present]

theorem weigh_pos {f : Node → Nat} {ns : List Node} : 0 < weigh f ns ↔ ∃ n ∈ ns, 0 < f n := by
  induction ns with
  | nil => simp
  | cons n ns ih =>
    rw [weigh_cons, Nat.add_pos_iff_pos_or_pos, ih]
    simp

/-- Every node occurs in the first list at most as often as in the second one. -/
def Fewer (ns ms : List Node) : Prop := ∀ f, weigh f ns ≤ weigh f ms

theorem Fewer.subset {ns ms : List Node} (h : Fewer ns ms) {n : Node} (hn : n ∈ ns) : n ∈ ms := by
  classical
  have heavy : 0 < weigh (fun m => if m = n then 1 else 0) ns := weigh_pos.2 ⟨n, hn, by simp⟩
  obtain ⟨m, hm, hpos⟩ := weigh_pos.1 (Nat.lt_of_lt_of_le heavy (h _))
  by_cases he : m = n
  · exact he ▸ hm
  · simp [he] at hpos

/-- How often the identity occurs in the tree. -/
def Node.occurrences (id : Nat) (n : Node) : Nat := n.ids.count id

namespace Outline

theorem count_allIds (id : Nat) (ns : List Node) :
    (allIds (ns.map Node.outline)).count id = weigh (Node.occurrences id) ns := by
  induction ns with
  | nil => rfl
  | cons n ns ih => simp [allIds, ih, Node.occurrences, Node.ids]

theorem count_firstIds_le (id : Nat) (os : List Outline) : (firstIds os).count id ≤ (allIds os).count id := by
  cases os with
  | nil => exact Nat.le_refl _
  | cons o os => simp [firstIds, allIds]

end Outline

namespace Node

variable {id : Nat} {info : NodeInfo} {kind : Kind Node}

theorem occurrences_le : (mk info kind).occurrences id ≤ (if info.id = id then 1 else 0) + weigh
    (occurrences id) kind.children := by
  rw [occurrences, ids, outline_mk, ← Outline.count_allIds]
  have first := Outline.count_firstIds_le id (kind.children.map outline)
  cases (kind.map outline).outlineForm <;> simp [Outline.ids, List.count_cons] <;> omega

theorem weigh_children_le (h : (kind.map outline).outlineForm ≠ .shared) :
    weigh (occurrences id) kind.children ≤ (mk info kind).occurrences id := by
  rw [occurrences, ids, outline_mk, ← Outline.count_allIds]
  cases hform : (kind.map outline).outlineForm with
  | shared => exact absurd hform h
  | finished | waiting => simp [Outline.ids, List.count_cons]

end Node

/-- What is below a reported node is reported. -/
theorem Outline.Reported.child {events : List (Node × Extent)} {n c : Node} (h : n.outline.Reported events)
    (hc : c ∈ n.children) : c.outline.Reported events := by
  obtain ⟨info, kind⟩ := n
  rw [Node.outline_mk] at h
  generalize info.id = id, info.extent = extent, (kind.map Node.outline).outlineForm = form at h
  cases h with
  | finished _ _ _ below => exact (below _ (List.mem_map_of_mem hc)).mono (List.take_prefix _ _)
  | waiting below => exact below _ (List.mem_map_of_mem hc)

/-! ## Accounts -/

namespace ParseState

/-- The nodes that have been finished, in the order of finishing. -/
def nodes (s : ParseState) : List (Node × Extent) := ParseEvent.nodes s.record.events.toList

/-- Everything is recorded, and all nodes that have been finished are reported. -/
structure Counted (s : ParseState) : Prop where
  full : s.record.Full
  finished : s.finished = s.nodes.length

/-- No node has been finished in between. -/
structure Still (s t : ParseState) : Prop where
  full : s.record.Full → t.record.Full
  finished : t.finished = s.finished
  nodes : t.nodes = s.nodes

variable {s t u : ParseState}

/-- Nothing has been recorded in between. -/
theorem Still.of_record (hrecord : t.record = s.record) (hfinished : t.finished = s.finished) : s.Still t :=
  ⟨fun h => hrecord ▸ h, hfinished, by rw [ParseState.nodes, hrecord, ParseState.nodes]⟩

theorem Still.refl (s : ParseState) : s.Still s := .of_record rfl rfl

theorem Still.trans (h : s.Still t) (h' : t.Still u) : s.Still u :=
  ⟨fun hs => h'.full (h.full hs), h'.finished.trans h.finished, h'.nodes.trans h.nodes⟩

/-- Tokens that are listed are no nodes. -/
theorem Still.list (s : ParseState) (token : Token) (first last : Cursor) :
    s.Still { s with record := s.record.list token first last } :=
  ⟨fun h => h.list token first last, rfl, by rw [ParseState.nodes, Record.list_events, ParseState.nodes]⟩

theorem Still.listIf (s : ParseState) {c : Prop} [Decidable c] (token : Token) :
    s.Still { s with record := if c then s.listing token else s.record } := by
  split
  · exact .list s _ _ _
  · exact .refl s

theorem Still.listUnless (s : ParseState) {c : Prop} [Decidable c] (token : Token) :
    s.Still { s with record := if c then s.record else s.listing token } := by
  split
  · exact .refl s
  · exact .list s _ _ _

theorem Still.unlist (s : ParseState) : s.Still { s with record := s.record.unlist } :=
  ⟨fun h => h.unlist, rfl, by rw [ParseState.nodes, Record.unlist_events, ParseState.nodes]⟩

theorem Still.pass (s : ParseState) (comments : List Comment) : s.Still { s with record := s.record.pass comments } :=
  ⟨fun h => h.pass comments, rfl, Record.pass_nodes _ _⟩

end ParseState

/-- The nodes have been finished between the two states, each of them is used once, and events report them. -/
structure Accounts (base : ParseState) (ns : List Node) (s : ParseState) : Prop where
  counted : s.Counted
  since : base.nodes <+: s.nodes
  once (id : Nat) : 0 < id →
    weigh (Node.occurrences id) ns ≤ if base.nodes.length < id ∧ id ≤ s.nodes.length then 1 else 0
  reported {n : Node} : n ∈ ns → n.outline.Reported s.nodes

namespace Accounts

variable {r s t : ParseState} {ns ms : List Node} {n m : Node}

theorem start (h : s.Counted) : Accounts s [] s :=
  ⟨h, List.prefix_refl _, fun _ _ => Nat.zero_le _, nofun⟩

theorem still (h : Accounts r ns s) (ht : s.Still t) : Accounts r ns t := by
  obtain ⟨full, finished, nodes⟩ := ht
  refine ⟨⟨full h.counted.full, ?_⟩, nodes ▸ h.since, fun id hid => nodes ▸ h.once id hid,
    fun hn => nodes ▸ h.reported hn⟩
  rw [finished, nodes]
  exact h.counted.finished

theorem trans (h : Accounts r ns s) (h' : Accounts s ms t) : Accounts r (ms ++ ns) t where
  counted := h'.counted
  since := h.since.trans h'.since
  once id hid := by
    have first := h.once id hid
    have second := h'.once id hid
    have := h.since.length_le
    have := h'.since.length_le
    rw [weigh_append]
    grind
  reported hn := by
    rcases List.mem_append.1 hn with hn | hn
    · exact h'.reported hn
    · exact (h.reported hn).mono h'.since

theorem fewer (h : Accounts r ns s) (hm : Fewer ms ns) : Accounts r ms s :=
  ⟨h.counted, h.since, fun id hid => Nat.le_trans (hm _) (h.once id hid), fun hn => h.reported (hm.subset hn)⟩

/-- Other nodes of the same outlines. -/
theorem alike (ns ms : List Node) {ls : List Node} (h : Accounts r (ns ++ ls) s)
    (hm : ms.map Node.outline = ns.map Node.outline) : Accounts r (ms ++ ls) s where
  counted := h.counted
  since := h.since
  once id hid := by
    have := h.once id hid
    rw [weigh_append, ← Outline.count_allIds] at this ⊢
    rwa [hm]
  reported hn := by
    rcases List.mem_append.1 hn with hn | hn
    · obtain ⟨m, hmem, he⟩ := List.mem_map.1 (hm ▸ List.mem_map_of_mem hn)
      exact he ▸ h.reported (List.mem_append_left _ hmem)
    · exact h.reported (List.mem_append_right _ hn)

/-- The nodes below a node, in place of the node. -/
theorem opened {ns : List Node} (h : Accounts r (n :: ns) s) (hn : (n.kind.map Node.outline).outlineForm ≠ .shared) :
    Accounts r (n.children ++ ns) s where
  counted := h.counted
  since := h.since
  once id hid := by
    have all := h.once id hid
    have below : weigh (Node.occurrences id) n.children ≤ n.occurrences id := by
      obtain ⟨info, kind⟩ := n
      exact Node.weigh_children_le hn
    rw [weigh_cons] at all
    rw [weigh_append]
    omega
  reported hc := by
    rcases List.mem_append.1 hc with hc | hc
    · exact (h.reported (List.mem_cons_self ..)).child hc
    · exact h.reported (List.mem_cons_of_mem _ hc)

/-- A node is finished over nodes that are used up. -/
theorem finishOver {info : NodeInfo} {e : Extent} {kind : Kind Node} (used : List Node) {rest : List Node}
    (h : Accounts r ns s) (hn : n = .mk info kind) (hid : info.id = s.finished + 1) (hextent : info.extent = some e)
    (hk : kind.isPlaceholder = false) (full : t.record.Full)
    (finished : t.finished = s.finished + 1) (nodes : t.nodes = s.nodes ++ [(n, e)])
    (hu : ∀ id, n.occurrences id ≤ (if s.finished + 1 = id then 1 else 0) + weigh (Node.occurrences id) used)
    (hc : ∀ c ∈ kind.children, c ∈ ns) (hr : Fewer (used ++ rest) ns) : Accounts r (n :: rest) t where
  counted := ⟨full, by rw [finished, nodes, h.counted.finished, List.length_append]; rfl⟩
  since := h.since.trans (nodes ▸ List.prefix_append _ _)
  once id hid := by
    have before := h.once id hid
    have used := hu id
    have kept := hr (Node.occurrences id)
    have := h.since.length_le
    rw [h.counted.finished] at used
    rw [weigh_append] at kept
    rw [weigh_cons, nodes, List.length_append, List.length_singleton]
    grind
  reported {m} hm := by
    rcases List.mem_cons.1 hm with rfl | hm
    · rw [hn, Node.outline_mk, hid, hextent]
      refine .finished (fun hw => ?_) (n := m) (e := e) ?_ (by rw [hn, Node.outline_mk, hid, hextent]) fun o ho => ?_
      · rw [Node.outlineForm_eq_waiting, hk] at hw
        cases hw
      · rw [nodes, h.counted.finished, List.getElem?_concat_length]
      · obtain ⟨c, hmem, rfl⟩ := List.mem_map.1 ho
        rw [nodes, h.counted.finished, List.take_left]
        exact h.reported (hc c hmem)
    · exact (h.reported (hr.subset (List.mem_append_right _ hm))).mono (nodes ▸ List.prefix_append _ _)

/-- Parameters that wait for their arrow. -/
theorem hold {params : List Node} (h : Accounts r (params ++ ns) s) (async : Bool) :
    Accounts r (Parse.placeholder params async :: ns) s where
  counted := h.counted
  since := h.since
  once id hid := by
    have all := h.once id hid
    have waiting : (Parse.placeholder params async).occurrences id = weigh (Node.occurrences id) params := by
      rw [Node.occurrences, Node.ids, Parse.placeholder, Node.outline_mk, ← Outline.count_allIds]
      exact List.count_cons_of_ne (Nat.ne_of_lt hid)
    rw [weigh_append] at all
    rwa [weigh_cons, waiting]
  reported {m} hm := by
    rcases List.mem_cons.1 hm with rfl | hm
    · rw [Parse.placeholder, Node.outline_mk]
      refine .waiting fun o ho => ?_
      obtain ⟨c, hmem, rfl⟩ := List.mem_map.1 ho
      exact h.reported (List.mem_append_left _ hmem)
    · exact h.reported (List.mem_append_right _ hm)

end Accounts

end EcmaTree
