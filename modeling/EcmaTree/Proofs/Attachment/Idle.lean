import EcmaTree.Proofs.Attachment.Apart
import EcmaTree.Proofs.Attachment.Events

/-!
# Nodes that claim nothing

A node claims nothing before its own event, and an event about another node leaves it with nothing, as long as it may
hand on nothing. The name of a specifier without `as` ends like that: its comments pass on to the specifier, which
stands where the name does. So it does no harm that the tree holds that name twice.
-/

namespace EcmaTree.Attachment

variable {a : Attachment} {id other start stop : Nat} {kind : Kind Node} {extent : Extent} {events : List ParseEvent}

/-- The node claims nothing, and hands on nothing. -/
structure Idle (a : Attachment) (id : Nat) : Prop where
  closed : ∀ n ∈ a.open_, n.1 ≠ id
  leading : a.leadingOf.of id = []
  trailing : a.trailingOf.of id = []
  inner : a.innerOf.of id = []

namespace Idle

theorem claimInner (h : a.Idle id) (hne : id ≠ other) (kind : Kind Node) (extent : Extent) :
    (a.claimInner other kind extent).Idle id := by
  rcases a.claimInner_cases other kind extent with same | ⟨-, _, claimed⟩
  · rwa [same]
  · rw [claimed]
    exact ⟨h.closed, h.leading, h.trailing, by rw [Claims.of_insert, if_neg hne, h.inner]⟩

theorem claimTrailing (h : a.Idle id) (stop : Nat) : (a.claimTrailing stop).2.Idle id := by
  rcases a.claimTrailing_cases stop with claimed | ⟨last, -, -, claimed⟩ | claimed <;> rw [claimed]
  · exact ⟨h.closed, h.leading, h.trailing, h.inner⟩
  · refine ⟨h.closed, h.leading, ?_, h.inner⟩
    rw [Claims.of_erase, h.trailing, ite_self]
  · exact ⟨h.closed, h.leading, h.trailing, h.inner⟩

theorem claimLeading (h : a.Idle id) (start : Nat) : (a.claimLeading start).2.Idle id := by
  obtain ⟨inside, rest, hopen, -, cases⟩ := a.claimLeading_cases start
  have closed {n : Nat × Nat} (hn : n ∈ rest) : n.1 ≠ id := h.closed n (hopen ▸ List.mem_append_right _ hn)
  rcases cases with ⟨first, hfirst, claimed⟩ | claimed <;> rw [claimed]
  · refine ⟨fun n hn => closed hn, ?_, h.trailing, h.inner⟩
    rw [Claims.of_add_erase, if_neg (Ne.symm (h.closed first (hopen ▸ List.mem_append_left _ hfirst))), h.leading]
  · exact ⟨fun n hn => closed hn, h.leading, h.trailing, h.inner⟩

/-- An event about another node. -/
theorem node (h : a.Idle id) (hne : id ≠ other) (kind : Kind Node) (extent : Extent) :
    (a.node other kind extent).Idle id := by
  by_cases hfull : isFullProgram kind = true
  · rwa [Attachment.node, if_pos hfull]
  · rw [node_of_not_full _ _ _ (by simpa using hfull)]
    obtain ⟨closed, leading, trailing, inner⟩ :=
      ((h.claimInner hne kind extent).claimTrailing extent.stop.offset).claimLeading extent.start.offset
    refine ⟨fun n hn => ?_, ?_, ?_, inner⟩
    · rcases List.mem_cons.1 hn with rfl | hn
      · exact Ne.symm hne
      · exact closed n hn
    · rw [Claims.of_add, if_neg fun h => hne h.1, leading]
    · rw [Claims.of_add, if_neg fun h => hne h.1, trailing]

theorem comment (h : a.Idle id) (c : Comment) : (a.comment c).Idle id := ⟨h.closed, h.leading, h.trailing, h.inner⟩

end Idle

/-- A node that no event is about claims nothing. -/
theorem ofEvents_idle (h : ∀ n e, (n, e) ∈ ParseEvent.nodes events → id ≠ n.info.id) : (ofEvents events).Idle id := by
  induction events using List.reverseRecOn with
  | nil => exact ⟨nofun, by simp, by simp, by simp⟩
  | append_singleton events event ih =>
    rw [ofEvents_concat]
    cases event with
    | comment c => exact Idle.comment (ih fun n e hn => h n e (by simpa using hn)) c
    | node m f =>
      exact Idle.node (ih fun n e hn => h n e (by simp [hn])) (h m f (by simp)) _ _

/-- Parameters that wait for an arrow have no identity, and claim nothing. -/
theorem ofEvents_idle_zero {jsx : Bool} (h : Orderly jsx events) : (ofEvents events).Idle 0 :=
  ofEvents_idle fun _ _ hn => Nat.ne_of_lt (h.id_of_mem hn).1

/-! ## Handing everything on -/

/-- The ranges of the comments are kept as they are. -/
def Unclipped (comments : List Comment) : Prop := ∀ c ∈ comments, c.span = ⟨c.start, c.stop⟩

theorem Unclipped.subset {comments claimed : List Comment} (h : Unclipped comments) (hs : claimed ⊆ comments) :
    Unclipped claimed := fun c hc => h c (hs hc)

/-- What trails a node begins behind its end, as far as the first comment tells. -/
theorem claimTrailing_head (a : Attachment) (stop : Nat) (hwhole : Unclipped a.trailing)
    (h : (a.claimTrailing stop).1 ≠ []) :
    (a.claimTrailing stop).1.head?.any (fun c => decide (stop ≤ c.span.start)) = true := by
  rcases a.claimTrailing_cases stop with claimed | ⟨last, -, hhead, claimed⟩ | claimed <;> rw [claimed] at h ⊢
  · dsimp only at h ⊢
    cases hc : a.trailing.filter fun c => decide (stop ≤ c.start) with
    | nil => exact absurd hc h
    | cons c rest =>
      have hmem : c ∈ a.trailing.filter fun c => decide (stop ≤ c.start) := hc ▸ List.mem_cons_self ..
      rw [List.head?_cons, Option.any_some, hwhole c (List.mem_of_mem_filter hmem)]
      exact (List.mem_filter.1 hmem).2
  · exact hhead
  · exact absurd rfl h

/-- What leads a node ends before it, or has waited and begins where it does at the latest. -/
theorem claimLeading_before (a : Attachment) (start : Nat) :
    ∀ c ∈ (a.claimLeading start).1, c.span.stop ≤ start ∨ c ∈ a.leading ∧ c.start ≤ start := by
  obtain ⟨_, _, -, -, ⟨first, -, claimed⟩ | claimed⟩ := a.claimLeading_cases start <;> rw [claimed]
  · exact fun c hc => .inl (by simpa using (List.mem_filter.1 hc).2)
  · exact fun c hc => .inr (by simpa using hc)

/-- No comment waits behind a node that is finished, for it has claimed those that trail it. -/
theorem claimTrailing_trailing (a : Attachment) (stop : Nat) : (a.claimTrailing stop).2.trailing = [] := by
  rcases a.claimTrailing_cases stop with claimed | ⟨_, -, -, claimed⟩ | claimed <;> rw [claimed]

/-- Of the nodes that stay open, the last one begins before the new one. -/
theorem claimLeading_open (a : Attachment) (start : Nat) : ∀ n ∈ (a.claimLeading start).2.open_.head?, n.2 < start := by
  obtain ⟨_, rest, -, hrest, ⟨_, -, claimed⟩ | claimed⟩ := a.claimLeading_cases start <;> rw [claimed] <;> exact hrest

/-- The node is the last one finished, and whatever it claims lies outside of where it stands. -/
structure Last (a : Attachment) (id : Nat) (extent : Extent) : Prop where
  trailing_nil : a.trailing = []
  opened : ∃ rest, a.open_ = (id, extent.start.offset) :: rest ∧ (∀ n ∈ rest.head?, n.2 < extent.start.offset) ∧
    ∀ n ∈ rest, n.1 ≠ id
  leading : ∀ c ∈ a.leadingOf.of id, c.span.stop ≤ extent.start.offset
  trailing : a.trailingOf.of id ≠ [] →
    (a.trailingOf.of id).head?.any (fun c => decide (extent.stop.offset ≤ c.span.start)) = true
  inner : a.innerOf.of id = []

/-- A node that begins clear of all comments is finished. -/
theorem Idle.last (h : a.Idle id) (kind : Kind Node) (extent : Extent) (hkind : claimsBeside kind = true)
    (hleading : Unclipped a.leading) (htrailing : Unclipped a.trailing)
    (hclear : ∀ c ∈ a.leading, c.stop ≤ extent.start.offset ∨ extent.start.offset < c.start) :
    (a.node id kind extent).Last id extent := by
  have after := (h.claimTrailing extent.stop.offset).claimLeading extent.start.offset
  have waiting : (a.claimTrailing extent.stop.offset).2.leading = a.leading :=
    congrFun (leads_claimTrailing a extent.stop.offset []) .waiting
  have passed : ((a.claimTrailing extent.stop.offset).2.claimLeading extent.start.offset).2.trailing = [] :=
    (congrFun (trails_claimLeading _ extent.start.offset []) .waiting).trans (claimTrailing_trailing a _)
  rw [node_of_claimsBeside _ _ _ hkind]
  refine ⟨passed, ⟨_, rfl, claimLeading_open _ _, after.closed⟩, fun c hc => ?_, fun hne => ?_, after.inner⟩
  · rw [Claims.of_add] at hc
    split at hc
    · rcases claimLeading_before _ _ c hc with before | ⟨hmem, hle⟩
      · exact before
      · rw [waiting] at hmem
        rw [hleading c hmem]
        exact (hclear c hmem).resolve_right (by omega)
    · rw [after.leading] at hc
      cases hc
  · rw [Claims.of_add, after.trailing] at hne ⊢
    split at hne
    next hclaimed =>
      rw [if_pos hclaimed]
      exact claimTrailing_head _ _ htrailing hne
    · exact absurd rfl hne

/-- The next node takes over all of it, if that stands in the same place. -/
theorem Last.node (h : a.Last id extent) (hne : id ≠ other) (hkind : claimsBeside kind = true) :
    (a.node other kind extent).Idle id := by
  obtain ⟨htrailing, ⟨rest, hopen, hrest, hclosed⟩, hleading, htrail, hinner⟩ := h
  have none : ((a.leadingOf.of id).filter fun c => !decide (c.span.stop ≤ extent.start.offset)) = [] := by
    simpa using fun c hc => hleading c hc
  have taken : ∃ b, (a.claimTrailing extent.stop.offset).2 = b ∧ b.open_ = a.open_ ∧ b.leadingOf = a.leadingOf ∧
      b.innerOf = a.innerOf ∧ b.trailingOf.of id = [] := by
    rw [claimTrailing_of_open htrailing hopen]
    split
    · exact ⟨_, rfl, rfl, rfl, rfl, by rw [Claims.of_erase, if_pos rfl]⟩
    next hkept =>
      refine ⟨_, rfl, rfl, rfl, rfl, ?_⟩
      by_contra hsome
      exact hkept (htrail hsome)
  obtain ⟨b, hb, hbopen, hbleading, hbinner, hbtrailing⟩ := taken
  rw [node_of_claimsBeside _ _ _ hkind]
  dsimp only
  rw [hb, claimLeading_of_last (hbopen.trans hopen) hrest, hbleading, none]
  refine ⟨fun n hn => ?_, ?_, ?_, hbinner ▸ hinner⟩
  · rcases List.mem_cons.1 hn with rfl | hn
    · exact Ne.symm hne
    · exact hclosed n hn
  · rw [Claims.of_add, if_neg fun h => hne h.1, Claims.of_add_erase, if_pos rfl]
  · rw [Claims.of_add, if_neg fun h => hne h.1, hbtrailing]

/-! ## Names that a tree holds twice -/

/-- The specifier has two names, which may be one node. -/
def Specifies (kind : Kind Node) (x y : Node) : Prop := kind = .importSpecifier x y ∨ kind = .exportSpecifier x y

theorem Specifies.isSpecifier {x y : Node} (h : Specifies kind x y) : kind.isSpecifier = true := by
  rcases h with rfl | rfl <;> rfl

theorem Specifies.inj {x y z w : Node} (h : Specifies kind x y) (h' : Specifies kind z w) : x = z ∧ y = w := by
  rcases h with rfl | rfl <;> rcases h' with h' | h' <;> cases h' <;> exact ⟨rfl, rfl⟩

/-- Both names of a specifier are one identifier among the nodes, and that claims nothing. -/
structure Spent (events : List ParseEvent) (x y : Node) : Prop where
  same : y = x
  name : ∃ text, x.kind = .identifier text
  reported : x.info.id ≤ (ParseEvent.nodes events).length
  idle : (ofEvents events).Idle x.info.id

namespace Spent

variable {x y m : Node} {f : Extent}

theorem comment (h : Spent events x y) (c : Comment) : Spent (events ++ [.comment c]) x y := by
  refine ⟨h.same, h.name, ?_, ?_⟩
  · rw [ParseEvent.nodes_comment]
    exact h.reported
  · rw [ofEvents_concat]
    exact h.idle.comment c

theorem node (h : Spent events x y) (hid : m.info.id = (ParseEvent.nodes events).length + 1) :
    Spent (events ++ [.node m f]) x y := by
  have := h.reported
  refine ⟨h.same, h.name, ?_, ?_⟩
  · rw [ParseEvent.nodes_node, List.length_append]
    omega
  · rw [ofEvents_concat]
    exact h.idle.node (by omega) _ _

end Spent

end EcmaTree.Attachment
