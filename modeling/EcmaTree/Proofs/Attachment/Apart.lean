import EcmaTree.Proofs.Attachment.Steps
import Mathlib.Data.List.Induction
import Mathlib.Data.List.Nodup

/-!
# Every comment is in one place

While a parse goes on, a comment that may lead a node waits, or one node has claimed it, beside itself or inside; and
so with a comment that may trail a node, which may have been left over too. No step puts a comment into two places:
what one place gains another one loses.
-/

namespace EcmaTree.Attachment

/-- Who holds comments while a node is finished. -/
inductive Holder where
  /-- The comments that wait for a node. -/
  | waiting
  /-- The node that is being finished. -/
  | taking
  /-- The node with the identity claims them beside itself. -/
  | beside (id : Nat)
  /-- The node with the identity claims them inside of itself. -/
  | within (id : Nat)
  deriving DecidableEq

variable {a b : Attachment} {id start stop : Nat} {kind : Kind Node} {extent : Extent} {comments hand : List Comment}
  {held held' : Holder → List Comment}

/-- What is held to lead a node or to be inside of one. -/
def leads (a : Attachment) (hand : List Comment) : Holder → List Comment
  | .waiting => a.leading
  | .taking => hand
  | .beside id => a.leadingOf.of id
  | .within id => a.innerOf.of id

/-- What is held to trail a node. -/
def trails (a : Attachment) (hand : List Comment) : Holder → List Comment
  | .waiting => a.trailing
  | .taking => hand
  | .beside id => a.trailingOf.of id
  | .within _ => []

/-- Every holder has some of the comments, in their order, and no two of them have one in common. -/
structure Apart (comments : List Comment) (held : Holder → List Comment) : Prop where
  sublist (h : Holder) : (held h).Sublist comments
  disjoint {h k : Holder} : h ≠ k → (held h).Disjoint (held k)

namespace Apart

theorem weaken (h : Apart comments held) (hw : ∀ k, (held' k).Sublist (held k)) : Apart comments held' where
  sublist k := (hw k).trans (h.sublist k)
  disjoint hne _ hc hc' := h.disjoint hne ((hw _).subset hc) ((hw _).subset hc')

/-- One holder gives some of its comments to another one, and keeps only others. -/
theorem move (h : Apart comments held) {i j : Holder} (given : Comment → Bool)
    (hi : (held' i).Sublist ((held j).filter given)) (hj : (held' j).Sublist ((held j).filter fun c => !given c))
    (rest : ∀ k, k ≠ i → k ≠ j → (held' k).Sublist (held k)) : Apart comments held' := by
  have from_j {c : Comment} (hc : c ∈ held' i) : c ∈ held j ∧ given c = true := by simpa using hi.subset hc
  have apart {k : Holder} (hk : k ≠ i) : (held' i).Disjoint (held' k) := fun c hc hc' => by
    obtain ⟨hmem, hgiven⟩ := from_j hc
    by_cases hkj : k = j
    · subst hkj
      have := (List.mem_filter.1 (hj.subset hc')).2
      simp [hgiven] at this
    · exact h.disjoint (Ne.symm hkj) hmem ((rest k hk hkj).subset hc')
  have within {k : Holder} (hk : k ≠ i) : (held' k).Sublist (held k) := by
    by_cases hkj : k = j
    · exact hkj ▸ hj.trans List.filter_sublist
    · exact rest k hk hkj
  constructor
  · intro k
    by_cases hk : k = i
    · exact hk ▸ (hi.trans List.filter_sublist).trans (h.sublist j)
    · exact (within hk).trans (h.sublist k)
  · intro k l hne
    by_cases hk : k = i
    · exact hk ▸ apart (hk ▸ Ne.symm hne)
    · by_cases hl : l = i
      · exact hl ▸ List.disjoint_symm (apart (hl ▸ hne))
      · exact fun c hc hc' => h.disjoint hne ((within hk).subset hc) ((within hl).subset hc')

/-- The node that takes comments claims them beside itself. -/
theorem give (h : Apart comments held) (id : Nat) (htaking : held' .taking = [])
    (hbeside : ∀ k, held' (.beside k) = if k = id ∧ held .taking ≠ [] then held .taking else held (.beside k))
    (hwaiting : held' .waiting = held .waiting) (hwithin : ∀ k, held' (.within k) = held (.within k)) :
    Apart comments held' := by
  by_cases hnone : held .taking = []
  · refine h.weaken fun k => ?_
    cases k <;> simp_all
  · refine h.move (i := .beside id) (j := .taking) (fun _ => true) ?_ ?_ fun k hi hj => ?_
    · simp [hbeside, hnone]
    · simp [htaking]
    · cases k <;> simp_all

/-- A comment is passed, and waits. -/
theorem pass {c : Comment} (h : Apart comments held) (hc : c ∉ comments)
    (hwaiting : held' .waiting = held .waiting ++ [c])
    (rest : ∀ k, k ≠ .waiting → held' k = held k) : Apart (comments ++ [c]) held' := by
  have old (k : Holder) : c ∉ held k := fun hmem => hc ((h.sublist k).subset hmem)
  constructor
  · intro k
    by_cases hk : k = .waiting
    · subst hk
      rw [hwaiting]
      exact (h.sublist .waiting).append (.refl _)
    · rw [rest k hk]
      exact (h.sublist k).trans (List.sublist_append_left ..)
  · intro k l hne d hd hd'
    have apart := h.disjoint hne
    by_cases hk : k = .waiting <;> by_cases hl : l = .waiting <;> grind [List.Disjoint]

end Apart

/-! ## Comments that lead nodes -/

theorem leads_claimInner (h : Apart comments (a.leads [])) (id : Nat) (kind : Kind Node) (extent : Extent) :
    Apart comments ((a.claimInner id kind extent).leads []) := by
  rcases a.claimInner_cases id kind extent with same | ⟨-, _, claimed⟩
  · rwa [same]
  · rw [claimed]
    refine h.move (i := .within id) (j := .waiting) (fun c => decide (c.start ≤ extent.stop.offset)) ?_
      (.refl _) fun k hi hj => ?_
    · simp [leads, Claims.of_insert]
    · cases k <;> simp_all [leads, Claims.of_insert]

theorem leads_claimTrailing (a : Attachment) (stop : Nat) (hand : List Comment) :
    (a.claimTrailing stop).2.leads hand = a.leads hand := by
  rcases a.claimTrailing_cases stop with h | ⟨_, -, -, h⟩ | h <;> rw [h] <;> rfl

theorem leads_claimLeading (h : Apart comments (a.leads [])) (start : Nat) :
    Apart comments ((a.claimLeading start).2.leads (a.claimLeading start).1) := by
  obtain ⟨_, _, -, -, ⟨first, -, claimed⟩ | claimed⟩ := a.claimLeading_cases start <;> rw [claimed]
  · refine h.move (i := .taking) (j := .beside first.1) (fun c => decide (c.span.stop ≤ start)) (.refl _) ?_
      fun k hi hj => ?_
    · simp [leads, Claims.of_add_erase]
    · cases k <;> simp_all [leads, Claims.of_add_erase]
  · refine h.move (i := .taking) (j := .waiting) (fun c => decide (c.start ≤ start)) (.refl _) (.refl _)
      fun k hi hj => ?_
    cases k <;> simp_all [leads]

theorem leads_node (h : Apart comments (a.leads [])) (id : Nat) (kind : Kind Node) (extent : Extent) :
    Apart comments ((a.node id kind extent).leads []) := by
  by_cases hfull : isFullProgram kind = true
  · rwa [node, if_pos hfull]
  · rw [node_of_not_full _ _ _ (by simpa using hfull)]
    have inner := leads_claimInner h id kind extent
    rw [← leads_claimTrailing _ extent.stop.offset] at inner
    exact (leads_claimLeading inner extent.start.offset).give id rfl (fun k => Claims.of_add) rfl fun k => rfl

/-! ## Comments that trail nodes -/

theorem trails_claimInner (h : Apart comments (a.trails [])) (id : Nat) (kind : Kind Node) (extent : Extent) :
    Apart comments ((a.claimInner id kind extent).trails []) := by
  rcases a.claimInner_cases id kind extent with same | ⟨-, _, claimed⟩
  · rwa [same]
  · rw [claimed]
    refine h.weaken fun k => ?_
    cases k <;> simp [trails]

theorem trails_claimTrailing (h : Apart comments (a.trails [])) (stop : Nat) :
    Apart comments ((a.claimTrailing stop).2.trails (a.claimTrailing stop).1) := by
  rcases a.claimTrailing_cases stop with claimed | ⟨last, -, -, claimed⟩ | claimed <;> rw [claimed]
  · refine h.move (i := .taking) (j := .waiting) (fun c => decide (stop ≤ c.start)) (.refl _)
      (List.nil_sublist _) fun k hi hj => ?_
    cases k <;> simp_all [trails]
  · refine h.move (i := .taking) (j := .beside last.1) (fun _ => true) ?_ ?_ fun k hi hj => ?_
    · simp [trails]
    · simp [trails, Claims.of_erase]
    · cases k <;> simp_all [trails, Claims.of_erase]
  · refine h.weaken fun k => ?_
    cases k <;> simp [trails]

theorem trails_claimLeading (a : Attachment) (start : Nat) (hand : List Comment) :
    (a.claimLeading start).2.trails hand = a.trails hand := by
  obtain ⟨_, _, -, -, ⟨_, -, h⟩ | h⟩ := a.claimLeading_cases start <;> rw [h] <;> rfl

theorem trails_node (h : Apart comments (a.trails [])) (id : Nat) (kind : Kind Node) (extent : Extent) :
    Apart comments ((a.node id kind extent).trails []) := by
  by_cases hfull : isFullProgram kind = true
  · rwa [node, if_pos hfull]
  · rw [node_of_not_full _ _ _ (by simpa using hfull)]
    have taken := trails_claimTrailing (trails_claimInner h id kind extent) extent.stop.offset
    rw [← trails_claimLeading _ extent.start.offset] at taken
    exact taken.give id rfl (fun k => Claims.of_add) rfl fun k => rfl

/-! ## All events -/

/-- Whatever the events are, no comment is claimed twice before nodes or inside of them, nor twice behind them. -/
theorem ofEvents_apart {events : List ParseEvent} (h : (ParseEvent.comments events).Nodup) :
    Apart (ParseEvent.comments events) ((ofEvents events).leads []) ∧
      Apart (ParseEvent.comments events) ((ofEvents events).trails []) := by
  induction events using List.reverseRecOn with
  | nil =>
    have none {held : Holder → List Comment} (h : ∀ k, held k = []) : Apart [] held :=
      ⟨fun k => h k ▸ .refl [], fun _ c hc => by simp [h] at hc⟩
    exact ⟨none fun k => by cases k <;> simp [leads], none fun k => by cases k <;> simp [trails]⟩
  | append_singleton events e ih =>
    rw [ofEvents_concat]
    cases e with
    | node n extent =>
      rw [comments_node] at h ⊢
      exact ⟨leads_node (ih h).1 _ _ _, trails_node (ih h).2 _ _ _⟩
    | comment c =>
      rw [comments_comment] at h ⊢
      obtain ⟨nodup, -, disjoint⟩ := List.nodup_append'.1 h
      have new : c ∉ ParseEvent.comments events := fun hc => disjoint hc (List.mem_singleton_self c)
      obtain ⟨leading, trailing⟩ := ih nodup
      refine ⟨leading.pass new rfl fun k hk => ?_, trailing.pass new rfl fun k hk => ?_⟩
      · cases k <;> trivial
      · cases k <;> trivial

end EcmaTree.Attachment
