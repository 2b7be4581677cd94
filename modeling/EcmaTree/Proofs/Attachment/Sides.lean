import EcmaTree.Proofs.Attachment.Once
import EcmaTree.Proofs.Recording.Found

/-!
# Comments are attached beside nodes

What trails a node begins behind its end, and what leads it ends before its beginning, except that a node of JSX may
begin with a comment that leads it. Inner comments begin before the end of their node; nothing says that they begin
behind its beginning, so a comment before an empty block is inside of it too.
-/

namespace EcmaTree

namespace Attachment

variable {jsx : Bool} {extentOf : Nat → Extent} {a : Attachment} {id : Nat} {kind : Kind Node} {extent : Extent}
  {events : List ParseEvent}

/-- What is claimed lies on its side of the node that claims it. -/
structure Beside (jsx : Bool) (extentOf : Nat → Extent) (a : Attachment) : Prop where
  leading (id : Nat) : ∀ c ∈ a.leadingOf.of id,
    c.stop ≤ (extentOf id).start.offset ∨ jsx = true ∧ c.start = (extentOf id).start.offset
  trailing (id : Nat) : ∀ c ∈ a.trailingOf.of id, (extentOf id).stop.offset ≤ c.start
  inner (id : Nat) : ∀ c ∈ a.innerOf.of id, c.start ≤ (extentOf id).stop.offset

namespace Beside

theorem claimInner (h : Beside jsx extentOf a) (hid : extentOf id = extent) (kind : Kind Node) :
    Beside jsx extentOf (a.claimInner id kind extent) := by
  rcases a.claimInner_cases id kind extent with same | ⟨-, _, claimed⟩
  · rwa [same]
  · rw [claimed]
    refine ⟨h.leading, h.trailing, fun other c hc => ?_⟩
    rw [Claims.of_insert] at hc
    split at hc
    next he =>
      rw [he, hid]
      simpa using (List.mem_filter.1 hc).2
    · exact h.inner other c hc

theorem claimTrailing (h : Beside jsx extentOf a) (stop : Nat) : Beside jsx extentOf (a.claimTrailing stop).2 := by
  rcases a.claimTrailing_cases stop with claimed | ⟨_, -, -, claimed⟩ | claimed <;> rw [claimed]
  · exact ⟨h.leading, h.trailing, h.inner⟩
  · refine ⟨h.leading, fun other c hc => ?_, h.inner⟩
    rw [Claims.of_erase] at hc
    split at hc
    · cases hc
    · exact h.trailing other c hc
  · exact ⟨h.leading, h.trailing, h.inner⟩

theorem claimLeading (h : Beside jsx extentOf a) (start : Nat) : Beside jsx extentOf (a.claimLeading start).2 := by
  obtain ⟨_, _, -, -, ⟨first, -, claimed⟩ | claimed⟩ := a.claimLeading_cases start <;> rw [claimed]
  · refine ⟨fun other c hc => ?_, h.trailing, h.inner⟩
    rw [Claims.of_add_erase] at hc
    split at hc
    next he => exact he ▸ h.leading _ c (List.mem_of_mem_filter hc)
    · exact h.leading other c hc
  · exact ⟨h.leading, h.trailing, h.inner⟩

/-- What a node takes over from the last one lies behind it, if the first of it does. -/
theorem claimTrailing_behind (a : Attachment) (stop : Nat)
    (hordered : ∀ id, (a.trailingOf.of id).Pairwise fun c d => c.start ≤ d.start)
    (hwhole : ∀ id, Unclipped (a.trailingOf.of id)) : ∀ c ∈ (a.claimTrailing stop).1, stop ≤ c.start := by
  rcases a.claimTrailing_cases stop with claimed | ⟨last, -, hhead, claimed⟩ | claimed <;> rw [claimed]
  · exact fun c hc => by simpa using (List.mem_filter.1 hc).2
  · have ordered := hordered last.1
    have whole := hwhole last.1
    intro c hc
    cases hlist : a.trailingOf.of last.1 with
    | nil => simp [hlist] at hc
    | cons first rest =>
      rw [hlist] at hhead ordered whole hc
      have behind : stop ≤ first.start := by simpa [whole first (List.mem_cons_self ..)] using hhead
      rcases List.mem_cons.1 hc with rfl | hc
      · exact behind
      · exact Nat.le_trans behind (List.rel_of_pairwise_cons ordered hc)
  · nofun

/-- An event about a node that stands where `extentOf` says. -/
theorem node (h : Beside jsx extentOf a) (hid : extentOf id = extent)
    (hordered : ∀ id, (a.trailingOf.of id).Pairwise fun c d => c.start ≤ d.start)
    (hclear : ClearAt jsx a.leading extent.start.offset) (htrailing : ∀ id, Unclipped (a.trailingOf.of id))
    (hleading : ∀ other, Unclipped ((a.node id kind extent).leadingOf.of other)) :
    Beside jsx extentOf (a.node id kind extent) := by
  by_cases hfull : isFullProgram kind = true
  · rwa [Attachment.node, if_pos hfull]
  obtain ⟨trailingOf, leading⟩ : (a.claimInner id kind extent).trailingOf = a.trailingOf ∧
      ∀ c ∈ (a.claimInner id kind extent).leading, c ∈ a.leading := by
    rcases a.claimInner_cases id kind extent with same | ⟨-, _, claimed⟩
    · rw [same]
      exact ⟨rfl, fun _ hc => hc⟩
    · rw [claimed]
      exact ⟨rfl, fun c hc => List.mem_of_mem_filter hc⟩
  have waiting : ((a.claimInner id kind extent).claimTrailing extent.stop.offset).2.leading =
      (a.claimInner id kind extent).leading := congrFun (leads_claimTrailing _ extent.stop.offset []) .waiting
  have behind := claimTrailing_behind (a.claimInner id kind extent) extent.stop.offset
    (fun id => trailingOf ▸ hordered id) (fun id => trailingOf ▸ htrailing id)
  have before := claimLeading_before ((a.claimInner id kind extent).claimTrailing extent.stop.offset).2
    extent.start.offset
  have kept := ((h.claimInner hid kind).claimTrailing extent.stop.offset).claimLeading extent.start.offset
  rw [node_of_not_full _ _ _ (by simpa using hfull)] at hleading ⊢
  refine ⟨fun other c hc => ?_, fun other c hc => ?_, kept.inner⟩
  · have whole := hleading other c hc
    rw [Claims.of_add] at hc
    split at hc
    next he =>
      rw [he.1, hid]
      rcases before c hc with hstop | ⟨hmem, hle⟩
      · rw [whole] at hstop
        exact .inl hstop
      · rw [waiting] at hmem
        exact (hclear c (leading c hmem)).imp_right fun h => h.resolve_left (Nat.not_lt_of_le hle)
    · exact kept.leading other c hc
  · rw [Claims.of_add] at hc
    split at hc
    next he =>
      rw [he.1, hid]
      exact behind c hc
    · exact kept.trailing other c hc

end Beside

/-- Whatever the events are, comments are claimed on their side, if the events come in order. -/
theorem ofEvents_beside (h : Orderly jsx events) (hordered : InOrder (ParseEvent.comments events))
    (hwhole : Unclipped (ParseEvent.comments events)) (hextent : ∀ n e, (n, e) ∈ ParseEvent.nodes events →
      extentOf n.info.id = e) : Beside jsx extentOf (ofEvents events) := by
  induction events using List.reverseRecOn with
  | nil => exact ⟨by simp, by simp, by simp⟩
  | append_singleton events event ih =>
    have ih := ih (h.of_prefix (List.prefix_append ..))
    cases event with
    | comment c =>
      rw [comments_comment] at hordered hwhole
      rw [ParseEvent.nodes_comment] at hextent
      obtain ⟨leading, trailing, inner⟩ := ih (hordered.sublist (List.sublist_append_left ..))
        (hwhole.subset (List.subset_append_left ..)) hextent
      rw [ofEvents_concat]
      exact ⟨leading, trailing, inner⟩
    | node m f =>
      have after := (ofEvents_apart hordered.nodup).1
      rw [comments_node] at hordered hwhole after
      rw [ParseEvent.nodes_node] at hextent
      rw [ofEvents_concat] at after ⊢
      obtain ⟨leads, trails⟩ := ofEvents_apart hordered.nodup
      refine (ih hordered hwhole fun n e hn => hextent n e (List.mem_append_left _ hn)).node (hextent m f (by simp))
        (fun id => ?_) (fun c hc => ?_) (fun id => ?_) fun other => ?_
      · exact (hordered.sublist (trails.sublist (.beside id))).starts
      · exact (h _ _ _ (List.prefix_refl _)).2 c ((leads.sublist .waiting).subset hc)
      · exact hwhole.subset (trails.sublist (.beside id)).subset
      · exact hwhole.subset (after.sublist (.beside other)).subset

/-! ## Empty blocks -/

theorem eq_of_isEmptyBlock {kind : Kind Node} (h : isEmptyBlock kind = true) : kind = .block [] := by
  cases kind with
  | block body =>
    cases body with
    | nil => rfl
    | cons => cases h
  | _ => cases h

/-- An empty block claims all comments that wait and begin before its end, also those that end before its beginning. -/
theorem node_emptyBlock (a : Attachment) (id : Nat) (kind : Kind Node) (extent : Extent)
    (hblock : isEmptyBlock kind = true)
    (hsome : ∃ c ∈ a.leading, c.start ≤ extent.stop.offset) : (a.node id kind extent).innerOf.of id =
      a.leading.filter fun c => decide (c.start ≤ extent.stop.offset) := by
  have hfull : isFullProgram kind = false := by
    rw [eq_of_isEmptyBlock hblock]
    rfl
  have claimed : (a.claimInner id kind extent).innerOf.of id = a.leading.filter fun c =>
    decide (c.start ≤ extent.stop.offset) := by
    unfold claimInner
    rw [if_pos hblock, List.partition_eq_filter_filter]
    dsimp only
    rw [if_neg (by simpa using hsome), Claims.of_insert, if_pos rfl]
  have trailing : ((a.claimInner id kind extent).claimTrailing extent.stop.offset).2.innerOf.of id =
    (a.claimInner id kind extent).innerOf.of id :=
    congrFun (leads_claimTrailing _ extent.stop.offset []) (.within id)
  have leading (b : Attachment) : (b.claimLeading extent.start.offset).2.innerOf = b.innerOf := by
    obtain ⟨_, _, -, -, ⟨_, -, h⟩ | h⟩ := b.claimLeading_cases extent.start.offset <;> rw [h]
  rw [node_of_not_full _ _ _ hfull]
  exact (congrArg (Claims.of · id) (leading _)).trans (trailing.trans claimed)

/-- A comment before an empty block in an otherwise empty program is inside of the block. -/
theorem ofEvents_lone_emptyBlock {events : List ParseEvent} {c : Comment} {block root : Node × Extent}
    (hlength : events.length = 3)
    (hcomment : c ∈ ParseEvent.comments (events.take 1)) (hblock : block ∈ ParseEvent.nodes ((events.drop 1).take 1))
    (hroot : root ∈ ParseEvent.nodes (events.drop 2)) (hempty : isEmptyBlock block.1.kind = true)
    (hfull : isFullProgram root.1.kind = true) (hc : c.start ≤ block.2.stop.offset) :
    (ofEvents events).innerOf.of block.1.info.id = [c] := by
  obtain ⟨x, y, z, rfl⟩ := List.length_eq_three.1 hlength
  obtain rfl : x = .comment c := by cases x <;> simp_all [ParseEvent.comments, ParseEvent.comment?]
  obtain rfl : y = .node block.1 block.2 := by cases y <;> simp_all [ParseEvent.nodes, ParseEvent.node?]
  obtain rfl : z = .node root.1 root.2 := by cases z <;> simp_all [ParseEvent.nodes, ParseEvent.node?]
  have last (a : Attachment) : a.event (.node root.1 root.2) = a := if_pos hfull
  change (event ((comment {} c).node block.1.info.id block.1.kind block.2) (.node root.1 root.2)).innerOf.of
    block.1.info.id = [c]
  rw [last, node_emptyBlock (comment {} c) block.1.info.id block.1.kind block.2 hempty ⟨c,
    List.mem_singleton_self c, hc⟩]
  simp [comment, hc]

end Attachment

/-- Comments are attached beside nodes: whatever the source and the options are, what trails a node begins behind its
end, and what leads it ends before its beginning, unless it is JSX that begins with the comment. An inner comment
begins before the end of its node. Each of them has the range where it stands. -/
theorem comments_attached_beside {source : String} {o : ParseOptions} {p : Program}
    (hfits : source.utf8ByteSize < 2 ^ 32)
    (ho : o.attachComment = true) (hp : parse source o = .ok p) :
    ∀ entry ∈ p.root.walk,
      (∀ c ∈ entry.2.info.leading, c.stop ≤ entry.2.span.start ∨ o.jsx = true ∧ c.start = entry.2.span.start) ∧
      (∀ c ∈ entry.2.info.trailing, entry.2.span.stop ≤ c.start) ∧
      (∀ c ∈ entry.2.info.inner, c.start ≤ entry.2.span.stop) ∧
      ∀ c ∈ entry.2.info.leading ++ entry.2.info.trailing ++ entry.2.info.inner,
        c.placement.range = some ⟨c.start, c.stop⟩ := by
  obtain ⟨root, s, hs, hroot, -, accounts⟩ := parse_attached ho hp
  have orderly := Reports.source_orderly hs
  have ordered := Tokens.source_ordered hs
  have whole := Tokens.source_unclipped hfits hs
  obtain ⟨leads, trails⟩ := Attachment.ofEvents_apart ordered.nodup
  have beside : Attachment.Beside o.jsx (fun id => (s.nodes[id - 1]?.map Prod.snd).getD default)
      (.ofEvents s.record.events.toList) :=
    Attachment.ofEvents_beside orderly ordered whole fun n e hn => by
      rw [show s.nodes[n.info.id - 1]? = some (n, e) from (orderly.id_of_mem hn).2.2]
      rfl
  have reported : p.root.outline.Reported s.nodes := accounts.reported (List.mem_cons_self ..)
  have claims : p.root.All _ := hroot ▸ o.given_claims ho (.ofEvents s.record.events.toList) root
  have nested : p.root.Nested source.utf8ByteSize 0 source.utf8ByteSize :=
    hroot ▸ (Recovery.source_nested hs).recast (Node.mapInfo_recast (o.given_marks _) root)
  intro entry hentry
  obtain ⟨hleading, htrailing, hinner⟩ := claims entry hentry
  have ranges : ∀ c ∈ entry.2.info.leading ++ entry.2.info.trailing ++ entry.2.info.inner,
      c.placement.range = some ⟨c.start, c.stop⟩ := by
    rw [hleading, htrailing, hinner, ← List.map_append, ← List.map_append]
    refine List.forall_mem_map.2 fun c hc => (o.attached_range c).trans (congrArg some (whole c ?_))
    simp only [List.mem_append] at hc
    rcases hc with (hc | hc) | hc
    · exact (leads.sublist (.beside _)).subset hc
    · exact (trails.sublist (.beside _)).subset hc
    · exact (leads.sublist (.within _)).subset hc
  refine and_assoc.1 (and_assoc.1 ⟨?_, ranges⟩)
  rw [hleading, htrailing, hinner]
  simp only [List.forall_mem_map]
  rcases Node.origin (Node.all_reported reported entry hentry) with ⟨-, hid⟩ | ⟨waits, k, m, e, hid, hevent, hextent, -⟩
  · obtain ⟨-, leading, trailing, inner⟩ := Attachment.ofEvents_idle_zero orderly
    rw [hid, leading, trailing, inner]
    exact ⟨⟨nofun, nofun⟩, nofun⟩
  · have ⟨start, stop⟩ := nested.inside (Nat.le_refl _) entry hentry waits e hextent
    have span : entry.2.span = ⟨e.start.offset, e.stop.offset⟩ := by
      rw [Node.span, hextent, Option.map_some, Option.getD_some]
      exact Extent.span_eq (Nat.lt_of_le_of_lt start hfits) (Nat.lt_of_le_of_lt stop hfits)
    have sides := beside.leading (k + 1)
    have behind := beside.trailing (k + 1)
    have within := beside.inner (k + 1)
    rw [Nat.add_sub_cancel, hevent] at sides behind within
    rw [hid, span]
    exact ⟨⟨sides, behind⟩, within⟩

/-- The comment between the braces leads what begins with it. -/
theorem comments_attached_beside_element :
    "<a>\x7b/*x*/\x7d</a>".utf8ByteSize < 2 ^ 32 ∧
    ∃ p, parse "<a>\x7b/*x*/\x7d</a>" { jsx := true, attachComment := true } = .ok p ∧
      ∀ entry ∈ p.root.walk,
        (∀ c ∈ entry.2.info.leading, c.stop ≤ entry.2.span.start ∨ c.start = entry.2.span.start) ∧
        (∀ c ∈ entry.2.info.trailing, entry.2.span.stop ≤ c.start) ∧
        ∀ c ∈ entry.2.info.inner, c.start ≤ entry.2.span.stop := by
  have fits : "<a>\x7b/*x*/\x7d</a>".utf8ByteSize < 2 ^ 32 := by decide
  have h : (parse "<a>\x7b/*x*/\x7d</a>" { jsx := true, attachComment := true }).toOption.isSome = true := by
    decide +kernel
  obtain ⟨p, hp⟩ := exists_ok_of_isSome h
  refine ⟨fits, p, hp, fun entry hentry => ?_⟩
  obtain ⟨leading, trailing, inner, -⟩ := comments_attached_beside fits rfl hp entry hentry
  exact ⟨fun c hc => (leading c hc).imp_right And.right, trailing, inner⟩

open Attachment in
/-- The comment before an empty block is inside of it. -/
theorem inner_outside_block : ∃ p, parse "/*a*/\x7b\x7d" { attachComment := true } = .ok p ∧
    ∃ entry ∈ p.root.walk, entry.2.kind = .block [] ∧ entry.2.span = ⟨5, 7⟩ ∧
      ∃ c ∈ entry.2.info.inner, c.start = 0 ∧ c.stop = 5 := by
  -- The claims cannot be evaluated, but the events can, and the tree before anything is attached.
  have h : (match Parse.source "/*a*/\x7b\x7d" {} with
      | .error .. => false
      | .ok root s => root.walk.any fun entry =>
          isEmptyBlock entry.2.kind && entry.2.span == ⟨5, 7⟩ && s.record.events.size == 3 &&
          (ParseEvent.comments (s.record.events.toList.take 1)).any (fun c => c.start == 0 && c.stop == 5) &&
          (ParseEvent.nodes ((s.record.events.toList.drop 1).take 1)).any (fun block =>
            block.1.info.id == entry.2.info.id && isEmptyBlock block.1.kind && block.2.stop.offset == 7) &&
          (ParseEvent.nodes (s.record.events.toList.drop 2)).any fun last => isFullProgram last.1.kind) =
            true := by decide +kernel
  have parses : (parse "/*a*/\x7b\x7d" { attachComment := true }).toOption.isSome = true := by decide +kernel
  obtain ⟨p, hp⟩ := exists_ok_of_isSome parses
  obtain ⟨root, s, hs, hroot, -, -⟩ := parse_attached rfl hp
  rw [show Parse.source "/*a*/\x7b\x7d" {} = .ok root s from hs] at h
  obtain ⟨⟨depth, block⟩, hmem, h⟩ := List.any_eq_true.1 h
  simp only [Bool.and_eq_true, beq_iff_eq, List.any_eq_true] at h
  obtain ⟨⟨⟨⟨⟨hblock, hspan⟩, hlength⟩, c, hc, hstart, hstop⟩, entry, hentry, ⟨hid, hempty⟩, hend⟩, last,
    hlast, hfull⟩ := h
  have claimed : (ofEvents s.record.events.toList).innerOf.of block.info.id = [c] :=
    hid ▸ ofEvents_lone_emptyBlock (by simpa using hlength) hc hentry hlast hempty hfull (by omega)
  have written := ParseOptions.given_claims (o := { attachComment := true }) rfl
    (ofEvents s.record.events.toList) root
  rw [← hroot] at written
  have attached := Node.walk_mapInfo (ParseOptions.given { attachComment := true }
    (ofEvents s.record.events.toList)) root ▸
    List.mem_map_of_mem hmem
  rw [← hroot] at attached
  refine ⟨p, hp, _, attached, ?_, ?_, ParseOptions.attached { attachComment := true } c, ?_, hstart, hstop⟩
  · rw [Node.kind_mapInfo, eq_of_isEmptyBlock hblock]
    rfl
  · rw [Node.span, Node.info_mapInfo, (ParseOptions.given_marks _ _).extent]
    exact hspan
  · rw [(written _ attached).2.2, Node.info_mapInfo, (ParseOptions.given_marks _ _).id, claimed]
    exact List.mem_singleton_self _

end EcmaTree
