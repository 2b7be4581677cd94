import EcmaTree.Comment.Attachment

/-!
# What one event does to the claims

A node that is finished takes comments in three steps. Each step has a lemma here that says where the comments come
from that it takes: from those that wait, or from one of the nodes that may still hand on what they claim. A node that
no event is about, and that may hand on nothing, stays as it is.
-/

namespace EcmaTree

/-! ## Claims by identity -/

namespace Claims

variable {claims : Claims} {id other : Nat} {comments : List Comment}

@[simp] theorem of_empty (id : Nat) : Claims.of ({} : Claims) id = [] := Std.HashMap.getD_empty

theorem of_insert : Claims.of (claims.insert id comments) other = if other = id then comments else claims.of other := by
  simp [Claims.of, Std.HashMap.getD_insert, eq_comm (a := other)]

theorem of_erase : Claims.of (claims.erase id) other = if other = id then [] else claims.of other := by
  simp [Claims.of, Std.HashMap.getD_erase, eq_comm (a := other)]

theorem of_add : (claims.add id comments).of other =
    if other = id ∧ comments ≠ [] then comments else claims.of other := by
  unfold add
  cases comments with
  | nil => simp
  | cons c comments =>
    rw [if_neg (by simp), of_insert]
    simp

/-- What a node claims is exchanged. -/
theorem of_add_erase : (Claims.add (claims.erase id) id comments).of other =
    if other = id then comments else claims.of other := by
  rw [of_add, of_erase]
  grind

end Claims

namespace Attachment

variable {a b : Attachment} {id start stop : Nat} {kind : Kind Node} {extent : Extent}

/-! ## The steps of one node -/

/-- Inner comments come from those that lead nothing yet. -/
theorem claimInner_cases (a : Attachment) (id : Nat) (kind : Kind Node) (extent : Extent) :
    a.claimInner id kind extent = a ∨ isEmptyBlock kind = true ∧ ∃ trails : Comment → Bool,
      a.claimInner id kind extent =
        { a with
          leading := a.leading.filter fun c => !decide (c.start ≤ extent.stop.offset)
          trailing := a.trailing.filter trails
          innerOf := a.innerOf.insert id (a.leading.filter fun c => decide (c.start ≤ extent.stop.offset)) } := by
  unfold claimInner
  split
  next hblock =>
    rw [List.partition_eq_filter_filter]
    dsimp only
    split
    · exact .inl rfl
    · exact .inr ⟨hblock, _, rfl⟩
  · exact .inl rfl

/-- If no comment waits behind the last node, those of that node are handed on as soon as the first of them lies
behind the new one. -/
theorem claimTrailing_of_open {last : Nat × Nat} {rest : List (Nat × Nat)} (ht : a.trailing = [])
    (ho : a.open_ = last :: rest)
    (stop : Nat) : a.claimTrailing stop =
      if (a.trailingOf.of last.1).head?.any fun c => decide (stop ≤ c.span.start) then
        (a.trailingOf.of last.1, { a with trailingOf := a.trailingOf.erase last.1 })
      else ([], a) := by
  unfold claimTrailing
  rw [if_pos (List.isEmpty_iff.2 ht), ho]

/-- Trailing comments come from those that wait behind the last node, or from that node. -/
theorem claimTrailing_cases (a : Attachment) (stop : Nat) :
    a.claimTrailing stop = (a.trailing.filter fun c => decide (stop ≤ c.start), { a with trailing := [] }) ∨
    (∃ last ∈ a.open_, (a.trailingOf.of last.1).head?.any (fun c => decide (stop ≤ c.span.start)) = true ∧
      a.claimTrailing stop = (a.trailingOf.of last.1,
        { a with trailing := [], trailingOf := a.trailingOf.erase last.1 })) ∨
    a.claimTrailing stop = ([], { a with trailing := [] }) := by
  by_cases ht : a.trailing = []
  · have same : { a with trailing := [] } = a := by rw [← ht]
    rw [same]
    cases ho : a.open_ with
    | nil =>
      unfold claimTrailing
      rw [if_pos (List.isEmpty_iff.2 ht), ho]
      exact .inr (.inr rfl)
    | cons last rest =>
      rw [claimTrailing_of_open ht ho]
      split
      next hbehind =>
        refine .inr (.inl ⟨last, List.mem_cons_self .., hbehind, ?_⟩)
        rw [← ht, ← ho]
      · exact .inr (.inr rfl)
  · unfold claimTrailing
    rw [if_neg (by simpa using ht)]
    exact .inl rfl

/-- Nodes are taken off from the front, as long as they begin behind `start`. -/
theorem takeFrom_spec (start : Nat) (taken : Option Nat) (opened : List (Nat × Nat)) :
    ∃ inside rest, opened = inside ++ rest ∧ (∀ n ∈ rest.head?, n.2 < start) ∧
      takeFrom start taken opened = ((inside.getLast?.map Prod.fst).or taken, rest) := by
  induction opened generalizing taken with
  | nil => exact ⟨[], [], rfl, by simp, by simp [takeFrom]⟩
  | cons n opened ih =>
    rw [takeFrom]
    split
    next hbegins => exact ⟨[], n :: opened, rfl, by simpa using hbegins, by simp⟩
    · obtain ⟨inside, rest, rfl, hrest, htake⟩ := ih (some n.1)
      refine ⟨n :: inside, rest, rfl, hrest, htake.trans ?_⟩
      cases inside <;> simp [List.getLast?_cons]

/-- Leading comments come from the first node inside of the new one, or else from those that lead nothing yet. -/
theorem claimLeading_cases (a : Attachment) (start : Nat) :
    ∃ inside rest, a.open_ = inside ++ rest ∧ (∀ n ∈ rest.head?, n.2 < start) ∧
      ((∃ first ∈ inside, a.claimLeading start =
        ((a.leadingOf.of first.1).filter fun c => decide (c.span.stop ≤ start),
          { a with
            open_ := rest
            leadingOf := Claims.add (a.leadingOf.erase first.1) first.1
              ((a.leadingOf.of first.1).filter fun c => !decide (c.span.stop ≤ start)) })) ∨
      a.claimLeading start =
        (a.leading.filter fun c => decide (c.start ≤ start),
          { a with open_ := rest, leading := a.leading.filter fun c => !decide (c.start ≤ start) })) := by
  obtain ⟨inside, rest, hopen, hrest, htake⟩ := takeFrom_spec start none a.open_
  refine ⟨inside, rest, hopen, hrest, ?_⟩
  unfold claimLeading
  rw [htake, Option.or_none]
  cases hlast : inside.getLast? with
  | none =>
    right
    dsimp only [Option.map]
    rw [List.partition_eq_filter_filter]
    rfl
  | some first =>
    refine .inl ⟨first, List.mem_of_getLast? hlast, ?_⟩
    dsimp only [Option.map]
    rw [List.partition_eq_filter_filter]
    rfl

/-- If only the last node begins where the new one does, it is the one that hands on. -/
theorem claimLeading_of_last {rest : List (Nat × Nat)} (ho : a.open_ = (id, start) :: rest)
    (hrest : ∀ n ∈ rest.head?, n.2 < start) : a.claimLeading start =
      ((a.leadingOf.of id).filter fun c => decide (c.span.stop ≤ start),
        { a with
          open_ := rest
          leadingOf := Claims.add (a.leadingOf.erase id) id
            ((a.leadingOf.of id).filter fun c => !decide (c.span.stop ≤ start)) }) := by
  have before (taken : Option Nat) : takeFrom start taken rest = (taken, rest) := by
    cases rest with
    | nil => rfl
    | cons n rest => rw [takeFrom, if_pos (hrest n rfl)]
  unfold claimLeading
  rw [ho, takeFrom, if_neg (Nat.lt_irrefl _), before]
  dsimp only
  rw [List.partition_eq_filter_filter]
  rfl

theorem node_of_not_full (a : Attachment) (id : Nat) (extent : Extent) (h : isFullProgram kind = false) :
    a.node id kind extent =
      let b := (a.claimInner id kind extent).claimTrailing extent.stop.offset
      let c := b.2.claimLeading extent.start.offset
      { c.2 with
        leadingOf := c.2.leadingOf.add id c.1
        trailingOf := c.2.trailingOf.add id b.1
        open_ := (id, extent.start.offset) :: c.2.open_ } := by
  rw [node, h, if_neg (by simp)]

/-- Is the node one that claims comments only beside itself? -/
def claimsBeside (kind : Kind Node) : Bool := !isEmptyBlock kind && !isFullProgram kind

theorem node_of_claimsBeside (a : Attachment) (id : Nat) (extent : Extent) (h : claimsBeside kind = true) :
    a.node id kind extent =
      let b := a.claimTrailing extent.stop.offset
      let c := b.2.claimLeading extent.start.offset
      { c.2 with
        leadingOf := c.2.leadingOf.add id c.1
        trailingOf := c.2.trailingOf.add id b.1
        open_ := (id, extent.start.offset) :: c.2.open_ } := by
  obtain ⟨hblock, hfull⟩ : isEmptyBlock kind = false ∧ isFullProgram kind = false := by simpa [claimsBeside] using h
  rw [node_of_not_full _ _ _ hfull, claimInner, if_neg (by simp [hblock])]

/-! ## Events -/

@[simp] theorem comments_node (events : List ParseEvent) (n : Node) (extent : Extent) :
    ParseEvent.comments (events ++ [.node n extent]) = ParseEvent.comments events := by
  simp [ParseEvent.comments, ParseEvent.comment?]

@[simp] theorem comments_comment (events : List ParseEvent) (c : Comment) :
    ParseEvent.comments (events ++ [.comment c]) = ParseEvent.comments events ++ [c] := by
  simp [ParseEvent.comments, ParseEvent.comment?]

@[simp] theorem ofEvents_nil : ofEvents [] = {} := rfl

@[simp] theorem ofEvents_concat (events : List ParseEvent) (e : ParseEvent) :
    ofEvents (events ++ [e]) = (ofEvents events).event e := by
  simp [ofEvents]

end Attachment

end EcmaTree
