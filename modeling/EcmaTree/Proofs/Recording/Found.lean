import EcmaTree.Proofs.Attachment.Steps
import EcmaTree.Proofs.Recording.Program

/-!
# What is found and what is given back

A parse with any options gives back of what the parse with a complete record finds as much as the options ask for.
So everything that holds of the tokens, the comments and the nodes of a complete record holds of what is given back.

Comments are claimed by where they stand. So whatever is kept of their places, the same comments are claimed for the
same nodes.
-/

namespace EcmaTree

/-- The event, with something else known of the comment. -/
def ParseEvent.mapComment (f : Comment → Comment) : ParseEvent → ParseEvent
  | .node n extent => .node n extent
  | .comment c => .comment (f c)

namespace Attachment

variable {f : Comment → Comment} {a b : Attachment} {id stop start : Nat} {kind : Kind Node} {extent : Extent}

/-- The same claims on other copies of the comments. -/
structure Copies (f : Comment → Comment) (a b : Attachment) : Prop where
  opened : b.open_ = a.open_
  leading : b.leading = a.leading.map f
  trailing : b.trailing = a.trailing.map f
  leadingOf (id : Nat) : b.leadingOf.of id = (a.leadingOf.of id).map f
  trailingOf (id : Nat) : b.trailingOf.of id = (a.trailingOf.of id).map f
  innerOf (id : Nat) : b.innerOf.of id = (a.innerOf.of id).map f

theorem filter_copies {p q : Comment → Bool} (h : ∀ c, q (f c) = p c) (cs : List Comment) :
    (cs.map f).filter q = (cs.filter p).map f := by
  rw [List.filter_map, show q ∘ f = p from funext h]

theorem ite_copies {c : Prop} [Decidable c] (cs ds : List Comment) :
    (if c then cs.map f else ds.map f) = (if c then cs else ds).map f := by
  split <;> rfl

namespace Copies

section
variable (h : Copies f a b) (hf : ∀ c, (f c).extent = c.extent)
include h hf

theorem claimInner (id : Nat) (kind : Kind Node) (extent : Extent) :
    Copies f (a.claimInner id kind extent) (b.claimInner id kind extent) := by
  have starts (c : Comment) : (f c).start = c.start := by rw [Comment.start, hf, Comment.start]
  have inner := filter_copies (f := f) (p := fun c => decide (c.start ≤ extent.stop.offset)) (q := fun c =>
    decide (c.start ≤ extent.stop.offset))
    (fun c => by rw [starts]) a.leading
  have outer := filter_copies (f := f) (p := fun c => !decide (c.start ≤ extent.stop.offset)) (q := fun c =>
    !decide (c.start ≤ extent.stop.offset))
    (fun c => by rw [starts]) a.leading
  unfold Attachment.claimInner
  split
  · simp only [List.partition_eq_filter_filter, Function.comp_def, h.leading, inner, outer, List.isEmpty_map]
    split
    · exact h
    · refine ⟨h.opened, rfl, ?_, h.leadingOf, h.trailingOf, fun other => ?_⟩
      · rw [h.trailing]
        exact filter_copies (fun c => by simp [starts, Function.comp_def]) _
      · simp only [Claims.of_insert, h.innerOf, ite_copies]
  · exact h

theorem claimTrailing (stop : Nat) : (b.claimTrailing stop).1 = (a.claimTrailing stop).1.map f ∧
    Copies f (a.claimTrailing stop).2 (b.claimTrailing stop).2 := by
  have starts (c : Comment) : (f c).start = c.start := by rw [Comment.start, hf, Comment.start]
  have behind (id : Nat) : (b.trailingOf.of id).head?.any (fun c => decide (stop ≤ c.span.start)) =
      (a.trailingOf.of id).head?.any fun c => decide (stop ≤ c.span.start) := by
    rw [h.trailingOf, List.head?_map, Option.any_map]
    simp only [Comment.span, hf]
    rfl
  unfold Attachment.claimTrailing
  rw [h.trailing, List.isEmpty_map, h.opened]
  split
  · split
    · dsimp only
      rw [behind]
      split
      · refine ⟨h.trailingOf _, ⟨rfl, h.leading, rfl, h.leadingOf, fun other => ?_, h.innerOf⟩⟩
        simp only [Claims.of_erase, h.trailingOf]
        split <;> rfl
      · exact ⟨rfl, h⟩
    · exact ⟨rfl, h⟩
  · refine ⟨filter_copies (fun c => by rw [starts]) _, rfl, h.leading, rfl, h.leadingOf, h.trailingOf, h.innerOf⟩

theorem claimLeading (start : Nat) : (b.claimLeading start).1 = (a.claimLeading start).1.map f ∧
    Copies f (a.claimLeading start).2 (b.claimLeading start).2 := by
  have starts (c : Comment) : (f c).start = c.start := by rw [Comment.start, hf, Comment.start]
  have spans (c : Comment) : (f c).span = c.span := by rw [Comment.span, hf, Comment.span]
  unfold Attachment.claimLeading
  rw [h.opened]
  simp only [List.partition_eq_filter_filter, Function.comp_def]
  split
  · have kept := filter_copies (f := f) (p := fun c => !decide (c.span.stop ≤ start)) (q := fun c =>
      !decide (c.span.stop ≤ start))
      (fun c => by rw [spans])
    refine ⟨?_, rfl, h.leading, h.trailing, fun other => ?_, h.trailingOf, h.innerOf⟩
    · rw [h.leadingOf]
      exact filter_copies (fun c => by rw [spans]) _
    · simp only [Claims.of_add_erase, h.leadingOf, kept, ite_copies]
  · refine ⟨?_, rfl, ?_, h.trailing, h.leadingOf, h.trailingOf, h.innerOf⟩
    · exact h.leading ▸ filter_copies (fun c => by rw [starts]) _
    · exact h.leading ▸ filter_copies (fun c => by rw [starts]) _

theorem node (id : Nat) (kind : Kind Node) (extent : Extent) :
    Copies f (a.node id kind extent) (b.node id kind extent) := by
  unfold Attachment.node
  split
  · exact h
  · obtain ⟨trailing, after⟩ := (h.claimInner hf id kind extent).claimTrailing hf extent.stop.offset
    obtain ⟨leading, last⟩ := after.claimLeading hf extent.start.offset
    have added {claims claims' : Claims} {cs ds : List Comment} (hclaims : ∀ id, claims'.of id = (claims.of id).map f)
        (hcs : ds = cs.map f) (other : Nat) : (claims'.add id ds).of other = ((claims.add id cs).of other).map f := by
      simp only [Claims.of_add, hclaims, hcs, ne_eq, List.map_eq_nil_iff, ite_copies]
    refine ⟨?_, last.leading, last.trailing, added last.leadingOf leading, added last.trailingOf trailing, last.innerOf⟩
    exact congrArg (List.cons (id, extent.start.offset)) last.opened

end

theorem comment (h : Copies f a b) (c : Comment) : Copies f (a.comment c) (b.comment (f c)) where
  opened := h.opened
  leading := by simp [Attachment.comment, h.leading]
  trailing := by simp [Attachment.comment, h.trailing]
  leadingOf := h.leadingOf
  trailingOf := h.trailingOf
  innerOf := h.innerOf

theorem events (h : Copies f a b) (hf : ∀ c, (f c).extent = c.extent) (events : List ParseEvent) :
    Copies f (events.foldl .event a) ((events.map (·.mapComment f)).foldl .event b) := by
  induction events generalizing a b with
  | nil => exact h
  | cons e events ih =>
    cases e with
    | node n extent => exact ih (h.node hf n.info.id n.kind extent)
    | comment c => exact ih (h.comment c)

end Copies

/-- Whatever is kept of comments, the same ones are claimed. -/
theorem ofEvents_copies (hf : ∀ c, (f c).extent = c.extent) (events : List ParseEvent) :
    Copies f (ofEvents events) (ofEvents (events.map (·.mapComment f))) := by
  refine Copies.events ⟨rfl, rfl, rfl, ?_, ?_, ?_⟩ hf events <;> exact fun id => by simp

end Attachment

/-! ## The handler of comments -/

namespace CommentHandler

variable (h : CommentHandler) (events : List ParseEvent)

theorem attach_events : (events.foldl .event h).attach = h.attach := by
  induction events generalizing h with
  | nil => rfl
  | cons e events ih =>
    rw [List.foldl_cons, ih]
    cases e with
    | node => simp only [event]; split <;> rfl
    | comment => rfl

/-- The handler has all comments. -/
theorem comments_events : (events.foldl .event h).comments.toList = h.comments.toList ++
    ParseEvent.comments events := by
  induction events generalizing h with
  | nil => simp [ParseEvent.comments]
  | cons e events ih =>
    rw [List.foldl_cons, ih]
    cases e with
    | node =>
      simp only [event, ParseEvent.comments, List.filterMap_cons, ParseEvent.comment?]
      split <;> rfl
    | comment c => simp [event, ParseEvent.comments, ParseEvent.comment?]

/-- A handler that attaches claims comments as they are attached, with their ranges. -/
theorem claims_events (hattach : h.attach = true) : (events.foldl .event h).claims =
    (events.map (·.mapComment .ranged)).foldl .event h.claims := by
  induction events generalizing h with
  | nil => rfl
  | cons e events ih =>
    rw [List.foldl_cons, List.map_cons, List.foldl_cons]
    cases e with
    | node n extent =>
      have claims : h.event (.node n extent) = { h with claims := h.claims.node n.info.id n.kind extent } :=
        if_pos hattach
      rw [claims]
      exact ih { h with claims := h.claims.node n.info.id n.kind extent } hattach
    | comment c =>
      have claims : h.event (.comment c) =
          { h with comments := h.comments.push c, claims := h.claims.comment c.ranged } := by
        rw [event, if_pos hattach]
      rw [claims]
      exact ih { h with comments := h.comments.push c, claims := h.claims.comment c.ranged } hattach

end CommentHandler

/-- Claims are made for the identity of a node. What else is known of it does not matter. -/
theorem Attachment.node_map (a : Attachment) (id : Nat) (kind : Kind Node) (extent : Extent) (f : Node → Node) :
    a.node id (kind.map f) extent = a.node id kind extent := by
  have block : isEmptyBlock (kind.map f) = isEmptyBlock kind := by
    cases kind with
    | block body => cases body <;> rfl
    | _ => rfl
  have program : isFullProgram (kind.map f) = isFullProgram kind := by
    cases kind with
    | program goal body => cases body <;> rfl
    | _ => rfl
  simp only [node, claimInner, block, program]

/-! ## Programs -/

namespace Record

variable (r : Record) (events : Array ParseEvent)

theorem comments_told (h : r.recording.comments = true) :
    ParseEvent.comments (r.told events) = (ParseEvent.comments events.toList).map r.placed := by
  rw [told, ParseEvent.comments, ParseEvent.comments, List.filterMap_filterMap, List.map_filterMap]
  refine congrArg (List.filterMap · _) (funext fun e => ?_)
  cases e with
  | node => rfl
  | comment => simp [told?, h, ParseEvent.comment?]

/-- Claims on what is told are claims on what has been found, where every comment is as it is kept. -/
theorem claims_told (h : r.recording.comments = true) (a : Attachment) (f : Comment → Comment) :
    ((r.told events).map (·.mapComment f)).foldl .event a =
      (events.toList.map (·.mapComment fun c => f (r.placed c))).foldl .event a := by
  rw [told]
  induction events.toList generalizing a with
  | nil => rfl
  | cons e events ih =>
    cases e with
    | node n extent =>
      have same : a.event (.node (n.mapInfo r.stamp) extent) = a.event (.node n extent) := by
        rw [Attachment.event, Attachment.event, Node.info_mapInfo, Node.kind_mapInfo, Attachment.node_map]
        rfl
      simp only [told?, List.filterMap_cons, List.map_cons, List.foldl_cons, ParseEvent.mapComment, same]
      exact ih _
    | comment c =>
      simp only [told?, if_pos h, List.filterMap_cons, List.map_cons, List.foldl_cons, ParseEvent.mapComment]
      exact ih _

end Record

namespace ParseOptions

variable (o : ParseOptions) (observed : Bool)

/-- What is known of a node that is given back. -/
def stamp (o : ParseOptions) : NodeInfo → NodeInfo := o.presentation.stamp

/-- A comment as it is given back. -/
def placed (o : ParseOptions) : Comment → Comment := (o.record true).placed

/-- A comment as it is attached. -/
def attached (o : ParseOptions) (c : Comment) : Comment := (o.placed c).ranged

/-- A token as it is given back. -/
def relisted (o : ParseOptions) : TokenEntry → TokenEntry := (o.record true).relisted

/-- What an observer is told. -/
def told (o : ParseOptions) : Array ParseEvent → List ParseEvent := (o.record true).told

/-- Nothing has been found yet. -/
theorem share_complete : (o.record observed).share .complete = o.record observed := by
  have handler : (o.record observed).handler.map (fun h => [].foldl CommentHandler.event h) =
      (o.record observed).handler := Option.map_id'
  cases observed <;> cases htokens : o.tokens <;>
    simp only [Record.share, Record.complete, Record.told, List.filterMap_nil, handler] <;>
    simp [record, recording, htokens]

/-- What is known of a node that is given back: what is kept of its place, and of the comments that it claims. -/
def given (o : ParseOptions) (claims : Attachment) (info : NodeInfo) : NodeInfo :=
  if o.attachComment then
    { o.stamp info with
      leading := (claims.leadingOf.of info.id).map o.attached
      trailing := (claims.trailingOf.of info.id).map o.attached
      inner := (claims.innerOf.of info.id).map o.attached }
  else o.stamp info

theorem given_marks (claims : Attachment) : NodeInfo.Marks (o.given claims) := by
  constructor <;> intro info <;> rw [given] <;> split <;> rfl

end ParseOptions

namespace Program

/-- What the options ask for of what a parse with a complete record has found. -/
def asked (o : ParseOptions) (root : Node) (s : ParseState) : Program where
  root := root.mapInfo (o.given (.ofEvents s.record.events.toList))
  comments := wanted o.comment ((ParseEvent.comments s.record.events.toList).map o.placed)
  tokens := wanted o.tokens (s.record.tokens.toList.map o.relisted)
  errors := wanted o.tolerant s.scanner.errors

/-- What is given back is the tree that has been found, with something else known of its nodes. -/
theorem asked_recast (o : ParseOptions) (root : Node) (s : ParseState) : root.Recast (asked o root s).root :=
  Node.mapInfo_recast (o.given_marks _) root

/-- What is written of the place of a node comes from its extent. -/
theorem asked_placement {o : ParseOptions} {root : Node} {s : ParseState} {entry : Nat × Node} {e : Extent}
    (hentry : entry ∈ (asked o root s).root.walk) (he : entry.2.info.extent = some e) :
    entry.2.info.placement = o.presentation.placeOf e := by
  rw [asked, Node.walk_mapInfo] at hentry
  obtain ⟨⟨depth, n⟩, -, rfl⟩ := List.mem_map.1 hentry
  have stamped (claims : Attachment) : (o.given claims n.info).placement = (o.stamp n.info).placement := by
    rw [ParseOptions.given]
    split <;> rfl
  rw [Node.info_mapInfo, (o.given_marks _).extent] at he
  rw [Node.info_mapInfo, stamped]
  exact congrArg (fun extent => (extent.map o.presentation.placeOf).getD {}) he

theorem ofParse_sharing (o : ParseOptions) (observed : Bool) (root : Node) (s : ParseState) :
    ofParse o (root.mapInfo (o.record observed).stamp) (s.sharing (o.record observed)) = asked o root s := by
  have handler : (s.sharing (o.record observed)).record.handler =
      (wanted o.collectsComments { attach := o.attachComment }).map
        (o.told s.record.events |>.foldl CommentHandler.event) := rfl
  have tokens : (s.sharing (o.record observed)).record.tokens =
      if o.tokens then s.record.tokens.map o.relisted else #[] := rfl
  have errors : (s.sharing (o.record observed)).scanner.errors = s.scanner.errors := rfl
  rw [ofParse, asked, handler, tokens, errors, mk.injEq]
  have collects (h : o.attachComment = true ∨ o.comment = true) : o.collectsComments = true := by
    rcases h with h | h <;> simp [ParseOptions.collectsComments, h]
  refine ⟨?_, ?_, ?_, rfl⟩
  · cases hattach : o.attachComment with
    | true =>
      have claims := (o.record true).claims_told s.record.events (collects (.inl hattach)) {} .ranged
      rw [wanted, if_pos (collects (.inl hattach))]
      simp only [Option.map_some, CommentHandler.finish, CommentHandler.attach_events, if_true,
        CommentHandler.claims_events]
      have copies := Attachment.ofEvents_copies (f := o.attached) (fun _ => rfl) s.record.events.toList
      refine (congrArg (Attachment.apply · (root.mapInfo o.stamp)) claims).trans ?_
      rw [Attachment.apply, Node.mapInfo_mapInfo]
      refine congrArg (Node.mapInfo · root) (funext fun info => ?_)
      rw [ParseOptions.given, if_pos hattach, ← copies.leadingOf, ← copies.trailingOf, ← copies.innerOf]
      rfl
    | false =>
      have plain : root.mapInfo o.stamp = root.mapInfo (o.given (.ofEvents s.record.events.toList)) :=
        congrArg (Node.mapInfo · root) (funext fun info => by simp [ParseOptions.given, hattach])
      cases o.collectsComments with
      | true =>
        simp only [wanted, Option.map_some, CommentHandler.finish, CommentHandler.attach_events, if_true, if_false,
          Bool.false_eq_true]
        exact plain
      | false => exact plain
  · cases hcomment : o.comment with
    | true =>
      have comments := (o.record true).comments_told s.record.events (collects (.inr hcomment))
      simp only [wanted, if_pos (collects (.inr hcomment)), Option.map_some, Option.bind_some, if_true,
        CommentHandler.comments_events, List.nil_append]
      exact congrArg some comments
    | false => cases o.collectsComments <;> rfl
  · cases o.tokens <;> simp [wanted]

end Program

variable {source : String} {o : ParseOptions} {p : Program}

/-- A parse gives back what its options ask for of what a complete record holds, and an observer is told as much. -/
theorem parseObserved_eq (observed : Bool) (source : String) (o : ParseOptions) : parseObserved observed source o =
    match Parse.source source o.dialect with
    | .ok root s => (if observed then o.told s.record.events else [], .ok (.asked o root s))
    | .error failure s => (if observed then o.told s.record.events else [], .error failure) := by
  have mirrors := Parse.source_follows source o.dialect (o.record observed) (o.share_complete observed)
  have events (s : ParseState) : (s.sharing (o.record observed)).record.events.toList =
      if observed then o.told s.record.events else [] := by
    cases observed <;> rfl
  rw [parseObserved]
  generalize Parse.source source o.dialect = x, Parse.source source o.dialect (o.record observed) = y at mirrors
  cases mirrors with
  | ok root _ => exact Prod.ext (events _) (congrArg Except.ok (Program.ofParse_sharing o observed root _))
  | error failure _ => exact Prod.ext (events _) rfl

theorem parse_eq_ok : parse source o = .ok p ↔
    ∃ root s, Parse.source source o.dialect = .ok root s ∧ p = .asked o root s := by
  rw [parse, parseObserved_eq]
  cases Parse.source source o.dialect <;> simp [eq_comm, and_assoc]

theorem parseWithEvents_eq_ok : (parseWithEvents source o).2 = .ok p ↔
    ∃ root s, Parse.source source o.dialect = .ok root s ∧ p = .asked o root s ∧
      (parseWithEvents source o).1 = o.told s.record.events := by
  rw [parseWithEvents, parseObserved_eq]
  cases Parse.source source o.dialect <;> simp [eq_comm, and_assoc]

end EcmaTree
