import EcmaTree.Program
import EcmaTree.Proofs.Marking

/-!
# Complete records and others

A complete record holds everything that a parse finds. Whatever else a parse is to record, at every point there is in
its record what `Record.share` takes of the complete one: the tokens if they are listed, the events that are told to
someone, and what the handler of comments has made of them, each with what is kept of its place.
-/

namespace EcmaTree

/-- What is known of a node, with what is kept of its place. -/
def Presentation.stamp (p : Presentation) (info : NodeInfo) : NodeInfo :=
  { info with placement := (info.extent.map p.placeOf).getD {} }

namespace Record

/-- What is known of a node in a parse with this record. -/
def stamp (r : Record) : NodeInfo → NodeInfo := r.recording.presentation.stamp

/-- A listed token, with what is kept of its place. -/
def relisted (r : Record) (e : TokenEntry) : TokenEntry :=
  { e with placement := r.recording.presentation.unnamed.place e.token.range e.start e.stop }

/-- What is told of an event, if anything is. -/
def told? (r : Record) : ParseEvent → Option ParseEvent
  | .node n extent => some (.node (n.mapInfo r.stamp) extent)
  | .comment c => if r.recording.comments then some (.comment (r.placed c)) else none

/-- What is told of all events. -/
def told (r : Record) (events : Array ParseEvent) : List ParseEvent := events.toList.filterMap r.told?

/-- What there is in this record, when everything that has been found is `full`. -/
def share (r full : Record) : Record where
  recording := r.recording
  tokens := if r.recording.tokens then full.tokens.map r.relisted else #[]
  events := if r.recording.observed then (r.told full.events).toArray else #[]
  handler := r.handler.map fun h => (r.told full.events).foldl .event h

variable (r full : Record)

/-- Everything is recorded. -/
def Full (full : Record) : Prop := full.recording = { tokens := true, comments := true, observed := true }

variable {full}

theorem Full.list (h : full.Full) (t : Token) (first last : Cursor) : (full.list t first last).Full := by
  unfold Record.list
  split
  · exact h
  · exact h

theorem Full.unlist (h : full.Full) : full.unlist.Full := by
  unfold Record.unlist
  split
  · exact h
  · exact h

theorem Full.report (h : full.Full) (e : ParseEvent) : (full.report e).Full := h

/-! What a complete record holds is what it has been given. -/

theorem list_events (t : Token) (first last : Cursor) : (r.list t first last).events = r.events := by
  unfold Record.list
  split <;> rfl

theorem unlist_events : r.unlist.events = r.events := by
  unfold Record.unlist
  split <;> rfl

theorem pass_tokens (comments : List Comment) : (r.pass comments).tokens = r.tokens := by
  have tokens (r : Record) : (comments.foldl (fun r c => r.report (.comment (r.placed c))) r).tokens = r.tokens := by
    induction comments generalizing r with
    | nil => rfl
    | cons c cs ih => exact ih _
  unfold Record.pass
  split
  · exact tokens r
  · rfl

theorem Full.list_tokens (h : full.Full) (t : Token) (first last : Cursor) :
    (full.list t first last).tokens = full.tokens.push ⟨t, first.position, last.position, {}⟩ := by
  rw [Record.list, h]
  rfl

theorem Full.unlist_tokens (h : full.Full) : full.unlist.tokens = full.tokens.pop := by
  rw [Record.unlist, h]
  rfl

theorem Full.report_events (h : full.Full) (e : ParseEvent) : (full.report e).events = full.events.push e := by
  rw [Record.report, h]
  rfl

theorem share_list (h : full.Full) (t : Token) (first last : Cursor) :
    r.share (full.list t first last) = (r.share full).list t first last := by
  rw [list, list, h, if_pos rfl]
  by_cases ht : r.recording.tokens = true <;> simp [share, ht, relisted, Presentation.place]

theorem share_unlist (h : full.Full) : r.share full.unlist = (r.share full).unlist := by
  rw [unlist, unlist, h, if_pos rfl]
  by_cases ht : r.recording.tokens = true <;> simp [share, ht]

theorem told_push (events : Array ParseEvent) (e : ParseEvent) :
    r.told (events.push e) = r.told events ++ (r.told? e).toList := by
  rw [told, Array.toList_push, List.filterMap_append, told]
  cases htold : r.told? e <;> simp [htold]

/-- An event is told, or it is not. -/
theorem share_report (h : full.Full) (e : ParseEvent) :
    r.share (full.report e) = ((r.told? e).map (r.share full).report).getD (r.share full) := by
  have tokens : (full.report e).tokens = full.tokens := rfl
  have events : (full.report e).events = full.events.push e := by rw [report, h, if_pos rfl]
  rw [share, tokens, events, told_push]
  cases r.told? e with
  | none => simp [share]
  | some e =>
    simp only [share, report, Option.toList_some, Option.map_some, Option.getD_some, Option.map_map,
      Record.mk.injEq, true_and]
    refine ⟨?_, ?_⟩
    · split <;> simp
    · cases r.handler <;> simp

theorem share_node (h : full.Full) (n : Node) (extent : Extent) :
    r.share (full.report (.node n extent)) = (r.share full).report (.node (n.mapInfo r.stamp) extent) :=
  r.share_report h _

theorem share_comment (h : full.Full) (c : Comment) : r.share (full.report (.comment (full.placed c))) =
    if r.recording.comments then (r.share full).report (.comment ((r.share full).placed c)) else r.share full := by
  rw [share_report r h, told?]
  by_cases hkeep : r.recording.comments = true
  · rw [if_pos hkeep, if_pos hkeep]
    rfl
  · rw [if_neg hkeep, if_neg hkeep]
    rfl

theorem pass_nil : r.pass [] = r := by
  unfold pass
  split <;> rfl

/-- Comments are passed one by one, if they are passed at all. -/
theorem pass_cons (c : Comment) (cs : List Comment) :
    r.pass (c :: cs) = if r.recording.comments then (r.report (.comment (r.placed c))).pass cs else r := by
  have same : (r.report (.comment (r.placed c))).recording = r.recording := rfl
  by_cases hkeep : r.recording.comments = true
  · rw [pass, if_pos hkeep, if_pos hkeep, pass, same, if_pos hkeep]
    rfl
  · rw [pass, if_neg hkeep, if_neg hkeep]

theorem Full.pass_cons (h : full.Full) (c : Comment) (cs : List Comment) :
    full.pass (c :: cs) = (full.report (.comment (full.placed c))).pass cs := by
  rw [Record.pass_cons, h, if_pos rfl]

theorem Full.pass (h : full.Full) (comments : List Comment) : (full.pass comments).Full := by
  induction comments generalizing full with
  | nil => rwa [pass_nil]
  | cons c cs ih =>
    rw [h.pass_cons]
    exact ih (h.report _)

/-- Comments of which nothing is kept are reported as they are. -/
theorem Full.pass_events (h : full.Full) {comments : List Comment} (hc : ∀ c ∈ comments, c.placement = {}) :
    (full.pass comments).events = full.events ++ (comments.map ParseEvent.comment).toArray := by
  induction comments generalizing full with
  | nil => simp [pass_nil]
  | cons c cs ih =>
    have same : full.placed c = c := by
      rw [Record.placed, h]
      exact congrArg (fun placement => { c with placement }) (hc c (List.mem_cons_self ..)).symm
    rw [h.pass_cons, ih (h.report _) fun d hd => hc d (List.mem_cons_of_mem _ hd), h.report_events, same]
    simp

theorem share_pass (h : full.Full) (comments : List Comment) :
    r.share (full.pass comments) = (r.share full).pass (if r.recording.comments then comments else []) := by
  induction comments generalizing full with
  | nil => rw [ite_self, pass_nil, pass_nil]
  | cons c cs ih =>
    have same : (r.share full).recording = r.recording := rfl
    rw [h.pass_cons, ih (h.report _), share_comment r h]
    by_cases hkeep : r.recording.comments = true
    · rw [if_pos hkeep, if_pos hkeep, if_pos hkeep, pass_cons, same, if_pos hkeep]
    · rw [if_neg hkeep, if_neg hkeep, if_neg hkeep]

end Record

end EcmaTree
