import EcmaTree.Proofs.Attachment.Steps
import EcmaTree.Proofs.Course.Basic
import EcmaTree.Proofs.Identity
import EcmaTree.Proofs.Spans
import Mathlib.Data.List.Induction

/-!
# Events in order

Nodes are numbered in the order in which they are finished, and comments are reported in the order of the source. When
a node is finished, the comments that have been reported lie before its beginning or behind it: the token with which
it begins was read when the comments before it had been passed, and those behind it came later. In JSX a node may
begin where a comment does, since what stands in braces may be a comment and nothing else.
-/

namespace EcmaTree

open ParseEvent (comments)
open Tokens (reported)

@[simp] theorem ParseEvent.nodes_node (events : List ParseEvent) (n : Node) (e : Extent) :
    nodes (events ++ [.node n e]) = nodes events ++ [(n, e)] := by
  simp [nodes, node?]

@[simp] theorem ParseEvent.nodes_comment (events : List ParseEvent) (c : Comment) :
    nodes (events ++ [.comment c]) = nodes events := by
  simp [nodes, node?]

/-- The offset is inside of none of the comments. In JSX one of them may begin there. -/
def ClearAt (jsx : Bool) (cs : List Comment) (offset : Nat) : Prop :=
  ∀ c ∈ cs, c.stop ≤ offset ∨ offset < c.start ∨ jsx = true ∧ c.start = offset

/-- Nodes are numbered as they are finished, and begin clear of the comments that have been reported by then. -/
def Orderly (jsx : Bool) (events : List ParseEvent) : Prop :=
  ∀ before n e, before ++ [.node n e] <+: events →
    n.info.id = (ParseEvent.nodes before).length + 1 ∧ ClearAt jsx (comments before) e.start.offset

namespace Orderly

variable {jsx : Bool} {events before : List ParseEvent} {n : Node} {e : Extent}

theorem of_prefix (h : Orderly jsx events) (hb : before <+: events) : Orderly jsx before :=
  fun _ _ _ hp => h _ _ _ (hp.trans hb)

theorem nil : Orderly jsx [] := fun _ _ _ hp => by simp at hp

theorem comment (h : Orderly jsx events) (c : Comment) : Orderly jsx (events ++ [.comment c]) := fun _ _ _ hp => by
  rcases List.prefix_concat_iff.1 hp with he | hp
  · cases List.append_inj_right' he rfl
  · exact h _ _ _ hp

theorem comments (h : Orderly jsx events) (cs : List Comment) : Orderly jsx (events ++ cs.map ParseEvent.comment) := by
  induction cs generalizing events with
  | nil => simpa using h
  | cons c cs ih => simpa using ih (h.comment c)

theorem node (h : Orderly jsx events) (hid : n.info.id = (ParseEvent.nodes events).length + 1)
    (hclear : ClearAt jsx (ParseEvent.comments events) e.start.offset) : Orderly jsx (events ++ [.node n e]) :=
  fun _ _ _ hp => by
  rcases List.prefix_concat_iff.1 hp with he | hp
  · obtain ⟨rfl, same⟩ := List.append_inj' he rfl
    cases same
    exact ⟨hid, hclear⟩
  · exact h _ _ _ hp

/-- The identity of a node is its number. -/
theorem id_of_getElem? (h : Orderly jsx events) {k : Nat} (hk : (ParseEvent.nodes events)[k]? = some (n, e)) :
    n.info.id = k + 1 := by
  induction events using List.reverseRecOn with
  | nil => cases hk
  | append_singleton events event ih =>
    have ih := ih (h.of_prefix (List.prefix_append ..))
    cases event with
    | comment c => exact ih (by rwa [ParseEvent.nodes_comment] at hk)
    | node m f =>
      rw [ParseEvent.nodes_node, List.getElem?_append] at hk
      split at hk
      · exact ih hk
      next hlt =>
        obtain ⟨hone, hnode⟩ := List.getElem?_eq_some_iff.1 hk
        obtain rfl : m = n := congrArg Prod.fst (List.mem_singleton.1 (hnode ▸ List.getElem_mem hone)).symm
        rw [(h events m f (List.prefix_refl _)).1]
        have : k - (ParseEvent.nodes events).length < 1 := hone
        omega

/-- Every node among the events has a number. -/
theorem id_of_mem (h : Orderly jsx events) (hn : (n, e) ∈ ParseEvent.nodes events) :
    0 < n.info.id ∧ n.info.id ≤ (ParseEvent.nodes events).length ∧
      (ParseEvent.nodes events)[n.info.id - 1]? = some (n, e) := by
  obtain ⟨k, hk⟩ := List.mem_iff_getElem?.1 hn
  have hid := h.id_of_getElem? hk
  obtain ⟨hlt, -⟩ := List.getElem?_eq_some_iff.1 hk
  rw [hid]
  exact ⟨Nat.succ_pos _, hlt, hk⟩

end Orderly

namespace ParseState

/-- The next node begins with the lookahead, behind all comments that have been reported. -/
def Poised (s : ParseState) : Prop := Spans.Fresh s ∧ ∀ c ∈ reported s, c.stop ≤ s.start.offset

end ParseState

/-! ## What every production keeps -/

namespace Reports

variable {text : String} {jsx : Bool} {m o : Mode} {r s t u : ParseState}

/-- Where a parse stands, and what it has reported. -/
structure Stands (text : String) (jsx : Bool) (m : Mode) (s : ParseState) : Prop where
  placed : s.Placed (.ofString text) m
  complete : s.Complete
  dialect : s.dialect.jsx = jsx
  counted : s.finished = s.nodes.length
  orderly : Orderly jsx s.record.events.toList
  passed : ∀ c ∈ reported s, c.stop ≤ (s.view m).start.offset

/-- The parse has moved on. What it has reported since lies behind where it was. -/
structure Steps (jsx : Bool) (s t : ParseState) : Prop where
  poised : t.Poised → s.Poised
  start : s.start.offset ≤ t.start.offset
  since : ∀ c ∈ reported t, c ∈ reported s ∨ s.start.offset < c.start ∨ jsx = true ∧ c.start = s.start.offset

/-- The parse has moved on from where a node may begin. -/
def Read (jsx : Bool) (s t : ParseState) : Prop := s.Poised ∧ Steps jsx s t

theorem Steps.trans (h : Steps jsx r s) (h' : Steps jsx s t) : Steps jsx r t where
  poised := h.poised ∘ h'.poised
  start := Nat.le_trans h.start h'.start
  since c hc := by
    have := h.start
    rcases h'.since c hc with hc | hlt | ⟨hjsx, heq⟩
    · exact h.since c hc
    · exact .inr (.inl (by omega))
    · rcases Nat.lt_or_eq_of_le this with hlt | hsame
      · exact .inr (.inl (by omega))
      · exact .inr (.inr ⟨hjsx, heq.trans hsame.symm⟩)

theorem Steps.rests (h : s.Rests t) : Steps jsx s t := by
  obtain ⟨_, _, _, _, _, rfl, _⟩ := h
  exact ⟨id, Nat.le_refl _, fun c hc => .inl hc⟩

theorem Read.after (h : Steps jsx r s) (h' : Read jsx s t) : Read jsx r t := ⟨h.poised h'.1, h.trans h'.2⟩

theorem Read.before (h : Read jsx r s) (h' : Steps jsx s t) : Read jsx r t := ⟨h.1, h.2.trans h'⟩

/-- A node that begins with the lookahead of the first state is clear of all that has been reported. -/
theorem Read.clear (h : Read jsx s t) : ClearAt jsx (reported t) s.start.offset := fun c hc => by
  rcases h.2.since c hc with hc | behind
  · exact .inl (h.1.2 c hc)
  · exact .inr behind

namespace Stands

theorem poised (h : Stands text jsx .ahead s) : s.Poised := by
  refine ⟨?_, h.passed⟩
  have := (show s.Sited (.ofString text) from h.placed).lexed.eq
  rw [Spans.Fresh, this]
  rfl

theorem poised_unread (h : Stands text jsx m s) (hm : m ≠ .ahead) : s.unread.Poised := by
  refine ⟨rfl, ?_⟩
  have := h.passed
  cases m
  · exact absurd rfl hm
  · exact this
  · exact this

/-- Only what has been read counts, and what has been reported. -/
theorem congr (h : Stands text jsx m s) (hplaced : t.Placed (.ofString text) o) (hcomplete : t.Complete)
    (hevents : t.record.events = s.record.events) (hsame : (t.dialect.jsx, t.finished) = (s.dialect.jsx, s.finished))
    (hstart : (s.view m).start.offset ≤ (t.view o).start.offset) : Stands text jsx o t := by
  obtain ⟨hjsx, hfinished⟩ : t.dialect.jsx = s.dialect.jsx ∧ t.finished = s.finished := by simpa using hsame
  refine ⟨hplaced, hcomplete, hjsx.trans h.dialect, ?_, hevents ▸ h.orderly,
    fun c hc => Nat.le_trans (h.passed c ?_) hstart⟩
  · rw [hfinished, ParseState.nodes, hevents]
    exact h.counted
  · rwa [Tokens.reported_eq hevents] at hc

/-- The same, where nothing has been recorded. -/
theorem unrecorded (h : Stands text jsx m s) (hplaced : t.Placed (.ofString text) o)
    (hsame : (t.dialect.jsx, t.finished, t.record, t.scanner.keepsComments) =
      (s.dialect.jsx, s.finished, s.record, s.scanner.keepsComments))
    (hstart : (s.view m).start.offset ≤ (t.view o).start.offset) : Stands text jsx o t := by
  simp only [Prod.mk.injEq] at hsame
  obtain ⟨hjsx, hfinished, hrecord, hkeep⟩ := hsame
  have complete : t.Complete := h.complete.congr (congrArg Record.recording hrecord) hkeep
  exact h.congr hplaced complete (congrArg Record.events hrecord) (by rw [hjsx, hfinished]) hstart

/-- The trivia at the scanner is reported. -/
theorem skipped (h : Stands text jsx m s) (hplaced : t.Placed (.ofString text) o) (hcomplete : t.Complete)
    (hevents : t.record.events = s.passing.events) (hsame : (t.dialect.jsx, t.finished) = (s.dialect.jsx, s.finished))
    (hcursor : (s.view m).start.offset ≤ s.scanner.cursor.offset)
    (hstart : s.trivia.cursor.offset ≤ (t.view o).start.offset) :
    Stands text jsx o t ∧ ∀ c ∈ reported t, c ∈ reported s ∨ c ∈ s.trivia.comments ∧
      s.scanner.cursor.offset ≤ c.start := by
  obtain ⟨hjsx, hfinished⟩ : t.dialect.jsx = s.dialect.jsx ∧ t.finished = s.finished := by simpa using hsame
  have trivia := h.complete.passed
  have le := trivia.reaches.offset_le
  have same : t.nodes = s.nodes := by
    rw [ParseState.nodes, hevents]
    exact Record.pass_nodes _ _
  have new {c : Comment} (hc : c ∈ reported t) : c ∈ reported s ∨ c ∈ s.trivia.comments := by
    rwa [Tokens.reported_passing h.complete hevents, List.mem_append] at hc
  refine ⟨⟨hplaced, hcomplete, hjsx.trans h.dialect, ?_, ?_, fun c hc => ?_⟩, fun c hc => ?_⟩
  · rw [hfinished, same]
    exact h.counted
  · rw [hevents, h.complete.passing_events]
    simpa using h.orderly.comments s.trivia.comments
  · rcases new hc with hc | hc
    · exact Nat.le_trans (h.passed c hc) (Nat.le_trans hcursor (Nat.le_trans le hstart))
    · exact Nat.le_trans (trivia.between c hc).2 hstart
  · exact (new hc).imp id fun hc => ⟨hc, (trivia.between c hc).1⟩

theorem rests (h : Stands text jsx m s) (ht : s.Rests t) : Stands text jsx m t := by
  have placed := h.placed.rests ht
  obtain ⟨_, _, _, _, _, rfl, _⟩ := ht
  refine h.unrecorded placed rfl ?_
  cases m <;> exact Nat.le_refl _

theorem cursor_ge (h : Stands text jsx m s) : (s.view m).start.offset ≤ s.scanner.cursor.offset := by
  cases m
  · exact (show s.Sited (.ofString text) from h.placed).lexed.reaches.offset_le
  · exact Nat.le_refl _
  · exact Nat.le_refl _

/-- A token is consumed, and the trivia behind it is reported. -/
theorem advances (h : Stands text jsx m s) (ht : s.Advances t) : Stands text jsx .ahead t ∧
    s.scanner.cursor.offset ≤ t.start.offset ∧
    ∀ c ∈ reported t, c ∈ reported s ∨ c ∈ s.trivia.comments ∧ s.scanner.cursor.offset ≤ c.start := by
  have placed := h.placed.advances ht
  have complete := h.complete.advances ht
  have events := Tokens.events_advances ht
  have start := (ParseState.nextStart_spec h.placed.start h.placed.cursor).1
  have trivia := h.complete.passed.reaches.offset_le
  have le : s.scanner.cursor.offset ≤ s.nextStart.offset := by rw [start]; exact trivia
  obtain ⟨_, _, _, _, _, _, _, rfl⟩ := ht
  obtain ⟨stands, since⟩ := h.skipped placed complete events rfl h.cursor_ge (Nat.le_of_eq start.symm)
  exact ⟨stands, le, since⟩

/-- A comment that is reported behind the lookahead lies behind where that begins: at the end of the source none is
left. -/
theorem next (h : Stands text jsx .ahead s) (ht : s.Advances t) : Stands text jsx .ahead t ∧ Read jsx s t := by
  have sited : s.Sited (.ofString text) := h.placed
  obtain ⟨stands, start, since⟩ := h.advances ht
  refine ⟨stands, h.poised, fun _ => h.poised, Nat.le_trans h.cursor_ge start, fun c hc => ?_⟩
  refine (since c hc).imp id fun ⟨hc, behind⟩ => .inl (Nat.lt_of_lt_of_le (sited.lexed.advances ?_) behind)
  rw [← Bool.not_eq_true]
  intro hend
  obtain ⟨cs, hrest, hoffset⟩ := sited.lexed.reaches
  obtain ⟨rfl, hcursor⟩ : cs = [] ∧ s.scanner.cursor.rest = [] := by simpa [sited.lexed.end_iff.1 hend] using hrest
  have none : s.trivia = ⟨[], s.scanner.cursor, false⟩ :=
    sited.settled (hcursor.trans (sited.lexed.end_iff.1 hend).symm) hoffset
  rw [none] at hc
  cases hc

theorem passesOver (h : Stands text jsx .ahead s) (ht : s.PassesOver t) : Stands text jsx .ahead t ∧ Read jsx s t := by
  obtain ⟨u, hu, rests⟩ := ht.advances
  obtain ⟨stands, read⟩ := h.next hu
  exact ⟨stands.rests rests, read.before (.rests rests)⟩

theorem regex (h : Stands text jsx .ahead s) (hu : s.Rescans u) (ht : u.Advances t) :
    Stands text jsx .ahead t ∧ Read jsx s t := by
  have placed : u.Placed (.ofString text) .ahead := hu.sited h.placed
  have complete := h.complete.rescans hu
  have events := Tokens.events_rescans hu
  have same := Tokens.reported_rescans hu
  obtain ⟨_, _, _, _, _, _, _, rfl⟩ := hu
  obtain ⟨stands, -, steps⟩ := (h.congr placed complete events rfl (Nat.le_refl _)).next ht
  exact ⟨stands, h.poised, fun _ => h.poised, steps.start, fun c hc => same ▸ steps.since c hc⟩

/-- A node is finished that begins clear of all that has been reported. -/
theorem record {n : Node} {e : Extent} (h : Stands text jsx m s) (hid : n.info.id = s.finished + 1)
    (hclear : ClearAt jsx (reported s) e.start.offset)
    (ht : t = { s with finished := s.finished + 1, record := s.record.report (.node n e) }) :
    Stands text jsx m t ∧ Steps jsx (s.view m) (t.view m) := by
  subst ht
  have counted : s.finished = (ParseEvent.nodes s.record.events.toList).length := h.counted
  have same := Tokens.reported_finished h.complete n e
  refine ⟨⟨h.placed.congr rfl, h.complete.finished _, h.dialect, ?_, ?_, fun c hc => ?_⟩, ?_⟩
  · simp [ParseState.nodes, h.complete.record.report_events, counted]
  · rw [h.complete.record.report_events, Array.toList_push]
    exact h.orderly.node (by rw [hid, counted]) hclear
  · rw [same] at hc
    have := h.passed c hc
    cases m <;> exact this
  · have steps {u v : ParseState} (hstart : v.start = u.start) (hahead : v.lookahead = u.lookahead)
        (hreported : reported v = reported u) : Steps jsx u v := by
      refine ⟨fun h => ?_, Nat.le_of_eq (by rw [hstart]), fun c hc => .inl (by rwa [← hreported])⟩
      rwa [ParseState.Poised, Spans.Fresh, hstart, hahead, hreported] at h
    cases m <;> exact steps rfl rfl same

theorem finish {base : ParseState} {start : Place} {kind : Kind Node} {n : Node} (h : Stands text jsx m s)
    (hread : Read jsx base (s.view m)) (hstart : base.Marks start)
    (hn : n = .mk (s.finishedInfo start) kind)
    (ht : t = { s with finished := s.finished + 1, record := s.record.report (.node n ⟨start, s.last⟩) }) :
    Stands text jsx m t ∧ Steps jsx (s.view m) (t.view m) := by
  have begins : start.offset = base.start.offset := by
    rcases hstart with rfl | ⟨lineAbove, rfl⟩
    · rfl
    · refine Eq.trans ?_ hread.1.1
      unfold Token.placeAfter
      split <;> rfl
  refine h.record (by rw [hn]; rfl) ?_ ht
  have clear := hread.clear
  rw [← begins] at clear
  cases m <;> exact clear

/-! ### JSX -/

/-- In JSX a comment may begin where the scanner stands. -/
theorem inside (hjsx : jsx = true) (h : Stands text jsx m s) (hm : m ≠ .ahead)
    (hstart : s.scanner.cursor.offset ≤ t.start.offset)
    (hsince : ∀ c ∈ reported t, c ∈ reported s ∨ c ∈ s.trivia.comments ∧ s.scanner.cursor.offset ≤ c.start) :
    Read jsx s.unread t := by
  refine ⟨h.poised_unread hm, fun _ => h.poised_unread hm, hstart,
    fun c hc => (hsince c hc).imp id fun ⟨_, behind⟩ => ?_⟩
  exact (Nat.lt_or_eq_of_le behind).imp id fun same => ⟨hjsx, same.symm⟩

theorem startJsx (h : Stands text jsx .ahead s)
    (ht : t = { s with record := s.record.unlist, scanner.cursor := s.start }) :
    Stands text jsx .entering t ∧ Steps jsx s t.unread := by
  subst ht
  have stands : Stands text jsx .entering { s with record := s.record.unlist, scanner.cursor := s.start } :=
    h.congr (h.placed.enter.congr rfl) h.complete.enters (Record.unlist_events _) rfl (Nat.le_refl _)
  refine ⟨stands, fun _ => h.poised, Nat.le_refl _, fun c hc => .inl ?_⟩
  rwa [← Tokens.reported_enters]

theorem skips (hjsx : jsx = true) (h : Stands text jsx m s) (hm : m ≠ .ahead) (ht : s.Skips t) :
    Stands text jsx m t ∧ Read jsx s.unread t.unread := by
  have placed := h.placed.skips hm ht
  have complete := h.complete.skips ht
  have trivia := h.complete.passed.reaches.offset_le
  obtain ⟨_, _, _, rfl⟩ := ht
  have stands := h.skipped placed complete rfl rfl h.cursor_ge
    (by cases m <;> first | exact absurd rfl hm | exact Nat.le_refl _)
  exact ⟨stands.1, h.inside hjsx hm trivia stands.2⟩

theorem nextJsx {token : Token} (hjsx : jsx = true) (h : Stands text jsx m s) (hm : m ≠ .ahead)
    (ht : s.AdvancesJsx token t) :
    Stands text jsx .inside t ∧ Read jsx s.unread t.unread := by
  have placed := h.placed.advancesJsx ht
  have complete := h.complete.advancesJsx ht
  have events := Tokens.events_advancesJsx ht
  have trivia := h.complete.passed.reaches.offset_le
  obtain ⟨stop, _, _, lexed, _, rfl⟩ := ht
  have reaches := lexed.reaches.offset_le
  obtain ⟨stands, since⟩ := h.skipped placed complete events rfl h.cursor_ge reaches
  exact ⟨stands, h.inside hjsx hm (Nat.le_trans trivia reaches) since⟩

theorem nextJsxText {token : Token} (h : Stands text jsx .inside s) (ht : s.AdvancesText token t) :
    Stands text jsx .inside t ∧ Read jsx s.unread t.unread := by
  have placed := h.placed.advancesText ht
  have complete := h.complete.advancesText ht
  have events := Tokens.events_advancesText ht
  have same := Tokens.reported_advancesText ht
  obtain ⟨stop, _, _, _, reaches, _, _, rfl⟩ := ht
  have poised := h.poised_unread (by simp)
  exact ⟨h.congr placed complete events rfl reaches.offset_le, poised, fun _ => poised, reaches.offset_le,
    fun c hc => .inl (same ▸ hc)⟩

/-- What stands in braces for trivia begins where the scanner stood before the trivia. -/
theorem emptyExpression {n : Node} (hjsx : jsx = true) (h : Stands text jsx .inside s) (ht : s.SkipsEmpty n t) :
    Stands text jsx .inside t ∧ Read jsx s.unread t.unread := by
  obtain ⟨u, hu, hn, ht⟩ := ht
  obtain ⟨stands, read⟩ := h.skips hjsx (by simp) hu
  have ended : Stands text jsx .inside { u with last := u.scanner.cursor.place } :=
    stands.unrecorded (stands.placed.congr rfl) rfl (Nat.le_refl _)
  obtain ⟨stands, steps⟩ := ended.record (e := ⟨s.scanner.cursor.place, u.scanner.cursor.place⟩)
    (by rw [hn]; rfl) read.clear ht
  have still : Steps jsx u.unread (ParseState.unread { u with last := u.scanner.cursor.place }) :=
    ⟨id, Nat.le_refl _, fun c hc => .inl hc⟩
  exact ⟨stands, read.before (still.trans steps)⟩

theorem skipInside (hjsx : jsx = true) (h : Stands text jsx .inside s) (ht : s.Advances t) :
    Stands text jsx .ahead t ∧ Read jsx s.unread t := by
  obtain ⟨stands, start, since⟩ := h.advances ht
  exact ⟨stands, h.inside hjsx (by simp) start since⟩

theorem reenter (hjsx : jsx = true) (h : Stands text jsx .ahead s) (ht : s.Reenters t) :
    Stands text jsx .inside t ∧ Read jsx s t.unread := by
  obtain ⟨brace, u, hu, -, rfl⟩ := ht
  have entered : Stands text jsx .entering { s with scanner.cursor := s.start } :=
    h.unrecorded h.placed.enter rfl (Nat.le_refl _)
  obtain ⟨stands, -, steps⟩ := entered.nextJsx hjsx (by simp) hu
  have complete : ParseState.Complete { u with record := u.record.unlist } :=
    ⟨stands.complete.record.unlist, stands.complete.scanner⟩
  have same : reported { u with record := u.record.unlist } = reported u := Tokens.reported_eq (Record.unlist_events _)
  refine ⟨stands.congr (stands.placed.congr rfl) complete (Record.unlist_events _) rfl (Nat.le_refl _), h.poised,
    fun _ => h.poised, steps.start, fun c hc => steps.since c ?_⟩
  exact same ▸ hc

end Stands

/-- Events come in order. -/
def contract (text : String) (jsx : Bool) : Contract where
  toJudgement := .onSuccess
  Stands m s := Stands text jsx m s ∧ (m ≠ .ahead → jsx = true)
  Steps := Steps jsx
  Read := Read jsx
  Later := Steps jsx
  Good _ _ _ := True
  Firm _ _ _ := True
  Past _ _ := True
  Tells _ _ _ := True
  Escapes _ := True
  Initial s := Stands text jsx .entering s
  Opened s := s.Poised
  steps_trans := Steps.trans
  steps_of_rests := Steps.rests
  steps_of_read h := h.2
  read_of_steps := Read.after
  read_later := Read.before
  later_of_steps h := h
  stands_of_rests h h' := ⟨h'.1.rests h, h'.2⟩
  entering_of_inside h := ⟨⟨h.1.placed, h.1.complete, h.1.dialect, h.1.counted, h.1.orderly, h.1.passed⟩,
    fun _ => h.2 (by simp)⟩
  good_steps _ _ := trivial
  good_from _ _ := trivial
  firm_later _ _ := trivial
  firm_from _ _ := trivial
  good_of_firm _ := trivial
  firm_of_read _ _ := trivial
  firm_of_not_arrow _ _ := trivial
  firm_of_identifier _ _ := trivial
  firm_toPattern _ := trivial
  firm_child _ _ := trivial
  firm_parameter _ _ _ _ := trivial
  firm_yield _ _ _ := trivial
  good_placeholder _ _ _ := trivial
  good_escaped _ _ _ := trivial
  tells_of_rests _ _ _ := trivial
  tells_steps _ _ := trivial
  ofNext h := by
    refine Judgement.onSuccess.mono .next ?_
    rintro c t ⟨rfl, ht⟩
    obtain ⟨stands, read⟩ := h.1.next ht
    exact ⟨rfl, ⟨stands, by simp⟩, read.2, fun _ => read, trivial, fun _ _ => trivial⟩
  ofClose h _ _ _ := Judgement.onSuccess.mono .skip fun _ t ht =>
    ⟨⟨(h.1.next ht).1, by simp⟩, (h.1.next ht).2, trivial⟩
  ofRegex h hslash := Judgement.onSuccess.mono (.regex h.1.placed hslash) fun _ t ⟨u, hu, _, ht⟩ =>
    ⟨⟨(h.1.regex hu ht).1, by simp⟩, (h.1.regex hu ht).2, trivial⟩
  ofTrail h := .modifying (fun _ _ _ => rfl)
    ⟨⟨h.1.unrecorded (h.1.placed.congr rfl) rfl (Nat.le_refl _), by simp⟩, id, Nat.le_refl _, fun c hc => .inl hc⟩
  ofFinish h hread hstart _ _ _ := by
    refine Judgement.onSuccess.mono .finish ?_
    rintro n t ⟨hn, ht⟩
    obtain ⟨stands, steps⟩ := h.1.finish hread hstart hn ht
    exact ⟨⟨stands, h.2⟩, by rw [ht], steps, hread.before steps, by rw [hn]; rfl, trivial, fun _ => trivial⟩
  ofSeparator h := by
    refine Judgement.onSuccess.mono Judgement.onSuccess.expectSeparator ?_
    rintro _ t (⟨-, u, hu, ht⟩ | ht)
    · obtain ⟨stands, read⟩ := h.1.next hu
      exact ⟨⟨stands.rests ht, by simp⟩, read.2.trans (.rests ht)⟩
    · exact ⟨⟨h.1.rests ht, by simp⟩, .rests ht⟩
  ofEndDoWhile h := by
    refine Judgement.onSuccess.mono Judgement.onSuccess.endDoWhile ?_
    rintro _ t (⟨-, u, hu, ht⟩ | ⟨-, ht⟩)
    · obtain ⟨stands, read⟩ := h.1.next hu
      rcases ht with rfl | ⟨-, ht⟩
      · exact ⟨⟨stands, by simp⟩, read⟩
      · exact ⟨⟨(stands.next ht).1, by simp⟩, read.before (stands.next ht).2.2⟩
    · exact ⟨⟨(h.1.passesOver ht).1, by simp⟩, (h.1.passesOver ht).2⟩
  ofMissingParen h _ hnone hsome := by
    refine Judgement.bind Judgement.onSuccess.missingParen ?_
    rintro e t (⟨rfl, rfl⟩ | ⟨-, u, n, hu, rfl, hn, ht⟩)
    · exact hnone
    · obtain ⟨stands, read⟩ := h.1.passesOver hu
      obtain ⟨recovered, steps⟩ := stands.record (by rw [hn]; rfl) (fun c hc => .inl (stands.passed c hc)) ht
      exact hsome n t ⟨recovered, by simp⟩ (read.before steps) trivial
  ofStartJsx h hjsx _ := Judgement.onSuccess.mono .startJsx fun _ t ht =>
    ⟨⟨(h.1.startJsx ht).1, fun _ => h.1.dialect ▸ hjsx⟩, (h.1.startJsx ht).2⟩
  ofSkipTrivia hm h := Judgement.onSuccess.mono .skipTrivia fun _ t ht =>
    have ⟨stands, read⟩ := h.1.skips (h.2 hm) hm ht
    ⟨⟨stands, h.2⟩, read.2, ht.clear⟩
  ofNextJsx h := Judgement.onSuccess.mono .nextJsx fun _ t ht _ =>
    have hjsx := h.2 (by simp)
    ⟨⟨(h.1.nextJsx hjsx (by simp) ht).1, fun _ => hjsx⟩, (h.1.nextJsx hjsx (by simp) ht).2, fun _ _ _ => trivial⟩
  ofNextJsxText h := Judgement.onSuccess.mono .nextJsxText fun _ t ht =>
    ⟨⟨(h.1.nextJsxText ht).1, h.2⟩, (h.1.nextJsxText ht).2, trivial⟩
  ofEmptyExpression h := Judgement.onSuccess.mono .jsxEmptyExpression fun _ t ht =>
    have ⟨stands, read⟩ := h.1.emptyExpression (h.2 (by simp)) ht
    ⟨⟨stands, h.2⟩, read, trivial⟩
  ofSkipInside h := Judgement.onSuccess.mono .skip fun _ t ht =>
    have ⟨stands, read⟩ := h.1.skipInside (h.2 (by simp)) ht
    ⟨⟨stands, by simp⟩, read⟩
  ofReenterJsx hr _ h := Judgement.onSuccess.mono .reenterJsx fun _ t ht =>
    have ⟨stands, read⟩ := h.1.reenter (hr.2 (by simp)) ht
    ⟨⟨stands, fun _ => hr.2 (by simp)⟩, read⟩
  ofOpening h := by
    refine Judgement.onSuccess.mono .opening ?_
    rintro _ _ ⟨u, hu, rfl⟩
    have stands := (h.advances hu).1
    exact ⟨⟨stands.unrecorded (stands.placed.congr rfl) rfl (Nat.le_refl _), by simp⟩, stands.poised⟩
  read_of_end h h' _ _ := ⟨h, h'⟩

/-- The events of a parse come in order. -/
theorem source_orderly {dialect : Dialect} {root : Node} {s : ParseState} (h : Parse.source text dialect = .ok root s) :
    Orderly dialect.jsx s.record.events.toList := by
  have initial : Stands text dialect.jsx .entering (.initial text dialect) :=
    ⟨⟨.refl _, .refl _⟩, .initial text dialect, rfl, rfl, .nil, List.forall_mem_nil _⟩
  obtain ⟨_, -, held, -⟩ := Contract.source_held (K := contract text dialect.jsx) text
    dialect .complete initial root s h
  exact held.stands.1.orderly

end Reports

end EcmaTree
