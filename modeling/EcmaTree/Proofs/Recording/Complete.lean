import EcmaTree.Proofs.Advance
import EcmaTree.Proofs.Recording.Share

/-!
# Parses with a complete record

What is listed and reported from token to token, where everything is recorded.
-/

namespace EcmaTree

namespace ParseState

/-- Everything is recorded. -/
structure Complete (s : ParseState) : Prop where
  record : s.record.Full
  scanner : s.scanner.keepsComments = true

namespace Complete

variable {s t : ParseState} {token : Token} {n : Node}

theorem initial (source : String) (dialect : Dialect) : (ParseState.initial source dialect).Complete := ⟨rfl, rfl⟩

theorem trivia (h : s.Complete) : s.trivia = Trivia.skip true s.isScript s.scanner.cursor := by
  rw [ParseState.trivia, h.scanner]

theorem passed (h : s.Complete) : Passed s.scanner.cursor s.trivia.comments s.trivia.cursor := by
  rw [h.trivia]
  exact Trivia.skip_passed _ _

/-! ## Comments that are passed -/

theorem passing (h : s.Complete) : s.passing.Full := h.record.pass _

theorem passing_tokens : s.passing.tokens = s.record.tokens := Record.pass_tokens _ _

theorem passing_events (h : s.Complete) :
    s.passing.events = s.record.events ++ (s.trivia.comments.map ParseEvent.comment).toArray :=
  h.record.pass_events (Trivia.skip_placement _ _ _)

/-! ## Steps -/

theorem congr (h : s.Complete) (hrecord : t.record.recording = s.record.recording)
    (hscanner : t.scanner.keepsComments = s.scanner.keepsComments) : t.Complete :=
  ⟨hrecord.trans h.record, hscanner.trans h.scanner⟩

theorem advances (h : s.Complete) (ht : s.Advances t) : t.Complete := by
  obtain ⟨token, _, _, _, _, _, _, rfl⟩ := ht
  refine ⟨?_, h.scanner⟩
  dsimp only
  split
  · exact h.passing
  · exact h.passing.list _ _ _

theorem rests (h : s.Complete) (ht : s.Rests t) : t.Complete := by
  obtain ⟨_, _, _, _, _, rfl, _⟩ := ht
  exact ⟨h.record, h.scanner⟩

theorem rescans (h : s.Complete) (ht : s.Rescans t) : t.Complete := by
  obtain ⟨_, _, _, _, _, _, _, rfl⟩ := ht
  exact ⟨h.record.unlist.list _ _ _, h.scanner⟩

theorem skips (h : s.Complete) (ht : s.Skips t) : t.Complete := by
  obtain ⟨_, _, _, rfl⟩ := ht
  exact ⟨h.passing, h.scanner⟩

theorem advancesJsx (h : s.Complete) (ht : s.AdvancesJsx token t) : t.Complete := by
  obtain ⟨_, _, _, _, _, rfl⟩ := ht
  exact ⟨h.passing.list _ _ _, h.scanner⟩

theorem advancesText (h : s.Complete) (ht : s.AdvancesText token t) : t.Complete := by
  obtain ⟨_, _, _, _, _, _, _, rfl⟩ := ht
  refine ⟨?_, h.scanner⟩
  dsimp only
  split
  · exact h.record.list _ _ _
  · exact h.record

theorem finished (h : s.Complete) (e : ParseEvent) :
    Complete { s with finished := s.finished + 1, record := s.record.report e } := ⟨h.record.report e, h.scanner⟩

theorem skipsEmpty (h : s.Complete) (ht : s.SkipsEmpty n t) : t.Complete := by
  obtain ⟨u, hu, _, rfl⟩ := ht
  exact ⟨(h.skips hu).record.report _, (h.skips hu).scanner⟩

theorem enters (h : s.Complete) : Complete { s with record := s.record.unlist, scanner.cursor := s.start } :=
  ⟨h.record.unlist, h.scanner⟩

theorem reenters (h : s.Complete) (ht : s.Reenters t) : t.Complete := by
  obtain ⟨_, u, hu, _, rfl⟩ := ht
  have complete : u.Complete := advancesJsx (s := { s with scanner.cursor := s.start }) ⟨h.record, h.scanner⟩ hu
  exact ⟨complete.record.unlist, complete.scanner⟩

end Complete

end ParseState

/-! ## What has been listed and reported -/

namespace Tokens

variable {s t : ParseState} {token : Token} {n : Node} {extent : Extent}

/-- The tokens that are listed. -/
def listed (s : ParseState) : List Token := s.record.tokens.toList.map (·.token)

/-- The comments that are reported. -/
def reported (s : ParseState) : List Comment := ParseEvent.comments s.record.events.toList

/-! ### Events -/

theorem events_advances (ht : s.Advances t) : t.record.events = s.passing.events := by
  obtain ⟨token, _, _, _, _, _, _, rfl⟩ := ht
  dsimp only
  split
  · rfl
  · exact Record.list_events ..

theorem events_skips (ht : s.Skips t) : t.record.events = s.passing.events := by
  obtain ⟨_, _, _, rfl⟩ := ht
  rfl

theorem events_advancesJsx (ht : s.AdvancesJsx token t) : t.record.events = s.passing.events := by
  obtain ⟨_, _, _, _, _, rfl⟩ := ht
  exact Record.list_events ..

theorem events_rescans (ht : s.Rescans t) : t.record.events = s.record.events := by
  obtain ⟨_, _, _, _, _, _, _, rfl⟩ := ht
  exact (Record.list_events ..).trans (Record.unlist_events _)

theorem events_advancesText (ht : s.AdvancesText token t) : t.record.events = s.record.events := by
  obtain ⟨_, _, _, _, _, _, _, rfl⟩ := ht
  dsimp only
  split
  · exact Record.list_events ..
  · rfl

/-! ### Tokens and comments -/

theorem listed_eq {tokens : Array TokenEntry} (h : t.record.tokens = tokens) :
    listed t = tokens.toList.map (·.token) := by rw [listed, h]

theorem reported_eq (h : t.record.events = s.record.events) : reported t = reported s := by rw [reported, h, reported]

theorem map_push (tokens : Array TokenEntry) (e : TokenEntry) :
    (tokens.push e).toList.map (·.token) = tokens.toList.map (·.token) ++ [e.token] := by simp

theorem comments_passing (h : s.Complete) :
    ParseEvent.comments s.passing.events.toList = reported s ++ s.trivia.comments := by
  rw [h.passing_events]
  simp only [reported, ParseEvent.comments, Array.toList_append, List.filterMap_append, List.append_cancel_left_eq]
  induction s.trivia.comments with
  | nil => rfl
  | cons c passed ih => simpa [ParseEvent.comment?] using ih

theorem reported_passing (h : s.Complete) (ht : t.record.events = s.passing.events) :
    reported t = reported s ++ s.trivia.comments := by
  rw [reported, ht, comments_passing h]

theorem listed_advances (h : s.Complete) (ht : s.Advances t) :
    listed t = listed s ++ if t.lookahead.isEnd then [] else [t.lookahead] := by
  obtain ⟨token, stop, _, _, _, _, _, rfl⟩ := ht
  dsimp only [listed]
  cases token.isEnd with
  | true => simp [ParseState.Complete.passing_tokens]
  | false => simp [h.passing.list_tokens, ParseState.Complete.passing_tokens]

theorem reported_advances (h : s.Complete) (ht : s.Advances t) : reported t = reported s ++ s.trivia.comments :=
  reported_passing h (events_advances ht)

theorem listed_rescans (h : s.Complete) (ht : s.Rescans t) : listed t = (listed s).dropLast ++ [t.lookahead] := by
  obtain ⟨token, stop, _, _, _, _, _, rfl⟩ := ht
  rw [listed, h.record.unlist.list_tokens, map_push, h.record.unlist_tokens,
    Array.toList_pop, List.map_dropLast, listed]

theorem reported_rescans (ht : s.Rescans t) : reported t = reported s := reported_eq (events_rescans ht)

theorem listed_skips (ht : s.Skips t) : listed t = listed s := by
  obtain ⟨_, _, _, rfl⟩ := ht
  exact listed_eq ParseState.Complete.passing_tokens

theorem reported_skips (h : s.Complete) (ht : s.Skips t) : reported t = reported s ++ s.trivia.comments :=
  reported_passing h (events_skips ht)

theorem listed_advancesJsx (h : s.Complete) (ht : s.AdvancesJsx token t) : listed t = listed s ++ [token] := by
  obtain ⟨stop, _, _, _, _, rfl⟩ := ht
  rw [listed, h.passing.list_tokens, map_push, ParseState.Complete.passing_tokens, listed]

theorem reported_advancesJsx (h : s.Complete) (ht : s.AdvancesJsx token t) :
    reported t = reported s ++ s.trivia.comments := reported_passing h (events_advancesJsx ht)

theorem listed_advancesText (h : s.Complete) (ht : s.AdvancesText token t) :
    listed t = listed s ++ if s.scanner.cursor.offset < t.scanner.cursor.offset then [token] else [] := by
  obtain ⟨stop, value, _, _, _, rfl, _, rfl⟩ := ht
  dsimp only [listed]
  split
  · rw [h.record.list_tokens, map_push]
  · rw [List.append_nil]

theorem reported_advancesText (ht : s.AdvancesText token t) : reported t = reported s :=
  reported_eq (events_advancesText ht)

theorem reported_finished (h : s.Complete) (n : Node) (extent : Extent) :
    reported { s with finished := s.finished + 1, record := s.record.report (.node n extent) } = reported s := by
  simp [reported, h.record.report_events, ParseEvent.comments, ParseEvent.comment?]

theorem listed_enters (h : s.Complete) :
    listed { s with record := s.record.unlist, scanner.cursor := s.start } = (listed s).dropLast := by
  rw [listed, h.record.unlist_tokens, Array.toList_pop, List.map_dropLast, listed]

theorem reported_enters (s : ParseState) :
    reported { s with record := s.record.unlist, scanner.cursor := s.start } = reported s :=
  reported_eq (Record.unlist_events _)

/-- The brace that is read again is listed and taken off. -/
theorem listed_reenters (h : s.Complete) (ht : s.Reenters t) : listed t = listed s := by
  obtain ⟨brace, u, hu, _, rfl⟩ := ht
  have complete : ParseState.Complete { s with scanner.cursor := s.start } := ⟨h.record, h.scanner⟩
  have pushed := listed_advancesJsx complete hu
  rw [listed, (complete.advancesJsx hu).record.unlist_tokens, Array.toList_pop, List.map_dropLast]
  change (listed u).dropLast = _
  rw [pushed, List.dropLast_concat]
  rfl

theorem reported_reenters {source : Cursor} (h : s.Complete) (hs : s.Sited source) (ht : s.Reenters t) :
    reported t = reported s := by
  obtain ⟨brace, u, hu, _, rfl⟩ := ht
  have complete : ParseState.Complete { s with scanner.cursor := s.start } := ⟨h.record, h.scanner⟩
  have still : ParseState.trivia { s with scanner.cursor := s.start } = ⟨[], s.start, false⟩ := hs.settled rfl rfl
  have passed := reported_advancesJsx complete hu
  rw [still, List.append_nil] at passed
  exact (reported_eq (s := u) (Record.unlist_events _)).trans passed

end Tokens

end EcmaTree
