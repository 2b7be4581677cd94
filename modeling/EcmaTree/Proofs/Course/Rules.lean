import EcmaTree.Proofs.Course.Basic

/-!
# Inside a production

What each way of reading does to the place where a parse stands, and for each action of a production what is held behind
it.
-/

namespace EcmaTree.Course

open Parse
open Tokens (reported)

variable {text : String} {m o : Mode} {n base : Nat} {r q : Bool} {s t u : ParseState} {α β σ : Type}

/-- All of the state may be read. -/
theorem Ends.seeing {f : ParseState → Parse β} {Q : β → ParseState → Prop} (h : Ends (f s) s Q) :
    Ends (get >>= f) s Q := h

theorem Ends.not_exhausted {p : Parse α} {Q : α → ParseState → Prop} (h : Ends p s Q) (t : ParseState) :
    p s ≠ .error .exhausted t := by
  intro ht
  simp only [Ends, Judgement.ending, ht] at h

namespace Moved

theorem refl (a : Nat) : Moved false a a := Nat.le_refl a

theorem trans {a b c : Nat} (h : Moved r a b) (h' : Moved q b c) : Moved (r || q) a c := by
  cases r <;> cases q <;> simp_all [Moved] <;> omega

theorem le {a b : Nat} (h : Moved r a b) : a ≤ b := by
  cases r
  · exact h
  · exact Nat.le_of_lt h

end Moved

/-! ## Ways of reading -/

namespace Stands

theorem site_le (h : Stands text m s) : s.site m ≤ text.utf8ByteSize := by
  have reaches : ∃ c : Cursor, (Cursor.ofString text).Reaches c ∧ c.offset = s.site m := by
    cases m
    · exact ⟨s.start, h.placed.start, rfl⟩
    · exact ⟨s.scanner.cursor, h.placed.cursor, rfl⟩
    · exact ⟨s.scanner.cursor, h.placed.cursor, rfl⟩
  obtain ⟨c, hc, hsite⟩ := reaches
  rw [← hsite, ← hc.offset_add_bytes]
  exact Nat.le_add_right _ _

/-- Only what has been read counts, and what has been reported. -/
theorem congr (h : Stands text m s) (hplaced : t.Placed (.ofString text) o) (hcomplete : t.Complete)
    (hbound : t.bound = s.bound) (hevents : t.record.events = s.record.events) (hsite : s.site m ≤ t.site o) :
    Stands text o t := by
  refine ⟨hplaced, hcomplete, hbound ▸ h.bound, hevents ▸ h.regular, fun c hc => Nat.le_trans (h.passed c ?_) hsite⟩
  rwa [reported, hevents] at hc

/-- Nothing has been recorded. -/
theorem unrecorded (h : Stands text m s) (hplaced : t.Placed (.ofString text) o)
    (hsame : (t.bound, t.record, t.scanner.keepsComments) = (s.bound, s.record, s.scanner.keepsComments))
    (hsite : s.site m ≤ t.site o) : Stands text o t := by
  obtain ⟨hbound, hrecord, hkeeps⟩ := by simpa using hsame
  exact h.congr hplaced (h.complete.congr (congrArg _ hrecord) hkeeps) hbound (congrArg _ hrecord) hsite

theorem rests (h : Stands text m s) (ht : s.Rests t) : Stands text m t ∧ t.site m = s.site m := by
  have placed := h.placed.rests ht
  have site := ht.site m
  obtain ⟨_, _, _, _, _, rfl, _⟩ := ht
  exact ⟨h.unrecorded placed rfl (Nat.le_of_eq site.symm), site⟩

/-- The trivia at the scanner has been reported. -/
theorem skipped (h : Stands text m s) (ht : t.Placed (.ofString text) o) (hcomplete : t.Complete)
    (hbound : t.bound = s.bound) (hevents : t.record.events = s.passing.events)
    (hcursor : s.site m ≤ s.scanner.cursor.offset) (hsite : s.trivia.cursor.offset ≤ t.site o) : Stands text o t := by
  have passed := h.complete.passed
  have trivia := passed.reaches.offset_le
  refine ⟨ht, hcomplete, hbound ▸ h.bound, ?_, fun c hc => ?_⟩
  · rw [hevents, h.complete.passing_events]
    simpa using h.regular.comments s.trivia.comments
  · rw [Tokens.reported_passing h.complete hevents, List.mem_append] at hc
    rcases hc with hc | hc
    · exact Nat.le_trans (h.passed c hc) (Nat.le_trans hcursor (Nat.le_trans trivia hsite))
    · exact Nat.le_trans (passed.between c hc).2 hsite

/-- The scanner stands behind the lookahead, and a token takes a byte at least. -/
theorem site_le_cursor (h : Stands text m s) : s.site m ≤ s.scanner.cursor.offset := by
  cases m
  · exact (show s.Sited (.ofString text) from h.placed).lexed.reaches.offset_le
  · exact Nat.le_refl _
  · exact Nat.le_refl _

theorem site_lt_cursor (h : Stands text .ahead s) (hend : s.lookahead.isEnd = false) :
    s.start.offset < s.scanner.cursor.offset := (show s.Sited (.ofString text) from h.placed).lexed.advances hend

theorem advances (h : Stands text m s) (ht : s.Advances t) :
    Stands text .ahead t ∧ s.scanner.cursor.offset ≤ t.start.offset := by
  have placed := h.placed.advances ht
  have complete := h.complete.advances ht
  have events := Tokens.events_advances ht
  obtain ⟨start, -⟩ := ParseState.nextStart_spec h.placed.start h.placed.cursor
  have trivia := h.complete.passed.reaches.offset_le
  have le : s.scanner.cursor.offset ≤ s.nextStart.offset := by rw [start]; exact trivia
  obtain ⟨_, _, _, _, _, _, _, rfl⟩ := ht
  exact ⟨h.skipped placed complete rfl events h.site_le_cursor (Nat.le_of_eq start.symm), le⟩

/-- A token that is not the end is consumed. -/
theorem next (h : Stands text .ahead s) (hend : s.lookahead.isEnd = false) (ht : s.Advances t) :
    Stands text .ahead t ∧ s.start.offset < t.start.offset :=
  ⟨(h.advances ht).1, Nat.lt_of_lt_of_le (h.site_lt_cursor hend) (h.advances ht).2⟩

theorem regex (h : Stands text .ahead s) (hu : s.Rescans u) (ht : u.Advances t) :
    Stands text .ahead t ∧ s.start.offset < t.start.offset := by
  have placed : u.Placed (.ofString text) .ahead := hu.sited h.placed
  have complete := h.complete.rescans hu
  have events := Tokens.events_rescans hu
  obtain ⟨token, stop, _, _, _, isRegex, _, rfl⟩ := hu
  have stands := h.congr placed complete rfl events (Nat.le_refl _)
  refine stands.next ?_ ht
  cases hl : token.lexeme <;> simp_all [Token.regex?, Token.isEnd]

theorem finish {node : Node} {e : Extent} (h : Stands text m s)
    (hr : Regular s.record.events.toList → Regular (s.record.events.toList ++ [.node node e])) :
    Stands text m { s with finished := s.finished + 1, record := s.record.report (.node node e) } := by
  refine ⟨h.placed.congr rfl, h.complete.finished _, h.bound, ?_, fun c hc => ?_⟩
  · rw [h.complete.record.report_events]
    simpa using hr h.regular
  · have same : ParseState.site { s with finished := s.finished + 1, record := s.record.report (.node node e) }
      m = s.site m := by
      cases m <;> rfl
    rw [same]
    rw [Tokens.reported_finished h.complete] at hc
    exact h.passed c hc

/-! ### JSX -/

theorem startJsx (h : Stands text .ahead s) :
    Stands text .inside { s with record := s.record.unlist, scanner.cursor := s.start } :=
  h.congr (h.placed.enter.congr rfl) h.complete.enters rfl (Record.unlist_events _) (Nat.le_refl _)

theorem skips (h : Stands text .inside s) (ht : s.Skips t) :
    Stands text .inside t ∧ s.scanner.cursor.offset ≤ t.scanner.cursor.offset := by
  have placed := h.placed.skips (by simp) ht
  have complete := h.complete.skips ht
  have trivia := h.complete.passed.reaches.offset_le
  obtain ⟨_, _, _, rfl⟩ := ht
  exact ⟨h.skipped placed complete rfl rfl (Nat.le_refl _) (Nat.le_refl _), trivia⟩

/-- A token of JSX takes a byte unless it is the end or a template, which no tag holds. -/
theorem nextJsx {token : Token} (h : Stands text .inside s) (ht : s.AdvancesJsx token t) :
    Stands text .inside t ∧ s.scanner.cursor.offset ≤ t.scanner.cursor.offset ∧
      (token.isEnd = false → token.isTemplate = false → s.scanner.cursor.offset < t.scanner.cursor.offset) := by
  have placed := h.placed.advancesJsx ht
  have complete := h.complete.advancesJsx ht
  have events := Tokens.events_advancesJsx ht
  have trivia := h.complete.passed.reaches.offset_le
  obtain ⟨stop, _, _, lexed, _, rfl⟩ := ht
  have reaches := lexed.reaches.offset_le
  refine ⟨h.skipped placed complete rfl events (Nat.le_refl _) reaches, Nat.le_trans trivia reaches,
    fun hend htemplate => ?_⟩
  exact Nat.lt_of_le_of_lt trivia ((lexed.lexed htemplate).advances hend)

theorem nextJsxText {token : Token} (h : Stands text .inside s) (ht : s.AdvancesText token t) :
    Stands text .inside t ∧ s.scanner.cursor.offset ≤ t.scanner.cursor.offset := by
  have placed := h.placed.advancesText ht
  have complete := h.complete.advancesText ht
  have events := Tokens.events_advancesText ht
  obtain ⟨stop, _, _, _, reaches, _, _, rfl⟩ := ht
  exact ⟨h.congr placed complete rfl events reaches.offset_le, reaches.offset_le⟩

theorem reenter (h : Stands text .ahead s) (ht : s.Reenters t) :
    Stands text .inside t ∧ s.start.offset < t.scanner.cursor.offset := by
  have complete := h.complete.reenters ht
  obtain ⟨brace, u, hu, hbrace, rfl⟩ := ht
  have entered : Stands text .inside { s with scanner.cursor := s.start } :=
    h.unrecorded h.placed.enter rfl (Nat.le_refl _)
  obtain ⟨stands, -, lt⟩ := entered.nextJsx hu
  rw [Token.isPunctuator_iff] at hbrace
  exact ⟨stands.congr (stands.placed.congr rfl) complete rfl (Record.unlist_events _) (Nat.le_refl _),
    lt (by simp [Token.isEnd, hbrace]) (by simp [Token.isTemplate, hbrace])⟩

end Stands

/-! ## Parts of a production -/

/-- Whatever is true of a token, but not of the end of the source, tells that it is not the end. -/
theorem not_end_of {f : Token → Bool} {token : Token} (h : f token = true)
    (hf : ∀ t : Token, f { t with lexeme := .endOfInput } = false) : token.isEnd = false := by
  rw [← Bool.not_eq_true]
  intro hend
  have same : ({ token with lexeme := .endOfInput } : Token) = token := by
    have : token.lexeme = .endOfInput := by
      cases hl : token.lexeme <;> simp_all [Token.isEnd]
    rw [← this]
  have := hf token
  rw [same, h] at this
  cases this

namespace Held

variable {Q : β → ParseState → Prop}

/-- The rest of a production, seen as one that begins here. -/
theorem self (h : Held text n m r base s) : Held text n m false (s.site m) s where
  stands := h.stands
  moved := .refl _
  room := by
    have := h.moved.le
    have := h.room
    omega

/-- Behind what has been consumed less is left. -/
theorem deeper (h : Held text (n + 1) m true base s) : Held text n m false (s.site m) s where
  stands := h.stands
  moved := .refl _
  room := by
    have : base < s.site m := h.moved
    have := h.stands.site_le
    have := h.room
    omega

theorem trans {k : Nat} (h : Held text n m r base s) (h' : Held text k o q (s.site m) t) :
    Held text n o (r || q) base t :=
  ⟨h'.stands, h.moved.trans h'.moved, h.room⟩

theorem reading (h : Held text n m true base s) : Held text n m r base s := by
  refine ⟨h.stands, ?_, h.room⟩
  cases r
  · exact h.moved.le
  · exact h.moved

theorem weaken (h : Held text n m r base s) : Held text (n + 1) m r base s :=
  ⟨h.stands, h.moved, Nat.lt_succ_of_lt h.room⟩

theorem rests (h : Held text n m r base s) (ht : s.Rests t) : Held text n m r base t :=
  ⟨(h.stands.rests ht).1, by rw [ht.site]; exact h.moved, h.room⟩

/-- A part of the production that consumes something. -/
theorem read {p : Parse α} {f : α → Parse β} (h : Held text n m r base s) (hp : Leads text n m o true p)
    (hf : ∀ a t, Held text n o true base t → Ends (f a) t Q) : Ends (p >>= f) s Q :=
  Judgement.bind (hp s h.self) fun a t ht => hf a t (by simpa using h.trans ht)

/-- A part of the production that may consume nothing. -/
theorem pass {p : Parse α} {f : α → Parse β} (h : Held text n m r base s) (hp : Leads text n m o false p)
    (hf : ∀ a t, Held text n o r base t → Ends (f a) t Q) : Ends (p >>= f) s Q :=
  Judgement.bind (hp s h.self) fun a t ht => hf a t (by simpa using h.trans ht)

/-- A part of the production that begins behind something that has been consumed. -/
theorem nest {p : Parse α} {f : α → Parse β} (h : Held text (n + 1) m true base s) (hp : Leads text n m o q p)
    (hf : ∀ a t, Held text (n + 1) o true base t → Ends (f a) t Q) : Ends (p >>= f) s Q :=
  Judgement.bind (hp s h.deeper) fun a t ht => hf a t (by simpa using h.trans ht)

/-- The last part of a production. -/
theorem last {p : Parse α} (h : Held text n m r base s) (hp : Leads text n m o q p) :
    Ends p s fun _ t => Held text n o (r || q) base t := Judgement.ending.mono (hp s h.self) fun _ _ ht => h.trans ht

theorem nestLast {p : Parse α} (h : Held text (n + 1) m true base s) (hp : Leads text n m o q p) :
    Ends p s fun _ t => Held text (n + 1) o true base t :=
  Judgement.ending.mono (hp s h.deeper) fun _ _ ht => by simpa using h.trans ht

theorem give {a : α} (h : Held text n m r base s) : Ends (pure a) s fun _ t => Held text n m r base t :=
  Judgement.ending.ofPure h

/-- An action that consumes nothing. -/
theorem settle {p : Parse α} {f : α → Parse β} (h : Held text n m r base s) (hp : Judgement.ending.Settles p)
    (hf : ∀ a t, Held text n m r base t → Ends (f a) t Q) : Ends (p >>= f) s Q :=
  Judgement.bind (hp s) fun a t ht => hf a t (h.rests ht)

/-- The token ahead stays the same. -/
theorem settleAhead {p : Parse α} {f : α → Parse β} (h : Held text n m r base s) (hp : Judgement.ending.Settles p)
    (hf : ∀ a t, t.lookahead = s.lookahead → Held text n m r base t → Ends (f a) t Q) : Ends (p >>= f) s Q :=
  Judgement.bind (hp s) fun a t ht => hf a t ht.lookahead (h.rests ht)

theorem settleIf {c : Prop} [Decidable c] {p : Parse Unit} {f : Unit → Parse β} (h : Held text n m r base s)
    (hp : Judgement.ending.Settles p) (hf : ∀ t, Held text n m r base t → Ends (f ()) t Q) :
    Ends (if c then p >>= f else f ()) s Q := .ite (fun _ => h.settle hp fun _ => hf) fun _ => hf s h

theorem settleUnless {c : Prop} [Decidable c] {p : Parse Unit} {f : Unit → Parse β} (h : Held text n m r base s)
    (hp : Judgement.ending.Settles p) (hf : ∀ t, Held text n m r base t → Ends (f ()) t Q) :
    Ends (if c then f () else p >>= f) s Q := .ite (fun _ => hf s h) fun _ => h.settle hp fun _ => hf

/-- Finishing a node, where the events stay regular. -/
theorem nodeRegular {start : Place} {kind : Kind Node} {f : Node → Parse β} (h : Held text n m r base s)
    (hr : ∀ node : Node, node.kind = kind → Regular s.record.events.toList →
      Regular (s.record.events.toList ++ [.node node ⟨start, s.last⟩]))
    (hf : ∀ node t, Held text n m r base t → Ends (f node) t Q) : Ends (finish start kind >>= f) s Q := by
  refine Judgement.bind .finish ?_
  rintro node _ ⟨rfl, rfl⟩
  refine hf _ _ ⟨h.stands.finish (hr _ rfl), ?_, h.room⟩
  have := h.moved
  cases m <;> exact this

/-- Finishing a node. -/
theorem node {start : Place} {kind : Kind Node} {f : Node → Parse β} (h : Held text n m r base s)
    (hk : kind.isSpecifier = false) (hf : ∀ node t, Held text n m r base t → Ends (f node) t Q) :
    Ends (finish start kind >>= f) s Q := h.nodeRegular (fun _ hn hr => hr.node _ (by rw [hn, hk])) hf

theorem finish {start : Place} {kind : Kind Node} (h : Held text n m r base s) (hk : kind.isSpecifier = false) :
    Ends (Parse.finish start kind) s fun _ t => Held text n m r base t := by
  rw [← bind_pure (Parse.finish start kind)]
  exact h.node hk fun _ _ h => h.give

/-! ### Tokens -/

/-- Consuming the token ahead. -/
theorem next {f : Token → Parse β} (h : Held text n .ahead r base s)
    (hf : ∀ t, Held text n .ahead r base t → (s.lookahead.isEnd = false → Held text n .ahead true base t) →
      Ends (f s.lookahead) t Q) : Ends (Parse.next >>= f) s Q := by
  refine Judgement.bind .next ?_
  rintro _ t ⟨rfl, ht⟩
  obtain ⟨stands, le⟩ := h.stands.advances ht
  have from' : Held text n .ahead false (s.site .ahead) t :=
    ⟨stands, Nat.le_trans h.stands.site_le_cursor le, h.self.room⟩
  refine hf t (by simpa using h.trans from') fun hend => ?_
  have strictly : Held text n .ahead true (s.site .ahead) t := ⟨stands, (h.stands.next hend ht).2, h.self.room⟩
  simpa using h.trans strictly

theorem skip {f : Unit → Parse β} (h : Held text n .ahead r base s) (hend : s.lookahead.isEnd = false)
    (hf : ∀ t, Held text n .ahead true base t → Ends (f ()) t Q) : Ends (Parse.skip >>= f) s Q := by
  rw [skip_eq, bind_assoc]
  exact h.next fun t _ ht => .value (hf t (ht hend))

theorem expect {p : Punctuator} {f : Unit → Parse β} (h : Held text n .ahead r base s)
    (hf : ∀ t, Held text n .ahead true base t → Ends (f ()) t Q) : Ends (Parse.expect p >>= f) s Q := by
  rw [Parse.expect, bind_assoc]
  refine h.next fun t _ ht => Judgement.ending.ofBind (.ite (fun hs => ?_) fun _ => .failAt)
  exact Judgement.ending.ofPure (hf t (ht (Token.isEnd_of_isPunctuator hs)))

theorem expectKeyword {word : String} {f : Unit → Parse β} (h : Held text n .ahead r base s)
    (hf : ∀ t, Held text n .ahead true base t → Ends (f ()) t Q) : Ends (Parse.expectKeyword word >>= f) s Q := by
  rw [Parse.expectKeyword, bind_assoc]
  refine h.next fun t _ ht => Judgement.ending.ofBind (.ite (fun hs => ?_) fun _ => .failAt)
  exact Judgement.ending.ofPure (hf t (ht (not_end_of (f := (·.isKeyword word)) hs fun _ => rfl)))

/-- A token that is consumed if it is ahead. -/
theorem accept {p : Punctuator} {f : Bool → Parse β} (h : Held text n .ahead r base s)
    (hyes : ∀ t, Held text n .ahead true base t → Ends (f true) t Q) (hno : Ends (f false) s Q) :
    Ends (Parse.accept p >>= f) s Q := by
  rw [Parse.accept, bind_assoc]
  refine .check ?_
  split
  next hs =>
    rw [bind_assoc]
    exact h.skip (Token.isEnd_of_isPunctuator hs) fun t ht => .value (hyes t ht)
  next => exact .value hno

end Held

/-! ## Productions -/

namespace Leads

variable {p : Parse α}

theorem weaken (h : Leads text (n + 1) m o q p) : Leads text n m o q p := fun s hs =>
  Judgement.ending.mono (h s hs.weaken) fun _ _ ht => ⟨ht.stands, ht.moved, hs.room⟩

theorem reading (h : Leads text n m o true p) : Leads text n m o q p := fun s hs =>
  Judgement.ending.mono (h s hs) fun _ _ ht => ht.reading

theorem of_settles (h : Judgement.ending.Settles p) : Leads text n m m false p := fun s hs =>
  Judgement.ending.mono (h s) fun _ _ ht => hs.rests ht

theorem withContext {change : Context → Context} (h : Leads text n m o q p) :
    Leads text n m o q (withContext change p) := fun _ hs =>
  .withContext fun _ ht => Judgement.ending.mono ((hs.rests ht).last h) fun _ _ hu _ hv => hu.rests hv

theorem isolate (h : Leads text n m o q p) : Leads text n m o q (isolate p) := fun _ hs =>
  .isolate fun _ ht => Judgement.ending.mono ((hs.rests ht).last h) fun _ _ hu _ hv => hu.rests hv

theorem inherit (h : Leads text n m o q p) : Leads text n m o q (inherit p) := fun _ hs =>
  .inherit fun _ ht => Judgement.ending.mono ((hs.rests ht).last h) fun _ _ hu _ hv => hu.rests hv

/-! ### Tokens -/

theorem expect {p : Punctuator} : Reads text n (Parse.expect p) := fun s h => by
  rw [← bind_pure (Parse.expect p)]
  exact h.expect fun t h => h.give

/-- A token that is consumed whatever it is. -/
theorem skip : Passes text n Parse.skip := fun s h => by
  rw [← bind_pure Parse.skip, skip_eq, bind_assoc]
  exact h.next fun t ht _ => .value ht.give

theorem passOver : Passes text n Parse.passOver := fun _ h => h.next fun _ ht _ =>
  ht.last (of_settles (.tolerateAt _))

/-- In tolerant mode the comma between two items may be missing. -/
theorem expectSeparator : Passes text n Parse.expectSeparator := fun s h => by
  refine .seeing (.ite (fun _ => h.last expect.reading) fun _ => .ite (fun _ => h.last skip) fun _ => ?_)
  exact .ite (fun _ => h.last passOver) fun _ => h.last (of_settles (.tolerateWith _ _))

theorem endStatement : Passes text n Parse.endStatement := fun s h => by
  refine .get (fun _ => rfl) (.ite (fun _ => h.last skip) fun _ => .ite (fun _ => h.give) fun _ =>
    .ite (fun _ => ?_) fun _ => .failAt)
  exact .modifying (fun _ _ _ => rfl) ⟨h.stands.unrecorded (h.stands.placed.congr rfl) rfl (Nat.le_refl _),
    h.moved, h.room⟩

/-! ### Repetition -/

/-- What a round of a loop does: it consumes something unless the loop is done. -/
abbrev Round (text : String) (n : Nat) (m : Mode) (base : Nat) : Progress σ → ParseState → Prop :=
  Progress.Holds (fun _ => Held text n m true base) fun _ => Held text n m false base

/-- A loop comes to an end before its bound is used up: less is left behind every round. -/
theorem iterate {step : σ → Parse (Progress σ)}
    (hstep : ∀ x s, Held text n m false (s.site m) s → Ends (step x) s (Round text n m (s.site m))) :
    ∀ {bound : Nat} {state : σ} {s : ParseState}, Held text n m false (s.site m) s →
      text.utf8ByteSize - s.site m < bound → Ends (iterate step bound state) s fun _ t =>
        Held text n m false (s.site m) t
  | 0, _, _, _, hbound => absurd hbound (Nat.not_lt_zero _)
  | bound + 1, state, s, h, hbound => by
    refine Judgement.bind (hstep state s h) ?_
    rintro (x | x) t ht
    · have further : text.utf8ByteSize - t.site m < bound := by
        have : s.site m < t.site m := ht.moved
        have := ht.stands.site_le
        omega
      refine Judgement.ending.mono (iterate hstep ht.self further) fun _ u hu => ?_
      exact Held.reading (by simpa using Held.trans ht hu)
    · exact ht.give

theorem loop {step : σ → Parse (Progress σ)} {state : σ}
    (hstep : ∀ x s, Held text n m false (s.site m) s → Ends (step x) s (Round text n m (s.site m))) :
    Leads text n m m false (loop state step) := fun s h => by
  refine .get (fun _ => rfl) (iterate hstep h ?_)
  have := h.stands.bound
  omega

theorem manyBefore {stop : Parse Bool} (hstop : Judgement.ending.Settles stop) (h : Leads text n m m true p) :
    Leads text n m m false (manyBefore stop p) := fun s hs => by
  refine hs.pass (loop fun items t ht => ?_) fun items t ht => ht.give
  refine ht.settle hstop fun b t ht => .ite (fun _ => Judgement.ending.ofPure ht) fun _ => ?_
  exact ht.read h fun a t ht => Judgement.ending.ofPure ht

theorem itemsBefore {c : Punctuator} (h : Reads text n p) : Passes text n (itemsBefore c p) :=
  manyBefore (.check c) h

theorem commaSeparated (h : Reads text n p) : Reads text n (commaSeparated p) := fun s hs => by
  refine hs.read h fun first t ht => ht.pass (loop fun items t ht => ?_) fun items t ht => ht.give
  refine ht.accept (fun t ht => ?_) (.neg nofun (Judgement.ending.ofPure ht))
  exact .pos rfl (ht.read h fun a t ht => Judgement.ending.ofPure ht)

end Leads

end EcmaTree.Course
