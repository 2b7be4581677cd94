import EcmaTree.Proofs.Tokens
import EcmaTree.Proofs.Recording.Found

/-!
# Parameters that wait for their arrow

A group that can be nothing but parameters becomes a placeholder, and the productions around it take that for an
operand until its arrow is met. If the arrow is ahead, no token can be consumed before an arrow function has used the
placeholder up. A group that ends with a comma asks for no arrow, so its placeholder may stay in the tree; and tolerant
mode may pass over the arrow, of which an error tells. These are the only ways.
-/

namespace EcmaTree

namespace Token

/-- Is the token the arrow of a function? -/
abbrev isArrow (t : Token) : Bool := t.isPunctuator .arrow

end Token

/-- Do the tokens hold a comma with a closing parenthesis behind it and no arrow behind that? -/
def strandsGroup : List Token → Bool
  | comma :: close :: behind =>
    comma.isPunctuator .comma && close.isPunctuator .rightParen && !behind.head?.any Token.isArrow ||
      strandsGroup (close :: behind)
  | _ => false

namespace Placeholders

open Tokens (listed map_push)

variable {source : String} {tolerant : Bool} {m : Mode} {s t u v : ParseState}
  {tokens : List Token} {token other : Token}

/-! ## Groups that are left behind -/

/-- A closing parenthesis stands behind a comma, and no arrow follows it, be it as the next token. -/
def Stranded (tokens ahead : List Token) : Prop :=
  ∃ before comma close behind, tokens = before ++ comma :: close :: behind ∧ comma.isPunctuator .comma = true ∧
    close.isPunctuator .rightParen = true ∧ ∀ t ∈ (behind ++ ahead).head?, t.isArrow = false

namespace Stranded

theorem strandsGroup (h : Stranded tokens []) : strandsGroup tokens = true := by
  obtain ⟨before, comma, close, behind, rfl, hcomma, hclose, hnext⟩ := h
  rw [List.append_nil] at hnext
  induction before with
  | nil =>
    have : behind.head?.any Token.isArrow = false := by
      cases behind with
      | nil => rfl
      | cons t behind => exact hnext t rfl
    simp [EcmaTree.strandsGroup, hcomma, hclose, this]
  | cons t before ih => cases before <;> simp_all [EcmaTree.strandsGroup]

/-- The next token is another one, but no arrow either. -/
theorem turn (h : Stranded tokens [token])
    (hother : ∀ close ∈ tokens.getLast?, close.isPunctuator .rightParen = true → token.isArrow = false →
      other.isArrow = false) :
    Stranded tokens [other] := by
  obtain ⟨before, comma, close, behind, rfl, hcomma, hclose, hnext⟩ := h
  refine ⟨before, comma, close, behind, rfl, hcomma, hclose, ?_⟩
  cases behind with
  | nil => simpa using hother close (by simp) hclose (by simpa using hnext)
  | cons t behind => simpa using hnext

/-- A token is consumed, which is no arrow if the next one was none. -/
theorem push {ahead : List Token} (h : Stranded tokens [token])
    (hother : token.isArrow = false → other.isArrow = false) :
    Stranded (tokens ++ [other]) ahead := by
  obtain ⟨before, comma, close, behind, rfl, hcomma, hclose, hnext⟩ := h
  refine ⟨before, comma, close, behind ++ [other], by simp, hcomma, hclose, ?_⟩
  cases behind with
  | nil => simpa using hother (by simpa using hnext)
  | cons t behind => simpa using hnext

theorem of_end (h : Stranded tokens [token]) : Stranded tokens [] := by
  obtain ⟨before, comma, close, behind, rfl, hcomma, hclose, hnext⟩ := h
  refine ⟨before, comma, close, behind, rfl, hcomma, hclose, ?_⟩
  cases behind with
  | nil => simp
  | cons t behind => simpa using hnext

end Stranded

/-! ## What has been consumed -/

/-- The tokens that are listed, but for the lookahead. -/
def consumed (s : ParseState) : List Token := if s.lookahead.isEnd then listed s else (listed s).dropLast

/-- Something tells that a placeholder may be left: an error, or a group that was left behind. -/
def Alarm (tolerant : Bool) (s : ParseState) : Prop :=
  tolerant = true ∧ s.scanner.errors ≠ [] ∨ Stranded (consumed s) [s.lookahead]

theorem Alarm.imp (h : Alarm tolerant s) (herrors : s.scanner.errors <+: t.scanner.errors)
    (htokens : Stranded (consumed s) [s.lookahead] → Stranded (consumed t) [t.lookahead]) : Alarm tolerant t := by
  refine Or.imp (And.imp_right fun told none_told => told ?_) htokens h
  rwa [none_told, List.prefix_nil] at herrors

theorem consumed_unread (s : ParseState) : consumed s.unread = listed s := rfl

/-- Where a parse stands, the lookahead is the last token that is listed, unless it is the end. Inside an element no
parenthesis is. -/
def Stands (source : String) (tolerant : Bool) : Mode → ParseState → Prop
  | .ahead, s => s.Complete ∧ s.dialect.tolerant = tolerant ∧ s.Placed (.ofString source) .ahead ∧
    listed s = consumed s ++ if s.lookahead.isEnd then [] else [s.lookahead]
  | .entering, s => s.Complete ∧ s.dialect.tolerant = tolerant ∧ s.Placed (.ofString source) .entering
  | .inside, s => s.Complete ∧ s.dialect.tolerant = tolerant ∧ s.Placed (.ofString source) .inside ∧
    ∀ close ∈ (listed s).getLast?, close.isPunctuator .rightParen = false

/-- The parse has moved on, perhaps over nothing; an arrow is still ahead. -/
def Steps (tolerant : Bool) (s t : ParseState) : Prop :=
  (Alarm tolerant s → Alarm tolerant t) ∧ (s.arrowAhead → t.arrowAhead ∨ Alarm tolerant t)

/-- The parse has moved on, but not over an arrow. -/
def Read (tolerant : Bool) (s t : ParseState) : Prop :=
  (Alarm tolerant s → Alarm tolerant t) ∧ (s.arrowAhead → Alarm tolerant t)

/-- No node of the tree waits for an arrow. -/
def Plain (n : Node) : Prop := n.All fun n => n.kind.isPlaceholder = false

/-- A node may wait only where the arrow is ahead, and then its parameters do not wait. -/
def Good (tolerant : Bool) (n : Node) (t : ParseState) : Prop :=
  Alarm tolerant t ∨ Plain n ∨
    t.arrowAhead ∧ ∀ params async, n.kind = .arrowParameters params async → ∀ p ∈ params, Plain p

/-- The node does not wait. -/
def Firm (tolerant : Bool) (n : Node) (t : ParseState) : Prop := Alarm tolerant t ∨ Plain n

theorem Read.steps (h : Read tolerant s t) : Steps tolerant s t := ⟨h.1, fun harrow => .inr (h.2 harrow)⟩

theorem Read.of_not_arrow (h : Alarm tolerant s → Alarm tolerant t) (hs : ¬ s.arrowAhead) : Read tolerant s t :=
  ⟨h, fun harrow => absurd harrow hs⟩

theorem Plain.finished {info : NodeInfo} {kind : Kind Node} (hk : kind.isPlaceholder = false)
    (hc : ∀ c ∈ kind.children, Plain c) : Plain (.mk info kind) := Node.all_iff.2 ⟨hk, hc⟩

theorem Plain.recast {n p : Node} (h : Plain n) (hp : n.Recast p) : Plain p :=
  hp.all (fun h hn => h.isPlaceholder.trans hn) h

theorem Plain.not_waiting {n : Node} {params : List Node} {async : Bool} (h : Plain n) :
    n.kind ≠ .arrowParameters params async := fun hn => by
  have : n.kind.isPlaceholder = false := Node.All.root h
  simp [hn, Kind.isPlaceholder, Kind.waiting?] at this

theorem Plain.identifier {n : Node} (h : n.isIdentifier = true) : Plain n := by
  obtain ⟨info, kind⟩ := n
  cases kind
  case identifier => exact .finished rfl (by simp [Kind.children])
  all_goals cases h

namespace Stands

theorem complete (h : Stands source tolerant m s) : s.Complete := by cases m <;> exact h.1

theorem mode (h : Stands source tolerant m s) : s.dialect.tolerant = tolerant := by cases m <;> exact h.2.1

theorem placed (h : Stands source tolerant m s) : s.Placed (.ofString source) m := by
  cases m
  · exact h.2.2.1
  · exact h.2.2
  · exact h.2.2.1

/-- The end of the source stays ahead. -/
theorem end_stays (h : s.Placed (.ofString source) .ahead) (hend : s.lookahead.isEnd = true) (ht : s.Advances t) :
    t.lookahead.isEnd = true := by
  have sited : s.Sited (.ofString source) := h
  obtain ⟨token, stop, _, _, _, lexed, _, rfl⟩ := ht
  obtain ⟨cs, hrest, -⟩ := sited.lexed.reaches.trans
    (Trivia.skip_reaches s.scanner.keepsComments s.isScript s.scanner.cursor)
  rw [sited.lexed.end_iff.1 hend] at hrest
  exact lexed.end_iff.2 (List.append_eq_nil_iff.1 hrest.symm).2

/-- What was listed before the next token is read has been consumed. -/
theorem consumed_advances (h : s.Complete) (ht : s.Advances t) : consumed t = listed s := by
  rw [consumed, Tokens.listed_advances h ht]
  cases hend : t.lookahead.isEnd <;> simp

theorem next (h : Stands source tolerant .ahead s) (ht : s.Advances t) :
    Stands source tolerant .ahead t ∧ (Alarm tolerant s → Alarm tolerant t) := by
  obtain ⟨complete, mode, placed, hlisted⟩ := h
  have hconsumed := consumed_advances complete ht
  have hlisted' := Tokens.listed_advances complete ht
  have same : t.dialect = s.dialect := by obtain ⟨_, _, _, _, _, _, _, rfl⟩ := ht; rfl
  have errors : s.scanner.errors <+: t.scanner.errors := by obtain ⟨_, _, _, _, _, _, h, rfl⟩ := ht; exact h
  refine ⟨⟨complete.advances ht, same ▸ mode, placed.advances ht, hconsumed ▸ hlisted'⟩,
    fun alarm => alarm.imp errors fun stranded => ?_⟩
  rw [hconsumed, hlisted]
  cases hend : s.lookahead.isEnd with
  | true =>
    have still := end_stays placed hend ht
    simp only [if_true, List.append_nil]
    refine stranded.turn fun _ _ _ _ => ?_
    cases hl : t.lookahead.lexeme <;> simp_all [Token.isEnd, Token.isArrow, Token.isPunctuator]
  | false => exact stranded.push id

theorem rests (h : Stands source tolerant m s) (ht : s.Rests t) : Stands source tolerant m t := by
  have placed := h.placed.rests ht
  have complete := h.complete.rests ht
  obtain ⟨_, _, _, _, _, rfl, _⟩ := ht
  cases m
  · exact ⟨complete, h.2.1, placed, h.2.2.2⟩
  · exact ⟨complete, h.2.1, placed⟩
  · exact ⟨complete, h.2.1, placed, h.2.2.2⟩

end Stands

theorem Steps.rests (h : s.Rests t) : Steps tolerant s t := by
  obtain ⟨_, _, _, _, _, rfl, errors⟩ := h
  exact ⟨fun alarm => alarm.imp errors id, .inl⟩

theorem Steps.trans (h : Steps tolerant s t) (h' : Steps tolerant t u) : Steps tolerant s u :=
  ⟨h'.1 ∘ h.1, fun harrow => (h.2 harrow).elim h'.2 fun alarm => .inr (h'.1 alarm)⟩

theorem Read.after (h : Steps tolerant s t) (h' : Read tolerant t u) : Read tolerant s u :=
  ⟨h'.1 ∘ h.1, fun harrow => (h.2 harrow).elim h'.2 h'.1⟩

theorem Read.before (h : Read tolerant s t) (h' : Alarm tolerant t → Alarm tolerant u) : Read tolerant s u :=
  ⟨h' ∘ h.1, h' ∘ h.2⟩

namespace Stands

theorem finish {n : Node} {e : Extent} (h : Stands source tolerant m s) : Stands source tolerant m
    { s with finished := s.finished + 1, record := s.record.report (.node n e) } := by
  have complete := h.complete.finished (.node n e)
  cases m
  · exact ⟨complete, h.2.1, h.placed.congr rfl, h.2.2.2⟩
  · exact ⟨complete, h.2.1, h.placed.congr rfl⟩
  · exact ⟨complete, h.2.1, h.placed.congr rfl, h.2.2.2⟩

/-- The error that tells of the token passed over. -/
theorem passesOver (h : Stands source tolerant .ahead s) (hs : s.dialect.tolerant = true) (ht : s.PassesOver t) :
    Stands source tolerant .ahead t ∧ Alarm tolerant t := by
  obtain ⟨u, hu, rests⟩ := ht.advances
  refine ⟨(h.next hu).1.rests rests, .inl ⟨h.mode.symm.trans hs, ?_⟩⟩
  obtain ⟨_, -, rfl⟩ := ht
  simp

theorem regex (h : Stands source tolerant .ahead s)
    (hslash : (s.lookahead.isPunctuator .slash || s.lookahead.isPunctuator .divAssign) = true) (hu : s.Rescans u)
    (ht : u.Advances t) : Stands source tolerant .ahead t ∧ Read tolerant s t := by
  have placed : u.Placed (.ofString source) .ahead := hu.sited h.placed
  have complete := h.complete.rescans hu
  have tokens := Tokens.listed_rescans h.complete hu
  have again : Stands source tolerant .ahead u ∧ (Alarm tolerant s → Alarm tolerant u) := by
    obtain ⟨token, _, _, _, _, hregex, errors, rfl⟩ := hu
    obtain ⟨literal, hl⟩ : ∃ literal, token.lexeme = .regex literal := by
      cases hl : token.lexeme <;> simp_all [Token.regex?]
    have hend : token.isEnd = false := by simp [Token.isEnd, hl]
    refine ⟨⟨complete, h.mode, placed, ?_⟩, fun alarm => alarm.imp errors fun stranded => ?_⟩
    · simp [consumed, tokens, hend]
    · have same : consumed s = (listed s).dropLast := by simp [consumed, Tokens.isEnd_of_slash hslash]
      rw [same] at stranded
      have : Stranded (listed s).dropLast [token] := stranded.turn fun _ _ _ _ => by simp [Token.isPunctuator, hl]
      simpa [consumed, tokens, hend] using this
  obtain ⟨stands, steps⟩ := again.1.next ht
  exact ⟨stands, .of_not_arrow (steps ∘ again.2) (ParseState.not_arrow_of_slash hslash)⟩

theorem startJsx (h : Stands source tolerant .ahead s) (hlt : s.lookahead.isPunctuator .lt = true) :
    Stands source tolerant .entering { s with record := s.record.unlist, scanner.cursor := s.start } ∧
      Steps tolerant s (ParseState.unread { s with record := s.record.unlist, scanner.cursor := s.start }) := by
  have hend := Token.isEnd_of_isPunctuator hlt
  refine ⟨⟨h.complete.enters, h.mode, h.placed.enter.congr rfl⟩, fun alarm => alarm.imp (List.prefix_refl _)
    fun stranded => ?_, fun harrow => ?_⟩
  · have same : consumed s = (listed s).dropLast := by simp [consumed, hend]
    rw [consumed_unread, Tokens.listed_enters h.complete, ← same]
    exact stranded.turn fun _ _ _ _ => rfl
  · exact absurd harrow (ParseState.not_arrow_of_punctuator hlt)

theorem skips (hm : m ≠ .ahead) (h : Stands source tolerant m s) (ht : s.Skips t) :
    Stands source tolerant m t ∧ Steps tolerant s.unread t.unread := by
  have placed := h.placed.skips hm ht
  have complete := h.complete.skips ht
  have tokens := Tokens.listed_skips ht
  obtain ⟨_, _, errors, rfl⟩ := ht
  have steps : Steps tolerant s.unread (ParseState.unread { s with
      scanner := { s.scanner with cursor := s.trivia.cursor, regions := ‹_›, errors := ‹_› }
      record := s.passing }) :=
    ⟨fun alarm => alarm.imp errors fun stranded => by
      rw [consumed_unread, tokens]
      exact stranded.turn fun _ _ _ _ => rfl, fun harrow => absurd harrow s.not_arrow_unread⟩
  cases m
  · exact absurd rfl hm
  · exact ⟨⟨complete, h.2.1, placed⟩, steps⟩
  · exact ⟨⟨complete, h.2.1, placed, tokens ▸ h.2.2.2⟩, steps⟩

theorem nextJsx (h : Stands source tolerant .entering s) (ht : s.AdvancesJsx token t) :
    Read tolerant s.unread t.unread ∧ (token.mayTag = true → Stands source tolerant .inside t) := by
  have placed := h.placed.advancesJsx ht
  have complete := h.complete.advancesJsx ht
  have tokens := Tokens.listed_advancesJsx h.complete ht
  obtain ⟨_, _, _, lexed, errors, rfl⟩ := ht
  refine ⟨.of_not_arrow (fun alarm => alarm.imp errors fun stranded => ?_) s.not_arrow_unread,
    fun htag => ⟨complete, h.mode, placed, ?_⟩⟩
  · rw [consumed_unread, tokens]
    exact stranded.push fun _ => lexed.not_arrow
  · simp only [Token.mayTag, Bool.and_eq_true, Bool.not_eq_true'] at htag
    simpa [tokens] using htag.2

theorem nextJsxText (h : Stands source tolerant .inside s) (ht : s.AdvancesText token t) :
    Stands source tolerant .inside t ∧ Read tolerant s.unread t.unread := by
  have placed := h.placed.advancesText ht
  have complete := h.complete.advancesText ht
  have tokens := Tokens.listed_advancesText h.complete ht
  obtain ⟨stop, value, _, _, _, rfl, errors, rfl⟩ := ht
  refine ⟨⟨complete, h.mode, placed, ?_⟩,
    .of_not_arrow (fun alarm => alarm.imp errors fun stranded => ?_) s.not_arrow_unread⟩
  · rw [tokens]
    split
    · simp [Scan.tokenBetween, Token.isPunctuator]
    · simpa using h.2.2.2
  · rw [consumed_unread, tokens]
    split
    · exact stranded.push fun _ => rfl
    · rw [List.append_nil]
      exact stranded.turn fun _ _ _ _ => rfl

/-- The first ordinary token behind an element is no part of a group before it. -/
theorem skipInside (h : Stands source tolerant .inside s) (ht : s.Advances t) :
    Stands source tolerant .ahead t ∧ Read tolerant s.unread t := by
  obtain ⟨complete, mode, placed, hlast⟩ := h
  have hconsumed := consumed_advances complete ht
  have hlisted := Tokens.listed_advances complete ht
  have placed := placed.advances ht
  have complete := complete.advances ht
  obtain ⟨_, _, _, _, _, _, errors, rfl⟩ := ht
  refine ⟨⟨complete, mode, placed, hconsumed ▸ hlisted⟩,
    .of_not_arrow (fun alarm => alarm.imp errors fun stranded => ?_) s.not_arrow_unread⟩
  rw [hconsumed]
  refine stranded.turn fun close hclose hparen _ => ?_
  rw [hlast close hclose] at hparen
  cases hparen

theorem reenter (h : Stands source tolerant .ahead s) (ht : s.Reenters t) :
    Stands source tolerant .inside t ∧ Read tolerant s t.unread := by
  have sited : s.Sited (.ofString source) := h.placed
  have braced := sited.braced ht
  obtain ⟨complete, mode, placed, hlisted⟩ := h
  have tokens := Tokens.listed_reenters complete ht
  have complete := complete.reenters ht
  obtain ⟨brace, u, hu, -, rfl⟩ := ht
  have placed := placed.enter.advancesJsx hu
  have still : ParseState.trivia { s with scanner.cursor := s.start } = ⟨[], s.start, false⟩ := sited.settled rfl rfl
  obtain ⟨stop, regions, errors, lexed, herrors, rfl⟩ := hu
  have hend : s.lookahead.isEnd = false := by rcases braced with hl | ⟨_, hl, _⟩ <;> simp [Token.isEnd, hl]
  have paren : s.lookahead.isPunctuator .rightParen = false := by
    rcases braced with hl | ⟨_, hl, _⟩ <;> simp [Token.isPunctuator, hl]
  have arrow : ¬ s.arrowAhead := by
    rcases braced with hl | ⟨_, hl, _⟩ <;> simp [ParseState.arrowAhead, Token.isPunctuator, hl]
  rw [hend, if_neg Bool.false_ne_true] at hlisted
  refine ⟨⟨complete, mode, placed.congr rfl, ?_⟩,
    .of_not_arrow (fun alarm => alarm.imp herrors fun stranded => ?_) arrow⟩
  · intro close hclose
    have : (listed s).getLast? = some close := by rwa [tokens] at hclose
    simp only [hlisted, List.getLast?_append, List.getLast?_singleton, Option.some_or, Option.some.injEq] at this
    exact this ▸ paren
  · have : Stranded (consumed s ++ [s.lookahead]) [s.unread.lookahead] := stranded.push id
    rw [← hlisted] at this
    rw [consumed_unread, tokens]
    exact this.turn fun _ _ _ _ => rfl

end Stands

/-! ## What every production keeps -/

namespace Good

variable {n : Node}

theorem steps (h : Good tolerant n s) (h' : Steps tolerant s t) : Good tolerant n t := by
  obtain h | h | ⟨harrow, h⟩ := h
  · exact .inl (h'.1 h)
  · exact .inr (.inl h)
  · exact (h'.2 harrow).elim (fun harrow => .inr (.inr ⟨harrow, h⟩)) .inl

theorem firm (h : Good tolerant n s) (hs : ¬ s.arrowAhead) : Firm tolerant n s :=
  h.imp_right fun h => h.resolve_right fun ⟨harrow, _⟩ => hs harrow

theorem read (h : Good tolerant n s) (h' : Read tolerant s t) : Firm tolerant n t := by
  obtain h | h | ⟨harrow, -⟩ := h
  · exact .inl (h'.1 h)
  · exact .inr h
  · exact .inl (h'.2 harrow)

theorem parameter {params : List Node} {async : Bool} (h : Good tolerant n s)
    (hn : n.kind = .arrowParameters params async) :
    ∀ p ∈ params, Firm tolerant p s := by
  obtain h | h | ⟨-, h⟩ := h
  · exact fun _ _ => .inl h
  · exact absurd hn h.not_waiting
  · exact fun p hp => .inr (h params async hn p hp)

theorem finished {kind : Kind Node} {info : NodeInfo} (hk : kind.isPlaceholder = false)
    (hc : ∀ c ∈ kind.children, Good tolerant c s) : Good tolerant (.mk info kind) s := by
  by_cases harrow : s.arrowAhead
  · refine .inr (.inr ⟨harrow, fun params async hn => ?_⟩)
    simp [show kind = _ from hn, Kind.isPlaceholder, Kind.waiting?] at hk
  · by_cases halarm : Alarm tolerant s
    · exact .inl halarm
    · exact .inr (.inl (.finished hk fun c hcm => ((hc c hcm).firm harrow).resolve_left halarm))

end Good

theorem Firm.finished {kind : Kind Node} {info : NodeInfo} (hk : kind.isPlaceholder = false)
    (hc : ∀ c ∈ kind.children, Firm tolerant c s) : Firm tolerant (.mk info kind) s := by
  by_cases halarm : Alarm tolerant s
  · exact .inl halarm
  · exact .inr (.finished hk fun c hcm => (hc c hcm).resolve_left halarm)

/-- Parameters that wait in a state with the arrow ahead. -/
theorem Good.waiting {params : List Node} {async : Bool} (hs : s.arrowAhead ∨ Alarm tolerant s)
    (h : ∀ p ∈ params, Firm tolerant p s) : Good tolerant (Parse.placeholder params async) s := by
  by_cases halarm : Alarm tolerant s
  · exact .inl halarm
  refine .inr (.inr ⟨hs.resolve_right halarm, fun params' async' hn p hp => ?_⟩)
  obtain ⟨rfl, rfl⟩ : params = params' ∧ async = async' := by simpa [Parse.placeholder, Node.kind] using hn
  exact (h p hp).resolve_left halarm

/-- The token is the last one consumed. -/
def Past (t : Token) (s : ParseState) : Prop := t.isEnd = false → ∃ before, consumed s = before ++ [t]

theorem Stands.past (h : Stands source tolerant .ahead s) (ht : s.Advances t) : Past s.lookahead t := fun hend =>
  ⟨consumed s, by rw [consumed_advances h.complete ht, h.2.2.2, hend, if_neg Bool.false_ne_true]⟩

/-- A parenthesis behind a comma: the arrow is ahead, or the group is left behind. -/
theorem Stands.close (h : Stands source tolerant .ahead s) (hpast : Past token s)
    (hcomma : token.isPunctuator .comma = true)
    (hclose : s.lookahead.isPunctuator .rightParen = true) (ht : s.Advances t) : t.arrowAhead ∨ Alarm tolerant t := by
  by_cases harrow : t.arrowAhead
  · exact .inl harrow
  obtain ⟨before, hbefore⟩ := hpast (Token.isEnd_of_isPunctuator hcomma)
  refine .inr (.inr ⟨before, token, s.lookahead, [], ?_, hcomma, hclose, by simpa [ParseState.arrowAhead] using harrow⟩)
  rw [consumed_advances h.complete ht, h.2.2.2, hbefore, Token.isEnd_of_isPunctuator hclose]
  simp

/-- No placeholder is left, or something tells. -/
def contract (source : String) (tolerant : Bool) : Contract where
  toJudgement := .onSuccess
  Stands := Stands source tolerant
  Steps := Steps tolerant
  Read := Read tolerant
  Later s t := Alarm tolerant s → Alarm tolerant t
  Good _ n t := Good tolerant n t
  Firm _ n t := Firm tolerant n t
  Past := Past
  Tells _ _ _ := True
  Escapes s := s.arrowAhead ∨ Alarm tolerant s
  Initial s := s.Complete ∧ s.dialect.tolerant = tolerant ∧ s.start = .ofString source ∧
    s.scanner.cursor = .ofString source ∧ s.record.tokens = #[]
  Opened _ := True
  steps_trans := Steps.trans
  steps_of_rests := Steps.rests
  steps_of_read := Read.steps
  read_of_steps := Read.after
  read_later := Read.before
  later_of_steps h := h.1
  stands_of_rests h h' := h'.rests h
  entering_of_inside h := ⟨h.1, h.2.1, h.2.2.1⟩
  good_steps := Good.steps
  good_from _ h := h
  firm_later h h' := h.imp_left h'
  firm_from _ h := h
  good_of_firm h := h.imp_right .inl
  firm_of_read := Good.read
  firm_of_not_arrow := Good.firm
  firm_of_identifier _ hn := .inr (.identifier hn)
  firm_toPattern h := h.imp_right fun h => h.recast (Node.toPattern_recast _)
  firm_child h hc := h.imp_right fun h => h.child hc
  firm_parameter := Good.parameter
  firm_yield h hn hr := h.imp_right fun h => h.recast (Node.yield_recast hn hr)
  good_placeholder _ harrow h := .waiting (.inl harrow) h
  good_escaped h _ hparams := .waiting h hparams
  tells_of_rests _ _ _ := trivial
  tells_steps _ _ := trivial
  ofNext h := by
    refine Judgement.onSuccess.mono .next ?_
    rintro c t ⟨rfl, ht⟩
    obtain ⟨stands, later⟩ := h.next ht
    exact ⟨rfl, stands, later, .of_not_arrow later, h.past ht, fun _ _ => trivial⟩
  ofClose h hpast hcomma hclose := by
    refine Judgement.onSuccess.mono .skip fun _ t ht => ?_
    obtain ⟨stands, later⟩ := h.next ht
    exact ⟨stands, .of_not_arrow later (ParseState.not_arrow_of_punctuator hclose), h.close hpast hcomma hclose ht⟩
  ofRegex h hslash := Judgement.onSuccess.mono (.regex h.placed hslash) fun _ _ ⟨_, hu, _, ht⟩ =>
    ⟨(h.regex hslash hu ht).1, (h.regex hslash hu ht).2, trivial⟩
  ofTrail h := .modifying (fun _ _ _ => rfl)
    ⟨⟨h.complete.congr rfl rfl, h.mode, h.placed.congr rfl, h.2.2.2⟩, id, .inl⟩
  ofFinish {m base s start kind} h hread _ hk hchildren _ := by
    refine Judgement.onSuccess.mono .finish ?_
    rintro n t ⟨rfl, rfl⟩
    cases m <;> exact ⟨h.finish, rfl, ⟨id, .inl⟩, hread, rfl, .finished hk hchildren, .finished hk⟩
  ofSeparator h := by
    refine Judgement.onSuccess.mono Judgement.onSuccess.expectSeparator ?_
    rintro _ t (⟨harrow, u, hu, ht⟩ | ht)
    · obtain ⟨stands, later⟩ := h.next hu
      exact ⟨stands.rests ht, (Read.of_not_arrow later (by simp [ParseState.arrowAhead, harrow])).steps.trans
        (.rests ht)⟩
    · exact ⟨h.rests ht, .rests ht⟩
  ofEndDoWhile h := by
    refine Judgement.onSuccess.mono Judgement.onSuccess.endDoWhile ?_
    rintro _ t (⟨hparen, u, hu, ht⟩ | ⟨tolerant, ht⟩)
    · obtain ⟨stands, later⟩ := h.next hu
      have read := Read.of_not_arrow later (ParseState.not_arrow_of_punctuator hparen)
      rcases ht with rfl | ⟨-, ht⟩
      · exact ⟨stands, read⟩
      · exact ⟨(stands.next ht).1, read.before (stands.next ht).2⟩
    · obtain ⟨stands, alarm⟩ := h.passesOver tolerant ht
      exact ⟨stands, fun _ => alarm, fun _ => alarm⟩
  ofMissingParen h _ hnone hsome := by
    refine Judgement.bind Judgement.onSuccess.missingParen ?_
    rintro e t (⟨rfl, rfl⟩ | ⟨tolerant, u, n, hu, rfl, -, rfl⟩)
    · exact hnone
    · obtain ⟨stands, alarm⟩ := h.passesOver tolerant hu
      exact hsome n _ stands.finish ⟨fun _ => alarm, fun _ => alarm⟩ (.inl alarm)
  ofStartJsx h _ hlt := by
    refine Judgement.onSuccess.mono .startJsx ?_
    rintro _ _ rfl
    exact h.startJsx hlt
  ofSkipTrivia hm h := Judgement.onSuccess.mono .skipTrivia fun _ _ ht =>
    ⟨(h.skips hm ht).1, (h.skips hm ht).2, ht.clear⟩
  ofNextJsx h := Judgement.onSuccess.mono .nextJsx fun _ _ ht htag =>
    ⟨(h.nextJsx ht).2 htag, (h.nextJsx ht).1, fun _ _ _ => trivial⟩
  ofNextJsxText h := Judgement.onSuccess.mono .nextJsxText fun _ _ ht =>
    ⟨(h.nextJsxText ht).1, (h.nextJsxText ht).2, trivial⟩
  ofEmptyExpression h := by
    refine Judgement.onSuccess.mono .jsxEmptyExpression ?_
    intro n t ht
    have complete := h.complete.skipsEmpty ht
    obtain ⟨u, hu, rfl, rfl⟩ := ht
    obtain ⟨stands, steps⟩ := h.skips (by nofun) hu
    exact ⟨⟨complete, stands.mode, stands.placed.congr rfl, stands.2.2.2⟩,
      .of_not_arrow steps.1 (ParseState.not_arrow_unread _), .finished rfl (by simp [Kind.children])⟩
  ofSkipInside h := Judgement.onSuccess.mono .skip fun _ _ ht => h.skipInside ht
  ofReenterJsx _ _ h := Judgement.onSuccess.mono .reenterJsx fun _ _ ht => h.reenter ht
  ofOpening {s} h := by
    obtain ⟨complete, mode, hstart, hcursor, htokens⟩ := h
    refine Judgement.onSuccess.mono .opening ?_
    rintro _ _ ⟨u, hu, rfl⟩
    have placed : s.Placed (.ofString source) .entering := ⟨hstart ▸ .refl _, hcursor ▸ .refl _⟩
    have placed := placed.advances hu
    have hconsumed := Stands.consumed_advances complete hu
    have hlisted := Tokens.listed_advances complete hu
    have same : u.dialect = s.dialect := by obtain ⟨_, _, _, _, _, _, _, rfl⟩ := hu; rfl
    rw [← hconsumed] at hlisted
    exact ⟨⟨(complete.advances hu).congr rfl rfl, same ▸ mode, placed.congr rfl, hlisted⟩, trivial⟩
  read_of_end _ h _ hend := ⟨h.1, fun harrow => (h.2 harrow).resolve_left (ParseState.not_arrow_of_isEnd hend)⟩

/-- A parse that leaves a placeholder in the tree has recorded an error, or its tokens strand a group. -/
theorem source_plain {text : String} {dialect : Dialect} {root : Node} {s : ParseState}
    (h : Parse.source text dialect = .ok root s) (herrors : dialect.tolerant = true → s.scanner.errors = [])
    (hstrands : strandsGroup (listed s) = false) : Plain root := by
  obtain ⟨first, -, held, hend⟩ :=
    Contract.source_held (K := contract text dialect.tolerant) text dialect .complete
      ⟨.initial text dialect, rfl, rfl, rfl, rfl⟩ root s h
  have quiet : ¬ Alarm dialect.tolerant s := by
    rintro (⟨mode, told⟩ | stranded)
    · exact told (herrors mode)
    · have := stranded.of_end.strandsGroup
      rw [consumed, if_pos hend, hstrands] at this
      cases this
  have arrow := ParseState.not_arrow_of_isEnd hend
  exact (Good.firm (held.good root (by simp)) arrow).resolve_left quiet

end Placeholders

/-- Where no error is recorded and no group that ends with a comma is left without its arrow, no node of the tree waits
for an arrow. -/
theorem placeholders_used {source : String} {o : ParseOptions} {p : Program} (hp : parse source o = .ok p)
    (herrors : p.errors.getD [] = [])
    (hstrands : ∀ q, parse source { o with tokens := true } = .ok q →
      strandsGroup ((q.tokens.getD []).map (·.token)) = false) :
    ∀ entry ∈ p.root.walk, entry.2.kind.isPlaceholder = false := by
  obtain ⟨root, s, hs, rfl⟩ := parse_eq_ok.1 hp
  have plain : Placeholders.Plain root := by
    refine Placeholders.source_plain hs (fun mode => ?_) ?_
    · simpa [Program.asked, wanted, show o.tolerant = true from mode] using herrors
    · have same : ((s.record.tokens.toList.map o.relisted).map (·.token)) = Tokens.listed s := by
        rw [List.map_map]
        rfl
      have := hstrands _ (parse_eq_ok.2 ⟨root, s, hs, rfl⟩)
      rw [show ((Program.asked { o with tokens := true } root s).tokens.getD []).map (·.token) =
        Tokens.listed s from same] at this
      exact this
  exact plain.recast (Program.asked_recast o root s)

theorem placeholders_used_trailing_comma : ∃ p, parse "(a, b,) => a" {} = .ok p ∧
    ∀ entry ∈ p.root.walk, entry.2.kind.isPlaceholder = false := by
  have h : ((parse "(a, b,) => a" {}).toOption.any fun p => p.errors.getD [] == []) = true := by decide +kernel
  have hq : ((parse "(a, b,) => a" { tokens := true }).toOption.all fun q =>
      !strandsGroup ((q.tokens.getD []).map (·.token))) = true := by decide +kernel
  obtain ⟨p, hp, h⟩ := exists_ok_of_any h
  refine ⟨p, hp, placeholders_used hp ?_ fun q hq' => ?_⟩
  · simpa using h
  · simpa [hq', Except.toOption] using hq

/-- A trailing comma alone leaves a placeholder where an operand stands. -/
theorem placeholder_left : ∃ p, parse "(a,)+1" {} = .ok p ∧
    ∃ entry ∈ p.root.walk, entry.2.kind.isPlaceholder = true := by
  have h : ((parse "(a,)+1" {}).toOption.any fun p => p.root.walk.any fun entry =>
    entry.2.kind.isPlaceholder) = true := by
    decide +kernel
  obtain ⟨p, hp, h⟩ := exists_ok_of_any h
  exact ⟨p, hp, by simpa using h⟩

end EcmaTree
