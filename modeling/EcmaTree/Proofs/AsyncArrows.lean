import EcmaTree.Proofs.Placeholders
import EcmaTree.Proofs.Recording.Found

/-!
# Asynchronous parameters that wait for their arrow

The arguments of `async` become parameters only where the arrow is ahead, so a strict parse, which passes over no token,
leaves none of them in the tree: nothing but an arrow function consumes the arrow, and that uses them up.
-/

namespace EcmaTree

/-- Does the node stand for parameters of an asynchronous arrow function? -/
def Node.awaitsArrow (n : Node) : Bool := n.kind.waiting?.any (·.2)

namespace AsyncArrows

variable {source : String} {m : Mode} {s t u : ParseState} {token : Token} {n : Node}

/-- No node of the tree stands for asynchronous parameters. -/
def Plain (n : Node) : Prop := n.All fun n => n.awaitsArrow = false

/-- A node may stand for asynchronous parameters only where the arrow is ahead, and no node in them does. -/
def Good (n : Node) (t : ParseState) : Prop :=
  Plain n ∨ t.arrowAhead ∧ ∀ params async, n.kind = .arrowParameters params async → ∀ p ∈ params, Plain p

/-- Where a strict parse stands. -/
def Stands (source : String) (m : Mode) (s : ParseState) : Prop :=
  s.dialect.tolerant = false ∧ s.Placed (.ofString source) m

/-! ## Nodes -/

theorem Plain.finished {info : NodeInfo} {kind : Kind Node} (hk : (Node.mk info kind).awaitsArrow = false)
    (hc : ∀ c ∈ kind.children, Plain c) : Plain (.mk info kind) := Node.all_iff.2 ⟨hk, hc⟩

theorem awaitsArrow_of_isPlaceholder {info : NodeInfo} {kind : Kind Node} (hk : kind.isPlaceholder = false) :
    (Node.mk info kind).awaitsArrow = false := by
  cases kind <;> first | rfl | cases hk

theorem Plain.identifier (h : n.isIdentifier = true) : Plain n := by
  obtain ⟨info, kind⟩ := n
  cases kind
  case identifier => exact .finished rfl (List.forall_mem_nil _)
  all_goals cases h

theorem Plain.recast {p : Node} (h : Plain n) (hp : n.Recast p) : Plain p :=
  hp.all (fun h hn => by rwa [Node.awaitsArrow, h.waiting]) h

namespace Good

theorem firm (h : Good n s) (hs : ¬ s.arrowAhead) : Plain n := h.resolve_right fun ⟨harrow, _⟩ => hs harrow

theorem finished {info : NodeInfo} {kind : Kind Node} (hk : kind.isPlaceholder = false)
    (hc : ∀ c ∈ kind.children, Good c s) :
    Good (.mk info kind) s := by
  by_cases harrow : s.arrowAhead
  · refine .inr ⟨harrow, fun params async hn => ?_⟩
    simp [show kind = _ from hn, Kind.isPlaceholder, Kind.waiting?] at hk
  · exact .inl (.finished (awaitsArrow_of_isPlaceholder hk) fun c hcm => (hc c hcm).firm harrow)

theorem parameter {params : List Node} {async : Bool} (h : Good n s) (hn : n.kind = .arrowParameters params async) :
    ∀ p ∈ params, Plain p := by
  rcases h with plain | ⟨-, h⟩
  · exact fun p hp => plain.child (by simpa [Node.children, hn, Kind.children] using hp)
  · exact h params async hn

/-- Parameters with the arrow ahead. -/
theorem waiting {params : List Node} (async : Bool) (hs : s.arrowAhead) (h : ∀ p ∈ params, Plain p) :
    Good (Parse.placeholder params async) s := by
  refine .inr ⟨hs, fun params' async' hn => ?_⟩
  obtain ⟨rfl, rfl⟩ : params = params' ∧ async = async' := by simpa [Parse.placeholder, Node.kind] using hn
  exact h

end Good

/-! ## Steps -/

theorem Stands.next (h : Stands source .ahead s) (ht : s.Advances t) : Stands source .ahead t := by
  have placed := h.2.advances ht
  obtain ⟨_, _, _, _, _, _, _, rfl⟩ := ht
  exact ⟨h.1, placed⟩

theorem Stands.rests (h : Stands source m s) (ht : s.Rests t) : Stands source m t := by
  have placed := h.2.rests ht
  obtain ⟨_, _, _, _, _, rfl, _⟩ := ht
  exact ⟨h.1, placed⟩

theorem Stands.skips (hm : m ≠ .ahead) (h : Stands source m s) (ht : s.Skips t) : Stands source m t := by
  have placed := h.2.skips hm ht
  obtain ⟨_, _, _, rfl⟩ := ht
  exact ⟨h.1, placed⟩

/-- A brace is no arrow. -/
theorem Stands.not_arrow_of_reenters (h : Stands source .ahead s) (ht : s.Reenters t) : ¬ s.arrowAhead := by
  have sited : s.Sited (.ofString source) := h.2
  rcases sited.braced ht with hl | ⟨_, hl, _⟩ <;> simp [ParseState.arrowAhead, Token.isPunctuator, hl]

/-- The arrow stays ahead until an arrow function consumes it. -/
def contract (source : String) : Contract where
  toJudgement := .onSuccess
  Stands := Stands source
  Steps s t := s.arrowAhead → t.arrowAhead
  Read s _ := ¬ s.arrowAhead
  Later _ _ := True
  Good _ n t := Good n t
  Firm _ n _ := Plain n
  Past _ _ := True
  Tells _ _ _ := True
  Escapes _ := True
  Initial s := s.dialect.tolerant = false ∧ s.start = .ofString source ∧ s.scanner.cursor = .ofString source
  Opened _ := True
  steps_trans h h' := h' ∘ h
  steps_of_rests h harrow := by rwa [ParseState.arrowAhead, h.lookahead]
  steps_of_read h harrow := absurd harrow h
  read_of_steps h h' := h' ∘ h
  read_later h _ := h
  later_of_steps _ := trivial
  stands_of_rests h h' := h'.rests h
  entering_of_inside h := h
  good_steps h h' := h.imp_right (And.imp_left h')
  good_from _ h := h
  firm_later h _ := h
  firm_from _ h := h
  good_of_firm h := .inl h
  firm_of_read h h' := h.firm h'
  firm_of_not_arrow := Good.firm
  firm_of_identifier _ hn := .identifier hn
  firm_toPattern h := h.recast (Node.toPattern_recast _)
  firm_child h hc := h.child hc
  firm_parameter := Good.parameter
  firm_yield h hn hr := h.recast (Node.yield_recast hn hr)
  good_placeholder async harrow h := .waiting async harrow h
  good_escaped _ _ hparams := .inl (.finished rfl hparams)
  tells_of_rests _ _ _ := trivial
  tells_steps _ _ := trivial
  ofNext h := Judgement.onSuccess.mono .next fun _ _ ⟨hc, ht⟩ =>
    ⟨hc, h.next ht, trivial, id, trivial, fun _ _ => trivial⟩
  ofClose h _ _ hclose := Judgement.onSuccess.mono .skip fun _ _ ht =>
    ⟨h.next ht, ParseState.not_arrow_of_punctuator hclose, trivial⟩
  ofRegex h hslash := by
    refine Judgement.onSuccess.mono (.regex h.2 hslash) ?_
    rintro _ t ⟨u, hu, -, ht⟩
    have placed : u.Placed (.ofString source) .ahead := hu.sited h.2
    have stands : Stands source .ahead u := by
      obtain ⟨_, _, _, _, _, _, _, rfl⟩ := hu
      exact ⟨h.1, placed⟩
    exact ⟨stands.next ht, ParseState.not_arrow_of_slash hslash, trivial⟩
  ofTrail h := .modifying (fun _ _ _ => rfl) ⟨⟨h.1, h.2.congr rfl⟩, id⟩
  ofFinish {m base s start kind} h hread _ hk hchildren _ := by
    refine Judgement.onSuccess.mono .finish ?_
    rintro n t ⟨rfl, rfl⟩
    have firm (h : ∀ c ∈ kind.children, Plain c) : Plain (.mk (s.finishedInfo start) kind) :=
      .finished (awaitsArrow_of_isPlaceholder hk) h
    cases m <;> exact ⟨⟨h.1, h.2.congr rfl⟩, rfl, id, hread, rfl, .finished hk hchildren, firm⟩
  ofSeparator h := by
    refine Judgement.onSuccess.mono Judgement.onSuccess.expectSeparator ?_
    rintro _ t (⟨hlast, u, hu, ht⟩ | ht)
    · exact ⟨(h.next hu).rests ht, fun harrow => absurd harrow (by simp [ParseState.arrowAhead, hlast])⟩
    · exact ⟨h.rests ht, fun harrow => by rwa [ParseState.arrowAhead, ht.lookahead]⟩
  ofEndDoWhile h := by
    refine Judgement.onSuccess.mono Judgement.onSuccess.endDoWhile ?_
    rintro _ t (⟨hparen, u, hu, ht⟩ | ⟨tolerant, -⟩)
    · refine ⟨?_, ParseState.not_arrow_of_punctuator hparen⟩
      rcases ht with rfl | ⟨-, ht⟩
      · exact h.next hu
      · exact (h.next hu).next ht
    · exact absurd tolerant (Bool.eq_false_iff.1 h.1)
  ofMissingParen h _ hnone _ := by
    refine Judgement.bind Judgement.onSuccess.missingParen ?_
    rintro e t (⟨rfl, rfl⟩ | ⟨tolerant, -⟩)
    · exact hnone
    · exact absurd tolerant (Bool.eq_false_iff.1 h.1)
  ofStartJsx h _ hlt := by
    refine Judgement.onSuccess.mono .startJsx ?_
    rintro _ _ rfl
    exact ⟨⟨h.1, h.2.enter.congr rfl⟩, fun harrow => absurd harrow (ParseState.not_arrow_of_punctuator hlt)⟩
  ofSkipTrivia hm h := Judgement.onSuccess.mono .skipTrivia fun _ _ ht =>
    ⟨h.skips hm ht, fun harrow => absurd harrow (ParseState.not_arrow_unread _), ht.clear⟩
  ofNextJsx h := by
    refine Judgement.onSuccess.mono .nextJsx fun _ _ ht _ => ?_
    have placed := h.2.advancesJsx ht
    obtain ⟨_, _, _, _, _, rfl⟩ := ht
    exact ⟨⟨h.1, placed⟩, ParseState.not_arrow_unread _, fun _ _ _ => trivial⟩
  ofNextJsxText h := by
    refine Judgement.onSuccess.mono .nextJsxText fun _ _ ht => ?_
    have placed := h.2.advancesText ht
    obtain ⟨_, _, _, _, _, _, _, rfl⟩ := ht
    exact ⟨⟨h.1, placed⟩, ParseState.not_arrow_unread _, trivial⟩
  ofEmptyExpression h := by
    refine Judgement.onSuccess.mono .jsxEmptyExpression ?_
    rintro n _ ⟨u, hu, rfl, rfl⟩
    have stands := h.skips (by nofun) hu
    exact ⟨⟨stands.1, stands.2.congr rfl⟩, ParseState.not_arrow_unread _, .finished rfl (List.forall_mem_nil _)⟩
  ofSkipInside h := by
    refine Judgement.onSuccess.mono .skip fun _ _ ht => ⟨?_, ParseState.not_arrow_unread _⟩
    have placed := h.2.advances ht
    obtain ⟨_, _, _, _, _, _, _, rfl⟩ := ht
    exact ⟨h.1, placed⟩
  ofReenterJsx _ _ h := by
    refine Judgement.onSuccess.mono .reenterJsx fun _ _ ht => ⟨?_, h.not_arrow_of_reenters ht⟩
    obtain ⟨_, u, hu, -, rfl⟩ := ht
    have placed := h.2.enter.advancesJsx hu
    obtain ⟨_, _, _, _, _, rfl⟩ := hu
    exact ⟨h.1, placed.congr rfl⟩
  ofOpening {s} h := by
    obtain ⟨strict, hstart, hcursor⟩ := h
    refine Judgement.onSuccess.mono .opening ?_
    rintro _ _ ⟨u, hu, rfl⟩
    have placed : s.Placed (.ofString source) .entering := ⟨hstart ▸ .refl _, hcursor ▸ .refl _⟩
    have placed := placed.advances hu
    obtain ⟨_, _, _, _, _, _, _, rfl⟩ := hu
    exact ⟨⟨strict, placed.congr rfl⟩, trivial⟩
  read_of_end _ h _ hend harrow := ParseState.not_arrow_of_isEnd hend (h harrow)

/-- No strict parse leaves asynchronous parameters in the tree. -/
theorem source_plain {text : String} {dialect : Dialect} {root : Node} {s : ParseState}
    (hstrict : dialect.tolerant = false)
    (h : Parse.source text dialect = .ok root s) : Plain root := by
  obtain ⟨first, -, held, hend⟩ :=
    Contract.source_held (K := contract text) text dialect .complete ⟨hstrict, rfl, rfl⟩ root s h
  exact Good.firm (held.good root (by simp)) (ParseState.not_arrow_of_isEnd hend)

end AsyncArrows

/-- No node that a strict parse gives back waits for the arrow of an asynchronous function. -/
theorem parse_awaitsNoArrow {source : String} {o : ParseOptions} {p : Program} (hp : parse source o = .ok p)
    (hstrict : o.tolerant = false) : p.root.All fun n => n.awaitsArrow = false := by
  obtain ⟨root, s, hs, rfl⟩ := parse_eq_ok.1 hp
  have plain := AsyncArrows.source_plain (show o.dialect.tolerant = false from hstrict) hs
  exact plain.recast (Program.asked_recast o root s)

end EcmaTree
