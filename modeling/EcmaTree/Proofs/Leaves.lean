import EcmaTree.Proofs.Derivation.Nodes
import EcmaTree.Proofs.Partition
import EcmaTree.Proofs.Recovery

/-!
# Leaves say what the source says

A leaf is finished right behind its token, so that it stands where its token stands, and the token is written as it
reads. The name of a property in an object literal is the exception: it is finished behind whatever has been consumed
before the production knows what the name is, the star of a generator or the name behind `async`. Such a name still
begins with its token. A `var` may bind `let` where the source holds that text in quotes.
-/

namespace EcmaTree

/-! ## Leaves and tokens -/

/-- What is written is the name, or it holds an escape. Only `let` may be written as a string or a template. -/
def Names (raw name : String) : Prop :=
  raw = name ∨ '\\' ∈ raw.toList ∨ name = "let" ∧ ∀ ch ∈ raw.toList.head?, isIdentifierStart ch = false

/-- Between the offsets the source holds what the leaf says; a word stands at the beginning. -/
def Leaf.Reproduces (source : String) (start stop : Nat) : Leaf → Prop
  | .literal raw => SliceOf source start stop raw
  | .chunk raw isTail => ∃ opening ∈ ["\x60", "\x7d"],
      SliceOf source start stop (opening ++ raw ++ if isTail then "\x60" else "$\x7b")
  | .text value raw => value = raw ∧ SliceOf source start stop raw
  | .tagName name => SliceOf source start stop name
  | .word name => ∃ raw behind, SliceOf source start behind raw ∧ behind ≤ stop ∧ Names raw name

section
variable {source : String} {c d : Cursor} {t : Token} {leaf : Leaf}

theorem Token.Verbatim.names (h : t.Verbatim) (hword : t.isName = true ∨ t.text = "let") : Names t.raw t.text := by
  cases hname : t.isName with
  | true => exact (h.name hname).imp_right .inl
  | false =>
    have named : t.text = "let" := by simpa [hname] using hword
    exact (h.other hname).imp_right fun first => .inr ⟨named, first⟩

theorem Lexed.slice (h : Lexed c t d) (hc : (Cursor.ofString source).Reaches c) :
    SliceOf source c.offset d.offset t.raw := by
  rw [show t.raw = c.textUntil d.offset from congrArg Token.raw h.eq]
  exact slice_of_reaches hc h.reaches

/-- A leaf that a token makes up says what stands there. -/
theorem Lexed.reproduces (h : Lexed c t d) (hc : (Cursor.ofString source).Reaches c) (hleaf : t.Spells leaf) :
    leaf.Reproduces source c.offset d.offset := by
  have slice := h.slice hc
  cases hleaf with
  | literal => exact slice
  | word hword => exact ⟨_, _, slice, Nat.le_refl _, h.verbatim.names hword⟩
  | @chunk chunk hl =>
    refine ⟨chunk.opening, ?_, h.verbatim.chunk hl ▸ slice⟩
    rw [TemplateChunk.opening]
    cases chunk.isHead <;> simp
  | tagName hl => exact h.verbatim.tagName hl ▸ slice

end

namespace Leaves

open Spans (Read Stands Steps)

variable {source : String} {m : Mode} {base r s t u : ParseState} {leaf : Leaf} {n n' : Node}

/-! ## What every production keeps -/

/-- The leaves of the tree say what stands where they have been finished. -/
def Good (source : String) (n : Node) : Prop :=
  n.All fun n => ∀ leaf ∈ n.kind.leaf?, ∃ e, n.info.extent = some e ∧
    leaf.Reproduces source e.start.offset e.stop.offset

theorem Good.recast (h : Good source n) (hr : n.Recast n') : Good source n' :=
  hr.all (fun hr h leaf hleaf => by
    rw [hr.extent]
    exact h leaf (hr.leaf? ▸ hleaf)) h

theorem Good.placeholder {params : List Node} {async : Bool} (h : ∀ p ∈ params, Good source p) :
    Good source (Parse.placeholder params async) := Node.all_iff.2 ⟨nofun, h⟩

/-- What has been consumed since the first state is what the leaf says. -/
def Tells (source : String) (base : ParseState) (leaf : Leaf) (t : ParseState) : Prop :=
  Read base t ∧ leaf.Reproduces source base.start.offset t.last.offset

theorem Tells.rests (hr : r.Rests s) (h : Tells source s leaf t) (ht : t.Rests u) : Tells source r leaf u := by
  obtain ⟨read, reproduces⟩ := h
  refine ⟨(Read.after (.rests hr) read).before (.rests ht), ?_⟩
  obtain ⟨_, _, _, _, _, rfl, _⟩ := hr
  obtain ⟨_, _, _, _, _, rfl, _⟩ := ht
  exact reproduces

/-- What comes behind a word changes nothing of its beginning. -/
theorem Tells.steps {name : String} (h : Tells source s (.word name) t) (hst : Steps t u) :
    Tells source s (.word name) u := by
  obtain ⟨read, raw, behind, slice, hle, names⟩ := h
  refine ⟨read.before hst, raw, behind, slice, ?_, names⟩
  rcases hst.last with same | ⟨start, -⟩
  · rwa [same]
  · exact Nat.le_trans hle (Nat.le_trans read.last start)

theorem Tells.next (h : Stands (.ofString source) .ahead s) (ht : s.Advances t) (hleaf : s.lookahead.Spells leaf) :
    Tells source s leaf t := by
  have sited : s.Sited (.ofString source) := h.placed
  refine ⟨(h.next ht).2, ?_⟩
  rw [(Stands.advances h.strict h.placed ht).2.1]
  exact sited.lexed.reproduces sited.reaches hleaf

theorem Tells.regex (h : Stands (.ofString source) .ahead s) (hu : s.Rescans u) (ht : u.Advances t) :
    Tells source s (.literal u.lookahead.raw) t := by
  have sited : u.Sited (.ofString source) := hu.sited h.placed
  refine ⟨(h.regex hu ht).2, ?_⟩
  have same : u.start = s.start := by
    obtain ⟨_, _, _, _, _, _, _, rfl⟩ := hu
    rfl
  have strict : u.dialect.tolerant = false := by
    obtain ⟨_, _, _, _, _, _, _, rfl⟩ := hu
    exact h.strict
  rw [(Stands.advances strict (m := .ahead) sited ht).2.1, ← same]
  exact sited.lexed.reproduces sited.reaches .literal

/-- A token of JSX where no trivia stands. -/
theorem Tells.nextJsx {token : Token} (h : Stands (.ofString source) m s) (hclear : s.Clear)
    (ht : s.AdvancesJsx token t)
    (htag : token.mayTag = true) (hleaf : token.Spells leaf) : Tells source s.unread leaf t.unread := by
  refine ⟨(h.nextJsx ht).2, ?_⟩
  obtain ⟨stop, _, _, lexed, _, rfl⟩ := ht
  rw [show s.trivia.cursor = s.scanner.cursor from hclear] at lexed
  refine (lexed.lexed ?_).reproduces h.placed.cursor hleaf
  simp only [Token.mayTag, Bool.and_eq_true, Bool.not_eq_true'] at htag
  exact htag.1.2

theorem Tells.nextJsxText {token : Token} (h : Stands (.ofString source) m s) (ht : s.AdvancesText token t)
    (hverbatim : token.text = token.raw) : Tells source s.unread (.text token.text token.raw) t.unread := by
  refine ⟨(h.nextJsxText ht).2, hverbatim, ?_⟩
  obtain ⟨stop, value, _, _, reaches, rfl, _, rfl⟩ := ht
  exact slice_of_reaches h.placed.cursor reaches

/-- A finished leaf says what has been consumed. -/
theorem Good.finish {start : Place} {kind : Kind Node} (hchildren : ∀ c ∈ kind.children, Good source c)
    (hstart : start.offset = base.start.offset) (hlast : t.last = s.last)
    (hleaf : ∀ leaf ∈ kind.leaf?, Tells source base leaf t)
    (hn : n = .mk (s.finishedInfo start) kind) : Good source n := by
  subst hn
  refine Node.all_iff.2 ⟨fun leaf h => ?_, hchildren⟩
  have tells := (hleaf leaf h).2
  rw [hlast, ← hstart] at tells
  exact ⟨_, rfl, tells⟩

/-- Nodes lie where they were read, and their leaves say what stands there. -/
def contract (source : String) : Contract :=
  { Spans.contract (.ofString source) with
    Good _ n _ := Good source n
    Firm _ n _ := Good source n
    Tells := Tells source
    good_steps h _ := h
    good_from _ h := h
    firm_later h _ := h
    firm_from _ h := h
    good_of_firm h := h
    firm_of_read h _ := h
    firm_of_not_arrow h _ := h
    firm_of_identifier h _ := h
    firm_toPattern h := h.recast (Node.toPattern_recast _)
    firm_child h hc := h.child hc
    firm_parameter h hn p hp := h.child (by rw [Node.children, hn]; exact hp)
    firm_yield h hn hr := h.recast (Node.yield_recast hn hr)
    good_placeholder _ _ h := .placeholder h
    good_escaped _ _ h := .placeholder h
    tells_of_rests := Tells.rests
    tells_steps := Tells.steps
    ofNext h := by
      refine Judgement.onSuccess.mono .next ?_
      rintro c t ⟨rfl, ht⟩
      obtain ⟨stands, read⟩ := h.next ht
      exact ⟨rfl, stands, read.steps, fun _ => read, trivial, fun leaf hleaf => .next h ht hleaf⟩
    ofRegex h hslash := by
      refine Judgement.onSuccess.mono (.regex h.placed hslash) ?_
      rintro _ t ⟨u, hu, rfl, ht⟩
      exact ⟨(h.regex hu ht).1, (h.regex hu ht).2, .regex h hu ht⟩
    ofFinish h hread hstart hk hchildren hleaf := by
      refine Judgement.onSuccess.mono .finish ?_
      rintro n t ⟨hn, ht⟩
      obtain ⟨stands, steps, read, begins, last⟩ := h.finishes hread hstart ht
      have good := Good.finish hchildren begins last hleaf hn
      exact ⟨stands, by rw [ht], steps, read, by rw [hn]; rfl, good, fun _ => good⟩
    ofMissingParen h _ hnone _ := by
      refine Judgement.bind Judgement.onSuccess.missingParen ?_
      rintro e t (⟨rfl, rfl⟩ | ⟨tolerant, -⟩)
      · exact hnone
      · simp [h.strict] at tolerant
    ofNextJsx h := Judgement.onSuccess.mono .nextJsx fun _ t ht htag =>
      ⟨(h.nextJsx ht).1, (h.nextJsx ht).2, fun clear leaf hleaf => .nextJsx h clear ht htag hleaf⟩
    ofNextJsxText h := Judgement.onSuccess.mono (Judgement.onSuccess.and .nextJsxText .nextJsxText_verbatim)
      fun _ t ⟨ht, verbatim⟩ =>
      ⟨(h.nextJsxText ht).1, (h.nextJsxText ht).2, .nextJsxText h ht verbatim⟩
    ofEmptyExpression h := by
      refine Judgement.onSuccess.mono .jsxEmptyExpression fun n t ht => ?_
      obtain ⟨stands, read, -⟩ := h.emptyExpression ht
      obtain ⟨_, -, rfl, -⟩ := ht
      exact ⟨stands, read, Node.all_iff.2 ⟨nofun, nofun⟩⟩ }

theorem source_good {dialect : Dialect} {root : Node} (hstrict : dialect.tolerant = false)
    (h : Parse.source source dialect = .ok root s) : Good source root := by
  obtain ⟨_, -, held, -⟩ := Contract.source_held (K := contract source) source dialect .complete ⟨hstrict, rfl,
    rfl⟩ root s h
  exact held.good root (by simp)

end Leaves

/-! ## Directives -/

/-- If the statement is a directive, it says what stands between the quotes of its literal. -/
def Node.Unquotes (n : Node) : Prop :=
  match n.kind with
  | .expressionStatement e (some text) =>
    ∃ value raw, e.kind = .literal value raw ∧ text = String.ofList (raw.toList.drop 1).dropLast
  | _ => True

theorem Derives.unquotes {size : Nat} {σ : Scope} {s : Symbol} {n : Node} (h : Derives size σ s n) : n.Unquotes := by
  have ofPattern {n : Node} (h : n.Unquotes) : n.toPattern.Unquotes := by
    obtain ⟨i, kind⟩ := n
    cases kind <;> exact h
  induction h with
  | weaken _ _ ih | operand _ ih | base _ ih | endChain _ _ ih | boundParameter _ ih | concise _ ih
  | complete _ _ ih | bound _ ih | drop _ ih | whole _ ih | item _ ih => exact ih
  | operandParameter _ ih | target _ _ _ ih => exact ofPattern ih
  | directive _ htext =>
    simp only [Parse.directiveText?, Parse.literalOf, Node.kind] at htext
    split at htext <;> cases htext
    exact ⟨_, _, rfl, rfl⟩
  | @plain _ _ kind hkind =>
    cases kind with
    | expressionStatement _ directive => cases directive <;> trivial
    | _ => trivial
  | _ => trivial

/-- Leaves reproduce the source: what a leaf says stands where the leaf does, or at its beginning if the leaf is an
identifier, and a directive is its literal without the quotes. -/
theorem leaves_reproduce {source : String} {o : ParseOptions} {p : Program} (hfits : source.utf8ByteSize < 2 ^ 32)
    (hstrict : o.tolerant = false) (hp : parse source o = .ok p) : ∀ entry ∈ p.root.walk,
      (∀ leaf ∈ entry.2.kind.leaf?, leaf.Reproduces source entry.2.span.start entry.2.span.stop) ∧
        entry.2.Unquotes := by
  intro entry hentry
  refine ⟨?_, parse_all hp hstrict (fun _ ⟨_, _, h⟩ => h.unquotes) entry hentry⟩
  obtain ⟨root, s, hs, rfl⟩ := parse_eq_ok.1 hp
  have recast := Program.asked_recast o root s
  have good : Leaves.Good source (Program.asked o root s).root :=
    (Leaves.source_good (show o.dialect.tolerant = false from hstrict) hs).recast recast
  have nested : (Program.asked o root s).root.Nested source.utf8ByteSize 0 source.utf8ByteSize :=
    (Recovery.source_nested hs).recast recast
  intro leaf hleaf
  obtain ⟨e, he, reproduces⟩ := good entry hentry leaf hleaf
  have waits : entry.2.kind.isPlaceholder = false := by
    cases hk : entry.2.kind <;> first | rfl | (rw [hk] at hleaf; cases hleaf)
  obtain ⟨start, stop⟩ := nested.inside (Nat.le_refl _) entry hentry waits e he
  rwa [Node.span, he, Option.map_some, Option.getD_some,
    Extent.span_eq (Nat.lt_of_le_of_lt start hfits) (Nat.lt_of_le_of_lt stop hfits)]

/-- A source with leaves of every form. -/
theorem leaves_reproduce_element : "'a';<p>b\x7b\x60c$\x7bd\x7de\x60\x7d</p>".utf8ByteSize < 2 ^ 32 ∧ ∃ p,
    parse "'a';<p>b\x7b\x60c$\x7bd\x7de\x60\x7d</p>" { jsx := true } = .ok p ∧
    p.root.walk.filterMap (fun entry => entry.2.kind.leaf?) =
      [.literal "'a'", .tagName "p", .text "b" "b", .chunk "c" false, .chunk "e" true, .word "d", .tagName "p"] ∧
    ∀ entry ∈ p.root.walk, (∀ leaf ∈ entry.2.kind.leaf?, leaf.Reproduces "'a';<p>b\x7b\x60c$\x7bd\x7de\x60\x7d</p>"
      entry.2.span.start entry.2.span.stop) ∧ entry.2.Unquotes := by
  have h : ((parse "'a';<p>b\x7b\x60c$\x7bd\x7de\x60\x7d</p>" { jsx := true }).toOption.any fun p =>
      p.root.walk.filterMap (fun entry => entry.2.kind.leaf?) ==
        [.literal "'a'", .tagName "p", .text "b" "b", .chunk "c" false, .chunk "e" true,
          .word "d", .tagName "p"]) = true := by
    decide +kernel
  have fits : "'a';<p>b\x7b\x60c$\x7bd\x7de\x60\x7d</p>".utf8ByteSize < 2 ^ 32 := by decide
  obtain ⟨p, hp, h⟩ := exists_ok_of_any h
  exact ⟨fits, p, hp, by simpa using h, leaves_reproduce fits rfl hp⟩

/-- The name of a generator in an object literal stands in front of its star, but covers it. -/
theorem identifier_covers_star : ∃ p, parse "(\x7ba*()\x7b\x7d\x7d)" {} = .ok p ∧ ∃ entry ∈ p.root.walk,
    entry.2.identifierName? = some "a" ∧
      SliceOf "(\x7ba*()\x7b\x7d\x7d)" entry.2.span.start entry.2.span.stop "a*" := by
  have h : ((parse "(\x7ba*()\x7b\x7d\x7d)" {}).toOption.any fun p => p.root.walk.any fun entry =>
      entry.2.identifierName? == some "a" && entry.2.span == ⟨2, 4⟩) = true := by
    decide +kernel
  obtain ⟨p, hp, h⟩ := exists_ok_of_any h
  simp only [List.any_eq_true, Bool.and_eq_true, beq_iff_eq] at h
  obtain ⟨entry, hentry, hname, hspan⟩ := h
  refine ⟨p, hp, entry, hentry, hname, ?_⟩
  rw [hspan]
  exact ⟨"(\x7b", "()\x7b\x7d\x7d)", by decide, by decide, by decide⟩

end EcmaTree
