import EcmaTree.Proofs.Derivation.Binding
import EcmaTree.Proofs.Grammar.Jsx

/-!
# JSX

A closing tag ends the element that is open; so the only element without one is the element in which the source ends.
-/

namespace EcmaTree.Parse

open Judgement (onSuccess)

variable {α β : Type} {source : String} {outer : Scope} {m o : Mode} {E : Setting} {c : Cover} {s t : ParseState}

/-! ## Tokens -/

namespace Keeps

theorem skipTrivia (hm : m ≠ .ahead) : Keeps source m m skipTrivia fun _ => True :=
  ofEnsures fun s hs => onSuccess.mono .skipTrivia fun _ t ht => by
    have placed := hs.placed.skips hm ht
    obtain ⟨_, _, _, rfl⟩ := ht
    exact ⟨⟨hs.dialect, hs.scanner, placed⟩, rfl, rfl, trivial⟩

theorem markJsx (hm : m ≠ .ahead) : Keeps source m m markJsx fun _ => True :=
  .bind (skipTrivia hm) fun _ _ _ _ => .get fun _ _ _ _ => .pure ⟨rfl, rfl, trivial⟩

theorem nextJsx : Keeps source m .inside nextJsx fun _ => True :=
  ofEnsures fun s hs => onSuccess.mono .nextJsx fun _ t ht => by
    have placed := hs.placed.advancesJsx ht
    obtain ⟨_, _, _, _, _, rfl⟩ := ht
    exact ⟨⟨hs.dialect, hs.scanner, placed⟩, rfl, rfl, trivial⟩

theorem nextJsxText : Keeps source m .inside nextJsxText fun _ => True :=
  ofEnsures fun s hs => onSuccess.mono .nextJsxText fun _ t ht => by
    have placed := hs.placed.advancesText ht
    obtain ⟨_, _, _, _, _, _, _, rfl⟩ := ht
    exact ⟨⟨hs.dialect, hs.scanner, placed⟩, rfl, rfl, trivial⟩

theorem expectJsx {p : Punctuator} : Keeps source m .inside (expectJsx p) fun _ => True :=
  .bind nextJsx fun _ _ _ _ => .ite (fun _ => .pure ⟨rfl, rfl, trivial⟩) fun _ => Stops.failAt.yields

theorem checkJsx {p : Punctuator} : Keeps source m m (checkJsx p) fun _ => True :=
  .bind (scan (.probe fun _ => .scanTrivia fun _ => onSuccess.mono Judgement.jsxToken_ensures
    fun _ _ ⟨d, hd, _⟩ => ⟨d, hd⟩))
    fun _ _ => .pure trivial

/-- Where the last consumed token ends does not count. -/
theorem setLast {place : ParseState → Place} :
    Keeps source m m (modify fun s => { s with last := place s }) fun _ => True :=
  ofEnsures fun s hs => by
    rintro _ _ ⟨⟩
    exact ⟨hs.congr rfl rfl, rfl, rfl, trivial⟩

theorem startJsx : Keeps source .ahead .entering startJsx fun _ => True :=
  ofEnsures fun s hs => onSuccess.mono .startJsx fun _ t ht => by
    subst ht
    exact ⟨⟨hs.dialect, hs.scanner, hs.placed.enter⟩, rfl, rfl, trivial⟩

theorem leaveJsx : Keeps source .inside .ahead leaveJsx fun _ => True := fun E c s hs hE hc =>
  Keeps.skip E c { s with scanner.regions := .braces :: s.scanner.regions } (hs.congr rfl rfl) hE hc

theorem reenterJsx : Keeps source .ahead .inside reenterJsx fun _ => True :=
  ofEnsures fun s hs => onSuccess.mono .reenterJsx fun _ t ht => by
    obtain ⟨_, u, hu, -, rfl⟩ := ht
    have placed := hs.placed.enter.advancesJsx hu
    obtain ⟨_, _, _, _, _, rfl⟩ := hu
    exact ⟨⟨hs.dialect, hs.scanner, placed⟩, rfl, rfl, trivial⟩

end Keeps

/-- The production reads a part of an element. -/
abbrev ReadsJsx (source : String) (E : Setting) (p : Parse α) (Q : α → Prop) : Prop :=
  ∀ m, m ≠ .ahead → ∀ c, Yields source m .inside E c p fun a E' _ => E = E' ∧ Q a

/-- Before an element and inside of one a parse stands in the same way. -/
theorem Yields.entering {p : Parse α} {Q : α → Setting → Cover → Prop} (hm : m ≠ .ahead)
    (h : Yields source .entering o E c p Q) : Yields source m o E c p Q := fun s hs =>
  h s ⟨hs.dialect, hs.scanner, by cases m <;> first | exact absurd rfl hm | exact hs.placed⟩

/-! ## Names -/

theorem jsxIdentifier_keeps (hm : m ≠ .ahead) :
    Keeps source m .inside jsxIdentifier (DerivedAnywhere source) := fun E c => by
  refine .keep (.markJsx hm) fun start _ => .keep .nextJsx fun t _ => ?_
  split
  · exact .finish fun i => ⟨rfl, rfl, fun σ => .plain rfl (by simp [Kind.children])⟩
  · exact Stops.failAt.yields

theorem jsxNamespaced_keeps (start : Place) {space : Node} (h : DerivedAnywhere source space) :
    Keeps source .inside .inside (jsxNamespaced start space) (DerivedAnywhere source) := fun E c => by
  refine .keep .expectJsx fun _ _ => .keep (jsxIdentifier_keeps nofun) fun name hname =>
    .finish fun i => ⟨rfl, rfl, fun σ => ?_⟩
  exact .plain rfl (by simpa [Kind.children] using ⟨h σ, hname σ⟩)

theorem jsxElementName_keeps (hm : m ≠ .ahead) :
    Keeps source m .inside jsxElementName (DerivedAnywhere source) := fun E c => by
  refine .keep (.markJsx hm) fun start _ => .keep (jsxIdentifier_keeps hm) fun first h =>
    .keep .checkJsx fun _ _ => .ite (fun _ => jsxNamespaced_keeps start h E c) fun _ => ?_
  refine .loop (I := fun n E' c' => E = E' ∧ c = c' ∧ DerivedAnywhere source n) ⟨rfl, rfl, h⟩ ?_
  rintro owner _ _ ⟨rfl, rfl, h⟩
  refine .keep .checkJsx fun _ _ => .ite (fun _ => ?_) fun _ => .pure ⟨rfl, rfl, h⟩
  refine .keep .expectJsx fun _ _ => .keep (jsxIdentifier_keeps nofun) fun field hf => .node fun i =>
    .pure ⟨rfl, rfl, fun σ => ?_⟩
  exact .plain rfl (by simpa [Kind.children] using ⟨h σ, hf σ⟩)

theorem jsxAttributeName_keeps (hm : m ≠ .ahead) :
    Keeps source m .inside jsxAttributeName (DerivedAnywhere source) := fun E c =>
  .keep (.markJsx hm) fun start _ => .keep (jsxIdentifier_keeps hm) fun _ h => .keep .checkJsx fun _ _ =>
    .ite (fun _ => jsxNamespaced_keeps start h E c) fun _ => .pure ⟨rfl, rfl, h⟩

/-! ## Attributes -/

section
variable {nested : Nested} (outer) (hn : Sound source nested)
include hn

theorem jsxExpressionValue_derived (E : Setting) :
    ReadsJsx source E (jsxExpressionValue nested) (Derived source outer E .node) := by
  refine fun m hm c => .keep (.markJsx hm) fun start _ => .keep .expectJsx fun _ _ => .keep .leaveJsx fun _ _ => ?_
  refine .check fun _ => .assert Stops.tolerateHere fun _ => .part ((hn.assignment outer) E c) fun e c' he => ?_
  exact .keep .reenterJsx fun _ _ => .finish fun i => ⟨rfl, .container (.drop he)⟩

omit hn in
theorem jsxStringValue_derived (E : Setting) :
    ReadsJsx source E jsxStringValue (Derived source outer E .node) := fun _ hm _ =>
  .keep (.markJsx hm) fun _ _ => .keep .nextJsx fun _ _ =>
    .ite (fun ht => .finish fun _ => ⟨rfl, .text ht⟩) fun _ =>
    Stops.failAt.yields

theorem jsxAttributeValue_derived (E : Setting) :
    ReadsJsx source E (jsxAttributeValue nested) (Derived source outer E .node) := by
  refine fun m hm c => .keep .checkJsx fun _ _ => .ite (fun _ => jsxExpressionValue_derived outer hn E m hm c)
    fun _ => ?_
  refine .keep .checkJsx fun _ _ => .ite (fun _ => ?_) fun _ => jsxStringValue_derived outer E m hm c
  exact .mono (.entering hm (hn.jsxElement outer E c)) fun n E' c' ⟨hE, h⟩ => ⟨hE, .complete rfl h⟩

theorem jsxNamedAttribute_derived (E : Setting) :
    ReadsJsx source E (jsxNamedAttribute nested) (Derived source outer E .node) := by
  refine fun m hm c => .keep (.markJsx hm) fun start _ => .keep (jsxAttributeName_keeps hm) fun name h => ?_
  refine .keep .checkJsx fun _ _ => .ite (fun _ => ?_) fun _ => .value (.finish fun i => ⟨rfl, .plain rfl ?_⟩)
  · refine .keep .expectJsx fun _ _ => .part (jsxAttributeValue_derived outer hn E .inside nofun c)
      fun value c' hv => .value (.finish fun i => ⟨rfl, .plain rfl ?_⟩)
    simpa [Kind.children] using ⟨h _, hv⟩
  · simpa [Kind.children] using h _

theorem jsxSpreadAttribute_derived (E : Setting) :
    ReadsJsx source E (jsxSpreadAttribute nested) (Derived source outer E .node) := by
  refine fun m hm c => .keep (.markJsx hm) fun start _ => .keep .expectJsx fun _ _ =>
    .keep .expectJsx fun _ _ => .keep .leaveJsx fun _ _ => ?_
  refine .part ((hn.assignment outer) E c) fun argument c' h => .keep .reenterJsx fun _ _ => .finish fun i => ⟨rfl, ?_⟩
  exact .spreadAttribute (.drop h)

omit hn in
theorem atTagEnd_keeps : Keeps source .inside .inside atTagEnd fun _ => True :=
  .bind .checkJsx fun _ _ E c => .ite (fun _ => .pure ⟨rfl, rfl, trivial⟩) fun _ => Keeps.checkJsx E c

theorem jsxAttributes_derived (E : Setting) (c : Cover) : Yields source .inside .inside E c (jsxAttributes nested)
    fun attributes E' _ => E = E' ∧ ∀ n ∈ attributes, Derived source outer E .node n := by
  refine .mono (Reads.manyBefore (I := fun _ => True) (R := fun n _ => Derived source outer E .node n)
    atTagEnd_keeps trivial fun c _ => ?_)
    fun attributes E' c' ⟨hE, _, h⟩ => ⟨hE, h⟩
  refine .keep .checkJsx fun _ _ => .ite (fun _ => ?_) fun _ => ?_
  · exact .mono (jsxSpreadAttribute_derived outer hn E .inside nofun c) fun n E' c' ⟨hE, h⟩ =>
      ⟨hE, trivial, h, fun _ hb => hb⟩
  · exact .mono (jsxNamedAttribute_derived outer hn E .inside nofun c) fun n E' c' ⟨hE, h⟩ =>
      ⟨hE, trivial, h, fun _ hb => hb⟩

/-! ## Tags -/

theorem jsxOpeningRest_derived (start : Place) (E : Setting) (c : Cover) :
    Yields source .inside .inside E c (jsxOpeningRest nested start) fun n E' _ => E = E' ∧
      Derived source outer E .node n ∧
      ∃ name attributes selfClosing, n.kind = .jsxOpeningElement name attributes selfClosing := by
  refine .keep (jsxElementName_keeps nofun) fun name h => .part (jsxAttributes_derived outer hn E c)
    fun attributes c' ha => ?_
  have done {selfClosing : Bool} : Yields source .inside .inside E c' (do
      expectJsx .gt
      finish start (.jsxOpeningElement name attributes selfClosing)) fun n E' _ => E = E' ∧
        Derived source outer E .node n ∧
        ∃ name attributes selfClosing, n.kind = .jsxOpeningElement name attributes selfClosing := by
    refine .keep .expectJsx fun _ _ => .finish fun i => ⟨rfl, .plain rfl ?_, name, attributes, selfClosing, rfl⟩
    simpa [Kind.children] using ⟨h _, ha⟩
  exact .keep .checkJsx fun selfClosing _ => .ite (fun _ => .keep .expectJsx fun _ _ => done) fun _ => done

theorem jsxOpening_derived (E : Setting) :
    ReadsJsx source E (jsxOpening nested) fun n => Derived source outer E .node n ∧
    (n.kind = .jsxOpeningFragment ∨ ∃ name attributes selfClosing,
      n.kind = .jsxOpeningElement name attributes selfClosing) := by
  refine fun m hm c => .keep (.markJsx hm) fun start _ => .keep .expectJsx fun _ _ =>
    .keep .checkJsx fun _ _ => .ite (fun _ => ?_) fun _ => ?_
  · exact .keep .expectJsx fun _ _ => .finish fun i => ⟨rfl, .plain rfl (by simp [Kind.children]), .inl rfl⟩
  · exact .mono (jsxOpeningRest_derived outer hn start E c) fun n E' c' ⟨hE, h, hkind⟩ => ⟨hE, h, .inr hkind⟩

theorem jsxTag_derived (E : Setting) : ReadsJsx source E (jsxTag nested) (Derived source outer E .node) := by
  refine fun m hm c => .keep (.markJsx hm) fun start _ => .keep .expectJsx fun _ _ =>
    .keep .checkJsx fun _ _ => .ite (fun _ => ?_) fun _ => ?_
  · refine .keep .expectJsx fun _ _ => .keep .checkJsx fun _ _ => .ite (fun _ => ?_) fun _ => ?_
    · exact .keep .expectJsx fun _ _ => .finish fun i => ⟨rfl, .plain rfl (by simp [Kind.children])⟩
    · refine .keep (jsxElementName_keeps nofun) fun name h => .keep .expectJsx fun _ _ =>
        .finish fun i => ⟨rfl, .plain rfl ?_⟩
      simpa [Kind.children] using h _
  · exact .mono (jsxOpeningRest_derived outer hn start E c) fun n E' c' ⟨hE, h, _⟩ => ⟨hE, h⟩

/-! ## What stands between tags -/

omit hn in
theorem jsxEmptyExpression_keeps : Keeps source .inside .inside jsxEmptyExpression (DerivedAnywhere source) :=
  fun E c =>
  .scannerPlace fun start => .keep (.skipTrivia nofun) fun _ _ => .keep .setLast fun _ _ =>
    .finish fun i => ⟨rfl, rfl, fun σ => .plain rfl (by simp [Kind.children])⟩

theorem jsxExpressionChild_derived (E : Setting) :
    ReadsJsx source E (jsxExpressionChild nested) (Derived source outer E .node) := by
  refine fun m hm c => .keep (.markJsx hm) fun start _ => .keep .expectJsx fun _ _ =>
    .keep .checkJsx fun _ _ => .ite (fun _ => ?_) fun _ => ?_
  · refine .keep jsxEmptyExpression_keeps fun e he => .keep .expectJsx fun _ _ => .value (.finish fun i => ⟨rfl, ?_⟩)
    exact .container (.whole (he _))
  · refine .keep .leaveJsx fun _ _ => .part ((hn.assignment outer) E c) fun e c' he =>
      .keep .reenterJsx fun _ _ => .value (.finish fun i => ⟨rfl, ?_⟩)
    exact .container (.drop he)

omit hn in
theorem jsxTextChild_keeps : Keeps source .inside .inside jsxTextChild fun r => ∀ n ∈ r,
    DerivedAnywhere source n := fun E c => by
  refine .scannerPlace fun start => .keep .nextJsxText fun t _ =>
    .ite (fun _ => .node fun i => .pure ⟨rfl, rfl, ?_⟩) fun _ => .pure ⟨rfl, rfl, nofun⟩
  simpa using fun σ => .plain rfl (by simp [Kind.children])

theorem jsxChildren_derived (E : Setting) (c : Cover) : Yields source .inside .inside E c (jsxChildren nested)
    fun children E' _ => E = E' ∧ ∀ n ∈ children, Derived source outer E .node n := by
  refine .part (P := fun children _ => ∀ n ∈ children, Derived source outer E .node n) (Reads.loop
    (I := fun children _ => ∀ n ∈ children, Derived source outer E .node n) (by simp) fun children c h => ?_)
      fun children c h => ?_
  · refine .get fun _ _ _ _ => .ite (fun _ => .pure ⟨rfl, h⟩) fun _ => .keep jsxTextChild_keeps fun text ht => ?_
    have more : ∀ n ∈ text.toList ++ children, Derived source outer E .node n := by
      simpa [or_imp, forall_and] using ⟨fun n hn => ht n hn _, h⟩
    refine .get fun _ _ _ _ => .ite (fun _ => ?_) fun _ => .pure ⟨rfl, more⟩
    exact .part (jsxExpressionChild_derived outer hn E .inside nofun c) fun child c hc =>
      .pure ⟨rfl, List.forall_mem_cons.2 ⟨hc, more⟩⟩
  · exact .pure ⟨rfl, by simpa using h⟩

end

/-! ## Elements -/

/-- The element is open: its tag does not close it, and nothing else has. -/
structure Opened (source : String) (outer : Scope) (E : Setting) (e : OpenElement) : Prop where
  opening : Derived source outer E .node e.opening
  opens : e.opening.kind = .jsxOpeningFragment ∨ ∃ name attributes,
    e.opening.kind = .jsxOpeningElement name attributes false
  content : ∀ n ∈ e.content, Derived source outer E .node n
  closing : e.closing = none

/-- The element is complete. -/
abbrev Closed (source : String) (outer : Scope) (E : Setting) (e : OpenElement) : Prop :=
  ∀ i, Derived source outer E (.expression .free) (.mk i e.kind)

/-- An open element with the elements around it. -/
abbrev Nest (source : String) (outer : Scope) (E : Setting) (p : OpenElement × List OpenElement) : Prop :=
  Opened source outer E p.1 ∧ ∀ e ∈ p.2, Opened source outer E e

namespace Opened

variable {e : OpenElement}

theorem add (h : Opened source outer E e) {children : List Node} (hc : ∀ n ∈ children, Derived source outer E .node n) :
    Opened source outer E { e with content := children ++ e.content } :=
  ⟨h.opening, h.opens, by simpa [or_imp, forall_and] using ⟨hc, h.content⟩, h.closing⟩

/-- The source ends inside the element. -/
theorem unclosed (h : Opened source outer E e) {i : NodeInfo} {extent : Extent} (hi : i.extent = some extent)
    (hend : extent.stop.offset = source.utf8ByteSize) : Derived source outer E (.expression .free) (.mk i e.kind) := by
  have : e.kind = .jsxElement e.opening e.content.reverse none := by rw [OpenElement.kind, h.closing]
  rw [this]
  refine .unclosed h.opening (by simpa using h.content) ?_ hi hend
  rcases h.opens with hkind | ⟨_, _, hkind⟩ <;> simp [isSelfClosing, hkind]

/-- A closing tag with the name of the opening one closes the element. -/
theorem close (h : Opened source outer E e) {tag name name' : Node} {attributes : List Node} {selfClosing : Bool}
    (htag : Derived source outer E .node tag) (ho : e.opening.kind = .jsxOpeningElement name attributes selfClosing)
    (hc : tag.kind = .jsxClosingElement name') (hname : qualifiedName name = qualifiedName name') :
    Closed source outer E { e with closing := some tag } := fun i => by
  obtain rfl : selfClosing = false := by
    rcases h.opens with hkind | ⟨_, _, hkind⟩
    · cases ho.symm.trans hkind
    · cases ho.symm.trans hkind
      rfl
  have : OpenElement.kind { e with closing := some tag } = .jsxElement e.opening e.content.reverse (some tag) := by
    simp [OpenElement.kind, isFragmentTag, ho]
  rw [this]
  exact .element h.opening (by simpa using h.content) htag ho hc hname

theorem closeFragment (h : Opened source outer E e) {tag : Node} (htag : Derived source outer E .node tag)
    (ho : isFragmentTag e.opening = true) (hc : tag.kind = .jsxClosingFragment) :
    Closed source outer E { e with closing := some tag } := fun i => by
  have hfragment : e.opening.kind = .jsxOpeningFragment :=
    h.opens.resolve_right fun ⟨_, _, hkind⟩ => by simp [isFragmentTag, hkind] at ho
  have : OpenElement.kind { e with closing := some tag } = .jsxFragment e.opening e.content.reverse tag := by
    simp [OpenElement.kind, isFragmentTag, hfragment, hc]
  rw [this]
  exact .fragment h.opening (by simpa using h.content) htag hfragment hc

end Opened

theorem checkClosingName_keeps (opening name : Node) : Keeps source .inside .inside (checkClosingName opening name)
    fun _ => ∃ expected attributes selfClosing, opening.kind = .jsxOpeningElement expected attributes selfClosing ∧
      qualifiedName expected = qualifiedName name := fun E c => by
  unfold checkClosingName
  split
  next expected attributes selfClosing hkind =>
    refine .ite (fun _ => Stops.tolerateHere.yields) fun h =>
      .pure ⟨rfl, rfl, expected, attributes, selfClosing, hkind, ?_⟩
    simpa using h
  · exact Stops.tolerateHere.yields

theorem takeTag_derived {e : OpenElement} {stack : List OpenElement} {start : Place} {tag : Node}
    (h : Nest source outer E (e, stack)) (htag : Derived source outer E .node tag) (c : Cover) :
    Yields source .inside .inside E c (takeTag e stack start tag)
      (Progress.Meets (fun p E' _ => E = E' ∧ Nest source outer E p) fun p E' _ => E = E' ∧
        Closed source outer E p.1) := by
  obtain ⟨he, hstack⟩ := h
  have child {e' : OpenElement} {n : Node} (he' : Opened source outer E e') (hn : Derived source outer E .node n) :
      Opened source outer E (e'.add n) := he'.add (List.forall_mem_singleton.2 hn)
  unfold takeTag
  split
  next name attributes hkind =>
    exact .node fun i => .pure ⟨rfl, child he (.complete rfl (.selfClosing htag hkind)), hstack⟩
  next name attributes hkind =>
    exact .pure ⟨rfl, ⟨htag, .inr ⟨name, attributes, hkind⟩, by simp, rfl⟩, List.forall_mem_cons.2 ⟨he, hstack⟩⟩
  next name hkind =>
    refine .keep (checkClosingName_keeps _ _) fun _ ⟨expected, attributes, selfClosing, ho, hname⟩ => ?_
    have closed := he.close htag ho hkind hname
    cases stack with
    | nil => exact .pure ⟨rfl, closed⟩
    | cons parent stack =>
      obtain ⟨hparent, hstack⟩ := List.forall_mem_cons.1 hstack
      exact .node fun i => .pure ⟨rfl, child hparent (.complete rfl (closed i)), hstack⟩
  next hkind =>
    exact .ite (fun hfragment => .pure ⟨rfl, he.closeFragment htag hfragment hkind⟩) fun _ =>
      Stops.tolerateHere.bind.yields
  · exact .pure ⟨rfl, he, hstack⟩

/-! ## Where an element ends -/

/-- What has been consumed last ends where the scanner stands. -/
abbrev Flush (s : ParseState) : Prop := s.last = s.scanner.cursor.place

theorem nextJsx_flush : onSuccess.Ensures nextJsx s fun _ => Flush := onSuccess.mono .nextJsx fun _ _ ht => by
  obtain ⟨_, _, _, _, _, rfl⟩ := ht
  rfl

theorem finish_flush {start : Place} {kind : Kind Node} (h : Flush s) :
    onSuccess.Ensures (finish start kind) s fun _ => Flush :=
  onSuccess.mono .finish fun _ _ ⟨_, ht⟩ => by
    subst ht
    exact h

/-- A tag ends with a punctuator. -/
theorem expectJsx_flush {p : Punctuator} {start : Place} {kind : Kind Node} :
    onSuccess.Ensures (expectJsx p >>= fun _ => finish start kind) s fun _ => Flush := by
  rw [expectJsx, bind_assoc]
  refine Judgement.bind nextJsx_flush fun _ t ht => onSuccess.ofBind (.ite (fun _ => ?_) fun _ => .failAt)
  exact onSuccess.ofPure (finish_flush ht)

theorem takeTag_flush {e : OpenElement} {stack : List OpenElement} {start : Place} {tag : Node} (h : Flush s) :
    onSuccess.Ensures (takeTag e stack start tag) s fun _ => Flush := by
  have settled {p : Parse Unit} (hp : onSuccess.Settles p) : onSuccess.Ensures p s fun _ => Flush :=
    onSuccess.mono (hp s) fun _ t ht => by
      obtain ⟨_, _, _, _, _, rfl, _⟩ := ht
      exact h
  unfold takeTag
  split
  · exact Judgement.bind (finish_flush h) fun _ t ht => onSuccess.ofPure ht
  · exact onSuccess.ofPure h
  · refine Judgement.bind (settled (Contract.checkClosingName_settles _ _)) fun _ t ht => ?_
    cases stack with
    | nil => exact onSuccess.ofPure ht
    | cons parent stack => exact Judgement.bind (finish_flush ht) fun _ u hu => onSuccess.ofPure hu
  · refine .ite (fun _ => onSuccess.ofPure h) fun _ => ?_
    exact Judgement.bind (settled (.tolerateHere _)) fun _ t ht => onSuccess.ofPure ht
  · exact onSuccess.ofPure h

section
variable {nested : Nested} (outer) (hn : Sound source nested)
include hn

omit hn in
theorem jsxOpeningRest_flush (start : Place) : onSuccess.Ensures (jsxOpeningRest nested start) s fun _ => Flush := by
  refine Judgement.bind any fun _ _ _ => Judgement.bind any fun _ _ _ => Judgement.bind any fun _ _ _ =>
    .ite (fun _ => ?_) fun _ => ?_
  · exact Judgement.bind any fun _ _ _ => expectJsx_flush
  · exact expectJsx_flush

omit hn in
theorem jsxOpening_flush : onSuccess.Ensures (jsxOpening nested) s fun _ => Flush :=
  Judgement.bind any fun _ _ _ => Judgement.bind any fun _ _ _ => Judgement.bind any fun _ _ _ =>
    .ite (fun _ => expectJsx_flush) fun _ => jsxOpeningRest_flush _

omit hn in
theorem jsxTag_flush : onSuccess.Ensures (jsxTag nested) s fun _ => Flush := by
  refine Judgement.bind any fun _ _ _ => Judgement.bind any fun _ _ _ => Judgement.bind any fun _ _ _ =>
    .ite (fun _ => ?_) fun _ => jsxOpeningRest_flush _
  refine Judgement.bind any fun _ _ _ => Judgement.bind any fun _ _ _ => .ite (fun _ => expectJsx_flush) fun _ => ?_
  exact Judgement.bind any fun _ _ _ => expectJsx_flush

/-- The content of an element goes up to its closing tag, or to the end of the source. -/
theorem jsxContent_ensures {e : OpenElement} (he : Opened source outer E e) (hs : s.Strict source .inside)
    (hE : s.setting = E)
    (hflush : Flush s) : onSuccess.Ensures (jsxContent nested e) s fun e t => t.Strict source .inside ∧ t.setting = E ∧
      (Closed source outer E e ∨ Opened source outer E e ∧ t.last.offset = source.utf8ByteSize) := by
  let I (p : OpenElement × List OpenElement) (t : ParseState) : Prop :=
    t.Strict source .inside ∧ t.setting = E ∧ Flush t ∧ Nest source outer E p
  let D (p : OpenElement × List OpenElement) (t : ParseState) : Prop := t.Strict source .inside ∧ t.setting = E ∧
    (Closed source outer E p.1 ∨ Opened source outer E p.1 ∧ t.last.offset = source.utf8ByteSize)
  refine Judgement.bind (P := D) (Judgement.Ensures.loop (I := I) ⟨hs, hE, hflush, he, nofun⟩ ?_)
    fun (e, _) t h => onSuccess.ofPure h
  rintro ⟨e, stack⟩ t ⟨ht, hE, hflush, he, hstack⟩
  refine onSuccess.get (.ite (fun hend => onSuccess.ofPure ⟨ht, hE, .inr ⟨he, ?_⟩⟩) fun _ => ?_)
  · have := ht.placed.cursor.offset_add_bytes
    rw [Cursor.atEnd, List.isEmpty_iff] at hend
    rw [hflush, ← this, hend]
    rfl
  · refine Judgement.bind (jsxChildren_derived outer hn E _ t ht hE rfl) fun children u ⟨hu, hE, hc⟩ => .scannerPlace ?_
    refine Judgement.bind (P := fun tag v => (v.Strict source .inside ∧ E = v.setting ∧
      Derived source outer E .node tag) ∧ Flush v)
      (fun a v h => ⟨jsxTag_derived outer hn E .inside nofun _ u hu hE.symm rfl a v h, jsxTag_flush a v h⟩) ?_
    rintro tag v ⟨⟨hv, hE, htag⟩, hflush⟩ p w hw
    have nest : Nest source outer E ({ e with content := children.reverse ++ e.content }, stack) :=
      ⟨he.add (by simpa using hc), hstack⟩
    obtain ⟨strict, hp⟩ := takeTag_derived nest htag _ v hv hE.symm rfl p w hw
    have flush := takeTag_flush hflush p w hw
    cases p with
    | more p => exact ⟨strict, hp.1.symm, flush, hp.2⟩
    | done p => exact ⟨strict, hp.1.symm, .inl hp.2⟩

theorem jsxElement_derived (E : Setting) (c : Cover) :
    Yields source .entering .inside E c (jsxElement nested) fun n E' _ => E = E' ∧
      Derived source outer E (.expression .free) n := by
  refine .keep (.markJsx nofun) fun start _ s hs hE hc => ?_
  refine Judgement.bind (P := fun opening t => (t.Strict source .inside ∧ E = t.setting ∧
    Derived source outer E .node opening ∧
    (opening.kind = .jsxOpeningFragment ∨ ∃ name attributes selfClosing,
      opening.kind = .jsxOpeningElement name attributes selfClosing)) ∧ Flush t)
    (fun a t h => ⟨jsxOpening_derived outer hn E .entering nofun c s hs hE hc a t h, jsxOpening_flush a t h⟩) ?_
  rintro opening t ⟨⟨ht, hE, ho, hkind⟩, hflush⟩
  refine .ite (fun hclosing => .value ?_) fun hopen => ?_
  · obtain ⟨name, attributes, hkind⟩ : ∃ name attributes, opening.kind = .jsxOpeningElement name attributes true := by
      rcases hkind with hkind | ⟨name, attributes, selfClosing, hkind⟩ <;> simp_all [isSelfClosing]
    exact Yields.finish (Q := fun n E' _ => E = E' ∧ Derived source outer E (.expression .free) n)
      (fun i => ⟨rfl, .selfClosing ho hkind⟩) t ht hE.symm rfl
  · have opens : Opened source outer E { start, opening } := by
      refine ⟨ho, hkind.imp_right ?_, by simp, rfl⟩
      rintro ⟨name, attributes, selfClosing, hkind⟩
      exact ⟨name, attributes, by simp_all [isSelfClosing]⟩
    refine Judgement.bind (jsxContent_ensures outer hn opens ht hE.symm hflush) fun e u ⟨hu, hE, he⟩ => ?_
    refine onSuccess.mono .finish ?_
    rintro _ _ ⟨rfl, rfl⟩
    refine ⟨hu.congr rfl rfl, hE.symm, ?_⟩
    rcases he with closed | ⟨opened, hend⟩
    · exact closed _
    · exact opened.unclosed rfl hend

/-- An element stands for its value where `<` begins an expression. -/
theorem jsxExpression_derived (E : Setting) (c : Cover) :
    Reads source E c (jsxExpression nested) fun n _ => Derived source outer E (.expression .free) n :=
  .keep .startJsx fun _ _ => .part (jsxElement_derived outer hn E c) fun _ _ h => .keep .skip fun _ _ =>
    .pure ⟨rfl, h⟩

end

end EcmaTree.Parse
