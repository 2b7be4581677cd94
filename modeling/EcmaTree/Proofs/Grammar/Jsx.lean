import EcmaTree.Grammar.Jsx
import EcmaTree.Proofs.Grammar.Class

/-!
# JSX

An element begins where the scanner stands. Reading goes over to ordinary tokens inside braces, and back at the
closing brace; both are steps between two ways to stand. The open elements of a nest began one inside the other, so
what is read inside the innermost one is good in all of them.
-/

namespace EcmaTree

/-- May the punctuator stand in a tag? -/
@[reducible] def Punctuator.mayTag : Punctuator → Bool
  | .rightParen => false
  | _ => true

namespace Contract

open Parse

variable {K : Contract} {m : Mode} {r : Bool} {base s : ParseState} {ns : List Node} {α β : Type}

/-! ## Tokens -/

namespace Held

variable {Q : β → ParseState → Prop}

theorem entering (h : K.Held .inside r base ns s) : K.Held .entering r base ns s :=
  ⟨K.entering_of_inside h.stands, h.moved, h.good⟩

theorem nextJsx {f : Token → Parse β} (h : K.Held .entering r base ns s)
    (hf : ∀ c t, (c.mayTag = true → K.Held .inside true base ns t) → K.Ensures (f c) t Q) :
    K.Ensures (nextJsx >>= f) s Q := by
  refine Judgement.bind (K.ofNextJsx h.stands) fun c t ht => hf c t fun hc => ?_
  obtain ⟨stands, read, -⟩ := ht hc
  simpa using h.step (o := .inside) (q := true) stands read

theorem expectJsx {p : Punctuator} [hp : Evident p.mayTag] {f : Unit → Parse β} (h : K.Held .entering r base ns s)
    (hf : ∀ t, K.Held .inside true base ns t → K.Ensures (f ()) t Q) : K.Ensures (expectJsx p >>= f) s Q := by
  rw [Parse.expectJsx, bind_assoc]
  refine h.nextJsx fun c t ht => K.ofBind (.ite (fun hc => K.ofPure (hf t (ht ?_))) fun _ => .failAt)
  rw [Token.isPunctuator_iff] at hc
  have : p ≠ .rightParen := by
    rintro rfl
    simpa using hp.eq
  simpa [Token.mayTag, Token.isEnd, Token.isTemplate, Token.isPunctuator, hc] using this

theorem leaveJsx {f : Unit → Parse β} (h : K.Held .inside r base ns s)
    (hf : ∀ t, K.Held .ahead true base ns t → K.Ensures (f ()) t Q) : K.Ensures (leaveJsx >>= f) s Q := by
  rw [Parse.leaveJsx, bind_assoc]
  refine K.ofBind (.modifying (fun _ _ _ => rfl) ?_)
  have h := h.rests (t := { s with scanner.regions := .braces :: s.scanner.regions })
    ⟨s.context, s.labels, s.cover, _, _, rfl, List.prefix_refl _⟩
  refine Judgement.bind (K.ofSkipInside h.stands) ?_
  rintro _ t ⟨stands, read⟩
  exact hf t (by simpa using h.step (o := .ahead) (q := true) stands read)

theorem reenterJsx {first : ParseState} {f : Unit → Parse β} (h : K.Held .ahead r first.unread ns s)
    (hfirst : K.Stands .entering first)
    (hf : ∀ t, K.Held .inside true first.unread ns t → K.Ensures (f ()) t Q) : K.Ensures (reenterJsx >>= f) s Q := by
  refine Judgement.bind (K.ofReenterJsx hfirst h.moved.steps h.stands) ?_
  rintro _ t ⟨stands, read⟩
  exact hf t (by simpa using h.step (o := .inside) (q := true) stands read)

end Held

/-- The production reads a part of an element. -/
abbrev ReadsJsx (K : Contract) [HasNodes α] (p : Parse α) : Prop := K.Leads .entering .inside true p

theorem ReadsJsx.inside [HasNodes α] {p : Parse α} (h : K.ReadsJsx p) : K.Leads .inside .inside true p :=
  fun s hs => h s (K.entering_of_inside hs)

/-- A node begins behind the trivia ahead. -/
theorem markJsx_clear [HasNodes α] {f : Place → Parse α}
    (hf : ∀ s, K.Stands .entering s → s.Clear →
      K.Ensures (f s.unread.start.place) s fun a t => K.Held .inside true s.unread (nodes a) t) :
    K.ReadsJsx (markJsx >>= f) := by
  intro s hs
  rw [Parse.markJsx, bind_assoc]
  refine Judgement.bind (K.ofSkipTrivia (by nofun) hs) ?_
  rintro _ t ⟨stands, steps, clear⟩
  rw [← bind_pure Parse.scannerPlace, bind_assoc]
  exact .scannerPlace (.value (K.mono (hf t stands clear) fun _ _ h => h.since steps))

theorem markJsx_reads [HasNodes α] {f : Place → Parse α}
    (hf : ∀ s, K.Stands .entering s → K.Held .entering false s.unread [] s →
      K.Ensures (f s.unread.start.place) s fun a t => K.Held .inside true s.unread (nodes a) t) :
    K.ReadsJsx (markJsx >>= f) := markJsx_clear fun s hs _ => hf s hs (K.start hs)

/-- The token at which a node begins. -/
theorem takeJsx {f : Token → Parse β} {Q : β → ParseState → Prop} (hs : K.Stands .entering s) (clear : s.Clear)
    (hf : ∀ c t, (c.mayTag = true →
      K.Held .inside true s.unread [] t ∧ ∀ leaf, c.Spells leaf → K.Tells s.unread leaf t.unread) →
        K.Ensures (f c) t Q) :
    K.Ensures (nextJsx >>= f) s Q := by
  refine Judgement.bind (K.ofNextJsx hs) fun c t ht => hf c t fun hc => ?_
  obtain ⟨stands, read, tells⟩ := ht hc
  exact ⟨⟨stands, read, by simp⟩, tells clear⟩

/-! ## Names -/

theorem jsxIdentifier_reads : K.ReadsJsx jsxIdentifier := by
  refine markJsx_clear fun s hs clear => takeJsx hs clear fun c t h => ?_
  split
  next hc =>
    obtain ⟨h, tells⟩ := h (by simp [Token.mayTag, Token.isEnd, Token.isTemplate, Token.isPunctuator, hc])
    exact K.mono (h.leafFrom (.inl rfl) rfl (tells _ (.tagName hc))) fun _ _ ht => ht.1
  · exact .failAt

theorem jsxNamespaced_held {start : Place} {space : Node} (h : K.Held .inside true base [space] s)
    (hstart : base.Marks start) :
    K.Ensures (jsxNamespaced start space) s fun n t => K.Held .inside true base (nodes n) t :=
  h.entering.expectJsx fun t h => h.read jsxIdentifier_reads.inside fun name u h =>
    h.finishFrom hstart rfl (by simp [Kind.children])

theorem jsxElementName_reads : K.ReadsJsx jsxElementName := by
  refine markJsx_reads fun s hs h => h.read jsxIdentifier_reads fun first t h => ?_
  refine h.settle (.checkJsx _) fun _ u h => .ite (fun _ => jsxNamespaced_held (h.mono (by simp)) (.inl rfl))
    fun _ => ?_
  rw [← bind_pure (loop first _)]
  refine h.loop (l := []) (by simp) (fun owner v h => ?_) fun owner v h => h.give (by simp)
  refine h.settle (.checkJsx _) fun _ w h => .ite (fun _ => ?_) fun _ => h.give (by simp)
  refine h.entering.expectJsx fun x h => h.read jsxIdentifier_reads.inside fun field y h => ?_
  exact h.node rfl (by simp [Kind.children]) fun n z _ h => h.give (by simp)

theorem jsxAttributeName_reads : K.ReadsJsx jsxAttributeName := by
  refine markJsx_reads fun s hs h => h.read jsxIdentifier_reads fun first t h => ?_
  exact h.settle (.checkJsx _) fun _ u h =>
    .ite (fun _ => jsxNamespaced_held (h.mono (by simp)) (.inl rfl)) fun _ => h.give (by simp)

/-! ## Attributes -/

section
variable {nested : Nested} (hn : K.Sound nested)
include hn

theorem jsxExpressionValue_reads : K.ReadsJsx (jsxExpressionValue nested) := by
  refine markJsx_reads fun s hs h => h.expectJsx fun t h => h.leaveJsx fun u h => ?_
  refine .check (h.settleIf (.tolerateHere _) fun v h => h.read hn.assignment fun e w h => ?_)
  exact h.reenterJsx hs fun x h => h.finish rfl (by simp [Kind.children])

omit hn in
theorem jsxStringValue_reads : K.ReadsJsx jsxStringValue := by
  refine markJsx_clear fun s hs clear => takeJsx hs clear fun c t h => .ite (fun hc => ?_) fun _ => .failAt
  have tags : c.mayTag = true := by
    cases hl : c.lexeme <;> simp_all [Token.mayTag, Token.isEnd, Token.isTemplate, Token.isPunctuator, Token.isString]
  obtain ⟨h, tells⟩ := h tags
  exact K.mono (h.leafFrom (.inl rfl) rfl (tells _ .literal)) fun _ _ ht => ht.1

theorem jsxAttributeValue_reads : K.ReadsJsx (jsxAttributeValue nested) := by
  intro s hs
  refine (K.start hs).settle (.checkJsx _) fun _ t h => .ite (fun _ => h.last (jsxExpressionValue_reads hn)) fun _ => ?_
  refine h.settle (.checkJsx _) fun _ u h => .ite (fun _ => h.last hn.jsxElement) fun _ => h.last jsxStringValue_reads

theorem jsxNamedAttribute_reads : K.ReadsJsx (jsxNamedAttribute nested) := by
  refine markJsx_reads fun s hs h => h.read jsxAttributeName_reads fun name t h => ?_
  refine h.settle (.checkJsx _) fun _ u h => .ite (fun _ => ?_) fun _ => .value (h.finish rfl (by simp [Kind.children]))
  refine h.entering.expectJsx fun v h => h.read (jsxAttributeValue_reads hn).inside fun value w h => ?_
  exact .value (h.finish rfl (by simp [Kind.children]))

theorem jsxSpreadAttribute_reads : K.ReadsJsx (jsxSpreadAttribute nested) := by
  refine markJsx_reads fun s hs h => h.expectJsx fun t h => h.entering.expectJsx fun u h => h.leaveJsx fun v h => ?_
  exact h.read hn.assignment fun argument w h => h.reenterJsx hs fun x h => h.finish rfl (by simp [Kind.children])

theorem jsxAttributes_leads : K.Leads .inside .inside false (jsxAttributes nested) := by
  have atEnd : K.Settles atTagEnd := .bind (.checkJsx _) fun _ => .ite (.pure _) (.checkJsx _)
  refine manyBefore_leads atEnd fun s hs => (K.start hs).settle (.checkJsx _) fun _ t h => ?_
  exact .ite (fun _ => h.last (jsxSpreadAttribute_reads hn).inside) fun _ => h.last (jsxNamedAttribute_reads hn).inside

/-! ## Tags -/

theorem jsxOpeningRest_held {start : Place} (h : K.Held .inside true base [] s) (hstart : base.Marks start) :
    K.Ensures (jsxOpeningRest nested start) s fun n t => K.Held .inside true base (nodes n) t := by
  refine h.read jsxElementName_reads.inside fun name t h => h.pass (jsxAttributes_leads hn) fun attributes u h => ?_
  refine h.settle (.checkJsx _) fun selfClosing v h => .ite (fun _ => ?_) fun _ => ?_
  · exact h.entering.expectJsx fun w h => h.entering.expectJsx fun x h =>
      h.finishFrom hstart rfl (by simp [Kind.children]; grind)
  · exact h.entering.expectJsx fun w h => h.finishFrom hstart rfl (by simp [Kind.children]; grind)

theorem jsxOpening_reads : K.ReadsJsx (jsxOpening nested) := by
  refine markJsx_reads fun s hs h => h.expectJsx fun t h => h.settle (.checkJsx _) fun _ u h => ?_
  refine .ite (fun _ => h.entering.expectJsx fun v h => h.finish rfl (by simp [Kind.children])) fun _ => ?_
  exact jsxOpeningRest_held hn h (.inl rfl)

theorem jsxTag_reads : K.ReadsJsx (jsxTag nested) := by
  refine markJsx_reads fun s hs h => h.expectJsx fun t h => h.settle (.checkJsx _) fun _ u h => ?_
  refine .ite (fun _ => ?_) fun _ => jsxOpeningRest_held hn h (.inl rfl)
  refine h.entering.expectJsx fun v h => h.settle (.checkJsx _) fun _ w h => .ite (fun _ => ?_) fun _ => ?_
  · exact h.entering.expectJsx fun x h => h.finish rfl (by simp [Kind.children])
  · exact h.read jsxElementName_reads.inside fun name x h => h.entering.expectJsx fun y h =>
      h.finish rfl (by simp [Kind.children])

/-! ## What stands between tags -/

theorem jsxExpressionChild_reads : K.ReadsJsx (jsxExpressionChild nested) := by
  refine markJsx_reads fun s hs h => h.expectJsx fun t h => h.settle (.checkJsx _) fun _ u h => ?_
  refine .ite (fun _ => ?_) fun _ => ?_
  · have empty : K.Leads .inside .inside true jsxEmptyExpression := fun s hs =>
      K.mono (K.ofEmptyExpression hs) fun n t ⟨stands, read, good⟩ => ⟨stands, read, by simpa using good⟩
    exact h.read empty fun e v h => h.entering.expectJsx fun w h => .value (h.finish rfl (by simp [Kind.children]))
  · refine h.leaveJsx fun v h => h.read hn.assignment fun e w h => ?_
    exact h.reenterJsx hs fun x h => .value (h.finish rfl (by simp [Kind.children]))

omit hn in
theorem jsxTextChild_leads : K.Leads .inside .inside true jsxTextChild := by
  intro s hs
  refine .scannerPlace (Judgement.bind (K.ofNextJsxText hs) ?_)
  rintro t u ⟨stands, read, tells⟩
  have h : K.Held .inside true (s.view .inside) [] u := ⟨stands, read, by simp⟩
  exact .ite (fun _ => Judgement.bind (h.leafFrom (.inl rfl) rfl tells) fun n v ⟨h, _⟩ => h.give (by simp))
    fun _ => h.give (by simp)

theorem jsxChildren_leads : K.Leads .inside .inside false (jsxChildren nested) := by
  intro s hs
  refine (K.start hs).loop (l := []) (by simp) (fun children t h => ?_) fun children t h => h.give (by simp)
  refine .get (fun _ => rfl) (.ite (fun _ => h.give (by simp)) fun _ => h.read jsxTextChild_leads
    fun text u h => .get (fun _ => rfl) (.ite (fun _ => ?_) fun _ => ?_))
  · exact h.read (jsxExpressionChild_reads hn).inside fun child v h => h.reading.give (by simp)
  · exact h.reading.give (by simp)

end

/-! ## Elements -/

instance : HasNodes OpenElement := ⟨fun e => e.opening :: e.content ++ e.closing.toList⟩

theorem nodes_openElement (e : OpenElement) : nodes e = e.opening :: e.content ++ e.closing.toList := rfl

theorem kind_children {e : OpenElement} {n : Node} : n ∈ e.kind.children → n ∈ nodes e := by
  unfold OpenElement.kind
  rw [nodes_openElement]
  split
  next closing h => split <;> simp [Kind.children, h]
  next h => simp [Kind.children, h]

theorem kind_isCompound (e : OpenElement) : e.kind.isCompound = true := by
  unfold OpenElement.kind
  split
  · split <;> rfl
  · rfl

/-- The innermost element of a nest, with the elements around it. -/
def Nest (K : Contract) (base : ParseState) (p : OpenElement × List OpenElement) (s : ParseState) : Prop :=
  ∃ inner, inner.Marks p.1.start ∧ K.Held .inside true inner (nodes p.1) s ∧
    K.Around .inside (fun e t => t.Marks e.start) base s inner p.2

theorem Nest.step {t : ParseState} {p : OpenElement × List OpenElement} (h : K.Nest base p s)
    (ht : K.Stands .inside t) (hst : K.Steps s.unread t.unread) : K.Nest base p t := by
  obtain ⟨inner, marks, held, around⟩ := h
  exact ⟨inner, marks, by simpa using held.step (o := .inside) (q := false) ht hst, around.step ht hst⟩

/-- Something read inside the innermost element is added to it. -/
theorem Nest.add {t : ParseState} {e : OpenElement} {stack : List OpenElement} {ns : List Node}
    (h : K.Nest base (e, stack) s) (ht : K.Held .inside r s.unread ns t) {e' : OpenElement}
    (hstart : e'.start = e.start) (he : ∀ n ∈ nodes e', n ∈ ns ++ nodes e) : K.Nest base (e', stack) t := by
  obtain ⟨inner, marks, held, around⟩ := h
  refine ⟨inner, hstart ▸ marks, ?_, around.step ht.stands ht.moved.steps⟩
  simpa using (held.trans (o := .inside) ht).mono he

/-- The innermost element of a nest is held from the beginning of the outermost one on. -/
theorem Nest.held {p : OpenElement × List OpenElement} (h : K.Nest base p s) :
    K.Held .inside true base (nodes p.1) s := by
  obtain ⟨inner, -, held, around⟩ := h
  exact held.since around.steps

theorem checkClosingName_settles {J : Judgement} (opening name : Node) : J.Settles (checkClosingName opening name) := by
  unfold checkClosingName
  split
  · exact .ite (.tolerateHere _) (.pure _)
  · exact .tolerateHere _

/-- The closing tag is what an element lacked. -/
theorem mem_nodes_closed {e : OpenElement} {tag n : Node} (h : n ∈ nodes { e with closing := some tag }) :
    n ∈ [tag] ++ nodes e := by
  simp only [nodes_openElement, Option.toList_some, List.mem_cons, List.mem_append] at h ⊢
  grind

theorem mem_nodes_add {e : OpenElement} {child n : Node} (h : n ∈ nodes (e.add child)) : n ∈ [child] ++ nodes e := by
  simp only [OpenElement.add, nodes_openElement, List.mem_cons, List.mem_append] at h ⊢
  grind

/-- A tag that began at `first` opens an element in the nest, or closes the innermost one. -/
theorem takeTag_nest {first : ParseState} {e : OpenElement} {stack : List OpenElement} {tag : Node}
    (hnest : K.Nest base (e, stack) first) (h : K.Held .inside true first.unread [tag] s) :
    K.Ensures (takeTag e stack first.unread.start.place tag) s
      (Progress.Holds (K.Nest base) fun p t => K.Held .inside true base (nodes p.1) t) := by
  have closed {t : ParseState} (h : K.Held .inside true first.unread [tag] t) :
      K.Nest base ({ e with closing := some tag }, stack) t := hnest.add h rfl fun _ => mem_nodes_closed
  unfold takeTag
  split
  · refine h.node (kind_isCompound _) (fun n hn => ?_) fun child t _ h =>
      K.ofPure (hnest.add (h.mono (l := [child]) (by simp)) rfl fun _ => mem_nodes_add)
    simpa [nodes_openElement] using kind_children hn
  · obtain ⟨inner, marks, held, around⟩ := hnest
    refine K.ofPure ⟨first.unread, .inl rfl, h.mono (by simp [nodes_openElement]), inner, held.moved.steps, marks, ?_⟩
    exact ⟨by simpa using held.step (o := .inside) h.stands h.moved, around.step h.stands h.moved.steps⟩
  · refine h.settle (checkClosingName_settles _ _) fun _ t h => ?_
    obtain ⟨inner, marks, held, around⟩ := closed h
    match stack, around with
    | [], _ => exact K.ofPure (closed h).held
    | parent :: stack, ⟨outer, steps, marks', held', around'⟩ =>
      refine Judgement.bind (held.finished marks (kind_isCompound _) fun n hn => kind_children hn) ?_
      rintro child u ⟨held, moved, -⟩
      have parent := held'.step (o := .inside) (q := false) held.stands moved
      exact K.ofPure ⟨outer, marks', ((held.since steps).and (by simpa using parent)).mono fun _ => mem_nodes_add,
        around'.step held.stands moved⟩
  · refine .ite (fun _ => K.ofPure (closed h).held) fun _ => ?_
    exact h.settle (.tolerateHere _) fun _ t h => K.ofPure (closed h)
  · exact K.ofPure (hnest.step h.stands h.moved.steps)

section
variable {nested : Nested} (hn : K.Sound nested)
include hn

theorem jsxContent_held {e : OpenElement} (h : K.Held .inside true base (nodes e) s) (hstart : base.Marks e.start) :
    K.Ensures (jsxContent nested e) s fun e t => K.Held .inside true base (nodes e) t := by
  refine Judgement.bind (P := fun p t => K.Held .inside true base (nodes p.1) t)
    (Judgement.Ensures.loop (I := K.Nest base) ⟨base, hstart, h, steps_refl _⟩ ?_) fun (e, _) t h => K.ofPure h
  rintro ⟨e, stack⟩ t hnest
  have stands : K.Stands .inside t := hnest.held.stands
  refine .get (fun _ => rfl) (.ite (fun _ => K.ofPure hnest.held) fun _ => ?_)
  refine Judgement.bind (jsxChildren_leads hn t stands) fun children u hu => .scannerPlace ?_
  refine Judgement.bind ((jsxTag_reads hn).inside u hu.stands) fun tag v hv => takeTag_nest (hnest.add hu rfl ?_) hv
  intro n hn
  simp only [nodes_openElement, List.mem_cons, List.mem_append, List.mem_reverse, HasNodes.nodes_list] at hn ⊢
  grind

theorem jsxElement_reads : K.ReadsJsx (jsxElement nested) := by
  have close {start : Place} {e : OpenElement} {base s : ParseState} (h : K.Held .inside true base (nodes e) s)
      (hs : base.Marks start) : K.Ensures (finish start e.kind) s fun n t => K.Held .inside true base (nodes n) t :=
    h.finishFrom hs (kind_isCompound _) fun n hn => kind_children hn
  refine markJsx_reads fun s hs h => h.read (jsxOpening_reads hn) fun opening t h => ?_
  have h := h.mono (l := nodes ({ start := s.unread.start.place, opening } : OpenElement)) (by simp [nodes_openElement])
  refine .ite (fun _ => .value (close h (.inl rfl))) fun _ => ?_
  exact Judgement.bind (jsxContent_held hn h (.inl rfl)) fun e u h => .value (close h (.inl rfl))

theorem jsxExpression_held (hs : K.Stands .ahead s) (hjsx : s.dialect.jsx = true)
    (hlt : s.lookahead.isPunctuator .lt = true) :
    K.Ensures (jsxExpression nested) s fun n t => K.Held .ahead true s (nodes n) t := by
  refine Judgement.bind (K.ofStartJsx hs hjsx hlt) ?_
  rintro _ t ⟨stands, steps⟩
  refine ((K.start stands).since steps).read (jsxElement_reads hn) fun element u h => ?_
  refine Judgement.bind (K.ofSkipInside h.stands) ?_
  rintro _ v ⟨stands, read⟩
  exact K.ofPure (by simpa using h.step (o := .ahead) (q := true) stands read)

end

end Contract

end EcmaTree
