import EcmaTree.Proofs.Course.Binding

/-!
# JSX

Inside of an element the scanner shows how far a parse has come. A tag consumes its brackets, and a text may be empty,
but a brace follows it unless it is the last one.
-/

namespace EcmaTree.Course

open Parse

variable {text : String} {n : Nat} {nested : Nested} {m : Mode} {s : ParseState} {base : Nat} {r : Bool} {β : Type}

/-! ## Tokens -/

theorem Leads.skipTrivia : Leads text n .inside .inside false skipTrivia := fun _ h =>
  Judgement.ending.mono .skipTrivia fun _ _ ht =>
    have ⟨stands, le⟩ := h.stands.skips ht
    ⟨stands, le, h.room⟩

/-- Going over to ordinary tokens. -/
theorem Leads.leaveJsx : Leads text n .inside .ahead false leaveJsx := fun s h => by
  refine Judgement.ending.ofBind (.modifying (fun _ _ _ => rfl) (Judgement.ending.mono .skip fun _ t ht => ?_))
  have left : Stands text .inside { s with scanner.regions := .braces :: s.scanner.regions } :=
    h.stands.unrecorded (h.stands.placed.congr rfl) rfl (Nat.le_refl _)
  exact ⟨(left.advances ht).1, (left.advances ht).2, h.room⟩

theorem Leads.reenterJsx : Leads text n .ahead .inside true reenterJsx := fun _ h =>
  Judgement.ending.mono .reenterJsx fun _ _ ht =>
    have ⟨stands, lt⟩ := h.stands.reenter ht
    ⟨stands, lt, h.room⟩

namespace Held

variable {Q : β → ParseState → Prop}

theorem nextJsx {f : Token → Parse β} (h : Held text n .inside r base s)
    (hf : ∀ token t, Held text n .inside r base t →
      (token.isEnd = false → token.isTemplate = false → Held text n .inside true base t) → Ends (f token) t Q) :
    Ends (nextJsx >>= f) s Q := by
  refine Judgement.bind .nextJsx fun token t ht => ?_
  obtain ⟨stands, le, lt⟩ := h.stands.nextJsx ht
  have from' : Held text n .inside false (s.site .inside) t := ⟨stands, le, h.self.room⟩
  refine hf token t (by simpa using h.trans from') fun hend htemplate => ?_
  have strictly : Held text n .inside true (s.site .inside) t := ⟨stands, lt hend htemplate, h.self.room⟩
  simpa using h.trans strictly

theorem expectJsx {p : Punctuator} {f : Unit → Parse β} (h : Held text n .inside r base s)
    (hf : ∀ t, Held text n .inside true base t → Ends (f ()) t Q) : Ends (Parse.expectJsx p >>= f) s Q := by
  rw [Parse.expectJsx, bind_assoc]
  refine h.nextJsx fun token t _ ht => Judgement.ending.ofBind (.ite (fun hp => ?_) fun _ => .failAt)
  rw [Token.isPunctuator_iff] at hp
  exact Judgement.ending.ofPure (hf t (ht (by simp [Token.isEnd, hp]) (by simp [Token.isTemplate, hp])))

theorem markJsx {f : Place → Parse β} (h : Held text n .inside r base s)
    (hf : ∀ place t, Held text n .inside r base t → Ends (f place) t Q) : Ends (Parse.markJsx >>= f) s Q := by
  rw [Parse.markJsx, bind_assoc]
  exact h.pass .skipTrivia fun _ t h => .scannerPlace (hf _ t h)

theorem checkJsx {p : Punctuator} {f : Bool → Parse β} (h : Held text n m r base s)
    (hf : ∀ b t, Held text n m r base t → Ends (f b) t Q) : Ends (Parse.checkJsx p >>= f) s Q :=
  h.settle (.checkJsx p) hf

end Held

/-! ## Names and attributes -/

/-- What is read inside of an element. -/
abbrev ReadsJsx (text : String) (n : Nat) {α : Type} (p : Parse α) : Prop := Leads text n .inside .inside true p

theorem jsxIdentifier_reads : ReadsJsx text n jsxIdentifier := fun s h => by
  refine h.markJsx fun start t h => h.nextJsx fun token u _ hu => ?_
  split
  next hl => exact (hu (by simp [Token.isEnd, hl]) (by simp [Token.isTemplate, hl])).finish rfl
  · exact .failAt

theorem jsxNamespaced_reads (start : Place) (space : Node) : ReadsJsx text n (jsxNamespaced start space) := fun _ h =>
  h.expectJsx fun _ h => h.read jsxIdentifier_reads fun _ _ h => h.finish rfl

theorem jsxElementName_reads : ReadsJsx text n jsxElementName := fun s h => by
  refine h.markJsx fun start t h => h.read jsxIdentifier_reads fun first u h => h.checkJsx fun b v h => ?_
  refine .ite (fun _ => h.last (jsxNamespaced_reads _ _)) fun _ =>
    h.last (.loop fun owner w h => h.checkJsx fun b x h => ?_)
  refine .ite (fun _ => h.expectJsx fun y h => ?_) fun _ => Judgement.ending.ofPure h
  exact h.read jsxIdentifier_reads fun field z h => h.node rfl fun _ _ h => Judgement.ending.ofPure h

theorem jsxAttributeName_reads : ReadsJsx text n jsxAttributeName := fun s h => by
  refine h.markJsx fun start t h => h.read jsxIdentifier_reads fun first u h => h.checkJsx fun b v h => ?_
  exact .ite (fun _ => h.last (jsxNamespaced_reads _ _)) fun _ => h.give

theorem jsxStringValue_reads : ReadsJsx text n jsxStringValue := fun s h => by
  refine h.markJsx fun start t h => h.nextJsx fun token u _ hu => .ite (fun hstring => ?_) fun _ => .failAt
  refine (hu (not_end_of hstring fun _ => rfl) ?_).finish rfl
  cases hl : token.lexeme <;> simp_all [Token.isString, Token.isTemplate]

section
variable (hn : Sound text n nested)
include hn

theorem jsxExpressionValue_reads : ReadsJsx text (n + 1) (jsxExpressionValue nested) := fun s h => by
  refine h.markJsx fun start t h => h.expectJsx fun u h => h.pass .leaveJsx fun _ v h => .check ?_
  refine h.settleIf (.tolerateHere _) fun w h => h.nest hn.assignment fun e x h => ?_
  exact h.read .reenterJsx fun _ y h => h.finish rfl

theorem jsxAttributeValue_reads : ReadsJsx text n (jsxAttributeValue nested) := fun s h => by
  refine h.checkJsx fun b t h => .ite (fun _ => h.last (jsxExpressionValue_reads hn).weaken) fun _ => ?_
  exact h.checkJsx fun b u h => .ite (fun _ => h.last hn.jsxElement) fun _ => h.last jsxStringValue_reads

theorem jsxNamedAttribute_reads : ReadsJsx text (n + 1) (jsxNamedAttribute nested) := fun s h => by
  refine h.markJsx fun start t h => h.read jsxAttributeName_reads fun name u h => h.checkJsx fun b v h => ?_
  refine .ite (fun _ => h.expectJsx fun w h => ?_) fun _ => .value (h.finish rfl)
  exact h.nest (jsxAttributeValue_reads hn) fun value x h => .value (h.finish rfl)

theorem jsxSpreadAttribute_reads : ReadsJsx text (n + 1) (jsxSpreadAttribute nested) := fun s h => by
  refine h.markJsx fun start t h => h.expectJsx fun u h => h.expectJsx fun v h => h.pass .leaveJsx fun _ w h => ?_
  exact h.nest hn.assignment fun argument x h => h.read .reenterJsx fun _ y h => h.finish rfl

theorem jsxAttributes_passes : Leads text (n + 1) .inside .inside false (jsxAttributes nested) := by
  have atEnd : Judgement.ending.Settles atTagEnd := .bind (.checkJsx _) fun _ => .ite (.pure _) (.checkJsx _)
  refine .manyBefore atEnd fun s h => h.checkJsx fun b t h => .ite (fun _ => ?_) fun _ => ?_
  · exact h.last (jsxSpreadAttribute_reads hn)
  · exact h.last (jsxNamedAttribute_reads hn)

/-! ## Tags -/

theorem jsxOpeningRest_reads (start : Place) : ReadsJsx text (n + 1) (jsxOpeningRest nested start) := fun s h => by
  refine h.read jsxElementName_reads fun name t h => h.pass (jsxAttributes_passes hn) fun attributes u h => ?_
  refine h.checkJsx fun selfClosing v h => .ite (fun _ => h.expectJsx fun w h => ?_) fun _ => ?_
  · exact h.expectJsx fun x h => h.finish rfl
  · exact h.expectJsx fun x h => h.finish rfl

theorem jsxOpening_reads : ReadsJsx text (n + 1) (jsxOpening nested) := fun s h => by
  refine h.markJsx fun start t h => h.expectJsx fun u h => h.checkJsx fun b v h => .ite (fun _ => ?_) fun _ => ?_
  · exact h.expectJsx fun w h => h.finish rfl
  · exact h.last (jsxOpeningRest_reads hn start)

theorem jsxTag_reads : ReadsJsx text (n + 1) (jsxTag nested) := fun s h => by
  refine h.markJsx fun start t h => h.expectJsx fun u h => h.checkJsx fun b v h => .ite (fun _ => ?_) fun _ => ?_
  · refine h.expectJsx fun w h => h.checkJsx fun b x h =>
      .ite (fun _ => h.expectJsx fun y h => h.finish rfl) fun _ => ?_
    exact h.read jsxElementName_reads fun name y h => h.expectJsx fun z h => h.finish rfl
  · exact h.last (jsxOpeningRest_reads hn start)

/-! ## Elements -/

omit hn in
theorem jsxEmptyExpression_passes : Leads text n .inside .inside false jsxEmptyExpression := fun s h => by
  refine .scannerPlace (h.pass .skipTrivia fun _ t h => Judgement.ending.ofBind (.modifying (fun _ _ _ => rfl) ?_))
  have passed : Held text n .inside false (s.site .inside) { t with last := t.scanner.cursor.place } :=
    ⟨h.stands.unrecorded (h.stands.placed.congr rfl) rfl (Nat.le_refl _), h.moved, h.room⟩
  exact passed.finish rfl

theorem jsxExpressionChild_reads : ReadsJsx text (n + 1) (jsxExpressionChild nested) := fun s h => by
  refine h.markJsx fun start t h => h.expectJsx fun u h => h.checkJsx fun b v h => .ite (fun _ => ?_) fun _ => ?_
  · exact h.pass jsxEmptyExpression_passes fun empty w h => h.expectJsx fun x h => .value (h.finish rfl)
  · refine h.pass .leaveJsx fun _ w h => h.nest hn.assignment fun e x h => ?_
    exact h.read .reenterJsx fun _ y h => .value (h.finish rfl)

omit hn in
theorem jsxTextChild_passes : Leads text n .inside .inside false jsxTextChild := fun s h => by
  refine .scannerPlace (Judgement.bind .nextJsxText fun token t ht => ?_)
  obtain ⟨stands, le⟩ := h.stands.nextJsxText ht
  have passed : Held text n .inside false (s.site .inside) t := ⟨stands, le, h.room⟩
  exact .ite (fun _ => passed.node rfl fun _ _ h => h.give) fun _ => passed.give

theorem jsxChildren_passes : Leads text (n + 1) .inside .inside false (jsxChildren nested) := fun s h => by
  refine h.pass (.loop fun children t h => ?_) fun children t h => h.give
  refine .get (fun _ => rfl) (.ite (fun _ => Judgement.ending.ofPure h) fun _ => h.pass jsxTextChild_passes
    fun text u h => ?_)
  refine .get (fun _ => rfl) (.ite (fun _ => ?_) fun _ => Judgement.ending.ofPure h)
  exact h.read (jsxExpressionChild_reads hn) fun child v h => Judgement.ending.ofPure h

omit hn in
theorem openElement_isSpecifier (e : OpenElement) : e.kind.isSpecifier = false := by
  unfold OpenElement.kind
  repeat' split
  all_goals rfl

omit hn in
/-- A tag that has been read is taken without reading on. -/
theorem takeTag_round {e : OpenElement} {stack : List OpenElement} {start : Place} {tag : Node}
    (h : Held text n .inside true base s) : Ends (takeTag e stack start tag) s (Leads.Round text n .inside base) := by
  unfold takeTag
  split
  · exact h.node (openElement_isSpecifier _) fun _ _ h => Judgement.ending.ofPure h
  · exact Judgement.ending.ofPure h
  · refine h.settle (Contract.checkClosingName_settles _ _) fun _ t h => ?_
    cases stack with
    | nil => exact Judgement.ending.ofPure h.reading
    | cons parent stack => exact h.node (openElement_isSpecifier _) fun _ _ h => Judgement.ending.ofPure h
  · refine .ite (fun _ => Judgement.ending.ofPure h.reading) fun _ => ?_
    exact h.settle (.tolerateHere _) fun _ t h => Judgement.ending.ofPure h
  · exact Judgement.ending.ofPure h

theorem jsxContent_passes (e : OpenElement) : Leads text (n + 1) .inside .inside false (jsxContent nested e) :=
  fun s h => by
  refine h.pass (.loop fun (e, stack) t h => ?_) fun (e, stack) t h => h.give
  refine .get (fun _ => rfl) (.ite (fun _ => Judgement.ending.ofPure h) fun _ => ?_)
  refine h.pass (jsxChildren_passes hn) fun children u h => .scannerPlace (h.read (jsxTag_reads hn) fun tag v h => ?_)
  exact takeTag_round h

theorem jsxElement_reads : ReadsJsx text (n + 1) (jsxElement nested) := fun s h => by
  refine h.markJsx fun start t h => h.read (jsxOpening_reads hn) fun opening u h => .ite (fun _ => ?_) fun _ => ?_
  · exact .value (h.finish (openElement_isSpecifier _))
  · exact h.pass (jsxContent_passes hn _) fun e v h => h.finish (openElement_isSpecifier _)

theorem jsxExpression_reads : Reads text (n + 1) (jsxExpression nested) := fun s h => by
  refine Judgement.bind .startJsx fun _ t ht => ?_
  subst ht
  have entered : Held text (n + 1) .inside false (s.site .ahead)
      { s with record := s.record.unlist, scanner.cursor := s.start } :=
    ⟨h.stands.startJsx, .refl _, h.room⟩
  refine entered.read (jsxElement_reads hn) fun element t h => Judgement.bind .skip fun _ u hu => ?_
  have skipped : Held text (n + 1) .ahead false (t.site .inside) u :=
    ⟨(h.stands.advances hu).1, (h.stands.advances hu).2, h.self.room⟩
  exact Held.give (by simpa using h.trans skipped)

end

end EcmaTree.Course
