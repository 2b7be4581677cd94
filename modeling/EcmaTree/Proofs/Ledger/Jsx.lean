import EcmaTree.Proofs.Ledger.Binding

/-!
# JSX

Open elements hold their nodes until their closing tags are met. What an unclosed element at the end of the source
leaves on the stack is used up by no node.
-/

namespace EcmaTree

instance : HasTokens Parse.OpenElement := ⟨fun _ => []⟩

instance : HasTokens.Mute Parse.OpenElement := ⟨fun _ => rfl⟩

namespace Parse.OpenElement

@[simp] theorem weigh_nodes (f : Node → Nat) (e : OpenElement) :
    weigh f (nodes e) = f e.opening + weigh f e.content + weigh f e.closing.toList := by
  show weigh f (e.opening :: e.content ++ e.closing.toList) = _
  simp [Nat.add_assoc]

@[simp] theorem kind_isPlaceholder (e : OpenElement) : e.kind.isPlaceholder = false := by
  unfold kind
  repeat' split
  all_goals rfl

@[simp] theorem weigh_kind_children (f : Node → Nat) (e : OpenElement) :
    weigh f e.kind.children = f e.opening + weigh f e.content + weigh f e.closing.toList := by
  unfold kind
  repeat' split
  all_goals simp_all +arith [Kind.children]

end Parse.OpenElement

namespace Ledger

open Parse

variable {L : Ledger} {nested : Nested} {base s : ParseState} {ns l : List Node} {β : Type}

/-! ## Tokens -/

theorem skipTrivia_leads : L.Leads .inside .inside skipTrivia :=
  .of_barren .skipTrivia fun _ hs => (L.ofSkipTrivia hs).mono fun _ _ stands => ⟨by simp, stands⟩

theorem nextJsx_leads : L.Leads .inside .inside nextJsx :=
  .of_barren .nextJsx fun _ hs => (L.ofNextJsx hs).mono fun _ _ ⟨seen, stands⟩ => ⟨by simpa using seen, stands⟩

theorem expectJsx_leads {p : Punctuator} : L.Leads .inside .inside (expectJsx p) := fun s h =>
  h.read nextJsx_leads fun t u h seen =>
    .ite (fun _ => h.give (by simp) (by simp)) fun _ => h.failAt (by simpa using seen)

theorem checkJsx_leads {p : Punctuator} : L.Leads .inside .inside (checkJsx p) :=
  .of_barren (.checkJsx p) fun _ hs => (L.ofCheckJsx p hs).mono fun _ _ stands => ⟨by simp, stands⟩

theorem leaveJsx_leads : L.Leads .inside .ahead leaveJsx := fun s h => by
  have left : L.Held .inside s [] { s with scanner.regions := .braces :: s.scanner.regions } :=
    h.still (.of_record rfl rfl) rfl (L.stands_leave h.stands)
  exact .bind (.modify (left.last .skip (by simp)))

theorem reenterJsx_leads : L.Leads .ahead .inside reenterJsx := fun s h => by
  have entered : L.Held .inside s [] { s with scanner.cursor := s.start } :=
    h.still (.of_record rfl rfl) rfl (L.stands_enter h.stands)
  refine .bind (.modify (entered.read expectJsx_leads fun _ t h _ => .modify ⟨?_, by simp⟩))
  exact h.still (.unlist t) rfl (L.stands_of_same h.stands rfl rfl rfl rfl)

namespace Held

variable {Q : β → ParseState → Prop}

theorem markJsx {f : Place → Parse β} (h : L.Held .inside base ns s)
    (hf : ∀ place t, L.Held .inside base ns t → L.Safe (f place) t Q) : L.Safe (Parse.markJsx >>= f) s Q := by
  rw [Parse.markJsx, bind_assoc]
  exact h.read skipTrivia_leads fun _ t h _ => .scannerPlace (hf _ t h)

theorem expectJsx {p : Punctuator} {f : Unit → Parse β} (h : L.Held .inside base ns s)
    (hf : ∀ t, L.Held .inside base ns t → L.Safe (f ()) t Q) : L.Safe (Parse.expectJsx p >>= f) s Q :=
  h.read expectJsx_leads fun _ t h _ => hf t h

theorem checkJsx {p : Punctuator} {f : Bool → Parse β} (h : L.Held .inside base ns s)
    (hf : ∀ b t, L.Held .inside base ns t → L.Safe (f b) t Q) : L.Safe (Parse.checkJsx p >>= f) s Q :=
  h.read checkJsx_leads fun b t h _ => hf b t h

end Held

/-! ## Names and attributes -/

theorem jsxIdentifier_leads : L.Leads .inside .inside jsxIdentifier := fun s h => by
  refine h.markJsx fun start t h => h.read nextJsx_leads fun token u h seen => ?_
  split
  · exact h.finish rfl (by simp [Kind.children])
  · exact h.failAt (by simpa using seen)

theorem jsxNamespaced_gives {start : Place} {space : Node} (h : L.Held .inside base (space :: l) s) :
    L.Safe (jsxNamespaced start space) s (L.Gives .inside base l) :=
  h.expectJsx fun t h => h.read jsxIdentifier_leads fun name u h _ => h.finish rfl (by simp +arith [Kind.children])

theorem jsxElementName_leads : L.Leads .inside .inside jsxElementName := fun s h => by
  refine h.markJsx fun start t h => h.read jsxIdentifier_leads fun first u h _ => h.checkJsx fun b v h => ?_
  refine .ite (fun _ => jsxNamespaced_gives (by simpa using h)) fun _ => ?_
  rw [← bind_pure (loop first _)]
  refine h.loop [] (by simp) (by simp) (fun owner w h _ => h.checkJsx fun b x h => .ite (fun _ => ?_) fun _ => ?_)
    fun owner w h _ => h.give (by simp) (by simp)
  · refine h.expectJsx fun y h => h.read jsxIdentifier_leads fun field z h _ => ?_
    exact h.node [] rfl (by simp +arith [Kind.children]) fun n s' _ h => h.give (by simp) (by simp)
  · exact h.give (by simp) (by simp)

theorem jsxAttributeName_leads : L.Leads .inside .inside jsxAttributeName := fun s h => by
  refine h.markJsx fun start t h => h.read jsxIdentifier_leads fun first u h _ => h.checkJsx fun b v h => ?_
  exact .ite (fun _ => jsxNamespaced_gives (by simpa using h)) fun _ => h.give (by simp) (by simp)

section
variable (hn : L.Sound nested)
include hn

theorem jsxExpressionValue_leads : L.Leads .inside .inside (jsxExpressionValue nested) := fun s h => by
  refine h.markJsx fun start t h => h.expectJsx fun u h => h.read leaveJsx_leads fun _ v h _ => .check ?_
  refine h.settleIf .tolerateHere fun w h => h.read hn.assignment fun e x h _ => ?_
  exact h.read reenterJsx_leads fun _ y h _ => h.finish rfl (by simp [Kind.children])

omit hn in
theorem jsxStringValue_leads : L.Leads .inside .inside jsxStringValue := fun s h => by
  refine h.markJsx fun start t h => h.read nextJsx_leads fun token u h seen => ?_
  exact .ite (fun _ => h.finish rfl (by simp [Kind.children, literalOf])) fun _ => h.failAt (by simpa using seen)

theorem jsxAttributeValue_leads : L.Leads .inside .inside (jsxAttributeValue nested) := fun s h => by
  refine h.checkJsx fun b t h => .ite (fun _ => h.last (jsxExpressionValue_leads hn) (by simp)) fun _ => ?_
  exact h.checkJsx fun b u h => .ite (fun _ => h.last hn.jsxElement (by simp)) fun _ =>
    h.last jsxStringValue_leads (by simp)

theorem jsxNamedAttribute_leads : L.Leads .inside .inside (jsxNamedAttribute nested) := fun s h => by
  refine h.markJsx fun start t h => h.read jsxAttributeName_leads fun name u h _ => h.checkJsx fun b v h => ?_
  refine .ite (fun _ => h.expectJsx fun w h => ?_) fun _ => .value (h.finish rfl (by simp [Kind.children]))
  exact h.read (jsxAttributeValue_leads hn) fun value x h _ => .value (h.finish rfl (by simp +arith [Kind.children]))

theorem jsxSpreadAttribute_leads : L.Leads .inside .inside (jsxSpreadAttribute nested) := fun s h => by
  refine h.markJsx fun start t h => h.expectJsx fun u h => h.expectJsx fun v h =>
    h.read leaveJsx_leads fun _ w h _ => ?_
  exact h.read hn.assignment fun argument x h _ => h.read reenterJsx_leads fun _ y h _ =>
    h.finish rfl (by simp [Kind.children])

omit hn in
theorem atTagEnd_leads : L.Leads .inside .inside atTagEnd := fun s h =>
  h.checkJsx fun b t h => .ite (fun _ => h.give (by simp) (by simp)) fun _ => h.last checkJsx_leads (by simp)

theorem jsxAttributes_leads : L.Leads .inside .inside (jsxAttributes nested) :=
  .manyBefore atTagEnd_leads fun s h => h.checkJsx fun b t h =>
    .ite (fun _ => h.last (jsxSpreadAttribute_leads hn) (by simp)) fun _ =>
      h.last (jsxNamedAttribute_leads hn) (by simp)

/-! ## Tags -/

theorem jsxOpeningRest_leads (start : Place) : L.Leads .inside .inside (jsxOpeningRest nested start) := fun s h => by
  refine h.read jsxElementName_leads fun name t h _ => h.read (jsxAttributes_leads hn) fun attributes u h _ => ?_
  refine h.checkJsx fun selfClosing v h => h.settleIf expectJsx_leads fun w h => h.expectJsx fun x h => ?_
  exact h.finish rfl (by simp +arith [Kind.children])

theorem jsxOpening_leads : L.Leads .inside .inside (jsxOpening nested) := fun s h => by
  refine h.markJsx fun start t h => h.expectJsx fun u h => h.checkJsx fun b v h => .ite (fun _ => ?_) fun _ => ?_
  · exact h.expectJsx fun w h => h.finish rfl (by simp [Kind.children])
  · exact h.last (jsxOpeningRest_leads hn start) (by simp)

theorem jsxTag_leads : L.Leads .inside .inside (jsxTag nested) := fun s h => by
  refine h.markJsx fun start t h => h.expectJsx fun u h => h.checkJsx fun b v h => .ite (fun _ => ?_) fun _ => ?_
  · refine h.expectJsx fun w h => h.checkJsx fun b x h => .ite (fun _ => ?_) fun _ => ?_
    · exact h.expectJsx fun y h => h.finish rfl (by simp [Kind.children])
    · refine h.read jsxElementName_leads fun name y h _ => h.expectJsx fun z h => ?_
      exact h.finish rfl (by simp [Kind.children])
  · exact h.last (jsxOpeningRest_leads hn start) (by simp)

/-! ## Elements -/

omit hn in
theorem jsxEmptyExpression_leads : L.Leads .inside .inside jsxEmptyExpression := fun s h => by
  refine .scannerPlace (h.read skipTrivia_leads fun _ t h _ => .bind (.modify ?_))
  have passed : L.Held .inside s [] { t with last := t.scanner.cursor.place } :=
    h.still (.of_record rfl rfl) rfl (L.stands_pass h.stands)
  exact passed.finish rfl (by simp [Kind.children])

theorem jsxExpressionChild_leads : L.Leads .inside .inside (jsxExpressionChild nested) := fun s h => by
  refine h.markJsx fun start t h => h.expectJsx fun u h => h.checkJsx fun b v h => .ite (fun _ => ?_) fun _ => ?_
  · refine h.read jsxEmptyExpression_leads fun empty w h _ => h.expectJsx fun x h => .value ?_
    exact h.finish rfl (by simp [Kind.children])
  · refine h.read leaveJsx_leads fun _ w h _ => h.read hn.assignment fun e x h _ => ?_
    exact h.read reenterJsx_leads fun _ y h _ => .value (h.finish rfl (by simp [Kind.children]))

omit hn in
theorem jsxTextChild_leads : L.Leads .inside .inside jsxTextChild := fun s h => by
  have text : L.Leads .inside .inside nextJsxText := .of_barren .nextJsxText fun _ hs =>
    (L.ofNextJsxText hs).mono fun _ _ ⟨seen, stands⟩ => ⟨by simpa using seen, stands⟩
  refine .scannerPlace (h.read text fun t u h _ => .ite (fun _ => ?_) fun _ => h.give (by simp) (by simp))
  exact h.node [] rfl (by simp [Kind.children]) fun n v _ h => h.give (by simp) (by simp)

theorem jsxChildren_leads : L.Leads .inside .inside (jsxChildren nested) := fun s h => by
  refine h.loop [] (by simp) (by simp) (fun children t h _ => ?_) fun children t h _ => h.give (by simp) (by simp)
  refine .get (.ite (fun _ => h.give (by simp) (by simp)) fun _ => h.read jsxTextChild_leads fun text u h _ => ?_)
  refine .get (.ite (fun _ => ?_) fun _ => h.give (by simp +arith) (by simp))
  exact h.read (jsxExpressionChild_leads hn) fun child v h _ => h.give (by simp +arith) (by simp)

omit hn in
theorem checkClosingName_leads (opening name : Node) :
    L.Leads .inside .inside (checkClosingName opening name) := fun s h => by
  unfold checkClosingName
  split
  · exact .ite (fun _ => h.last .tolerateHere (by simp)) fun _ => h.give (by simp) (by simp)
  · exact h.last .tolerateHere (by simp)

omit hn in
theorem takeTag_gives {e : OpenElement} {stack : List OpenElement} {start : Place} {tag : Node}
    (h : L.Held .inside base (tag :: (nodes e ++ nodes stack ++ l)) s) :
    L.Safe (takeTag e stack start tag) s (L.Gives .inside base l) := by
  unfold takeTag
  split
  · refine h.node (nodes e ++ nodes stack ++ l) (by simp) (by simp) fun child t _ h => ?_
    exact h.give (by simp +arith [OpenElement.add]) (by simp)
  · exact h.give (by simp +arith) (by simp)
  · refine h.read (checkClosingName_leads _ _) fun _ t h _ => ?_
    cases stack with
    | nil => exact h.give (by simp +arith) (by simp)
    | cons parent stack =>
      refine h.node (nodes parent ++ nodes stack ++ l) (by simp) (by simp +arith) fun child u _ h => ?_
      exact h.give (by simp +arith [OpenElement.add]) (by simp)
  · refine .ite (fun _ => h.give (by simp +arith) (by simp)) fun _ => ?_
    exact h.read .tolerateHere fun _ t h _ => h.give (by simp +arith) (by simp)
  · exact h.give (by simp +arith) (by simp)

theorem jsxContent_gives {e : OpenElement} (h : L.Held .inside base (nodes e ++ l) s) :
    L.Safe (jsxContent nested e) s (L.Gives .inside base l) := by
  refine h.loop (σ := OpenElement × List OpenElement) l (by simp) (by simp) (fun (e, stack) t h _ => ?_)
    fun (e, stack) t h _ => h.give (by simp +arith) (by simp)
  refine .get (.ite (fun _ => h.give (by simp) (by simp)) fun _ => h.read (jsxChildren_leads hn)
    fun children u h _ => ?_)
  refine .scannerPlace (h.read (jsxTag_leads hn) fun tag v h _ => ?_)
  exact takeTag_gives (h.fewer (by simp +arith))

theorem jsxElement_leads : L.Leads .inside .inside (jsxElement nested) := fun s h => by
  refine h.markJsx fun start t h => h.read (jsxOpening_leads hn) fun opening u h _ => .ite (fun _ => ?_) fun _ => ?_
  · exact .value (h.finish (by simp) (by simp))
  · refine after (jsxContent_gives hn (l := []) (h.fewer (by simp))) fun e v h _ => ?_
    exact h.finish (by simp) (by simp)

theorem jsxExpression_reads : L.Reads (jsxExpression nested) := fun s h => by
  have entered : L.Held .inside s [] { s with record := s.record.unlist, scanner.cursor := s.start } :=
    h.still ((ParseState.Still.unlist s).trans (.of_record rfl rfl)) rfl
      (L.stands_of_same (L.stands_enter h.stands) rfl rfl rfl rfl)
  refine .bind (.bind (.modify (.modify (entered.read (jsxElement_leads hn) fun element t h _ => ?_))))
  exact h.skip fun u h => h.give (by simp) (by simp)

end

end Ledger

end EcmaTree
