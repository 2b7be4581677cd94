import EcmaTree.Grammar.Jsx
import EcmaTree.Proofs.Recording.Function

/-!
# JSX with another record

Tokens of JSX are listed like others, and a token that is read again is forgotten first. Whether a closing tag fits
shows in the names of the tags, which are the same.
-/

namespace EcmaTree.Parse

open Marked (marked)

attribute [local simp] Kind.map Kind.traverse Kind.traverseOption_eq Kind.traverseList_eq Kind.traverseSparse_eq
  Marked.marked_option

instance : Marked OpenElement where
  marked g e := { e with
    opening := marked g e.opening
    content := marked g e.content
    closing := marked g e.closing }

variable {r : Record} {nested : Nested}

/-! ## Tokens -/

namespace Follows

theorem unlist : Follows r unlist Parse.unlist := modifying fun s hs => by
  refine ⟨⟨hs.record.unlist, hs.scanner⟩, ?_⟩
  simp only [ParseState.sharing, r.share_unlist hs.record]

theorem enterJsx : Follows r enterJsx Parse.enterJsx := modifying fun _ hs => ⟨⟨hs.record, hs.scanner⟩, rfl⟩

theorem startJsx : Follows r startJsx Parse.startJsx := step unlist fun _ => enterJsx

theorem scannerPlace : Follows r scannerPlace Parse.scannerPlace := get fun s => pure s.scanner.cursor.place

theorem markJsx : Follows r markJsx Parse.markJsx := step skipTrivia fun _ => scannerPlace

theorem nextJsx : Follows r nextJsx Parse.nextJsx := by
  refine step skipTrivia fun _ => step (modifying fun _ hs => ⟨⟨hs.record, hs.scanner⟩, rfl⟩) fun _ => ?_
  refine step (scan .jsxToken) fun t => step (modifying fun s hs => ?_) fun _ => pure t
  refine ⟨⟨hs.record.list _ _ _, hs.scanner⟩, ?_⟩
  simp only [hs.sharing_listing r t]
  rfl

theorem nextJsxText : Follows r nextJsxText Parse.nextJsxText := by
  refine step (modifying fun _ hs => ⟨⟨hs.record, hs.scanner⟩, rfl⟩) fun _ => ?_
  refine step (scan .jsxText) fun t => step (modifying fun s hs => ?_) fun _ => pure t
  by_cases ht : t.start < t.stop
  · simp only [if_pos ht, hs.sharing_listing r t]
    exact ⟨⟨hs.record.list _ _ _, hs.scanner⟩, rfl⟩
  · simp only [if_neg ht]
    exact ⟨⟨hs.record, hs.scanner⟩, rfl⟩

theorem expectJsx (p : Punctuator) : Follows r (expectJsx p) (Parse.expectJsx p) :=
  step nextJsx fun _ => ite (pure ()) (failAt _)

theorem checkJsx (p : Punctuator) : Follows r (checkJsx p) (Parse.checkJsx p) :=
  step (scan (.lookAhead (.skipping .jsxToken))) fun t => pure (t.isPunctuator p)

theorem leaveJsx : Follows r leaveJsx Parse.leaveJsx :=
  step (modifying fun _ hs => ⟨⟨hs.record, hs.scanner⟩, rfl⟩) fun _ => skip

theorem reenterJsx : Follows r reenterJsx Parse.reenterJsx :=
  step enterJsx fun _ => step (expectJsx _) fun _ => unlist

end Follows

/-! ## Names -/

theorem jsxIdentifier_follows : Follows r jsxIdentifier jsxIdentifier := by
  refine .step .markJsx fun _ => .step .nextJsx fun t => ?_
  split
  · exact .finish _ _
  · exact .failAt _

theorem jsxNamespaced_follows (start : Place) (space : Node) :
    Follows r (jsxNamespaced start space) (jsxNamespaced start (space.mapInfo r.stamp)) :=
  .step (.expectJsx _) fun _ => .bind jsxIdentifier_follows fun _ => .finish _ _

theorem jsxElementName_follows : Follows r jsxElementName jsxElementName := by
  refine .step .markJsx fun start => .bind jsxIdentifier_follows fun first => .step (.checkJsx _) fun _ => .ite ?_ ?_
  · exact jsxNamespaced_follows start first
  · refine .loop (fun owner => .step (.checkJsx _) fun _ => .ite ?_ (.pure _)) first
    exact .step (.expectJsx _) fun _ => .bind jsxIdentifier_follows fun _ => .bind (.finish _ _) fun _ => .pure _

theorem jsxAttributeName_follows : Follows r jsxAttributeName jsxAttributeName := by
  refine .step .markJsx fun start => .bind jsxIdentifier_follows fun first => .step (.checkJsx _) fun _ => ?_
  exact .ite (jsxNamespaced_follows start first) (.pure first)

/-! ## Attributes and tags -/

theorem jsxStringValue_follows : Follows r jsxStringValue jsxStringValue :=
  .step .markJsx fun _ => .step .nextJsx fun _ => .ite (.finish _ _) (.failAt _)

theorem atTagEnd_follows : Follows r atTagEnd atTagEnd := .step (.checkJsx _) fun _ => .ite (.pure true) (.checkJsx _)

theorem jsxEmptyExpression_follows : Follows r jsxEmptyExpression jsxEmptyExpression := by
  refine .step .scannerPlace fun _ => .step .skipTrivia fun _ => .step (.modifying fun _ hs => ?_) fun _ => .finish _ _
  exact ⟨⟨hs.record, hs.scanner⟩, rfl⟩

theorem jsxTextChild_follows : Follows r jsxTextChild jsxTextChild := by
  refine .step .scannerPlace fun _ => .step .nextJsxText fun _ => .ite (.bind (.finish _ _) fun n => ?_) (.pure none)
  exact .pure (some n)

section
variable (hn : Followed r nested)
include hn

theorem jsxExpressionValue_follows : Follows r (jsxExpressionValue nested) (jsxExpressionValue nested) := by
  refine .step .markJsx fun _ => .step (.expectJsx _) fun _ => .step .leaveJsx fun _ =>
    .step (.check _) fun _ => .guard (.tolerateHere _) ?_
  exact .bind hn.assignment fun _ => .step .reenterJsx fun _ => .finish _ _

theorem jsxAttributeValue_follows : Follows r (jsxAttributeValue nested) (jsxAttributeValue nested) := by
  refine .step (.checkJsx _) fun _ => .ite (jsxExpressionValue_follows hn) (.step (.checkJsx _) fun _ => ?_)
  exact .ite hn.jsxElement jsxStringValue_follows

theorem jsxNamedAttribute_follows : Follows r (jsxNamedAttribute nested) (jsxNamedAttribute nested) := by
  refine .step .markJsx fun start => .bind jsxAttributeName_follows fun name => .step (.checkJsx _) fun _ =>
    .ite ?_ (.finish _ _)
  exact .step (.expectJsx _) fun _ => .bind (jsxAttributeValue_follows hn) fun _ => .finish _ _

theorem jsxSpreadAttribute_follows : Follows r (jsxSpreadAttribute nested) (jsxSpreadAttribute nested) := by
  refine .step .markJsx fun _ => .step (.expectJsx _) fun _ => .step (.expectJsx _) fun _ => .step .leaveJsx fun _ => ?_
  exact .bind hn.assignment fun _ => .step .reenterJsx fun _ => .finish _ _

theorem jsxAttributes_follows : Follows r (jsxAttributes nested) (jsxAttributes nested) :=
  .manyBefore atTagEnd_follows (.step (.checkJsx _) fun _ => .ite (jsxSpreadAttribute_follows hn)
    (jsxNamedAttribute_follows hn))

theorem jsxOpeningRest_follows (start : Place) :
    Follows r (jsxOpeningRest nested start) (jsxOpeningRest nested start) := by
  refine .bind jsxElementName_follows fun _ => .bind (jsxAttributes_follows hn) fun _ => .step (.checkJsx _) fun _ => ?_
  exact .guard (.expectJsx _) (.step (.expectJsx _) fun _ => .finishing _ (by simp))

theorem jsxOpening_follows : Follows r (jsxOpening nested) (jsxOpening nested) := by
  refine .step .markJsx fun _ => .step (.expectJsx _) fun _ => .step (.checkJsx _) fun _ =>
    .ite ?_ (jsxOpeningRest_follows hn _)
  exact .step (.expectJsx _) fun _ => .finish _ _

theorem jsxTag_follows : Follows r (jsxTag nested) (jsxTag nested) := by
  refine .step .markJsx fun _ => .step (.expectJsx _) fun _ => .step (.checkJsx _) fun _ =>
    .ite ?_ (jsxOpeningRest_follows hn _)
  refine .step (.expectJsx _) fun _ => .step (.checkJsx _) fun _ => .ite (.step (.expectJsx _) fun _ => .finish _ _) ?_
  exact .bind jsxElementName_follows fun _ => .step (.expectJsx _) fun _ => .finish _ _

/-! ## Content -/

theorem jsxExpressionChild_follows : Follows r (jsxExpressionChild nested) (jsxExpressionChild nested) := by
  refine .step .markJsx fun _ => .step (.expectJsx _) fun _ => .step (.checkJsx _) fun _ => .ite ?_ ?_
  · exact .bind jsxEmptyExpression_follows fun e => .step (.expectJsx _) fun _ => .bind (.pure e) fun _ => .finish _ _
  · exact .step .leaveJsx fun _ => .bind hn.assignment fun e => .step .reenterJsx fun _ =>
      .bind (.pure e) fun _ => .finish _ _

theorem jsxChildren_follows : Follows r (jsxChildren nested) (jsxChildren nested) := by
  refine .bind (.loop (fun children => ?round) []) fun children => .giving (by simp)
  refine .get fun _ => .ite (.pure _) (.bind jsxTextChild_follows fun text => ?_)
  have same : (marked r.stamp text).toList ++ marked r.stamp children = marked r.stamp (text.toList ++ children) := by
    cases text <;> simp
  rw [same]
  exact .get fun _ => .ite (.bind (jsxExpressionChild_follows hn) fun _ => .pure _) (.pure _)

/-! ## Elements -/

omit hn in
theorem kind_marked (g : NodeInfo → NodeInfo) (e : OpenElement) : (marked g e).kind = e.kind.map (Node.mapInfo g) := by
  obtain ⟨start, opening, content, closing⟩ := e
  have inside : (marked g content).reverse = content.reverse.map (Node.mapInfo g) := by simp
  cases closing with
  | none =>
    change Kind.jsxElement (opening.mapInfo g) (marked g content).reverse none =
      Kind.map _ (.jsxElement opening content.reverse none)
    rw [inside]
    simp only [Kind.map, Kind.traverse, Kind.traverseList_eq]
    rfl
  | some closing =>
    change (if isFragmentTag (opening.mapInfo g) && isFragmentTag (closing.mapInfo g) then
        Kind.jsxFragment (opening.mapInfo g) (marked g content).reverse (closing.mapInfo g)
      else .jsxElement (opening.mapInfo g) (marked g content).reverse (some (closing.mapInfo g))) =
        Kind.map _ (if isFragmentTag opening && isFragmentTag closing then .jsxFragment opening content.reverse closing
          else .jsxElement opening content.reverse (some closing))
    rw [inside, Node.isFragmentTag_mapInfo, Node.isFragmentTag_mapInfo]
    split
    · simp only [Kind.map, Kind.traverse, Kind.traverseList_eq]
      rfl
    · simp only [Kind.map, Kind.traverse, Kind.traverseList_eq]
      rfl

omit hn in
theorem finishElement_follows (start : Place) (e : OpenElement) :
    Follows r (finish start e.kind) (finish start (marked r.stamp e).kind) := .finishing _ (kind_marked r.stamp e)

omit hn in
theorem checkClosingName_follows (opening name : Node) :
    Follows r (checkClosingName opening name) (checkClosingName (opening.mapInfo r.stamp) (name.mapInfo r.stamp)) := by
  rw [checkClosingName, checkClosingName, Node.kind_mapInfo, Node.qualifiedName_mapInfo]
  cases opening.kind with
  | jsxOpeningElement expected attributes selfClosing =>
    change Follows r (if qualifiedName expected != qualifiedName name then tolerateHere
      (.closingTag (qualifiedName expected)) else pure ())
      (if qualifiedName (expected.mapInfo r.stamp) != qualifiedName name then
        tolerateHere (.closingTag (qualifiedName (expected.mapInfo r.stamp))) else pure ())
    rw [Node.qualifiedName_mapInfo]
    exact .ite (.tolerateHere _) (.pure ())
  | _ => exact .tolerateHere _

omit hn in
theorem takeTag_follows (e : OpenElement) (stack : List OpenElement) (start : Place) (tag : Node) :
    Follows r (takeTag e stack start tag)
      (takeTag (marked r.stamp e) (marked r.stamp stack) start (tag.mapInfo r.stamp)) := by
  have more (e : OpenElement) (stack : List OpenElement) : Follows r (pure (Progress.more (e, stack)))
      (pure (.more (marked r.stamp e, marked r.stamp stack))) := .pure _
  have done (e : OpenElement) (stack : List OpenElement) : Follows r (pure (Progress.done (e, stack)))
      (pure (.done (marked r.stamp e, marked r.stamp stack))) := .pure _
  rw [takeTag, takeTag, Node.kind_mapInfo]
  cases htag : tag.kind with
  | jsxOpeningElement name attributes selfClosing =>
    cases selfClosing with
    | true => exact .bind (finishElement_follows start { start, opening := tag }) fun child => more (e.add child) stack
    | false => exact more { start, opening := tag } (e :: stack)
  | jsxClosingElement name =>
    refine .step (checkClosingName_follows e.opening name) fun _ => ?_
    cases stack with
    | nil => exact done { e with closing := some tag } []
    | cons parent stack =>
      exact .bind (finishElement_follows e.start { e with closing := some tag }) fun child =>
        more (parent.add child) stack
  | jsxClosingFragment =>
    have same : isFragmentTag (marked r.stamp e).opening = isFragmentTag e.opening :=
      e.opening.isFragmentTag_mapInfo r.stamp
    change Follows r (if isFragmentTag e.opening then _ else _)
      (if isFragmentTag (marked r.stamp e).opening then _ else _)
    rw [same]
    refine .ite (done { e with closing := some tag } stack) ?_
    exact .step (.tolerateHere _) fun _ => more { e with closing := some tag } stack
  | _ => exact more e stack

theorem jsxContent_follows (e : OpenElement) :
    Follows r (jsxContent nested e) (jsxContent nested (marked r.stamp e)) := by
  refine .bind (.loop (fun (e, stack) => .get fun _ => .ite (.pure _) ?_) (e, [])) fun (e, _) => .pure e
  have tagged (e : OpenElement) : Follows r
      (scannerPlace >>= fun start => jsxTag nested >>= fun tag => takeTag e stack start tag)
      (scannerPlace >>= fun start => jsxTag nested >>= fun tag =>
        takeTag (marked r.stamp e) (marked r.stamp stack) start tag) :=
    .step .scannerPlace fun start => .bind (jsxTag_follows hn) fun tag => takeTag_follows e stack start tag
  refine .bind (jsxChildren_follows hn) fun children => ?_
  have content : marked r.stamp { e with content := children.reverse ++ e.content } =
      { marked r.stamp e with content := (marked r.stamp children).reverse ++ (marked r.stamp e).content } := by
    simp [Marked.marked]
  have := tagged { e with content := children.reverse ++ e.content }
  rwa [content] at this

theorem jsxElement_follows : Follows r (jsxElement nested) (jsxElement nested) := by
  refine .step .markJsx fun start => .bind (jsxOpening_follows hn) fun opening => ?_
  dsimp only
  rw [Marked.marked_node, Node.isSelfClosing_mapInfo]
  have finished (e : OpenElement) : Follows r (pure e >>= fun e => finish start e.kind)
      (pure (marked r.stamp e) >>= fun e => finish start e.kind) :=
        .bind (.pure e) fun e => finishElement_follows start e
  refine .ite (finished { start, opening }) ?_
  exact .bind (jsxContent_follows hn { start, opening }) fun e => finishElement_follows start e

theorem jsxExpression_follows : Follows r (jsxExpression nested) (jsxExpression nested) :=
  .step .startJsx fun _ => .bind (jsxElement_follows hn) fun _ => .step .skip fun _ => .pure _

end

end EcmaTree.Parse
