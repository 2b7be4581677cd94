import EcmaTree.Proofs.Ledger.Class
import EcmaTree.Proofs.Ledger.Jsx

/-!
# Primary expressions, member accesses and calls

A group that an arrow follows gives its nodes to the placeholder that waits for the arrow. A list of several is finished
before that is known, and then the node of the list is used by nothing.
-/

namespace EcmaTree

instance : HasTokens Parse.Chain := ⟨fun _ => []⟩

instance : HasTokens.Mute Parse.Chain := ⟨fun _ => rfl⟩

namespace Ledger

open Parse

variable {L : Ledger} {m : Mode} {nested : Nested} {base s : ParseState} {ns l : List Node}

/-- Parameters that wait for their arrow. -/
theorem Held.hold {params : List Node} (h : L.Held m base (params ++ l) s) (async : Bool) :
    L.Held m base (placeholder params async :: l) s := ⟨h.toAccounts.hold async, h.stands, h.pending⟩

section
variable (hn : L.Sound nested)
include hn

/-! ## Templates -/

omit hn in
theorem templateElement_reads (tagged : Bool) : L.Reads (templateElement tagged) := fun s h => by
  refine .ahead ?_
  split
  next chunk _ =>
    refine .mark (h.next fun t ht => ?_)
    have element {u : ParseState} (hu : L.Held .ahead s [] u) : L.Safe (do
        return (← finish s.start.place (.templateElement chunk.raw chunk.cooked chunk.isTail), chunk.isTail)) u
          (L.Gives .ahead s []) :=
      hu.node [] rfl (by simp [Kind.children]) fun n v _ h => h.give (by simp) (by simp)
    split
    · exact ht.settleUnless (.failWith h.seen) fun u hu => element hu
    · exact element ht
  · exact h.failHere

theorem template_reads (tagged : Bool) : L.Reads (template nested tagged) := fun s h => by
  refine .mark (h.read (templateElement_reads tagged) fun (first, isTail) t h _ => ?_)
  refine h.loop (σ := List Node × List Node × Bool) [] (by simp) (by simp)
    (fun (quasis, expressions, isTail) u h _ => ?_)
    fun (quasis, expressions, isTail) u h _ => h.finish rfl (by simp [Kind.children])
  refine .ite (fun _ => h.give (by simp) (by simp)) fun _ => h.read (expression_reads hn) fun e v h _ => ?_
  exact h.read (templateElement_reads tagged) fun (quasi, isTail) w h _ => h.give (by simp +arith) (by simp)

/-! ## Parentheses -/

omit hn in
theorem requireArrow_reads : L.Reads requireArrow := fun s h =>
  .check (.ite (fun _ => h.give (by simp) (by simp)) fun _ => h.last .expect (by simp))

theorem groupRest_reads : L.Reads (groupRest nested) := fun s h => by
  refine h.read (finalRest_reads hn _ _) fun (rest, names) t h _ => h.expect fun u h => ?_
  exact h.read requireArrow_reads fun _ v h _ => h.give (by simp) (by simp)

theorem groupItems_gives {first : Node} (h : L.Held .ahead base (first :: l) s) :
    L.Safe (groupItems nested first) s (L.Gives .ahead base l) := by
  refine h.read (.modifyCover fun _ _ => .inl) fun _ t h _ => ?_
  refine h.loop (σ := List Node × Bool) l (by simp) (by simp) (fun (items, isParameters) u h _ => ?_)
    fun (items, isParameters) u h _ => h.give (by simp) (by simp)
  refine h.accept fun b v h => .ite (fun _ => h.give (by simp) (by simp)) fun _ => h.accept fun b w h => ?_
  refine .ite (fun _ => h.give (by simp) (by simp)) fun _ => .check (.ite (fun _ => .get ?_) fun _ => ?_)
  · refine h.settleUnless .failAhead fun x h => h.read (groupRest_reads hn) fun rest y h _ => ?_
    exact h.read (.modifyCover fun _ _ => .inl) fun _ z h _ => h.give (by simp) (by simp)
  · exact h.read hn.assignment.inherit fun item x h _ => h.give (by simp) (by simp)

omit hn in
/-- A list of several is used up with its node. -/
theorem Held.groupParameters {e : Node} (h : L.Held m base (e :: l) s) : L.Held m base (groupParameters e ++ l) s := by
  unfold Parse.groupParameters
  split
  next expressions he =>
    have opened := h.opened (by rw [he]; nofun)
    rw [Node.children, he] at opened
    exact opened.patterns
  · exact h.alike (Node.outline_toPattern e)

omit hn in
theorem closeGroup_gives {e : Node} (h : L.Held .ahead base (e :: l) s) :
    L.Safe (closeGroup e) s (L.Gives .ahead base l) := by
  have closed {result : Node} {t : ParseState} (h : L.Held .ahead base (result :: l) t) : L.Safe (do
      modifyCover ({ · with isBindingElement := false })
      return result) t (L.Gives .ahead base l) :=
    h.read (.modifyCover fun _ _ => .inl) fun _ u h _ => h.give (by simp) (by simp)
  refine h.expect fun t h => .check (.ite (fun _ => .ite (fun _ => ?_) fun _ => .get ?_) fun _ => .value (closed h))
  · have group : L.Held .ahead base ([e] ++ l) t := h
    exact .value (closed (group.hold false))
  · exact h.settleUnless .failAhead fun u h => .value (closed (h.groupParameters.hold false))

theorem groupContents_reads : L.Reads (groupContents nested) := fun s h => by
  refine .ahead (h.read (.modifyCover fun _ _ => .inl) fun _ t h _ => ?_)
  refine h.read hn.assignment.inherit fun first u h _ => .check (.ite (fun _ => ?_) fun _ => closeGroup_gives h)
  refine after (groupItems_gives hn h) fun (items, isParameters) v h _ => .ite (fun _ => ?_) fun _ => ?_
  · have items : L.Held .ahead s (items ++ []) v := h.fewer (by simp)
    exact (items.patterns.hold false).give (by simp) (by simp)
  · exact h.node [] rfl (by simp [Kind.children]) fun n w _ h => closeGroup_gives h

theorem group_reads : L.Reads (group nested) := fun s h => by
  refine h.expect fun t h => h.accept fun b u h => .ite (fun _ => ?_) fun _ => .check (.ite (fun _ => ?_) fun _ => ?_)
  · refine h.read requireArrow_reads fun _ v h _ => ?_
    have none : L.Held .ahead s ([] ++ []) v := h
    exact (none.hold false).give (by simp) (by simp)
  · refine h.read (groupRest_reads hn) fun rest v h _ => ?_
    have one : L.Held .ahead s ([rest] ++ []) v := h
    exact (one.hold false).give (by simp) (by simp)
  · exact h.last (groupContents_reads hn) (by simp)

/-! ## `import` -/

omit hn in
theorem checkImportCall_reads : L.Reads checkImportCall := fun _ h =>
  .checkKeyword (.ite (fun _ => h.read .second fun _ _ h _ => h.give (by simp) (by simp))
    fun _ => h.give (by simp) (by simp))

omit hn in
theorem behindDot_reads : L.Reads behindDot := .of_barren (.scan _) fun _ hs =>
  (L.ofBehindDot hs).mono fun t _ ⟨seen, stands⟩ => ⟨fun u hu => by cases t <;> simp_all, stands⟩

omit hn in
theorem checkImportMeta_reads : L.Reads checkImportMeta := fun s h => by
  refine .checkKeyword (.ite (fun _ => h.read behindDot_reads fun t? t h seen => ?_)
    fun _ => h.give (by simp) (by simp))
  cases t? with
  | some token =>
    refine .ite (fun _ => ?_) fun _ => h.give (by simp) (by simp)
    exact h.settleIf (.tolerateWith (by simpa using seen)) fun u h => h.give (by simp) (by simp)
  | none => exact h.give (by simp) (by simp)

omit hn in
theorem importCallee_reads : L.Reads importCallee := fun s h =>
  .mark (h.expectKeyword fun t h => h.finish rfl (by simp [Kind.children]))

omit hn in
theorem importMeta_reads : L.Reads importMeta := fun s h => by
  refine .mark (h.read identifierName_reads fun owner t h _ => h.expect fun u h => ?_)
  refine h.read identifierName_reads fun field v h _ => h.read (.modifyCover fun _ _ => .inl) fun _ w h _ => ?_
  exact h.finish rfl (by simp +arith [Kind.children])

/-! ## Primary expressions -/

omit hn in
theorem literal_reads : L.Reads literal := fun s h => by
  refine .mark (.ahead ?_)
  have consumed {t : ParseState} (h : L.Held .ahead s [] t) : L.Safe (do
      nonPattern
      skip
      finish s.start.place (literalOf s.lookahead)) t (L.Gives .ahead s []) :=
    h.read .nonPattern fun _ u h _ => h.skip fun v h => h.finish rfl (by simp [Kind.children, literalOf])
  exact .isStrict (h.settleIf (.tolerateWith h.seen) fun t h => consumed h)

omit hn in
theorem regexLiteral_gives (h : L.Held .ahead s [] s)
    (hslash : (s.lookahead.isPunctuator .slash || s.lookahead.isPunctuator .divAssign) = true) :
    L.Safe regexLiteral s (L.Gives .ahead s []) := by
  have covered : L.Held .ahead s [] { s with cover := s.cover.nonPattern } := h.setCover _ fun _ ht => h.pending ht
  refine .mark (.bind (.modify (.bind (((L.ofRegex covered.stands hslash).and (Barren.regex _)).mono ?_))))
  rintro t u ⟨stands, still, cover⟩
  exact (covered.still still cover stands).finish rfl (by simp [Kind.children])

omit hn in
theorem noExpression_reads : L.Reads noExpression := fun _ h => h.next fun _ ht => ht.failAt h.seen

theorem nameExpression_reads : L.Reads (nameExpression nested) := fun s h => by
  refine .mark (.ahead (.context (h.settleIf (.tolerateAt h.seen) fun t h => ?_)))
  refine h.read checkAsyncFunction_reads fun b u h _ =>
    .ite (fun _ => h.last (function_reads hn _ _) (by simp)) fun _ => ?_
  exact h.next fun v h => h.finish rfl (by simp [Kind.children])

theorem keywordExpression_reads : L.Reads (keywordExpression nested) := fun s h => by
  refine .mark (.ahead (.context (.ite (fun _ => h.last identifierName_reads (by simp)) fun _ =>
    .ite (fun _ => ?_) fun _ => ?_)))
  · exact h.skip fun t h => h.finish rfl (by simp [Kind.children])
  have seen := h.seen
  refine h.read .nonPattern fun _ t h _ => .ite (fun _ => h.last (function_reads hn _ _) (by simp)) fun _ => ?_
  refine .ite (fun _ => h.skip fun u h => h.finish rfl (by simp [Kind.children])) fun _ => ?_
  refine .ite (fun _ => h.last (classOf_reads hn _ _) (by simp)) fun _ => h.read checkImportCall_reads fun b u h _ => ?_
  refine .ite (fun _ => h.last importCallee_reads (by simp)) fun _ => h.read checkImportMeta_reads fun b v h _ => ?_
  refine .ite (fun _ => ?_) fun _ => h.last noExpression_reads (by simp)
  exact h.settleUnless (.tolerateWith seen) fun w h => h.last importMeta_reads (by simp)

theorem primary_reads : L.Reads (primary nested) := fun s h => by
  refine .ahead (.get (.ite (fun _ => h.last (jsxExpression_reads hn) (by simp)) fun _ => ?_))
  split
  · exact h.last (nameExpression_reads hn) (by simp)
  · exact h.last literal_reads (by simp)
  · exact h.last literal_reads (by simp)
  · exact h.last literal_reads (by simp)
  · exact h.last literal_reads (by simp)
  · exact h.last (template_reads hn false) (by simp)
  · exact h.read (.modifyCover fun _ _ => .inl) fun _ t h _ => h.last (group_reads hn).inherit (by simp)
  · exact h.last (arrayLiteral_reads hn).inherit (by simp)
  · exact h.last (objectLiteral_reads hn).inherit (by simp)
  next hslash => exact regexLiteral_gives h (by simp [Token.isPunctuator, hslash])
  next hslash => exact regexLiteral_gives h (by simp [Token.isPunctuator, hslash])
  · exact h.last (keywordExpression_reads hn) (by simp)
  · exact h.last noExpression_reads (by simp)

end

end Ledger

end EcmaTree
