import EcmaTree.Grammar.Binding
import EcmaTree.Proofs.Combinators

/-!
# Names, keys and binding patterns

`Sound` is what the productions assume of the nested ones.
-/

namespace EcmaTree

namespace Contract

open Parse

/-- Every nested production reads something and gives back good nodes. -/
structure Sound (K : Contract) (nested : Nested) : Prop where
  assignment : K.Reads (α := Node) (nested .assignment)
  unary : K.Reads (α := Node) (nested .unary)
  exponentiation : K.Reads (α := Node) (nested .exponentiation)
  callee : K.Reads (α := Node) (nested .callee)
  callChain : K.Reads (α := Node) (nested .callChain)
  pattern (kind : Option VariableKind) : K.Reads (α := Node × List Token) (nested (.pattern kind))
  statement : K.Reads (α := Node) (nested .statement)
  listItem : K.Reads (α := Node) (nested .listItem)
  jsxElement : K.Leads (α := Node) .entering .inside true (nested .jsxElement)

variable {K : Contract} {nested : Nested}

/-! ## Names -/

theorem identifierName_closes : K.Closes identifierName := by
  intro s hs
  refine .mark (take hs (.refl s) fun t h => .ite (fun hname => ?_) fun _ => .failAt)
  exact (h (ParseState.not_arrow_of hname (fun _ => rfl))).closes rfl (.word (.inl hname))

theorem identifierName_reads : K.Reads identifierName := identifierName_closes.reads

/-- A binding name is the first token, which may be the word `let` in another form. -/
theorem bindingName_tells {s : ParseState} (kind : Option VariableKind) (hs : K.Stands .ahead s) :
    K.Ensures (bindingName kind) s fun n t => K.Held .ahead true s (nodes n) t ∧
      K.Tells s (.word s.lookahead.text) t := by
  have close {u : ParseState} (h : K.Took s s.lookahead u)
      (hword : s.lookahead.isName = true ∨ s.lookahead.text = "let") :
      K.Ensures (finish s.start.place (.identifier s.lookahead.text)) u fun n t =>
        K.Held .ahead true s (nodes n) t ∧ K.Tells s (.word s.lookahead.text) t :=
    K.mono (h.leaf rfl (.word hword)) fun n t ⟨closed, steps⟩ =>
      ⟨closed.toHeld, K.tells_steps (h.tells _ (.word hword)) steps⟩
  refine .mark (take hs (.refl s) fun t h => .context ?_)
  refine .ite (fun hyield => ?_) fun _ => .ite (fun _ => ?_) fun hname => ?_
  · have h := h (ParseState.not_arrow_of_keyword hyield)
    have word := Token.isName_of_isKeyword hyield
    refine .ite (fun _ => h.settle (.tolerateWith _ _) fun u h => close h (.inl word)) fun _ => ?_
    exact h.settleIf (.failAt _) fun u h => close h (.inl word)
  · refine .ite (fun hword => ?_) fun _ => .ite (fun _ => ?_) fun hlet => ?_
    · have keyword : s.lookahead.isAnyKeyword = true := by simp_all
      have h := h (ParseState.not_arrow_of (f := Token.isAnyKeyword) keyword (fun _ => rfl))
      exact h.settle (.tolerateWith _ _) fun u h => close h (.inl (Token.isName_of_word (.inr keyword)))
    · exact Judgement.bind Judgement.Ensures.failAt fun _ _ h => h
    · have named : s.lookahead.text = "let" := by simp_all
      exact close (h (ParseState.not_arrow_of (f := fun t => t.text == "let") (by simp [named])
        (fun _ => rfl))) (.inr named)
  · have name : s.lookahead.isIdentifier = true := by simpa using hname
    have h := h (ParseState.not_arrow_of (f := Token.isIdentifier) name (fun _ => rfl))
    exact h.settleIf (.tolerateAt _) fun u h => close h (.inl (Token.isName_of_word (.inl name)))

theorem bindingName_reads (kind : Option VariableKind) : K.Reads (bindingName kind) := fun _ hs =>
  K.mono (bindingName_tells kind hs) fun _ _ h => h.1

/-! ## Keys and patterns -/

section
variable (hn : K.Sound nested)
include hn

theorem expression_reads : K.Reads (expression nested) := by
  intro s hs
  refine .ahead ((K.start hs).read (commaSeparated_reads hn.assignment.isolate) fun expressions t h => ?_)
  split
  · exact h.give (by simp)
  · exact h.finishFrom (.inr ⟨0, rfl⟩) rfl (by simp [Kind.children])

theorem propertyKey_reads : K.Reads (propertyKey nested) := by
  intro s hs
  refine .mark (take hs (.refl s) fun t h => ?_)
  have word (hname : s.lookahead.isName = true) :
      K.Ensures (finish s.start.place (.identifier s.lookahead.text)) t fun n u => K.Held .ahead true s (nodes n) u :=
    (h (ParseState.not_arrow_of hname (fun _ => rfl))).finish rfl (.word (.inl hname))
  split
  next hl =>
    refine .isStrict ((h (ParseState.not_arrow_of_lexeme hl nofun)).settleIf (.tolerateWith _ _)
      fun u h => h.finish rfl .literal)
  next hl =>
    refine .isStrict ((h (ParseState.not_arrow_of_lexeme hl nofun)).settleIf (.tolerateWith _ _)
      fun u h => h.finish rfl .literal)
  next hl => exact word (Token.isName_iff.2 (.inl ⟨_, hl⟩))
  next hl => exact word (Token.isName_iff.2 (.inr (.inr (.inl ⟨_, hl⟩))))
  next hl => exact word (Token.isName_iff.2 (.inr (.inr (.inr hl))))
  next hl => exact word (Token.isName_iff.2 (.inr (.inl ⟨_, hl⟩)))
  next hl =>
    refine (h (ParseState.not_arrow_of_lexeme hl nofun)).read hn.assignment.isolate fun key u h => ?_
    exact h.expect fun v h => h.give (by simp)
  next => exact Judgement.Ensures.failAt

theorem patternWithDefault_reads (kind : Option VariableKind) : K.Reads (patternWithDefault nested kind) := by
  intro s hs
  refine .ahead ((K.start hs).read (hn.pattern kind) fun (pattern, names) t h => ?_)
  refine h.accept (fun u h => .pos rfl ?_) fun _ => .neg nofun (h.give (by simp))
  refine h.read hn.assignment.isolate.withContext fun right v h => ?_
  exact h.nodeFrom (.inr ⟨0, rfl⟩) rfl (by simp [Kind.children]) (fun n w _ h => h.give (by simp))

theorem restElement_reads (kind : Option VariableKind) : K.Reads (restElement nested kind) := by
  intro s hs
  refine .mark ((K.start hs).expect fun t h => ?_)
  refine h.read (hn.pattern kind) fun (argument, names) u h => ?_
  exact h.node rfl (by simp [Kind.children]) fun n v _ h => h.give (by simp)

theorem arrayPattern_reads (kind : Option VariableKind) : K.Reads (arrayPattern nested kind) := by
  intro s hs
  refine .mark ((K.start hs).expect fun t h => ?_)
  refine h.loop (l := []) (by simp) (fun items u h => ?_) fun items u h => ?_
  · refine .check (.ite (fun _ => h.give (by simp)) fun _ => h.accept (fun v h => .pos rfl (h.give (by simp)))
      fun _ => .neg nofun ?_)
    refine .check (.ite (fun _ => ?_) fun _ => ?_)
    · exact h.read (restElement_reads hn kind) fun (element, names) v h => h.give (by simp)
    · refine h.read (patternWithDefault_reads hn kind) fun (element, names) v h => ?_
      exact .check (.ite (fun _ => h.give (by simp)) fun _ => h.expect fun w h => h.give (by simp))
  · exact h.expect fun v h => h.node rfl (by simp [Kind.children]) fun n w _ h => h.give (by simp)

theorem finalRest_reads (closing : Punctuator) (notLast : Cause) : K.Reads (finalRest nested closing notLast) := by
  intro s hs
  refine .mark ((K.start hs).expect fun t h => ?_)
  refine h.read (hn.pattern none) fun (argument, names) u h => .check ?_
  refine h.settleIf (.failHere _) fun v h => .check (h.settleUnless (.failHere _) fun w h => ?_)
  exact h.node rfl (by simp [Kind.children]) fun n x _ h => h.give (by simp)

theorem namedMemberValue_held {kind : Option VariableKind} {name : Token} {target : Node} {base s : ParseState}
    {ns : List Node} (h : K.Held .ahead true base ns s) (hname : base.Marks name.place) (ht : target ∈ ns) :
    K.Ensures (namedMemberValue nested kind name target) s fun p t => K.Held .ahead true base (nodes p ++ ns) t := by
  refine h.accept (fun t h => .pos rfl ?_) fun _ =>
    .neg nofun (.check (.ite (fun _ => h.give (by simp; grind)) fun _ => ?_))
  · exact h.read hn.assignment fun right u h =>
      h.nodeFrom hname rfl (by simp [Kind.children, ht]) (fun n v _ h => h.give (by simp +contextual))
  · refine h.expect fun t h => h.read (patternWithDefault_reads hn kind) fun (value, names) u h => h.give (by simp)

theorem memberPattern_reads (kind : Option VariableKind) : K.Reads (memberPattern nested kind) := by
  intro s hs
  refine .mark (.ahead (.ite (fun _ => ?_) fun _ => ?_))
  · refine Judgement.bind (bindingName_tells none hs) fun key t ⟨h, tells⟩ => ?_
    refine Judgement.bind (h.leafFrom (.inl rfl) rfl tells) fun target u ⟨h, _⟩ => ?_
    refine Judgement.bind (namedMemberValue_held hn h (.inr ⟨0, rfl⟩) (by simp)) ?_
    exact fun (value, names, shorthand) v h => h.node rfl (by simp [Kind.children]) fun n w _ h => h.give (by simp)
  · refine .check ((K.start hs).read (propertyKey_reads hn) fun key t h => h.expect fun u h => ?_)
    refine h.read (patternWithDefault_reads hn kind) fun (value, names) v h => ?_
    exact h.node rfl (by simp [Kind.children]) fun n w _ h => h.give (by simp)

theorem objectPattern_reads (kind : Option VariableKind) : K.Reads (objectPattern nested kind) := by
  intro s hs
  have item : K.Reads (do
      let item ← if ← check .ellipsis then finalRest nested .rightBrace .propertyAfterRest
        else memberPattern nested kind
      unless ← check .rightBrace do expect .comma
      return item) := by
    intro s hs
    refine .check (.ite (fun _ => ?_) fun _ => ?_)
    · refine (K.start hs).read (finalRest_reads hn _ _) fun item t h => ?_
      exact .check (.ite (fun _ => h.give (by simp)) fun _ => h.expect fun u h => h.give (by simp))
    · refine (K.start hs).read (memberPattern_reads hn _) fun item t h => ?_
      exact .check (.ite (fun _ => h.give (by simp)) fun _ => h.expect fun u h => h.give (by simp))
  refine .mark ((K.start hs).expect fun t h => h.pass (itemsBefore_leads item) fun items u h => ?_)
  exact h.expect fun v h => h.node rfl (by simp [Kind.children]) fun n w _ h => h.give (by simp)

theorem pattern_reads (kind : Option VariableKind) : K.Reads (pattern nested kind) := by
  intro s hs
  refine .ahead (.ite (fun _ => (arrayPattern_reads hn kind) s hs) fun _ =>
    .ite (fun _ => (objectPattern_reads hn kind) s hs) fun _ => ?_)
  refine (K.start hs).settleIf (.tolerateWith _ _) fun t h => ?_
  exact h.read (bindingName_reads kind) fun name u h => h.give (by simp)

end

end Contract

end EcmaTree
