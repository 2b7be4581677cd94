import EcmaTree.Proofs.Derivation.Opening

/-!
# Bound names

Reading a pattern gives back the tokens of names besides the tree. They are spelled as the names that the tree binds,
in the same order, wherever the parse stands and in strict and in tolerant mode. Each production is read over
productions that do so; `pattern_names_bound` is the conclusion for patterns at any number of levels.
-/

namespace EcmaTree

namespace Node

theorem elementsBoundNames_eq (elements : List (Option Node)) :
    elementsBoundNames elements = elements.flatMap fun e => e.toList.flatMap boundNames := by
  induction elements with
  | nil => rfl
  | cons element elements ih => cases element <;> simp [elementsBoundNames, ih]

/-- The names that one member of an object pattern binds. -/
def memberBoundNames (member : Node) : List String :=
  match member.kind with
  | .property _ _ value .. => value.boundNames
  | _ => member.boundNames

theorem membersBoundNames_eq (members : List Node) : membersBoundNames members = members.flatMap memberBoundNames := by
  induction members with
  | nil => rfl
  | cons member members ih =>
    obtain ⟨i, kind⟩ := member
    cases kind <;> simp [membersBoundNames, memberBoundNames, Node.kind, ih]

end Node

namespace Parse

open Judgement (onSuccess)

variable {nested : Nested} {kind : Option VariableKind}

/-- The tokens that are given back are spelled as the names that the node binds. -/
abbrev SpellsNames (r : Node × List Token) : Prop := r.2.map Token.text = r.1.boundNames

/-- The production gives back the tokens of the names that are bound. -/
def Binds (p : Parse (Node × List Token)) : Prop := ∀ s, onSuccess.Ensures p s fun r _ => SpellsNames r

/-- A name is spelled as the lookahead is. -/
theorem bindingName_spelled (s : ParseState) :
    onSuccess.Ensures (bindingName kind) s fun n _ => ∃ i, n = .mk i (.identifier s.lookahead.text) := by
  have done {start : Place} {u : ParseState} :
      onSuccess.Ensures (finish start (.identifier s.lookahead.text)) u fun n _ =>
      ∃ i, n = .mk i (.identifier s.lookahead.text) :=
    onSuccess.mono .finish fun _ _ h => ⟨_, h.1⟩
  refine .mark (Judgement.bind .next ?_)
  rintro _ t ⟨rfl, -⟩
  refine .context (.ite (fun _ => ?_) fun _ => .ite (fun _ => ?_) fun _ => ?_)
  · exact .ite (fun _ => behind fun _ _ => done) fun _ => .ite (fun _ => behind fun _ _ => done) fun _ => done
  · exact .ite (fun _ => behind fun _ _ => done) fun _ => .ite (fun _ => behind fun _ _ => done) fun _ => done
  · exact .ite (fun _ => behind fun _ _ => done) fun _ => done

theorem identifierName_spelled (s : ParseState) :
    onSuccess.Ensures identifierName s fun n _ => ∃ i, n = .mk i (.identifier s.lookahead.text) := by
  refine .mark (Judgement.bind .next ?_)
  rintro _ t ⟨rfl, -⟩
  exact .ite (fun _ => onSuccess.mono .finish fun _ _ h => ⟨_, h.1⟩) fun _ => .failAt

theorem finish_spells {start : Place} {k : Kind Node} {names : List Token}
    (h : names.map Token.text = Node.kindBoundNames k) (s : ParseState) :
    onSuccess.Ensures (do return (← finish start k, names)) s fun r _ => SpellsNames r :=
  Judgement.bind .finish <| by
    rintro _ _ ⟨rfl, -⟩
    exact onSuccess.ofPure h

theorem patternWithDefault_binds (h : Binds (nested (.pattern kind))) :
    Binds (patternWithDefault nested kind) := fun s => by
  refine .ahead (Judgement.bind (h s) fun (_, _) t hr => behind fun b u => .ite (fun _ => ?_)
    fun _ => onSuccess.ofPure hr)
  exact behind fun right v => finish_spells hr v

theorem restElement_binds (h : Binds (nested (.pattern kind))) : Binds (restElement nested kind) := fun _ =>
  .mark (behind fun _ t => Judgement.bind (h t) fun (_, _) u hr => finish_spells hr u)

/-- A rest binds the same names as a parameter and as a member. -/
theorem finalRest_binds (h : Binds (nested (.pattern none))) {closing : Punctuator} {notLast : Cause} (s : ParseState) :
    onSuccess.Ensures (finalRest nested closing notLast) s fun r _ => SpellsNames r ∧
      r.1.memberBoundNames = r.1.boundNames := by
  have done {start : Place} {argument : Node} {names : List Token} (hr : SpellsNames (argument, names))
      (u : ParseState) : onSuccess.Ensures (do
      return (← finish start (.rest argument), names)) u fun r _ => SpellsNames r ∧
        r.1.memberBoundNames = r.1.boundNames :=
    Judgement.bind .finish <| by
      rintro _ _ ⟨rfl, -⟩
      exact onSuccess.ofPure ⟨hr, rfl⟩
  refine .mark (behind fun _ t => Judgement.bind (h t) fun (_, _) u hr =>
    .check (.ite (fun _ => behind fun _ v => ?_) fun _ => ?_))
  · exact .check (.ite (fun _ => done hr v) fun _ => behind fun _ w => done hr w)
  · exact .check (.ite (fun _ => done hr u) fun _ => behind fun _ w => done hr w)

/-- All items that come before something satisfy what each of them does. -/
theorem itemsBefore_all {α : Type} {P : α → Prop} {p : Punctuator} {item : Parse α}
    (h : ∀ s, onSuccess.Ensures item s fun a _ => P a)
    (s : ParseState) : onSuccess.Ensures (itemsBefore p item) s fun items _ => ∀ a ∈ items, P a := by
  refine Judgement.bind (P := fun items _ => ∀ a ∈ items,
    P a) (Judgement.Ensures.loop (I := fun items _ => ∀ a ∈ items, P a)
    (by simp) fun items t hitems => ?_) fun items t hitems => onSuccess.ofPure (by simpa using hitems)
  refine .check (.ite (fun _ => onSuccess.ofPure hitems) fun _ => Judgement.bind (h t)
    fun a u ha => onSuccess.ofPure ?_)
  exact List.forall_mem_cons.2 ⟨ha, hitems⟩

/-- The items of a pattern are read one after the other, last one first, and each spells what it binds. -/
theorem arrayPattern_binds (h : Binds (nested (.pattern kind))) : Binds (arrayPattern nested kind) := fun _ => by
  let Spelled (item : Option Node × List Token) : Prop := item.2.map Token.text = item.1.toList.flatMap Node.boundNames
  refine .mark (behind fun _ t => Judgement.bind (P := fun items _ => ∀ item ∈ items,
    Spelled item) (Judgement.Ensures.loop
    (I := fun items _ => ∀ item ∈ items, Spelled item) (by simp) fun items t hitems => ?_)
      fun items u hitems => behind fun _ v => ?_)
  · have one {element : Node} {names : List Token} (hr : SpellsNames (element, names)) :
        ∀ item ∈ (some element, names) :: items, Spelled item :=
      List.forall_mem_cons.2 ⟨by simpa [Spelled] using hr, hitems⟩
    refine .check (.ite (fun _ => onSuccess.ofPure hitems) fun _ => behind fun _ u => .ite (fun _ => ?_) fun _ => ?_)
    · exact onSuccess.ofPure (List.forall_mem_cons.2 ⟨rfl, hitems⟩)
    · refine .check (.ite (fun _ => ?_) fun _ => ?_)
      · exact Judgement.bind (restElement_binds h u) fun (element, names) v hr => onSuccess.ofPure (one hr)
      · refine Judgement.bind (patternWithDefault_binds h u) fun (element, names) v hr =>
          .check (.ite (fun _ => ?_) fun _ => ?_)
        · exact onSuccess.ofPure (one hr)
        · exact behind fun _ w => onSuccess.ofPure (one hr)
  · refine finish_spells ?_ v
    rw [Node.kindBoundNames, Node.elementsBoundNames_eq, List.map_flatMap, List.flatMap_map,
      List.flatMap_def, List.flatMap_def]
    rw [List.map_congr_left fun item hitem => hitems item (List.mem_reverse.1 hitem)]

theorem namedMemberValue_binds (h : Binds (nested (.pattern kind))) {name : Token} {i : NodeInfo} (s : ParseState) :
    onSuccess.Ensures (namedMemberValue nested kind name (.mk i (.identifier name.text))) s fun r _ =>
      SpellsNames (r.1, r.2.1) := by
  refine behind fun _ t => .ite (fun _ => behind fun right u => ?_) fun _ =>
    .check (.ite (fun _ => onSuccess.ofPure rfl) fun _ => ?_)
  · refine Judgement.bind .finish ?_
    rintro _ _ ⟨rfl, -⟩
    exact onSuccess.ofPure rfl
  · exact behind fun _ u => Judgement.bind (patternWithDefault_binds h u) fun (value, names) v hr => onSuccess.ofPure hr

/-- The tokens of a member of an object pattern. -/
theorem memberPattern_binds (h : Binds (nested (.pattern kind))) (s : ParseState) :
    onSuccess.Ensures (memberPattern nested kind) s fun r _ => r.2.map Token.text = r.1.memberBoundNames := by
  have done {start : Place} {key value : Node} {names : List Token} {computed shorthand : Bool}
      (hr : SpellsNames (value, names)) (u : ParseState) :
      onSuccess.Ensures (do return (← finish start (.property .init key value computed false shorthand),
        names)) u fun r _ =>
        r.2.map Token.text = r.1.memberBoundNames :=
    Judgement.bind .finish <| by
      rintro _ _ ⟨rfl, -⟩
      exact onSuccess.ofPure hr
  refine .mark (.ahead (.ite (fun _ => behind fun _ t => Judgement.bind .finish ?_) fun _ => ?_))
  · rintro _ u ⟨rfl, -⟩
    exact Judgement.bind (namedMemberValue_binds h u) fun (value, names, shorthand) v hr => done hr v
  · exact .check (behind fun _ t => behind fun _ u => Judgement.bind (patternWithDefault_binds h u)
      fun (value, names) v hr => done hr v)

theorem objectPattern_binds (h : Binds (nested (.pattern kind))) (hrest : Binds (nested (.pattern none))) :
    Binds (objectPattern nested kind) := fun s => by
  refine .mark (behind fun _ t =>
    Judgement.bind (itemsBefore_all (P := fun r => r.2.map Token.text = r.1.memberBoundNames)
    (fun t => ?_) t) fun items u hitems => behind fun _ v => finish_spells ?_ v)
  · have done {item : Node × List Token} (hitem : item.2.map Token.text = item.1.memberBoundNames) (u : ParseState) :
        onSuccess.Ensures (do
          unless ← Parse.check .rightBrace do Parse.expect .comma
          return item) u fun r _ => r.2.map Token.text = r.1.memberBoundNames :=
      .check (.ite (fun _ => onSuccess.ofPure hitem) fun _ => behind fun _ v => onSuccess.ofPure hitem)
    refine .check (.ite (fun _ => ?_) fun _ => ?_)
    · exact Judgement.bind (finalRest_binds hrest t) fun item u hr => done (hr.1.trans hr.2.symm) u
    · exact Judgement.bind (memberPattern_binds h t) fun item u hr => done hr u
  · rw [Node.kindBoundNames, Node.membersBoundNames_eq, List.map_flatMap, List.flatMap_map,
      List.flatMap_def, List.flatMap_def]
    rw [List.map_congr_left hitems]

theorem pattern_binds (h : Binds (nested (.pattern kind))) (hrest : Binds (nested (.pattern none))) :
    Binds (pattern nested kind) :=
  fun s => by
    have name {u : ParseState} (hu : u.lookahead = s.lookahead) :
        onSuccess.Ensures (do return (← bindingName kind, [s.lookahead])) u fun r _ => SpellsNames r :=
      Judgement.bind (bindingName_spelled u) <| by
        rintro _ _ ⟨i, rfl⟩
        rw [hu]
        exact onSuccess.ofPure rfl
    refine .ahead (.ite (fun _ => arrayPattern_binds h s) fun _ =>
      .ite (fun _ => objectPattern_binds h hrest s) fun _ => ?_)
    refine .ite (fun _ => ?_) fun _ => name rfl
    exact Judgement.bind (Judgement.Settles.tolerateWith _ _ s) fun _ u hu => name hu.lookahead

/-- Each level needs the one below it alone, and at no level there is nothing to give back. -/
theorem atLevels_binds (levels : Nat) (kind : Option VariableKind) : Binds (atLevels levels (.pattern kind)) := by
  induction levels generalizing kind with
  | zero =>
    intro s r t h
    cases h
  | succ levels ih => exact pattern_binds (ih kind) (ih none)

/-- A pattern that is read, at any number of levels and wherever the parse stands, gives back the tokens of the names
that its tree binds: all of them, in the order of the source, and no other ones. -/
theorem pattern_names_bound {levels : Nat} {s t : ParseState} {node : Node} {names : List Token}
    (h : atLevels levels (.pattern kind) s = .ok (node, names) t) : names.map Token.text = node.boundNames :=
  atLevels_binds levels kind s (node, names) t h

/-- Holes, keys, parameters of functions and default values count for nothing. -/
theorem pattern_names_bound_nested : ∃ s t node names,
    atLevels 40 (.pattern (some .var)) s = .ok (node, names) t ∧ names.map Token.text = ["a", "c", "d", "f", "g"] ∧
      names.map Token.text = node.boundNames := by
  have run : (match opening (.initial "[a, , {b: [c = (h) => i], d = j, [k]: {...f}}, ...g]" {}) with
    | .ok _ s => match atLevels 40 (.pattern (some .var)) s with
      | .ok (_, names) _ => decide (names.map Token.text = ["a", "c", "d", "f", "g"])
      | _ => false
    | _ => false) = true := by decide +kernel
  split at run
  next s hs =>
    split at run
    next node names t ht => exact ⟨s, t, node, names, ht, of_decide_eq_true run, pattern_names_bound ht⟩
    · cases run
  · cases run

end Parse

end EcmaTree
