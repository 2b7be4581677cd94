import EcmaTree.Proofs.Derivation.Nodes

/-!
# Strict code

A module, a class, and a body with the directive `use strict` are strict, and so is all that is inside of them. What the
productions forbid where they find code strict is nowhere in such a part of the tree.
-/

namespace EcmaTree

namespace Node

/-- Is the node nothing that strict code forbids: no `with`, no `delete` of a name, no number in legacy form? -/
def allowedInStrict (n : Node) : Bool :=
  match n.kind with
  | .withStatement .. => false
  | .unary .delete argument _ => !argument.isIdentifier
  | .literal (.number _) raw => !spellsLegacy raw
  | _ => true

theorem allowedInStrict_of_isPlain {i : NodeInfo} {kind : Kind Node} (h : kind.isPlain = true) :
    (mk i kind).allowedInStrict = true := by
  cases kind <;> first | rfl | cases h

/-- What became a pattern is none of what strict code forbids. -/
theorem allowedInStrict_toPattern {n : Node} (h : n.allowedInStrict = true) : n.toPattern.allowedInStrict = true := by
  obtain ⟨i, kind⟩ := n
  cases kind <;> first | rfl | exact h

/-- A literal is allowed if it is marked as none in legacy form. -/
theorem allowedInStrict_literalOf {i : NodeInfo} {t : Token} (hmarked : t.Marked) (h : t.isLegacy = false) :
    (mk i (Parse.literalOf t)).allowedInStrict = true := by
  rw [allowedInStrict, kind_mk, Parse.literalOf]
  cases hl : t.lexeme with
  | number value legacy =>
    have notMarked : legacy = false := by simpa [Token.isLegacy, hl] using h
    have notSpelled : spellsLegacy t.raw ≠ true := fun hraw => by simp [hmarked hl hraw] at notMarked
    simpa using notSpelled
  | _ => rfl

end Node

/-- A tree of the grammar that is derived in strict code is allowed there. -/
theorem DerivableIn.allowedInStrict {size : Nat} {σ : Scope} {n : Node} (h : DerivableIn size σ n)
    (hσ : σ.strict = true) :
    n.allowedInStrict = true := by
  obtain ⟨s, h⟩ := h
  induction h with
  | weaken _ _ ih | operand _ ih | base _ ih | endChain _ _ ih | boundParameter _ ih | concise _ ih | item _ ih
  | complete _ _ ih | bound _ ih | drop _ ih | whole _ ih => exact ih hσ
  | operandParameter _ ih | target _ _ _ ih => exact Node.allowedInStrict_toPattern (ih hσ)
  | literal hmarked hlegacy => exact Node.allowedInStrict_literalOf hmarked (by simpa [hσ] using hlegacy)
  | text hstring =>
    obtain ⟨value, legacy, hl⟩ := Token.isString_iff.1 hstring
    simp [Node.allowedInStrict, Parse.literalOf, hl]
  | @unary _ _ _ op argument hdelete =>
    cases op with
    | delete => simp [Node.allowedInStrict, hdelete hσ rfl]
    | _ => rfl
  | withStatement hsloppy => simp [hσ] at hsloppy
  | plain hkind => exact Node.allowedInStrict_of_isPlain hkind
  | _ => rfl

/-- In what a strict parse gives back no strict code has a `with`, a `delete` of a name or a number in legacy form. -/
theorem strict_code_is_enforced {source : String} {o : ParseOptions} {p : Program}
    (hp : parse source o = .ok p) (hstrict : o.tolerant = false) :
    ∀ entry ∈ p.root.walkIn .outermost, entry.1.strict = true → entry.2.allowedInStrict = true :=
  parse_allIn hp hstrict fun _ _ => DerivableIn.allowedInStrict

theorem strict_code_is_enforced_mixed :
    ∃ p, parse "with (a) delete b; function f() \x7b 'use strict'; delete a.b \x7d class C { d() { return 8 } } 07"
        {} = .ok p ∧
      ∀ entry ∈ p.root.walkIn .outermost, entry.1.strict = true → entry.2.allowedInStrict = true := by
  have h : (parse "with (a) delete b; function f() \x7b 'use strict'; delete a.b \x7d class C { d() { return 8 } } 07"
      {}).toOption.isSome = true := by decide +kernel
  obtain ⟨p, hp⟩ := exists_ok_of_isSome h
  exact ⟨p, hp, strict_code_is_enforced hp rfl⟩

/-! ## Behind strict code -/

namespace Judgement.onSuccess

open Parse

variable {s : ParseState}

/-- The scanner itself knows only the keywords of all code. -/
theorem token_keyword : onSuccess.Ensures (scan Scan.token) s fun t _ => ∀ name, t.lexeme = .keyword name →
    name ∈ keywords := by
  refine .scanGet (fun _ => rfl) ?_
  simp only
  split
  · exact .scanPure (by simp [Scan.tokenBetween])
  split
  · refine .scanReading fun (characters, stop) _ => ?_
    have lexeme : ∀ name, Word.classify (String.ofList characters) = .keyword name → name ∈ keywords := by
      intro name hname
      unfold Word.classify at hname
      grind
    simp only
    split
    · exact .scanBind (.scanPass _) fun _ _ _ => .scanBind (.scanMoveTo _) fun _ _ _ => .scanPure lexeme
    · exact .scanBind (.scanMoveTo _) fun _ _ _ => .scanPure lexeme
  split
  · exact .scanReading fun _ _ => .scanBind (.scanMoveTo _) fun _ _ _ => .scanPure (by simp [Scan.tokenBetween])
  split
  · exact .scanReading fun _ _ => .scanBind (.scanMoveTo _) fun _ _ _ => .scanPure (by simp [Scan.tokenBetween])
  split
  · refine .scanReading fun (chunk, closing, stop) _ => ?_
    rintro _ _ ⟨⟩
    simp [Scan.tokenBetween]
  · unfold Scan.punctuator
    split
    · exact .scanFail
    · rintro _ _ ⟨⟩
      simp [Scan.tokenBetween]

/-- In sloppy code no other keywords are read ahead. -/
theorem next_keyword (hsloppy : s.context.strict = false) :
    onSuccess.Ensures next s fun _ t => ∀ name, t.lookahead.lexeme = .keyword name → name ∈ keywords := by
  refine onSuccess.ofBind (.modifying (fun _ _ _ => rfl) (Judgement.bind .skipTrivia ?_))
  rintro _ _ ⟨regions, errors, -, rfl⟩
  refine onSuccess.ofBind (.setStart (Judgement.bind (and token_ensures token_keyword) ?_))
  rintro read _ ⟨⟨stop, ⟨regions', errors', rfl, -⟩, -⟩, keyword⟩
  refine .get (fun _ => rfl) (onSuccess.ofBind (.modifying (fun _ _ _ => rfl) (onSuccess.ofPure ?_)))
  simpa [hsloppy] using keyword

end Judgement.onSuccess

open Parse in
/-- Whatever a statement makes strict, the code behind it is as strict as the code before it, and in sloppy code words
are keywords of strict code no more. The token right behind the statement has been read already when the statement
ends. -/
theorem strictness_ends {source : String} {levels : Nat} {s t u : ParseState} {n : Node} {consumed : Token}
    (hs : s.Strict source .ahead) (hn : atLevels levels .listItem s = .ok n t) (hnext : next t = .ok consumed u) :
    t.context = s.context ∧
      (s.context.strict = false → ∀ name, u.lookahead.lexeme = .keyword name → name ∈ keywords) := by
  obtain ⟨-, setting, -⟩ := (atLevels_sound source levels).listItem s.setting s.cover s hs rfl rfl n t hn
  have context : t.context = s.context := congrArg Setting.context setting.symm
  exact ⟨context, fun hsloppy => Judgement.onSuccess.next_keyword (by rw [context, hsloppy]) consumed u hnext⟩

open Parse in
/-- What stands two tokens behind a strict body is read as in sloppy code: here `static`. -/
theorem strictness_ends_function : ∃ s t u n consumed,
    s.Strict "function f() \x7b 'use strict' \x7d a static" .ahead ∧ atLevels 40 .listItem s = .ok n t ∧
      next t = .ok consumed u ∧ s.context.strict = false ∧ u.lookahead.text = "static" ∧ t.context = s.context ∧
      ∀ name, u.lookahead.lexeme = .keyword name → name ∈ keywords := by
  have run : (match opening (.initial "function f() \x7b 'use strict' \x7d a static" {}) with
    | .ok _ s => match atLevels 40 .listItem s with
      | .ok _ t => match next t with
        | .ok _ u => decide (s.context.strict = false ∧ u.lookahead.text = "static")
        | _ => false
      | _ => false
    | _ => false) = true := by decide +kernel
  split at run
  next s hs =>
    split at run
    next n t ht =>
      split at run
      next consumed u hu =>
        have entering : (ParseState.initial "function f() \x7b 'use strict' \x7d a static" {}).Strict _ .entering :=
          ⟨rfl, rfl, .refl _, .refl _⟩
        have ahead := (opening_keeps _ _ _ entering rfl rfl _ s hs).1
        obtain ⟨hsloppy, word⟩ := of_decide_eq_true run
        obtain ⟨context, keyword⟩ := strictness_ends ahead ht hu
        exact ⟨s, t, u, n, consumed, ahead, ht, hu, hsloppy, word, context, keyword hsloppy⟩
      · cases run
    · cases run
  · cases run

end EcmaTree
