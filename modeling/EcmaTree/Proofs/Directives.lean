import EcmaTree.Proofs.Restores

/-!
# Directives

A body begins with directives: statements that consist of one string each. They are read one after the other until
something else comes, or until one of them is the empty string, which is taken for the end of the directives
(`directive_behind_empty`). Whatever they are, expressions leave the context as it is, also in tolerant mode; so the
code is strict behind the directives just if it was so before, or one of those that were read says so
(`prologue_tells`).
-/

namespace EcmaTree

/-- What stands between the quotes of the string that the statement consists of. -/
def Node.stringText? (n : Node) : Option String :=
  match n.kind with
  | .expressionStatement e _ =>
    match e.kind with
    | .literal (.string _) raw => some (String.ofList (raw.toList.drop 1).dropLast)
    | _ => none
  | _ => none

/-- Is the statement a string that is not empty? -/
def Node.isDirective (n : Node) : Bool := n.stringText?.any (· ≠ "")

namespace Parse

open Judgement (onSuccess)

variable {nested : Nested}

theorem atLevels_opens : ∀ levels, Opens (atLevels levels .assignment)
  | 0 => fun _ _ _ _ h => by cases h
  | _ + 1 => assignment_opens

/-- A statement that begins with a string is a directive just if it is that string, and the string is not empty. -/
theorem directive_stringText {s : ParseState} (h : Opens (nested .assignment)) (hs : s.lookahead.isString = true) :
    onSuccess.Ensures (directive nested) s fun r _ => r.2 = r.1.stringText?.filter (· ≠ "") := by
  refine .ahead (.mark (Judgement.bind (expression_opens h s hs) fun e t he => behind
    fun _ u => Judgement.bind .finish ?_))
  rintro _ v ⟨rfl, -⟩
  refine onSuccess.ofPure ?_
  obtain ⟨i, kind⟩ := e
  by_cases hl : (Node.mk i kind).isLiteral = true
  · obtain ⟨value, legacy, hlexeme⟩ := Token.isString_iff.1 hs
    obtain rfl : kind = .literal (.string s.lookahead.text) s.lookahead.raw := by
      rw [show kind = literalOf s.lookahead from he hl, literalOf, hlexeme]
    simp only [directiveText?, Node.stringText?, Node.kind, Option.filter_some, decide_not,
      Bool.not_eq_true', decide_eq_false_iff_not]
    by_cases hempty : String.ofList (s.lookahead.raw.toList.drop 1).dropLast = ""
    · rw [hempty]
      rfl
    · rw [if_neg (by simpa [String.isEmpty_iff] using hempty), if_pos hempty]
  · have none : directiveText? s.lookahead (.mk i kind) = none := by
      cases hd : directiveText? s.lookahead (.mk i kind) with
      | none => rfl
      | some text => exact absurd (isLiteral_of_directiveText? hd) hl
    rw [none]
    cases kind <;> first | rfl | exact absurd rfl hl

theorem useStrict_strict (first : Token) (legacy : Option Token) (s : ParseState) :
    onSuccess.Ensures (useStrict first legacy) s fun _ t =>
    t.context = { s.context with strict := true } := by
  have allowed : Restores (do
      unless (← context).allowStrictDirective do tolerateWith first .strictDirectiveNotSimple) :=
    .bind .reading fun _ => .ite (.pure _) (.tolerateWith _ _)
  refine onSuccess.ofBind (.modifying (fun _ _ _ => rfl) ?_)
  cases legacy with
  | none => exact allowed _
  | some t => exact Restores.bind (.tolerateWith _ _) (fun _ => allowed) _

/-- Since `s` the statements have been read, last one first. They have made the code strict if one of them says so,
and have changed the context no further. -/
def Prologue (s : ParseState) (statements : List Node) (t : ParseState) : Prop :=
  t.context = { s.context with strict := s.context.strict || statements.any (·.stringText? == some "use strict") }

/-- One statement more, behind which the code is strict if it was so before or the statement says so. -/
theorem Prologue.cons {s t u : ParseState} {statements : List Node} {n : Node} (h : Prologue s statements t)
    (hu : u.context = { t.context with strict := t.context.strict || n.stringText? == some "use strict" }) :
    Prologue s (n :: statements) u := by
  rw [Prologue, hu, h, List.any_cons, Bool.or_comm (n.stringText? == _), ← Bool.or_assoc]

theorem prologue_step {levels : Nat} {s t : ParseState} {statements : List Node} {legacy : Option Token}
    (h : Prologue s statements t)
    (hall : ∀ n ∈ statements, n.isDirective = true) :
    onSuccess.Ensures (do
      let first ← ahead
      if !first.isString then return .done (statements, legacy)
      let (statement, text?) ← directive (atLevels levels)
      match text? with
      | none => return .done (statement :: statements, legacy)
      | some text =>
        if text == "use strict" then
          useStrict first legacy
          return .more (statement :: statements, legacy)
        else
          let legacy := legacy <|> if first.isLegacy then some first else none
          return .more (statement :: statements, legacy) : Parse (Progress (List Node × Option Token))) t
    (Progress.Holds (fun r u => Prologue s r.1 u ∧ ∀ n ∈ r.1, n.isDirective = true) fun r u => Prologue s r.1 u ∧
      (∀ n ∈ r.1.tail, n.isDirective = true) ∧ (u.lookahead.isString = false ∨ ∃ n ∈ r.1.head?,
        n.isDirective = false)) := by
  refine .ahead (.ite (fun hs => onSuccess.ofPure ⟨h, fun n hn => hall n (List.mem_of_mem_tail hn),
    .inl (by simpa using hs)⟩) fun hs => ?_)
  have hs : t.lookahead.isString = true := by simpa using hs
  refine Judgement.bind (onSuccess.and (directive_restores (restoring levels) t)
    (directive_stringText (atLevels_opens levels) hs)) ?_
  rintro ⟨statement, text?⟩ u ⟨hu, htext⟩
  cases text? with
  | none =>
    have other (text : String) (hne : text ≠ "") : statement.stringText? ≠ some text := fun heq =>
      Option.filter_eq_none_iff.1 (Eq.symm htext) text heq (decide_eq_true hne)
    have ends : statement.isDirective = false := by
      cases hst : statement.stringText? with
      | none => simp [Node.isDirective, hst]
      | some text => simpa [Node.isDirective, hst] using fun hne => other text hne hst
    refine onSuccess.ofPure ⟨h.cons ?_, hall, .inr ⟨statement, rfl, ends⟩⟩
    rw [hu, beq_false_of_ne (other _ (by decide)), Bool.or_false]
  | some text =>
    obtain ⟨hst, hne⟩ := Option.filter_eq_some_iff.1 (Eq.symm htext)
    have all : ∀ n ∈ statement :: statements, n.isDirective = true :=
      List.forall_mem_cons.2 ⟨by rw [Node.isDirective, hst]; exact hne, hall⟩
    refine .ite (fun hstrict => ?_) fun hsloppy => onSuccess.ofPure ⟨h.cons ?_, all⟩
    · refine Judgement.bind (useStrict_strict t.lookahead legacy u) fun _ v hv => onSuccess.ofPure ⟨h.cons ?_, all⟩
      rw [hv, hu, hst, eq_of_beq hstrict, beq_self_eq_true, Bool.or_true]
    · rw [hu, hst, show (some text == some "use strict") = false by simpa using hsloppy, Bool.or_false]

/-- Statements of one string each are read one after the other, to the end of their run or to the first empty string
among them. Behind them the code is strict just if it was strict before, or one that was read says `use strict`. -/
theorem prologue_tells {levels : Nat} {s t : ParseState} {statements : List Node}
    (h : prologue (atLevels levels) s = .ok statements t) :
    t.context = { s.context with strict := s.context.strict || statements.any (·.stringText? == some "use strict") } ∧
    (∀ n ∈ statements.dropLast, n.isDirective = true) ∧
    (t.lookahead.isString = false ∨ ∃ n ∈ statements.getLast?, n.isDirective = false) := by
  have run : onSuccess.Ensures (prologue (atLevels levels)) s fun statements t => Prologue s statements.reverse t ∧
      (∀ n ∈ statements.reverse.tail, n.isDirective = true) ∧
        (t.lookahead.isString = false ∨ ∃ n ∈ statements.reverse.head?, n.isDirective = false) :=
    Judgement.bind (Judgement.Ensures.loop (I := fun r t => Prologue s r.1 t ∧ ∀ n ∈ r.1,
      n.isDirective = true) ⟨by simp [Prologue], by simp⟩
      fun _ _ h => prologue_step h.1 h.2) fun _ _ h => onSuccess.ofPure (by simpa using h)
  obtain ⟨hcontext, hall, hend⟩ := run _ _ h
  refine ⟨by simpa [Prologue] using hcontext, fun n hn => hall n ?_, by simpa using hend⟩
  rw [List.tail_reverse]
  exact List.mem_reverse.2 hn

/-- What the statements say at the beginning of a source, and whether the code is strict in front of them and behind
them. -/
def prologueOf (levels : Nat) : Parse (Bool × List (Option String) × Bool) := do
  opening
  let before ← isStrict
  let statements ← prologue (atLevels levels)
  return (before, statements.map (·.stringText?), ← isStrict)

theorem prologue_tells_second : ∃ s statements t, prologue (atLevels 16) s = .ok statements t ∧
    s.context.strict = false ∧ statements.map (·.stringText?) = [some "a", some "use strict"] ∧
      t.context.strict = true ∧
    t.context = { s.context with strict := s.context.strict || statements.any (·.stringText? == some "use strict") } ∧
    (∀ n ∈ statements.dropLast, n.isDirective = true) ∧
    (t.lookahead.isString = false ∨ ∃ n ∈ statements.getLast?, n.isDirective = false) := by
  have run : (prologueOf 16).run' (.initial "'a'\n'use strict';b" {}) = some (false,
    [some "a", some "use strict"], true) := by
    decide +kernel
  obtain ⟨u, hrun⟩ := eq_ok_of_run' run
  obtain ⟨_, s, -, hrun⟩ := bind_eq_ok.1 hrun
  obtain ⟨statements, t, hprologue, hrun⟩ := bind_eq_ok.1 (show (prologue (atLevels 16) >>= _) s = _ from hrun)
  injection hrun with hfound _
  injection hfound with hbefore hfound
  injection hfound with htexts hafter
  exact ⟨s, statements, t, hprologue, hbefore, htexts, hafter, prologue_tells hprologue⟩

end Parse

/-- Behind an empty string `use strict` is not heard. -/
theorem directive_behind_empty : ∃ p, parse "'';'use strict';with(a)b" {} = .ok p ∧
    p.body.map (·.stringText?) = [some "", some "use strict", none] ∧ ∃ n ∈ p.body,
      n.kind.typeName = "WithStatement" := by
  have h : ((parse "'';'use strict';with(a)b" {}).toOption.any fun p =>
      p.body.map (·.stringText?) == [some "", some "use strict", none] &&
        p.body.any (·.kind.typeName == "WithStatement")) = true := by
    decide +kernel
  obtain ⟨p, hp, h⟩ := exists_ok_of_any h
  exact ⟨p, hp, by simpa using h⟩

end EcmaTree
