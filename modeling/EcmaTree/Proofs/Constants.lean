import EcmaTree.Proofs.Grammar.Program
import EcmaTree.Proofs.Success

/-!
# What stays as it is

No production changes the dialect or the bound with which the parse began, wherever it stands and whatever it reads.
-/

namespace EcmaTree

open Parse

namespace ParseState

variable {s t : ParseState}

/-- The dialect and the bound are those with which the parse began. -/
def constants (s : ParseState) : Dialect × Nat := (s.dialect, s.bound)

theorem Rests.constants (h : s.Rests t) : t.constants = s.constants := by
  obtain ⟨_, _, _, _, _, rfl, _⟩ := h
  rfl

theorem Advances.constants (h : s.Advances t) : t.constants = s.constants := by
  obtain ⟨_, _, _, _, _, _, _, rfl⟩ := h
  rfl

theorem PassesOver.constants (h : s.PassesOver t) : t.constants = s.constants := by
  obtain ⟨u, hu, rfl⟩ := h
  exact hu.constants

end ParseState

namespace Constants

open Judgement

variable {α : Type}

theorem scan_constants (action : Scan α) (s : ParseState) :
    onSuccess.Ensures (scan action) s fun _ t => t.constants = s.constants := by
  rintro a t h
  unfold scan at h
  split at h <;> cases h
  rfl

/-- A slash may be read again wherever the parse stands. -/
theorem regex_constants (s : ParseState) : onSuccess.Ensures Parse.regex s fun _ t => t.constants = s.constants := by
  refine onSuccess.ofBind (.modifying (fun _ _ _ => rfl) (Judgement.bind .skipTrivia ?_))
  rintro _ _ ⟨regions, errors, -, rfl⟩
  refine Judgement.bind (scan_constants _ _) fun token t ht => ?_
  refine onSuccess.ofBind (.modifying (fun _ _ _ => rfl) (Judgement.bind .skip fun _ u hu => onSuccess.ofPure ?_))
  exact hu.constants.trans ht

/-- What productions keep, whatever they read and wherever they stand. -/
def contract : Contract where
  toJudgement := .onSuccess
  Stands _ _ := True
  Steps s t := t.constants = s.constants
  Read s t := t.constants = s.constants
  Later s t := t.constants = s.constants
  Good _ _ _ := True
  Firm _ _ _ := True
  Past _ _ := True
  Tells _ _ _ := True
  Escapes _ := True
  Initial _ := True
  Opened _ := True
  steps_trans h h' := h'.trans h
  steps_of_rests h := h.constants
  steps_of_read h := h
  read_of_steps h h' := h'.trans h
  read_later h h' := h'.trans h
  later_of_steps h := h
  stands_of_rests _ _ := trivial
  entering_of_inside _ := trivial
  good_steps _ _ := trivial
  good_from _ _ := trivial
  firm_later _ _ := trivial
  firm_from _ _ := trivial
  good_of_firm _ := trivial
  firm_of_read _ _ := trivial
  firm_of_not_arrow _ _ := trivial
  firm_of_identifier _ _ := trivial
  firm_toPattern _ := trivial
  firm_child _ _ := trivial
  firm_parameter _ _ _ _ := trivial
  firm_yield _ _ _ := trivial
  good_placeholder _ _ _ := trivial
  good_escaped _ _ _ := trivial
  tells_of_rests _ _ _ := trivial
  tells_steps _ _ := trivial
  ofNext _ := onSuccess.mono .next fun _ _ ⟨hc, ht⟩ => ⟨hc, trivial, ht.constants, fun _ => ht.constants,
    trivial, fun _ _ => trivial⟩
  ofClose _ _ _ _ := onSuccess.mono .skip fun _ _ ht => ⟨trivial, ht.constants, trivial⟩
  ofRegex {s} _ _ := onSuccess.mono (regex_constants s) fun _ _ ht => ⟨trivial, ht, trivial⟩
  ofTrail _ := .modifying (fun _ _ _ => rfl) ⟨trivial, rfl⟩
  ofFinish {m base s _ _} _ hread _ _ _ _ := by
    refine onSuccess.mono .finish ?_
    rintro n _ ⟨rfl, rfl⟩
    have same (record : Record) :
        ParseState.constants (ParseState.view { s with finished := s.finished + 1, record } m) =
        (s.view m).constants := by cases m <;> rfl
    exact ⟨trivial, rfl, same _, (same _).trans hread, rfl, trivial, fun _ => trivial⟩
  ofSeparator _ := onSuccess.mono onSuccess.expectSeparator fun _ _ ht => ⟨trivial, by
    rcases ht with ⟨-, u, hu, ht⟩ | ht
    · exact ht.constants.trans hu.constants
    · exact ht.constants⟩
  ofEndDoWhile _ := onSuccess.mono onSuccess.endDoWhile fun _ _ ht => ⟨trivial, by
    rcases ht with ⟨-, u, hu, rfl | ⟨-, ht⟩⟩ | ⟨-, ht⟩
    · exact hu.constants
    · exact ht.constants.trans hu.constants
    · exact ht.constants⟩
  ofMissingParen _ _ hnone hsome := by
    refine Judgement.bind onSuccess.missingParen ?_
    rintro _ _ (⟨rfl, rfl⟩ | ⟨-, u, n, hu, rfl, -, rfl⟩)
    · exact hnone
    · exact hsome n _ trivial hu.constants trivial
  ofStartJsx _ _ _ := by
    refine onSuccess.mono .startJsx ?_
    rintro _ _ rfl
    exact ⟨trivial, rfl⟩
  ofSkipTrivia _ _ := by
    refine onSuccess.mono .skipTrivia fun _ _ ht => ⟨trivial, ?_, ht.clear⟩
    obtain ⟨_, _, _, rfl⟩ := ht
    rfl
  ofNextJsx _ := by
    refine onSuccess.mono .nextJsx ?_
    rintro _ _ ⟨_, _, _, _, _, rfl⟩ _
    exact ⟨trivial, rfl, fun _ _ _ => trivial⟩
  ofNextJsxText _ := by
    refine onSuccess.mono .nextJsxText ?_
    rintro _ _ ⟨_, _, _, _, _, _, _, rfl⟩
    exact ⟨trivial, rfl, trivial⟩
  ofEmptyExpression _ := by
    refine onSuccess.mono .jsxEmptyExpression ?_
    rintro _ _ ⟨_, ⟨_, _, _, rfl⟩, _, rfl⟩
    exact ⟨trivial, rfl, trivial⟩
  ofSkipInside _ := onSuccess.mono .skip fun _ _ ht => ⟨trivial, ht.constants⟩
  ofReenterJsx _ _ _ := by
    refine onSuccess.mono .reenterJsx ?_
    rintro _ _ ⟨_, _, ⟨_, _, _, _, _, rfl⟩, _, rfl⟩
    exact ⟨trivial, rfl⟩
  ofOpening _ := onSuccess.mono .opening fun _ _ _ => ⟨trivial, trivial⟩
  read_of_end _ h _ _ := h

/-- An operand between binary operators. -/
theorem exponentiation_reads (levels : Nat) : contract.Reads (exponentiation (atLevels levels)) :=
  Contract.exponentiation_reads (Contract.atLevels_sound levels)

end Constants

end EcmaTree
