import EcmaTree.Proofs.Grammar.Parameters
import EcmaTree.Proofs.Scope
import Mathlib.Data.List.Nodup
import Mathlib.Data.List.TakeWhile

/-!
# Names of parameters

A list of parameters notes whether a name repeats. In sloppy code it stops noting that at the first name that strict
code forbids, which may be the name of the function; so all it is known to tell apart are the names before.
-/

namespace EcmaTree

/-- Does strict code forbid the name to parameters? -/
def isForbidden (name : String) : Bool := isRestricted name || isStrictReserved name

/-- Is the node a name that strict code forbids to parameters? -/
def Node.isForbidden (n : Node) : Bool := n.identifierName?.any EcmaTree.isForbidden

/-- The names that the parameters bind, in the order of the source. -/
def parameterNames (params : List Node) : List String := params.flatMap Node.boundNames

/-- The names among which repetitions are noted. In sloppy code there are none if a forbidden name stands before all
of them. -/
def checkedNames (strict forbidden : Bool) (names : List String) : List String :=
  if strict then names else if forbidden then [] else names.takeWhile (!isForbidden ·)

theorem checkedNames_sublist (strict forbidden : Bool) (names : List String) :
    (checkedNames strict forbidden names).Sublist names := by
  unfold checkedNames
  split
  · exact .refl _
  split
  · exact List.nil_sublist _
  · exact List.takeWhile_sublist _

theorem checkedNames_of_allowed {strict : Bool} {names : List String}
    (h : strict = false → ∀ name ∈ names, isForbidden name = false) :
    checkedNames strict false names = names := by
  cases strict with
  | true => rfl
  | false => exact List.takeWhile_eq_self_iff.2 fun name hname => by rw [h rfl name hname]; rfl

/-- Behind a forbidden name nothing is checked in sloppy code. -/
theorem checkedNames_append {forbidden : Bool} {names more : List String}
    (h : ¬ (forbidden = false ∧ ∀ name ∈ names, isForbidden name = false)) :
    checkedNames false forbidden (names ++ more) = checkedNames false forbidden names := by
  cases forbidden with
  | true => rfl
  | false =>
    have stops : ¬ (names.takeWhile (!isForbidden ·)).length = names.length :=
      fun hlength => h ⟨rfl, fun name hname => by
      have all := List.takeWhile_eq_self_iff.1 ((List.takeWhile_prefix _).eq_of_length hlength) name hname
      simpa using all⟩
    simp only [checkedNames, Bool.false_eq_true, if_false, List.takeWhile_append, if_neg stops]

/-- What is known of the parameters of a function that a strict parse gives back: in strict code no name repeats, and
no name that is noted does so in an `exacting` function or among parameters that are more than names. `forbidden`: is
the name of the function one that strict code forbids? -/
structure DistinctNames (strict exacting forbidden : Bool) (params : List Node) : Prop where
  inStrict : strict = true → (parameterNames params).Nodup
  noted : exacting = true ∨ params.all Node.isIdentifier = false →
    (checkedNames false forbidden (parameterNames params)).Nodup

namespace DistinctNames

variable {strict exacting exacting' forbidden forbidden' : Bool} {params : List Node}

theorem mono (h : DistinctNames strict exacting forbidden params) (hexacting : exacting' = true → exacting = true)
    (hforbidden : forbidden = true → forbidden' = true) : DistinctNames strict exacting' forbidden' params := by
  refine ⟨h.inStrict, fun h' => (h.noted (h'.imp_left hexacting)).sublist ?_⟩
  cases forbidden' with
  | true => exact List.nil_sublist _
  | false =>
    have allowed : forbidden = false := by simpa using hforbidden
    rw [allowed]

end DistinctNames

namespace Parameters

/-- What the list has noted about the names that have been added, behind the name of the function. -/
structure Notes (strict forbidden : Bool) (names : List String) (ps : Parameters) : Prop where
  names_eq : ps.names = names.reverse
  once : ps.duplicated = false → (checkedNames strict forbidden names).Nodup
  /-- A repetition is an error if the function turns out to be strict. -/
  told : ps.stricted = none → ps.duplicated = false
  /-- In sloppy code so is a forbidden name. -/
  restricted_iff : strict = false → (ps.restricted = none ↔ forbidden = false ∧
    ∀ name ∈ names, isForbidden name = false)

variable {strict forbidden : Bool} {names : List String} {ps : Parameters}

theorem notes_start (strict : Bool) (restricted : Option Offender) :
    Notes strict restricted.isSome [] { restricted } where
  names_eq := rfl
  once _ := by
    cases strict <;> cases restricted <;> exact .nil
  told _ := rfl
  restricted_iff _ := by simp

theorem Notes.add (h : Notes strict forbidden names ps) (param : Node) : Notes strict forbidden names (ps.add param) :=
  ⟨h.names_eq, h.once, h.told, h.restricted_iff⟩

theorem Notes.names_bind (h : Notes strict forbidden names ps) (name : String) :
    name :: ps.names = (names ++ [name]).reverse := by
  rw [h.names_eq, List.reverse_append]
  rfl

theorem Notes.fresh (h : Notes strict forbidden names ps) {name : String}
    (hn : ¬ ps.names.contains name = true) (hnodup : names.Nodup) :
    (names ++ [name]).Nodup := by
  have notMem : name ∉ names := by simpa [h.names_eq] using hn
  simpa using hnodup.concat notMem

theorem Notes.nodup (h : Notes strict false names ps) (hall : strict = false → ∀ name ∈ names, isForbidden name = false)
    (hdup : ps.duplicated = false) : names.Nodup := by
  have once := h.once hdup
  rwa [checkedNames_of_allowed hall] at once

/-- In strict code all names are noted. -/
theorem Notes.bind_strict (h : Notes true forbidden names ps) (offender : Offender) (name : String) :
    Notes true forbidden (names ++ [name]) (ps.bind true offender name) := by
  have known := h.names_bind name
  simp only [Parameters.bind, if_true]
  split
  · exact ⟨by split <;> exact known, nofun, nofun, nofun⟩
  next hn =>
    have once (hdup : ps.duplicated = false) := h.fresh hn (h.once hdup)
    split
    · exact ⟨known, once, nofun, nofun⟩
    · exact ⟨known, once, h.told, nofun⟩

/-- Behind a forbidden name nothing is noted any more. -/
theorem Notes.bind_behind (h : Notes false forbidden names ps) (hrestricted : ps.restricted.isSome = true)
    (name : String) :
    Notes false forbidden (names ++ [name]) { ps with names := name :: ps.names } := by
  have stops : ¬ (forbidden = false ∧ ∀ name ∈ names, isForbidden name = false) := by
    rw [← h.restricted_iff rfl]
    exact Option.isSome_iff_ne_none.1 hrestricted
  refine ⟨h.names_bind name, by rw [checkedNames_append stops]; exact h.once, h.told, fun _ => ?_⟩
  refine iff_of_false (Option.isSome_iff_ne_none.1 hrestricted) fun ⟨hforbidden, hall⟩ => ?_
  exact stops ⟨hforbidden, fun n hn => hall n (List.mem_append_left _ hn)⟩

/-- The first name that is forbidden. -/
theorem Notes.bind_first (h : Notes false false names ps) (hall : ∀ n ∈ names, isForbidden n = false) {name : String}
    (hname : isForbidden name = true) (offender : Offender) (cause : Option Cause) :
    Notes false false (names ++ [name]) { ps with names := name :: ps.names, restricted := some offender, cause } := by
  refine ⟨h.names_bind name, fun hdup => ?_, h.told, fun _ => iff_of_false nofun fun h =>
    by simpa [hname] using h.2 name⟩
  have allowed : ∀ n ∈ names, (!isForbidden n) = true := fun n hn => by rw [hall n hn]; rfl
  have same : checkedNames false false (names ++ [name]) = names := by
    simp [checkedNames, List.takeWhile_append_of_pos allowed, hname]
  rw [same]
  exact h.nodup (fun _ => hall) hdup

theorem Notes.bind_sloppy (h : Notes false forbidden names ps) (offender : Offender) (name : String) :
    Notes false forbidden (names ++ [name]) (ps.bind false offender name) := by
  simp only [Parameters.bind, Bool.false_eq_true, if_false]
  split
  next hrestricted => exact h.bind_behind hrestricted name
  next hrestricted =>
    obtain ⟨rfl, hall⟩ := (h.restricted_iff rfl).1 (by simpa using hrestricted)
    split
    next hname => exact h.bind_first hall (by rw [isForbidden, hname, Bool.true_or]) _ _
    split
    next hname => exact h.bind_first hall (by rw [isForbidden, hname, Bool.or_true]) _ _
    next hplain hreserved =>
      have allowed : ∀ n ∈ names ++ [name], isForbidden n = false :=
        List.forall_mem_append.2 ⟨hall, List.forall_mem_singleton.2 (by simp [isForbidden, hplain, hreserved])⟩
      have told : ps.restricted = none ↔ false = false ∧ ∀ n ∈ names ++ [name], isForbidden n = false :=
        iff_of_true (by simpa using hrestricted) ⟨rfl, allowed⟩
      split
      · exact ⟨h.names_bind name, nofun, nofun, fun _ => told⟩
      next hn =>
        refine ⟨h.names_bind name, fun hdup => ?_, h.told, fun _ => told⟩
        rw [checkedNames_of_allowed fun _ => allowed]
        exact h.fresh hn (h.nodup (fun _ => hall) hdup)

theorem Notes.bind (h : Notes strict forbidden names ps) (offender : Offender) (name : String) :
    Notes strict forbidden (names ++ [name]) (ps.bind strict offender name) := by
  cases strict with
  | true => exact h.bind_strict offender name
  | false => exact h.bind_sloppy offender name

/-- Adding all names that something binds. -/
theorem Notes.foldl {β : Type} {offender : β → Offender} {name : β → String} (bound : List β)
    (h : Notes strict forbidden names ps) :
    Notes strict forbidden (names ++ bound.map name)
      (bound.foldl (fun ps b => ps.bind strict (offender b) (name b)) ps) := by
  induction bound generalizing names ps with
  | nil => simpa using h
  | cons b bound ih => simpa using ih (h.bind (offender b) (name b))

/-- The list has noted what its own parameters bind. -/
structure Listed (strict forbidden : Bool) (ps : Parameters) : Prop where
  notes : Notes strict forbidden (parameterNames ps.params) ps
  simple_eq : ps.simple = ps.params.all Node.isIdentifier

theorem listed_start (strict : Bool) (restricted : Option Offender) : Listed strict restricted.isSome { restricted } :=
  ⟨notes_start strict restricted, rfl⟩

theorem bind_simple (ps : Parameters) (offender : Offender) (name : String) :
    (ps.bind strict offender name).simple = ps.simple := by
  unfold Parameters.bind
  split <;> repeat' split
  all_goals rfl

theorem foldl_bind_simple {β : Type} (offender : β → Offender) (name : β → String) (bound : List β) (ps : Parameters) :
    (bound.foldl (fun ps b => ps.bind strict (offender b) (name b)) ps).simple = ps.simple := by
  induction bound generalizing ps with
  | nil => rfl
  | cons b bound ih => rw [List.foldl_cons, ih, bind_simple]

/-- One parameter more, which binds what has been added. -/
theorem Listed.add {β : Type} {offender : β → Offender} {name : β → String} {bound : List β} {param : Node}
    (h : Listed strict forbidden ps)
    (hbound : bound.map name = param.boundNames) :
    Listed strict forbidden ((bound.foldl (fun ps b => ps.bind strict (offender b) (name b)) ps).add param) := by
  refine ⟨?_, ?_⟩
  · have names : parameterNames ((bound.foldl (fun ps b => ps.bind strict (offender b) (name b)) ps).add param).params =
        parameterNames ps.params ++ bound.map name := by
      rw [add_params, foldl_bind_params, parameterNames, List.flatMap_append, hbound]
      simp [parameterNames]
    rw [names]
    exact (h.notes.foldl bound).add param
  · simp [Parameters.add, foldl_bind_simple, foldl_bind_params, h.simple_eq]

theorem ofNodes_listed (strict : Bool) (nodes : List Node) : Listed strict false (ofNodes strict nodes) := by
  have grow (ps : Parameters) (h : Listed strict false ps) : Listed strict false (nodes.foldl (fun ps param =>
      (param.boundNames.foldl (fun ps name => ps.bind strict .binding name) ps).add param) ps) := by
    induction nodes generalizing ps with
    | nil => exact h
    | cons param nodes ih =>
      have names : param.boundNames.map (fun name => name) = param.boundNames := List.map_id' _
      exact ih _ (h.add names)
  exact grow {} (listed_start strict none)

namespace Listed

/-- Where no repetition is noted, none is among the names that sloppy code checks. -/
theorem checked (h : Listed strict forbidden ps) (hdup : ps.duplicated = false) :
    (checkedNames false forbidden (parameterNames ps.params)).Nodup := by
  have once := h.notes.once hdup
  cases strict with
  | true => exact once.sublist (checkedNames_sublist _ _ _)
  | false => exact once

/-- In a function that turned out to be strict the list is about all names. -/
theorem nodup (h : Listed strict forbidden ps) (hdup : strict = true → ps.duplicated = false)
    (hsloppy : strict = false → ps.restricted = none ∧ ps.stricted = none) : (parameterNames ps.params).Nodup := by
  cases strict with
  | true => exact h.notes.once (hdup rfl)
  | false =>
    obtain ⟨hrestricted, hstricted⟩ := hsloppy rfl
    obtain ⟨rfl, hall⟩ := (h.notes.restricted_iff rfl).1 hrestricted
    exact h.notes.nodup (fun _ => hall) (h.notes.told hstricted)

/-- What the checks behind the list tell. The body may have made the code strict. -/
theorem distinct {exacting : Bool} (inBody : Bool) (h : Listed strict forbidden ps)
    (hdup : ps.duplicated = true → strict = false ∧ exacting = false ∧ ps.simple = true)
    (hbody : inBody = true → ps.restricted = none ∧ ps.stricted = none) :
    DistinctNames (strict || inBody) exacting forbidden ps.params where
  inStrict hstrict := h.nodup (fun h => by simpa [h] using hdup) fun hsloppy => hbody (by simpa [hsloppy] using hstrict)
  noted hexacting := h.checked (by
    cases hps : ps.duplicated with
    | false => rfl
    | true =>
      obtain ⟨-, loose, simple⟩ := hdup hps
      simp [loose, ← h.simple_eq, simple] at hexacting)

end Listed

end Parameters

end EcmaTree
