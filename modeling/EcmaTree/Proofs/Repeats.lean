import EcmaTree.Proofs.Patterns

/-!
# Repeated parameters

No name repeats among the parameters of strict code, of arrow functions, of asynchronous functions and of functions
with parameters that are more than names. But in sloppy code the productions look no further than to the first name
that strict code forbids, for which the name of the function counts, too: what repeats behind it goes unnoticed.
-/

namespace EcmaTree

namespace Node

/-- If the node is a function, its parameters are told apart, where `σ` encloses it. Its body may make a function
strict, but an arrow function is as strict as the code around it. -/
def DistinctParameters (σ : Scope) (n : Node) : Prop :=
  match n.kind with
  | .function .arrow _ params .. => DistinctNames σ.strict true false params
  | .function _ name params body _ _ async =>
    DistinctNames (σ.under body.statements).strict async (name.any isForbidden) params
  | _ => True

theorem distinctParameters_of_isPlain {σ : Scope} {i : NodeInfo} {kind : Kind Node} (h : kind.isPlain = true) :
    (mk i kind).DistinctParameters σ := by
  cases kind with
  | function => cases h
  | _ => trivial

/-- What became a pattern is no function. -/
theorem distinctParameters_toPattern {σ : Scope} {n : Node} (h : n.DistinctParameters σ) :
    n.toPattern.DistinctParameters σ := by
  obtain ⟨i, kind⟩ := n
  cases kind with
  | function => exact h
  | _ => trivial

end Node

/-- A tree of the grammar that is a function tells its parameters apart. -/
theorem DerivableIn.distinctParameters {size : Nat} {σ : Scope} {n : Node} (h : DerivableIn size σ n) :
    n.DistinctParameters σ := by
  obtain ⟨s, h⟩ := h
  induction h with
  | weaken _ _ ih | operand _ ih | base _ ih | endChain _ _ ih | boundParameter _ ih | concise _ ih | item _ ih
  | complete _ _ ih | bound _ ih | drop _ ih | whole _ ih => exact ih
  | operandParameter _ ih | target _ _ _ ih => exact Node.distinctParameters_toPattern ih
  | arrow _ _ hnames => exact hnames
  | @function _ _ form _ _ _ _ _ _ hform _ _ _ hnames =>
    cases form with
    | arrow => exact absurd rfl hform
    | _ => exact hnames
  | plain hkind => exact Node.distinctParameters_of_isPlain hkind
  | _ => trivial

/-- In what a strict parse gives back no function of strict code binds a name twice with its parameters. In sloppy
code no arrow function and no asynchronous one does so before the first name that strict code forbids, nor does a
function with parameters that are more than names; but if its own name is such a name, nothing is said of them. -/
theorem parameters_distinct {source : String} {o : ParseOptions} {p : Program} (hp : parse source o = .ok p)
    (hstrict : o.tolerant = false) :
    ∀ entry ∈ p.root.walkIn .outermost, entry.2.DistinctParameters entry.1 :=
  parse_allIn hp hstrict fun _ _ => DerivableIn.distinctParameters

theorem parameters_distinct_nested :
    ∃ p, parse "function f(a, a) {} async (b, [c, ...d]) => class { e(g = b, {h}) {} }" {} = .ok p ∧
      ∀ entry ∈ p.root.walkIn .outermost, entry.2.DistinctParameters entry.1 := by
  have h : (parse "function f(a, a) {} async (b, [c, ...d]) => class { e(g = b, {h}) {} }"
    {}).toOption.isSome = true := by
    decide +kernel
  obtain ⟨p, hp⟩ := exists_ok_of_isSome h
  exact ⟨p, hp, parameters_distinct hp rfl⟩

/-- Behind `eval` an arrow function binds a name twice. -/
theorem arrow_parameter_repeated : ∃ p, parse "(eval,a,a)=>1" {} = .ok p ∧
    ∃ entry ∈ p.root.walk, entry.2.kind.isArrow = true ∧ ¬ (parameterNames entry.2.kind.params).Nodup := by
  have h : ((parse "(eval,a,a)=>1" {}).toOption.any fun p => p.root.walk.any fun entry =>
      entry.2.kind.isArrow && !decide (parameterNames entry.2.kind.params).Nodup) = true := by decide +kernel
  obtain ⟨p, hp, h⟩ := exists_ok_of_any h
  exact ⟨p, hp, by simpa using h⟩

end EcmaTree
