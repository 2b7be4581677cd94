import EcmaTree.Proofs.Derivation.Nodes

/-!
# Patterns

The parameters of a function are binding patterns, made of names and nothing else. Those of an arrow function were read
as expressions and became patterns as a whole; but what stands where a name should may be any other expression, for the
arguments of `async` and a group that ends with a comma are not asked what they may bind.
-/

namespace EcmaTree

/-! ## What patterns are made of -/

namespace Node

/-- What stands for a member of an object pattern: its value, if it has one. -/
def memberValue : Node → Node
  | .mk _ (.property _ _ value ..) => value
  | n => n

theorem sizeOf_memberValue (n : Node) : sizeOf n.memberValue ≤ sizeOf n := by
  obtain ⟨i, kind⟩ := n
  cases kind with
  | property => simp [memberValue]; omega
  | _ => exact Nat.le_refl _

end Node

namespace Kind

/-- The parts of a pattern, and those of an expression that would be parts of it as a pattern. -/
def patternParts : Kind Node → List Node
  | .array elements | .arrayPattern elements => present elements
  | .object members | .objectPattern members => members.map Node.memberValue
  | .spread argument | .rest argument => [argument]
  | .assignment _ left _ | .assignmentPattern left _ => [left]
  | _ => []

theorem sizeOf_lt_of_mem_patternParts {k : Kind Node} {c : Node} (h : c ∈ k.patternParts) : sizeOf c < sizeOf k := by
  have members {ms : List Node} (h : c ∈ ms.map Node.memberValue) : sizeOf c < sizeOf ms := by
    obtain ⟨m, hm, rfl⟩ := List.mem_map.1 h
    exact Nat.lt_of_le_of_lt m.sizeOf_memberValue (Node.sizeOf_list hm)
  cases k with
  | array | arrayPattern => have := Node.sizeOf_present h; simp; omega
  | object | objectPattern => have := members h; simp; omega
  | spread | rest => obtain rfl := List.mem_singleton.1 h; simp
  | assignment | assignmentPattern => obtain rfl := List.mem_singleton.1 h; simp; omega
  | _ => cases h

/-- Is the kind one of a binding pattern? -/
def isBinding : Kind Node → Bool
  | .identifier _ | .arrayPattern _ | .objectPattern _ | .rest _ | .assignmentPattern .. => true
  | _ => false

/-- Is the kind none that would be another one as a pattern? -/
def isConverted : Kind Node → Bool
  | .array _ | .object _ | .spread _ | .assignment .. => false
  | _ => true

theorem isConverted_of_isBinding {k : Kind Node} (h : k.isBinding = true) : k.isConverted = true := by
  cases k <;> first | rfl | cases h

end Kind

namespace Node

/-- Are all parts of the pattern of kinds that are allowed? -/
def isPatternOf (allowed : Kind Node → Bool) (n : Node) : Bool :=
  allowed n.kind && n.kind.patternParts.attach.all fun ⟨c, _⟩ => c.isPatternOf allowed
termination_by sizeOf n
decreasing_by
  next h =>
    have := Kind.sizeOf_lt_of_mem_patternParts h
    obtain ⟨i, kind⟩ := n
    simp only [kind_mk, mk.sizeOf_spec] at this ⊢
    omega

variable {allowed allowed' : Kind Node → Bool} {n : Node}

theorem isPatternOf_iff : n.isPatternOf allowed = true ↔
    allowed n.kind = true ∧ ∀ c ∈ n.kind.patternParts, c.isPatternOf allowed = true := by
  rw [isPatternOf]
  simp

/-- A node that has no parts is all there is. -/
theorem isPatternOf_leaf (h : allowed n.kind = true) (hn : n.kind.patternParts = []) : n.isPatternOf allowed = true :=
  isPatternOf_iff.2 ⟨h, by simp [hn]⟩

theorem isPatternOf_mono (h : ∀ k, allowed k = true → allowed' k = true) (n : Node)
    (hn : n.isPatternOf allowed = true) :
    n.isPatternOf allowed' = true := by
  obtain ⟨hkind, hparts⟩ := isPatternOf_iff.1 hn
  exact isPatternOf_iff.2 ⟨h _ hkind, fun c hc => isPatternOf_mono h c (hparts c hc)⟩
termination_by sizeOf n
decreasing_by
  obtain ⟨i, kind⟩ := n
  have := Kind.sizeOf_lt_of_mem_patternParts hc
  simp only [kind_mk, mk.sizeOf_spec] at this ⊢
  omega

/-- Is the node something that may stand among the members of an object? -/
def isMember (n : Node) : Bool :=
  match n.kind with
  | .property .. | .spread _ => true
  | _ => false

/-- The members of an object stand for the same ones as patterns. -/
theorem memberValue_membersToPatterns {members : List Node} (h : ∀ m ∈ members, m.isMember = true) :
    (membersToPatterns members).map memberValue = (members.map memberValue).map toPattern := by
  induction members with
  | nil => rfl
  | cons m members ih =>
    obtain ⟨hm, hmembers⟩ := List.forall_mem_cons.1 h
    obtain ⟨i, kind⟩ := m
    cases kind with
    | property | spread => simp [membersToPatterns, memberValue, toPattern, kindToPattern, ← ih hmembers]
    | _ => cases hm

end Node

/-! ## Patterns of the grammar -/

namespace Symbol

/-- The part of a pattern that a tree of the symbol stands for. -/
def part : Symbol → Node → Node
  | .covered .member _, n | .memberPattern, n | .memberParameter, n => n.memberValue
  | _, n => n

/-- Does the symbol stand for a binding pattern? -/
def isBinding : Symbol → Bool
  | .pattern | .memberPattern | .defaultedName => true
  | _ => false

/-- Does the cover say something about trees of the symbol? -/
def isCovered : Symbol → Bool
  | .covered .. => true
  | _ => false

/-- Does the symbol stand for an expression that has become a pattern? -/
def isParameter : Symbol → Bool
  | .parameter | .memberParameter => true
  | _ => false

end Symbol

namespace Derives

variable {size : Nat} {σ : Scope} {s : Symbol} {n : Node} {form : Form} {p : Prospect}

open Node (isPatternOf_iff isPatternOf_leaf)

theorem isBinding (h : Derives size σ s n) (hs : s.isBinding = true) :
    (s.part n).isPatternOf Kind.isBinding = true := by
  induction h with
  | namePattern => exact isPatternOf_leaf rfl rfl
  | shorthandPattern => exact isPatternOf_leaf rfl rfl
  | arrayPattern _ ih => exact isPatternOf_iff.2 ⟨rfl, fun c hc => ih c hc rfl⟩
  | objectPattern _ ih => exact isPatternOf_iff.2 ⟨rfl, List.forall_mem_map.2 fun m hm => ih m hm rfl⟩
  | rest _ ih | restMember _ ih => exact isPatternOf_iff.2 ⟨rfl, List.forall_mem_singleton.2 (ih rfl)⟩
  | assignmentPattern _ _ ih | defaultedName _ _ _ ih =>
    exact isPatternOf_iff.2 ⟨rfl, List.forall_mem_singleton.2 (ih rfl)⟩
  | propertyPattern _ _ _ ih | initializedPattern _ _ _ ih => exact ih rfl
  | _ => cases hs

theorem isMember (h : Derives size σ (.member p) n) : n.isMember = true := by
  generalize hs : Symbol.member p = symbol at h
  induction h generalizing p with
  | weaken _ _ ih =>
    cases hs
    exact ih rfl
  | _ => first | rfl | cases hs

/-- An object whose members have become patterns. -/
theorem object_isConverted {i : NodeInfo} {members : List Node} (h : ∀ m ∈ members, Derives size σ (.member p) m)
    (hmembers : ∀ m ∈ members, m.memberValue.toPattern.isPatternOf Kind.isConverted = true) :
    (Node.mk i (.object members)).toPattern.isPatternOf Kind.isConverted = true := by
  refine isPatternOf_iff.2 ⟨rfl, ?_⟩
  rw [Node.toPattern, Node.kindToPattern, Node.kind_mk, Kind.patternParts,
    Node.memberValue_membersToPatterns fun m hm => (h m hm).isMember]
  simpa only [List.forall_mem_map] using hmembers

/-- What became a pattern has become one as a whole. -/
theorem toPattern_isConverted (h : Derives size σ s n) (hs : s.isCovered = true) :
    (s.part n).toPattern.isPatternOf Kind.isConverted = true := by
  induction h with
  | @weaken _ form _ _ _ _ _ ih => cases form <;> exact ih rfl
  | operand _ ih | base _ ih | endChain _ _ ih | property _ _ _ ih | method _ _ _ _ ih => exact ih rfl
  | array _ ih =>
    refine isPatternOf_iff.2 ⟨rfl, ?_⟩
    rw [Symbol.part, Node.toPattern, Node.kindToPattern, Node.kind_mk, Kind.patternParts,
      Node.present_elementsToPatterns]
    · exact List.forall_mem_map.2 fun m hm => ih m hm rfl
    all_goals nofun
  | object h ih => exact object_isConverted h fun m hm => ih m hm rfl
  | objectWithMethod _ h ih => exact object_isConverted h fun m hm => ih m hm rfl
  | spread _ ih | spreadMember _ ih | compound _ _ _ _ ih =>
    exact isPatternOf_iff.2 ⟨rfl, List.forall_mem_singleton.2 (ih rfl)⟩
  | assignment _ _ _ ih =>
    refine isPatternOf_iff.2 ⟨rfl, List.forall_mem_singleton.2 ?_⟩
    rw [Node.toPattern_toPattern]
    exact ih rfl
  | initialized _ hleft =>
    obtain ⟨_, hname⟩ := Option.isSome_iff_exists.1 hleft
    obtain ⟨i, rfl⟩ := Node.eq_identifier hname
    exact isPatternOf_iff.2 ⟨rfl, List.forall_mem_singleton.2 (isPatternOf_leaf rfl rfl)⟩
  | _ => first | exact isPatternOf_leaf rfl rfl | cases hs

/-- A parameter of an arrow function holds nothing that would be another node as a pattern. -/
theorem isConverted (h : Derives size σ s n) (hs : s.isParameter = true) :
    (s.part n).isPatternOf Kind.isConverted = true := by
  induction h with
  | operandParameter h => exact h.toPattern_isConverted rfl
  | boundParameter h => exact Node.isPatternOf_mono (fun _ => Kind.isConverted_of_isBinding) _ (h.isBinding rfl)
  | propertyParameter _ _ _ ih => exact ih rfl
  | restParameter _ ih => exact isPatternOf_iff.2 ⟨rfl, List.forall_mem_singleton.2 (ih rfl)⟩
  | yieldParameter _ hn _ ih =>
    obtain ⟨-, hparts⟩ := isPatternOf_iff.1 (ih rfl)
    exact isPatternOf_iff.2 ⟨rfl, by simpa [Symbol.part, hn, Kind.patternParts, Node.withKind] using hparts⟩
  | _ => cases hs

end Derives

/-! ## Parameters -/

namespace Kind

/-- The parameters of a function. -/
def params {α : Type} : Kind α → List α
  | .function _ _ params .. => params
  | _ => []

theorem params_of_isPlain {α : Type} {k : Kind α} (h : k.isPlain = true) : k.params = [] := by
  cases k <;> first | rfl | cases h

/-- Is the kind that of an arrow function? -/
def isArrow {α : Type} : Kind α → Bool
  | .function .arrow .. => true
  | _ => false

end Kind

namespace Node

/-- The parameters of the node are patterns; they are binding patterns if it is no arrow function. -/
def BindsParams (n : Node) : Prop :=
  ∀ param ∈ n.kind.params, param.isPatternOf Kind.isConverted = true ∧
    (n.kind.isArrow = false → param.isPatternOf Kind.isBinding = true)

/-- What became a pattern is no function. -/
theorem bindsParams_toPattern {n : Node} (h : n.BindsParams) : n.toPattern.BindsParams := by
  obtain ⟨i, kind⟩ := n
  cases kind with
  | function => exact h
  | _ => nofun

end Node

theorem Derivable.bindsParams {size : Nat} {n : Node} (h : Derivable size n) : n.BindsParams := by
  obtain ⟨σ, s, h⟩ := h
  induction h with
  | weaken _ _ ih | operand _ ih | base _ ih | endChain _ _ ih | boundParameter _ ih | concise _ ih | item _ ih
  | complete _ _ ih | bound _ ih | drop _ ih | whole _ ih => exact ih
  | operandParameter _ ih | target _ _ _ ih => exact Node.bindsParams_toPattern ih
  | yieldParameter => nofun
  | arrow hparams => exact fun param hparam => ⟨(hparams param hparam).isConverted rfl, nofun⟩
  | function _ _ hparams =>
    exact fun param hparam => ⟨(hparams param hparam).boundParameter.isConverted rfl,
      fun _ => (hparams param hparam).isBinding rfl⟩
  | plain hkind => simp [Node.BindsParams, Kind.params_of_isPlain hkind]
  | _ => nofun

/-- The parameters of a function that a strict parse gives back are binding patterns. Those of an arrow function are
patterns, too, but made of any expressions that cannot be patterns themselves. -/
theorem parameters_bind {source : String} {o : ParseOptions} {p : Program} (hp : parse source o = .ok p)
    (hstrict : o.tolerant = false) :
    ∀ entry ∈ p.root.walk, ∀ param ∈ entry.2.kind.params, param.isPatternOf Kind.isConverted = true ∧
      (entry.2.kind.isArrow = false → param.isPatternOf Kind.isBinding = true) :=
  parse_all hp hstrict fun _ => Derivable.bindsParams

theorem parameters_bind_patterns : ∃ p, parse "(function ([a, ...b], {c, d: e = 1}) {})" {} = .ok p ∧
    ∀ entry ∈ p.root.walk, ∀ param ∈ entry.2.kind.params, param.isPatternOf Kind.isConverted = true ∧
      (entry.2.kind.isArrow = false → param.isPatternOf Kind.isBinding = true) := by
  have h : (parse "(function ([a, ...b], {c, d: e = 1}) {})" {}).toOption.isSome = true := by decide +kernel
  obtain ⟨p, hp⟩ := exists_ok_of_isSome h
  exact ⟨p, hp, parameters_bind hp rfl⟩

/-- The arguments of `async` become parameters whatever they are. -/
theorem parameter_called : ∃ p, parse "async(f())=>1" {} = .ok p ∧
    ∃ entry ∈ p.root.walk, ∃ param ∈ entry.2.kind.params, param.isPatternOf Kind.isBinding = false := by
  have h : ((parse "async(f())=>1" {}).toOption.any fun p => p.root.walk.any fun entry =>
      entry.2.kind.params.any fun param => !param.isPatternOf Kind.isBinding) = true := by decide +kernel
  obtain ⟨p, hp, h⟩ := exists_ok_of_any h
  exact ⟨p, hp, by simpa using h⟩

end EcmaTree
