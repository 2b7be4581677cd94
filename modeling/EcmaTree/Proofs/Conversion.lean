import EcmaTree.Proofs.Patterns

/-!
# Expressions become patterns as a whole

An expression becomes a pattern in kind only: the walk meets the same nodes in the same order, and what is known of each
of them stays. Nothing is converted by halves either: wherever the pattern has a target, however deep, no array, object,
spread or assignment is left. Two things are taken as they come and must be in order before, the patterns that already
stand in the expression and members of objects that are no members.
-/

namespace EcmaTree

/-- Is the kind one that an array, an object, a spread or an assignment has as a pattern? -/
def Kind.isPattern : Kind Node → Bool
  | .arrayPattern _ | .objectPattern _ | .rest _ | .assignmentPattern .. => true
  | _ => false

namespace Node

/-! ## The same walk -/

/-- What the walk knows of the nodes besides what they say. -/
def skeleton (depth : Nat) (n : Node) : List (Nat × NodeInfo) :=
  (n.walkFrom depth).map fun entry => (entry.1, entry.2.info)

theorem skeleton_mk (depth : Nat) (info : NodeInfo) (kind : Kind Node) :
    (mk info kind).skeleton depth = (depth, info) :: kind.children.flatMap (skeleton (depth + 1)) := by
  rw [skeleton, walkFrom_eq, List.map_cons, List.map_flatMap]
  rfl

theorem skeleton_toPattern (depth : Nat) (n : Node) : n.toPattern.skeleton depth = n.skeleton depth := by
  obtain ⟨info, kind⟩ := n
  rw [toPattern, skeleton_mk, skeleton_mk]
  congr 1
  cases kind with
  | spread argument =>
    simp only [kindToPattern, Kind.children, List.flatMap_singleton]
    exact skeleton_toPattern (depth + 1) argument
  | array elements =>
    simp only [kindToPattern, Kind.children, present_elementsToPatterns, List.flatMap_map]
    apply List.flatMap_congr
    intro element helement
    exact skeleton_toPattern (depth + 1) element
  | object members =>
    simp only [kindToPattern, Kind.children]
    rw [membersToPatterns_eq, List.flatMap_assoc]
    apply List.flatMap_congr
    intro member hmember
    obtain ⟨i, said⟩ := member
    cases said with
    | spread argument =>
      have inner := skeleton_toPattern (depth + 2) argument
      simp [membersToPatterns, skeleton_mk, Kind.children, inner]
    | property kind key value computed method shorthand =>
      have inner := skeleton_toPattern (depth + 2) value
      simp [membersToPatterns, skeleton_mk, Kind.children, inner]
    | _ => simp [membersToPatterns]
  | assignment operator left right =>
    simp only [kindToPattern, Kind.children, List.flatMap_cons]
    rw [skeleton_toPattern (depth + 1) left]
  | _ => rfl
termination_by sizeOf n
decreasing_by
  · have := sizeOf_present helement
    simp
    omega
  · have := sizeOf_list hmember
    simp at this ⊢
    omega
  · have := sizeOf_list hmember
    simp at this ⊢
    omega
  · simp
    omega
  · simp
    omega

/-! ## Targets -/

/-- The node stands where the pattern has a target: it is the pattern itself, an element, a member or the value of a
property of it, what the rest goes to, or what has a default value, or stands in such a node in the same way. -/
inductive TargetOf (root : Node) : Node → Prop
  | root : TargetOf root root
  | element {info : NodeInfo} {elements : List (Option Node)} {target : Node} :
      TargetOf root (mk info (.arrayPattern elements)) → target ∈ Kind.present elements → TargetOf root target
  | member {info : NodeInfo} {members : List Node} {target : Node} :
      TargetOf root (mk info (.objectPattern members)) → target ∈ members → TargetOf root target
  | value {info i : NodeInfo} {members : List Node} {kind : PropertyKind} {key value : Node}
      {computed method shorthand : Bool} : TargetOf root (mk info (.objectPattern members)) →
      mk i (.property kind key value computed method shorthand) ∈ members → TargetOf root value
  | argument {info : NodeInfo} {argument : Node} : TargetOf root (mk info (.rest argument)) → TargetOf root argument
  | left {info : NodeInfo} {left right : Node} : TargetOf root (mk info (.assignmentPattern left right)) →
      TargetOf root left

/-- No target is an expression that would be another node as a pattern. -/
def Clean (n : Node) : Prop := ∀ target, n.TargetOf target → target.kind.isConverted = true

variable {n c target : Node}

theorem TargetOf.trans (h : n.TargetOf c) (hc : c.TargetOf target) : n.TargetOf target := by
  induction hc with
  | root => exact h
  | element _ hmem ih => exact .element ih hmem
  | member _ hmem ih => exact .member ih hmem
  | value _ hmem ih => exact .value ih hmem
  | argument _ ih => exact .argument ih
  | left _ ih => exact .left ih

/-- The parts of a pattern are its targets. -/
theorem targetOf_part (h : n.kind.isConverted = true) (hc : c ∈ n.kind.patternParts) : n.TargetOf c := by
  obtain ⟨info, kind⟩ := n
  cases kind with
  | arrayPattern elements => exact .element .root hc
  | objectPattern members =>
    obtain ⟨m, hm, rfl⟩ := List.mem_map.1 hc
    obtain ⟨i, said⟩ := m
    cases said with
    | property => exact .value .root hm
    | _ => exact .member .root hm
  | rest argument =>
    obtain rfl := List.mem_singleton.1 hc
    exact .argument .root
  | assignmentPattern left right =>
    obtain rfl := List.mem_singleton.1 hc
    exact .left .root
  | array | object | spread | assignment => cases h
  | _ => cases hc

theorem isPatternOf_of_clean (n : Node) (h : n.Clean) : n.isPatternOf Kind.isConverted = true := by
  have converted := h n .root
  apply isPatternOf_iff.2
  constructor
  · exact converted
  · intro c hc
    have part := targetOf_part converted hc
    exact isPatternOf_of_clean c fun target ht => h target (part.trans ht)
termination_by sizeOf n
decreasing_by
  obtain ⟨info, kind⟩ := n
  have := Kind.sizeOf_lt_of_mem_patternParts hc
  simp only [kind_mk, mk.sizeOf_spec] at this ⊢
  omega

/-- A property itself is a target too, but nothing is asked of it. -/
theorem TargetOf.isPatternOf (hn : n.isPatternOf Kind.isConverted = true) (h : n.TargetOf target) :
    target.isPatternOf Kind.isConverted = true := by
  induction h with
  | root => exact hn
  | element _ hmem ih => exact (isPatternOf_iff.1 ih).2 _ hmem
  | @member info members target _ hmem ih =>
    have value := (isPatternOf_iff.1 ih).2 _ (List.mem_map_of_mem hmem)
    obtain ⟨i, said⟩ := target
    cases said with
    | property => exact isPatternOf_leaf rfl rfl
    | _ => exact value
  | value _ hmem ih => exact (isPatternOf_iff.1 ih).2 _ (List.mem_map_of_mem hmem)
  | argument _ ih | left _ ih => exact (isPatternOf_iff.1 ih).2 _ (List.mem_singleton_self _)

theorem clean_iff : n.Clean ↔ n.isPatternOf Kind.isConverted = true := by
  constructor
  · exact isPatternOf_of_clean n
  · intro h target htarget
    exact (isPatternOf_iff.1 (htarget.isPatternOf h)).1

/-! ## Nothing is left -/

/-- An object has no members but properties and spreads. -/
def HasMembers (n : Node) : Prop := ∀ members, n.kind = .object members → ∀ m ∈ members, m.isMember = true

theorem All.memberValue {P : Node → Prop} {m : Node} (h : m.All P) : m.memberValue.All P := by
  obtain ⟨info, kind⟩ := m
  cases kind with
  | property kind key value => exact h.child (c := value) (by simp [children, Kind.children])
  | _ => exact h

theorem All.part {P : Node → Prop} (h : n.All P) (hc : c ∈ n.kind.patternParts) : c.All P := by
  obtain ⟨info, kind⟩ := n
  cases kind with
  | array | arrayPattern => exact h.child hc
  | object | objectPattern =>
    obtain ⟨m, hm, rfl⟩ := List.mem_map.1 hc
    exact (h.child hm).memberValue
  | spread | rest =>
    obtain rfl := List.mem_singleton.1 hc
    exact h.child (List.mem_singleton_self _)
  | assignment | assignmentPattern =>
    obtain rfl := List.mem_singleton.1 hc
    exact h.child (List.mem_cons_self ..)
  | _ => cases hc

/-- The parts of what becomes a pattern become its parts. -/
theorem patternParts_toPattern (hmembers : n.HasMembers) (h : n.kind.isPattern = false) :
    n.toPattern.kind.isConverted = true ∧ n.toPattern.kind.patternParts = n.kind.patternParts.map toPattern := by
  obtain ⟨info, kind⟩ := n
  cases kind with
  | array elements => exact ⟨rfl, present_elementsToPatterns elements⟩
  | object members => exact ⟨rfl, memberValue_membersToPatterns (hmembers members rfl)⟩
  | arrayPattern | objectPattern | rest | assignmentPattern => cases h
  | _ => exact ⟨rfl, rfl⟩

theorem clean_toPattern (n : Node) (hmembers : n.All HasMembers)
    (hpatterns : n.All fun m => m.kind.isPattern = true → m.Clean) :
    n.toPattern.isPatternOf Kind.isConverted = true := by
  by_cases h : n.kind.isPattern = true
  · have stays : n.toPattern = n := by
      obtain ⟨info, kind⟩ := n
      cases kind <;> first | rfl | cases h
    rw [stays]
    exact clean_iff.1 (hpatterns.root h)
  · obtain ⟨converted, parts⟩ := patternParts_toPattern hmembers.root (Bool.not_eq_true _ ▸ h)
    apply isPatternOf_iff.2
    constructor
    · exact converted
    · rw [parts]
      intro c hc
      obtain ⟨part, hpart, rfl⟩ := List.mem_map.1 hc
      exact clean_toPattern part (hmembers.part hpart) (hpatterns.part hpart)
termination_by sizeOf n
decreasing_by
  obtain ⟨info, kind⟩ := n
  have := Kind.sizeOf_lt_of_mem_patternParts hpart
  simp only [kind_mk, mk.sizeOf_spec] at this ⊢
  omega

/-- Reinterpretation changes kinds and nothing else, changes them once, and leaves no target unchanged that has to be
changed. -/
theorem toPattern_complete (n : Node) :
    n.toPattern.walk.map (fun entry => (entry.1, entry.2.info)) = n.walk.map (fun entry => (entry.1, entry.2.info)) ∧
      n.toPattern.toPattern = n.toPattern ∧
      ((n.All fun m => ∀ members, m.kind = .object members → ∀ c ∈ members, c.isMember = true) →
        (n.All fun m => m.kind.isPattern = true → m.Clean) → n.toPattern.Clean) := by
  refine ⟨skeleton_toPattern 0 n, toPattern_toPattern n, ?_⟩
  intro hmembers hpatterns
  exact clean_iff.2 (clean_toPattern n hmembers hpatterns)

/-- An object with a spread, whose property has an assignment to a pattern as its value. -/
theorem toPattern_complete_nested : ∃ p, parse "({a: [b] = [c], ...[d]})" {} = .ok p ∧ ∃ entry ∈ p.root.walk,
    entry.2.kind.isConverted = false ∧ (entry.2.All fun m => ∀ members, m.kind = .object members →
      ∀ c ∈ members, c.isMember = true) ∧
      (entry.2.All fun m => m.kind.isPattern = true → m.Clean) ∧ entry.2.toPattern.Clean := by
  have run : ((parse "({a: [b] = [c], ...[d]})" {}).toOption.any fun p => p.root.walk.any fun entry =>
    !entry.2.kind.isConverted &&
      entry.2.walk.all fun m => (match m.2.kind with | .object members => members.all isMember | _ => true) &&
        (!m.2.kind.isPattern || m.2.isPatternOf Kind.isConverted)) = true := by decide +kernel
  obtain ⟨p, hp, run⟩ := exists_ok_of_any run
  simp only [List.any_eq_true, List.all_eq_true, Bool.and_eq_true] at run
  obtain ⟨entry, hentry, hkind, hall⟩ := run
  have hmembers : entry.2.All fun m => ∀ members, m.kind = .object members → ∀ c ∈ members, c.isMember = true := by
    intro m hm members hobject
    simpa [hobject] using (hall m hm).1
  have hpatterns : entry.2.All fun m => m.kind.isPattern = true → m.Clean := by
    intro m hm hpattern
    exact clean_iff.2 (by simpa [hpattern] using (hall m hm).2)
  exact ⟨p, hp, entry, hentry, by simpa using hkind, hmembers, hpatterns,
    (toPattern_complete entry.2).2.2 hmembers hpatterns⟩

end Node

end EcmaTree
