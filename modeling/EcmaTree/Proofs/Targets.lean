import EcmaTree.Proofs.Patterns

/-!
# Targets

A strict parse accepts an assignment only if no production has marked its left side as something that is no target.
Names, accesses and patterns of these are targets. But some expressions that are none are marked by nobody, and a
compound assignment and an update do not ask whether a literal has become a pattern.
-/

namespace EcmaTree

namespace Kind

variable {k : Kind Node}

/-- Is the kind one of the targets that are no patterns: a name or an access? -/
def isSimpleTarget : Kind Node → Bool
  | .identifier _ | .member _ _ _ false => true
  | _ => false

/-- Is the kind one of the patterns that are targets? -/
def isPatternTarget : Kind Node → Bool
  | .arrayPattern _ | .objectPattern _ => true
  | _ => false

/-- Is the kind one of expressions that are no targets and that no production marks as such? -/
def isUnmarked : Kind Node → Bool
  | .template .. | .taggedTemplate .. | .chain _ | .metaProperty .. | .function .. | .arrowParameters ..
  | .jsxElement .. | .jsxFragment .. | .await _ | .yield .. => true
  | _ => false

/-- Is the kind one of expressions that may become patterns? -/
def isCover : Kind Node → Bool
  | .array _ | .object _ | .assignment .assign .. => true
  | _ => false

/-- Is the kind one of parts of patterns: one with a default value, or all that is left? -/
def isPatternPart : Kind Node → Bool
  | .assignmentPattern .. | .spread _ | .rest _ => true
  | _ => false

/-- Is the kind that of a pattern with a default value? -/
def isDefaulted : Kind Node → Bool
  | .assignmentPattern .. => true
  | _ => false

/-- Is the kind that of a declaration of variables? -/
def isDeclaration : Kind Node → Bool
  | .variableDeclaration .. => true
  | _ => false

/-- The parts that must be targets for a node of the kind to be one. -/
def targetParts : Kind Node → List Node
  | .taggedTemplate tag _ => [tag]
  | .chain expression => [expression]
  | .await argument => [argument]
  | .yield argument _ => argument.toList
  | k => k.patternParts

theorem sizeOf_lt_of_mem_targetParts {c : Node} (h : c ∈ k.targetParts) : sizeOf c < sizeOf k := by
  cases k with
  | taggedTemplate | chain | await => obtain rfl := List.mem_singleton.1 h; simp; try omega
  | yield => have := Node.sizeOf_option h; simp; omega
  | _ => exact sizeOf_lt_of_mem_patternParts h

end Kind

namespace Node

variable {n : Node}

/-- Has no production marked the node, or a part of it, as something that is no target? -/
def mayBeTarget (n : Node) : Bool :=
  (n.kind.isSimpleTarget || n.kind.isPatternTarget || n.kind.isUnmarked || n.kind.isCover || n.kind.isPatternPart) &&
    n.kind.targetParts.attach.all fun ⟨c, _⟩ => c.mayBeTarget
termination_by sizeOf n
decreasing_by
  next h =>
    have := Kind.sizeOf_lt_of_mem_targetParts h
    obtain ⟨i, kind⟩ := n
    simp only [kind_mk, mk.sizeOf_spec] at this ⊢
    omega

theorem mayBeTarget_iff : n.mayBeTarget = true ↔
    (n.kind.isSimpleTarget || n.kind.isPatternTarget || n.kind.isUnmarked || n.kind.isCover ||
      n.kind.isPatternPart) = true ∧
      ∀ c ∈ n.kind.targetParts, c.mayBeTarget = true := by
  rw [mayBeTarget]
  simp

theorem mayBeTarget_leaf (h : (n.kind.isSimpleTarget || n.kind.isUnmarked) = true) (hn : n.kind.targetParts = []) :
    n.mayBeTarget = true := by
  refine mayBeTarget_iff.2 ⟨?_, by simp [hn]⟩
  cases hs : n.kind.isSimpleTarget <;> simp_all

/-- As patterns the members of an object stand for the same ones. -/
theorem mem_membersToPatterns {c : Node} : ∀ {members : List Node}, c ∈ (membersToPatterns members).map memberValue →
    ∃ d ∈ members.map memberValue, c = d ∨ c = d.toPattern
  | .mk i kind :: members, h => by
    have more : c ∈ (membersToPatterns members).map memberValue →
        ∃ d ∈ (mk i kind :: members).map memberValue, c = d ∨ c = d.toPattern := fun h => by
      obtain ⟨d, hd, hc⟩ := mem_membersToPatterns h
      exact ⟨d, List.mem_cons_of_mem _ hd, hc⟩
    cases kind with
    | property | spread => exact (List.mem_cons.1 h).elim (fun h => ⟨_, List.mem_cons_self .., .inr h⟩) more
    | _ => exact (List.mem_cons.1 h).elim (fun h => ⟨_, List.mem_cons_self .., .inl h⟩) more

/-- What may be a target may be one as a pattern. -/
theorem mayBeTarget_toPattern : ∀ n : Node, n.mayBeTarget = true → n.toPattern.mayBeTarget = true
  | .mk i kind, h => by
    have part (c : Node) (hc : c ∈ kind.targetParts) : c.mayBeTarget = true ∧ c.toPattern.mayBeTarget = true := by
      have hc' := (mayBeTarget_iff.1 h).2 c hc
      exact ⟨hc', mayBeTarget_toPattern c hc'⟩
    cases kind with
    | array elements =>
      refine mayBeTarget_iff.2 ⟨rfl, ?_⟩
      change ∀ c ∈ Kind.present (elementsToPatterns elements), c.mayBeTarget = true
      rw [present_elementsToPatterns, List.forall_mem_map]
      exact fun c hc => (part c hc).2
    | object members =>
      refine mayBeTarget_iff.2 ⟨rfl, fun c hc => ?_⟩
      obtain ⟨d, hd, h | h⟩ := mem_membersToPatterns hc
      · exact h ▸ (part d hd).1
      · exact h ▸ (part d hd).2
    | spread argument =>
      exact mayBeTarget_iff.2 ⟨rfl, List.forall_mem_singleton.2 (part argument (List.mem_singleton_self _)).2⟩
    | assignment op left right =>
      exact mayBeTarget_iff.2 ⟨rfl, List.forall_mem_singleton.2 (part left (List.mem_singleton_self _)).2⟩
    | _ => exact h
termination_by n => sizeOf n
decreasing_by
  have := Kind.sizeOf_lt_of_mem_targetParts hc
  simp only [mk.sizeOf_spec]
  omega

end Node

namespace Derives

variable {size : Nat} {σ : Scope} {n : Node} {form : Form} {p : Prospect}

open Node (mayBeTarget_iff mayBeTarget_leaf)

/-- What the cover calls a target has not been marked. -/
theorem mayBeTarget (h : Derives size σ (.covered form p) n) (hp : p.target = true) (hsuper : n.isSuper = false) :
    ((Symbol.covered form p).part n).mayBeTarget = true := by
  generalize hs : Symbol.covered form p = symbol at h
  induction h generalizing form p with
  | @weaken _ form _ _ _ hle _ ih =>
    cases hs
    cases form <;> exact ih (hle.1 hp) hsuper rfl
  | operand _ ih | base _ ih =>
    cases hs
    exact ih hp hsuper rfl
  | endChain hn _ ih =>
    cases hs
    exact ih hp hn rfl
  | array h ih =>
    cases hs
    exact mayBeTarget_iff.2 ⟨rfl, fun c hc => ih c hc hp ((h c hc).isSuper (by simp)) rfl⟩
  | object h ih =>
    cases hs
    exact mayBeTarget_iff.2 ⟨rfl, List.forall_mem_map.2 fun m hm => ih m hm hp ((h m hm).isSuper (by simp)) rfl⟩
  | property _ h _ ih =>
    cases hs
    exact ih hp (h.isSuper (by simp)) rfl
  | initialized _ hleft =>
    obtain ⟨_, hname⟩ := Option.isSome_iff_exists.1 hleft
    obtain ⟨i, rfl⟩ := Node.eq_identifier hname
    exact mayBeTarget_iff.2 ⟨rfl, List.forall_mem_singleton.2 (mayBeTarget_leaf rfl rfl)⟩
  | spread h ih | spreadMember h ih | chain h ih | await h ih | yield h ih =>
    cases hs
    exact mayBeTarget_iff.2 ⟨rfl, List.forall_mem_singleton.2 (ih hp (h.isSuper (by simp)) rfl)⟩
  | taggedTemplate hn _ _ ih =>
    cases hs
    exact mayBeTarget_iff.2 ⟨rfl, List.forall_mem_singleton.2 (ih hp hn rfl)⟩
  | @member _ _ _ _ _ _ _ optional =>
    cases hs
    cases optional
    · exact mayBeTarget_leaf rfl rfl
    · cases hp
  | assignment htarget h _ ih =>
    exact mayBeTarget_iff.2 ⟨rfl,
      List.forall_mem_singleton.2 (Node.mayBeTarget_toPattern _ (ih htarget (h.isSuper (by simp)) rfl))⟩
  | superBase => cases hsuper
  | _ => first | exact mayBeTarget_leaf rfl rfl | cases hs <;> cases hp

/-- Patterns and their parts are no expressions. -/
theorem isExpression (h : Derives size σ (.covered form p) n) (hform : form ≠ .element ∧ form ≠ .member) :
    (n.kind.isPatternTarget || n.kind.isPatternPart) = false := by
  generalize hs : Symbol.covered form p = symbol at h
  induction h generalizing form p with
  | weaken _ _ ih =>
    cases hs
    exact ih hform rfl
  | base _ ih | endChain _ _ ih => exact ih (by simp) rfl
  | _ => first | rfl | (cases hs <;> simp at hform)

end Derives

/-! ## Assignments -/

namespace Node

variable {n left : Node}

/-- Is the node something that a compound assignment takes for a target? -/
def isOperand (n : Node) : Bool := n.mayBeTarget && (n.kind.isSimpleTarget || n.kind.isUnmarked || n.kind.isCover)

/-- Is the node something that a loop takes for a target? -/
def isLoopTarget (n : Node) : Bool :=
  n.mayBeTarget && (n.kind.isSimpleTarget || n.kind.isPatternTarget || n.kind.isUnmarked)

/-- Is the node something that an assignment takes for a target? -/
def isAssigned (n : Node) : Bool := n.isLoopTarget || n.mayBeTarget && n.kind.isDefaulted

/-- If the node assigns to another one, is that something that it takes for a target? -/
def assignsToTarget (n : Node) : Bool :=
  match n.kind with
  | .assignment .assign left _ => left.isAssigned
  | .assignment _ left _ | .update _ left _ => left.isOperand
  | .forInStatement left .. | .forOfStatement left .. => left.kind.isDeclaration || left.isLoopTarget
  | _ => true

theorem isOperand_of (h : n.mayBeTarget = true) (hn : (n.kind.isPatternTarget || n.kind.isPatternPart) = false) :
    n.isOperand = true := by
  have := (mayBeTarget_iff.1 h).1
  simp_all [isOperand]

/-- As a pattern a target is one of a loop, unless it is an assignment. -/
theorem kind_toPattern (h : n.mayBeTarget = true) (hn : (n.kind.isPatternTarget || n.kind.isPatternPart) = false) :
    (n.toPattern.kind.isSimpleTarget || n.toPattern.kind.isPatternTarget || n.toPattern.kind.isUnmarked) = true ∨
      n.toPattern.kind.isDefaulted = true ∧ Parse.isAssignment n = true := by
  have allowed := (mayBeTarget_iff.1 h).1
  obtain ⟨i, kind⟩ := n
  cases kind with
  | array | object => exact .inl rfl
  | assignment => exact .inr ⟨rfl, rfl⟩
  | spread => cases hn
  | _ => exact .inl (by simp_all [toPattern, kindToPattern, Kind.isCover])

theorem isAssigned_toPattern (h : n.mayBeTarget = true)
    (hn : (n.kind.isPatternTarget || n.kind.isPatternPart) = false) :
    n.toPattern.isAssigned = true ∧ (Parse.isAssignment n = false → n.toPattern.isLoopTarget = true) := by
  have pattern := mayBeTarget_toPattern n h
  rcases kind_toPattern h hn with kind | ⟨kind, hassign⟩
  · have target : n.toPattern.isLoopTarget = true := by rw [isLoopTarget, pattern, kind, Bool.and_true]
    exact ⟨by rw [isAssigned, target, Bool.true_or], fun _ => target⟩
  · exact ⟨by rw [isAssigned, pattern, kind, Bool.and_true, Bool.or_true], fun h => by simp [h] at hassign⟩

/-- What became a pattern assigns to nothing. -/
theorem assignsToTarget_toPattern (h : n.assignsToTarget = true) : n.toPattern.assignsToTarget = true := by
  obtain ⟨i, kind⟩ := n
  cases kind with
  | update | forInStatement | forOfStatement => exact h
  | _ => rfl

end Node

theorem Kind.isPlain_assignsToTarget {i : NodeInfo} {k : Kind Node} (h : k.isPlain = true) :
    (Node.mk i k).assignsToTarget = true := by
  cases k <;> first | rfl | cases h

theorem Derivable.assignsToTarget {size : Nat} {n : Node} (h : Derivable size n) : n.assignsToTarget = true := by
  obtain ⟨σ, s, h⟩ := h
  have target {σ : Scope} {p : Prospect} {n : Node} (h : Derives size σ (.expression p) n) (hp : p.target = true) :
      n.mayBeTarget = true ∧ (n.kind.isPatternTarget || n.kind.isPatternPart) = false :=
    ⟨h.mayBeTarget hp (h.isSuper (by simp)), h.isExpression (by simp)⟩
  have loopTarget {σ : Scope} {n : Node} (h : Derives size σ .loopTarget n) :
      (n.kind.isDeclaration || n.isLoopTarget) = true := by
    cases h with
    | target hp hn h => simp [(Node.isAssigned_toPattern (target h hp).1 (target h hp).2).2 hn]
    | declared => rfl
  induction h with
  | weaken _ _ ih | operand _ ih | base _ ih | endChain _ _ ih | boundParameter _ ih | concise _ ih | item _ ih
  | complete _ _ ih | bound _ ih | drop _ ih | whole _ ih => exact ih
  | operandParameter _ ih | target _ _ _ ih => exact Node.assignsToTarget_toPattern ih
  | assignment hp h => exact (Node.isAssigned_toPattern (target h hp).1 (target h hp).2).1
  | @compound _ _ _ op _ _ hop hp h =>
    have operand := Node.isOperand_of (target h hp).1 (target h hp).2
    cases op with
    | assign => exact absurd rfl hop
    | _ => exact operand
  | update hp h => exact Node.isOperand_of (target h hp).1 (target h hp).2
  | forInStatement h | forOfStatement h => exact loopTarget h
  | plain hkind => exact Kind.isPlain_assignsToTarget hkind
  | _ => rfl

/-- What a strict parse assigns to is a name, an access, a pattern of these, or one of the few expressions that nobody
marks; a compound assignment and an update take literals, too. -/
theorem targets_assignable {source : String} {o : ParseOptions} {p : Program} (hp : parse source o = .ok p)
    (hstrict : o.tolerant = false) :
    ∀ entry ∈ p.root.walk, entry.2.assignsToTarget = true :=
  parse_all hp hstrict fun _ => Derivable.assignsToTarget

theorem targets_assignable_swap : ∃ p, parse "[a, b.c] = [b.c, a++]" {} = .ok p ∧
    ∀ entry ∈ p.root.walk, entry.2.assignsToTarget = true := by
  have h : (parse "[a, b.c] = [b.c, a++]" {}).toOption.isSome = true := by decide +kernel
  obtain ⟨p, hp⟩ := exists_ok_of_isSome h
  exact ⟨p, hp, targets_assignable hp rfl⟩

/-- Does the node change an array literal by an operator? -/
def Node.changesArray (n : Node) : Bool :=
  match n.kind with
  | .assignment op left _ => op != .assign && left.kind.typeName == "ArrayExpression"
  | _ => false

/-- A literal is a target of a compound assignment. -/
theorem target_literal : ∃ p, parse "[a]+=1" {} = .ok p ∧ ∃ entry ∈ p.root.walk, entry.2.changesArray = true := by
  have h : ((parse "[a]+=1" {}).toOption.any fun p => p.root.walk.any (·.2.changesArray)) = true := by decide +kernel
  obtain ⟨p, hp, h⟩ := exists_ok_of_any h
  exact ⟨p, hp, by simpa using h⟩

end EcmaTree
