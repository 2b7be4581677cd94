import EcmaTree.Proofs.Derivation.Nodes

/-!
# Jumps

A jump leads to a statement around it in the same function: a label that it names, a loop or a `switch`. The productions
look at what governs them; that this is what encloses the statement in the tree is what a derivation says.
-/

namespace EcmaTree

namespace Node

/-- Has the jump something to lead to, where `σ` encloses it? A label is new where it stands, and a function returns. -/
def hasTarget (σ : Scope) (n : Node) : Bool :=
  match n.kind with
  | .breakStatement none => σ.inLoop || σ.inSwitch
  | .continueStatement none => σ.inLoop
  | .breakStatement (some label) | .continueStatement (some label) => label.identifierName?.any (· ∈ σ.labels)
  | .labeledStatement label _ => label.identifierName?.any (· ∉ σ.labels)
  | .returnStatement _ => σ.inFunction
  | _ => true

theorem hasTarget_of_isPlain {σ : Scope} {i : NodeInfo} {kind : Kind Node} (h : kind.isPlain = true) :
    (mk i kind).hasTarget σ = true := by
  cases kind <;> first | rfl | cases h

/-- What became a pattern is no jump. -/
theorem hasTarget_toPattern {σ : Scope} {n : Node} (h : n.hasTarget σ = true) : n.toPattern.hasTarget σ = true := by
  obtain ⟨i, kind⟩ := n
  cases kind <;> first | rfl | exact h

end Node

/-- A tree of the grammar that is a jump has a target in the scope in which it is derived. -/
theorem DerivableIn.hasTarget {size : Nat} {σ : Scope} {n : Node} (h : DerivableIn size σ n) :
    n.hasTarget σ = true := by
  obtain ⟨s, h⟩ := h
  have named {σ : Scope} {label : Node} (h : ∃ name ∈ σ.labels, label.identifierName? = some name) :
      label.identifierName?.any (· ∈ σ.labels) = true := by
    obtain ⟨name, hname, hlabel⟩ := h
    simpa [hlabel] using hname
  induction h with
  | weaken _ _ ih | operand _ ih | base _ ih | endChain _ _ ih | boundParameter _ ih | concise _ ih | item _ ih
  | complete _ _ ih | bound _ ih | drop _ ih | whole _ ih => exact ih
  | operandParameter _ ih | target _ _ _ ih => exact Node.hasTarget_toPattern ih
  | @breakStatement _ _ label hloop hlabel =>
    cases label with
    | none => simpa [Node.hasTarget] using hloop rfl
    | some label => exact named (hlabel label rfl)
  | @continueStatement _ _ label hloop hlabel =>
    cases label with
    | none => exact hloop rfl
    | some label => exact named (hlabel label rfl)
  | labeled hname hnew => simpa [Node.hasTarget, hname] using hnew
  | returnStatement hfunction => exact hfunction
  | plain hkind => exact Node.hasTarget_of_isPlain hkind
  | _ => rfl

/-- In what a strict parse gives back every jump leads to something around it in the same function, no label stands
inside a statement with the same label, and only functions return. -/
theorem jumps_have_targets {source : String} {o : ParseOptions} {p : Program} (hp : parse source o = .ok p)
    (hstrict : o.tolerant = false) :
    ∀ entry ∈ p.root.walkIn .outermost, entry.2.hasTarget entry.1 = true :=
  parse_allIn hp hstrict fun _ _ => DerivableIn.hasTarget

theorem jumps_have_targets_nested :
    ∃ p, parse "a: while (b) { switch (c) { case 1: break; default: continue a } (() => { a: for (;;) break a })() }"
        {} = .ok p ∧
      ∀ entry ∈ p.root.walkIn .outermost, entry.2.hasTarget entry.1 = true := by
  have h : (parse "a: while (b) { switch (c) { case 1: break; default: continue a } (() => { a: for (;;) break a })() }"
      {}).toOption.isSome = true := by decide +kernel
  obtain ⟨p, hp⟩ := exists_ok_of_isSome h
  exact ⟨p, hp, jumps_have_targets hp rfl⟩

end EcmaTree
