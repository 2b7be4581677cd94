import EcmaTree.Proofs.Derivation.Nodes

/-!
# Tags

A strict parse gives back elements whose tags belong together: an element closes itself, or its closing tag has its
name, and a fragment has the tags of a fragment. The one exception is an element that is still open where the source
ends, of which the parser gives back what it has read so far.
-/

namespace EcmaTree

open Parse (qualifiedName isSelfClosing)

namespace Node

variable {size : Nat} {n : Node}

/-- Does the tag close an element of that name? -/
def closes (tag name : Node) : Bool :=
  match tag.kind with
  | .jsxClosingElement name' => qualifiedName name == qualifiedName name'
  | _ => false

/-- If the node is an element or a fragment, do its tags belong together? -/
def tagsBalance (n : Node) : Bool :=
  match n.kind with
  | .jsxElement opening content closing =>
    match opening.kind, closing with
    | .jsxOpeningElement _ _ true, none => content.isEmpty
    | .jsxOpeningElement name _ false, some tag => tag.closes name
    | _, _ => false
  | .jsxFragment opening _ closing =>
    match opening.kind, closing.kind with
    | .jsxOpeningFragment, .jsxClosingFragment => true
    | _, _ => false
  | _ => true

/-- Is the node an element that is open up to the end of the source? -/
def isCutOff (size : Nat) (n : Node) : Bool :=
  match n.kind with
  | .jsxElement opening _ none => !isSelfClosing opening && n.info.extent.any (·.stop.offset == size)
  | _ => false

/-- What became a pattern is no element. -/
theorem tagsBalance_toPattern (h : n.tagsBalance = true ∨ n.isCutOff size = true) :
    n.toPattern.tagsBalance = true ∨ n.toPattern.isCutOff size = true := by
  obtain ⟨i, kind⟩ := n
  cases kind with
  | jsxElement | jsxFragment => exact h
  | _ => exact .inl rfl

end Node

/-- A tree of the grammar has balanced tags, or it is cut off. -/
theorem Derivable.tagsBalance {size : Nat} {n : Node} (h : Derivable size n) :
    n.tagsBalance = true ∨ n.isCutOff size = true := by
  obtain ⟨σ, s, h⟩ := h
  induction h with
  | weaken _ _ ih | operand _ ih | base _ ih | endChain _ _ ih | boundParameter _ ih | concise _ ih | item _ ih
  | complete _ _ ih | bound _ ih | drop _ ih | whole _ ih => exact ih
  | operandParameter _ ih | target _ _ _ ih => exact Node.tagsBalance_toPattern ih
  | selfClosing _ hopening => exact .inl (by simp [Node.tagsBalance, Node.kind_mk, hopening])
  | element _ _ _ hopening hclosing hname =>
    exact .inl (by simp [Node.tagsBalance, Node.closes, Node.kind_mk, hopening, hclosing, hname])
  | fragment _ _ _ hopening hclosing => exact .inl (by simp [Node.tagsBalance, Node.kind_mk, hopening, hclosing])
  | unclosed _ _ hopening hi hend =>
    exact .inr (by simp [Node.isCutOff, Node.kind_mk, Node.info_mk, hopening, hi, hend])
  | @plain _ _ kind hkind => cases kind <;> first | exact .inl rfl | cases hkind
  | _ => exact .inl rfl

/-- In what a strict parse gives back tags belong together, but for elements that the end of the source cuts off. -/
theorem elements_balance {source : String} {o : ParseOptions} {p : Program} (hp : parse source o = .ok p)
    (hstrict : o.tolerant = false) :
    ∀ entry ∈ p.root.walk, entry.2.tagsBalance = true ∨ entry.2.isCutOff source.utf8ByteSize = true :=
  parse_all hp hstrict fun _ => Derivable.tagsBalance

theorem elements_balance_nested : ∃ p, parse "<a.b>x<c/></a.b>" { jsx := true } = .ok p ∧
    ∀ entry ∈ p.root.walk, entry.2.tagsBalance = true ∨ entry.2.isCutOff "<a.b>x<c/></a.b>".utf8ByteSize = true := by
  have h : (parse "<a.b>x<c/></a.b>" { jsx := true }).toOption.isSome = true := by decide +kernel
  obtain ⟨p, hp⟩ := exists_ok_of_isSome h
  exact ⟨p, hp, elements_balance hp rfl⟩

/-- The end of the source leaves the innermost element without its closing tag, and drops those around it. -/
theorem element_cut_off : ∃ p, parse "<a>b<c>" { jsx := true } = .ok p ∧
    ∃ entry ∈ p.root.walk, entry.2.tagsBalance = false := by
  have h : ((parse "<a>b<c>" { jsx := true }).toOption.any fun p => p.root.walk.any fun entry =>
    !entry.2.tagsBalance) = true := by
    decide +kernel
  obtain ⟨p, hp, h⟩ := exists_ok_of_any h
  exact ⟨p, hp, by simpa using h⟩

end EcmaTree
