import EcmaTree.Proofs.Derivation.Program

/-!
# The nodes of a tree

Every node of a tree of the grammar is a tree of the grammar, of a symbol and in a scope of its own. So a property of
all nodes is proved for the trees of all symbols.
-/

namespace EcmaTree

namespace Node

@[simp] theorem info_mk (info : NodeInfo) (kind : Kind Node) : (mk info kind).info = info := rfl

@[simp] theorem kind_mk (info : NodeInfo) (kind : Kind Node) : (mk info kind).kind = kind := rfl

theorem present_elementsToPatterns (elements : List (Option Node)) :
    Kind.present (elementsToPatterns elements) = (Kind.present elements).map toPattern := by
  induction elements with
  | nil => rfl
  | cons element elements ih => cases element <;> simp_all [elementsToPatterns, Kind.present]

theorem membersToPatterns_eq (members : List Node) :
    membersToPatterns members = members.flatMap fun m => membersToPatterns [m] := by
  induction members with
  | nil => rfl
  | cons m members ih =>
    rw [List.flatMap_cons, ← ih]
    obtain ⟨i, kind⟩ := m
    cases kind <;> rfl

@[simp] theorem toPattern_toPattern (n : Node) : n.toPattern.toPattern = n.toPattern := by
  obtain ⟨i, kind⟩ := n
  cases kind <;> rfl

theorem inside_of_isPlain {σ : Scope} {info : NodeInfo} {kind : Kind Node} (h : kind.isPlain = true) :
    (mk info kind).inside σ = σ.around kind.children := by
  cases kind <;> first | rfl | cases h

end Node

/-- Is the node a chain, or a link of one? Its first child is on the spine of a chain then. -/
def Node.bearsSpine (n : Node) : Bool :=
  match n.kind with
  | .member .. | .call .. | .chain _ => true
  | _ => false

/-- Is the symbol a chain so far, and is one of its links optional? -/
def Symbol.isOpen : Symbol → Bool
  | .covered (.links optional) _ => optional
  | _ => false

/-- What is asked for open chains only is not asked for other trees. -/
theorem Symbol.closed {s : Symbol} {P : Prop} (h : s.isOpen = false) (hs : s.isOpen = true) : P :=
  absurd (h.symm.trans hs) Bool.false_ne_true

variable {size : Nat}

/-- The node is a tree of some symbol in the scope. -/
def DerivableIn (size : Nat) (σ : Scope) (n : Node) : Prop := ∃ s, Derives size σ s n

/-- The node is a tree of some symbol in some scope. -/
def Derivable (size : Nat) (n : Node) : Prop := ∃ σ s, Derives size σ s n

/-- The node is a tree of some symbol in the scope, which is a part of `parent`. Only a link or the end of a chain
goes on with an optional link. -/
def PartIn (size : Nat) (parent : Node) (σ : Scope) (n : Node) : Prop :=
  ∃ s, Derives size σ s n ∧ (s.isOpen = true → parent.bearsSpine = true)

namespace Derives

variable {σ : Scope} {s : Symbol} {n c : Node} {form : Form} {p : Prospect}

theorem derivableIn (h : Derives size σ s n) : DerivableIn size σ n := ⟨s, h⟩

theorem derivable (h : Derives size σ s n) : Derivable size n := ⟨σ, s, h⟩

theorem partIn (h : Derives size σ s c) (hs : s.isOpen = true → n.bearsSpine = true) : PartIn size n σ c := ⟨s, h, hs⟩

/-- A member of an object that became a pattern. -/
theorem memberPattern_partIn (h : Derives size σ (.member p) n) :
    ∀ m ∈ Node.membersToPatterns [n], PartIn size c σ m := by
  generalize hs : Symbol.member p = symbol at h
  induction h generalizing p with
  | weaken _ _ ih =>
    cases hs
    exact ih rfl
  | spreadMember h =>
    simpa [Node.membersToPatterns] using partIn (.restParameter (.operandParameter (.operand h.to_bare)))
      (Symbol.closed rfl)
  | property hkey hvalue =>
    simpa [Node.membersToPatterns] using partIn
      (.propertyParameter hkey (.operandParameter (.operand hvalue.to_bare))) (Symbol.closed rfl)
  | shorthand hkey =>
    simpa [Node.membersToPatterns] using partIn
      (.propertyParameter hkey (.operandParameter (.operand (.of_free .identifier)))) (Symbol.closed rfl)
  | initialized hkey hleft _ hright =>
    obtain ⟨_, hname⟩ := Option.isSome_iff_exists.1 hleft
    obtain ⟨i, rfl⟩ := Node.eq_identifier hname
    simpa [Node.membersToPatterns, Node.toPattern, Node.kindToPattern] using partIn
      (.propertyParameter hkey (.boundParameter (.assignmentPattern .namePattern hright))) (Symbol.closed rfl)
  | method _ hkey hvalue =>
    simpa [Node.membersToPatterns] using partIn
      (.propertyParameter hkey (.operandParameter (.operand (.of_free hvalue)))) (Symbol.closed rfl)
  | _ => cases hs

section
variable {elements : List (Option Node)} {members : List Node} {i : NodeInfo}

theorem elements_partIn (h : ∀ m ∈ Kind.present elements, Derives size σ (.element p) m) :
    ∀ m ∈ Kind.present (Node.elementsToPatterns elements), PartIn size c σ m := by
  rw [Node.present_elementsToPatterns, List.forall_mem_map]
  exact fun m hm => partIn (.operandParameter (.weaken p.bare_le (h m hm))) (Symbol.closed rfl)

theorem members_partIn (h : ∀ m ∈ members, Derives size σ (.member p) m) :
    ∀ m ∈ Node.membersToPatterns members, PartIn size c σ m := by
  rw [Node.membersToPatterns_eq, List.forall_mem_flatMap]
  exact fun m hm => (h m hm).memberPattern_partIn

/-- An expression that became a pattern. -/
theorem toPattern_partIn (h : Derives size σ (.expression p) n) : PartIn size c σ n.toPattern :=
  partIn (.operandParameter (.operand h.to_bare)) (Symbol.closed rfl)

/-- The children of the node are trees, each in the scope that encloses it. -/
abbrev Inside (size : Nat) (σ : Scope) (n : Node) : Prop := ∀ entry ∈ n.inside σ, PartIn size n entry.1 entry.2

theorem patternInside (h : Derives size σ (.covered form p) n) (hn : Inside size σ n) : Inside size σ n.toPattern := by
  generalize hs : Symbol.covered form p = symbol at h
  induction h generalizing form p with
  | weaken _ _ ih | operand _ ih | base _ ih | endChain _ _ ih => exact ih hn rfl
  | array h => exact Scope.forall_mem_around.2 (elements_partIn h)
  | object h => exact Scope.forall_mem_around.2 (members_partIn h)
  | objectWithMethod _ h => exact Scope.forall_mem_around.2 (members_partIn h)
  | spread h => exact List.forall_mem_singleton.2 h.toPattern_partIn
  | spreadMember h => exact List.forall_mem_singleton.2 h.toPattern_partIn
  | assignment _ hleft hright =>
    refine List.forall_mem_cons.2 ⟨?_, List.forall_mem_singleton.2 (hright.partIn (Symbol.closed rfl))⟩
    rw [Node.toPattern_toPattern]
    exact hleft.toPattern_partIn
  | compound _ _ hleft hright =>
    exact List.forall_mem_cons.2 ⟨hleft.toPattern_partIn,
      List.forall_mem_singleton.2 (hright.partIn (Symbol.closed rfl))⟩
  | _ => first | exact hn | cases hs

end

/-- The children of most nodes are those that a rule names, one after the other. -/
theorem inside (h : Derives size σ s n) : Inside size σ n := by
  have one {m n : Node} {σ : Scope} {s : Symbol} (h : Derives size σ s n) (hs : s.isOpen = true → m.bearsSpine = true) :
      ∀ entry ∈ [(σ, n)], PartIn size m entry.1 entry.2 := List.forall_mem_singleton.2 (h.partIn hs)
  have pair {m n c : Node} {σ τ : Scope} {s t : Symbol} (h : Derives size σ s n) (h' : Derives size τ t c)
      (hs : s.isOpen = true → m.bearsSpine = true) (ht : t.isOpen = true → m.bearsSpine = true) :
      ∀ entry ∈ [(σ, n), (τ, c)], PartIn size m entry.1 entry.2 := List.forall_mem_cons.2 ⟨h.partIn hs, one h' ht⟩
  have all {m : Node} {ns : List Node} {σ : Scope} {s : Symbol} (h : ∀ n ∈ ns, Derives size σ s n)
      (hs : s.isOpen = true → m.bearsSpine = true) : ∀ c ∈ ns, PartIn size m σ c := fun c hc => (h c hc).partIn hs
  have some {m : Node} {name : Option Node} {σ : Scope} {s : Symbol} (h : ∀ n ∈ name, Derives size σ s n)
      (hs : s.isOpen = true → m.bearsSpine = true) : ∀ c ∈ name.toList, PartIn size m σ c :=
    all (fun c hc => h c (Option.mem_toList.1 hc)) hs
  have arguments {m : Node} {args : List Node} {σ : Scope} {p q : Prospect}
      (h : ∀ n ∈ args, n.isSpread = false → Derives size σ (.expression p) n)
      (h' : ∀ n ∈ args, n.isSpread = true → Derives size σ (.element q) n) : ∀ c ∈ args, PartIn size m σ c :=
        fun c hc => by
    cases hs : c.isSpread
    · exact (h c hc hs).partIn (Symbol.closed rfl)
    · exact (h' c hc hs).partIn (Symbol.closed rfl)
  have name {m : Node} {σ : Scope} {i : NodeInfo} {name : String} : PartIn size m σ (.mk i (.identifier name)) :=
    partIn (.name (i := i) (σ := σ)) (Symbol.closed rfl)
  induction h with
  | weaken _ _ ih | operand _ ih | base _ ih | endChain _ _ ih | boundParameter _ ih | concise _ ih
  | item _ ih | complete _ _ ih | bound _ ih | drop _ ih | whole _ ih => exact ih
  | operandParameter h ih => exact h.patternInside ih
  | target _ _ h ih => exact h.patternInside ih
  | identifier | literal | regex | thisExpression | importKeyword | superBase | yieldNothing | namePattern | text =>
    exact List.forall_mem_nil _
  | chain h => exact one h fun _ => rfl
  | spread h | spreadMember h | update _ h | unary _ h | await h | yield h | restParameter h | rest h | restMember h
  | exportDefaultDeclaration h | container h | spreadAttribute h | selfClosing h => exact one h (Symbol.closed rfl)
  | directive h _ => exact one (.text h) (Symbol.closed rfl)
  | array h | object h | objectWithMethod _ h | template h | sequence h | arrayPattern h | objectPattern h | declared h
  | body h | program h => exact Scope.forall_mem_around.2 (all h (Symbol.closed rfl))
  | @waiting σ _ _ _ h | @waitingChain σ _ _ _ h => exact Scope.forall_mem_around.2 (all (h σ) (Symbol.closed rfl))
  | plain hkind h =>
    rw [Inside, Node.inside_of_isPlain hkind]
    exact Scope.forall_mem_around.2 (all h (Symbol.closed rfl))
  | metaProperty h h' | property h h' | method _ h h' | taggedTemplate _ h h' | binary h h' | compound _ _ h h'
  | propertyParameter h h' | assignmentPattern h h' | propertyPattern h h' | initializedPattern h h'
  | defaultedName _ h h' | withStatement _ h h' | whileStatement h h' | doWhileStatement h h' =>
    exact pair h h' (Symbol.closed rfl) (Symbol.closed rfl)
  | member h h' => exact pair h h' (fun _ => rfl) (Symbol.closed rfl)
  | labeled hname _ h h' =>
    simpa [Inside, Node.inside, hname] using ⟨h.partIn (Symbol.closed rfl), h'.partIn (Symbol.closed rfl)⟩
  | assignment _ h h' => exact List.forall_mem_cons.2 ⟨h.toPattern_partIn, one h' (Symbol.closed rfl)⟩
  | shorthand h | shorthandPattern h =>
    exact List.forall_mem_cons.2 ⟨h.partIn (Symbol.closed rfl), List.forall_mem_singleton.2 name⟩
  | initialized h hleft _ hright =>
    obtain ⟨_, hname⟩ := Option.isSome_iff_exists.1 hleft
    obtain ⟨i, rfl⟩ := Node.eq_identifier hname
    exact pair h (.assignmentPattern .namePattern hright) (Symbol.closed rfl) (Symbol.closed rfl)
  | yieldParameter h hn _ ih =>
    have children := by simpa [Inside, Node.inside, Node.children, hn, Kind.children, Scope.around] using ih
    obtain ⟨s, hleft, hs⟩ := children.1
    have pattern : s.isOpen = true → False := by simpa [Node.bearsSpine, hn] using hs
    exact List.forall_mem_cons.2 ⟨hleft.partIn fun h => (pattern h).elim, List.forall_mem_singleton.2 name⟩
  | conditional h h' h'' | forInStatement h h' h'' | forOfStatement h h' h'' =>
    exact List.forall_mem_cons.2 ⟨h.partIn (Symbol.closed rfl), pair h' h'' (Symbol.closed rfl) (Symbol.closed rfl)⟩
  | breakStatement _ _ h | continueStatement _ _ h | returnStatement _ h =>
    exact Scope.forall_mem_around.2 (some h (Symbol.closed rfl))
  | call h h' h'' | asyncCall _ h h' h'' =>
    exact List.forall_mem_cons.2 ⟨h.partIn fun _ => rfl, Scope.forall_mem_around.2 (arguments h' h'')⟩
  | newExpression h h' h'' =>
    exact List.forall_mem_cons.2 ⟨h.partIn (Symbol.closed rfl), Scope.forall_mem_around.2 (arguments h' h'')⟩
  | switchStatement h h' =>
    exact List.forall_mem_cons.2 ⟨h.partIn (Symbol.closed rfl), Scope.forall_mem_around.2 (all h' (Symbol.closed rfl))⟩
  | classDefinition h h' h'' =>
    exact Scope.forall_mem_around.2
      (List.forall_mem_append.2 ⟨List.forall_mem_append.2 ⟨some h (Symbol.closed rfl), some h' (Symbol.closed rfl)⟩,
      List.forall_mem_singleton.2 (h''.partIn (Symbol.closed rfl))⟩)
  | arrow h h' =>
    exact List.forall_mem_append.2 ⟨Scope.forall_mem_around.2 (all h (Symbol.closed rfl)), one h' (Symbol.closed rfl)⟩
  | function _ h h' h'' =>
    exact List.forall_mem_append.2 ⟨Scope.forall_mem_around.2
      (List.forall_mem_append.2 ⟨some h (Symbol.closed rfl), all h' (Symbol.closed rfl)⟩), one h'' (Symbol.closed rfl)⟩
  | forStatement h h' h'' hbody =>
    exact List.forall_mem_append.2 ⟨Scope.forall_mem_around.2 (List.forall_mem_append.2
      ⟨List.forall_mem_append.2 ⟨some h (Symbol.closed rfl), some h' (Symbol.closed rfl)⟩,
        some h'' (Symbol.closed rfl)⟩), one hbody (Symbol.closed rfl)⟩
  | unclosed h h' =>
    exact Scope.forall_mem_around.2
      (List.forall_mem_append.2 ⟨List.forall_mem_cons.2 ⟨h.partIn (Symbol.closed rfl),
      all h' (Symbol.closed rfl)⟩, List.forall_mem_nil _⟩)
  | element h h' h'' | fragment h h' h'' =>
    exact Scope.forall_mem_around.2
      (List.forall_mem_append.2 ⟨List.forall_mem_cons.2 ⟨h.partIn (Symbol.closed rfl), all h' (Symbol.closed rfl)⟩,
      List.forall_mem_singleton.2 (h''.partIn (Symbol.closed rfl))⟩)

theorem child (h : Derives size σ s n) : ∀ c ∈ n.children, Derivable size c := by
  rw [← @Node.inside_children σ, List.forall_mem_map]
  intro entry hentry
  obtain ⟨t, ht, -⟩ := h.inside entry hentry
  exact ht.derivable

end Derives

/-- A property of all trees of the grammar is one of all nodes of such a tree. -/
theorem Derivable.all {P : Node → Prop} (hP : ∀ n, Derivable size n → P n) {n : Node} (h : Derivable size n) :
    n.All P := by
  obtain ⟨σ, s, h⟩ := h
  exact Node.all_iff.2 ⟨hP n h.derivable, fun c hc => Derivable.all hP (h.child c hc)⟩
termination_by sizeOf n
decreasing_by
  exact Node.sizeOf_lt_of_mem_children hc

/-- So is a property of all trees and the scopes that enclose them. -/
theorem DerivableIn.all {P : Scope → Node → Prop} (hP : ∀ σ n, DerivableIn size σ n → P σ n) {σ : Scope} {n : Node}
    (h : DerivableIn size σ n) : ∀ entry ∈ n.walkIn σ, P entry.1 entry.2 := by
  rw [Node.walkIn_eq]
  obtain ⟨s, hs⟩ := h
  refine List.forall_mem_cons.2 ⟨hP σ n hs.derivableIn, List.forall_mem_flatMap.2 fun entry hentry => ?_⟩
  obtain ⟨t, ht, -⟩ := hs.inside entry hentry
  exact DerivableIn.all hP ht.derivableIn
termination_by sizeOf n
decreasing_by
  exact Node.sizeOf_lt_of_mem_children (Node.mem_children_of_inside hentry)

/-- A property of all trees of the grammar is one of all nodes that a strict parse gives back. -/
theorem parse_all {source : String} {o : ParseOptions} {p : Program} (hp : parse source o = .ok p)
    (hstrict : o.tolerant = false)
    {P : Node → Prop} (hP : ∀ n, Derivable source.utf8ByteSize n → P n) : p.root.All P :=
  Derivable.all hP (parse_derives hp hstrict).derivable

theorem parse_allIn {source : String} {o : ParseOptions} {p : Program} (hp : parse source o = .ok p)
    (hstrict : o.tolerant = false)
    {P : Scope → Node → Prop} (hP : ∀ σ n, DerivableIn source.utf8ByteSize σ n → P σ n) :
    ∀ entry ∈ p.root.walkIn .outermost, P entry.1 entry.2 := DerivableIn.all hP (parse_derives hp hstrict).derivableIn

end EcmaTree
