import Mathlib.Data.List.Induction
import EcmaTree.Proofs.AsyncArrows
import EcmaTree.Proofs.Derivation.Nodes

/-!
# Optional chains

The spine of a chain goes from its expression down through the owners of member accesses and the callees of calls. In
what a strict parse gives back, an optional link stands on the spine of one chain and of no other, and the spine of a
chain has an optional link. Where a node stands is told by the steps from the root down to it, each of which takes one
of the children.
-/

namespace EcmaTree

namespace Node

/-- The node that stands at the position. -/
def at? : Node → List Nat → Option Node
  | n, [] => some n
  | n, step :: steps => (n.children[step]?).bind fun c => c.at? steps

/-- Is the node a member access or a call? -/
def isLink (n : Node) : Bool :=
  match n.kind with
  | .member .. | .call .. => true
  | _ => false

/-- Is the node a link behind `?.`? -/
def isOptionalLink (n : Node) : Bool :=
  match n.kind with
  | .member _ _ _ optional | .call _ _ optional => optional
  | _ => false

/-- Is the node a whole chain? -/
def isChain (n : Node) : Bool :=
  match n.kind with
  | .chain _ => true
  | _ => false

/-- Is the node an optional link, or is one of those that it goes on from? -/
def hasOptional : Node → Bool
  | .mk _ (.member owner _ _ optional) => optional || owner.hasOptional
  | .mk _ (.call callee _ optional) => optional || callee.hasOptional
  | _ => false

/-- The position is on the spine of the chain at `chain`: it is that of its expression, or of the owner or the callee
of a link on the spine. These are first children. -/
inductive OnSpine (root : Node) (chain : List Nat) : List Nat → Prop
  | expression {n : Node} : root.at? chain = some n → n.isChain = true → OnSpine root chain (chain ++ [0])
  | next {q : List Nat} {n : Node} : OnSpine root chain q → root.at? q = some n → n.isLink = true →
      OnSpine root chain (q ++ [0])

variable {root n m c : Node} {chain chain' q : List Nat} {P : Node → Prop}

/-! ## Positions -/

theorem at?_append (n : Node) (p q : List Nat) : n.at? (p ++ q) = (n.at? p).bind fun m => m.at? q := by
  induction p generalizing n with
  | nil => rfl
  | cons step steps ih =>
    rw [List.cons_append, at?, at?, Option.bind_assoc]
    exact congrArg _ (funext ih)

theorem at?_child {step : Nat} :
    root.at? (q ++ [step]) = some c ↔ ∃ n, root.at? q = some n ∧ n.children[step]? = some c := by
  rw [at?_append, Option.bind_eq_some_iff]
  refine exists_congr fun n => and_congr_right fun _ => ?_
  rw [at?, Option.bind_eq_some_iff]
  exact ⟨fun ⟨_, hc, h⟩ => by cases h; exact hc, fun hc => ⟨c, hc, rfl⟩⟩

/-- What holds of all nodes of a tree holds of all nodes of each of its parts. -/
theorem All.at (h : root.All P) (hn : root.at? q = some n) : n.All P := by
  induction q generalizing root with
  | nil =>
    cases hn
    exact h
  | cons step steps ih =>
    obtain ⟨c, hc, hn⟩ := Option.bind_eq_some_iff.1 hn
    exact ih (h.child (List.mem_of_getElem? hc)) hn

/-! ## Spines -/

theorem isChain_of_isLink (h : n.isLink = true) : n.isChain = false := by
  obtain ⟨i, kind⟩ := n
  cases kind <;> first | rfl | cases h

/-- A position is on the spine of one chain at most. -/
theorem OnSpine.unique (h : OnSpine root chain q) (h' : OnSpine root chain' q) : chain = chain' := by
  induction h with
  | expression hn hchain =>
    generalize hq : chain ++ [0] = q at h'
    cases h' with
    | expression => exact List.append_cancel_right hq
    | next _ hn' hlink =>
      obtain rfl := List.append_cancel_right hq
      cases hn.symm.trans hn'
      simp [isChain_of_isLink hlink] at hchain
  | @next q n _ hn hlink ih =>
    generalize hq : q ++ [0] = r at h'
    cases h' with
    | expression hn' hchain =>
      obtain rfl := List.append_cancel_right hq
      cases hn.symm.trans hn'
      simp [isChain_of_isLink hlink] at hchain
    | next h' _ _ =>
      obtain rfl := List.append_cancel_right hq
      exact ih h'

/-- Where a link of the spine goes on from an optional one, the spine has one. -/
theorem OnSpine.exists_optional (h : OnSpine root chain q) (hn : root.at? q = some n)
    (hoptional : n.hasOptional = true) :
    ∃ r m, OnSpine root chain r ∧ root.at? r = some m ∧ m.isOptionalLink = true := by
  induction n using Node.hasOptional.induct generalizing q with
  | case1 i owner field computed optional ih =>
    cases optional with
    | true => exact ⟨q, _, h, hn, rfl⟩
    | false => exact ih (h.next hn rfl) (at?_child.2 ⟨_, hn, rfl⟩) hoptional
  | case2 i callee args optional ih =>
    cases optional with
    | true => exact ⟨q, _, h, hn, rfl⟩
    | false => exact ih (h.next hn rfl) (at?_child.2 ⟨_, hn, rfl⟩) hoptional
  | case3 n hmember hcall =>
    rw [hasOptional] at hoptional
    · cases hoptional
    · exact hmember
    · exact hcall

/-- Where the node stands among its parts: only a link or a chain goes on from an optional link, and from its first
child. -/
def SpineClosed (n : Node) : Prop :=
  ∀ step c, n.children[step]? = some c → c.hasOptional = true → step = 0 ∧ n.bearsSpine = true

theorem hasOptional_of_isLink (h : n.isLink = true) (hc : n.children[0]? = some c) (hoptional : c.hasOptional = true) :
    n.hasOptional = true := by
  obtain ⟨i, kind⟩ := n
  cases kind with
  | member | call =>
    cases hc
    simp [hasOptional, hoptional]
  | _ => cases h

theorem hasOptional_of_isOptionalLink (h : n.isOptionalLink = true) : n.hasOptional = true := by
  obtain ⟨i, kind⟩ := n
  cases kind with
  | member | call =>
    obtain rfl : _ = true := h
    rfl
  | _ => cases h

theorem exists_of_isChain (h : n.isChain = true) : ∃ expression, n.children[0]? = some expression := by
  obtain ⟨i, kind⟩ := n
  cases kind with
  | chain expression => exact ⟨expression, rfl⟩
  | _ => cases h

theorem bearsSpine_iff : n.bearsSpine = true ↔ n.isChain = true ∨ n.isLink = true := by
  obtain ⟨i, kind⟩ := n
  cases kind <;> simp [bearsSpine, isChain, isLink]

/-- Every optional link is on a spine. -/
theorem exists_onSpine (hroot : root.hasOptional = false) (hclosed : root.All SpineClosed) (hn : root.at? q = some n)
    (hoptional : n.hasOptional = true) : ∃ chain, OnSpine root chain q := by
  -- From the end of the position: what has an optional link as its part is a chain, or a link that goes on from it as
  -- well.
  induction q using List.reverseRecOn generalizing n with
  | nil =>
    cases hn
    simp [hroot] at hoptional
  | append_singleton q step ih =>
    obtain ⟨m, hm, hc⟩ := at?_child.1 hn
    obtain ⟨rfl, hspine⟩ := (hclosed.at hm).root step n hc hoptional
    rcases bearsSpine_iff.1 hspine with hchain | hlink
    · exact ⟨q, .expression hm hchain⟩
    · obtain ⟨chain, h⟩ := ih hm (hasOptional_of_isLink hlink hc hoptional)
      exact ⟨chain, h.next hm hlink⟩

@[simp] theorem hasOptional_toPattern (n : Node) : n.toPattern.hasOptional = n.hasOptional := by
  obtain ⟨i, kind⟩ := n
  cases kind <;> rfl

/-- What a link or a chain has besides the first child goes on from no optional link, and the expression of a chain
does, unless an asynchronous function will take it. -/
def SpineBegins (n : Node) : Prop :=
  match n.kind with
  | .member _ field _ _ => field.hasOptional = false
  | .call _ args _ => ∀ n ∈ args, n.hasOptional = false
  | .chain expression => expression.hasOptional = true ∨ ¬ AsyncArrows.Plain expression
  | _ => True

theorem SpineBegins.hasOptional (h : n.SpineBegins) (hchain : n.isChain = true) (hc : n.children[0]? = some c)
    (plain : AsyncArrows.Plain c) : c.hasOptional = true := by
  obtain ⟨i, kind⟩ := n
  cases kind with
  | chain expression =>
    obtain rfl : expression = c := Option.some.inj hc
    exact h.resolve_right fun hawaits => hawaits plain
  | _ => cases hchain

theorem SpineBegins.toPattern (h : n.SpineBegins) : n.toPattern.SpineBegins := by
  obtain ⟨i, kind⟩ := n
  cases kind with
  | member | call | chain => exact h
  | _ => trivial

/-- An optional link to go on from is the first child of a link or a chain. -/
theorem SpineBegins.step_eq_zero {step : Nat} (h : n.SpineBegins) (hspine : n.bearsSpine = true)
    (hc : n.children[step]? = some c)
    (hoptional : c.hasOptional = true) : step = 0 := by
  obtain ⟨i, kind⟩ := n
  cases step with
  | zero => rfl
  | succ step =>
    cases kind with
    | member owner field computed optional =>
      have hmem : c ∈ [field] := List.mem_of_getElem? hc
      obtain rfl := List.mem_singleton.1 hmem
      exact absurd hoptional (Bool.eq_false_iff.1 h)
    | call callee args optional =>
      have hmem : c ∈ args := List.mem_of_getElem? hc
      exact absurd hoptional (Bool.eq_false_iff.1 (h c hmem))
    | chain => cases hc
    | _ => cases hspine

theorem spineBegins_of_isPlain {i : NodeInfo} {kind : Kind Node} (h : kind.isPlain = true) :
    (mk i kind).SpineBegins := by
  cases kind <;> trivial

end Node

/-! ## What the grammar says -/

namespace Derives

variable {size : Nat} {σ : Scope} {s : Symbol} {n : Node}

/-- Only an open chain goes on from an optional link. -/
theorem hasOptional_eq_false (h : Derives size σ s n) (hs : s.isOpen = false) : n.hasOptional = false := by
  induction h with
  | @weaken _ form _ _ _ _ _ ih => exact ih (by cases form <;> exact hs)
  | operand _ ih | base _ ih | endChain _ _ ih | boundParameter _ ih | concise _ ih | item _ ih
  | complete _ _ ih | bound _ ih | drop _ ih | whole _ ih => exact ih rfl
  | operandParameter _ ih | target _ _ _ ih => rw [Node.hasOptional_toPattern, ih rfl]
  | member _ _ ih | call _ _ _ ih | asyncCall _ _ _ _ ih =>
    obtain ⟨hchained, hoptional⟩ := Bool.or_eq_false_iff.1 hs
    rw [Node.hasOptional, hoptional, ih hchained, Bool.or_false]
  | @plain _ _ kind hkind => cases kind <;> first | rfl | cases hkind
  | _ => rfl

/-- An open chain goes on from an optional link, unless an asynchronous function will take it. -/
theorem hasOptional_of_isOpen (h : Derives size σ s n) (hs : s.isOpen = true) :
    n.hasOptional = true ∨ ¬ AsyncArrows.Plain n := by
  induction h with
  | @weaken _ form _ _ _ _ _ ih => exact ih (by cases form <;> exact hs)
  | @waitingChain _ i params => exact .inr fun plain => by cases Node.All.root plain
  | @member _ i p owner field chained computed optional _ _ ih =>
    cases optional with
    | true => exact .inl rfl
    | false =>
      exact (ih (by simpa [Symbol.isOpen] using hs)).imp id fun h plain => h (plain.child (List.mem_cons_self ..))
  | @call _ _ _ _ _ _ optional _ _ _ ih | @asyncCall _ _ _ _ _ _ optional _ _ _ _ ih =>
    cases optional with
    | true => exact .inl rfl
    | false =>
      exact (ih (by simpa [Symbol.isOpen] using hs)).imp id fun h plain => h (plain.child (List.mem_cons_self ..))
  | _ => cases hs

theorem spineBegins (h : Derives size σ s n) : n.SpineBegins := by
  induction h with
  | weaken _ _ ih | operand _ ih | base _ ih | endChain _ _ ih | boundParameter _ ih | concise _ ih | item _ ih
  | complete _ _ ih | bound _ ih | drop _ ih | whole _ ih => exact ih
  | operandParameter _ ih | target _ _ _ ih => exact ih.toPattern
  | member _ h => exact h.hasOptional_eq_false rfl
  | call _ h h' | asyncCall _ _ h h' =>
    intro n hn
    cases hspread : n.isSpread
    · exact (h n hn hspread).hasOptional_eq_false rfl
    · exact (h' n hn hspread).hasOptional_eq_false rfl
  | chain h => exact h.hasOptional_of_isOpen rfl
  | plain hkind => exact Node.spineBegins_of_isPlain hkind
  | _ => trivial

end Derives

theorem Derivable.spineBegins {size : Nat} {n : Node} (h : Derivable size n) : n.SpineBegins := by
  obtain ⟨σ, s, h⟩ := h
  exact h.spineBegins

theorem Derivable.spineClosed {size : Nat} {n : Node} (h : Derivable size n) : n.SpineClosed := by
  obtain ⟨σ, s, h⟩ := h
  intro step c hc hoptional
  by_cases hspine : n.bearsSpine = true
  · exact ⟨h.spineBegins.step_eq_zero hspine hc hoptional, hspine⟩
  · obtain ⟨entry, hentry, rfl⟩ := List.mem_map.1 (@Node.inside_children σ n ▸ List.mem_of_getElem? hc)
    obtain ⟨t, ht, hopen⟩ := h.inside entry hentry
    have closed := ht.hasOptional_eq_false (Bool.eq_false_iff.2 fun h => hspine (hopen h))
    simp [closed] at hoptional

/-- In what a strict parse gives back every optional link is on the spine of exactly one chain, and the spine of every
chain has an optional link. -/
theorem optional_links_wrapped {source : String} {o : ParseOptions} {p : Program} (hp : parse source o = .ok p)
    (hstrict : o.tolerant = false) :
    (∀ q n, p.root.at? q = some n → n.isOptionalLink = true → ∃! chain, Node.OnSpine p.root chain q) ∧
      ∀ chain n, p.root.at? chain = some n → n.isChain = true →
        ∃ q m, Node.OnSpine p.root chain q ∧ p.root.at? q = some m ∧ m.isOptionalLink = true := by
  have closed : p.root.All Node.SpineClosed := parse_all hp hstrict fun _ => Derivable.spineClosed
  have begins : p.root.All Node.SpineBegins := parse_all hp hstrict fun _ => Derivable.spineBegins
  have plain := parse_awaitsNoArrow hp hstrict
  refine ⟨fun q n hn hoptional => ?_, fun chain n hn hchain => ?_⟩
  · have outermost := (parse_derives hp hstrict).hasOptional_eq_false rfl
    obtain ⟨chain, h⟩ := Node.exists_onSpine outermost closed hn (Node.hasOptional_of_isOptionalLink hoptional)
    exact ⟨chain, h, fun _ h' => h'.unique h⟩
  · obtain ⟨expression, hexpression⟩ := Node.exists_of_isChain hchain
    have hat := Node.at?_child.2 ⟨n, hn, hexpression⟩
    have hoptional := (begins.at hn).root.hasOptional hchain hexpression (plain.at hat)
    exact (Node.OnSpine.expression hn hchain).exists_optional hat hoptional

theorem optional_links_wrapped_nested : ∃ p, parse "async(a?.b.c(d?.[e]))?.f" {} = .ok p ∧
    (∀ q n, p.root.at? q = some n → n.isOptionalLink = true → ∃! chain, Node.OnSpine p.root chain q) ∧
      ∀ chain n, p.root.at? chain = some n → n.isChain = true →
        ∃ q m, Node.OnSpine p.root chain q ∧ p.root.at? q = some m ∧ m.isOptionalLink = true := by
  have h : (parse "async(a?.b.c(d?.[e]))?.f" {}).toOption.isSome = true := by decide +kernel
  obtain ⟨p, hp⟩ := exists_ok_of_isSome h
  exact ⟨p, hp, optional_links_wrapped hp rfl⟩

end EcmaTree
