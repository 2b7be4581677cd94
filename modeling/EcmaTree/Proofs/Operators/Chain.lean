import EcmaTree.Grammar.Operators
import EcmaTree.Proofs.Constants
import EcmaTree.Proofs.Ends
import EcmaTree.Proofs.Tolerance

/-!
# Chains of operators

A chain is an operand and then operators, each with the operand behind it. A grouping is a tree that has the chain as
its reading from left to right. It is ordered if each operator binds no tighter than the one on its left and less
tightly than the one on its right. At most one grouping of a chain is ordered: its outermost operator is the last one
of those that bind the least.

`binary` reads a chain of operands and operators and joins them as it goes. The operators that wait on the stack bind
the tighter the later they have been read, so whatever the strengths are, the joined operands are ordered. Next to
`??`, neither `&&` nor `||` is read, whatever the strengths are.
-/

namespace EcmaTree

/-- How tightly the operator binds: the keywords are not in the table. -/
def BinaryOp.strength (override : Precedence.Override) : BinaryOp → Nat
  | inside | instanceof => Precedence.relationalKeyword
  | op => Precedence.strength override op.text

/-- An operator of a chain, and the operand behind it. -/
structure Link where
  op : BinaryOp
  operand : Node

/-- A tree over operands. -/
inductive Grouping where
  | operand (n : Node)
  | join (op : BinaryOp) (left right : Grouping)

namespace Grouping

/-- The leftmost operand. -/
def first : Grouping → Node
  | operand n => n
  | join _ left _ => left.first

/-- What follows the leftmost operand, from left to right. -/
def links : Grouping → List Link
  | operand _ => []
  | join op left right => left.links ++ ⟨op, right.first⟩ :: right.links

/-- The outermost operator. -/
def top? : Grouping → Option BinaryOp
  | operand _ => none
  | join op _ _ => some op

/-- The node is the tree. -/
def HeldBy : Grouping → Node → Prop
  | operand m, n => n = m
  | join op left right, n => ∃ a b, n.kind = .binary op a b ∧ left.HeldBy a ∧ right.HeldBy b

/-- An operator on the left binds at least as tightly as the one above it, an operator on the right binds tighter. -/
def Ordered (strength : BinaryOp → Nat) : Grouping → Prop
  | operand _ => True
  | join op left right => left.Ordered strength ∧ right.Ordered strength ∧
      (∀ o ∈ left.top?, strength op ≤ strength o) ∧ ∀ o ∈ right.top?, strength op < strength o

variable {strength : BinaryOp → Nat} {g g' : Grouping}

/-- What the outermost operator exceeds or equals, all operators do. -/
theorem Ordered.le_links {k : Nat} (h : g.Ordered strength) (htop : ∀ o ∈ g.top?, k ≤ strength o) :
    ∀ link ∈ g.links, k ≤ strength link.op := by
  induction g with
  | operand => nofun
  | join op left right ihl ihr =>
    obtain ⟨hleft, hright, above, below⟩ := h
    have hop : k ≤ strength op := htop op rfl
    have onLeft := ihl hleft fun o ho => Nat.le_trans hop (above o ho)
    have onRight := ihr hright fun o ho => Nat.le_trans hop (Nat.le_of_lt (below o ho))
    exact List.forall_mem_append.2 ⟨onLeft, List.forall_mem_cons.2 ⟨hop, onRight⟩⟩

/-- The place of the outermost operator of an ordered grouping shows in its reading: nothing on the left binds less
tightly than it, and everything on the right binds tighter. -/
theorem split_unique {ls rs ls' rs' : List Link} {x y : Link} (hsplit : ls ++ x :: rs = ls' ++ y :: rs')
    (hls : ∀ link ∈ ls, strength x.op ≤ strength link.op) (hrs : ∀ link ∈ rs, strength x.op < strength link.op)
    (hls' : ∀ link ∈ ls', strength y.op ≤ strength link.op) (hrs' : ∀ link ∈ rs', strength y.op < strength link.op) :
    ls = ls' ∧ x = y ∧ rs = rs' := by
  rcases List.append_eq_append_iff.1 hsplit with ⟨zs, rfl, hzs⟩ | ⟨zs, rfl, hzs⟩
  · cases zs with
    | nil => simpa using hzs
    | cons z zs =>
      obtain ⟨rfl, rfl⟩ := List.cons.inj hzs
      have := hls' x (by simp)
      have := hrs y (by simp)
      omega
  · cases zs with
    | nil => simpa [eq_comm] using hzs
    | cons z zs =>
      obtain ⟨rfl, rfl⟩ := List.cons.inj hzs
      have := hls y (by simp)
      have := hrs' x (by simp)
      omega

/-- A chain has one ordered grouping at most. -/
theorem Ordered.unique (h : g.Ordered strength) (h' : g'.Ordered strength) (hfirst : g.first = g'.first)
    (hlinks : g.links = g'.links) : g = g' := by
  induction g generalizing g' with
  | operand n =>
    cases g' with
    | operand => exact congrArg operand hfirst
    | join => simp [links] at hlinks
  | join op left right ihl ihr =>
    cases g' with
    | operand => simp [links] at hlinks
    | join op' left' right' =>
      obtain ⟨hleft, hright, above, below⟩ := h
      obtain ⟨hleft', hright', above', below'⟩ := h'
      obtain ⟨hls, hlink, hrs⟩ := split_unique hlinks (hleft.le_links above) (hright.le_links below)
        (hleft'.le_links above')
        (hright'.le_links below')
      obtain ⟨rfl, hbehind⟩ := Link.mk.inj hlink
      rw [ihl hleft hleft' hfirst hls, ihr hright hright' hbehind hrs]

end Grouping

end EcmaTree

/-! ## Reading a chain -/

namespace EcmaTree

open Parse

/-- Only nodes have been finished. -/
def ParseState.Joins (s t : ParseState) : Prop := ∃ finished record, t = { s with finished, record }

theorem ParseState.Joins.refl (s : ParseState) : s.Joins s := ⟨s.finished, s.record, rfl⟩

theorem ParseState.Joins.trans {s t u : ParseState} : s.Joins t → t.Joins u → s.Joins u := by
  rintro ⟨_, _, rfl⟩ ⟨finished, record, rfl⟩
  exact ⟨finished, record, rfl⟩

/-! ## Operators that may not stand side by side -/

/-- Does `??` stand beside `&&` or `||`? -/
def Mixed (ops : List BinaryOp) : Prop := .coalesce ∈ ops ∧ (.and ∈ ops ∨ .or ∈ ops)

/-- Only a logical operator completes a mix. -/
theorem Mixed.isLogical {ops : List BinaryOp} {op : BinaryOp} (h : Mixed (ops ++ [op])) (hops : ¬ Mixed ops) :
    op.isLogical = true := by
  unfold Mixed at *
  cases op <;> simp_all [BinaryOp.isLogical]

namespace Parse.LogicalMix

/-- The latches tell which logical operators have been read. -/
structure Reflects (m : LogicalMix) (ops : List BinaryOp) : Prop where
  andOr : m.allowsAndOr = false ↔ .coalesce ∈ ops
  coalesce : m.allowsCoalesce = false ↔ .and ∈ ops ∨ .or ∈ ops

variable {m : LogicalMix} {ops : List BinaryOp} {t : Token} {op : BinaryOp}

theorem Reflects.nil : Reflects {} [] := ⟨by simp, by simp⟩

/-- An operator is turned down just when it completes a mix. -/
theorem Reflects.allows_eq_false (h : m.Reflects ops) (hop : t.binaryOp? = some op) (hunmixed : ¬ Mixed ops) :
    m.allows t = false ↔ Mixed (ops ++ [op]) := by
  obtain ⟨andOr, coalesce⟩ := h
  unfold allows Mixed at *
  rw [hop]
  cases op <;> simp_all

theorem Reflects.after (h : m.Reflects ops) (hop : t.binaryOp? = some op) : (m.after t).Reflects (ops ++ [op]) := by
  obtain ⟨andOr, coalesce⟩ := h
  constructor
  · rw [LogicalMix.after, hop]
    cases op <;> simp_all
  · rw [LogicalMix.after, hop]
    cases op <;> simp_all

end Parse.LogicalMix

/-! ## Stacks -/

section
variable (strength : BinaryOp → Nat)

/-- The operator on top of the stack binds less tightly than the outermost one of the operand behind it. -/
def Exceeds (stack : List Pending) (right : Grouping) : Prop :=
  ∀ p ∈ stack.head?, ∀ o ∈ right.top?, p.strength < strength o

/-- The operators on the stack and the operand behind them make up the chain. Each operator binds tighter than the one
below it and no tighter than those in its left operand. -/
inductive Stacked (x : Node) : List Pending → Grouping → List Link → Prop
  | base {right : Grouping} : right.first = x → Stacked x [] right right.links
  | push {p : Pending} {stack : List Pending} {left right : Grouping} {links : List Link} {op : BinaryOp} :
      Stacked x stack left links → left.Ordered strength → Exceeds strength stack left → left.HeldBy p.left →
      p.operator.binaryOp? = some op → p.strength = strength op → (∀ o ∈ left.top?, strength op ≤ strength o) →
      (∀ q ∈ stack.head?, q.strength < strength op) →
      Stacked x (p :: stack) right (links ++ ⟨op, right.first⟩ :: right.links)

/-- The chain has been read, and `node` is the operand on top. -/
structure Groups (x : Node) (links : List Link) (stack : List Pending) (node : Node) (right : Grouping) : Prop where
  stacked : Stacked strength x stack right links
  ordered : right.Ordered strength
  exceeds : Exceeds strength stack right
  held : right.HeldBy node

end

variable {strength : BinaryOp → Nat} {x node : Node} {links more : List Link} {stack : List Pending} {p : Pending}
  {right left g : Grouping}

theorem Exceeds.operand (stack : List Pending) (n : Node) : Exceeds strength stack (.operand n) := by
  simp [Exceeds, Grouping.top?]

/-- A longer operand on top makes a longer chain. -/
theorem Stacked.extend (h : Stacked strength x stack left links) (hfirst : g.first = left.first)
    (hlinks : g.links = left.links ++ more) : Stacked strength x stack g (links ++ more) := by
  cases h with
  | base hx => exact hlinks ▸ .base (hfirst.trans hx)
  | push below ordered exceeds held hop hstrength above falls =>
    have pushed : Stacked strength x _ g _ := .push below ordered exceeds held hop hstrength above falls
    rw [hfirst, hlinks] at pushed
    simpa using pushed

namespace Groups

theorem start (x : Node) : Groups strength x [] [] x (.operand x) :=
  ⟨.base rfl, trivial, .operand _ _, rfl⟩

/-- The operator on top is joined. -/
theorem join (h : Groups strength x links (p :: stack) node right) : ∃ op left, p.operator.binaryOp? = some op ∧
    p.strength = strength op ∧
      ∀ n : Node, n.kind = .binary op p.left node → Groups strength x links stack n (.join op left right) := by
  obtain ⟨stacked, ordered, exceeds, held⟩ := h
  cases stacked with
  | @push _ _ left _ _ op below leftOrdered _ leftHeld hop hstrength above falls =>
    refine ⟨op, left, hop, hstrength, fun n hn => ⟨below.extend rfl rfl, ?_, ?_, p.left, node, hn, leftHeld, held⟩⟩
    · exact ⟨leftOrdered, ordered, above, fun o ho => hstrength ▸ exceeds p rfl o ho⟩
    · rintro q hq _ ⟨⟩
      exact falls q hq

/-- An operator waits for the operand behind it. -/
theorem push {first operator : Token} {op : BinaryOp} (y : Node) (h : Groups strength x links stack node right)
    (hop : operator.binaryOp? = some op) (above : ∀ o ∈ right.top?, strength op ≤ strength o)
    (falls : ∀ q ∈ stack.head?, q.strength < strength op) :
    Groups strength x (links ++ [⟨op, y⟩]) (⟨node, first, operator, strength op⟩ :: stack) y (.operand y) :=
  ⟨.push h.stacked h.ordered h.exceeds h.held hop rfl above falls, trivial, .operand _ _, rfl⟩

/-- Nothing waits. -/
theorem reading (h : Groups strength x links [] node g) : g.first = x ∧ g.links = links := by
  obtain ⟨stacked, -, -, -⟩ := h
  cases stacked with
  | base hx => exact ⟨hx, rfl⟩

end Groups

/-! ## Joining -/

namespace Parse

variable {s : ParseState} {op : BinaryOp}

theorem joinOperands_eq (node : Node) (lineAbove : Nat) (hop : p.operator.binaryOp? = some op) :
    ∃ n t, joinOperands p lineAbove node s = .ok n t ∧ s.Joins t ∧ n.kind = .binary op p.left node := by
  rw [joinOperands, hop]
  exact ⟨_, _, rfl, ⟨_, _, rfl⟩, rfl⟩

/-- What binds at least as tightly as the next operator is joined before it. -/
theorem reduceWhile_eq {k : Nat} (first : Token) (h : Groups strength x links stack node right)
    (hk : ∀ o ∈ right.top?, k ≤ strength o) : ∃ stack' node' first' t right',
      reduceWhile k stack node first s = .ok (stack', node', first') t ∧ s.Joins t ∧
        Groups strength x links stack' node' right' ∧ (∀ o ∈ right'.top?, k ≤ strength o) ∧
        ∀ q ∈ stack'.head?, q.strength < k := by
  induction stack generalizing node right first s with
  | nil => exact ⟨[], node, first, s, right, rfl, .refl s, h, hk, by simp⟩
  | cons p stack ih =>
    rw [reduceWhile]
    split
    next hle =>
      obtain ⟨op, left, hop, hstrength, joined⟩ := h.join
      obtain ⟨n, t, hrun, joins, hkind⟩ := joinOperands_eq (s := s) node p.first.lineStart hop
      obtain ⟨stack', node', first', u, right', hreduce, joins', h'⟩ := ih (s := t) p.first (joined n hkind) (by
        rintro _ ⟨⟩
        omega)
      exact ⟨stack', node', first', u, right', (bind_of_ok hrun).trans hreduce, joins.trans joins', h'⟩
    next hlt =>
      refine ⟨p :: stack, node, first, s, right, rfl, .refl s, h, hk, ?_⟩
      rintro _ ⟨⟩
      omega

theorem reduceAll_eq (first : Token) (h : Groups strength x links stack node right) :
    ∃ n t g, reduceAll stack node first s = .ok n t ∧ s.Joins t ∧ Groups strength x links [] n g := by
  induction stack generalizing node right first s with
  | nil => exact ⟨node, s, right, rfl, .refl s, h⟩
  | cons p stack ih =>
    obtain ⟨op, left, hop, -, joined⟩ := h.join
    obtain ⟨n, t, hrun, joins, hkind⟩ := joinOperands_eq (s := s) node first.lineStart hop
    obtain ⟨n', u, g, hreduce, joins', h'⟩ := ih (s := t) p.first (joined n hkind)
    exact ⟨n', u, g, (bind_of_ok hrun).trans hreduce, joins.trans joins', h'⟩

end Parse

/-! ## Runs -/

section
variable (nested : Nested)

/-- An operator is consumed, and the operand behind it is read. -/
def operandBehind : Parse Node := do
  skip
  nonPattern
  isolate (exponentiation nested)

/-- An operator that has a strength is ahead. -/
def OperatorAhead (s : ParseState) (op : BinaryOp) : Prop :=
  strengthOf s s.lookahead ≠ 0 ∧ s.lookahead.binaryOp? = some op

/-- Behind the first operand, operators and operands are read one after another. Only nodes are finished between them.
-/
inductive OperatorChain (s : ParseState) : List Link → ParseState → Prop
  | nil : OperatorChain s [] s
  | link {links : List Link} {t u v : ParseState} {op : BinaryOp} {y : Node} :
      OperatorChain s links t → OperatorAhead t op →
      t.Joins u → operandBehind nested u = .ok y v → OperatorChain s (links ++ [⟨op, y⟩]) v

/-- How the reading of a chain ends, from the state `s` behind its first operand `x`. -/
inductive ChainEnds (x : Node) (s : ParseState) : EStateM.Result Failure ParseState Node → Prop
  /-- No operator follows. The result is the one ordered grouping of the chain. -/
  | grouped {links : List Link} {t u : ParseState} {n : Node} {g : Grouping} : OperatorChain nested s links t →
      strengthOf t t.lookahead = 0 → ¬ Mixed (links.map Link.op) → t.Joins u → g.HeldBy n →
      (∀ other : Grouping, (other.first = x ∧ other.links = links ∧ other.Ordered (·.strength s.dialect.strengths)) ↔
        other = g) →
      ChainEnds x s (.ok n u)
  /-- The operator ahead is the first one that completes a mix. -/
  | mixed {links : List Link} {t u : ParseState} {op : BinaryOp} : OperatorChain nested s links t → OperatorAhead t op →
      ¬ Mixed (links.map Link.op) → Mixed (links.map Link.op ++ [op]) →
      ChainEnds x s (.error (.syntaxError (t.errorAt t.lookahead (.unexpectedToken op.text))) u)
  /-- What is behind the operator ahead cannot be read. -/
  | stopped {links : List Link} {t u v : ParseState} {op : BinaryOp} {e : Failure} : OperatorChain nested s links t →
      OperatorAhead t op → ¬ Mixed (links.map Link.op ++ [op]) → t.Joins u → operandBehind nested u = .error e v →
      ChainEnds x s (.error e v)
  /-- The punctuator ahead is no operator, though it has been given a strength. -/
  | foreign {links : List Link} {t u : ParseState} {e : Failure} : OperatorChain nested s links t →
      strengthOf t t.lookahead ≠ 0 → t.lookahead.binaryOp? = none → ChainEnds x s (.error e u)
  /-- The bound on loops is used up. -/
  | exhausted {links : List Link} {t : ParseState} : OperatorChain nested s links t → s.bound ≤ links.length →
      ChainEnds x s (.error .exhausted t)

end

namespace Parse

variable {nested : Nested} {s t u : ParseState} {op : BinaryOp} {α : Type}

/-- One operator and its right operand, as the loop of `binary` reads them. -/
def readLink (nested : Nested) : List Pending × Node × Token × LogicalMix →
    Parse (Progress (List Pending × Node × Token × LogicalMix)) := fun (stack, right, last, mix) => do
  let s ← get
  let operator := s.lookahead
  let strength := strengthOf s operator
  if strength = 0 then return .done (stack, right, last, mix)
  unless mix.allows operator do failAt operator
  let (stack, left, leftFirst) ← reduceWhile strength stack right last
  skip
  nonPattern
  let rightFirst ← ahead
  let right ← isolate (exponentiation nested)
  return .more (⟨left, leftFirst, operator, strength⟩ :: stack, right, rightFirst, mix.after operator)

theorem binary_eq (nested : Nested) : binary nested = (do
    let first ← ahead
    let operand ← inherit (exponentiation nested)
    let (stack, right, last, _) ← loop ([], operand, first, {}) (readLink nested)
    reduceAll stack right last) := rfl

theorem strengthOf_eq {s : ParseState} {t : Token} (hop : t.binaryOp? = some op) (h : strengthOf s t ≠ 0) :
    strengthOf s t = op.strength s.dialect.strengths := by
  unfold strengthOf at h ⊢
  unfold Token.binaryOp? at hop
  split at hop
  next p hp =>
    rw [hp] at h ⊢
    cases p <;> cases hop <;> rfl
  next hin =>
    rw [hin] at h ⊢
    cases hop
    exact if_pos (by by_contra hno; simp [hno] at h)
  next hinstanceof =>
    rw [hinstanceof]
    cases hop
    rfl
  · cases hop

/-- A logical operator in a wrong place is named. -/
theorem unexpectedCause_logical {t : Token} {strict : Bool} (hop : t.binaryOp? = some op)
    (hlogical : op.isLogical = true) :
    t.unexpectedCause strict = .unexpectedToken op.text := by
  unfold Token.binaryOp? at hop
  split at hop
  next p hp =>
    have text : t.text = op.text := by
      rw [Token.text, hp]
      cases p <;> cases hop <;> rfl
    rw [Token.unexpectedCause, hp, ← text]
  · cases hop
    cases hlogical
  · cases hop
    cases hlogical
  · cases hop

theorem operandBehind_constants (hn : Constants.contract.Reads (exponentiation nested)) (s : ParseState) :
    Judgement.onSuccess.Ensures (operandBehind nested) s fun _ t => t.constants = s.constants := by
  refine Judgement.bind .skip fun _ t ht => Judgement.bind (Judgement.Settles.nonPattern t) fun _ u hu => ?_
  refine Judgement.onSuccess.mono (hn.isolate u trivial) fun _ v h => ?_
  have hv : v.constants = u.constants := h.moved
  exact hv.trans (hu.constants.trans ht.constants)

/-- What is done with the operand does not matter to how it is read. -/
theorem operandBehind_run (nested : Nested) (s : ParseState) :
    (∃ e t, operandBehind nested s = .error e t ∧ ∀ f : Token → Node → Parse α, (do
      skip
      nonPattern
      let first ← ahead
      let right ← isolate (exponentiation nested)
      f first right) s = .error e t) ∨
    ∃ y t first, operandBehind nested s = .ok y t ∧ ∀ f : Token → Node → Parse α, (do
      skip
      nonPattern
      let first ← ahead
      let right ← isolate (exponentiation nested)
      f first right) s = f first y t := by
  have run (f : Token → Node → Parse α) : (do
      skip
      nonPattern
      let first ← ahead
      let right ← isolate (exponentiation nested)
      f first right) s = ((skip >>= fun _ => nonPattern) >>= fun _ => ahead >>= fun first =>
        isolate (exponentiation nested) >>= f first) s := by rw [bind_assoc]
  have alone : operandBehind nested s = ((skip >>= fun _ => nonPattern) >>= fun _ =>
    isolate (exponentiation nested)) s := by
    rw [bind_assoc]
    rfl
  simp only [run, alone]
  cases hskip : (skip >>= fun _ => nonPattern) s with
  | error e t => exact .inl ⟨e, t, bind_of_error hskip, fun f => bind_of_error hskip⟩
  | ok _ t =>
    have behind (f : Token → Node → Parse α) : ((skip >>= fun _ => nonPattern) >>= fun _ => ahead >>= fun first =>
        isolate (exponentiation nested) >>= f first) s = (isolate (exponentiation nested) >>= f t.lookahead) t :=
      bind_of_ok hskip
    simp only [behind, bind_of_ok hskip]
    cases hright : isolate (exponentiation nested) t with
    | error e u => exact .inl ⟨e, u, rfl, fun f => bind_of_error hright⟩
    | ok y u => exact .inr ⟨y, u, t.lookahead, rfl, fun f => bind_of_ok hright⟩

section
variable {mix : LogicalMix} {y : Node} {first : Token}

theorem readLink_done (h : strengthOf t t.lookahead = 0) :
    readLink nested (stack, y, first, mix) t = .ok (.done (stack, y, first, mix)) t := by
  rw [readLink, get_bind]
  simp only [h, if_true]
  rfl

theorem readLink_failed (h : strengthOf t t.lookahead ≠ 0) (hmix : mix.allows t.lookahead = false) :
    readLink nested (stack, y, first, mix) t = .error (.syntaxError (t.unexpected t.lookahead)) t := by
  rw [readLink, get_bind]
  simp only [h, hmix, if_false, Bool.false_eq_true]
  rfl

theorem readLink_run (nested : Nested) (h : strengthOf t t.lookahead ≠ 0) (hmix : mix.allows t.lookahead = true)
    {stack' : List Pending} {left : Node} {leftFirst : Token}
    (hreduce : reduceWhile (strengthOf t t.lookahead) stack y first t = .ok (stack', left, leftFirst) u) :
    readLink nested (stack, y, first, mix) t = (do
      skip
      nonPattern
      let rightFirst ← ahead
      let right ← isolate (exponentiation nested)
      return Progress.more (Pending.mk left leftFirst t.lookahead (strengthOf t t.lookahead) :: stack', right,
        rightFirst,
        mix.after t.lookahead)) u := by
  rw [readLink, get_bind]
  simp only [h, hmix, if_false, if_true]
  exact bind_of_ok hreduce

end

/-- A token that is no operator waits on the stack. -/
def Foreign (stack : List Pending) : Prop := ∃ p ∈ stack, p.operator.binaryOp? = none

theorem Foreign.below (h : Foreign (p :: stack)) (hop : p.operator.binaryOp? = some op) : Foreign stack := by
  obtain ⟨q, hq, hnone⟩ := h
  rcases List.mem_cons.1 hq with rfl | hq
  · rw [hop] at hnone
    cases hnone
  · exact ⟨q, hq, hnone⟩

/-- A token that is no operator is never joined. -/
theorem joinOperands_stops (lineAbove : Nat) (hop : p.operator.binaryOp? = none) :
    EcmaTree.Stops (joinOperands p lineAbove node) s := by
  rw [joinOperands, hop]
  exact .failHere

theorem reduceAll_stops {first : Token} (h : Foreign stack) : EcmaTree.Stops (reduceAll stack node first) s := by
  induction stack generalizing node first s with
  | nil => exact absurd h (by simp [Foreign])
  | cons p stack ih =>
    cases hop : p.operator.binaryOp? with
    | none => exact (joinOperands_stops _ hop).bind
    | some op => exact Judgement.bind (P := fun _ _ => True) (fun _ _ _ => trivial) fun n t _ => ih (h.below hop)

theorem reduceWhile_foreign {k : Nat} {first : Token} (h : Foreign stack) :
    Judgement.onSuccess.Ensures (reduceWhile k stack node first) s fun r _ => Foreign r.1 := by
  induction stack generalizing node first s with
  | nil => exact absurd h (by simp [Foreign])
  | cons p stack ih =>
    rw [reduceWhile]
    refine .ite (fun _ => ?_) fun _ => Judgement.onSuccess.ofPure h
    cases hop : p.operator.binaryOp? with
    | none => exact Judgement.bind (joinOperands_stops _ hop) fun _ _ => False.elim
    | some op => exact Judgement.bind (P := fun _ _ => True) (fun _ _ _ => trivial) fun n t _ => ih (h.below hop)

/-- Once a token that is no operator waits, or is to wait, the chain cannot be read. -/
theorem iterate_stops (nested : Nested) (bound : Nat) {r : List Pending × Node × Token × LogicalMix}
    (h : Foreign r.1 ∨ strengthOf t t.lookahead ≠ 0 ∧ t.lookahead.binaryOp? = none) :
    EcmaTree.Stops (iterate (readLink nested) bound r >>= fun (stack, right, last, _) =>
      reduceAll stack right last) t := by
  let I (r : List Pending × Node × Token × LogicalMix) (t : ParseState) : Prop :=
    Foreign r.1 ∨ strengthOf t t.lookahead ≠ 0 ∧ t.lookahead.binaryOp? = none
  have step (r : List Pending × Node × Token × LogicalMix) (t : ParseState) (h : I r t) :
      Judgement.onSuccess.Ensures (readLink nested r) t (Progress.Holds I fun r _ => Foreign r.1) := by
    obtain ⟨stack, right, last, mix⟩ := r
    refine .get (fun _ => rfl) (.ite (fun hzero => Judgement.onSuccess.ofPure ?_) fun hzero =>
      .ite (fun _ => ?_) fun _ => ?_)
    · exact h.resolve_right fun h => h.1 hzero
    · refine Judgement.bind (P := fun r _ => Foreign r.1 ∨ t.lookahead.binaryOp? = none) ?_
        fun (stack, left, first) u hu => ?_
      · rcases h with h | h
        · exact Judgement.onSuccess.mono (reduceWhile_foreign h) fun _ _ => .inl
        · exact fun _ _ _ => .inr h.2
      · have waits {first : Token} {k : Nat} : Foreign (⟨left, first, t.lookahead, k⟩ :: stack) := by
          rcases hu with ⟨q, hq, hnone⟩ | hnone
          · exact ⟨q, List.mem_cons_of_mem _ hq, hnone⟩
          · exact ⟨_, List.mem_cons_self, hnone⟩
        refine Judgement.bind (P := fun _ _ => True) (fun _ _ _ => trivial) fun _ _ _ => ?_
        refine Judgement.bind (P := fun _ _ => True) (fun _ _ _ => trivial) fun _ _ _ => ?_
        refine Judgement.bind (P := fun _ _ => True) (fun _ _ _ => trivial) fun _ _ _ => ?_
        refine Judgement.bind (P := fun _ _ => True) (fun _ _ _ => trivial) fun _ _ _ => ?_
        exact Judgement.onSuccess.ofPure (.inl waits)
    · exact Judgement.bind (Judgement.Ensures.failAt (Q := fun _ _ => False)) fun _ _ => False.elim
  exact Judgement.bind (.iterate step h) fun (stack, right, last, _) u h => reduceAll_stops h

/-- The loop of `binary`, behind what has been read of the chain. -/
theorem iterate_ends (hn : Constants.contract.Reads (exponentiation nested)) {bound : Nat} {first : Token}
    {mix : LogicalMix} {y : Node} (hchain : OperatorChain nested s links t)
    (hgroups : Groups (·.strength s.dialect.strengths) x links stack y (.operand y))
    (hmix : mix.Reflects (links.map Link.op))
    (hunmixed : ¬ Mixed (links.map Link.op)) (hconstants : t.constants = s.constants)
    (hbound : s.bound = links.length + bound) :
    ChainEnds nested x s ((iterate (readLink nested) bound (stack, y, first, mix) >>= fun (stack, right, last, _) =>
      reduceAll stack right last) t) := by
  induction bound generalizing links stack y first mix t with
  | zero => exact .exhausted hchain (Nat.le_of_eq hbound)
  | succ bound ih =>
    have hdialect : t.dialect = s.dialect := congrArg Prod.fst hconstants
    by_cases hzero : strengthOf t t.lookahead = 0
    · obtain ⟨n, u, g, hrun, joins, groups⟩ := reduceAll_eq (s := t) first hgroups
      have done : iterate (readLink nested) (bound + 1) (stack, y, first, mix) t = .ok (stack, y, first, mix) t :=
        bind_of_ok (readLink_done hzero)
      rw [bind_of_ok done]
      show ChainEnds nested x s (reduceAll stack y first t)
      rw [hrun]
      obtain ⟨hfirst, hlinks⟩ := groups.reading
      refine .grouped hchain hzero hunmixed joins groups.held fun other => ⟨fun ⟨hx, hother, ordered⟩ => ?_, ?_⟩
      · exact ordered.unique groups.ordered (hx.trans hfirst.symm) (hother.trans hlinks.symm)
      · rintro rfl
        exact ⟨hfirst, hlinks, groups.ordered⟩
    cases hop : t.lookahead.binaryOp? with
    | none =>
      obtain ⟨e, u, hrun⟩ := (iterate_stops nested (bound + 1) (r := (stack, y, first, mix))
        (.inr ⟨hzero, hop⟩)).eq_error
      rw [hrun]
      exact .foreign hchain hzero hop
    | some op =>
      have hstrength := strengthOf_eq hop hzero
      rw [hdialect] at hstrength
      cases hallows : mix.allows t.lookahead with
      | false =>
        have mixed := (hmix.allows_eq_false hop hunmixed).1 hallows
        have failed : iterate (readLink nested) (bound + 1) (stack, y, first, mix) t =
            .error (.syntaxError (t.unexpected t.lookahead)) t := bind_of_error (readLink_failed hzero hallows)
        rw [bind_of_error failed, ParseState.unexpected, unexpectedCause_logical hop (mixed.isLogical hunmixed)]
        exact .mixed hchain ⟨hzero, hop⟩ hunmixed mixed
      | true =>
        have unmixed : ¬ Mixed (links.map Link.op ++ [op]) := fun h => by
          rw [(hmix.allows_eq_false hop hunmixed).2 h] at hallows
          cases hallows
        obtain ⟨stack', left, leftFirst, u, right', hreduce, joins, groups, above, falls⟩ :=
          reduceWhile_eq (s := t) (k := strengthOf t t.lookahead) first hgroups (by simp [Grouping.top?])
        have run := readLink_run nested hzero hallows hreduce
        rcases operandBehind_run nested u with ⟨e, v, hbehind, hrest⟩ | ⟨y', v, rightFirst, hbehind, hrest⟩
        · have failed : iterate (readLink nested) (bound + 1) (stack, y, first, mix) t = .error e v :=
            bind_of_error (run.trans (hrest _))
          rw [bind_of_error failed]
          exact .stopped hchain ⟨hzero, hop⟩ unmixed joins hbehind
        · have more : iterate (readLink nested) (bound + 1) (stack, y, first, mix) t = iterate (readLink nested) bound
              (⟨left, leftFirst, t.lookahead, strengthOf t t.lookahead⟩ :: stack', y',
                rightFirst, mix.after t.lookahead) v :=
            bind_of_ok (run.trans (hrest _))
          have again {α : Type} (tail : List Pending × Node × Token × LogicalMix → Parse α) :
              (iterate (readLink nested) (bound + 1) (stack, y, first, mix) >>= tail) t =
                (iterate (readLink nested) bound
                (⟨left, leftFirst, t.lookahead, strengthOf t t.lookahead⟩ :: stack', y',
                  rightFirst, mix.after t.lookahead)
                  >>= tail) v := by simp only [bind, EStateM.bind, more]
          rw [again, hstrength]
          have kept := operandBehind_constants hn u y' v hbehind
          obtain ⟨_, _, rfl⟩ := joins
          refine ih (hchain.link ⟨hzero, hop⟩ ⟨_, _, rfl⟩ hbehind)
            (groups.push y' hop (fun o ho => hstrength ▸ above o ho) fun q hq => hstrength ▸ falls q hq) ?_ ?_
            (kept.trans hconstants) ?_
          · simpa using hmix.after hop
          · simpa using unmixed
          · rw [List.length_append, List.length_singleton]
            omega

end Parse

/-- Reading operands and the binary operators between them, whatever strengths the dialect gives, ends in one of the
ways of `ChainEnds`: the chain gives back its one ordered grouping, or an operator that completes a mix of `??` with
`&&` or `||` is an error. In the midst of a parse no bound is used up, whatever is recorded. -/
theorem binary_groups (levels : Nat) (s : ParseState) :
    (match inherit (exponentiation (atLevels levels)) s with
      | .error e t => binary (atLevels levels) s = .error e t
      | .ok x t => t.dialect = s.dialect ∧ ChainEnds (atLevels levels) x t (binary (atLevels levels) s)) ∧
    ∀ (text : String), Course.Stands text .ahead s → 2 * (text.utf8ByteSize + 1) ≤ levels →
      (∀ t, binary (atLevels levels) s ≠ .error .exhausted t) ∧
      ∀ record t, binary (atLevels levels) (s.sharing record) ≠ .error .exhausted t := by
  have hn := Constants.exponentiation_reads levels
  have first : ahead s = .ok s.lookahead s := rfl
  refine ⟨?_, fun text hs hlevels => ?_⟩
  · have kept := hn.inherit s trivial
    cases hx : inherit (exponentiation (atLevels levels)) s with
    | error e t =>
      rw [binary_eq]
      exact (bind_of_ok first).trans (bind_of_error hx)
    | ok x t =>
      have constants : t.constants = s.constants := (kept x t hx).moved
      refine ⟨congrArg Prod.fst constants, ?_⟩
      have run : binary (atLevels levels) s = (iterate (readLink (atLevels levels)) t.bound ([], x, s.lookahead, {}) >>=
          fun (stack, right, last, _) => reduceAll stack right last) t := by
        rw [binary_eq]
        exact (bind_of_ok first).trans (bind_of_ok hx)
      rw [run]
      exact iterate_ends hn .nil (.start x) .nil (by simp [Mixed]) rfl (by simp)
  · have sound : Course.Sound text _ (atLevels levels) := Course.atLevels_sound hlevels
    have ends : ∀ t, binary (atLevels levels) s ≠ .error .exhausted t :=
      (Course.binary_reads sound s ⟨hs, Nat.le_refl _, by omega⟩).not_exhausted
    refine ⟨ends, fun record t ht => ?_⟩
    have mirrors := binary_follows (r := record) (atLevels_followed levels) s hs.complete
    rw [ht] at mirrors
    generalize hrun : binary (atLevels levels) s = x at mirrors
    cases mirrors with
    | error _ _ => exact ends _ hrun

/-- A chain in a source, with operators that bind tighter, equally tight and less tightly than the one before. -/
theorem binary_groups_source : ∃ s x t n u, opening (.initial "a || b * c - d - e" {}) = .ok () s ∧
    inherit (exponentiation (atLevels 40)) s = .ok x t ∧ binary (atLevels 40) s = .ok n u ∧
    ChainEnds (atLevels 40) x t (.ok n u) ∧ Course.Stands "a || b * c - d - e" .ahead s ∧
    (∀ t, binary (atLevels 40) s ≠ .error .exhausted t) ∧
    ∀ record t, binary (atLevels 40) (s.sharing record) ≠ .error .exhausted t := by
  have reads : ((opening >>= fun _ => binary (atLevels 40)).run' (.initial "a || b * c - d - e" {})).isSome = true := by
    decide +kernel
  obtain ⟨n, hn⟩ := Option.isSome_iff_exists.1 reads
  obtain ⟨u, hrun⟩ := eq_ok_of_run' hn
  obtain ⟨_, s, hopening, hbinary⟩ := bind_eq_ok.1 hrun
  obtain ⟨v, hv, rfl⟩ := Judgement.Ensures.opening (J := .onSuccess) _ _ hopening
  have read := ((Course.stands_initial "a || b * c - d - e" {} 0).advances hv).1
  have stands : Course.Stands "a || b * c - d - e" .ahead { v with last := v.scanner.cursor.place } :=
    read.unrecorded (read.placed.congr rfl) rfl (Nat.le_refl _)
  obtain ⟨groups, ends⟩ := binary_groups 40 { v with last := v.scanner.cursor.place }
  cases hx : inherit (exponentiation (atLevels 40)) { v with last := v.scanner.cursor.place } with
  | error e t =>
    rw [hx] at groups
    cases hbinary.symm.trans groups
  | ok x t =>
    rw [hx, hbinary] at groups
    exact ⟨_, x, t, n, u, hopening, hx, hbinary, groups.2, stands, ends _ stands (by decide)⟩

end EcmaTree
