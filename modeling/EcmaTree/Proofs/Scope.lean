import EcmaTree.Syntax.Walk

/-!
# What encloses a node

Where a jump may lead, and whether code is strict, is told by the nodes around it. `Node.inside` says of every child
of a node what encloses it, and `Node.walkIn` lists all nodes of a tree with what encloses each of them.
-/

namespace EcmaTree

/-- What encloses a node: whether the code is strict, whether a function, a loop or a `switch` is around it in the same
function, and the labels around it. -/
structure Scope where
  strict : Bool
  inFunction : Bool
  inLoop : Bool
  inSwitch : Bool
  labels : List String
  deriving DecidableEq, Inhabited

namespace Node

/-- Is the node the directive `use strict`? -/
def isUseStrict (n : Node) : Bool :=
  match n.kind with
  | .expressionStatement _ (some text) => text == "use strict"
  | _ => false

/-- The statements of a block. Other nodes have none. -/
def statements (n : Node) : List Node :=
  match n.kind with
  | .block body => body
  | _ => []

end Node

namespace Scope

/-- Nothing encloses a program. -/
def outermost : Scope := ⟨false, false, false, false, []⟩

/-- The code is strict from here on, if the condition holds. -/
def tightened (σ : Scope) (condition : Bool) : Scope := { σ with strict := σ.strict || condition }

/-- What encloses the statements of a body: a directive among them may make it strict. -/
def under (σ : Scope) (body : List Node) : Scope := σ.tightened (body.any (·.isUseStrict))

/-- What encloses the parts of a function: labels, loops and `switch` around it do not reach into it. -/
def ofFunction (σ : Scope) : Scope := ⟨σ.strict, true, false, false, []⟩

/-- What encloses the body of a loop. -/
def ofLoop (σ : Scope) : Scope := { σ with inLoop := true }

/-- The nodes, each with what encloses all of them. -/
def around (σ : Scope) (nodes : List Node) : List (Scope × Node) := nodes.map (σ, ·)

variable {σ : Scope} {nodes : List Node}

@[simp] theorem map_around : (σ.around nodes).map Prod.snd = nodes := by simp [around, Function.comp_def]

theorem forall_mem_around {P : Scope × Node → Prop} : (∀ entry ∈ σ.around nodes, P entry) ↔ ∀ n ∈ nodes, P (σ, n) :=
  List.forall_mem_map

@[simp] theorem tightened_true : σ.tightened true = { σ with strict := true } := by simp [tightened]

@[simp] theorem under_nil : σ.under [] = σ := by simp [under, tightened]


end Scope

namespace Node

/-- The children of a node, each with what encloses it where `σ` encloses the node. -/
def inside (σ : Scope) (n : Node) : List (Scope × Node) :=
  match n.kind with
  | .program goal body => ((σ.tightened (goal == .module)).under body).around body
  | .classDefinition .. => (σ.tightened true).around n.children
  | .function _ name params body .. => σ.ofFunction.around (name.toList ++ params) ++
    [(σ.ofFunction.under body.statements, body)]
  | .labeledStatement label body =>
    [(σ, label), ({ σ with labels := label.identifierName?.toList ++ σ.labels }, body)]
  | .switchStatement discriminant cases => (σ, discriminant) :: { σ with inSwitch := true }.around cases
  | .whileStatement test body => [(σ, test), (σ.ofLoop, body)]
  | .doWhileStatement body test => [(σ.ofLoop, body), (σ, test)]
  | .forStatement init test step body => σ.around (init.toList ++ test.toList ++ step.toList) ++ [(σ.ofLoop, body)]
  | .forInStatement left right body _ | .forOfStatement left right body _ => [(σ, left), (σ, right), (σ.ofLoop, body)]
  | _ => σ.around n.children

variable {σ : Scope} {n : Node}

theorem inside_children : (n.inside σ).map Prod.snd = n.children := by
  obtain ⟨info, kind⟩ := n
  cases kind <;> simp [inside, children, Kind.children, Node.kind]

theorem mem_children_of_inside {entry : Scope × Node} (h : entry ∈ n.inside σ) : entry.2 ∈ n.children :=
  inside_children ▸ List.mem_map_of_mem h

/-- The nodes of a tree with what encloses them, where `σ` encloses the tree. -/
def walkIn (σ : Scope) (n : Node) : List (Scope × Node) :=
  (σ, n) :: (n.inside σ).attach.flatMap fun ⟨entry, _⟩ => walkIn entry.1 entry.2
termination_by sizeOf n
decreasing_by
  next h => exact sizeOf_lt_of_mem_children (mem_children_of_inside h)

theorem walkIn_eq (σ : Scope) (n : Node) :
    n.walkIn σ = (σ, n) :: (n.inside σ).flatMap fun entry => entry.2.walkIn entry.1 := by
  rw [walkIn]
  conv => rhs; rw [← List.attach_map_subtype_val (n.inside σ), List.flatMap_map]

/-- All nodes of the tree are listed. -/
theorem walkIn_walkFrom (depth : Nat) (σ : Scope) (n : Node) :
    (n.walkIn σ).map Prod.snd = (n.walkFrom depth).map Prod.snd := by
  have below : ∀ entry ∈ n.inside σ, (entry.2.walkIn entry.1).map Prod.snd =
    (entry.2.walkFrom (depth + 1)).map Prod.snd :=
    fun entry _ => walkIn_walkFrom (depth + 1) entry.1 entry.2
  rw [walkIn_eq, walkFrom_eq, ← @inside_children σ n, List.map_cons, List.map_cons, List.map_flatMap,
    List.flatMap_map, List.map_flatMap]
  rw [List.flatMap_def, List.flatMap_def, List.map_congr_left below]
termination_by sizeOf n
decreasing_by
  exact sizeOf_lt_of_mem_children (mem_children_of_inside ‹_›)

end Node

end EcmaTree
