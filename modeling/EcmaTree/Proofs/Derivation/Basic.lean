import EcmaTree.Grammar.Program
import EcmaTree.Proofs.Derivation.Parameters
import EcmaTree.Proofs.Lexer.Scan
import EcmaTree.Proofs.Tree

/-!
# The trees of strict parses

`Derives` is the grammar of the trees that strict parses give back, with what the productions know of their parts:
what the cover says of an expression, the labels, loops and functions around a statement, whether the code is strict,
and which names the parameters of a function tell apart. It says what the productions check, not what the language
asks for; where a production asks for nothing, neither does a rule here. What is true of all trees is proved by
induction on a derivation.
-/

namespace EcmaTree

/-! ## Symbols -/

/-- What the cover says that an expression may still become. -/
structure Prospect where
  target : Bool
  binding : Bool
  /-- No error is pending. -/
  settled : Bool

namespace Prospect

variable {p q r : Prospect}

/-- The first prospect promises no more than the second one. -/
instance : LE Prospect :=
  ⟨fun p q => (p.target = true → q.target = true) ∧ (p.binding = true → q.binding = true) ∧
    (p.settled = true → q.settled = true)⟩

/-- Everything is still open. -/
abbrev free : Prospect := ⟨true, true, true⟩

/-- An expression that stands for its value. -/
abbrev value : Prospect := ⟨false, false, true⟩

/-- Nothing is known. -/
abbrev bare : Prospect := ⟨false, false, false⟩

/-- What is left when the expression becomes a part of another one. -/
abbrev closed (p : Prospect) : Prospect := ⟨false, false, p.settled⟩

theorem le_iff : p ≤ q ↔
    (p.target = true → q.target = true) ∧ (p.binding = true → q.binding = true) ∧
    (p.settled = true → q.settled = true) :=
  .rfl

theorem le_refl (p : Prospect) : p ≤ p := ⟨id, id, id⟩

theorem le_trans (h : p ≤ q) (h' : q ≤ r) : p ≤ r := ⟨h'.1 ∘ h.1, h'.2.1 ∘ h.2.1, h'.2.2 ∘ h.2.2⟩

theorem le_free (p : Prospect) : p ≤ free := by simp [le_iff]

theorem bare_le (p : Prospect) : bare ≤ p := by simp [le_iff]

end Prospect

/-- What the cover says. -/
def Cover.prospect (c : Cover) : Prospect := ⟨c.isAssignmentTarget, c.isBindingElement, c.pending.isNone⟩

/-- The forms of what a cover says something about. -/
inductive Form where
  | expression
  /-- A chain so far. `optional`: is one of its links? -/
  | links (optional : Bool)
  /-- An element of an array or an argument. -/
  | element
  /-- A member of an object. -/
  | member

/-- What a tree may be derived from. -/
inductive Symbol where
  | covered (form : Form) (prospect : Prospect)
  /-- The target of a loop over keys or values. -/
  | loopTarget
  /-- A parameter of an arrow function. -/
  | parameter
  /-- A binding pattern. -/
  | pattern
  /-- A member of an object pattern that binds. -/
  | memberPattern
  /-- A name with a default value that is a member of an object pattern that binds. -/
  | defaultedName
  /-- A member of an object that became a pattern. -/
  | memberParameter
  /-- The body of a function. -/
  | body
  /-- A statement of a body or of a program, which may be a directive. -/
  | bodyItem
  /-- An expression whose pending error nobody asks for, or a declaration. -/
  | dropped
  /-- Any node in which no error is pending. -/
  | node

abbrev Symbol.expression (p : Prospect) : Symbol := .covered .expression p

abbrev Symbol.links (optional : Bool) (p : Prospect) : Symbol := .covered (.links optional) p

abbrev Symbol.element (p : Prospect) : Symbol := .covered .element p

abbrev Symbol.member (p : Prospect) : Symbol := .covered .member p

/-! ## Nodes with rules of their own -/

/-- Is the kind one without a rule of its own? -/
def Kind.isPlain {α : Type} : Kind α → Bool
  | .templateElement .. | .block _ | .emptyStatement | .expressionStatement _ none | .ifStatement .. | .switchCase ..
  | .throwStatement _ | .tryStatement .. | .catchClause .. | .debuggerStatement | .variableDeclaration ..
  | .variableDeclarator .. | .classBody _ | .methodDefinition .. | .importDeclaration .. | .importSpecifier ..
  | .importDefaultSpecifier _ | .importNamespaceSpecifier _ | .exportNamedDeclaration .. | .exportAllDeclaration _
  | .exportSpecifier .. | .jsxOpeningElement .. | .jsxClosingElement _ | .jsxOpeningFragment | .jsxClosingFragment
  | .jsxIdentifier _ | .jsxNamespacedName .. | .jsxMember .. | .jsxAttribute .. | .jsxExpressionContainer _
  | .jsxEmptyExpression | .jsxText .. => true
  | _ => false

namespace Node

theorem eq_identifier {n : Node} {name : String} (h : n.identifierName? = some name) :
    ∃ i, n = .mk i (.identifier name) := by
  obtain ⟨i, kind⟩ := n
  cases kind <;> simp_all [identifierName?, kind]

/-- Is the node a member of an object that is a method or an accessor? -/
def isMethod (n : Node) : Bool :=
  match n.kind with
  | .property kind _ _ _ method _ => kind != .init || method
  | _ => false

/-- Is the node `super`? -/
def isSuper (n : Node) : Bool :=
  match n.kind with
  | .super => true
  | _ => false

/-- Is the node something spread into a list? -/
def isSpread (n : Node) : Bool :=
  match n.kind with
  | .spread _ => true
  | _ => false

/-- Is the leftmost operand of the chain the name `async` or an asynchronous function? -/
def beginsAsync : Node → Bool
  | .mk _ (.identifier name) => name == "async"
  | .mk _ (.function _ _ _ _ _ _ async) => async
  | .mk _ (.member owner ..) => beginsAsync owner
  | .mk _ (.call callee ..) => beginsAsync callee
  | .mk _ (.taggedTemplate tag _) => beginsAsync tag
  | _ => false

end Node

/-! ## Derivations -/

open Parse (directiveText? literalOf qualifiedName isAssignment)

/-- The node is a tree of the symbol in the scope. The source has `size` bytes. -/
inductive Derives (size : Nat) : Scope → Symbol → Node → Prop
  | weaken {σ : Scope} {form : Form} {p q : Prospect} {n : Node} : p ≤ q → Derives size σ (.covered form q) n →
      Derives size σ (.covered form p) n
  -- Primary expressions
  | identifier {σ : Scope} {i : NodeInfo} {name : String} :
      Derives size σ (.expression .free) (.mk i (.identifier name))
  | literal {σ : Scope} {i : NodeInfo} {t : Token} : t.Marked → (t.isLegacy = true → σ.strict = false) →
      Derives size σ (.expression .value) (.mk i (literalOf t))
  | regex {σ : Scope} {i : NodeInfo} {literal : RegexLiteral} {raw : String} :
      Derives size σ (.expression .value) (.mk i (.literal (.regex literal) raw))
  | thisExpression {σ : Scope} {i : NodeInfo} : Derives size σ (.expression .value) (.mk i .this)
  | importKeyword {σ : Scope} {i : NodeInfo} : Derives size σ (.expression .value) (.mk i .importKeyword)
  | metaProperty {σ : Scope} {i : NodeInfo} {owner field : Node} :
      Derives size σ .node owner → Derives size σ .node field →
      Derives size σ (.expression .free) (.mk i (.metaProperty owner field))
  | template {σ : Scope} {i : NodeInfo} {quasis expressions : List Node} :
      (∀ n ∈ quasis ++ expressions, Derives size σ .node n) →
      Derives size σ (.expression .free) (.mk i (.template quasis expressions))
  | array {σ : Scope} {i : NodeInfo} {p : Prospect} {elements : List (Option Node)} :
      (∀ n ∈ Kind.present elements, Derives size σ (.element p) n) →
        Derives size σ (.expression p) (.mk i (.array elements))
  | object {σ : Scope} {i : NodeInfo} {p : Prospect} {members : List Node} :
      (∀ n ∈ members, Derives size σ (.member p) n) → Derives size σ (.expression p) (.mk i (.object members))
  /-- The parameters of a method may let go of an error that is pending around it. -/
  | objectWithMethod {σ : Scope} {i : NodeInfo} {members : List Node} : (∃ n ∈ members, n.isMethod = true) →
      (∀ n ∈ members, Derives size σ (.member .bare) n) → Derives size σ (.expression .value) (.mk i (.object members))
  | classDefinition {σ : Scope} {i : NodeInfo} {form : ClassForm} {name superClass : Option Node} {body : Node} :
      (∀ n ∈ name, Derives size (σ.tightened true) .node n) →
      (∀ n ∈ superClass, Derives size (σ.tightened true) .node n) → Derives size (σ.tightened true) .node body →
      Derives size σ (.expression .value) (.mk i (.classDefinition form name superClass body))
  -- Elements and members
  | operand {σ : Scope} {p : Prospect} {n : Node} : Derives size σ (.expression p) n → Derives size σ (.element p) n
  | spread {σ : Scope} {i : NodeInfo} {p : Prospect} {argument : Node} : Derives size σ (.expression p) argument →
      Derives size σ (.element p) (.mk i (.spread argument))
  | spreadMember {σ : Scope} {i : NodeInfo} {p : Prospect} {argument : Node} : Derives size σ (.expression p) argument →
      Derives size σ (.member p) (.mk i (.spread argument))
  | property {σ : Scope} {i : NodeInfo} {p : Prospect} {key value : Node} {computed : Bool} : Derives size σ .node key →
      Derives size σ (.expression p) value →
      Derives size σ (.member p) (.mk i (.property .init key value computed false false))
  | shorthand {σ : Scope} {i j : NodeInfo} {key : Node} {name : String} {computed : Bool} : Derives size σ .node key →
      Derives size σ (.member .free) (.mk i (.property .init key (.mk j (.identifier name)) computed false true))
  /-- A member `name = value`, which is an error unless the object becomes a pattern. -/
  | initialized {σ : Scope} {i j : NodeInfo} {key left right : Node} {computed : Bool} : Derives size σ .node key →
      left.isIdentifier = true → Derives size σ .node left → Derives size σ .node right →
      Derives size σ (.member ⟨true, true, false⟩)
        (.mk i (.property .init key (.mk j (.assignmentPattern left right)) computed false true))
  | method {σ : Scope} {i : NodeInfo} {kind : PropertyKind} {key value : Node} {computed isMethod : Bool} :
      (kind != .init || isMethod) = true → Derives size σ .node key → Derives size σ (.expression .free) value →
      Derives size σ (.member .value) (.mk i (.property kind key value computed isMethod false))
  -- Chains
  | base {σ : Scope} {p : Prospect} {n : Node} : Derives size σ (.expression p) n → Derives size σ (.links false p) n
  | superBase {σ : Scope} {i : NodeInfo} : Derives size σ (.links false .free) (.mk i .super)
  | member {σ : Scope} {i : NodeInfo} {p : Prospect} {owner field : Node} {chained computed optional : Bool} :
      Derives size σ (.links chained p) owner → Derives size σ .node field →
      Derives size σ (.links (chained || optional) ⟨!optional, false, p.settled⟩)
        (.mk i (.member owner field computed optional))
  | taggedTemplate {σ : Scope} {i : NodeInfo} {p : Prospect} {tag quasi : Node} : tag.isSuper = false →
      Derives size σ (.links false p) tag → Derives size σ .node quasi →
      Derives size σ (.links false p) (.mk i (.taggedTemplate tag quasi))
  | call {σ : Scope} {i : NodeInfo} {p : Prospect} {callee : Node} {args : List Node} {chained optional : Bool} :
      Derives size σ (.links chained p) callee →
      (∀ n ∈ args, n.isSpread = false → Derives size σ (.expression .value) n) →
      (∀ n ∈ args, n.isSpread = true → Derives size σ (.element p) n) →
      Derives size σ (.links (chained || optional) p.closed) (.mk i (.call callee args optional))
  /-- The arguments of `async` might have become parameters. -/
  | asyncCall {σ : Scope} {i : NodeInfo} {p : Prospect} {callee : Node} {args : List Node} {chained optional : Bool} :
      callee.beginsAsync = true → Derives size σ (.links chained p) callee →
      (∀ n ∈ args, n.isSpread = false → Derives size σ (.expression .bare) n) →
      (∀ n ∈ args, n.isSpread = true → Derives size σ (.element p) n) →
      Derives size σ (.links (chained || optional) p.closed) (.mk i (.call callee args optional))
  | endChain {σ : Scope} {p : Prospect} {n : Node} : n.isSuper = false → Derives size σ (.links false p) n →
      Derives size σ (.expression p) n
  | chain {σ : Scope} {i : NodeInfo} {p : Prospect} {n : Node} : Derives size σ (.links true p) n →
      Derives size σ (.expression p) (.mk i (.chain n))
  | newExpression {σ : Scope} {i : NodeInfo} {p : Prospect} {callee : Node} {args : List Node} :
      Derives size σ (.expression .value) callee →
      (∀ n ∈ args, n.isSpread = false → Derives size σ (.expression .value) n) →
      (∀ n ∈ args, n.isSpread = true → Derives size σ (.element p) n) →
      Derives size σ (.expression p.closed) (.mk i (.new callee args))
  -- Operators
  | update {σ : Scope} {i : NodeInfo} {p : Prospect} {op : UpdateOp} {n : Node} {before : Bool} : p.target = true →
      Derives size σ (.expression p) n → Derives size σ (.expression p.closed) (.mk i (.update op n before))
  | unary {σ : Scope} {i : NodeInfo} {p : Prospect} {op : UnaryOp} {n : Node} :
      (σ.strict = true → op = .delete → n.isIdentifier = false) → Derives size σ (.expression p) n →
      Derives size σ (.expression p.closed) (.mk i (.unary op n true))
  | await {σ : Scope} {i : NodeInfo} {p : Prospect} {n : Node} : Derives size σ (.expression p) n →
      Derives size σ (.expression p) (.mk i (.await n))
  | binary {σ : Scope} {i : NodeInfo} {p : Prospect} {op : BinaryOp} {left right : Node} :
      Derives size σ (.expression p) left → Derives size σ (.expression .value) right →
      Derives size σ (.expression p.closed) (.mk i (.binary op left right))
  | conditional {σ : Scope} {i : NodeInfo} {p : Prospect} {test consequent alternate : Node} :
      Derives size σ (.expression p) test → Derives size σ (.expression .value) consequent →
      Derives size σ (.expression .value) alternate →
      Derives size σ (.expression p.closed) (.mk i (.conditional test consequent alternate))
  | yieldNothing {σ : Scope} {i : NodeInfo} {delegate : Bool} :
      Derives size σ (.expression .free) (.mk i (.yield none delegate))
  | yield {σ : Scope} {i : NodeInfo} {p : Prospect} {n : Node} {delegate : Bool} : Derives size σ (.expression p) n →
      Derives size σ (.expression p) (.mk i (.yield (some n) delegate))
  | sequence {σ : Scope} {i : NodeInfo} {p : Prospect} {expressions : List Node} :
      (∀ n ∈ expressions, Derives size σ (.expression p) n) →
      Derives size σ (.expression { p with target := false }) (.mk i (.sequence expressions))
  | assignment {σ : Scope} {i : NodeInfo} {p : Prospect} {left right : Node} : p.target = true →
      Derives size σ (.expression p) left → Derives size σ (.expression .value) right →
      Derives size σ (.expression { p with settled := true }) (.mk i (.assignment .assign left.toPattern right))
  | compound {σ : Scope} {i : NodeInfo} {p : Prospect} {op : AssignOp} {left right : Node} :
      op ≠ .assign → p.target = true →
      Derives size σ (.expression p) left → Derives size σ (.expression .value) right →
      Derives size σ (.expression .value) (.mk i (.assignment op left right))
  -- Functions
  | function {σ : Scope} {i : NodeInfo} {form : FunctionForm} {name : Option Node} {params : List Node} {body : Node}
      {generator concise async : Bool} : form ≠ .arrow → (∀ n ∈ name, Derives size σ.ofFunction .node n) →
      (∀ n ∈ params, Derives size σ.ofFunction .pattern n) →
        Derives size (σ.ofFunction.under body.statements) .body body →
      DistinctNames (σ.under body.statements).strict async (name.any Node.isForbidden) params →
      Derives size σ (.expression .free) (.mk i (.function form name params body generator concise async))
  | arrow {σ : Scope} {i : NodeInfo} {params : List Node} {body : Node} {concise async : Bool} :
      (∀ n ∈ params, Derives size σ.ofFunction .parameter n) →
        Derives size (σ.ofFunction.under body.statements) .body body →
      DistinctNames σ.strict true false params →
      Derives size σ (.expression .free) (.mk i (.function .arrow none params body false concise async))
  /-- Before the arrow nobody knows what will enclose the parameters. -/
  | waiting {σ : Scope} {i : NodeInfo} {params : List Node} {async : Bool} :
      (∀ outer : Scope, ∀ n ∈ params, Derives size { outer with strict := σ.strict } .parameter n) →
      Derives size σ (.expression .free) (.mk i (.arrowParameters params async))
  /-- The arguments of `async` that became parameters. -/
  | waitingChain {σ : Scope} {i : NodeInfo} {params : List Node} {optional : Bool} :
      (∀ outer : Scope, ∀ n ∈ params, Derives size { outer with strict := σ.strict } .parameter n) →
      Derives size σ (.links optional .free) (.mk i (.arrowParameters params true))
  | operandParameter {σ : Scope} {n : Node} : Derives size σ (.element .bare) n → Derives size σ .parameter n.toPattern
  | restParameter {σ : Scope} {i : NodeInfo} {argument : Node} : Derives size σ .parameter argument →
      Derives size σ .memberParameter (.mk i (.rest argument))
  | propertyParameter {σ : Scope} {i : NodeInfo} {kind : PropertyKind} {key value : Node}
      {computed isMethod shorthand : Bool} :
      Derives size σ .node key → Derives size σ .parameter value →
      Derives size σ .memberParameter (.mk i (.property kind key value computed isMethod shorthand))
  | boundParameter {σ : Scope} {n : Node} : Derives size σ .pattern n → Derives size σ .parameter n
  /-- A default value `yield` becomes the name. -/
  | yieldParameter {σ : Scope} {n left right : Node} {delegate : Bool} : Derives size σ .parameter n →
      n.kind = .assignmentPattern left right → right.kind = .yield none delegate →
      Derives size σ .parameter (n.withKind (.assignmentPattern left (right.withKind (.identifier "yield"))))
  | concise {σ : Scope} {n : Node} : Derives size σ (.expression .value) n → Derives size σ .body n
  | body {σ : Scope} {i : NodeInfo} {statements : List Node} : (∀ n ∈ statements, Derives size σ .bodyItem n) →
      Derives size σ .body (.mk i (.block statements))
  | directive {σ : Scope} {i j : NodeInfo} {t : Token} {text : String} : t.isString = true →
      directiveText? t (.mk j (literalOf t)) = some text →
      Derives size σ .bodyItem (.mk i (.expressionStatement (.mk j (literalOf t)) (some text)))
  | item {σ : Scope} {n : Node} : Derives size σ .node n → Derives size σ .bodyItem n
  -- Binding patterns
  | namePattern {σ : Scope} {i : NodeInfo} {name : String} : Derives size σ .pattern (.mk i (.identifier name))
  | arrayPattern {σ : Scope} {i : NodeInfo} {elements : List (Option Node)} :
      (∀ n ∈ Kind.present elements, Derives size σ .pattern n) →
        Derives size σ .pattern (.mk i (.arrayPattern elements))
  | objectPattern {σ : Scope} {i : NodeInfo} {members : List Node} : (∀ n ∈ members, Derives size σ .memberPattern n) →
      Derives size σ .pattern (.mk i (.objectPattern members))
  | rest {σ : Scope} {i : NodeInfo} {argument : Node} : Derives size σ .pattern argument →
      Derives size σ .pattern (.mk i (.rest argument))
  | assignmentPattern {σ : Scope} {i : NodeInfo} {left right : Node} : Derives size σ .pattern left →
      Derives size σ .node right → Derives size σ .pattern (.mk i (.assignmentPattern left right))
  | restMember {σ : Scope} {i : NodeInfo} {argument : Node} : Derives size σ .pattern argument →
      Derives size σ .memberPattern (.mk i (.rest argument))
  | propertyPattern {σ : Scope} {i : NodeInfo} {key value : Node} {computed : Bool} : Derives size σ .node key →
      Derives size σ .pattern value →
      Derives size σ .memberPattern (.mk i (.property .init key value computed false false))
  | shorthandPattern {σ : Scope} {i j : NodeInfo} {key : Node} {name : String} : Derives size σ .node key →
      Derives size σ .memberPattern (.mk i (.property .init key (.mk j (.identifier name)) false false true))
  | initializedPattern {σ : Scope} {i : NodeInfo} {key value : Node} : Derives size σ .node key →
      Derives size σ .defaultedName value →
        Derives size σ .memberPattern (.mk i (.property .init key value false false true))
  | defaultedName {σ : Scope} {i : NodeInfo} {left right : Node} :
      left.isIdentifier = true → Derives size σ .pattern left →
      Derives size σ .dropped right → Derives size σ .defaultedName (.mk i (.assignmentPattern left right))
  -- Targets
  | target {σ : Scope} {p : Prospect} {n : Node} : p.target = true → isAssignment n = false →
      Derives size σ (.expression p) n → Derives size σ .loopTarget n.toPattern
  | declared {σ : Scope} {i : NodeInfo} {kind : VariableKind} {declarations : List Node} :
      (∀ n ∈ declarations, Derives size σ .node n) →
        Derives size σ .loopTarget (.mk i (.variableDeclaration kind declarations))
  -- Statements
  | program {σ : Scope} {i : NodeInfo} {goal : Goal} {body : List Node} :
      (∀ n ∈ body, Derives size ((σ.tightened (goal == .module)).under body) .bodyItem n) →
      Derives size σ .node (.mk i (.program goal body))
  | labeled {σ : Scope} {i : NodeInfo} {label body : Node} {name : String} : label.identifierName? = some name →
      name ∉ σ.labels → Derives size σ .node label → Derives size { σ with labels := name :: σ.labels } .node body →
      Derives size σ .node (.mk i (.labeledStatement label body))
  | breakStatement {σ : Scope} {i : NodeInfo} {label : Option Node} :
      (label = none → σ.inLoop = true ∨ σ.inSwitch = true) →
      (∀ n ∈ label, ∃ name ∈ σ.labels, n.identifierName? = some name) → (∀ n ∈ label, Derives size σ .node n) →
      Derives size σ .node (.mk i (.breakStatement label))
  | continueStatement {σ : Scope} {i : NodeInfo} {label : Option Node} : (label = none → σ.inLoop = true) →
      (∀ n ∈ label, ∃ name ∈ σ.labels, n.identifierName? = some name) → (∀ n ∈ label, Derives size σ .node n) →
      Derives size σ .node (.mk i (.continueStatement label))
  | returnStatement {σ : Scope} {i : NodeInfo} {argument : Option Node} : σ.inFunction = true →
      (∀ n ∈ argument, Derives size σ .node n) → Derives size σ .node (.mk i (.returnStatement argument))
  | withStatement {σ : Scope} {i : NodeInfo} {scope body : Node} : σ.strict = false → Derives size σ .node scope →
      Derives size σ .node body → Derives size σ .node (.mk i (.withStatement scope body))
  | switchStatement {σ : Scope} {i : NodeInfo} {discriminant : Node} {cases : List Node} :
      Derives size σ .node discriminant →
      (∀ n ∈ cases, Derives size { σ with inSwitch := true } .node n) →
      Derives size σ .node (.mk i (.switchStatement discriminant cases))
  | whileStatement {σ : Scope} {i : NodeInfo} {test body : Node} : Derives size σ .node test →
      Derives size σ.ofLoop .node body → Derives size σ .node (.mk i (.whileStatement test body))
  | doWhileStatement {σ : Scope} {i : NodeInfo} {body test : Node} : Derives size σ.ofLoop .node body →
      Derives size σ .node test → Derives size σ .node (.mk i (.doWhileStatement body test))
  | forStatement {σ : Scope} {i : NodeInfo} {init test step : Option Node} {body : Node} :
      (∀ n ∈ init, Derives size σ .dropped n) →
      (∀ n ∈ test, Derives size σ .node n) → (∀ n ∈ step, Derives size σ .node n) →
      Derives size σ.ofLoop .node body → Derives size σ .node (.mk i (.forStatement init test step body))
  | forInStatement {σ : Scope} {i : NodeInfo} {left right body : Node} : Derives size σ .loopTarget left →
      Derives size σ .node right →
      Derives size σ.ofLoop .node body → Derives size σ .node (.mk i (.forInStatement left right body false))
  | forOfStatement {σ : Scope} {i : NodeInfo} {left right body : Node} {async : Bool} :
      Derives size σ .loopTarget left →
      Derives size σ .dropped right → Derives size σ.ofLoop .node body →
      Derives size σ .node (.mk i (.forOfStatement left right body async))
  | exportDefaultDeclaration {σ : Scope} {i : NodeInfo} {declaration : Node} : Derives size σ .dropped declaration →
      Derives size σ .node (.mk i (.exportDefaultDeclaration declaration))
  -- JSX
  | selfClosing {σ : Scope} {i : NodeInfo} {opening name : Node} {attributes : List Node} :
      Derives size σ .node opening →
      opening.kind = .jsxOpeningElement name attributes true →
      Derives size σ (.expression .free) (.mk i (.jsxElement opening [] none))
  | element {σ : Scope} {i : NodeInfo} {opening closing name name' : Node} {attributes content : List Node} :
      Derives size σ .node opening → (∀ n ∈ content, Derives size σ .node n) → Derives size σ .node closing →
      opening.kind = .jsxOpeningElement name attributes false → closing.kind = .jsxClosingElement name' →
      qualifiedName name = qualifiedName name' →
      Derives size σ (.expression .free) (.mk i (.jsxElement opening content (some closing)))
  | fragment {σ : Scope} {i : NodeInfo} {opening closing : Node} {content : List Node} : Derives size σ .node opening →
      (∀ n ∈ content, Derives size σ .node n) → Derives size σ .node closing → opening.kind = .jsxOpeningFragment →
      closing.kind = .jsxClosingFragment →
      Derives size σ (.expression .free) (.mk i (.jsxFragment opening content closing))
  /-- The source ends inside the element. -/
  | unclosed {σ : Scope} {i : NodeInfo} {e : Extent} {opening : Node} {content : List Node} :
      Derives size σ .node opening →
      (∀ n ∈ content, Derives size σ .node n) → Parse.isSelfClosing opening = false → i.extent = some e →
      e.stop.offset = size → Derives size σ (.expression .free) (.mk i (.jsxElement opening content none))
  | container {σ : Scope} {i : NodeInfo} {e : Node} : Derives size σ .dropped e →
      Derives size σ .node (.mk i (.jsxExpressionContainer e))
  | spreadAttribute {σ : Scope} {i : NodeInfo} {argument : Node} : Derives size σ .dropped argument →
      Derives size σ .node (.mk i (.jsxSpreadAttribute argument))
  -- Other nodes
  | complete {σ : Scope} {p : Prospect} {n : Node} : p.settled = true → Derives size σ (.expression p) n →
      Derives size σ .node n
  | bound {σ : Scope} {n : Node} : Derives size σ .pattern n → Derives size σ .node n
  | text {σ : Scope} {i : NodeInfo} {t : Token} : t.isString = true → Derives size σ .node (.mk i (literalOf t))
  | plain {σ : Scope} {i : NodeInfo} {kind : Kind Node} :
      kind.isPlain = true → (∀ n ∈ kind.children, Derives size σ .node n) →
      Derives size σ .node (.mk i kind)
  | drop {σ : Scope} {p : Prospect} {n : Node} : Derives size σ (.expression p) n → Derives size σ .dropped n
  | whole {σ : Scope} {n : Node} : Derives size σ .node n → Derives size σ .dropped n

namespace Derives

variable {size : Nat} {σ : Scope} {p : Prospect} {i : NodeInfo} {n : Node}

/-- Something that stands for its value. -/
theorem of_value (h : Derives size σ (.expression .value) n) : Derives size σ .node n := .complete rfl h

theorem of_free (h : Derives size σ (.expression .free) n) : Derives size σ (.expression p) n := .weaken p.le_free h

theorem to_bare (h : Derives size σ (.expression p) n) : Derives size σ (.expression .bare) n := .weaken p.bare_le h

/-- Only elements and members are spread. -/
theorem isSpread {form : Form} (h : Derives size σ (.covered form p) n) (hform : form ≠ .element ∧ form ≠ .member) :
    n.isSpread = false := by
  generalize hs : Symbol.covered form p = symbol at h
  induction h generalizing form p with
  | weaken _ _ ih =>
    cases hs
    exact ih hform rfl
  | base _ ih | endChain _ _ ih => exact ih (by simp) rfl
  | _ => first | rfl | (cases hs <;> simp at hform)

/-- Something must follow `super`. -/
theorem isSuper {form : Form} (h : Derives size σ (.covered form p) n) (hform : form ≠ .links false) :
    n.isSuper = false := by
  generalize hs : Symbol.covered form p = symbol at h
  induction h generalizing form p with
  | weaken _ _ ih =>
    cases hs
    exact ih hform rfl
  | operand _ ih => exact ih (by simp) rfl
  | base | superBase =>
    cases hs
    exact absurd rfl hform
  | endChain h => exact h
  | _ => first | rfl | cases hs

/-- An expression is no block. -/
theorem statements_eq_nil {form : Form} (h : Derives size σ (.covered form p) n) : n.statements = [] := by
  generalize hs : Symbol.covered form p = symbol at h
  induction h generalizing form p with
  | weaken _ _ ih | operand _ ih | base _ ih | endChain _ _ ih => exact ih rfl
  | _ => first | rfl | cases hs

/-- Only a statement of a body is a directive. -/
theorem isUseStrict_eq_false {s : Symbol} (h : Derives size σ s n) (hs : s ≠ .bodyItem) : n.isUseStrict = false := by
  have ofPattern (n : Node) : n.toPattern.isUseStrict = n.isUseStrict := by
    obtain ⟨i, kind⟩ := n
    cases kind <;> rfl
  induction h with
  | weaken _ _ ih | operand _ ih | base _ ih | endChain _ _ ih | boundParameter _ ih | concise _ ih
  | complete _ _ ih | bound _ ih | drop _ ih | whole _ ih => exact ih nofun
  | operandParameter _ ih | target _ _ _ ih => exact (ofPattern _).trans (ih nofun)
  | @plain _ _ kind hkind =>
    cases kind with
    | expressionStatement _ directive => cases directive <;> first | rfl | cases hkind
    | _ => rfl
  | directive | item => exact absurd rfl hs
  | _ => rfl

theorem under_append {τ : Scope} {directives statements : List Node} (h : ∀ n ∈ statements, Derives size τ .node n) :
    σ.under (directives ++ statements) = σ.under directives := by
  have none : statements.any (·.isUseStrict) = false :=
    List.any_eq_false.2 fun n hn => by simp [(h n hn).isUseStrict_eq_false nofun]
  rw [Scope.under, List.any_append, none, Bool.or_false]
  rfl

theorem name {name : String} : Derives size σ .node (.mk i (.identifier name)) := .complete rfl .identifier

end Derives

end EcmaTree
