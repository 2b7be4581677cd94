import EcmaTree.Json.Basic
import EcmaTree.Lexer.Token
import EcmaTree.Options

/-!
# Kinds of syntax

A `Kind` is what one node of a syntax tree says, over the type `α` of the nodes below it.
`Kind.children` lists the nodes below in the order of the walk, `Kind.fields` writes the kind as named
fields, and `Kind.traverse` replaces every child. The fields hold exactly the children, in their order.
-/

namespace EcmaTree

/-- The value of a literal (`LiteralValue`). -/
inductive LiteralValue where
  | null
  | boolean (value : Bool)
  | number (value : Float)
  | string (value : String)
  | regex (literal : RegexLiteral)
  deriving Inhabited

/-- How a function is written. -/
inductive FunctionForm where
  | declaration
  | expression
  | arrow
  deriving DecidableEq, Inhabited

/-- The type under which a function is written. -/
def FunctionForm.typeName : FunctionForm → String
  | declaration => "FunctionDeclaration"
  | expression => "FunctionExpression"
  | arrow => "ArrowFunctionExpression"

/-- How a class is written. -/
inductive ClassForm where
  | declaration
  | expression
  deriving DecidableEq, Inhabited

/-- The type under which a class is written. -/
def ClassForm.typeName : ClassForm → String
  | declaration => "ClassDeclaration"
  | expression => "ClassExpression"

/-- What a node says, over the type of its children (`NodeKind`). -/
inductive Kind (α : Type) where
  -- Programs, names and literals
  | program (goal : Goal) (body : List α)
  | identifier (name : String)
  /-- A literal and its text in the source. -/
  | literal (value : LiteralValue) (raw : String)
  | this
  | super
  /-- The callee of a dynamic import. -/
  | importKeyword
  -- Expressions
  /-- An array literal; a hole is `none`. -/
  | array (elements : List (Option α))
  | object (members : List α)
  /-- A member of an object literal or of an object pattern. -/
  | property (kind : PropertyKind) (key value : α) (computed method shorthand : Bool)
  /-- A function in any form. `concise` marks an arrow function whose body is an expression. -/
  | function (form : FunctionForm) (name : Option α) (params : List α) (body : α)
      (generator concise async : Bool)
  | classDefinition (form : ClassForm) (name superClass : Option α) (body : α)
  | template (quasis expressions : List α)
  | templateElement (raw : String) (cooked : Option String) (tail : Bool)
  | taggedTemplate (tag quasi : α)
  | member (owner field : α) (computed optional : Bool)
  | call (callee : α) (arguments : List α) (optional : Bool)
  | new (callee : α) (arguments : List α)
  /-- A chain of member accesses and calls with `?.` in it. -/
  | chain (expression : α)
  /-- `new.target` or `import.meta`. -/
  | metaProperty (owner field : α)
  | spread (argument : α)
  | update (operator : UpdateOp) (argument : α) (before : Bool)
  | unary (operator : UnaryOp) (argument : α) (before : Bool)
  | await (argument : α)
  | binary (operator : BinaryOp) (left right : α)
  | conditional (test consequent alternate : α)
  | yield (argument : Option α) (delegate : Bool)
  | assignment (operator : AssignOp) (left right : α)
  | sequence (expressions : List α)
  /-- A parenthesized list that waits for `=>`. -/
  | arrowParameters (params : List α) (async : Bool)
  -- Patterns
  | arrayPattern (elements : List (Option α))
  | objectPattern (members : List α)
  | rest (argument : α)
  /-- A target with a default value. -/
  | assignmentPattern (left right : α)
  -- Statements
  | block (body : List α)
  | emptyStatement
  /-- An expression as a statement; a directive has its text besides. -/
  | expressionStatement (expression : α) (directive : Option String)
  | ifStatement (test consequent : α) (alternate : Option α)
  | labeledStatement (label body : α)
  | breakStatement (label : Option α)
  | continueStatement (label : Option α)
  | withStatement (scope body : α)
  | switchStatement (discriminant : α) (cases : List α)
  | switchCase (test : Option α) (consequent : List α)
  | returnStatement (argument : Option α)
  | throwStatement (argument : α)
  | tryStatement (body : α) (handler finalizer : Option α)
  | catchClause (param : Option α) (body : α)
  | whileStatement (test body : α)
  | doWhileStatement (body test : α)
  | forStatement (init test step : Option α) (body : α)
  | forInStatement (left right body : α) (each : Bool)
  | forOfStatement (left right body : α) (async : Bool)
  | debuggerStatement
  -- Declarations
  | variableDeclaration (kind : VariableKind) (declarations : List α)
  | variableDeclarator (id : α) (init : Option α)
  | classBody (body : List α)
  | methodDefinition (kind : MethodKind) (key value : α) (computed static : Bool)
  -- Modules
  | importDeclaration (specifiers : List α) (source : α)
  | importSpecifier (localName imported : α)
  | importDefaultSpecifier (localName : α)
  | importNamespaceSpecifier (localName : α)
  | exportNamedDeclaration (declaration : Option α) (specifiers : List α) (source : Option α)
  | exportDefaultDeclaration (declaration : α)
  | exportAllDeclaration (source : α)
  | exportSpecifier (localName exported : α)
  -- JSX
  | jsxElement (opening : α) (content : List α) (closing : Option α)
  | jsxFragment (opening : α) (content : List α) (closing : α)
  | jsxOpeningElement (name : α) (attributes : List α) (selfClosing : Bool)
  | jsxClosingElement (name : α)
  | jsxOpeningFragment
  | jsxClosingFragment
  | jsxIdentifier (name : String)
  | jsxNamespacedName (space name : α)
  | jsxMember (owner field : α)
  | jsxAttribute (name : α) (value : Option α)
  | jsxSpreadAttribute (argument : α)
  | jsxExpressionContainer (expression : α)
  | jsxEmptyExpression
  | jsxText (value raw : String)
  deriving Inhabited

namespace Kind

variable {α : Type}

/-- The type under which the kind is written. -/
def typeName : Kind α → String
  | program .. => "Program"
  | identifier _ => "Identifier"
  | literal .. => "Literal"
  | this => "ThisExpression"
  | super => "Super"
  | importKeyword => "Import"
  | array _ => "ArrayExpression"
  | object _ => "ObjectExpression"
  | property .. => "Property"
  | function form .. => form.typeName
  | classDefinition form .. => form.typeName
  | template .. => "TemplateLiteral"
  | templateElement .. => "TemplateElement"
  | taggedTemplate .. => "TaggedTemplateExpression"
  | member .. => "MemberExpression"
  | call .. => "CallExpression"
  | new .. => "NewExpression"
  | chain _ => "ChainExpression"
  | metaProperty .. => "MetaProperty"
  | spread _ => "SpreadElement"
  | update .. => "UpdateExpression"
  | unary .. => "UnaryExpression"
  | await _ => "AwaitExpression"
  | binary operator .. => if operator.isLogical then "LogicalExpression" else "BinaryExpression"
  | conditional .. => "ConditionalExpression"
  | yield .. => "YieldExpression"
  | assignment .. => "AssignmentExpression"
  | sequence _ => "SequenceExpression"
  | arrowParameters .. => "ArrowParameterPlaceHolder"
  | arrayPattern _ => "ArrayPattern"
  | objectPattern _ => "ObjectPattern"
  | rest _ => "RestElement"
  | assignmentPattern .. => "AssignmentPattern"
  | block _ => "BlockStatement"
  | emptyStatement => "EmptyStatement"
  | expressionStatement .. => "ExpressionStatement"
  | ifStatement .. => "IfStatement"
  | labeledStatement .. => "LabeledStatement"
  | breakStatement _ => "BreakStatement"
  | continueStatement _ => "ContinueStatement"
  | withStatement .. => "WithStatement"
  | switchStatement .. => "SwitchStatement"
  | switchCase .. => "SwitchCase"
  | returnStatement _ => "ReturnStatement"
  | throwStatement _ => "ThrowStatement"
  | tryStatement .. => "TryStatement"
  | catchClause .. => "CatchClause"
  | whileStatement .. => "WhileStatement"
  | doWhileStatement .. => "DoWhileStatement"
  | forStatement .. => "ForStatement"
  | forInStatement .. => "ForInStatement"
  | forOfStatement .. => "ForOfStatement"
  | debuggerStatement => "DebuggerStatement"
  | variableDeclaration .. => "VariableDeclaration"
  | variableDeclarator .. => "VariableDeclarator"
  | classBody _ => "ClassBody"
  | methodDefinition .. => "MethodDefinition"
  | importDeclaration .. => "ImportDeclaration"
  | importSpecifier .. => "ImportSpecifier"
  | importDefaultSpecifier _ => "ImportDefaultSpecifier"
  | importNamespaceSpecifier _ => "ImportNamespaceSpecifier"
  | exportNamedDeclaration .. => "ExportNamedDeclaration"
  | exportDefaultDeclaration _ => "ExportDefaultDeclaration"
  | exportAllDeclaration _ => "ExportAllDeclaration"
  | exportSpecifier .. => "ExportSpecifier"
  | jsxElement .. => "JSXElement"
  | jsxFragment .. => "JSXFragment"
  | jsxOpeningElement .. => "JSXOpeningElement"
  | jsxClosingElement _ => "JSXClosingElement"
  | jsxOpeningFragment => "JSXOpeningFragment"
  | jsxClosingFragment => "JSXClosingFragment"
  | jsxIdentifier _ => "JSXIdentifier"
  | jsxNamespacedName .. => "JSXNamespacedName"
  | jsxMember .. => "JSXMemberExpression"
  | jsxAttribute .. => "JSXAttribute"
  | jsxSpreadAttribute _ => "JSXSpreadAttribute"
  | jsxExpressionContainer _ => "JSXExpressionContainer"
  | jsxEmptyExpression => "JSXEmptyExpression"
  | jsxText .. => "JSXText"

/-- The elements that are there. -/
def present (elements : List (Option α)) : List α := elements.filterMap id

/-- The nodes below, in the order of the walk (`for_each_child`). -/
def children : Kind α → List α
  | program _ body => body
  | array elements => present elements
  | object members => members
  | property _ key value .. => [key, value]
  | function _ name params body .. => name.toList ++ params ++ [body]
  | classDefinition _ name superClass body => name.toList ++ superClass.toList ++ [body]
  | template quasis expressions => quasis ++ expressions
  | taggedTemplate tag quasi => [tag, quasi]
  | member owner field .. => [owner, field]
  | call callee arguments _ => [callee] ++ arguments
  | new callee arguments => [callee] ++ arguments
  | chain expression => [expression]
  | metaProperty owner field => [owner, field]
  | spread argument => [argument]
  | update _ argument _ => [argument]
  | unary _ argument _ => [argument]
  | await argument => [argument]
  | binary _ left right => [left, right]
  | conditional test consequent alternate => [test, consequent, alternate]
  | yield argument _ => argument.toList
  | assignment _ left right => [left, right]
  | sequence expressions => expressions
  | arrowParameters params _ => params
  | arrayPattern elements => present elements
  | objectPattern members => members
  | rest argument => [argument]
  | assignmentPattern left right => [left, right]
  | block body => body
  | expressionStatement expression _ => [expression]
  | ifStatement test consequent alternate => [test, consequent] ++ alternate.toList
  | labeledStatement label body => [label, body]
  | breakStatement label => label.toList
  | continueStatement label => label.toList
  | withStatement scope body => [scope, body]
  | switchStatement discriminant cases => [discriminant] ++ cases
  | switchCase test consequent => test.toList ++ consequent
  | returnStatement argument => argument.toList
  | throwStatement argument => [argument]
  | tryStatement body handler finalizer => [body] ++ handler.toList ++ finalizer.toList
  | catchClause param body => param.toList ++ [body]
  | whileStatement test body => [test, body]
  | doWhileStatement body test => [body, test]
  | forStatement init test step body => init.toList ++ test.toList ++ step.toList ++ [body]
  | forInStatement left right body _ => [left, right, body]
  | forOfStatement left right body _ => [left, right, body]
  | variableDeclaration _ declarations => declarations
  | variableDeclarator id init => [id] ++ init.toList
  | classBody body => body
  | methodDefinition _ key value .. => [key, value]
  | importDeclaration specifiers source => specifiers ++ [source]
  | importSpecifier localName imported => [localName, imported]
  | importDefaultSpecifier localName => [localName]
  | importNamespaceSpecifier localName => [localName]
  | exportNamedDeclaration declaration specifiers source =>
    declaration.toList ++ specifiers ++ source.toList
  | exportDefaultDeclaration declaration => [declaration]
  | exportAllDeclaration source => [source]
  | exportSpecifier localName exported => [localName, exported]
  | jsxElement opening content closing => [opening] ++ content ++ closing.toList
  | jsxFragment opening content closing => [opening] ++ content ++ [closing]
  | jsxOpeningElement name attributes _ => [name] ++ attributes
  | jsxClosingElement name => [name]
  | jsxNamespacedName space name => [space, name]
  | jsxMember owner field => [owner, field]
  | jsxAttribute name value => [name] ++ value.toList
  | jsxSpreadAttribute argument => [argument]
  | jsxExpressionContainer expression => [expression]
  | identifier _ | literal .. | this | super | importKeyword | templateElement ..
  | emptyStatement | debuggerStatement | jsxOpeningFragment | jsxClosingFragment
  | jsxIdentifier _ | jsxEmptyExpression | jsxText .. => []

/-- What a field holds. -/
inductive Field (α : Type) where
  | value (json : Json)
  | node (node : α)
  | optional (node : Option α)
  | list (nodes : List α)
  | sparse (nodes : List (Option α))

/-- The nodes in a field, in order. -/
def Field.nodes : Field α → List α
  | value _ => []
  | node x => [x]
  | optional x => x.toList
  | list xs => xs
  | sparse xs => present xs

end Kind

/-- The value of a literal as JSON. A regular expression has no value that JSON can hold. -/
def LiteralValue.toJson : LiteralValue → Json
  | null | regex _ => .null
  | boolean value => .bool value
  | number value => .ofFloat value
  | string value => .string value

/-- The pattern and flags of a regular expression as JSON. -/
def RegexLiteral.toJson (r : RegexLiteral) : Json :=
  .object [("pattern", .string r.pattern), ("flags", .string r.flags)]

/-- The field of a regular expression literal that other literals lack. -/
def LiteralValue.regexField {α : Type} : LiteralValue → List (String × Kind.Field α)
  | regex literal => [("regex", .value literal.toJson)]
  | _ => []

namespace Kind

variable {α : Type}

/-- The named fields of a kind, in the order in which they are written. -/
def fields : Kind α → List (String × Field α)
  | program goal body => [("body", .list body), ("sourceType", .value (.string goal.name))]
  | identifier name => [("name", .value (.string name))]
  | literal value raw =>
    ("value", .value value.toJson) :: ("raw", .value (.string raw)) :: value.regexField
  | array elements => [("elements", .sparse elements)]
  | object members => [("properties", .list members)]
  | property kind key value computed method shorthand =>
    [("key", .node key), ("computed", .value (.bool computed)), ("value", .node value),
      ("kind", .value (.string kind.text)), ("method", .value (.bool method)),
      ("shorthand", .value (.bool shorthand))]
  | function _ name params body generator concise async =>
    [("id", .optional name), ("params", .list params), ("body", .node body),
      ("generator", .value (.bool generator)), ("expression", .value (.bool concise)),
      ("async", .value (.bool async))]
  | classDefinition _ name superClass body =>
    [("id", .optional name), ("superClass", .optional superClass), ("body", .node body)]
  | template quasis expressions => [("quasis", .list quasis), ("expressions", .list expressions)]
  | templateElement raw cooked tail =>
    [("value", .value (.object [("raw", .string raw), ("cooked", .ofText? cooked)])),
      ("tail", .value (.bool tail))]
  | taggedTemplate tag quasi => [("tag", .node tag), ("quasi", .node quasi)]
  | member owner field computed optional =>
    [("computed", .value (.bool computed)), ("object", .node owner), ("property", .node field),
      ("optional", .value (.bool optional))]
  | call callee arguments optional =>
    [("callee", .node callee), ("arguments", .list arguments),
      ("optional", .value (.bool optional))]
  | new callee arguments => [("callee", .node callee), ("arguments", .list arguments)]
  | chain expression => [("expression", .node expression)]
  | metaProperty owner field => [("meta", .node owner), ("property", .node field)]
  | spread argument => [("argument", .node argument)]
  | update operator argument before =>
    [("operator", .value (.string operator.text)), ("argument", .node argument),
      ("prefix", .value (.bool before))]
  | unary operator argument before =>
    [("operator", .value (.string operator.text)), ("argument", .node argument),
      ("prefix", .value (.bool before))]
  | await argument => [("argument", .node argument)]
  | binary operator left right =>
    [("operator", .value (.string operator.text)), ("left", .node left), ("right", .node right)]
  | conditional test consequent alternate =>
    [("test", .node test), ("consequent", .node consequent), ("alternate", .node alternate)]
  | yield argument delegate =>
    [("argument", .optional argument), ("delegate", .value (.bool delegate))]
  | assignment operator left right =>
    [("operator", .value (.string operator.text)), ("left", .node left), ("right", .node right)]
  | sequence expressions => [("expressions", .list expressions)]
  | arrowParameters params async => [("params", .list params), ("async", .value (.bool async))]
  | arrayPattern elements => [("elements", .sparse elements)]
  | objectPattern members => [("properties", .list members)]
  | rest argument => [("argument", .node argument)]
  | assignmentPattern left right => [("left", .node left), ("right", .node right)]
  | block body => [("body", .list body)]
  | expressionStatement expression directive =>
    ("expression", .node expression) ::
      directive.toList.map fun text => ("directive", .value (.string text))
  | ifStatement test consequent alternate =>
    [("test", .node test), ("consequent", .node consequent), ("alternate", .optional alternate)]
  | labeledStatement label body => [("label", .node label), ("body", .node body)]
  | breakStatement label => [("label", .optional label)]
  | continueStatement label => [("label", .optional label)]
  | withStatement scope body => [("object", .node scope), ("body", .node body)]
  | switchStatement discriminant cases =>
    [("discriminant", .node discriminant), ("cases", .list cases)]
  | switchCase test consequent => [("test", .optional test), ("consequent", .list consequent)]
  | returnStatement argument => [("argument", .optional argument)]
  | throwStatement argument => [("argument", .node argument)]
  | tryStatement body handler finalizer =>
    [("block", .node body), ("handler", .optional handler), ("finalizer", .optional finalizer)]
  | catchClause param body => [("param", .optional param), ("body", .node body)]
  | whileStatement test body => [("test", .node test), ("body", .node body)]
  | doWhileStatement body test => [("body", .node body), ("test", .node test)]
  | forStatement init test step body =>
    [("init", .optional init), ("test", .optional test), ("update", .optional step),
      ("body", .node body)]
  | forInStatement left right body each =>
    [("left", .node left), ("right", .node right), ("body", .node body),
      ("each", .value (.bool each))]
  | forOfStatement left right body async =>
    [("await", .value (.bool async)), ("left", .node left), ("right", .node right),
      ("body", .node body)]
  | variableDeclaration kind declarations =>
    [("declarations", .list declarations), ("kind", .value (.string kind.text))]
  | variableDeclarator id init => [("id", .node id), ("init", .optional init)]
  | classBody body => [("body", .list body)]
  | methodDefinition kind key value computed static =>
    [("key", .node key), ("computed", .value (.bool computed)), ("value", .node value),
      ("kind", .value (.string kind.text)), ("static", .value (.bool static))]
  | importDeclaration specifiers source =>
    [("specifiers", .list specifiers), ("source", .node source)]
  | importSpecifier localName imported => [("local", .node localName), ("imported", .node imported)]
  | importDefaultSpecifier localName => [("local", .node localName)]
  | importNamespaceSpecifier localName => [("local", .node localName)]
  | exportNamedDeclaration declaration specifiers source =>
    [("declaration", .optional declaration), ("specifiers", .list specifiers),
      ("source", .optional source)]
  | exportDefaultDeclaration declaration => [("declaration", .node declaration)]
  | exportAllDeclaration source => [("source", .node source)]
  | exportSpecifier localName exported => [("local", .node localName), ("exported", .node exported)]
  | jsxElement opening content closing =>
    [("openingElement", .node opening), ("children", .list content),
      ("closingElement", .optional closing)]
  | jsxFragment opening content closing =>
    [("openingFragment", .node opening), ("children", .list content),
      ("closingFragment", .node closing)]
  | jsxOpeningElement name attributes selfClosing =>
    [("name", .node name), ("selfClosing", .value (.bool selfClosing)),
      ("attributes", .list attributes)]
  | jsxClosingElement name => [("name", .node name)]
  | jsxIdentifier name => [("name", .value (.string name))]
  | jsxNamespacedName space name => [("namespace", .node space), ("name", .node name)]
  | jsxMember owner field => [("object", .node owner), ("property", .node field)]
  | jsxAttribute name value => [("name", .node name), ("value", .optional value)]
  | jsxSpreadAttribute argument => [("argument", .node argument)]
  | jsxExpressionContainer expression => [("expression", .node expression)]
  | jsxText value raw => [("value", .value (.string value)), ("raw", .value (.string raw))]
  | this | super | importKeyword | emptyStatement | debuggerStatement | jsxOpeningFragment
  | jsxClosingFragment | jsxEmptyExpression => []

theorem fields_nodes (k : Kind α) : k.fields.flatMap (·.2.nodes) = k.children := by
  cases k with
  | literal value raw =>
    cases value <;> simp [fields, children, LiteralValue.regexField, Field.nodes]
  | expressionStatement expression directive =>
    cases directive <;> simp [fields, children, Field.nodes]
  | _ => simp [fields, children, Field.nodes]

/-! ## Replacing the children -/

section Traverse

variable {β : Type} {m : Type → Type} [Monad m]

/-- Replace the node, if there is one. -/
def traverseOption (x : Option α) (f : (a : α) → a ∈ x.toList → m β) : m (Option β) :=
  match x, f with
  | none, _ => pure none
  | some a, f => do return some (← f a (by simp))

/-- Replace every node of a list, in order. -/
def traverseList : (xs : List α) → ((a : α) → a ∈ xs → m β) → m (List β)
  | [], _ => pure []
  | x :: xs, f => do
    let y ← f x (by simp)
    let ys ← traverseList xs fun a h => f a (by simp [h])
    return y :: ys

/-- Replace every node of a list with holes, in order. -/
def traverseSparse :
    (xs : List (Option α)) → ((a : α) → a ∈ present xs → m β) → m (List (Option β))
  | [], _ => pure []
  | none :: xs, f => do
    let ys ← traverseSparse xs fun a h => f a (by simpa [present] using h)
    return none :: ys
  | some x :: xs, f => do
    let y ← f x (by simp [present])
    let ys ← traverseSparse xs fun a h => f a (by simp_all [present])
    return some y :: ys

/-- Replace every child, in the order of the walk (`for_each_child_mut`). -/
def traverse (k : Kind α) (f : (a : α) → a ∈ k.children → m β) : m (Kind β) :=
  match k, f with
  | .program goal body, f => do
    let body ← traverseList body fun a h => f a (by delta children; simp [h])
    return .program goal body
  | .identifier name, _ => pure (.identifier name)
  | .literal value raw, _ => pure (.literal value raw)
  | .this, _ => pure .this
  | .super, _ => pure .super
  | .importKeyword, _ => pure .importKeyword
  | .array elements, f => do
    let elements ← traverseSparse elements fun a h => f a (by delta children; simpa using h)
    return .array elements
  | .object members, f => do
    let members ← traverseList members fun a h => f a (by delta children; simp [h])
    return .object members
  | .property kind key value computed method shorthand, f => do
    let key ← f key (by delta children; simp)
    let value ← f value (by delta children; simp)
    return .property kind key value computed method shorthand
  | .function form name params body generator concise async, f => do
    let name ← traverseOption name fun a h => f a (by delta children; simp_all)
    let params ← traverseList params fun a h => f a (by delta children; simp [h])
    let body ← f body (by delta children; simp)
    return .function form name params body generator concise async
  | .classDefinition form name superClass body, f => do
    let name ← traverseOption name fun a h => f a (by delta children; simp_all)
    let superClass ← traverseOption superClass fun a h => f a (by delta children; simp_all)
    let body ← f body (by delta children; simp)
    return .classDefinition form name superClass body
  | .template quasis expressions, f => do
    let quasis ← traverseList quasis fun a h => f a (by delta children; simp [h])
    let expressions ← traverseList expressions fun a h => f a (by delta children; simp [h])
    return .template quasis expressions
  | .templateElement raw cooked tail, _ => pure (.templateElement raw cooked tail)
  | .taggedTemplate tag quasi, f => do
    let tag ← f tag (by delta children; simp)
    let quasi ← f quasi (by delta children; simp)
    return .taggedTemplate tag quasi
  | .member owner field computed optional, f => do
    let owner ← f owner (by delta children; simp)
    let field ← f field (by delta children; simp)
    return .member owner field computed optional
  | .call callee arguments optional, f => do
    let callee ← f callee (by delta children; simp)
    let arguments ← traverseList arguments fun a h => f a (by delta children; simp [h])
    return .call callee arguments optional
  | .new callee arguments, f => do
    let callee ← f callee (by delta children; simp)
    let arguments ← traverseList arguments fun a h => f a (by delta children; simp [h])
    return .new callee arguments
  | .chain expression, f => do
    let expression ← f expression (by delta children; simp)
    return .chain expression
  | .metaProperty owner field, f => do
    let owner ← f owner (by delta children; simp)
    let field ← f field (by delta children; simp)
    return .metaProperty owner field
  | .spread argument, f => do
    let argument ← f argument (by delta children; simp)
    return .spread argument
  | .update operator argument before, f => do
    let argument ← f argument (by delta children; simp)
    return .update operator argument before
  | .unary operator argument before, f => do
    let argument ← f argument (by delta children; simp)
    return .unary operator argument before
  | .await argument, f => do
    let argument ← f argument (by delta children; simp)
    return .await argument
  | .binary operator left right, f => do
    let left ← f left (by delta children; simp)
    let right ← f right (by delta children; simp)
    return .binary operator left right
  | .conditional test consequent alternate, f => do
    let test ← f test (by delta children; simp)
    let consequent ← f consequent (by delta children; simp)
    let alternate ← f alternate (by delta children; simp)
    return .conditional test consequent alternate
  | .yield argument delegate, f => do
    let argument ← traverseOption argument fun a h => f a (by delta children; simp_all)
    return .yield argument delegate
  | .assignment operator left right, f => do
    let left ← f left (by delta children; simp)
    let right ← f right (by delta children; simp)
    return .assignment operator left right
  | .sequence expressions, f => do
    let expressions ← traverseList expressions fun a h => f a (by delta children; simp [h])
    return .sequence expressions
  | .arrowParameters params async, f => do
    let params ← traverseList params fun a h => f a (by delta children; simp [h])
    return .arrowParameters params async
  | .arrayPattern elements, f => do
    let elements ← traverseSparse elements fun a h => f a (by delta children; simpa using h)
    return .arrayPattern elements
  | .objectPattern members, f => do
    let members ← traverseList members fun a h => f a (by delta children; simp [h])
    return .objectPattern members
  | .rest argument, f => do
    let argument ← f argument (by delta children; simp)
    return .rest argument
  | .assignmentPattern left right, f => do
    let left ← f left (by delta children; simp)
    let right ← f right (by delta children; simp)
    return .assignmentPattern left right
  | .block body, f => do
    let body ← traverseList body fun a h => f a (by delta children; simp [h])
    return .block body
  | .emptyStatement, _ => pure .emptyStatement
  | .expressionStatement expression directive, f => do
    let expression ← f expression (by delta children; simp)
    return .expressionStatement expression directive
  | .ifStatement test consequent alternate, f => do
    let test ← f test (by delta children; simp)
    let consequent ← f consequent (by delta children; simp)
    let alternate ← traverseOption alternate fun a h => f a (by delta children; simp_all)
    return .ifStatement test consequent alternate
  | .labeledStatement label body, f => do
    let label ← f label (by delta children; simp)
    let body ← f body (by delta children; simp)
    return .labeledStatement label body
  | .breakStatement label, f => do
    let label ← traverseOption label fun a h => f a (by delta children; simp_all)
    return .breakStatement label
  | .continueStatement label, f => do
    let label ← traverseOption label fun a h => f a (by delta children; simp_all)
    return .continueStatement label
  | .withStatement scope body, f => do
    let scope ← f scope (by delta children; simp)
    let body ← f body (by delta children; simp)
    return .withStatement scope body
  | .switchStatement discriminant cases, f => do
    let discriminant ← f discriminant (by delta children; simp)
    let cases ← traverseList cases fun a h => f a (by delta children; simp [h])
    return .switchStatement discriminant cases
  | .switchCase test consequent, f => do
    let test ← traverseOption test fun a h => f a (by delta children; simp_all)
    let consequent ← traverseList consequent fun a h => f a (by delta children; simp [h])
    return .switchCase test consequent
  | .returnStatement argument, f => do
    let argument ← traverseOption argument fun a h => f a (by delta children; simp_all)
    return .returnStatement argument
  | .throwStatement argument, f => do
    let argument ← f argument (by delta children; simp)
    return .throwStatement argument
  | .tryStatement body handler finalizer, f => do
    let body ← f body (by delta children; simp)
    let handler ← traverseOption handler fun a h => f a (by delta children; simp_all)
    let finalizer ← traverseOption finalizer fun a h => f a (by delta children; simp_all)
    return .tryStatement body handler finalizer
  | .catchClause param body, f => do
    let param ← traverseOption param fun a h => f a (by delta children; simp_all)
    let body ← f body (by delta children; simp)
    return .catchClause param body
  | .whileStatement test body, f => do
    let test ← f test (by delta children; simp)
    let body ← f body (by delta children; simp)
    return .whileStatement test body
  | .doWhileStatement body test, f => do
    let body ← f body (by delta children; simp)
    let test ← f test (by delta children; simp)
    return .doWhileStatement body test
  | .forStatement init test step body, f => do
    let init ← traverseOption init fun a h => f a (by delta children; simp_all)
    let test ← traverseOption test fun a h => f a (by delta children; simp_all)
    let step ← traverseOption step fun a h => f a (by delta children; simp_all)
    let body ← f body (by delta children; simp)
    return .forStatement init test step body
  | .forInStatement left right body each, f => do
    let left ← f left (by delta children; simp)
    let right ← f right (by delta children; simp)
    let body ← f body (by delta children; simp)
    return .forInStatement left right body each
  | .forOfStatement left right body async, f => do
    let left ← f left (by delta children; simp)
    let right ← f right (by delta children; simp)
    let body ← f body (by delta children; simp)
    return .forOfStatement left right body async
  | .debuggerStatement, _ => pure .debuggerStatement
  | .variableDeclaration kind declarations, f => do
    let declarations ← traverseList declarations fun a h => f a (by delta children; simp [h])
    return .variableDeclaration kind declarations
  | .variableDeclarator id init, f => do
    let id ← f id (by delta children; simp)
    let init ← traverseOption init fun a h => f a (by delta children; simp_all)
    return .variableDeclarator id init
  | .classBody body, f => do
    let body ← traverseList body fun a h => f a (by delta children; simp [h])
    return .classBody body
  | .methodDefinition kind key value computed static, f => do
    let key ← f key (by delta children; simp)
    let value ← f value (by delta children; simp)
    return .methodDefinition kind key value computed static
  | .importDeclaration specifiers source, f => do
    let specifiers ← traverseList specifiers fun a h => f a (by delta children; simp [h])
    let source ← f source (by delta children; simp)
    return .importDeclaration specifiers source
  | .importSpecifier localName imported, f => do
    let localName ← f localName (by delta children; simp)
    let imported ← f imported (by delta children; simp)
    return .importSpecifier localName imported
  | .importDefaultSpecifier localName, f => do
    let localName ← f localName (by delta children; simp)
    return .importDefaultSpecifier localName
  | .importNamespaceSpecifier localName, f => do
    let localName ← f localName (by delta children; simp)
    return .importNamespaceSpecifier localName
  | .exportNamedDeclaration declaration specifiers source, f => do
    let declaration ← traverseOption declaration fun a h => f a (by delta children; simp_all)
    let specifiers ← traverseList specifiers fun a h => f a (by delta children; simp [h])
    let source ← traverseOption source fun a h => f a (by delta children; simp_all)
    return .exportNamedDeclaration declaration specifiers source
  | .exportDefaultDeclaration declaration, f => do
    let declaration ← f declaration (by delta children; simp)
    return .exportDefaultDeclaration declaration
  | .exportAllDeclaration source, f => do
    let source ← f source (by delta children; simp)
    return .exportAllDeclaration source
  | .exportSpecifier localName exported, f => do
    let localName ← f localName (by delta children; simp)
    let exported ← f exported (by delta children; simp)
    return .exportSpecifier localName exported
  | .jsxElement opening content closing, f => do
    let opening ← f opening (by delta children; simp)
    let content ← traverseList content fun a h => f a (by delta children; simp [h])
    let closing ← traverseOption closing fun a h => f a (by delta children; simp_all)
    return .jsxElement opening content closing
  | .jsxFragment opening content closing, f => do
    let opening ← f opening (by delta children; simp)
    let content ← traverseList content fun a h => f a (by delta children; simp [h])
    let closing ← f closing (by delta children; simp)
    return .jsxFragment opening content closing
  | .jsxOpeningElement name attributes selfClosing, f => do
    let name ← f name (by delta children; simp)
    let attributes ← traverseList attributes fun a h => f a (by delta children; simp [h])
    return .jsxOpeningElement name attributes selfClosing
  | .jsxClosingElement name, f => do
    let name ← f name (by delta children; simp)
    return .jsxClosingElement name
  | .jsxOpeningFragment, _ => pure .jsxOpeningFragment
  | .jsxClosingFragment, _ => pure .jsxClosingFragment
  | .jsxIdentifier name, _ => pure (.jsxIdentifier name)
  | .jsxNamespacedName space name, f => do
    let space ← f space (by delta children; simp)
    let name ← f name (by delta children; simp)
    return .jsxNamespacedName space name
  | .jsxMember owner field, f => do
    let owner ← f owner (by delta children; simp)
    let field ← f field (by delta children; simp)
    return .jsxMember owner field
  | .jsxAttribute name value, f => do
    let name ← f name (by delta children; simp)
    let value ← traverseOption value fun a h => f a (by delta children; simp_all)
    return .jsxAttribute name value
  | .jsxSpreadAttribute argument, f => do
    let argument ← f argument (by delta children; simp)
    return .jsxSpreadAttribute argument
  | .jsxExpressionContainer expression, f => do
    let expression ← f expression (by delta children; simp)
    return .jsxExpressionContainer expression
  | .jsxEmptyExpression, _ => pure .jsxEmptyExpression
  | .jsxText value raw, _ => pure (.jsxText value raw)

end Traverse

end Kind

end EcmaTree
