/-!
# Operators and kinds that are spelled out

Each of these types is a fixed list of spellings. `text` writes one and `ofText?` reads it back.
-/

namespace EcmaTree

/-- An operator before its one operand, `++` and `--` apart. -/
inductive UnaryOp where
  | minus | plus | not | bitNot | typeof | void | delete
  deriving DecidableEq, Inhabited

namespace UnaryOp

/-- How it is spelled. -/
def text : UnaryOp → String
  | minus => "-"
  | plus => "+"
  | not => "!"
  | bitNot => "~"
  | typeof => "typeof"
  | void => "void"
  | delete => "delete"

/-- Every one, in the order of declaration. -/
def all : List UnaryOp :=
  [.minus, .plus, .not, .bitNot, .typeof, .void, .delete]

theorem mem_all (x : UnaryOp) : x ∈ all := by cases x <;> decide

/-- The one that is spelled `text`. -/
def ofText? (text : String) : Option UnaryOp := all.find? (·.text == text)

end UnaryOp

/-- An operator between two operands, the assignments apart. -/
inductive BinaryOp where
  | add | sub | mul | div | mod | pow | eq | ne | strictEq | strictNe | lt | le | gt | ge | bitOr
  | bitXor | bitAnd | shl | shr | ushr | and | or | coalesce | inside | instanceof
  deriving DecidableEq, Inhabited

namespace BinaryOp

/-- How it is spelled. -/
def text : BinaryOp → String
  | add => "+"
  | sub => "-"
  | mul => "*"
  | div => "/"
  | mod => "%"
  | pow => "**"
  | eq => "=="
  | ne => "!="
  | strictEq => "==="
  | strictNe => "!=="
  | lt => "<"
  | le => "<="
  | gt => ">"
  | ge => ">="
  | bitOr => "|"
  | bitXor => "^"
  | bitAnd => "&"
  | shl => "<<"
  | shr => ">>"
  | ushr => ">>>"
  | and => "&&"
  | or => "||"
  | coalesce => "??"
  | inside => "in"
  | instanceof => "instanceof"

/-- Every one, in the order of declaration. -/
def all : List BinaryOp :=
  [.add, .sub, .mul, .div, .mod, .pow, .eq, .ne, .strictEq, .strictNe, .lt, .le, .gt, .ge,
   .bitOr, .bitXor, .bitAnd, .shl, .shr, .ushr, .and, .or, .coalesce, .inside, .instanceof]

theorem mem_all (x : BinaryOp) : x ∈ all := by cases x <;> decide

/-- The one that is spelled `text`. -/
def ofText? (text : String) : Option BinaryOp := all.find? (·.text == text)

/-- Does the operator choose between its operands without always evaluating both (`is_logical`)? -/
def isLogical : BinaryOp → Bool
  | and | or | coalesce => true
  | _ => false

end BinaryOp

/-- An operator that assigns to its left operand. -/
inductive AssignOp where
  | assign | add | sub | mul | div | mod | pow | shl | shr | ushr | bitOr | bitXor | bitAnd | and
  | or | coalesce
  deriving DecidableEq, Inhabited

namespace AssignOp

/-- How it is spelled. -/
def text : AssignOp → String
  | assign => "="
  | add => "+="
  | sub => "-="
  | mul => "*="
  | div => "/="
  | mod => "%="
  | pow => "**="
  | shl => "<<="
  | shr => ">>="
  | ushr => ">>>="
  | bitOr => "|="
  | bitXor => "^="
  | bitAnd => "&="
  | and => "&&="
  | or => "||="
  | coalesce => "??="

/-- Every one, in the order of declaration. -/
def all : List AssignOp :=
  [.assign, .add, .sub, .mul, .div, .mod, .pow, .shl, .shr, .ushr, .bitOr, .bitXor, .bitAnd,
   .and, .or, .coalesce]

theorem mem_all (x : AssignOp) : x ∈ all := by cases x <;> decide

/-- The one that is spelled `text`. -/
def ofText? (text : String) : Option AssignOp := all.find? (·.text == text)

end AssignOp

/-- An operator that changes its operand by one. -/
inductive UpdateOp where
  | increment | decrement
  deriving DecidableEq, Inhabited

namespace UpdateOp

/-- How it is spelled. -/
def text : UpdateOp → String
  | increment => "++"
  | decrement => "--"

/-- Every one, in the order of declaration. -/
def all : List UpdateOp :=
  [.increment, .decrement]

theorem mem_all (x : UpdateOp) : x ∈ all := by cases x <;> decide

/-- The one that is spelled `text`. -/
def ofText? (text : String) : Option UpdateOp := all.find? (·.text == text)

end UpdateOp

/-- The word that begins a variable declaration. -/
inductive VariableKind where
  | var | let_ | const
  deriving DecidableEq, Inhabited

namespace VariableKind

/-- How it is spelled. -/
def text : VariableKind → String
  | var => "var"
  | let_ => "let"
  | const => "const"

/-- Every one, in the order of declaration. -/
def all : List VariableKind :=
  [.var, .let_, .const]

theorem mem_all (x : VariableKind) : x ∈ all := by cases x <;> decide

/-- The one that is spelled `text`. -/
def ofText? (text : String) : Option VariableKind := all.find? (·.text == text)

end VariableKind

/-- What a member of an object literal does. -/
inductive PropertyKind where
  | init | get | set
  deriving DecidableEq, Inhabited

namespace PropertyKind

/-- How it is spelled. -/
def text : PropertyKind → String
  | init => "init"
  | get => "get"
  | set => "set"

/-- Every one, in the order of declaration. -/
def all : List PropertyKind :=
  [.init, .get, .set]

theorem mem_all (x : PropertyKind) : x ∈ all := by cases x <;> decide

/-- The one that is spelled `text`. -/
def ofText? (text : String) : Option PropertyKind := all.find? (·.text == text)

end PropertyKind

/-- What a member of a class does. -/
inductive MethodKind where
  | constructor | method | get | set
  deriving DecidableEq, Inhabited

namespace MethodKind

/-- How it is spelled. -/
def text : MethodKind → String
  | constructor => "constructor"
  | method => "method"
  | get => "get"
  | set => "set"

/-- Every one, in the order of declaration. -/
def all : List MethodKind :=
  [.constructor, .method, .get, .set]

theorem mem_all (x : MethodKind) : x ∈ all := by cases x <;> decide

/-- The one that is spelled `text`. -/
def ofText? (text : String) : Option MethodKind := all.find? (·.text == text)

end MethodKind

end EcmaTree
