import EcmaTree.Source.Character
import EcmaTree.Syntax.Operator

/-!
# Punctuators

The fixed spellings of the grammar that are not words. Reading takes the longest spelling that the
text begins with. One pair is an exception: `?.` before a decimal digit is read as `?`, so that
`a?.5:b` is a conditional expression.
-/

namespace EcmaTree

/-- A token with a fixed spelling that is not a word. -/
inductive Punctuator where
  | ushrAssign | ellipsis | strictEq | strictNe | ushr | shlAssign | shrAssign | powAssign
  | andAssign | orAssign | coalesceAssign | and | or | coalesce | optionalDot | eq | ne
  | addAssign | subAssign | mulAssign | divAssign | increment | decrement | shl | shr
  | bitAndAssign | bitOrAssign | bitXorAssign | modAssign | le | ge | arrow | pow | leftParen
  | rightParen | leftBrace | rightBrace | leftBracket | rightBracket | semicolon | comma | colon
  | tilde | dot | question | lt | gt | assign | bang | plus | minus | star | percent | ampersand
  | bar | caret | slash
  deriving DecidableEq, Inhabited

namespace Punctuator

/-- The characters of the spelling. -/
def spelling : Punctuator → List Char
  | ushrAssign => ['>', '>', '>', '=']
  | ellipsis => ['.', '.', '.']
  | strictEq => ['=', '=', '=']
  | strictNe => ['!', '=', '=']
  | ushr => ['>', '>', '>']
  | shlAssign => ['<', '<', '=']
  | shrAssign => ['>', '>', '=']
  | powAssign => ['*', '*', '=']
  | andAssign => ['&', '&', '=']
  | orAssign => ['|', '|', '=']
  | coalesceAssign => ['?', '?', '=']
  | and => ['&', '&']
  | or => ['|', '|']
  | coalesce => ['?', '?']
  | optionalDot => ['?', '.']
  | eq => ['=', '=']
  | ne => ['!', '=']
  | addAssign => ['+', '=']
  | subAssign => ['-', '=']
  | mulAssign => ['*', '=']
  | divAssign => ['/', '=']
  | increment => ['+', '+']
  | decrement => ['-', '-']
  | shl => ['<', '<']
  | shr => ['>', '>']
  | bitAndAssign => ['&', '=']
  | bitOrAssign => ['|', '=']
  | bitXorAssign => ['^', '=']
  | modAssign => ['%', '=']
  | le => ['<', '=']
  | ge => ['>', '=']
  | arrow => ['=', '>']
  | pow => ['*', '*']
  | leftParen => ['(']
  | rightParen => [')']
  | leftBrace => ['{']
  | rightBrace => ['}']
  | leftBracket => ['[']
  | rightBracket => [']']
  | semicolon => [';']
  | comma => [',']
  | colon => [':']
  | tilde => ['~']
  | dot => ['.']
  | question => ['?']
  | lt => ['<']
  | gt => ['>']
  | assign => ['=']
  | bang => ['!']
  | plus => ['+']
  | minus => ['-']
  | star => ['*']
  | percent => ['%']
  | ampersand => ['&']
  | bar => ['|']
  | caret => ['^']
  | slash => ['/']

/-- The spelling as a text. -/
def text (p : Punctuator) : String := String.ofList p.spelling

/-- Every punctuator, the longer ones first. -/
def longestFirst : List Punctuator :=
  [.ushrAssign, .ellipsis, .strictEq, .strictNe, .ushr, .shlAssign, .shrAssign, .powAssign,
   .andAssign, .orAssign, .coalesceAssign, .and, .or, .coalesce, .optionalDot, .eq, .ne,
   .addAssign, .subAssign, .mulAssign, .divAssign, .increment, .decrement, .shl, .shr,
   .bitAndAssign, .bitOrAssign, .bitXorAssign, .modAssign, .le, .ge, .arrow, .pow, .leftParen,
   .rightParen, .leftBrace, .rightBrace, .leftBracket, .rightBracket, .semicolon, .comma, .colon,
   .tilde, .dot, .question, .lt, .gt, .assign, .bang, .plus, .minus, .star, .percent, .ampersand,
   .bar, .caret, .slash]

theorem mem_longestFirst (p : Punctuator) : p ∈ longestFirst := by cases p <;> decide

theorem longestFirst_sorted :
    longestFirst.Pairwise fun p q => q.spelling.length ≤ p.spelling.length := by decide

/-- May the text `cs` begin with `p`? -/
def begins (p : Punctuator) (cs : List Char) : Bool :=
  p.spelling.isPrefixOf cs &&
    match p, cs with
    | .optionalDot, _ :: _ :: c :: _ => !isDecimalDigit c
    | _, _ => true

/-- The punctuator at the beginning of a text, the longest that fits (`scan_punctuator`). -/
def read? (cs : List Char) : Option Punctuator := longestFirst.find? (·.begins cs)

theorem begins_of_read? {cs : List Char} {p : Punctuator} (h : read? cs = some p) :
    p.begins cs = true := by
  unfold read? at h
  simpa using List.find?_some h

/-- The assignment that a punctuator stands for. -/
def assignOp? : Punctuator → Option AssignOp
  | assign => some .assign
  | addAssign => some .add
  | subAssign => some .sub
  | mulAssign => some .mul
  | divAssign => some .div
  | modAssign => some .mod
  | powAssign => some .pow
  | shlAssign => some .shl
  | shrAssign => some .shr
  | ushrAssign => some .ushr
  | bitOrAssign => some .bitOr
  | bitXorAssign => some .bitXor
  | bitAndAssign => some .bitAnd
  | andAssign => some .and
  | orAssign => some .or
  | coalesceAssign => some .coalesce
  | _ => none

/-- The operator between two operands that a punctuator stands for. -/
def binaryOp? : Punctuator → Option BinaryOp
  | plus => some .add
  | minus => some .sub
  | star => some .mul
  | slash => some .div
  | percent => some .mod
  | pow => some .pow
  | eq => some .eq
  | ne => some .ne
  | strictEq => some .strictEq
  | strictNe => some .strictNe
  | lt => some .lt
  | le => some .le
  | gt => some .gt
  | ge => some .ge
  | bar => some .bitOr
  | caret => some .bitXor
  | ampersand => some .bitAnd
  | shl => some .shl
  | shr => some .shr
  | ushr => some .ushr
  | coalesce => some .coalesce
  | and => some .and
  | or => some .or
  | _ => none

/-- The operator before an operand that a punctuator stands for. -/
def unaryOp? : Punctuator → Option UnaryOp
  | minus => some .minus
  | plus => some .plus
  | bang => some .not
  | tilde => some .bitNot
  | _ => none

/-- The update that a punctuator stands for. -/
def updateOp? : Punctuator → Option UpdateOp
  | increment => some .increment
  | decrement => some .decrement
  | _ => none

theorem assignOp?_text {p : Punctuator} {op : AssignOp} (h : p.assignOp? = some op) :
    op.text = p.text := by
  cases p <;> simp_all [assignOp?] <;> subst h <;> rfl

theorem binaryOp?_text {p : Punctuator} {op : BinaryOp} (h : p.binaryOp? = some op) :
    op.text = p.text := by
  cases p <;> simp_all [binaryOp?] <;> subst h <;> rfl

end Punctuator

end EcmaTree
