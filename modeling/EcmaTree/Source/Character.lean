import EcmaTree.Source.IdentifierRanges

/-!
# Classes of characters

White space and line terminators separate tokens, digits are read in a radix, and identifiers are made of starting and
continuing characters. Which characters beyond ASCII these are is not told by the grammar of tokens: it is looked up
in two tables of Unicode.
-/

namespace EcmaTree

/-- White space other than line terminators (`is_white_space`). -/
def isBlank (c : Char) : Bool :=
  c == ' ' || c == '\t' || c == '\x0b' || c == '\x0c' || c == '\u00a0' || c == '\u1680' ||
    ('\u2000' ≤ c && c ≤ '\u200a') || c == '\u202f' || c == '\u205f' || c == '\u3000' || c == '\ufeff'

/-- A character that ends a line (`is_line_terminator`). A carriage return takes a following line feed with it. -/
def isLineTerminator (c : Char) : Bool :=
  c == '\n' || c == '\r' || c == '\u2028' || c == '\u2029'

/-- The value of a digit in a radix up to sixteen, letters in either case. -/
def digitValue? (radix : Nat) (c : Char) : Option Nat :=
  let value? :=
    if '0' ≤ c && c ≤ '9' then some (c.toNat - '0'.toNat)
    else if 'a' ≤ c && c ≤ 'f' then some (c.toNat - 'a'.toNat + 10)
    else if 'A' ≤ c && c ≤ 'F' then some (c.toNat - 'A'.toNat + 10)
    else none
  value?.filter (decide <| · < radix)

/-- An ASCII decimal digit. -/
def isDecimalDigit (c : Char) : Bool := '0' ≤ c && c ≤ '9'

/-- An ASCII octal digit (`is_octal_digit`). -/
def isOctalDigit (c : Char) : Bool := '0' ≤ c && c ≤ '7'

/-- An ASCII hexadecimal digit. -/
def isHexDigit (c : Char) : Bool := (digitValue? 16 c).isSome

/-- The tables of the characters beyond ASCII that an identifier may have (`UnicodeXID`): those that may begin it, and
those that may only continue it. -/
structure IdentifierTables where
  starting : List (Nat × Nat)
  continuing : List (Nat × Nat)

namespace IdentifierTables

variable (tables : IdentifierTables) (c : Char)

/-- A character that may begin an identifier (`is_identifier_start`). -/
def isStart : Bool :=
  c == '$' || c == '_' || c.isAlpha || (127 < c.toNat && IdentifierRanges.contains c.toNat tables.starting)

/-- A character that may continue an identifier; the two joiners are among them (`is_identifier_part`). -/
def isPart : Bool :=
  c == '$' || c == '_' || c.isAlphanum || c == '\u200c' || c == '\u200d' ||
    (127 < c.toNat &&
      (IdentifierRanges.contains c.toNat tables.starting || IdentifierRanges.contains c.toNat tables.continuing))

/-- Whatever the tables are, what may begin an identifier may continue it. -/
theorem isPart_of_isStart {tables : IdentifierTables} {c : Char} (h : tables.isStart c = true) :
    tables.isPart c = true := by
  simp only [isStart, isPart, Bool.or_eq_true, Bool.and_eq_true, Char.isAlphanum] at *
  grind

/-- The tables of Unicode 16. -/
def unicode : IdentifierTables := ⟨IdentifierRanges.starting, IdentifierRanges.continuing⟩

end IdentifierTables

/-- A character that may begin an identifier of this program. -/
def isIdentifierStart (c : Char) : Bool := IdentifierTables.unicode.isStart c

/-- A character that may continue an identifier of this program. -/
def isIdentifierPart (c : Char) : Bool := IdentifierTables.unicode.isPart c

theorem isIdentifierPart_of_isIdentifierStart {c : Char} (h : isIdentifierStart c = true) : isIdentifierPart c = true :=
  IdentifierTables.isPart_of_isStart h

theorem isBlank_eq_false_of_isLineTerminator {c : Char} (h : isLineTerminator c = true) :
    isBlank c = false := by
  simp only [isLineTerminator, Bool.or_eq_true, beq_iff_eq] at h
  rcases h with ((rfl | rfl) | rfl) | rfl <;> decide

end EcmaTree
