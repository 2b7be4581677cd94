import EcmaTree.Source.Cursor

/-!
# Syntax errors

A violation is a `Cause`, said in the terms of the grammar; its wording is one function,
`Cause.message`. A `SyntaxError` adds where the violation stands: a byte offset, a line, and a column
counted from one.
-/

namespace EcmaTree

/-- What is wrong with a source text. -/
inductive Cause where
  /-- No token can be read here. -/
  | illegalToken
  /-- A reserved word is spelled with an escape. -/
  | escapedKeyword
  | hexEscape
  | unicodeEscape
  | unterminatedRegex
  /-- A template holds an octal escape. -/
  | octalInTemplate
  /-- A template holds `\8` or `\9`. -/
  | decimalInTemplate
  | unexpectedEnd
  | unexpectedIdentifier
  | unexpectedNumber
  | unexpectedString
  | unexpectedReservedWord
  | unexpectedTemplate (raw : String)
  | unexpectedToken (text : String)
  /-- A word that strict code reserves is used as a name. -/
  | strictReservedWord
  | octalInStrict
  | strictDirectiveNotSimple
  | strictWith
  | strictDelete
  | strictFunction
  | strictFunctionName
  | strictParameterName
  | strictVariableName
  | strictCatchVariable
  | strictAssignment
  | strictPrefixUpdate
  | strictPostfixUpdate
  | assignmentTarget
  | forInTarget
  | forTarget
  | forInInitializer
  | missingInitializer
  | letBinding
  | duplicateBinding (name : String)
  | duplicateLabel (name : String)
  | duplicateParameter
  | duplicateProto
  | duplicateConstructor
  | duplicateDefault
  | undefinedLabel (name : String)
  | illegalBreak
  | illegalContinue
  | illegalReturn
  | newlineAfterThrow
  | missingHandler
  | generatorAsBody
  | asyncFunctionAsBody
  | getterArity
  | setterArity
  | setterRest
  | restNotLast
  /-- A rest parameter or a rest property has a default value. -/
  | restDefault
  /-- A rest property is followed by a property. -/
  | propertyAfterRest
  | asyncConstructor
  | specialConstructor
  | staticPrototype
  | superCall
  | templateOnOptionalChain
  | importCallArity
  | importMeta
  | importPlacement
  | exportPlacement
  | moduleSpecifier
  | missingFrom
  | missingAs
  | emptyAttribute
  | closingTag (name : String)
  | closingFragment
  deriving DecidableEq

/-- The wording of a violation (`format_message`). -/
def Cause.message : Cause → String
  | illegalToken => "Invalid or unexpected token"
  | escapedKeyword => "Keyword must not contain escaped characters"
  | hexEscape => "Invalid hexadecimal escape sequence"
  | unicodeEscape => "Invalid Unicode escape sequence"
  | unterminatedRegex => "Invalid regular expression: missing /"
  | octalInTemplate => "Octal literals are not allowed in template strings."
  | decimalInTemplate => "\\8 and \\9 are not allowed in template strings."
  | unexpectedEnd => "Unexpected end of input"
  | unexpectedIdentifier => "Unexpected identifier"
  | unexpectedNumber => "Unexpected number"
  | unexpectedString => "Unexpected string"
  | unexpectedReservedWord => "Unexpected reserved word"
  | unexpectedTemplate raw => "Unexpected quasi " ++ raw
  | unexpectedToken text => "Unexpected token " ++ text
  | strictReservedWord => "Use of future reserved word in strict mode"
  | octalInStrict => "Octal literals are not allowed in strict mode."
  | strictDirectiveNotSimple =>
    "Illegal 'use strict' directive in function with non-simple parameter list"
  | strictWith => "Strict mode code may not include a with statement"
  | strictDelete => "Delete of an unqualified identifier in strict mode."
  | strictFunction =>
    "In strict mode code, functions can only be declared at top level or inside a block"
  | strictFunctionName => "Function name may not be eval or arguments in strict mode"
  | strictParameterName => "Parameter name eval or arguments is not allowed in strict mode"
  | strictVariableName => "Variable name may not be eval or arguments in strict mode"
  | strictCatchVariable => "Catch variable may not be eval or arguments in strict mode"
  | strictAssignment => "Assignment to eval or arguments is not allowed in strict mode"
  | strictPrefixUpdate =>
    "Prefix increment/decrement may not have eval or arguments operand in strict mode"
  | strictPostfixUpdate =>
    "Postfix increment/decrement may not have eval or arguments operand in strict mode"
  | assignmentTarget => "Invalid left-hand side in assignment"
  | forInTarget => "Invalid left-hand side in for-in"
  | forTarget => "Invalid left-hand side in for-loop"
  | forInInitializer => "for-in loop variable declaration may not have an initializer."
  | missingInitializer => "Missing initializer in const declaration"
  | letBinding => "let is disallowed as a lexically bound name"
  | duplicateBinding name => "Duplicate binding " ++ name
  | duplicateLabel name => "Label '" ++ name ++ "' has already been declared"
  | duplicateParameter => "Duplicate parameter name not allowed in this context"
  | duplicateProto => "Duplicate __proto__ fields are not allowed in object literals"
  | duplicateConstructor => "A class may only have one constructor"
  | duplicateDefault => "More than one default clause in switch statement"
  | undefinedLabel name => "Undefined label '" ++ name ++ "'"
  | illegalBreak => "Illegal break statement"
  | illegalContinue => "Illegal continue statement"
  | illegalReturn => "Illegal return statement"
  | newlineAfterThrow => "Illegal newline after throw"
  | missingHandler => "Missing catch or finally after try"
  | generatorAsBody => "Generator declarations are not allowed in legacy contexts"
  | asyncFunctionAsBody =>
    "Async functions can only be declared at the top level or inside a block."
  | getterArity => "Getter must not have any formal parameters"
  | setterArity => "Setter must have exactly one formal parameter"
  | setterRest => "Setter function argument must not be a rest parameter"
  | restNotLast => "Rest parameter must be last formal parameter"
  | restDefault => "Unexpected token ="
  | propertyAfterRest | importCallArity | importPlacement | exportPlacement | moduleSpecifier
  | missingFrom | missingAs => "Unexpected token"
  | asyncConstructor => "Class constructor may not be an async method"
  | specialConstructor => "Class constructor may not be an accessor"
  | staticPrototype => "Classes may not have static property named prototype"
  | superCall => "'super' keyword unexpected here"
  | templateOnOptionalChain => "Invalid tagged template on optional chain"
  | importMeta => "Cannot use 'import.meta' outside a module"
  | emptyAttribute => "JSX attributes must only be assigned a non-empty expression"
  | closingTag name => "Expected corresponding JSX closing tag for " ++ name
  | closingFragment => "Expected corresponding JSX closing tag for jsx fragment"

/-- A violation and where it stands (`ParseError`). -/
structure SyntaxError where
  index : Nat
  line : Nat
  column : Nat
  cause : Cause
  deriving DecidableEq

namespace SyntaxError

/-- What is wrong, in words. -/
def description (e : SyntaxError) : String := e.cause.message

/-- The line and what is wrong. -/
def message (e : SyntaxError) : String := "Line " ++ toString e.line ++ ": " ++ e.description

end SyntaxError

end EcmaTree

/-!
## Faults of the text

A reader that cannot go on stops with a `Fault`: what is wrong, and the cursor where reading stopped.
The cursor is both the place of the error and the place from which reading may be tried again.
-/

namespace EcmaTree

/-- A violation found while reading characters, and where reading stopped. -/
structure Fault where
  cause : Cause
  cursor : Cursor
  deriving DecidableEq

/-- The fault as a syntax error; its column is counted from one (`throw_unexpected_token`). -/
def Fault.error (f : Fault) : SyntaxError :=
  ⟨f.cursor.offset, f.cursor.line, inWord (f.cursor.column + 1), f.cause⟩

/-- Text at the cursor that begins no token. -/
def Fault.illegal (c : Cursor) : Fault := ⟨.illegalToken, c⟩

/-! ## Results -/

section
variable {ε α : Type} {result : Except ε α}

/-- Whether there is a result can be evaluated. -/
theorem exists_ok_of_isSome (h : result.toOption.isSome = true) : ∃ a, result = .ok a := by
  cases result with
  | error => cases h
  | ok a => exact ⟨a, rfl⟩

/-- So can what is true of the result. -/
theorem exists_ok_of_any {p : α → Bool} (h : result.toOption.any p = true) : ∃ a, result = .ok a ∧ p a = true := by
  cases result with
  | error => cases h
  | ok a => exact ⟨a, rfl, h⟩

end

end EcmaTree
