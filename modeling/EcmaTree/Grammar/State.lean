import EcmaTree.Grammar.Record
import EcmaTree.Lexer.Scanner

/-!
# The state of a parse

A parse reads one token ahead. Its state is the scanner behind that token, what governs the productions that
are being read, and the record of what has been found so far. Errors are said relative to the end of the last
consumed token.
-/

namespace EcmaTree

/-- What governs the productions that are being read (`Context`). -/
structure Context where
  isModule : Bool
  /-- May `in` be an operator? Not in the head of a `for`. -/
  allowIn : Bool := true
  /-- May the body make itself strict? Not behind parameters that are more than names. -/
  allowStrictDirective : Bool := true
  /-- Is `yield` a name? Not in a generator. -/
  allowYield : Bool := true
  isAsync : Bool := false
  inFunctionBody : Bool := false
  inIteration : Bool := false
  inSwitch : Bool := false
  inClassConstructor : Bool := false
  strict : Bool
  deriving DecidableEq, Inhabited

/-- What the expression read so far may still turn out to be (`Cover`). -/
structure Cover where
  isAssignmentTarget : Bool
  isBindingElement : Bool
  /-- The `=` of a member `name = value` of an object, which is an error unless the object becomes a
  pattern. -/
  pending : Option Token
  deriving Inhabited

/-- Nothing has been read (`fresh`). -/
def Cover.fresh : Cover := ⟨true, true, none⟩

/-- The expression is neither a pattern nor a target (`non_pattern`). -/
def Cover.nonPattern (c : Cover) : Cover :=
  { c with isAssignmentTarget := false, isBindingElement := false }

/-- The state of a parse (`Parser`). -/
structure ParseState where
  dialect : Dialect
  /-- How often a loop may go round: more often than there are tokens. -/
  bound : Nat
  /-- The scanner stands behind `lookahead`. -/
  scanner : Scanner
  /-- The next token. -/
  lookahead : Token
  /-- Does a line end between the last consumed token and `lookahead`? -/
  newline : Bool
  context : Context
  /-- The labels around the current statement. -/
  labels : List String
  cover : Cover
  /-- Where `lookahead` begins, and what follows there. -/
  start : Cursor
  /-- Where the last consumed token ends. -/
  last : Place
  /-- The number of nodes finished so far. -/
  finished : Nat
  record : Record

/-- Why a parse stops before its end: for an error in the source, or because a bound on its steps is used
up. -/
inductive Failure where
  | syntaxError (error : SyntaxError)
  | exhausted
  deriving DecidableEq

/-- A parse moves the state on, or stops. -/
abbrev Parse := EStateM Failure ParseState

namespace Token

/-- The cause that is given for a token that has no place where it stands (`unexpected_token_error`). -/
def unexpectedCause (strict : Bool) (t : Token) : Cause :=
  match t.lexeme with
  | .endOfInput => .unexpectedEnd
  | .identifier _ => .unexpectedIdentifier
  | .number .. => .unexpectedNumber
  | .string .. => .unexpectedString
  | .template chunk => .unexpectedTemplate chunk.raw
  | .keyword name =>
    if isFutureReserved name then .unexpectedReservedWord
    else if strict && isStrictReserved name then .strictReservedWord
    else .unexpectedToken name
  | _ => .unexpectedToken t.text

/-- In strict code more words are keywords. -/
def inStrictCode (t : Token) : Token :=
  match t.lexeme with
  | .identifier name => if isStrictReserved name then { t with lexeme := .keyword name } else t
  | _ => t

/-- Where the token begins. The line of a token is the one it ends on; if it began before that line did, it is
placed on the line above, whose start the caller supplies (`start_node_at`). -/
def placeAfter (t : Token) (lineAbove : Nat) : Place :=
  if t.lineStart ≤ t.start then ⟨t.start, t.line, inWord (t.start - t.lineStart)⟩
  else ⟨t.start, t.line - 1, inWord (t.start + lineAbove - t.lineStart)⟩

/-- Where the token begins, for callers that do not know where lines start. -/
def place (t : Token) : Place := t.placeAfter 0

end Token

namespace ParseState

/-- An error at the end of the last consumed token (`error`). -/
def errorHere (s : ParseState) (cause : Cause) : SyntaxError :=
  ⟨s.last.offset, s.last.line, inWord (s.last.column + 1), cause⟩

/-- The same, on the line where the scanner stands (`tolerate_error`). -/
def errorOnScannerLine (s : ParseState) (cause : Cause) : SyntaxError :=
  ⟨s.last.offset, s.scanner.cursor.line, inWord (s.last.column + 1), cause⟩

/-- An error at a token. Its column is counted on the line of the last consumed token. -/
def errorAt (s : ParseState) (t : Token) (cause : Cause) : SyntaxError :=
  ⟨t.start, t.line, inWord (max 1 (t.start + s.last.column + 1 - s.last.offset)), cause⟩

/-- The error that a token stands where it may not. -/
def unexpected (s : ParseState) (t : Token) : SyntaxError :=
  s.errorAt t (t.unexpectedCause s.context.strict)

/-- The record with one more token, from the beginning of the lookahead to where the scanner stands. -/
def listing (s : ParseState) (t : Token) : Record := s.record.list t s.start s.scanner.cursor

/-- What is known of a node that begins at `start` and ends with the last consumed token. -/
def finishedInfo (s : ParseState) (start : Place) : NodeInfo :=
  let extent : Extent := ⟨start, s.last⟩
  { id := s.finished + 1, extent := some extent, placement := s.record.recording.presentation.placeOf extent }

/-- The state before anything is read (`new`). If nothing else is said, everything is recorded. -/
def initial (source : String) (dialect : Dialect) (record : Record := .complete) : ParseState :=
  let scanner := Scanner.start source dialect.tolerant dialect.goal record.recording.comments
  let cursor := scanner.cursor
  { dialect
    bound := source.utf8ByteSize + 2
    scanner
    lookahead := Scan.tokenBetween cursor cursor .endOfInput
    newline := false
    context := { isModule := dialect.goal == .module, strict := dialect.goal == .module }
    labels := []
    cover := ⟨false, false, none⟩
    start := cursor
    last := cursor.place
    finished := 0
    record }

end ParseState

end EcmaTree
