import EcmaTree.Lexer.Numeral
import EcmaTree.Lexer.Quoted
import EcmaTree.Lexer.Regex
import EcmaTree.Lexer.Template
import EcmaTree.Lexer.Trivia
import EcmaTree.Lexer.Word
import EcmaTree.Options

/-!
# The scanner

The scanner reads one token at a time, on demand: whoever drives it decides where a slash begins a regular
expression and when trivia is skipped. Its state is a cursor, the braces that are open around it, which
tell whether `}` closes a substitution of a template, and the errors recorded in tolerant mode. A scan that
fails leaves the cursor where reading stopped.
-/

namespace EcmaTree

/-- What an open brace will be closed as (`Curly`). -/
inductive Region where
  | braces
  | substitution
  deriving DecidableEq, Inhabited

/-- The state of scanning (`Scanner`). -/
structure Scanner where
  cursor : Cursor
  /-- The open braces, the innermost one first. -/
  regions : List Region
  /-- The errors recorded so far, in the order of recording. -/
  errors : List SyntaxError
  tolerant : Bool
  goal : Goal
  /-- Are comments given back? -/
  keepsComments : Bool
  deriving Inhabited

/-- A scan moves the scanner on, or stops at a syntax error. -/
abbrev Scan := EStateM SyntaxError Scanner

namespace Scanner

/-- The scanner at the beginning of a source. -/
def start (source : String) (tolerant : Bool) (goal : Goal) (keepsComments : Bool := false) : Scanner :=
  ⟨.ofString source, [], [], tolerant, goal, keepsComments⟩

/-- A place to come back to (`ScannerState`). It holds the innermost region and the number of regions, not all of
them, because what is scanned before coming back closes one region at most. -/
structure Bookmark where
  cursor : Cursor
  depth : Nat
  innermost : Option Region
  deriving DecidableEq

/-- Remember where the scanner stands (`save_state`). -/
def bookmark (s : Scanner) : Bookmark := ⟨s.cursor, s.regions.length, s.regions.head?⟩

/-- The regions at a bookmark, from those at a later point: opened ones are dropped, and a closed one is
opened again. -/
def Bookmark.regions (b : Bookmark) (now : List Region) : List Region :=
  if now.length < b.depth then b.innermost.toList ++ now else now.drop (now.length - b.depth)

/-- Come back to a bookmark (`restore_state`). Recorded errors stay. -/
def rewind (s : Scanner) (b : Bookmark) : Scanner :=
  { s with cursor := b.cursor, regions := b.regions s.regions }

theorem rewind_bookmark (s : Scanner) : s.rewind s.bookmark = s := by
  simp [rewind, bookmark, Bookmark.regions]

end Scanner

namespace Scan

/-- Move the cursor. -/
def moveTo (cursor : Cursor) : Scan Unit := modify fun s => { s with cursor }

/-- Record an error in tolerant mode, and stop at it otherwise. -/
def tolerate (error : SyntaxError) : Scan Unit := do
  if (← get).tolerant then modify fun s => { s with errors := s.errors ++ [error] }
  else throw error

/-- Stop at a fault (`throw_unexpected_token`). -/
def fail {α : Type} (fault : Fault) : Scan α := do
  moveTo fault.cursor
  throw fault.error

/-- Pass over a fault in tolerant mode, and stop at it otherwise (`tolerate_unexpected_token`). -/
def pass (fault : Fault) : Scan Unit := do
  moveTo fault.cursor
  tolerate fault.error

/-- What a reader gives back, or a stop at its fault. -/
def ofReading {α : Type} : Except Fault α → Scan α
  | .ok a => pure a
  | .error fault => fail fault

/-- Run a probe and come back to where it began, whether it succeeds or fails (`look_ahead`). -/
def lookAhead {α : Type} (probe : Scan α) : Scan α := fun s =>
  match probe s with
  | .ok a after => .ok a (after.rewind s.bookmark)
  | .error e after => .error e (after.rewind s.bookmark)

/-- Skip trivia and give back its comments, if they are kept (`scan_comments`). -/
def skipTrivia : Scan (List Comment) := do
  let s ← get
  let trivia := Trivia.skip s.keepsComments (s.goal == .script) s.cursor
  moveTo trivia.cursor
  if trivia.unclosed then pass (.illegal trivia.cursor)
  return trivia.comments

/-- The token that reaches from `first` to `last`. -/
def tokenBetween (first last : Cursor) (lexeme : Lexeme) : Token :=
  ⟨lexeme, first.textUntil last.offset, ⟨first.offset, last.offset⟩, last.line, last.lineStart⟩

/-- Read a word (`scan_identifier`). A reserved word that an escape spells is passed over in tolerant mode. -/
def word (c : Cursor) : Scan Token := do
  let (characters, stop) ← ofReading (Word.read c)
  let name := String.ofList characters
  let lexeme := Word.classify name
  if Word.isReserved lexeme && c.offset + name.utf8ByteSize != stop.offset then
    pass ⟨.escapedKeyword, c⟩
  moveTo stop
  return tokenBetween c stop lexeme

/-- Read a numeral (`scan_numeric_literal`). -/
def numeral (c : Cursor) : Scan Token := do
  let (read, stop) ← ofReading (Numeral.read c)
  moveTo stop
  return tokenBetween c stop (.number read.value read.legacy)

/-- Read a string literal (`scan_string_literal`). -/
def quoted (c : Cursor) : Scan Token := do
  let (read, stop) ← ofReading (Quoted.read c)
  moveTo stop
  return tokenBetween c stop (.string read.value read.legacy)

/-- The open braces behind a chunk of a template. A chunk that is no head closes the substitution before
it, after the one behind it has been opened. -/
def regionsAfterChunk (chunk : TemplateChunk) (closing : Template.Closing) (regions : List Region) :
    List Region :=
  let opened := if closing = .substitution then .substitution :: regions else regions
  if chunk.isHead then opened else opened.tail

/-- Read a chunk of a template (`scan_template`). -/
def template (c : Cursor) : Scan Token := do
  let (chunk, closing, stop) ← ofReading (Template.read c)
  modify fun s => { s with cursor := stop, regions := regionsAfterChunk chunk closing s.regions }
  return tokenBetween c stop (.template chunk)

/-- The open braces behind a punctuator (`push_brace`). -/
def regionsAfter : Punctuator → List Region → List Region
  | .leftBrace, regions => .braces :: regions
  | .rightBrace, regions => regions.tail
  | _, regions => regions

/-- Read a punctuator (`scan_punctuator`). -/
def punctuator (c : Cursor) : Scan Token := do
  match Punctuator.read? c.rest with
  | none => fail (.illegal c)
  | some p =>
    let stop := c.moveTo p.spelling.length (c.rest.drop p.spelling.length)
    modify fun s => { s with cursor := stop, regions := regionsAfter p s.regions }
    return tokenBetween c stop (.punctuator p)

/-- Read the token at the cursor, where no trivia stands (`lex`). -/
def token : Scan Token := do
  let s ← get
  let c := s.cursor
  match c.rest with
  | [] => return tokenBetween c c .endOfInput
  | ch :: rest =>
    if isIdentifierStart ch || ch == '\\' then word c
    else if ch == '\'' || ch == '"' then quoted c
    else if isDecimalDigit ch || (ch == '.' && rest.head?.any isDecimalDigit) then numeral c
    else if ch == '\x60' || (ch == '\x7d' && s.regions.head? == some .substitution) then template c
    else punctuator c

/-- Read a regular expression at the cursor, where a slash stands (`scan_regexp`). -/
def regex : Scan Token := do
  let c := (← get).cursor
  let read ← ofReading (Regex.read c)
  read.faults.forM pass
  moveTo read.cursor
  return tokenBetween c read.cursor (.regex read.literal)

end Scan

end EcmaTree
