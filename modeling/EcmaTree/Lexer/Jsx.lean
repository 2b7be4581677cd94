import EcmaTree.Lexer.CharacterReference
import EcmaTree.Lexer.Scanner

/-!
# Tokens of JSX

Inside a tag other tokens are read: names may hold hyphens, strings hold character references in place of
escapes, and some punctuators stand alone. Between tags stands text. What JSX does not claim is read like any
other token.
-/

namespace EcmaTree

namespace Jsx

/-- The punctuators of tags that are one character. -/
def punctuator? : Char → Option Punctuator
  | '<' => some .lt
  | '>' => some .gt
  | '/' => some .slash
  | ':' => some .colon
  | '=' => some .assign
  | '\x7b' => some .leftBrace
  | '\x7d' => some .rightBrace
  | _ => none

/-- The value of a string behind its opening quote, the number of bytes read and what is left. The end of the
source ends a string too. -/
def readString (quote : Char) : List Char → List Char × Nat × List Char
  | [] => ([], 0, [])
  | c :: rest =>
    if c == quote then ([], c.utf8Size, rest)
    else if c == '&' then
      let reference := CharacterReference.read quote .opened rest
      let (value, bytes, left) := readString quote reference.2.1
      (CharacterReference.meaning reference.1 reference.2.2 ++ value,
        c.utf8Size + reference.1.foldl (· + ·.utf8Size) 0 + bytes, left)
    else
      let (value, bytes, left) := readString quote rest
      (c :: value, c.utf8Size + bytes, left)
termination_by cs => cs.length
decreasing_by
  · have := CharacterReference.length_read_le quote .opened rest
    simp only [List.length_cons]; omega
  · simp

/-- Pass text up to the next brace or tag. -/
def skipText (c : Cursor) : Cursor :=
  match _h : c.rest with
  | [] => c
  | ch :: rest =>
    if ch == '\x7b' || ch == '<' then c
    else if isLineTerminator ch then skipText (c.passLine ch rest)
    else skipText (c.pass ch rest)
termination_by c.rest.length
decreasing_by
  · exact Nat.lt_of_le_of_lt (Cursor.passLine_rest_length_le c ch rest) (Cursor.length_lt_of_rest_eq _h)
  · exact Cursor.length_lt_of_rest_eq _h

/-- May `c` continue a name (`jsx_char`)? -/
def isNamePart (c : Char) : Bool := isIdentifierPart c || c == '-'

/-- A piece of a template where none can be. -/
def strayChunk : TemplateChunk := ⟨"", none, none, false, false⟩

end Jsx

namespace Scan

/-- The token between the cursor and `stop`. -/
def jsxTokenTo (stop : Cursor) (lexeme : Lexeme) : Scan Token := do
  let c := (← get).cursor
  moveTo stop
  return tokenBetween c stop lexeme

/-- Read the token of a tag at the cursor, where no trivia stands (`lex_jsx`). A backquote is not passed: it begins
a template, which no tag may hold. -/
def jsxToken : Scan Token := do
  let c := (← get).cursor
  match c.rest with
  | [] => token
  | ch :: rest =>
    if let some p := Jsx.punctuator? ch then jsxTokenTo (c.pass ch rest) (.punctuator p)
    else if ch == '"' || ch == '\'' then
      let (value, bytes, left) := Jsx.readString ch rest
      jsxTokenTo ((c.pass ch rest).moveTo bytes left) (.string (String.ofList value) false)
    else if ch == '.' then
      match rest with
      | '.' :: '.' :: left => jsxTokenTo (c.moveTo 3 left) (.punctuator .ellipsis)
      | _ => jsxTokenTo (c.pass ch rest) (.punctuator .dot)
    else if ch == '\x60' then jsxTokenTo c (.template Jsx.strayChunk)
    else if isIdentifierStart ch then
      let stop := (c.pass ch rest).skipWhile Jsx.isNamePart
      jsxTokenTo stop (.jsxIdentifier (c.textUntil stop.offset))
    else token

/-- Read the text between tags (`next_jsx_text`). -/
def jsxText : Scan Token := do
  let c := (← get).cursor
  let stop := Jsx.skipText c
  jsxTokenTo stop (.jsxText (c.textUntil stop.offset))

end Scan

end EcmaTree
