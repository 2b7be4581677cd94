import EcmaTree.Lexer.Escape
import EcmaTree.Lexer.Token

/-!
# Templates

A chunk of a template begins with a backquote or with the brace that closes a substitution, and ends with
a backquote or with the opening of a substitution. An invalid escape is not a fault, because a tagged
template may hold one: the chunk then has no cooked value and remembers the escape. Every line terminator
counts as a line feed in the cooked value.
-/

namespace EcmaTree.Template

/-- Reading inside a chunk: the cooked characters, last one first, and the first invalid escape. -/
structure Progress where
  cooked : List Char
  invalid : Option Char

/-- Add a character to the cooked value. -/
def Progress.push (p : Progress) (ch : Char) : Progress := { p with cooked := ch :: p.cooked }

/-- Note an invalid escape with the given character behind the backslash. -/
def Progress.reject (p : Progress) (ch : Char) : Progress := { p with invalid := some ch }

/-- Add what an escape reader found, or note that it found nothing. -/
def Progress.decode (p : Progress) (head : Char) : Option Char → Progress
  | some ch => p.push ch
  | none => p.reject head

/-- Read the rest of an escape behind its backslash. Behind an invalid escape, a backslash just takes the
next character with it. -/
def readEscape (p : Progress) (c : Cursor) : Progress × Cursor :=
  match c.rest with
  | [] => (p, c)
  | ch :: rest =>
    let next := c.pass ch rest
    if isLineTerminator ch then (p, next.startLine ch)
    else if p.invalid.isSome then (p, next)
    else match Escape.control? ch with
      | some control => (p.push control, next)
      | none =>
        if ch == 'u' then
          let read := Escape.unicode next
          (p.decode ch read.1, read.2)
        else if ch == 'x' then
          let read := Escape.byte next
          (p.decode ch read.1, read.2)
        else if ch == '0' then
          (if rest.head?.any isDecimalDigit then p.reject ch else p.push '\x00', next)
        else if isDecimalDigit ch then (p.reject ch, next)
        else (p.push ch, next)

theorem readEscape_rest_length_le (p : Progress) (c : Cursor) :
    (readEscape p c).2.rest.length ≤ c.rest.length := by
  unfold readEscape
  split
  · simp
  · next ch rest hc =>
    have line := Cursor.passLine_rest_length_le c ch rest
    have unicode := Escape.unicode_rest_length_le (c.pass ch rest)
    have byte := Escape.byte_rest_length_le (c.pass ch rest)
    have pass : (c.pass ch rest).rest.length + 1 = c.rest.length := by
      simp [hc, Cursor.pass, Cursor.moveTo]
    simp only [Cursor.passLine] at line
    have short : rest.length + 1 = c.rest.length := by simp [hc]
    simp only
    grind

/-- Where a chunk ends. -/
inductive Closing where
  /-- A backquote ends the template. -/
  | backquote
  /-- `${` opens a substitution. -/
  | substitution
  deriving DecidableEq

/-- Read on inside a chunk, up to and with its closing. At the end of the text there is none. -/
def readFrom (p : Progress) (c : Cursor) : Progress × Option Closing × Cursor :=
  match _h : c.rest with
  | [] => (p, none, c)
  | '\x60' :: rest => (p, some .backquote, c.moveTo 1 rest)
  | '$' :: '\x7b' :: rest => (p, some .substitution, c.moveTo 2 rest)
  | '\\' :: rest =>
    let read := readEscape p (c.moveTo 1 rest)
    readFrom read.1 read.2
  | ch :: rest =>
    if isLineTerminator ch then readFrom (p.push '\n') (c.passLine ch rest)
    else readFrom (p.push ch) (c.pass ch rest)
termination_by c.rest.length
decreasing_by
  · exact Nat.lt_of_le_of_lt (readEscape_rest_length_le p (c.moveTo 1 rest))
      (Cursor.length_lt_of_rest_eq _h)
  · exact Nat.lt_of_le_of_lt (Cursor.passLine_rest_length_le c ch rest) (Cursor.length_lt_of_rest_eq _h)
  · exact Cursor.length_lt_of_rest_eq _h

/-- The number of bytes of a closing. -/
def Closing.width : Closing → Nat
  | .backquote => 1
  | .substitution => 2

/-- Read a chunk at a cursor where a backquote or a closing brace stands (`scan_template`). -/
def read (c : Cursor) : Except Fault (TemplateChunk × Closing × Cursor) :=
  match c.rest with
  | [] => .error (.illegal c)
  | opening :: rest =>
    let first := c.pass opening rest
    match readFrom ⟨[], none⟩ first with
    | (_, none, stop) => .error (.illegal stop)
    | (p, some closing, stop) =>
      .ok ({ raw := first.textUntil (stop.offset - closing.width)
             cooked := if p.invalid.isNone then some (String.ofList p.cooked.reverse) else none
             invalidEscape := p.invalid
             isHead := opening == '\x60'
             isTail := closing == .backquote }, closing, stop)

end EcmaTree.Template
