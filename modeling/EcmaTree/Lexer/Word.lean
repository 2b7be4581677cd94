import EcmaTree.Lexer.Escape
import EcmaTree.Lexer.Token

/-!
# Words

A word is a run of identifier characters, each written directly or as a `\u` escape. It is a keyword, a
literal or an identifier by its name alone, so an escape may spell a keyword; the scanner reports that.
-/

namespace EcmaTree.Word

/-- Read the rest of an escape behind its backslash (`scan_identifier_escape`). A character written with four
digits has to be one that `accepts` admits; one written as a code point is taken as it is. -/
def escaped (accepts : Char → Bool) (c : Cursor) : Except Fault (Char × Cursor) :=
  match c.rest with
  | 'u' :: '{' :: rest =>
    match Escape.codePoint (c.moveTo 2 rest) with
    | (some ch, d) => .ok (ch, d)
    | (none, d) => .error (.illegal d)
  | 'u' :: rest =>
    match Escape.unit (c.moveTo 1 rest) with
    | (some ch, d) => if ch != '\\' && accepts ch then .ok (ch, d) else .error (.illegal d)
    | (none, d) => .error (.illegal d)
  | _ => .error (.illegal c)

theorem escaped_rest_length_le {accepts : Char → Bool} {c d : Cursor} {ch : Char}
    (h : escaped accepts c = .ok (ch, d)) : d.rest.length ≤ c.rest.length := by
  unfold escaped at h
  split at h
  · next rest hc =>
    have := Escape.codePoint_rest_length_le (c.moveTo 2 rest)
    split at h <;> simp_all [Cursor.moveTo]
    omega
  · next rest _ hc =>
    have := Escape.unit_rest_length_le (c.moveTo 1 rest)
    split at h
    · split at h <;> simp_all [Cursor.moveTo]
      omega
    · simp at h
  · simp at h

/-- Read on behind the characters in `read`, last one first. -/
def readFrom (read : List Char) (c : Cursor) : Except Fault (List Char × Cursor) :=
  match _h : c.rest with
  | [] => .ok (read.reverse, c)
  | '\\' :: rest =>
    match _he : escaped isIdentifierPart (c.moveTo 1 rest) with
    | .ok (ch, d) => readFrom (ch :: read) d
    | .error fault => .error fault
  | ch :: rest =>
    if isIdentifierPart ch then readFrom (ch :: read) (c.pass ch rest) else .ok (read.reverse, c)
termination_by c.rest.length
decreasing_by
  · exact Nat.lt_of_le_of_lt (escaped_rest_length_le _he) (Cursor.length_lt_of_rest_eq _h)
  · exact Cursor.length_lt_of_rest_eq _h

/-- Read a word at a cursor where one begins: its characters, and the cursor behind it (`get_identifier`,
`get_complex_identifier`). -/
def read (c : Cursor) : Except Fault (List Char × Cursor) :=
  match c.rest with
  | [] => .error (.illegal c)
  | '\\' :: rest =>
    match escaped isIdentifierStart (c.moveTo 1 rest) with
    | .ok (ch, d) => readFrom [ch] d
    | .error fault => .error fault
  | ch :: rest => readFrom [ch] (c.pass ch rest)

/-- What a name stands for (`scan_identifier`). -/
def classify (name : String) : Lexeme :=
  if name.length == 1 then .identifier name
  else if keywords.contains name then .keyword name
  else if name == "null" then .null
  else if name == "true" then .boolean true
  else if name == "false" then .boolean false
  else .identifier name

/-- Is the lexeme a word that an escape must not spell? -/
def isReserved : Lexeme → Bool
  | .identifier _ => false
  | _ => true

end EcmaTree.Word
