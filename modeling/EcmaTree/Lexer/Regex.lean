import EcmaTree.Lexer.Escape
import EcmaTree.Lexer.Token

/-!
# Regular expression literals

The body ends at the first slash that is neither escaped nor in a class, and the flags are the identifier
characters behind it. The body must not reach the end of the line. An escape among the flags is a fault
that tolerant reading passes over, so the flags come with the list of such faults.
-/

namespace EcmaTree.Regex

/-- Pass the body of a regular expression, up to its closing slash: the cursor before the slash
(`scan_regexp_body`). -/
def skipBody (inClass : Bool) (c : Cursor) : Except Fault Cursor :=
  match _h : c.rest with
  | [] => .error ⟨.unterminatedRegex, c⟩
  | '\\' :: [] => .error ⟨.unterminatedRegex, c.moveTo 1 []⟩
  | '\\' :: ch :: rest =>
    let next := (c.moveTo 1 (ch :: rest)).pass ch rest
    if isLineTerminator ch then .error ⟨.unterminatedRegex, next⟩ else skipBody inClass next
  | ch :: rest =>
    if isLineTerminator ch then .error ⟨.unterminatedRegex, c.pass ch rest⟩
    else if inClass then skipBody (ch != ']') (c.pass ch rest)
    else if ch == '/' then .ok c
    else skipBody (ch == '[') (c.pass ch rest)
termination_by c.rest.length
decreasing_by
  · rw [_h]
    exact Nat.lt_trans (Nat.lt_succ_self _) (Nat.lt_succ_self _)
  · exact Cursor.length_lt_of_rest_eq _h
  · exact Cursor.length_lt_of_rest_eq _h

/-- Pass an escape among the flags, behind its backslash: what it adds to the flags, and the cursor
behind it. -/
def skipFlagEscape (c : Cursor) : List Char × Cursor :=
  match c.rest with
  | 'u' :: rest =>
    match Escape.unit (c.moveTo 1 rest) with
    | (some ch, d) => ([ch], d)
    | (none, _) => (['u'], c.moveTo 1 rest)
  | _ => ([], c)

theorem skipFlagEscape_rest_length_le (c : Cursor) :
    (skipFlagEscape c).2.rest.length ≤ c.rest.length := by
  unfold skipFlagEscape
  split
  · next rest h =>
    have := Escape.unit_rest_length_le (c.moveTo 1 rest)
    split <;> simp_all [Cursor.moveTo]
    omega
  · simp

/-- Read on in the flags: all of them, the faults met, and the cursor behind them (`scan_regexp_flags`). The flags
read so far are in `read` and the faults in `faults`, last one first. -/
def readFlagsFrom (read : List Char) (faults : List Fault) (c : Cursor) :
    String × List Fault × Cursor :=
  match _h : c.rest with
  | [] => (String.ofList read.reverse, faults.reverse, c)
  | '\\' :: rest =>
    let escape := skipFlagEscape (c.moveTo 1 rest)
    readFlagsFrom (escape.1 ++ read) (.illegal escape.2 :: faults) escape.2
  | ch :: rest =>
    if isIdentifierPart ch then readFlagsFrom (ch :: read) faults (c.pass ch rest)
    else (String.ofList read.reverse, faults.reverse, c)
termination_by c.rest.length
decreasing_by
  · exact Nat.lt_of_le_of_lt (skipFlagEscape_rest_length_le (c.moveTo 1 rest))
      (Cursor.length_lt_of_rest_eq _h)
  · exact Cursor.length_lt_of_rest_eq _h

/-- A regular expression literal, the faults among its flags, and the cursor behind it. -/
structure Reading where
  literal : RegexLiteral
  faults : List Fault
  cursor : Cursor

/-- Read a regular expression at a cursor where a slash stands (`scan_regexp`). -/
def read (c : Cursor) : Except Fault Reading :=
  let first := c.moveTo 1 (c.rest.drop 1)
  match skipBody false first with
  | .error fault => .error fault
  | .ok last =>
    let (flags, faults, stop) := readFlagsFrom [] [] (last.moveTo 1 (last.rest.drop 1))
    .ok ⟨⟨first.textUntil last.offset, flags⟩, faults, stop⟩

end EcmaTree.Regex
