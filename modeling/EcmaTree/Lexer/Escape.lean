import EcmaTree.SyntaxError

/-!
# Escapes

The bodies of `\x`, `\u` and `\u{…}` escapes. A reader gives back the character, or nothing if the
escape is malformed, and the cursor where it stopped; a malformed escape stops at the first character
that does not fit. Two `\u` escapes that form a surrogate pair are one character, and a lone surrogate
is the replacement character.
-/

namespace EcmaTree.Escape

/-- The character that stands in for a code that is no scalar value. -/
def replacement : Char := '\ufffd'

/-- The character with the given code. -/
def ofCode (code : Nat) : Char := if code.isValidChar then Char.ofNat code else replacement

/-- Read exactly `digits` hexadecimal digits behind those that make up `value` (`scan_hex_escape`). -/
def hexDigits : (digits value : Nat) → Cursor → Option Nat × Cursor
  | 0, value, c => (some value, c)
  | digits + 1, value, c =>
    match c.rest with
    | [] => (none, c)
    | ch :: rest =>
      match digitValue? 16 ch with
      | some d => hexDigits digits (value * 16 + d) (c.pass ch rest)
      | none => (none, c)

/-- The first half of a surrogate pair. -/
def isHighSurrogate (code : Nat) : Bool := 0xD800 ≤ code && code < 0xDC00

/-- The second half of a surrogate pair. -/
def isLowSurrogate (code : Nat) : Bool := 0xDC00 ≤ code && code < 0xE000

/-- The character that a surrogate pair encodes. -/
def joinSurrogates (high low : Nat) : Char :=
  ofCode (0x10000 + (high - 0xD800) * 0x400 + (low - 0xDC00))

/-- Four hexadecimal digits, joined with a second escape if the two form a surrogate pair
(`scan_unicode_escape_char`). -/
def unit (c : Cursor) : Option Char × Cursor :=
  match hexDigits 4 0 c with
  | (none, d) => (none, d)
  | (some code, d) =>
    match isHighSurrogate code, d.rest with
    | true, '\\' :: 'u' :: rest =>
      match hexDigits 4 0 (d.moveTo 2 rest) with
      | (some low, e) => if isLowSurrogate low then (joinSurrogates code low, e) else (replacement, d)
      | (none, _) => (replacement, d)
    | _, _ => (ofCode code, d)

/-- The largest number that a code point escape may grow to, its last digit not counted. -/
def codeLimit : Nat := Nat.pow 2 32

/-- Hexadecimal digits, as many as there are, behind `count` digits that make up `value`. -/
def codeDigits (value count : Nat) (c : Cursor) : Option (Nat × Nat) × Cursor :=
  match _h : c.rest with
  | [] => (some (value, count), c)
  | ch :: rest =>
    match digitValue? 16 ch with
    | some d =>
      if value * 16 < codeLimit then codeDigits (value * 16 + d) (count + 1) (c.pass ch rest)
      else (none, c)
    | none => (some (value, count), c)
termination_by c.rest.length
decreasing_by exact Cursor.length_lt_of_rest_eq _h

/-- Digits and a closing brace, behind an opening brace (`scan_unicode_code_point_escape`). -/
def codePoint (c : Cursor) : Option Char × Cursor :=
  match codeDigits 0 0 c with
  | (none, d) => (none, d)
  | (some (value, count), d) =>
    match d.rest with
    | '}' :: rest =>
      if count = 0 || 0x10FFFF < value then (none, d) else (some (ofCode value), d.moveTo 1 rest)
    | _ => (none, d)

/-- The body of a `\u` escape in either form. -/
def unicode (c : Cursor) : Option Char × Cursor :=
  match c.rest with
  | '{' :: rest => codePoint (c.moveTo 1 rest)
  | _ => unit c

/-- The body of a `\x` escape. -/
def byte (c : Cursor) : Option Char × Cursor :=
  match hexDigits 2 0 c with
  | (none, d) => (none, d)
  | (some code, d) => (some (ofCode code), d)

/-- The character that a single letter stands for behind a backslash. -/
def control? : Char → Option Char
  | 'n' => some '\n'
  | 'r' => some '\r'
  | 't' => some '\t'
  | 'b' => some '\x08'
  | 'f' => some '\x0c'
  | 'v' => some '\x0b'
  | _ => none

/-! ## Readers never go back -/

theorem hexDigits_rest_length_le (digits value : Nat) (c : Cursor) :
    (hexDigits digits value c).2.rest.length ≤ c.rest.length := by
  fun_induction hexDigits digits value c <;> simp_all [Cursor.pass, Cursor.moveTo]
  omega

theorem unit_rest_length_le (c : Cursor) : (unit c).2.rest.length ≤ c.rest.length := by
  have first := hexDigits_rest_length_le 4 0 c
  unfold unit
  split
  · next d h => simpa [h] using first
  · next code d h =>
    rw [h] at first
    split
    · next rest _ hd =>
      have second := hexDigits_rest_length_le 4 0 (d.moveTo 2 rest)
      split
      · next low e he =>
        rw [he] at second
        split <;> simp_all [Cursor.moveTo]
        omega
      · exact first
    · exact first

theorem codeDigits_rest_length_le (value count : Nat) (c : Cursor) :
    (codeDigits value count c).2.rest.length ≤ c.rest.length := by
  fun_induction codeDigits value count c <;> simp_all [Cursor.pass, Cursor.moveTo]
  omega

theorem codePoint_rest_length_le (c : Cursor) : (codePoint c).2.rest.length ≤ c.rest.length := by
  have digits := codeDigits_rest_length_le 0 0 c
  unfold codePoint
  split
  · next d h => simpa [h] using digits
  · next value count d h =>
    rw [h] at digits
    split
    · split <;> simp_all [Cursor.moveTo]
      omega
    · exact digits

theorem unicode_rest_length_le (c : Cursor) : (unicode c).2.rest.length ≤ c.rest.length := by
  unfold unicode
  split
  · next rest h =>
    have := codePoint_rest_length_le (c.moveTo 1 rest)
    simp_all [Cursor.moveTo]
    omega
  · exact unit_rest_length_le c

theorem byte_rest_length_le (c : Cursor) : (byte c).2.rest.length ≤ c.rest.length := by
  have := hexDigits_rest_length_le 2 0 c
  unfold byte
  split <;> simp_all

end EcmaTree.Escape
