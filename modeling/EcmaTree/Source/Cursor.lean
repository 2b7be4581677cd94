import EcmaTree.Source.Span
import EcmaTree.Source.Character

/-!
# Reading positions

A `Cursor` stands at an offset of a source text and holds the characters that are still unread, with
the number of the current line and the offset where that line starts. Moving on never changes the
text: the rest of a later cursor is a suffix of the rest of an earlier one. The line fields are moved
separately, because not every reader counts the line terminators that it passes.
-/

namespace EcmaTree

/-- A position in a source text and what follows it. -/
structure Cursor where
  offset : Nat
  line : Nat
  lineStart : Nat
  rest : List Char
  deriving DecidableEq, Inhabited

namespace Cursor

/-- The beginning of `source`. An empty source has no first line: it stays on line zero. -/
def ofString (source : String) : Cursor :=
  ⟨0, if source.isEmpty then 0 else 1, 0, source.toList⟩

/-- The number of bytes between the start of the line and the cursor, in a word of 32 bits (`column`). So the
column of a cursor that has gone back before the start of its line wraps around. -/
def column (c : Cursor) : Nat := (c.offset.toUInt32 - c.lineStart.toUInt32).toNat

theorem column_eq_inWord {c : Cursor} (h : c.lineStart ≤ c.offset) : c.column = inWord (c.offset - c.lineStart) := by
  simp only [column, inWord_eq_mod, UInt32.toNat_sub, Nat.toUInt32_eq, UInt32.toNat_ofNat', UInt32.size]
  omega

/-- Before an offset of 4 GiB the column is the distance from the start of the line. -/
theorem column_eq {c : Cursor} (h : c.lineStart ≤ c.offset) (hfits : c.offset < UInt32.size) :
    c.column = c.offset - c.lineStart := by
  rw [column_eq_inWord h, inWord_eq (Nat.lt_of_le_of_lt (Nat.sub_le ..) hfits)]

/-- Line and column of the cursor. -/
def position (c : Cursor) : Position := ⟨c.line, c.column⟩

/-- Offset, line and column of the cursor. -/
def place (c : Cursor) : Place := ⟨c.offset, c.line, c.column⟩

/-- Is nothing left to read? -/
def atEnd (c : Cursor) : Bool := c.rest.isEmpty

/-- Is the next character `ch`? -/
def startsWith (c : Cursor) (ch : Char) : Bool := c.rest.head? == some ch

/-- The cursor after `bytes` bytes, where `rest` is still unread. -/
def moveTo (c : Cursor) (bytes : Nat) (rest : List Char) : Cursor :=
  { c with offset := c.offset + bytes, rest }

/-- The cursor after the next character, which must be `ch` and leave `rest`. -/
def pass (c : Cursor) (ch : Char) (rest : List Char) : Cursor := c.moveTo ch.utf8Size rest

/-- Start a new line behind the line terminator `ch`, which has just been passed (`new_line`). A line feed right
after a carriage return belongs to it. -/
def startLine (c : Cursor) (ch : Char) : Cursor :=
  match ch, c.rest with
  | '\r', '\n' :: rest => ⟨c.offset + 1, inWord (c.line + 1), c.offset + 1, rest⟩
  | _, _ => { c with line := inWord (c.line + 1), lineStart := c.offset }

/-- What follows the next character is shorter than all that is unread. -/
theorem length_lt_of_rest_eq {c : Cursor} {ch : Char} {rest : List Char} (h : c.rest = ch :: rest) :
    rest.length < c.rest.length := by
  rw [h]
  exact Nat.lt_succ_self _

/-- Pass the line terminator `ch` and start a new line. -/
def passLine (c : Cursor) (ch : Char) (rest : List Char) : Cursor := (c.pass ch rest).startLine ch

theorem startLine_rest_length_le (c : Cursor) (ch : Char) :
    (c.startLine ch).rest.length ≤ c.rest.length := by
  unfold startLine
  split <;> simp_all

theorem passLine_rest_length_le (c : Cursor) (ch : Char) (rest : List Char) :
    (c.passLine ch rest).rest.length ≤ rest.length :=
  startLine_rest_length_le _ _

/-- Pass every character up to the first one that fails `p`. -/
def skipWhile (p : Char → Bool) (c : Cursor) : Cursor :=
  c.moveTo ((c.rest.takeWhile p).foldl (· + ·.utf8Size) 0) (c.rest.dropWhile p)

theorem skipWhile_rest (p : Char → Bool) (c : Cursor) :
    (c.skipWhile p).rest = c.rest.dropWhile p := rfl

/-- The longest run of leading characters whose bytes begin within the first `bytes` bytes. -/
def takeBytes : Nat → List Char → List Char
  | 0, _ => []
  | _, [] => []
  | bytes + 1, ch :: rest => ch :: takeBytes (bytes + 1 - ch.utf8Size) rest

/-- The characters between `c` and the offset `stop`. -/
def charsUntil (c : Cursor) (stop : Nat) : List Char := takeBytes (stop - c.offset) c.rest

/-- The text between `c` and the offset `stop` (`slice`). -/
def textUntil (c : Cursor) (stop : Nat) : String := String.ofList (c.charsUntil stop)

end Cursor

end EcmaTree
