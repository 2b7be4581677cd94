import EcmaTree.Lexer.Escape

/-!
# String literals

The text between two quotes, with its escapes decoded. A backslash before a line terminator joins two
lines. Octal escapes, and `\8` and `\9`, are read but marked, because strict code forbids them. A string
that its line or the text ends is a fault at its opening quote.
-/

namespace EcmaTree

/-- The value of a string literal, and whether strict code forbids its form. -/
structure Quoted where
  value : String
  legacy : Bool
  deriving DecidableEq

namespace Quoted

/-- Read the digits of an octal escape behind its first digit: the code, whether the form is legacy, and the cursor
behind it (`octal_to_decimal`). Codes stay below 256, so only a first digit up to three has two more. -/
def readOctal (first : Nat) (c : Cursor) : Nat × Bool × Cursor :=
  match c.rest with
  | a :: rest =>
    if isOctalDigit a then
      let two := first * 8 + (a.toNat - '0'.toNat)
      match rest with
      | b :: rest' =>
        if first ≤ 3 && isOctalDigit b then
          (two * 8 + (b.toNat - '0'.toNat), true, c.moveTo 2 rest')
        else (two, true, c.moveTo 1 rest)
      | [] => (two, true, c.moveTo 1 rest)
    else (first, first != 0, c)
  | [] => (first, first != 0, c)

/-- Read the rest of an escape behind its backslash: what it adds to the value, whether its form is
legacy, and the cursor behind it. At the end of the text there is nothing to read. -/
def readEscape (c : Cursor) : Except Fault (List Char × Bool × Cursor) :=
  match c.rest with
  | [] => .ok ([], false, c)
  | ch :: rest =>
    let next := c.pass ch rest
    if isLineTerminator ch then .ok ([], false, next.startLine ch)
    else match Escape.control? ch with
      | some control => .ok ([control], false, next)
      | none =>
        if ch == 'u' then
          match Escape.unicode next with
          | (some decoded, d) => .ok ([decoded], false, d)
          | (none, d) => .error (.illegal d)
        else if ch == 'x' then
          match Escape.byte next with
          | (some decoded, d) => .ok ([decoded], false, d)
          | (none, d) => .error ⟨.hexEscape, d⟩
        else if isOctalDigit ch then
          let read := readOctal (ch.toNat - '0'.toNat) next
          .ok ([Escape.ofCode read.1], read.2.1, read.2.2)
        else .ok ([ch], isDecimalDigit ch, next)

theorem readOctal_rest_length_le (first : Nat) (c : Cursor) :
    (readOctal first c).2.2.rest.length ≤ c.rest.length := by
  unfold readOctal
  grind [Cursor.moveTo]

theorem readEscape_rest_length_le {c d : Cursor} {text : List Char} {legacy : Bool}
    (h : readEscape c = .ok (text, legacy, d)) : d.rest.length ≤ c.rest.length := by
  unfold readEscape at h
  split at h
  · simp_all
  · next ch rest hc =>
    have line := Cursor.passLine_rest_length_le c ch rest
    have unicode := Escape.unicode_rest_length_le (c.pass ch rest)
    have byte := Escape.byte_rest_length_le (c.pass ch rest)
    have octal := readOctal_rest_length_le (ch.toNat - '0'.toNat) (c.pass ch rest)
    simp only [Cursor.passLine] at line
    have pass : (c.pass ch rest).rest.length + 1 = c.rest.length := by
      simp [hc, Cursor.pass, Cursor.moveTo]
    simp only at h
    split at h
    · simp only [Except.ok.injEq, Prod.mk.injEq] at h
      rw [← h.2.2]
      simp only [Cursor.pass, Cursor.moveTo] at *
      omega
    · split at h
      · simp only [Except.ok.injEq, Prod.mk.injEq] at h
        rw [← h.2.2]; omega
      · split at h
        · split at h <;> simp_all
          omega
        · split at h
          · split at h <;> simp_all
            omega
          · split at h
            · simp only [Except.ok.injEq, Prod.mk.injEq] at h
              rw [← h.2.2]; omega
            · simp only [Except.ok.injEq, Prod.mk.injEq] at h
              rw [← h.2.2]; omega

/-- Read on up to the closing `quote`. The characters of the value so far are in `read`, last one
first. An unclosed string gives back the cursor where that was seen. -/
def readFrom (quote : Char) (read : List Char) (legacy : Bool) (c : Cursor) :
    Except Fault ((Quoted × Cursor) ⊕ Cursor) :=
  match _h : c.rest with
  | [] => .ok (.inr c)
  | ch :: rest =>
    if ch == quote then .ok (.inl (⟨String.ofList read.reverse, legacy⟩, c.pass ch rest))
    else if ch == '\\' then
      match _he : readEscape (c.pass ch rest) with
      | .ok (text, forbidden, d) => readFrom quote (text.reverse ++ read) (legacy || forbidden) d
      | .error fault => .error fault
    else if isLineTerminator ch then .ok (.inr (c.pass ch rest))
    else readFrom quote (ch :: read) legacy (c.pass ch rest)
termination_by c.rest.length
decreasing_by
  · exact Nat.lt_of_le_of_lt (readEscape_rest_length_le _he) (Cursor.length_lt_of_rest_eq _h)
  · exact Cursor.length_lt_of_rest_eq _h

/-- Read a string literal at a cursor where a quote stands (`scan_string_literal`). After an unclosed string,
reading may go on at its quote, on the line that it reached. -/
def read (c : Cursor) : Except Fault (Quoted × Cursor) :=
  match c.rest with
  | [] => .error (.illegal c)
  | quote :: rest =>
    match readFrom quote [] false (c.pass quote rest) with
    | .ok (.inl result) => .ok result
    | .ok (.inr stop) => .error (.illegal { stop with offset := c.offset, rest := c.rest })
    | .error fault => .error fault

end Quoted

end EcmaTree
