import EcmaTree.Comment.Basic
import EcmaTree.SyntaxError

/-!
# Trivia

White space, line terminators and comments stand between tokens. `Trivia.skip` passes all of them and
gives back the comments in the order of the source, if they are to be kept. A block comment that is never
closed reaches to the end of the text.
-/

namespace EcmaTree

/-- What was skipped, and the cursor behind it. -/
structure Trivia where
  comments : List Comment
  cursor : Cursor
  /-- Did the text end inside a block comment? -/
  unclosed : Bool

namespace Trivia

/-- Read a line comment that begins at `c`, where an opener of `opener` bytes precedes `body`
(`skip_single_line_comment`). The line terminator is passed but is no part of the comment. -/
def readLine (c : Cursor) (opener : Nat) (body : List Char) : Comment × Cursor :=
  let first := c.moveTo opener body
  let last := first.skipWhile (!isLineTerminator ·)
  let comment := ⟨.line, first.textUntil last.offset, ⟨c.place, last.place⟩, {}⟩
  match last.rest with
  | [] => (comment, last)
  | ch :: rest => (comment, last.passLine ch rest)

/-- Pass the inside of a block comment: the cursor before `*/`, or at the end of the text. -/
def skipBlock (c : Cursor) : Cursor :=
  match _h : c.rest with
  | [] => c
  | '*' :: '/' :: _ => c
  | ch :: rest =>
    if isLineTerminator ch then skipBlock (c.passLine ch rest) else skipBlock (c.pass ch rest)
termination_by c.rest.length
decreasing_by
  · exact Nat.lt_of_le_of_lt (Cursor.passLine_rest_length_le c ch rest) (Cursor.length_lt_of_rest_eq _h)
  · exact Cursor.length_lt_of_rest_eq _h

/-- Read a block comment that begins at `c` with `/*` before `body`; the flag tells whether it is left unclosed
(`skip_multi_line_comment`). -/
def readBlock (c : Cursor) (body : List Char) : Comment × Cursor × Bool :=
  let first := c.moveTo 2 body
  let last := skipBlock first
  let text := first.textUntil last.offset
  match last.rest with
  | '*' :: '/' :: rest =>
    let stop := last.moveTo 2 rest
    (⟨.block, text, ⟨c.place, stop.place⟩, {}⟩, stop, false)
  | _ => (⟨.block, text, ⟨c.place, last.place⟩, {}⟩, last, true)

theorem readLine_rest_length_le (c : Cursor) (opener : Nat) (body : List Char) :
    (readLine c opener body).2.rest.length ≤ body.length := by
  have hdrop : (List.dropWhile (!isLineTerminator ·) body).length ≤ body.length :=
    (List.dropWhile_sublist _).length_le
  unfold readLine
  simp only
  split
  · next h => simp_all [Cursor.moveTo, Cursor.skipWhile]
  · next ch rest h =>
    have := Cursor.passLine_rest_length_le
      ((c.moveTo opener body).skipWhile (!isLineTerminator ·)) ch rest
    simp only [Cursor.skipWhile, Cursor.moveTo] at *
    grind

theorem skipBlock_rest_length_le (c : Cursor) : (skipBlock c).rest.length ≤ c.rest.length := by
  fun_induction skipBlock c with
  | case1 | case2 => simp
  | case3 c ch rest h _ _ ih =>
    have := Cursor.passLine_rest_length_le c ch rest
    simp_all; omega
  | case4 c ch rest h _ _ ih =>
    simp_all [Cursor.pass, Cursor.moveTo]; omega

theorem readBlock_rest_length_le (c : Cursor) (body : List Char) :
    (readBlock c body).2.1.rest.length ≤ body.length := by
  have := skipBlock_rest_length_le (c.moveTo 2 body)
  unfold readBlock
  simp only
  split <;> simp_all [Cursor.moveTo]; omega

/-- The comments met so far, last one first, with one more if comments are kept. -/
def noted (keep : Bool) (c : Comment) (found : List Comment) : List Comment := if keep then c :: found else found

/-- Pass trivia from `c` on. Scripts have two more forms of line comments: `<!--` anywhere, and `-->`
where no token precedes it on its line (`fresh`). Comments met so far are in `found`, last one
first. -/
def skipFrom (keep script fresh : Bool) (found : List Comment) (c : Cursor) : Trivia :=
  match _h : c.rest with
  | '/' :: '/' :: body =>
    let read := readLine c 2 body
    skipFrom keep script true (noted keep read.1 found) read.2
  | '/' :: '*' :: body =>
    let read := readBlock c body
    if read.2.2 then ⟨(noted keep read.1 found).reverse, read.2.1, true⟩
    else skipFrom keep script fresh (noted keep read.1 found) read.2.1
  | '-' :: '-' :: '>' :: body =>
    if script && fresh then
      let read := readLine c 3 body
      skipFrom keep script fresh (noted keep read.1 found) read.2
    else ⟨found.reverse, c, false⟩
  | '<' :: '!' :: '-' :: '-' :: body =>
    if script then
      let read := readLine c 4 body
      skipFrom keep script fresh (noted keep read.1 found) read.2
    else ⟨found.reverse, c, false⟩
  | ch :: rest =>
    if isBlank ch then skipFrom keep script fresh found (c.pass ch rest)
    else if isLineTerminator ch then skipFrom keep script true found (c.passLine ch rest)
    else ⟨found.reverse, c, false⟩
  | [] => ⟨found.reverse, c, false⟩
termination_by c.rest.length
decreasing_by
  · have := readLine_rest_length_le c 2 body
    rw [_h]
    simp only [List.length_cons]
    omega
  · have := readBlock_rest_length_le c body
    rw [_h]
    simp only [List.length_cons]
    omega
  · have := readLine_rest_length_le c 3 body
    rw [_h]
    simp only [List.length_cons]
    omega
  · have := readLine_rest_length_le c 4 body
    rw [_h]
    simp only [List.length_cons]
    omega
  · exact Cursor.length_lt_of_rest_eq _h
  · exact Nat.lt_of_le_of_lt (Cursor.passLine_rest_length_le c ch rest) (Cursor.length_lt_of_rest_eq _h)

/-- Pass all trivia at `c` (`scan_comments`). At the beginning of the text no token precedes. -/
def skip (keep script : Bool) (c : Cursor) : Trivia := skipFrom keep script (c.offset == 0) [] c

end Trivia

end EcmaTree
