import EcmaTree.Proofs.Lexer.Lines

/-!
# What escapes are written with

The readers of escapes go by the text alone: where it stands in the source and on which line makes no difference to what
they find and to what they take. What they take of a number is hexadecimal digits, up to the first other character.
-/

namespace EcmaTree

variable {c d : Cursor} {ch : Char} {rest : List Char} {α β : Type}

theorem Cursor.moveTo_moveTo (c : Cursor) (m n : Nat) (cs ds : List Char) :
    (c.moveTo m cs).moveTo n ds = c.moveTo (n + m) ds := by
  simp only [Cursor.moveTo, Nat.add_comm n, Nat.add_assoc]

theorem Cursor.pass_moveTo (c : Cursor) (ch : Char) (rest cs ds : List Char) :
    (c.pass ch rest).moveTo (bytes cs) ds = c.moveTo (bytes (ch :: cs)) ds := by
  rw [Cursor.pass, Cursor.moveTo_moveTo, bytes_cons, Nat.add_comm]

theorem utf8Size_of_isHexDigit (h : isHexDigit ch = true) : ch.utf8Size = 1 := by
  have small : ch ≤ 'f' := by
    simp only [isHexDigit, digitValue?] at h
    by_contra hlarge
    have (x : Char) (hx : x ≤ 'f') : ¬ ch ≤ x := fun hch => hlarge (Char.le_trans hch hx)
    simp [this '9' (by decide), this 'F' (by decide), hlarge] at h
  exact Char.utf8Size_eq_one_iff.2 (UInt32.le_trans small (by decide))

theorem bytes_of_digits {ds : List Char} (h : ∀ d ∈ ds, isHexDigit d = true) : bytes ds = ds.length := by
  induction ds with
  | nil => rfl
  | cons d ds ih =>
    obtain ⟨first, others⟩ := List.forall_mem_cons.1 h
    rw [bytes_cons, utf8Size_of_isHexDigit first, ih others, List.length_cons, Nat.add_comm]

namespace Escape

/-- The number that hexadecimal digits write behind those that make up `value`. -/
def hexNumber (value : Nat) : List Char → Nat
  | [] => value
  | ch :: ds => hexNumber (value * 16 + (digitValue? 16 ch).getD 0) ds

theorem hexNumber_cons {digit : Nat} (h : digitValue? 16 ch = some digit) (value : Nat) (ds : List Char) :
    hexNumber value (ch :: ds) = hexNumber (value * 16 + digit) ds := by
  rw [hexNumber, h]
  rfl

theorem le_hexNumber (value : Nat) (ds : List Char) : value ≤ hexNumber value ds := by
  induction ds generalizing value with
  | nil => exact Nat.le_refl _
  | cons ch ds ih =>
    have := ih (value * 16 + (digitValue? 16 ch).getD 0)
    rw [hexNumber]
    omega

/-- The hexadecimal digits at the beginning of a text. -/
def digitsOf (cs : List Char) : List Char := cs.takeWhile isHexDigit

theorem digitsOf_cons_pos {digit : Nat} (h : digitValue? 16 ch = some digit) :
    digitsOf (ch :: rest) = ch :: digitsOf rest :=
  List.takeWhile_cons_of_pos (by simp [isHexDigit, h])

theorem digitsOf_cons_neg (h : digitValue? 16 ch = none) : digitsOf (ch :: rest) = [] :=
  List.takeWhile_cons_of_neg (by simp [isHexDigit, h])

theorem isHexDigit_of_mem {cs : List Char} (h : ch ∈ digitsOf cs) : isHexDigit ch = true := List.mem_takeWhile_imp h

theorem pass_of_digit {digit : Nat} (h : digitValue? 16 ch = some digit) : c.pass ch rest = c.moveTo 1 rest := by
  rw [Cursor.pass, utf8Size_of_isHexDigit (by simp [isHexDigit, h])]

/-- The cursor behind the next `n` characters, which take a byte each. -/
def skip (c : Cursor) (n : Nat) : Cursor := c.moveTo n (c.rest.drop n)

@[simp] theorem skip_zero (c : Cursor) : skip c 0 = c := rfl

theorem skip_moveTo (hc : c.rest = ch :: rest) (n : Nat) : skip (c.moveTo 1 rest) n = skip c (n + 1) := by
  rw [skip, skip, Cursor.moveTo_moveTo, hc]
  rfl

theorem across_skip {n : Nat} (h : n ≤ (digitsOf c.rest).length) : c.Across ((digitsOf c.rest).take n) (skip c n) := by
  have split : digitsOf c.rest ++ c.rest.dropWhile isHexDigit = c.rest := List.takeWhile_append_dropWhile
  have left : c.rest.drop n = (digitsOf c.rest).drop n ++ c.rest.dropWhile isHexDigit := by
    conv_lhs => rw [← split, List.drop_append_of_le_length h]
  refine .moveTo ?_ ?_
  · rw [left, ← List.append_assoc, List.take_append_drop, split]
  · rw [bytes_of_digits fun d hd => isHexDigit_of_mem (List.mem_of_mem_take hd), List.length_take, Nat.min_eq_left h]

/-- As many digits are read as there are, but no more than are asked for. -/
theorem hexDigits_eq (digits value : Nat) (c : Cursor) : hexDigits digits value c =
    (if digits ≤ (digitsOf c.rest).length then some (hexNumber value ((digitsOf c.rest).take digits)) else none,
      skip c (min digits (digitsOf c.rest).length)) := by
  fun_induction hexDigits digits value c with
  | case1 value c => simp [hexNumber]
  | case2 digits value c hc =>
    have none : digitsOf c.rest = [] := by rw [hc]; rfl
    simp [none]
  | case3 digits value c ch rest hc digit hd ih =>
    rw [ih, pass_of_digit hd, skip_moveTo hc, hc, digitsOf_cons_pos hd, List.take_succ_cons, hexNumber_cons hd]
    by_cases more : digits ≤ (digitsOf rest).length <;> simp [Cursor.moveTo, more]
  | case4 digits value c ch rest hc hd =>
    have none : digitsOf c.rest = [] := by rw [hc, digitsOf_cons_neg hd]
    simp [none]

/-- All digits are read, unless they write a number that is too large: then reading stops at one of them. -/
theorem codeDigits_eq (value count : Nat) (c : Cursor) :
    codeDigits value count c =
      (some (hexNumber value (digitsOf c.rest), count + (digitsOf c.rest).length), skip c (digitsOf c.rest).length) ∨
    codeLimit ≤ hexNumber value (digitsOf c.rest) ∧
      ∃ n ≤ (digitsOf c.rest).length, codeDigits value count c = (none, skip c n) := by
  fun_induction codeDigits value count c with
  | case1 value count c hc =>
    have none : digitsOf c.rest = [] := by rw [hc]; rfl
    exact .inl (by simp [none, hexNumber])
  | case2 value count c ch rest hc digit hd hlimit ih =>
    rw [pass_of_digit hd] at ih ⊢
    simp only [skip_moveTo hc] at ih
    rw [hc, digitsOf_cons_pos hd, hexNumber_cons hd, List.length_cons]
    rcases ih with h | ⟨hlarge, n, hn, h⟩
    · exact .inl (by rw [h, Nat.add_right_comm, ← Nat.add_assoc]; rfl)
    · exact .inr ⟨hlarge, n + 1, Nat.succ_le_succ hn, h⟩
  | case3 value count c ch rest hc digit hd hlimit =>
    have large := le_hexNumber (value * 16 + digit) (digitsOf rest)
    rw [hc, digitsOf_cons_pos hd, hexNumber_cons hd]
    exact .inr ⟨by omega, 0, Nat.zero_le _, rfl⟩
  | case4 value count c ch rest hc hd =>
    have none : digitsOf c.rest = [] := by rw [hc, digitsOf_cons_neg hd]
    exact .inl (by simp [none, hexNumber])

/-! ## Readers go by the text -/

/-- What the reader finds, and the characters that it takes, depend on the text alone. -/
def Textual (read : Cursor → α × Cursor) : Prop :=
  ∀ ⦃c d : Cursor⦄, d.rest = c.rest → (read d).1 = (read c).1 ∧ ∃ n rest, (read c).2 = c.moveTo n rest ∧
    (read d).2 = d.moveTo n rest

theorem hexDigits_textual (digits value : Nat) : Textual (hexDigits digits value) := by
  intro c d h
  rw [hexDigits_eq, hexDigits_eq, h]
  exact ⟨rfl, _, _, rfl, by rw [skip, h]⟩

theorem codeDigits_nil {value count : Nat} (hc : c.rest = []) :
    codeDigits value count c = (some (value, count), c) := by
  rw [codeDigits]
  split <;> simp_all

theorem codeDigits_cons {value count : Nat} (hc : c.rest = ch :: rest) : codeDigits value count c =
    match digitValue? 16 ch with
    | some digit =>
      if value * 16 < codeLimit then codeDigits (value * 16 + digit) (count + 1) (c.pass ch rest) else (none, c)
    | none => (some (value, count), c) := by
  rw [codeDigits]
  split
  next hnil => simp [hc] at hnil
  next hcons =>
    obtain ⟨rfl, rfl⟩ := List.cons.inj (hc.symm.trans hcons)
    rfl

theorem codeDigits_textual (value count : Nat) : Textual (codeDigits value count) := by
  intro c d h
  have still : ∃ n rest, c = c.moveTo n rest ∧ d = d.moveTo n rest := ⟨0, c.rest, rfl, by rw [← h]; rfl⟩
  fun_induction codeDigits value count c generalizing d with
  | case1 value count c hc =>
    rw [codeDigits_nil (h.trans hc)]
    exact ⟨rfl, still⟩
  | case2 value count c ch rest hc digit hd hlimit ih =>
    simp only [codeDigits_cons (h.trans hc), hd, if_pos hlimit]
    obtain ⟨found, n, left, hread, hread'⟩ := @ih (d.pass ch rest) rfl ⟨0, rest, rfl, rfl⟩
    exact ⟨found, _, left, hread.trans (c.moveTo_moveTo ..), hread'.trans (d.moveTo_moveTo ..)⟩
  | case3 value count c ch rest hc digit hd hlimit =>
    simp only [codeDigits_cons (h.trans hc), hd, if_neg hlimit]
    exact ⟨trivial, still⟩
  | case4 value count c ch rest hc hd =>
    simp only [codeDigits_cons (h.trans hc), hd]
    exact ⟨trivial, still⟩

/-- What a textual reader finds decides how it goes on, and so does what it leaves. -/
theorem Textual.cases {read : Cursor → Option β × Cursor} (hread : Textual read) (h : d.rest = c.rest) :
    ∃ found n rest, read c = (found, c.moveTo n rest) ∧ read d = (found, d.moveTo n rest) := by
  obtain ⟨found, n, rest, hc, hd⟩ := hread h
  exact ⟨(read c).1, n, rest, by rw [← hc], by rw [← hd, ← found]⟩

theorem byte_textual : Textual byte := by
  intro c d h
  obtain ⟨found, n, rest, hc, hd⟩ := (hexDigits_textual 2 0).cases h
  rw [byte, byte, hc, hd]
  cases found <;> exact ⟨rfl, n, rest, rfl, rfl⟩

theorem codePoint_textual : Textual codePoint := by
  intro c d h
  obtain ⟨found, n, rest, hc, hd⟩ := (codeDigits_textual 0 0).cases h
  rw [codePoint, codePoint, hc, hd]
  rcases found with _ | ⟨value, count⟩
  · exact ⟨rfl, n, rest, rfl, rfl⟩
  · simp only [show ∀ c : Cursor, (c.moveTo n rest).rest = rest from fun _ => rfl]
    split
    · split
      · exact ⟨rfl, n, _, rfl, rfl⟩
      · exact ⟨rfl, _, _, Cursor.moveTo_moveTo .., Cursor.moveTo_moveTo ..⟩
    · exact ⟨rfl, n, rest, rfl, rfl⟩

theorem unit_textual : Textual unit := by
  intro c d h
  obtain ⟨found, n, rest, hc, hd⟩ := (hexDigits_textual 4 0).cases h
  rw [unit, unit, hc, hd]
  rcases found with _ | code
  · exact ⟨rfl, n, rest, rfl, rfl⟩
  · simp only [show ∀ c : Cursor, (c.moveTo n rest).rest = rest from fun _ => rfl]
    split
    next tail _ =>
      obtain ⟨second, m, left, hc', hd'⟩ := (hexDigits_textual 4 0).cases
        (show ((d.moveTo n ('\\' :: 'u' :: tail)).moveTo 2 tail).rest =
          ((c.moveTo n ('\\' :: 'u' :: tail)).moveTo 2 tail).rest from rfl)
      rw [hc', hd']
      rcases second with _ | low
      · exact ⟨rfl, n, _, rfl, rfl⟩
      · dsimp only
        split
        · simp only [Cursor.moveTo_moveTo]
          exact ⟨trivial, _, _, rfl, rfl⟩
        · exact ⟨rfl, n, _, rfl, rfl⟩
    · exact ⟨rfl, n, _, rfl, rfl⟩

theorem unicode_textual : Textual unicode := by
  intro c d h
  unfold unicode
  rw [h]
  split
  next rest hc =>
    obtain ⟨found, n, left, hc, hd⟩ := @codePoint_textual (c.moveTo 1 rest) (d.moveTo 1 rest) rfl
    exact ⟨found, _, left, hc.trans (c.moveTo_moveTo ..), hd.trans (d.moveTo_moveTo ..)⟩
  · exact unit_textual h

end Escape

/-! ## Strings that are not closed -/

/-- The cursors stand before the same text. If the first one has left the line that starts at the offset, the second one
has left the first line of its text. -/
structure Cursor.SameText (start : Nat) (c d : Cursor) : Prop where
  rest : d.rest = c.rest
  leaves : c.lineStart = start ∨ 0 < d.lineStart

namespace Quoted

open Cursor (SameText)

variable {start : Nat} {e : Cursor}

theorem sameText_moveTo (h : SameText start c d) (k : Nat) (rest : List Char) :
    SameText start (c.moveTo k rest) (d.moveTo k rest) :=
  ⟨rfl, h.leaves⟩

theorem sameText_passLine (ch : Char) (rest : List Char) :
    SameText start (c.passLine ch rest) (d.passLine ch rest) := by
  have behind : 0 < (d.pass ch rest).offset := Nat.add_pos_right _ ch.utf8Size_pos
  unfold Cursor.passLine Cursor.startLine
  rw [show (d.pass ch rest).rest = (c.pass ch rest).rest from rfl]
  split
  · exact ⟨rfl, .inr (Nat.succ_pos _)⟩
  · exact ⟨rfl, .inr behind⟩

theorem readOctal_sameText (first : Nat) (h : SameText start c d) : (readOctal first d).1 = (readOctal first c).1 ∧
    (readOctal first d).2.1 = (readOctal first c).2.1 ∧ SameText start (readOctal first c).2.2
    (readOctal first d).2.2 := by
  unfold readOctal
  rw [h.rest]
  split
  · split
    · dsimp only
      split
      · split <;> exact ⟨rfl, rfl, sameText_moveTo h _ _⟩
      · exact ⟨rfl, rfl, sameText_moveTo h _ _⟩
    · exact ⟨rfl, rfl, h⟩
  · exact ⟨rfl, rfl, h⟩

theorem readEscape_sameText {text : List Char} {legacy : Bool} (h : SameText start c d)
    (he : readEscape c = .ok (text, legacy, e)) :
    ∃ e', readEscape d = .ok (text, legacy, e') ∧ SameText start e e' := by
  unfold readEscape at he ⊢
  rw [h.rest]
  split at he
  · cases he
    exact ⟨_, rfl, h⟩
  next ch rest hc =>
    have next : SameText start (c.pass ch rest) (d.pass ch rest) := sameText_moveTo h _ _
    obtain ⟨octal, forbidden, hoctal⟩ := readOctal_sameText (ch.toNat - '0'.toNat) next
    dsimp only at he ⊢
    split at he
    next hline =>
      cases he
      rw [if_pos hline]
      exact ⟨_, rfl, sameText_passLine ch rest⟩
    next hline =>
      rw [if_neg hline]
      split at he
      · cases he
        exact ⟨_, rfl, next⟩
      · split at he
        next hu =>
          obtain ⟨found, k, left, hread, hread'⟩ := Escape.unicode_textual.cases next.rest
          rw [hread] at he
          rw [if_pos hu, hread']
          cases found <;> cases he
          exact ⟨_, rfl, sameText_moveTo next _ _⟩
        next hu =>
          rw [if_neg hu]
          split at he
          next hx =>
            obtain ⟨found, k, left, hread, hread'⟩ := Escape.byte_textual.cases next.rest
            rw [hread] at he
            rw [if_pos hx, hread']
            cases found <;> cases he
            exact ⟨_, rfl, sameText_moveTo next _ _⟩
          next hx =>
            rw [if_neg hx]
            split at he
            next hdigit =>
              cases he
              rw [if_pos hdigit, octal, forbidden]
              exact ⟨_, rfl, hoctal⟩
            next hdigit =>
              cases he
              rw [if_neg hdigit]
              exact ⟨_, rfl, next⟩

theorem readFrom_nil {quote : Char} {read : List Char} {legacy : Bool} (hc : c.rest = []) :
    readFrom quote read legacy c = .ok (.inr c) := by
  rw [readFrom]
  split <;> simp_all

theorem readFrom_cons {quote : Char} {read : List Char} {legacy : Bool} (hc : c.rest = ch :: rest) :
    readFrom quote read legacy c =
      if ch == quote then .ok (.inl (⟨String.ofList read.reverse, legacy⟩, c.pass ch rest))
      else if ch == '\\' then
        match readEscape (c.pass ch rest) with
        | .ok (text, forbidden, d) => readFrom quote (text.reverse ++ read) (legacy || forbidden) d
        | .error fault => .error fault
      else if isLineTerminator ch then .ok (.inr (c.pass ch rest))
      else readFrom quote (ch :: read) legacy (c.pass ch rest) := by
  rw [readFrom]
  split
  next hnil => simp [hc] at hnil
  next hcons =>
    obtain ⟨rfl, rfl⟩ := List.cons.inj (hc.symm.trans hcons)
    cases readEscape (c.pass ch rest) <;> rfl

/-- A string that is not closed is not closed wherever its text stands, and goes over lines there as well. -/
theorem readFrom_sameText {quote : Char} {read : List Char} {legacy : Bool} (h : SameText start c d)
    (hread : readFrom quote read legacy c = .ok (.inr e)) (read' : List Char) (legacy' : Bool) :
    ∃ e', readFrom quote read' legacy' d = .ok (.inr e') ∧ SameText start e e' := by
  fun_induction readFrom quote read legacy c generalizing d read' legacy' with
  | case1 read legacy c hc =>
    cases hread
    exact ⟨d, readFrom_nil (h.rest.trans hc), h⟩
  | case2 | case4 => cases hread
  | case3 read legacy c ch rest hc hquote hslash text forbidden e' he ih =>
    rw [readFrom_cons (h.rest.trans hc), if_neg hquote, if_pos hslash]
    obtain ⟨stop, hstop, same⟩ := readEscape_sameText (sameText_moveTo h _ _) he
    rw [Cursor.pass, hstop]
    exact ih same hread _ _
  | case5 read legacy c ch rest hc hquote hslash hline =>
    cases hread
    rw [readFrom_cons (h.rest.trans hc), if_neg hquote, if_neg hslash, if_pos hline]
    exact ⟨_, rfl, sameText_moveTo h _ _⟩
  | case6 read legacy c ch rest hc hquote hslash hline ih =>
    rw [readFrom_cons (h.rest.trans hc), if_neg hquote, if_neg hslash, if_neg hline]
    exact ih (sameText_moveTo h _ _) hread _ _

end Quoted

end EcmaTree
