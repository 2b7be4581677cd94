import EcmaTree.Proofs.Lexer.Strict

/-!
# Words in a text

A word is read in the same way wherever it stands, if what follows it is no part of a word: the readers of words and of
their escapes look no further than that.
-/

namespace EcmaTree

/-- Text before which a word ends: none, or text that begins with a space or a closing parenthesis. -/
def EndsWord (cs : List Char) : Prop := ∀ ch rest, cs = ch :: rest → ch = ' ' ∨ ch = ')'

/-- Where a word stands in a text. -/
structure Surroundings where
  offset : Nat
  line : Nat
  lineStart : Nat
  behind : List Char
  ends : EndsWord behind

namespace Surroundings

variable (x : Surroundings)

/-- The cursor in the text that corresponds to one in the word alone. -/
def place (c : Cursor) : Cursor := ⟨c.offset + x.offset, x.line, x.lineStart, c.rest ++ x.behind⟩

@[simp] theorem place_rest (c : Cursor) : (x.place c).rest = c.rest ++ x.behind := rfl

@[simp] theorem place_moveTo (c : Cursor) (n : Nat) (rest : List Char) :
    x.place (c.moveTo n rest) = (x.place c).moveTo n (rest ++ x.behind) := by
  simp only [place, Cursor.moveTo, Nat.add_right_comm]

theorem place_pass (c : Cursor) (ch : Char) (rest : List Char) :
    x.place (c.pass ch rest) = (x.place c).pass ch (rest ++ x.behind) := x.place_moveTo c _ rest

/-- Behind the word stands no character that one of the readers would take. -/
theorem behind_cases : x.behind = [] ∨ ∃ ch rest, x.behind = ch :: rest ∧ digitValue? 16 ch = none ∧
    isIdentifierPart ch = false ∧
    ch ≠ '\\' ∧ ch ≠ 'u' ∧ ch ≠ '\x7b' ∧ ch ≠ '\x7d' := by
  cases hb : x.behind with
  | nil => exact .inl rfl
  | cons ch rest =>
    rcases x.ends ch rest hb with rfl | rfl
    · exact .inr ⟨_, _, rfl, by decide, by decide, by decide, by decide, by decide, by decide⟩
    · exact .inr ⟨_, _, rfl, by decide, by decide, by decide, by decide, by decide, by decide⟩

/-- What a reader gives back in the text. -/
def placeRead {α : Type} (r : α × Cursor) : α × Cursor := (r.1, x.place r.2)

end Surroundings

namespace Escape

variable (x : Surroundings)

theorem hexDigits_place (digits value : Nat) (c : Cursor) :
    hexDigits digits value (x.place c) = x.placeRead (hexDigits digits value c) := by
  fun_induction hexDigits digits value c with
  | case1 => rfl
  | case2 value c digits hc =>
    unfold hexDigits
    rcases x.behind_cases with hb | ⟨ch, rest, hb, hdigit, -⟩ <;> simp [hc, hb, Surroundings.placeRead]
    simp [hdigit]
  | case3 value c digits ch rest hc d hd ih =>
    rw [← ih, hexDigits]
    simp [hc, hd, Surroundings.place_pass]
  | case4 value c digits ch rest hc hd =>
    rw [hexDigits]
    simp [hc, hd, Surroundings.placeRead]

theorem codeDigits_place (value count : Nat) (c : Cursor) :
    codeDigits value count (x.place c) = x.placeRead (codeDigits value count c) := by
  fun_induction codeDigits value count c with
  | case1 value count c hc =>
    unfold codeDigits
    rcases x.behind_cases with hb | ⟨ch, rest, hb, hdigit, -⟩ <;> split <;> simp_all [Surroundings.placeRead]
  | case2 value count c ch rest hc d hd hlimit ih =>
    rw [← ih, codeDigits]
    split <;> simp_all [Surroundings.place_pass]
  | case3 value count c ch rest hc d hd hlimit =>
    rw [codeDigits]
    split
    next hnil => simp [hc] at hnil
    next ch' rest' hcons =>
      obtain ⟨rfl, rfl⟩ : ch = ch' ∧ rest ++ x.behind = rest' := by simpa [hc] using hcons
      simp only [hd, if_neg hlimit, Surroundings.placeRead]
  | case4 value count c ch rest hc hd =>
    rw [codeDigits]
    split <;> simp_all [Surroundings.placeRead]

theorem codePoint_place (c : Cursor) : codePoint (x.place c) = x.placeRead (codePoint c) := by
  unfold codePoint
  rw [codeDigits_place]
  rcases codeDigits 0 0 c with ⟨_ | ⟨value, count⟩, d⟩
  · rfl
  · simp only [Surroundings.placeRead]
    rcases hd : d.rest with _ | ⟨ch, rest⟩
    · rcases x.behind_cases with hb | ⟨ch, rest, hb, -, -, -, -, -, hclose⟩ <;> simp_all
    · simp only [Surroundings.place_rest, hd, List.cons_append]
      by_cases hclose : ch = '\x7d'
      · subst hclose
        simp only [← Surroundings.place_moveTo]
        split <;> rfl
      · simp_all

theorem unit_place (c : Cursor) : unit (x.place c) = x.placeRead (unit c) := by
  unfold unit
  rw [hexDigits_place]
  rcases hexDigits 4 0 c with ⟨_ | code, d⟩
  · rfl
  · simp only [Surroundings.placeRead]
    cases hhigh : isHighSurrogate code with
    | false => rfl
    | true =>
      -- The second half of a pair begins with a backslash and a `u`; none of the two stands behind the word.
      rcases hd : d.rest with _ | ⟨slash, _ | ⟨u, rest⟩⟩
      · rcases x.behind_cases with hb | ⟨ch, rest, hb, -, -, hslash, -⟩ <;> simp_all
      · rcases x.behind_cases with hb | ⟨ch, rest, hb, -, -, -, hu, -⟩ <;> simp_all
      · simp only [Surroundings.place_rest, hd, List.cons_append]
        by_cases hpair : slash = '\\' ∧ u = 'u'
        · obtain ⟨rfl, rfl⟩ := hpair
          simp only [← Surroundings.place_moveTo, hexDigits_place, Surroundings.placeRead]
          rcases hexDigits 4 0 (d.moveTo 2 rest) with ⟨_ | low, e⟩
          · rfl
          · simp only
            split <;> rfl
        · simp_all

end Escape

namespace Word

variable (x : Surroundings)

theorem escaped_place {accepts : Char → Bool} {c d : Cursor} {ch : Char} (h : escaped accepts c = .ok (ch, d)) :
    escaped accepts (x.place c) = .ok (ch, x.place d) := by
  unfold escaped at h ⊢
  split at h
  next rest hc =>
    simp only [Surroundings.place_rest, hc, List.cons_append, ← Surroundings.place_moveTo,
      Escape.codePoint_place, Surroundings.placeRead]
    split at h <;> simp_all
  next rest hbrace hc =>
    -- Behind the word stands no brace that would make this the other form of escape.
    have brace : ∀ tail, rest ++ x.behind ≠ '\x7b' :: tail := by
      intro tail hrest
      rcases rest with _ | ⟨first, rest⟩
      · rcases x.behind_cases with hb | ⟨ch, behind, hb, -, -, -, -, hopen, -⟩ <;> simp_all
      · exact hbrace rest (by simp_all)
    have unit := Escape.unit_place x (c.moveTo 1 rest)
    rw [Surroundings.place_moveTo] at unit
    rcases hunit : Escape.unit (c.moveTo 1 rest) with ⟨_ | _, e⟩
    · simp [hunit] at h
    · rw [hunit] at unit h
      split <;> simp_all [Surroundings.placeRead]
      split at h <;> cases h
      simp_all
  · cases h

theorem readFrom_escape {read rest : List Char} {c d : Cursor} {ch : Char} (hc : c.rest = '\\' :: rest)
    (he : escaped isIdentifierPart (c.moveTo 1 rest) = .ok (ch, d)) : readFrom read c = readFrom (ch :: read) d := by
  rw [readFrom]
  split
  · simp_all
  next rest' hc' =>
    obtain rfl : rest = rest' := by simp_all
    split <;> simp_all
  next hslash hc' => exact absurd (by simp_all) hslash

theorem readFrom_place {read cs : List Char} {c d : Cursor} (h : readFrom read c = .ok (cs, d)) :
    readFrom read (x.place c) = .ok (cs, x.place d) := by
  fun_induction readFrom read c with
  | case1 read c hc =>
    cases h
    unfold readFrom
    rcases x.behind_cases with hb | ⟨ch, rest, hb, -, hpart, hslash, -⟩ <;> split <;> simp_all
  | case2 read c rest hc ch e he ih =>
    rw [readFrom_escape (by simp [hc]) (x.place_moveTo c 1 rest ▸ escaped_place x he)]
    exact ih h
  | case3 read c rest hc fault he => cases h
  | case4 read c ch rest hslash hc hpart ih =>
    unfold readFrom
    split <;> simp_all [Surroundings.place_pass]
  | case5 read c ch rest hslash hc hpart =>
    cases h
    unfold readFrom
    split <;> simp_all

theorem read_place {cs : List Char} {c d : Cursor} (h : read c = .ok (cs, d)) :
    read (x.place c) = .ok (cs, x.place d) := by
  unfold read at h ⊢
  split at h
  · cases h
  next rest hc =>
    split at h
    next ch e he =>
      have escape := escaped_place x he
      rw [Surroundings.place_moveTo] at escape
      simp only [Surroundings.place_rest, hc, List.cons_append, escape]
      exact readFrom_place x h
    · cases h
  next ch rest hslash hc =>
    have first := readFrom_place x h
    rw [Surroundings.place_pass] at first
    simpa only [Surroundings.place_rest, hc, List.cons_append] using first

end Word

end EcmaTree
