import EcmaTree.Proofs.Lexer.Escapes

/-!
# Where readers stop

A cursor counts lines as it goes, and never more of them than it has passed: only a reader that looks for line
terminators starts a line behind them. So wherever a reader stops, at the end of what it has read or at a fault, the
line of its cursor is a line of the source, and on the first line columns are offsets. The cursor stands behind the
start of its line too, but for one fault: a string that goes over the end of a line and is not closed is a fault at
its opening quote, on the line that it has reached.
-/

namespace EcmaTree

/-- Some line breaks stand in what is left, all of them in what it was left from. -/
theorem lineBreaks_le_cons (ch : Char) (cs : List Char) : lineBreaks cs ≤ lineBreaks (ch :: cs) := by
  by_cases h : SplitsBreak [ch] cs
  · obtain ⟨rest, rfl⟩ := List.head?_eq_some_iff.1 h.2
    obtain rfl : ch = '\r' := by simpa using h.1
    rw [lineBreaks, lineBreaks_cons (by simp [SplitsBreak])]
    exact Nat.le_refl _
  · rw [lineBreaks_cons h]
    exact Nat.le_add_right _ _

theorem lineBreaks_le_append (cs ds : List Char) : lineBreaks ds ≤ lineBreaks (cs ++ ds) := by
  induction cs with
  | nil => exact Nat.le_refl _
  | cons ch cs ih => exact Nat.le_trans ih (lineBreaks_le_cons ch _)

theorem lineBreaks_eq_zero_iff {cs : List Char} : lineBreaks cs = 0 ↔ ∀ ch ∈ cs, isLineTerminator ch = false := by
  refine ⟨fun h => ?_, lineBreaks_eq_zero⟩
  fun_induction lineBreaks cs with
  | case1 => simp
  | case2 => cases h
  | case3 ch cs _ ih =>
    have plain : isLineTerminator ch = false := by
      by_contra hch
      simp [hch] at h
    refine List.forall_mem_cons.2 ⟨plain, ih ?_⟩
    omega

/-- Every line break takes a byte. -/
theorem lineBreaks_le_bytes (cs : List Char) : lineBreaks cs ≤ bytes cs := by
  fun_induction lineBreaks cs with
  | case1 => exact Nat.le_refl _
  | case2 cs ih =>
    simp only [bytes_cons]
    have : ('\r' : Char).utf8Size = 1 := rfl
    omega
  | case3 ch cs _ ih =>
    have := ch.utf8Size_pos
    rw [bytes_cons]
    split <;> omega

/-- The text begins with a string that goes over the end of a line and is not closed. -/
def Quoted.BreaksOff (cs : List Char) : Prop :=
  ∃ quote rest stop, cs = quote :: rest ∧ (quote = '\'' ∨ quote = '"') ∧
    readFrom quote [] false ⟨0, 0, 0, rest⟩ = .ok (.inr stop) ∧ 0 < stop.lineStart

namespace Cursor

/-- The cursor stands behind the start of its line, so that its column is a number of bytes. -/
def InLine (c : Cursor) : Prop := c.lineStart ≤ c.offset

/-- The cursor stands before a string that breaks off, and its line starts within that string, behind the quote and a
line terminator. -/
structure Strays (c : Cursor) : Prop where
  breaksOff : Quoted.BreaksOff c.rest
  lt : c.offset + 1 < c.lineStart
  le : c.lineStart ≤ c.offset + bytes c.rest

/-- The line is so many lines further down. -/
def LinesDown (lines : Nat) (c d : Cursor) : Prop := c.line < 2 ^ 32 → d.line = inWord (c.line + lines)

/-- Reading goes on and counts no line that it has not passed. As long as it passes none, it keeps to its line. -/
structure Counts (c d : Cursor) : Prop where
  reaches : c.Reaches d
  lines : ∃ lines, c.LinesDown lines d ∧ lines + lineBreaks d.rest ≤ lineBreaks c.rest
  plain : ∀ cs, c.Across cs d → (∀ ch ∈ cs, isLineTerminator ch = false) → d.line = c.line ∧ d.lineStart = c.lineStart
  starts : d.lineStart = c.lineStart ∨ c.offset < d.lineStart
  inLine : c.InLine → d.InLine

/-- Reading that began at the first cursor is given up at the second one. -/
structure Nears (c d : Cursor) : Prop where
  reaches : c.Reaches d
  lines : ∃ lines ≤ lineBreaks c.rest, c.LinesDown lines d
  plain : lineBreaks c.rest = 0 → d.line = c.line ∧ d.lineStart = c.lineStart
  inLine : c.InLine → d.InLine ∨ d.Strays

variable {c d e : Cursor} {cs rest : List Char} {ch : Char} {n : Nat}

namespace LinesDown

variable {k : Nat}

theorem zero (h : d.line = c.line) : c.LinesDown 0 d := fun fits => h.trans (inWord_eq fits).symm

theorem trans (h : c.LinesDown n d) (h' : d.LinesDown k e) : c.LinesDown (n + k) e := fun fits => by
  have line := h fits
  rw [h' (line ▸ inWord_lt _), line, inWord_inWord_add, Nat.add_assoc]

end LinesDown

theorem Reaches.lineBreaks_le (h : c.Reaches d) : lineBreaks d.rest ≤ lineBreaks c.rest := by
  obtain ⟨cs, across⟩ := h
  exact across.rest ▸ lineBreaks_le_append cs d.rest

namespace Counts

theorem refl (c : Cursor) : c.Counts c :=
  ⟨.refl c, ⟨0, .zero rfl, Nat.le_of_eq (Nat.zero_add _)⟩, fun _ _ _ => ⟨rfl, rfl⟩, .inl rfl, id⟩

theorem trans (h : c.Counts d) (h' : d.Counts e) : c.Counts e where
  reaches := h.reaches.trans h'.reaches
  lines := by
    obtain ⟨n, down, hn⟩ := h.lines
    obtain ⟨k, down', hk⟩ := h'.lines
    exact ⟨n + k, down.trans down', by omega⟩
  plain cs across hcs := by
    obtain ⟨ds, hds⟩ := h.reaches
    obtain ⟨es, hes⟩ := h'.reaches
    obtain rfl : cs = ds ++ es := List.append_cancel_right (across.rest.symm.trans (hds.trans hes).rest)
    obtain ⟨line, lineStart⟩ := h.plain ds hds fun ch hch => hcs ch (List.mem_append_left _ hch)
    obtain ⟨line', lineStart'⟩ := h'.plain es hes fun ch hch => hcs ch (List.mem_append_right _ hch)
    exact ⟨line'.trans line, lineStart'.trans lineStart⟩
  starts := by
    have := h.reaches.offset_le
    have := h.starts
    have := h'.starts
    omega
  inLine hc := h'.inLine (h.inLine hc)

/-- Characters are passed, whatever they are, and no line is counted. -/
theorem moveTo (cs : List Char) (h : c.rest = cs ++ rest) (hn : bytes cs = n) : c.Counts (c.moveTo n rest) where
  reaches := .moveTo h hn
  lines := ⟨0, .zero rfl, (Nat.zero_add _).trans_le (h ▸ lineBreaks_le_append cs rest)⟩
  plain _ _ _ := ⟨rfl, rfl⟩
  starts := .inl rfl
  inLine hc := Nat.le_trans hc (Nat.le_add_right _ _)

theorem pass (h : c.rest = ch :: rest) : c.Counts (c.pass ch rest) := moveTo [ch] h rfl

theorem skipWhile (p : Char → Bool) (c : Cursor) : c.Counts (c.skipWhile p) :=
  moveTo (c.rest.takeWhile p) List.takeWhile_append_dropWhile.symm (by rw [foldl_utf8Size, Nat.zero_add])

theorem passLine (h : c.rest = ch :: rest) (hch : isLineTerminator ch = true) : c.Counts (c.passLine ch rest) where
  reaches := .passLine h
  lines := by
    refine ⟨1, fun _ => ?_, ?_⟩
    · unfold Cursor.passLine startLine
      split <;> rfl
    · by_cases hcr : ch = '\r' ∧ rest.head? = some '\n'
      · obtain ⟨rfl, hhead⟩ := hcr
        obtain ⟨rest, rfl⟩ := List.head?_eq_some_iff.1 hhead
        rw [h, lineBreaks]
        exact Nat.le_of_eq (Nat.add_comm _ _)
      · rw [passLine_eq hcr, h, lineBreaks_cons fun hsplits => hcr ⟨by simpa using hsplits.1, hsplits.2⟩, hch]
        exact Nat.le_of_eq (Nat.add_comm _ _)
  plain cs across hcs := by
    have passed : 0 < ch.utf8Size := ch.utf8Size_pos
    have behind : c.offset + ch.utf8Size ≤ (c.passLine ch rest).offset := by
      unfold Cursor.passLine startLine
      split
      · exact Nat.le_succ _
      · exact Nat.le_refl _
    have offset := across.offset
    cases cs with
    | nil =>
      rw [bytes_nil] at offset
      omega
    | cons x cs =>
      obtain rfl : ch = x := by simpa using congrArg List.head? (h.symm.trans across.rest)
      rw [hcs ch (List.mem_cons_self ..)] at hch
      cases hch
  starts := by
    have passed : 0 < ch.utf8Size := ch.utf8Size_pos
    refine .inr ?_
    unfold Cursor.passLine startLine
    split
    · exact Nat.lt_succ_of_le (Nat.le_add_right ..)
    · exact Nat.lt_add_of_pos_right passed
  inLine _ := by
    unfold Cursor.passLine startLine
    split <;> exact Nat.le_refl _

theorem nears (h : c.Counts d) : c.Nears d where
  reaches := h.reaches
  lines := h.lines.imp fun lines ⟨down, passed⟩ => ⟨Nat.le_trans (Nat.le_add_right ..) passed, down⟩
  plain hnone := by
    obtain ⟨cs, across⟩ := h.reaches
    refine h.plain cs across fun ch hch => lineBreaks_eq_zero_iff.1 hnone ch ?_
    exact across.rest ▸ List.mem_append_left _ hch
  inLine hc := .inl (h.inLine hc)

theorem trans_nears (h : c.Counts d) (h' : d.Nears e) : c.Nears e where
  reaches := h.reaches.trans h'.reaches
  lines := by
    obtain ⟨n, down, hn⟩ := h.lines
    obtain ⟨k, hk, down'⟩ := h'.lines
    exact ⟨n + k, by omega, down.trans down'⟩
  plain hnone := by
    obtain ⟨line, lineStart⟩ := h.nears.plain hnone
    obtain ⟨line', lineStart'⟩ := h'.plain (Nat.le_zero.1 (hnone ▸ h.reaches.lineBreaks_le))
    exact ⟨line'.trans line, lineStart'.trans lineStart⟩
  inLine hc := h'.inLine (h.inLine hc)

end Counts

theorem Nears.refl (c : Cursor) : c.Nears c := (Counts.refl c).nears

theorem SameLine.counts (h : c.SameLine d) : c.Counts d := by
  obtain ⟨cs, across, hcs, hline, hstart⟩ := h
  refine ⟨⟨cs, across⟩, ⟨0, .zero hline, ?_⟩, fun _ _ _ => ⟨hline, hstart⟩, .inl hstart, fun hc => ?_⟩
  · exact (Nat.zero_add _).trans_le (Reaches.lineBreaks_le ⟨cs, across⟩)
  · rw [InLine, hstart, across.offset]
    exact Nat.le_trans hc (Nat.le_add_right _ _)

theorem SameLine.nears (h : c.SameLine d) : c.Nears d := h.counts.nears

theorem Passes.counts (h : c.Passes d) : c.Counts d := by
  induction h with
  | sameLine h => exact h.counts
  | passLine hc hch => exact .passLine hc hch
  | trans _ _ ih ih' => exact ih.trans ih'

end Cursor

open Cursor (Counts Nears SameLine)

/-! ## Faults -/

variable {c d : Cursor} {fault : Fault}

namespace Word

theorem escaped_fault {accepts : Char → Bool} (h : escaped accepts c = .error fault) : c.SameLine fault.cursor := by
  unfold escaped at h
  split at h
  next rest hc =>
    have code := Escape.codePoint_sameLine (c.moveTo 2 rest)
    split at h
    · cases h
    next he =>
      cases h
      rw [he] at code
      exact (SameLine.moveTo ['u', '\x7b'] hc rfl rfl).trans code
  next rest _ hc =>
    have code := Escape.unit_sameLine (c.moveTo 1 rest)
    have first : c.SameLine (c.moveTo 1 rest) := .moveTo ['u'] hc rfl rfl
    split at h
    next he =>
      rw [he] at code
      split at h <;> cases h
      exact first.trans code
    next he =>
      cases h
      rw [he] at code
      exact first.trans code
  · cases h
    exact .refl c

theorem readFrom_fault {read : List Char} (h : readFrom read c = .error fault) : c.SameLine fault.cursor := by
  fun_induction readFrom read c with
  | case1 => cases h
  | case2 read c rest hc ch e he ih =>
    exact (SameLine.moveTo ['\\'] hc rfl rfl).trans ((escaped_sameLine he).trans (ih h))
  | case3 read c rest hc fault he =>
    cases h
    exact (SameLine.moveTo ['\\'] hc rfl rfl).trans (escaped_fault he)
  | case4 read c ch rest _ hc hch ih => exact (SameLine.pass hc (isLineTerminator_of_isIdentifierPart hch)).trans (ih h)
  | case5 => cases h

theorem read_fault {ch : Char} {rest : List Char} (hc : c.rest = ch :: rest) (hch : isLineTerminator ch = false)
    (h : read c = .error fault) : c.SameLine fault.cursor := by
  unfold read at h
  split at h
  · cases h
    exact .refl c
  next rest hc =>
    have first : c.SameLine (c.moveTo 1 rest) := .moveTo ['\\'] hc rfl rfl
    split at h
    next he => exact first.trans ((escaped_sameLine he).trans (readFrom_fault h))
    next he =>
      cases h
      exact first.trans (escaped_fault he)
  next hc' =>
    obtain ⟨rfl, rfl⟩ := List.cons.inj (hc.symm.trans hc')
    exact (SameLine.pass hc hch).trans (readFrom_fault h)

end Word

namespace Numeral

theorem finish_fault {n : Numeral} (h : finish n c = .error fault) : fault.cursor = c := by
  unfold finish at h
  split at h
  · split at h <;> cases h
    rfl
  · cases h

theorem readRadix_fault {radix : Nat} {legacy : Bool} (h : readRadix radix legacy c = .error fault) :
    c.SameLine fault.cursor := by
  have digits : c.SameLine (c.skipWhile fun ch => (digitValue? radix ch).isSome) := .skipWhile (fun ch hch => by
    obtain ⟨value, hvalue⟩ := Option.isSome_iff_exists.1 hch
    exact isLineTerminator_of_digitValue? hvalue) c
  simp only [readRadix] at h
  split at h
  · cases h
    exact digits
  · rw [finish_fault h]
    exact digits

theorem readExponent_fault (h : readExponent c = .error fault) : c.SameLine fault.cursor := by
  unfold readExponent at h
  split at h
  · cases h
  next ch rest hc =>
    split at h
    next he =>
      simp only at h
      split at h <;> cases h
      exact passSign_sameLine hc (by simpa using he)
    · cases h

theorem readDecimal_fault (h : readDecimal c = .error fault) : c.SameLine fault.cursor := by
  have whole : c.SameLine (c.skipWhile isDecimalDigit) := .skipWhile (fun _ => isLineTerminator_of_isDecimalDigit) c
  have fraction := whole.trans (readFraction_sameLine _)
  unfold readDecimal at h
  simp only [bind, Except.bind] at h
  split at h
  next he =>
    cases h
    exact fraction.trans (readExponent_fault he)
  next he =>
    rw [finish_fault h]
    exact fraction.trans (readExponent_sameLine he)

theorem read_fault (h : read c = .error fault) : c.SameLine fault.cursor := by
  unfold read at h
  split at h
  next hc => exact (SameLine.moveTo ['0', 'x'] hc rfl rfl).trans (readRadix_fault h)
  next hc => exact (SameLine.moveTo ['0', 'X'] hc rfl rfl).trans (readRadix_fault h)
  next hc => exact (SameLine.moveTo ['0', 'b'] hc rfl rfl).trans (readRadix_fault h)
  next hc => exact (SameLine.moveTo ['0', 'B'] hc rfl rfl).trans (readRadix_fault h)
  next hc => exact (SameLine.moveTo ['0', 'o'] hc rfl rfl).trans (readRadix_fault h)
  next hc => exact (SameLine.moveTo ['0', 'O'] hc rfl rfl).trans (readRadix_fault h)
  next hc =>
    split at h
    · exact (SameLine.moveTo ['0'] hc rfl rfl).trans (readRadix_fault h)
    · exact readDecimal_fault h
  · exact readDecimal_fault h

end Numeral

namespace Quoted

theorem readEscape_fault (h : readEscape c = .error fault) : c.Counts fault.cursor := by
  unfold readEscape at h
  split at h
  · cases h
  next ch rest hc =>
    have unicode := (Counts.pass hc).trans (Escape.unicode_sameLine (c.pass ch rest)).counts
    have byte := (Counts.pass hc).trans (Escape.byte_sameLine (c.pass ch rest)).counts
    simp only at h
    repeat' split at h
    all_goals cases h
    next he =>
      rw [he] at unicode
      exact unicode
    next he =>
      rw [he] at byte
      exact byte

theorem readFrom_fault {quote : Char} {read : List Char} {legacy : Bool}
    (h : readFrom quote read legacy c = .error fault) :
    c.Counts fault.cursor := by
  fun_induction readFrom quote read legacy c with
  | case1 | case2 | case5 => cases h
  | case3 read legacy c ch rest hc _ _ text forbidden e he ih =>
    exact (Counts.pass hc).trans ((readEscape_passes he).counts.trans (ih h))
  | case4 read legacy c ch rest hc _ _ fault he =>
    cases h
    exact (Counts.pass hc).trans (readEscape_fault he)
  | case6 read legacy c ch rest hc _ _ _ ih => exact (Counts.pass hc).trans (ih h)

/-- Where a string turns out to be unclosed. -/
theorem readFrom_unclosed {quote : Char} {read : List Char} {legacy : Bool}
    (h : readFrom quote read legacy c = .ok (.inr d)) : c.Counts d := by
  fun_induction readFrom quote read legacy c with
  | case1 => cases h; exact .refl _
  | case2 | case4 => cases h
  | case3 read legacy c ch rest hc _ _ text forbidden e he ih =>
    exact (Counts.pass hc).trans ((readEscape_passes he).counts.trans (ih h))
  | case5 read legacy c ch rest hc =>
    cases h
    exact .pass hc
  | case6 read legacy c ch rest hc _ _ _ ih => exact (Counts.pass hc).trans (ih h)

/-- A string that is not closed breaks off, unless it ends on the line where it begins. -/
theorem breaksOff_of_unclosed {quote : Char} {rest : List Char} {stop : Cursor} (hc : c.rest = quote :: rest)
    (hquote : quote = '\'' ∨ quote = '"') (h : readFrom quote [] false (c.pass quote rest) = .ok (.inr stop)) :
    stop.lineStart = c.lineStart ∨ BreaksOff c.rest := by
  have alone : (c.pass quote rest).SameText c.lineStart ⟨0, 0, 0, rest⟩ := ⟨rfl, .inl rfl⟩
  obtain ⟨alone, halone, same⟩ := readFrom_sameText alone h [] false
  exact same.leaves.imp_right fun leaves => ⟨quote, rest, alone, hc, hquote, halone, leaves⟩

/-- An unclosed string is a fault at its quote, on the line that it has reached. -/
theorem read_fault {quote : Char} {rest : List Char} (hc : c.rest = quote :: rest) (hquote : quote = '\'' ∨ quote = '"')
    (h : read c = .error fault) : c.Nears fault.cursor := by
  unfold read at h
  split at h
  next hnil => simp [hc] at hnil
  next hcons =>
    obtain ⟨rfl, rfl⟩ := List.cons.inj (hc.symm.trans hcons)
    split at h
    · cases h
    next stop he =>
      cases h
      have reads := readFrom_unclosed he
      have whole := (Counts.pass hc).trans reads
      refine ⟨⟨[], rfl, rfl⟩, whole.nears.lines, whole.nears.plain, fun inLine => ?_⟩
      by_cases same : stop.lineStart = c.lineStart
      · exact .inl (Nat.le_trans (Nat.le_of_eq same) inLine)
      · refine .inr ⟨(breaksOff_of_unclosed hc hquote he).resolve_left same, ?_, ?_⟩
        · have size : quote.utf8Size = 1 := by rcases hquote with rfl | rfl <;> rfl
          have behind : c.offset + quote.utf8Size < stop.lineStart := reads.starts.resolve_left same
          rwa [size] at behind
        · exact Nat.le_trans (whole.inLine inLine) (whole.reaches.end_eq ▸ Nat.le_add_right ..)
    next he =>
      cases h
      exact ((Counts.pass hc).trans (readFrom_fault he)).nears

end Quoted

theorem Template.read_fault (h : read c = .error fault) : c.Counts fault.cursor := by
  unfold read at h
  split at h
  · cases h
    exact .refl c
  next ch rest hc =>
    have passes := readFrom_passes ⟨[], none⟩ (c.pass ch rest)
    simp only at h
    split at h
    next he =>
      cases h
      rw [he] at passes
      exact (Counts.pass hc).trans passes.counts
    · cases h

namespace Regex

theorem skipBody_fault {inClass : Bool} (h : skipBody inClass c = .error fault) : c.Counts fault.cursor := by
  fun_induction skipBody inClass c with
  | case1 => cases h; exact .refl _
  | case2 inClass c hc => cases h; exact .moveTo ['\\'] hc rfl
  | case3 inClass c ch rest hc next hch => cases h; exact (Counts.moveTo ['\\'] hc rfl).trans (.pass rfl)
  | case4 inClass c ch rest hc next hch ih => exact (Counts.moveTo ['\\'] hc rfl).trans ((Counts.pass rfl).trans (ih h))
  | case5 inClass c ch rest _ _ hc => cases h; exact .pass hc
  | case6 c ch rest _ _ hc _ ih | case8 inClass c ch rest _ _ hc _ _ _ ih => exact (Counts.pass hc).trans (ih h)
  | case7 => cases h

theorem readFlagsFrom_faults (read : List Char) (faults : List Fault) {e : Cursor}
    (he : ∀ fault ∈ faults, e.SameLine fault.cursor)
    (hc : e.SameLine c) : ∀ fault ∈ (readFlagsFrom read faults c).2.1, e.SameLine fault.cursor := by
  fun_induction readFlagsFrom read faults c with
  | case1 | case4 => simpa using he
  | case2 read faults c rest h escape ih =>
    have behind := hc.trans ((SameLine.moveTo ['\\'] h rfl rfl).trans (skipFlagEscape_sameLine (c.moveTo 1 rest)))
    exact ih (List.forall_mem_cons.2 ⟨behind, he⟩) behind
  | case3 read faults c ch rest _ h hch ih =>
    exact ih he (hc.trans (.pass h (isLineTerminator_of_isIdentifierPart hch)))

theorem read_fault {rest : List Char} (hc : c.rest = '/' :: rest) (h : read c = .error fault) :
    c.Counts fault.cursor := by
  simp only [read, hc, List.drop_one, List.tail_cons] at h
  split at h
  next he =>
    cases h
    exact (Counts.moveTo ['/'] hc rfl).trans (skipBody_fault he)
  · cases h

/-- Faults among the flags stand where the flags do. -/
theorem read_faults {rest : List Char} {r : Reading} (hc : c.rest = '/' :: rest) (h : read c = .ok r) :
    ∀ fault ∈ r.faults, c.SameLine fault.cursor := by
  simp only [read, hc, List.drop_one, List.tail_cons] at h
  split at h
  · cases h
  next last hlast =>
    cases h
    obtain ⟨-, flags, hflags⟩ := skipBody_reaches hlast
    have closing : last.SameLine (last.moveTo 1 (last.rest.drop 1)) := .moveTo ['/'] (by rw [hflags]; rfl) rfl rfl
    have body := (SameLine.moveTo ['/'] hc rfl rfl).trans ((skipBody_sameLine hlast).trans closing)
    simpa [hflags] using readFlagsFrom_faults [] [] (List.forall_mem_nil _) body

end Regex

theorem Jsx.readString_counts {quote : Char} {rest : List Char} (hc : c.rest = rest) :
    c.Counts (c.moveTo (readString quote rest).2.1 (readString quote rest).2.2) := by
  obtain ⟨cs, hcs, hn⟩ := readString_reaches quote rest
  exact .moveTo cs (hc.trans hcs) hn

end EcmaTree
