import EcmaTree.Proofs.Lexer.Faults

/-!
# Errors of scans

Whatever a scan stops at, and whatever it records in tolerant mode, is a fault at which reading is given up. So what
holds of all these faults holds of the errors. Its token begins where the scan began and ends, as its line says, where
the scanner stands. In particular a scan that begins in the source has errors in the source only.
-/

namespace EcmaTree

open Cursor (Counts Nears)

/-- The number is that of a line of the source. -/
def LineOf (source : String) (line : Nat) : Prop :=
  ∃ k ≤ lineBreaks source.toList, line = inWord ((Cursor.ofString source).line + k)

/-- The place lies in the source, on one of its lines. In a source of one line columns are offsets, in a word, and in no
source does one go beyond them. -/
structure Place.InSource (source : String) (p : Place) : Prop where
  offset_le : p.offset ≤ source.utf8ByteSize
  line : LineOf source p.line
  column_eq : lineBreaks source.toList = 0 → p.column = inWord p.offset
  column_le : p.column ≤ p.offset

/-- At the offset stands a string that goes over the end of a line and is not closed. -/
def BreaksOffAt (source : String) (offset : Nat) : Prop :=
  ∃ c, (Cursor.ofString source).Reaches c ∧ c.offset = offset ∧ Quoted.BreaksOff c.rest

/-- The column of the error, counted from one, is a number of bytes before its index, or the error is that a string at
its index is not closed. -/
def SyntaxError.ColumnFits (source : String) (e : SyntaxError) : Prop :=
  e.column ≤ e.index + 1 ∨ BreaksOffAt source e.index

/-- The error lies in the source, on one of its lines. Columns are counted from one, and in a source of one line from
its start, as far as a word reaches. -/
structure SyntaxError.InSource (source : String) (e : SyntaxError) : Prop where
  index_le : e.index ≤ source.utf8ByteSize
  line : LineOf source e.line
  column_pos : source.utf8ByteSize < 2 ^ 32 → 1 ≤ e.column ∨ e.index + 1 = 2 ^ 32
  column_eq : source.utf8ByteSize < 2 ^ 32 → lineBreaks source.toList = 0 → e.column = inWord (e.index + 1)
  columnFits : e.ColumnFits source

variable {source : String} {c d : Cursor}

theorem Cursor.InLine.column_le (h : c.InLine) : c.column ≤ c.offset := by
  rw [column_eq_inWord h, inWord_eq_mod]
  exact Nat.le_trans (Nat.mod_le _ _) (Nat.sub_le _ _)

theorem Cursor.Nears.offset_le (h : (Cursor.ofString source).Nears c) : c.offset ≤ source.utf8ByteSize := by
  rw [← h.reaches.offset_add_bytes]
  exact Nat.le_add_right _ _

theorem Cursor.Nears.column_eq_offset (h : (Cursor.ofString source).Nears c) (hone : lineBreaks source.toList = 0) :
    c.column = inWord c.offset := by
  have first : c.lineStart = 0 := (h.plain hone).2
  rw [column_eq_inWord (first ▸ Nat.zero_le _), first, Nat.sub_zero]

theorem Cursor.ofString_line_lt : (Cursor.ofString source).line < 2 ^ 32 := by
  unfold ofString
  dsimp only
  split <;> decide

theorem Cursor.Nears.lineOf (h : (Cursor.ofString source).Nears c) : LineOf source c.line :=
  h.lines.imp fun _ ⟨passed, down⟩ => ⟨passed, down Cursor.ofString_line_lt⟩

theorem Cursor.Counts.inLine_ofString (h : (Cursor.ofString source).Counts c) : c.InLine := h.inLine (Nat.le_refl 0)

theorem Cursor.Counts.place (h : (Cursor.ofString source).Counts c) : c.place.InSource source where
  offset_le := h.nears.offset_le
  line := h.nears.lineOf
  column_eq := h.nears.column_eq_offset
  column_le := h.inLine_ofString.column_le

/-- An error at a place is said with the column counted from one. -/
theorem Place.InSource.error {p : Place} (h : p.InSource source) (cause : Cause) :
    SyntaxError.InSource source ⟨p.offset, p.line, inWord (p.column + 1), cause⟩ where
  index_le := h.offset_le
  line := h.line
  column_pos hfits := by
    have := h.offset_le
    have := h.column_le
    simp only [inWord_eq_mod, UInt32.size]
    omega
  column_eq _ hone := by rw [h.column_eq hone, inWord_inWord_add]
  columnFits := .inl (Nat.le_trans (inWord_le _) (Nat.succ_le_succ h.column_le))

/-- The column of a fault fits where the cursor stands behind the start of its line. -/
theorem Fault.error_columnFits {fault : Fault} (hreaches : (Cursor.ofString source).Reaches fault.cursor)
    (h : fault.cursor.InLine ∨ Quoted.BreaksOff fault.cursor.rest) : fault.error.ColumnFits source :=
  h.imp (fun h => Nat.le_trans (inWord_le _) (Nat.succ_le_succ h.column_le)) fun h => ⟨_, hreaches, rfl, h⟩

/-- The column of a cursor that has gone back before the start of its line wraps around, but not onto the last number.
-/
theorem Cursor.Strays.column_lt (h : c.Strays) (hfits : c.offset + bytes c.rest < 2 ^ 32) : c.column + 1 < 2 ^ 32 := by
  have := h.lt
  have := h.le
  simp only [column, UInt32.toNat_sub, Nat.toUInt32_eq, UInt32.toNat_ofNat']
  omega

theorem Fault.error_inSource {fault : Fault} (h : (Cursor.ofString source).Nears fault.cursor) :
    fault.error.InSource source where
  index_le := h.offset_le
  line := h.lineOf
  column_pos hfits := by
    have whole := h.reaches.offset_add_bytes
    rcases h.inLine (Nat.le_refl 0) with inLine | strays
    · have := inLine.column_le
      simp only [Fault.error, inWord_eq_mod, UInt32.size]
      omega
    · have := strays.column_lt (whole ▸ hfits)
      exact .inl (by rw [Fault.error, inWord_eq this]; exact Nat.le_add_left ..)
  column_eq _ hone := by rw [Fault.error, h.column_eq_offset hone, inWord_inWord_add]
  columnFits := error_columnFits h.reaches ((h.inLine (Nat.le_refl 0)).imp_right (·.breaksOff))

/-- All errors that have been recorded are such. -/
def Scanner.Records (Recorded : SyntaxError → Prop) (s : Scanner) : Prop := ∀ e ∈ s.errors, Recorded e

theorem Scanner.Records.concat {Recorded : SyntaxError → Prop} {s : Scanner} {e : SyntaxError} (h : s.Records Recorded)
    (he : Recorded e) : Scanner.Records Recorded { s with errors := s.errors ++ [e] } := fun x hx => by
  rcases List.mem_append.1 hx with hx | hx
  · exact h x hx
  · rw [List.mem_singleton.1 hx]
    exact he

/-- What holds of the faults at which reading that begins at the cursor is given up: of an error that is recorded, and
of one at which a scanner stops that has recorded such errors. -/
structure Cursor.Reports (c : Cursor) (Recorded : SyntaxError → Prop)
    (Stopped : SyntaxError → Scanner → Prop) : Prop where
  recorded {fault : Fault} : c.Nears fault.cursor → Recorded fault.error
  stopped {fault : Fault} {s : Scanner} : c.Nears fault.cursor → s.cursor = fault.cursor → s.Records Recorded →
    Stopped fault.error s

theorem Cursor.Counts.reports (h : (Cursor.ofString source).Counts c) :
    c.Reports (SyntaxError.InSource source) fun e _ => e.InSource source :=
  ⟨fun near => Fault.error_inSource (h.trans_nears near), fun near _ _ => Fault.error_inSource (h.trans_nears near)⟩

namespace Scan

variable {α β : Type} {Recorded : SyntaxError → Prop} {Stopped : SyntaxError → Scanner → Prop} {s : Scanner}
  {Q : α → Scanner → Prop}

/-- Whatever the scan gives back satisfies `Q` together with the scanner behind it, and an error satisfies `Stopped`
together with the scanner that has stopped at it. -/
def Safe (Stopped : SyntaxError → Scanner → Prop) (p : Scan α) (s : Scanner) (Q : α → Scanner → Prop) : Prop :=
  match p s with
  | .ok a t => Q a t
  | .error e t => Stopped e t

namespace Safe

theorem of_ok {p : Scan α} {a : α} {t : Scanner} (h : Safe Stopped p s Q) (run : p s = .ok a t) : Q a t := by
  rwa [Safe, run] at h

theorem of_error {p : Scan α} {e : SyntaxError} {t : Scanner} (h : Safe Stopped p s Q)
    (run : p s = .error e t) : Stopped e t := by
  rwa [Safe, run] at h

theorem bind {p : Scan α} {f : α → Scan β} {P : α → Scanner → Prop} {Q : β → Scanner → Prop} (hp : Safe Stopped p s P)
    (hf : ∀ a t, P a t → Safe Stopped (f a) t Q) : Safe Stopped (p >>= f) s Q := by
  simp only [Safe, Bind.bind, EStateM.bind] at hp ⊢
  cases h : p s with
  | ok a t =>
    rw [h] at hp
    exact hf a t hp
  | error e t =>
    rw [h] at hp
    exact hp

theorem mono {p : Scan α} {R : α → Scanner → Prop} (h : Safe Stopped p s Q) (hr : ∀ a t, Q a t → R a t) :
    Safe Stopped p s R := by
  simp only [Safe] at h ⊢
  split at h
  · exact hr _ _ h
  · exact h

theorem get {f : Scanner → Scan α} (h : Safe Stopped (f s) s Q) : Safe Stopped (get >>= f) s Q := h

theorem modify {f : Scanner → Scanner} {g : Unit → Scan α} (h : Safe Stopped (g ()) (f s) Q) :
    Safe Stopped (modify f >>= g) s Q := h

theorem moveTo {c : Cursor} {g : Unit → Scan α} (h : Safe Stopped (g ()) { s with cursor := c } Q) :
    Safe Stopped (moveTo c >>= g) s Q := h

theorem reading {r : Except Fault β} {f : β → Scan α} (ok : ∀ b, r = .ok b → Safe Stopped (f b) s Q)
    (error : ∀ fault, r = .error fault → Stopped fault.error { s with cursor := fault.cursor }) :
      Safe Stopped (ofReading r >>= f) s Q := by
  cases r with
  | ok b => exact ok b rfl
  | error fault => exact error fault rfl

/-- Behind a probe the cursor is where it was, so an error must be one from there too. -/
theorem lookAhead {p : Scan α} (h : Safe Stopped p s fun a t => Q a (t.rewind s.bookmark))
    (stopped : ∀ e t, Stopped e t → Stopped e (t.rewind s.bookmark)) : Safe Stopped (lookAhead p) s Q := by
  cases hp : p s with
  | ok a t =>
    simp only [Safe, Scan.lookAhead, hp]
    exact h.of_ok hp
  | error e t =>
    simp only [Safe, Scan.lookAhead, hp]
    exact stopped e t (h.of_error hp)

theorem pass {fault : Fault} (hc : c.Reports Recorded Stopped) (hs : s.Records Recorded) (h : c.Nears fault.cursor) :
    Safe Stopped (Scan.pass fault) s fun _ t => t.Records Recorded ∧ t.cursor = fault.cursor := by
  refine .moveTo (.get ?_)
  split
  · exact ⟨hs.concat (hc.recorded h), rfl⟩
  · exact hc.stopped h rfl hs

end Safe

/-- What is left behind by reading the token that begins at `c`. -/
structure Takes (Recorded : SyntaxError → Prop) (c : Cursor) (t : Token) (s : Scanner) : Prop where
  eq : ∃ l, t = tokenBetween c s.cursor l
  counts : c.Counts s.cursor
  records : s.Records Recorded

variable {ch : Char} {rest : List Char}

theorem word_safe (hc : c.Reports Recorded Stopped) (hs : s.Records Recorded) (hrest : c.rest = ch :: rest)
    (hch : isLineTerminator ch = false) : Safe Stopped (word c) s (Takes Recorded c) := by
  refine .reading (fun (characters, stop) h => ?_) fun fault h => hc.stopped (Word.read_fault hrest hch h).nears rfl hs
  have counts := (Word.read_sameLine hrest hch h).counts
  simp only
  split
  · exact .bind (.pass hc hs (.refl c)) fun _ t ht => .moveTo ⟨⟨_, rfl⟩, counts, ht.1⟩
  · exact .moveTo ⟨⟨_, rfl⟩, counts, hs⟩

theorem numeral_safe (hc : c.Reports Recorded Stopped) (hs : s.Records Recorded) :
    Safe Stopped (numeral c) s (Takes Recorded c) :=
  .reading (fun _ h => .moveTo ⟨⟨_, rfl⟩, (Numeral.read_sameLine h).counts, hs⟩) fun _ h =>
    hc.stopped (Numeral.read_fault h).nears rfl hs

theorem quoted_safe (hc : c.Reports Recorded Stopped) (hs : s.Records Recorded) (hrest : c.rest = ch :: rest)
    (hch : ch = '\'' ∨ ch = '"') : Safe Stopped (quoted c) s (Takes Recorded c) := by
  have single : isLineTerminator ch = false := by rcases hch with rfl | rfl <;> rfl
  exact .reading (fun _ h => .moveTo ⟨⟨_, rfl⟩, (Quoted.read_passes hrest single h).counts, hs⟩) fun _ h =>
    hc.stopped (Quoted.read_fault hrest hch h) rfl hs

theorem template_safe (hc : c.Reports Recorded Stopped) (hs : s.Records Recorded) (hrest : c.rest = ch :: rest)
    (hch : isLineTerminator ch = false) : Safe Stopped (template c) s (Takes Recorded c) :=
  .reading (fun _ h => .modify ⟨⟨_, rfl⟩, (Template.read_passes hrest hch h).counts, hs⟩) fun _ h =>
    hc.stopped (Template.read_fault h).nears rfl hs

theorem punctuator_safe (hc : c.Reports Recorded Stopped) (hs : s.Records Recorded) :
    Safe Stopped (punctuator c) s (Takes Recorded c) := by
  unfold punctuator
  split
  · exact hc.stopped (.refl c) rfl hs
  next p hp => exact .modify ⟨⟨_, rfl⟩, (Punctuator.read_sameLine hp).counts, hs⟩

theorem get_run {α : Type} (p : Scanner → Scan α) (s : Scanner) : (get >>= p) s = p s s := rfl

/-- The first character tells what is read. -/
theorem token_eq (hrest : s.cursor.rest = ch :: rest) : token s =
    (if isIdentifierStart ch || ch == '\\' then word s.cursor
    else if ch == '\'' || ch == '"' then quoted s.cursor
    else if isDecimalDigit ch || (ch == '.' && rest.head?.any isDecimalDigit) then numeral s.cursor
    else if ch == '\x60' || (ch == '\x7d' && s.regions.head? == some .substitution) then template s.cursor
    else punctuator s.cursor : Scan Token) s := by
  rw [token, get_run]
  simp only [hrest]

/-- Where a quote stands, a string literal is read. -/
theorem token_of_quote (hrest : s.cursor.rest = ch :: rest) (hch : ch = '\'' ∨ ch = '"') :
    token s = quoted s.cursor s := by
  rw [token_eq hrest]
  rcases hch with rfl | rfl <;> rfl

theorem token_safe (hc : s.cursor.Reports Recorded Stopped) (hs : s.Records Recorded) :
    Safe Stopped token s (Takes Recorded s.cursor) := by
  refine .get ?_
  simp only
  split
  · exact ⟨⟨_, rfl⟩, .refl _, hs⟩
  next ch rest hrest =>
    split
    next hword =>
      exact word_safe hc hs hrest (isLineTerminator_eq_false (p := fun ch => isIdentifierStart ch ||
        ch == '\\') (by decide +kernel) hword)
    split
    next hquoted => exact quoted_safe hc hs hrest (by simpa using hquoted)
    split
    · exact numeral_safe hc hs
    split
    next htemplate =>
      refine template_safe hc hs hrest ?_
      rcases (by grind : ch = '\x60' ∨ ch = '\x7d') with rfl | rfl <;> rfl
    · exact punctuator_safe hc hs

theorem regex_safe (hc : s.cursor.Reports Recorded Stopped) (hs : s.Records Recorded)
    (hrest : s.cursor.rest = '/' :: rest) :
    Safe Stopped regex s (Takes Recorded s.cursor) := by
  refine .get (.reading (fun read h => ?_) fun fault h => hc.stopped (Regex.read_fault hrest h).nears rfl hs)
  have faults : ∀ (faults : List Fault) (t : Scanner), (∀ fault ∈ faults, s.cursor.Nears fault.cursor) →
      t.Records Recorded → Safe Stopped (faults.forM Scan.pass) t fun _ u => u.Records Recorded := by
    intro faults
    induction faults with
    | nil => exact fun t _ ht => ht
    | cons fault faults ih =>
      intro t hfaults ht
      obtain ⟨hfault, hfaults⟩ := List.forall_mem_cons.1 hfaults
      exact .bind (.pass hc ht hfault) fun _ u hu => ih u hfaults hu.1
  refine .bind (faults read.faults s (fun fault hfault => (Regex.read_faults hrest h fault hfault).nears) hs)
    fun _ t ht => .moveTo ⟨⟨_, rfl⟩, (Regex.read_sameLine hrest h).counts, ht⟩

theorem jsxTokenTo_safe (hs : s.Records Recorded) (h : s.cursor.Counts d) (l : Lexeme) :
    Safe Stopped (jsxTokenTo d l) s (Takes Recorded s.cursor) :=
  .get (.moveTo ⟨⟨_, rfl⟩, h, hs⟩)

theorem jsxToken_safe (hc : s.cursor.Reports Recorded Stopped) (hs : s.Records Recorded) :
    Safe Stopped jsxToken s (Takes Recorded s.cursor) := by
  refine .get ?_
  simp only
  split
  · exact token_safe hc hs
  next ch rest hrest =>
    split
    · exact jsxTokenTo_safe hs (.pass hrest) _
    split
    · exact jsxTokenTo_safe hs ((Counts.pass hrest).trans (Jsx.readString_counts rfl)) _
    split
    next hdot =>
      obtain rfl := eq_of_beq hdot
      split
      · exact jsxTokenTo_safe hs (.moveTo ['.', '.', '.'] hrest rfl) _
      · exact jsxTokenTo_safe hs (.pass hrest) _
    split
    · exact jsxTokenTo_safe hs (.refl _) _
    split
    · exact jsxTokenTo_safe hs ((Counts.pass hrest).trans (.skipWhile _ _)) _
    · exact token_safe hc hs

theorem jsxText_safe (hs : s.Records Recorded) : Safe Stopped jsxText s (Takes Recorded s.cursor) :=
  .get (.get (.moveTo ⟨⟨_, rfl⟩, (Jsx.skipText_passes _).counts, hs⟩))

theorem skipTrivia_safe (hc : s.cursor.Reports Recorded Stopped) (hs : s.Records Recorded) :
    Safe Stopped skipTrivia s fun _ t => t.Records Recorded ∧
      t.cursor = (Trivia.skip s.keepsComments (s.goal == .script) s.cursor).cursor := by
  have counts := (Trivia.skip_passes s.keepsComments (s.goal == .script) s.cursor).counts
  refine .get (.moveTo ?_)
  split
  · exact .bind (.pass hc hs counts.nears) fun _ t ht => ht
  · exact ⟨hs, rfl⟩

end Scan

end EcmaTree
