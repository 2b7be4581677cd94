import EcmaTree.Proofs.Ends
import EcmaTree.Proofs.Tolerance

/-!
# Tolerant tokenizing and strict tokenizing

Both modes read the same items as long as nothing is told. One slash tells them apart: an escape among the flags of a
regular expression is a fault that tolerant mode passes over, while strict mode takes the whole attempt back and reads
the slash again as a punctuator. Such a literal shows in the items, because its flags are not written as they read.
-/

namespace EcmaTree

open Cursor (Reaches Across)

/-- The literal as it is written without an escape. -/
def RegexLiteral.spelling (literal : RegexLiteral) : String := "/" ++ literal.pattern ++ "/" ++ literal.flags

/-- If the token is a regular expression, then no escape stands among its flags. -/
def Token.WrittenOut (t : Token) : Prop := ∀ literal, t.regex? = some literal → t.raw = literal.spelling

/-- If the item is a regular expression, then no escape stands among its flags. -/
def TokenItem.WrittenOut (item : TokenItem) : Prop := ∀ t, item.token? = some t → t.WrittenOut

/-! ## Flags -/

namespace Regex

variable {c : Cursor}

/-- An escape gives no more flags than there are characters in it behind the backslash. -/
theorem skipFlagEscape_across (c : Cursor) :
    ∃ cs, c.Across cs (skipFlagEscape c).2 ∧ (skipFlagEscape c).1.length ≤ cs.length := by
  unfold skipFlagEscape
  split
  next rest hc =>
    have opened : c.Across ['u'] (c.moveTo 1 rest) := ⟨hc, rfl⟩
    have unit := Escape.unit_reaches (c.moveTo 1 rest)
    split
    next he =>
      rw [he] at unit
      obtain ⟨cs, hcs⟩ := unit
      exact ⟨_, opened.trans hcs, by simp⟩
    · exact ⟨_, opened, by simp⟩
  · exact ⟨[], ⟨rfl, rfl⟩, Nat.le_refl _⟩

/-- Each fault takes a character that is no flag, and without faults the flags are what is written. -/
theorem readFlagsFrom_across (read : List Char) (faults : List Fault) (c : Cursor) :
    ∃ flags more cs, (readFlagsFrom read faults c).1 = String.ofList (read.reverse ++ flags) ∧
      (readFlagsFrom read faults c).2.1 = faults.reverse ++ more ∧ c.Across cs (readFlagsFrom read faults c).2.2 ∧
      flags.length + more.length ≤ cs.length ∧ (more = [] → flags = cs) := by
  fun_induction readFlagsFrom read faults c with
  | case1 | case4 => exact ⟨[], [], [], by simp, by simp, ⟨rfl, rfl⟩, by simp, fun _ => rfl⟩
  | case2 read faults c rest hc escape ih =>
    obtain ⟨flags, more, cs, hflags, hmore, across, hlength, -⟩ := ih
    obtain ⟨ds, passed, hshort⟩ := skipFlagEscape_across (c.moveTo 1 rest)
    have backslash : c.Across ['\\'] (c.moveTo 1 rest) := ⟨hc, rfl⟩
    refine ⟨escape.1.reverse ++ flags, .illegal escape.2 :: more, _, by simp [hflags], by simp [hmore],
      backslash.trans (passed.trans across), ?_, by simp⟩
    have hescape : escape.1.length ≤ ds.length := hshort
    simp only [List.length_append, List.length_reverse, List.length_cons, List.length_nil]
    omega
  | case3 read faults c ch rest _ hc _ ih =>
    obtain ⟨flags, more, cs, hflags, hmore, across, hlength, hsame⟩ := ih
    have first : c.Across [ch] (c.pass ch rest) := ⟨hc, rfl⟩
    refine ⟨ch :: flags, more, ch :: cs, by simp [hflags], hmore, first.trans across, ?_, fun h => by rw [hsame h]⟩
    simp only [List.length_cons]
    omega

/-- The flags are written as they are just when no fault was met among them. -/
theorem read_faults_eq_nil_iff {rest : List Char} {r : Reading} (hc : c.rest = '/' :: rest) (h : read c = .ok r) :
    r.faults = [] ↔ c.textUntil r.cursor.offset = r.literal.spelling := by
  simp only [read, hc, List.drop_one, List.tail_cons] at h
  split at h
  · cases h
  next last hlast =>
    cases h
    obtain ⟨⟨body, hbody⟩, behind, hbehind⟩ := skipBody_reaches hlast
    rw [hbehind, List.tail_cons]
    obtain ⟨flags, more, cs, hflags, hmore, across, hlength, hsame⟩ := readFlagsFrom_across [] [] (last.moveTo 1 behind)
    have opened : c.Across ['/'] (c.moveTo 1 rest) := ⟨hc, rfl⟩
    have closed : last.Across ['/'] (last.moveTo 1 behind) := ⟨hbehind, rfl⟩
    have text := (opened.trans (hbody.trans (closed.trans across))).textUntil
    have spelled : RegexLiteral.spelling ⟨(c.moveTo 1 rest).textUntil last.offset,
        (readFlagsFrom [] [] (last.moveTo 1 behind)).1⟩ = String.ofList (['/'] ++ (body ++ (['/'] ++ flags))) := by
      rw [RegexLiteral.spelling, hbody.textUntil, hflags]
      simp only [List.reverse_nil, List.nil_append, String.ofList_append, String.append_assoc]
    have same : String.ofList (['/'] ++ (body ++ (['/'] ++ cs))) = String.ofList (['/'] ++ (body ++ (['/'] ++ flags))) ↔
        cs = flags := by simp [String.ofList_inj]
    simp only [text, spelled, same, hmore, List.reverse_nil, List.nil_append]
    refine ⟨fun h => (hsame h).symm, fun h => List.eq_nil_of_length_eq_zero ?_⟩
    rw [h] at hlength
    omega

end Regex

/-! ## Scans -/

/-- The scanner in strict mode. -/
def Scanner.strict (s : Scanner) : Scanner := { s with tolerant := false }

/-- The tokenizer in strict mode. -/
def Tokenizer.strict (t : Tokenizer) : Tokenizer := { t with scanner := t.scanner.strict }

/-- Tolerant mode has had nothing to tell so far. -/
structure Scanner.Quiet (s : Scanner) : Prop where
  tolerant : s.tolerant = true
  errors : s.errors = []

/-- Tolerant mode has recorded an error. -/
structure Scanner.Told (s : Scanner) : Prop where
  tolerant : s.tolerant = true
  errors : s.errors ≠ []

/-- What a run in tolerant mode, from a state in which nothing had been told, has in common with the same run in strict
mode. `scanner` finds the scanner in a state, and `strict` changes the mode of a state. -/
inductive Alike {σ α : Type} (scanner : σ → Scanner) (strict : σ → σ) (Plain : α → σ → Prop) :
    EStateM.Result SyntaxError σ α → EStateM.Result SyntaxError σ α → Prop
  /-- They go the same way. -/
  | same {a : α} {s : σ} : (scanner s).Quiet → Plain a s → Alike scanner strict Plain (.ok a s) (.ok a (strict s))
  /-- An error was recorded at which the strict run stopped. -/
  | told {a : α} {s u : σ} {e : SyntaxError} : (scanner s).Told → Alike scanner strict Plain (.ok a s) (.error e u)
  /-- An error was recorded, and what was read shows why. -/
  | shown {a : α} {s : σ} {y : EStateM.Result SyntaxError σ α} : (scanner s).Told → ¬ Plain a s →
      Alike scanner strict Plain (.ok a s) y
  | stopped {s u : σ} {e f : SyntaxError} : Alike scanner strict Plain (.error e s) (.error f u)

namespace Keeps

variable {α : Type} {s t : ParseState} {Q : α → ParseState → Prop} {y : EStateM.Result Failure ParseState α}

theorem of_ok {a : α} (h : Keeps Q s (.ok a t) y) : t.Lenient ∧
    (y = .ok a t.strict ∧ t.scanner.errors = s.scanner.errors ∨
      (∃ e u, y = .error e u) ∧ s.scanner.errors.length < t.scanner.errors.length) := by
  cases h with
  | same ht he _ => exact ⟨ht, .inl ⟨rfl, he⟩⟩
  | told ht he _ => exact ⟨ht, .inr ⟨⟨_, _, rfl⟩, he⟩⟩

theorem of_error {e : Failure} (h : Keeps Q s (.error e t) y) : ∃ f u, y = .error f u := by
  cases h
  exact ⟨_, _, rfl⟩

end Keeps

theorem Scanner.Told.scans {u : ParseState} {s' : Scanner} {c : Cursor} (h : u.scanner.Told)
    (hscans : u.Scans { u with scanner := s' } c) : s'.Told := by
  obtain ⟨regions, errors, hs', more⟩ := hscans
  obtain rfl : s' = { u.scanner with cursor := c, regions, errors } := congrArg ParseState.scanner hs'
  exact ⟨h.tolerant, fun hnil => h.errors (List.prefix_nil.1 (hnil ▸ more))⟩

namespace Scan

variable {α : Type} {p : Scan α} {s s' : Scanner} {t : Token}

theorem scan_of_ok {u : ParseState} {a : α} (h : p u.scanner = .ok a s') :
    Parse.scan p u = .ok a { u with scanner := s' } := by
  rw [Parse.scan, h]

theorem scan_of_error {u : ParseState} {e : SyntaxError} (h : p u.scanner = .error e s') :
    Parse.scan p u = .error (.syntaxError e) { u with scanner := s' } := by
  rw [Parse.scan, h]

/-- A scan that keeps to the strict one as a step of a parse does so alone. -/
theorem alike_of_twins {Q : ParseState → α → ParseState → Prop} {Plain : α → Scanner → Prop}
    (hp : ∀ u : ParseState, Judgement.twins.Ensures (Parse.scan p) u (Q u)) (hs : s.Quiet)
    (hplain : ∀ a s', p s = .ok a s' → Plain a s') : Alike id Scanner.strict Plain (p s) (p s.strict) := by
  let u : ParseState := { ParseState.initial "" { tolerant := true } with scanner := s }
  have keeps := hp u ⟨rfl, hs.tolerant⟩
  cases hx : p s with
  | ok a s' =>
    rw [scan_of_ok hx] at keeps
    obtain ⟨lenient, ⟨hy, he⟩ | ⟨⟨_, _, hy⟩, he⟩⟩ := keeps.of_ok
    · cases hx' : p s.strict with
      | ok b v =>
        rw [scan_of_ok hx'] at hy
        obtain ⟨rfl, hv⟩ := EStateM.Result.ok.inj hy
        obtain rfl : v = s'.strict := congrArg ParseState.scanner hv
        exact .same ⟨lenient.2, he.trans hs.errors⟩ (hplain _ _ hx)
      | error =>
        rw [scan_of_error hx'] at hy
        cases hy
    · cases hx' : p s.strict with
      | ok =>
        rw [scan_of_ok hx'] at hy
        cases hy
      | error => exact .told ⟨lenient.2, List.ne_nil_of_length_pos (Nat.lt_of_le_of_lt (Nat.zero_le _) he)⟩
  | error e s' =>
    rw [scan_of_error hx] at keeps
    obtain ⟨_, _, hy⟩ := keeps.of_error
    cases hx' : p s.strict with
    | ok =>
      rw [scan_of_ok hx'] at hy
      cases hy
    | error => exact .stopped

theorem skipTrivia_alike (hs : s.Quiet) :
    Alike id Scanner.strict (fun _ _ => True) (skipTrivia s) (skipTrivia s.strict) :=
  alike_of_twins (fun _ => Judgement.skipTrivia_ensures (J := .twins)) hs fun _ _ _ => trivial

/-- Only a slash that has been found to begin a regular expression is read as one. -/
theorem token_regex? (h : token s = .ok t s') : t.regex? = none := by
  have word (name : String) : Token.regex? ⟨Word.classify name, t.raw, t.span, t.line, t.lineStart⟩ = none := by
    unfold Word.classify
    repeat' split
    all_goals rfl
  obtain ⟨_, _, hget, h⟩ := run_bind_eq_ok.1 h
  cases hget
  cases hc : s.cursor.rest with
  | nil =>
    simp only [hc] at h
    cases h
    rfl
  | cons ch rest =>
    simp only [hc] at h
    split at h
    · obtain ⟨⟨cs, stop⟩, _, -, h⟩ := run_bind_eq_ok.1 h
      simp only at h
      split at h
      · obtain ⟨_, _, -, h⟩ := run_bind_eq_ok.1 h
        cases h
        exact word _
      · cases h
        exact word _
    split at h
    · obtain ⟨⟨q, stop⟩, _, -, h⟩ := run_bind_eq_ok.1 h
      cases h
      rfl
    split at h
    · obtain ⟨⟨n, stop⟩, _, -, h⟩ := run_bind_eq_ok.1 h
      cases h
      rfl
    split at h
    · obtain ⟨⟨chunk, closing, stop⟩, _, -, h⟩ := run_bind_eq_ok.1 h
      cases h
      rfl
    · unfold punctuator at h
      cases hp : Punctuator.read? s.cursor.rest <;> simp only [hp] at h <;> cases h
      rfl

theorem token_alike (hs : s.Quiet) :
    Alike id Scanner.strict (fun t _ => t.WrittenOut) (token s) (token s.strict) :=
  alike_of_twins (fun _ => Judgement.token_ensures (J := .twins)) hs fun t _ h => by
    simp [Token.WrittenOut, token_regex? h]

/-- Tolerant mode records a fault and goes on from it. -/
theorem pass_of_tolerant (hs : s.tolerant = true) (fault : Fault) :
    pass fault s = .ok () { s with cursor := fault.cursor, errors := s.errors ++ [fault.error] } := by
  have run : pass fault s = (if s.tolerant then modify fun s => { s with errors := s.errors ++ [fault.error] }
    else throw fault.error : Scan Unit) { s with cursor := fault.cursor } := rfl
  rw [run, if_pos hs]
  rfl

/-- Tolerant mode records the faults in their order. -/
theorem forM_pass (hs : s.tolerant = true) (faults : List Fault) :
    ∃ c, faults.forM pass s = .ok () { s with cursor := c, errors := s.errors ++ faults.map Fault.error } := by
  induction faults generalizing s with
  | nil => exact ⟨s.cursor, by rw [List.map_nil, List.append_nil]; rfl⟩
  | cons fault faults ih =>
    obtain ⟨c, hc⟩ := ih (s := { s with cursor := fault.cursor, errors := s.errors ++ [fault.error] }) hs
    refine ⟨c, ?_⟩
    have run : (fault :: faults).forM pass s = (pass fault >>= fun _ => faults.forM pass) s := rfl
    rw [run]
    simp only [bind, EStateM.bind, pass_of_tolerant hs, hc]
    simp

/-- Tolerant mode passes over the faults among the flags. -/
theorem regex_eq_of_tolerant (hs : s.tolerant = true) : regex s =
    match Regex.read s.cursor with
    | .error fault => .error fault.error { s with cursor := fault.cursor }
    | .ok ⟨literal, faults, stop⟩ => .ok (tokenBetween s.cursor stop (.regex literal))
        { s with cursor := stop, errors := s.errors ++ faults.map Fault.error } := by
  have run : regex s = (ofReading (Regex.read s.cursor) >>= fun read => read.faults.forM pass >>= fun _ =>
      moveTo read.cursor >>= fun _ => pure (tokenBetween s.cursor read.cursor (.regex read.literal))) s := rfl
  rw [run]
  rcases Regex.read s.cursor with fault | ⟨literal, faults, stop⟩
  · rfl
  · obtain ⟨c, hc⟩ := forM_pass hs faults
    rw [ofReading, pure_bind]
    simp only [bind, EStateM.bind, hc]
    rfl

end Scan

namespace Tokenizer

variable {s : Scanner} {t t' : Tokenizer}

theorem scanEither_of_ok {α : Type} {p q : Scan α} {a : α} {s' : Scanner} (h : p s = .ok a s') :
    scanEither p q s = .ok a s' := by rw [scanEither, h]

theorem scanEither_of_error {α : Type} {p q : Scan α} {e : SyntaxError} {s' : Scanner} (h : p s = .error e s') :
    scanEither p q s = q (s'.rewind s.bookmark) := by rw [scanEither, h]

theorem rewind_cursor (s : Scanner) (c : Cursor) : ({ s with cursor := c } : Scanner).rewind s.bookmark = s := by
  simp [Scanner.rewind, Scanner.bookmark, Scanner.Bookmark.regions]

theorem readToken_run (history : History) (s : Scanner) : readToken history s =
    (if s.cursor.startsWith '/' && history.allowsRegex then scanEither Scan.regex Scan.token s else Scan.token s) := by
  show (if s.cursor.startsWith '/' &&
    history.allowsRegex then scanEither Scan.regex Scan.token else Scan.token : Scan Token) s = _
  split <;> rfl

/-- Where strict mode takes a regular expression back that tolerant mode reads, its flags show why. -/
theorem readToken_alike (history : History) (hs : s.Quiet) :
    Alike id Scanner.strict (fun t _ => t.WrittenOut) (readToken history s) (readToken history s.strict) := by
  rw [readToken_run, readToken_run, show s.strict.cursor = s.cursor from rfl]
  split
  next hslash =>
    obtain ⟨rest, hrest⟩ := Cursor.rest_of_startsWith (Bool.and_eq_true _ _ ▸ hslash).1
    have lenient := Scan.regex_eq_of_tolerant hs.tolerant
    have strict := Scan.regex_eq (s := s.strict) rfl
    rw [show s.strict.cursor = s.cursor from rfl] at strict
    cases hread : Regex.read s.cursor with
    | error fault =>
      rw [hread] at lenient strict
      rw [scanEither_of_error lenient, scanEither_of_error strict, rewind_cursor s, rewind_cursor s.strict]
      exact Scan.token_alike hs
    | ok r =>
      rw [hread] at lenient strict
      have plain := Regex.read_faults_eq_nil_iff hrest hread
      obtain ⟨literal, faults, stop⟩ := r
      rw [scanEither_of_ok lenient]
      cases faults with
      | nil =>
        have written : (Scan.tokenBetween s.cursor stop (.regex literal)).WrittenOut := by
          rintro _ ⟨⟩
          exact plain.1 rfl
        rw [scanEither_of_ok strict, List.map_nil, List.append_nil]
        let u : Scanner := { s with cursor := stop }
        have quiet : u.Quiet := ⟨hs.tolerant, hs.errors⟩
        show Alike id Scanner.strict _ (.ok _ u) (.ok _ u.strict)
        exact .same quiet written
      | cons fault faults =>
        refine .shown ⟨hs.tolerant, by simp⟩ fun hw => ?_
        cases plain.2 (hw literal rfl)
  · exact Scan.token_alike hs

/-- The tokenizer behind trivia that brings the scanner to `s`. -/
def behindComments (t : Tokenizer) (comments : List Comment) (s : Scanner) : Tokenizer :=
  { t with
    scanner := s
    waiting := if s.keepsComments then t.waiting ++ comments.map t.commentItem else t.waiting }

/-- Filling passes the trivia and reads the token behind it, in either mode. -/
theorem fill_run (t : Tokenizer) : fill t =
    match Scan.skipTrivia t.scanner with
    | .error e s => .error e { t with scanner := s }
    | .ok comments s =>
      if s.cursor.atEnd then .ok () { t.behindComments comments s with done := true }
      else match readToken t.history s with
        | .error e s' => .error e { t.behindComments comments s with scanner := s' }
        | .ok token s' => .ok () ((t.behindComments comments s).behindToken token s') := by
  have kept (comments : List Comment) (s : Scanner) : (modify fun t : Tokenizer =>
      if t.scanner.keepsComments then { t with waiting := t.waiting ++ comments.map t.commentItem } else t :
        Tokenize Unit)
        { t with scanner := s } = .ok () (t.behindComments comments s) := by
    show EStateM.Result.ok () (if s.keepsComments then _ else _) = _
    rw [behindComments]
    split <;> rfl
  have state (t : Tokenizer) : (get : Tokenize Tokenizer) t = .ok t t := rfl
  simp only [fill, bind, EStateM.bind, scan]
  cases Scan.skipTrivia t.scanner with
  | error e s => rfl
  | ok comments s =>
    simp only [kept, state]
    rw [show (t.behindComments comments s).scanner = s from rfl]
    split
    · rfl
    · rw [show (t.behindComments comments s).history = t.history from rfl]
      simp only [EStateM.bind, scan]
      rw [show (t.behindComments comments s).scanner = s from rfl]
      cases readToken t.history s <;> rfl

theorem token_told {token : Token} {s' : Scanner} (hs : s.Told) (h : Scan.token s = .ok token s') : s'.Told := by
  obtain ⟨u, rfl, _, hscans, -⟩ := Scan.of_ensures (fun u => Judgement.token_ensures (J := .onSuccess)) h
  exact hs.scans hscans

/-- Coming back from an attempt keeps the errors recorded before it. -/
theorem readToken_told {token : Token} {history : History} {s' : Scanner} (hs : s.Told)
    (h : readToken history s = .ok token s') : s'.Told := by
  rw [readToken_run] at h
  split at h
  · cases hregex : Scan.regex s with
    | ok _ u =>
      rw [scanEither_of_ok hregex] at h
      cases h
      rw [Scan.regex_eq_of_tolerant hs.tolerant] at hregex
      split at hregex
      · cases hregex
      · cases hregex
        exact ⟨hs.tolerant, by simp [hs.errors]⟩
    | error _ u =>
      rw [scanEither_of_error hregex] at h
      rw [Scan.regex_eq_of_tolerant hs.tolerant] at hregex
      split at hregex
      · cases hregex
        rw [rewind_cursor] at h
        exact token_told hs h
      · cases hregex
  · exact token_told hs h

theorem fill_told (ht : t.scanner.Told) (h : fill t = .ok () t') : t'.scanner.Told := by
  rw [fill_run] at h
  split at h
  · cases h
  next comments s hskip =>
    obtain ⟨u, hu, hscans, -⟩ := Scan.of_ensures (fun u => Judgement.skipTrivia_ensures (J := .onSuccess)) hskip
    have hs : s.Told := (hu ▸ ht : u.scanner.Told).scans hscans
    split at h
    · cases h
      exact hs
    · split at h
      · cases h
      next hread =>
        cases h
        exact readToken_told hs hread

/-- What is given back or waits to be is written as it reads. -/
def Plain (items : List TokenItem) : Prop := ∀ item ∈ items, item.WrittenOut

theorem Plain.comments (t : Tokenizer) (comments : List Comment) : Plain (comments.map t.commentItem) := by
  rintro _ hitem
  obtain ⟨_, -, rfl⟩ := List.mem_map.1 hitem
  exact fun _ h => absurd h (Option.some_ne_none _).symm

theorem plain_append {items later : List TokenItem} : Plain (items ++ later) ↔ Plain items ∧ Plain later :=
  List.forall_mem_append

theorem plain_token {token : Token} {start stop : Position} {placement : Placement} :
    Plain [.token ⟨token, start, stop, placement⟩] ↔ token.WrittenOut := by
  simp [Plain, TokenItem.WrittenOut, TokenItem.token?]

theorem fill_alike (ht : t.scanner.Quiet) (hplain : Plain t.waiting) :
    Alike scanner strict (fun _ t => Plain t.waiting) (fill t) (fill t.strict) := by
  rw [fill_run, fill_run, show t.strict.scanner = t.scanner.strict from rfl]
  have trivia := Scan.skipTrivia_alike ht
  generalize Scan.skipTrivia t.scanner = x at trivia ⊢
  generalize Scan.skipTrivia t.scanner.strict = y at trivia ⊢
  cases trivia with
  | @same comments s hs _ =>
    have passed : Plain (t.behindComments comments s).waiting := by
      rw [behindComments]
      split
      · exact plain_append.2 ⟨hplain, .comments t comments⟩
      · exact hplain
    simp only
    rw [show s.strict.cursor = s.cursor from rfl]
    split
    · exact .same hs passed
    · have token := readToken_alike (s := s) t.history hs
      rw [show t.strict.history = t.history from rfl]
      generalize readToken t.history s = x at token ⊢
      generalize readToken t.history s.strict = y at token ⊢
      cases token with
      | same hs' htoken => exact .same hs' (plain_append.2 ⟨passed, plain_token.2 htoken⟩)
      | told he => exact .told he
      | shown he hne => exact .shown he fun h => hne (plain_token.1 (plain_append.1 h).2)
      | stopped => exact .stopped
  | told he =>
    simp only
    split
    · exact .told he
    · cases hread : readToken t.history _ with
      | ok => exact .told (readToken_told he hread)
      | error => exact .stopped
  | shown _ hne => exact absurd trivial hne
  | stopped => exact .stopped

/-! ## Runs -/

section
variable {source : String} {read items : List TokenItem} {bound : Nat}

/-- Behind what has been filled something waits, or the source is at its end. -/
theorem fill_gives (h : fill t = .ok () t') : ¬ (t'.waiting.isEmpty && !t'.done) = true := by
  rw [fill_run] at h
  split at h
  · cases h
  · split at h
    · cases h
      simp
    · split at h <;> cases h
      simp [behindToken]

/-- Collecting goes on from what has been filled. -/
theorem collect_fill (hfills : (t.waiting.isEmpty && !t.done) = true) (hfill : fill t = .ok () t') :
    collect read (bound + 1) t = collect read (bound + 1) t' := by
  rw [collect, collect, next_of_fill hfills hfill, next_of_not (fill_gives hfill)]

theorem collect_stopped {e : SyntaxError} (hfills : (t.waiting.isEmpty && !t.done) = true)
    (hfill : fill t = .error e t') :
    collect read (bound + 1) t = (read.reverse, some e, t') := by
  rw [collect, next_of_fill_error hfills hfill]

theorem collect_of_nil (hdone : ¬ (t.waiting.isEmpty && !t.done) = true) (h : t.waiting = []) :
    collect read (bound + 1) t = (read.reverse, none, t) := by
  rw [collect, next_of_not hdone, give_of_nil h]

theorem collect_of_cons {item : TokenItem} {waiting : List TokenItem} (h : t.waiting = item :: waiting) :
    collect read (bound + 1) t = collect (item :: read) bound { t with waiting } := by
  rw [collect, next_of_not (by simp [h]), give_of_cons h]

/-- What has been given back stays given back. -/
theorem read_prefix_collect (read : List TokenItem) (bound : Nat) (t : Tokenizer) :
    read.reverse <+: (collect read bound t).1 := by
  induction bound generalizing read t with
  | zero => exact List.prefix_refl _
  | succ bound ih =>
    rw [collect]
    split
    · exact List.prefix_refl _
    next item after _ =>
      have longer : read.reverse <+: (item :: read).reverse := by simp
      exact longer.trans (ih (item :: read) after)
    · exact List.prefix_refl _

theorem Metered.waiting_le {given : Nat} (h : t.Metered source given) :
    given + t.waiting.length ≤ source.utf8ByteSize := by
  have := h.reached.offset_add_bytes
  have := h.counted
  omega

/-- What waits is given back next. -/
theorem waiting_prefix_collect (read : List TokenItem) (bound : Nat) (hbound : t.waiting.length ≤ bound) :
    read.reverse ++ t.waiting <+: (collect read bound t).1 := by
  induction bound generalizing read t with
  | zero =>
    rw [List.eq_nil_of_length_eq_zero (Nat.le_zero.1 hbound), List.append_nil]
    exact List.prefix_refl _
  | succ bound ih =>
    cases h : t.waiting with
    | nil =>
      rw [List.append_nil]
      exact read_prefix_collect read (bound + 1) t
    | cons item waiting =>
      rw [h, List.length_cons] at hbound
      rw [collect_of_cons h]
      simpa using ih (t := { t with waiting }) (item :: read) (Nat.le_of_succ_le_succ hbound)

/-- The run has recorded an error, or an error has stopped it. -/
def Tells (run : List TokenItem × Option SyntaxError × Tokenizer) : Prop :=
  run.2.2.scanner.errors ++ run.2.1.toList ≠ []

/-- What has been recorded stays recorded. -/
theorem collect_tells (ht : t.scanner.Told) : Tells (collect read bound t) := by
  induction bound generalizing read t with
  | zero => simp [collect, Tells, ht.errors]
  | succ bound ih =>
    have gives {t : Tokenizer} (ht : t.scanner.Told) (hdone : ¬ (t.waiting.isEmpty && !t.done) = true) :
        Tells (collect read (bound + 1) t) := by
      cases hw : t.waiting with
      | nil =>
        rw [collect_of_nil hdone hw]
        simp [Tells, ht.errors]
      | cons item waiting =>
        rw [collect_of_cons hw]
        exact ih ht
    by_cases hfills : (t.waiting.isEmpty && !t.done) = true
    · cases hfill : fill t with
      | ok _ u =>
        rw [collect_fill hfills hfill]
        exact gives (fill_told ht hfill) (fill_gives hfill)
      | error e u =>
        rw [collect_stopped hfills hfill]
        simp [Tells]
    · exact gives ht hfills

/-- A run in tolerant mode without errors is a strict one; with errors, the strict run stops, or it goes another way at
a regular expression with an escape among its flags. -/
theorem collect_alike (read : List TokenItem) (bound : Nat) (ht : t.scanner.Quiet)
    (hplain : Plain (read.reverse ++ t.waiting)) (hmetered : t.Metered source read.length)
    (hbound : source.utf8ByteSize < read.length + bound) :
    (∃ items t', collect read bound t = (items, none, t') ∧ collect read bound t.strict = (items, none, t'.strict) ∧
      t'.scanner.errors = [] ∧ Plain items) ∨
    Tells (collect read bound t) ∧ ((collect read bound t.strict).2.1 ≠ none ∨ ¬ Plain (collect read bound t).1) := by
  induction bound generalizing read t with
  | zero => exact absurd hmetered.bounded (by omega)
  | succ bound ih =>
    have gives {t : Tokenizer} (ht : t.scanner.Quiet) (hplain : Plain (read.reverse ++ t.waiting))
        (hmetered : t.Metered source read.length) (hdone : ¬ (t.waiting.isEmpty && !t.done) = true) :
        (∃ items t', collect read (bound + 1) t = (items, none, t') ∧
          collect read (bound + 1) t.strict = (items, none, t'.strict) ∧ t'.scanner.errors = [] ∧ Plain items) ∨
        Tells (collect read (bound + 1) t) ∧
          ((collect read (bound + 1) t.strict).2.1 ≠ none ∨ ¬ Plain (collect read (bound + 1) t).1) := by
      cases hw : t.waiting with
      | nil =>
        rw [hw, List.append_nil] at hplain
        exact .inl ⟨read.reverse, t, collect_of_nil hdone hw, collect_of_nil (t := t.strict) hdone hw,
          ht.errors, hplain⟩
      | cons item waiting =>
        rw [collect_of_cons hw, collect_of_cons (t := t.strict) hw]
        have given : Tokenizer.Metered source (item :: read).length { t with waiting } := by
          simpa using hmetered.next ((next_of_not hdone).trans (give_of_cons hw))
        refine ih (t := { t with waiting }) _ ht ?_ given (by rw [List.length_cons]; omega)
        simpa [hw] using hplain
    by_cases hfills : (t.waiting.isEmpty && !t.done) = true
    · have filled := fill_alike ht (plain_append.1 hplain).2
      generalize hx : fill t = x at filled
      generalize hy : fill t.strict = y at filled
      cases filled with
      | same hs hwaiting =>
        rw [collect_fill hfills hx, collect_fill (t := t.strict) hfills hy]
        exact gives hs (plain_append.2 ⟨(plain_append.1 hplain).1, hwaiting⟩) (hmetered.fill hx) (fill_gives hx)
      | told hs =>
        rw [collect_fill hfills hx, collect_stopped (t := t.strict) hfills hy]
        exact .inr ⟨collect_tells hs, .inl (by simp)⟩
      | @shown _ u _ hs hodd =>
        rw [collect_fill hfills hx]
        refine .inr ⟨collect_tells hs, .inr fun h => hodd ?_⟩
        have counted := (hmetered.fill hx).waiting_le
        obtain ⟨later, hlater⟩ := waiting_prefix_collect (t := u) read (bound + 1) (by omega)
        rw [← hlater] at h
        exact (plain_append.1 (plain_append.1 h).1).2
      | stopped =>
        rw [collect_stopped hfills hx, collect_stopped (t := t.strict) hfills hy]
        exact .inr ⟨by simp [Tells], .inl (by simp)⟩
    · exact gives ht hplain hmetered hfills

end

end Tokenizer

/-- Tolerant tokenizing gives back some items and no error just when strict tokenizing gives them back and no regular
expression that tolerant mode reads has an escape among its flags. -/
theorem tokenize_tolerant_iff (source : String) (o : TokenizeOptions) (items : List TokenItem) :
    tokenize source { o with tolerant := true } = .ok ⟨items, some []⟩ ↔
      tokenize source { o with tolerant := false } = .ok ⟨items, none⟩ ∧
        ∀ stream, tokenize source { o with tolerant := true } = .ok stream →
          ∀ item ∈ stream.items, item.WrittenOut := by
  have alike := Tokenizer.collect_alike (t := .start source { o with tolerant := true }) []
    (source.utf8ByteSize + 1) ⟨rfl, rfl⟩ (List.forall_mem_nil _) ⟨.refl _, Nat.le_refl _⟩ (by simp)
  have strict : Tokenizer.strict (.start source { o with tolerant := true }) =
    .start source { o with tolerant := false } := rfl
  rw [strict] at alike
  rw [tokenize, tokenize]
  generalize Tokenizer.collect [] (source.utf8ByteSize + 1) (.start source { o with tolerant := true }) = x at alike ⊢
  generalize Tokenizer.collect [] (source.utf8ByteSize + 1) (.start source { o with tolerant := false }) = y at alike ⊢
  obtain ⟨read, t, rfl, rfl, silent, plain⟩ | ⟨tells, odd⟩ := alike
  · simp only [silent, if_true, Bool.false_eq_true, if_false, Option.toList_none, List.append_nil, Except.ok.injEq,
      TokenStream.mk.injEq, and_true]
    refine ⟨?_, And.left⟩
    rintro rfl
    exact ⟨rfl, fun _ h => h ▸ plain⟩
  · obtain ⟨read, stopped, t⟩ := x
    obtain ⟨read', stopped', t'⟩ := y
    simp only [if_true, Bool.false_eq_true, if_false, Except.ok.injEq, TokenStream.mk.injEq, Option.some.injEq]
    refine ⟨fun h => absurd h.2 tells, ?_⟩
    rintro ⟨hstrict, hplain⟩
    rcases odd with hstop | hodd
    · cases stopped' with
      | none => exact absurd rfl hstop
      | some => cases hstrict
    · exact absurd (hplain _ rfl) hodd

/-- Strict tokenizing reads the slashes around `a` as punctuators, because of the escape behind them. -/
theorem tokenize_escaped_flag : ¬ ∀ (source : String) (o : TokenizeOptions) (items : List TokenItem),
    tokenize source { o with tolerant := false } = .ok ⟨items, none⟩ ↔
      tokenize source { o with tolerant := true } = .ok ⟨items, some []⟩ := by
  intro h
  have strict : (tokenize "/a/\\u0067" {}).toOption.any (fun stream => stream.items.length == 4 &&
    stream.errors.isNone) = true := by
    decide +kernel
  have tolerant : (tokenize "/a/\\u0067" { tolerant := true }).toOption.any (·.items.length == 1) = true := by
    decide +kernel
  obtain ⟨⟨items, _ | _⟩, hrun, hstrict⟩ := exists_ok_of_any strict
  · rw [(h "/a/\\u0067" {} items).1 hrun] at tolerant
    simp_all [Except.toOption]
  · simp at hstrict

end EcmaTree
