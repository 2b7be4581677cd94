import EcmaTree.Program
import EcmaTree.Proofs.Lexer.Strict
import EcmaTree.Tokenizer.Basic

/-!
# Probes

Some decisions need a look behind the lookahead: at one token, at two behind the word `import`, or at one token of a
tag. A probe scans as every other scan does and then comes back to a bookmark, whether it has read a token or stopped
at a fault. The bookmark holds one open region and their number only. That suffices, because a token opens or closes
one region at most, and a second token is read behind a dot only, which does neither (`Scanner.behind_rewind`).

What a bookmark does not hold are the errors recorded in tolerant mode. So a probe records what its text violates, and
whatever reads that text afterwards records the same once more (`probes_record`).
-/

namespace EcmaTree

/-- The state behind a run, whether it gave back a result or stopped. -/
def stateBehind {ε σ α : Type} : EStateM.Result ε σ α → σ
  | .ok _ s | .error _ s => s

/-! ## Violations -/

/-- Does a word stand at the cursor that is reserved and spelled with an escape? -/
def Cursor.escapesKeyword (c : Cursor) : Bool :=
  match c.rest with
  | [] => false
  | ch :: _ =>
    (isIdentifierStart ch || ch == '\\') &&
      match Word.read c with
      | .ok (characters, stop) =>
        Word.isReserved (Word.classify (String.ofList characters)) &&
          c.offset + (String.ofList characters).utf8ByteSize != stop.offset
      | .error _ => false

theorem Cursor.escapesKeyword_of_rest {c : Cursor} {ch : Char} {rest : List Char} (hc : c.rest = ch :: rest)
    (h : (isIdentifierStart ch || ch == '\\') = false) : c.escapesKeyword = false := by
  rw [escapesKeyword, hc]
  simp only [h, Bool.false_and]

namespace Scanner

/-- The scanner at another place, after `found` has been recorded. -/
def movedTo (s : Scanner) (c : Cursor) (found : List SyntaxError) : Scanner :=
  { s with cursor := c, errors := s.errors ++ found }

/-- The scanner behind a token that ends at `d`. -/
def behind (s : Scanner) (d : Cursor) (l : Lexeme) (found : List SyntaxError) : Scanner :=
  { s.movedTo d found with regions := l.regionsBehind s.regions }

/-- The trivia at the scanner. -/
def triviaAhead (s : Scanner) : Trivia := Trivia.skip s.keepsComments (s.goal == .script) s.cursor

/-- What tolerant mode records where trivia is passed: that a comment is left open. -/
def triviaViolations (s : Scanner) : List SyntaxError :=
  if s.tolerant && s.triviaAhead.unclosed then [(Fault.illegal s.triviaAhead.cursor).error] else []

/-- What tolerant mode records where a token is read at `c`: that an escape spells a reserved word. -/
def tokenViolations (s : Scanner) (c : Cursor) : List SyntaxError :=
  if s.tolerant && c.escapesKeyword then [(Fault.mk .escapedKeyword c).error] else []

/-- What tolerant mode records where the next token is read with the trivia before it. -/
def violations (s : Scanner) : List SyntaxError := s.triviaViolations ++ s.tokenViolations s.triviaAhead.cursor

/-- The same inside of a tag, where only a word that begins with an escape is read like other words. -/
def tagViolations (s : Scanner) : List SyntaxError :=
  s.triviaViolations ++ if s.triviaAhead.cursor.startsWith '\\' then s.tokenViolations s.triviaAhead.cursor else []

theorem behind_movedTo (s : Scanner) (c d : Cursor) (l : Lexeme) (first second : List SyntaxError) :
    (s.movedTo c first).behind d l second = s.behind d l (first ++ second) := by
  rw [behind, movedTo, movedTo, behind, movedTo, List.append_assoc]

theorem behind_nil (s : Scanner) (d : Cursor) : s.behind d .endOfInput [] = { s with cursor := d } := by
  rw [behind, movedTo, List.append_nil]
  rfl

/-- Coming back over one token undoes everything but what was recorded. -/
theorem rewind_of_regionsBehind {s t : Scanner} {l : Lexeme}
    (h : t = { s with cursor := t.cursor, regions := l.regionsBehind s.regions, errors := t.errors }) :
    t.rewind s.bookmark = { s with errors := t.errors } := by
  have regions : t.regions = l.regionsBehind s.regions := congrArg Scanner.regions h
  rw [rewind, regions, Bookmark.regions_regionsBehind, h]
  rfl

theorem behind_rewind (s : Scanner) (d : Cursor) (l : Lexeme) (found : List SyntaxError) :
    (s.behind d l found).rewind s.bookmark = { s with errors := s.errors ++ found } :=
  rewind_of_regionsBehind (l := l) rfl

theorem tokenViolations_of_strict (s : Scanner) (h : s.tolerant = false) (c : Cursor) : s.tokenViolations c = [] := by
  rw [tokenViolations, h, Bool.false_and, if_neg nofun]

theorem tokenViolations_of_escapesKeyword_eq_false (s : Scanner) {c : Cursor} (h : c.escapesKeyword = false) :
    s.tokenViolations c = [] := by
  rw [tokenViolations, h, Bool.and_false, if_neg nofun]

end Scanner

/-! ## Runs, whatever comes of them -/

/-- Started in `s`, a program gives back something, or stops; `Q` holds of that and of the state behind it. -/
def RunsTo {ε σ α : Type} (p : EStateM ε σ α) (s : σ) (Q : Option α → σ → Prop) : Prop :=
  match p s with
  | .ok a t => Q (some a) t
  | .error _ t => Q none t

namespace RunsTo

variable {ε σ α β : Type} {p : EStateM ε σ α} {s t : σ} {Q R : Option α → σ → Prop}

theorem pure {a : α} (h : Q (some a) s) : RunsTo (pure a : EStateM ε σ α) s Q := h

theorem get {f : σ → EStateM ε σ α} (h : RunsTo (f s) s Q) : RunsTo (get >>= f) s Q := h

theorem modify {f : σ → σ} {g : Unit → EStateM ε σ α} (h : RunsTo (g ()) (f s) Q) : RunsTo (modify f >>= g) s Q := h

theorem of_run_eq {q : EStateM ε σ α} (h : p s = q t) (hq : RunsTo q t Q) : RunsTo p s Q := by
  unfold RunsTo
  rw [h]
  exact hq

theorem mono (h : RunsTo p s Q) (hQR : ∀ r t, Q r t → R r t) : RunsTo p s R := by
  unfold RunsTo at *
  split at h <;> exact hQR _ _ h

/-- A program that stops does not go on. -/
theorem bind {f : α → EStateM ε σ β} {P : Option β → σ → Prop} (hp : RunsTo p s Q) (stop : ∀ t, Q none t → P none t)
    (goOn : ∀ a t, Q (some a) t → RunsTo (f a) t P) : RunsTo (p >>= f) s P := by
  unfold RunsTo at hp
  cases hps : p s with
  | ok a t =>
    rw [hps] at hp
    exact of_run_eq (by simp only [Bind.bind, EStateM.bind, hps]) (goOn a t hp)
  | error e t =>
    rw [hps] at hp
    rw [RunsTo, show (p >>= f) s = .error e t by simp only [Bind.bind, EStateM.bind, hps]]
    exact stop t hp

/-- The run itself, beside what is true of it. -/
theorem and_eq (h : RunsTo p s Q) :
    RunsTo p s fun r t => Q r t ∧ r.elim (∃ e, p s = .error e t) fun a => p s = .ok a t := by
  unfold RunsTo at *
  cases hps : p s <;> rw [hps] at h
  · exact ⟨h, rfl⟩
  · exact ⟨h, _, rfl⟩

/-- What is true of the state behind the run, whatever came of it. -/
theorem behind {Q : σ → Prop} (h : RunsTo p s fun _ t => Q t) : Q (stateBehind (p s)) := by
  unfold RunsTo at h
  cases hps : p s <;> rw [hps] at h <;> exact h

/-- A scan of what a reader gives back; at a fault of the reader only the cursor moves. -/
theorem reading {r : Except Fault α} {f : α → Scan β} {s : Scanner} {Q : Option β → Scanner → Prop}
    (ok : ∀ a, r = .ok a → RunsTo (f a) s Q)
    (error : ∀ fault, r = .error fault → Q none { s with cursor := fault.cursor }) :
    RunsTo (Scan.ofReading r >>= f) s Q := by
  cases r with
  | ok a => exact ok a rfl
  | error fault => exact error fault rfl

/-- A scan as a step of a parse. -/
theorem scan {p : Scan α} {s : ParseState} {Q : Option α → ParseState → Prop}
    (h : RunsTo p s.scanner fun r scanner => Q r { s with scanner }) : RunsTo (Parse.scan p) s Q := by
  unfold RunsTo at *
  rw [Parse.scan]
  cases hp : p s.scanner <;> rw [hp] at h <;> exact h

/-- What a scan does to the scanner of a parse. -/
theorem scanner {p : Scan α} {s : ParseState} {Q : Option α → Scanner → Prop} (h : RunsTo p s.scanner Q) :
    RunsTo (Parse.scan p) s fun r t => Q r t.scanner := .scan h

/-- A probe comes back, whatever came of it. -/
theorem lookAhead {p : Scan α} {s : Scanner} {Q : Option α → Scanner → Prop}
    (h : RunsTo p s fun r t => Q r (t.rewind s.bookmark)) : RunsTo (Scan.lookAhead p) s Q := by
  unfold RunsTo at *
  rw [Scan.lookAhead]
  cases hp : p s <;> rw [hp] at h <;> exact h

end RunsTo

/-! ## Scans -/

namespace Scan

variable {s : Scanner}

/-- A fault is passed over with an error recorded, or the scan stops there. -/
theorem pass_runs (fault : Fault) (s : Scanner) : RunsTo (pass fault) s fun r t =>
    t = s.movedTo fault.cursor (if s.tolerant then [fault.error] else []) ∧ (r = none → s.tolerant = false) := by
  obtain ⟨c, regions, errors, tolerant, goal⟩ := s
  cases tolerant with
  | false => exact ⟨by rw [if_neg nofun, Scanner.movedTo, List.append_nil], fun _ => rfl⟩
  | true => exact ⟨rfl, nofun⟩

/-- Strict mode stops at a comment that is left open, and tolerant mode passes it over. -/
theorem skipTrivia_runs (s : Scanner) : RunsTo skipTrivia s fun r t =>
    t = s.movedTo s.triviaAhead.cursor s.triviaViolations ∧ (r = none → s.tolerant = false) := by
  have run : skipTrivia s = (if s.triviaAhead.unclosed then pass (.illegal s.triviaAhead.cursor) >>= fun _ =>
      Pure.pure s.triviaAhead.comments else Pure.pure s.triviaAhead.comments : Scan _)
        { s with cursor := s.triviaAhead.cursor } := rfl
  refine .of_run_eq run ?_
  rw [Scanner.triviaViolations]
  cases s.triviaAhead.unclosed with
  | false => exact .pure ⟨by rw [Bool.and_false, if_neg nofun, Scanner.movedTo, List.append_nil], nofun⟩
  | true =>
    rw [Bool.and_true]
    exact (pass_runs (.illegal s.triviaAhead.cursor) { s with cursor := s.triviaAhead.cursor }).bind
      (fun _ h => ⟨h.1, fun _ => h.2 rfl⟩) fun _ _ h => .pure ⟨h.1, nofun⟩

/-- A word that is reserved and spelled with an escape is recorded, or the scan stops there. -/
theorem word_runs {ch : Char} {rest : List Char} (hc : s.cursor.rest = ch :: rest)
    (hch : (isIdentifierStart ch || ch == '\\') = true) : RunsTo (word s.cursor) s fun _ t =>
      ∃ d, t = s.movedTo d (s.tokenViolations s.cursor) := by
  have escapes : s.cursor.escapesKeyword = match Word.read s.cursor with
      | .ok (characters, stop) => Word.isReserved (Word.classify (String.ofList characters)) &&
          s.cursor.offset + (String.ofList characters).utf8ByteSize != stop.offset
      | .error _ => false := by
    rw [Cursor.escapesKeyword, hc]
    simp only [hch, Bool.true_and]
  refine .reading (fun (characters, stop) hread => ?_) fun fault hread => ⟨fault.cursor, ?_⟩
  · rw [hread] at escapes
    simp only at escapes ⊢
    split
    next hreserved =>
      have violations : s.tokenViolations s.cursor =
        if s.tolerant then [(Fault.mk .escapedKeyword s.cursor).error] else [] := by
        rw [Scanner.tokenViolations, escapes, hreserved, Bool.and_true]
      rw [violations]
      exact (pass_runs ⟨.escapedKeyword, s.cursor⟩ s).bind (fun _ h => ⟨_, h.1⟩) fun _ t h =>
        .modify (.pure ⟨stop, by rw [h.1]; rfl⟩)
    next hplain =>
      rw [s.tokenViolations_of_escapesKeyword_eq_false (by rw [escapes]; exact Bool.eq_false_iff.2 hplain)]
      exact .modify (.pure ⟨stop, by rw [Scanner.movedTo, List.append_nil]⟩)
  · rw [hread] at escapes
    rw [s.tokenViolations_of_escapesKeyword_eq_false escapes, Scanner.movedTo, List.append_nil]

/-- Only a word can violate anything. A token that cannot be read neither opens nor closes a region. -/
theorem token_records (s : Scanner) : RunsTo token s fun r t =>
    t.errors = s.errors ++ s.tokenViolations s.cursor ∧
      (r = none → ∃ d, t = s.movedTo d (s.tokenViolations s.cursor)) := by
  cases hc : s.cursor.rest with
  | nil =>
    have end_ : s.cursor.escapesKeyword = false := by rw [Cursor.escapesKeyword, hc]
    refine .of_run_eq (q := pure (tokenBetween s.cursor s.cursor .endOfInput)) (token_of_end hc) (.pure ⟨?_, nofun⟩)
    rw [s.tokenViolations_of_escapesKeyword_eq_false end_, List.append_nil]
  | cons ch rest =>
    refine .get ?_
    simp only [hc]
    split
    next hword => exact (word_runs hc hword).mono fun _ _ ⟨d, hd⟩ => ⟨congrArg _ hd, fun _ => ⟨d, hd⟩⟩
    next hplain =>
    have noWord : s.tokenViolations s.cursor = [] :=
      s.tokenViolations_of_escapesKeyword_eq_false (Cursor.escapesKeyword_of_rest hc (Bool.eq_false_iff.2 hplain))
    rw [noWord, List.append_nil]
    have stays (c : Cursor) : ∃ d, { s with cursor := c } = s.movedTo d [] :=
      ⟨c, by rw [Scanner.movedTo, List.append_nil]⟩
    split
    · exact .reading (fun _ _ => .modify (.pure ⟨rfl, nofun⟩)) fun fault _ => ⟨rfl, fun _ => stays fault.cursor⟩
    split
    · exact .reading (fun _ _ => .modify (.pure ⟨rfl, nofun⟩)) fun fault _ => ⟨rfl, fun _ => stays fault.cursor⟩
    split
    · exact .reading (fun _ _ => .modify (.pure ⟨rfl, nofun⟩)) fun fault _ => ⟨rfl, fun _ => stays fault.cursor⟩
    · unfold punctuator
      split
      · exact ⟨rfl, fun _ => stays s.cursor⟩
      · exact .modify (.pure ⟨rfl, nofun⟩)

/-- The one region that a token opens or closes is told by the token that was read. -/
theorem token_runs (s : Scanner) : RunsTo token s fun r t =>
    ∃ d l, t = s.behind d l (s.tokenViolations s.cursor) ∧ ∀ a, r = some a → a.lexeme = l := by
  have records := token_records s
  unfold RunsTo at *
  cases h : token s with
  | ok t u =>
    rw [h] at records
    obtain ⟨-, eq, -⟩ := token_ok h
    refine ⟨u.cursor, t.lexeme, ?_, fun _ h => ?_⟩
    · rw [eq, records.1]
      rfl
    · cases h
      rfl
  | error e u =>
    rw [h] at records
    obtain ⟨d, hd⟩ := records.2 rfl
    exact ⟨d, .endOfInput, hd, by simp⟩

/-- The trivia and the token behind it. -/
theorem trivia_token_runs (s : Scanner) : RunsTo (discard skipTrivia >>= fun _ => token) s fun r t =>
    ∃ d l, t = s.behind d l s.violations ∧ ∀ a, r = some a → a.lexeme = l := by
  rw [discard_eq, bind_assoc]
  refine (skipTrivia_runs s).bind (fun t ⟨ht, hs⟩ => ⟨s.triviaAhead.cursor, .endOfInput, ?_, by simp⟩)
    fun _ t ⟨ht, _⟩ => ?_
  · rw [ht, Scanner.violations, s.tokenViolations_of_strict (hs rfl), List.append_nil]
    rfl
  · rw [pure_bind, ht]
    exact (token_runs _).mono fun _ _ ⟨d, l, hu, hl⟩ => ⟨d, l, hu.trans (s.behind_movedTo ..), hl⟩

/-- The token of a tag does not open or close a region, unless it is read like any other token. -/
theorem jsxToken_runs (s : Scanner) : RunsTo jsxToken s fun _ t =>
    ∃ d l, t = s.behind d l (if s.cursor.startsWith '\\' then s.tokenViolations s.cursor else []) := by
  have moved (h : s.cursor.startsWith '\\' = false) (stop : Cursor) (l : Lexeme) :
      RunsTo (jsxTokenTo stop l) s fun _ t =>
      ∃ d l, t = s.behind d l (if s.cursor.startsWith '\\' then s.tokenViolations s.cursor else []) := by
    rw [h, if_neg nofun]
    exact .get (.modify (.pure ⟨stop, .endOfInput, (s.behind_nil ..).symm⟩))
  have other (h : s.cursor.startsWith '\\' = false → s.cursor.escapesKeyword = false) : RunsTo token s fun _ t =>
      ∃ d l, t = s.behind d l (if s.cursor.startsWith '\\' then s.tokenViolations s.cursor else []) := by
    refine (token_runs s).mono fun _ t ⟨d, l, ht, _⟩ => ⟨d, l, ?_⟩
    rw [ht]
    split
    · rfl
    next hplain => rw [s.tokenViolations_of_escapesKeyword_eq_false (h (Bool.eq_false_iff.2 hplain))]
  refine .get ?_
  cases hc : s.cursor.rest with
  | nil =>
    simp only [hc]
    exact other fun _ => by rw [Cursor.escapesKeyword, hc]
  | cons ch rest =>
    simp only [hc]
    have plain (h : ch ≠ '\\') : s.cursor.startsWith '\\' = false := by
      rw [Cursor.startsWith, hc]
      exact beq_false_of_ne fun heq => h (Option.some.inj heq)
    split
    next hp => exact moved (plain fun heq => by rw [heq] at hp; cases hp) _ _
    split
    next h => exact moved (plain (by rintro rfl; exact absurd h (by decide))) _ _
    split
    next h =>
      have plain := plain (by rintro rfl; exact absurd h (by decide))
      split <;> exact moved plain _ _
    split
    next h => exact moved (plain (by rintro rfl; exact absurd h (by decide))) _ _
    split
    next h => exact moved (plain (by rintro rfl; exact absurd h (by decide +kernel))) _ _
    next hstart =>
      refine other fun h => Cursor.escapesKeyword_of_rest hc ?_
      rw [Cursor.startsWith, hc] at h
      rw [Bool.or_eq_false_iff]
      exact ⟨Bool.eq_false_iff.2 hstart, h⟩

theorem trivia_jsxToken_runs (s : Scanner) : RunsTo (discard skipTrivia >>= fun _ => jsxToken) s fun _ t =>
    ∃ d l, t = s.behind d l s.tagViolations := by
  rw [discard_eq, bind_assoc]
  refine (skipTrivia_runs s).bind (fun t ⟨ht, hs⟩ => ⟨s.triviaAhead.cursor, .endOfInput, ?_⟩) fun _ t ⟨ht, _⟩ => ?_
  · rw [ht, Scanner.tagViolations, s.tokenViolations_of_strict (hs rfl), ite_self, List.append_nil]
    rfl
  · rw [pure_bind, ht]
    exact (jsxToken_runs _).mono fun _ _ ⟨d, l, hu⟩ => ⟨d, l, hu.trans (s.behind_movedTo ..)⟩

end Scan

/-! ## Probes -/

namespace Scanner

/-- What tolerant mode records where the next token is read, and one token more behind a dot. -/
def dotViolations (s : Scanner) : List SyntaxError :=
  s.violations ++
    match (discard Scan.skipTrivia >>= fun _ => Scan.token) s with
    | .ok t u => if t.isPunctuator .dot then u.violations else []
    | .error .. => []

end Scanner

namespace Parse

theorem second_runs (s : ParseState) : RunsTo second s fun _ t =>
    t = { s with scanner.errors := s.scanner.errors ++ s.scanner.violations } :=
  .scan (.lookAhead ((Scan.trivia_token_runs s.scanner).mono fun _ t ⟨d, l, ht, _⟩ => by
    rw [ht, Scanner.behind_rewind]))

theorem behindDot_runs (s : ParseState) : RunsTo behindDot s fun _ t =>
    t = { s with scanner.errors := s.scanner.errors ++ s.scanner.dotViolations } := by
  refine .scan (.lookAhead ?_)
  rw [← bind_assoc]
  refine (Scan.trivia_token_runs s.scanner).and_eq.bind (fun u ⟨⟨d, l, hu, _⟩, e, run⟩ => ?_)
    fun t u ⟨⟨d, l, hu, hl⟩, run⟩ => ?_
  · rw [hu, Scanner.behind_rewind, Scanner.dotViolations, run]
    simp only [List.append_nil]
  have violations : s.scanner.dotViolations = s.scanner.violations ++
    if t.isPunctuator .dot then u.violations else [] := by
    rw [Scanner.dotViolations, show (discard Scan.skipTrivia >>= fun _ => Scan.token) s.scanner = .ok t u from run]
  rw [violations]
  split
  next hdot =>
    -- The dot moves the scanner only, so what the second token opens or closes is undone from here too.
    have moved : u = s.scanner.movedTo d s.scanner.violations := by
      rw [hu, ← hl t rfl, Token.isPunctuator_iff.1 hdot]
      rfl
    have back {v : Scanner} {d : Cursor} {l : Lexeme} (hv : v = u.behind d l u.violations) :
        v.rewind s.scanner.bookmark =
        { s.scanner with errors := s.scanner.errors ++ (s.scanner.violations ++ u.violations) } := by
      rw [hv, moved, s.scanner.behind_movedTo, Scanner.behind_rewind]
    rw [← bind_assoc]
    exact (Scan.trivia_token_runs u).bind (fun v ⟨d, l, hv, _⟩ => by rw [back hv]) fun _ v ⟨d, l, hv, _⟩ =>
      .pure (by rw [back hv])
  next => exact .pure (by rw [hu, Scanner.behind_rewind, List.append_nil])

theorem checkJsx_runs (p : Punctuator) (s : ParseState) : RunsTo (checkJsx p) s fun _ t =>
    t = { s with scanner.errors := s.scanner.errors ++ s.scanner.tagViolations } := by
  refine .bind (Q := fun _ t => t = { s with scanner.errors := s.scanner.errors ++ s.scanner.tagViolations })
    ?_ (fun _ h => h) fun _ _ h => .pure h
  refine .scan (.lookAhead ((Scan.trivia_jsxToken_runs s.scanner).mono fun _ t ⟨d, l, ht⟩ => ?_))
  rw [ht, Scanner.behind_rewind]

theorem skipTrivia_runs (s : ParseState) : RunsTo skipTrivia s fun r t =>
    t.scanner = s.scanner.movedTo s.scanner.triviaAhead.cursor s.scanner.triviaViolations ∧
      (r = none → s.scanner.tolerant = false) :=
  (RunsTo.scanner (Scan.skipTrivia_runs s.scanner)).bind (fun _ h => ⟨h.1, fun _ => h.2 rfl⟩) fun _ _ h =>
    .modify (.pure ⟨h.1, nofun⟩)

/-- Consuming the lookahead records what the text behind it violates. -/
theorem next_runs (s : ParseState) :
    RunsTo next s fun _ t => t.scanner.errors = s.scanner.errors ++ s.scanner.violations := by
  have strict (h : s.scanner.tolerant = false) : s.scanner.violations = s.scanner.triviaViolations := by
    rw [Scanner.violations, s.scanner.tokenViolations_of_strict h, List.append_nil]
  refine .modify ((skipTrivia_runs _).bind (fun t ⟨ht, hs⟩ => ?_) fun _ t ⟨ht, _⟩ => .modify ?_)
  · rw [strict (hs rfl), ht]
    rfl
  · have read (u : ParseState) (hu : u.scanner = t.scanner) :
        RunsTo (scan Scan.token) u fun _ v => v.scanner.errors = s.scanner.errors ++ s.scanner.violations :=
      (RunsTo.scanner (Scan.token_records u.scanner)).mono fun _ v h => by
        rw [h.1, hu, ht, Scanner.violations, ← List.append_assoc]
        rfl
    refine (read _ (by split <;> rfl)).bind (fun _ h => h) fun _ _ h => .get (.modify (.pure ?_))
    exact h

/-- So does a token of a tag. -/
theorem nextJsx_runs (s : ParseState) :
    RunsTo nextJsx s fun _ t => t.scanner.errors = s.scanner.errors ++ s.scanner.tagViolations := by
  have strict (h : s.scanner.tolerant = false) : s.scanner.tagViolations = s.scanner.triviaViolations := by
    rw [Scanner.tagViolations, s.scanner.tokenViolations_of_strict h, ite_self, List.append_nil]
  refine (skipTrivia_runs s).bind (fun t ⟨ht, hs⟩ => ?_) fun _ t ⟨ht, _⟩ => .modify ?_
  · rw [strict (hs rfl), ht]
    rfl
  · have read (u : ParseState) (hu : u.scanner = t.scanner) :
        RunsTo (scan Scan.jsxToken) u fun _ v => v.scanner.errors = s.scanner.errors ++ s.scanner.tagViolations :=
      (RunsTo.scanner (Scan.jsxToken_runs u.scanner)).mono fun _ v ⟨d, l, hv⟩ => by
        rw [hv, hu, ht, s.scanner.behind_movedTo]
        rfl
    exact (read { t with start := t.scanner.cursor } rfl).bind (fun _ h => h) fun _ _ h => .modify (.pure h)

end Parse

/-- A regular expression opens and closes no region. -/
theorem Scan.regex_runs (s : Scanner) :
    RunsTo regex s fun _ t => t = { s with cursor := t.cursor, errors := t.errors } := by
  have passes (faults : List Fault) (t : Scanner) (ht : t = { s with cursor := t.cursor, errors := t.errors }) :
      RunsTo (faults.forM pass) t fun _ u => u = { s with cursor := u.cursor, errors := u.errors } := by
    induction faults generalizing t with
    | nil => exact .pure ht
    | cons fault faults ih =>
      refine (pass_runs fault t).bind (fun u h => ?_) fun _ u h => ih u ?_ <;>
      · rw [h.1, ht]
        rfl
  refine .get (.reading (fun read _ => ?_) fun fault _ => rfl)
  exact (passes read.faults s rfl).bind (fun _ h => h) fun _ t h => .modify (.pure (by rw [h]))

/-- An ordinary token is read from where a regular expression could not be. -/
theorem Tokenizer.scanEither_regex (second : Scan Token) (s : Scanner) : scanEither Scan.regex second s =
    match Scan.regex s with
    | .ok a t => .ok a t
    | .error _ t => second { s with errors := t.errors } := by
  have moved := Scan.regex_runs s
  unfold RunsTo at moved
  rw [scanEither]
  cases h : Scan.regex s with
  | ok a t => rfl
  | error e t =>
    rw [h] at moved
    exact congrArg second (Scanner.rewind_of_regionsBehind (l := .endOfInput) moved)

open Parse

/-- Lookahead comes back. Whatever a probe finds, and also if it stops at an error, the parse stands where it stood,
with the same open regions; and where a regular expression cannot be read, the tokenizer reads an ordinary token from
where it stood. All that may differ are the errors recorded in tolerant mode. -/
theorem probes_return (s : ParseState) (p : Punctuator) (t : Scanner) :
    (∃ errors, stateBehind (second s) = { s with scanner.errors := errors }) ∧
    (∃ errors, stateBehind (behindDot s) = { s with scanner.errors := errors }) ∧
    (∃ errors, stateBehind (checkJsx p s) = { s with scanner.errors := errors }) ∧
    Tokenizer.scanEither Scan.regex Scan.token t = match Scan.regex t with
      | .ok a u => .ok a u
      | .error _ u => Scan.token { t with errors := u.errors } :=
  ⟨⟨_, (second_runs s).behind⟩, ⟨_, (behindDot_runs s).behind⟩, ⟨_, (checkJsx_runs p s).behind⟩,
    Tokenizer.scanEither_regex Scan.token t⟩

/-- What a probe's text violates is recorded by the probe, and again by whoever reads that text afterwards. -/
theorem probes_record (s : ParseState) (p : Punctuator) :
    (stateBehind (second s)).scanner.errors = s.scanner.errors ++ s.scanner.violations ∧
    (stateBehind (behindDot s)).scanner.errors = s.scanner.errors ++ s.scanner.dotViolations ∧
    (stateBehind (checkJsx p s)).scanner.errors = s.scanner.errors ++ s.scanner.tagViolations ∧
    (stateBehind (next (stateBehind (second s)))).scanner.errors = s.scanner.errors ++ s.scanner.violations ++
      s.scanner.violations ∧
    (stateBehind (next (stateBehind (behindDot s)))).scanner.errors =
      s.scanner.errors ++ s.scanner.dotViolations ++ s.scanner.violations ∧
    (stateBehind (nextJsx (stateBehind (checkJsx p s)))).scanner.errors =
      s.scanner.errors ++ s.scanner.tagViolations ++ s.scanner.tagViolations := by
  have second := (second_runs s).behind
  have behindDot := (behindDot_runs s).behind
  have checkJsx := (checkJsx_runs p s).behind
  refine ⟨by rw [second], by rw [behindDot], by rw [checkJsx], ?_, ?_, ?_⟩
  · rw [second]
    exact (next_runs _).behind
  · rw [behindDot]
    exact (next_runs _).behind
  · rw [checkJsx]
    exact (nextJsx_runs _).behind

/-- A comment that is left open behind `let` is recorded twice. -/
theorem comment_recorded_twice : ∃ p e, parse "let /*" { tolerant := true } = .ok p ∧ p.errors = some [e, e] := by
  have h : ((parse "let /*" { tolerant := true }).toOption.any fun p =>
      p.errors == some [⟨6, 1, 7, .illegalToken⟩, ⟨6, 1, 7, .illegalToken⟩]) = true := by
    decide +kernel
  obtain ⟨p, hp, h⟩ := exists_ok_of_any h
  exact ⟨p, _, hp, by simpa using h⟩

end EcmaTree
