import Mathlib.Data.List.Forall2
import EcmaTree.Proofs.Plain.Program
import EcmaTree.Proofs.Spans
import EcmaTree.Proofs.Tokenizer.Lossless
import EcmaTree.Proofs.Recording.Found

/-!
# The tokenizer agrees with the parser

A parser drives the scanner token by token as a tokenizer does, but for a slash: there the grammar decides, and the
tokenizer guesses. Where no token begins with a slash, both read the same tokens. Along a parse there is a tokenizer
in step with it, on the same scanner, until a token is listed that begins with a slash; the probes of the parser come
back to where they began.
-/

namespace EcmaTree

open Cursor (Reaches)

/-! ## Tokens -/

/-- Does the text of the token begin with a slash? -/
def Token.beginsWithSlash (t : Token) : Bool := t.raw.toList.head? == some '/'

/-- What the parser lists and what the tokenizer finds are written alike, but that in strict code a reserved word is a
keyword for the parser. -/
structure TokenEntry.Agrees (listed found : TokenEntry) : Prop where
  value : listed.token.raw = found.token.raw
  range : listed.token.span = found.token.span
  start : listed.start = found.start
  stop : listed.stop = found.stop
  type : listed.token.lexeme.typeName = found.token.lexeme.typeName ∨
    ∃ word, isStrictReserved word = true ∧ listed.token.lexeme = .keyword word ∧ found.token.lexeme = .identifier word

/-- The token as the parser lists it. -/
def Token.inCode (strict : Bool) (t : Token) : Token := if strict then t.inStrictCode else t

theorem Token.inCode_agrees (strict : Bool) (t : Token) (start stop : Position) (p q : Placement) :
    TokenEntry.Agrees ⟨t.inCode strict, start, stop, p⟩ ⟨t, start, stop, q⟩ := by
  have same : TokenEntry.Agrees ⟨t, start, stop, p⟩ ⟨t, start, stop, q⟩ := ⟨rfl, rfl, rfl, rfl, .inl rfl⟩
  unfold inCode inStrictCode
  split
  · split
    next word hword =>
      split
      next hreserved => exact ⟨rfl, rfl, rfl, rfl, .inr ⟨word, hreserved, rfl, hword⟩⟩
      · exact same
    · exact same
  · exact same

variable {c d : Cursor} {t : Token} {rest : List Char}

theorem Lexed.inCode (h : Lexed c t d) (strict : Bool) : Lexed c (t.inCode strict) d := by
  unfold Token.inCode
  split
  · exact h.inStrictCode
  · exact h

theorem Lexed.beginsWithSlash (h : Lexed c t d) (hc : c.rest = '/' :: rest) : t.beginsWithSlash = true := by
  obtain ⟨cs, across⟩ := h.reaches
  have advances := h.advances (by rw [← Bool.not_eq_true, h.end_iff, hc]; exact nofun)
  have raw : t.raw = String.ofList cs := by
    rw [h.eq]
    exact across.textUntil
  cases cs with
  | nil => simp [across.offset] at advances
  | cons ch cs =>
    have first : ch = '/' := by simpa [hc] using (List.cons.inj (hc.symm.trans across.rest)).1.symm
    simp [Token.beginsWithSlash, raw, first]

/-- Trivia that takes no byte is none. -/
theorem Passed.eq_of_offset_eq {comments : List Comment} (h : Passed c comments d)
    (hoffset : d.offset = c.offset) : d = c := by
  cases h with
  | refl => rfl
  | @space _ e _ ch _ _ hc _ _ offset h =>
    have := h.reaches.offset_le
    have := ch.utf8Size_pos
    omega
  | comment _ offset _ _ h =>
    have := h.reaches.offset_le
    omega

/-! ## What a tokenizer gives back -/

namespace Tokenizer

variable {t u : Tokenizer} {items : List TokenItem} {item : TokenItem}

/-- The tokenizer gives back the items, and then it is the other one. -/
def Gives (t : Tokenizer) (items : List TokenItem) (u : Tokenizer) : Prop :=
  ∀ read bound, collect read (items.length + bound) t = collect (items.reverse ++ read) bound u

theorem Gives.nil (t : Tokenizer) : t.Gives [] t := fun _ _ => by simp

theorem Gives.concat {v : Tokenizer} (h : t.Gives items u) (hnext : u.next = .ok (some item) v) :
    t.Gives (items ++ [item]) v := by
  intro read bound
  rw [List.length_append, List.length_singleton, Nat.add_assoc, h, Nat.add_comm 1, collect, hnext]
  simp

/-- Behind the last item nothing comes. -/
theorem Gives.collect {v : Tokenizer} {bound : Nat} (h : t.Gives items u) (hnext : u.next = .ok none v)
    (hbound : items.length < bound) :
    collect [] bound t = (items, none, v) := by
  obtain ⟨more, rfl⟩ := Nat.exists_eq_add_of_lt hbound
  rw [Nat.add_assoc, h, Tokenizer.collect, hnext]
  simp

/-- A token with what is kept of its place. -/
def entry (t : Tokenizer) (token : Token) (start stop : Position) : TokenEntry :=
  ⟨token, start, stop, t.presentation.place token.range start stop⟩

/-- Without a slash ahead, the next item is the next token. -/
theorem next_token {token : Token} {s : Scanner} (hstrict : t.scanner.tolerant = false) (hwaiting : t.waiting = [])
    (hdone : t.done = false) (hkeeps : t.scanner.keepsComments = false)
    (hclosed : (Trivia.skip t.scanner.keepsComments (t.scanner.goal == .script) t.scanner.cursor).unclosed = false)
    (hrest : t.behindTrivia.scanner.cursor.rest ≠ []) (hslash : t.behindTrivia.scanner.cursor.startsWith '/' = false)
    (htoken : Scan.token t.behindTrivia.scanner = .ok token s) :
    t.next = .ok (some (.token (t.entry token t.behindTrivia.scanner.cursor.position s.cursor.position)))
      { t with scanner := s, history := t.history.push token } := by
  have hread : readToken t.history t.behindTrivia.scanner = .ok token s := by
    have run : readToken t.history t.behindTrivia.scanner = (if t.behindTrivia.scanner.cursor.startsWith '/' &&
      t.history.allowsRegex then
        scanEither Scan.regex Scan.token else Scan.token) t.behindTrivia.scanner := rfl
    rw [run, hslash, Bool.false_and]
    exact htoken
  have hfill : t.fill = .ok () (t.behindTrivia.behindToken token s) := by
    rw [fill_eq hstrict, hclosed, hread, if_neg nofun, if_neg (by simpa [Cursor.atEnd] using hrest)]
  have waits : (t.behindTrivia.behindToken token s).waiting =
      [.token (t.entry token t.behindTrivia.scanner.cursor.position s.cursor.position)] := by
    simp [behindToken, behindTrivia, hwaiting, hkeeps, tokenItem, entry]
  rw [next_of_fill (by simp [hwaiting, hdone]) hfill, give_of_cons waits]
  simp [behindToken, behindTrivia, hwaiting]

/-- At the end of the source there is no next item. -/
theorem next_end (hstrict : t.scanner.tolerant = false) (hwaiting : t.waiting = []) (hdone : t.done = false)
    (hkeeps : t.scanner.keepsComments = false)
    (hclosed : (Trivia.skip t.scanner.keepsComments (t.scanner.goal == .script) t.scanner.cursor).unclosed = false)
    (hrest : t.behindTrivia.scanner.cursor.rest = []) :
    t.next = .ok none { t.behindTrivia with done := true } := by
  have hfill : t.fill = .ok () { t.behindTrivia with done := true } := by
    rw [fill_eq hstrict, hclosed, if_neg nofun, if_pos (by simp [Cursor.atEnd, hrest])]
  rw [next_of_fill (by simp [hwaiting, hdone]) hfill, give_of_nil (by simp [behindTrivia, hwaiting, hkeeps])]

end Tokenizer

/-! ## Steps of the parser -/

namespace ParseState

variable {source : Cursor} {s s' : ParseState} {a : Token}

theorem skipTrivia_ensures (hs : s.scanner.tolerant = false) : Judgement.onSuccess.Ensures Parse.skipTrivia s fun _ t =>
    s.trivia.unclosed = false ∧
      t = { s with scanner := { s.scanner with cursor := s.trivia.cursor }, record := s.passing } := by
  refine Judgement.bind (P := fun comments t => s.trivia.unclosed = false ∧ comments = s.trivia.comments ∧
    t = { s with scanner := { s.scanner with cursor := s.trivia.cursor } }) (fun comments t h => ?_) ?_
  case' refine_2 =>
    rintro _ _ ⟨closed, rfl, rfl⟩
    exact .modifying (fun _ _ _ => rfl) ⟨closed, rfl⟩
  obtain ⟨u, hskip, rfl⟩ := Parse.scan_eq_ok.1 h
  rw [Scan.skipTrivia_eq hs] at hskip
  simp only at hskip
  split at hskip
  · cases hskip
  next hclosed =>
    cases hskip
    exact ⟨Bool.eq_false_iff.2 hclosed, rfl, rfl⟩

/-- A strict step scans the token behind the trivia. -/
theorem next_ensures (hs : s.scanner.tolerant = false) : Judgement.onSuccess.Ensures Parse.next s fun _ t =>
    s.trivia.unclosed = false ∧ ∃ read scanner newline last,
      Scan.token { s.scanner with cursor := s.trivia.cursor } = .ok read scanner ∧ t = { s with
        scanner
        lookahead := read.inCode s.context.strict
        newline
        start := s.nextStart
        last
        record := if (read.inCode s.context.strict).isEnd then s.passing
          else s.passing.list (read.inCode s.context.strict) s.nextStart scanner.cursor } := by
  refine Judgement.ofBind _ (.modifying (fun _ _ _ => rfl) (Judgement.bind (skipTrivia_ensures (by exact hs)) ?_))
  rintro _ _ ⟨closed, rfl⟩
  refine Judgement.ofBind _ (.setStart (Judgement.bind (fun _ _ => Parse.scan_eq_ok.1) ?_))
  rintro read _ ⟨scanner, hread, rfl⟩
  exact .get (fun _ => rfl) (Judgement.ofBind _ (.modifying (fun _ _ _ => rfl) (Judgement.ofPure _
    ⟨closed, read, scanner, _, _, hread, rfl⟩)))

/-- A token is listed that begins with a slash. -/
def ListsSlash (s : ParseState) : Prop := ∃ token ∈ Tokens.listed s, token.beginsWithSlash = true

/-- Where the scanner of a tokenizer in step stands. It keeps no comments. -/
inductive OnScanner (s : ParseState) (t : Tokenizer) : Prop
  /-- Both have read the same tokens. The next one begins behind the scanner. -/
  | same : t.scanner = s.scanner.keeping false →
      (s.start = s.scanner.cursor ∨ s.start.offset < s.scanner.cursor.offset) → s.OnScanner t
  /-- The parser has seen that no token is left. -/
  | ended : s.scanner.keeping false = t.behindTrivia.scanner → s.scanner.cursor.rest = [] →
      (Trivia.skip t.scanner.keepsComments (t.scanner.goal == .script) t.scanner.cursor).unclosed = false →
        s.OnScanner t

/-- The tokenizer has given back what the parser has listed. -/
structure InStep (s : ParseState) (begin t : Tokenizer) (found : List TokenEntry) : Prop where
  gives : begin.Gives (found.map .token) t
  waiting : t.waiting = []
  running : t.done = false
  tokensOnly : t.scanner.keepsComments = false
  presentation : t.presentation = begin.presentation
  agrees : List.Forall₂ (fun listed e => listed.Agrees e ∧
    e = begin.entry e.token e.start e.stop) s.record.tokens.toList found
  short : found.length ≤ s.scanner.cursor.offset
  scanner : s.OnScanner t

variable {begin t : Tokenizer} {found : List TokenEntry}

/-- Behind the trivia both stand at the same place. -/
theorem OnScanner.behindTrivia (h : s.OnScanner t) (closed : s.trivia.unclosed = false) :
    t.behindTrivia.scanner = { s.scanner with cursor := s.trivia.cursor }.keeping false ∧
      (Trivia.skip t.scanner.keepsComments (t.scanner.goal == .script) t.scanner.cursor).unclosed = false := by
  cases h with
  | same hsame =>
    have whole := Trivia.skip_keep s.scanner.keepsComments s.isScript s.scanner.cursor
    have bare := Trivia.skip_keep false s.isScript s.scanner.cursor
    have cursor : (Trivia.skip false s.isScript s.scanner.cursor).cursor = s.trivia.cursor :=
      (congrArg Trivia.cursor bare).trans (congrArg Trivia.cursor whole).symm
    have unclosed : (Trivia.skip false s.isScript s.scanner.cursor).unclosed = s.trivia.unclosed :=
      (congrArg Trivia.unclosed bare).trans (congrArg Trivia.unclosed whole).symm
    rw [Tokenizer.behindTrivia, hsame, ← cursor]
    exact ⟨rfl, unclosed.trans closed⟩
  | ended hsame hrest hclosed =>
    have still : s.trivia = ⟨[], s.scanner.cursor, false⟩ := Trivia.Still.skipFrom (hrest ▸ .nil)
    rw [still]
    exact ⟨hsame.symm, hclosed⟩

/-- The next token begins behind the trivia. -/
theorem OnScanner.nextStart_eq (hs : s.Complete) (h : s.OnScanner t) (hmore : s.trivia.cursor.rest ≠ []) :
    s.nextStart = s.trivia.cursor := by
  have passed := hs.passed
  cases h with
  | ended _ hrest =>
    have still : s.trivia = ⟨[], s.scanner.cursor, false⟩ := Trivia.Still.skipFrom (hrest ▸ .nil)
    rw [still] at hmore
    exact absurd hrest hmore
  | same _ hstart =>
    unfold nextStart
    split
    next hoffset =>
      rcases hstart with hstart | hstart
      · rw [hstart] at hoffset ⊢
        exact (passed.eq_of_offset_eq hoffset).symm
      · have : s.scanner.cursor.offset ≤ s.trivia.cursor.offset := passed.reaches.offset_le
        omega
    · rfl

/-- When the parser has seen the end of the source, the tokenizer finds nothing more. -/
theorem OnScanner.end (h : s.OnScanner t) (sited : s.Sited source) (hend : s.lookahead.isEnd = true) :
    t.behindTrivia.scanner.cursor.rest = [] ∧
      (Trivia.skip t.scanner.keepsComments (t.scanner.goal == .script) t.scanner.cursor).unclosed = false := by
  cases h with
  | ended hsame hrest hclosed => exact ⟨(congrArg (·.cursor.rest) hsame).symm.trans hrest, hclosed⟩
  | same hsame =>
    obtain ⟨cs, across⟩ := sited.lexed.reaches
    have hrest : s.scanner.cursor.rest = [] :=
      (List.append_eq_nil_iff.1 (across.rest.symm.trans (sited.lexed.end_iff.1 hend))).2
    have still : Trivia.skip t.scanner.keepsComments (t.scanner.goal == .script) t.scanner.cursor = ⟨[],
      s.scanner.cursor, false⟩ := by
      rw [hsame]
      exact Trivia.Still.skipFrom (hrest ▸ .nil)
    rw [Tokenizer.behindTrivia, still]
    exact ⟨hrest, rfl⟩

/-- The tokenizer reads what the parser reads, unless that begins with a slash. -/
theorem InStep.next (hc : s.Complete) (h : s.InStep begin t found) (hs : s.scanner.tolerant = false)
    (hnext : Parse.next s = .ok a s') : s'.ListsSlash ∨ ∃ t' found', s'.InStep begin t' found' := by
  obtain ⟨closed, read, scanner, newline, last, htoken, rfl⟩ := next_ensures hs a s' hnext
  obtain ⟨hbehind, hclosed⟩ := h.scanner.behindTrivia closed
  have lexed : Lexed s.trivia.cursor read scanner.cursor := Scan.token_lexed htoken
  have offset : s.scanner.cursor.offset ≤ s.trivia.cursor.offset := hc.passed.reaches.offset_le
  by_cases hend : s.trivia.cursor.rest = []
  · -- No token is left: the parser lists nothing, and the tokenizer waits.
    have ended : (read.inCode s.context.strict).isEnd = true := (lexed.inCode _).end_iff.2 hend
    have still : scanner = { s.scanner with cursor := s.trivia.cursor } := by
      rw [Scan.token_of_end hend] at htoken
      cases htoken
      rfl
    refine .inr ⟨t, found, h.gives, h.waiting, h.running, h.tokensOnly, h.presentation, ?_, ?_, .ended ?_ ?_ hclosed⟩
    · simpa only [ended, if_true, Complete.passing_tokens] using h.agrees
    · simpa only [still] using Nat.le_trans h.short offset
    · simpa only [still] using hbehind.symm
    · simpa only [still] using hend
  have more : (read.inCode s.context.strict).isEnd = false := by
    rw [← Bool.not_eq_true, (lexed.inCode _).end_iff]
    exact hend
  by_cases hslash : s.trivia.cursor.startsWith '/' = true
  · obtain ⟨rest, hrest⟩ := Cursor.rest_of_startsWith hslash
    refine .inl ⟨read.inCode s.context.strict, ?_, (lexed.inCode _).beginsWithSlash hrest⟩
    simp [Tokens.listed, more, hc.passing.list_tokens]
  · -- Both read the token.
    have hstart := h.scanner.nextStart_eq hc hend
    have deaf := Scan.Deaf.token { s.scanner with cursor := s.trivia.cursor } false
    rw [htoken] at deaf
    have strict : t.scanner.tolerant = false := (congrArg Scanner.tolerant hbehind).trans hs
    have hfound := Tokenizer.next_token strict h.waiting h.running h.tokensOnly hclosed (by rwa [hbehind])
      (by simpa [hbehind, Scanner.keeping] using hslash) (by rw [hbehind]; exact deaf)
    have advances : s.trivia.cursor.offset < scanner.cursor.offset := (lexed.inCode _).advances more
    refine .inr ⟨{ t with scanner := scanner.keeping false, history := t.history.push read },
      found ++ [t.entry read s.trivia.cursor.position scanner.cursor.position], ?_, h.waiting, h.running, rfl,
      h.presentation, ?_, ?_, .same rfl (.inr ?_)⟩
    · rw [List.map_append]
      rw [hbehind] at hfound
      exact h.gives.concat hfound
    · simp only [more, Bool.false_eq_true, if_false, hc.passing.list_tokens, Complete.passing_tokens, Array.toList_push]
      refine List.rel_append h.agrees (.cons ?_ .nil)
      rw [hstart, Tokenizer.entry, Tokenizer.entry, h.presentation]
      exact ⟨read.inCode_agrees .., rfl⟩
    · have := h.short
      simp only [List.length_append, List.length_singleton]
      omega
    · simpa only [hstart] using advances

theorem InStep.aside (h : s.InStep begin t found) : s.Aside s' → s'.InStep begin t found := by
  rintro ⟨_, _, _, _, _, _, rfl, hrecord⟩
  obtain ⟨-, htokens⟩ := Prod.mk.inj hrecord
  refine ⟨h.gives, h.waiting, h.running, h.tokensOnly, h.presentation, htokens ▸ h.agrees, h.short, ?_⟩
  cases h.scanner with
  | same hsame hstart => exact .same hsame hstart
  | ended hsame hrest hclosed => exact .ended hsame hrest hclosed

theorem ListsSlash.advances (hs : s.Complete) (h : s.ListsSlash) (hadvances : s.Advances s') : s'.ListsSlash := by
  obtain ⟨token, htoken, hslash⟩ := h
  exact ⟨token, Tokens.listed_advances hs hadvances ▸ List.mem_append_left _ htoken, hslash⟩

/-- Until a token is listed that begins with a slash, a tokenizer is in step with the parse. -/
structure Accompanied (source : Cursor) (begin : Tokenizer) (s : ParseState) : Prop where
  complete : s.Complete
  plain : s.Plain
  placed : s.Placed source .entering
  sited : s.lookahead.isEnd = false → s.Sited source
  inStep : s.ListsSlash ∨ ∃ t found, s.InStep begin t found

namespace Accompanied

theorem aside (h : s.Accompanied source begin) (hs : s.Aside s') : s'.Accompanied source begin := by
  refine ⟨?_, hs.plain h.plain, ?_, ?_, ?_⟩
  · obtain ⟨_, _, _, _, _, _, rfl, hrecord⟩ := hs
    exact h.complete.congr (Prod.mk.inj hrecord).1 rfl
  · obtain ⟨_, _, _, _, _, _, rfl, -⟩ := hs
    exact h.placed.congr rfl
  · obtain ⟨_, _, _, _, _, _, rfl, -⟩ := hs
    exact fun hmore => Placed.congr (m := .ahead) (h.sited hmore) rfl
  · rcases h.inStep with hslash | ⟨t, found, hstep⟩
    · obtain ⟨_, _, _, _, _, _, rfl, hrecord⟩ := hs
      obtain ⟨-, htokens⟩ := Prod.mk.inj hrecord
      exact .inl (by rwa [ListsSlash, Tokens.listed_eq htokens])
    · exact .inr ⟨t, found, hstep.aside hs⟩

theorem next (h : s.Accompanied source begin) (hnext : Parse.next s = .ok a s') : s'.Accompanied source begin := by
  have advances := (Judgement.Ensures.next (J := .onSuccess) a s' hnext).2
  have sited := advances.sited h.placed.start h.placed.cursor
  refine ⟨h.complete.advances advances, h.plain.next hnext, ⟨sited.reaches, sited.scanner⟩, fun _ => sited, ?_⟩
  rcases h.inStep with hslash | ⟨t, found, hstep⟩
  · exact .inl (hslash.advances h.complete advances)
  · exact hstep.next h.complete h.plain.scanner hnext

/-- A regular expression begins with a slash. -/
theorem regex (h : s.Accompanied source begin)
    (hslash : (s.lookahead.isPunctuator .slash || s.lookahead.isPunctuator .divAssign) = true)
    (hregex : Parse.regex s = .ok a s') :
    s'.Accompanied source begin := by
  have spelled : s.lookahead.lexeme = .punctuator .slash ∨ s.lookahead.lexeme = .punctuator .divAssign := by
    simpa [Token.isPunctuator_iff] using hslash
  have sited := h.sited (by rcases spelled with hl | hl <;> rw [Token.isEnd, hl])
  obtain ⟨rest, hrest⟩ : ∃ rest, s.start.rest = '/' :: rest := by
    rcases spelled with hl | hl
    · exact ⟨_, (sited.lexed.spelled hl).rest⟩
    · exact ⟨_, (sited.lexed.spelled hl).rest⟩
  obtain ⟨u, rescans, -, advances⟩ := Judgement.Ensures.regex (J := .onSuccess) sited hslash a s' hregex
  have sited' := rescans.sited sited
  have ahead := advances.sited sited'.reaches sited'.scanner
  have complete := h.complete.rescans rescans
  have lists : u.ListsSlash := by
    refine ⟨u.lookahead, Tokens.listed_rescans h.complete rescans ▸ List.mem_append_right _
      (List.mem_singleton_self _), ?_⟩
    obtain ⟨token, stop, _, _, lexed, _, _, rfl⟩ := rescans
    exact lexed.beginsWithSlash hrest
  exact ⟨complete.advances advances, h.plain.regex hregex, ⟨ahead.reaches, ahead.scanner⟩, fun _ => ahead,
    .inl (lists.advances complete advances)⟩

/-- What is true along a parse. -/
def invariant (source : Cursor) (begin : Tokenizer) : Parse.Invariant :=
  ⟨Accompanied source begin, Accompanied.plain, aside, next, regex⟩

end Accompanied

end ParseState

/-- A tokenizer in step with the parse of a whole source finds what the parse lists. -/
theorem ParseState.InStep.tokenize {source : String} {q : TokenizeOptions} {s : ParseState}
    {t : Tokenizer} {found : List TokenEntry}
    (h : s.InStep (.start source q) t found) (hs : s.scanner.tolerant = false) (hq : q.tolerant = false)
    (sited : s.Sited (.ofString source)) (hend : s.lookahead.isEnd = true) :
    tokenize source q = .ok ⟨found.map .token, none⟩ := by
  obtain ⟨hrest, hclosed⟩ := h.scanner.end sited hend
  have strict : t.scanner.tolerant = false := by
    cases h.scanner with
    | same hsame => rw [hsame]; exact hs
    | ended hsame => exact (congrArg Scanner.tolerant hsame).symm.trans hs
  have bound : (found.map TokenItem.token).length < source.utf8ByteSize + 1 := by
    have := h.short
    have := sited.scanner.offset_add_bytes
    simp only [List.length_map]
    omega
  have collected := h.gives.collect (Tokenizer.next_end strict h.waiting h.running h.tokensOnly hclosed hrest) bound
  rw [EcmaTree.tokenize, collected]
  simp [hq]

/-- The tokenizer agrees with the parser on a source where no token begins with a slash. If the same is asked for, the
same is given back of the places. -/
theorem tokenize_agrees {source : String} {o : ParseOptions} {p : Program} {listed : List TokenEntry}
    {q : TokenizeOptions}
    (hjsx : o.jsx = false) (hstrict : o.tolerant = false) (h : parseScript source o = .ok p)
    (htokens : p.tokens = some listed)
    (hslash : ∀ entry ∈ listed, entry.token.beginsWithSlash = false) (hcomment : q.comment = false)
    (hq : q.tolerant = false) :
    ∃ found, tokenize source q = .ok ⟨found.map .token, none⟩ ∧ List.Forall₂ TokenEntry.Agrees listed found ∧
      (q.range = o.range → q.loc = o.loc → listed.map (·.placement) = found.map (·.placement)) := by
  obtain ⟨root, s, hs, rfl⟩ := parse_eq_ok.1 h
  obtain rfl : s.record.tokens.toList.map o.relisted = listed := by
    have asked : wanted o.tokens (s.record.tokens.toList.map o.relisted) = some listed := htokens
    cases hasked : o.tokens <;> simp_all [wanted]
  let dialect : Dialect := { o.dialect with goal := .script }
  have begun : (ParseState.initial source dialect).Accompanied (.ofString source) (.start source q) := by
    refine ⟨⟨rfl, rfl⟩, ⟨hjsx, hstrict, hstrict⟩, ⟨.refl _, .refl _⟩, fun hmore => Bool.noConfusion hmore,
      .inr ⟨.start source q, [], .nil _, rfl, rfl, hcomment, rfl, .nil, Nat.le_refl _, .same ?_ (.inl rfl)⟩⟩
    rw [Tokenizer.start, hq, hcomment]
    exact congrArg (Scanner.start source · .script) hstrict.symm
  have along := (Parse.source_goes (ParseState.Accompanied.invariant (.ofString source) (.start source q)) begun hs).1
  obtain ⟨sited, hend⟩ := Spans.source_end hstrict hs
  rcases along.inStep with ⟨token, htoken, hbegins⟩ | ⟨t, found, hstep⟩
  · obtain ⟨entry, hentry, rfl⟩ := List.mem_map.1 htoken
    exact Bool.noConfusion ((hslash _ (List.mem_map_of_mem hentry)).symm.trans hbegins)
  · have agrees : List.Forall₂ TokenEntry.Agrees (s.record.tokens.toList.map o.relisted) found :=
      List.forall₂_map_left_iff.2 (hstep.agrees.imp fun _ _ h => ⟨h.1.value, h.1.range, h.1.start, h.1.stop, h.1.type⟩)
    refine ⟨found, hstep.tokenize along.plain.scanner hq sited hend, agrees, fun hrange hloc => ?_⟩
    have same : q.presentation = o.presentation.unnamed := by
      rw [TokenizeOptions.presentation, hrange, hloc]
      rfl
    rw [← List.forall₂_eq_eq_eq, List.forall₂_map_left_iff, List.forall₂_map_left_iff, List.forall₂_map_right_iff]
    refine hstep.agrees.imp fun entry e agrees => ?_
    obtain ⟨h, he⟩ := agrees
    have range : entry.token.range = e.token.range := congrArg Span.inWords h.range
    rw [he]
    change o.presentation.unnamed.place entry.token.range entry.start entry.stop =
      q.presentation.place e.token.range e.start e.stop
    rw [same, range, h.start, h.stop]

/-- Braces in a template, comments, and a word that is reserved in strict code. -/
theorem tokenize_agrees_strict : ∃ p listed found,
    parseScript "'use strict'; `a$\x7b\x7bb: c.static\x7d\x7d`; /* d */\n--> e"
        { tokens := true, range := true, loc := true } = .ok p ∧
      p.tokens = some listed ∧ (∀ entry ∈ listed, entry.token.beginsWithSlash = false) ∧
      tokenize "'use strict'; `a$\x7b\x7bb: c.static\x7d\x7d`; /* d */\n--> e" { range := true, loc := true } =
        .ok ⟨found.map .token, none⟩ ∧
      List.Forall₂ TokenEntry.Agrees listed found ∧ listed.map (·.placement) = found.map (·.placement) := by
  have h : ((parseScript "'use strict'; `a$\x7b\x7bb: c.static\x7d\x7d`; /* d */\n--> e"
      { tokens := true, range := true, loc := true }).toOption.any
      fun p => p.tokens.any fun listed => listed.all (!·.token.beginsWithSlash)) = true := by decide +kernel
  obtain ⟨p, hp, h⟩ := exists_ok_of_any h
  obtain ⟨listed, htokens, h⟩ := (Option.any_eq_true _ _).1 h
  have hslash : ∀ entry ∈ listed, entry.token.beginsWithSlash = false := by simpa using h
  obtain ⟨found, hfound, agrees, places⟩ :=
    tokenize_agrees (q := { range := true, loc := true }) rfl rfl hp htokens hslash rfl rfl
  exact ⟨p, listed, found, hp, htokens, hslash, hfound, agrees, places rfl rfl⟩

end EcmaTree
