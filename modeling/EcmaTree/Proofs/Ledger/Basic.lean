import EcmaTree.Proofs.Grammar.Program
import EcmaTree.Proofs.Success
import EcmaTree.Proofs.Ledger.Accounts

/-!
# Ledgers

A `Ledger` is an invariant of parses, with what it says of the tokens that have been read and of the errors that are
reported, closed under everything that the productions do to the state. The modules below `EcmaTree.Proofs.Ledger` prove
once, for every ledger, that each production keeps the invariant, reports only such errors, and uses every node that it
has read once.
-/

namespace EcmaTree

/-! ## Tokens of values -/

/-- The tokens that a value holds, and that an error may point to. -/
class HasTokens (α : Type) where
  tokens : α → List Token

export HasTokens (tokens)

namespace HasTokens

instance : HasTokens Token := ⟨fun t => [t]⟩

instance : HasTokens Node := ⟨fun _ => []⟩

instance : HasTokens Unit := ⟨fun _ => []⟩

instance : HasTokens Bool := ⟨fun _ => []⟩

instance : HasTokens String := ⟨fun _ => []⟩

instance : HasTokens Cause := ⟨fun _ => []⟩

instance : HasTokens VariableKind := ⟨fun _ => []⟩

instance {α : Type} [HasTokens α] : HasTokens (List α) := ⟨fun as => as.flatMap tokens⟩

instance {α : Type} [HasTokens α] : HasTokens (Option α) := ⟨fun a => a.toList.flatMap tokens⟩

instance {α β : Type} [HasTokens α] [HasTokens β] : HasTokens (α × β) := ⟨fun p => tokens p.1 ++ tokens p.2⟩

instance {σ : Type} [HasTokens σ] : HasTokens (Parse.Progress σ) :=
  ⟨fun | .more state | .done state => tokens state⟩

variable {α β : Type} [HasTokens α] [HasTokens β]

/-- Values of the type hold no tokens. -/
class Mute (α : Type) [HasTokens α] : Prop where
  tokens_eq : ∀ a : α, tokens a = []

instance : Mute Node := ⟨fun _ => rfl⟩

instance : Mute Unit := ⟨fun _ => rfl⟩

instance : Mute Bool := ⟨fun _ => rfl⟩

instance : Mute String := ⟨fun _ => rfl⟩

instance : Mute Cause := ⟨fun _ => rfl⟩

instance : Mute VariableKind := ⟨fun _ => rfl⟩

instance [Mute α] : Mute (Option α) := ⟨fun a => by simp [tokens, Mute.tokens_eq]⟩

instance [Mute α] : Mute (List α) := ⟨fun as => by simp [tokens, Mute.tokens_eq]⟩

instance [Mute α] [Mute β] : Mute (α × β) := ⟨fun p => by simp [tokens, Mute.tokens_eq]⟩

@[simp] theorem tokens_mute [Mute α] (a : α) : tokens a = [] := Mute.tokens_eq a

@[simp] theorem tokens_token (t : Token) : tokens t = [t] := rfl

@[simp] theorem tokens_nil : tokens ([] : List α) = [] := rfl

@[simp] theorem tokens_cons (a : α) (as : List α) : tokens (a :: as) = tokens a ++ tokens as := rfl

@[simp] theorem mem_tokens_reverse {t : Token} (as : List α) : t ∈ tokens as.reverse ↔ t ∈ tokens as := by simp [tokens]

@[simp] theorem tokens_none : tokens (none : Option α) = [] := rfl

@[simp] theorem tokens_some (a : α) : tokens (some a) = tokens a := by simp [tokens]

@[simp] theorem tokens_pair (a : α) (b : β) : tokens (a, b) = tokens a ++ tokens b := rfl

@[simp] theorem tokens_list (ts : List Token) : tokens ts = ts := by
  induction ts with
  | nil => rfl
  | cons t ts ih => simp [ih]

/-- The names that are bound by the items of a list. -/
theorem tokens_names [Mute α] (items : List (α × List Token)) : items.flatMap (·.2) = tokens items := by
  induction items with
  | nil => rfl
  | cons item items ih =>
    obtain ⟨a, ts⟩ := item
    simp [ih]

end HasTokens

namespace HasNodes

variable {α : Type} [HasNodes α]

@[simp] theorem weigh_nodes_reverse (f : Node → Nat) (as : List α) :
    weigh f (nodes as.reverse) = weigh f (nodes as) := by
  induction as with
  | nil => rfl
  | cons a as ih => simp [ih, Nat.add_comm]

end HasNodes

/-! ## Runs -/

namespace Parse

variable {α β : Type} {Reports : SyntaxError → Prop} {s : ParseState} {Q : α → ParseState → Prop}

/-- Whatever `p`, started in `s`, gives back satisfies `Q` together with the state behind it, and an error at which it
stops is one that is reported. -/
def Safe (Reports : SyntaxError → Prop) (p : Parse α) (s : ParseState) (Q : α → ParseState → Prop) : Prop :=
  match p s with
  | .ok a t => Q a t
  | .error (.syntaxError e) _ => Reports e
  | .error .exhausted _ => True

namespace Safe

theorem pure {a : α} (h : Q a s) : Safe Reports (pure a) s Q := h

theorem bind {p : Parse α} {f : α → Parse β} {Q : β → ParseState → Prop}
    (h : Safe Reports p s fun a t => Safe Reports (f a) t Q) : Safe Reports (p >>= f) s Q := by
  simp only [Safe] at h ⊢
  cases hp : p s with
  | ok a t =>
    rw [hp] at h
    rw [bind_of_ok hp]
    exact h
  | error e t =>
    rw [hp] at h
    rw [bind_of_error hp]
    cases e <;> exact h

theorem mono {p : Parse α} {R : α → ParseState → Prop} (h : Safe Reports p s Q) (hr : ∀ a t, Q a t → R a t) :
    Safe Reports p s R := by
  simp only [Safe] at h ⊢
  split at h
  · exact hr _ _ h
  · exact h
  · trivial

theorem and {p : Parse α} {R : α → ParseState → Prop} (h : Safe Reports p s Q)
    (hr : ∀ a t, p s = .ok a t → R a t) : Safe Reports p s fun a t => Q a t ∧ R a t := by
  simp only [Safe] at h ⊢
  split at h
  next hp => exact ⟨h, hr _ _ hp⟩
  · exact h
  · trivial

theorem get {f : ParseState → Parse α} (h : Safe Reports (f s) s Q) : Safe Reports (get >>= f) s Q := h

theorem modify {f : ParseState → ParseState} {Q : Unit → ParseState → Prop} (h : Q () (f s)) :
    Safe Reports (modify f) s Q := h

theorem fail {e : SyntaxError} (h : Reports e) : Safe Reports (fail e) s Q := h

/-- An error is recorded, or stops the parse. -/
theorem tolerate {e : SyntaxError} {Q : Unit → ParseState → Prop} (he : Reports e)
    (h : Q () { s with scanner.errors := s.scanner.errors ++ [e] }) : Safe Reports (tolerate e) s Q := by
  unfold Safe
  rw [tolerate_eq]
  by_cases ht : s.scanner.tolerant = true
  · rw [if_pos ht]
    exact h
  · rw [if_neg ht]
    exact he

theorem exhausted : Safe Reports (throw .exhausted) s Q := trivial

theorem ite {c : Prop} [Decidable c] {p q : Parse α} (hp : c → Safe Reports p s Q) (hq : ¬ c → Safe Reports q s Q) :
    Safe Reports (if c then p else q) s Q := by
  split
  · exact hp ‹_›
  · exact hq ‹_›

/-- A value that is given back to the rest of a block. -/
theorem value {a : β} {f : β → Parse α} (h : Safe Reports (f a) s Q) : Safe Reports (Pure.pure a >>= f) s Q := h

theorem ahead {f : Token → Parse α} (h : Safe Reports (f s.lookahead) s Q) : Safe Reports (ahead >>= f) s Q := h

theorem check {p : Punctuator} {f : Bool → Parse α} (h : Safe Reports (f (s.lookahead.isPunctuator p)) s Q) :
    Safe Reports (check p >>= f) s Q := h

theorem checkKeyword {word : String} {f : Bool → Parse α} (h : Safe Reports (f (s.lookahead.isKeyword word)) s Q) :
    Safe Reports (checkKeyword word >>= f) s Q := h

theorem checkWord {word : String} {f : Bool → Parse α} (h : Safe Reports (f (s.lookahead.isIdentifierNamed word)) s Q) :
    Safe Reports (checkWord word >>= f) s Q := h

theorem mark {f : Place → Parse α} (h : Safe Reports (f s.start.place) s Q) : Safe Reports (mark >>= f) s Q := h

theorem scannerPlace {f : Place → Parse α} (h : Safe Reports (f s.scanner.cursor.place) s Q) :
    Safe Reports (scannerPlace >>= f) s Q := h

theorem context {f : Context → Parse α} (h : Safe Reports (f s.context) s Q) : Safe Reports (context >>= f) s Q := h

theorem isStrict {f : Bool → Parse α} (h : Safe Reports (f s.context.strict) s Q) :
    Safe Reports (isStrict >>= f) s Q := h

end Safe

/-! ## Actions that finish no node -/

/-- The action finishes no node and leaves the cover as it is. -/
def Barren (p : Parse α) : Prop := ∀ s a t, p s = .ok a t → s.Still t ∧ t.cover = s.cover

namespace Barren

theorem pure (a : α) : Barren (pure a) := by
  rintro s _ _ ⟨⟩
  exact ⟨.refl s, rfl⟩

theorem bind {p : Parse α} {f : α → Parse β} (hp : Barren p) (hf : ∀ a, Barren (f a)) : Barren (p >>= f) := by
  intro s b u h
  obtain ⟨a, t, ha, hb⟩ := bind_eq_ok.1 h
  obtain ⟨still, cover⟩ := hp s a t ha
  obtain ⟨still', cover'⟩ := hf a t b u hb
  exact ⟨still.trans still', cover'.trans cover⟩

theorem get {f : ParseState → Parse α} (h : ∀ s, Barren (f s)) : Barren (get >>= f) := fun s => h s s

theorem modify {f : ParseState → ParseState} (h : ∀ s, s.Still (f s) ∧ (f s).cover = s.cover) : Barren (modify f) := by
  rintro s _ _ ⟨⟩
  exact h s

theorem scan (action : Scan α) : Barren (scan action) := by
  intro s a t h
  rw [Parse.scan] at h
  split at h <;> cases h
  exact ⟨.of_record rfl rfl, rfl⟩

theorem skipTrivia : Barren skipTrivia := by
  exact .bind (.scan _) fun comments => .modify fun s => ⟨.pass s comments, rfl⟩

theorem next : Barren next := by
  refine .bind (.modify fun _ => ⟨.of_record rfl rfl, rfl⟩) fun _ => .bind .skipTrivia fun _ =>
    .bind (.modify fun s => ?_) fun _ => ?_
  · split <;> exact ⟨.of_record rfl rfl, rfl⟩
  · exact .bind (.scan _) fun read => .get fun _ =>
      .bind (.modify fun s => ⟨(ParseState.Still.listUnless s _).trans (.of_record rfl rfl), rfl⟩) fun _ => .pure _

theorem skip : Barren skip := by
  rw [skip_eq]
  exact .bind .next fun _ => .pure _

theorem regex : Barren regex :=
  .bind (.modify fun _ => ⟨.of_record rfl rfl, rfl⟩) fun _ => .bind .skipTrivia fun _ => .bind (.scan _) fun _ =>
    .bind (.modify fun s => ⟨((ParseState.Still.unlist s).trans (.list _ _ _ _)).trans (.of_record rfl rfl), rfl⟩)
      fun _ => .bind .skip fun _ => .pure _

theorem nextJsx : Barren nextJsx :=
  .bind .skipTrivia fun _ => .bind (.modify fun _ => ⟨.of_record rfl rfl, rfl⟩) fun _ => .bind (.scan _) fun _ =>
    .bind (.modify fun s => ⟨(ParseState.Still.list s _ _ _).trans (.of_record rfl rfl), rfl⟩) fun _ => .pure _

theorem nextJsxText : Barren nextJsxText :=
  .bind (.modify fun _ => ⟨.of_record rfl rfl, rfl⟩) fun _ => .bind (.scan _) fun _ =>
    .bind (.modify fun s => ⟨(ParseState.Still.listIf s _).trans (.of_record rfl rfl), rfl⟩) fun _ => .pure _

theorem checkJsx (p : Punctuator) : Barren (checkJsx p) := .bind (.scan _) fun _ => .pure _

end Barren

end Parse

/-! ## Ledgers -/

open Parse in
/-- An invariant of parses that all productions keep. -/
structure Ledger where
  /-- A parse may stand in the state, with a token ahead or inside of an element of JSX. -/
  Stands : Mode → ParseState → Prop
  /-- The token has been read. -/
  Seen : Token → Prop
  /-- The error is one that is reported. -/
  Reports : SyntaxError → Prop

  -- What productions do to the state.
  stands_of_same {m : Mode} {s t : ParseState} : Stands m s → t.start = s.start → t.lookahead = s.lookahead →
    t.last = s.last → t.scanner = s.scanner → Stands m t
  stands_record {m : Mode} {s : ParseState} {e : SyntaxError} : Stands m s → Reports e →
    Stands m { s with scanner.errors := s.scanner.errors ++ [e] }
  stands_trail {s : ParseState} : Stands .ahead s → Stands .ahead { s with last := s.start.place }
  stands_pass {m : Mode} {s : ParseState} : Stands m s → Stands m { s with last := s.scanner.cursor.place }
  stands_enter {s : ParseState} : Stands .ahead s → Stands .inside { s with scanner.cursor := s.start }
  stands_leave {s : ParseState} : Stands .inside s →
    Stands .inside { s with scanner.regions := .braces :: s.scanner.regions }

  -- Errors.
  seen_ahead {s : ParseState} : Stands .ahead s → Seen s.lookahead
  reports_at {m : Mode} {s : ParseState} {t : Token} (cause : Cause) : Stands m s → Seen t → Reports (s.errorAt t cause)
  reports_here {m : Mode} {s : ParseState} (cause : Cause) : Stands m s → Reports (s.errorHere cause)
  reports_onLine {m : Mode} {s : ParseState} (cause : Cause) : Stands m s → Reports (s.errorOnScannerLine cause)

  -- What reads the source.
  ofNext {m : Mode} {s : ParseState} : Stands m s → Safe Reports next s fun c t => c = s.lookahead ∧ Stands .ahead t
  ofRegex {s : ParseState} : Stands .ahead s →
    (s.lookahead.isPunctuator .slash || s.lookahead.isPunctuator .divAssign) = true →
    Safe Reports regex s fun _ t => Stands .ahead t
  ofSecond {s : ParseState} : Stands .ahead s → Safe Reports second s fun c t => Seen c ∧ Stands .ahead t
  ofBehindDot {s : ParseState} : Stands .ahead s →
    Safe Reports behindDot s fun c t => (∀ t, c = some t → Seen t) ∧ Stands .ahead t
  ofSkipTrivia {s : ParseState} : Stands .inside s → Safe Reports skipTrivia s fun _ t => Stands .inside t
  ofNextJsx {s : ParseState} : Stands .inside s → Safe Reports nextJsx s fun c t => Seen c ∧ Stands .inside t
  ofNextJsxText {s : ParseState} : Stands .inside s → Safe Reports nextJsxText s fun c t => Seen c ∧ Stands .inside t
  ofCheckJsx {s : ParseState} (p : Punctuator) : Stands .inside s → Safe Reports (checkJsx p) s fun _ t =>
    Stands .inside t

namespace Ledger

open Parse

variable {L : Ledger} {m o : Mode} {base s t : ParseState} {ns : List Node} {α β σ : Type}

/-- What an error of the ledger may point to: every token that the value holds has been read. -/
def Fine (L : Ledger) [HasTokens α] (a : α) : Prop := ∀ t ∈ tokens a, L.Seen t

/-- What is known in the midst of a production that began at `base`: where the parse stands, and that the nodes read so
far are in the accounts. -/
structure Held (L : Ledger) (m : Mode) (base : ParseState) (ns : List Node) (s : ParseState) : Prop
    extends Accounts base ns s where
  stands : L.Stands m s
  pending {t : Token} : s.cover.pending = some t → L.Seen t

/-- What a production gives back is in the accounts, beside the nodes `l`. -/
def Gives (L : Ledger) [HasNodes α] [HasTokens α] (m : Mode) (base : ParseState)
    (l : List Node) (a : α) (s : ParseState) :
    Prop := L.Held m base (nodes a ++ l) s ∧ L.Fine a

/-- The run keeps the invariant of the ledger. -/
abbrev Safe (L : Ledger) (p : Parse α) (s : ParseState) (Q : α → ParseState → Prop) : Prop := Parse.Safe L.Reports p s Q

/-- The production leads from one way to stand to another, and uses every node that it has read once. -/
def Leads (L : Ledger) [HasNodes α] [HasTokens α] (m o : Mode) (p : Parse α) : Prop :=
  ∀ s, L.Held m s [] s → L.Safe p s (L.Gives o s [])

/-- The production has a token ahead before and behind it. -/
abbrev Reads (L : Ledger) [HasNodes α] [HasTokens α] (p : Parse α) : Prop := L.Leads .ahead .ahead p

end Ledger

end EcmaTree
