import EcmaTree.Proofs.Recording.Complete

/-!
# What is recorded does not feed back

A parse reads what it is to record where it records it: when comments are scanned, when a token is listed, when a node
is finished. None of this leads it another way. To say so, a parse with any record is compared with the complete one:
at every point the two states differ in their records only, and the nodes in what is kept of their places. `Follows`
says so of an action and of the one that it is compared with; they are the same action, unless it is about nodes.
-/

namespace EcmaTree

/-! ## Scans that do not look at whether comments are kept -/

/-- The scanner, with comments kept or not. -/
def Scanner.keeping (s : Scanner) (keep : Bool) : Scanner := { s with keepsComments := keep }

namespace Scan

variable {α β : Type} {p : Scan α} {f : α → Scan β}

/-- The same, with comments kept or not. -/
def keepingResult (keep : Bool) : EStateM.Result SyntaxError Scanner α → EStateM.Result SyntaxError Scanner α
  | .ok a s => .ok a (s.keeping keep)
  | .error e s => .error e (s.keeping keep)

/-- Whether comments are kept leads to nothing else. -/
def Deaf (p : Scan α) : Prop := ∀ s keep, p (s.keeping keep) = keepingResult keep (p s)

namespace Deaf

theorem pure (a : α) : Deaf (Pure.pure a) := fun _ _ => rfl

theorem bind (hp : Deaf p) (hf : ∀ a, Deaf (f a)) : Deaf (p >>= f) := fun s keep => by
  simp only [Bind.bind, EStateM.bind]
  rw [hp s keep]
  cases p s with
  | ok a t => exact hf a t keep
  | error e t => rfl

theorem get {f : Scanner → Scan β} (hf : ∀ s keep, f (s.keeping keep) = f s) (h : ∀ s, Deaf (f s)) :
    Deaf (MonadState.get >>= f) := fun s keep => by
  have run (s : Scanner) : (MonadState.get >>= f) s = f s s := rfl
  rw [run, run, hf]
  exact h s s keep

theorem modifying {g : Scanner → Scanner} (hg : ∀ s keep, g (s.keeping keep) = (g s).keeping keep) :
    Deaf (modify g : Scan Unit) := fun s keep => congrArg (EStateM.Result.ok ()) (hg s keep)

theorem ite {c : Prop} [Decidable c] {p q : Scan α} (hp : Deaf p) (hq : Deaf q) : Deaf (if c then p else q) := by
  split
  · exact hp
  · exact hq

theorem throwing (e : SyntaxError) : Deaf (throw e : Scan α) := fun _ _ => rfl

theorem moveTo (c : Cursor) : Deaf (moveTo c) := modifying fun _ _ => rfl

theorem tolerate (e : SyntaxError) : Deaf (tolerate e) :=
  get (fun _ _ => rfl) fun _ => ite (modifying fun _ _ => rfl) (throwing e)

theorem fail (fault : Fault) : Deaf (fail fault : Scan α) := bind (moveTo _) fun _ => throwing _

theorem pass (fault : Fault) : Deaf (pass fault) := bind (moveTo _) fun _ => tolerate _

theorem ofReading (r : Except Fault α) : Deaf (ofReading r) := by
  cases r with
  | ok a => exact pure a
  | error fault => exact fail fault

theorem passes (faults : List Fault) : Deaf (faults.forM Scan.pass) := by
  induction faults with
  | nil => exact pure ()
  | cons fault faults ih => exact bind (pass fault) fun _ => ih

/-- A probe comes back to where it began, with comments kept as before. -/
theorem lookAhead (hp : Deaf p) : Deaf (lookAhead p) := fun s keep => by
  rw [Scan.lookAhead, hp s keep, Scan.lookAhead]
  cases p s <;> rfl

theorem word (c : Cursor) : Deaf (word c) := by
  refine bind (ofReading _) fun (characters, stop) => ?_
  have rest (lexeme : Lexeme) : Deaf (do Scan.moveTo stop; return tokenBetween c stop lexeme) :=
    bind (moveTo _) fun _ => pure _
  exact ite (bind (pass _) fun _ => rest _) (rest _)

theorem numeral (c : Cursor) : Deaf (numeral c) :=
  bind (ofReading _) fun (_, _) => bind (moveTo _) fun _ => pure _

theorem quoted (c : Cursor) : Deaf (quoted c) :=
  bind (ofReading _) fun (_, _) => bind (moveTo _) fun _ => pure _

theorem template (c : Cursor) : Deaf (template c) :=
  bind (ofReading _) fun (_, _, _) => bind (modifying fun _ _ => rfl) fun _ => pure _

theorem punctuator (c : Cursor) : Deaf (punctuator c) := by
  unfold Scan.punctuator
  split
  · exact fail _
  · exact bind (modifying fun _ _ => rfl) fun _ => pure _

theorem token : Deaf token := get (fun _ _ => rfl) fun s => by
  dsimp only
  split
  · exact pure _
  · exact ite (word _) (ite (quoted _) (ite (numeral _) (ite (template _) (punctuator _))))

theorem regex : Deaf regex := get (fun _ _ => rfl) fun _ =>
  bind (ofReading _) fun _ => bind (passes _) fun _ => bind (moveTo _) fun _ => pure _

theorem jsxTokenTo (stop : Cursor) (lexeme : Lexeme) : Deaf (jsxTokenTo stop lexeme) :=
  get (fun _ _ => rfl) fun _ => bind (moveTo _) fun _ => pure _

theorem jsxToken : Deaf jsxToken := get (fun _ _ => rfl) fun s => by
  dsimp only
  split
  · exact token
  next ch rest _ =>
    split
    · exact jsxTokenTo _ _
    · refine ite (jsxTokenTo _ _) (ite ?_ (ite (jsxTokenTo _ _) (ite (jsxTokenTo _ _) token)))
      split
      · exact jsxTokenTo _ _
      · exact jsxTokenTo _ _

theorem jsxText : Deaf jsxText := get (fun _ _ => rfl) fun _ => jsxTokenTo _ _

end Deaf

/-- What trivia does to the scanner. -/
def passTrivia (trivia : Trivia) : Scan Unit := do
  moveTo trivia.cursor
  if trivia.unclosed then pass (.illegal trivia.cursor)

theorem Deaf.passTrivia (trivia : Trivia) : Deaf (passTrivia trivia) :=
  bind (moveTo _) fun _ => ite (pass _) (pure _)

/-- All trivia at the scanner. -/
def trivia (s : Scanner) : Trivia := Trivia.skip true (s.goal == .script) s.cursor

/-- Whether comments are kept shows in what is given back, and nowhere else. -/
theorem skipTrivia_run (s : Scanner) : skipTrivia s =
    (passTrivia (trivia s) >>= fun _ => Pure.pure (if s.keepsComments then (trivia s).comments else [])) s := by
  let behind (found : Trivia) : Scan (List Comment) := do
    moveTo found.cursor
    if found.unclosed then pass (.illegal found.cursor)
    return found.comments
  have run : skipTrivia s = behind (Trivia.skip s.keepsComments (s.goal == .script) s.cursor) s := rfl
  rw [run, Trivia.skip_keep, ← trivia, passTrivia, bind_assoc]
  dsimp only [behind]
  split
  · rfl
  · rfl

/-- A probe does without the comments. -/
theorem Deaf.skipping {f : Unit → Scan β} (hf : Deaf (f ())) : Deaf (discard skipTrivia >>= f) := fun s keep => by
  have skip (s : Scanner) : (discard skipTrivia >>= f) s = (Scan.passTrivia (trivia s) >>= f) s := by
    simp only [discard, Functor.discard, Functor.mapConst, Bind.bind, EStateM.bind, EStateM.map, skipTrivia_run,
      Function.comp]
    cases Scan.passTrivia (trivia s) s <;> rfl
  rw [skip, skip]
  exact Deaf.bind (Deaf.passTrivia _) (fun _ => hf) s keep

end Scan

/-! ## Values that hold nodes -/

/-- Values that may hold nodes, and what they are when something else is known of these. -/
class Marked (α : Type) where
  marked : (NodeInfo → NodeInfo) → α → α

/-- Values that hold no nodes. -/
class Nodeless (α : Type) extends Marked α where
  marked_eq (g : NodeInfo → NodeInfo) (a : α) : marked g a = a

namespace Marked

variable {α β : Type}

instance : Marked Node := ⟨Node.mapInfo⟩

instance [Marked α] : Marked (Option α) where
  marked g
    | some a => some (marked g a)
    | none => none

instance [Marked α] : Marked (List α) := ⟨fun g => List.map (marked g)⟩

instance [Marked α] [Marked β] : Marked (α × β) := ⟨fun g a => (marked g a.1, marked g a.2)⟩

instance : Nodeless Unit := { marked := fun _ a => a, marked_eq := fun _ _ => rfl }

instance : Nodeless Bool := { marked := fun _ a => a, marked_eq := fun _ _ => rfl }

instance : Nodeless String := { marked := fun _ a => a, marked_eq := fun _ _ => rfl }

instance : Nodeless Token := { marked := fun _ a => a, marked_eq := fun _ _ => rfl }

instance : Nodeless Place := { marked := fun _ a => a, marked_eq := fun _ _ => rfl }

instance : Nodeless Cause := { marked := fun _ a => a, marked_eq := fun _ _ => rfl }

instance : Nodeless Context := { marked := fun _ a => a, marked_eq := fun _ _ => rfl }

instance : Nodeless VariableKind := { marked := fun _ a => a, marked_eq := fun _ _ => rfl }

instance [Nodeless α] : Nodeless (Option α) where
  marked_eq g
    | some a => congrArg some (Nodeless.marked_eq g a)
    | none => rfl

instance [Nodeless α] : Nodeless (List α) where
  marked_eq g a := by
    rw [show marked g a = a.map (marked g) from rfl, List.map_congr_left fun a _ => Nodeless.marked_eq g a,
      List.map_id']

instance [Nodeless α] [Nodeless β] : Nodeless (α × β) where
  marked_eq g a := by
    rw [show marked g a = (marked g a.1, marked g a.2) from rfl, Nodeless.marked_eq, Nodeless.marked_eq]

variable (g : NodeInfo → NodeInfo)

@[simp] theorem marked_node : (marked g : Node → Node) = Node.mapInfo g := rfl

@[simp] theorem marked_none [Marked α] : marked g (none : Option α) = none := rfl

@[simp] theorem marked_some [Marked α] (a : α) : marked g (some a) = some (marked g a) := rfl

@[simp] theorem marked_list [Marked α] (l : List α) : marked g l = l.map (marked g) := rfl

@[simp] theorem marked_pair [Marked α] [Marked β] (a : α) (b : β) : marked g (a, b) = (marked g a, marked g b) := rfl

@[simp] theorem marked_fst [Marked α] [Marked β] (a : α × β) : (marked g a).1 = marked g a.1 := rfl

@[simp] theorem marked_snd [Marked α] [Marked β] (a : α × β) : (marked g a).2 = marked g a.2 := rfl

@[simp high] theorem marked_nodeless [Nodeless α] (a : α) : marked g a = a := Nodeless.marked_eq g a

theorem map_fst [Marked α] [Marked β] (l : List (α × β)) : (marked g l).map Prod.fst = marked g (l.map Prod.fst) := by
  rw [marked_list, marked_list, List.map_map, List.map_map]
  rfl

theorem marked_option [Marked α] (x : Option α) : marked g x = x.map (marked g) := by
  cases x <;> rfl

end Marked

/-! ## States -/

namespace ParseState

/-- The state with another record at the same point. -/
def sharing (s : ParseState) (r : Record) : ParseState :=
  { s with scanner := s.scanner.keeping r.recording.comments, record := r.share s.record }

theorem Complete.sharing_listing {s : ParseState} (hs : s.Complete) (r : Record) (token : Token) :
    (s.sharing r).listing token = r.share (s.listing token) :=
  (r.share_list hs.record token s.start s.scanner.cursor).symm

end ParseState

namespace Parse

open Marked (marked)

variable {r : Record} {α β σ : Type} [Marked α] [Marked β] [Marked σ]

/-- The same outcome with another record. -/
inductive Mirrors (r : Record) : EStateM.Result Failure ParseState α → EStateM.Result Failure ParseState α → Prop
  | ok {s : ParseState} (a : α) (hs : s.Complete) : Mirrors r (.ok a s) (.ok (marked r.stamp a) (s.sharing r))
  | error {s : ParseState} (e : Failure) (hs : s.Complete) : Mirrors r (.error e s) (.error e (s.sharing r))

/-- With the record `r`, the second action goes the way that the first one goes with a complete record. -/
def Follows (r : Record) (p q : Parse α) : Prop := ∀ s, s.Complete → Mirrors r (p s) (q (s.sharing r))

namespace Follows

theorem pure (a : α) : Follows r (Pure.pure a) (Pure.pure (marked r.stamp a)) := fun _ hs => .ok a hs

theorem giving {a b : α} (h : b = marked r.stamp a) : Follows r (Pure.pure a) (Pure.pure b) := h ▸ pure a

theorem bind {p q : Parse α} {f f' : α → Parse β} (hp : Follows r p q)
    (hf : ∀ a, Follows r (f a) (f' (marked r.stamp a))) : Follows r (p >>= f) (q >>= f') := fun s hs => by
  have first := hp s hs
  simp only [Bind.bind, EStateM.bind]
  generalize p s = x, q (s.sharing r) = y at first
  cases first with
  | ok a ht => exact hf a _ ht
  | error e ht => exact .error e ht

/-- A part that gives back no nodes. -/
theorem step {γ : Type} [Nodeless γ] {p q : Parse γ} {f f' : γ → Parse β} (hp : Follows r p q)
    (hf : ∀ a, Follows r (f a) (f' a)) : Follows r (p >>= f) (q >>= f') :=
  bind hp fun a => (Nodeless.marked_eq r.stamp a).symm ▸ hf a

/-- A part that gives back no nodes besides `a`. -/
theorem bindPair {γ : Type} [Nodeless γ] {p q : Parse (α × γ)} {f f' : α × γ → Parse β} (hp : Follows r p q)
    (hf : ∀ a c, Follows r (f (a, c)) (f' (marked r.stamp a, c))) : Follows r (p >>= f) (q >>= f') :=
  bind hp fun (a, c) => by
    rw [Marked.marked_pair, Marked.marked_nodeless]
    exact hf a c

/-- Nothing with nodes in it is given back. -/
theorem same {γ : Type} [Nodeless γ] (a : γ) : Follows r (Pure.pure a) (Pure.pure a) :=
  giving (Nodeless.marked_eq r.stamp a).symm

theorem get {f f' : ParseState → Parse β} (h : ∀ s, Follows r (f s) (f' (s.sharing r))) :
    Follows r (MonadState.get >>= f) (MonadState.get >>= f') := fun s hs => h s s hs

theorem modifying {g g' : ParseState → ParseState}
    (h : ∀ s, s.Complete → (g s).Complete ∧ g' (s.sharing r) = (g s).sharing r) :
    Follows r (modify g : Parse Unit) (modify g') := fun s hs => by
  have run (g : ParseState → ParseState) (s : ParseState) : (modify g : Parse Unit) s = .ok () (g s) := rfl
  rw [run, run, (h s hs).2]
  exact .ok () (h s hs).1

theorem ite {c : Prop} [Decidable c] {p p' q q' : Parse α} (hp : Follows r p p') (hq : Follows r q q') :
    Follows r (if c then p else q) (if c then p' else q') := by
  split
  · exact hp
  · exact hq

section
variable {c : Prop} [Decidable c] {p p' : Parse Unit} {f f' : Unit → Parse α}

/-- A complaint that is made in some cases. -/
theorem guard (hp : Follows r p p') (hf : Follows r (f ()) (f' ())) :
    Follows r (if c then p >>= f else f ()) (if c then p' >>= f' else f' ()) := ite (step hp fun _ => hf) hf

theorem guardUnless (hp : Follows r p p') (hf : Follows r (f ()) (f' ())) :
    Follows r (if c then f () else p >>= f) (if c then f' () else p' >>= f') := ite hf (step hp fun _ => hf)

end

theorem throwing (e : Failure) : Follows r (throw e : Parse α) (throw e) := fun _ hs => .error e hs

theorem fail (e : SyntaxError) : Follows r (fail e : Parse α) (fail e) := throwing _

theorem failAt (t : Token) : Follows r (failAt t : Parse α) (failAt t) := get fun _ => fail _

theorem failWith (t : Token) (cause : Cause) : Follows r (failWith t cause : Parse α) (failWith t cause) :=
  get fun _ => fail _

theorem failAhead : Follows r (failAhead : Parse α) failAhead := get fun _ => failAt _

theorem failHere (cause : Cause) : Follows r (failHere cause : Parse α) (failHere cause) := get fun _ => fail _

/-! ### Scans -/

theorem skipTrivia_run (s : ParseState) :
    skipTrivia s = (Parse.scan (Scan.passTrivia (Scan.trivia s.scanner)) >>= fun _ =>
    modify fun t : ParseState => { t with
      record := t.record.pass (if s.scanner.keepsComments then (Scan.trivia s.scanner).comments else []) }) s := by
  simp only [skipTrivia, Bind.bind, EStateM.bind, Parse.scan, Scan.skipTrivia_run]
  cases Scan.passTrivia (Scan.trivia s.scanner) s.scanner <;> rfl

theorem scan {γ : Type} [Nodeless γ] {action : Scan γ} (h : Scan.Deaf action) :
    Follows r (scan action) (Parse.scan action) := fun s hs => by
  have other := h s.scanner r.recording.comments
  have same := h s.scanner true
  rw [show s.scanner.keeping true = s.scanner by rw [Scanner.keeping, ← hs.scanner]] at same
  rw [Parse.scan, Parse.scan, show (s.sharing r).scanner = s.scanner.keeping r.recording.comments from rfl, other]
  generalize action s.scanner = result at same
  cases result with
  | ok a after =>
    have keeps : after.keepsComments = true := by
      rw [Scan.keepingResult, EStateM.Result.ok.injEq] at same
      rw [same.2, Scanner.keeping]
    have := Mirrors.ok (r := r) (s := { s with scanner := after }) a ⟨hs.record, keeps⟩
    rwa [Nodeless.marked_eq] at this
  | error e after =>
    have keeps : after.keepsComments = true := by
      rw [Scan.keepingResult, EStateM.Result.error.injEq] at same
      rw [same.2, Scanner.keeping]
    exact Mirrors.error (s := { s with scanner := after }) (.syntaxError e) ⟨hs.record, keeps⟩

theorem tolerate (e : SyntaxError) : Follows r (tolerate e) (Parse.tolerate e) := scan (.tolerate e)

theorem tolerateAt (t : Token) : Follows r (tolerateAt t) (Parse.tolerateAt t) := get fun _ => tolerate _

theorem tolerateWith (t : Token) (cause : Cause) : Follows r (tolerateWith t cause) (Parse.tolerateWith t cause) :=
  get fun _ => tolerate _

theorem tolerateHere (cause : Cause) : Follows r (tolerateHere cause) (Parse.tolerateHere cause) :=
  get fun _ => tolerate _

/-- Comments are passed if they are scanned, and they are scanned if they are asked for. -/
theorem skipTrivia : Follows r skipTrivia Parse.skipTrivia := fun s hs => by
  have keeps : (s.sharing r).scanner.keepsComments = r.recording.comments := rfl
  have same : Scan.trivia (s.sharing r).scanner = Scan.trivia s.scanner := rfl
  rw [skipTrivia_run, skipTrivia_run, hs.scanner, if_pos rfl, keeps, same]
  refine step (scan (.passTrivia _)) (fun _ => modifying fun t ht => ?_) s hs
  refine ⟨⟨ht.record.pass _, ht.scanner⟩, ?_⟩
  simp only [ParseState.sharing, Record.share_pass r ht.record]

/-! ### Tokens -/

theorem ahead : Follows r ahead Parse.ahead := get fun s => pure s.lookahead

theorem check (p : Punctuator) : Follows r (check p) (Parse.check p) := get fun s => pure (s.lookahead.isPunctuator p)

theorem checkKeyword (word : String) : Follows r (checkKeyword word) (Parse.checkKeyword word) :=
  get fun s => pure (s.lookahead.isKeyword word)

theorem checkWord (word : String) : Follows r (checkWord word) (Parse.checkWord word) :=
  get fun s => pure (s.lookahead.isIdentifierNamed word)

theorem next : Follows r next Parse.next := by
  refine step (modifying fun s hs => ⟨⟨hs.record, hs.scanner⟩, rfl⟩) fun _ => step skipTrivia fun _ => ?_
  refine step (modifying fun s hs => ?_) fun _ => step (scan .token) fun read => get fun s => ?_
  · by_cases h : s.scanner.cursor.offset = s.start.offset
    · simp only [ParseState.sharing, Scanner.keeping, if_pos h]
      exact ⟨hs, if_pos h⟩
    · simp only [ParseState.sharing, Scanner.keeping, if_neg h]
      exact ⟨⟨hs.record, hs.scanner⟩, if_neg h⟩
  · refine step (modifying fun t ht => ?_) fun _ => pure s.lookahead
    rw [show (s.sharing r).context = s.context from rfl, show (s.sharing r).lookahead = s.lookahead from rfl]
    generalize (if s.context.strict then read.inStrictCode else read) = token
    by_cases hend : token.isEnd = true
    · simp only [if_pos hend]
      exact ⟨⟨ht.record, ht.scanner⟩, rfl⟩
    · simp only [if_neg hend]
      exact ⟨⟨ht.record.list _ _ _, ht.scanner⟩, by simp only [ht.sharing_listing r token]; rfl⟩

theorem skip : Follows r skip Parse.skip := by
  rw [skip_eq]
  exact step next fun _ => pure ()

theorem regex : Follows r regex Parse.regex := by
  refine step (modifying fun s hs => ⟨⟨hs.record, hs.scanner⟩, rfl⟩) fun _ => step skipTrivia fun _ => ?_
  refine step (scan .regex) fun token => step (modifying fun s hs => ?_) fun _ => step skip fun _ => pure token
  refine ⟨⟨hs.record.unlist.list _ _ _, hs.scanner⟩, ?_⟩
  simp only [ParseState.sharing, r.share_list hs.record.unlist, r.share_unlist hs.record]
  rfl

theorem second : Follows r second Parse.second := scan (.lookAhead (.skipping .token))

theorem expect (p : Punctuator) : Follows r (expect p) (Parse.expect p) :=
  step next fun _ => ite (pure ()) (failAt _)

theorem expectKeyword (word : String) : Follows r (expectKeyword word) (Parse.expectKeyword word) :=
  step next fun _ => ite (pure ()) (failAt _)

theorem accept (p : Punctuator) : Follows r (accept p) (Parse.accept p) :=
  step (check p) fun _ => ite (step skip fun _ => pure true) (pure false)

theorem passOver : Follows r passOver Parse.passOver := step next fun _ => tolerateAt _

theorem expectSeparator : Follows r expectSeparator Parse.expectSeparator :=
  get fun _ => ite (expect _) (ite skip (ite passOver (tolerateWith _ _)))

theorem endStatement : Follows r endStatement Parse.endStatement := get fun _ =>
  ite skip (ite (pure ()) (ite (modifying fun _ hs => ⟨⟨hs.record, hs.scanner⟩, rfl⟩) (failAt _)))

/-! ### Nodes, context and cover -/

theorem mark : Follows r mark Parse.mark := get fun s => pure s.start.place

/-- A node is finished. What is kept of its place is what the record asks for. -/
theorem finish (start : Place) (kind : Kind Node) :
    Follows r (finish start kind) (Parse.finish start (kind.map (Node.mapInfo r.stamp))) := fun s hs => by
  have node : Node.mk ((s.sharing r).finishedInfo start) (kind.map (Node.mapInfo r.stamp)) =
      (Node.mk (s.finishedInfo start) kind).mapInfo r.stamp := by
    rw [Node.mapInfo_mk]
    rfl
  have run (s : ParseState) (kind : Kind Node) : Parse.finish start kind s = .ok (.mk (s.finishedInfo start) kind)
    { s with
      finished := s.finished + 1
      record := s.record.report (.node (.mk (s.finishedInfo start) kind) ⟨start, s.last⟩) } := rfl
  rw [run, run, node]
  have same := r.share_node hs.record (.mk (s.finishedInfo start) kind) ⟨start, s.last⟩
  refine Eq.subst (motive := Mirrors r _) ?_ (Mirrors.ok (r := r) (s := { s with
    finished := s.finished + 1
    record := s.record.report (.node (.mk (s.finishedInfo start) kind) ⟨start, s.last⟩) })
    (Node.mk (s.finishedInfo start) kind) ⟨hs.record.report _, hs.scanner⟩)
  simp only [ParseState.sharing, same]
  rfl

/-- The nodes inside are what they are with the record. -/
theorem finishing (start : Place) {kind kind' : Kind Node} (h : kind' = kind.map (Node.mapInfo r.stamp)) :
    Follows r (Parse.finish start kind) (Parse.finish start kind') := h ▸ finish start kind

theorem context : Follows r context Parse.context := get fun s => pure s.context

theorem isStrict : Follows r isStrict Parse.isStrict := get fun s => pure s.context.strict

end Follows

end Parse

end EcmaTree

/-! ## Combinators -/

namespace EcmaTree.Parse

open Marked (marked)

variable {r : Record} {α σ : Type} [Marked α] [Marked σ]

instance : Marked (Progress σ) where
  marked g
    | .more x => .more (marked g x)
    | .done x => .done (marked g x)

@[simp] theorem marked_more (g : NodeInfo → NodeInfo) (x : σ) : marked g (Progress.more x) = .more (marked g x) := rfl

@[simp] theorem marked_done (g : NodeInfo → NodeInfo) (x : σ) : marked g (Progress.done x) = .done (marked g x) := rfl

namespace Follows

/-! ## Context and cover -/

theorem modifyContext (change : Context → Context) :
    Follows r (modify fun s => { s with context := change s.context } : Parse Unit)
      (modify fun s => { s with context := change s.context }) :=
  modifying fun _ hs => ⟨⟨hs.record, hs.scanner⟩, rfl⟩

theorem modifyLabels (change : List String → List String) :
    Follows r (modify fun s => { s with labels := change s.labels } : Parse Unit)
      (modify fun s => { s with labels := change s.labels }) :=
  modifying fun _ hs => ⟨⟨hs.record, hs.scanner⟩, rfl⟩

theorem modifyCover (change : Cover → Cover) : Follows r (modifyCover change) (Parse.modifyCover change) :=
  modifying fun _ hs => ⟨⟨hs.record, hs.scanner⟩, rfl⟩

theorem nonPattern : Follows r nonPattern Parse.nonPattern := modifyCover _

section
variable {p q : Parse α}

theorem withContext {change : Context → Context} (h : Follows r p q) :
    Follows r (withContext change p) (Parse.withContext change q) :=
  get fun s => step (modifyContext fun _ => change s.context) fun _ =>
    bind h fun a => step (modifyContext fun _ => s.context) fun _ => pure a

theorem isolate (h : Follows r p q) : Follows r (isolate p) (Parse.isolate q) := by
  refine get fun s => step (modifyCover _) fun _ => bind h fun a => get fun t => ?_
  have rest : Follows r (Parse.modifyCover (fun _ => s.cover) >>= fun _ => Pure.pure a)
      (Parse.modifyCover (fun _ => s.cover) >>= fun _ => Pure.pure (marked r.stamp a)) :=
    step (modifyCover _) fun _ => pure a
  rw [show (t.sharing r).cover = t.cover from rfl]
  cases t.cover.pending with
  | some pending => exact step (failAt pending) fun _ => rest
  | none => exact rest

theorem inherit (h : Follows r p q) : Follows r (inherit p) (Parse.inherit q) :=
  get fun _ => step (modifyCover _) fun _ => bind h fun a => step (modifyCover _) fun _ => pure a

end

/-! ## Parts that may be missing -/

section
variable {β : Type} [Marked β] {c : Prop} [Decidable c] {p p' : Parse α} {f f' : Option α → Parse β}

theorem optional (hp : Follows r p p') (hf : ∀ x, Follows r (f x) (f' (marked r.stamp x))) :
    Follows r (if c then p >>= fun a => Pure.pure (some a) >>= f else Pure.pure none >>= f)
      (if c then p' >>= fun a => Pure.pure (some a) >>= f' else Pure.pure none >>= f') :=
  ite (bind hp fun a => hf (some a)) (hf none)

theorem optionalUnless (hp : Follows r p p') (hf : ∀ x, Follows r (f x) (f' (marked r.stamp x))) :
    Follows r (if c then Pure.pure none >>= f else p >>= fun a => Pure.pure (some a) >>= f)
      (if c then Pure.pure none >>= f' else p' >>= fun a => Pure.pure (some a) >>= f') :=
  ite (hf none) (bind hp fun a => hf (some a))

end

/-! ## Repetition -/

section
variable {step step' : σ → Parse (Progress σ)} (h : ∀ x, Follows r (step x) (step' (marked r.stamp x)))
include h

theorem iterate : ∀ bound x, Follows r (iterate step bound x) (Parse.iterate step' bound (marked r.stamp x))
  | 0, _ => throwing .exhausted
  | bound + 1, x => bind (h x) fun
    | .more y => iterate bound y
    | .done y => pure y

theorem loop (x : σ) : Follows r (loop x step) (Parse.loop (marked r.stamp x) step') :=
  get fun s => iterate h s.bound x

end

theorem mapM {τ : Type} [Marked τ] {f f' : τ → Parse α} (h : ∀ a, Follows r (f a) (f' (marked r.stamp a))) :
    ∀ as : List τ, Follows r (as.mapM f) ((marked r.stamp as).mapM f')
  | [] => pure []
  | a :: as => by
    rw [List.mapM_cons, Marked.marked_list, List.map_cons, List.mapM_cons]
    exact bind (h a) fun b => bind (mapM h as) fun bs => pure (b :: bs)

theorem manyBefore {stop : Parse Bool} {item : Parse α} (hstop : Follows r stop stop) (hitem : Follows r item item) :
    Follows r (manyBefore stop item) (Parse.manyBefore stop item) := by
  refine bind (loop (fun items => step hstop fun _ => ?_) []) fun items => ?_
  · exact ite (pure _) (bind hitem fun _ => pure _)
  · exact giving (by simp)

theorem itemsBefore {item : Parse α} (p : Punctuator) (hitem : Follows r item item) :
    Follows r (itemsBefore p item) (Parse.itemsBefore p item) := manyBefore (check p) hitem

theorem commaSeparated {item : Parse α} (hitem : Follows r item item) :
    Follows r (commaSeparated item) (Parse.commaSeparated item) := by
  refine bind hitem fun first => bind (loop (fun items => step (accept _) fun _ => ?_) []) fun others => ?_
  · exact ite (bind hitem fun _ => pure _) (pure _)
  · exact giving (by simp)

end Follows

end EcmaTree.Parse
