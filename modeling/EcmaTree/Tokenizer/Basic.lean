import EcmaTree.Lexer.Scanner
import EcmaTree.Tokenizer.History

/-!
# Tokenizing

A tokenizer gives back the tokens of a source one by one, and its comments if they are wanted, without parsing
it. It may be asked again after an error: then it goes on from where reading stopped. `tokenize` asks for
everything, up to the first error.
-/

namespace EcmaTree

/-- What a tokenizer gives back (`TokenItem`). -/
inductive TokenItem where
  | token (entry : TokenEntry)
  | comment (comment : Comment)
  deriving Inhabited

/-- The state of tokenizing (`Tokenizer`). -/
structure Tokenizer where
  scanner : Scanner
  /-- What has been read but not given back yet. -/
  waiting : List TokenItem
  history : History
  /-- Is there nothing more to read? -/
  done : Bool
  /-- What is kept with every item. -/
  presentation : Presentation
  deriving Inhabited

/-- A step of a tokenizer. -/
abbrev Tokenize := EStateM SyntaxError Tokenizer

namespace Tokenizer

/-- A tokenizer at the beginning of a source. -/
def start (source : String) (o : TokenizeOptions) : Tokenizer :=
  ⟨.start source o.tolerant .script o.comment, [], {}, false, o.presentation⟩

/-- Let the scanner do something. -/
def scan {α : Type} (action : Scan α) : Tokenize α := fun t =>
  match action t.scanner with
  | .ok a scanner => .ok a { t with scanner }
  | .error e scanner => .error e { t with scanner }

/-- Try one scan, and if it fails, go back and try another. -/
def scanEither {α : Type} (first second : Scan α) : Scan α := fun s =>
  match first s with
  | .ok a after => .ok a after
  | .error _ after => second (after.rewind s.bookmark)

/-- Read the token at the cursor, a regular expression where the history allows one and one can be read
(`scan_token`). -/
def readToken (h : History) : Scan Token := do
  if (← get).cursor.startsWith '/' && h.allowsRegex then scanEither Scan.regex Scan.token
  else Scan.token

/-- A comment that waits, with what is kept of its place. -/
def commentItem (t : Tokenizer) (c : Comment) : TokenItem :=
  .comment { c with placement := t.presentation.placeOf c.extent }

/-- A token that waits, read from `first` to where the scanner stands, with what is kept of its place. -/
def tokenItem (t : Tokenizer) (token : Token) (first : Position) : TokenItem :=
  let last := t.scanner.cursor.position
  .token ⟨token, first, last, t.presentation.place token.range first last⟩

/-- Read up to the end of the next token (`fill_buffer`). -/
def fill : Tokenize Unit := do
  let comments ← scan Scan.skipTrivia
  modify fun t =>
    if t.scanner.keepsComments then { t with waiting := t.waiting ++ comments.map t.commentItem } else t
  let t ← get
  if t.scanner.cursor.atEnd then set { t with done := true }
  else
    let first := t.scanner.cursor.position
    let token ← scan (readToken t.history)
    modify fun t =>
      { t with
        history := t.history.push token
        waiting := t.waiting ++ [t.tokenItem token first] }

/-- The next token or comment, or nothing at the end of the source (`next_token`). -/
def next : Tokenize (Option TokenItem) := do
  let t ← get
  if t.waiting.isEmpty && !t.done then fill
  let t ← get
  match t.waiting with
  | [] => return none
  | item :: waiting =>
    set { t with waiting }
    return some item

/-- The next token or comment, where an error ends the source. -/
def nextOrStop : Tokenize (Option TokenItem) := fun t =>
  match next t with
  | .ok item after => .ok item after
  | .error e after => .error e { after with done := true, waiting := [] }

/-- Take out the errors recorded so far (`errors`). -/
def takeErrors : Tokenize (List SyntaxError) := do
  let t ← get
  set { t with scanner := { t.scanner with errors := [] } }
  return t.scanner.errors

/-- Everything up to the end of the source, to the first error, or to the given number of items; and that
error, if there is one. The items so far are in `read`, last one first. -/
def collect (read : List TokenItem) : Nat → Tokenizer → List TokenItem × Option SyntaxError × Tokenizer
  | 0, t => (read.reverse, none, t)
  | bound + 1, t =>
    match next t with
    | .ok none after => (read.reverse, none, after)
    | .ok (some item) after => collect (item :: read) bound after
    | .error e after => (read.reverse, some e, after)

end Tokenizer

/-- What tokenizing gives back: the tokens, and the errors in tolerant mode (`TokenStream`). -/
structure TokenStream where
  items : List TokenItem
  errors : Option (List SyntaxError)

/-- Split a source into tokens (`tokenize`). Every item takes a byte at least, which bounds their number. -/
def tokenize (source : String) (o : TokenizeOptions) : Except SyntaxError TokenStream :=
  let (items, stopped, t) :=
    Tokenizer.collect [] (source.utf8ByteSize + 1) (.start source o)
  if o.tolerant then .ok ⟨items, some (t.scanner.errors ++ stopped.toList)⟩
  else
    match stopped with
    | some e => .error e
    | none => .ok ⟨items, none⟩

end EcmaTree
