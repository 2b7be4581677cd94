import EcmaTree.Grammar.State

/-!
# Steps of a parse

The productions of the grammar are put together from these: reporting errors, taking tokens, finishing nodes,
changing the context for a while, and repeating.
-/

namespace EcmaTree.Parse

variable {α σ : Type}

/-- Let the scanner do something. -/
def scan (action : Scan α) : Parse α := fun s =>
  match action s.scanner with
  | .ok a scanner => .ok a { s with scanner }
  | .error e scanner => .error (.syntaxError e) { s with scanner }

/-! ## Errors -/

/-- Stop at an error. -/
def fail (e : SyntaxError) : Parse α := throw (.syntaxError e)

/-- Record an error in tolerant mode, and stop at it otherwise. -/
def tolerate (e : SyntaxError) : Parse Unit := scan (Scan.tolerate e)

/-- Stop: the token stands where it may not (`unexpected`). -/
def failAt (t : Token) : Parse α := do fail ((← get).unexpected t)

/-- Stop at a token for the given cause (`unexpected_with`). -/
def failWith (t : Token) (cause : Cause) : Parse α := do fail ((← get).errorAt t cause)

/-- Stop at the lookahead. -/
def failAhead : Parse α := do failAt (← get).lookahead

/-- Stop at the end of the last consumed token (`error`). -/
def failHere (cause : Cause) : Parse α := do fail ((← get).errorHere cause)

/-- Pass over a token that stands where it may not, in tolerant mode. -/
def tolerateAt (t : Token) : Parse Unit := do tolerate ((← get).unexpected t)

/-- Pass over an error at a token, in tolerant mode (`tolerate`). -/
def tolerateWith (t : Token) (cause : Cause) : Parse Unit := do tolerate ((← get).errorAt t cause)

/-- Pass over an error at the end of the last consumed token, in tolerant mode (`tolerate_error`). -/
def tolerateHere (cause : Cause) : Parse Unit := do tolerate ((← get).errorOnScannerLine cause)

/-! ## Tokens -/

/-- The next token. -/
def ahead : Parse Token := return (← get).lookahead

/-- Is the next token the punctuator `p` (`check`)? -/
def check (p : Punctuator) : Parse Bool := return (← get).lookahead.isPunctuator p

/-- Is the next token the keyword `word` (`check_keyword`)? -/
def checkKeyword (word : String) : Parse Bool := return (← get).lookahead.isKeyword word

/-- Is the next token the identifier `word`, which is a keyword in some places only (`check_contextual`)? -/
def checkWord (word : String) : Parse Bool := return (← get).lookahead.isIdentifierNamed word

/-- Skip trivia and report its comments (`collect_comments`). -/
def skipTrivia : Parse Unit := do
  let comments ← scan Scan.skipTrivia
  modify fun s => { s with record := s.record.pass comments }

/-- Consume the lookahead and read the next token (`next_token`). Gives back the consumed one. -/
def next : Parse Token := do
  modify fun s => { s with last := s.scanner.cursor.place }
  skipTrivia
  modify fun s =>
    if s.scanner.cursor.offset = s.start.offset then s else { s with start := s.scanner.cursor }
  let read ← scan Scan.token
  let s ← get
  let consumed := s.lookahead
  let token := if s.context.strict then read.inStrictCode else read
  modify fun s => { s with
    newline := consumed.line != read.line
    lookahead := token
    record := if token.isEnd then s.record else s.listing token }
  return consumed

/-- Consume the lookahead. -/
def skip : Parse Unit := discard next

/-- Read the slash ahead again, as a regular expression, and consume that (`next_regex_token`). What was listed for
the slash is forgotten. -/
def regex : Parse Token := do
  modify fun s =>
    { s with scanner.cursor := { s.scanner.cursor with offset := s.start.offset, rest := s.start.rest } }
  skipTrivia
  let token ← scan Scan.regex
  modify fun s => { s with
    record := s.record.unlist.list token s.start s.scanner.cursor
    lookahead := token }
  skip
  return token

/-- The token behind the lookahead (`peek_token`). -/
def second : Parse Token := scan <| Scan.lookAhead do
  discard Scan.skipTrivia
  Scan.token

/-- Consume the punctuator `p` (`expect`). -/
def expect (p : Punctuator) : Parse Unit := do
  let t ← next
  unless t.isPunctuator p do failAt t

/-- Consume the keyword `word` (`expect_keyword`). -/
def expectKeyword (word : String) : Parse Unit := do
  let t ← next
  unless t.isKeyword word do failAt t

/-- Consume the punctuator `p` if it is ahead. Gives back whether it was. -/
def accept (p : Punctuator) : Parse Bool := do
  if ← check p then
    skip
    return true
  else return false

/-- Consume a token that stands where it may not, in tolerant mode. -/
def passOver : Parse Unit := do
  let t ← next
  tolerateAt t

/-- Consume the comma between two items of a list (`expect_comma_separator`). Tolerant mode also takes a semicolon,
or nothing, and records an error. -/
def expectSeparator : Parse Unit := do
  let s ← get
  if !s.dialect.tolerant then expect .comma
  else if s.lookahead.isPunctuator .comma then skip
  else if s.lookahead.isPunctuator .semicolon then passOver
  else tolerateWith s.lookahead (.unexpectedToken s.lookahead.text)

/-- End a statement: by a semicolon, or where one may be left out (`consume_semicolon`). -/
def endStatement : Parse Unit := do
  let s ← get
  if s.lookahead.isPunctuator .semicolon then skip
  else if s.newline then return
  else if s.lookahead.isEnd || s.lookahead.isPunctuator .rightBrace then
    modify fun s => { s with last := s.start.place }
  else failAt s.lookahead

/-! ## Nodes -/

/-- Where a node begins whose first token is the lookahead (`start_node`). -/
def mark : Parse Place := return (← get).start.place

/-- Finish a node that begins at `start` and ends with the last consumed token (`finalize`). -/
def finish (start : Place) (kind : Kind Node) : Parse Node := do
  let s ← get
  let node := Node.mk (s.finishedInfo start) kind
  modify fun s => { s with finished := s.finished + 1, record := s.record.report (.node node ⟨start, s.last⟩) }
  return node

/-! ## Context and cover -/

/-- The context. -/
def context : Parse Context := return (← get).context

/-- Is the code strict? -/
def isStrict : Parse Bool := return (← get).context.strict

/-- Read something in a changed context (`with_context`). -/
def withContext (change : Context → Context) (p : Parse α) : Parse α := do
  let saved := (← get).context
  modify fun s => { s with context := change saved }
  let a ← p
  modify fun s => { s with context := saved }
  return a

/-- Change what the expression may still turn out to be. -/
def modifyCover (change : Cover → Cover) : Parse Unit :=
  modify fun s => { s with cover := change s.cover }

/-- The expression is neither a pattern nor a target (`non_pattern`). -/
def nonPattern : Parse Unit := modifyCover Cover.nonPattern

/-- Read something that is no part of a pattern (`isolate_cover_grammar`). -/
def isolate (p : Parse α) : Parse α := do
  let previous := (← get).cover
  modifyCover fun _ => .fresh
  let a ← p
  if let some t := (← get).cover.pending then failAt t
  modifyCover fun _ => previous
  return a

/-- Read something that may be part of a pattern: it can be no more than what is around it
(`inherit_cover_grammar`). -/
def inherit (p : Parse α) : Parse α := do
  let previous := (← get).cover
  modifyCover fun _ => .fresh
  let a ← p
  modifyCover fun c =>
    ⟨c.isAssignmentTarget && previous.isAssignmentTarget,
      c.isBindingElement && previous.isBindingElement, previous.pending <|> c.pending⟩
  return a

/-! ## Repetition -/

/-- Whether a loop goes on. -/
inductive Progress (σ : Type) where
  | more (state : σ)
  | done (state : σ)

/-- Repeat a step until it is done, but not more often than `bound`. -/
def iterate (step : σ → Parse (Progress σ)) : (bound : Nat) → σ → Parse σ
  | 0, _ => throw .exhausted
  | bound + 1, state => do
    match ← step state with
    | .more state => iterate step bound state
    | .done state => return state

/-- Repeat a step until it is done. -/
def loop (state : σ) (step : σ → Parse (Progress σ)) : Parse σ := do
  iterate step (← get).bound state

/-- The items that come before `stop` holds. -/
def manyBefore (stop : Parse Bool) (item : Parse α) : Parse (List α) := do
  let items ← loop [] fun items => do
    if ← stop then return .done items else return .more ((← item) :: items)
  return items.reverse

/-- The items that come before the punctuator `p`. -/
def itemsBefore (p : Punctuator) (item : Parse α) : Parse (List α) := manyBefore (check p) item

/-- One item at least, with commas between them. -/
def commaSeparated (item : Parse α) : Parse (List α) := do
  let first ← item
  let others ← loop [] fun items => do
    if ← accept .comma then return .more ((← item) :: items) else return .done items
  return first :: others.reverse

end EcmaTree.Parse
