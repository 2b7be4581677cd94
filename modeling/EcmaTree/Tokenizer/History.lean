import EcmaTree.Lexer.Token

/-!
# What a slash begins

Without a grammar, the tokens before a slash have to tell whether it begins a regular expression. A `History`
keeps the words of the tokens read so far, and what it was when the last `{` and the last `(` were read. Only
punctuators and keywords have a word.
-/

namespace EcmaTree

/-- The words of the tokens read so far, the last one first, and those in front of the last opening brace and
parenthesis (`Reader`). -/
structure History where
  words : List (Option String) := []
  beforeBrace : List (Option String) := []
  beforeParen : List (Option String) := []
  deriving Inhabited

namespace History

/-- The word that a token leaves. -/
def wordOf (t : Token) : Option String :=
  match t.lexeme with
  | .punctuator _ | .keyword _ => some t.text
  | _ => none

/-- The history with one more token (`push`). -/
def push (h : History) (t : Token) : History where
  words := wordOf t :: h.words
  beforeBrace := if t.isPunctuator .leftBrace then h.words else h.beforeBrace
  beforeParen := if t.isPunctuator .leftParen then h.words else h.beforeParen

/-- The words behind which a function is an expression (`before_function_expression`). -/
def expressionOpeners : List String :=
  ["(", "\x7b", "[", "in", "typeof", "instanceof", "new", "return", "case", "delete", "throw", "void",
    "=", "+=", "-=", "*=", "**=", "/=", "%=", "<<=", ">>=", ">>>=", "&=", "|=", "^=", ",",
    "+", "-", "*", "**", "/", "%", "++", "--", "<<", ">>", ">>>", "&", "|", "^", "!", "~",
    "&&", "||", "??", "?", ":", "===", "==", ">=", "<=", "<", ">", "!=", "!=="]

/-- The word `back` places before the last one of a list (`before`). -/
def wordBack (words : List (Option String)) (back : Nat) : Option String := words[back]?.join

/-- Does the closed block leave room for a regular expression? Behind a function expression it does not:
there a slash divides. -/
def blockAllowsRegex (h : History) : Bool :=
  if wordBack h.beforeBrace 2 = some "function" then
    (wordBack h.beforeBrace 3).any fun word => !expressionOpeners.contains word
  else if wordBack h.beforeBrace 3 = some "function" then
    (wordBack h.beforeBrace 4).all fun word => !expressionOpeners.contains word
  else true

/-- Do the parentheses just closed belong to a statement, which may begin with a regular expression? -/
def headAllowsRegex (h : History) : Bool :=
  (wordBack h.beforeParen 0).any fun word => ["if", "while", "for", "with"].contains word

/-- Would a slash begin a regular expression (`is_regex_start`)? -/
def allowsRegex (h : History) : Bool :=
  match h.words with
  | [] => true
  | none :: _ => false
  | some word :: _ =>
    if word = "this" ∨ word = "]" then false
    else if word = ")" then h.headAllowsRegex
    else if word = "\x7d" then h.blockAllowsRegex
    else true

end History

end EcmaTree
