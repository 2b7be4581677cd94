import EcmaTree.Source.Span
import EcmaTree.Lexer.Punctuator

/-!
# Tokens

A `Lexeme` is what a token says, a `Token` adds its text in the source and where that text stands.
The line of a token, and the offset at which that line starts, are those of the token's end.
-/

namespace EcmaTree

/-- The body and the flags of a regular expression literal (`RegexParts`). -/
structure RegexLiteral where
  pattern : String
  flags : String
  deriving DecidableEq, Inhabited

/-- A piece of a template, from the opening backquote or closing brace to the next substitution or
the end. -/
structure TemplateChunk where
  /-- The text between the delimiters. -/
  raw : String
  /-- What the text means, if all its escapes are valid. -/
  cooked : Option String
  /-- The character behind the backslash of the first invalid escape. -/
  invalidEscape : Option Char
  /-- Does the piece begin its template? -/
  isHead : Bool
  /-- Does the piece end its template? -/
  isTail : Bool
  deriving DecidableEq, Inhabited

/-- What a token says. Numbers and strings are marked when they use a form that strict code
forbids: an octal number, a leading zero, an octal escape. -/
inductive Lexeme where
  | endOfInput
  | identifier (name : String)
  | keyword (name : String)
  | null
  | boolean (value : Bool)
  | number (value : Float) (legacy : Bool)
  | string (value : String) (legacy : Bool)
  | template (chunk : TemplateChunk)
  | regex (literal : RegexLiteral)
  | punctuator (p : Punctuator)
  | jsxIdentifier (name : String)
  | jsxText (value : String)
  deriving Inhabited

/-- A token and its place in the source (`RawToken`). -/
structure Token where
  lexeme : Lexeme
  raw : String
  span : Span
  line : Nat
  lineStart : Nat
  deriving Inhabited

namespace Lexeme

/-- The name under which a lexeme is reported (`name`). -/
def typeName : Lexeme → String
  | endOfInput => "<end>"
  | identifier _ => "Identifier"
  | keyword _ => "Keyword"
  | null => "Null"
  | boolean _ => "Boolean"
  | number .. => "Numeric"
  | string .. => "String"
  | template _ => "Template"
  | regex _ => "RegularExpression"
  | punctuator _ => "Punctuator"
  | jsxIdentifier _ => "JSXIdentifier"
  | jsxText _ => "JSXText"

end Lexeme

namespace Token

/-- The offset at which the token begins. -/
def start (t : Token) : Nat := t.span.start

/-- The offset at which the token ends. -/
def stop (t : Token) : Nat := t.span.stop

/-- The bytes of the token, as they are kept. -/
def range (t : Token) : Span := t.span.inWords

/-- What the token stands for, as a text: a name, a punctuator, the value of a string, the raw text
of a template, the digits of a number. A regular expression and the end of input have none. -/
def text (t : Token) : String :=
  match t.lexeme with
  | .endOfInput | .regex _ => ""
  | .identifier name | .keyword name | .jsxIdentifier name => name
  | .null => "null"
  | .boolean value => if value then "true" else "false"
  | .number .. => t.raw
  | .string value _ => value
  | .template chunk => chunk.raw
  | .punctuator p => p.text
  | .jsxText value => value

/-- Is the token the punctuator `p`? -/
def isPunctuator (t : Token) (p : Punctuator) : Bool :=
  match t.lexeme with
  | .punctuator q => q == p
  | _ => false

/-- Is the token the keyword `word`? -/
def isKeyword (t : Token) (word : String) : Bool :=
  match t.lexeme with
  | .keyword name => name == word
  | _ => false

/-- Is the token the identifier `word`? -/
def isIdentifierNamed (t : Token) (word : String) : Bool :=
  match t.lexeme with
  | .identifier name => name == word
  | _ => false

/-- Is the token an identifier? -/
def isIdentifier (t : Token) : Bool :=
  match t.lexeme with
  | .identifier _ => true
  | _ => false

/-- Is the token a keyword? -/
def isAnyKeyword (t : Token) : Bool :=
  match t.lexeme with
  | .keyword _ => true
  | _ => false

/-- Is the token the end of input? -/
def isEnd (t : Token) : Bool :=
  match t.lexeme with
  | .endOfInput => true
  | _ => false

/-- Is the token a string? -/
def isString (t : Token) : Bool :=
  match t.lexeme with
  | .string .. => true
  | _ => false

/-- Is the token a piece of a template? -/
def isTemplate (t : Token) : Bool :=
  match t.lexeme with
  | .template _ => true
  | _ => false

/-- Does the token begin a template? -/
def isTemplateHead (t : Token) : Bool :=
  match t.lexeme with
  | .template chunk => chunk.isHead
  | _ => false

/-- Is the token a number or a string in a form that strict code forbids? -/
def isLegacy (t : Token) : Bool :=
  match t.lexeme with
  | .number _ legacy | .string _ legacy => legacy
  | _ => false

/-- The pattern and flags of a regular expression token. -/
def regex? (t : Token) : Option RegexLiteral :=
  match t.lexeme with
  | .regex literal => some literal
  | _ => none

/-- May the token stand where any word is a name: an identifier, a keyword, `true`, `false`, `null`
(`is_identifier_name`)? -/
def isName (t : Token) : Bool :=
  match t.lexeme with
  | .identifier _ | .keyword _ | .boolean _ | .null => true
  | _ => false

/-- May the token begin the name of a property (`qualified_property_name`)? -/
def beginsPropertyName (t : Token) : Bool :=
  match t.lexeme with
  | .identifier _ | .string .. | .boolean _ | .null | .number .. | .keyword _ => true
  | .punctuator p => p == .leftBracket
  | _ => false

end Token

/-- A token as it is listed: with the lines and columns between which it was read, and what is kept of its place
(`TokenEntry`). -/
structure TokenEntry where
  token : Token
  start : Position
  stop : Position
  placement : Placement := {}
  deriving Inhabited

/-! ## Reserved words -/

/-- The keywords of the grammar; `true`, `false` and `null` are literals (`is_keyword`). -/
def keywords : List String :=
  ["if", "in", "do", "var", "for", "new", "try", "let", "this", "else", "case", "void", "with",
    "enum", "while", "break", "catch", "throw", "const", "yield", "class", "super", "return",
    "typeof", "delete", "switch", "export", "import", "default", "finally", "extends", "function",
    "continue", "debugger", "instanceof"]

/-- Is the word reserved for the future in every mode (`is_future_reserved_word`)? -/
def isFutureReserved (word : String) : Bool :=
  ["enum", "export", "import", "super"].contains word

/-- Is the word reserved in strict code (`is_strict_mode_reserved_word`)? -/
def isStrictReserved (word : String) : Bool :=
  ["implements", "interface", "package", "private", "protected", "public", "static", "yield",
    "let"].contains word

/-- Is the word one that strict code neither binds nor assigns (`is_restricted_word`)? -/
def isRestricted (word : String) : Bool := word == "eval" || word == "arguments"

end EcmaTree
