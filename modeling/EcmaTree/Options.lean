import EcmaTree.Precedence
import EcmaTree.Source.Span

/-!
# Options

`ParseOptions` says how to parse and what to give back. Four of its fields say how to parse: they make up the
`Dialect`. The others ask for something besides the tree, or to be told where everything stands; a parse reads
them as it goes on, from its `Recording`.
-/

namespace EcmaTree

/-- What a source is read as (`SourceType`). -/
inductive Goal where
  | script
  | module
  deriving DecidableEq, Inhabited

/-- The name of a goal. -/
def Goal.name : Goal → String
  | script => "script"
  | module => "module"

/-- A value that is wanted, or nothing. -/
def wanted {α : Type} (condition : Bool) (value : α) : Option α :=
  if condition then some value else none

/-- How a source is to be read. -/
structure Dialect where
  goal : Goal := .script
  jsx : Bool := false
  tolerant : Bool := false
  strengths : Precedence.Override := .none

/-- What is kept and written of the place of everything that has one in the source. -/
structure Presentation where
  /-- The byte offsets. -/
  range : Bool := false
  /-- The lines and columns. -/
  loc : Bool := false
  /-- The name of the source, kept with the lines and columns of nodes. -/
  source : Option String := none
  deriving DecidableEq, Inhabited

namespace Presentation

/-- What is kept of a place with the given range. -/
def place (p : Presentation) (range : Span) (start stop : Position) : Placement :=
  ⟨wanted p.range range, wanted p.loc ⟨start, stop, p.source⟩⟩

/-- What is kept of an extent. -/
def placeOf (p : Presentation) (e : Extent) : Placement := p.place e.span e.start.position e.stop.position

/-- Tokens and comments do not name their source. -/
def unnamed (p : Presentation) : Presentation := { p with source := none }

end Presentation

/-- What a parse keeps and reports besides its tree (`Config`). -/
structure Recording where
  presentation : Presentation := {}
  /-- List the tokens. -/
  tokens : Bool := false
  /-- Scan comments and report them. -/
  comments : Bool := false
  /-- Is there an observer, who is told of finished nodes and of comments? -/
  observed : Bool := false
  deriving DecidableEq, Inhabited

/-- How to parse, and what to give back (`ParseOptions`). -/
structure ParseOptions where
  /-- Keep the byte offsets of nodes, tokens and comments. -/
  range : Bool := false
  /-- Keep the lines and columns of nodes, tokens and comments. -/
  loc : Bool := false
  /-- The name of the source, kept with the lines and columns of nodes. -/
  source : Option String := none
  goal : Goal := .script
  /-- Read elements of JSX. -/
  jsx : Bool := false
  /-- Record errors that can be passed over. -/
  tolerant : Bool := false
  /-- Give back the list of tokens. -/
  tokens : Bool := false
  /-- Give back the list of comments. -/
  comment : Bool := false
  /-- Attach comments to the nodes they belong to. -/
  attachComment : Bool := false
  /-- Binding strengths that replace the usual ones. -/
  strengths : Option Precedence.Override := none

namespace ParseOptions

/-- How to read the source. -/
def dialect (o : ParseOptions) : Dialect :=
  ⟨o.goal, o.jsx, o.tolerant, o.strengths.getD .none⟩

/-- What is kept with every item. -/
def presentation (o : ParseOptions) : Presentation := ⟨o.range, o.loc, o.source⟩

/-- Is the source a module (`is_module`)? -/
def isModule (o : ParseOptions) : Bool := o.goal == .module

/-- Are comments scanned and reported at all (`collects_comments`)? -/
def collectsComments (o : ParseOptions) : Bool := o.comment || o.attachComment

/-- What a parse keeps and reports, with an observer or without one. -/
def recording (o : ParseOptions) (observed : Bool) : Recording :=
  ⟨o.presentation, o.tokens, o.collectsComments, observed⟩

end ParseOptions

/-- How to tokenize, and what to give back (`TokenizeOptions`). -/
structure TokenizeOptions where
  range : Bool := false
  loc : Bool := false
  /-- Give back comments too. -/
  comment : Bool := false
  tolerant : Bool := false
  deriving DecidableEq, Inhabited

/-- What is kept with every item. Tokens and comments do not name their source. -/
def TokenizeOptions.presentation (o : TokenizeOptions) : Presentation := ⟨o.range, o.loc, none⟩

end EcmaTree
