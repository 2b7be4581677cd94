import EcmaTree.CommandLine.Usage
import EcmaTree.Json.Reader
import EcmaTree.Options.Json
import EcmaTree.Program

/-!
# Running a command line

A run ends with a status and an output. The status is 0 if all went well, 1 if the source or the options could
not be read or the source has a syntax error, and 2 if the arguments are wrong; only a run that ends well has
output. How a source is fetched is left to the caller, so that a run is a function of what it reads.
-/

namespace EcmaTree.CommandLine

/-- How a run ends. -/
structure Outcome where
  status : Nat
  /-- What is written on the standard output. -/
  output : String := ""
  /-- What is told to the user besides. -/
  notices : List String := []
  deriving DecidableEq

namespace Outcome

/-- A run that ends well. -/
def success (output : String) (notices : List String) : Outcome := ⟨0, output, notices⟩

/-- A run that fails. -/
def failure (notice : String) : Outcome := ⟨1, "", [notice]⟩

/-- A run whose arguments are wrong. -/
def misuse (error : UsageError) : Outcome := ⟨2, "", ["error: " ++ error.message]⟩

end Outcome

/-- Where a source comes from (`Input`). -/
inductive Input where
  | stdin
  | file (name : String)
  deriving DecidableEq

namespace Input

/-- Does a path consist of one dash? Slashes behind it, and dots between those, do not count. -/
def isDash (path : String) : Bool :=
  match path.splitOn "/" with
  | "-" :: rest => rest.all fun part => part == "" || part == "."
  | _ => false

/-- Where the source comes from if the given file was named, or none. -/
def ofFile? : Option String → Input
  | some path => if isDash path then stdin else file path
  | none => stdin

/-- The name that the source is known by. -/
def name : Input → String
  | stdin => "<stdin>"
  | file path => path

end Input

/-- The name of the environment variable that holds options for `parse`, used where there is no setting. -/
def optionsVariable : String := "ESPARSE_OPTIONS"

/-- The version as the user is told it. -/
def versionText : String := Usage.program ++ " " ++ version ++ "\n"

/-- The options that a text holds: those that it sets, over the defaults (`resolve_options`). Without a text, the
defaults. -/
def optionsOfText? : Option String → Option ParseOptions
  | none => some {}
  | some text => (Json.read? text).bind ParseOptions.ofJson?

/-- Name the source in what is written, if a file was named and the options leave the name open. -/
def nameSource (file? : Option String) (o : ParseOptions) : ParseOptions :=
  if o.loc && o.source.isNone && file?.isSome then { o with source := some (Input.ofFile? file?).name }
  else o

/-- A result on lines of its own (`print_json`). -/
def document (layout : Json.Layout) (json : Json) : String := json.render layout ++ "\n"

/-- What the user is told of a source that does not parse (`diagnostic`). -/
def failureNotice : Failure → String
  | .syntaxError error => error.message
  | .exhausted => "the source is nested too deeply"

/-- Parse a source. The options of the environment give way to those of the setting, and
switches are added to either. -/
def runParse (given : Given) (environment : Option String) (source : String) : Outcome :=
  match optionsOfText? (given.setting? Verb.optionsSetting <|> environment) with
  | none => .failure "invalid --options JSON"
  | some options =>
    let treatment := Switch.turnOnAll parseSwitches given.switches ⟨options, .pretty⟩
    let o := nameSource given.file? treatment.options
    match parse source o with
    | .error failure => .failure (failureNotice failure)
    | .ok program =>
      .success (document treatment.layout (program.toJson o.presentation))
        ((program.errors.getD []).map (·.message))

/-- Split a source into tokens, written as a list, or with the errors in tolerant mode. -/
def runTokenize (given : Given) (source : String) : Outcome :=
  let treatment := Switch.turnOnAll tokenizeSwitches given.switches ⟨{}, .pretty⟩
  let o := treatment.options
  match tokenize source o with
  | .error error => .failure error.message
  | .ok stream =>
    let json :=
      if o.tolerant then stream.toJson o.presentation
      else .array (stream.items.map (·.toJson o.presentation))
    .success (document treatment.layout json) []

/-- Go on with the source that was given, if it could be read. -/
def withSource (input : Input) (use : String → Outcome) : Option String → Outcome
  | none => .failure ("failed to read " ++ input.name)
  | some source => use source

/-- Carry out a verb. -/
def runVerb {m : Type → Type} [Monad m] (verb : Verb) (given : Given) (environment : Option String)
    (fetch : Input → m (Option String)) : m Outcome :=
  let input := Input.ofFile? given.file?
  match verb with
  | .version => return .success versionText []
  | .parse => return withSource input (runParse given environment) (← fetch input)
  | .tokenize => return withSource input (runTokenize given) (← fetch input)

/-- Run a command line, with the options that the environment holds and a way to fetch a source. -/
def run {m : Type → Type} [Monad m] (args : List String) (environment : Option String)
    (fetch : Input → m (Option String)) : m Outcome :=
  match Command.ofArguments args with
  | .error error => return .misuse error
  | .ok .tellVersion => return .success versionText []
  | .ok (.help verb) => return .success (Usage.text verb) []
  | .ok (.run verb given) => runVerb verb given environment fetch

end EcmaTree.CommandLine
