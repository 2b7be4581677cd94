import EcmaTree.CommandLine.Arguments
import EcmaTree.Json.Printer
import EcmaTree.Options

/-!
# Commands

A command line names one verb: `version`, `parse` or `tokenize`. Each verb has its own switches, and each
switch of `parse` and `tokenize` turns something on in how the verb is carried out. The switches for the log
may stand before and behind the verb.
-/

namespace EcmaTree.CommandLine

/-- How a source is treated: with what options, and in what layout the result is written. -/
structure Treatment (ω : Type) where
  options : ω
  layout : Json.Layout := .pretty

/-- A switch of a verb. -/
structure Switch (ω : Type) where
  name : String
  /-- What the user is told of the switch. -/
  about : String
  /-- What the switch turns on. -/
  turnOn : Treatment ω → Treatment ω

namespace Switch

variable {ω : Type}

/-- A switch that turns on an option. -/
def option (name about : String) (turnOn : ω → ω) : Switch ω :=
  ⟨name, about, fun t => { t with options := turnOn t.options }⟩

/-- The switch for one line of JSON. -/
def compact : Switch ω := ⟨"compact", "Print JSON on a single line", fun t => { t with layout := .compact }⟩

/-- Turn on what the switches of the given names stand for. -/
def turnOnAll (switches : List (Switch ω)) (names : List String) (t : Treatment ω) : Treatment ω :=
  (switches.filter fun s => names.contains s.name).foldl (fun t s => s.turnOn t) t

end Switch

/-- The switches of `parse`. -/
def parseSwitches : List (Switch ParseOptions) :=
  [.option "module" "Parse as an ES module" fun o => { o with goal := .module },
    .option "jsx" "Enable JSX" fun o => { o with jsx := true },
    .option "range" "Add `range` to nodes" fun o => { o with range := true },
    .option "loc" "Add `loc` to nodes" fun o => { o with loc := true },
    .option "tokens" "Include the token list" fun o => { o with tokens := true },
    .option "comment" "Include the comment list" fun o => { o with comment := true },
    .option "attach-comment" "Attach comments to nodes" fun o => { o with attachComment := true },
    .option "tolerant" "Record recoverable errors instead of failing" fun o => { o with tolerant := true },
    .compact]

/-- The switches of `tokenize`. -/
def tokenizeSwitches : List (Switch TokenizeOptions) :=
  [.option "range" "Add `range` to tokens" fun o => { o with range := true },
    .option "loc" "Add `loc` to tokens" fun o => { o with loc := true },
    .option "comment" "Include comments in the stream" fun o => { o with comment := true },
    .option "tolerant" "Record scan errors instead of failing" fun o => { o with tolerant := true },
    .compact]

/-- What can be asked for. -/
inductive Verb where
  | version
  | parse
  | tokenize
  deriving DecidableEq

namespace Verb

/-- All verbs. -/
def all : List Verb := [version, parse, tokenize]

/-- How a verb is called. -/
def name : Verb → String
  | version => "version"
  | parse => "parse"
  | tokenize => "tokenize"

/-- The verb of the given name. -/
def ofName? (name : String) : Option Verb := all.find? (·.name == name)

/-- What the user is told of a verb. -/
def about : Verb → String
  | version => "Print version information"
  | parse => "Parse a source file and print the syntax tree as JSON"
  | tokenize => "Split a source file into tokens and print them as JSON"

/-- The names of the switches of a verb, and what the user is told of them. -/
def switches : Verb → List (String × String)
  | version => []
  | parse => parseSwitches.map fun s => (s.name, s.about)
  | tokenize => tokenizeSwitches.map fun s => (s.name, s.about)

/-- The setting of `parse` that holds options as JSON. -/
def optionsSetting : String := "options"

/-- The names of the settings of a verb, the forms of their values, and what the user is told of them. -/
def settings : Verb → List (String × String × String)
  | parse =>
    [(optionsSetting, "JSON",
      "Parse options as JSON, e.g. '\x7b\"sourceType\":\"module\"\x7d'; flags win")]
  | version | tokenize => []

/-- Does a verb read a source? -/
def takesFile : Verb → Bool
  | version => false
  | parse | tokenize => true

/-- The switch that makes the log one of JSON. -/
def jsonSwitch : String := "json"

/-- What may stand behind a verb. -/
def level (v : Verb) : Level where
  switches := jsonSwitch :: v.switches.map (·.1)
  settings := v.settings.map (·.1)
  takesFile := v.takesFile

/-- What may stand before the verb. -/
def outerLevel : Level where
  switches := [jsonSwitch]
  tellsVersion := true

end Verb

/-- What a command line asks for. -/
inductive Command where
  /-- Carry out a verb. -/
  | run (verb : Verb) (given : Given)
  /-- Tell the version in answer to the switch. -/
  | tellVersion
  /-- Tell how to use a verb, or the program. -/
  | help (verb : Option Verb)
  deriving DecidableEq

namespace Command

/-- What to do where reading arguments ended early. -/
def ofStop (verb : Option Verb) : Stop → Except UsageError Command
  | .help => .ok (help verb)
  | .version => .ok tellVersion
  | .usage error => .error error

/-- What `help` is asked for: the program, itself, or one verb. -/
def ofHelp : List String → Except UsageError Command
  | [] | ["help"] => .ok (help none)
  | [name] =>
    match Verb.ofName? name with
    | some verb => .ok (help (some verb))
    | none => .error (.unknownVerb name)
  | first :: next :: _ => .error (.unknownVerb (if (Verb.ofName? first).isSome then next else first))

/-- What a command line asks for. -/
def ofArguments (args : List String) : Except UsageError Command :=
  match Given.readToVerb Verb.outerLevel {} args with
  | .error stop => ofStop none stop
  | .ok ("help", rest) => ofHelp rest
  | .ok (name, rest) =>
    match Verb.ofName? name with
    | none => .error (.unknownVerb name)
    | some verb =>
      match Given.read verb.level {} rest with
      | .ok given => .ok (run verb given)
      | .error stop => ofStop (some verb) stop

end Command

end EcmaTree.CommandLine
