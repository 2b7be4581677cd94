/-!
# Command line arguments

An argument is a switch or a setting by its long name, a cluster of one-letter switches, or plain text. A
`Level` lists what may stand at one level of a command line, and `Given` is what did. Arguments are read
one after another, and the first one that is wrong, or that asks for help, ends the reading.
-/

namespace EcmaTree.CommandLine

/-- How an argument is written. -/
inductive Argument where
  /-- A name behind two dashes, with the value behind its first equals sign. -/
  | long (name : String) (value : Option String)
  /-- Letters behind one dash. -/
  | letters (letters : List Char)
  /-- Two dashes alone: everything behind them is plain. -/
  | escape
  /-- Any other text; a dash alone is plain too. -/
  | plain (text : String)
  deriving DecidableEq

/-- How a text is written as an argument. -/
def Argument.ofText (text : String) : Argument :=
  match text.toList with
  | ['-', '-'] => escape
  | '-' :: '-' :: rest =>
    let value :=
      match rest.dropWhile (· != '=') with
      | [] => none
      | _ :: value => some (String.ofList value)
    long (String.ofList (rest.takeWhile (· != '='))) value
  | '-' :: letter :: rest => letters (letter :: rest)
  | _ => plain text

/-- What can be wrong with arguments. -/
inductive UsageError where
  /-- An argument that has no meaning where it stands. -/
  | unexpected (argument : String)
  /-- A switch or a setting that was given before. -/
  | repeated (name : String)
  /-- A switch that was given a value. -/
  | unneededValue (name : String)
  /-- A setting or a file without a value. -/
  | missingValue (name : String)
  /-- No verb at all. -/
  | missingVerb
  /-- A verb that does not exist. -/
  | unknownVerb (verb : String)
  deriving DecidableEq

/-- What a usage error tells the user. -/
def UsageError.message : UsageError → String
  | unexpected argument => "unexpected argument '" ++ argument ++ "' found"
  | repeated name => "the argument '" ++ name ++ "' cannot be used multiple times"
  | unneededValue name => "unexpected value for '" ++ name ++ "' found; no more were expected"
  | missingValue name => "a value is required for '" ++ name ++ "' but none was supplied"
  | missingVerb => "a subcommand is required but one was not provided"
  | unknownVerb verb => "unrecognized subcommand '" ++ verb ++ "'"

/-- Why reading arguments ends early. -/
inductive Stop where
  /-- Help was asked for. -/
  | help
  /-- The version was asked for. -/
  | version
  | usage (error : UsageError)
  deriving DecidableEq

/-- What may stand at one level of a command line. -/
structure Level where
  /-- The names of switches, each of which may be given once. -/
  switches : List String
  /-- The names of settings, each of which takes a value and may be given once. -/
  settings : List String := []
  /-- May the version be asked for? -/
  tellsVersion : Bool := false
  /-- May a file be named? -/
  takesFile : Bool := false

/-- What was given at one level of a command line. -/
structure Given where
  switches : List String := []
  settings : List (String × String) := []
  file? : Option String := none
  deriving DecidableEq, Inhabited

namespace Given

/-- The value of a setting. -/
def setting? (g : Given) (name : String) : Option String := g.settings.lookup name

/-- Take a switch. The volume of the log may be turned up again and again. -/
def takeSwitch (level : Level) (g : Given) (name : String) : Except Stop Given :=
  if name == "help" then .error .help
  else if name == "version" && level.tellsVersion then .error .version
  else if name == "verbose" then .ok g
  else if !level.switches.contains name then .error (.usage (.unexpected ("--" ++ name)))
  else if g.switches.contains name then .error (.usage (.repeated ("--" ++ name)))
  else .ok { g with switches := g.switches ++ [name] }

/-- Take a switch by its letter. -/
def takeLetter (level : Level) (g : Given) : Char → Except Stop Given
  | 'h' => takeSwitch level g "help"
  | 'v' => takeSwitch level g "verbose"
  | letter =>
    if letter == 'V' && level.tellsVersion then takeSwitch level g "version"
    else .error (.usage (.unexpected (String.ofList ['-', letter])))

/-- Take a cluster of letters. -/
def takeLetters (level : Level) (g : Given) (letters : List Char) : Except Stop Given :=
  letters.foldlM (takeLetter level) g

/-- Take the value of a setting. -/
def takeSetting (g : Given) (name value : String) : Except Stop Given :=
  if (g.setting? name).isSome then .error (.usage (.repeated ("--" ++ name)))
  else .ok { g with settings := g.settings ++ [(name, value)] }

/-- Take the name of a file. -/
def takeFile (level : Level) (g : Given) (name : String) : Except Stop Given :=
  if !level.takesFile || g.file?.isSome then .error (.usage (.unexpected name))
  else if name.isEmpty then .error (.usage (.missingValue "[FILE]"))
  else .ok { g with file? := some name }

/-- Take a switch that stands with a value. -/
def refuseValue (level : Level) (name : String) : Stop :=
  if name == "help" || name == "verbose" || (name == "version" && level.tellsVersion) ||
      level.switches.contains name then .usage (.unneededValue ("--" ++ name))
  else .usage (.unexpected ("--" ++ name))

/-- Read the arguments of a level up to the end. -/
def read (level : Level) (g : Given) : List String → Except Stop Given
  | [] => .ok g
  | arg :: rest =>
    match Argument.ofText arg with
    | .escape => rest.foldlM (takeFile level) g
    | .plain text => do read level (← takeFile level g text) rest
    | .letters letters => do read level (← takeLetters level g letters) rest
    | .long name value? =>
      if level.settings.contains name then
        match value?, rest with
        | some value, rest => do read level (← takeSetting g name value) rest
        | none, next :: rest =>
          match Argument.ofText next with
          | .plain value => do read level (← takeSetting g name value) rest
          | _ => .error (.usage (.missingValue ("--" ++ name)))
        | none, [] => .error (.usage (.missingValue ("--" ++ name)))
      else
        match value? with
        | some _ => .error (refuseValue level name)
        | none => do read level (← takeSwitch level g name) rest

/-- Read the arguments of a level up to the first plain one, and give back that one and what follows it. -/
def readToVerb (level : Level) (g : Given) : List String → Except Stop (String × List String)
  | [] => .error (.usage .missingVerb)
  | arg :: rest =>
    match Argument.ofText arg with
    | .escape =>
      match rest with
      | [] => .error (.usage .missingVerb)
      | next :: _ => .error (.usage (.unexpected next))
    | .plain text => .ok (text, rest)
    | .letters letters => do readToVerb level (← takeLetters level g letters) rest
    | .long name (some _) => .error (refuseValue level name)
    | .long name none => do readToVerb level (← takeSwitch level g name) rest

end Given

end EcmaTree.CommandLine
