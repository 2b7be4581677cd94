import EcmaTree.CommandLine.Command

/-!
# Help

The text that tells how to use the program or one of its verbs: what it does, the form of its command line, and
its verbs, arguments and switches in two columns.
-/

namespace EcmaTree.CommandLine.Usage

/-- The name of the program on its command line. -/
def program : String := "esparse"

/-- A heading over rows of two columns, the first one as wide as its widest entry. -/
def table (heading : String) (rows : List (String × String)) : List String :=
  let width := rows.foldl (fun width row => max width row.1.length) 0
  (heading ++ ":") :: rows.map fun (left, right) =>
    "  " ++ left ++ String.ofList (List.replicate (width - left.length + 2) ' ') ++ right

/-- The rows of the switches that every level has. -/
def commonSwitches : List (String × String) :=
  [("-v, --verbose...", "Increase logging verbosity (-v INFO, -vv DEBUG, -vvv TRACE)"),
    ("    --json", "Emit logs as JSON lines on stderr"),
    ("-h, --help", "Print help")]

/-- How to use the program. -/
def ofProgram : List String :=
  ["Parse ECMAScript and JSX into ESTree JSON", "", "Usage: " ++ program ++ " [OPTIONS] <COMMAND>", ""] ++
    table "Commands" (Verb.all.map (fun v => (v.name, v.about)) ++
      [("help", "Print this message or the help of the given subcommand(s)")]) ++ [""] ++
    table "Options" (commonSwitches ++ [("-V, --version", "Print version")])

/-- The rows of the switches and settings of a verb. -/
def rows (v : Verb) : List (String × String) :=
  v.switches.map (fun (name, about) => ("    --" ++ name, about)) ++
    v.settings.map fun (name, form, about) => ("    --" ++ name ++ " <" ++ form ++ ">", about)

/-- How to use a verb. -/
def ofVerb (v : Verb) : List String :=
  [v.about, "", "Usage: " ++ program ++ " " ++ v.name ++ " [OPTIONS]" ++ (if v.takesFile then " [FILE]" else ""),
    ""] ++
    (if v.takesFile then
      table "Arguments" [("[FILE]", "Input file (stdin when omitted or `-`)")] ++ [""] else []) ++
    table "Options" (rows v ++ commonSwitches)

/-- The text of help: lines, each with its end. -/
def text (verb : Option Verb) : String :=
  let lines := match verb with
    | none => ofProgram
    | some v => ofVerb v
  String.join (lines.map (· ++ "\n"))

end EcmaTree.CommandLine.Usage

/-! ## Version -/

namespace EcmaTree

/-- The version of this program. -/
def version : String := "0.2.0"

end EcmaTree
