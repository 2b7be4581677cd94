import EcmaTree.Json.Basic
import EcmaTree.Options

/-!
# Options as JSON

Options are written as an object with every field. They are read from an object, where fields may be missing
and unknown keys are passed over, or from an array of the first fields in their order. A field keeps its
default until it is set, and it is set once at most.
-/

namespace EcmaTree

/-- A named field of options of type `σ`. -/
structure OptionField (σ : Type) where
  name : String
  /-- The field as JSON. -/
  get : σ → Json
  /-- The options with the field set, if the value is one that the field may have. -/
  set : Json → σ → Option σ

namespace OptionField

variable {σ : Type}

/-- A field that is on or off. -/
def flag (name : String) (get : σ → Bool) (set : Bool → σ → σ) : OptionField σ where
  name := name
  get o := .bool (get o)
  set
    | .bool value, o => some (set value o)
    | _, _ => none

/-- Options as an object. -/
def write (fields : List (OptionField σ)) (o : σ) : Json :=
  .object (fields.map fun f => (f.name, f.get o))

/-- Set the field that a member of an object names. -/
def setMember (fields : List (OptionField σ)) (o : σ) (member : String × Json) : Option σ :=
  match fields.find? (·.name == member.1) with
  | some f => f.set member.2 o
  | none => some o

/-- The options that a JSON value describes, over the defaults. -/
def read? (fields : List (OptionField σ)) (defaults : σ) : Json → Option σ
  | .object members =>
    if fields.all fun f => decide ((members.filter (·.1 == f.name)).length ≤ 1) then
      members.foldlM (setMember fields) defaults
    else none
  | .array values =>
    if values.length ≤ fields.length then
      (fields.zip values).foldlM (fun o (f, value) => f.set value o) defaults
    else none
  | _ => none

end OptionField

/-- The goal of the given name. -/
def Goal.ofName? : String → Option Goal
  | "script" => some .script
  | "module" => some .module
  | _ => none

namespace ParseOptions

/-- The field for the name of the source. -/
def sourceField : OptionField ParseOptions where
  name := "source"
  get o := .ofText? o.source
  set
    | .null, o => some { o with source := none }
    | .string name, o => some { o with source := some name }
    | _, _ => none

/-- The field for the goal: its name, or an object with its name as the one key and `null` behind it. -/
def goalField : OptionField ParseOptions where
  name := "sourceType"
  get o := .string o.goal.name
  set
    | .string name, o | .object [(name, .null)], o =>
      (Goal.ofName? name).map fun goal => { o with goal }
    | _, _ => none

/-- The fields that JSON knows, in their order. -/
def fields : List (OptionField ParseOptions) :=
  [.flag "range" range fun b o => { o with range := b },
    .flag "loc" loc fun b o => { o with loc := b },
    sourceField,
    goalField,
    .flag "jsx" jsx fun b o => { o with jsx := b },
    .flag "tolerant" tolerant fun b o => { o with tolerant := b },
    .flag "tokens" tokens fun b o => { o with tokens := b },
    .flag "comment" comment fun b o => { o with comment := b },
    .flag "attachComment" attachComment fun b o => { o with attachComment := b }]

/-- The options as JSON, all but the binding strengths. -/
def toJson (o : ParseOptions) : Json := OptionField.write fields o

/-- The options that a JSON value describes. -/
def ofJson? (json : Json) : Option ParseOptions := OptionField.read? fields {} json

end ParseOptions

namespace TokenizeOptions

/-- The fields that JSON knows, in their order. -/
def fields : List (OptionField TokenizeOptions) :=
  [.flag "range" range fun b o => { o with range := b },
    .flag "loc" loc fun b o => { o with loc := b },
    .flag "comment" comment fun b o => { o with comment := b },
    .flag "tolerant" tolerant fun b o => { o with tolerant := b }]

/-- The options as JSON. -/
def toJson (o : TokenizeOptions) : Json := OptionField.write fields o

/-- The options that a JSON value describes. -/
def ofJson? (json : Json) : Option TokenizeOptions := OptionField.read? fields {} json

end TokenizeOptions

end EcmaTree
