import EcmaTree.Options.Json
import EcmaTree.Presentation
import EcmaTree.Proofs.Tree

/-!
# Reading written nodes back

What one node says can be read back from the object under which it is written: the type names the constructor, and
what the node says besides, and the nodes below it, stand under keys of their own. Only a number is read as it is
written, and one that is not finite is written like `null`.
-/

namespace EcmaTree

namespace Json

/-! ## Members -/

/-- The text under a key. -/
def text? (key : String) (json : Json) : Option String :=
  match json.get? key with
  | some (.string text) => some text
  | _ => none

end Json

namespace Json

/-- The count under a key. -/
def count? (key : String) (json : Json) : Option Nat :=
  match json.get? key with
  | some (.int (.ofNat count)) => some count
  | _ => none

/-- A first and a last offset. -/
def span? : Json → Option Span
  | .array [.int (.ofNat start), .int (.ofNat stop)] => some ⟨start, stop⟩
  | _ => none

/-- A line and a column. -/
def position? (json : Json) : Option Position := do return ⟨← json.count? "line", ← json.count? "column"⟩

/-- The lines and columns, and the name of the source if it is there. -/
def location? (json : Json) : Option SourceLocation := do
  return ⟨← (← json.get? "start").position?, ← (← json.get? "end").position?, json.text? "source"⟩

/-- What an object says of the place of an item. -/
def placement (json : Json) : Placement where
  range := json.get? "range" >>= span?
  loc := json.get? "loc" >>= location?

/-- The keys of an object. -/
def keys : Json → List String
  | .object members => members.map Prod.fst
  | _ => []

/-- The keys under which the comments of a node are written. -/
def commentKeys : List String := ["leadingComments", "trailingComments", "innerComments"]

end Json

/-- What is written of the place of an item. -/
def Presentation.shown (p : Presentation) (place : Placement) : Placement where
  range := if p.range then place.range else none
  loc := if p.loc then place.loc else none

theorem NodeInfo.keys_commentFields (p : Presentation) (info : NodeInfo) :
    ((info.commentFields p).map Prod.fst).Sublist Json.commentKeys := by
  have one (key : String) (comments : List Comment) : ((commentField p key comments).map Prod.fst).Sublist [key] := by
    rw [commentField]
    split <;> simp
  rw [commentFields, List.map_append, List.map_append]
  exact ((one _ _).append (one _ _)).append (one _ _)

/-- No key is written twice: neither those of the fields nor those of what is written around them. -/
theorem Kind.keys_nodup {α : Type} (k : Kind α) :
    ("type" :: k.fields.map Prod.fst ++ ["range", "loc"] ++ Json.commentKeys).Nodup := by
  cases k with
  | literal value raw => cases value <;> simp [fields, LiteralValue.regexField, Json.commentKeys]
  | expressionStatement expression directive => cases directive <;> simp [fields, Json.commentKeys]
  | _ => simp [fields, Json.commentKeys]

namespace Json

variable {json : Json} {key : String} {numeral : Json → Float} (p : Presentation) (info : NodeInfo)

theorem position?_toJson (position : Position) : position.toJson.position? = some position := rfl

end Json

theorem Node.toJson_mk (p : Presentation) (info : NodeInfo) (kind : Kind Node) :
    (mk info kind).toJson p = .object (members p info (kind.map (toJson p))) := by
  rw [toJson, fold]
  rfl

end EcmaTree
