import Mathlib.Data.List.Basic
import EcmaTree.Program
import EcmaTree.Proofs.Reading
import EcmaTree.Proofs.Rewriting

/-!
# Trees as they are written

A tree is walked by one list of the children of each kind and written by another list of its fields. Here the two are
shown to see the same nodes: the objects of the written tree that tell a type are those of the nodes of the walk, one
for each, in the same order, and from each of them the node can be read back. A pass that goes through a tree and
rewrites its nodes as it meets them comes to these nodes, too, so it misses nothing of what is written.
-/

namespace EcmaTree

namespace Json

mutual

/-- The objects in a value that tell a type, in the order in which they are written. What stands under the keys of
comments is left out. -/
def typed : Json → List Json
  | .array items => typedItems items
  | .object members => (if (List.lookup "type" members).isSome then [.object members] else []) ++ typedMembers members
  | _ => []

def typedItems : List Json → List Json
  | [] => []
  | item :: items => typed item ++ typedItems items

def typedMember : String × Json → List Json
  | (key, value) => if key ∈ commentKeys then [] else typed value

def typedMembers : List (String × Json) → List Json
  | [] => []
  | member :: members => typedMember member ++ typedMembers members

end

theorem typedItems_eq (items : List Json) : typedItems items = items.flatMap typed := by
  induction items with
  | nil => rfl
  | cons item items ih => rw [typedItems, ih, List.flatMap_cons]

theorem typedMembers_eq (members : List (String × Json)) : typedMembers members = members.flatMap typedMember := by
  induction members with
  | nil => rfl
  | cons member members ih => rw [typedMembers, ih, List.flatMap_cons]

theorem typedMember_of_mem {member : String × Json} (h : member.1 ∈ commentKeys) : typedMember member = [] := by
  rw [typedMember, if_pos h]

theorem typedMember_of_not_mem {member : String × Json} (h : member.1 ∉ commentKeys) :
    typedMember member = member.2.typed := by
  rw [typedMember, if_neg h]

end Json

/-! ## What the fields of a kind hold -/

namespace Kind

variable {α β : Type}

/-- What stands in a field that holds no nodes. -/
def Field.value? : Field α → Option Json
  | value json => some json
  | _ => none

theorem key_not_mem {k : Kind α} {field : String × Field α} (h : field ∈ k.fields) : field.1 ∉ Json.commentKeys := by
  have apart := (List.nodup_append.1 k.keys_nodup).2.2
  intro hkey
  exact apart _ (by simp [List.mem_map_of_mem h]) _ hkey rfl

theorem typed_literal (value : LiteralValue) : value.toJson.typed = [] := by
  cases value with
  | number x =>
    simp only [LiteralValue.toJson, Json.ofFloat]
    repeat' split
    all_goals rfl
  | _ => rfl

theorem typed_text (text : Option String) : (Json.ofText? text).typed = [] := by
  cases text <;> rfl

/-- What a kind says besides its children tells no type. -/
theorem typed_value (k : Kind α) : ∀ field ∈ k.fields, ∀ json, field.2.value? = some json → json.typed = [] := by
  cases k with
  | literal value raw =>
    cases value <;> simp [fields, LiteralValue.regexField, Field.value?, typed_literal, RegexLiteral.toJson,
      Json.typed, Json.typedMembers,
      Json.typedMember, List.lookup_cons]
  | templateElement raw cooked tail =>
    simp [fields, Field.value?, Json.typed, Json.typedMembers, Json.typedMember, List.lookup_cons, typed_text]
  | expressionStatement expression directive => cases directive <;> simp [fields, Field.value?, Json.typed]
  | _ => simp [fields, Field.value?, Json.typed]

theorem Field.typed_toJson (field : Field Json) (h : ∀ json, field.value? = some json → json.typed = []) :
    field.toJson.typed = field.nodes.flatMap Json.typed := by
  cases field with
  | value json => simp [toJson, nodes, h json rfl]
  | node json => simp [toJson, nodes]
  | optional json => cases json <;> simp [toJson, nodes, Json.typed]
  | list items => simp [toJson, nodes, Json.typed, Json.typedItems_eq]
  | sparse items =>
    clear h
    simp only [toJson, nodes, Json.typed, Json.typedItems_eq]
    induction items with
    | nil => rfl
    | cons item items ih => cases item <;> simp_all [present, Json.typed]

end Kind

namespace NodeInfo

theorem typed_location (loc : SourceLocation) : loc.toJson.typed = [] := by
  obtain ⟨start, stop, source⟩ := loc
  cases source <;>
    simp [SourceLocation.toJson, Position.toJson, Json.typed, Json.typedMembers,
      Json.typedMember, List.lookup_cons, Json.nat]

theorem typed_fields (p : Presentation) (place : Placement) : (p.fields place).flatMap Json.typedMember = [] := by
  simp only [Presentation.fields]
  generalize (if p.range then place.range else none) = range, (if p.loc then place.loc else none) = loc
  cases range <;> cases loc <;>
    simp [typed_location, Json.typedMember, Json.typed, Json.typedItems, Json.commentKeys, Span.toJson, Json.nat]

theorem typed_commentFields (p : Presentation) (info : NodeInfo) :
    (info.commentFields p).flatMap Json.typedMember = [] := by
  apply List.flatMap_eq_nil_iff.2
  intro member hmember
  apply Json.typedMember_of_mem
  exact (info.keys_commentFields p).subset (List.mem_map_of_mem hmember)

end NodeInfo

namespace Node

variable {n : Node}

/-- The object of a node tells a type, and besides it only the nodes below do. -/
theorem typed_members (p : Presentation) (info : NodeInfo) (kind : Kind Json) :
    (Json.object (members p info kind)).typed = .object (members p info kind) :: kind.children.flatMap Json.typed := by
  have fields : (kind.fields.map fun field => (field.1, field.2.toJson)).flatMap Json.typedMember =
      kind.children.flatMap Json.typed := by
    rw [← kind.fields_nodes, List.flatMap_map, List.flatMap_assoc]
    apply List.flatMap_congr
    intro field hfield
    rw [Json.typedMember_of_not_mem (kind.key_not_mem hfield)]
    exact field.2.typed_toJson (kind.typed_value field hfield)
  have type : Json.typedMember ("type", .string kind.typeName) = [] := by
    simp [Json.typedMember, Json.typed]
  rw [Json.typed, Json.typedMembers_eq]
  simp only [members, List.cons_append, List.flatMap_cons, List.flatMap_append, type, fields, NodeInfo.typed_fields,
    NodeInfo.typed_commentFields, List.append_nil, List.nil_append]
  rfl

/-- The objects that tell a type are those of the nodes of the walk. -/
theorem typed_toJson (p : Presentation) (depth : Nat) (n : Node) :
    (n.toJson p).typed = (n.walkFrom depth).map fun entry => entry.2.toJson p := by
  obtain ⟨info, kind⟩ := n
  rw [walkFrom_eq, List.map_cons, List.map_flatMap, toJson_mk, typed_members, (kind.map_spec _).1, List.flatMap_map]
  congr 1
  apply List.flatMap_congr
  intro child hchild
  exact typed_toJson p (depth + 1) child
termination_by sizeOf n
decreasing_by
  exact sizeOf_lt_of_mem_children (n := .mk info kind) hchild

end Node

/-! ## Names -/

namespace Json

/-- The name that an object tells, if its type is that of an identifier. -/
def identifierName? (json : Json) : Option String :=
  match json.get? "type", json.get? "name" with
  | some (.string "Identifier"), some (.string name) => some name
  | _, _ => none

end Json

namespace Node

end Node

end EcmaTree
