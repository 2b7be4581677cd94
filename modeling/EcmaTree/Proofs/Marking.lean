import EcmaTree.Grammar.Program
import EcmaTree.Proofs.Tree
import Mathlib.Data.List.Basic

/-!
# Trees with something else known of their nodes

`Node.mapInfo` changes what is known of every node of a tree, and nothing that the nodes say. So whatever looks at what
nodes say finds the same, and a pattern that is made of an expression is marked as the expression was.
-/

namespace EcmaTree

namespace Kind

variable {α β γ : Type} {f f' : α → β} {k : Kind α}

theorem children_map (f : α → β) (k : Kind α) : (k.map f).children = k.children.map f := (k.map_spec f).1

theorem map_map (g : β → γ) : (k.map f).map g = k.map fun a => g (f a) := by
  cases k <;> simp [map, traverse, traverseOption_eq, traverseList_eq, traverseSparse_eq, Function.comp_def]

@[simp] theorem map_arrowParameters (params : List α) (async : Bool) :
    (arrowParameters params async).map f = arrowParameters (params.map f) async := by
  simp [map, traverse, traverseList_eq]

@[simp] theorem map_sequence (expressions : List α) : (sequence expressions).map f = sequence (expressions.map f) := by
  simp [map, traverse, traverseList_eq]

@[simp] theorem map_assignmentPattern (left right : α) :
    (assignmentPattern left right).map f = assignmentPattern (f left) (f right) := rfl

@[simp] theorem map_variableDeclarator (target : α) (init : Option α) :
    (variableDeclarator target init).map f = variableDeclarator (f target) (init.map f) := by
  simp [map, traverse, traverseOption_eq]

theorem map_option_congr {x : Option α} : x.map f = x.map f' ↔ ∀ a, x = some a → f a = f' a := by
  cases x <;> simp

/-- Only what is done with the children matters. -/
theorem map_congr (h : ∀ c ∈ k.children, f c = f' c) : k.map f = k.map f' := by
  cases k <;>
    simp_all [map, traverse, traverseOption_eq, traverseList_eq, traverseSparse_eq, children, map_option_congr]

end Kind

namespace Node

open Parse

variable (g : NodeInfo → NodeInfo) (n : Node)

@[simp] theorem info_mapInfo : (n.mapInfo g).info = g n.info := by
  obtain ⟨info, kind⟩ := n
  rw [mapInfo_mk]
  rfl

@[simp] theorem kind_mapInfo : (n.mapInfo g).kind = n.kind.map (mapInfo g) := by
  obtain ⟨info, kind⟩ := n
  rw [mapInfo_mk]
  rfl

theorem children_mapInfo : (n.mapInfo g).children = n.children.map (mapInfo g) := by
  rw [children, kind_mapInfo, Kind.children_map]
  rfl

theorem mapInfo_eq : n.mapInfo g = .mk (g n.info) (n.kind.map (mapInfo g)) := by
  obtain ⟨info, kind⟩ := n
  exact mapInfo_mk g info kind

/-- Trees may be marked twice at once. -/
theorem mapInfo_mapInfo (f : NodeInfo → NodeInfo) (n : Node) :
    (n.mapInfo g).mapInfo f = n.mapInfo fun info => f (g info) := by
  obtain ⟨info, kind⟩ := n
  rw [mapInfo_mk, mapInfo_mk, mapInfo_mk, Kind.map_map]
  exact congrArg (mk _) (Kind.map_congr fun c hc => mapInfo_mapInfo f c)
termination_by sizeOf n
decreasing_by
  exact sizeOf_lt_of_mem_children (n := .mk info kind) hc

/-- The nodes are walked in the same order. -/
theorem walkFrom_mapInfo (depth : Nat) (n : Node) :
    (n.mapInfo g).walkFrom depth = (n.walkFrom depth).map fun entry => (entry.1, entry.2.mapInfo g) := by
  rw [walkFrom_eq, walkFrom_eq, children_mapInfo, List.flatMap_map, List.map_cons, List.map_flatMap]
  exact congrArg (List.cons _) (List.flatMap_congr fun c hc => walkFrom_mapInfo (depth + 1) c)
termination_by sizeOf n
decreasing_by
  exact sizeOf_lt_of_mem_children hc

theorem walk_mapInfo : (n.mapInfo g).walk = n.walk.map fun entry => (entry.1, entry.2.mapInfo g) :=
  n.walkFrom_mapInfo g 0

/-! ## What nodes say -/

@[simp] theorem identifierName?_mapInfo : (n.mapInfo g).identifierName? = n.identifierName? := by
  rw [identifierName?, kind_mapInfo, identifierName?]
  cases n.kind <;> rfl

@[simp] theorem isIdentifier_mapInfo : (n.mapInfo g).isIdentifier = n.isIdentifier := by
  rw [isIdentifier, identifierName?_mapInfo, isIdentifier]

@[simp] theorem isAssignment_mapInfo : isAssignment (n.mapInfo g) = isAssignment n := by
  rw [isAssignment, kind_mapInfo, isAssignment]
  cases n.kind <;> rfl

@[simp] theorem isBlock_mapInfo : isBlock (n.mapInfo g) = isBlock n := by
  rw [isBlock, kind_mapInfo, isBlock]
  cases n.kind <;> rfl

@[simp] theorem isFragmentTag_mapInfo : isFragmentTag (n.mapInfo g) = isFragmentTag n := by
  rw [isFragmentTag, kind_mapInfo, isFragmentTag]
  cases n.kind <;> rfl

@[simp] theorem isGenerator_mapInfo : isGenerator (n.mapInfo g) = isGenerator n := by
  rw [isGenerator, kind_mapInfo, isGenerator]
  cases n.kind <;> rfl

@[simp] theorem isImport_mapInfo : isImport (n.mapInfo g) = isImport n := by
  rw [isImport, kind_mapInfo, isImport]
  cases n.kind <;> rfl

@[simp] theorem isPattern_mapInfo : isPattern (n.mapInfo g) = isPattern n := by
  rw [isPattern, kind_mapInfo, isPattern]
  cases n.kind <;> rfl

@[simp] theorem isSelfClosing_mapInfo : isSelfClosing (n.mapInfo g) = isSelfClosing n := by
  rw [isSelfClosing, kind_mapInfo, isSelfClosing]
  cases n.kind <;> rfl

@[simp] theorem isUnary_mapInfo : isUnary (n.mapInfo g) = isUnary n := by
  rw [isUnary, kind_mapInfo, isUnary]
  cases n.kind <;> rfl

@[simp] theorem isYield_mapInfo : isYield (n.mapInfo g) = isYield n := by
  rw [isYield, kind_mapInfo, isYield]
  cases n.kind <;> rfl

@[simp] theorem waitingFor?_mapInfo : waitingFor? (n.mapInfo g) = waitingFor? n := by
  rw [waitingFor?, kind_mapInfo, waitingFor?]
  cases n.kind <;> rfl

@[simp] theorem isKeyNamed_mapInfo (name : String) : isKeyNamed (n.mapInfo g) name = isKeyNamed n name := by
  rw [isKeyNamed, kind_mapInfo, isKeyNamed]
  cases n.kind with
  | literal value raw => cases value <;> rfl
  | _ => rfl

@[simp] theorem directiveText?_mapInfo (t : Token) : directiveText? t (n.mapInfo g) = directiveText? t n := by
  rw [directiveText?, kind_mapInfo, directiveText?]
  cases n.kind <;> rfl

@[simp] theorem isRestrictedName_mapInfo : isRestrictedName (n.mapInfo g) = isRestrictedName n := by
  rw [isRestrictedName, identifierName?_mapInfo, isRestrictedName]

@[simp] theorem qualifiedName_mapInfo (n : Node) : qualifiedName (n.mapInfo g) = qualifiedName n := by
  cases n with
  | mk info kind =>
    rw [mapInfo_mk]
    cases kind with
    | jsxNamespacedName space name =>
      simp [Kind.map, Kind.traverse, qualifiedName, qualifiedName_mapInfo space, qualifiedName_mapInfo name]
    | jsxMember owner field =>
      simp [Kind.map, Kind.traverse, qualifiedName, qualifiedName_mapInfo owner, qualifiedName_mapInfo field]
    | _ => rfl

/-! ## Patterns -/

mutual

/-- A pattern and the expression that it was are marked alike. -/
theorem mapInfo_toPattern : ∀ n : Node, n.toPattern.mapInfo g = (n.mapInfo g).toPattern
  | .mk info kind => by
    rw [toPattern, mapInfo_mk, mapInfo_mk, toPattern]
    cases kind with
    | array elements =>
      simp [kindToPattern, Kind.map, Kind.traverse, Kind.traverseSparse_eq, map_elementsToPatterns]
    | object members =>
      simp [kindToPattern, Kind.map, Kind.traverse, Kind.traverseList_eq, map_membersToPatterns]
    | spread argument =>
      simp [kindToPattern, Kind.map, Kind.traverse, mapInfo_toPattern argument]
    | assignment op left right =>
      simp [kindToPattern, Kind.map, Kind.traverse, mapInfo_toPattern left]
    | _ => rfl

theorem map_elementsToPatterns : ∀ elements : List (Option Node),
    (elementsToPatterns elements).map (Option.map (mapInfo g)) =
      elementsToPatterns (elements.map (Option.map (mapInfo g)))
  | [] => rfl
  | none :: elements => by simp [elementsToPatterns, map_elementsToPatterns elements]
  | some element :: elements => by
    simp [elementsToPatterns, map_elementsToPatterns elements, mapInfo_toPattern element]

theorem map_membersToPatterns : ∀ members : List Node,
    (membersToPatterns members).map (mapInfo g) = membersToPatterns (members.map (mapInfo g))
  | [] => rfl
  | .mk info kind :: members => by
    cases kind with
    | spread argument =>
      simp [membersToPatterns, mapInfo_mk, Kind.map, Kind.traverse, mapInfo_toPattern argument,
        map_membersToPatterns members]
    | property kind key value =>
      simp [membersToPatterns, mapInfo_mk, Kind.map, Kind.traverse, mapInfo_toPattern value,
        map_membersToPatterns members]
    | _ => simp [membersToPatterns, mapInfo_mk, map_membersToPatterns members, Kind.map, Kind.traverse]

end

mutual

/-- A pattern binds the same names, whatever is known of its nodes. -/
@[simp] theorem boundNames_mapInfo : ∀ n : Node, (n.mapInfo g).boundNames = n.boundNames
  | .mk info kind => by
    rw [mapInfo_mk, boundNames, boundNames]
    cases kind with
    | rest argument => simpa [Kind.map, Kind.traverse, kindBoundNames] using boundNames_mapInfo argument
    | assignmentPattern left => simpa [Kind.map, Kind.traverse, kindBoundNames] using boundNames_mapInfo left
    | arrayPattern elements =>
      simpa [Kind.map, Kind.traverse, Kind.traverseSparse_eq, kindBoundNames] using
        elementsBoundNames_mapInfo elements
    | objectPattern members =>
      simpa [Kind.map, Kind.traverse, Kind.traverseList_eq, kindBoundNames] using membersBoundNames_mapInfo members
    | _ => rfl

theorem elementsBoundNames_mapInfo : ∀ elements : List (Option Node),
    elementsBoundNames (elements.map (Option.map (mapInfo g))) = elementsBoundNames elements
  | [] => rfl
  | none :: elements => by simp [elementsBoundNames, elementsBoundNames_mapInfo elements]
  | some element :: elements => by
    simp [elementsBoundNames, elementsBoundNames_mapInfo elements, boundNames_mapInfo element]

theorem membersBoundNames_mapInfo : ∀ members : List Node,
    membersBoundNames (members.map (mapInfo g)) = membersBoundNames members
  | [] => rfl
  | .mk info kind :: members => by
    have rest := membersBoundNames_mapInfo members
    have same := boundNames_mapInfo (.mk info kind)
    rw [mapInfo_mk] at same
    rw [List.map_cons, mapInfo_mk]
    cases kind with
    | property kind key value =>
      simp [membersBoundNames, Kind.map, Kind.traverse, rest, boundNames_mapInfo value]
    | _ => exact congrArg₂ (· ++ ·) same rest

end

end Node

end EcmaTree
