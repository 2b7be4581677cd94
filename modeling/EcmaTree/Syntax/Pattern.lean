import EcmaTree.Syntax.Node

/-!
# Expressions as patterns

What was read as an array, an object or an assignment may turn out to be a pattern. `Node.toPattern` says the
same nodes again as patterns: it changes kinds only. Nodes that are patterns already, and those that can be
none, stay as they are. `Node.boundNames` lists the names that a pattern binds.
-/

namespace EcmaTree.Node

mutual

/-- The node as a pattern (`reinterpret_as_pattern`). -/
def toPattern : Node → Node
  | .mk info kind => .mk info (kindToPattern kind)

/-- What a node says as a pattern. -/
def kindToPattern : Kind Node → Kind Node
  | .spread argument => .rest (toPattern argument)
  | .array elements => .arrayPattern (elementsToPatterns elements)
  | .object members => .objectPattern (membersToPatterns members)
  | .assignment _ left right => .assignmentPattern (toPattern left) right
  | kind => kind

/-- The elements of an array as patterns. -/
def elementsToPatterns : List (Option Node) → List (Option Node)
  | [] => []
  | none :: elements => none :: elementsToPatterns elements
  | some element :: elements => some (toPattern element) :: elementsToPatterns elements

/-- The members of an object as those of an object pattern (`reinterpret_property`). -/
def membersToPatterns : List Node → List Node
  | [] => []
  | .mk info (.spread argument) :: members =>
    .mk info (.rest (toPattern argument)) :: membersToPatterns members
  | .mk info (.property kind key value computed method shorthand) :: members =>
    .mk info (.property kind key (toPattern value) computed method shorthand) ::
      membersToPatterns members
  | member :: members => member :: membersToPatterns members

end

mutual

/-- The names that a pattern binds, in the order of the source. -/
def boundNames : Node → List String
  | .mk _ kind => kindBoundNames kind

/-- The names that a pattern of the given kind binds. -/
def kindBoundNames : Kind Node → List String
  | .identifier name => [name]
  | .rest argument => boundNames argument
  | .assignmentPattern left _ => boundNames left
  | .arrayPattern elements => elementsBoundNames elements
  | .objectPattern members => membersBoundNames members
  | _ => []

/-- The names that the elements of an array pattern bind. -/
def elementsBoundNames : List (Option Node) → List String
  | [] => []
  | none :: elements => elementsBoundNames elements
  | some element :: elements => boundNames element ++ elementsBoundNames elements

/-- The names that the members of an object pattern bind. -/
def membersBoundNames : List Node → List String
  | [] => []
  | .mk _ (.property _ _ value ..) :: members => boundNames value ++ membersBoundNames members
  | member :: members => boundNames member ++ membersBoundNames members

end

end EcmaTree.Node
