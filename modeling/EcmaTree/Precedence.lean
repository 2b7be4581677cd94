/-!
# Binding strengths

Every binary operator that is a punctuator has a strength; a higher one binds tighter, and zero means that
the punctuator is no operator. Callers may give other strengths to the punctuators of the table, and to
those only.
-/

namespace EcmaTree.Precedence

/-- The strengths that hold unless they are overridden (`PrecedenceTable`). -/
def defaults : List (String × Nat) :=
  [(")", 0), (";", 0), (",", 0), ("=", 0), ("]", 0),
    ("??", 5), ("||", 6), ("&&", 7), ("|", 8), ("^", 9), ("&", 10),
    ("==", 11), ("!=", 11), ("===", 11), ("!==", 11),
    ("<", 12), (">", 12), ("<=", 12), (">=", 12),
    ("<<", 13), (">>", 13), (">>>", 13),
    ("+", 14), ("-", 14), ("*", 15), ("/", 15), ("%", 15)]

/-- The strength of the operators `in` and `instanceof`, which are not in the table. -/
def relationalKeyword : Nat := 12

/-- Other strengths: a number for an operator, or no opinion (`with_override`). -/
abbrev Override := String → Option Nat

/-- The strength of an operator (`get`). Those that are not in the table have none, whatever the override says. -/
def strength (override : Override) (operator : String) : Nat :=
  match List.lookup operator defaults with
  | none => 0
  | some usual => (override operator).getD usual

/-- The override that has no opinion. -/
def Override.none : Override := fun _ => Option.none

/-- The override that a list of operators and strengths describes. -/
def Override.ofList (entries : List (String × Nat)) : Override :=
  fun operator => List.lookup operator entries

theorem strength_none (operator : String) :
    strength .none operator = (List.lookup operator defaults).getD 0 := by
  unfold strength
  cases List.lookup operator defaults <;> rfl

theorem strength_of_not_mem {operator : String} (h : List.lookup operator defaults = Option.none)
    (override : Override) : strength override operator = 0 := by
  simp [strength, h]

end EcmaTree.Precedence
