import EcmaTree.Proofs.Derivation.Program
import EcmaTree.Proofs.RoundTrip.Productions
import EcmaTree.Proofs.Recording.Found

/-!
# Parentheses override every table of strengths

A tree of names and operators is written with parentheses around every operator and its operands. Whatever strengths the
operators have, the text is read back as the tree: the scanner finds the lexemes of the tree in its text, and the
productions take them, by induction over the tree.
-/

namespace EcmaTree

/-- A name as it is spelled. `async` is left out, because a function may begin with it. -/
structure OperandName where
  spelling : String
  value : String
  scans : (Scan.only? spelling).any (·.isIdentifierNamed value) = true
  notAsync : value ≠ "async"

/-- Names joined by operators. -/
inductive OperatorTree where
  | name (n : OperandName)
  | join (op : BinaryOp) (left right : OperatorTree)

namespace OperatorTree

/-- The tree in parentheses. -/
def text : OperatorTree → String
  | name n => n.spelling
  | join op left right => "(" ++ left.text ++ " " ++ op.text ++ " " ++ right.text ++ ")"

/-- The node is the tree, wherever it stands in the source. -/
def HeldBy : OperatorTree → Node → Prop
  | name n, e => e.kind = .identifier n.value
  | join op left right, e => e.kind.typeName = (if op.isLogical then "LogicalExpression" else "BinaryExpression") ∧
      ∃ a b, e.kind = .binary op a b ∧ left.HeldBy a ∧ right.HeldBy b

/-- The lexemes of the text. -/
def lexemes : OperatorTree → List Lexeme
  | name n => [.identifier n.value]
  | join op left right =>
    .punctuator .leftParen :: (left.lexemes ++ op.lexeme :: (right.lexemes ++ [.punctuator .rightParen]))

/-- The number of operators around a name, where they are most. -/
def height : OperatorTree → Nat
  | name _ => 0
  | join _ left right => max left.height right.height + 1

theorem lexemes_cons (t : OperatorTree) : ∃ l ls, t.lexemes = l :: ls ∧ l.beginsOperand = true := by
  cases t with
  | name n => exact ⟨_, [], rfl, by simpa [Lexeme.beginsOperand] using n.notAsync⟩
  | join op left right => exact ⟨_, _, rfl, rfl⟩

theorem height_le (t : OperatorTree) : t.height ≤ t.text.utf8ByteSize := by
  induction t with
  | name n => exact Nat.zero_le _
  | join op left right ihl ihr =>
    simp only [height, text, String.utf8ByteSize_append]
    have : "(".utf8ByteSize = 1 := rfl
    omega

/-! ## The scanner -/

theorem endsWord_cons {ch : Char} {cs : List Char} (h : ch = ' ' ∨ ch = ')') : EndsWord (ch :: cs) := by
  rintro _ _ ⟨⟩
  exact h

theorem nextLexeme_operator (op : BinaryOp) (tail : List Char) :
    NextLexeme (op.text.toList ++ ' ' :: tail) op.lexeme (' ' :: tail) := by
  have ends : EndsWord (' ' :: tail) := endsWord_cons (.inl rfl)
  rcases op.lexeme_cases with ⟨p, hl, hp⟩ | ⟨hl, rfl | rfl⟩
  · rw [hl, Punctuator.binaryOp?_text hp, Punctuator.text, String.toList_ofList]
    exact .operator hp
  · exact .keyword (by decide +kernel) ends
  · exact .keyword (by decide +kernel) ends

theorem spells (t : OperatorTree) {tail : List Char} {ls : List Lexeme} (ends : EndsWord tail) (h : Spells tail ls) :
    Spells (t.text.toList ++ tail) (t.lexemes ++ ls) := by
  induction t generalizing tail ls with
  | name n => exact ⟨tail, .identifier n.scans ends, h⟩
  | join op left right ihl ihr =>
    -- From the end of the text to its beginning.
    have close : Spells (')' :: tail) (.punctuator .rightParen :: ls) := ⟨tail, .paren (.inr rfl), h⟩
    have rightSpells := (ihr (endsWord_cons (.inr rfl)) close).space
    have operator : Spells (op.text.toList ++ ' ' :: (right.text.toList ++ ')' :: tail))
      (op.lexeme :: (right.lexemes ++ .punctuator .rightParen :: ls)) := ⟨_, nextLexeme_operator op _, rightSpells⟩
    have leftSpells := ihl (endsWord_cons (.inl rfl)) operator.space
    have whole : Spells ('(' :: _) (.punctuator .leftParen :: _) := ⟨_, .paren (.inl rfl), leftSpells⟩
    simpa [text, lexemes] using whole

/-! ## The productions -/

/-- A name or an operator is an operand. -/
theorem HeldBy.isOperand {t : OperatorTree} {n : Node} (h : t.HeldBy n) : Parse.Takes.IsOperand n := by
  obtain ⟨i, kind⟩ := n
  cases t with
  | name => cases h; exact ⟨rfl, rfl⟩
  | join =>
    obtain ⟨-, a, b, hkind, -⟩ := h
    cases hkind
    exact ⟨rfl, rfl⟩

section

open Parse

variable {d : Dialect} {m : Lexeme} {ls : List Lexeme} {levels : Nat}

/-- What stands in the parentheses, once its operands are known to be taken. -/
theorem takes_inside (hd : d.strengths.Separates) (op : BinaryOp) (left right : OperatorTree)
    (hleft : ∀ {m ls}, m.endsOperand = true →
      Takes d (unary (atLevels (levels + 1))) (left.lexemes ++ m :: ls) (m :: ls) left.HeldBy)
    (hright : ∀ {levels' m ls}, levels ≤ levels' → m.endsOperand = true →
      Takes d (unary (atLevels levels')) (right.lexemes ++ m :: ls) (m :: ls) right.HeldBy) :
    Takes d (atLevels (levels + 2) .assignment)
      (left.lexemes ++ op.lexeme :: (right.lexemes ++ .punctuator .rightParen :: ls))
      (.punctuator .rightParen :: ls) (join op left right).HeldBy := by
  have hop : op.lexeme.endsOperand = true := by cases op <;> rfl
  obtain ⟨l, ls₁, hl, begins⟩ := left.lexemes_cons
  obtain ⟨l', ls₂, hl', -⟩ := right.lexemes_cons
  have leftTakes : Takes d _ (left.lexemes ++ op.lexeme :: (right.lexemes ++ .punctuator .rightParen :: ls)) _
    _ := hleft hop
  have rightTakes : Takes d _ (right.lexemes ++ .punctuator .rightParen :: ls) _ _ := hright (Nat.le_succ levels) rfl
  -- The right operand of `**` is read one level below its left one.
  have power : Takes d (atLevels (levels + 1) .exponentiation) (right.lexemes ++ .punctuator .rightParen :: ls)
      (.punctuator .rightParen :: ls) right.HeldBy :=
    .exponentiation (by simp) (fun _ => HeldBy.isOperand) (hright (Nat.le_refl levels) rfl)
  rw [hl'] at leftTakes rightTakes power ⊢
  have whole := Takes.operator hd .rightParen (fun _ => HeldBy.isOperand) (fun _ =>
    HeldBy.isOperand) leftTakes rightTakes power
  rw [hl] at whole ⊢
  refine .assignment begins .rightParen (fun _ => HeldBy.isOperand) (whole.mono fun n hn => ?_)
  obtain ⟨a, b, hkind, ha, hb⟩ := hn
  exact ⟨by rw [hkind]; rfl, a, b, hkind, ha, hb⟩

/-- Two levels for each operator are enough: a group nests an assignment, and `**` its right operand. -/
theorem takes_unary (hd : d.strengths.Separates) (t : OperatorTree) (hlevels : 2 * t.height ≤ levels)
    (hm : m.endsOperand = true) :
    Takes d (unary (atLevels levels)) (t.lexemes ++ m :: ls) (m :: ls) t.HeldBy := by
  induction t generalizing levels m ls with
  | name n => exact .unary (by simpa [Lexeme.beginsOperand] using n.notAsync) hm (.primary_name n.notAsync)
  | join op left right ihl ihr =>
    simp only [height] at hlevels
    obtain ⟨k, rfl⟩ : ∃ k, levels = k + 2 := ⟨levels - 2, by omega⟩
    have inside : Takes d (atLevels (k + 2) .assignment) _ (.punctuator .rightParen :: m :: ls) _ :=
      takes_inside hd op left right (fun hm => ihl (by omega) hm) fun hle hm => ihr (by omega) hm
    obtain ⟨l, ls₁, hl, begins⟩ := left.lexemes_cons
    rw [hl] at inside
    simpa [lexemes, hl] using Takes.unary rfl hm (.primary_group (.group begins hm inside))

/-- A program that is one statement, and that the tree. -/
def Makes (t : OperatorTree) (root : Node) : Prop := ∃ n, root.kind = .program .script [n] ∧ Takes.States t.HeldBy n

theorem takes_program (hd : d.strengths.Separates) (t : OperatorTree) (hlevels : 2 * t.height + 2 ≤ levels) :
    Takes d (program (atLevels levels)) (.endOfInput :: (t.lexemes ++ [.endOfInput])) [.endOfInput] t.Makes := by
  obtain ⟨k, rfl⟩ : ∃ k, levels = k + 2 := ⟨levels - 2, by omega⟩
  have operand : Takes d (unary (atLevels k)) (t.lexemes ++ [.endOfInput]) [.endOfInput] t.HeldBy :=
    takes_unary hd t (by omega) rfl
  obtain ⟨l, ls, hl, begins⟩ := t.lexemes_cons
  rw [hl] at operand ⊢
  have isOperand := fun n => HeldBy.isOperand (t := t) (n := n)
  have expression : Takes d (atLevels (k + 1) .assignment) (l :: (ls ++ [.endOfInput])) [.endOfInput] t.HeldBy :=
    .assignment begins .endOfInput isOperand (.binary hd .endOfInput (.exponentiation nofun isOperand operand))
  have item : Takes d (atLevels (k + 2) .listItem) (l :: (ls ++ [.endOfInput])) [.endOfInput] (Takes.States t.HeldBy) :=
    .listItem begins expression
  exact .program begins item

end

/-! ## What else is known of nodes -/

theorem HeldBy.mapInfo (g : NodeInfo → NodeInfo) {t : OperatorTree} {n : Node} (h : t.HeldBy n) :
    t.HeldBy (n.mapInfo g) := by
  induction t generalizing n with
  | name =>
    rw [HeldBy, Node.kind_mapInfo, show n.kind = _ from h]
    rfl
  | join op left right ihl ihr =>
    obtain ⟨htype, l, r, hkind, hl, hr⟩ := h
    rw [HeldBy, Node.kind_mapInfo, hkind]
    exact ⟨rfl, _, _, rfl, ihl hl, ihr hr⟩

theorem Makes.mapInfo (g : NodeInfo → NodeInfo) {t : OperatorTree} {root : Node} (h : t.Makes root) :
    t.Makes (root.mapInfo g) := by
  obtain ⟨n, hroot, e, hn, he⟩ := h
  refine ⟨n.mapInfo g, ?_, e.mapInfo g, ?_, he.mapInfo g⟩
  · rw [Node.kind_mapInfo, hroot]
    rfl
  · rw [Node.kind_mapInfo, hn]
    rfl

end OperatorTree

/-- A tree in parentheses is read back, whatever strengths its operators have. -/
theorem parseScript_parenthesized (t : OperatorTree) {o : ParseOptions} (h : (o.strengths.getD .none).Separates) :
    ∃ p statement n, parseScript t.text o = .ok p ∧ p.goal = .script ∧ p.body = [statement] ∧
      statement.kind = .expressionStatement n none ∧ t.HeldBy n := by
  have spelled : Spells t.text.toList (t.lexemes ++ [.endOfInput]) := by
    have ends : EndsWord [] := nofun
    simpa using t.spells ends Spells.end
  have levels : 2 * t.height + 2 ≤ Parse.levelsFor t.text.utf8ByteSize := by
    have := t.height_le
    unfold Parse.levelsFor
    omega
  obtain ⟨root, s, hs, -, made⟩ := OperatorTree.takes_program (d := { o with goal := .script }.dialect) h t levels _
    (Parse.ahead_initial rfl spelled)
  have held : t.Makes (Program.asked { o with goal := .script } root s).root := made.mapInfo _
  obtain ⟨statement, hroot, n, hstatement, hn⟩ := held
  refine ⟨_, statement, n, parse_eq_ok.2 ⟨root, s, hs, rfl⟩, ?_, ?_, hstatement, hn⟩
  · rw [Program.goal, hroot]
  · rw [Program.body, hroot]

/-- Names and operators of every kind. One of the names is spelled with an escape. -/
def OperatorTree.mixed : OperatorTree :=
  let a : OperatorTree := .name ⟨"a", "a", by decide +kernel, by decide⟩
  let b : OperatorTree := .name ⟨"b", "b", by decide +kernel, by decide⟩
  let c : OperatorTree := .name ⟨"\\u0063", "c", by decide +kernel, by decide⟩
  .join .and (.join .pow a (.join .coalesce b a)) (.join .or c (.join .inside b (.join .add a b)))

/-- Here `??` binds most tightly of all, and `&&` less tightly than `||`. -/
theorem parseScript_parenthesized_mixed :
    OperatorTree.mixed.text = "((a ** (b ?? a)) && (\\u0063 || (b in (a + b))))" ∧
      (Precedence.Override.ofList [("??", 20), ("&&", 1)]).Separates ∧
      ∃ p statement n,
        parseScript OperatorTree.mixed.text { strengths := some (.ofList [("??", 20), ("&&", 1)]) } = .ok p ∧
        p.goal = .script ∧ p.body = [statement] ∧ statement.kind = .expressionStatement n none ∧
          OperatorTree.mixed.HeldBy n :=
  ⟨by decide +kernel, by decide +kernel, parseScript_parenthesized .mixed (by decide +kernel)⟩

end EcmaTree
