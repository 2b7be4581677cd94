import EcmaTree.Grammar.Binding
import EcmaTree.Lexer.Jsx

/-!
# JSX

An element is read with the tokens of JSX, which keep no token ahead: the lookahead of the grammar around it
stays behind, and reading goes back to where it began. An expression in braces is read with the ordinary tokens
again; its closing brace becomes a lookahead, from which JSX goes on. Elements inside an element are kept on a
stack, those in the value of an attribute are nested.
-/

namespace EcmaTree.Parse

/-! ## Tokens -/

/-- Go back to the beginning of the lookahead (`start_jsx`). -/
def enterJsx : Parse Unit := modify fun s => { s with scanner.cursor := s.start }

/-- Forget the last listed token, which is read again. -/
def unlist : Parse Unit := modify fun s => { s with record := s.record.unlist }

/-- Read the `<` that is the lookahead again, as the beginning of an element. -/
def startJsx : Parse Unit := do
  unlist
  enterJsx

/-- Where the scanner stands (`create_jsx_child_node`). -/
def scannerPlace : Parse Place := return (← get).scanner.cursor.place

/-- Where a node begins whose first token of JSX comes next (`create_jsx_node`). -/
def markJsx : Parse Place := do
  skipTrivia
  scannerPlace

/-- Read a token, and consume it (`next_jsx_token`). -/
def nextJsx : Parse Token := do
  skipTrivia
  modify fun s => { s with start := s.scanner.cursor }
  let t ← scan Scan.jsxToken
  modify fun s => { s with last := s.scanner.cursor.place, record := s.listing t }
  return t

/-- Read the text up to the next brace or tag, and consume it (`next_jsx_text`). -/
def nextJsxText : Parse Token := do
  modify fun s => { s with start := s.scanner.cursor }
  let t ← scan Scan.jsxText
  modify fun s =>
    { s with
      last := s.scanner.cursor.place
      record := if t.start < t.stop then s.listing t else s.record }
  return t

/-- Consume the punctuator `p` (`expect_jsx`). -/
def expectJsx (p : Punctuator) : Parse Unit := do
  let t ← nextJsx
  unless t.isPunctuator p do failAt t

/-- Is the next token the punctuator `p` (`match_jsx`)? -/
def checkJsx (p : Punctuator) : Parse Bool := do
  let t ← scan <| Scan.lookAhead do
    discard Scan.skipTrivia
    Scan.jsxToken
  return t.isPunctuator p

/-- Go over to ordinary tokens behind an opening brace (`enter_expression`). -/
def leaveJsx : Parse Unit := do
  modify fun s => { s with scanner.regions := .braces :: s.scanner.regions }
  skip

/-- Go on behind the closing brace of an expression, which is the lookahead (`reenter_jsx`). -/
def reenterJsx : Parse Unit := do
  enterJsx
  expectJsx .rightBrace
  unlist

/-! ## Names and attributes -/

/-- A name (`parse_jsx_identifier`). -/
def jsxIdentifier : Parse Node := do
  let start ← markJsx
  let t ← nextJsx
  match t.lexeme with
  | .jsxIdentifier name => finish start (.jsxIdentifier name)
  | _ => failAt t

/-- What follows the colon of a name in a namespace. -/
def jsxNamespaced (start : Place) (space : Node) : Parse Node := do
  expectJsx .colon
  let name ← jsxIdentifier
  finish start (.jsxNamespacedName space name)

/-- The name of an element: a name, perhaps in a namespace, or a path of names (`parse_jsx_element_name`). -/
def jsxElementName : Parse Node := do
  let start ← markJsx
  let first ← jsxIdentifier
  if ← checkJsx .colon then jsxNamespaced start first
  else loop first fun owner => do
    if ← checkJsx .dot then
      expectJsx .dot
      let field ← jsxIdentifier
      return .more (← finish start (.jsxMember owner field))
    else return .done owner

/-- The name of an attribute (`parse_jsx_attribute_name`). -/
def jsxAttributeName : Parse Node := do
  let start ← markJsx
  let first ← jsxIdentifier
  if ← checkJsx .colon then jsxNamespaced start first else return first

variable (nested : Nested)

/-- An expression in braces as the value of an attribute (`parse_jsx_expression_attribute`). -/
def jsxExpressionValue : Parse Node := do
  let start ← markJsx
  expectJsx .leftBrace
  leaveJsx
  if ← check .rightBrace then tolerateHere .emptyAttribute
  let e ← nested .assignment
  reenterJsx
  finish start (.jsxExpressionContainer e)

/-- A string as the value of an attribute (`parse_jsx_string_literal_attribute`). -/
def jsxStringValue : Parse Node := do
  let start ← markJsx
  let t ← nextJsx
  if t.isString then finish start (literalOf t) else failAt t

/-- The value of an attribute (`parse_jsx_attribute_value`). -/
def jsxAttributeValue : Parse Node := do
  if ← checkJsx .leftBrace then jsxExpressionValue nested
  else if ← checkJsx .lt then nested .jsxElement
  else jsxStringValue

/-- An attribute with a name (`parse_jsx_name_value_attribute`). -/
def jsxNamedAttribute : Parse Node := do
  let start ← markJsx
  let name ← jsxAttributeName
  let value ←
    if ← checkJsx .assign then
      expectJsx .assign
      pure (some (← jsxAttributeValue nested))
    else pure none
  finish start (.jsxAttribute name value)

/-- Attributes spread from an object (`parse_jsx_spread_attribute`). -/
def jsxSpreadAttribute : Parse Node := do
  let start ← markJsx
  expectJsx .leftBrace
  expectJsx .ellipsis
  leaveJsx
  let argument ← nested .assignment
  reenterJsx
  finish start (.jsxSpreadAttribute argument)

/-- Is the end of a tag ahead? -/
def atTagEnd : Parse Bool := do
  if ← checkJsx .slash then return true else checkJsx .gt

/-- The attributes of a tag (`parse_jsx_attributes`). -/
def jsxAttributes : Parse (List Node) := manyBefore atTagEnd do
  if ← checkJsx .leftBrace then jsxSpreadAttribute nested else jsxNamedAttribute nested

/-! ## Tags -/

/-- An opening tag behind its `<` (`parse_jsx_opening_rest`). -/
def jsxOpeningRest (start : Place) : Parse Node := do
  let name ← jsxElementName
  let attributes ← jsxAttributes nested
  let selfClosing ← checkJsx .slash
  if selfClosing then expectJsx .slash
  expectJsx .gt
  finish start (.jsxOpeningElement name attributes selfClosing)

/-- An opening tag, of an element or of a fragment (`parse_jsx_opening_element`). -/
def jsxOpening : Parse Node := do
  let start ← markJsx
  expectJsx .lt
  if ← checkJsx .gt then
    expectJsx .gt
    finish start .jsxOpeningFragment
  else jsxOpeningRest nested start

/-- A tag inside an element: it opens another element, or closes an element or a fragment
(`parse_jsx_boundary_element`). -/
def jsxTag : Parse Node := do
  let start ← markJsx
  expectJsx .lt
  if ← checkJsx .slash then
    expectJsx .slash
    if ← checkJsx .gt then
      expectJsx .gt
      finish start .jsxClosingFragment
    else
      let name ← jsxElementName
      expectJsx .gt
      finish start (.jsxClosingElement name)
  else jsxOpeningRest nested start

/-! ## Elements -/

/-- What stands in braces without an expression: trivia (`parse_jsx_empty_expression`). -/
def jsxEmptyExpression : Parse Node := do
  let start ← scannerPlace
  skipTrivia
  modify fun s => { s with last := s.scanner.cursor.place }
  finish start .jsxEmptyExpression

/-- An expression in braces between tags, or braces without one (`parse_jsx_expression_container`). -/
def jsxExpressionChild : Parse Node := do
  let start ← markJsx
  expectJsx .leftBrace
  let e ←
    if ← checkJsx .rightBrace then
      let empty ← jsxEmptyExpression
      expectJsx .rightBrace
      pure empty
    else
      leaveJsx
      let e ← nested .assignment
      reenterJsx
      pure e
  finish start (.jsxExpressionContainer e)

/-- The text up to the next brace or tag, if there is any. -/
def jsxTextChild : Parse (Option Node) := do
  let start ← scannerPlace
  let t ← nextJsxText
  if t.start < t.stop then return some (← finish start (.jsxText t.text t.raw)) else return none

/-- The texts and the braces before the next tag (`parse_jsx_children`). -/
def jsxChildren : Parse (List Node) := do
  let children ← loop ([] : List Node) fun children => do
    if (← get).scanner.cursor.atEnd then return .done children
    let text ← jsxTextChild
    let children := text.toList ++ children
    if (← get).scanner.cursor.startsWith '\x7b' then
      return .more ((← jsxExpressionChild nested) :: children)
    else return .done children
  return children.reverse

/-- The name of an element as it is written (`qualified_element_name`). -/
def qualifiedName : Node → String
  | .mk _ (.jsxIdentifier name) => name
  | .mk _ (.jsxNamespacedName space name) => qualifiedName space ++ ":" ++ qualifiedName name
  | .mk _ (.jsxMember owner field) => qualifiedName owner ++ "." ++ qualifiedName field
  | _ => ""

/-- Is the tag that of a fragment? -/
def isFragmentTag (tag : Node) : Bool :=
  match tag.kind with
  | .jsxOpeningFragment | .jsxClosingFragment => true
  | _ => false

/-- An element whose closing tag has not been met yet. -/
structure OpenElement where
  start : Place
  opening : Node
  /-- What has been read between the tags, last one first. -/
  content : List Node := []
  closing : Option Node := none

/-- What an element says (`element_kind`). -/
def OpenElement.kind (e : OpenElement) : Kind Node :=
  match e.closing with
  | some closing =>
    if isFragmentTag e.opening && isFragmentTag closing then
      .jsxFragment e.opening e.content.reverse closing
    else .jsxElement e.opening e.content.reverse (some closing)
  | none => .jsxElement e.opening e.content.reverse none

/-- The element with one more child. -/
def OpenElement.add (e : OpenElement) (child : Node) : OpenElement :=
  { e with content := child :: e.content }

/-- Check that a closing tag has the name of the opening one. -/
def checkClosingName (opening name : Node) : Parse Unit := do
  match opening.kind with
  | .jsxOpeningElement expected _ _ =>
    if qualifiedName expected != qualifiedName name then
      tolerateHere (.closingTag (qualifiedName expected))
  | _ => tolerateHere .closingFragment

/-- Take a tag inside the element `e`, where `stack` holds the elements around it. -/
def takeTag (e : OpenElement) (stack : List OpenElement) (start : Place) (tag : Node) :
    Parse (Progress (OpenElement × List OpenElement)) := do
  match tag.kind with
  | .jsxOpeningElement _ _ true =>
    let child ← finish start (OpenElement.kind { start, opening := tag })
    return .more (e.add child, stack)
  | .jsxOpeningElement _ _ false => return .more ({ start, opening := tag }, e :: stack)
  | .jsxClosingElement name =>
    checkClosingName e.opening name
    let e := { e with closing := some tag }
    match stack with
    | [] => return .done (e, [])
    | parent :: stack =>
      let child ← finish e.start e.kind
      return .more (parent.add child, stack)
  | .jsxClosingFragment =>
    let closed := { e with closing := some tag }
    if isFragmentTag e.opening then return .done (closed, stack)
    tolerateHere .closingFragment
    return .more (closed, stack)
  | _ => return .more (e, stack)

/-- What follows the opening tag of an element, up to its closing tag or to the end of the source
(`parse_complex_jsx_element`). -/
def jsxContent (e : OpenElement) : Parse OpenElement := do
  let (e, _) ← loop (e, ([] : List OpenElement)) fun (e, stack) => do
    if (← get).scanner.cursor.atEnd then return .done (e, stack)
    let children ← jsxChildren nested
    let e := { e with content := children.reverse ++ e.content }
    let start ← scannerPlace
    let tag ← jsxTag nested
    takeTag e stack start tag
  return e

/-- Does the tag close itself? -/
def isSelfClosing (tag : Node) : Bool :=
  match tag.kind with
  | .jsxOpeningElement _ _ selfClosing => selfClosing
  | _ => false

/-- An element or a fragment (`parse_jsx_element`). -/
def jsxElement : Parse Node := do
  let start ← markJsx
  let opening ← jsxOpening nested
  let e : OpenElement := { start, opening }
  let e ← if isSelfClosing opening then pure e else jsxContent nested e
  finish start e.kind

/-- An element where an expression is expected and `<` is the lookahead (`parse_jsx_root`). -/
def jsxExpression : Parse Node := do
  startJsx
  let element ← jsxElement nested
  skip
  return element

end EcmaTree.Parse
