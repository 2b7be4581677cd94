import EcmaTree.Program
import EcmaTree.Proofs.Derivation.Module
import EcmaTree.Proofs.Recording.Found
import EcmaTree.Proofs.Tokens

/-!
# Strict parses give back trees of the grammar

The productions give back trees of the grammar if those that they nest do; so they do at every number of levels.
-/

namespace EcmaTree

namespace Parse

variable {source : String} {nested : Nested}

theorem step_sound (hn : Sound source nested) : Sound source (step nested) where
  assignment outer := assignment_derived outer hn
  opens := assignment_opens
  unary outer := unary_derived outer hn
  exponentiation outer := exponentiation_derived outer hn
  callee outer := callee_derived outer hn
  callChain outer := callChain_derived outer hn
  pattern outer := pattern_derived outer hn
  binds kind := pattern_binds (hn.binds kind) (hn.binds none)
  statement := statement_derived hn
  listItem := listItem_derived hn
  jsxElement outer := jsxElement_derived outer hn

theorem exhausted_stops {α : Type} : Stops (throw .exhausted : Parse α) := fun _ _ _ _ h => by cases h

theorem exhausted_opens : Opens (throw .exhausted) := fun _ _ _ _ h => by cases h

theorem atLevels_sound (source : String) : (levels : Nat) → Sound source (atLevels levels)
  | 0 => by
    constructor
    case opens => exact exhausted_opens
    case pattern => exact fun _ _ _ _ => exhausted_stops.yields
    case binds => exact fun _ _ _ _ h => by cases h
    case statement => exact fun _ _ => exhausted_stops.yields
    case listItem => exact fun _ _ => exhausted_stops.yields
    all_goals exact fun _ _ _ => exhausted_stops.yields
  | levels + 1 => step_sound (atLevels_sound source levels)

/-! ## Programs -/

theorem opening_keeps : Keeps source .entering .ahead opening fun _ => True :=
  .bind .skip fun _ _ E c => by
    rintro s hs rfl rfl _ _ ⟨⟩
    exact ⟨hs.congr rfl rfl, rfl, rfl, trivial⟩

/-- A module is strict, and nothing else encloses a program. -/
theorem program_yields (hn : Sound source nested) {E : Setting}
    (hE : E.scope = Scope.outermost.tightened E.context.isModule) (c : Cover) :
    Yields source .entering .ahead E c (program nested) fun n _ _ =>
      Derives source.utf8ByteSize .outermost .node n := by
  refine .keep opening_keeps fun _ _ => .mark fun start => .bind (prologue_yields E.scope hn E c) ?_
  rintro directives _ c ⟨rfl, hd⟩
  have goal : ((if E.context.isModule then Goal.module else .script) == .module) = E.context.isModule := by
    cases E.context.isModule <;> rfl
  refine .part (Reads.manyBefore (I := fun _ => True) (R := fun n _ =>
    Derives source.utf8ByteSize (E.scope.under directives) .node n)
    (fun _ _ => .ahead fun _ => .pure ⟨rfl, rfl, trivial⟩) trivial fun c _ => ?_) fun statements c ⟨_, hs⟩ => ?_
  · exact .mono (hn.listItem _ c) fun n E' c' ⟨hE, h⟩ => ⟨hE, trivial, h, fun _ hb => hb⟩
  · refine .context (.finish fun i => .program ?_)
    rw [Derives.under_append hs, Setting.isModule_inCode, goal, ← hE]
    exact List.forall_mem_append.2 ⟨hd, fun n hn => .item (hs n hn)⟩

end Parse

/-- What a strict parse gives back is a program of the grammar. -/
theorem source_derives {text : String} {dialect : Dialect} {root : Node} {s : ParseState}
    (hstrict : dialect.tolerant = false)
    (h : Parse.source text dialect = .ok root s) : Derives text.utf8ByteSize .outermost .node root := by
  have stands : (ParseState.initial text dialect).Strict text .entering := ⟨hstrict, hstrict, .refl _, .refl _⟩
  have sound : Parse.Sound text (Parse.atLevels (Parse.levelsFor text.utf8ByteSize)) := Parse.atLevels_sound text _
  exact (Parse.program_yields sound (E := (ParseState.initial text dialect).setting) rfl _ _ stands rfl rfl root s h).2

end EcmaTree

/-!
## The trees that are given back

What a parse gives back is the tree that it has found, with more or less known of its nodes: their places and their
comments. That changes nothing that a rule of the grammar asks for; so what a strict parse gives back is a tree of the
grammar, too.
-/

namespace EcmaTree

theorem Kind.isPlain_map {α β : Type} (f : α → β) (k : Kind α) : (k.map f).isPlain = k.isPlain := by
  cases k with
  | expressionStatement _ directive => cases directive <;> rfl
  | _ => rfl

namespace Node

variable (g : NodeInfo → NodeInfo) (n : Node)

theorem isForbidden_mapInfo (name : Option Node) :
    (name.map (mapInfo g)).any isForbidden = name.any isForbidden := by
  cases name with
  | none => rfl
  | some n => simp [isForbidden]

theorem isMethod_mapInfo : (n.mapInfo g).isMethod = n.isMethod := by
  rw [isMethod, kind_mapInfo, isMethod]
  cases n.kind <;> rfl

theorem isSpread_mapInfo : (n.mapInfo g).isSpread = n.isSpread := by
  rw [isSpread, kind_mapInfo, isSpread]
  cases n.kind <;> rfl

theorem isSuper_mapInfo : (n.mapInfo g).isSuper = n.isSuper := by
  rw [isSuper, kind_mapInfo, isSuper]
  cases n.kind <;> rfl

theorem isUseStrict_mapInfo : (n.mapInfo g).isUseStrict = n.isUseStrict := by
  rw [isUseStrict, kind_mapInfo, isUseStrict]
  cases n.kind with
  | expressionStatement _ directive => cases directive <;> rfl
  | _ => rfl

theorem statements_mapInfo : (n.mapInfo g).statements = n.statements.map (mapInfo g) := by
  rw [statements, kind_mapInfo, statements]
  cases n.kind with
  | block body => simp [Kind.map, Kind.traverse, Kind.traverseList_eq]
  | _ => rfl

theorem beginsAsync_mapInfo (n : Node) : (n.mapInfo g).beginsAsync = n.beginsAsync := by
  cases n with
  | mk i kind =>
    rw [mapInfo_mk]
    cases kind with
    | member owner => simpa [Kind.map, Kind.traverse, beginsAsync] using beginsAsync_mapInfo owner
    | call callee => simpa [Kind.map, Kind.traverse, beginsAsync] using beginsAsync_mapInfo callee
    | taggedTemplate tag => simpa [Kind.map, Kind.traverse, beginsAsync] using beginsAsync_mapInfo tag
    | _ => rfl

end Node

theorem Scope.under_mapInfo (g : NodeInfo → NodeInfo) (σ : Scope) (body : List Node) :
    σ.under (body.map (Node.mapInfo g)) = σ.under body := by
  simp [under, Node.isUseStrict_mapInfo, Function.comp_def]

theorem DistinctNames.mapInfo {strict exacting forbidden : Bool} {params : List Node}
    (h : DistinctNames strict exacting forbidden params) (g : NodeInfo → NodeInfo) :
    DistinctNames strict exacting forbidden (params.map (Node.mapInfo g)) := by
  have names : parameterNames (params.map (Node.mapInfo g)) = parameterNames params := by
    simp [parameterNames, List.flatMap_map]
  have simple : (params.map (Node.mapInfo g)).all Node.isIdentifier = params.all Node.isIdentifier := by
    simp [Function.comp_def]
  exact ⟨by rw [names]; exact h.inStrict, by rw [names, simple]; exact h.noted⟩

namespace Derives

open Node Scope

variable {size : Nat} {σ : Scope} {s : Symbol} {n : Node} {g : NodeInfo → NodeInfo}

/-- Every rule asks for kinds of nodes, which stay as they are, and for trees below, which are marked by induction. -/
theorem mapInfo (hg : NodeInfo.Marks g) (h : Derives size σ s n) : Derives size σ s (n.mapInfo g) := by
  induction h with
    try simp only [mapInfo_mk, mapInfo_toPattern, Kind.map, Kind.traverse, Kind.traverseOption_eq, Kind.traverseList_eq,
      Kind.traverseSparse_eq, Id.run_pure, pure_bind]
  | weaken hp _ ih => exact .weaken hp ih
  | identifier => exact .identifier
  | literal ht h => exact .literal ht h
  | regex => exact .regex
  | thisExpression => exact .thisExpression
  | importKeyword => exact .importKeyword
  | metaProperty _ _ ihOwner ihField => exact .metaProperty ihOwner ihField
  | template _ ih => exact .template (by simpa only [← List.map_append, List.forall_mem_map] using ih)
  | array _ ih => exact .array (by simpa only [Kind.present_map, List.forall_mem_map] using ih)
  | object _ ih => exact .object (List.forall_mem_map.2 ih)
  | objectWithMethod hm _ ih => 
    obtain ⟨m, hmem, hm⟩ := hm
    exact .objectWithMethod ⟨_, List.mem_map_of_mem hmem, by rwa [isMethod_mapInfo]⟩ (List.forall_mem_map.2 ih)
  | classDefinition _ _ _ ihName ihSuper ihBody =>
    exact .classDefinition (by simpa using ihName) (by simpa using ihSuper) ihBody
  | operand _ ih => exact .operand ih
  | spread _ ih => exact .spread ih
  | spreadMember _ ih => exact .spreadMember ih
  | property _ _ ihKey ihValue => exact .property ihKey ihValue
  | shorthand _ ihKey => exact .shorthand ihKey
  | initialized _ hleft _ _ ihKey ihLeft ihRight =>
    exact .initialized ihKey (by rwa [isIdentifier_mapInfo]) ihLeft ihRight
  | method hm _ _ ihKey ihValue => exact .method hm ihKey ihValue
  | base _ ih => exact .base ih
  | superBase => exact .superBase
  | member _ _ ihOwner ihField => exact .member ihOwner ihField
  | taggedTemplate hn _ _ ihTag ihQuasi => exact .taggedTemplate (by rwa [isSuper_mapInfo]) ihTag ihQuasi
  | call _ _ _ ihCallee ihArgs ihSpread =>
    exact .call ihCallee (by simpa [isSpread_mapInfo] using ihArgs) (by simpa [isSpread_mapInfo] using ihSpread)
  | asyncCall hasync _ _ _ ihCallee ihArgs ihSpread =>
    exact .asyncCall (by rwa [beginsAsync_mapInfo]) ihCallee (by simpa [isSpread_mapInfo] using ihArgs)
      (by simpa [isSpread_mapInfo] using ihSpread)
  | endChain hn _ ih => exact .endChain (by rwa [isSuper_mapInfo]) ih
  | chain _ ih => exact .chain ih
  | newExpression _ _ _ ihCallee ihArgs ihSpread =>
    exact .newExpression ihCallee (by simpa [isSpread_mapInfo] using ihArgs)
      (by simpa [isSpread_mapInfo] using ihSpread)
  | update hp _ ih => exact .update hp ih
  | unary hdelete _ ih => exact .unary (by rwa [isIdentifier_mapInfo]) ih
  | await _ ih => exact .await ih
  | binary _ _ ihLeft ihRight => exact .binary ihLeft ihRight
  | conditional _ _ _ ihTest ihConsequent ihAlternate => exact .conditional ihTest ihConsequent ihAlternate
  | yieldNothing => exact .yieldNothing
  | yield _ ih => exact .yield ih
  | sequence _ ih => exact .sequence (List.forall_mem_map.2 ih)
  | assignment hp _ _ ihLeft ihRight => exact .assignment hp ihLeft ihRight
  | compound hop hp _ _ ihLeft ihRight => exact .compound hop hp ihLeft ihRight
  | function hform _ _ _ hnames ihName ihParams ihBody =>
    rw [← under_mapInfo g, ← statements_mapInfo] at ihBody hnames
    exact .function hform (by simpa using ihName) (List.forall_mem_map.2 ihParams) ihBody
      (by simpa only [isForbidden_mapInfo] using hnames.mapInfo g)
  | arrow _ _ hnames ihParams ihBody =>
    rw [← under_mapInfo g, ← statements_mapInfo] at ihBody
    exact .arrow (List.forall_mem_map.2 ihParams) ihBody (hnames.mapInfo g)
  | waiting _ ih => exact .waiting fun outer => List.forall_mem_map.2 (ih outer)
  | waitingChain _ ih => exact .waitingChain fun outer => List.forall_mem_map.2 (ih outer)
  | operandParameter _ ih => exact .operandParameter ih
  | restParameter _ ih => exact .restParameter ih
  | propertyParameter _ _ ihKey ihValue => exact .propertyParameter ihKey ihValue
  | boundParameter _ ih => exact .boundParameter ih
  | @yieldParameter σ n left right delegate _ hn hright ih =>
    obtain ⟨i, kind⟩ := n
    obtain ⟨j, kind'⟩ := right
    obtain rfl : kind = _ := hn
    obtain rfl : kind' = _ := hright
    simp only [Node.withKind, mapInfo_mk, Kind.map, Kind.traverse, Id.run_pure, pure_bind] at ih ⊢
    exact .yieldParameter ih rfl rfl
  | concise _ ih => exact .concise ih
  | body _ ih => exact .body (List.forall_mem_map.2 ih)
  | directive h h' => exact .directive h h'
  | item _ ih => exact .item ih
  | namePattern => exact .namePattern
  | arrayPattern _ ih => exact .arrayPattern (by simpa only [Kind.present_map, List.forall_mem_map] using ih)
  | objectPattern _ ih => exact .objectPattern (List.forall_mem_map.2 ih)
  | rest _ ih => exact .rest ih
  | assignmentPattern _ _ ihLeft ihRight => exact .assignmentPattern ihLeft ihRight
  | restMember _ ih => exact .restMember ih
  | propertyPattern _ _ ihKey ihValue => exact .propertyPattern ihKey ihValue
  | shorthandPattern _ ihKey => exact .shorthandPattern ihKey
  | initializedPattern _ _ ihKey ihValue => exact .initializedPattern ihKey ihValue
  | defaultedName hleft _ _ ihLeft ihRight => exact .defaultedName (by rwa [isIdentifier_mapInfo]) ihLeft ihRight
  | target hp hn _ ih => exact .target hp (by rwa [isAssignment_mapInfo]) ih
  | declared _ ih => exact .declared (List.forall_mem_map.2 ih)
  | program _ ih =>
    rw [← under_mapInfo g] at ih
    exact .program (List.forall_mem_map.2 ih)
  | labeled hname hnew _ _ ihLabel ihBody => exact .labeled (by rwa [identifierName?_mapInfo]) hnew ihLabel ihBody
  | breakStatement hloop hlabel _ ih =>
    exact .breakStatement (by simpa using hloop) (by simpa [identifierName?_mapInfo] using hlabel) (by simpa using ih)
  | continueStatement hloop hlabel _ ih =>
    exact .continueStatement (by simpa using hloop) (by simpa [identifierName?_mapInfo] using hlabel)
      (by simpa using ih)
  | returnStatement h _ ih => exact .returnStatement h (by simpa using ih)
  | withStatement h _ _ ihScope ihBody => exact .withStatement h ihScope ihBody
  | switchStatement _ _ ihDiscriminant ihCases => exact .switchStatement ihDiscriminant (List.forall_mem_map.2 ihCases)
  | whileStatement _ _ ihTest ihBody => exact .whileStatement ihTest ihBody
  | doWhileStatement _ _ ihBody ihTest => exact .doWhileStatement ihBody ihTest
  | forStatement _ _ _ _ ihInit ihTest ihStep ihBody =>
    exact .forStatement (by simpa using ihInit) (by simpa using ihTest) (by simpa using ihStep) ihBody
  | forInStatement _ _ _ ihLeft ihRight ihBody => exact .forInStatement ihLeft ihRight ihBody
  | forOfStatement _ _ _ ihLeft ihRight ihBody => exact .forOfStatement ihLeft ihRight ihBody
  | exportDefaultDeclaration _ ih => exact .exportDefaultDeclaration ih
  | selfClosing _ hopening ih => exact .selfClosing ih (by rw [kind_mapInfo, hopening]; rfl)
  | element _ _ _ hopening hclosing hname ihOpening ihContent ihClosing =>
    exact .element ihOpening (List.forall_mem_map.2 ihContent) ihClosing (by rw [kind_mapInfo, hopening]; rfl)
      (by rw [kind_mapInfo, hclosing]; rfl)
        ((qualifiedName_mapInfo g _).trans (hname.trans (qualifiedName_mapInfo g _).symm))
  | fragment _ _ _ hopening hclosing ihOpening ihContent ihClosing =>
    exact .fragment ihOpening (List.forall_mem_map.2 ihContent) ihClosing (by rw [kind_mapInfo, hopening]; rfl)
      (by rw [kind_mapInfo, hclosing]; rfl)
  | unclosed _ _ hopening hi hend ihOpening ihContent =>
    exact .unclosed ihOpening (List.forall_mem_map.2 ihContent) (by rwa [isSelfClosing_mapInfo])
      ((hg.extent _).trans hi) hend
  | container _ ih => exact .container ih
  | spreadAttribute _ ih => exact .spreadAttribute ih
  | complete hp _ ih => exact .complete hp ih
  | bound _ ih => exact .bound ih
  | text h => exact .text h
  | @plain σ i kind hkind _ ih =>
    change Derives size σ .node (.mk (g i) (kind.map (Node.mapInfo g)))
    exact .plain (by rwa [Kind.isPlain_map]) (by simpa only [Kind.children_map, List.forall_mem_map] using ih)
  | drop _ ih => exact .drop ih
  | whole _ ih => exact .whole ih

end Derives

/-- The program that a strict parse gives back is one of the grammar. -/
theorem parse_derives {source : String} {o : ParseOptions} {p : Program} (hp : parse source o = .ok p)
    (hstrict : o.tolerant = false) :
    Derives source.utf8ByteSize .outermost .node p.root := by
  obtain ⟨root, s, hs, rfl⟩ := parse_eq_ok.1 hp
  have derives := source_derives (show o.dialect.tolerant = false from hstrict) hs
  exact derives.mapInfo (o.given_marks _)

end EcmaTree
