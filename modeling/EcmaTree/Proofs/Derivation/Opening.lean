import EcmaTree.Proofs.Derivation.Yields

/-!
# What begins with a string

An expression that begins with a string is that string, or it is no literal: whatever is read behind the string goes
into a node of its own. So a directive is the string that it begins with.
-/

namespace EcmaTree

/-- Is the node a literal? -/
def Node.isLiteral (n : Node) : Bool :=
  match n.kind with
  | .literal .. => true
  | _ => false

theorem Token.isString_iff {t : Token} : t.isString = true ↔ ∃ value legacy, t.lexeme = .string value legacy := by
  unfold isString
  split <;> simp_all

namespace Parse

open Judgement (onSuccess)

variable {α β : Type} {s : ParseState} {nested : Nested} {n m : Node} {start : Place} {kind : Kind Node}

/-- A literal that begins with a string is that string. -/
def Opens (p : Parse Node) : Prop :=
  ∀ s, s.lookahead.isString = true → onSuccess.Ensures p s fun n _ => n.isLiteral = true →
    n.kind = literalOf s.lookahead

/-- The second node is the first one, or it is no literal. -/
abbrev Around (n m : Node) : Prop := m = n ∨ m.isLiteral = false

/-- The production gives back the node, or another one that is no literal. -/
def Wraps (n : Node) (p : Parse Node) : Prop := ∀ s, onSuccess.Ensures p s fun m _ => Around n m

/-- What is done before does not matter. -/
theorem behind {p : Parse β} {f : β → Parse α} {Q : α → ParseState → Prop} (h : ∀ b t, onSuccess.Ensures (f b) t Q) :
    onSuccess.Ensures (p >>= f) s Q := Judgement.bind any fun b t _ => h b t

theorem finish_noLiteral (h : ∀ i, (Node.mk i kind).isLiteral = false) :
    onSuccess.Ensures (finish start kind) s fun n _ => n.isLiteral = false :=
  onSuccess.mono .finish (by rintro _ _ ⟨rfl, -⟩; exact h _)

namespace Wraps

theorem pure : Wraps n (pure n) := fun _ => onSuccess.ofPure (.inl rfl)

theorem other (h : m.isLiteral = false) : Wraps n (Pure.pure m) := fun _ => onSuccess.ofPure (.inr h)

theorem finish (h : ∀ i, (Node.mk i kind).isLiteral = false) : Wraps n (finish start kind) := fun _ =>
  onSuccess.mono (finish_noLiteral h) fun _ _ => .inr

theorem ite {b : Prop} [Decidable b] {p q : Parse Node} (hp : Wraps n p) (hq : Wraps n q) :
    Wraps n (if b then p else q) :=
  fun s => .ite (fun _ => hp s) fun _ => hq s

theorem behind {p : Parse β} {f : β → Parse Node} (h : ∀ b, Wraps n (f b)) : Wraps n (p >>= f) :=
  fun _ => Parse.behind h

theorem bind {p : Parse Node} {f : Node → Parse Node} (hp : Wraps n p) (hf : ∀ m, Wraps m (f m)) :
    Wraps n (p >>= f) := fun s =>
  Judgement.bind (hp s) fun m t hm => onSuccess.mono (hf m t) <| by
    rintro l _ (rfl | hl)
    · exact hm
    · exact .inr hl

theorem withContext {change : Context → Context} {p : Parse Node} (h : Wraps n p) :
    Wraps n (withContext change p) := fun _ =>
  .withContext fun t _ => onSuccess.mono (h t) fun _ _ hm _ _ => hm

end Wraps

namespace Opens

variable {p : Parse Node}

theorem isolate (h : Opens p) : Opens (isolate p) := fun _ hs => .isolate fun t ht =>
  onSuccess.mono (h t (ht.lookahead ▸ hs)) fun _ _ hn _ _ hl => ht.lookahead ▸ hn hl

theorem inherit (h : Opens p) : Opens (inherit p) := fun _ hs => .inherit fun t ht =>
  onSuccess.mono (h t (ht.lookahead ▸ hs)) fun _ _ hn _ _ hl => ht.lookahead ▸ hn hl

theorem bind {f : Node → Parse Node} (h : Opens p) (hf : ∀ n, Wraps n (f n)) : Opens (p >>= f) := fun s hs =>
  Judgement.bind (h s hs) fun n t hn => onSuccess.mono (hf n t) <| by
    rintro m _ (rfl | hm) hl
    · exact hn hl
    · rw [hm] at hl
      cases hl

end Opens

/-! ## Chains -/

theorem literal_opens : Opens literal := fun s _ => by
  have done {start : Place} {t : ParseState} : onSuccess.Ensures (do
      nonPattern
      skip
      finish start (literalOf s.lookahead)) t fun n _ => n.isLiteral = true → n.kind = literalOf s.lookahead :=
    behind fun _ _ => behind fun _ _ => onSuccess.mono .finish (by rintro _ _ ⟨rfl, -⟩ _; rfl)
  exact .mark (.ahead (.isStrict (.ite (fun _ => behind fun _ _ => done) fun _ => done)))

theorem primary_opens : Opens (primary nested) := fun s hs => by
  obtain ⟨value, legacy, hl⟩ := Token.isString_iff.1 hs
  refine .ahead (onSuccess.get (.neg (by simp [Token.isPunctuator, hl]) ?_))
  rw [hl]
  exact literal_opens s hs

theorem chainHead_opens {isSuper : Bool} (allowsCall : Bool) (hsuper : isSuper = false) :
    Opens (chainHead nested isSuper allowsCall) :=
  fun s hs => by
    obtain ⟨value, legacy, hl⟩ := Token.isString_iff.1 hs
    refine .context (.neg (by simp [hsuper]) (.checkKeyword (.neg (by simp [Token.isKeyword, hl]) ?_)))
    exact primary_opens.inherit s hs

theorem link_noLiteral {c : Chain} {optional : Bool} :
    onSuccess.Ensures (link nested start c optional) s fun r _ => ∀ e ∈ r, e.isLiteral = false := by
  have done {kind : Kind Node} {t : ParseState} (h : ∀ i, (Node.mk i kind).isLiteral = false) :
      onSuccess.Ensures (do return some (← finish start kind)) t fun r _ => ∀ e ∈ r, e.isLiteral = false :=
    Judgement.bind (finish_noLiteral h) fun n _ hn => onSuccess.ofPure (by simpa using hn)
  have named {t : ParseState} : onSuccess.Ensures (do
      let field ← identifierName
      return some (← finish start (.member c.expression field false optional))) t fun r _ => ∀ e ∈ r,
        e.isLiteral = false :=
    behind fun _ _ => done fun _ => rfl
  refine .ahead (.ite (fun _ => ?_) fun _ => .ite (fun _ => ?_) fun _ => .ite (fun _ => ?_)
    fun _ => onSuccess.ofPure (by simp))
  · exact behind fun _ _ => behind fun _ _ => behind fun _ _ => behind fun _ _ => done fun _ => rfl
  · have tagged {t : ParseState} : onSuccess.Ensures (do
        let quasi ← template nested true
        return some (← finish start (.taggedTemplate c.expression quasi))) t fun r _ => ∀ e ∈ r, e.isLiteral = false :=
      behind fun _ _ => done fun _ => rfl
    exact .ite (fun _ => behind fun _ _ => .ite (fun _ => behind fun _ _ => tagged) fun _ => tagged) fun _ =>
      .ite (fun _ => behind fun _ _ => tagged) fun _ => tagged
  · exact behind fun _ _ => .ite (fun _ => named) fun _ => behind fun _ _ => named

theorem goOn_around {c : Chain} {optional : Bool} (h : Around n c.expression) :
    onSuccess.Ensures (goOn nested start c optional) s
    (Progress.Holds (fun c _ => Around n c.expression) fun c _ => Around n c.expression) := by
  refine Judgement.bind link_noLiteral ?_
  rintro (_ | e) t he
  · exact onSuccess.ofPure h
  · exact onSuccess.ofPure (.inr (he e rfl))

theorem call_noLiteral {first : Token} {c : Chain} {optional : Bool} :
    onSuccess.Ensures (call nested first c optional) s fun e _ => e.isLiteral = false := by
  have done {first : Token} {args : List Node} {maybeParameters : Bool} {t : ParseState} : onSuccess.Ensures (do
      if maybeParameters && (← Parse.check .arrow) then return placeholder (args.map Node.toPattern) true
      else finish first.place (.call c.expression args optional)) t fun e _ => e.isLiteral = false :=
    .check (.ite (fun _ => onSuccess.ofPure rfl) fun _ => finish_noLiteral fun _ => rfl)
  exact .ahead (behind fun _ _ => behind fun _ _ => .ite (fun _ => behind fun _ _ => done) fun _ => done)

theorem chainLinks_around {first : Token} {c : Chain} (h : Around n c.expression) :
    onSuccess.Ensures (chainLinks nested first c) s fun c _ => Around n c.expression := by
  refine Judgement.Ensures.loop (I := fun c _ => Around n c.expression) h fun c t hc => behind fun optional u => ?_
  exact .check (.ite (fun _ => Judgement.bind call_noLiteral fun e _ he => onSuccess.ofPure (.inr he)) fun _ =>
    goOn_around hc)

theorem finishChain_wraps {c : Chain} (h : Around n c.expression) : Wraps n (finishChain start c) := fun _ =>
  .ite (fun _ => Wraps.finish (fun _ => rfl) _) fun _ => onSuccess.ofPure h

theorem callChain_opens : Opens (callChain nested) := fun s hs => by
  obtain ⟨value, legacy, hl⟩ := Token.isString_iff.1 hs
  have notSuper : s.lookahead.isKeyword "super" = false := by simp [Token.isKeyword, hl]
  have chain : Opens (chainFrom nested s.lookahead) := by
    refine (chainHead_opens true notSuper).bind fun base => ?_
    have links : Wraps base (do finishChain s.lookahead.place (← chainLinks nested s.lookahead ⟨base,
      false⟩)) := fun t =>
      Judgement.bind (chainLinks_around (.inl rfl)) fun c u hc => finishChain_wraps hc u
    exact .behind fun _ => .behind fun _ => .ite (.behind fun _ => links) links
  exact .ahead (.withContext fun t ht => onSuccess.mono (chain t (ht.lookahead ▸ hs))
    fun _ _ hn _ _ hl => ht.lookahead ▸ hn hl)

/-! ## Operators -/

theorem update_opens : Opens (update nested) := fun s hs => by
  obtain ⟨value, legacy, hl⟩ := Token.isString_iff.1 hs
  have notBefore : s.lookahead.updateOp? = none := by simp [Token.updateOp?, hl]
  refine .ahead ?_
  rw [notBefore]
  refine callChain_opens.inherit.bind (fun operand => .behind fun t => ?_) s hs
  cases t.lookahead.updateOp? with
  | none => exact .pure
  | some op => exact .ite .pure (.behind fun _ => .behind fun _ => .behind fun _ => .finish fun _ => rfl)

theorem unary_opens : Opens (unary nested) := fun s hs => by
  obtain ⟨value, legacy, hl⟩ := Token.isString_iff.1 hs
  refine .ahead ?_
  simp only [Token.unaryOp?, hl]
  exact .context (.neg (by simp [Token.isIdentifierNamed, hl]) (update_opens s hs))

theorem exponentiation_opens : Opens (exponentiation nested) := fun s hs => .ahead <|
  unary_opens.inherit.bind (fun _ =>
    .ite .pure (.behind fun _ => .ite (.behind fun _ => .behind fun _ => .finish fun _ => rfl) .pure)) s hs

theorem reduceAll_around : ∀ {stack : List Pending} {right : Node} {first : Token} {s : ParseState},
    onSuccess.Ensures (reduceAll stack right first) s fun m _ => stack = [] ∧ m = right ∨ m.isLiteral = false
  | [], _, _, _ => onSuccess.ofPure (.inl ⟨rfl, rfl⟩)
  | p :: stack, right, first, s => by
    have join : onSuccess.Ensures (joinOperands p first.lineStart right) s fun m _ => m.isLiteral = false := by
      unfold joinOperands
      split
      · exact finish_noLiteral fun _ => rfl
      · exact .failHere
    refine Judgement.bind join fun node t hnode => onSuccess.mono reduceAll_around ?_
    rintro m _ (⟨-, rfl⟩ | hm)
    · exact .inr hnode
    · exact .inr hm

theorem binary_opens : Opens (binary nested) :=
  fun s hs => .ahead <| exponentiation_opens.inherit.bind (fun operand t => by
  refine Judgement.bind (P := fun r _ => r.1 = [] → r.2.1 = operand)
    (Judgement.Ensures.loop (I := fun r _ => r.1 = [] → r.2.1 = operand)
    (fun _ => rfl) ?_) ?_
  · rintro ⟨stack, right, last, mix⟩ t h
    refine onSuccess.get (.ite (fun _ => onSuccess.ofPure h) fun _ => .ite (fun _ => ?_) fun _ => behind fun _ _ => ?_)
    -- an operator was read, so that something now waits for its right operand
    all_goals
      exact behind fun _ _ => behind fun _ _ => behind fun _ _ => behind fun _ _ =>
        behind fun _ _ => onSuccess.ofPure (by
        simp [Progress.Holds])
  · rintro ⟨stack, right, last, mix⟩ t h
    refine onSuccess.mono reduceAll_around ?_
    rintro m _ (⟨hstack, rfl⟩ | hm)
    · exact .inl (h hstack)
    · exact .inr hm) s hs

theorem conditional_opens : Opens (conditional nested) :=
  fun s hs => .ahead <| binary_opens.inherit.bind (fun test => by
  refine .behind fun _ => .ite (.behind fun _ => .behind fun _ => .behind fun _ => ?_) .pure
  exact fun t => Judgement.bind (finish_noLiteral fun _ => rfl) fun n u hn => behind fun _ _ =>
    onSuccess.ofPure (.inr hn)) s hs

/-! ## Assignments -/

theorem arrowFunction_wraps (first : Token) (ps : Parameters) (async : Bool) :
    Wraps n (arrowFunction nested first ps async) := by
  have done : Wraps n (do
      modifyCover ({ · with pending := none })
      withContext ({ · with allowStrictDirective := ps.simple, allowYield := true, isAsync := async }) do
        expect .arrow
        let body ← arrowBody nested
        if ← isStrict then
          failOffender ps.cause ps.restricted
          tolerateOffender ps.cause ps.stricted
        finish first.place (.function .arrow none ps.params body false (!isBlock body) async)) := by
    refine .behind fun _ => .withContext (.behind fun _ => .behind fun _ => .behind fun _ =>
      .ite ?_ (.finish fun _ => rfl))
    exact .behind fun _ => .behind fun _ => .finish fun _ => rfl
  exact .behind fun _ => .ite (.behind fun _ => done) done

theorem assignTo_wraps (first : Token) (target : Node) (op : AssignOp) : Wraps n (assignTo nested first target op) := by
  have done (target : Node) : Wraps n (do
      skip
      let value ← isolate (nested .assignment)
      let node ← finish first.place (.assignment op target value)
      modifyCover ({ · with pending := none })
      return node) := .behind fun _ => .behind fun _ => fun _ =>
    Judgement.bind (finish_noLiteral fun _ => rfl) fun n u hn => behind fun _ _ => onSuccess.ofPure (.inr hn)
  exact .behind fun _ => .ite (.behind fun _ => done _) (.behind fun _ => .behind fun _ => done _)

theorem asyncParameter_wraps (first : Token) : Wraps n (asyncParameter nested first n) :=
  .behind fun _ => .ite (.behind fun _ => .other rfl) .pure

theorem assignment_opens : Opens (assignment nested) := fun s hs => by
  obtain ⟨value, legacy, hl⟩ := Token.isString_iff.1 hs
  refine .ahead (.context (.neg (by simp [Token.isKeyword, hl]) ?_))
  refine conditional_opens.bind (fun e => (asyncParameter_wraps s.lookahead).bind fun e => .behind fun _ => ?_) s hs
  refine .ite (.behind fun _ => .ite .pure (.behind fun _ => arrowFunction_wraps _ _ _)) (.behind fun t => ?_)
  cases t.assignOp? with
  | none => exact .pure
  | some op => exact assignTo_wraps _ _ op

/-! ## Directives -/

theorem expression_opens (h : Opens (nested .assignment)) : Opens (expression nested) := fun s hs => by
  refine .ahead (Judgement.bind (P := fun ns _ => ∀ n ∈ ns.head?, n.isLiteral = true →
    n.kind = literalOf s.lookahead) ?_ ?_)
  · refine Judgement.bind (h.isolate s hs) fun e t he => behind fun others u => onSuccess.ofPure ?_
    simpa using he
  · rintro expressions t he
    split
    · exact onSuccess.ofPure (he _ rfl)
    · exact onSuccess.mono (finish_noLiteral fun _ => rfl) fun n u hn hl => absurd hl (by simp [hn])

theorem isLiteral_of_directiveText? {t : Token} {text : String} (h : directiveText? t n = some text) :
    n.isLiteral = true := by
  obtain ⟨i, kind⟩ := n
  cases kind <;> simp_all [directiveText?, Node.kind, Node.isLiteral]

/-- A directive is the string that it begins with. -/
theorem directive_opens (h : Opens (nested .assignment)) (hs : s.lookahead.isString = true) :
    onSuccess.Ensures (directive nested) s fun r _ => ∀ text ∈ r.2,
      ∃ i j, r.1 = .mk i (.expressionStatement (.mk j (literalOf s.lookahead)) (some text)) ∧
        directiveText? s.lookahead (.mk j (literalOf s.lookahead)) = some text := by
  refine .ahead (.mark (Judgement.bind (expression_opens h s hs) fun e t he => behind fun _ u => ?_))
  refine Judgement.bind .finish ?_
  rintro _ v ⟨rfl, -⟩
  refine onSuccess.ofPure fun text htext => ?_
  have hkind := he (isLiteral_of_directiveText? htext)
  obtain ⟨i, kind⟩ := e
  obtain rfl : kind = literalOf s.lookahead := hkind
  exact ⟨_, i, by rw [show directiveText? _ _ = some text from htext], htext⟩

end Parse

end EcmaTree
