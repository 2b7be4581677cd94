import EcmaTree.Grammar.Primary
import EcmaTree.Proofs.Grammar.Jsx

/-!
# Templates and primary expressions

A parenthesized list becomes a placeholder where an arrow follows it, and where it ends with a comma. Everything in
the list is firm behind the closing parenthesis.
-/

namespace EcmaTree

namespace Judgement.Settles

open Parse

variable {J : Judgement}

theorem checkImportCall : J.Settles checkImportCall :=
  .bind (.checkKeyword _) fun _ => .ite (.bind .second fun _ => .pure _) (.pure _)

theorem checkImportMeta : J.Settles checkImportMeta := by
  refine .bind (.checkKeyword _) fun _ => .ite (.bind .behindDot fun t => ?_) (.pure _)
  cases t with
  | none => exact .pure _
  | some t => exact .ite (.ite (.bind (.tolerateWith _ _) fun _ => .pure _) (.pure _)) (.pure _)

end Judgement.Settles

namespace Contract

open Parse

variable {K : Contract} {base s : ParseState} {ns : List Node} {r : Bool} {nested : Nested}

/-! ## Templates -/

theorem templateElement_reads (tagged : Bool) : K.Reads (templateElement tagged) := by
  intro s hs
  refine .ahead ?_
  split
  next chunk hl =>
    refine .mark (take hs (.refl s) fun t h => ?_)
    have h := h (ParseState.not_arrow_of_lexeme hl nofun)
    have close {t : ParseState} (h : K.Took s s.lookahead t) :
        K.Ensures (do return (← finish s.start.place (.templateElement chunk.raw chunk.cooked chunk.isTail),
          chunk.isTail)) t
          fun (p : Node × Bool) u => K.Held .ahead true s (nodes p) u :=
      Judgement.bind (h.finish rfl (.chunk hl)) fun n u h => h.give (by simp)
    split
    · exact .ite (fun _ => close h) fun _ => h.settle (.failWith _ _) fun u => close
    · exact close h
  · exact .failHere

section
variable (hn : K.Sound nested)
include hn

theorem template_reads (tagged : Bool) : K.Reads (template nested tagged) := by
  intro s hs
  refine .mark ((K.start hs).read (templateElement_reads tagged) fun (first, isTail) t h => ?_)
  refine h.loop (l := []) (by simp) (fun (quasis, expressions, isTail) u h => ?_) fun (quasis, expressions,
    _) u h => h.finish rfl (by simp [Kind.children])
  refine .ite (fun _ => h.give (by simp)) fun _ => h.read (expression_reads hn) fun e v h => ?_
  exact h.read (templateElement_reads tagged) fun (quasi, isTail) w h => h.give (by simp; grind)

end

/-! ## Parentheses -/

theorem requireArrow_ensures : K.Stands .ahead s → K.Ensures requireArrow s fun _ t => t = s ∧ t.arrowAhead := by
  intro hs
  refine .check (.ite (fun h => K.ofPure ⟨rfl, h⟩) fun hno => ?_)
  refine Judgement.bind (K.ofNext hs) ?_
  rintro _ t ⟨rfl, -⟩
  exact .ite (fun h => absurd h hno) fun _ => .failAt

/-- Firm parameters whose arrow is ahead make a good placeholder. -/
theorem Closed.placeholder (params : List Node) (async : Bool) (h : K.Closed base ns s) (hs : s.arrowAhead)
    (hp : ∀ p ∈ params, K.Firm base p s) : K.Held .ahead true base [placeholder params async] s :=
  ⟨h.stands, h.moved, by simpa using K.good_placeholder async hs hp⟩

theorem firm_groupParameters {e : Node} (h : K.Firm base e s) : ∀ p ∈ groupParameters e, K.Firm base p s := by
  unfold groupParameters
  split
  next expressions he =>
    simp only [List.forall_mem_map]
    exact fun n hn => K.firm_toPattern (K.firm_child h (by simpa [Node.children, he, Kind.children] using hn))
  · simpa using K.firm_toPattern h

theorem closeGroup_held {e : Node} (h : K.Held .ahead r base [e] s) :
    K.Ensures (closeGroup e) s fun n t => K.Held .ahead true base (nodes n) t := by
  refine h.expectClosing fun t h => .check (.ite (fun harrow => ?_) fun _ => ?_)
  · have he : K.Firm base e t := h.firm e (by simp)
    refine .ite (fun _ => .value ?_) fun _ => .get (fun _ => rfl) (.ite (fun _ => .value ?_) fun _ => ?_)
    · exact (h.placeholder [e] false harrow (by simpa using he)).settle (.modifyCover _) fun _ u h => h.give (by simp)
    · exact (h.placeholder _ false harrow (firm_groupParameters he)).settle (.modifyCover _) fun _ u h =>
        h.give (by simp)
    · exact Judgement.bind .failAhead fun _ _ h => h
  · exact .value (h.toHeld.settle (.modifyCover _) fun _ u h => h.give (by simp))

/-- A list that a closing parenthesis ends behind a comma. -/
theorem Held.acceptClose {β : Type} {Q : β → ParseState → Prop} {f : Bool → Parse β} {c : Token}
    (h : K.Held .ahead r base ns s) (hpast : K.Past c s) (hc : c.isPunctuator .comma = true)
    (hyes : ∀ t, K.Closed base ns t → K.Escapes t → K.Ensures (f true) t Q) (hno : K.Ensures (f false) s Q) :
    K.Ensures (Parse.accept .rightParen >>= f) s Q := by
  rw [Parse.accept, bind_assoc]
  refine .check ?_
  split
  next hs =>
    rw [bind_assoc]
    refine Judgement.bind (K.ofClose h.stands hpast hc hs) ?_
    rintro _ t ⟨stands, read, escapes⟩
    have ht : K.Held .ahead true base ns t := by simpa using h.step (o := .ahead) (q := true) stands read
    exact .value (hyes t ⟨ht, fun n hn => K.firm_of_read (h.good n hn) read⟩ escapes)
  next => exact .value hno

section
variable (hn : K.Sound nested)
include hn

theorem groupRest_closed (hs : K.Stands .ahead s) :
    K.Ensures (groupRest nested) s fun n t => K.Closed s [n] t ∧ t.arrowAhead := by
  refine (K.start hs).read (finalRest_reads hn _ _) fun (rest, names) t h => h.expectClosing fun u h => ?_
  refine Judgement.bind (requireArrow_ensures h.stands) ?_
  rintro _ _ ⟨rfl, harrow⟩
  exact K.ofPure ⟨h.mono (by simp), harrow⟩

/-- The items are held; if they can be parameters only, they are firm, and an arrow is ahead or a comma stands
behind them. -/
def GroupItems (K : Contract) (base : ParseState) (p : List Node × Bool) (s : ParseState) : Prop :=
  p.1 ≠ [] ∧ K.Held .ahead true base p.1 s ∧
    (p.2 = true → (s.arrowAhead ∨ K.Escapes s) ∧ ∀ n ∈ p.1, K.Firm base n s)

theorem groupItems_held {first : Node} (h : K.Held .ahead true base [first] s) :
    K.Ensures (groupItems nested first) s (K.GroupItems base) := by
  let open' (p : List Node × Bool) (t : ParseState) : Prop := p.2 = false ∧ p.1 ≠ [] ∧ K.Held .ahead true base p.1 t
  refine h.settle (.modifyCover _) fun _ t h => ?_
  refine Judgement.bind (P := K.GroupItems base)
    (Judgement.Ensures.loop (I := open') ⟨rfl, by simp, h⟩ ?_) fun (items, isParameters) u ⟨hne, h, hp⟩ => ?_
  · rintro ⟨items, isParameters⟩ t ⟨rfl, hne, h⟩
    refine h.acceptPast (fun u hcomma past h => .neg (by simp) ?_) fun _ => .pos (by simp) (K.ofPure ⟨hne, h, nofun⟩)
    refine h.acceptClose past hcomma (fun v h escapes => .pos rfl (K.ofPure ?_)) (.neg nofun ?_)
    · exact ⟨hne, h.toHeld, fun _ => ⟨.inr escapes, h.firm⟩⟩
    refine .check (.ite (fun _ => .get (fun _ => rfl) ?_) fun _ => ?_)
    · refine .ite (fun _ => ?_) fun _ => Judgement.bind .failAhead fun _ _ h => h
      refine Judgement.bind (groupRest_closed hn h.stands) ?_
      rintro rest v ⟨hrest, harrow⟩
      have items := h.closed hrest
      refine Judgement.bind (Judgement.Settles.modifyCover _ v) fun _ w hw => K.ofPure ?_
      refine ⟨by simp, (items.rests hw).toHeld, fun _ => ⟨.inl ?_, (items.rests hw).firm⟩⟩
      rwa [ParseState.arrowAhead, hw.lookahead]
    · exact h.read hn.assignment.inherit fun item v h => K.ofPure ⟨rfl, by simp, h⟩
  · exact K.ofPure ⟨by simpa using hne, h.mono (by simp), by simpa using hp⟩

theorem groupContents_reads : K.Reads (groupContents nested) := by
  intro s hs
  refine .ahead ((K.start hs).settle (.modifyCover _) fun _ t h => h.read hn.assignment.inherit fun first u h => ?_)
  refine .check (.ite (fun _ => ?_) fun _ => closeGroup_held (h.mono (by simp)))
  refine Judgement.bind (groupItems_held hn (h.mono (by simp))) ?_
  rintro ⟨items, isParameters⟩ v ⟨hne, h, hp⟩
  refine .ite (fun hparams => K.ofPure ⟨h.stands, h.moved, ?_⟩) fun _ => ?_
  · obtain ⟨hclose, firm⟩ := hp hparams
    have patterns : ∀ n ∈ items.map Node.toPattern, K.Firm s n v := by
      simpa using fun n hn => K.firm_toPattern (firm n hn)
    rcases hclose with harrow | escapes
    · simpa using K.good_placeholder false harrow patterns
    · simpa using K.good_escaped escapes (by simpa using hne) patterns
  · exact h.nodeFrom (.inr ⟨0, rfl⟩) rfl (by simp [Kind.children]) (fun e w _ h => closeGroup_held (h.mono (by simp)))

theorem group_reads : K.Reads (group nested) := by
  intro s hs
  refine (K.start hs).expectClosing fun t h => h.toHeld.accept (fun u h => .pos rfl ?_) fun _ => .neg nofun ?_
  · refine Judgement.bind (requireArrow_ensures h.stands) ?_
    rintro _ _ ⟨rfl, harrow⟩
    exact K.ofPure ⟨h.stands, h.moved, by simpa using K.good_placeholder false harrow (by simp)⟩
  · refine .check (.ite (fun _ => ?_) fun _ => h.toHeld.last (groupContents_reads hn))
    refine Judgement.bind (groupRest_closed hn h.stands) ?_
    rintro rest u ⟨hrest, harrow⟩
    have hrest := h.toHeld.closed hrest
    exact (hrest.placeholder [rest] false harrow fun n hn => hrest.firm n (by simpa using hn)).give (by simp)

end

/-! ## Other primary expressions -/

theorem importCallee_reads : K.Reads importCallee := fun _ hs =>
  .mark ((K.start hs).expectKeyword fun t h => h.finish rfl (by simp [Kind.children]))

theorem importMeta_reads : K.Reads importMeta := by
  intro s hs
  refine .mark ((K.start hs).read identifierName_reads fun owner t h => h.expect fun u h => ?_)
  exact h.read identifierName_reads fun field v h => h.settle (.modifyCover _) fun _ w h =>
    h.finish rfl (by simp [Kind.children])

theorem literal_reads (hs : K.Stands .ahead s) (hl : ¬ s.arrowAhead) :
    K.Ensures literal s fun n t => K.Held .ahead true s (nodes n) t := by
  refine .mark (.ahead (.isStrict ?_))
  have rest {t : ParseState} (ht : s.Rests t) : K.Ensures (do
      nonPattern
      skip
      finish s.start.place (literalOf s.lookahead)) t fun n u => K.Held .ahead true s (nodes n) u :=
    Judgement.bind (Judgement.Settles.nonPattern t) fun _ u hu =>
      takeSkip hs (ht.trans hu) hl fun v h => h.finish rfl .literal
  exact .ite (fun _ => Judgement.bind (Judgement.Settles.tolerateWith _ _ s) fun _ t ht => rest ht) fun _ =>
    rest (.refl s)

theorem regexLiteral_reads (hs : K.Stands .ahead s)
    (hl : (s.lookahead.isPunctuator .slash || s.lookahead.isPunctuator .divAssign) = true) :
    K.Ensures regexLiteral s fun n t => K.Held .ahead true s (nodes n) t := by
  refine .mark (Judgement.bind (Judgement.Settles.nonPattern s) fun _ t ht => ?_)
  have h := (K.start hs).rests ht
  refine Judgement.bind (K.ofRegex h.stands (ht.lookahead ▸ hl)) ?_
  rintro c u ⟨stands, read, tells⟩
  have h : K.Held .ahead true s [] u := by simpa using h.step (o := .ahead) (q := true) stands read
  exact K.mono (h.leafFrom (.inl rfl) rfl (K.tells_of_rests ht tells (.refl u))) fun _ _ hn => hn.1

theorem noExpression_reads : K.Reads noExpression := fun _ hs => (K.start hs).next fun _ _ => .failAt

section
variable (hn : K.Sound nested)
include hn

theorem nameExpression_closes (hs : K.Stands .ahead s) (hname : s.lookahead.isName = true) :
    K.Ensures (nameExpression nested) s fun n t => K.Closed s (nodes n) t := by
  have rest {t : ParseState} (ht : s.Rests t) : K.Ensures (checkAsyncFunction >>= fun isFunction =>
      if isFunction then functionExpression nested
      else next >>= fun name => finish s.start.place (.identifier name.text)) t
        fun n u => K.Closed s (nodes n) u := by
    refine Judgement.bind (Judgement.Settles.checkAsyncFunction t) fun _ u hu => .ite (fun _ => ?_) fun _ => ?_
    · exact ((K.start hs).rests (ht.trans hu)).closing (function_closes hn _ _)
    · exact take hs (ht.trans hu) fun v h =>
        (h (ParseState.not_arrow_of hname (fun _ => rfl))).closes rfl (.word (.inl hname))
  refine .mark (.ahead (.context (.ite (fun _ => ?_) fun _ => rest (.refl s))))
  exact Judgement.bind (Judgement.Settles.tolerateAt _ s) fun _ t ht => rest ht

theorem keywordExpression_reads : K.Reads (keywordExpression nested) := by
  intro s hs
  refine .mark (.ahead (.context (.ite (fun _ => identifierName_reads s hs) fun _ =>
    .ite (fun hlet => ?_) fun _ => ?_)))
  · rw [Bool.and_eq_true] at hlet
    exact takeSkip hs (.refl s) (ParseState.not_arrow_of_keyword hlet.2) fun t h =>
      h.finish rfl (.word (.inl (Token.isName_of_isKeyword hlet.2)))
  refine Judgement.bind (Judgement.Settles.nonPattern s) fun _ t ht => ?_
  have h := (K.start hs).rests ht
  refine .ite (fun _ => h.last (function_closes hn _ _).reads) fun _ => .ite (fun hthis => ?_) fun _ =>
    .ite (fun _ => h.last (classOf_reads hn _ _)) fun _ => ?_
  · exact h.skip (ParseState.not_arrow_of_keyword (ht.lookahead ▸ hthis)) fun u h =>
      h.finish rfl (by simp [Kind.children])
  refine h.settle .checkImportCall fun _ u h => .ite (fun _ => h.last importCallee_reads) fun _ => ?_
  refine h.settle .checkImportMeta fun _ v h => .ite (fun _ => ?_) fun _ => h.last noExpression_reads
  exact h.settleUnless (.tolerateWith _ _) fun w h => h.last importMeta_reads

theorem primary_reads : K.Reads (primary nested) := by
  intro s hs
  refine .ahead (.get (fun _ => rfl) (.ite (fun hjsx => ?_) fun _ => ?_))
  · rw [Bool.and_eq_true] at hjsx
    exact jsxExpression_held hn hs hjsx.1 hjsx.2
  split
  next hl => exact K.mono (nameExpression_closes hn hs (Token.isName_iff.2 (.inl ⟨_, hl⟩))) fun _ _ h => h.toHeld
  next hl => exact literal_reads hs (ParseState.not_arrow_of_lexeme hl nofun)
  next hl => exact literal_reads hs (ParseState.not_arrow_of_lexeme hl nofun)
  next hl => exact literal_reads hs (ParseState.not_arrow_of_lexeme hl nofun)
  next hl => exact literal_reads hs (ParseState.not_arrow_of_lexeme hl nofun)
  next => exact template_reads hn false s hs
  next => exact (K.start hs).settle (.modifyCover _) fun _ t h => h.last (group_reads hn).inherit
  next => exact (arrayLiteral_reads hn).inherit s hs
  next => exact (objectLiteral_reads hn).inherit s hs
  next hl => exact regexLiteral_reads hs (by simp [Token.isPunctuator, hl])
  next hl => exact regexLiteral_reads hs (by simp [Token.isPunctuator, hl])
  next => exact keywordExpression_reads hn s hs
  next => exact noExpression_reads s hs

omit hn in
/-- The keyword `yield` is a name, or no expression. -/
theorem keywordExpression_closes (hs : K.Stands .ahead s) (hyield : s.lookahead.isKeyword "yield" = true) :
    K.Ensures (keywordExpression nested) s fun n t => K.Closed s (nodes n) t := by
  have other {word : String} (hword : word ≠ "yield" := by decide) : ¬ s.lookahead.isKeyword word = true := fun h =>
    hword (Lexeme.keyword.inj ((Token.isKeyword_iff.1 h).symm.trans (Token.isKeyword_iff.1 hyield)))
  refine .mark (.ahead (.context (.ite (fun _ => identifierName_closes s hs) fun _ => .neg ?_ ?_)))
  · simpa using fun _ => other
  refine Judgement.bind (Judgement.Settles.nonPattern s) fun _ t ht => .neg other (.neg other (.neg other ?_))
  have noImport : ¬ t.lookahead.isKeyword "import" = true := by rw [ht.lookahead]; exact other
  refine K.ofBind (.checkKeyword (.neg noImport (K.ofPure (.neg nofun ?_))))
  refine K.ofBind (.checkKeyword (.neg noImport (K.ofPure (.neg nofun ?_))))
  exact ((K.start hs).rests ht).next fun _ _ => .failAt

/-- A name is firm, whether it is an expression of its own or begins a function. -/
theorem primary_closes (hs : K.Stands .ahead s)
    (hname : (s.lookahead.isIdentifier || s.lookahead.isKeyword "yield") = true) :
    K.Ensures (primary nested) s fun n t => K.Closed s (nodes n) t := by
  rw [Bool.or_eq_true, Token.isIdentifier_iff, Token.isKeyword_iff] at hname
  obtain ⟨name, hl⟩ | hl := hname
  · refine .ahead (.get (fun _ => rfl) (.neg (by simp [Token.isPunctuator, hl]) ?_))
    rw [hl]
    exact nameExpression_closes hn hs (Token.isName_iff.2 (.inl ⟨_, hl⟩))
  · refine .ahead (.get (fun _ => rfl) (.neg (by simp [Token.isPunctuator, hl]) ?_))
    rw [hl]
    exact keywordExpression_closes hs (Token.isKeyword_iff.2 hl)

end

end Contract

end EcmaTree
