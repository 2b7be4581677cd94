import EcmaTree.Proofs.Held

/-!
# Combinators of productions

Rules for consuming tokens, for changing the context or the cover for a while, and for repetition.
-/

namespace EcmaTree

/-- What holds when a loop goes on, and what when it is done. -/
def Parse.Progress.Holds {σ : Type} (more done : σ → ParseState → Prop) : Parse.Progress σ → ParseState → Prop
  | .more state => more state
  | .done state => done state

namespace Judgement

open Parse

variable {J : Judgement} {α β σ : Type} {s : ParseState} {Q : α → ParseState → Prop}

theorem Ensures.iterate [J.Loose] {step : σ → Parse (Progress σ)} {I D : σ → ParseState → Prop}
    (hstep : ∀ x t, I x t → J.Ensures (step x) t (Progress.Holds I D)) :
    ∀ {bound : Nat} {state : σ} {s : ParseState}, I state s → J.Ensures (iterate step bound state) s D
  | 0, _, _, _ => Loose.ofExhausted
  | _ + 1, state, s, h => by
    refine Judgement.bind (hstep state s h) ?_
    rintro (x | x) t hx
    · exact Ensures.iterate hstep hx
    · exact J.ofPure hx

/-- A loop keeps the invariant `I` until it is done; then `D` holds. -/
theorem Ensures.loop [J.Loose] {step : σ → Parse (Progress σ)} {I : σ → ParseState → Prop} {D : σ → ParseState → Prop}
    {state : σ} (h : I state s) (hstep : ∀ x t, I x t → J.Ensures (step x) t (Progress.Holds I D)) :
    J.Ensures (loop state step) s D := .get (fun _ => rfl) (.iterate hstep h)

theorem Ensures.withContext {change : Context → Context} {p : Parse α}
    (h : ∀ t, s.Rests t → J.Ensures p t fun a u => ∀ v, u.Rests v → Q a v) :
    J.Ensures (withContext change p) s Q := by
  refine .get (fun _ => rfl) (Judgement.bind (Settles.setContext (fun _ => change s.context) s) fun _ t ht => ?_)
  refine Judgement.bind (h t ht) fun a u hu => ?_
  exact Judgement.bind (Settles.setContext (fun _ => s.context) u) fun _ v hv => J.ofPure (hu v hv)

theorem Ensures.isolate {p : Parse α} (h : ∀ t, s.Rests t → J.Ensures p t fun a u => ∀ v, u.Rests v → Q a v) :
    J.Ensures (isolate p) s Q := by
  refine .get (fun _ => rfl) (Judgement.bind (Settles.modifyCover _ s) fun _ t ht => ?_)
  refine Judgement.bind (h t ht) fun a u hu => .get (fun _ => rfl) ?_
  have restore {v : ParseState} (hv : u.Rests v) :
      J.Ensures (modifyCover (fun _ => s.cover) >>= fun _ => pure a) v Q :=
    Judgement.bind (Settles.modifyCover _ v) fun _ w hw => J.ofPure (hu w (hv.trans hw))
  split
  · exact Judgement.bind failAt fun _ _ h => h
  · exact restore (.refl u)

theorem Ensures.inherit {p : Parse α} (h : ∀ t, s.Rests t → J.Ensures p t fun a u => ∀ v, u.Rests v → Q a v) :
    J.Ensures (inherit p) s Q := by
  refine .get (fun _ => rfl) (Judgement.bind (Settles.modifyCover _ s) fun _ t ht => ?_)
  refine Judgement.bind (h t ht) fun a u hu => ?_
  exact Judgement.bind (Settles.modifyCover _ u) fun _ v hv => J.ofPure (hu v hv)

end Judgement

/-! ## Tokens -/

/-- Is the punctuator another one than the arrow of a function? -/
@[reducible] def Punctuator.isPlain : Punctuator → Bool
  | .arrow => false
  | _ => true

/-- A flag that is found to be set by evaluating it. -/
class Evident (flag : Bool) : Prop where
  eq : flag = true

instance : Evident true := ⟨rfl⟩

namespace ParseState

variable {s : ParseState} {p : Punctuator} {word : String}

theorem not_arrow_of_punctuator [hp : Evident p.isPlain] (h : s.lookahead.isPunctuator p = true) :
    ¬ s.arrowAhead := by
  intro harrow
  obtain rfl : p = .arrow := by simp_all [arrowAhead, Token.isPunctuator_iff]
  simpa using hp.eq

theorem not_arrow_of_keyword (h : s.lookahead.isKeyword word = true) : ¬ s.arrowAhead := by
  simp_all [arrowAhead, Token.isPunctuator_iff, Token.isKeyword_iff]

theorem not_arrow_of_word (h : s.lookahead.isIdentifierNamed word = true) : ¬ s.arrowAhead := by
  simp_all [arrowAhead, Token.isPunctuator_iff, Token.isIdentifierNamed_iff]

/-- Whatever is true of the lookahead, but not of the arrow, tells that the lookahead is no arrow. -/
theorem not_arrow_of {f : Token → Bool} (h : f s.lookahead = true)
    (hf : ∀ t : Token, f { t with lexeme := .punctuator .arrow } = false) : ¬ s.arrowAhead := fun harrow => by
  have ht := hf s.lookahead
  rw [← Token.isPunctuator_iff.1 harrow] at ht
  exact absurd h (by simpa using ht)

theorem not_arrow_of_some {α : Type} {f : Token → Option α} {a : α} (h : f s.lookahead = some a)
    (hf : ∀ t : Token, f { t with lexeme := .punctuator .arrow } = none) : ¬ s.arrowAhead := fun harrow => by
  have ht := hf s.lookahead
  rw [← Token.isPunctuator_iff.1 harrow] at ht
  simp_all

theorem not_arrow_of_lexeme {l : Lexeme} (h : s.lookahead.lexeme = l) (hl : l ≠ .punctuator .arrow) :
    ¬ s.arrowAhead := by
  simp_all [arrowAhead, Token.isPunctuator_iff]

theorem not_arrow_of_slash (h : (s.lookahead.isPunctuator .slash || s.lookahead.isPunctuator .divAssign) =
    true) : ¬ s.arrowAhead :=
  @not_arrow_of _ (fun t => t.isPunctuator .slash || t.isPunctuator .divAssign) h fun _ => rfl

theorem not_arrow_of_isEnd (h : s.lookahead.isEnd = true) : ¬ s.arrowAhead := not_arrow_of h fun _ => rfl

theorem not_arrow_unread (s : ParseState) : ¬ s.unread.arrowAhead := nofun

theorem Rests.not_arrow {t : ParseState} (h : s.Rests t) (hs : ¬ s.arrowAhead) : ¬ t.arrowAhead := by
  rwa [arrowAhead, h.lookahead]

end ParseState

namespace Contract

open Parse

variable {K : Contract} {m o : Mode} {r : Bool} {base s t : ParseState} {ns : List Node} {α β σ : Type}

namespace Held

variable {Q : β → ParseState → Prop}

/-- Consuming a token. If it is an arrow, nothing counts as read. -/
theorem next {f : Token → Parse β} (h : K.Held .ahead r base ns s)
    (hf : ∀ t, (¬ s.arrowAhead → K.Held .ahead true base ns t) → K.Ensures (f s.lookahead) t Q) :
    K.Ensures (next >>= f) s Q := by
  refine Judgement.bind (K.ofNext h.stands) ?_
  rintro _ t ⟨rfl, stands, -, read, -, -⟩
  exact hf t fun hs => by simpa using h.step (q := true) stands (read hs)

theorem skip {f : Unit → Parse β} (h : K.Held .ahead r base ns s) (hs : ¬ s.arrowAhead)
    (hf : ∀ t, K.Held .ahead true base ns t → K.Ensures (f ()) t Q) : K.Ensures (skip >>= f) s Q := by
  rw [skip_eq, bind_assoc]
  exact h.next fun t ht => K.ofBind (K.ofPure (hf t (ht hs)))

theorem expect {p : Punctuator} [Evident p.isPlain] {f : Unit → Parse β} (h : K.Held .ahead r base ns s)
    (hf : ∀ t, K.Held .ahead true base ns t → K.Ensures (f ()) t Q) : K.Ensures (expect p >>= f) s Q := by
  rw [Parse.expect, bind_assoc]
  refine h.next fun t ht => K.ofBind (.ite (fun hs => K.ofPure (hf t (ht (ParseState.not_arrow_of_punctuator hs)))) ?_)
  exact fun _ => Judgement.Ensures.failAt

theorem expectKeyword {word : String} {f : Unit → Parse β} (h : K.Held .ahead r base ns s)
    (hf : ∀ t, K.Held .ahead true base ns t → K.Ensures (f ()) t Q) :
    K.Ensures (expectKeyword word >>= f) s Q := by
  rw [Parse.expectKeyword, bind_assoc]
  refine h.next fun t ht => K.ofBind (.ite (fun hs => K.ofPure (hf t (ht (ParseState.not_arrow_of_keyword hs)))) ?_)
  exact fun _ => Judgement.Ensures.failAt

/-- A token that is consumed if it is ahead. -/
theorem accept {p : Punctuator} [Evident p.isPlain] {f : Bool → Parse β} (h : K.Held .ahead r base ns s)
    (hyes : ∀ t, K.Held .ahead true base ns t → K.Ensures (f true) t Q)
    (hno : s.lookahead.isPunctuator p = false → K.Ensures (f false) s Q) :
    K.Ensures (accept p >>= f) s Q := by
  rw [Parse.accept, bind_assoc]
  refine .check ?_
  split
  next hs =>
    rw [bind_assoc]
    exact h.skip (ParseState.not_arrow_of_punctuator hs) fun t ht => K.ofBind (K.ofPure (hyes t ht))
  next hs => exact K.ofBind (K.ofPure (hno (by simpa using hs)))

/-- The same, where it matters what has been consumed. -/
theorem acceptPast {p : Punctuator} [Evident p.isPlain] {f : Bool → Parse β} (h : K.Held .ahead r base ns s)
    (hyes : ∀ t, s.lookahead.isPunctuator p = true → K.Past s.lookahead t → K.Held .ahead true base ns t →
      K.Ensures (f true) t Q)
    (hno : s.lookahead.isPunctuator p = false → K.Ensures (f false) s Q) :
    K.Ensures (Parse.accept p >>= f) s Q := by
  rw [Parse.accept, bind_assoc]
  refine .check ?_
  split
  next hs =>
    rw [bind_assoc, skip_eq, bind_assoc]
    refine Judgement.bind (K.ofNext h.stands) ?_
    rintro _ t ⟨rfl, stands, -, read, past, -⟩
    have ht := h.step (q := true) stands (read (ParseState.not_arrow_of_punctuator hs))
    exact .value (.value (hyes t hs past (by simpa using ht)))
  next hs => exact .value (hno (by simpa using hs))

/-- A loop in the midst of a production. -/
theorem loop [HasNodes σ] {step : σ → Parse (Progress σ)} {state : σ} {f : σ → Parse β} {l : List Node}
    (h : K.Held m r base ns s) (hs : ∀ n ∈ nodes state ++ l, n ∈ ns)
    (hstep : ∀ x t, K.Held m r base (nodes x ++ l) t →
      K.Ensures (step x) t fun p u => K.Held m r base (nodes p ++ l) u)
    (hf : ∀ x t, K.Held m r base (nodes x ++ l) t → K.Ensures (f x) t Q) : K.Ensures (loop state step >>= f) s Q := by
  refine Judgement.bind (P := fun x t => K.Held m r base (nodes x ++ l) t)
    (Judgement.Ensures.loop (I := fun x t => K.Held m r base (nodes x ++ l) t) (h.mono hs) fun x t hx =>
      K.mono (hstep x t hx) ?_) hf
  rintro (y | y) u hu
  · exact hu
  · exact hu

end Held

/-- The nodes held are good whatever comes next: something has been consumed since they were read. -/
structure Closed (K : Contract) (base : ParseState) (ns : List Node) (s : ParseState) : Prop
    extends K.Held .ahead true base ns s where
  firm : ∀ n ∈ ns, K.Firm base n s

/-- The production consumes something behind its last node. -/
def Closes (K : Contract) [HasNodes α] (p : Parse α) : Prop :=
  ∀ s, K.Stands .ahead s → K.Ensures p s fun a t => K.Closed s (nodes a) t

theorem Closes.reads [HasNodes α] {p : Parse α} (h : K.Closes p) : K.Reads p := fun s hs =>
  K.mono (h s hs) fun _ _ ht => ht.toHeld

namespace Closed

variable {Q : β → ParseState → Prop}

theorem mono {ns' : List Node} (h : K.Closed base ns s) (hns : ∀ n ∈ ns', n ∈ ns) : K.Closed base ns' s :=
  ⟨h.toHeld.mono hns, fun n hn => h.firm n (hns n hn)⟩

theorem rests (h : K.Closed base ns s) (ht : s.Rests t) : K.Closed base ns t :=
  ⟨h.toHeld.rests ht, fun n hn => K.firm_later (h.firm n hn) (K.later_of_steps (K.steps_of_rests ht))⟩

theorem settle {p : Parse α} {f : α → Parse β} (h : K.Closed base ns s) (hp : K.Settles p)
    (hf : ∀ a t, K.Closed base ns t → K.Ensures (f a) t Q) : K.Ensures (p >>= f) s Q :=
  Judgement.bind (hp s) fun a t ht => hf a t (h.rests ht)

theorem settleIf {c : Prop} [Decidable c] {p : Parse Unit} {f : Unit → Parse β} (h : K.Closed base ns s)
    (hp : K.Settles p) (hf : ∀ t, K.Closed base ns t → K.Ensures (f ()) t Q) :
    K.Ensures (if c then p >>= f else f ()) s Q :=
  .ite (fun _ => h.settle hp fun _ => hf) (fun _ => hf s h)

theorem give {a : α} {ns' : α → List Node} (h : K.Closed base ns s)
    (ha : ∀ n ∈ ns' a, n ∈ ns) :
    K.Ensures (pure a) s fun a t => K.Closed base (ns' a) t := K.ofPure (h.mono ha)

theorem finishFrom {start : Place} {kind : Kind Node} (h : K.Closed base ns s) (hs : base.Marks start)
    (hk : kind.isCompound = true) (hc : ∀ n ∈ kind.children, n ∈ ns) :
    K.Ensures (finish start kind) s fun n t => K.Closed base (nodes n) t := by
  refine K.mono (K.ofFinish h.stands h.moved hs (Kind.isPlaceholder_of_isCompound hk)
    (fun n hn => h.good n (hc n hn)) ?_) ?_
  · simp [Kind.leaf?_of_isCompound hk]
  rintro n t ⟨stands, -, -, read, -, good, firm⟩
  exact ⟨⟨stands, read, by simpa using good⟩, by simpa using firm fun n hn => h.firm n (hc n hn)⟩

theorem finish {kind : Kind Node} (h : K.Closed base ns s) (hk : kind.isCompound = true)
    (hc : ∀ n ∈ kind.children, n ∈ ns) :
    K.Ensures (finish base.start.place kind) s fun n t => K.Closed base (nodes n) t := h.finishFrom (.inl rfl) hk hc

end Closed

namespace Held

variable {Q : β → ParseState → Prop}

/-- What is held is firm behind a production that closes. -/
theorem closed {ns' : List Node} (h : K.Held .ahead r base ns s) (h' : K.Closed s ns' t) :
    K.Closed base (ns' ++ ns) t where
  toHeld := by simpa using h.trans h'.toHeld
  firm n hn := by
    rcases List.mem_append.1 hn with hn | hn
    · exact K.firm_from h.moved.steps (h'.firm n hn)
    · exact K.firm_of_read (h.good n hn) h'.moved

theorem close [HasNodes α] {p : Parse α} {f : α → Parse β} (h : K.Held .ahead r base ns s) (hp : K.Closes p)
    (hf : ∀ a t, K.Closed base (nodes a ++ ns) t → K.Ensures (f a) t Q) : K.Ensures (p >>= f) s Q :=
  Judgement.bind (hp s h.stands) fun a t ht => hf a t (h.closed ht)

/-- The last part of a production. -/
theorem closing [HasNodes α] {p : Parse α} (h : K.Held .ahead r base ns s) (hp : K.Closes p) :
    K.Ensures p s fun a t => K.Closed base (nodes a) t := by
  rw [← bind_pure p]
  exact h.close hp fun a t h => h.give fun _ => List.mem_append_left _

theorem expect_closes {p : Punctuator} [Evident p.isPlain] : K.Closes (Parse.expect p) := by
  intro s hs
  rw [← bind_pure (Parse.expect p)]
  exact (K.start hs).expect fun t h => K.ofPure ⟨h, by simp⟩

/-- Consuming a token that closes what is held. -/
theorem expectClosing {p : Punctuator} [Evident p.isPlain] {f : Unit → Parse β} (h : K.Held .ahead r base ns s)
    (hf : ∀ t, K.Closed base ns t → K.Ensures (f ()) t Q) :
    K.Ensures (Parse.expect p >>= f) s Q := h.close expect_closes fun _ => hf

end Held

/-! ## Leaves -/

/-- Since the beginning of the production only the token has been consumed. -/
structure Took (K : Contract) (base : ParseState) (c : Token) (s : ParseState) :
    Prop extends K.Held .ahead true base [] s where
  tells : ∀ leaf, c.Spells leaf → K.Tells base leaf s

/-- The first token of a production is consumed. If it is an arrow, nothing counts as read. -/
theorem take {f : Token → Parse β} {Q : β → ParseState → Prop} (hs : K.Stands .ahead s) (ht : s.Rests t)
    (hf : ∀ u, (¬ s.arrowAhead → K.Took s s.lookahead u) → K.Ensures (f s.lookahead) u Q) :
      K.Ensures (next >>= f) t Q := by
  have h := (K.start hs).rests ht
  refine Judgement.bind (K.ofNext h.stands) ?_
  rintro _ u ⟨rfl, stands, -, read, -, tells⟩
  rw [ht.lookahead] at tells ⊢
  refine hf u fun harrow => ⟨?_, fun leaf hleaf => K.tells_of_rests ht (tells leaf hleaf) (.refl u)⟩
  simpa using h.step (o := .ahead) (q := true) stands (read (ht.not_arrow harrow))

theorem takeSkip {f : Unit → Parse β} {Q : β → ParseState → Prop} (hs : K.Stands .ahead s) (ht : s.Rests t)
    (harrow : ¬ s.arrowAhead) (hf : ∀ u, K.Took s s.lookahead u → K.Ensures (f ()) u Q) :
      K.Ensures (skip >>= f) t Q := by
  rw [skip_eq, bind_assoc]
  exact take hs ht fun u h => .value (hf u (h harrow))

namespace Took

variable {c : Token} {l : Leaf} {kind : Kind Node} {f : Unit → Parse β} {Q : β → ParseState → Prop}

theorem rests (h : K.Took base c s) (ht : s.Rests t) : K.Took base c t :=
  ⟨h.toHeld.rests ht, fun leaf hleaf => K.tells_of_rests (.refl base) (h.tells leaf hleaf) ht⟩

theorem settle {p : Parse Unit} (h : K.Took base c s) (hp : K.Settles p)
    (hf : ∀ t, K.Took base c t → K.Ensures (f ()) t Q) :
    K.Ensures (p >>= f) s Q := Judgement.bind (hp s) fun _ t ht => hf t (h.rests ht)

theorem settleIf {b : Prop} [Decidable b] {p : Parse Unit} (h : K.Took base c s) (hp : K.Settles p)
    (hf : ∀ t, K.Took base c t → K.Ensures (f ()) t Q) : K.Ensures (if b then p >>= f else f ()) s Q :=
  .ite (fun _ => h.settle hp hf) fun _ => hf s h

/-- Finishing the leaf that the token makes up. -/
theorem leaf (h : K.Took base c s) (hleaf : kind.leaf? = some l) (hc : c.Spells l) :
    K.Ensures (finish base.start.place kind) s fun n t => K.Closed base (nodes n) t ∧ K.Steps s t := by
  refine K.mono (h.leafFrom (.inl rfl) hleaf (h.tells l hc)) ?_
  rintro n t ⟨held, steps, -, firm⟩
  exact ⟨⟨held, by simpa using firm⟩, steps⟩

theorem closes (h : K.Took base c s) (hleaf : kind.leaf? = some l) (hc : c.Spells l) :
    K.Ensures (finish base.start.place kind) s fun n t => K.Closed base (nodes n) t :=
  K.mono (h.leaf hleaf hc) fun _ _ ht => ht.1

theorem finish (h : K.Took base c s) (hleaf : kind.leaf? = some l) (hc : c.Spells l) :
    K.Ensures (Parse.finish base.start.place kind) s fun n t => K.Held .ahead true base (nodes n) t :=
  K.mono (h.closes hleaf hc) fun _ _ ht => ht.toHeld

end Took

/-! ## Productions in another setting -/

section
variable [HasNodes α] {p : Parse α}

theorem Leads.withContext {change : Context → Context} (h : K.Leads m o r p) :
    K.Leads m o r (withContext change p) := fun _ hs =>
  .withContext fun _ ht => K.mono (((K.start hs).rests ht).last h) fun _ _ hu _ hv => hu.rests hv

theorem Leads.isolate (h : K.Leads m o r p) : K.Leads m o r (isolate p) := fun _ hs =>
  .isolate fun _ ht => K.mono (((K.start hs).rests ht).last h) fun _ _ hu _ hv => hu.rests hv

theorem Leads.inherit (h : K.Leads m o r p) : K.Leads m o r (inherit p) := fun _ hs =>
  .inherit fun _ ht => K.mono (((K.start hs).rests ht).last h) fun _ _ hu _ hv => hu.rests hv

theorem manyBefore_leads {stop : Parse Bool} (hstop : K.Settles stop) (h : K.Leads m m true p) :
    K.Leads m m false (manyBefore stop p) := fun s hs => by
  refine (K.start hs).loop (l := []) (by simp) (fun items t ht => ?_) fun items t ht => ht.give (by simp)
  refine ht.settle hstop fun b t ht => .ite (fun _ => ht.give (by simp)) fun _ => ?_
  refine ht.read h fun a t ht => ht.reading.give (by simp)

theorem itemsBefore_leads {c : Punctuator} (h : K.Leads m m true p) : K.Leads m m false (itemsBefore c p) :=
  manyBefore_leads (.get (fun _ => rfl) fun _ => .pure _) h

theorem commaSeparated_reads (h : K.Reads p) : K.Reads (commaSeparated p) := fun s hs => by
  refine (K.start hs).read h fun first t ht => ?_
  refine ht.loop (l := nodes first) (by simp) (fun items t ht => ?_) (fun items t ht => ht.give (by simp; grind))
  refine ht.accept (fun t ht => ?_) fun _ => ?_
  · refine .pos rfl (ht.read h fun a t ht => ht.give (by simp))
  · exact .neg nofun (ht.give (by simp))

theorem Closes.withContext {change : Context → Context} (h : K.Closes p) : K.Closes (withContext change p) :=
  fun s hs => .withContext fun t ht => by
    have := (K.start hs).rests ht
    refine K.mono (h t this.stands) fun a u hu v hv => ⟨?_, fun n hn => ?_⟩
    · simpa using (this.trans hu.toHeld).rests hv |>.mono (by simp)
    · exact K.firm_later (K.firm_from this.moved.steps (hu.firm n hn)) (K.later_of_steps (K.steps_of_rests hv))

theorem Closes.isolate (h : K.Closes p) : K.Closes (isolate p) :=
  fun s hs => .isolate fun t ht => by
    have := (K.start hs).rests ht
    refine K.mono (h t this.stands) fun a u hu v hv => ⟨?_, fun n hn => ?_⟩
    · simpa using (this.trans hu.toHeld).rests hv |>.mono (by simp)
    · exact K.firm_later (K.firm_from this.moved.steps (hu.firm n hn)) (K.later_of_steps (K.steps_of_rests hv))

end

/-! ## Ends of statements -/

theorem skip_reads {p : Punctuator} [Evident p.isPlain] (hs : K.Stands .ahead s)
    (hp : s.lookahead.isPunctuator p = true) : K.Ensures skip s fun _ t => K.Held .ahead true s [] t := by
  rw [← bind_pure skip]
  exact (K.start hs).skip (ParseState.not_arrow_of_punctuator hp) fun t h => K.ofPure h

theorem endStatement_passes : K.Passes endStatement := by
  intro s hs
  refine .get (fun _ => rfl) (.ite (fun h => ?_) fun _ => .ite (fun _ => (K.start hs).give (by simp)) fun _ =>
    .ite (fun _ => ?_) fun _ => ?_)
  · exact K.mono (skip_reads hs h) fun _ _ h => h.reading
  · exact K.mono (K.ofTrail hs) fun _ _ ⟨stands, steps⟩ => ⟨stands, steps, by simp⟩
  · exact .failAt

theorem expectSeparator_passes : K.Passes expectSeparator := fun _ hs =>
  K.mono (K.ofSeparator hs) fun _ _ ⟨stands, steps⟩ => ⟨stands, steps, by simp⟩

end Contract
end EcmaTree