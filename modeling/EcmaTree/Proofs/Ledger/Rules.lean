import EcmaTree.Proofs.Ledger.Basic

/-!
# Inside a production

Each rule takes one action of a production and says what is held behind it: for taking tokens, finishing nodes, changing
the context or the cover for a while, and repeating.
-/

namespace EcmaTree

@[simp] theorem fewer_iff {ns ms : List Node} : Fewer ns ms ↔ ∀ f, weigh f ns ≤ weigh f ms := Iff.rfl

namespace Ledger

open Parse

variable {L : Ledger} {m o : Mode} {base s t : ParseState} {ns l : List Node} {α β σ : Type}

section
variable [HasTokens α] [HasTokens β]

@[simp] theorem fine_mute [HasTokens.Mute α] (a : α) : L.Fine a := by simp [Fine]

@[simp] theorem fine_token {u : Token} : L.Fine u ↔ L.Seen u := by simp [Fine]

@[simp] theorem fine_nil : L.Fine ([] : List α) := by simp [Fine]

@[simp] theorem fine_cons {a : α} {as : List α} : L.Fine (a :: as) ↔ L.Fine a ∧ L.Fine as := by
  simp [Fine, or_imp, forall_and]

@[simp] theorem fine_reverse {as : List α} : L.Fine as.reverse ↔ L.Fine as := by simp [Fine]

@[simp] theorem fine_none : L.Fine (none : Option α) := by simp [Fine]

@[simp] theorem fine_some {a : α} : L.Fine (some a) ↔ L.Fine a := by simp [Fine]

@[simp] theorem fine_pair {a : α} {b : β} : L.Fine (a, b) ↔ L.Fine a ∧ L.Fine b := by simp [Fine, or_imp, forall_and]

@[simp] theorem fine_more {a : α} : L.Fine (Progress.more a) ↔ L.Fine a := Iff.rfl

@[simp] theorem fine_done {a : α} : L.Fine (Progress.done a) ↔ L.Fine a := Iff.rfl

@[simp] theorem fine_names [HasTokens.Mute α] {items : List (α × List Token)} :
    L.Fine (items.flatMap (·.2)) ↔ L.Fine items := by
  rw [HasTokens.tokens_names, Fine, Fine, HasTokens.tokens_list]

end

/-- What comes behind a part of a production that has given something back. -/
theorem after [HasNodes α] [HasTokens α] {p : Parse α} {f : α → Parse β} {Q : β → ParseState → Prop}
    (hp : L.Safe p s (L.Gives m base l)) (hf : ∀ a t, L.Held m base (nodes a ++ l) t → L.Fine a → L.Safe (f a) t Q) :
    L.Safe (p >>= f) s Q := .bind (hp.mono fun a t h => hf a t h.1 h.2)

namespace Held

variable {Q : β → ParseState → Prop}

theorem self (h : L.Held m base ns s) : L.Held m s [] s := ⟨.start h.counted, h.stands, h.pending⟩

theorem fewer {ms : List Node} (h : L.Held m base ns s) (hm : Fewer ms ns) : L.Held m base ms s :=
  ⟨h.toAccounts.fewer hm, h.stands, h.pending⟩

theorem trans {ms : List Node} (h : L.Held m base ns s) (h' : L.Held o s ms t) : L.Held o base (ms ++ ns) t :=
  ⟨h.toAccounts.trans h'.toAccounts, h'.stands, h'.pending⟩

theorem still (h : L.Held m base ns s) (ht : s.Still t) (hc : t.cover = s.cover) (stands : L.Stands o t) :
    L.Held o base ns t := ⟨h.toAccounts.still ht, stands, fun hp => h.pending (hc ▸ hp)⟩

/-- The token ahead has been read. -/
theorem seen (h : L.Held .ahead base ns s) : L.Seen s.lookahead := L.seen_ahead h.stands

/-- The same node, saying something else. -/
theorem alike {n n' : Node} (h : L.Held m base (n :: ns) s) (hn : n'.outline = n.outline) :
    L.Held m base (n' :: ns) s :=
  ⟨h.toAccounts.alike [n] [n'] (by simp [hn]), h.stands, h.pending⟩

/-- Expressions that become patterns. -/
theorem patterns (h : L.Held m base (ns ++ l) s) : L.Held m base (ns.map Node.toPattern ++ l) s :=
  ⟨h.toAccounts.alike _ _ (by simp [Node.outline_toPattern]), h.stands, h.pending⟩

/-- The nodes below a node, in place of the node. -/
theorem opened {n : Node} (h : L.Held m base (n :: ns) s) (hn : (n.kind.map Node.outline).outlineForm ≠ .shared) :
    L.Held m base (n.children ++ ns) s := ⟨h.toAccounts.opened hn, h.stands, h.pending⟩

/-- A part of the production. -/
theorem read [HasNodes α] [HasTokens α] {p : Parse α} {f : α → Parse β} (h : L.Held m base ns s) (hp : L.Leads m o p)
    (hf : ∀ a t, L.Held o base (nodes a ++ ns) t → L.Fine a → L.Safe (f a) t Q) : L.Safe (p >>= f) s Q :=
  .bind ((hp s h.self).mono fun a t ⟨ht, fine⟩ => hf a t (by simpa using h.trans ht) fine)

/-- An action under a condition. -/
theorem settleIf {c : Prop} [Decidable c] {p : Parse Unit} {f : Unit → Parse β} (h : L.Held m base ns s)
    (hp : L.Leads m m p) (hf : ∀ t, L.Held m base ns t → L.Safe (f ()) t Q) :
    L.Safe (if c then p >>= f else f ()) s Q := .ite (fun _ => h.read hp fun _ t h _ => hf t h) fun _ => hf s h

theorem settleUnless {c : Prop} [Decidable c] {p : Parse Unit} {f : Unit → Parse β} (h : L.Held m base ns s)
    (hp : L.Leads m m p) (hf : ∀ t, L.Held m base ns t → L.Safe (f ()) t Q) :
    L.Safe (if c then f () else p >>= f) s Q := .ite (fun _ => hf s h) fun _ => h.read hp fun _ t h _ => hf t h

theorem give [HasNodes α] [HasTokens α] {a : α} (h : L.Held m base ns s) (hn : Fewer (nodes a ++ l) ns)
    (ht : L.Fine a) :
    L.Safe (pure a) s (L.Gives m base l) := .pure ⟨h.fewer hn, ht⟩

/-- The last part of a production. -/
theorem last [HasNodes α] [HasTokens α] {p : Parse α} (h : L.Held m base ns s) (hp : L.Leads m o p) (hl : Fewer l ns) :
    L.Safe p s (L.Gives o base l) :=
  (hp s h.self).mono fun a t ⟨ht, fine⟩ => ⟨(h.trans ht).fewer (by simpa using hl), fine⟩

/-! ## Nodes -/

/-- Finishing a node that uses up the nodes `used`. -/
theorem nodeOver {start : Place} {kind : Kind Node} {f : Node → Parse β} (used : List Node) {rest : List Node}
    (h : L.Held m base ns s) (hk : kind.isPlaceholder = false)
    (hu : ∀ id info, (Node.mk info kind).occurrences id ≤ (if info.id = id then 1 else 0) + weigh
      (Node.occurrences id) used)
    (hc : ∀ c ∈ kind.children, c ∈ ns) (hr : Fewer (used ++ rest) ns)
    (hf : ∀ n t, n.kind = kind → L.Held m base (n :: rest) t → L.Safe (f n) t Q) :
    L.Safe (Parse.finish start kind >>= f) s Q := by
  refine hf _ _ rfl ⟨h.toAccounts.finishOver used rfl rfl rfl hk (h.counted.full.report _) rfl ?_
    (fun id => hu id _) hc hr,
    ?_, h.pending⟩
  · simp [ParseState.nodes, h.counted.full.report_events, ParseEvent.nodes, ParseEvent.node?]
  · exact L.stands_of_same h.stands rfl rfl rfl rfl

theorem node {start : Place} {kind : Kind Node} {f : Node → Parse β} (rest : List Node) (h : L.Held m base ns s)
    (hk : kind.isPlaceholder = false) (hc : Fewer (kind.children ++ rest) ns)
    (hf : ∀ n t, n.kind = kind → L.Held m base (n :: rest) t → L.Safe (f n) t Q) :
    L.Safe (Parse.finish start kind >>= f) s Q :=
  h.nodeOver kind.children hk (fun _ _ => Node.occurrences_le) (fun _ hn => hc.subset (List.mem_append_left _ hn)) hc hf

/-- The last node of a production. -/
theorem finish {start : Place} {kind : Kind Node} (h : L.Held m base ns s) (hk : kind.isPlaceholder = false)
    (hc : Fewer (kind.children ++ l) ns) : L.Safe (Parse.finish start kind) s (L.Gives m base l) := by
  rw [← bind_pure (Parse.finish start kind)]
  exact h.node l hk hc fun n t _ h => h.give (by simp) (by simp)

/-! ## Errors -/

section
variable {u : Token} {cause : Cause}

theorem failAt (h : L.Held m base ns s) (hu : L.Seen u) : L.Safe (Parse.failAt u) s Q := L.reports_at _ h.stands hu

theorem failWith (h : L.Held m base ns s) (hu : L.Seen u) : L.Safe (Parse.failWith u cause) s Q :=
  L.reports_at _ h.stands hu

theorem failHere (h : L.Held m base ns s) : L.Safe (Parse.failHere cause) s Q := L.reports_here _ h.stands

theorem failAhead (h : L.Held .ahead base ns s) : L.Safe Parse.failAhead s Q :=
  .get (h.failAt h.seen)

end

end Held

namespace Leads

/-- An action that finishes no node. -/
theorem of_barren [HasNodes α] [HasNodes.Bare α] [HasTokens α] {p : Parse α} (hp : Barren p)
    (h : ∀ s, L.Stands m s → L.Safe p s fun a t => L.Fine a ∧ L.Stands o t) : L.Leads m o p := fun s hs =>
  ((h s hs.stands).and (hp s)).mono fun a t ⟨⟨fine, stands⟩, still, cover⟩ =>
    ⟨by simpa using hs.still still cover stands, fine⟩

section
variable {u : Token} {cause : Cause}

theorem failAt [HasNodes α] [HasTokens α] (hu : L.Seen u) : L.Leads m o (Parse.failAt u : Parse α) :=
  fun _ h => h.failAt hu

theorem failWith [HasNodes α] [HasTokens α] (hu : L.Seen u) : L.Leads m o (Parse.failWith u cause : Parse α) :=
  fun _ h => h.failWith hu

theorem failHere [HasNodes α] [HasTokens α] : L.Leads m o (Parse.failHere cause : Parse α) := fun _ h => h.failHere

theorem failAhead [HasNodes α] [HasTokens α] : L.Leads .ahead o (Parse.failAhead : Parse α) := fun _ h => h.failAhead

theorem tolerate {e : ParseState → SyntaxError} (he : ∀ s, L.Stands m s → L.Reports (e s)) :
    L.Leads m m (do Parse.tolerate (e (← get))) := fun s h =>
  have reports := he s h.stands
  .get (.tolerate reports ⟨h.still (.of_record rfl rfl) rfl (L.stands_record h.stands reports), by simp⟩)

theorem tolerateAt (hu : L.Seen u) : L.Leads m m (Parse.tolerateAt u) := tolerate fun _ h => L.reports_at _ h hu

theorem tolerateWith (hu : L.Seen u) : L.Leads m m (Parse.tolerateWith u cause) :=
  tolerate fun _ h => L.reports_at _ h hu

theorem tolerateHere : L.Leads m m (Parse.tolerateHere cause) := tolerate fun _ h => L.reports_onLine _ h

end

end Leads

/-! ## Tokens -/

/-- Consuming the token ahead. -/
theorem Held.next {f : Token → Parse β} {Q : β → ParseState → Prop} (h : L.Held m base ns s)
    (hf : ∀ t, L.Held .ahead base ns t → L.Safe (f s.lookahead) t Q) : L.Safe (next >>= f) s Q := by
  refine .bind (((L.ofNext h.stands).and (Barren.next s)).mono ?_)
  rintro _ t ⟨⟨rfl, stands⟩, still, cover⟩
  exact hf t (h.still still cover stands)

namespace Leads

theorem skip : L.Leads m .ahead skip := fun s h => by
  rw [skip_eq]
  exact h.next fun t h => h.give (by simp) (by simp)

theorem expect {p : Punctuator} : L.Reads (expect p) := fun s h =>
  h.next fun t ht => .ite (fun _ => ht.give (by simp) (by simp)) fun _ => ht.failAt h.seen

theorem expectKeyword {word : String} : L.Reads (expectKeyword word) := fun s h =>
  h.next fun t ht => .ite (fun _ => ht.give (by simp) (by simp)) fun _ => ht.failAt h.seen

theorem accept {p : Punctuator} : L.Reads (accept p) := fun s h =>
  .check (.ite (fun _ => h.read .skip fun _ t h _ => h.give (by simp) (by simp)) fun _ => h.give (by simp) (by simp))

theorem second : L.Reads second :=
  of_barren (.scan _) fun _ hs => (L.ofSecond hs).mono fun _ _ ⟨seen, stands⟩ => ⟨by simpa using seen, stands⟩

theorem passOver : L.Reads passOver := fun s h => h.next fun t ht => ht.last (.tolerateAt h.seen) (by simp)

theorem expectSeparator : L.Reads expectSeparator := fun s h =>
  .get (.ite (fun _ => h.last .expect (by simp)) fun _ => .ite (fun _ => h.last .skip (by simp)) fun _ =>
    .ite (fun _ => h.last .passOver (by simp)) fun _ => h.last (.tolerateWith h.seen) (by simp))

theorem endStatement : L.Reads endStatement := fun s h =>
  .get (.ite (fun _ => h.last .skip (by simp)) fun _ => .ite (fun _ => h.give (by simp) (by simp)) fun _ =>
    .ite (fun _ => .modify ⟨h.still (.of_record rfl rfl) rfl (L.stands_trail h.stands), by simp⟩) fun _ =>
      h.failAt h.seen)

end Leads

namespace Held

variable {Q : β → ParseState → Prop}

theorem expect {p : Punctuator} {f : Unit → Parse β} (h : L.Held .ahead base ns s)
    (hf : ∀ t, L.Held .ahead base ns t → L.Safe (f ()) t Q) : L.Safe (Parse.expect p >>= f) s Q :=
  h.read .expect fun _ t h _ => hf t h

theorem expectKeyword {word : String} {f : Unit → Parse β} (h : L.Held .ahead base ns s)
    (hf : ∀ t, L.Held .ahead base ns t → L.Safe (f ()) t Q) : L.Safe (Parse.expectKeyword word >>= f) s Q :=
  h.read .expectKeyword fun _ t h _ => hf t h

theorem skip {f : Unit → Parse β} (h : L.Held m base ns s)
    (hf : ∀ t, L.Held .ahead base ns t → L.Safe (f ()) t Q) : L.Safe (Parse.skip >>= f) s Q :=
  h.read .skip fun _ t h _ => hf t h

theorem accept {p : Punctuator} {f : Bool → Parse β} (h : L.Held .ahead base ns s)
    (hf : ∀ b t, L.Held .ahead base ns t → L.Safe (f b) t Q) : L.Safe (Parse.accept p >>= f) s Q :=
  h.read .accept fun b t h _ => hf b t h

theorem endStatement {f : Unit → Parse β} (h : L.Held .ahead base ns s)
    (hf : ∀ t, L.Held .ahead base ns t → L.Safe (f ()) t Q) : L.Safe (Parse.endStatement >>= f) s Q :=
  h.read .endStatement fun _ t h _ => hf t h

end Held

/-! ## Context and cover -/

theorem Held.setContext (h : L.Held m base ns s) (context : Context) : L.Held m base ns { s with context } :=
  h.still (.of_record rfl rfl) rfl (L.stands_of_same h.stands rfl rfl rfl rfl)

theorem Held.setLabels (h : L.Held m base ns s) (labels : List String) : L.Held m base ns { s with labels } :=
  h.still (.of_record rfl rfl) rfl (L.stands_of_same h.stands rfl rfl rfl rfl)

/-- Another cover, whose pending error points to a token that has been read. -/
theorem Held.setCover (h : L.Held m base ns s) (cover : Cover) (hc : ∀ t, cover.pending = some t → L.Seen t) :
    L.Held m base ns { s with cover } :=
  have same := h.toAccounts.still (t := { s with cover }) (.of_record rfl rfl)
  ⟨same, L.stands_of_same h.stands rfl rfl rfl rfl, fun {t} => hc t⟩

/-- The rest of a production, in a changed context. -/
theorem Held.withContext [HasNodes α] [HasTokens α] {change : Context → Context} {p : Parse α} (h : L.Held m base ns s)
    (hp : ∀ t, L.Held m base ns t → L.Safe p t (L.Gives o base l)) :
      L.Safe (withContext change p) s (L.Gives o base l) :=
  .get (.bind (.modify (after (hp _ (h.setContext _)) fun _ _ h fine =>
    .bind (.modify ((h.setContext _).give (fun _ => Nat.le_refl _) fine)))))

namespace Leads

theorem modifyCover {change : Cover → Cover} (hc : ∀ c t, (change c).pending = some t → c.pending = some t ∨ L.Seen t) :
    L.Leads m m (modifyCover change) := fun s h =>
  .modify ⟨h.setCover _ fun t ht => (hc _ t ht).elim h.pending id, by simp⟩

theorem nonPattern : L.Leads m m nonPattern := modifyCover fun _ _ => .inl

/-- The error that waits for a pattern is forgotten. -/
theorem dropPending : L.Leads m m (Parse.modifyCover ({ · with pending := none })) :=
  modifyCover fun _ _ h => absurd h (by simp)

section
variable [HasNodes α] [HasTokens α] {p : Parse α}

theorem withContext {change : Context → Context} (hp : L.Leads m o p) : L.Leads m o (withContext change p) := fun _ h =>
  h.withContext fun _ h => h.last hp (by simp)

theorem isolate (hp : L.Leads m o p) : L.Leads m o (isolate p) := fun s h => by
  have restored {u : ParseState} {a : α} (hu : L.Held o s (nodes a ++ []) u) (fine : L.Fine a) :
      L.Safe (Parse.modifyCover (fun _ => s.cover) >>= fun _ => Pure.pure a) u (L.Gives o s []) :=
    .bind (.modify ((hu.setCover _ fun _ ht => h.pending ht).give (by simp) fine))
  refine .get (.bind (.modify ((h.setCover .fresh fun _ h => absurd h (Option.some_ne_none _).symm).read hp
    fun a t ht fine => .get ?_)))
  split
  next u hu => exact .bind (ht.failAt (ht.pending hu))
  · exact restored ht fine

theorem inherit (hp : L.Leads m o p) : L.Leads m o (inherit p) := fun s h => by
  refine .get (.bind (.modify ((h.setCover .fresh fun _ h => absurd h (Option.some_ne_none _).symm).read hp
    fun a t ht fine => .bind (.modify ?_))))
  refine (ht.setCover _ fun u hu => ?_).give (by simp) fine
  -- The pending error from around comes first.
  cases hp : s.cover.pending with
  | none => exact ht.pending (by simpa [hp] using hu)
  | some v => exact h.pending (by simpa [hp] using hu)

end

end Leads

/-! ## Repetition -/

section
variable [HasNodes σ] [HasTokens σ] [HasNodes α] [HasTokens α] {Q : β → ParseState → Prop}

theorem iterate_gives {step : σ → Parse (Progress σ)}
    (hstep : ∀ x t, L.Held m base (nodes x ++ l) t → L.Fine x → L.Safe (step x) t (L.Gives m base l)) :
    ∀ {bound : Nat} {state : σ} {s : ParseState}, L.Held m base (nodes state ++ l) s → L.Fine state →
      L.Safe (iterate step bound state) s (L.Gives m base l)
  | 0, _, _, _, _ => .exhausted
  | _ + 1, state, s, h, fine => by
    refine .bind ((hstep state s h fine).mono ?_)
    rintro (x | x) t ⟨hx, fx⟩
    · exact iterate_gives hstep hx fx
    · exact .pure ⟨hx, fx⟩

/-- A loop in the midst of a production; `l` is what it leaves alone. -/
theorem Held.loop {step : σ → Parse (Progress σ)} {state : σ} {f : σ → Parse β} (l : List Node) (h : L.Held m base ns s)
    (hs : Fewer (nodes state ++ l) ns) (fine : L.Fine state)
    (hstep : ∀ x t, L.Held m base (nodes x ++ l) t → L.Fine x → L.Safe (step x) t (L.Gives m base l))
    (hf : ∀ x t, L.Held m base (nodes x ++ l) t → L.Fine x → L.Safe (f x) t Q) : L.Safe (loop state step >>= f) s Q :=
  .bind (.get ((iterate_gives hstep (h.fewer hs) fine).mono fun x t ⟨hx, fx⟩ => hf x t hx fx))

theorem Leads.manyBefore {stop : Parse Bool} {p : Parse α} (hstop : L.Leads m m stop) (hp : L.Leads m m p) :
    L.Leads m m (manyBefore stop p) := fun s h => by
  refine h.loop [] (by simp) (by simp) (fun items t h fine => ?_) fun items t h fine =>
    h.give (by simp) (by simpa using fine)
  refine h.read hstop fun b t h _ => .ite (fun _ => h.give (by simp) (by simpa using fine)) fun _ => ?_
  exact h.read hp fun a t h fa => h.give (by simp) (by simp [fa, fine])

theorem Leads.itemsBefore {c : Punctuator} {p : Parse α} (hp : L.Reads p) : L.Reads (itemsBefore c p) :=
  .manyBefore (fun _ h => .get (h.give (by simp) (by simp))) hp

theorem Leads.commaSeparated {p : Parse α} (hp : L.Reads p) : L.Reads (commaSeparated p) := fun s h => by
  refine h.read hp fun first t h ff => ?_
  refine h.loop (nodes first) (by simp) (by simp) (fun items t h fine => ?_) fun items t h fine =>
    h.give (by simp +arith) (by simp [ff, fine])
  refine h.accept fun b t h => .ite (fun _ => ?_) fun _ => h.give (by simp) (by simpa using fine)
  exact h.read hp fun a t h fa => h.give (by simp) (by simp [fa, fine])

end

end Ledger

end EcmaTree
