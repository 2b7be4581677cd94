import EcmaTree.Proofs.Contract

/-!
# Inside a production

While a production is read, `Held` says what is known: where the parse stands, that it has moved on from the state
in which the production began, and that the nodes read so far are good there. Each rule below takes one action of
a production and says what is held behind it.
-/

namespace EcmaTree

/-- The nodes that a value holds. -/
class HasNodes (α : Type) where
  nodes : α → List Node

export HasNodes (nodes)

namespace HasNodes

instance : HasNodes Node := ⟨fun n => [n]⟩

instance : HasNodes Unit := ⟨fun _ => []⟩

instance : HasNodes Bool := ⟨fun _ => []⟩

instance : HasNodes Token := ⟨fun _ => []⟩

instance : HasNodes String := ⟨fun _ => []⟩

instance : HasNodes Cause := ⟨fun _ => []⟩

instance : HasNodes VariableKind := ⟨fun _ => []⟩

instance {α : Type} [HasNodes α] : HasNodes (List α) := ⟨fun as => as.flatMap nodes⟩

instance {α : Type} [HasNodes α] : HasNodes (Option α) := ⟨fun a => a.toList.flatMap nodes⟩

instance {α β : Type} [HasNodes α] [HasNodes β] : HasNodes (α × β) := ⟨fun p => nodes p.1 ++ nodes p.2⟩

instance {σ : Type} [HasNodes σ] : HasNodes (Parse.Progress σ) :=
  ⟨fun | .more state | .done state => nodes state⟩

variable {α β : Type} [HasNodes α] [HasNodes β]

/-- Values of the type hold no nodes. -/
class Bare (α : Type) [HasNodes α] : Prop where
  nodes_eq : ∀ a : α, nodes a = []

instance : Bare Unit := ⟨fun _ => rfl⟩

instance : Bare Bool := ⟨fun _ => rfl⟩

instance : Bare Token := ⟨fun _ => rfl⟩

instance : Bare String := ⟨fun _ => rfl⟩

instance : Bare Cause := ⟨fun _ => rfl⟩

instance : Bare VariableKind := ⟨fun _ => rfl⟩

instance [Bare α] : Bare (Option α) := ⟨fun a => by simp [nodes, Bare.nodes_eq]⟩

instance [Bare α] : Bare (List α) := ⟨fun as => by simp [nodes, Bare.nodes_eq]⟩

instance [Bare α] [Bare β] : Bare (α × β) := ⟨fun p => by simp [nodes, Bare.nodes_eq]⟩

@[simp] theorem nodes_bare [Bare α] (a : α) : nodes a = [] := Bare.nodes_eq a

@[simp] theorem nodes_node (n : Node) : nodes n = [n] := rfl

@[simp] theorem nodes_none : nodes (none : Option α) = [] := rfl

@[simp] theorem nodes_some (a : α) : nodes (some a) = nodes a := by simp [nodes]

@[simp] theorem nodes_nil : nodes ([] : List α) = [] := rfl

@[simp] theorem nodes_cons (a : α) (as : List α) : nodes (a :: as) = nodes a ++ nodes as := rfl

@[simp] theorem nodes_append (as bs : List α) : nodes (as ++ bs) = nodes as ++ nodes bs := by
  simp [nodes]

@[simp] theorem mem_nodes_reverse {n : Node} (as : List α) : n ∈ nodes as.reverse ↔ n ∈ nodes as := by
  simp [nodes]

@[simp] theorem nodes_pair (a : α) (b : β) : nodes (a, b) = nodes a ++ nodes b := rfl

@[simp] theorem nodes_more (a : α) : nodes (Parse.Progress.more a) = nodes a := rfl

@[simp] theorem nodes_done (a : α) : nodes (Parse.Progress.done a) = nodes a := rfl

@[simp] theorem nodes_list (ns : List Node) : nodes ns = ns := by simp [nodes]

@[simp] theorem nodes_option (n : Option Node) : nodes n = n.toList := by simp [nodes]

@[simp] theorem nodes_sparse (ns : List (Option Node)) : nodes ns = Kind.present ns := by
  induction ns with
  | nil => rfl
  | cons n ns ih => cases n <;> simp_all [nodes, Kind.present]

@[simp] theorem mem_present_reverse {n : Node} (ns : List (Option Node)) :
    n ∈ Kind.present ns.reverse ↔ n ∈ Kind.present ns := by simp [Kind.present]

@[simp] theorem present_map_fst (items : List (Option Node × List Token)) :
    Kind.present (items.map fun x => x.fst) = nodes items := by
  induction items with
  | nil => rfl
  | cons item items ih => rw [List.map_cons, ← nodes_sparse, nodes_cons, nodes_cons, nodes_sparse, ih]; simp [nodes]

@[simp] theorem map_fst_tokens (items : List (Node × List Token)) :
    (items.map fun x => x.fst) = nodes items := by
  induction items with
  | nil => rfl
  | cons item items ih => rw [List.map_cons, nodes_cons, ih]; simp [nodes]

@[simp] theorem map_fst_bools (items : List (Node × Bool)) : (items.map fun x => x.fst) = nodes items := by
  induction items with
  | nil => rfl
  | cons item items ih => rw [List.map_cons, nodes_cons, ih]; simp [nodes]

end HasNodes

namespace Contract

open Parse

variable {K : Contract} {m : Mode} {r : Bool} {base s t : ParseState} {ns : List Node} {α β : Type}

theorem steps_refl (s : ParseState) : K.Steps s s := K.steps_of_rests (.refl s)

/-- The parse has moved on, and has consumed something if `read`. -/
def Moved (K : Contract) (read : Bool) (s t : ParseState) : Prop := if read then K.Read s t else K.Steps s t

theorem Moved.steps (h : K.Moved r s t) : K.Steps s t := by
  cases r
  · exact h
  · exact K.steps_of_read h

theorem Moved.trans {u : ParseState} {q : Bool} (h : K.Moved r s t) (h' : K.Moved q t u) :
    K.Moved (r || q) s u := by
  cases r <;> cases q
  · exact K.steps_trans h h'
  · exact K.read_of_steps h h'
  · exact K.read_later h (K.later_of_steps h')
  · exact K.read_of_steps (K.steps_of_read h) h'

theorem Moved.of_read (h : K.Read s t) : K.Moved r s t := by
  cases r
  · exact K.steps_of_read h
  · exact h

/-- What is known in the midst of a production that began at `base`: nodes read so far are good, and something has
been consumed if `read`. -/
structure Held (K : Contract) (m : Mode) (read : Bool) (base : ParseState) (ns : List Node) (s : ParseState) :
    Prop where
  stands : K.Stands m s
  moved : K.Moved read base (s.view m)
  good : ∀ n ∈ ns, K.Good base n (s.view m)

/-- The action leads from one way to stand to another, and the nodes that it gives back are good. It consumes
something if `read`. -/
def Leads (K : Contract) [HasNodes α] (m o : Mode) (read : Bool) (p : Parse α) : Prop :=
  ∀ s, K.Stands m s → K.Ensures p s fun a t => K.Held o read (s.view m) (nodes a) t

/-- The production consumes something, with a token ahead before and behind it. -/
abbrev Reads (K : Contract) [HasNodes α] (p : Parse α) : Prop := K.Leads .ahead .ahead true p

/-- The production may consume nothing. -/
abbrev Passes (K : Contract) [HasNodes α] (p : Parse α) : Prop := K.Leads .ahead .ahead false p

theorem start (h : K.Stands m s) : K.Held m false (s.view m) [] s :=
  ⟨h, steps_refl _, by simp⟩

namespace Held

variable {o : Mode} {q : Bool} {Q : β → ParseState → Prop}

theorem mono {l : List Node} (h : K.Held m r base ns s) (hl : ∀ n ∈ l, n ∈ ns) : K.Held m r base l s :=
  ⟨h.stands, h.moved, fun n hn => h.good n (hl n hn)⟩

theorem step (h : K.Held m r base ns s) (stands : K.Stands o t) (moved : K.Moved q (s.view m) (t.view o)) :
    K.Held o (r || q) base ns t :=
  ⟨stands, h.moved.trans moved, fun n hn => K.good_steps (h.good n hn) moved.steps⟩

theorem trans {ns' : List Node} (h : K.Held m r base ns s) (h' : K.Held o q (s.view m) ns' t) :
    K.Held o (r || q) base (ns' ++ ns) t where
  stands := h'.stands
  moved := h.moved.trans h'.moved
  good n hn := by
    rcases List.mem_append.1 hn with hn | hn
    · exact K.good_from h.moved.steps (h'.good n hn)
    · exact (h.step h'.stands h'.moved).good n hn

/-- What began behind a step began before it. -/
theorem since (h : K.Held m r base ns s) {first : ParseState} (hfirst : K.Steps first base) :
    K.Held m r first ns s where
  stands := h.stands
  moved := by simpa using Moved.trans (r := false) hfirst h.moved
  good n hn := K.good_from hfirst (h.good n hn)

theorem and {ns' : List Node} (h : K.Held m r base ns s) (h' : K.Held m r base ns' s) :
    K.Held m r base (ns ++ ns') s :=
  ⟨h.stands, h.moved, fun n hn => (List.mem_append.1 hn).elim (h.good n) (h'.good n)⟩

theorem reading (h : K.Held m true base ns s) : K.Held m r base ns s :=
  ⟨h.stands, .of_read h.moved, h.good⟩

theorem rests (h : K.Held m r base ns s) (ht : s.Rests t) : K.Held m r base ns t := by
  have := h.step (q := false) (K.stands_of_rests ht h.stands) (K.steps_of_rests (ht.view m))
  simpa using this

/-- An action that consumes nothing. -/
theorem settle {p : Parse α} {f : α → Parse β} (h : K.Held m r base ns s) (hp : K.Settles p)
    (hf : ∀ a t, K.Held m r base ns t → K.Ensures (f a) t Q) : K.Ensures (p >>= f) s Q :=
  Judgement.bind (hp s) fun a t ht => hf a t (h.rests ht)

/-- An action that consumes nothing, under a condition. -/
theorem settleIf {c : Prop} [Decidable c] {p : Parse Unit} {f : Unit → Parse β} (h : K.Held m r base ns s)
    (hp : K.Settles p) (hf : ∀ t, K.Held m r base ns t → K.Ensures (f ()) t Q) :
    K.Ensures (if c then p >>= f else f ()) s Q :=
  .ite (fun _ => h.settle hp fun _ => hf) (fun _ => hf s h)

theorem settleUnless {c : Prop} [Decidable c] {p : Parse Unit} {f : Unit → Parse β} (h : K.Held m r base ns s)
    (hp : K.Settles p) (hf : ∀ t, K.Held m r base ns t → K.Ensures (f ()) t Q) :
    K.Ensures (if c then f () else p >>= f) s Q :=
  .ite (fun _ => hf s h) (fun _ => h.settle hp fun _ => hf)

/-- A part of the production that consumes something. -/
theorem read [HasNodes α] {p : Parse α} {f : α → Parse β} (h : K.Held m r base ns s)
    (hp : K.Leads m o true p) (hf : ∀ a t, K.Held o true base (nodes a ++ ns) t → K.Ensures (f a) t Q) :
    K.Ensures (p >>= f) s Q :=
  Judgement.bind (hp s h.stands) fun a t ht => hf a t (by simpa using h.trans ht)

/-- A part of the production that may consume nothing. -/
theorem pass [HasNodes α] {p : Parse α} {f : α → Parse β} (h : K.Held m r base ns s)
    (hp : K.Leads m o false p) (hf : ∀ a t, K.Held o r base (nodes a ++ ns) t → K.Ensures (f a) t Q) :
    K.Ensures (p >>= f) s Q :=
  Judgement.bind (hp s h.stands) fun a t ht => hf a t (by simpa using h.trans ht)

/-- The last part of a production. -/
theorem last [HasNodes α] {p : Parse α} (h : K.Held m r base ns s) (hp : K.Leads m o q p) :
    K.Ensures p s fun a t => K.Held o (r || q) base (nodes a) t :=
  K.mono (hp s h.stands) fun _ _ ht => (h.trans ht).mono fun _ => List.mem_append_left _

theorem give {a : α} {ns' : α → List Node} (h : K.Held m r base ns s)
    (ha : ∀ n ∈ ns' a, n ∈ ns) :
    K.Ensures (pure a) s fun a t => K.Held m r base (ns' a) t := K.ofPure (h.mono ha)

/-- Finishing a node. -/
theorem nodeFrom {start : Place} {kind : Kind Node} {f : Node → Parse β} (h : K.Held m true base ns s)
    (hs : base.Marks start) (hk : kind.isCompound = true) (hc : ∀ n ∈ kind.children, n ∈ ns)
    (hf : ∀ n t, n.kind = kind → K.Held m true base (n :: ns) t → K.Ensures (f n) t Q) :
    K.Ensures (finish start kind >>= f) s Q := by
  refine Judgement.bind (K.ofFinish h.stands h.moved hs (Kind.isPlaceholder_of_isCompound hk)
    (fun n hn => h.good n (hc n hn)) ?_) ?_
  · simp [Kind.leaf?_of_isCompound hk]
  rintro n t ⟨stands, -, steps, read, kind, good, -⟩
  exact hf n t kind ⟨stands, read, List.forall_mem_cons.2 ⟨good, fun n hn => K.good_steps (h.good n hn) steps⟩⟩

theorem node {kind : Kind Node} {f : Node → Parse β} (h : K.Held m true base ns s)
    (hk : kind.isCompound = true) (hc : ∀ n ∈ kind.children, n ∈ ns)
    (hf : ∀ n t, n.kind = kind → K.Held m true base (n :: ns) t → K.Ensures (f n) t Q) :
    K.Ensures (finish base.start.place kind >>= f) s Q := h.nodeFrom (.inl rfl) hk hc hf

/-- Finishing a leaf. -/
theorem leafFrom {start : Place} {kind : Kind Node} {leaf : Leaf} (h : K.Held m true base ns s) (hs : base.Marks start)
    (hleaf : kind.leaf? = some leaf) (tells : K.Tells base leaf (s.view m)) :
    K.Ensures (finish start kind) s fun n t => K.Held m true base (n :: ns) t ∧ K.Steps (s.view m) (t.view m) ∧
      t.lookahead = s.lookahead ∧ K.Firm base n (t.view m) := by
  obtain ⟨hk, hchildren⟩ := Kind.plain_of_leaf? hleaf
  refine K.mono (K.ofFinish h.stands h.moved hs hk (by simp [hchildren]) (by simpa [hleaf] using tells)) ?_
  rintro n t ⟨stands, lookahead, steps, read, -, good, firm⟩
  exact ⟨⟨stands, read, List.forall_mem_cons.2 ⟨good, fun n hn => K.good_steps (h.good n hn) steps⟩⟩, steps,
    lookahead, firm (by simp [hchildren])⟩

/-- Finishing a node where it matters how the parse has moved on. -/
theorem finished {start : Place} {kind : Kind Node} (h : K.Held m true base ns s)
    (hs : base.Marks start) (hk : kind.isCompound = true) (hc : ∀ n ∈ kind.children, n ∈ ns) :
    K.Ensures (Parse.finish start kind) s fun n t =>
      K.Held m true base [n] t ∧ K.Steps (s.view m) (t.view m) ∧ t.lookahead = s.lookahead := by
  refine K.mono (K.ofFinish h.stands h.moved hs (Kind.isPlaceholder_of_isCompound hk)
    (fun n hn => h.good n (hc n hn)) ?_) ?_
  · simp [Kind.leaf?_of_isCompound hk]
  rintro n t ⟨stands, lookahead, steps, read, -, good, -⟩
  exact ⟨⟨stands, read, by simpa using good⟩, steps, lookahead⟩

theorem finishFrom {start : Place} {kind : Kind Node} (h : K.Held m true base ns s) (hs : base.Marks start)
    (hk : kind.isCompound = true) (hc : ∀ n ∈ kind.children, n ∈ ns) :
    K.Ensures (finish start kind) s fun n t => K.Held m true base (nodes n) t :=
  K.mono (h.finished hs hk hc) fun _ _ ht => ht.1

theorem finish {kind : Kind Node} (h : K.Held m true base ns s) (hk : kind.isCompound = true)
    (hc : ∀ n ∈ kind.children, n ∈ ns) :
    K.Ensures (finish base.start.place kind) s fun n t => K.Held m true base (nodes n) t :=
  h.finishFrom (.inl rfl) hk hc

end Held

/-! ## Nests -/

section
variable {σ : Type} [HasNodes σ] (K) (m) (began : σ → ParseState → Prop)

/-- The things on the stack, innermost first, have been begun but not ended around something that began at `inner`.
The outermost one began at `base` or behind it. -/
def Around (base s : ParseState) : ParseState → List σ → Prop
  | inner, [] => K.Steps base inner
  | inner, x :: stack => ∃ outer, K.Steps outer inner ∧ began x outer ∧ K.Held m true outer (nodes x) s ∧
      Around base s outer stack

variable {K m began}

theorem Around.step (ht : K.Stands m t) (hst : K.Steps (s.view m) (t.view m)) :
    ∀ {stack : List σ} {inner : ParseState}, K.Around m began base s inner stack →
      K.Around m began base t inner stack
  | [], _, h => h
  | _ :: _, _, ⟨outer, steps, marks, held, around⟩ =>
    ⟨outer, steps, marks, by simpa using held.step (q := false) ht hst, around.step ht hst⟩

theorem Around.steps : ∀ {stack : List σ} {inner : ParseState}, K.Around m began base s inner stack →
    K.Steps base inner
  | [], _, h => h
  | _ :: _, _, ⟨_, steps, _, _, around⟩ => K.steps_trans around.steps steps

end

end Contract

end EcmaTree
