import EcmaTree.Proofs.Ledger.Program
import EcmaTree.Proofs.Recovery

/-!
# Identities of nodes

The identity of a node is the ordinal of the event that reports it. The events of the nodes below a node come before
its own event, and no two nodes of a tree have one identity, except for a specifier without `as`, whose one name is
both its children.
-/

namespace EcmaTree

namespace Node

theorem reported_mk {events : List (Node × Extent)} {n : Node} (h : n.outline.Reported events)
    (hn : n.kind.isPlaceholder = false) :
    ∃ k node extent, n.info.id = k + 1 ∧ events[k]? = some (node, extent) ∧ n.info.extent = some extent ∧
      ∀ c ∈ n.children, c.outline.Reported (events.take k) := by
  obtain ⟨info, kind⟩ := n
  rw [outline_mk] at h
  have finished : (kind.map outline).outlineForm ≠ .waiting := fun hw => by
    have hk : kind.isPlaceholder = false := hn
    rw [outlineForm_eq_waiting.1 hw] at hk
    cases hk
  generalize hid : info.id = id, hextent : info.extent = extent, (kind.map outline).outlineForm = form at h finished
  cases h with
  | finished _ hevent _ below => exact ⟨_, _, _, hid, hevent, hextent, fun c hc => below _ (List.mem_map_of_mem hc)⟩
  | waiting => exact absurd rfl finished

/-- The identities in a tree are ordinals of events. -/
theorem all_id_le {events : List (Node × Extent)} {n : Node} (h : n.outline.Reported events)
    (hn : n.All fun n => n.kind.isPlaceholder = false) : n.All fun n => 0 < n.info.id ∧ n.info.id ≤ events.length := by
  obtain ⟨k, node, extent, hid, hevent, -, -⟩ := reported_mk h hn.root
  obtain ⟨hk, -⟩ := List.getElem?_eq_some_iff.1 hevent
  refine all_iff.2 ⟨by omega, fun c hc => all_id_le (h.child hc) (hn.child hc)⟩
termination_by sizeOf n
decreasing_by
  exact sizeOf_lt_of_mem_children hc

/-- The node is that of an event whose offsets are those of its span, and the nodes below it are those of events
before. -/
def ReportedIn (events : List (Node × Extent)) (n : Node) : Prop :=
  (∃ k node extent, n.info.id = k + 1 ∧ events[k]? = some (node, extent) ∧
    n.span = ⟨extent.start.offset, extent.stop.offset⟩) ∧
    ∀ below ∈ n.walk.tail, 0 < below.2.info.id ∧ below.2.info.id < n.info.id

/-- What else is known of the reported nodes does not matter. -/
theorem ReportedIn.map {events : List (Node × Extent)} {n : Node} (h : n.ReportedIn events) (f : Node → Node) :
    n.ReportedIn (events.map fun entry => (f entry.1, entry.2)) := by
  obtain ⟨⟨k, node, extent, hid, hevent, hspan⟩, below⟩ := h
  exact ⟨⟨k, f node, extent, hid, by rw [List.getElem?_map, hevent]; rfl, hspan⟩, below⟩

theorem all_reportedIn {events : List (Node × Extent)} {n : Node} (h : n.outline.Reported events)
    (hn : n.All fun n => n.kind.isPlaceholder = false)
    (hfits : n.All fun n => ∀ e, n.info.extent = some e → e.start.offset < 2 ^ 32 ∧ e.stop.offset < 2 ^ 32) :
    n.All (ReportedIn events) := by
  obtain ⟨k, node, extent, hid, hevent, hextent, hc⟩ := reported_mk h hn.root
  refine all_iff.2 ⟨⟨⟨k, node, extent, hid, hevent, ?_⟩, fun below hb => ?_⟩, fun c hc =>
    all_reportedIn (h.child hc) (hn.child hc) (hfits.child hc)⟩
  · obtain ⟨start, stop⟩ := hfits.root extent hextent
    rw [span, hextent, Option.map_some, Option.getD_some, Extent.span_eq start stop]
  · rw [walk, walkFrom_eq, List.tail_cons, List.mem_flatMap] at hb
    obtain ⟨c, hmem, hb⟩ := hb
    have := (walkFrom_all _ c).2 (all_id_le (hc c hmem) (hn.child hmem)) below hb
    rw [List.length_take] at this
    omega
termination_by sizeOf n
decreasing_by
  exact sizeOf_lt_of_mem_children hc

/-- An identity in a tree is that of its root, or is in one of the trees below. -/
theorem mem_ids {n : Node} {id : Nat} (h : id ∈ n.ids) : id = n.info.id ∨ ∃ c ∈ n.children, id ∈ c.ids := by
  have below {ns : List Node} (h : id ∈ Outline.allIds (ns.map outline)) : ∃ c ∈ ns, id ∈ c.ids := by
    rw [← List.count_pos_iff, Outline.count_allIds, weigh_pos] at h
    obtain ⟨c, hc, hpos⟩ := h
    exact ⟨c, hc, List.count_pos_iff.1 hpos⟩
  have first {ns : List Node} (h : id ∈ Outline.firstIds (ns.map outline)) : ∃ c ∈ ns, id ∈ c.ids :=
    below (List.count_pos_iff.1 (Nat.lt_of_lt_of_le (List.count_pos_iff.2 h) (Outline.count_firstIds_le id _)))
  obtain ⟨info, kind⟩ := n
  rw [ids, outline_mk] at h
  generalize (kind.map outline).outlineForm = form at h
  cases form with
  | finished | waiting => exact (List.mem_cons.1 h).imp_right below
  | shared => exact (List.mem_cons.1 h).imp_right first

theorem ids_pos {n : Node} (h : n.All fun n => 0 < n.info.id) : ∀ id ∈ n.ids, 0 < id := by
  intro id hid
  rcases mem_ids hid with rfl | ⟨c, hc, hid⟩
  · exact h.root
  · exact ids_pos (h.child hc) id hid
termination_by sizeOf n
decreasing_by
  exact sizeOf_lt_of_mem_children hc

end Node

/-! ## Runs -/

theorem Parse.Safe.of_onSuccess {α : Type} {p : Parse α} {s : ParseState} {Q : α → ParseState → Prop}
    (h : Judgement.onSuccess.Ensures p s Q) : Safe (fun _ => True) p s Q := by
  unfold Safe
  split
  next hp => exact h _ _ hp
  · trivial
  · trivial

/-- The ledger that asks for nothing. -/
def Ledger.blank : Ledger where
  Stands _ _ := True
  Seen _ := True
  Reports _ := True
  stands_of_same _ _ _ _ _ := trivial
  stands_record _ _ := trivial
  stands_trail _ := trivial
  stands_pass _ := trivial
  stands_enter _ := trivial
  stands_leave _ := trivial
  seen_ahead _ := trivial
  reports_at _ _ _ := trivial
  reports_here _ _ := trivial
  reports_onLine _ _ := trivial
  ofNext _ := .of_onSuccess (Judgement.onSuccess.mono .next fun _ _ h => ⟨h.1, trivial⟩)
  ofRegex _ _ := .of_onSuccess fun _ _ _ => trivial
  ofSecond _ := .of_onSuccess fun _ _ _ => ⟨trivial, trivial⟩
  ofBehindDot _ := .of_onSuccess fun _ _ _ => ⟨fun _ _ => trivial, trivial⟩
  ofSkipTrivia _ := .of_onSuccess fun _ _ _ => trivial
  ofNextJsx _ := .of_onSuccess fun _ _ _ => ⟨trivial, trivial⟩
  ofNextJsxText _ := .of_onSuccess fun _ _ _ => ⟨trivial, trivial⟩
  ofCheckJsx _ _ := .of_onSuccess fun _ _ _ => trivial

/-- What a parse reads is in its accounts. -/
theorem source_accounts {text : String} {dialect : Dialect} {root : Node} {s : ParseState}
    (h : Parse.source text dialect = .ok root s) : Accounts (.initial text dialect) [root] s := by
  have run := Ledger.source_leads (L := .blank) text dialect trivial
  have hrun : Parse.program (Parse.atLevels (Parse.levelsFor text.utf8ByteSize)) (.initial text dialect) =
    .ok root s := h
  simp only [Ledger.Safe, Parse.Safe, hrun] at run
  exact run.1.toAccounts.fewer (by simp)

theorem Accounts.nodup {base s : ParseState} {n : Node} (h : Accounts base [n] s) (hn : ∀ id ∈ n.ids, 0 < id) :
    n.ids.Nodup := by
  refine List.nodup_iff_count.2 fun id => ?_
  by_cases hid : id ∈ n.ids
  · have := h.once id (hn id hid)
    simp only [weigh_cons, weigh_nil, Node.occurrences] at this
    split at this <;> omega
  · rw [List.count_eq_zero_of_not_mem hid]
    exact Nat.zero_le _

/-- An observer is told of all nodes. -/
theorem Record.nodes_told (r : Record) (events : Array ParseEvent) : ParseEvent.nodes (r.told events) =
    (ParseEvent.nodes events.toList).map fun entry => (entry.1.mapInfo r.stamp, entry.2) := by
  rw [told, ParseEvent.nodes, ParseEvent.nodes, List.filterMap_filterMap, List.map_filterMap]
  refine congrArg (List.filterMap · _) (funext fun e => ?_)
  cases e with
  | node => rfl
  | comment =>
    rw [told?]
    split <;> rfl

/-- In a tree where nothing waits for an arrow, every identity is the ordinal of an event about a node that stands
where the node of the tree does, the events of the nodes below a node come before its own, and no identity occurs
twice. -/
theorem identities_reported {source : String} {o : ParseOptions} {p : Program} (hfits : source.utf8ByteSize < 2 ^ 32)
    (hp : (parseWithEvents source o).2 = .ok p)
    (hplain : ∀ entry ∈ p.root.walk, entry.2.kind.isPlaceholder = false) :
    (∀ entry ∈ p.root.walk, entry.2.ReportedIn (ParseEvent.nodes (parseWithEvents source o).1)) ∧ p.root.ids.Nodup := by
  obtain ⟨root, s, hs, hroot, hevents⟩ := parseWithEvents_eq_ok.1 hp
  have same : p.root.outline = root.outline := hroot ▸ Node.outline_mapInfo (o.given_marks _) root
  have nested : p.root.Nested source.utf8ByteSize 0 source.utf8ByteSize :=
    hroot ▸ (Recovery.source_nested hs).recast (Program.asked_recast o root s)
  have fits : p.root.All fun n => ∀ e, n.info.extent = some e → e.start.offset < 2 ^ 32 ∧ e.stop.offset < 2 ^ 32 :=
    fun entry hentry e he =>
      have ⟨start, stop⟩ := nested.inside (Nat.le_refl _) entry hentry (hplain entry hentry) e he
      ⟨Nat.lt_of_le_of_lt start hfits, Nat.lt_of_le_of_lt stop hfits⟩
  have accounts : Accounts (.initial source o.dialect) ([p.root] ++ []) s :=
    (source_accounts hs).alike [root] [p.root] (by simp [same])
  have reported := accounts.reported (List.mem_cons_self ..)
  rw [hevents, ParseOptions.told, Record.nodes_told]
  refine ⟨fun entry hentry => (Node.all_reportedIn reported hplain fits entry hentry).map _,
    accounts.nodup fun id hid => ?_⟩
  exact Node.ids_pos (fun entry hentry => (Node.all_id_le reported hplain entry hentry).1) id hid

/-- The name that is imported counts once. -/
theorem identities_reported_import : "import {a} from 'b'".utf8ByteSize < 2 ^ 32 ∧
    ∃ p, (parseWithEvents "import {a} from 'b'" { goal := .module }).2 = .ok p ∧
      (∀ entry ∈ p.root.walk, entry.2.kind.isPlaceholder = false) ∧
      (∀ entry ∈ p.root.walk, entry.2.ReportedIn
        (ParseEvent.nodes (parseWithEvents "import {a} from 'b'" { goal := .module }).1)) ∧ p.root.ids.Nodup := by
  have fits : "import {a} from 'b'".utf8ByteSize < 2 ^ 32 := by decide
  have h : (match (parseWithEvents "import {a} from 'b'" { goal := .module }).2 with
      | .ok p => p.root.walk.all fun entry => !entry.2.kind.isPlaceholder
      | .error _ => false) = true := by decide +kernel
  split at h
  next p hp =>
    have hplain : ∀ entry ∈ p.root.walk, entry.2.kind.isPlaceholder = false := by simpa using h
    exact ⟨fits, p, hp, hplain, identities_reported fits hp hplain⟩
  · cases h

end EcmaTree
