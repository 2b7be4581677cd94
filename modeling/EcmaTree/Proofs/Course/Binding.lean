import EcmaTree.Proofs.Course.Rules

/-!
# Names, keys, binding patterns and parameters

`Sound` is what the productions assume of the nested ones, where fewer than `n` bytes are left. A production that
consumes a token before it nests another one is sound where one byte more is left.
-/

namespace EcmaTree.Course

open Parse
open Tokens (reported)

/-- Every nested production comes to an end and consumes something. -/
structure Sound (text : String) (n : Nat) (nested : Nested) : Prop where
  assignment : Reads text n (α := Node) (nested .assignment)
  unary : Reads text n (α := Node) (nested .unary)
  exponentiation : Reads text n (α := Node) (nested .exponentiation)
  callee : Reads text n (α := Node) (nested .callee)
  callChain : Reads text n (α := Node) (nested .callChain)
  pattern (kind : Option VariableKind) : Reads text n (α := Node × List Token) (nested (.pattern kind))
  statement : Reads text n (α := Node) (nested .statement)
  listItem : Reads text n (α := Node) (nested .listItem)
  jsxElement : Leads text n .inside .inside true (α := Node) (nested .jsxElement)

variable {text : String} {n : Nat} {nested : Nested} {s : ParseState} {base : Nat}

/-! ## Names -/

/-- A name has been consumed that began at `start`: no comment reaches across its beginning. -/
structure Begun (text : String) (n base : Nat) (start : Cursor) (t : ParseState) : Prop where
  held : Held text n .ahead true base t
  clear : ∀ c ∈ reported t, c.stop ≤ start.offset ∨ start.offset < c.start

/-- A name that began at `start` has just been finished. -/
structure Named (text : String) (n base : Nat) (start : Cursor) (name : Node) (t : ParseState) : Prop where
  held : Held text n .ahead true base t
  identifier : ∃ text, name.kind = .identifier text
  extent : name.info.extent = some ⟨start.place, t.last⟩
  events : ∃ es, t.record.events.toList = es ++ [.node name ⟨start.place, t.last⟩] ∧ Regular es ∧
    ∀ c ∈ ParseEvent.comments es, c.stop ≤ start.offset ∨ start.offset < c.start

theorem Begun.rests {t : ParseState} (h : Begun text n base s.start t) {u : ParseState} (hu : t.Rests u) :
    Begun text n base s.start u := by
  refine ⟨h.held.rests hu, ?_⟩
  obtain ⟨_, _, _, _, _, rfl, _⟩ := hu
  exact h.clear

theorem Begun.name {t : ParseState} {start : Cursor} (h : Begun text n base start t) (name : String) :
    Ends (finish start.place (.identifier name)) t (Named text n base start) := by
  refine Judgement.ending.mono .finish ?_
  rintro node _ ⟨rfl, rfl⟩
  have events := h.held.stands.complete.record.report_events
    (.node (.mk (t.finishedInfo start.place) (.identifier name)) ⟨start.place, t.last⟩)
  exact ⟨⟨h.held.stands.finish fun hr => hr.node _ rfl, h.held.moved, h.held.room⟩, ⟨name, rfl⟩, rfl, _,
    by rw [events, Array.toList_push], h.held.stands.regular, h.clear⟩

/-- Consuming a name. -/
theorem begin_name {β : Type} {f : Token → Parse β} {Q : β → ParseState → Prop}
    (h : Held text n .ahead false (s.site .ahead) s)
    (hf : ∀ t, (s.lookahead.isEnd = false → Begun text n (s.site .ahead) s.start t) → Ends (f s.lookahead) t Q) :
    Ends (next >>= f) s Q := by
  refine Judgement.bind .next ?_
  rintro _ t ⟨rfl, ht⟩
  refine hf t fun hend => ⟨⟨(h.stands.advances ht).1, (h.stands.next hend ht).2, h.room⟩, fun c hc => ?_⟩
  have behind := h.stands.site_lt_cursor hend
  have passed := h.stands.complete.passed
  rw [Tokens.reported_advances h.stands.complete ht, List.mem_append] at hc
  exact hc.imp (h.stands.passed c) fun hc => Nat.lt_of_lt_of_le behind (passed.between c hc).1

theorem identifierName_names (h : Held text n .ahead false (s.site .ahead) s) :
    Ends identifierName s (Named text n (s.site .ahead) s.start) :=
  .mark (begin_name h fun _ ht => .ite (fun hname => (ht (not_end_of hname fun _ => rfl)).name _) fun _ => .failAt)

theorem bindingName_names (kind : Option VariableKind) (h : Held text n .ahead false (s.site .ahead) s) :
    Ends (bindingName kind) s (Named text n (s.site .ahead) s.start) := by
  refine .mark (begin_name h fun t ht => .context (.ite (fun hyield => ?_) fun _ => .ite (fun _ => ?_) fun hname => ?_))
  · have h := ht (not_end_of (f := (·.isKeyword "yield")) hyield fun _ => rfl)
    refine .ite (fun _ => Judgement.bind (Judgement.Settles.tolerateWith _ _ t) fun _ _ hu =>
      (h.rests hu).name _) fun _ => ?_
    exact .ite (fun _ => Judgement.bind .failAt fun _ _ h => h) fun _ => h.name _
  · refine .ite (fun hword => ?_) fun _ => .ite (fun _ => ?_) fun hlet => ?_
    · have h := ht (not_end_of (f := Token.isAnyKeyword) (by simp_all) fun _ => rfl)
      exact Judgement.bind (Judgement.Settles.tolerateWith _ _ t) fun _ _ hu => (h.rests hu).name _
    · exact Judgement.bind .failAt fun _ _ h => h
    · exact (ht (not_end_of (f := fun t => t.text == "let") (by simp_all) fun _ => rfl)).name _
  · have h := ht (not_end_of (f := Token.isIdentifier) (by simpa using hname) fun _ => rfl)
    exact .ite (fun _ => Judgement.bind (Judgement.Settles.tolerateAt _ t) fun _ _ hu => (h.rests hu).name _)
      fun _ => h.name _

theorem identifierName_reads : Reads text n identifierName := fun _ h =>
  Judgement.ending.mono (identifierName_names h) fun _ _ h => h.held

theorem bindingName_reads (kind : Option VariableKind) : Reads text n (bindingName kind) := fun _ h =>
  Judgement.ending.mono (bindingName_names kind h) fun _ _ h => h.held

/-! ## Keys and patterns -/

/-- An expression nests another production right away. -/
theorem expression_reads (he : Reads text n (nested .assignment)) : Reads text n (expression nested) := fun s h => by
  refine .ahead (h.read (.commaSeparated he.isolate) fun expressions t h => ?_)
  split
  · exact h.give
  · exact h.finish rfl

section
variable (hn : Sound text n nested)
include hn

theorem propertyKey_reads : Reads text (n + 1) (propertyKey nested) := fun s h => by
  refine .mark (h.next fun t _ ht => ?_)
  split
  next hl => exact .isStrict ((ht (by simp [Token.isEnd, hl])).settleIf (.tolerateWith _ _) fun _ h => h.finish rfl)
  next hl => exact .isStrict ((ht (by simp [Token.isEnd, hl])).settleIf (.tolerateWith _ _) fun _ h => h.finish rfl)
  next hl => exact (ht (by simp [Token.isEnd, hl])).finish rfl
  next hl => exact (ht (by simp [Token.isEnd, hl])).finish rfl
  next hl => exact (ht (by simp [Token.isEnd, hl])).finish rfl
  next hl => exact (ht (by simp [Token.isEnd, hl])).finish rfl
  next hl =>
    exact (ht (by simp [Token.isEnd, hl])).nest hn.assignment.isolate fun key u h => h.expect fun v h => h.give
  · exact .failAt

theorem patternWithDefault_reads (kind : Option VariableKind) :
    Reads text n (patternWithDefault nested kind) := fun s h => by
  refine .ahead (h.read (hn.pattern kind) fun (pattern, names) t h => h.accept (fun u h => ?_) (.neg nofun h.give))
  refine .pos rfl (h.read hn.assignment.isolate.withContext fun right v h => ?_)
  exact h.node rfl fun _ _ h => h.give

theorem restElement_reads (kind : Option VariableKind) : Reads text (n + 1) (restElement nested kind) := fun _ h =>
  .mark (h.expect fun _ h => h.nest (hn.pattern kind) fun (_, _) _ h => h.node rfl fun _ _ h => h.give)

theorem arrayPattern_reads (kind : Option VariableKind) : Reads text (n + 1) (arrayPattern nested kind) := fun s h => by
  refine .mark (h.expect fun t h => h.nest (.loop fun items t h => ?_) fun items t h => ?_)
  · refine .check (.ite (fun _ => Judgement.ending.ofPure h) fun _ => h.accept (fun u h => ?_) ?_)
    · exact .pos rfl (Judgement.ending.ofPure h)
    · refine .neg nofun (.check (.ite (fun _ => ?_) fun _ => ?_))
      · exact h.read (restElement_reads hn kind).weaken fun a v h => Judgement.ending.ofPure h.reading
      · refine h.read (patternWithDefault_reads hn kind) fun a v h => .check ?_
        refine .ite (fun _ => Judgement.ending.ofPure h) fun _ => h.expect fun w h => Judgement.ending.ofPure h
  · exact h.expect fun u h => h.node rfl fun _ _ h => h.give

theorem finalRest_reads (closing : Punctuator) (notLast : Cause) :
    Reads text (n + 1) (finalRest nested closing notLast) :=
    fun s h => by
  refine .mark (h.expect fun t h => h.nest (hn.pattern none) fun (argument, names) u h => .check ?_)
  refine h.settleIf (.failHere _) fun v h => .check (h.settleUnless (.failHere _) fun w h => ?_)
  exact h.node rfl fun _ _ h => h.give

theorem namedMemberValue_passes {kind : Option VariableKind} {name : Token} {target : Node} :
    Passes text (n + 1) (namedMemberValue nested kind name target) := fun s h => by
  refine h.accept (fun t h => .pos rfl ?_)
    (.neg nofun (.check (.ite (fun _ => h.give) fun _ => h.expect fun t h => ?_)))
  · exact h.nest hn.assignment fun right u h => h.node rfl fun _ _ h => h.reading.give
  · exact h.nest (patternWithDefault_reads hn kind) fun (value, names) u h => h.reading.give

theorem memberPattern_reads (kind : Option VariableKind) : Reads text (n + 1) (memberPattern nested kind) :=
  fun s h => by
  refine .mark (.ahead (.ite (fun _ => ?_) fun _ => .check ?_))
  · refine h.read (bindingName_reads none) fun key t h => h.node rfl fun target u h => ?_
    exact h.pass (namedMemberValue_passes hn) fun (value, names, shorthand) v h => h.node rfl fun _ _ h => h.give
  · refine h.read (propertyKey_reads hn) fun key t h => h.expect fun u h => ?_
    exact h.nest (patternWithDefault_reads hn kind) fun (value, names) v h => h.node rfl fun _ _ h => h.give

theorem objectPattern_reads (kind : Option VariableKind) : Reads text (n + 1) (objectPattern nested kind) :=
  fun s h => by
  refine .mark (h.expect fun t h => h.nest (.itemsBefore fun u h => ?_) fun items u h => ?_)
  · have item {v : ParseState} {a : Node × List Token} (h : Held text n .ahead true (u.site .ahead) v) :
        Ends (do
          unless ← check .rightBrace do expect .comma
          return a) v fun _ w => Held text n .ahead true (u.site .ahead) w :=
      .check (.ite (fun _ => h.give) fun _ => h.expect fun w h => h.give)
    refine .check (.ite (fun _ => ?_) fun _ => ?_)
    · exact h.read (finalRest_reads hn _ _).weaken fun a v h => item h
    · exact h.read (memberPattern_reads hn kind).weaken fun a v h => item h
  · exact h.expect fun v h => h.node rfl fun _ _ h => h.give

theorem pattern_reads (kind : Option VariableKind) : Reads text (n + 1) (pattern nested kind) := fun s h => by
  refine .ahead (.ite (fun _ => h.last (arrayPattern_reads hn kind)) fun _ => .ite (fun _ => ?_) fun _ => ?_)
  · exact h.last (objectPattern_reads hn kind)
  · exact h.settleIf (.tolerateWith _ _) fun t h => h.read (bindingName_reads kind) fun name u h => h.give

/-! ## Parameters -/

theorem parameter_reads (ps : Parameters) : Reads text n (parameter nested ps) := fun s h => by
  refine .check (.ite (fun _ => ?_) fun _ => ?_)
  · exact h.read (finalRest_reads hn _ _).weaken fun (param, names) t h => .isStrict h.give
  · exact h.read (patternWithDefault_reads hn none) fun (param, names) t h => .isStrict h.give

theorem parameterList_passes (first : Parameters) : Passes text n (parameterList nested first) := fun s h => by
  refine .check (.ite (fun _ => h.give) fun _ => h.last (.loop fun ps t h => ?_))
  refine .ahead (.ite (fun _ => Judgement.ending.ofPure h) fun _ => h.read (parameter_reads hn ps) fun ps u h => ?_)
  refine .check (.ite (fun _ => Judgement.ending.ofPure h.reading) fun _ => h.expect fun v h => ?_)
  exact .check (.ite (fun _ => Judgement.ending.ofPure h.reading) fun _ => Judgement.ending.ofPure h)

theorem parameters_reads (restricted : Option Token) : Reads text (n + 1) (parameters nested restricted) :=
  fun s h => by
  refine h.expect fun t h => h.nest (parameterList_passes hn _) fun ps u h => h.expect fun v h => .context ?_
  exact h.settleIf (.failHere _) fun w h => h.give

end

/-! ## Parameters of an arrow function -/

variable {isAsync : Bool}

theorem arrowParameter_settles (param : Node) : Judgement.ending.Settles (arrowParameter isAsync param) := by
  unfold arrowParameter
  split
  · split
    · exact .failAhead
    · exact .pure _
    · exact .pure _
  · exact .ite .failAhead (.pure _)

theorem mapM_arrowParameter_settles (params : List Node) :
    Judgement.ending.Settles (params.mapM (arrowParameter isAsync)) := by
  induction params with
  | nil =>
    rw [List.mapM_nil]
    exact .pure _
  | cons param params ih =>
    rw [List.mapM_cons]
    exact .bind (arrowParameter_settles param) fun _ => .bind ih fun _ => .pure _

theorem arrowNodes_settles (list : Node) : Judgement.ending.Settles (arrowNodes list) := by
  unfold arrowNodes
  split
  · exact .pure _
  · exact .pure _
  · exact .failAhead

theorem arrowParameters_passes (list : Node) : Passes text n (arrowParameters list isAsync) := fun s h => by
  refine h.settle (arrowNodes_settles list) fun nodes t h => ?_
  refine h.settle (mapM_arrowParameter_settles nodes) fun params u h => .context ?_
  exact h.settleIf .failAhead fun v h => h.settleIf (.failHere _) fun w h => h.give

end EcmaTree.Course
