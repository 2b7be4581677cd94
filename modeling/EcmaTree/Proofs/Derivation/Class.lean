import EcmaTree.Grammar.Class
import EcmaTree.Proofs.Derivation.Function

/-!
# Classes

All code of a class is strict, what it extends included. The members of objects begin as those of classes do.
-/

namespace EcmaTree.Parse

variable {source : String} {outer : Scope} {E : Setting} {c : Cover} {nested : Nested}

/-- The key that has been read before a member is part of the tree. -/
abbrev DerivedHead (source : String) (outer : Scope) (E : Setting) (head : MemberHead) : Prop :=
  ∀ n ∈ head.key, Derived source outer E .node n

/-- What a member says is part of the tree. -/
abbrev DerivedRest (source : String) (outer : Scope) (E : Setting) (m : MemberRest) : Prop :=
  Derived source outer E .node m.key ∧ Derived source outer E (.expression .free) m.value

section
variable (outer) (hn : Sound source nested)
include hn

/-! ## Members -/

theorem keyAndForm_keeps (E : Setting) (c : Cover) :
    Reads source E c (keyAndForm nested) fun r c' => c = c' ∧ Derived source outer E .node r.1 :=
  .check fun _ => .propertyKey outer hn fun _ hk => .pure ⟨rfl, rfl, hk⟩

theorem staticHead_derived {head : MemberHead} (h : DerivedHead source outer E head) (c : Cover) :
    Reads source E c (staticHead nested head) fun head c' => c = c' ∧ DerivedHead source outer E head := by
  refine .ahead fun t => .ite (fun _ => .check fun computed => .keep .accept fun _ _ =>
    .ite (fun _ => ?_) fun _ => ?_) fun _ => ?_
  · exact .pure ⟨rfl, rfl, h⟩
  · exact .propertyKey outer hn fun key hk => .pure ⟨rfl, rfl, by simpa [DerivedHead] using hk⟩
  · exact .pure ⟨rfl, rfl, h⟩

theorem asyncHead_derived {head : MemberHead} (h : DerivedHead source outer E head) (c : Cover) :
    Reads source E c (asyncHead nested head) fun head c' => c = c' ∧ DerivedHead source outer E head := by
  refine .get fun s _ _ _ => .check fun _ => .check fun _ => .ite (fun _ => ?_) fun _ => .pure ⟨rfl, rfl, h⟩
  refine .keep .accept fun generator _ => .ahead fun t => .part (keyAndForm_keeps outer hn E c) ?_
  rintro ⟨key, computed⟩ _ ⟨rfl, hk⟩
  exact .assert Stops.tolerateWith fun _ => .pure ⟨rfl, rfl, by simpa [DerivedHead] using hk⟩

theorem memberHead_derived (E : Setting) (c : Cover) :
    Reads source E c (memberHead nested) fun head c' => c = c' ∧ DerivedHead source outer E head := by
  refine .ahead fun t => .keep .accept fun _ _ => .ite (fun _ => .pure ⟨rfl, rfl, nofun⟩) fun _ => ?_
  refine .part (keyAndForm_keeps outer hn E c) ?_
  rintro ⟨key, computed⟩ _ ⟨rfl, hk⟩
  refine .part (staticHead_derived outer hn (by simpa [DerivedHead] using hk) c) ?_
  rintro head _ ⟨rfl, hh⟩
  exact asyncHead_derived outer hn hh c

/-- What the rest of a member says: a method or an accessor, behind which nothing is a pattern. -/
abbrev ReadsRest (source : String) (outer : Scope) (E : Setting) (c : Cover) (r : Option MemberRest)
    (c' : Cover) : Prop :=
  match r with
  | none => c = c'
  | some m => c'.prospect ≤ .value ∧ (propertyKind m.kind != .init || m.isMethod) = true ∧ DerivedRest source outer E m

theorem keyAndRest_derived {kind : MethodKind} {isMethod : Bool} (h : (propertyKind kind != .init || isMethod) = true)
    {rest : Parse Node} (hrest : ∀ E c, Reads source E c rest fun n c' => c'.prospect ≤ .value ∧
      Derived source outer E (.expression .free) n)
    (E : Setting) (c : Cover) : Reads source E c (keyAndRest nested kind isMethod rest)
      (ReadsRest source outer E c) := by
  refine .part (keyAndForm_keeps outer hn E c) ?_
  rintro ⟨key, computed⟩ _ ⟨rfl, hk⟩
  exact .part (hrest E c) fun value c' ⟨hc, hv⟩ => .pure ⟨rfl, hc, h, hk, hv⟩

/-- A word before a member makes it an accessor or a generator. -/
theorem wordedMember_derived (head : MemberHead) (E : Setting) (c : Cover) :
    Reads source E c (wordedMember nested head) (ReadsRest source outer E c) := by
  refine .ahead fun t => .ite (fun _ => .pure ⟨rfl, rfl⟩) fun _ => .ite (fun _ => ?_) fun _ =>
    .ite (fun _ => ?_) fun _ =>
    .ite (fun _ => ?_) fun _ => .pure ⟨rfl, rfl⟩
  · exact keyAndRest_derived outer hn rfl (getter_derived outer hn) E c
  · exact keyAndRest_derived outer hn rfl (setter_derived outer hn) E c
  · exact keyAndRest_derived outer hn rfl (generatorMethod_derived outer hn) E c

theorem keyedMember_derived {head : MemberHead} (h : DerivedHead source outer E head) (c : Cover) :
    Reads source E c (keyedMember nested head) (ReadsRest source outer E c) := by
  obtain ⟨token, key?, computed, static, async, generator⟩ := head
  cases key? with
  | none => exact .pure ⟨rfl, rfl⟩
  | some key =>
    refine .check fun _ => .ite (fun _ => ?_) fun _ => .pure ⟨rfl, rfl⟩
    refine .part (.inContext (method_derived outer hn generator async _ c)) fun value c' ⟨hc, hv⟩ =>
      .pure ⟨rfl, hc, rfl, ?_, hv⟩
    exact h key rfl

theorem memberRest_derived {head : MemberHead} (h : DerivedHead source outer E head) (c : Cover) :
    Reads source E c (memberRest nested head) (ReadsRest source outer E c) := by
  refine .part (wordedMember_derived outer hn head E c) ?_
  rintro (_ | m) c' hm
  · obtain rfl : c = c' := hm
    exact keyedMember_derived outer hn h c
  · exact .pure ⟨rfl, hm⟩

omit hn in
theorem checkMemberName_keeps (hasConstructor : Bool) (head : MemberHead) (m : MemberRest) :
    Keeps source .ahead .ahead (checkMemberName hasConstructor head m) fun _ => True := fun E c => by
  refine .ite (fun _ => .pure ⟨rfl, rfl, trivial⟩) fun _ => .ite (fun _ => ?_) fun _ =>
    .ite (fun _ => ?_) fun _ => .pure ⟨rfl, rfl, trivial⟩
  · exact .assert Stops.failWith fun _ => .pure ⟨rfl, rfl, trivial⟩
  · exact .assert Stops.failWith fun _ => .assert Stops.failWith fun _ => .pure ⟨rfl, rfl, trivial⟩

theorem classMember_derived (hasConstructor : Bool) (E : Setting) (c : Cover) :
    Reads source E c (classMember nested hasConstructor) fun r c' => c'.prospect ≤ .value ∧
      Derived source outer E .node r.1 := by
  refine .mark fun start => .part (memberHead_derived outer hn E c) ?_
  rintro head _ ⟨rfl, hh⟩
  refine .part (memberRest_derived outer hn hh c) ?_
  rintro (_ | m) c' hm
  · exact Stops.failAhead.yields
  · obtain ⟨hc, -, hk, hv⟩ := hm
    refine .keep (checkMemberName_keeps hasConstructor head m) fun isConstructor _ => .node fun i =>
      .pure ⟨rfl, hc, .plain rfl ?_⟩
    simpa [Kind.children] using ⟨hk, .complete rfl hv⟩

/-! ## Classes -/

/-- Behind something that is no pattern, the production is none either. -/
abbrev Settled (c c' : Cover) : Prop := c.prospect ≤ .value → c'.prospect ≤ .value

theorem classBody_derived (E : Setting) (c : Cover) :
    Reads source E c (classBody nested) fun n c' => Settled c c' ∧ Derived source outer E .node n := by
  refine .mark fun start => .keep .expect fun _ _ => .part (Reads.loop
    (I := fun r c' => Settled c c' ∧ ∀ n ∈ r.1, Derived source outer E .node n)
    (D := fun r c' => Settled c c' ∧ ∀ n ∈ r.1, Derived source outer E .node n) ⟨id, nofun⟩ ?_) ?_
  · rintro ⟨members, hasConstructor⟩ c h
    refine .check fun _ => .ite (fun _ => .pure ⟨rfl, h⟩) fun _ => .keep .accept fun _ _ =>
      .ite (fun _ => .pure ⟨rfl, h⟩) fun _ => ?_
    refine .part (classMember_derived outer hn hasConstructor E c) fun (member, isConstructor) c ⟨hc, hm⟩ => ?_
    exact .pure ⟨rfl, fun _ => hc, List.forall_mem_cons.2 ⟨hm, h.2⟩⟩
  · rintro ⟨members, hasConstructor⟩ c ⟨hc, h⟩
    exact .keep .expect fun _ _ => .finish fun i => ⟨rfl, hc, .plain rfl (by simpa [Kind.children] using h)⟩

theorem classTail_derived (E : Setting) (c : Cover) : Reads source E c (classTail nested) fun r c' =>
    Settled c c' ∧ (∀ n ∈ r.1, Derived source outer E .node n) ∧ Derived source outer E .node r.2 := by
  have body (superClass : Option Node) (h : ∀ n ∈ superClass, Derived source outer E .node n) : Reads source E c
      (do return (superClass, ← classBody nested)) fun r c' =>
        Settled c c' ∧ (∀ n ∈ r.1, Derived source outer E .node n) ∧ Derived source outer E .node r.2 :=
    .part (classBody_derived outer hn E c) fun body _ ⟨hc, hb⟩ => .pure ⟨rfl, hc, h, hb⟩
  refine .checkKeyword fun _ => .ite (fun _ => ?_) fun _ => .value (body none nofun)
  refine .keep .skip fun _ _ => .isolated (hn.callChain outer) fun superClass hs => .value (body (some superClass) ?_)
  simpa using .of_value hs

omit hn in
theorem className_keeps (form : ClassForm) (nameIsOptional : Bool) :
    Keeps source .ahead .ahead (className form nameIsOptional) fun r => ∀ n ∈ r, ∃ i name,
      n = .mk i (.identifier name) := fun E c => by
  have named : Reads source E c (do return some (← bindingName none)) fun r c' =>
      c = c' ∧ ∀ n ∈ r, ∃ i name, n = .mk i (.identifier name) :=
    .keep (bindingName_keeps none) fun n hn => .pure ⟨rfl, rfl, by simpa using hn⟩
  exact .ahead fun t => .ite (fun _ => named) fun _ => .ite (fun _ => .pure ⟨rfl, rfl, nofun⟩) fun _ => named

theorem classOf_derived (form : ClassForm) (nameIsOptional : Bool) (E : Setting) (c : Cover) :
    Reads source E c (classOf nested form nameIsOptional) fun n c' =>
      Settled c c' ∧ Derived source outer E (.expression .value) n := by
  refine .mark fun start => .part (n := .ahead) (P := fun r c' => Settled c c' ∧
    (∀ n ∈ r.1, Derived source outer (E.inCode true) .node n) ∧
    (∀ n ∈ r.2.1, Derived source outer (E.inCode true) .node n) ∧
      Derived source outer (E.inCode true) .node r.2.2) (.inContext ?_) ?_
  · refine .keep .expectKeyword fun _ _ => .keep (className_keeps form nameIsOptional) fun name h => ?_
    refine .part (classTail_derived outer hn _ c) fun (superClass, body) c' ⟨hc, hs, hb⟩ =>
      .pure ⟨rfl, hc, fun n hn => ?_, hs, hb⟩
    obtain ⟨i, text, rfl⟩ := h n hn
    exact .name
  · rintro ⟨name, superClass, body⟩ c' ⟨hc, h⟩
    simp only [Derived, Setting.scopeIn_inCode_true] at h
    exact .finish fun i => ⟨rfl, hc, .classDefinition h.1 h.2.1 h.2.2⟩

end

end EcmaTree.Parse
