import EcmaTree.Grammar.Object
import EcmaTree.Grammar.Template
import EcmaTree.Proofs.Derivation.Class

/-!
# Templates, arrays and objects

The parts of a literal lower what the cover says, and so does a member `name = value`. Only behind a method it says
nothing of the members before.
-/

namespace EcmaTree

theorem Derives.of_le {size : Nat} {σ : Scope} {form : Form} {c c' : Cover} {n : Node} (hc : c'.prospect ≤ c.prospect)
    (h : Derives size σ (.covered form c.prospect) n) : Derives size σ (.covered form c'.prospect) n := .weaken hc h

theorem Cover.nonPattern_le (c : Cover) : c.nonPattern.prospect ≤ c.prospect := by
  simp [Prospect.le_iff, Cover.prospect, Cover.nonPattern]

namespace Parse

variable {source : String} {outer : Scope} {E : Setting} {c : Cover} {nested : Nested}

section
variable (outer) (hn : Sound source nested)
include hn

/-! ## Templates -/

omit hn in
theorem templateElement_keeps (tagged : Bool) :
    Keeps source .ahead .ahead (templateElement tagged) fun r => DerivedAnywhere source r.1 := fun E c => by
  refine .ahead fun t => ?_
  split
  next chunk _ =>
    refine .mark fun start => .keep .next fun t _ => ?_
    have done : Reads source E c (do return (← finish start
      (.templateElement chunk.raw chunk.cooked chunk.isTail), chunk.isTail))
        fun r c' => c = c' ∧ DerivedAnywhere source r.1 :=
      .node fun i => .pure ⟨rfl, rfl, fun σ => .plain rfl (by simp [Kind.children])⟩
    split
    · exact .ite (fun _ => done) fun _ => Stops.failWith.bind.yields
    · exact done
  · exact Stops.failHere.yields

theorem template_derived (tagged : Bool) (E : Setting) (c : Cover) : Reads source E c (template nested tagged)
    fun n c' => c = c' ∧ ∃ i quasis expressions, n = .mk i (.template quasis expressions) ∧
      ∀ n ∈ quasis ++ expressions, Derived source outer E .node n := by
  refine .mark fun start => .keep (templateElement_keeps tagged) fun (first, isTail) h => ?_
  refine .part (Reads.loop (I := fun r c' => c = c' ∧ ∀ n ∈ r.1 ++ r.2.1, Derived source outer E .node n)
    (D := fun r c' => c = c' ∧ ∀ n ∈ r.1 ++ r.2.1, Derived source outer E .node n) ⟨rfl, by simpa using h _⟩ ?_) ?_
  · rintro ⟨quasis, expressions, isTail⟩ _ ⟨rfl, h⟩
    refine .ite (fun _ => .pure ⟨rfl, rfl, h⟩) fun _ => .expression outer hn fun e he => ?_
    refine .keep (templateElement_keeps tagged) fun (quasi, isTail) hq => .pure ⟨rfl, rfl, ?_⟩
    simp only [List.mem_append, List.mem_cons, or_imp, forall_and, forall_eq] at h ⊢
    exact ⟨⟨hq _, h.1⟩, .of_value he, h.2⟩
  · rintro ⟨quasis, expressions, isTail⟩ _ ⟨rfl, h⟩
    exact .finish fun i => ⟨rfl, rfl, i, _, _, rfl, by simpa using h⟩

/-! ## Arrays -/

/-- Something spread lowers what the cover says. -/
theorem spread_derived (E : Setting) (c : Cover) :
    Reads source E c (spread nested) fun n c' => c'.prospect ≤ c.prospect ∧
    ∃ i argument, n = .mk i (.spread argument) ∧ Derived source outer E (.expression c'.prospect) argument :=
  .mark fun _ => .keep .expect fun _ _ => .inherited (hn.assignment outer) fun argument _ hc ha =>
    .finish fun i => ⟨rfl, hc, i, argument, rfl, ha⟩

theorem arrayElement_derived (E : Setting) (c : Cover) : Reads source E c (arrayElement nested) fun r c' =>
    c'.prospect ≤ c.prospect ∧ ∀ n ∈ r, Derived source outer E (.element c'.prospect) n := by
  refine .keep .accept fun _ _ => .ite (fun _ => .pure ⟨rfl, Prospect.le_refl _, nofun⟩) fun _ =>
    .check fun _ => .ite (fun _ => ?_) fun _ => ?_
  · refine .part (spread_derived outer hn E c) ?_
    rintro _ c' ⟨hc, i, argument, rfl, ha⟩
    refine .check fun _ => .ite (fun _ => .pure ⟨rfl, hc, ?_⟩) fun _ =>
      .nonPattern (.keep .expect fun _ _ => .pure ⟨rfl, ?_, ?_⟩)
    · simpa using .spread ha
    · exact Prospect.le_trans c'.nonPattern_le hc
    · simpa using .spread (.of_le c'.nonPattern_le ha)
  · refine .inherited (hn.assignment outer) fun element c' hc he => ?_
    have done : ∀ n ∈ some element, Derived source outer E (.element c'.prospect) n := by simpa using .operand he
    exact .check fun _ => .ite (fun _ => .pure ⟨rfl, hc, done⟩) fun _ => .keep .expect fun _ _ => .pure ⟨rfl, hc, done⟩

theorem arrayLiteral_derived : Covers source outer .expression (arrayLiteral nested) := fun E c => by
  refine .mark fun start => .keep .expect fun _ _ => .part (Reads.itemsBefore (I := fun _ => True)
    (R := fun r c => ∀ n ∈ r, Derived source outer E (.element c.prospect) n) trivial fun c _ => ?_)
      fun elements c ⟨_, h⟩ => ?_
  · refine .mono (arrayElement_derived outer hn E c) fun r E' c' ⟨hE, hc, hr⟩ => ⟨hE, trivial, hr, fun r hr n hn => ?_⟩
    exact .of_le hc (hr n hn)
  · refine .keep .expect fun _ _ => .finish fun i => ⟨rfl, .array fun n hn => ?_⟩
    simp only [Kind.present, List.mem_filterMap, id] at hn
    obtain ⟨_, hn, rfl⟩ := hn
    exact h _ hn n rfl

/-! ## Members of objects -/

omit hn in
theorem checkAsyncWord_keeps : Keeps source .ahead .ahead checkAsyncWord fun _ => True := fun _ _ =>
  .get fun _ _ _ _ => .check fun _ => .check fun _ => .check fun _ => .pure ⟨rfl, rfl, trivial⟩

theorem nameOrKey_derived (start : Place) (name : Token) (isWord : Bool) (E : Setting) (c : Cover) :
    Reads source E c (nameOrKey nested start name isWord) fun n c' => c = c' ∧ Derived source outer E .node n :=
  .ite (fun _ => propertyKey_keeps outer hn E c) fun _ => .finish fun _ => ⟨rfl, rfl, .name⟩

theorem objectMemberHead_derived (E : Setting) (c : Cover) :
    Reads source E c (objectMemberHead nested) fun head c' => c = c' ∧ DerivedHead source outer E head := by
  refine .mark fun start => .ahead fun t => .ite (fun _ => ?_) fun _ => ?_
  · refine .keep .skip fun _ _ => .check fun computed => .keep checkAsyncWord_keeps fun async _ =>
      .keep .accept fun generator _ => ?_
    refine .part (nameOrKey_derived outer hn start t _ E c) ?_
    rintro key _ ⟨rfl, hk⟩
    exact .pure ⟨rfl, rfl, by simpa [DerivedHead] using hk⟩
  · refine .keep .accept fun _ _ => .ite (fun _ => .pure ⟨rfl, rfl, nofun⟩) fun _ =>
      .part (keyAndForm_keeps outer hn E c) ?_
    rintro ⟨key, computed⟩ _ ⟨rfl, hk⟩
    exact .pure ⟨rfl, rfl, by simpa [DerivedHead] using hk⟩

theorem shorthandValue_derived (start : Place) (name : Token) (E : Setting) (c : Cover) :
    Reads source E c (shorthandValue nested start name) fun n c' => c'.prospect ≤ c.prospect ∧
      ∀ i key computed, Derived source outer E .node key →
        Derived source outer E (.member c'.prospect) (.mk i (.property .init key n computed false true)) := by
  refine .node fun i => .ahead fun t => .ite (fun _ => .modifyCover (.keep .skip fun _ _ => ?_)) fun _ => ?_
  · refine .isolated (hn.assignment outer) fun value hv => .finish fun j => ⟨rfl, ?_, fun k key computed hk => ?_⟩
    · simp [Prospect.le_iff, Cover.prospect]
    · exact .weaken (by simp [Prospect.le_iff, Cover.prospect]) (.initialized hk rfl .name (.of_value hv))
  · exact .pure ⟨rfl, Prospect.le_refl _, fun j key computed hk => .weaken (Prospect.le_free _) (.shorthand hk)⟩

/-- A member of an object lowers what the cover says, or it is a method, behind which nothing is a pattern. -/
abbrev DerivedMember (source : String) (outer : Scope) (E : Setting) (c c' : Cover) (n : Node) : Prop :=
  (c'.prospect ≤ c.prospect ∧ Derived source outer E (.member c'.prospect) n) ∨
    (n.isMethod = true ∧ c'.prospect ≤ .value ∧ Derived source outer E (.member .value) n)

theorem keyedProperty_derived (hasProto : Bool) (start : Place) (head : MemberHead) {key : Node}
    (hk : Derived source outer E .node key) (c : Cover) :
      Reads source E c (keyedProperty nested hasProto start head key)
      fun r c' => DerivedMember source outer E c c' r.1 := by
  refine .check fun _ => .ite (fun _ => .assert Stops.tolerateHere fun _ => ?_) fun _ => .check fun _ =>
    .ite (fun _ => ?_) fun _ => .ite (fun _ => ?_) fun _ => ?_
  · refine .keep .skip fun _ _ => .inherited (hn.assignment outer) fun value c' hc hv =>
      .node fun i => .pure ⟨rfl, .inl ⟨hc, ?_⟩⟩
    exact .property hk hv
  · refine .part (method_derived outer hn _ _ E c) fun value c' ⟨hc, hv⟩ => .node fun i =>
      .pure ⟨rfl, .inr ⟨rfl, hc, ?_⟩⟩
    exact .method rfl hk hv
  · refine .part (shorthandValue_derived outer hn start head.token E c) fun value c' ⟨hc, hv⟩ =>
      .node fun i => .pure ⟨rfl, .inl ⟨hc, ?_⟩⟩
    exact hv i key _ hk
  · exact .keep .next fun t _ => Stops.failAt.yields

theorem objectMember_derived (hasProto : Bool) (E : Setting) (c : Cover) :
    Reads source E c (objectMember nested hasProto) fun r c' => DerivedMember source outer E c c' r.1 := by
  refine .mark fun start => .part (objectMemberHead_derived outer hn E c) ?_
  rintro head _ ⟨rfl, hh⟩
  refine .part (wordedMember_derived outer hn head E c) ?_
  rintro (_ | m) c' hm
  · obtain rfl : c = c' := hm
    obtain ⟨token, key?, computed, static, async, generator⟩ := head
    cases key? with
    | none => exact Stops.failAhead.yields
    | some key => exact keyedProperty_derived outer hn hasProto start _ (hh key rfl) c
  · obtain ⟨hc, hmethod, hk, hv⟩ := hm
    exact .node fun i => .pure ⟨rfl, .inr ⟨hmethod, hc, .method hmethod hk hv⟩⟩

/-! ## Objects -/

/-- What is known of the members of an object that have been read. -/
def Members (source : String) (outer : Scope) (E : Setting) (members : List Node) (c : Cover) : Prop :=
  (∀ n ∈ members, Derived source outer E (.member c.prospect) n) ∨
    ((∃ n ∈ members, n.isMethod = true) ∧ c.prospect ≤ .value ∧ ∀ n ∈ members, Derived source outer E (.member .bare) n)

omit hn in
theorem Members.more {members : List Node} {c c' : Cover} {n : Node} (h : Members source outer E members c)
    (hn : DerivedMember source outer E c c' n) : Members source outer E (n :: members) c' := by
  have bare (hb : Derived source outer E (.member .bare) n) :
      ∀ m ∈ n :: members, Derived source outer E (.member .bare) m :=
    List.forall_mem_cons.2 ⟨hb, fun m hm => h.elim (fun h => .weaken (Prospect.bare_le _) (h m hm)) fun h => h.2.2 m hm⟩
  rcases hn with ⟨hc, hn⟩ | ⟨hmethod, hc, hn⟩
  · rcases h with h | ⟨⟨m, hm, hmethod⟩, hvalue, -⟩
    · exact .inl (List.forall_mem_cons.2 ⟨hn, fun m hm => .of_le hc (h m hm)⟩)
    · exact .inr ⟨⟨m, List.mem_cons_of_mem _ hm, hmethod⟩, Prospect.le_trans hc hvalue,
        bare (.weaken (Prospect.bare_le _) hn)⟩
  · exact .inr ⟨⟨n, List.mem_cons_self .., hmethod⟩, hc, bare (.weaken (Prospect.bare_le _) hn)⟩

theorem objectLiteral_derived : Covers source outer .expression (objectLiteral nested) := fun E c => by
  refine .mark fun start => .keep .expect fun _ _ => .part (Reads.loop (I := fun r c => Members source outer E r.1 c)
    (D := fun r c => Members source outer E r.1 c) (.inl nofun) ?_) ?_
  · rintro ⟨members, hasProto⟩ c h
    have next {r : Node × Bool} {c' : Cover} (hr : DerivedMember source outer E c c' r.1) :
        Yields source .ahead .ahead E c' (do
        unless ← check .rightBrace do expectSeparator
        return .more (r.1 :: members, hasProto || r.2)) (Progress.Meets (fun r E' c => E = E' ∧
          Members source outer E r.1 c)
          fun r E' c => E = E' ∧ Members source outer E r.1 c) :=
      .check fun _ => .ite (fun _ => .pure ⟨rfl, h.more outer hr⟩) fun _ => .keep .expectSeparator fun _ _ =>
        .pure ⟨rfl, h.more outer hr⟩
    refine .check fun _ => .ite (fun _ => .pure ⟨rfl, h⟩) fun _ => .check fun _ => .ite (fun _ => ?_) fun _ => ?_
    · refine .part (spread_derived outer hn E c) ?_
      rintro _ c' ⟨hc, i, argument, rfl, ha⟩
      exact .value (next (r := (_, false)) (.inl ⟨hc, .spreadMember ha⟩))
    · exact .part (objectMember_derived outer hn hasProto E c) fun r c' hr => next hr
  · rintro ⟨members, hasProto⟩ c h
    refine .keep .expect fun _ _ => .finish fun i => ⟨rfl, ?_⟩
    rcases h with h | ⟨hmethod, hvalue, h⟩
    · exact .object (by simpa using h)
    · exact .weaken hvalue (.objectWithMethod (by simpa using hmethod) (by simpa using h))

end

end Parse

end EcmaTree
