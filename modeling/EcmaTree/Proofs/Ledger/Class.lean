import EcmaTree.Proofs.Ledger.Function

/-!
# Members of classes and objects

A key that turns out to be the word `static` is used up by no node.
-/

namespace EcmaTree

instance : HasTokens Parse.MemberHead := ⟨fun head => [head.token]⟩

instance : HasTokens Parse.MemberRest := ⟨fun _ => []⟩

instance : HasTokens.Mute Parse.MemberRest := ⟨fun _ => rfl⟩

namespace Ledger

open Parse

variable {L : Ledger} {nested : Nested} {base s : ParseState} {ns l : List Node}

@[simp] theorem fine_head {head : MemberHead} : L.Fine head ↔ L.Seen head.token := by simp [Fine, tokens]

section
variable (hn : L.Sound nested)
include hn

/-! ## Heads -/

theorem keyAndForm_reads : L.Reads (keyAndForm nested) := fun s h =>
  .check (h.read (propertyKey_reads hn) fun key t h _ => h.give (by simp) (by simp))

section
variable {head : MemberHead} (h : L.Held .ahead base (nodes head ++ l) s) (fine : L.Seen head.token)
include h fine

theorem staticHead_gives : L.Safe (staticHead nested head) s (L.Gives .ahead base l) := by
  have first := h.seen
  refine .ahead (.ite (fun _ => .check (h.accept fun b t h => .ite (fun _ => ?_) fun _ => ?_)) fun _ => ?_)
  · exact h.give (by simp) (by simpa using first)
  · exact h.read (propertyKey_reads hn) fun key u h _ => h.give (by simp +arith) (by simpa using first)
  · exact h.give (by simp) (by simpa using fine)

theorem asyncHead_gives : L.Safe (asyncHead nested head) s (L.Gives .ahead base l) := by
  refine .get (.check (.check (.ite (fun _ => ?_) fun _ => h.give (by simp) (by simpa using fine))))
  refine h.accept fun generator t h => .ahead ?_
  have first := h.seen
  refine h.read (keyAndForm_reads hn) fun (key, computed) u h _ => ?_
  exact h.settleIf (.tolerateWith first) fun v h => h.give (by simp +arith) (by simpa using first)

end

theorem memberHead_reads : L.Reads (memberHead nested) := fun s h => by
  have first := h.seen
  refine .ahead (h.accept fun b t h => .ite (fun _ => h.give (by simp) (by simpa using first)) fun _ => ?_)
  refine h.read (keyAndForm_reads hn) fun (key, computed) u h _ => ?_
  refine after (staticHead_gives hn (l := []) (by simpa using h) (by simpa using first)) fun head v h fine => ?_
  exact asyncHead_gives hn h (by simpa using fine)

/-! ## The rest of a member -/

theorem keyAndRest_reads {rest : Parse Node} (hrest : L.Reads rest) (kind : MethodKind) (isMethod : Bool) :
    L.Reads (keyAndRest nested kind isMethod rest) := fun s h =>
  h.read (keyAndForm_reads hn) fun (key, computed) t h _ => h.read hrest fun value u h _ =>
    h.give (by simp +arith) (by simp)

theorem wordedMember_reads (head : MemberHead) : L.Reads (wordedMember nested head) := fun s h => by
  refine .ahead (.ite (fun _ => h.give (by simp) (by simp)) fun _ => .ite (fun _ => ?_)
    fun _ => .ite (fun _ => ?_) fun _ =>
    .ite (fun _ => ?_) fun _ => h.give (by simp) (by simp))
  · exact h.last (keyAndRest_reads hn (accessor_reads hn checkGetter_reads) _ _) (by simp)
  · exact h.last (keyAndRest_reads hn (accessor_reads hn checkSetter_reads) _ _) (by simp)
  · exact h.last (keyAndRest_reads hn (generatorMethod_reads hn) _ _) (by simp)

theorem keyedMember_gives {head : MemberHead} (h : L.Held .ahead base (nodes head ++ l) s) :
    L.Safe (keyedMember nested head) s (L.Gives .ahead base l) := by
  unfold keyedMember
  split
  · exact h.give (by simp) (by simp)
  next key hkey =>
    refine .check (.ite (fun _ => ?_) fun _ => h.give (by simp) (by simp))
    exact h.read (method_reads hn _ _).withContext fun value t h _ => h.give (by simp +arith [hkey]) (by simp)

theorem memberRest_gives {head : MemberHead} (h : L.Held .ahead base (nodes head ++ l) s) :
    L.Safe (memberRest nested head) s (L.Gives .ahead base l) := by
  refine h.read (wordedMember_reads hn head) fun m t h _ => ?_
  cases m with
  | some m => exact h.give (by simp +arith) (by simp)
  | none => exact keyedMember_gives hn h

omit hn in
theorem checkMemberName_reads {head : MemberHead} (fine : L.Seen head.token) (hasConstructor : Bool) (m : MemberRest) :
    L.Reads (checkMemberName hasConstructor head m) := fun s h => by
  refine .ite (fun _ => h.give (by simp) (by simp)) fun _ => .ite (fun _ => ?_) fun _ => .ite (fun _ => ?_) fun _ => ?_
  · exact h.settleIf (.failWith fine) fun t h => h.give (by simp) (by simp)
  · exact h.settleIf (.failWith fine) fun t h => h.settleIf (.failWith fine) fun u h => h.give (by simp) (by simp)
  · exact h.give (by simp) (by simp)

theorem classMember_reads (hasConstructor : Bool) : L.Reads (classMember nested hasConstructor) := fun s h => by
  refine .mark (h.read (memberHead_reads hn) fun head t h fine => ?_)
  refine after (memberRest_gives hn h) fun m u h _ => ?_
  cases m with
  | none => exact h.failAhead
  | some m =>
    refine h.read (checkMemberName_reads (by simpa using fine) _ m) fun isConstructor v h _ => ?_
    exact h.node [] rfl (by simp [Kind.children]) fun n w _ h => h.give (by simp) (by simp)

/-! ## Classes -/

theorem classBody_reads : L.Reads (classBody nested) := fun s h => by
  refine .mark (h.expect fun t h => ?_)
  refine h.loop (σ := List Node × Bool) [] (by simp) (by simp) (fun (members, hasConstructor) u h _ => ?_)
    fun (members, hasConstructor) u h _ => h.expect fun v h => h.finish rfl (by simp [Kind.children])
  refine .check (.ite (fun _ => h.give (by simp) (by simp)) fun _ => h.accept fun b v h =>
    .ite (fun _ => h.give (by simp) (by simp)) fun _ => ?_)
  exact h.read (classMember_reads hn _) fun (member, isConstructor) v h _ => h.give (by simp) (by simp)

theorem classTail_reads : L.Reads (classTail nested) := fun s h => by
  refine .checkKeyword (.ite (fun _ => h.skip fun t h => ?_) fun _ => ?_)
  · refine h.read hn.callChain.isolate fun superClass u h _ => .value (h.read (classBody_reads hn) fun body v h _ => ?_)
    exact h.give (by simp +arith) (by simp)
  · exact .value (h.read (classBody_reads hn) fun body v h _ => h.give (by simp +arith) (by simp))

omit hn in
theorem className_reads (form : ClassForm) (nameIsOptional : Bool) : L.Reads (className form nameIsOptional) :=
  fun s h => by
  have name : L.Safe (do return some (← bindingName none)) s (L.Gives .ahead s []) :=
    h.read (bindingName_reads none) fun n t h _ => h.give (by simp) (by simp)
  exact .ahead (.ite (fun _ => name) fun _ => .ite (fun _ => h.give (by simp) (by simp)) fun _ => name)

/-- The name, what the class extends, and the body. -/
theorem classParts_reads (form : ClassForm) (nameIsOptional : Bool) : L.Reads (do
    expectKeyword "class"
    let name ← className form nameIsOptional
    let (superClass, body) ← classTail nested
    return (name, superClass, body)) := fun s h => by
  refine h.expectKeyword fun t h => h.read (className_reads form nameIsOptional) fun name u h _ => ?_
  refine h.read (classTail_reads hn) ?_
  rintro ⟨superClass, body⟩ v h -
  exact h.give (by simp +arith) (by simp)

theorem classOf_reads (form : ClassForm) (nameIsOptional : Bool) :
    L.Reads (classOf nested form nameIsOptional) := fun s h => by
  refine .mark (h.read (classParts_reads hn form nameIsOptional).withContext ?_)
  rintro ⟨name, superClass, body⟩ t h -
  exact h.finish rfl (by simp +arith [Kind.children])

/-! ## Array and object literals -/

theorem spread_reads : L.Reads (spread nested) := fun s h =>
  .mark (h.expect fun t h => h.read hn.assignment.inherit fun argument u h _ => h.finish rfl (by simp [Kind.children]))

theorem arrayElement_reads : L.Reads (arrayElement nested) := fun s h => by
  refine h.accept fun b t h => .ite (fun _ => h.give (by simp) (by simp)) fun _ =>
    .check (.ite (fun _ => ?_) fun _ => ?_)
  · refine h.read (spread_reads hn) fun element u h _ => .check (.ite (fun _ => h.give (by simp) (by simp)) fun _ => ?_)
    exact h.read .nonPattern fun _ v h _ => h.expect fun w h => h.give (by simp) (by simp)
  · refine h.read hn.assignment.inherit fun element u h _ => .check ?_
    exact h.settleUnless .expect fun v h => h.give (by simp) (by simp)

theorem arrayLiteral_reads : L.Reads (arrayLiteral nested) := fun s h => by
  refine .mark (h.expect fun t h => h.read (.itemsBefore (arrayElement_reads hn)) fun elements u h _ => ?_)
  exact h.expect fun v h => h.finish rfl (by simp [Kind.children])

omit hn in
theorem checkAsyncWord_reads : L.Reads checkAsyncWord := fun s h =>
  .get (.check (.check (.check (h.give (by simp) (by simp)))))

theorem objectMemberHead_reads : L.Reads (objectMemberHead nested) := fun s h => by
  have first := h.seen
  refine .mark (.ahead (.ite (fun _ => ?_) fun _ => h.accept fun b t h => .ite (fun _ => ?_) fun _ => ?_))
  · refine h.skip fun t h => .check (h.read checkAsyncWord_reads fun b u h _ => h.accept fun generator v h => ?_)
    have key (start : Place) (isWord : Bool) : L.Reads (nameOrKey nested start s.lookahead isWord) := fun w h =>
      .ite (fun _ => h.last (propertyKey_reads hn) (by simp)) fun _ => h.finish rfl (by simp [Kind.children])
    exact h.read (key _ _) fun key w h _ => h.give (by simp) (by simpa using first)
  · exact h.give (by simp) (by simpa using first)
  · exact h.read (keyAndForm_reads hn) fun (key, computed) u h _ => h.give (by simp) (by simpa using first)

theorem shorthandValue_reads (start : Place) (name : Token) : L.Reads (shorthandValue nested start name) :=
  fun s h => by
  refine h.node [] rfl (by simp [Kind.children]) fun target t _ h =>
    .ahead (.ite (fun _ => ?_) fun _ => h.give (by simp) (by simp))
  have pending := h.seen
  refine h.read (.modifyCover fun _ u hu => .inr (by cases hu; exact pending)) fun _ u h _ => h.skip fun v h => ?_
  exact h.read hn.assignment.isolate fun value w h _ => h.finish rfl (by simp +arith [Kind.children])

theorem keyedProperty_gives (hasProto : Bool) (start : Place) {head : MemberHead} {key : Node}
    (h : L.Held .ahead base (key :: l) s) :
    L.Safe (keyedProperty nested hasProto start head key) s (L.Gives .ahead base l) := by
  have property {value : Node} {method shorthand isProto : Bool} {t : ParseState}
      (h : L.Held .ahead base (nodes value ++ key :: l) t) : L.Safe (do
        return (← finish start (.property .init key value head.computed method shorthand), isProto)) t
          (L.Gives .ahead base l) :=
    h.node l rfl (by simp +arith [Kind.children]) fun n u _ h => h.give (by simp) (by simp)
  refine .check (.ite (fun _ => ?_) fun _ => .check (.ite (fun _ => ?_) fun _ => .ite (fun _ => ?_) fun _ => ?_))
  · refine h.settleIf .tolerateHere fun t h => h.skip fun u h => ?_
    exact h.read hn.assignment.inherit fun value v h _ => property h
  · exact h.read (method_reads hn _ _) fun value t h _ => property h
  · exact h.read (shorthandValue_reads hn _ _) fun value t h _ => property h
  · exact h.next fun t ht => ht.failAt h.seen

theorem objectMember_reads (hasProto : Bool) : L.Reads (objectMember nested hasProto) := fun s h => by
  refine .mark (h.read (objectMemberHead_reads hn) fun head t h _ => h.read (wordedMember_reads hn head)
    fun m u h _ => ?_)
  cases m with
  | some m => exact h.node [] rfl (by simp +arith [Kind.children]) fun n v _ h => h.give (by simp) (by simp)
  | none =>
    obtain ⟨token, key, computed, static, async, generator⟩ := head
    cases key with
    | some key => exact keyedProperty_gives hn _ _ (by simpa using h)
    | none => exact h.failAhead

theorem objectLiteral_reads : L.Reads (objectLiteral nested) := fun s h => by
  refine .mark (h.expect fun t h => ?_)
  refine h.loop (σ := List Node × Bool) [] (by simp) (by simp) (fun (members, hasProto) u h _ => ?_)
    fun (members, hasProto) u h _ => h.expect fun v h => h.finish rfl (by simp [Kind.children])
  refine .check (.ite (fun _ => h.give (by simp) (by simp)) fun _ => .check (.ite (fun _ => ?_) fun _ => ?_))
  · refine h.read (spread_reads hn) fun member v h _ => .value (.check ?_)
    exact h.settleUnless .expectSeparator fun w h => h.give (by simp) (by simp)
  · refine h.read (objectMember_reads hn _) fun (member, isProto) v h _ => .check ?_
    exact h.settleUnless .expectSeparator fun w h => h.give (by simp) (by simp)

end

end Ledger

end EcmaTree
