import EcmaTree.Grammar.Object
import EcmaTree.Proofs.Grammar.Function

/-!
# Classes, array and object literals

The words before a member hold its key, if it has been read.
-/

namespace EcmaTree

instance : HasNodes Parse.MemberHead := ⟨fun head => nodes head.key⟩

instance : HasNodes Parse.MemberRest := ⟨fun m => [m.key, m.value]⟩

namespace Judgement.Settles

open Parse

variable {J : Judgement}

theorem checkMemberName (hasConstructor : Bool) (head : MemberHead) (m : MemberRest) :
    J.Settles (checkMemberName hasConstructor head m) := by
  refine .ite (.pure _) (.ite ?_ (.ite ?_ (.pure _)))
  · exact .ite (.bind (.failWith _ _) fun _ => .pure _) (.pure _)
  · refine .ite (.bind (.failWith _ _) fun _ => ?_) ?_
    · exact .ite (.bind (.failWith _ _) fun _ => .pure _) (.pure _)
    · exact .ite (.bind (.failWith _ _) fun _ => .pure _) (.pure _)

end Judgement.Settles

namespace Contract

open Parse

@[simp] theorem nodes_head (head : MemberHead) : nodes head = head.key.toList := by
  show nodes head.key = _
  simp

@[simp] theorem nodes_rest (m : MemberRest) : nodes m = [m.key, m.value] := rfl

variable {K : Contract} {nested : Nested} (hn : K.Sound nested)
include hn

/-! ## Members -/

theorem keyAndForm_reads : K.Reads (keyAndForm nested) := fun _ hs =>
  .check ((K.start hs).read (propertyKey_reads hn) fun key t h => h.give (by simp))

theorem staticHead_held {head : MemberHead} {base s : ParseState}
    (h : K.Held .ahead true base (nodes head) s) :
    K.Ensures (staticHead nested head) s fun head t => K.Held .ahead true base (nodes head) t := by
  refine .ahead (.ite (fun _ => .check (h.accept (fun t h => ?_) fun _ => ?_)) fun _ => h.give (by simp))
  · exact .pos rfl (h.give (by simp))
  · exact .neg nofun (h.read (propertyKey_reads hn) fun key t h => h.give (by simp))

/-- Behind the word `async` and the star of a generator. -/
theorem asyncKey_held {head : MemberHead} {generator : Bool} {base s : ParseState}
    (h : K.Held .ahead true base (nodes head) s) : K.Ensures (do
      let t ← ahead
      let (key, computed) ← keyAndForm nested
      if t.isIdentifierNamed "constructor" then tolerateWith t .asyncConstructor
      return { head with token := t, key := some key, computed, async := true, generator }) s
        fun head t => K.Held .ahead true base (nodes head) t := by
  refine .ahead (h.read (keyAndForm_reads hn) ?_)
  rintro ⟨key, computed⟩ u h
  exact h.settleIf (.tolerateWith _ _) fun v h => h.give (by simp)

theorem asyncHead_held {head : MemberHead} {base s : ParseState}
    (h : K.Held .ahead true base (nodes head) s) :
    K.Ensures (asyncHead nested head) s fun head t => K.Held .ahead true base (nodes head) t := by
  refine .get (fun _ => rfl) (.check (.check (.ite (fun _ => ?_) fun _ => h.give (by simp))))
  exact h.accept (fun t h => asyncKey_held hn h) fun _ => asyncKey_held hn h

theorem memberHead_reads : K.Reads (memberHead nested) := by
  intro s hs
  refine .ahead ((K.start hs).accept (fun t h => .pos rfl (h.give (by simp))) fun _ => .neg nofun ?_)
  refine (K.start hs).read (keyAndForm_reads hn) fun (key, computed) t h => ?_
  refine Judgement.bind (staticHead_held hn (h.mono (by simp))) fun head u h => ?_
  exact asyncHead_held hn h

theorem keyAndRest_reads {rest : Parse Node} (hrest : K.Closes rest) (kind : MethodKind) (isMethod : Bool) :
    K.Reads (keyAndRest nested kind isMethod rest) := fun _ hs =>
  (K.start hs).read (keyAndForm_reads hn) fun (key, computed) t h => h.read hrest.reads fun value u h =>
    h.give (by simp)

theorem wordedMember_passes (head : MemberHead) : K.Passes (wordedMember nested head) := by
  intro s hs
  have passes {p : Parse (Option MemberRest)} (h : K.Reads p) : K.Passes p := fun s hs =>
    K.mono (h s hs) fun _ _ h => h.reading
  refine .ahead (.ite (fun _ => (K.start hs).give (by simp)) fun _ => .ite (fun _ => ?_)
    fun _ => .ite (fun _ => ?_) fun _ =>
    .ite (fun _ => ?_) fun _ => (K.start hs).give (by simp))
  · exact passes (keyAndRest_reads hn (accessor_closes hn .checkGetter) _ _) s hs
  · exact passes (keyAndRest_reads hn (accessor_closes hn .checkSetter) _ _) s hs
  · exact passes (keyAndRest_reads hn (generatorMethod_closes hn) _ _) s hs

theorem keyedMember_held {head : MemberHead} {base s : ParseState} {r : Bool} {ns : List Node}
    (h : K.Held .ahead r base ns s) (hhead : ∀ n ∈ nodes head, n ∈ ns) :
    K.Ensures (keyedMember nested head) s fun m t => K.Held .ahead r base (nodes m) t := by
  unfold keyedMember
  split
  · exact h.give (by simp)
  next key hkey =>
    refine .check (.ite (fun _ => ?_) fun _ => h.give (by simp))
    refine h.read (method_closes hn _ _).reads.withContext fun value t h => h.reading.give ?_
    simp_all

theorem memberRest_held {head : MemberHead} {base s : ParseState} (h : K.Held .ahead true base (nodes head) s) :
    K.Ensures (memberRest nested head) s fun m t => K.Held .ahead true base (nodes m) t := by
  refine h.pass (wordedMember_passes hn head) fun m t h => ?_
  cases m with
  | some m => exact h.give (by simp)
  | none => exact keyedMember_held hn h (by simp)

theorem classMember_reads (hasConstructor : Bool) : K.Reads (classMember nested hasConstructor) := by
  intro s hs
  refine .mark ((K.start hs).read (memberHead_reads hn) fun head t h => ?_)
  refine Judgement.bind (memberRest_held hn (h.mono (by simp))) fun m u h => ?_
  cases m with
  | none => exact .failAhead
  | some m =>
    exact h.settle (.checkMemberName _ _ _) fun isConstructor v h => h.node rfl (by simp [Kind.children])
      fun n w _ h => h.give (by simp)

/-! ## Classes -/

theorem classBody_reads : K.Reads (classBody nested) := by
  intro s hs
  refine .mark ((K.start hs).expect fun t h => ?_)
  refine h.loop (l := []) (by simp) (fun (members, hasConstructor) u h => ?_) fun (members, hasConstructor) u h =>
    h.expect fun v h => h.finish rfl (by simp [Kind.children])
  refine .check (.ite (fun _ => h.give (by simp)) fun _ => h.accept (fun v h => .pos rfl (h.give (by simp)))
    fun _ => .neg nofun ?_)
  exact h.read (classMember_reads hn _) fun (member, isConstructor) v h => h.give (by simp)

theorem classTail_reads : K.Reads (classTail nested) := by
  intro s hs
  refine .checkKeyword (.ite (fun hextends => ?_) fun _ => .value ?_)
  · refine (K.start hs).skip (ParseState.not_arrow_of_keyword hextends) fun t h => ?_
    refine h.read hn.callChain.isolate fun superClass u h => .value ?_
    exact h.read (classBody_reads hn) fun body v h => h.give (by simp)
  · exact (K.start hs).read (classBody_reads hn) fun body t h => h.give (by simp)

omit hn in
theorem className_passes (form : ClassForm) (nameIsOptional : Bool) : K.Passes (className form nameIsOptional) := by
  intro s hs
  refine .ahead (.ite (fun _ => ?_) fun _ => .ite (fun _ => (K.start hs).give (by simp)) fun _ => ?_)
  · exact (K.start hs).read (bindingName_reads none) fun name t h => h.reading.give (by simp)
  · exact (K.start hs).read (bindingName_reads none) fun name t h => h.reading.give (by simp)

/-- The name, what the class extends, and the body. -/
theorem classParts_reads (form : ClassForm) (nameIsOptional : Bool) : K.Reads (do
    expectKeyword "class"
    let name ← className form nameIsOptional
    let (superClass, body) ← classTail nested
    return (name, superClass, body)) := by
  intro s hs
  refine (K.start hs).expectKeyword fun t h => h.pass (className_passes _ _) fun name u h => ?_
  refine h.read (classTail_reads hn) ?_
  rintro ⟨superClass, body⟩ v h
  exact h.give (by simp; grind)

theorem classOf_reads (form : ClassForm) (nameIsOptional : Bool) : K.Reads (classOf nested form nameIsOptional) := by
  intro s hs
  refine .mark ((K.start hs).read (classParts_reads hn form nameIsOptional).withContext ?_)
  rintro ⟨name, superClass, body⟩ t h
  exact h.finish rfl (by simp [Kind.children])

/-! ## Array and object literals -/

theorem spread_reads : K.Reads (spread nested) := by
  intro s hs
  refine .mark ((K.start hs).expect fun t h => ?_)
  exact h.read hn.assignment.inherit fun argument u h => h.finish rfl (by simp [Kind.children])

theorem arrayElement_reads : K.Reads (arrayElement nested) := by
  intro s hs
  refine (K.start hs).accept (fun t h => .pos rfl (h.give (by simp))) fun _ =>
    .neg nofun (.check (.ite (fun _ => ?_) fun _ => ?_))
  · refine (K.start hs).read (spread_reads hn) fun element t h => .check (.ite (fun _ => h.give (by simp)) fun _ => ?_)
    exact h.settle .nonPattern fun _ u h => h.expect fun v h => h.give (by simp)
  · refine (K.start hs).read hn.assignment.inherit fun element t h =>
      .check (.ite (fun _ => h.give (by simp)) fun _ => ?_)
    exact h.expect fun u h => h.give (by simp)

theorem arrayLiteral_reads : K.Reads (arrayLiteral nested) := by
  intro s hs
  refine .mark ((K.start hs).expect fun t h => ?_)
  refine h.pass (itemsBefore_leads (arrayElement_reads hn)) fun elements u h => ?_
  exact h.expect fun v h => h.finish rfl (by simp [Kind.children])

omit hn in
theorem checkAsyncWord_settles : K.Settles checkAsyncWord :=
  .get (fun _ => rfl) fun _ => .bind (.check _) fun _ => .bind (.check _) fun _ => .bind (.check _) fun _ => .pure _

/-- The member begins with the name, whatever becomes its key. -/
theorem nameOrKey_held {start : Place} {name : Token} {isWord : Bool} {base s : ParseState}
    (h : K.Held .ahead true base [] s) (hstart : base.Marks start) (tells : K.Tells base (.word name.text) s) :
    K.Ensures (nameOrKey nested start name isWord) s fun key t =>
      K.Held .ahead true base (nodes key) t ∧ K.Tells base (.word name.text) t := by
  refine .ite (fun _ => ?_) fun _ => ?_
  · refine K.mono (propertyKey_reads hn s h.stands) fun key t ht => ⟨?_, K.tells_steps tells ht.moved.steps⟩
    simpa using h.trans ht
  · exact K.mono (h.leafFrom hstart rfl tells) fun key t ⟨h, steps, _⟩ => ⟨h, K.tells_steps tells steps⟩

theorem objectMemberHead_held {s : ParseState} (hs : K.Stands .ahead s) :
    K.Ensures (objectMemberHead nested) s fun head t => K.Held .ahead true s (nodes head) t ∧
      (head.token.isIdentifier = true → K.Tells s (.word head.token.text) t) := by
  have named {computed async generator : Bool} {u : ParseState} (h : K.Held .ahead true s [] u)
      (tells : K.Tells s (.word s.lookahead.text) u) : K.Ensures (do
        return {
          token := s.lookahead, key := some (← nameOrKey nested s.start.place s.lookahead async)
          computed, async, generator })
        u fun (head : MemberHead) v => K.Held .ahead true s (nodes head) v ∧
            (head.token.isIdentifier = true → K.Tells s (.word head.token.text) v) :=
    Judgement.bind (nameOrKey_held hn h (.inl rfl) tells) fun key v ⟨h, tells⟩ =>
      K.ofPure ⟨h.mono (by simp), fun _ => tells⟩
  refine .mark (.ahead (.ite (fun hname => ?_) fun hname => ?_))
  · refine takeSkip hs (.refl s) (ParseState.not_arrow_of hname (fun _ => rfl)) fun t h => .check ?_
    refine Judgement.bind (checkAsyncWord_settles t) fun _ u hu => ?_
    have h := h.rests hu
    have tells := h.tells _ (.word (.inl (Token.isName_of_word (.inl hname))))
    refine (K.start h.stands).accept (fun v hv => ?_) fun _ => named h.toHeld tells
    exact named (by simpa using h.toHeld.trans hv) (K.tells_steps tells hv.moved.steps)
  · refine (K.start hs).accept (fun t h => .pos rfl (K.ofPure ⟨h.mono (by simp), fun h => absurd h hname⟩))
      fun _ => .neg nofun ?_
    exact (K.start hs).read (keyAndForm_reads hn) fun (key, computed) t h =>
      K.ofPure ⟨h.mono (by simp), fun h => absurd h hname⟩

theorem shorthandValue_held {start : Place} {name : Token} {base s : ParseState} {ns : List Node}
    (h : K.Held .ahead true base ns s) (hstart : base.Marks start) (tells : K.Tells base (.word name.text) s) :
    K.Ensures (shorthandValue nested start name) s fun n t => K.Held .ahead true base (nodes n ++ ns) t := by
  refine Judgement.bind (h.leafFrom hstart rfl tells) fun target t ⟨h, _⟩ =>
    .ahead (.ite (fun hassign => ?_) fun _ => h.give (by simp))
  refine Judgement.bind (Judgement.Settles.modifyCover _ t) fun _ u hu => (h.rests hu).skip ?_ fun v h => ?_
  · exact ParseState.not_arrow_of_punctuator (p := .assign) (hu.lookahead ▸ hassign)
  · refine h.read hn.assignment.isolate fun value w h => ?_
    rw [← bind_pure (finish _ _)]
    exact h.nodeFrom hstart rfl (by simp [Kind.children]) fun n x _ h => h.give (by simp +contextual)

theorem keyedProperty_held {hasProto : Bool} {start : Place} {head : MemberHead} {key : Node} {base s : ParseState}
    (h : K.Held .ahead true base [key] s) (hstart : base.Marks start)
    (tells : head.token.isIdentifier = true → K.Tells base (.word head.token.text) s) :
    K.Ensures (keyedProperty nested hasProto start head key) s fun p t => K.Held .ahead true base (nodes p) t := by
  have property {isProto method shorthand : Bool} {value : Node} {t : ParseState}
      (h : K.Held .ahead true base (nodes value ++ [key]) t) : K.Ensures (do
        return (← finish start (.property .init key value head.computed method shorthand), isProto)) t
          fun p u => K.Held .ahead true base (nodes p) u :=
    h.nodeFrom hstart rfl (by simp [Kind.children]) (fun n u _ h => h.give (by simp))
  have keyed {isProto : Bool} {t : ParseState} (ht : s.Rests t) (hcolon : s.lookahead.isPunctuator .colon = true) :
      K.Ensures (do
        skip
        let value ← inherit (nested .assignment)
        return (← finish start (.property .init key value head.computed false false), isProto)) t
          fun p u => K.Held .ahead true base (nodes p) u :=
    (h.rests ht).skip (ParseState.not_arrow_of_punctuator (p := .colon) (ht.lookahead ▸ hcolon)) fun u h =>
      h.read hn.assignment.inherit fun value v h => property h
  refine .check (.ite (fun hcolon => ?_) fun _ =>
    .check (.ite (fun _ => ?_) fun _ => .ite (fun hname => ?_) fun _ => ?_))
  · rw [Bool.and_eq_true] at hcolon
    refine .ite (fun _ => ?_) fun _ => keyed (.refl s) hcolon.1
    exact Judgement.bind (Judgement.Settles.tolerateHere _ s) fun _ t ht => keyed ht hcolon.1
  · exact h.read (method_closes hn _ _).reads fun value t h => property h
  · exact Judgement.bind (shorthandValue_held hn h hstart (tells hname)) fun value t h => property h
  · exact h.next fun t _ => .failAt

theorem objectMember_reads (hasProto : Bool) : K.Reads (objectMember nested hasProto) := by
  intro s hs
  refine .mark (Judgement.bind (objectMemberHead_held hn hs) fun head t ⟨h, tells⟩ => ?_)
  refine Judgement.bind (wordedMember_passes hn head t h.stands) fun m u hu => ?_
  have tells (hname : head.token.isIdentifier = true) := K.tells_steps (tells hname) hu.moved.steps
  have h := h.trans hu
  cases m with
  | some m => exact h.node rfl (by simp [Kind.children]) fun n v _ h => h.give (by simp)
  | none =>
    dsimp only
    split
    next key hkey => exact keyedProperty_held hn (h.mono (by simp [hkey])) (.inl rfl) tells
    · exact .failAhead

theorem objectLiteral_reads : K.Reads (objectLiteral nested) := by
  intro s hs
  refine .mark ((K.start hs).expect fun t h => ?_)
  refine h.loop (l := []) (by simp) (fun (members, hasProto) u h => ?_) fun (members, hasProto) u h =>
    h.expect fun v h => h.finish rfl (by simp [Kind.children])
  have separated {member : Node} {isProto : Bool} {v : ParseState}
      (h : K.Held .ahead true s (nodes member ++ nodes members) v) : K.Ensures (do
        unless ← check .rightBrace do expectSeparator
        return Progress.more (member :: members, hasProto || isProto)) v
          fun p w => K.Held .ahead true s (nodes p ++ []) w :=
    .check (.ite (fun _ => h.give (by simp)) fun _ => h.pass expectSeparator_passes fun _ w h => h.give (by simp))
  refine .check (.ite (fun _ => h.give (by simp)) fun _ => .check (.ite (fun _ => ?_) fun _ => ?_))
  · exact h.read (spread_reads hn) fun member v h => .value (separated (h.mono (by simp)))
  · exact h.read (objectMember_reads hn _) fun (member, isProto) v h => separated (h.mono (by simp))

end Contract

end EcmaTree
