import EcmaTree.Proofs.Advance

/-!
# Partial correctness

The judgement that says nothing of a parse that stops, and what the actions that depend on tolerant mode do for it.
-/

namespace EcmaTree

theorem eq_ok_of_run' {ε σ α : Type} {p : EStateM ε σ α} {s : σ} {a : α} (h : p.run' s = some a) :
    ∃ t, p s = .ok a t := by
  delta EStateM.run' EStateM.run at h
  cases hp : p s with
  | error e t =>
    rw [hp] at h
    cases h
  | ok b t =>
    rw [hp] at h
    cases h
    exact ⟨t, rfl⟩

namespace ParseState

/-- The lookahead is consumed, and an error tells that it stood where it may not. -/
def PassesOver (s t : ParseState) : Prop :=
  ∃ u, s.Advances u ∧ t = { u with scanner.errors := u.scanner.errors ++ [u.unexpected s.lookahead] }

theorem PassesOver.advances {s t : ParseState} : s.PassesOver t → ∃ u, s.Advances u ∧ u.Rests t
  | ⟨u, hu, ht⟩ => ⟨u, hu, u.context, u.labels, u.cover, u.scanner.regions, _, ht, List.prefix_append _ _⟩

end ParseState

namespace Parse

variable {α β : Type} {p : Parse α} {f : α → Parse β} {s t : ParseState} {a : α} {b : β} {u : ParseState}

theorem bind_eq_ok : (p >>= f) s = .ok b u ↔ ∃ a t, p s = .ok a t ∧ f a t = .ok b u := by
  simp only [bind, EStateM.bind]
  cases p s <;> simp [and_assoc]

theorem get_bind (f : ParseState → Parse β) (s : ParseState) : (get >>= f) s = f s s := rfl

theorem bind_of_ok (h : p s = .ok a t) : (p >>= f) s = f a t := by
  simp only [bind, EStateM.bind, h]

theorem bind_of_error {e : Failure} (h : p s = .error e t) : (p >>= f) s = .error e t := by
  simp only [bind, EStateM.bind, h]

theorem tolerate_eq (e : SyntaxError) (s : ParseState) : tolerate e s =
    if s.scanner.tolerant then .ok () { s with scanner.errors := s.scanner.errors ++ [e] }
    else .error (.syntaxError e) s := by
  rw [tolerate, Scan.tolerate, scan_get_bind]
  rw [get_bind]
  split <;> rfl

theorem scan_lookAhead_eq (probe : Scan α) (s : ParseState) : scan (Scan.lookAhead probe) s =
    match scan probe s with
    | .ok a u => .ok a { u with scanner := u.scanner.rewind s.scanner.bookmark }
    | .error e u => .error e { u with scanner := u.scanner.rewind s.scanner.bookmark } := by
  simp only [scan, Scan.lookAhead]
  cases probe s.scanner <;> rfl

theorem scan_lookAhead_eq_ok {probe : Scan α} : scan (Scan.lookAhead probe) s = .ok a t ↔
    ∃ u, scan probe s = .ok a u ∧ t = { u with scanner := u.scanner.rewind s.scanner.bookmark } := by
  rw [scan_lookAhead_eq]
  cases scan probe s <;> simp [and_assoc, eq_comm]

end Parse

namespace Judgement

open Parse

variable {J : Judgement} {α : Type} {s : ParseState}

theorem Ensures.passOver : J.Ensures passOver s fun _ t => s.PassesOver t := by
  refine Judgement.bind .next ?_
  rintro _ u ⟨rfl, hu⟩
  exact .get (fun _ => rfl) (J.mono (J.ofTolerate _ u) fun _ t ht => ⟨u, hu, ht⟩)

theorem Ensures.expect {p : Punctuator} :
    J.Ensures (expect p) s fun _ t => s.lookahead.isPunctuator p = true ∧ s.Advances t := by
  refine Judgement.bind .next ?_
  rintro _ t ⟨rfl, ht⟩
  exact .ite (fun hp => J.ofPure ⟨hp, ht⟩) fun _ => .failAt

/-- If the parse does not stop, its result satisfies `Q` together with the state behind it. -/
def onSuccess : Judgement where
  Ensures p s Q := ∀ a t, p s = .ok a t → Q a t
  ofPure h := by
    rintro _ _ ⟨⟩
    exact h
  ofBind h b u hb := by
    obtain ⟨a, t, ha, hb⟩ := bind_eq_ok.1 hb
    exact h a t ha b u hb
  mono h hQR a t ha := hQR a t (h a t ha)
  ofThrow _ _ h := by cases h
  ofGet _ h := h
  ofModify _ h := by
    rintro _ _ ⟨⟩
    exact h
  ofTolerate e s _ t h := by
    rw [tolerate_eq] at h
    split at h <;> cases h
    rfl
  ofLookAhead h a t ht := by
    obtain ⟨u, hu, ht⟩ := scan_lookAhead_eq_ok.1 ht
    exact ⟨u, h a u hu, ht⟩

namespace onSuccess

instance : onSuccess.Loose := ⟨fun _ _ h => by cases h⟩

/-- Partial correctness may look at the mode. -/
theorem get {f : ParseState → Parse α} {Q : α → ParseState → Prop} (h : onSuccess.Ensures (f s) s Q) :
    onSuccess.Ensures (get >>= f) s Q := h

/-- Two facts about one run. -/
theorem and {p : Parse α} {Q R : α → ParseState → Prop} (hq : onSuccess.Ensures p s Q) (hr : onSuccess.Ensures p s R) :
    onSuccess.Ensures p s fun a t => Q a t ∧ R a t := fun a t h => ⟨hq a t h, hr a t h⟩

theorem expectSeparator : onSuccess.Ensures expectSeparator s fun _ t =>
    s.lookahead.isPunctuator .arrow = false ∧ (∃ u, s.Advances u ∧ u.Rests t) ∨ s.Rests t := by
  have not_arrow {p : Punctuator} (hp : s.lookahead.isPunctuator p = true) (hne : p ≠ .arrow) :
      s.lookahead.isPunctuator .arrow = false := by
    rw [Token.isPunctuator_iff] at hp
    simpa [Token.isPunctuator, hp] using hne
  refine get (.ite (fun _ => ?_) fun _ => .ite (fun hp => ?_) fun _ => .ite (fun hp => ?_) fun _ => ?_)
  · refine onSuccess.mono .expect fun _ t ht => ?_
    exact .inl ⟨not_arrow ht.1 (by decide), t, ht.2, .refl t⟩
  · exact onSuccess.mono .skip fun _ t ht => .inl ⟨not_arrow hp (by decide), t, ht, .refl t⟩
  · exact onSuccess.mono .passOver fun _ t ht => .inl ⟨not_arrow hp (by decide), ht.advances⟩
  · exact onSuccess.mono (Settles.tolerateWith _ _ s) fun _ _ => .inr

theorem endDoWhile : onSuccess.Ensures endDoWhile s fun _ t =>
    s.lookahead.isPunctuator .rightParen = true ∧
      (∃ u, s.Advances u ∧ (u = t ∨ u.lookahead.isPunctuator .semicolon = true ∧ u.Advances t)) ∨
    s.dialect.tolerant = true ∧ s.PassesOver t := by
  refine .check (get (.ite (fun h => ?_) fun _ => ?_))
  · exact onSuccess.mono .passOver fun _ _ ht => .inr ⟨by simp_all, ht⟩
  · refine Judgement.bind .expect fun _ u ⟨hp, hu⟩ => ?_
    rw [discard_eq]
    refine Judgement.bind (P := fun _ t => u = t ∨ u.lookahead.isPunctuator .semicolon = true ∧ u.Advances t) ?_
      fun _ t ht => onSuccess.ofPure (.inl ⟨hp, u, hu, ht⟩)
    refine .check (.ite (fun hs => ?_) fun _ => onSuccess.ofPure (.inl rfl))
    exact Judgement.bind .skip fun _ t ht => onSuccess.ofPure (.inr ⟨hs, ht⟩)

theorem missingParen : onSuccess.Ensures missingParen s fun e t =>
    e = none ∧ t = s ∨ s.dialect.tolerant = true ∧ ∃ u n, s.PassesOver u ∧ e = some n ∧
      n = .mk (u.finishedInfo u.start.place) .emptyStatement ∧
      t = { u with finished := u.finished + 1, record := u.record.report (.node n ⟨u.start.place, u.last⟩) } := by
  refine get (.ite (fun _ => onSuccess.ofPure (.inl ⟨rfl, rfl⟩)) fun h => ?_)
  refine Judgement.bind .passOver fun _ u hu => .mark (Judgement.bind .finish ?_)
  rintro n t ⟨hn, ht⟩
  exact onSuccess.ofPure (.inr ⟨by simp_all, u, n, hu, rfl, hn, hn ▸ ht⟩)

end onSuccess

end Judgement

end EcmaTree
