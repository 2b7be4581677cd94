import EcmaTree.Proofs.Grammar.Program
import EcmaTree.Proofs.Tokens

/-!
# Courses of parses

The measure of a parse is how much of the source is left behind the place from which it reads on: behind the beginning
of the lookahead, or behind the scanner inside of an element of JSX. That place never goes back, though the scanner
does. A production whose nested ones are sound on what is left behind the next token is sound itself, and a loop that
consumes something in each round ends before its bound is used up. The modules below `EcmaTree.Proofs.Course` prove
that no production uses up a bound.
-/

namespace EcmaTree

open Cursor (Reaches)

/-- If the parse does not stop at an error of the source, its result satisfies `Q` together with the state behind it. No
bound is used up. -/
def Judgement.ending : Judgement where
  Ensures p s Q :=
    match p s with
    | .ok a t => Q a t
    | .error (.syntaxError _) _ => True
    | .error .exhausted _ => False
  ofPure h := h
  ofBind {α β p f s Q} h := by
    cases hp : p s with
    | ok a t =>
      rw [hp] at h
      rw [Parse.bind_of_ok hp]
      exact h
    | error e t =>
      rw [hp] at h
      rw [Parse.bind_of_error hp]
      cases e <;> exact h
  mono {α p s Q R} h hQR := by
    split at h
    · exact hQR _ _ h
    · trivial
    · exact h
  ofThrow := trivial
  ofGet _ h := h
  ofModify _ h := h
  ofTolerate e s := by
    rw [Parse.tolerate_eq]
    split
    next h =>
      split at h <;> cases h
      rfl
    · trivial
    next h => split at h <;> cases h
  ofLookAhead {α probe s Q} h := by
    rw [Parse.scan_lookAhead_eq]
    generalize Parse.scan probe s = r at h
    rcases r with ⟨a, t⟩ | ⟨_ | _, t⟩
    · exact ⟨t, h, rfl⟩
    · trivial
    · exact h

/-! ## Events -/

/-- Is the kind that of a specifier with two names? -/
def Kind.isSpecifier {α : Type} : Kind α → Bool
  | .importSpecifier .. | .exportSpecifier .. => true
  | _ => false

/-- Events in which the one name of a specifier without `as` is finished right before the specifier, clear of all
comments that have been passed by then. -/
inductive Regular : List ParseEvent → Prop
  | nil : Regular []
  | comment {es : List ParseEvent} (c : Comment) : Regular es → Regular (es ++ [.comment c])
  | node {es : List ParseEvent} {n : Node} (e : Extent) : n.kind.isSpecifier = false → Regular es →
      Regular (es ++ [.node n e])
  | renamed {es : List ParseEvent} {n x y : Node} (e : Extent) :
      n.kind = .importSpecifier x y ∨ n.kind = .exportSpecifier x y → x.info.extent ≠ y.info.extent → Regular es →
      Regular (es ++ [.node n e])
  | named {es : List ParseEvent} {n x : Node} {e : Extent} {text : String} :
      n.kind = .importSpecifier x x ∨ n.kind = .exportSpecifier x x → x.kind = .identifier text →
        x.info.extent = some e →
      (∀ c ∈ ParseEvent.comments es, c.stop ≤ e.start.offset ∨ e.start.offset < c.start) → Regular es →
      Regular (es ++ [.node x e, .node n e])

theorem Regular.comments {es : List ParseEvent} (h : Regular es) (cs : List Comment) :
    Regular (es ++ cs.map ParseEvent.comment) := by
  induction cs generalizing es with
  | nil => simpa using h
  | cons c cs ih => simpa using ih (h.comment c)

/-- Comments stand where they were passed. -/
theorem Passed.between {c d : Cursor} {comments : List Comment} (h : Passed c comments d) :
    ∀ k ∈ comments, c.offset ≤ k.start ∧ k.stop ≤ d.offset := by
  induction h with
  | refl => nofun
  | space _ _ _ hoffset _ ih =>
    intro k hk
    have := ih k hk
    omega
  | comment hd _ hstart hstop passed ih =>
    rintro k hk
    have first := hd.offset_le
    have rest := passed.reaches.offset_le
    rcases List.mem_cons.1 hk with rfl | hk
    · omega
    · have := ih k hk
      omega

/-! ## Where a parse has come to -/

namespace ParseState

/-- The offset from which the parse reads on. -/
def site (s : ParseState) : Mode → Nat
  | .ahead => s.start.offset
  | .entering | .inside => s.scanner.cursor.offset

@[simp] theorem site_ahead (s : ParseState) : s.site .ahead = s.start.offset := rfl

@[simp] theorem site_inside (s : ParseState) : s.site .inside = s.scanner.cursor.offset := rfl

theorem Rests.site {s t : ParseState} (h : s.Rests t) (m : Mode) : t.site m = s.site m := by
  obtain ⟨_, _, _, _, _, rfl, _⟩ := h
  cases m <;> rfl

end ParseState

namespace Course

open Parse
open Tokens (reported)

/-- The run comes to an end, and what it gives back satisfies `Q`. -/
abbrev Ends {α : Type} (p : Parse α) (s : ParseState) (Q : α → ParseState → Prop) : Prop :=
  Judgement.ending.Ensures p s Q

variable {text : String} {m o : Mode} {n base : Nat} {r : Bool} {s t u : ParseState}

/-- Where a parse of the text stands: loops may go round more often than there are bytes, and all comments that have
been passed end before what is read next. -/
structure Stands (text : String) (m : Mode) (s : ParseState) : Prop where
  placed : s.Placed (.ofString text) m
  complete : s.Complete
  bound : text.utf8ByteSize + 2 ≤ s.bound
  regular : Regular s.record.events.toList
  passed : ∀ c ∈ reported s, c.stop ≤ s.site m

/-- The parse has come from one offset to another, and has consumed something if `read`. -/
def Moved (read : Bool) (start stop : Nat) : Prop := if read then start < stop else start ≤ stop

/-- What is known in the midst of a production that began at the offset `base`. There are fewer than `n` bytes left
behind it. -/
structure Held (text : String) (n : Nat) (m : Mode) (read : Bool) (base : Nat) (s : ParseState) : Prop where
  stands : Stands text m s
  moved : Moved read base (s.site m)
  room : text.utf8ByteSize - base < n

/-- The action leads from one way to stand to another and comes to an end, where fewer than `n` bytes are left. It
consumes something if `read`. -/
def Leads (text : String) (n : Nat) (m o : Mode) (read : Bool) {α : Type} (p : Parse α) : Prop :=
  ∀ s, Held text n m false (s.site m) s → Ends p s fun _ t => Held text n o read (s.site m) t

/-- The production consumes something, with a token ahead before and behind it. -/
abbrev Reads (text : String) (n : Nat) {α : Type} (p : Parse α) : Prop := Leads text n .ahead .ahead true p

/-- The production may consume nothing. -/
abbrev Passes (text : String) (n : Nat) {α : Type} (p : Parse α) : Prop := Leads text n .ahead .ahead false p

end Course

end EcmaTree
