/-!
# Places in a source text

Offsets and columns count UTF-8 bytes. Lines are numbered from one and columns from zero. A `Span` is
a range of offsets, a `Place` an offset together with its line and column, and an `Extent` the two
places between which something stands.

Offsets in the text are whole numbers. What is kept of them in a range or a column is a word of 32 bits, which
loses what is above (`inWord`). The number of a line is counted up in such a word, and starts again from zero behind as
many lines.
-/

namespace EcmaTree

/-- What a word of 32 bits holds of a number. -/
def inWord (n : Nat) : Nat := n.toUInt32.toNat

theorem inWord_lt (n : Nat) : inWord n < UInt32.size := n.toUInt32.toNat_lt

theorem inWord_eq_mod (n : Nat) : inWord n = n % UInt32.size := UInt32.toNat_ofNat'

theorem inWord_le (n : Nat) : inWord n ≤ n := inWord_eq_mod n ▸ Nat.mod_le ..

/-- What is lost of a part is lost of the sum. -/
theorem inWord_inWord_add (m n : Nat) : inWord (inWord m + n) = inWord (m + n) := by
  simp only [inWord_eq_mod, Nat.mod_add_mod]

/-- A number that fits is held as it is. -/
theorem inWord_eq {n : Nat} (h : n < UInt32.size) : inWord n = n := by
  rw [inWord_eq_mod, Nat.mod_eq_of_lt h]

/-- A range of byte offsets, its end excluded (`Span`). -/
structure Span where
  start : Nat
  stop : Nat
  deriving DecidableEq, Repr, Inhabited

namespace Span

/-- The span that holds no byte and stands at `offset` (`empty`). -/
def emptyAt (offset : Nat) : Span := ⟨offset, offset⟩

/-- The number of bytes in the span (`len`). -/
def length (s : Span) : Nat := s.stop - s.start

/-- The span as it is kept: in words of 32 bits. -/
def inWords (s : Span) : Span := ⟨inWord s.start, inWord s.stop⟩

theorem inWords_eq {s : Span} (h : s.start < UInt32.size) (h' : s.stop < UInt32.size) : s.inWords = s := by
  rw [inWords, inWord_eq h, inWord_eq h']

/-- Does the span hold no byte (`is_empty`)? -/
def isEmpty (s : Span) : Bool := s.start == s.stop

/-- Does `s` reach from the start of `t`, or before, to its end, or beyond (`covers`)? -/
def covers (s t : Span) : Bool := decide (s.start ≤ t.start) && decide (t.stop ≤ s.stop)

theorem covers_iff {s t : Span} : s.covers t = true ↔ s.start ≤ t.start ∧ t.stop ≤ s.stop := by
  simp [covers]

theorem covers_refl (s : Span) : s.covers s = true := by simp [covers_iff]

theorem covers_trans {s t u : Span} (h : s.covers t = true) (h' : t.covers u = true) :
    s.covers u = true := by
  simp only [covers_iff] at *
  omega

end Span

/-- A line, counted from one, and a column, counted in bytes from zero (`Position`). -/
structure Position where
  line : Nat
  column : Nat
  deriving DecidableEq, Repr, Inhabited

/-- A byte offset with the line and column it falls on (`Marker`). -/
structure Place where
  offset : Nat
  line : Nat
  column : Nat
  deriving DecidableEq, Repr, Inhabited

/-- The line and column alone (`position`). -/
def Place.position (p : Place) : Position := ⟨p.line, p.column⟩

/-- Where something starts and where it ends. -/
structure Extent where
  start : Place
  stop : Place
  deriving DecidableEq, Repr, Inhabited

/-- The byte offsets alone, as they are kept. -/
def Extent.span (e : Extent) : Span := Span.inWords ⟨e.start.offset, e.stop.offset⟩

/-- Offsets that fit are kept as they are. -/
theorem Extent.span_eq {e : Extent} (h : e.start.offset < UInt32.size) (h' : e.stop.offset < UInt32.size) :
    e.span = ⟨e.start.offset, e.stop.offset⟩ := Span.inWords_eq h h'

/-- The lines and columns between which something stands, and the name of its source, if that is known
(`SourceLocation`). -/
structure SourceLocation where
  start : Position
  stop : Position
  source : Option String := none
  deriving DecidableEq, Inhabited

/-- What an item of a result says of its place: nothing that is not asked for (`Metadata`). -/
structure Placement where
  range : Option Span := none
  loc : Option SourceLocation := none
  deriving DecidableEq, Inhabited

end EcmaTree
