import Mathlib.Data.List.Infix
import EcmaTree.Lexer.Jsx
import EcmaTree.Proofs.Lexer.Encodings

/-!
# Character references in attributes

The value of a string in a tag is the text between its quotes with each character reference replaced by its character.
What follows an ampersand is read up to a semicolon, or in a number up to the first character that is no digit, before
it is known whether it was a reference. What was none is kept as it is, and nothing in it is looked at again: a
reference that begins in it is kept too. Where that does not happen, the value is what it ought to be.
-/

namespace EcmaTree

open Cursor (Across)

namespace CharacterReference

variable {ch quote : Char} {cs ds name body left rest : List Char} {p : Char → Bool} {form : Form}

/-! ## References -/

/-- The character that the text stands for between an ampersand and a semicolon. -/
def denoted? : List Char → Option Char
  | '#' :: 'x' :: ds => if ds ≠ [] ∧ ds.all isHexDigit then ofNumber? (valueOf 16 ds) else none
  | '#' :: ds => if ds ≠ [] ∧ ds.all isDecimalDigit then ofNumber? (valueOf 10 ds) else none
  | name => named? (String.ofList name)

/-- The reference that begins with an ampersand before the text, if one does: its character, and what follows its
semicolon. -/
def reference? (cs : List Char) : Option (Char × List Char) :=
  match cs.dropWhile (· != ';') with
  | _ :: left => (denoted? (cs.takeWhile (· != ';'))).map (·, left)
  | [] => none

theorem all_of_not_mem (h : ';' ∉ cs) : cs.all (· != ';') = true :=
  List.all_eq_true.2 fun c hc => by simpa using fun he : c = ';' => h (he ▸ hc)

theorem reference?_of_semicolon (h : ';' ∉ name) :
    reference? (name ++ ';' :: left) = (denoted? name).map (·, left) := by
  have all := List.all_eq_true.1 (all_of_not_mem h)
  rw [reference?, List.dropWhile_append_of_pos all, List.takeWhile_append_of_pos all]
  simp

theorem reference?_of_not_mem (h : ';' ∉ cs) : reference? cs = none := by
  rw [reference?, List.dropWhile_eq_nil_iff.2 (List.all_eq_true.1 (all_of_not_mem h))]

theorem reference?_eq_some : reference? cs = some (ch, left) ↔ ∃ name, cs = name ++ ';' :: left ∧ ';' ∉ name ∧
    denoted? name = some ch := by
  constructor
  · intro h
    by_cases hmem : ';' ∈ cs
    · obtain ⟨name, behind, rfl, hname⟩ := List.eq_append_cons_of_mem hmem
      rw [reference?_of_semicolon hname, Option.map_eq_some_iff] at h
      obtain ⟨_, hdenoted, h⟩ := h
      cases h
      exact ⟨name, rfl, hname, hdenoted⟩
    · rw [reference?_of_not_mem hmem] at h
      cases h
  · rintro ⟨name, rfl, hname, hdenoted⟩
    rw [reference?_of_semicolon hname, hdenoted]
    rfl

/-- The text with each reference replaced by its character. Where an ampersand begins none, it is kept, with as many
of the characters behind it as `kept` says, whatever they are. -/
def expandBy (kept : List Char → Nat) : List Char → List Char
  | [] => []
  | ch :: rest =>
    if ch = '&' then
      match _h : reference? rest with
      | some (found, left) => found :: expandBy kept left
      | none => '&' :: rest.take (kept rest) ++ expandBy kept (rest.drop (kept rest))
    else ch :: expandBy kept rest
termination_by cs => cs.length
decreasing_by
  · obtain ⟨name, rfl, -⟩ := reference?_eq_some.1 _h
    grind
  · grind
  · grind

/-- The text with each reference replaced by its character, and all other text kept. -/
def expand : List Char → List Char := expandBy fun _ => 0

/-- The characters that satisfy `p`, and the next one. -/
def run (p : Char → Bool) (cs : List Char) : List Char := cs.takeWhile p ++ (cs.dropWhile p).take 1

/-- What is read behind an ampersand: a number sign, an `x` and the digits that follow, or all up to a semicolon, and in
each case the character that ends it. -/
def attempt : List Char → List Char
  | '#' :: 'x' :: ds => '#' :: 'x' :: run isHexDigit ds
  | '#' :: ds => '#' :: run isDecimalDigit ds
  | cs => run (· != ';') cs

/-- No reference begins in what is read behind an ampersand where none begins. -/
def Apart (body : List Char) : Prop :=
  ∀ rest, '&' :: rest <:+ body → reference? rest = none →
    ∀ behind, '&' :: behind <:+ attempt rest → reference? (behind ++ rest.drop (attempt rest).length) = none

theorem forall_suffix {P : List Char → Prop} :
    (∀ rest, ch :: rest <:+ cs → P rest) ↔ ∀ text ∈ cs.tails, text.head? = some ch → P text.tail := by
  constructor
  · intro h text htext hhead
    obtain ⟨rest, rfl⟩ := List.head?_eq_some_iff.1 hhead
    exact h rest ((List.mem_tails ..).1 htext)
  · exact fun h rest hrest => h (ch :: rest) ((List.mem_tails ..).2 hrest) rfl

instance decidableForallSuffix {P : List Char → Prop} [DecidablePred P] :
    Decidable (∀ rest, ch :: rest <:+ cs → P rest) :=
  decidable_of_iff _ forall_suffix.symm

instance decidableApart : DecidablePred Apart :=
  fun body => inferInstanceAs (Decidable (∀ rest, '&' :: rest <:+ body → reference? rest = none →
  ∀ behind, '&' :: behind <:+ attempt rest → reference? (behind ++ rest.drop (attempt rest).length) = none))

/-! ## What is read -/

theorem run_append (p : Char → Bool) (cs : List Char) : run p cs ++ (cs.dropWhile p).tail = cs := by
  rw [run, List.append_assoc, ← List.drop_one, List.take_append_drop, List.takeWhile_append_dropWhile]

theorem drop_run (p : Char → Bool) (cs : List Char) : cs.drop (run p cs).length = (cs.dropWhile p).tail :=
  (congrArg (List.drop (run p cs).length) (run_append p cs)).symm.trans List.drop_left

/-- Once the kind of the reference is known, it goes on as long as its characters do. -/
theorem read_steady (form : Form) (p : Char → Bool) (rest : List Char)
    (hstep : ∀ c ≠ ';', form.step c = if p c then some form else none) (hp : p ';' = false) (hbody : quote ∉ body) :
    read quote form (body ++ quote :: rest) = (run p body, (body.dropWhile p).tail ++ quote :: rest,
      if (body.dropWhile p).head? = some ';' then some form else none) := by
  induction body with
  | nil => simp [read, run]
  | cons c body ih =>
    rw [List.mem_cons, not_or] at hbody
    by_cases hsemicolon : c = ';'
    · subst hsemicolon
      simp [read, run, hp, Ne.symm hbody.1]
    · by_cases hc : p c
      · simp [read, run, hstep c hsemicolon, hc, hsemicolon, Ne.symm hbody.1, ih hbody.2]
      · simp [read, run, hstep c hsemicolon, hc, hsemicolon, Ne.symm hbody.1]

theorem reference?_eq_none {start : List Char} (hstart : ';' ∉ start)
    (h : ∀ name left, cs = name ++ ';' :: left → ';' ∉ name → denoted? (start ++ name) = none) :
      reference? (start ++ cs) = none := by
  by_cases hmem : ';' ∈ cs
  · obtain ⟨name, left, hcs, hname⟩ := List.eq_append_cons_of_mem hmem
    rw [hcs, ← List.append_assoc, reference?_of_semicolon (by simp [hstart, hname]), h name left hcs hname]
    rfl
  · exact reference?_of_not_mem (by simp [hstart, hmem])

/-- What a steady reference has read is decoded to what it denotes. -/
theorem decode_steady (form : Form) (p : Char → Bool) (start : List Char) (hp : p ';' = false) (hstart : ';' ∉ start)
    (hdecode : ∀ name, name.all p = true → decode? (start ++ name) form = denoted? (start ++ name))
    (hother : ∀ name, ';' ∉ name → ¬ name.all p = true → denoted? (start ++ name) = none) (cs : List Char) :
    (if (cs.dropWhile p).head? = some ';' then some form else none).bind (decode? (start ++ run p cs).dropLast) =
      (reference? (start ++ cs)).map (·.1) := by
  have passed : ∀ d ∈ cs.takeWhile p, p d = true := fun d hd => List.mem_takeWhile_imp hd
  split
  next hclosed =>
    obtain ⟨left, hleft⟩ : ∃ left, cs.dropWhile p = ';' :: left := by
      cases hdrop : cs.dropWhile p with
      | nil => simp [hdrop] at hclosed
      | cons c left => exact ⟨left, by simpa [hdrop] using hclosed⟩
    have whole : cs.takeWhile p ++ ';' :: left = cs := by rw [← hleft, List.takeWhile_append_dropWhile]
    have unclosed : ';' ∉ start ++ cs.takeWhile p := by
      rw [List.mem_append, not_or]
      exact ⟨hstart, fun h => by simp [passed _ h] at hp⟩
    rw [← whole, ← List.append_assoc, reference?_of_semicolon unclosed, whole, run, hleft,
      List.take_succ_cons, List.take_zero,
      ← List.append_assoc, List.dropLast_concat, Option.bind_some, hdecode _ (List.all_eq_true.2 passed),
        Option.map_map]
    cases denoted? (start ++ cs.takeWhile p) <;> rfl
  next hclosed =>
    have unread : reference? (start ++ cs) = none := by
      refine reference?_eq_none hstart fun name left hcs hname => hother name hname fun hall => hclosed ?_
      rw [hcs, List.dropWhile_append_of_pos (List.all_eq_true.1 hall), List.dropWhile_cons_of_neg (by simp [hp])]
      rfl
    rw [unread]
    rfl

theorem denoted?_hexadecimal (ds : List Char) : denoted? ('#' :: 'x' :: ds) =
    if ds ≠ [] ∧ ds.all isHexDigit then ofNumber? (valueOf 16 ds) else none := rfl

theorem denoted?_decimal (h : ds.head? ≠ some 'x') : denoted? ('#' :: ds) =
    if ds ≠ [] ∧ ds.all isDecimalDigit then ofNumber? (valueOf 10 ds) else none := by
  rw [denoted?]
  rintro _ rfl
  exact h rfl

theorem denoted?_name (h : name.head? ≠ some '#') : denoted? name = named? (String.ofList name) := by
  unfold denoted?
  split
  · exact absurd rfl h
  · exact absurd rfl h
  · rfl

/-- The reader takes what is read behind an ampersand in any case, and it stands for a character if it is a reference.
-/
def Attempts (quote : Char) (rest body : List Char) : Prop :=
  ∃ closed, read quote .opened (body ++ quote :: rest) = (attempt body,
    body.drop (attempt body).length ++ quote :: rest, closed) ∧
    closed.bind (decode? (attempt body).dropLast) = (reference? body).map (·.1)

theorem attempts_hexadecimal (hds : quote ∉ '#' :: 'x' :: ds) : Attempts quote rest ('#' :: 'x' :: ds) := by
  obtain ⟨hsign, hx, hds⟩ : quote ≠ '#' ∧ quote ≠ 'x' ∧ quote ∉ ds := by simpa using hds
  have steady := read_steady .hexadecimal isHexDigit rest (fun c _ => rfl) (by decide) hds
  refine ⟨_, ?_, decode_steady .hexadecimal isHexDigit ['#', 'x'] (by decide) (by decide) ?_ ?_ ds⟩
  · simp [attempt, read, Form.step, hsign.symm, hx.symm, steady, drop_run]
  · intro name hall
    refine .trans ?_ (denoted?_hexadecimal name).symm
    cases name with
    | nil => rfl
    | cons d name => rw [if_pos ⟨List.cons_ne_nil _ _, hall⟩]; rfl
  · exact fun name _ hall => (denoted?_hexadecimal name).trans (if_neg fun h => hall h.2)

theorem attempt_decimal (h : ds.head? ≠ some 'x') : attempt ('#' :: ds) = '#' :: run isDecimalDigit ds := by
  rw [attempt]
  rintro _ rfl
  exact h rfl

theorem attempts_decimal (hds : quote ∉ '#' :: ds) (hx : ds.head? ≠ some 'x') : Attempts quote rest ('#' :: ds) := by
  obtain ⟨hsign, hds⟩ : quote ≠ '#' ∧ quote ∉ ds := by simpa using hds
  rw [Attempts, attempt_decimal hx]
  cases ds with
  | nil => exact ⟨none, by simp [read, Form.step, hsign.symm, run], rfl⟩
  | cons d ds =>
    obtain ⟨hd, hds⟩ : quote ≠ d ∧ quote ∉ ds := by simpa using hds
    have hx : d ≠ 'x' := by simpa using hx
    by_cases hsemicolon : d = ';'
    · subst hsemicolon
      have unread : reference? ('#' :: ';' :: ds) = none := reference?_of_semicolon (show ';' ∉ ['#'] by decide)
      refine ⟨some .number, by simp [read, Form.step, hsign.symm, hd.symm, run, isDecimalDigit], ?_⟩
      rw [unread]
      rfl
    -- The first character decides whether there is a number at all; only then is there a steady form.
    have start : ';' ∉ ['#', d] := by simp [Ne.symm hsemicolon]
    have denoted (name : List Char) := denoted?_decimal (show (d :: name).head? ≠ some 'x' by simpa using hx)
    by_cases hdigit : isDecimalDigit d = true
    · have steady := read_steady .decimal isDecimalDigit rest (fun c _ => rfl) (by decide) hds
      have first : run isDecimalDigit (d :: ds) = d :: run isDecimalDigit ds := by simp [run, hdigit]
      rw [first]
      refine ⟨_, ?_, decode_steady .decimal isDecimalDigit ['#', d] (by decide) start ?_ ?_ ds⟩
      · simp [read, Form.step, hsign.symm, hd.symm, hx, hsemicolon, hdigit, steady, drop_run]
      · exact fun name hall => .symm ((denoted name).trans
          (if_pos ⟨List.cons_ne_nil _ _, by simp only [List.all_cons, hdigit, hall, Bool.and_self]⟩))
      · exact fun name _ hall => (denoted name).trans (if_neg fun h => hall (Bool.and_eq_true_iff.1 h.2).2)
    · have unread : reference? ('#' :: d :: ds) = none := reference?_eq_none start fun name _ _ _ =>
        (denoted name).trans (if_neg fun h => hdigit (Bool.and_eq_true_iff.1 h.2).1)
      refine ⟨none, by simp [read, Form.step, hsign.symm, hd.symm, hx, hsemicolon, hdigit, run], ?_⟩
      rw [unread]
      rfl

theorem attempt_name (h : cs.head? ≠ some '#') : attempt cs = run (· != ';') cs := by
  unfold attempt
  split
  · exact absurd rfl h
  · exact absurd rfl h
  · rfl

theorem attempts_name (hcs : quote ∉ cs) (hsign : cs.head? ≠ some '#') : Attempts quote rest cs := by
  rw [Attempts, attempt_name hsign]
  cases cs with
  | nil => exact ⟨none, by simp [read, run], rfl⟩
  | cons c cs =>
    obtain ⟨hc, hcs⟩ : quote ≠ c ∧ quote ∉ cs := by simpa using hcs
    have hsign : c ≠ '#' := by simpa using hsign
    by_cases hsemicolon : c = ';'
    · subst hsemicolon
      have unnamed : denoted? [] = none := by decide +kernel
      have unread : reference? (';' :: cs) = (denoted? []).map (·, cs) :=
        reference?_of_semicolon (show ';' ∉ [] by decide)
      refine ⟨some .opened, by simp [read, hc.symm, run], ?_⟩
      rw [unread, unnamed]
      rfl
    · have steady := read_steady .name (· != ';') rest (fun c hc => by simp [Form.step, hc]) (by decide) hcs
      have first : run (· != ';') (c :: cs) = c :: run (· != ';') cs := by simp [run, hsemicolon]
      rw [first]
      refine ⟨_, ?_, decode_steady .name (· != ';') [c] (by decide) ?_ ?_ ?_ cs⟩
      · simp [read, Form.step, hc.symm, hsign, hsemicolon, steady, drop_run]
      · simp [Ne.symm hsemicolon]
      · exact fun name _ => (denoted?_name (by simpa using hsign)).symm
      · exact fun name hname hall => absurd (all_of_not_mem hname) hall

theorem attempts (hbody : quote ∉ body) (rest : List Char) : Attempts quote rest body := by
  by_cases hsign : body.head? = some '#'
  · obtain ⟨ds, rfl⟩ := List.head?_eq_some_iff.1 hsign
    by_cases hx : ds.head? = some 'x'
    · obtain ⟨ds, rfl⟩ := List.head?_eq_some_iff.1 hx
      exact attempts_hexadecimal hbody
    · exact attempts_decimal hbody hx
  · exact attempts_name hbody hsign

theorem attempt_append (cs : List Char) : attempt cs ++ cs.drop (attempt cs).length = cs := by
  unfold attempt
  split <;> simp [drop_run, run_append]

theorem take_attempt (cs : List Char) : cs.take (attempt cs).length = attempt cs :=
  (congrArg (List.take _) (attempt_append cs)).symm.trans List.take_left

theorem run_semicolon (hp : p ';' = false) (hall : ds.all p = true) : run p (ds ++ ';' :: left) = ds ++ [';'] := by
  have hall := List.all_eq_true.1 hall
  simp [run, List.takeWhile_append_of_pos hall, List.dropWhile_append_of_pos hall, hp]

/-- A reference is read as far as it goes. -/
theorem attempt_of_denoted (hname : ';' ∉ name) (h : denoted? name = some ch) :
    attempt (name ++ ';' :: left) = name ++ [';'] := by
  unfold denoted? at h
  split at h
  · split at h
    next ds hds => exact congrArg (_ :: _ :: ·) (run_semicolon (by decide) hds.2)
    · cases h
  · split at h
    next ds hx hds =>
      have hx : (ds ++ ';' :: left).head? ≠ some 'x' := by
        cases ds with
        | nil => simp
        | cons d ds => simpa using fun h : d = 'x' => hx ds (h ▸ rfl)
      exact (attempt_decimal hx).trans (congrArg (_ :: ·) (run_semicolon (by decide) hds.2))
    · cases h
  next hx hsign =>
    have head : (name ++ ';' :: left).head? ≠ some '#' := by
      cases name with
      | nil => simp
      | cons c name => simpa using fun h : c = '#' => hsign name (h ▸ rfl)
    exact (attempt_name head).trans (run_semicolon (by decide) (all_of_not_mem hname))

theorem left_of_reference (h : reference? cs = some (ch, left)) : left = cs.drop (attempt cs).length := by
  obtain ⟨name, rfl, hname, hdenoted⟩ := reference?_eq_some.1 h
  rw [attempt_of_denoted hname hdenoted]
  simp

end CharacterReference

namespace Jsx

open CharacterReference

variable {quote : Char} {body tail : List Char}

/-- Behind an ampersand the string goes on where the attempt at a reference has ended. -/
theorem readString_ampersand (hquote : quote ≠ '&') (htail : quote ∉ tail) (rest : List Char) :
    readString quote ('&' :: (tail ++ quote :: rest)) =
      let behind := readString quote (tail.drop (attempt tail).length ++ quote :: rest)
      ((match reference? tail with
        | some (ch, _) => [ch]
        | none => '&' :: attempt tail) ++ behind.1, 1 + bytes (attempt tail) + behind.2.1, behind.2.2) := by
  obtain ⟨closed, hread, hmeaning⟩ := attempts htail rest
  have different : ('&' == quote) = false := by simpa using hquote.symm
  have size : '&'.utf8Size = 1 := rfl
  rw [readString, different, hread]
  simp only [Bool.false_eq_true, if_false, BEq.rfl, if_true, meaning, hmeaning, foldl_utf8Size, Nat.zero_add, size]
  cases reference? tail <;> rfl

theorem bytes_attempt (tail : List Char) :
    bytes (attempt tail) + bytes (tail.drop (attempt tail).length) = bytes tail := by
  rw [← bytes_append, attempt_append]

/-- What a string is read as that ends at a quote. -/
theorem readString_eq (hquote : quote ≠ '&') (hbody : quote ∉ body) (rest : List Char) :
    readString quote (body ++ quote :: rest) =
    (expandBy (fun cs => (attempt cs).length) body, bytes body + quote.utf8Size, rest) := by
  have size : '&'.utf8Size = 1 := rfl
  fun_induction expandBy (fun cs => (attempt cs).length) body with
  | case1 => simp [readString]
  | case2 tail found left h ih =>
    have htail : quote ∉ tail := fun h => hbody (List.mem_cons_of_mem _ h)
    obtain rfl := left_of_reference h
    rw [List.cons_append, readString_ampersand hquote htail, ih fun h => htail (List.mem_of_mem_drop h), h,
      bytes_cons, size,
      ← bytes_attempt tail]
    simp only [List.singleton_append, Prod.mk.injEq, and_true, true_and]
    omega
  | case3 tail h ih =>
    have htail : quote ∉ tail := fun h => hbody (List.mem_cons_of_mem _ h)
    rw [List.cons_append, readString_ampersand hquote htail, ih fun h => htail (List.mem_of_mem_drop h), h,
      bytes_cons, size,
      ← bytes_attempt tail, take_attempt]
    simp only [Prod.mk.injEq, and_true, true_and]
    omega
  | case4 ch tail hch ih =>
    obtain ⟨different, htail⟩ := not_or.1 (List.mem_cons.not.1 hbody)
    have plain : (ch == quote) = false ∧ (ch == '&') = false := ⟨by simpa using Ne.symm different, by simpa using hch⟩
    rw [List.cons_append, readString, plain.1, plain.2, ih htail, bytes_cons]
    simp only [Bool.false_eq_true, if_false, Prod.mk.injEq, and_true, true_and]
    omega

end Jsx

namespace CharacterReference

variable {kept : List Char → Nat}

theorem expandBy_reference (h : reference? rest = some (ch, left)) :
    expandBy kept ('&' :: rest) = ch :: expandBy kept left := by
  rw [expandBy, if_pos rfl]
  split
  next h' => cases h.symm.trans h'; rfl
  next h' => cases h.symm.trans h'

theorem expandBy_ampersand (h : reference? rest = none) :
    expandBy kept ('&' :: rest) = '&' :: rest.take (kept rest) ++ expandBy kept (rest.drop (kept rest)) := by
  rw [expandBy, if_pos rfl]
  split
  next h' => cases h.symm.trans h'
  · rfl

theorem expandBy_cons (h : ch ≠ '&') (rest : List Char) : expandBy kept (ch :: rest) = ch :: expandBy kept rest := by
  rw [expandBy, if_neg h]

/-- Text in which no reference begins is kept. -/
theorem expand_append {inner : List Char} (h : ∀ behind, '&' :: behind <:+ inner → reference? (behind ++ rest) = none) :
    expand (inner ++ rest) = inner ++ expand rest := by
  induction inner with
  | nil => rfl
  | cons ch inner ih =>
    have others := ih fun behind hbehind => h behind (hbehind.trans (List.suffix_cons ..))
    by_cases hch : ch = '&'
    · subst hch
      exact (expandBy_ampersand (h inner (List.suffix_refl _))).trans (congrArg _ others)
    · exact (expandBy_cons hch _).trans (congrArg _ others)

theorem Apart.of_suffix (h : Apart body) (hleft : left <:+ body) : Apart left :=
  fun rest hrest => h rest (hrest.trans hleft)

/-- Where no reference begins in what was attempted in vain, none is lost. -/
theorem Apart.expandBy_eq (h : Apart body) : expandBy (fun cs => (attempt cs).length) body = expand body := by
  fun_induction expandBy (fun cs => (attempt cs).length) body with
  | case1 => exact (expandBy.eq_1 _).symm
  | case2 tail found left hreference ih =>
    have behind : left <:+ '&' :: tail := by
      obtain ⟨name, rfl, -⟩ := reference?_eq_some.1 hreference
      exact ⟨'&' :: (name ++ [';']), by simp⟩
    rw [ih (h.of_suffix behind)]
    exact (expandBy_reference hreference).symm
  | case3 tail hreference ih =>
    have behind : tail.drop (attempt tail).length <:+ '&' :: tail := (List.drop_suffix ..).trans (List.suffix_cons ..)
    -- What was attempted in vain is kept as a whole here, and character by character there.
    have inner := expand_append (h tail (List.suffix_refl _) hreference)
    rw [attempt_append] at inner
    rw [ih (h.of_suffix behind), take_attempt, List.cons_append, ← inner]
    exact Eq.symm (expandBy_ampersand hreference)
  | case4 ch tail hch ih =>
    rw [ih (h.of_suffix (List.suffix_cons ..))]
    exact (expandBy_cons hch _).symm

end CharacterReference

theorem Scan.jsxToken_of_quote {s : Scanner} {quote : Char} {tail : List Char} (hrest : s.cursor.rest = quote :: tail)
    (hquote : quote = '"' ∨ quote = '\'') : jsxToken s =
      (let read := Jsx.readString quote tail
      jsxTokenTo ((s.cursor.pass quote tail).moveTo read.2.1 read.2.2) (.string (String.ofList read.1) false)) s := by
  rw [jsxToken, get_run]
  simp only [hrest]
  rcases hquote with rfl | rfl <;> rfl

/-- The value of a string in a tag is its text with each reference replaced, where a reference that could not be is
kept as far as it was read. If no reference begins in such text, that is the text with all its references replaced and
nothing else. -/
theorem attribute_value {s : Scanner} {quote : Char} {body rest : List Char}
    (hquote : quote = '"' ∨ quote = '\'') (hbody : quote ∉ body)
    (hrest : s.cursor.rest = quote :: (body ++ quote :: rest)) :
    ∃ value,
      let written := quote :: (body ++ [quote])
      let stop := s.cursor.offset + bytes written
      Scan.jsxToken s = .ok
        ⟨.string (String.ofList value) false, String.ofList written, ⟨s.cursor.offset, stop⟩, s.cursor.line,
          s.cursor.lineStart⟩
        { s with cursor := ⟨stop, s.cursor.line, s.cursor.lineStart, rest⟩ } ∧
      value = CharacterReference.expandBy (fun cs => (CharacterReference.attempt cs).length) body ∧
      (CharacterReference.Apart body → value = CharacterReference.expand body) := by
  refine ⟨_, ?_, rfl, CharacterReference.Apart.expandBy_eq⟩
  have ampersand : quote ≠ '&' := by rcases hquote with rfl | rfl <;> decide
  have read := Jsx.readString_eq ampersand hbody rest
  have across : s.cursor.Across (quote :: (body ++ [quote]))
    (s.cursor.moveTo (bytes (quote :: (body ++ [quote]))) rest) :=
    .moveTo (by simpa using hrest) rfl
  have stop : (s.cursor.pass quote (body ++ quote :: rest)).moveTo (bytes body + quote.utf8Size) rest =
      s.cursor.moveTo (bytes (quote :: (body ++ [quote]))) rest := by
    rw [← Cursor.pass_moveTo, bytes_append]
    rfl
  have run : Scan.jsxToken s = .ok
    (Scan.tokenBetween s.cursor (s.cursor.moveTo (bytes (quote :: (body ++ [quote]))) rest)
      (.string (String.ofList (CharacterReference.expandBy (fun cs => (CharacterReference.attempt cs).length)
        body)) false))
      { s with cursor := s.cursor.moveTo (bytes (quote :: (body ++ [quote]))) rest } := by
    rw [Scan.jsxToken_of_quote hrest hquote, read]
    simp only [stop]
    rfl
  rw [run, Scan.tokenBetween, across.textUntil]
  rfl

/-- A reference by name, two by number, an unknown one, and one that is not closed. -/
theorem attribute_value_mixed :
    ∃ t s', Scan.jsxToken (.start "\"&amp;&#65;&#x42;&bogus;&lt\"" false .script) = .ok t s' ∧
    t.lexeme = .string "&AB&bogus;&lt" false := by
  let body := "&amp;&#65;&#x42;&bogus;&lt".toList
  have here : (Scanner.start "\"&amp;&#65;&#x42;&bogus;&lt\"" false .script).cursor.rest =
    '"' :: (body ++ '"' :: []) := by
    decide +kernel
  obtain ⟨value, run, -, expanded⟩ := attribute_value (.inl rfl) (by decide +kernel) here
  have apart : CharacterReference.Apart body := by decide +kernel
  have result : String.ofList (CharacterReference.expand body) = "&AB&bogus;&lt" := by decide +kernel
  rw [expanded apart, result] at run
  exact ⟨_, _, run, rfl⟩

/-- An ampersand that begins no reference, and one behind it that does: the reference is lost. -/
theorem reference_swallowed : ∃ t s', Scan.jsxToken (.start "\"&a&amp;\"" false .script) = .ok t s' ∧
    t.lexeme = .string "&a&amp;" false ∧ String.ofList (CharacterReference.expand "&a&amp;".toList) = "&a&" := by
  have here : (Scanner.start "\"&a&amp;\"" false .script).cursor.rest = '"' :: "&a&amp;\"".toList := by decide +kernel
  have read : Jsx.readString '"' "&a&amp;\"".toList = ("&a&amp;".toList, 8, []) := by decide +kernel
  have run := Scan.jsxToken_of_quote here (.inl rfl)
  rw [read] at run
  exact ⟨_, _, run, congrArg (Lexeme.string · false) (by decide +kernel), by decide +kernel⟩

end EcmaTree
