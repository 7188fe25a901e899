/-
Quoted texts are unambiguous: a quoted text that begins a longer one shows where it ends and
which text it quotes.

Between the marks every character is read back as it was written, whatever follows it, and
no character is written with the closing mark first.  The mark itself is seen at the start.
-/
import SourceView.Proofs.Json.RoundTrip
import Mathlib.Algebra.Group.Nat.Defs

namespace SourceView.Text

/-! ### Code points in digits -/

/-- The number that hexadecimal digits write. -/
def hexNumber? (digits : List Char) : Option Nat :=
  digits.foldlM (fun n digit => (Json.hexValue? digit).map (n * 16 + ·)) 0

theorem hexNumber?_hexDigits {width n : Nat} (hn : n < 16 ^ width) :
    hexNumber? (hexDigits width n) = some n := by
  induction width generalizing n with
  | zero =>
      obtain rfl : n = 0 := by omega
      rfl
  | succ width ih =>
      have hhigh : hexNumber? (hexDigits width (n / 16)) = some (n / 16) := ih (by omega)
      have hlow : Json.hexValue? (hexDigit (n % 16)) = some (n % 16) :=
        Json.hexValue?_hexDigit _ (Nat.mod_lt _ (by decide))
      have hsum : n / 16 * 16 + n % 16 = n := by omega
      rw [hexNumber?] at hhigh ⊢
      rw [hexDigits, List.foldlM_append, hhigh]
      simp [hlow, hsum]

theorem length_hexDigits (width n : Nat) : (hexDigits width n).length = width := by
  induction width generalizing n with
  | zero => rfl
  | succ width ih => rw [hexDigits, List.length_append, ih, List.length_singleton]

/-! ### Single characters -/

/-- The character whose code point is written in so many digits, and what follows it. -/
def codePoint? (width : Nat) (cs : List Char) : Option (Char × List Char) :=
  (hexNumber? (cs.take width)).map fun n => (Char.ofNat n, cs.drop width)

/-- The character that is escaped at the start, and what follows it. -/
def escapedChar? : List Char → Option (Char × List Char)
  | [] => none
  | 't' :: rest => some ('\t', rest)
  | 'n' :: rest => some ('\n', rest)
  | 'r' :: rest => some ('\r', rest)
  | 'x' :: rest => codePoint? 2 rest
  | 'u' :: rest => codePoint? 4 rest
  | 'U' :: rest => codePoint? 8 rest
  | c :: rest => some (c, rest)

/-- The character that is quoted at the start, and what follows it. -/
def unquoteChar? : List Char → Option (Char × List Char)
  | [] => none
  | '\\' :: rest => escapedChar? rest
  | c :: rest => some (c, rest)

/-- What may stand around a quoted text. -/
def IsMark (mark : Char) : Prop :=
  mark = '\'' ∨ mark = '"'

theorem isMark_quoteMark (cs : List Char) : IsMark (quoteMark cs) := by
  rw [quoteMark]
  split
  · exact .inr rfl
  · exact .inl rfl

theorem codePoint?_hexDigits {width : Nat} {c : Char} (hc : c.toNat < 16 ^ width)
    (rest : List Char) : codePoint? width (hexDigits width c.toNat ++ rest) = some (c, rest) := by
  have hlength := length_hexDigits width c.toNat
  rw [codePoint?, List.take_append_of_le_length (by omega), List.take_of_length_le (by omega),
    hexNumber?_hexDigits hc, List.drop_append_of_le_length (by omega),
    List.drop_of_length_le (by omega), Option.map_some, Char.ofNat_toNat, List.nil_append]

/-- A character is read back whatever stands behind it. -/
theorem unquoteChar?_quoteChar {mark : Char} (hmark : IsMark mark) (c : Char) (rest : List Char) :
    unquoteChar? (quoteChar mark c ++ rest) = some (c, rest) := by
  unfold quoteChar
  split_ifs with hescape htab hfeed hreturn hplain hshort hlong
  · rcases hescape with rfl | rfl
    · rcases hmark with rfl | rfl <;> rfl
    · rfl
  · subst htab; rfl
  · subst hfeed; rfl
  · subst hreturn; rfl
  · have hslash : c ≠ '\\' := fun h => hescape (.inr h)
    rw [List.singleton_append, unquoteChar?]
    exact hslash
  · exact codePoint?_hexDigits hshort rest
  · exact codePoint?_hexDigits hlong rest
  · have hbound : c.toNat < 16 ^ 8 := by
      have hvalid := c.valid
      rcases hvalid with h | h <;> simp only [Char.toNat] at * <;> omega
    exact codePoint?_hexDigits hbound rest

/-- No character is written with the mark first, so the first mark is the closing one. -/
theorem quoteChar_head {mark : Char} (hmark : IsMark mark) (c : Char) :
    ∃ first others, quoteChar mark c = first :: others ∧ first ≠ mark := by
  have hslash : '\\' ≠ mark := by rcases hmark with rfl | rfl <;> decide
  have hescaped (others : List Char) :
      ∃ first tail, '\\' :: others = first :: tail ∧ first ≠ mark := ⟨_, _, rfl, hslash⟩
  unfold quoteChar
  split_ifs with hescape htab hfeed hreturn hplain
  · exact hescaped _
  · exact hescaped _
  · exact hescaped _
  · exact hescaped _
  · exact ⟨c, [], rfl, fun h => hescape (.inl h)⟩
  · exact hescaped _
  · exact hescaped _
  · exact hescaped _

/-! ### Whole texts -/

theorem flatMap_quoteChar_inj {mark : Char} (hmark : IsMark mark) {cs ds rest rest' : List Char}
    (h : cs.flatMap (quoteChar mark) ++ mark :: rest
      = ds.flatMap (quoteChar mark) ++ mark :: rest') : cs = ds ∧ rest = rest' := by
  induction cs generalizing ds with
  | nil =>
      cases ds with
      | nil => simpa using h
      | cons d ds =>
          obtain ⟨first, others, hd, hfirst⟩ := quoteChar_head hmark d
          rw [List.flatMap_cons, hd] at h
          exact absurd (List.cons.inj h).1.symm hfirst
  | cons c cs ih =>
      cases ds with
      | nil =>
          obtain ⟨first, others, hc, hfirst⟩ := quoteChar_head hmark c
          rw [List.flatMap_cons, hc] at h
          exact absurd (List.cons.inj h).1 hfirst
      | cons d ds =>
          rw [List.flatMap_cons, List.flatMap_cons, List.append_assoc, List.append_assoc] at h
          have hread := congrArg unquoteChar? h
          rw [unquoteChar?_quoteChar hmark, unquoteChar?_quoteChar hmark, Option.some.injEq,
            Prod.mk.injEq] at hread
          obtain ⟨rfl, htail⟩ := hread
          obtain ⟨rfl, hrest⟩ := ih htail
          exact ⟨rfl, hrest⟩

/-- Two texts that begin with a quoted text quote the same text and go on alike. -/
theorem quoted_append_inj {s t : String} {rest rest' : List Char}
    (h : (quoted s).toList ++ rest = (quoted t).toList ++ rest') : s = t ∧ rest = rest' := by
  simp only [quoted, String.toList_ofList, quotedChars, List.cons_append, List.append_assoc,
    List.nil_append] at h
  obtain ⟨hmark, hbody⟩ := List.cons.inj h
  rw [← hmark] at hbody
  obtain ⟨htexts, hrest⟩ := flatMap_quoteChar_inj (isMark_quoteMark s.toList) hbody
  exact ⟨String.toList_inj.mp htexts, hrest⟩

end SourceView.Text
