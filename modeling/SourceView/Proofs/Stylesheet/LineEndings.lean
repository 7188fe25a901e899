/-
Line endings in stylesheets.

Whatever the scanner asks of the text ahead, how far a name or a number goes, whether a brace comes
before the statement ends, is answered alike with a carriage return before each line feed: no class
of characters that it counts holds one of the two and not the other, and of the characters that it
looks for none is a line break.  So each piece keeps to its line and is the same, but for line
breaks, comments and strings.
-/
import SourceView.Proofs.Lexing.Twins
import SourceView.Proofs.Lexing.EmptyTokens

namespace SourceView

open Lexing Text

namespace Stylesheet

variable {c : Char} {rest text : List Char} {s : LexState} {pos : Nat}

/-! ### What is asked of the text ahead -/

theorem isNameChar_breaks : isNameChar '\n' = false ∧ isNameChar '\r' = false := by
  decide +kernel

theorem nameLength_withReturns (text : List Char) :
    nameLength (withReturns text) = nameLength text :=
  countWhile_withReturns isNameChar_breaks.1 isNameChar_breaks.2 text

theorem inline_nameLength (text : List Char) : Inline (nameLength text) text :=
  inline_countWhile isNameChar_breaks.1 text

theorem takeWhile_isNameChar_withReturns (text : List Char) :
    (withReturns text).takeWhile isNameChar = text.takeWhile isNameChar :=
  takeWhile_withReturns isNameChar_breaks.1 isNameChar_breaks.2 text

theorem startsName_withReturns (text : List Char) :
    startsName (withReturns text) = startsName text :=
  any_withReturns (by decide +kernel) text

theorem startsDigit_withReturns (text : List Char) :
    startsDigit (withReturns text) = startsDigit text :=
  any_withReturns (by decide) text

theorem looksNested_withReturns (text : List Char) :
    LexState.looksNested (withReturns text) = LexState.looksNested text := by
  rw [LexState.looksNested, find?_withReturns (by decide) (by decide)]
  rfl

theorem begin_withReturns (s : LexState) (text : List Char) :
    s.begin (withReturns text) = s.begin text := by
  rw [LexState.begin, looksNested_withReturns]
  rfl

/-! ### Numbers -/

theorem sameCount_signLength : SameCount signLength := fun text => by
  constructor
  · rw [signLength, head?_withReturns (by decide) (by decide),
      head?_withReturns (by decide) (by decide)]
    rfl
  · unfold signLength
    split
    · rename_i h
      rw [Bool.or_eq_true, beq_iff_eq, beq_iff_eq] at h
      rcases h with h | h <;> exact .head h (by decide)
    · exact inline_zero text

/-- The number of characters of the sign and the digits at the start of `text`. -/
def signedLength (digit : Char → Bool) (text : List Char) : Nat :=
  signLength text + countWhile digit (text.drop (signLength text))

/-- The number of characters of the point at the start of `text` with the digits after it. -/
def fractionLength (text : List Char) : Nat :=
  if text.head? == some '.' && startsDigit text.tail then 1 + countWhile Char.isDigit text.tail
  else 0

/-- The number of characters of the exponent at the start of `text`. -/
def exponentLength (digit : Char → Bool) (text : List Char) : Nat :=
  if (text.head? == some 'e' || text.head? == some 'E')
      && startsDigit (text.tail.drop (signLength text.tail)) then 1 + signedLength digit text.tail
  else 0

theorem sameCount_signedLength {digit : Char → Bool} (hfeed : digit '\n' = false)
    (hreturn : digit '\r' = false) : SameCount (signedLength digit) :=
  sameCount_signLength.more (sameCount_countWhile hfeed hreturn)

theorem sameCount_fractionLength : SameCount fractionLength :=
  .ite rfl (fun _ => rfl) (fun _ => rfl)
    (fun c rest _ => by simp only [List.head?_cons, List.tail_cons, startsDigit_withReturns])
    (sameCount_countWhile (by decide) (by decide))

theorem sameCount_exponentLength {digit : Char → Bool} (hfeed : digit '\n' = false)
    (hreturn : digit '\r' = false) : SameCount (exponentLength digit) := by
  refine .ite rfl (fun _ => rfl) (fun _ => rfl) (fun c rest _ => ?_)
    (sameCount_signedLength hfeed hreturn)
  obtain ⟨hsame, hinline⟩ := sameCount_signLength rest
  simp only [List.head?_cons, List.tail_cons, hsame, hinline.drop, startsDigit_withReturns]

/-- A part that may be missing adds nothing then. -/
theorem ite_count (n k : Nat) (b : Bool) :
    (if b = true then n + 1 + k else n) = n + if b = true then 1 + k else 0 := by
  cases b
  · rfl
  · exact Nat.add_assoc n 1 k

theorem countWhile_isDigit_eq_zero (text : List Char) :
    countWhile Char.isDigit text = 0 ↔ startsDigit text = false := by
  cases text with
  | nil => exact iff_of_true rfl rfl
  | cons c rest => cases hc : c.isDigit <;> simp [countWhile, startsDigit, hc]

theorem numberLength_eq (text : List Char) :
    numberLength text
      = let n := signedLength Char.isDigit text
          + fractionLength (text.drop (signedLength Char.isDigit text))
        n + exponentLength Char.isDigit (text.drop n) := by
  have hexponent (n : Nat) (rest : List Char) :
      (if (rest.head? == some 'e' || rest.head? == some 'E') = true then
          if countWhile Char.isDigit (rest.drop (1 + signLength rest.tail)) = 0 then n
          else n + (1 + signLength rest.tail)
            + countWhile Char.isDigit (rest.drop (1 + signLength rest.tail))
        else n) = n + exponentLength Char.isDigit rest := by
    rw [exponentLength, ← List.drop_drop, List.drop_one]
    simp only [countWhile_isDigit_eq_zero]
    cases hmark : rest.head? == some 'e' || rest.head? == some 'E' with
    | false => rfl
    | true =>
        cases hdigit : startsDigit (rest.tail.drop (signLength rest.tail)) with
        | false => rfl
        | true => simp only [if_true, signedLength, Bool.and_self, Nat.add_assoc]; rfl
  unfold numberLength
  simp only
  rw [ite_count]
  exact hexponent _ _

theorem sameCount_numberLength : SameCount numberLength := fun text => by
  have hsigned : SameCount (signedLength Char.isDigit) := sameCount_signedLength rfl rfl
  have hexponent : SameCount (exponentLength Char.isDigit) := sameCount_exponentLength rfl rfl
  simpa only [numberLength_eq] using ((hsigned.more sameCount_fractionLength).more hexponent) text

theorem number_withReturns (text : List Char) :
    number (withReturns text) = number text ∧ Inline (number text).length text := by
  obtain ⟨hsame, hinline⟩ := sameCount_numberLength text
  rw [number, number, hsame, hinline.drop, head?_withReturns (by decide) (by decide),
    takeWhile_withReturns (by decide +kernel) (by decide +kernel)]
  refine ⟨rfl, ?_⟩
  simp only
  split
  · rename_i h
    exact hinline.append (.head (beq_iff_eq.mp h) (by decide))
  split
  · exact hinline
  · exact hinline.append (inline_countWhile (by decide +kernel) _)

/-! ### Pieces -/

theorem twin_scanAtRule (hc : c ≠ '\n') (s : LexState) :
    Twin pos (c :: rest) (scanAtRule s rest) (scanAtRule s (withReturns rest)) := by
  rw [scanAtRule, scanAtRule, takeWhile_isNameChar_withReturns]
  exact .ite (fun _ => .one hc rfl s []) fun _ => .more hc (inline_nameLength rest) rfl _ []

theorem twin_scanColon (hc : c ≠ '\n') (s : LexState) :
    Twin pos (c :: rest) (scanColon s rest) (scanColon s (withReturns rest)) := by
  rw [scanColon, scanColon, head?_withReturns (by decide) (by decide)]
  cases hcolon : rest.head? == some ':' with
  | false =>
      simp only [Bool.false_eq_true, if_false, Nat.sub_self, List.drop_zero,
        takeWhile_isNameChar_withReturns]
      exact .ite (fun _ => .more hc (inline_nameLength rest) rfl s []) fun _ => .one hc rfl _ []
  | true =>
      have hnext : Inline 1 rest := .head (beq_iff_eq.mp hcolon) (by decide)
      simp only [if_true, Nat.add_one_sub_one, hnext.drop, takeWhile_isNameChar_withReturns]
      exact .ite (fun _ => .more hc (hnext.append (inline_nameLength _)) (Nat.add_assoc 1 1 _) s [])
        fun _ => .one hc rfl _ []

theorem twin_scanHash (hc : c ≠ '\n') (s : LexState) :
    Twin pos (c :: rest) (scanHash s rest) (scanHash s (withReturns rest)) := by
  have hhex : Inline (countWhile isHexDigit rest) rest := inline_countWhile (by decide) rest
  simp only [scanHash, nameLength_withReturns,
    countWhile_withReturns (p := isHexDigit) (by decide) (by decide), hhex.drop,
    any_withReturns (isNameChar_breaks.2.trans isNameChar_breaks.1.symm)]
  split
  · split
    · exact .one hc rfl s []
    · exact .more hc (inline_nameLength rest) rfl s []
  · split
    · exact .more hc hhex rfl s []
    · exact .one hc rfl s []

theorem twin_scanBang (hc : c ≠ '\n') (s : LexState) :
    Twin pos (c :: rest) (scanBang s rest) (scanBang s (withReturns rest)) := by
  rw [scanBang, scanBang, takeWhile_isNameChar_withReturns]
  exact .ite (fun _ => .more hc (inline_nameLength rest) rfl s []) fun _ => .one hc rfl s []

theorem urlBody_withReturns (text : List Char) :
    urlBody (withReturns text) = urlBody text ∧ Inline (Lexeme.width (urlBody text)) text := by
  have hspaces : Inline (countWhile isSpace text) text := inline_countWhile (by decide) text
  obtain ⟨hsame, haddress⟩ := sameCount_countWhile (p := fun c => !isUrlStop c) (by decide) (by decide)
    (text.drop (countWhile isSpace text))
  have hboth := hspaces.append haddress
  rw [urlBody, urlBody, countWhile_withReturns (by decide) (by decide), hspaces.drop]
  simp only [hsame]
  cases hbody : text.drop (countWhile isSpace text) with
  | nil => exact ⟨rfl, inline_zero text⟩
  | cons c body =>
      rw [hbody] at hboth
      constructor
      · -- A line feed stops an address as a carriage return does.
        by_cases hc : c = '\n'
        · subst hc
          rfl
        · rw [withReturns_cons hc]
          rfl
      · simp only [List.head?_cons]
        split
        · exact inline_zero text
        rw [Lexeme.width_append]
        by_cases hnone : countWhile isSpace text = 0
        · rw [hnone] at hboth
          rw [if_pos hnone]
          exact hboth
        · rw [if_neg hnone]
          exact hboth

theorem twin_scanWord (hc : c ≠ '\n') (s : LexState) :
    Twin pos (c :: rest) (scanWord s (c :: rest)) (scanWord s (c :: withReturns rest)) := by
  have hword : Inline (1 + nameLength rest) (c :: rest) := .cons hc (inline_nameLength rest)
  rw [← withReturns_cons hc, scanWord, scanWord, withReturns_cons hc, List.tail_cons,
    List.tail_cons, nameLength_withReturns, ← withReturns_cons hc, hword.take, hword.drop,
    head?_withReturns (by decide) (by decide)]
  refine .ite (fun hparen => ?_) fun _ => .more hc (inline_nameLength rest) rfl _ _
  rw [beq_iff_eq] at hparen
  obtain ⟨hsame, hbody⟩ := urlBody_withReturns ((c :: rest).drop (1 + nameLength rest)).tail
  have hcall : Inline 1 ((c :: rest).drop (1 + nameLength rest)) := .head hparen (by decide)
  rw [tail_withReturns hparen (by decide), hsame]
  rw [← List.drop_one] at hbody ⊢
  refine .inline ?_
  rw [Scan.pieces, if_neg (by simp [Lexeme.width])]
  split
  · exact hword.append (hcall.append hbody)
  · exact hword.append hcall

theorem startsNumber_withReturns (inSelector : Bool) (c : Char) (rest : List Char) :
    startsNumber inSelector (c :: withReturns rest) = startsNumber inSelector (c :: rest) := by
  cases rest with
  | nil => rfl
  | cons d more =>
      by_cases hd : d = '\n'
      · subst hd
        rfl
      · simp only [startsNumber, withReturns_cons hd, List.head?_cons, List.tail_cons,
          startsDigit_withReturns]
        rfl

theorem twin_scanInStatement (hc : c ≠ '\n') (s : LexState) :
    Twin pos (c :: rest) (scanInStatement s pos c rest)
      (scanInStatement s pos c (withReturns rest)) := by
  have hnumber := number_withReturns (c :: rest)
  rw [withReturns_cons hc] at hnumber
  simp only [scanInStatement, startsNumber_withReturns, startsName_withReturns,
    nameLength_withReturns, hnumber.1,
    head?_withReturns (show '-' ≠ '\n' by decide) (show '-' ≠ '\r' by decide)]
  refine .ite (fun hquote => .quoted (by simpa using hquote) _ (by decide) s) fun _ => ?_
  refine .ite (fun _ => .one hc rfl s []) fun _ => ?_
  refine .ite (fun _ => twin_scanAtRule hc s) fun _ => ?_
  refine .ite (fun _ => twin_scanColon hc s) fun _ => ?_
  refine .ite (fun _ => twin_scanHash hc s) fun _ => ?_
  refine .ite (fun _ => twin_scanBang hc s) fun _ => ?_
  refine .ite (fun h => .single (number_length_pos h) hnumber.2 s []) fun _ => ?_
  refine .ite (fun h => ?_) fun _ => ?_
  · rw [Bool.and_eq_true, beq_iff_eq, beq_iff_eq] at h
    rw [tail_withReturns h.2 (by decide), nameLength_withReturns, ← List.drop_one]
    exact .more hc ((Inline.head h.2 (by decide)).append (inline_nameLength _))
      (Nat.add_assoc 1 1 _) s []
  refine .ite (fun _ => .more hc (inline_nameLength rest) rfl s []) fun _ => ?_
  refine .ite (fun _ => twin_scanWord hc s) fun _ => ?_
  refine .ite (fun _ => .one hc rfl s []) fun _ => .inline ?_
  exact inline_succ.mpr ⟨hc, inline_zero rest⟩

theorem twin_scanRich (s : LexState) (hreturn : '\r' ∉ c :: rest) :
    Twin pos (c :: rest) (scanRich s pos (c :: rest))
      (scanRich s pos (withReturns (c :: rest))) := by
  by_cases hc : c = '\n'
  · subst hc
    exact .newline rest s
  have hc' : c ≠ '\r' := fun h => hreturn (h ▸ List.mem_cons_self)
  have hbegin := begin_withReturns s (c :: rest)
  rw [withReturns_cons hc] at hbegin ⊢
  simp only [scanRich, whitespace?_withReturns hc hc', hbegin,
    head?_withReturns (show '*' ≠ '\n' by decide) (show '*' ≠ '\r' by decide)]
  cases hspace : whitespace? (c :: rest) with
  | some l => exact .space hc hc' hspace s
  | none =>
      refine .ite (fun h => ?_) fun _ => ?_
      · rw [← withReturns_cons hc]
        exact .comment h s
      refine .ite (fun _ => .one hc rfl _ []) fun _ => .ite (fun _ => .one hc rfl _ []) fun _ => ?_
      refine .ite (fun _ => .one hc rfl _ []) fun _ => ?_
      cases delimiter? c with
      | some kind => exact .one hc rfl s []
      | none => exact twin_scanInStatement hc _

/-- The scanner of a rich run depends on no offset. -/
theorem twins_richScanner : richScanner.Twins Eq where
  blind := by
    rintro s _ rfl pos pos' text
    have hzero (pos : Nat) : richScanner.scan s pos text = (scanRich s 0 text).shift id pos := by
      rw [← scanRich_shift, Nat.zero_add]
      rfl
    rw [hzero pos, hzero pos']
    refine ⟨rfl, ?_, rfl⟩
    simp only [Scan.shift, List.map_map]
    rfl
  finish _ _ _ := rfl
  twin s pos c rest hreturn := twin_scanRich s hreturn
  attributes s pos text f hf _ := scanRich_starts (P := (· = (pos : Int))) s rfl text f hf
  finished _ _ f hf := absurd hf (by simp [richScanner])

end Stylesheet

end SourceView
