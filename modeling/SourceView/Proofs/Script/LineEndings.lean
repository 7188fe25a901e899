/-
Line endings in scripts.

Besides comments, the text of templates and the values of attributes go over lines, and take the
carriage returns along.  A regular expression ends with its line as a string does, so one that goes
on behind an escaped line feed is none in the longer text, and its slash an operator
(`regexBody_withReturns`).

What the scanner remembers of a piece for the next slash is the same of the longer piece, since only
pieces that have a line break in them are longer, and of those it remembers the end alone
(`twin_remember`).
-/
import Mathlib.Data.List.Find
import SourceView.Proofs.Lexing.FaultSpans
import SourceView.Proofs.Script.Offsets
import SourceView.Proofs.Script.RegularExpressions
import SourceView.Proofs.Stylesheet.LineEndings

namespace SourceView

open Lexing Text

namespace Script

open Stylesheet (signLength signedLength exponentLength sameCount_exponentLength ite_count)

/-! ### Literals -/

variable {c : Char} {rest text : List Char} {s : LexState} {pos : Nat}

theorem filter_inline_append (front : List Char) (hfront : '\n' ∉ front) (o : Option Nat)
    (text : List Char) :
    (o.filter fun n => Inline n text).map (· + front.length)
      = (o.map (· + front.length)).filter fun n => Inline n (front ++ text) := by
  cases o with
  | none => rfl
  | some n =>
      have hline : Inline (n + front.length) (front ++ text) ↔ Inline n text := by
        rw [Inline, Nat.add_comm, List.take_length_add_append, List.mem_append, not_or]
        exact and_iff_right hfront
      by_cases hinline : Inline n text <;> simp [Option.filter, hline, hinline]

/-- A regular expression is the same if it keeps to its line, and else there is none. -/
theorem regexBody_withReturns (inBrackets : Bool) (text : List Char) :
    regexBody inBrackets (withReturns text)
      = (regexBody inBrackets text).filter fun n => Inline n text := by
  fun_induction regexBody inBrackets text with
  | case1 => rfl
  | case2 => rfl
  | case3 inBrackets d rest ih =>
      rw [withReturns_cons (by decide)]
      by_cases hd : d = '\n'
      · -- The escape takes the carriage return, and the line feed ends the line.
        subst hd
        rw [withReturns_feed, regexBody, regexBody_cons inBrackets (by decide), if_pos (by decide)]
        cases regexBody inBrackets rest <;> rfl
      · rw [withReturns_cons hd, regexBody, ih]
        exact filter_inline_append ['\\', d] (by simp [Ne.symm hd]) _ rest
  | case4 inBrackets c rest hlast hescape hbreak =>
      by_cases hc : c = '\n'
      · subst hc
        rw [withReturns_feed, regexBody_cons inBrackets (by decide), if_pos (by decide)]
        rfl
      · rw [withReturns_cons hc, regexBody_cons inBrackets (ne_backslash hlast hescape),
          if_pos hbreak]
        rfl
  | case5 c rest hlast hescape hbreak ih =>
      have hc : c ≠ '\n' := by rintro rfl; exact hbreak rfl
      rw [withReturns_cons hc, regexBody_cons true (ne_backslash hlast hescape), if_neg hbreak,
        if_pos rfl, ih]
      exact filter_inline_append [c] (by simp [Ne.symm hc]) _ rest
  | case6 inBrackets c rest hlast hescape hbreak houtside hslash =>
      have hc : c ≠ '\n' := by rintro rfl; exact hbreak rfl
      rw [withReturns_cons hc, regexBody_cons inBrackets (ne_backslash hlast hescape),
        if_neg hbreak, if_neg houtside, if_pos hslash]
      simp [Option.filter, inline_succ, hc, inline_zero]
  | case7 inBrackets c rest hlast hescape hbreak houtside hslash ih =>
      have hc : c ≠ '\n' := by rintro rfl; exact hbreak rfl
      rw [withReturns_cons hc, regexBody_cons inBrackets (ne_backslash hlast hescape),
        if_neg hbreak, if_neg houtside, if_neg hslash, ih]
      exact filter_inline_append [c] (by simp [Ne.symm hc]) _ rest

theorem regex?_withReturns (rest : List Char) :
    regex? (withReturns rest) = (regex? rest).filter fun l => Inline l.length ('/' :: rest) := by
  rw [regex?, regex?, regexBody_withReturns]
  cases regexBody false rest with
  | none => rfl
  | some n =>
      obtain ⟨hsame, hflags⟩ := sameCount_countWhile (p := isAsciiLetter) (by decide) (by decide)
        (rest.drop n)
      have hline : Inline (1 + n + countWhile isAsciiLetter (rest.drop n)) ('/' :: rest)
          ↔ Inline n rest := by
        rw [Nat.add_assoc, Nat.add_comm, inline_succ]
        exact ⟨fun h => h.2.le (Nat.le_add_right _ _), fun h => ⟨by decide, h.append hflags⟩⟩
      by_cases hinline : Inline n rest
      · simp [Option.filter, hline, hinline, hinline.drop, hsame]
      · simp [Option.filter, hline, hinline]

/-- What is taken of the text of a template, is taken of the longer one. -/
theorem templateLength_withReturns (text : List Char) :
    templateLength (withReturns text) = (withReturns (text.take (templateLength text))).length := by
  fun_induction templateLength text with
  | case1 => rfl
  | case2 => rfl
  | case3 d rest ih =>
      have hbackslash : '\\' ≠ '\n' := by decide
      rw [withReturns_cons hbackslash, List.take_succ_cons, List.take_succ_cons,
        length_withReturns_cons hbackslash]
      by_cases hd : d = '\n'
      · subst hd
        rw [withReturns_feed, templateLength, templateLength_cons (by decide), if_neg (by simp), ih,
          length_withReturns_feed]
      · rw [withReturns_cons hd, templateLength, ih, length_withReturns_cons hd]
  | case4 c rest hlast hescape hstop =>
      have hc : c ≠ '\n' := by rintro rfl; exact absurd hstop (by simp)
      rw [withReturns_cons hc, templateLength_cons (ne_backslash hlast hescape),
        head?_withReturns (by decide) (by decide), if_pos hstop]
      rfl
  | case5 c rest hlast hescape hstop ih =>
      rw [List.take_succ_cons]
      by_cases hc : c = '\n'
      · subst hc
        rw [withReturns_feed, templateLength_cons (by decide), if_neg (by simp),
          templateLength_cons (by decide), if_neg (by simp), ih, length_withReturns_feed]
      · rw [withReturns_cons hc, templateLength_cons (ne_backslash hlast hescape),
          head?_withReturns (by decide) (by decide), if_neg hstop, ih, length_withReturns_cons hc]

/-! ### Numbers -/

theorem startsDigit_withReturns (text : List Char) :
    startsDigit (withReturns text) = startsDigit text :=
  any_withReturns (by decide) text

/-- The number of characters of the point at the start of `text` with the digits after it. -/
def fractionLength (text : List Char) : Nat :=
  if text.head? == some '.' then 1 + countWhile isNumberChar text.tail else 0

theorem decimalLength_eq (text : List Char) :
    decimalLength text
      = let n := countWhile isNumberChar text
          + fractionLength (text.drop (countWhile isNumberChar text))
        n + exponentLength isNumberChar (text.drop n) := by
  have hexponent (n : Nat) (rest : List Char) :
      (if (rest.head? == some 'e' || rest.head? == some 'E') = true then
          if startsDigit (rest.drop (1 + signLength rest.tail)) = true then
            n + 1 + signLength rest.tail
              + countWhile isNumberChar (rest.drop (1 + signLength rest.tail))
          else n
        else n) = n + exponentLength isNumberChar rest := by
    have hdigit : startsDigit = Stylesheet.startsDigit := rfl
    rw [exponentLength, ← List.drop_drop, List.drop_one, hdigit]
    cases hmark : rest.head? == some 'e' || rest.head? == some 'E' with
    | false => rfl
    | true =>
        cases hdigit : Stylesheet.startsDigit (rest.tail.drop (signLength rest.tail)) with
        | false => rfl
        | true => simp only [if_true, signedLength, Bool.and_self, Nat.add_assoc]
  unfold decimalLength
  simp only
  rw [ite_count]
  exact hexponent _ _

theorem sameCount_decimalLength : SameCount decimalLength := fun text => by
  have hdigits : SameCount (countWhile isNumberChar) := sameCount_countWhile (by decide) (by decide)
  have hfraction : SameCount fractionLength :=
    .ite rfl (fun _ => rfl) (fun _ => rfl) (fun _ _ _ => rfl) hdigits
  have hexponent : SameCount (exponentLength isNumberChar) :=
    sameCount_exponentLength (by decide) (by decide)
  simpa only [decimalLength_eq] using ((hdigits.more hfraction).more hexponent) text

/-- The number of characters of the number at the start of `text` before its suffix. -/
def plainLength (text : List Char) : Nat :=
  if text.head? == some '0' && text.tail.head?.any isRadixMark then
    2 + countWhile isRadixChar (text.drop 2)
  else decimalLength text

theorem plainLength_cons (c : Char) (rest : List Char) :
    plainLength (c :: rest)
      = if some c == some '0' && rest.head?.any isRadixMark then
          2 + countWhile isRadixChar (rest.drop 1)
        else decimalLength (c :: rest) := rfl

theorem plainLength_withReturns (hc : c ≠ '\n') (rest : List Char) :
    plainLength (c :: withReturns rest) = plainLength (c :: rest)
      ∧ Inline (plainLength (c :: rest)) (c :: rest) := by
  have hdecimal := sameCount_decimalLength (c :: rest)
  rw [withReturns_cons hc] at hdecimal
  rw [plainLength_cons, plainLength_cons, any_withReturns (by decide)]
  by_cases hradix : (some c == some '0' && rest.head?.any isRadixMark) = true
  · rw [if_pos hradix, if_pos hradix]
    rw [Bool.and_eq_true, Option.any_eq_true] at hradix
    obtain ⟨-, d, hd, hmark⟩ := hradix
    have hnext : Inline 1 rest := .head hd (by rintro rfl; exact absurd hmark (by decide))
    obtain ⟨hsame, hinline⟩ := sameCount_countWhile (p := isRadixChar) (by decide) (by decide)
      (rest.drop 1)
    rw [hnext.drop, hsame, Nat.add_assoc 1 1]
    exact ⟨rfl, .cons hc (hnext.append hinline)⟩
  · rw [if_neg hradix, if_neg hradix]
    exact hdecimal

theorem number_withReturns (hc : c ≠ '\n') (rest : List Char) :
    number (c :: withReturns rest) = number (c :: rest)
      ∧ Inline (number (c :: rest)).length (c :: rest) := by
  obtain ⟨hsame, hinline⟩ := plainLength_withReturns hc rest
  have hnumber (text : List Char) : number text
      = { kind := .number, style := "number"
          length := if (text.drop (plainLength text)).head? == some 'n' then plainLength text + 1
            else plainLength text } := rfl
  rw [hnumber, hnumber, hsame, ← withReturns_cons hc, hinline.drop,
    head?_withReturns (by decide) (by decide)]
  refine ⟨rfl, ?_⟩
  simp only
  split
  · rename_i hsuffix
    exact hinline.append (.head (beq_iff_eq.mp hsuffix) (by decide))
  · exact hinline

/-! ### Words and operators -/

theorem isNameChar_breaks : isNameChar '\n' = false ∧ isNameChar '\r' = false := by
  decide +kernel

theorem wordKind_withReturns (afterMember : Bool) (piece rest : List Char) :
    wordKind afterMember piece (withReturns rest) = wordKind afterMember piece rest := by
  unfold wordKind
  rw [dropWhile_withReturns (by decide) (by decide), head?_withReturns (by decide) (by decide)]

theorem word_withReturns (detail : Detail) (s : LexState) {first : Nat} {text : List Char}
    (hfirst : Inline first text) :
    word detail s first (withReturns text) = word detail s first text
      ∧ Inline (word detail s first text).length text := by
  obtain ⟨hsame, hinline⟩ := sameCount_countWhile isNameChar_breaks.1 isNameChar_breaks.2
    (text.drop first)
  have hword := hfirst.append hinline
  simp only [word, hfirst.drop, hsame, hword.take, hword.drop, wordKind_withReturns]
  cases detail <;> exact ⟨trivial, hword⟩

theorem operator?_withReturns (text : List Char) :
    operator? (withReturns text) = operator? text := by
  have hplain : ∀ op ∈ operators, '\n' ∉ op ∧ '\r' ∉ op := by decide
  refine List.find?_congr fun op hop => ?_
  exact isPrefixOf_withReturns (hplain op hop).1 (hplain op hop).2 text

theorem operator_withReturns (hc : c ≠ '\n') (rest : List Char) :
    operator (c :: withReturns rest) = operator (c :: rest)
      ∧ Inline (operator (c :: rest)).length (c :: rest) := by
  have hplain : ∀ op ∈ operators, '\n' ∉ op := by decide
  rw [← withReturns_cons hc, operator, operator, operator?_withReturns]
  refine ⟨rfl, ?_⟩
  cases hop : operator? (c :: rest) with
  | none => exact inline_succ.mpr ⟨hc, inline_zero rest⟩
  | some op =>
      have hfits := List.find?_some
        (show operators.find? (·.isPrefixOf (c :: rest)) = some op from hop)
      rw [Inline, ← List.prefix_iff_eq_take.mp (List.isPrefixOf_iff_prefix.mp hfits)]
      exact hplain op (List.mem_of_find?_eq_some hop)

/-! ### Steps -/

/-- How the step `b` over the longer text compares with the step `a`. -/
def Step.Twins (pos : Nat) (text : List Char) (a b : Step) : Prop :=
  Twin pos text ⟨[a.lexeme], a.state, a.faults⟩ ⟨[b.lexeme], b.state, b.faults⟩

namespace Step.Twins

theorem ite {p : Prop} [Decidable p] {a a' b b' : Step} (ha : p → a.Twins pos text a')
    (hb : ¬p → b.Twins pos text b') :
    (if p then a else b).Twins pos text (if p then a' else b') := by
  by_cases h : p
  · rw [if_pos h, if_pos h]
    exact ha h
  · rw [if_neg h, if_neg h]
    exact hb h

end Step.Twins

/-- A slash. -/
theorem twins_scanSlash (s : LexState) (rest : List Char) :
    (scanSlash s pos ('/' :: rest)).Twins pos ('/' :: rest)
      (scanSlash s pos ('/' :: withReturns rest)) := by
  have hc : '/' ≠ '\n' := by decide
  simp only [scanSlash, List.tail_cons,
    head?_withReturns (show '/' ≠ '\n' by decide) (show '/' ≠ '\r' by decide),
    head?_withReturns (show '*' ≠ '\n' by decide) (show '*' ≠ '\r' by decide)]
  refine .ite (fun hline => ?_) fun _ => .ite (fun hcomment => ?_) fun _ => ?_
  · obtain ⟨hsame, hinline⟩ := sameCount_countWhile (p := fun c => !isLineBreak c) (by decide)
      (by decide) ('/' :: rest)
    rw [withReturns_cons hc] at hsame
    rw [hsame]
    exact .single (countWhile_pos rfl rest) hinline s []
  · rw [← withReturns_cons hc]
    exact .comment (by rw [hcomment]; rfl) s
  obtain ⟨hoperator, hinline⟩ := operator_withReturns hc rest
  have hplain : Step.Twins pos ('/' :: rest) { lexeme := operator ('/' :: rest), state := s }
      { lexeme := operator ('/' :: rest), state := s } :=
    .single (operator_length_pos _) hinline s []
  rw [hoperator]
  cases s.expressionAllowed with
  | false => exact hplain
  | true =>
      simp only [if_true, regex?_withReturns]
      cases hregex : regex? rest with
      | none => exact hplain
      | some l =>
          have hl : 0 < l.length := regex?_length_pos hregex
          have hkind : l.kind = .regex := by
            obtain ⟨n, -, rfl⟩ := Option.map_eq_some_iff.mp hregex
            rfl
          by_cases hline : Inline l.length ('/' :: rest)
          · simp only [Option.filter, hline, decide_true, if_true]
            exact .single hl hline s []
          · simp only [Option.filter, hline, decide_false, Bool.false_eq_true, if_false]
            exact .escaped hl (operator_length_pos _) hline (.inr (.inl hkind))
              (.inl (hkind ▸ operator_ne_regex _))

theorem twins_openTag (hc : c ≠ '\n') (s : LexState) (region : Region) :
    (openTag s region (c :: rest)).Twins pos (c :: rest)
      (openTag s region (c :: withReturns rest)) := by
  simp only [openTag, List.tail_cons,
    takeWhile_withReturns (p := isTagNameChar) (by decide +kernel) (by decide +kernel)]
  exact .more hc (inline_countWhile (by decide +kernel) rest) rfl _ []

theorem closeBrace_length (s : LexState) : (closeBrace s).lexeme.length = 1 := by
  unfold closeBrace
  grind [mark]

theorem twins_scanCode (hc : c ≠ '\n') (hc' : c ≠ '\r') (detail : Detail) (s : LexState) :
    (scanCode detail s pos c rest).Twins pos (c :: rest)
      (scanCode detail s pos c (withReturns rest)) := by
  have htag : startsTagName (withReturns rest) = startsTagName rest :=
    any_withReturns (by decide) rest
  have hprivate : (withReturns rest).head?.any isNameStart = rest.head?.any isNameStart :=
    any_withReturns (by decide +kernel) rest
  have hdots : Text.startsWith (withReturns rest) ['.', '.'] = Text.startsWith rest ['.', '.'] :=
    isPrefixOf_withReturns (by decide) (by decide) rest
  obtain ⟨hnumber, hnumber'⟩ := number_withReturns hc rest
  obtain ⟨hoperator, hoperator'⟩ := operator_withReturns hc rest
  obtain ⟨hword, hword'⟩ := word_withReturns detail s (inline_succ.mpr ⟨hc, inline_zero rest⟩)
  rw [withReturns_cons hc] at hword
  simp only [scanCode, whitespace?_withReturns hc hc', htag, hprivate, hdots, hnumber, hoperator,
    hword, startsDigit_withReturns]
  cases hspace : whitespace? (c :: rest) with
  | some l => exact .space hc hc' hspace s
  | none =>
      refine .ite (fun hslash => ?_) fun _ => ?_
      · obtain rfl := beq_iff_eq.mp hslash
        exact twins_scanSlash s rest
      refine .ite (fun hquote => .quoted (by simpa using hquote) _ (by decide) s) fun _ => ?_
      refine .ite (fun _ => .one hc rfl _ []) fun _ => .ite (fun _ => .one hc rfl _ []) fun _ => ?_
      refine .ite (fun _ => .one hc (closeBrace_length s) _ _) fun _ => ?_
      cases bracket? c with
      | some kind => exact .one hc rfl s []
      | none =>
          refine .ite (fun _ => twins_openTag hc s { start := pos }) fun _ => ?_
          refine .ite (fun h => .single (number_length_pos h) hnumber' s []) fun _ => ?_
          refine .ite (fun _ => .single (word_length_pos detail s Nat.one_pos _) hword' s [])
            fun _ => ?_
          refine .ite (fun h => ?_) fun _ => ?_
          · rw [Bool.and_eq_true, Option.any_eq_true] at h
            obtain ⟨-, d, hd, hname⟩ := h
            have hd' : d ≠ '\n' := by rintro rfl; exact absurd hname (by decide +kernel)
            obtain ⟨hword, hword'⟩ :=
              word_withReturns detail s (Inline.cons hc (Inline.head hd hd'))
            rw [withReturns_cons hc] at hword
            rw [hword]
            exact .single (word_length_pos detail s Nat.two_pos _) hword' s []
          refine .ite (fun _ => .one hc rfl s []) fun _ => ?_
          exact .single (operator_length_pos _) hoperator' s []

/-! ### Templates and embedded markup -/

theorem twins_scanTemplate (s : LexState) (start : Nat) {d : Char} {more : List Char}
    (hlong : withReturns (c :: rest) = d :: more) :
    (scanTemplate s start c rest).Twins pos (c :: rest) (scanTemplate s start d more) := by
  have hlength := templateLength_withReturns (c :: rest)
  rw [hlong] at hlength
  have hcontent (hpos : 0 < templateLength (c :: rest)) :
      let content (n : Nat) : Lexeme := { kind := .templateContent, length := n, style := "string" }
      Step.Twins pos (c :: rest) { lexeme := content (templateLength (c :: rest)), state := s }
        { lexeme := content (templateLength (d :: more)), state := s } :=
    .spread hpos rfl rfl hlength rfl (.inl (by simp))
  by_cases hc : c = '\n'
  · subst hc
    rw [withReturns_feed] at hlong
    obtain ⟨rfl, rfl⟩ := List.cons.inj hlong
    exact hcontent (templateLength_pos rfl rfl)
  · rw [withReturns_cons hc] at hlong
    obtain ⟨rfl, rfl⟩ := List.cons.inj hlong
    simp only [scanTemplate,
      head?_withReturns (show '{' ≠ '\n' by decide) (show '{' ≠ '\r' by decide)]
    refine .ite (fun _ => .one hc rfl _ []) fun hend => .ite (fun h => ?_) fun hopen => ?_
    · rw [Bool.and_eq_true, beq_iff_eq, beq_iff_eq] at h
      exact .more hc (.head h.2 (by decide)) rfl _ []
    · exact hcontent (templateLength_pos (Bool.eq_false_iff.mpr hend) (Bool.eq_false_iff.mpr hopen))

theorem twins_scanAttributes (hc : c ≠ '\n') (hc' : c ≠ '\r') (s : LexState) (region : Region) :
    (scanAttributes s region pos c rest).Twins pos (c :: rest)
      (scanAttributes s region pos c (withReturns rest)) := by
  have hname := sameCount_countWhile (p := fun c => !isAttributeStop c) (by decide) (by decide) rest
  simp only [scanAttributes, whitespace?_withReturns hc hc', hname.1,
    head?_withReturns (show '>' ≠ '\n' by decide) (show '>' ≠ '\r' by decide)]
  cases hspace : whitespace? (c :: rest) with
  | some l => exact .space hc hc' hspace s
  | none =>
      refine .ite (fun _ => .one hc rfl _ []) fun _ => .ite (fun h => ?_) fun _ => ?_
      · rw [Bool.and_eq_true, beq_iff_eq, beq_iff_eq] at h
        exact .more hc (.head h.2 (by decide)) rfl _ []
      refine .ite (fun _ => .one hc rfl _ []) fun _ => ?_
      refine .ite (fun hquote => .attributeValue (by simpa using hquote) _ s) fun _ => ?_
      exact .ite (fun _ => .one hc rfl s []) fun _ => .more hc hname.2 rfl s []

theorem twins_scanChildren (hc : c ≠ '\n') (hc' : c ≠ '\r') (s : LexState) (region : Region) :
    (scanChildren s region pos c rest).Twins pos (c :: rest)
      (scanChildren s region pos c (withReturns rest)) := by
  have htag : startsTagName (withReturns rest) = startsTagName rest :=
    any_withReturns (by decide) rest
  have htext := sameCount_countWhile (p := fun c => !isChildStop c) (by decide) (by decide) rest
  simp only [scanChildren, whitespace?_withReturns hc hc', htag, htext.1,
    head?_withReturns (show '/' ≠ '\n' by decide) (show '/' ≠ '\r' by decide)]
  refine .ite (fun _ => .one hc rfl _ []) fun _ => .ite (fun h => ?_) fun _ => ?_
  · rw [Bool.and_eq_true, beq_iff_eq, beq_iff_eq] at h
    rw [tail_withReturns h.2 (by decide),
      takeWhile_withReturns (by decide +kernel) (by decide +kernel), ← List.drop_one]
    have hname : Inline (countWhile isTagNameChar (rest.drop 1)) (rest.drop 1) :=
      inline_countWhile (by decide +kernel) _
    exact .more hc ((Inline.head h.2 (by decide)).append hname) (Nat.add_assoc 1 1 _) _ []
  refine .ite (fun _ => twins_openTag hc s region) fun _ => ?_
  cases hspace : whitespace? (c :: rest) with
  | some l => exact .space hc hc' hspace s
  | none => exact .more hc htext.2 rfl s []

theorem twins_scanResumed (hc : c ≠ '\n') (hc' : c ≠ '\r') (detail : Detail) (s : LexState)
    (region : Region) :
    (scanResumed detail s region pos c rest).Twins pos (c :: rest)
      (scanResumed detail s region pos c (withReturns rest)) :=
  .ite (fun _ => twins_scanCode hc hc' detail _) fun _ => twins_scanChildren hc hc' _ region

theorem twins_scanEndTag (hc : c ≠ '\n') (hc' : c ≠ '\r') (detail : Detail) (s : LexState)
    (region : Region) (name : String) (start : Nat) :
    (scanEndTag detail s region name start pos c rest).Twins pos (c :: rest)
      (scanEndTag detail s region name start pos c (withReturns rest)) := by
  simp only [scanEndTag, whitespace?_withReturns hc hc']
  refine .ite (fun _ => .one hc rfl _ []) fun _ => ?_
  cases hspace : whitespace? (c :: rest) with
  | some l => exact .space hc hc' hspace s
  | none => exact .fault _ rfl (twins_scanResumed hc hc' detail s region)

/-! ### Looks -/

theorem remember_withReturns {kind : TokenKind} (hkind : LexState.isWord kind = false)
    (s : LexState) (piece : List Char) :
    s.remember kind (withReturns piece) = s.remember kind piece := by
  have hempty : (withReturns piece).isEmpty = piece.isEmpty := by
    rw [Bool.eq_iff_iff, List.isEmpty_iff, List.isEmpty_iff, withReturns_eq_nil]
  unfold LexState.remember
  rw [hempty, hkind, getLast?_withReturns, withReturns_beq (by decide) (by decide),
    withReturns_beq (by decide) (by decide)]
  rfl

/-- What is remembered of the two pieces is the same. -/
theorem twin_remember {a b : Step} (h : a.Twins pos text b) :
    Twin pos text
      ⟨[a.lexeme], a.state.remember a.lexeme.kind (text.take a.lexeme.length), a.faults⟩
      ⟨[b.lexeme], b.state.remember b.lexeme.kind ((withReturns text).take b.lexeme.length),
        b.faults⟩ := by
  obtain ⟨l, state, fs⟩ := a
  obtain ⟨l', state', fs'⟩ := b
  cases h with
  | inline h =>
      have hpiece : Inline l.length text := by
        refine h.le ?_
        unfold Scan.pieces
        split <;> simp [Lexeme.width]
      rw [hpiece.take]
      exact .inline h
  | spread hl hkind hstyle hlength hcauses hlines =>
      have hword : LexState.isWord l.kind = false := by
        rcases hlines with hlines | ⟨hkind, -⟩
        · have hnone : ∀ kind ∈ [TokenKind.newline, .comment, .templateContent, .attributeValue],
              LexState.isWord kind = false := by decide
          exact hnone _ hlines
        · rw [hkind]
          rfl
      have hsame : state.remember l'.kind ((withReturns text).take l'.length)
          = state.remember l.kind (text.take l.length) := by
        rw [hkind, hlength, take_withReturns, remember_withReturns hword]
      show Twin pos text _ ⟨[l'], state.remember l'.kind ((withReturns text).take l'.length), fs'⟩
      rw [hsame]
      exact .spread hl hkind hstyle hlength hcauses hlines
  | escaped hl hl' hbreak hline hdiffers => exact .escaped hl hl' hbreak hline hdiffers

theorem twin_scan (detail : Detail) (s : LexState) (hreturn : '\r' ∉ c :: rest) :
    Twin pos (c :: rest) (scan detail s pos (c :: rest))
      (scan detail s pos (withReturns (c :: rest))) := by
  by_cases hc : c = '\n'
  · subst hc
    refine twin_remember ?_
    cases s.mode with
    | template start => exact twins_scanTemplate s start rfl
    | code | attributes | children | endTag => exact .newline rest s
  · have hc' : c ≠ '\r' := fun h => hreturn (h ▸ List.mem_cons_self)
    have hremember {a b : Step} (h : a.Twins pos (c :: rest) b) := twin_remember h
    rw [withReturns_cons hc] at hremember ⊢
    refine hremember ?_
    cases s.mode with
    | code => exact twins_scanCode hc hc' detail s
    | template start => exact twins_scanTemplate s start (withReturns_cons hc rest)
    | attributes region => exact twins_scanAttributes hc hc' s region
    | children region => exact twins_scanChildren hc hc' s region
    | endTag region name start => exact twins_scanEndTag hc hc' detail s region name start

/-! ### Attributes at fault -/

/-- What the step finds of an attribute at fault begins at `pos`. -/
def Step.Attributed (pos : Nat) (step : Step) : Prop :=
  ∀ f ∈ step.faults, f.cause.ofAttribute = true → f.start = pos

theorem Step.Attributed.of_nil {step : Step} (h : step.faults = []) : step.Attributed pos := by
  simp [Attributed, h]

theorem Step.Attributed.of_starts {step : Step} (h : ∀ f ∈ step.faults, f.start = pos) :
    step.Attributed pos :=
  fun f hf _ => h f hf

open Step.Attributed (of_nil of_starts)

theorem scanCode_attributed (detail : Detail) (s : LexState) (c : Char) (rest : List Char) :
    (scanCode detail s pos c rest).Attributed pos := by
  have hstep := scanCode_step detail s pos c rest
  generalize scanCode detail s pos c rest = step at hstep
  cases hstep with
  | slash =>
      refine of_starts ?_
      unfold scanSlash
      simp only
      split
      · simp
      split
      · exact delimited_starts (P := (· = (pos : Int))) _ _ _ _ _ rfl _
      split <;> simp
  | quoted => exact of_starts (quotedLiteral_starts (P := (· = (pos : Int))) _ _ _ _ _ rfl _)
  | closeBrace => exact of_nil (closeBrace_faults s)
  | _ => exact of_nil rfl

theorem scanAttributes_attributed (s : LexState) (region : Region) (c : Char) (rest : List Char) :
    (scanAttributes s region pos c rest).Attributed pos := by
  unfold scanAttributes
  split
  · exact of_nil rfl
  split
  · exact of_nil rfl
  split
  · exact of_nil rfl
  split
  · exact of_nil rfl
  split
  · exact of_starts (quotedLiteral_starts (P := (· = (pos : Int))) _ _ _ _ _ rfl _)
  split <;> exact of_nil rfl

theorem scanEndTag_attributed (detail : Detail) (s : LexState) (region : Region) (name : String)
    (start : Nat) (c : Char) (rest : List Char) :
    (scanEndTag detail s region name start pos c rest).Attributed pos := by
  unfold scanEndTag
  split
  · exact of_nil rfl
  split
  · exact of_nil rfl
  have hresumed : (scanResumed detail s region pos c rest).Attributed pos := by
    unfold scanResumed
    simp only
    split
    · exact scanCode_attributed detail _ c rest
    · exact of_nil (scanChildren_faults _ region pos c rest)
  exact List.forall_mem_cons.mpr ⟨fun h => absurd h Bool.false_ne_true, hresumed⟩

theorem scan_attributes (detail : Detail) (s : LexState) (pos : Nat) (text : List Char) :
    ∀ f ∈ (scan detail s pos text).faults, f.cause.ofAttribute = true → f.start = pos := by
  cases text with
  | nil => simp [scan]
  | cons c rest =>
      simp only [scan]
      split
      · exact scanCode_attributed detail s c rest
      · exact of_nil (scanTemplate_faults s _ c rest)
      · exact scanAttributes_attributed s _ c rest
      · exact of_nil (scanChildren_faults s _ pos c rest)
      · exact scanEndTag_attributed detail s _ _ _ c rest

theorem finish_attributes (s : LexState) (pos : Nat) :
    ∀ f ∈ finish s pos, f.cause.ofAttribute = false := by
  intro f hf
  rw [finish, List.mem_append, List.mem_filterMap] at hf
  rcases hf with hf | ⟨frame, -, hf⟩
  · split at hf <;> simp at hf <;> rw [hf] <;> rfl
  · split at hf
    · cases hf
      rfl
    · cases hf

/-- The scanner of scripts says the same of either text, apart from offsets. -/
theorem twins_scanner (detail : Detail) :
    (scanner detail).Twins fun s s' => s.forget = s'.forget where
  blind := by
    intro s s' hs pos pos' text
    obtain ⟨hlexemes, hstate, hcauses⟩ := scan_forgets pos detail s text
    obtain ⟨hlexemes', hstate', hcauses'⟩ := scan_forgets pos' detail s' text
    rw [← hs] at hlexemes' hstate' hcauses'
    exact ⟨hlexemes'.symm.trans hlexemes, hcauses'.symm.trans hcauses, hstate.symm.trans hstate'⟩
  finish := by
    intro s s' hs pos pos'
    exact (finish_forgets pos' s').symm.trans (hs ▸ finish_forgets pos s)
  twin s pos c rest hreturn := twin_scan detail s hreturn
  attributes := scan_attributes detail
  finished := finish_attributes

end Script
end SourceView
