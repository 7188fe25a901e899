/-
Each rule of stylesheets at an offset is the rule for the text ahead.

Rule by rule: what is emitted begins at the offset of the look, one token where the other ends,
and the next look is due where the last of them ends; and no rule reads or moves past the end of
the window.
-/
import SourceView.Proofs.Lexing.Handover
import SourceView.Proofs.Stylesheet.Ahead

namespace SourceView.Stylesheet

open Lexing Window Look

variable {w : Window} {pos : Nat} {detail : Detail} {c : Char} (s : LexState)

/-! ### What stands at an offset -/

theorem digitAt_eq : digitAt w pos = startsDigit (w.ahead pos) := by
  rw [digitAt, startsDigit, head?_ahead]

theorem nameAt_eq : nameAt w pos = startsName (w.ahead pos) := by
  rw [nameAt, startsName, head?_ahead]

theorem nameEnd_eq : nameEnd w pos = pos + nameLength (w.ahead pos) :=
  w.skipWhile_eq pos _

theorem nameEnd_le (h : pos ≤ w.stop) : nameEnd w pos ≤ w.stop :=
  skipWhile_le h

theorem slice_nameEnd : w.slice pos (nameEnd w pos) = (w.ahead pos).takeWhile isNameChar :=
  w.slice_skipWhile

/-- Behind a sign, or at once. -/
theorem signAt_eq : (if signAt w pos then pos + 1 else pos) = pos + signLength (w.ahead pos) := by
  rw [signAt, signLength, head?_ahead]
  by_cases h : (w.at? pos == some '+' || w.at? pos == some '-') = true
  · rw [if_pos h, if_pos h]
  · rw [if_neg h, if_neg h, Nat.add_zero]

theorem nestedAt_eq : nestedAt w pos = LexState.looksNested (w.ahead pos) := by
  have hfind (text : List Char) : (text.drop (countWhile (fun c => !isStatementEnd c) text)).head?
      = text.find? isStatementEnd := by
    induction text with
    | nil => rfl
    | cons c text ih =>
        rw [countWhile, List.takeWhile_cons, List.find?_cons]
        cases hc : isStatementEnd c with
        | true => rfl
        | false =>
            simp only [Bool.not_false, if_true, List.length_cons, List.drop_succ_cons]
            exact ih
  rw [nestedAt, skipUntil_eq, ← head?_ahead, ← drop_ahead, hfind]
  rfl

theorem beginAt_eq : s.beginAt w pos = s.begin (w.ahead pos) := by
  rw [LexState.beginAt, LexState.begin, nestedAt_eq]

theorem numberAt_eq (hc : w.at? pos = some c) (inSelector : Bool) :
    numberAt inSelector w pos = startsNumber inSelector (c :: w.ahead (pos + 1)) := by
  rw [numberAt, startsNumber, digitAt_eq, digitAt_eq, digitAt_eq, signAt, hc, ahead_eq_cons hc,
    startsDigit, head?_ahead, tail_ahead]
  rfl

theorem startsDigit_iff (text : List Char) :
    startsDigit text = true ↔ countWhile Char.isDigit text ≠ 0 := by
  cases text with
  | nil => simp [startsDigit, countWhile]
  | cons c text =>
      rw [startsDigit, countWhile, List.takeWhile_cons]
      cases hc : c.isDigit <;> simp [hc]

theorem numberEnd_eq : numberEnd w pos = pos + numberLength (w.ahead pos) := by
  have hwhole : w.skipWhile Char.isDigit (if signAt w pos then pos + 1 else pos)
      = pos + (signLength (w.ahead pos)
        + countWhile Char.isDigit ((w.ahead pos).drop (signLength (w.ahead pos)))) := by
    rw [signAt_eq, skipWhile_eq, drop_ahead, Nat.add_assoc]
  unfold numberEnd numberLength
  simp only [hwhole]
  generalize signLength (w.ahead pos)
    + countWhile Char.isDigit ((w.ahead pos).drop (signLength (w.ahead pos))) = n
  simp only [drop_ahead, tail_ahead, head?_ahead, digitAt_eq, skipWhile_eq]
  have hpoint : (if (w.at? (pos + n) == some '.' && startsDigit (w.ahead (pos + n + 1))) = true
        then pos + n + 1 + countWhile Char.isDigit (w.ahead (pos + n + 1)) else pos + n)
      = pos + (if (w.at? (pos + n) == some '.' && startsDigit (w.ahead (pos + n + 1))) = true
        then n + 1 + countWhile Char.isDigit (w.ahead (pos + n + 1)) else n) := by
    split <;> omega
  rw [hpoint]
  generalize (if (w.at? (pos + n) == some '.' && startsDigit (w.ahead (pos + n + 1))) = true
    then n + 1 + countWhile Char.isDigit (w.ahead (pos + n + 1)) else n) = m
  by_cases hmark : (w.at? (pos + m) == some 'e' || w.at? (pos + m) == some 'E') = true
  · have hsign : (if signAt w (pos + m + 1) = true then pos + m + 2 else pos + m + 1)
        = pos + m + (1 + signLength (w.ahead (pos + m + 1))) := by
      rw [show pos + m + 2 = pos + m + 1 + 1 from rfl, signAt_eq]
      omega
    rw [if_pos hmark, if_pos hmark, hsign]
    by_cases hdigits : countWhile Char.isDigit
        (w.ahead (pos + m + (1 + signLength (w.ahead (pos + m + 1))))) = 0
    · rw [if_pos hdigits, if_neg fun hdigit => (startsDigit_iff _).mp hdigit hdigits]
    · rw [if_neg hdigits, if_pos ((startsDigit_iff _).mpr hdigits)]
      omega
  · rw [if_neg hmark, if_neg hmark]

theorem numberEnd_le (h : pos ≤ w.stop) : numberEnd w pos ≤ w.stop := by
  have hdigits {p : Nat} (hp : p ≤ w.stop) : w.skipWhile Char.isDigit p ≤ w.stop := skipWhile_le hp
  have hsome {p : Nat} {c : Char} (hp : (w.at? p == some c) = true) : p < w.stop :=
    lt_stop (beq_iff_eq.mp hp)
  unfold numberEnd signAt
  grind

theorem emitNumber_eq : emitNumber w pos = (number (w.ahead pos)).emission pos := by
  have hstop : w.skipWhile Text.isLetter (numberEnd w pos)
      = numberEnd w pos + ((w.ahead (numberEnd w pos)).takeWhile Text.isLetter).length :=
    w.skipWhile_eq _ _
  have hunit : w.slice (numberEnd w pos)
        (numberEnd w pos + ((w.ahead (numberEnd w pos)).takeWhile Text.isLetter).length)
      = (w.ahead (numberEnd w pos)).takeWhile Text.isLetter := by
    rw [← hstop]
    exact w.slice_skipWhile
  simp only [emitNumber, number, drop_ahead, head?_ahead, ← numberEnd_eq, hstop, hunit]
  by_cases hpercent : (w.at? (numberEnd w pos) == some '%') = true
  · rw [if_pos hpercent, if_pos hpercent, numberEnd_eq]
    rfl
  rw [if_neg hpercent, if_neg hpercent]
  generalize (w.ahead (numberEnd w pos)).takeWhile Text.isLetter = unit
  cases unit with
  | nil =>
      rw [List.length_nil, Nat.add_zero, if_pos rfl, if_pos List.isEmpty_nil, numberEnd_eq]
      rfl
  | cons d unit =>
      have hunit : ¬(d :: unit).isEmpty = true := Bool.false_ne_true
      rw [List.length_cons, if_neg (by omega), if_neg hunit, numberEnd_eq, Nat.add_assoc]
      rfl

theorem emitNumber_le (h : pos ≤ w.stop) : (emitNumber w pos).stop ≤ w.stop := by
  have hdigits : numberEnd w pos ≤ w.stop := numberEnd_le h
  have hunit : w.skipWhile Text.isLetter (numberEnd w pos) ≤ w.stop := skipWhile_le hdigits
  unfold emitNumber
  by_cases hpercent : (w.at? (numberEnd w pos) == some '%') = true
  · rw [if_pos hpercent]
    exact lt_stop (beq_iff_eq.mp hpercent)
  · rw [if_neg hpercent]
    by_cases hnone : w.skipWhile Text.isLetter (numberEnd w pos) = numberEnd w pos
    · rw [if_pos hnone]
      exact hunit
    · rw [if_neg hnone]
      exact hunit

/-! ### Rules of a rich run -/

theorem lookAtRule_tells (h : pos < w.stop) :
    (lookAtRule w s pos).Tells detail w pos (scanAtRule s (w.ahead (pos + 1))) := by
  have hle : nameEnd w (pos + 1) ≤ w.stop := nameEnd_le h
  rw [lookAtRule, scanAtRule, slice_nameEnd]
  by_cases hname : (w.ahead (pos + 1)).takeWhile isNameChar = []
  · have hstop : nameEnd w (pos + 1) = pos + 1 := by
      rw [nameEnd_eq, nameLength, countWhile, hname]
      rfl
    simp only [hstop, hname, if_true, List.isEmpty_nil]
    exact .emit rfl h
  · have hstop : nameEnd w (pos + 1) ≠ pos + 1 := Nat.ne_of_gt (w.lt_skipWhile_iff.mpr hname)
    simp only [hstop, hname, if_false, List.isEmpty_iff]
    refine .emit ?_ hle
    rw [nameEnd_eq, Lexeme.emission, nameLength, countWhile, Nat.add_assoc]

theorem lookColon_tells (h : pos < w.stop) :
    (lookColon w s pos).Tells detail w pos (scanColon s (w.ahead (pos + 1))) := by
  have hname : (if (w.at? (pos + 1) == some ':') = true then pos + 2 else pos + 1)
      = pos + 1 + ((if (w.at? (pos + 1) == some ':') = true then 2 else 1) - 1) := by
    split <;> rfl
  have hcolons : (if (w.at? (pos + 1) == some ':') = true then 2 else 1) - 1 + 1
      = if (w.at? (pos + 1) == some ':') = true then 2 else 1 := by
    split <;> rfl
  have hle : pos + 1 + ((if (w.at? (pos + 1) == some ':') = true then 2 else 1) - 1) ≤ w.stop := by
    by_cases hcolon : (w.at? (pos + 1) == some ':') = true
    · rw [if_pos hcolon]
      exact lt_stop (beq_iff_eq.mp hcolon)
    · rw [if_neg hcolon]
      exact h
  simp only [lookColon, scanColon, hname, slice_nameEnd, drop_ahead, head?_ahead]
  generalize hn : (if (w.at? (pos + 1) == some ':') = true then 2 else 1) = n at *
  have hpseudo : (decide (pos + 1 + (n - 1) < nameEnd w (pos + 1 + (n - 1))))
      = !((w.ahead (pos + 1 + (n - 1))).takeWhile isNameChar).isEmpty := by
    rw [Bool.eq_iff_iff, decide_eq_true_iff, nameEnd, lt_skipWhile_iff]
    simp
  rw [hpseudo]
  refine .ite (fun _ => .emit ?_ (nameEnd_le hle)) fun _ => .emit rfl h
  rw [nameEnd_eq, Lexeme.emission, nameLength, countWhile]
  simp only [Emission.mk.injEq, true_and, and_true]
  omega

theorem lookHash_tells (h : pos < w.stop) :
    (lookHash w s pos).Tells detail w pos (scanHash s (w.ahead (pos + 1))) := by
  have hname : nameEnd w (pos + 1) ≤ w.stop := nameEnd_le h
  have hdigits : w.skipWhile isHexDigit (pos + 1) ≤ w.stop := skipWhile_le h
  simp only [lookHash, scanHash, drop_ahead, head?_ahead]
  by_cases hselector : s.inSelector = true
  · rw [if_pos hselector, if_pos hselector]
    by_cases hnone : nameLength (w.ahead (pos + 1)) = 0
    · rw [if_pos hnone, if_neg (by rw [nameEnd_eq]; omega)]
      exact .emit rfl h
    · rw [if_neg hnone, if_pos (by rw [nameEnd_eq]; omega)]
      refine .emit ?_ hname
      rw [nameEnd_eq, Lexeme.emission, Nat.add_assoc]
  · rw [if_neg hselector, if_neg hselector]
    have hcount : w.skipWhile isHexDigit (pos + 1) - pos - 1
        = countWhile isHexDigit (w.ahead (pos + 1)) := by
      rw [skipWhile_eq]
      omega
    rw [hcount, w.skipWhile_eq (pos + 1) isHexDigit]
    rw [w.skipWhile_eq] at hdigits
    generalize countWhile isHexDigit (w.ahead (pos + 1)) = n at *
    by_cases hcolor : ((n == 3 || n == 4 || n == 6 || n == 8)
        && !Option.any isNameChar (w.at? (pos + 1 + n))) = true
    · rw [if_pos hcolor, if_pos hcolor]
      refine .emit ?_ hdigits
      rw [Lexeme.emission, Nat.add_assoc]
    · rw [if_neg hcolor, if_neg hcolor]
      exact .emit rfl h

theorem lookBang_tells (h : pos < w.stop) :
    (lookBang w s pos).Tells detail w pos (scanBang s (w.ahead (pos + 1))) := by
  have hname : nameEnd w (pos + 1) ≤ w.stop := nameEnd_le h
  simp only [lookBang, scanBang, slice_nameEnd]
  refine .ite (fun _ => .emit ?_ hname) fun _ => .emit rfl h
  rw [nameEnd_eq, Lexeme.emission, nameLength, countWhile, Nat.add_assoc]

/-- The address at an offset is the one at the start of the text ahead, and the next look is due
behind it. -/
theorem addressAt_eq :
    addressAt w pos = (Lexeme.place pos (urlBody (w.ahead pos)),
      pos + Lexeme.width (urlBody (w.ahead pos))) := by
  simp only [addressAt, urlBody, skipUntil_eq, skipWhile_eq, drop_ahead, head?_ahead]
  generalize countWhile isSpace (w.ahead pos) = n
  cases w.at? (pos + n) with
  | none => rfl
  | some c =>
      dsimp only
      by_cases hquote : (c == '"' || c == '\'' || c == ')') = true
      · rw [if_pos hquote, if_pos hquote]
        rfl
      · rw [if_neg hquote, if_neg hquote]
        by_cases hn : n = 0
        · rw [if_pos hn, if_neg (by omega), hn]
          rfl
        · rw [if_neg hn, if_pos (by omega)]
          simp only [Lexeme.place, Lexeme.emission, Lexeme.width, List.cons_append, List.nil_append,
            Nat.add_assoc, Nat.add_zero]

theorem addressAt_le (h : pos ≤ w.stop) : (addressAt w pos).2 ≤ w.stop := by
  have hspace : w.skipWhile isSpace pos ≤ w.stop := skipWhile_le h
  have hstop : w.skipUntil isUrlStop (w.skipWhile isSpace pos) ≤ w.stop := skipUntil_le hspace
  unfold addressAt
  grind

theorem lookWord_tells (hc : w.at? pos = some c) :
    (lookWord w s pos).Tells detail w pos (scanWord s (w.ahead pos)) := by
  have hname : nameEnd w (pos + 1) = pos + (1 + nameLength (w.ahead (pos + 1))) := by
    rw [nameEnd_eq, Nat.add_assoc]
  have hle : pos + (1 + nameLength (w.ahead (pos + 1))) ≤ w.stop := by
    rw [← hname]
    exact nameEnd_le (lt_stop hc)
  have hword : w.slice pos (pos + (1 + nameLength (w.ahead (pos + 1))))
      = (w.ahead pos).take (1 + nameLength (w.ahead (pos + 1))) := by
    refine w.slice_eq ?_
    rw [w.length_ahead]
    omega
  simp only [lookWord, scanWord, hname, hword, tail_ahead, drop_ahead, head?_ahead]
  generalize 1 + nameLength (w.ahead (pos + 1)) = n at *
  by_cases hcall : (w.at? (pos + n) == some '(') = true
  · rw [if_pos hcall, if_pos hcall]
    have hparen : pos + n < w.stop := lt_stop (beq_iff_eq.mp hcall)
    by_cases hurl : (Text.lowerChars ((w.ahead pos).take n) == "url".toList) = true
    · have haddress : (addressAt w (pos + n + 1)).2 ≤ w.stop := addressAt_le hparen
      simp only [hurl, if_true, addressAt_eq] at haddress ⊢
      refine ⟨?_, ?_, haddress, rfl, rfl, List.Subset.refl _⟩
      · rfl
      · simp only [Lexeme.width, mark]
        omega
    · simp only [hurl, if_false, Bool.false_eq_true]
      refine ⟨rfl, ?_, hparen, rfl, rfl, List.Subset.refl _⟩
      simp only [Lexeme.width, mark]
      omega
  · rw [if_neg hcall, if_neg hcall]
    exact .emit rfl hle

theorem lookInStatement_tells (hc : w.at? pos = some c) :
    (lookInStatement w s pos c).Tells detail w pos
      (scanInStatement s pos c (w.ahead (pos + 1))) := by
  have h : pos < w.stop := lt_stop hc
  have hnext {d : Char} (hd : (w.at? (pos + 1) == some d) = true) : pos + 1 < w.stop :=
    lt_stop (beq_iff_eq.mp hd)
  have hahead := ahead_eq_cons hc
  simp only [lookInStatement, scanInStatement, numberAt_eq hc, nameAt_eq, head?_ahead, tail_ahead,
    ← hahead]
  refine .ite (fun _ => quotedAt_tells s h) fun _ => .ite (fun _ => .emit rfl h) fun _ =>
    .ite (fun _ => lookAtRule_tells s h) fun _ => .ite (fun _ => lookColon_tells s h) fun _ =>
    .ite (fun _ => lookHash_tells s h) fun _ => .ite (fun _ => lookBang_tells s h) fun _ =>
    .ite (fun _ => .emit emitNumber_eq (emitNumber_le (Nat.le_of_lt h))) fun _ =>
    .ite (fun hdash => ?_) fun _ => .ite (fun _ => ?_) fun _ =>
    .ite (fun _ => lookWord_tells s hc) fun _ =>
    .ite (fun _ => .emit rfl h) fun _ => .stay (Nat.le_of_lt h)
  · rw [Bool.and_eq_true] at hdash
    refine .emit ?_ (nameEnd_le (hnext hdash.2))
    rw [nameEnd_eq, Lexeme.emission, Nat.add_assoc]
  · refine .emit ?_ (nameEnd_le h)
    rw [nameEnd_eq, Lexeme.emission, Nat.add_assoc]

/-- A comment begins where a slash and an asterisk stand. -/
theorem comment_le (h : (c == '/' && w.at? (pos + 1) == some '*') = true) : pos + 2 ≤ w.stop := by
  rw [Bool.and_eq_true] at h
  exact lt_stop (beq_iff_eq.mp h.2)

theorem lookRich_tells (h : pos < w.stop) :
    (lookRich w s pos).Tells detail w pos (scanRich s pos (w.ahead pos)) := by
  obtain ⟨c, hc⟩ := exists_at? h
  have hahead := ahead_eq_cons hc
  rw [lookRich, hc, hahead]
  simp only [lookRichAt, scanRich, ← hahead]
  obtain ⟨l, hat, hspace, hle⟩ | ⟨hat, hspace⟩ := whitespaceAt?_cases hc
  · rw [hat, hspace]
    exact .emit rfl hle
  simp only [hat, hspace, head?_ahead, beginAt_eq]
  refine .ite (fun hstar => delimitedAt_tells s (List.cons_ne_nil _ _) (comment_le hstar)) fun _ =>
    .ite (fun _ => .emit rfl h) fun _ =>
    .ite (fun _ => .emit rfl h) fun _ => .ite (fun _ => .emit rfl h) fun _ => ?_
  cases delimiter? c with
  | some kind => exact .emit rfl h
  | none => exact lookInStatement_tells _ hc

/-! ### Rules of a structural run -/

theorem lookStructural_tells (u : Unit) (h : pos < w.stop) :
    (lookStructural w u pos).Tells .structural w pos (scanStructural u pos (w.ahead pos)) := by
  obtain ⟨c, hc⟩ := exists_at? h
  have hahead := ahead_eq_cons hc
  rw [lookStructural, hc, hahead]
  simp only [scanStructural, ← hahead, head?_ahead]
  refine .ite (fun hstar => delimitedAt_tells () (List.cons_ne_nil _ _) (comment_le hstar))
    fun _ => ?_
  cases delimiter? c with
  | some kind => exact .emit rfl h
  | none =>
      refine .ite (fun _ => quotedAt_tells () h) fun _ => .move rfl ?_ (skipUntil_le h)
      rw [skipUntil_eq, Nat.add_assoc]

/-! ### Runs -/

/-- Every rule hands over where the next one starts. -/
theorem richLexer_handsOver (w : Window) : richLexer.HandsOver .rich w :=
  fun s _ h => (lookRich_tells s h).handsOver

theorem structuralLexer_handsOver (w : Window) : structuralLexer.HandsOver .structural w :=
  fun u _ h => (lookStructural_tells u h).handsOver

theorem lexWithin_laid (detail : Detail) (w : Window) {start : Nat} (hstart : start ≤ w.stop) :
    Token.Laid detail.gap start w.stop (lexWithin detail w start).tokens := by
  cases detail with
  | rich => exact Lexer.run_laid (richLexer_handsOver w) {} hstart
  | structural => exact Lexer.run_laid (structuralLexer_handsOver w) () hstart

/-- **A run over a window is the run over the text ahead.** -/
theorem lexWithin_eq (detail : Detail) (w : Window) (start : Nat) :
    lexWithin detail w start = lex detail start (w.ahead start) := by
  cases detail with
  | rich =>
      exact @Lexer.run_eq _ w .rich _ richScanner rfl
        (fun s pos h => lookRich_tells s h) {} start
  | structural =>
      exact @Lexer.run_eq _ w .structural _ structuralScanner rfl
        (fun u pos h => lookStructural_tells u h) () start

end SourceView.Stylesheet
