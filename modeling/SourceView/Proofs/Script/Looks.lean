/-
Each rule of scripts at an offset is the rule for the text ahead.

Rule by rule: the one token that is emitted begins at the offset of the look, the next look is
due where it ends, and no rule reads or moves past the end of the window.  What the state
remembers of a token is then the same text, too.
-/
import SourceView.Proofs.Lexing.Handover
import SourceView.Proofs.Script.Ahead

namespace SourceView.Script

open Lexing Window Look

variable {w : Window} {pos : Nat} {detail : Detail} {c : Char} {s : LexState}

/-- A step as a scan of one piece. -/
def Step.scan (step : Step) : Scan LexState :=
  ⟨[step.lexeme], step.state, step.faults⟩

theorem Step.tells_ite {p : Prop} [Decidable p] {look look' : Look LexState} {step step' : Step}
    (h : p → look.Tells .rich w pos step.scan) (h' : ¬p → look'.Tells .rich w pos step'.scan) :
    (if p then look else look').Tells .rich w pos (if p then step else step').scan := by
  rw [apply_ite Step.scan]
  exact Tells.ite h h'

/-! ### What stands at an offset -/

theorem digitAt_eq : digitAt w pos = startsDigit (w.ahead pos) := by
  rw [digitAt, startsDigit, head?_ahead]

theorem tagNameAt_eq : tagNameAt w pos = startsTagName (w.ahead pos) := by
  rw [tagNameAt, startsTagName, head?_ahead]

theorem regexEnd_of_le (left : Nat) (inBrackets : Bool) (h : w.stop ≤ pos) :
    regexEnd w left inBrackets pos = none := by
  have hnone : w.at? pos = none := (w.at?_eq_none_iff pos).mpr h
  cases left <;> simp only [regexEnd, hnone]

/-- A regular expression closes where the text ahead has it close. -/
theorem regexEnd_eq (left : Nat) (hleft : w.stop - pos ≤ left) (inBrackets : Bool) :
    regexEnd w left inBrackets pos = (regexBody inBrackets (w.ahead pos)).map (pos + ·) := by
  induction left generalizing pos inBrackets with
  | zero =>
      have hstop : w.stop ≤ pos := by omega
      rw [regexEnd_of_le _ _ hstop, (w.ahead_eq_nil_iff pos).mpr hstop]
      rfl
  | succ left ih =>
      cases hc : w.at? pos with
      | none =>
          rw [regexEnd_of_le _ _ ((w.at?_eq_none_iff pos).mp hc), ahead_eq_nil hc]
          rfl
      | some c =>
          have hlt := lt_stop hc
          have hnext (b : Bool) : regexEnd w left b (pos + 1)
              = ((regexBody b (w.ahead (pos + 1))).map (· + 1)).map (pos + ·) := by
            rw [@ih (pos + 1) (by omega), Option.map_map]
            refine congrArg (fun f => Option.map f _) (funext fun n => ?_)
            show pos + 1 + n = pos + (n + 1)
            omega
          rw [ahead_eq_cons hc, regexEnd, hc]
          dsimp only
          by_cases hback : c = '\\'
          · subst hback
            rw [if_pos (beq_self_eq_true _)]
            -- The backslash may be the last character of the window.
            cases hd : w.at? (pos + 1) with
            | none =>
                have hstop : w.stop ≤ pos + 1 := (w.at?_eq_none_iff _).mp hd
                rw [regexEnd_of_le _ _ (by omega), ahead_eq_nil hd]
                rfl
            | some d =>
                have hahead : w.ahead (pos + 1) = d :: w.ahead (pos + 2) := ahead_eq_cons hd
                rw [hahead, @ih (pos + 2) (by omega), regexBody, Option.map_map]
                refine congrArg (fun f => Option.map f _) (funext fun n => ?_)
                show pos + 2 + n = pos + (n + 2)
                omega
          · rw [if_neg (by simpa using hback), regexBody_cons _ hback, hnext, hnext]
            simp only [apply_ite (Option.map (pos + ·)), Option.map_none, Option.map_some]

theorem templateEnd_of_le (left : Nat) (h : w.stop ≤ pos) : templateEnd w left pos = w.stop := by
  have hnone : w.at? pos = none := (w.at?_eq_none_iff pos).mpr h
  cases left <;> simp only [templateEnd, hnone, Nat.min_eq_right h]

/-- The text of a template ends where the text ahead has it end, within the window. -/
theorem templateEnd_eq (left : Nat) (hleft : w.stop - pos ≤ left) (hpos : pos ≤ w.stop) :
    templateEnd w left pos = pos + templateLength (w.ahead pos) ∧ templateEnd w left pos ≤ w.stop := by
  induction left generalizing pos with
  | zero =>
      have hstop : w.stop ≤ pos := by omega
      rw [templateEnd_of_le _ hstop, (w.ahead_eq_nil_iff pos).mpr hstop]
      exact ⟨Nat.le_antisymm hstop hpos, Nat.le_refl _⟩
  | succ left ih =>
      cases hc : w.at? pos with
      | none =>
          have hstop : w.stop ≤ pos := (w.at?_eq_none_iff pos).mp hc
          rw [templateEnd_of_le _ hstop, ahead_eq_nil hc]
          exact ⟨Nat.le_antisymm hstop hpos, Nat.le_refl _⟩
      | some c =>
          have hlt := lt_stop hc
          rw [ahead_eq_cons hc, templateEnd, hc]
          dsimp only
          by_cases hback : c = '\\'
          · subst hback
            rw [if_pos (beq_self_eq_true _)]
            cases hd : w.at? (pos + 1) with
            | none =>
                have hstop : w.stop ≤ pos + 1 := (w.at?_eq_none_iff _).mp hd
                rw [templateEnd_of_le _ (by omega), ahead_eq_nil hd]
                exact ⟨Nat.le_antisymm hstop hlt, Nat.le_refl _⟩
            | some d =>
                have hahead : w.ahead (pos + 1) = d :: w.ahead (pos + 2) := ahead_eq_cons hd
                obtain ⟨heq, hle⟩ := @ih (pos + 2) (by omega) (lt_stop hd)
                rw [hahead, templateLength]
                exact ⟨by omega, hle⟩
          · rw [if_neg (by simpa using hback), templateLength_cons hback, head?_ahead]
            by_cases hends : (c == '\x60' || (c == '$' && w.at? (pos + 1) == some '{')) = true
            · rw [if_pos hends, if_pos hends]
              exact ⟨rfl, hpos⟩
            · obtain ⟨heq, hle⟩ := @ih (pos + 1) (by omega) hlt
              rw [if_neg hends, if_neg hends]
              exact ⟨by omega, hle⟩

theorem decimalEnd_eq : decimalEnd w pos = pos + decimalLength (w.ahead pos) := by
  unfold decimalEnd decimalLength
  simp only [skipWhile_eq]
  generalize countWhile isNumberChar (w.ahead pos) = n
  simp only [drop_ahead, tail_ahead, head?_ahead, digitAt_eq]
  have hpoint : (if (w.at? (pos + n) == some '.') = true
        then pos + n + 1 + countWhile isNumberChar (w.ahead (pos + n + 1)) else pos + n)
      = pos + (if (w.at? (pos + n) == some '.') = true
        then n + 1 + countWhile isNumberChar (w.ahead (pos + n + 1)) else n) := by
    split <;> omega
  rw [hpoint]
  generalize (if (w.at? (pos + n) == some '.') = true
    then n + 1 + countWhile isNumberChar (w.ahead (pos + n + 1)) else n) = m
  by_cases hmark : (w.at? (pos + m) == some 'e' || w.at? (pos + m) == some 'E') = true
  · have hsign : (if (w.at? (pos + m + 1) == some '+' || w.at? (pos + m + 1) == some '-') = true
          then pos + m + 2 else pos + m + 1)
        = pos + m + (1 + if (w.at? (pos + m + 1) == some '+' || w.at? (pos + m + 1) == some '-') = true
          then 1 else 0) := by
      split <;> omega
    rw [if_pos hmark, if_pos hmark, hsign]
    by_cases hdigits : startsDigit (w.ahead (pos + m + (1 + if (w.at? (pos + m + 1) == some '+'
        || w.at? (pos + m + 1) == some '-') = true then 1 else 0))) = true
    · rw [if_pos hdigits, if_pos hdigits]
      omega
    · rw [if_neg hdigits, if_neg hdigits]
  · rw [if_neg hmark, if_neg hmark]

theorem emitNumber_eq : emitNumber w pos = (number (w.ahead pos)).emission pos := by
  have hdigits : (if (w.at? pos == some '0' && (w.at? (pos + 1)).any isRadixMark) = true
        then w.skipWhile isRadixChar (pos + 2) else decimalEnd w pos)
      = pos + if (w.at? pos == some '0' && (w.at? (pos + 1)).any isRadixMark) = true
        then 2 + countWhile isRadixChar (w.ahead (pos + 2)) else decimalLength (w.ahead pos) := by
    rw [skipWhile_eq, decimalEnd_eq]
    split <;> omega
  simp only [emitNumber, number, hdigits, drop_ahead, tail_ahead, head?_ahead, Lexeme.emission,
    Emission.mk.injEq, true_and, and_true]
  generalize (if (w.at? pos == some '0' && (w.at? (pos + 1)).any isRadixMark) = true
    then 2 + countWhile isRadixChar (w.ahead (pos + 2)) else decimalLength (w.ahead pos)) = n
  by_cases hn : (w.at? (pos + n) == some 'n') = true
  · rw [if_pos hn, if_pos hn, Nat.add_assoc]
  · rw [if_neg hn, if_neg hn]

theorem decimalEnd_le (h : pos ≤ w.stop) : decimalEnd w pos ≤ w.stop := by
  have hskip {q : Nat} (hq : q ≤ w.stop) : w.skipWhile isNumberChar q ≤ w.stop := skipWhile_le hq
  have hsome {q : Nat} {c : Char} (hq : (w.at? q == some c) = true) : q < w.stop :=
    lt_stop (beq_iff_eq.mp hq)
  unfold decimalEnd
  grind

theorem emitNumber_le (h : pos ≤ w.stop) : (emitNumber w pos).stop ≤ w.stop := by
  have hdecimal : decimalEnd w pos ≤ w.stop := decimalEnd_le h
  have hsome {q : Nat} {c : Char} (hq : (w.at? q == some c) = true) : q < w.stop :=
    lt_stop (beq_iff_eq.mp hq)
  have hradix (hmark : (w.at? (pos + 1)).any isRadixMark = true) :
      w.skipWhile isRadixChar (pos + 2) ≤ w.stop :=
    skipWhile_le (lt_stop_of_any hmark)
  unfold emitNumber
  grind

/-! ### Code -/

theorem wordKind_eq (afterMember : Bool) (word : List Char) :
    wordKind afterMember word (w.ahead pos)
      = wordStyle afterMember word (w.at? (w.skipWhile isWhitespace pos) == some '(') := by
  have hrest (text : List Char) :
      text.dropWhile isWhitespace = text.drop (countWhile isWhitespace text) := by
    induction text with
    | nil => rfl
    | cons c text ih =>
        rw [countWhile, List.dropWhile_cons, List.takeWhile_cons]
        cases isWhitespace c with
        | true => exact ih
        | false => rfl
  rw [wordKind, wordStyle, hrest, drop_ahead, head?_ahead, skipWhile_eq]

/-- The word at an offset is the one at the start of the text ahead, where `first` is the number of
characters up to the first one of its name. -/
theorem emitWord_eq {name first : Nat} (hname : name + 1 = pos + first) (hle : name + 1 ≤ w.stop) :
    emitWord detail w s pos name = (word detail s first (w.ahead pos)).emission pos := by
  have hstop : w.skipWhile isNameChar (name + 1)
      = pos + (first + countWhile isNameChar ((w.ahead pos).drop first)) := by
    rw [skipWhile_eq, hname, drop_ahead, Nat.add_assoc]
  have hstop_le : w.skipWhile isNameChar (name + 1) ≤ w.stop := skipWhile_le hle
  cases detail with
  | structural =>
      rw [emitWord, word, hstop]
      rfl
  | rich =>
      rw [hstop] at hstop_le
      rw [emitWord, word, hstop]
      generalize first + countWhile isNameChar ((w.ahead pos).drop first) = n at *
      have hword : w.slice pos (pos + n) = (w.ahead pos).take n := by
        refine w.slice_eq ?_
        rw [w.length_ahead]
        omega
      simp only [hword, ← wordKind_eq, drop_ahead]
      rfl

theorem emitWord_le {name : Nat} (hle : name + 1 ≤ w.stop) :
    (emitWord detail w s pos name).stop ≤ w.stop := by
  have hstop : w.skipWhile isNameChar (name + 1) ≤ w.stop := skipWhile_le hle
  cases detail <;> exact hstop

theorem emitOperator_eq : emitOperator w pos = (operator (w.ahead pos)).emission pos := by
  have hsame : w.startsWith pos = (·.isPrefixOf (w.ahead pos)) :=
    funext fun word => w.startsWith_eq pos word
  rw [emitOperator, operator, operator?, hsame]
  cases operators.find? (·.isPrefixOf (w.ahead pos)) <;> rfl

theorem emitOperator_le (h : pos < w.stop) : (emitOperator w pos).stop ≤ w.stop := by
  unfold emitOperator
  cases hfind : operators.find? (w.startsWith pos) with
  | none => exact h
  | some op =>
      have hop := List.find?_some hfind
      rw [w.startsWith_eq, List.isPrefixOf_iff_prefix] at hop
      have hlen := hop.length_le
      rw [w.length_ahead] at hlen
      show pos + op.length ≤ w.stop
      omega

theorem lookCloseBrace_tells (h : pos < w.stop) :
    (lookCloseBrace s pos).Tells .rich w pos (closeBrace s).scan := by
  unfold lookCloseBrace closeBrace
  cases s.frames with
  | nil => exact .emit rfl h
  | cons frame frames =>
      refine Step.tells_ite (fun _ => ?_) fun _ => .emit rfl h
      cases frame.context <;> exact .emit rfl h

theorem lookOpenTag_tells (h : pos < w.stop) (region : Region) :
    (lookOpenTag w s region pos).Tells .rich w pos (openTag s region (w.ahead pos)).scan := by
  simp only [lookOpenTag, openTag, slice_skipWhile, tail_ahead]
  refine .emit ?_ (skipWhile_le h)
  rw [skipWhile_eq, Lexeme.emission, countWhile, Nat.add_assoc]

theorem regexAt?_eq :
    regexAt? w pos = (regex? (w.ahead (pos + 1))).map (·.emission pos) := by
  rw [regexAt?, regex?, regexEnd_eq _ (Nat.le_refl _), Option.map_map, Option.map_map]
  refine congrArg (fun f => Option.map f _) (funext fun n => ?_)
  simp only [Function.comp_apply, Lexeme.emission, skipWhile_eq, drop_ahead, Emission.mk.injEq,
    true_and, and_true]
  omega

theorem regexEnd_le {left : Nat} {inBrackets : Bool} {closed : Nat}
    (h : regexEnd w left inBrackets pos = some closed) : closed ≤ w.stop := by
  induction left generalizing pos inBrackets with
  | zero => cases h
  | succ left ih =>
      rw [regexEnd] at h
      cases hc : w.at? pos with
      | none => rw [hc] at h; cases h
      | some c =>
          have hlt := lt_stop hc
          rw [hc] at h
          grind

theorem regexAt?_le {e : Emission} (h : regexAt? w pos = some e) : e.stop ≤ w.stop := by
  obtain ⟨closed, hclosed, rfl⟩ := Option.map_eq_some_iff.mp h
  exact skipWhile_le (regexEnd_le hclosed)

theorem lookSlash_tells (hc : w.at? pos = some '/') :
    (lookSlash w s pos).Tells .rich w pos (scanSlash s pos (w.ahead pos)).scan := by
  have h : pos < w.stop := lt_stop hc
  simp only [lookSlash, scanSlash, tail_ahead, head?_ahead]
  refine Step.tells_ite (fun _ => .emit ?_ (skipUntil_le (Nat.le_of_lt h))) fun _ =>
    Step.tells_ite (fun hstar => delimitedAt_tells s (List.cons_ne_nil _ _)
      (lt_stop (beq_iff_eq.mp hstar))) fun _ => ?_
  · rw [skipUntil_eq]
    rfl
  by_cases hallowed : s.expressionAllowed = true
  · rw [if_pos hallowed, if_pos hallowed]
    cases hregex : regex? (w.ahead (pos + 1)) with
    | some l =>
        have heq : regexAt? w pos = _ := regexAt?_eq
        rw [hregex, Option.map_some] at heq
        rw [heq]
        exact .emit rfl (regexAt?_le heq)
    | none =>
        have heq : regexAt? w pos = _ := regexAt?_eq
        rw [hregex, Option.map_none] at heq
        rw [heq]
        exact .emit emitOperator_eq (emitOperator_le h)
  · rw [if_neg hallowed, if_neg hallowed]
    exact .emit emitOperator_eq (emitOperator_le h)

/-- Three points stand at an offset if the first one does and two behind it. -/
theorem startsWith_points (hc : w.at? pos = some c) :
    (c == '.' && !w.startsWith pos ['.', '.', '.'])
      = (c == '.' && !Text.startsWith (w.ahead (pos + 1)) ['.', '.']) := by
  rw [w.startsWith_eq, ahead_eq_cons hc, Text.startsWith]
  by_cases hpoint : c = '.'
  · subst hpoint
    rfl
  · have hother : (c == '.') = false := beq_eq_false_iff_ne.mpr hpoint
    rw [hother]
    rfl

theorem lookCode_tells (hc : w.at? pos = some c) :
    (lookCode detail w s pos c).Tells .rich w pos
      (scanCode detail s pos c (w.ahead (pos + 1))).scan := by
  have h : pos < w.stop := lt_stop hc
  have hahead := ahead_eq_cons hc
  simp only [lookCode, scanCode, ← hahead]
  obtain ⟨l, hat, hspace, hle⟩ | ⟨hat, hspace⟩ := whitespaceAt?_cases hc
  · rw [hat, hspace]
    exact .emit rfl hle
  simp only [hat, hspace, head?_ahead, tagNameAt_eq, digitAt_eq, startsWith_points hc]
  refine Step.tells_ite (fun hslash => ?_) fun _ => Step.tells_ite (fun _ => quotedAt_tells s h)
    fun _ => Step.tells_ite (fun _ => .emit rfl h) fun _ => Step.tells_ite (fun _ => .emit rfl h)
    fun _ => Step.tells_ite (fun _ => lookCloseBrace_tells h) fun _ => ?_
  · exact lookSlash_tells (hc.trans (congrArg some (beq_iff_eq.mp hslash)))
  cases bracket? c with
  | some kind => exact .emit rfl h
  | none =>
      refine Step.tells_ite (fun _ => lookOpenTag_tells h _) fun _ =>
        Step.tells_ite (fun _ => .emit emitNumber_eq (emitNumber_le (Nat.le_of_lt h))) fun _ =>
        Step.tells_ite (fun _ => .emit (emitWord_eq rfl h) (emitWord_le h)) fun _ =>
        Step.tells_ite (fun hprivate => ?_) fun _ => Step.tells_ite (fun _ => .emit rfl h)
          fun _ => .emit emitOperator_eq (emitOperator_le h)
      rw [Bool.and_eq_true, nameAt] at hprivate
      have hname : pos + 1 < w.stop := lt_stop_of_any hprivate.2
      exact .emit (emitWord_eq rfl hname) (emitWord_le hname)

/-! ### Templates and embedded markup -/

theorem lookTemplate_tells (hc : w.at? pos = some c) (start : Nat) :
    (lookTemplate w s start pos c).Tells .rich w pos
      (scanTemplate s start c (w.ahead (pos + 1))).scan := by
  have h : pos < w.stop := lt_stop hc
  obtain ⟨hend, hend_le⟩ := templateEnd_eq (w.stop - pos) (Nat.le_refl _) (Nat.le_of_lt h)
  simp only [lookTemplate, scanTemplate, head?_ahead, ← ahead_eq_cons hc]
  refine Step.tells_ite (fun _ => .emit rfl h) fun _ => Step.tells_ite (fun hbrace => ?_) fun _ =>
    .emit ?_ hend_le
  · rw [Bool.and_eq_true] at hbrace
    have hnext : pos + 1 < w.stop := lt_stop (beq_iff_eq.mp hbrace.2)
    exact .emit rfl hnext
  · rw [hend]
    rfl

theorem lookAttributes_tells (hc : w.at? pos = some c) (region : Region) :
    (lookAttributes w s region pos c).Tells .rich w pos
      (scanAttributes s region pos c (w.ahead (pos + 1))).scan := by
  have h : pos < w.stop := lt_stop hc
  simp only [lookAttributes, scanAttributes, ← ahead_eq_cons hc]
  obtain ⟨l, hat, hspace, hle⟩ | ⟨hat, hspace⟩ := whitespaceAt?_cases hc
  · rw [hat, hspace]
    exact .emit rfl hle
  simp only [hat, hspace, head?_ahead]
  refine Step.tells_ite (fun _ => .emit rfl h) fun _ => Step.tells_ite (fun hclose => ?_) fun _ =>
    Step.tells_ite (fun _ => .emit rfl h) fun _ => Step.tells_ite (fun _ => quotedAt_tells s h)
    fun _ => Step.tells_ite (fun _ => .emit rfl h) fun _ => .emit ?_ (skipUntil_le h)
  · rw [Bool.and_eq_true] at hclose
    have hnext : pos + 1 < w.stop := lt_stop (beq_iff_eq.mp hclose.2)
    exact .emit rfl hnext
  · rw [skipUntil_eq, Lexeme.emission, Nat.add_assoc]

theorem lookChildren_tells (hc : w.at? pos = some c) (region : Region) :
    (lookChildren w s region pos c).Tells .rich w pos
      (scanChildren s region pos c (w.ahead (pos + 1))).scan := by
  have h : pos < w.stop := lt_stop hc
  simp only [lookChildren, scanChildren, ← ahead_eq_cons hc, head?_ahead, tail_ahead, tagNameAt_eq,
    slice_skipWhile]
  refine Step.tells_ite (fun _ => .emit rfl h) fun _ => Step.tells_ite (fun hclose => ?_) fun _ =>
    Step.tells_ite (fun _ => lookOpenTag_tells h region) fun _ => ?_
  · rw [Bool.and_eq_true] at hclose
    have hnext : pos + 1 < w.stop := lt_stop (beq_iff_eq.mp hclose.2)
    refine .emit ?_ (skipWhile_le hnext)
    rw [skipWhile_eq, Lexeme.emission, countWhile, Nat.add_assoc]
  obtain ⟨l, hat, hspace, hle⟩ | ⟨hat, hspace⟩ := whitespaceAt?_cases hc
  · rw [hat, hspace]
    exact .emit rfl hle
  · rw [hat, hspace]
    refine .emit ?_ (skipUntil_le h)
    rw [skipUntil_eq, Lexeme.emission, Nat.add_assoc]

theorem lookResumed_tells (hc : w.at? pos = some c) (region : Region) :
    (lookResumed detail w s region pos c).Tells .rich w pos
      (scanResumed detail s region pos c (w.ahead (pos + 1))).scan :=
  Step.tells_ite (fun _ => lookCode_tells hc) fun _ => lookChildren_tells hc region

theorem lookEndTag_tells (hc : w.at? pos = some c) (region : Region) (name : String) (start : Nat) :
    (lookEndTag detail w s region name start pos c).Tells .rich w pos
      (scanEndTag detail s region name start pos c (w.ahead (pos + 1))).scan := by
  have h : pos < w.stop := lt_stop hc
  simp only [lookEndTag, scanEndTag, ← ahead_eq_cons hc]
  refine Step.tells_ite (fun _ => .emit rfl h) fun _ => ?_
  obtain ⟨l, hat, hspace, hle⟩ | ⟨hat, hspace⟩ := whitespaceAt?_cases hc
  · rw [hat, hspace]
    exact .emit rfl hle
  · rw [hat, hspace]
    exact (lookResumed_tells hc region).fault _

/-- What is emitted is remembered by the text that it spells. -/
theorem look_tells (h : pos < w.stop) :
    (look detail w s pos).Tells detail w pos (scan detail s pos (w.ahead pos)) := by
  obtain ⟨c, hc⟩ := exists_at? h
  have hremembered {step : Step} (hstep : (lookAt detail w s pos c).Tells .rich w pos step.scan) :
      Look.Tells .rich w pos
        { lookAt detail w s pos c with
          state := (lookAt detail w s pos c).emissions.foldl (LexState.emitted w)
            (lookAt detail w s pos c).state }
        ⟨[step.lexeme], step.state.remember step.lexeme.kind
          ((w.ahead pos).take step.lexeme.length), step.faults⟩ := by
    have hemissions : (lookAt detail w s pos c).emissions = [step.lexeme.emission pos] :=
      hstep.emissions
    have hlength : step.lexeme.length ≤ (w.ahead pos).length := by
      have hnext := hstep.next
      have hwithin := hstep.within
      simp only [Step.scan, Lexeme.width] at hnext
      rw [w.length_ahead]
      omega
    refine ⟨hstep.kept, hstep.next, hstep.within, ?_, hstep.faults, hstep.emitted⟩
    dsimp only
    rw [hemissions, hstep.state, List.foldl_cons, List.foldl_nil, LexState.emitted]
    exact congrArg (LexState.remember step.state step.lexeme.kind) (w.slice_eq hlength)
  rw [look, hc, ahead_eq_cons hc, scan, ← ahead_eq_cons hc]
  refine (hremembered ?_).of_rich
  unfold lookAt
  cases s.mode with
  | code => exact lookCode_tells hc
  | template start => exact lookTemplate_tells hc start
  | attributes region => exact lookAttributes_tells hc region
  | children region => exact lookChildren_tells hc region
  | endTag region name start => exact lookEndTag_tells hc region name start

/-- Every rule hands over where the next one starts. -/
theorem lexer_handsOver (detail : Detail) (w : Window) : (lexer detail).HandsOver detail w :=
  fun _ _ h => (look_tells h).handsOver

theorem lexWithin_laid (detail : Detail) (w : Window) {start : Nat} (hstart : start ≤ w.stop) :
    Token.Laid detail.gap start w.stop (lexWithin detail w start).tokens :=
  Lexer.run_laid (lexer_handsOver detail w) {} hstart

/-- **A run over a window is the run over the text ahead.** -/
theorem lexWithin_eq (detail : Detail) (w : Window) (start : Nat) :
    lexWithin detail w start = lex detail start (w.ahead start) :=
  @Lexer.run_eq _ w detail _ (scanner detail) rfl (fun _ _ h => look_tells h) {} start

end SourceView.Script
