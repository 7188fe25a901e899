/-
Each rule of markup at an offset is the rule for the text ahead.

Rule by rule: the token that is emitted begins at the offset of the look, the next look is due
where it ends, and no rule reads or moves past the end of the window.  The body of a script or
style element is lexed over the same source in a window that ends with the body; what its run
sees is just the body, so it is the run over that text.
-/
import SourceView.Proofs.Markup.Ahead
import SourceView.Proofs.Script.Looks
import SourceView.Proofs.Stylesheet.Looks

namespace SourceView.Markup

open Lexing Window Look

variable {w : Window} {pos : Nat} {c : Char}

/-- A step as a scan of one piece. -/
def Step.scan (step : Step) : Scan Mode :=
  ⟨[step.lexeme], step.mode, step.faults⟩

theorem Step.tells_ite {p : Prop} [Decidable p] {detail : Detail} {look look' : Look Mode}
    {step step' : Step} (h : p → look.Tells detail w pos step.scan)
    (h' : ¬p → look'.Tells detail w pos step'.scan) :
    (if p then look else look').Tells detail w pos (if p then step else step').scan := by
  rw [apply_ite Step.scan]
  exact Tells.ite h h'

/-! ### Content -/

theorem nameAt_eq : nameAt w pos = startsName (w.ahead pos) := by
  rw [nameAt, startsName, head?_ahead]

/-- An entity at an offset ends where the text ahead has it end. -/
theorem entityEnd?_eq : entityEnd? w pos = (entity? (w.ahead pos)).map (pos + ·) := by
  simp only [entityEnd?, entity?, tail_ahead, drop_ahead, head?_ahead, skipWhile_eq]
  by_cases hnumber : (w.at? (pos + 1) == some '#') = true
  · rw [if_pos hnumber, if_pos hnumber]
    have hfirst : (if (w.at? (pos + 2) == some 'x' || w.at? (pos + 2) == some 'X') = true
          then pos + 3 else pos + 2)
        = pos + if (w.at? (pos + 2) == some 'x' || w.at? (pos + 2) == some 'X') = true
          then 3 else 2 := by
      split <;> rfl
    rw [hfirst]
    generalize (if (w.at? (pos + 2) == some 'x' || w.at? (pos + 2) == some 'X') = true
      then Stylesheet.isHexDigit else Char.isDigit) = p
    generalize (if (w.at? (pos + 2) == some 'x' || w.at? (pos + 2) == some 'X') = true
      then 3 else 2) = first
    generalize countWhile p (w.ahead (pos + first)) = digits
    by_cases hdigits : digits = 0
    · rw [if_pos hdigits, if_neg (by simp [hdigits])]
      rfl
    · have hlt : decide (pos + first < pos + first + digits) = true := by
        rw [decide_eq_true_iff]
        omega
      rw [if_neg hdigits, hlt, Bool.true_and, Nat.add_assoc]
      split <;> rfl
  · rw [if_neg hnumber, if_neg hnumber]
    have hname := @slice_skipWhile w (pos + 1) Text.isAlphanumeric
    rw [skipWhile_eq] at hname
    rw [hname, countWhile, Nat.add_assoc]
    generalize (w.ahead (pos + 1)).takeWhile Text.isAlphanumeric = name
    by_cases hknown : entities.contains (String.ofList name) = true
    · rw [hknown, Bool.and_true, if_pos rfl]
      split <;> rfl
    · rw [Bool.not_eq_true] at hknown
      rw [hknown, Bool.and_false, if_neg Bool.false_ne_true, if_neg Bool.false_ne_true]
      rfl

theorem entityEnd?_le {stop : Nat} (h : entityEnd? w pos = some stop) : stop ≤ w.stop := by
  have hsome {q : Nat} {c : Char} (hq : (w.at? q == some c) = true) : q < w.stop :=
    lt_stop (beq_iff_eq.mp hq)
  unfold entityEnd? at h
  grind

/-- A word of which the first character is known stands at an offset if the rest stands behind. -/
theorem startsWith_cons (hc : w.at? pos = some c) (word : List Char) :
    w.startsWith pos (c :: word) = word.isPrefixOf (w.ahead (pos + 1)) := by
  rw [w.startsWith_eq, ahead_eq_cons hc, List.isPrefixOf, beq_self_eq_true, Bool.true_and]

theorem isPrefixOf_singleton (d : Char) :
    [d].isPrefixOf (w.ahead pos) = (w.at? pos == some d) := by
  rw [← w.startsWith_eq, startsWith, startsWith, Bool.and_true]

theorem lookRegion_tells {detail : Detail} {kind : TokenKind} {style what : String} {opener : Nat}
    {closer : List Char} (hcloser : closer ≠ []) (hopener : pos + opener ≤ w.stop) :
    (lookRegion kind style what opener closer w pos).Tells detail w pos
      (region kind style what opener closer pos (w.ahead pos)).scan :=
  delimitedAt_tells Mode.content hcloser hopener

theorem lookAngle_tells {detail : Detail} (hc : w.at? pos = some '<') :
    (lookAngle w pos).Tells detail w pos (scanAngle pos (w.ahead pos)).scan := by
  have h : pos < w.stop := lt_stop hc
  have hword {word : List Char} (hfront : word.isPrefixOf (w.ahead (pos + 1)) = true) :
      pos + (word.length + 1) ≤ w.stop := by
    have hlen := (List.isPrefixOf_iff_prefix.mp hfront).length_le
    rw [w.length_ahead] at hlen
    omega
  have hnext {d : Char} (hd : (w.at? (pos + 1) == some d) = true) : pos + 2 ≤ w.stop :=
    lt_stop (beq_iff_eq.mp hd)
  simp only [lookAngle, scanAngle, startsWith_cons hc, tail_ahead, head?_ahead,
    isPrefixOf_singleton, nameAt_eq, slice_skipWhile]
  refine Step.tells_ite (fun hc => lookRegion_tells (List.cons_ne_nil _ _) (hword hc)) fun _ =>
    Step.tells_ite (fun hc => lookRegion_tells (List.cons_ne_nil _ _) (hword hc)) fun _ =>
    Step.tells_ite (fun hd => lookRegion_tells (List.cons_ne_nil _ _) (hnext hd)) fun _ =>
    Step.tells_ite (fun hd => lookRegion_tells (List.cons_ne_nil _ _) (hnext hd)) fun _ =>
    Step.tells_ite (fun hclose => ?_) fun _ =>
    Step.tells_ite (fun _ => .emit ?_ (skipWhile_le h)) fun _ => .emit rfl h
  · rw [Bool.and_eq_true] at hclose
    refine .emit ?_ (skipWhile_le (hnext hclose.1))
    rw [skipWhile_eq, Lexeme.emission, countWhile, Nat.add_assoc]
  · rw [skipWhile_eq, Lexeme.emission, countWhile, Nat.add_assoc]

theorem characterDataAt_eq (hc : w.at? pos = some c) :
    characterDataAt w pos c = (characterData c (w.ahead (pos + 1))).emission pos := by
  simp only [characterDataAt, characterData, ← ahead_eq_cons hc, entityEnd?_eq]
  by_cases hamp : (c == '&') = true
  · rw [if_pos hamp, if_pos hamp]
    cases entity? (w.ahead pos) <;> rfl
  · rw [if_neg hamp, if_neg hamp]
    obtain ⟨l, hat, hspace, -⟩ | ⟨hat, hspace⟩ := whitespaceAt?_cases hc
    · rw [hat, hspace]
    · rw [hat, hspace, skipUntil_eq, Nat.add_assoc]
      rfl

theorem characterDataAt_le (hc : w.at? pos = some c) : (characterDataAt w pos c).stop ≤ w.stop := by
  have h : pos < w.stop := lt_stop hc
  unfold characterDataAt
  by_cases hamp : (c == '&') = true
  · rw [if_pos hamp]
    cases hentity : entityEnd? w pos with
    | some stop => exact entityEnd?_le hentity
    | none => exact h
  · rw [if_neg hamp]
    cases hspace : whitespaceAt? w pos c with
    | some space => exact whitespaceAt?_le hc hspace
    | none => exact skipUntil_le h

/-- Up to the first occurrence of a character, or to the end, is as long as no other comes. -/
theorem findIndex?_singleton (d : Char) (text : List Char) :
    (Text.findIndex? [d] text).getD text.length = countWhile (· != d) text := by
  induction text with
  | nil => rfl
  | cons c text ih =>
      rw [Text.findIndex?, countWhile, List.takeWhile_cons]
      by_cases hcd : c = d
      · subst hcd
        simp
      · have hfront : ¬[d].isPrefixOf (c :: text) = true := by
          simp [List.isPrefixOf, Ne.symm hcd]
        have hother : (c != d) = true := bne_iff_ne.mpr hcd
        rw [if_neg hfront, hother, if_pos rfl, List.length_cons, List.length_cons]
        rw [countWhile] at ih
        rw [← ih]
        cases Text.findIndex? [d] text <;> rfl

theorem lookContent_tells (hc : w.at? pos = some c) (detail : Detail) :
    (lookContent detail w pos c).Tells detail w pos
      (scanContent detail pos c (w.ahead (pos + 1))).scan := by
  have h : pos < w.stop := lt_stop hc
  simp only [lookContent, scanContent, ← ahead_eq_cons hc]
  by_cases hangle : c = '<'
  · rw [if_pos (beq_iff_eq.mpr hangle), if_pos (beq_iff_eq.mpr hangle)]
    exact lookAngle_tells (hangle ▸ hc)
  have hother : (c != '<') = true := bne_iff_ne.mpr hangle
  rw [if_neg (by simpa using hangle), if_neg (by simpa using hangle)]
  cases detail with
  | rich => exact .emit (characterDataAt_eq hc) (characterDataAt_le hc)
  | structural =>
      have hnext : (w.find? ['<'] pos).getD w.stop
          = pos + (1 + countWhile (· != '<') (w.ahead (pos + 1))) := by
        have hend : w.stop = pos + (w.ahead pos).length := by
          rw [w.length_ahead]
          omega
        have hcount : countWhile (· != '<') (w.ahead pos)
            = 1 + countWhile (· != '<') (w.ahead (pos + 1)) := by
          rw [ahead_eq_cons hc, countWhile, List.takeWhile_cons, if_pos hother, List.length_cons,
            Nat.add_comm]
          rfl
        rw [← hcount, ← findIndex?_singleton, w.find?_eq pos (List.cons_ne_nil _ _)]
        cases Text.findIndex? ['<'] (w.ahead pos) with
        | some n => rfl
        | none => exact hend
      refine .move rfl hnext ?_
      cases hfind : w.find? ['<'] pos with
      | some close =>
          have hle : close + 1 ≤ w.stop := find?_le (List.cons_ne_nil _ _) hfind
          exact Nat.le_of_succ_le hle
      | none => exact Nat.le_refl _

/-! ### Tags -/

theorem lookQuotedValue_tells {detail : Detail} (h : pos < w.stop) (tag : StartTag) (quote : Char) :
    (lookQuotedValue w tag quote pos).Tells detail w pos
      (quotedValue tag quote pos (w.ahead (pos + 1))).scan := by
  have hquote : [quote] ≠ [] := List.cons_ne_nil _ _
  rw [lookQuotedValue, quotedValue, w.find?_eq _ hquote]
  cases hfind : Text.findIndex? [quote] (w.ahead (pos + 1)) with
  | some n =>
      have hfound : w.find? [quote] (pos + 1) = some (pos + 1 + n) := by
        rw [w.find?_eq _ hquote, hfind]
        rfl
      have hle : pos + 1 + n + 1 ≤ w.stop := find?_le hquote hfound
      have hvalue : w.slice (pos + 1) (pos + 1 + n) = (w.ahead (pos + 1)).take n := by
        refine w.slice_eq ?_
        rw [w.length_ahead]
        omega
      simp only [Option.map_some, hvalue]
      refine .emit ?_ hle
      simp only [Lexeme.emission, Emission.mk.injEq, true_and, and_true]
      omega
  | none =>
      have hstop : w.skipUntil isLineBreak (pos + 1)
          = pos + (countWhile (fun c => !isLineBreak c) (w.ahead (pos + 1)) + 1) := by
        rw [skipUntil_eq]
        omega
      have hle : w.skipUntil isLineBreak (pos + 1) ≤ w.stop := skipUntil_le h
      have hvalue : w.slice (pos + 1) (w.skipUntil isLineBreak (pos + 1))
          = (w.ahead (pos + 1)).take (countWhile (fun c => !isLineBreak c) (w.ahead (pos + 1))) := by
        rw [skipUntil_eq]
        exact w.slice_eq (countWhile_le _ _)
      simp only [Option.map_none, hvalue]
      rw [hstop] at hle ⊢
      exact .emit rfl hle

theorem lookAttributes_tells {detail : Detail} (hc : w.at? pos = some c) (tag : StartTag) :
    (lookAttributes w tag pos c).Tells detail w pos
      (scanAttributes tag pos c (w.ahead (pos + 1))).scan := by
  have h : pos < w.stop := lt_stop hc
  simp only [lookAttributes, scanAttributes, ← ahead_eq_cons hc]
  obtain ⟨l, hat, hspace, hle⟩ | ⟨hat, hspace⟩ := whitespaceAt?_cases hc
  · rw [hat, hspace]
    exact .emit rfl hle
  -- A value and a name that are written without quotes end at the first character that ends them.
  have htext (stops : Char → Bool) : w.slice pos (w.skipUntil stops (pos + 1))
      = c :: (w.ahead (pos + 1)).takeWhile (fun c => !stops c) := by
    have hlen := countWhile_le (fun c => !stops c) (w.ahead (pos + 1))
    rw [w.length_ahead] at hlen
    rw [skipUntil_eq, Nat.add_assoc, w.slice_eq (by rw [w.length_ahead]; omega), ahead_eq_cons hc,
      Nat.add_comm 1, List.take_succ_cons]
    exact congrArg (c :: ·) (List.prefix_iff_eq_take.mp (List.takeWhile_prefix _)).symm
  have hstop (stops : Char → Bool) : w.skipUntil stops (pos + 1)
      = pos + (c :: (w.ahead (pos + 1)).takeWhile (fun c => !stops c)).length := by
    rw [skipUntil_eq, countWhile, List.length_cons]
    omega
  simp only [hat, hspace, head?_ahead, htext]
  refine Step.tells_ite (fun _ => .emit rfl h) fun _ => Step.tells_ite (fun hclose => ?_) fun _ =>
    Step.tells_ite (fun hangle => ?_) fun _ => Step.tells_ite (fun _ => .emit rfl h) fun _ =>
    Step.tells_ite (fun _ => lookQuotedValue_tells h tag c) fun _ =>
    Step.tells_ite (fun _ => .emit ?_ (skipUntil_le h)) fun _ =>
    Step.tells_ite (fun _ => .emit rfl h) fun _ => .emit ?_ (skipUntil_le h)
  · rw [Bool.and_eq_true] at hclose
    have hnext : pos + 1 < w.stop := lt_stop (beq_iff_eq.mp hclose.2)
    exact .emit rfl hnext
  · exact (lookAngle_tells (beq_iff_eq.mp hangle ▸ hc)).fault _
  · rw [hstop]
    rfl
  · rw [hstop, Lexeme.emission, String.length_ofList]

theorem lookEndTag_tells {detail : Detail} (hc : w.at? pos = some c) (name : String) (start : Nat) :
    (lookEndTag w name start pos c).Tells detail w pos
      (scanEndTag name start pos c (w.ahead (pos + 1))).scan := by
  have h : pos < w.stop := lt_stop hc
  simp only [lookEndTag, scanEndTag, ← ahead_eq_cons hc]
  refine Step.tells_ite (fun _ => .emit rfl h) fun _ => Step.tells_ite (fun hangle => ?_) fun _ => ?_
  · exact (lookAngle_tells (beq_iff_eq.mp hangle ▸ hc)).fault _
  obtain ⟨l, hat, hspace, hle⟩ | ⟨hat, hspace⟩ := whitespaceAt?_cases hc
  · rw [hat, hspace]
    exact .emit rfl hle
  · rw [hat, hspace]
    refine .emit ?_ (skipUntil_le h)
    rw [skipUntil_eq, Lexeme.emission, Nat.add_assoc]

/-! ### Raw text -/

/-- The end tag of raw text is found where the text ahead, in lower case, has it. -/
theorem rawCloseFrom_eq (lowered : Window) (tag : List Char) (left : Nat)
    (hleft : left = lowered.stop - pos) :
    rawCloseFrom lowered tag left pos = (rawLength? tag (lowered.ahead pos)).map (pos + ·) := by
  induction left generalizing pos with
  | zero =>
      have hnil : lowered.ahead pos = [] := (lowered.ahead_eq_nil_iff pos).mpr (by omega)
      rw [rawCloseFrom, hnil, rawLength?]
      rfl
  | succ left ih =>
      have hpos : pos < lowered.stop := by omega
      obtain ⟨c, hc⟩ := exists_at? hpos
      rw [rawCloseFrom, ahead_eq_cons hc, rawLength?, endsRawText, ← ahead_eq_cons hc,
        lowered.startsWith_eq, lowered.drop_ahead, lowered.head?_ahead]
      by_cases hends : (tag.isPrefixOf (lowered.ahead pos)
          && (lowered.at? (pos + tag.length)).all isRawBoundary) = true
      · rw [if_pos hends, if_pos hends]
        rfl
      · rw [if_neg hends, if_neg hends, @ih (pos + 1) (by omega), Option.map_map]
        refine congrArg (fun f => Option.map f _) (funext fun n => ?_)
        show pos + 1 + n = pos + (n + 1)
        omega

theorem rawCloseFrom_lt {lowered : Window} {tag : List Char} {left close : Nat}
    (hleft : left = lowered.stop - pos) (h : rawCloseFrom lowered tag left pos = some close) :
    close < lowered.stop := by
  induction left generalizing pos with
  | zero => cases h
  | succ left ih =>
      rw [rawCloseFrom] at h
      split at h
      · obtain rfl := Option.some.inj h
        omega
      · exact ih (by omega) h

/-- The window that ends with a body shows just the body. -/
theorem ahead_upTo_add {n : Nat} (h : pos + n ≤ w.stop) :
    (Window.upTo w.source (some (pos + n))).ahead pos = (w.ahead pos).take n := by
  have hsize : min (pos + n) w.source.size = pos + n :=
    Nat.min_eq_left (Nat.le_trans h w.stop_le)
  rw [ahead, ahead]
  simp only [upTo, Option.getD_some, hsize, List.drop_take, List.take_take]
  congr 1
  omega

theorem lexBodyWithin_eq (language : String) (detail : Detail) {n : Nat} (h : pos + n ≤ w.stop) :
    lexBodyWithin language detail w.source pos (pos + n)
      = lexBody language detail pos ((w.ahead pos).take n) := by
  rw [lexBodyWithin, lexBody, Stylesheet.lexWithin_eq, Script.lexWithin_eq, ahead_upTo_add h]

variable {setting : Setting}

/-- What the setting is, told by texts. -/
def Setting.surroundings (setting : Setting) : Surroundings :=
  { embed := setting.embed, detail := setting.detail, lowered := setting.lowered.ahead 0 }

theorem lookRawText_tells (hlowered : setting.lowered.stop ≤ w.stop) (hc : w.at? pos = some c)
    (tag : StartTag) :
    (lookRawText setting w tag pos c).Tells setting.detail w pos
      (scanRawText setting.surroundings tag pos c (w.ahead (pos + 1))).scan := by
  have h : pos < w.stop := lt_stop hc
  have hdrop : (setting.lowered.ahead 0).drop pos = setting.lowered.ahead pos := by
    rw [Window.drop_ahead, Nat.zero_add]
  simp only [lookRawText, scanRawText, Setting.surroundings, hdrop, ← ahead_eq_cons hc,
    w.length_ahead]
  generalize '<' :: '/' :: Text.lowerChars tag.name.toList = needle
  -- Where the region ends: at the end tag, or at the end of the window.
  obtain ⟨n, hn, hstop, hle⟩ : ∃ n,
      n = (rawLength? needle (setting.lowered.ahead pos)).getD (w.stop - pos)
        ∧ (rawCloseFrom setting.lowered needle (setting.lowered.stop - pos) pos).getD w.stop = pos + n
        ∧ pos + n ≤ w.stop := by
    refine ⟨_, rfl, ?_⟩
    have heq := @rawCloseFrom_eq pos setting.lowered needle _ rfl
    cases hclose : rawLength? needle (setting.lowered.ahead pos) with
    | some n =>
        rw [hclose, Option.map_some] at heq
        have hlt := rawCloseFrom_lt rfl heq
        rw [heq]
        exact ⟨rfl, by rw [Option.getD_some]; omega⟩
    | none =>
        rw [hclose, Option.map_none] at heq
        rw [heq]
        simp only [Option.getD_none]
        omega
  rw [← hn, hstop]
  by_cases hempty : n = 0
  · rw [if_pos hempty, if_pos (by omega)]
    exact lookContent_tells hc setting.detail
  · rw [if_neg hempty, if_neg (by omega), lexBodyWithin_eq _ _ hle]
    exact .emit rfl hle

theorem look_tells (hlowered : setting.lowered.stop ≤ w.stop) (mode : Mode) (h : pos < w.stop) :
    (look setting w mode pos).Tells setting.detail w pos
      (scan setting.surroundings mode pos (w.ahead pos)) := by
  obtain ⟨c, hc⟩ := exists_at? h
  rw [look, hc, ahead_eq_cons hc]
  cases mode with
  | content => exact lookContent_tells hc setting.detail
  | attributes tag => exact lookAttributes_tells hc tag
  | endTag name start => exact lookEndTag_tells hc name start
  | rawText tag => exact lookRawText_tells hlowered hc tag

/-- Every rule hands over where the next one starts. -/
theorem lexer_handsOver (hlowered : setting.lowered.stop ≤ w.stop) :
    (lexer setting).HandsOver setting.detail w :=
  fun mode _ h => (look_tells hlowered mode h).handsOver

theorem lexWithin_laid (detail : Detail) (embed : Bool) (w : Window) {start : Nat}
    (hstart : start ≤ w.stop) :
    Token.Laid detail.gap start w.stop (lexWithin detail embed w start).tokens := by
  let setting : Setting :=
    { embed, detail, lowered := .upTo (Text.lowerChars w.source.toList).toArray (some w.stop) }
  have hbound : setting.lowered.stop ≤ w.stop := Nat.min_le_left _ _
  exact Lexer.run_laid (lexer_handsOver hbound) .content hstart

/-- **A run over a window is the run over the text ahead.** -/
theorem lexWithin_eq (detail : Detail) (embed : Bool) (source : List Char) (start : Nat)
    (stop : Option Nat) :
    lexWithin detail embed (.upTo source.toArray stop) start = lex detail embed source start stop := by
  generalize hw : Window.upTo source.toArray stop = w
  have hstop : w.stop = min (stop.getD source.length) source.length := hw ▸ rfl
  have hsource : w.source = source.toArray := hw ▸ rfl
  have hahead : w.ahead start = boundedText source start (some w.stop) := by
    rw [← ahead_upTo, Window.ahead, Window.ahead, hsource]
    simp only [Window.upTo, Option.getD_some, List.size_toArray]
    rw [Nat.min_eq_left (by omega)]
  -- A bounded run over the lower case sees what the bounded lower case has.
  have hlowered : (Window.upTo (Text.lowerChars source).toArray (some w.stop)).ahead 0
      = (Text.lowerChars source).take w.stop := by
    rw [ahead_upTo, boundedText, List.drop_zero]
  rw [lexWithin, lex, hsource, ← hstop, ← hahead]
  dsimp only
  rw [← hlowered]
  let setting : Setting :=
    { embed, detail, lowered := .upTo (Text.lowerChars source).toArray (some w.stop) }
  have hbound : setting.lowered.stop ≤ w.stop := Nat.min_le_left _ _
  exact @Lexer.run_eq _ w detail (lexer setting) (scanner setting.surroundings) rfl
    (fun mode _ h => look_tells hbound mode h) .content start

end SourceView.Markup
