/-
What is known of the tokens of a script.

A line comment lies on one line, so leaving it out of an outline hides no fold.  And end
tags are tight: past the name of an end tag only whitespace is junk.
-/
import SourceView.Proofs.Lexing.EndTags
import SourceView.Proofs.Lexing.Coverage
import SourceView.Proofs.Script.Steps
import SourceView.Proofs.Lines

namespace SourceView.Script

open Lexing Parsing

/-! ### Steps -/

/-- Whether the lexer is in no tag. -/
def Mode.isOutside : Mode → Bool
  | .code | .template _ | .children _ => true
  | .attributes _ | .endTag .. => false

/-- Whether the lexer is past the name of an end tag. -/
def Mode.isEndTag : Mode → Bool
  | .endTag .. => true
  | _ => false

/-- What is asked of every step over the text ahead: it enters an end tag by its name, and
line comments stay on their line. -/
structure Step.Sound (step : Step) (text : List Char) : Prop where
  close : step.lexeme.kind = .tagClose →
    0 < step.lexeme.length ∧ step.state.mode.isEndTag = true
  line : step.lexeme.kind = .lineComment → ∀ c ∈ text.take step.lexeme.length, c ≠ '\n'

/-- What is asked of a step outside of tags: no tag ends there, and without a boundary none
begins. -/
structure Step.StaysOutside (step : Step) (text : List Char) : Prop extends step.Sound text where
  noEnd : step.lexeme.kind ≠ .tagEnd
  stays : step.lexeme.kind.isStructural = false → step.state.mode.isOutside = true

namespace Step

variable {step : Step} {text : List Char}

theorem Sound.of_plain (h : isPlain step.lexeme.kind = true) : step.Sound text := by
  constructor <;> intro hkind <;> rw [hkind] at h <;> exact absurd h (by decide)

theorem StaysOutside.of_boundary (h : isPlain step.lexeme.kind = true)
    (hboundary : step.lexeme.kind.isStructural = true) : step.StaysOutside text :=
  { Sound.of_plain h with
    noEnd := noEnd_of_plain h
    stays := fun hfiller => absurd hboundary (by simp [hfiller]) }

theorem StaysOutside.of_filler (h : isPlain step.lexeme.kind = true)
    (hmode : step.state.mode.isOutside = true) : step.StaysOutside text :=
  { Sound.of_plain h with
    noEnd := noEnd_of_plain h
    stays := fun _ => hmode }

end Step

theorem quotedLiteral_plain {kind : TokenKind} (h : isPlain kind = true) (style what : String)
    (multiline : Bool) (quote : Char) (pos : Nat) (rest : List Char) :
    isPlain (quotedLiteral kind style what multiline quote pos rest).1.kind = true := by
  unfold quotedLiteral
  simp only
  split
  · exact h
  · rfl

theorem operator_plain (text : List Char) : isPlain (operator text).kind = true := by
  unfold operator
  split <;> rfl

theorem word_plain (detail : Detail) (s : LexState) (first : Nat) (text : List Char) :
    isPlain (word detail s first text).kind = true := by
  unfold word wordKind
  grind [isPlain]

theorem bracket?_boundary {c : Char} {kind : TokenKind} (h : bracket? c = some kind) :
    isPlain kind = true ∧ kind.isStructural = true := by
  unfold bracket? at h
  grind [isPlain, TokenKind.isStructural]

theorem scanSlash_staysOutside {s : LexState} (hs : s.mode.isOutside = true) (pos : Nat)
    (text : List Char) : (scanSlash s pos text).StaysOutside text := by
  unfold scanSlash
  simp only
  split
  · -- A line comment takes characters only up to the end of the line.
    refine ⟨⟨by simp, fun _ c hc hbreak => ?_⟩, by simp, fun _ => hs⟩
    have hinside := of_mem_take_countWhile hc
    rw [hbreak] at hinside
    exact absurd hinside (by decide)
  split
  · exact .of_boundary (by rw [delimited_kind]; rfl) (by rw [delimited_kind]; rfl)
  split
  · rename_i l hl
    split at hl
    · obtain ⟨n, -, rfl⟩ := Option.map_eq_some_iff.mp hl
      exact .of_filler rfl hs
    · exact absurd hl (by simp)
  · exact .of_filler (operator_plain text) hs

theorem closeBrace_staysOutside (s : LexState) (text : List Char) : (closeBrace s).StaysOutside text := by
  unfold closeBrace
  simp only
  split
  · exact .of_boundary rfl rfl
  split
  · split <;> exact .of_boundary rfl rfl
  · exact .of_boundary rfl rfl

theorem scanCode_staysOutside (detail : Detail) {s : LexState} (hs : s.mode.isOutside = true) (pos : Nat)
    (c : Char) (rest : List Char) : (scanCode detail s pos c rest).StaysOutside (c :: rest) := by
  have hstep := scanCode_step detail s pos c rest
  generalize scanCode detail s pos c rest = step at hstep
  cases hstep with
  | space hspace => exact .of_filler (isPlain_of_trivia (whitespace?_trivia hspace).1) hs
  | slash => exact scanSlash_staysOutside hs pos (c :: rest)
  | quoted => exact .of_filler (quotedLiteral_plain rfl ..) hs
  | closeBrace => exact closeBrace_staysOutside s _
  | bracket hkind => exact .of_boundary (bracket?_boundary hkind).1 (bracket?_boundary hkind).2
  | template | openBrace | tag => exact .of_boundary rfl rfl
  | number | punctuation => exact .of_filler rfl hs
  | word | privateWord => exact .of_filler (word_plain ..) hs
  | operator => exact .of_filler (operator_plain _) hs

theorem scanTemplate_staysOutside {s : LexState} (hs : s.mode.isOutside = true) (start : Nat) (c : Char)
    (rest : List Char) : (scanTemplate s start c rest).StaysOutside (c :: rest) := by
  unfold scanTemplate
  split
  · exact .of_boundary rfl rfl
  split
  · exact .of_boundary rfl rfl
  · exact .of_filler rfl hs

theorem scanChildren_staysOutside {s : LexState} (hs : s.mode.isOutside = true) (region : Region)
    (pos : Nat) (c : Char) (rest : List Char) :
    (scanChildren s region pos c rest).StaysOutside (c :: rest) := by
  unfold scanChildren
  split
  · exact .of_boundary rfl rfl
  split
  · refine ⟨⟨fun _ => ⟨?_, rfl⟩, by simp⟩, by simp, by simp [TokenKind.isStructural]⟩
    simp only
    omega
  split
  · exact .of_boundary rfl rfl
  split
  · rename_i l hl
    exact .of_filler (isPlain_of_trivia (whitespace?_trivia hl).1) hs
  · exact .of_filler rfl hs

theorem resume_isOutside (region : Region) : region.resume.isOutside = true := by
  unfold Region.resume
  split <;> rfl

theorem scanResumed_staysOutside (detail : Detail) (s : LexState) (region : Region) (pos : Nat) (c : Char)
    (rest : List Char) : (scanResumed detail s region pos c rest).StaysOutside (c :: rest) := by
  unfold scanResumed
  simp only
  split
  · exact scanCode_staysOutside detail (resume_isOutside region) pos c rest
  · exact scanChildren_staysOutside (resume_isOutside region) region pos c rest

theorem scanAttributes_sound (s : LexState) (region : Region) (pos : Nat) (c : Char)
    (rest : List Char) : (scanAttributes s region pos c rest).Sound (c :: rest) := by
  unfold scanAttributes
  split
  · rename_i l hl
    exact .of_plain (isPlain_of_trivia (whitespace?_trivia hl).1)
  split
  · exact ⟨by simp, by simp⟩
  split
  · exact .of_plain rfl
  split
  · exact .of_plain rfl
  split
  · exact .of_plain (quotedLiteral_plain rfl ..)
  split
  · exact .of_plain rfl
  · exact .of_plain rfl

/-- Past the name of an end tag comes its `>`, or whitespace, or the end of the mode. -/
theorem scanEndTag_cases (detail : Detail) (s : LexState) (region : Region) (name : String)
    (start pos : Nat) (c : Char) (rest : List Char) :
    let step := scanEndTag detail s region name start pos c rest
    step.lexeme.kind = .tagEnd
      ∨ (step.lexeme.kind.isTrivia = true ∧ 0 < step.lexeme.length ∧ step.state = s)
      ∨ step.StaysOutside (c :: rest) := by
  unfold scanEndTag
  split
  · exact Or.inl rfl
  split
  · rename_i l hl
    obtain ⟨htrivia, hpos⟩ := whitespace?_trivia hl
    exact Or.inr (Or.inl ⟨htrivia, hpos, rfl⟩)
  · have hstays := scanResumed_staysOutside detail s region pos c rest
    exact Or.inr (Or.inr ⟨⟨hstays.close, hstays.line⟩, hstays.noEnd, hstays.stays⟩)

/-! ### Scans -/

theorem remember_mode (s : LexState) (kind : TokenKind) (piece : List Char) :
    (s.remember kind piece).mode = s.mode := by
  unfold LexState.remember
  split <;> rfl

/-- Every scan is a step, of whose kind its mode has a say. -/
theorem scan_step (detail : Detail) (s : LexState) (pos : Nat) {text : List Char}
    (htext : text ≠ []) :
    ∃ step : Step, (scan detail s pos text).lexemes = [step.lexeme]
      ∧ (scan detail s pos text).state.mode = step.state.mode ∧ step.Sound text
      ∧ (s.mode.isOutside = true → step.StaysOutside text)
      ∧ (s.mode.isEndTag = true → step.lexeme.kind = .tagEnd
        ∨ (step.lexeme.kind.isTrivia = true ∧ 0 < step.lexeme.length
          ∧ step.state.mode.isEndTag = true)
        ∨ step.StaysOutside text) := by
  cases text with
  | nil => exact absurd rfl htext
  | cons c rest =>
      refine ⟨_, rfl, remember_mode .., ?_⟩
      cases hmode : s.mode with
      | code =>
          have hstays := scanCode_staysOutside detail (s := s) (by rw [hmode]; rfl) pos c rest
          exact ⟨hstays.toSound, fun _ => hstays, fun h => absurd h (by simp [Mode.isEndTag])⟩
      | template start =>
          have hstays := scanTemplate_staysOutside (s := s) (by rw [hmode]; rfl) start c rest
          exact ⟨hstays.toSound, fun _ => hstays, fun h => absurd h (by simp [Mode.isEndTag])⟩
      | children region =>
          have hstays := scanChildren_staysOutside (s := s) (by rw [hmode]; rfl) region pos c rest
          exact ⟨hstays.toSound, fun _ => hstays, fun h => absurd h (by simp [Mode.isEndTag])⟩
      | attributes region =>
          exact ⟨scanAttributes_sound s region pos c rest,
            fun h => absurd h (by simp [Mode.isOutside]),
            fun h => absurd h (by simp [Mode.isEndTag])⟩
      | endTag region name start =>
          have hcases := scanEndTag_cases detail s region name start pos c rest
          refine ⟨?_, fun h => absurd h (by simp [Mode.isOutside]), fun h => ?_⟩
          · rcases hcases with hend | ⟨htrivia, -, -⟩ | hstays
            · exact ⟨by simp [hend], by simp [hend]⟩
            · exact .of_plain (isPlain_of_trivia htrivia)
            · exact hstays.toSound
          · rcases hcases with hend | ⟨htrivia, hpos, hstate⟩ | hstays
            · exact Or.inl hend
            · refine Or.inr (Or.inl ⟨htrivia, hpos, ?_⟩)
              simp only [hstate, hmode, Mode.isEndTag]
            · exact Or.inr (Or.inr hstays)

/-! ### Runs -/

/-- Looks at a script treat tags as is asked of them. -/
theorem readsTags (detail : Detail) :
    ReadsTags (·.mode.isOutside = true) (·.mode.isEndTag = true) (scanner detail) := by
  intro s pos text htext
  obtain ⟨step, hlexemes, hmode, hsound, houtside, hendTag⟩ := scan_step detail s pos htext
  replace hmode : ((scanner detail).scan s pos text).state.mode = step.state.mode := hmode
  have hstays (h : step.StaysOutside text) :
      StaysOutside (·.mode.isOutside = true) step.lexeme ((scanner detail).scan s pos text).state :=
    ⟨h.noEnd, fun hfiller => hmode ▸ h.stays hfiller⟩
  refine ⟨step.lexeme, hlexemes, fun hclose => ?_, fun h => hstays (houtside h), fun h => ?_⟩
  · obtain ⟨hpos, hend⟩ := hsound.close hclose
    exact ⟨hpos, hmode ▸ hend⟩
  · rcases hendTag h with hend | ⟨htrivia, hpos, hnext⟩ | h
    · exact Or.inl hend
    · exact Or.inr (Or.inl ⟨by rw [htrivia]; rfl, hpos, hmode ▸ hnext⟩)
    · exact Or.inr (Or.inr (hstays h))

/-- **Every end tag of a script is tight.** -/
theorem lex_tight (pos : Nat) (text : List Char) : TightTags (lex .rich pos text).tokens :=
  ((readsTags .rich).run {} pos text).tight

theorem run_lineComment (detail : Detail) (s : LexState) (pos : Nat) (text : List Char) :
    ∀ t ∈ ((scanner detail).run 0 s pos text).tokens, t.kind = .lineComment →
      ∀ c ∈ t.value.toList, c ≠ '\n' := by
  intro t ht hkind
  obtain ⟨s, pos, text, htext, ht⟩ := (scanner detail).exists_of_mem_run ht
  obtain ⟨step, hlexemes, -, hsound, -, -⟩ := scan_step detail s pos htext
  obtain ⟨more, hcut, hmore, -⟩ :=
    Scan.cut_pieces (s := (scanner detail).scan s pos text) hlexemes pos text
  rw [hcut, List.mem_cons] at ht
  rcases ht with rfl | ht
  · intro c hc
    rw [Lexeme.token, String.toList_ofList] at hc
    exact hsound.line hkind c hc
  · rw [hmore t ht] at hkind
    exact absurd hkind (by decide)

/-- **A line comment lies on one line.** -/
theorem lex_lineComment (source : List Char) :
    ∀ t ∈ (lex .rich 0 source).tokens, t.kind = .lineComment →
      (LineIndex.ofChars source).lineOf t.start
        = (LineIndex.ofChars source).lineOf (max t.start (t.stop - 1)) := by
  intro t ht hkind
  have htext : source <+: source.drop 0 := List.prefix_rfl
  have hcovers := (lex_plain .rich 0 htext).covers
  obtain ⟨hstart, hspan, -⟩ := Token.InOrder.mem hcovers.inOrder t ht
  have hspells := (hcovers.holds t ht).spells
  refine LineIndex.lineOf_eq_of_slice (k := t.stop) (by omega) (by omega) (by omega) ?_
  rw [← hspells]
  exact run_lineComment .rich {} 0 source t ht hkind

end SourceView.Script
