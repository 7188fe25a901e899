/-
What is known of the tokens of markup.

End tags are tight: past the name of an end tag whatever is not a `>` is junk, up to the next
angle bracket, which leaves the mode.  There are no line comments.  And unless bodies are
lexed in their own language no token stands for a region.
-/
import SourceView.Proofs.Lexing.Coverage
import SourceView.Proofs.Lexing.EndTags

namespace SourceView.Markup

open Lexing Parsing

/-! ### Steps -/

/-- Whether the lexer is in no tag. -/
def Mode.isOutside : Mode → Bool
  | .content | .rawText _ => true
  | .attributes _ | .endTag .. => false

/-- Whether the lexer is past the name of an end tag. -/
def Mode.isEndTag : Mode → Bool
  | .endTag .. => true
  | _ => false

/-- What is asked of every step: it enters an end tag by its name, and it names no line
comment. -/
structure Step.Sound (step : Step) : Prop where
  close : step.lexeme.kind = .tagClose → 0 < step.lexeme.length ∧ step.mode.isEndTag = true
  line : step.lexeme.kind ≠ .lineComment

/-- What is asked of a step outside of tags: no tag ends there, and without a boundary none
begins. -/
structure Step.OutsideTags (step : Step) : Prop extends step.Sound where
  staysOutside : StaysOutside (·.isOutside = true) step.lexeme step.mode

namespace Step

variable {step : Step}

theorem Sound.of_plain (h : isPlain step.lexeme.kind = true) : step.Sound :=
  ⟨fun hclose => absurd hclose (noClose_of_plain h), noLine_of_plain h⟩

theorem OutsideTags.of_plain (h : isPlain step.lexeme.kind = true)
    (hstays : step.lexeme.kind.isStructural = true ∨ step.mode.isOutside = true) : step.OutsideTags :=
  { Sound.of_plain h with
    staysOutside := ⟨noEnd_of_plain h, fun hfiller => hstays.resolve_left (by simp [hfiller])⟩ }

end Step

theorem region_outsideTags {kind : TokenKind} (h : isPlain kind = true) (style what : String)
    (opener : Nat) (closer : List Char) (pos : Nat) (text : List Char) :
    (region kind style what opener closer pos text).OutsideTags := by
  refine .of_plain ?_ (Or.inr rfl)
  show isPlain (delimited kind style what opener closer pos text).1.kind = true
  rw [delimited_kind]
  exact h

theorem scanAngle_outsideTags (pos : Nat) (text : List Char) : (scanAngle pos text).OutsideTags := by
  unfold scanAngle
  simp only
  split
  · exact region_outsideTags rfl ..
  split
  · exact region_outsideTags rfl ..
  split
  · exact region_outsideTags rfl ..
  split
  · exact region_outsideTags rfl ..
  split
  · -- An end tag is entered past at least its `</`.
    refine ⟨⟨fun _ => ⟨?_, rfl⟩, by simp⟩, by simp, by simp [TokenKind.isStructural]⟩
    simp only
    omega
  split
  · exact .of_plain rfl (Or.inl rfl)
  · exact .of_plain rfl (Or.inr rfl)

theorem characterData_plain (c : Char) (rest : List Char) :
    isPlain (characterData c rest).kind = true := by
  unfold characterData
  split
  · split <;> rfl
  · split
    · rename_i l hl
      exact isPlain_of_trivia (whitespace?_trivia hl).1
    · rfl

theorem scanContent_outsideTags (detail : Detail) (pos : Nat) (c : Char) (rest : List Char) :
    (scanContent detail pos c rest).OutsideTags := by
  unfold scanContent
  split
  · exact scanAngle_outsideTags ..
  · refine .of_plain ?_ (Or.inr rfl)
    cases detail with
    | rich => exact characterData_plain ..
    | structural => rfl

theorem scanRawText_outsideTags (surroundings : Surroundings) (tag : StartTag) (pos : Nat) (c : Char)
    (rest : List Char) : (scanRawText surroundings tag pos c rest).OutsideTags := by
  unfold scanRawText
  simp only
  split
  · exact scanContent_outsideTags ..
  · exact .of_plain rfl (Or.inl rfl)

theorem quotedValue_plain (tag : StartTag) (quote : Char) (pos : Nat) (rest : List Char) :
    isPlain (quotedValue tag quote pos rest).lexeme.kind = true := by
  unfold quotedValue
  split <;> rfl

theorem scanAttributes_sound (tag : StartTag) (pos : Nat) (c : Char) (rest : List Char) :
    (scanAttributes tag pos c rest).Sound := by
  unfold scanAttributes
  split
  · rename_i l hl
    exact .of_plain (isPlain_of_trivia (whitespace?_trivia hl).1)
  split
  · exact ⟨by simp, by simp⟩
  split
  · exact .of_plain rfl
  split
  · exact ⟨(scanAngle_outsideTags pos _).close, (scanAngle_outsideTags pos _).line⟩
  split
  · exact .of_plain rfl
  split
  · exact .of_plain (quotedValue_plain ..)
  split
  · exact .of_plain rfl
  split
  · exact .of_plain rfl
  · exact .of_plain rfl

/-- Past the name of an end tag comes its `>`, or an angle bracket, or junk. -/
theorem scanEndTag_cases (name : String) (start pos : Nat) (c : Char) (rest : List Char) :
    let step := scanEndTag name start pos c rest
    step.lexeme.kind = .tagEnd
      ∨ ((step.lexeme.kind.isTrivia || step.lexeme.kind == .text) = true ∧ 0 < step.lexeme.length
        ∧ step.mode.isEndTag = true)
      ∨ step.OutsideTags := by
  unfold scanEndTag
  split
  · exact Or.inl rfl
  split
  · have houtside := scanAngle_outsideTags pos (c :: rest)
    exact Or.inr (Or.inr ⟨⟨houtside.close, houtside.line⟩, houtside.staysOutside⟩)
  split
  · rename_i l hl
    obtain ⟨htrivia, hpos⟩ := whitespace?_trivia hl
    exact Or.inr (Or.inl ⟨by rw [htrivia]; rfl, hpos, rfl⟩)
  · exact Or.inr (Or.inl ⟨rfl, Nat.add_pos_left Nat.one_pos _, rfl⟩)

/-! ### Looks -/

/-- Every look at markup is a step that treats tags as is asked of it, and is at no line
comment. -/
theorem scan_look (surroundings : Surroundings) (mode : Mode) (pos : Nat) {text : List Char}
    (htext : text ≠ []) :
    ∃ l, (scan surroundings mode pos text).lexemes = [l]
      ∧ TagLook (·.isOutside = true) (·.isEndTag = true) mode l
        (scan surroundings mode pos text).state
      ∧ l.kind ≠ .lineComment := by
  cases text with
  | nil => exact absurd rfl htext
  | cons c rest =>
      refine ⟨_, rfl, ?_⟩
      cases mode with
      | content =>
          have houtside := scanContent_outsideTags surroundings.detail pos c rest
          exact ⟨⟨houtside.close, fun _ => houtside.staysOutside, fun h => absurd h (by simp [Mode.isEndTag])⟩,
            houtside.line⟩
      | rawText tag =>
          have houtside := scanRawText_outsideTags surroundings tag pos c rest
          exact ⟨⟨houtside.close, fun _ => houtside.staysOutside, fun h => absurd h (by simp [Mode.isEndTag])⟩,
            houtside.line⟩
      | attributes tag =>
          have hsound := scanAttributes_sound tag pos c rest
          exact ⟨⟨hsound.close, fun h => absurd h (by simp [Mode.isOutside]),
            fun h => absurd h (by simp [Mode.isEndTag])⟩, hsound.line⟩
      | endTag name start =>
          have hcases := scanEndTag_cases name start pos c rest
          have hsound : (scanEndTag name start pos c rest).Sound := by
            rcases hcases with hend | ⟨hjunk, -, -⟩ | houtside
            · exact ⟨by simp [hend], by simp [hend]⟩
            · refine .of_plain ?_
              rw [Bool.or_eq_true, beq_iff_eq] at hjunk
              rcases hjunk with htrivia | htext
              · exact isPlain_of_trivia htrivia
              · rw [htext]
                rfl
            · exact houtside.toSound
          refine ⟨⟨hsound.close, fun h => absurd h (by simp [Mode.isOutside]), fun _ => ?_⟩,
            hsound.line⟩
          rcases hcases with hend | hjunk | houtside
          · exact Or.inl hend
          · exact Or.inr (Or.inl hjunk)
          · exact Or.inr (Or.inr houtside.staysOutside)

/-! ### Runs -/

theorem readsTags (surroundings : Surroundings) :
    ReadsTags (·.isOutside = true) (·.isEndTag = true) (scanner surroundings) := by
  intro mode pos text htext
  obtain ⟨l, hlexemes, hlook, -⟩ := scan_look surroundings mode pos htext
  exact ⟨l, hlexemes, hlook⟩

/-- **Every end tag of markup is tight.** -/
theorem lex_tight (embed : Bool) (source : List Char) (start : Nat) (stop : Option Nat) :
    TightTags (lex .rich embed source start stop).tokens :=
  ((readsTags _).run .content start _).tight

/-- Markup has no line comments. -/
theorem lex_noLine (embed : Bool) (source : List Char) (start : Nat) (stop : Option Nat) :
    ∀ t ∈ (lex .rich embed source start stop).tokens, t.kind ≠ .lineComment := by
  intro t ht
  obtain ⟨mode, pos, text, htext, ht⟩ := Scanner.exists_of_mem_run _ ht
  obtain ⟨l, hl, _, _, rfl⟩ := Lexeme.exists_of_mem_cut ht
  obtain ⟨m, hlexemes, -, hline⟩ := scan_look _ mode pos htext
  rcases Scan.mem_pieces hl with hl | rfl
  · rw [show l = m from List.mem_singleton.mp (hlexemes ▸ hl)]
    exact hline
  · show TokenKind.unknown ≠ .lineComment
    decide

theorem scanRawText_embedded {surroundings : Surroundings} (h : surroundings.embed = false)
    (tag : StartTag) (pos : Nat) (c : Char) (rest : List Char) :
    (scanRawText surroundings tag pos c rest).lexeme.embedded = [] := by
  unfold scanRawText
  simp only [h]
  split
  · exact scanContent_embedded _ pos c rest
  · rfl

theorem scan_embedded {surroundings : Surroundings} (h : surroundings.embed = false) (mode : Mode)
    (pos : Nat) (text : List Char) :
    ∀ l ∈ (scan surroundings mode pos text).lexemes, l.embedded = [] := by
  cases text with
  | nil => simp [scan]
  | cons c rest =>
      intro l hl
      rw [List.mem_singleton.mp hl]
      cases mode with
      | content => exact scanContent_embedded _ pos c rest
      | attributes tag => exact scanAttributes_embedded tag pos c rest
      | endTag name start => exact scanEndTag_embedded name start pos c rest
      | rawText tag => exact scanRawText_embedded h tag pos c rest

/-- Unless bodies are lexed in their own language, no token of markup stands for a region. -/
theorem lex_embedded (source : List Char) (start : Nat) (stop : Option Nat) :
    ∀ t ∈ (lex .rich false source start stop).tokens, t.embedded = [] := by
  intro t ht
  obtain ⟨mode, pos, text, -, ht⟩ := Scanner.exists_of_mem_run _ ht
  obtain ⟨l, hl, _, _, rfl⟩ := Lexeme.exists_of_mem_cut ht
  rcases Scan.mem_pieces hl with hl | rfl
  · exact scan_embedded rfl mode pos text l hl
  · rfl

end SourceView.Markup
