/-
What the tokens of each language cover.

`Proofs/Lexing/Run.lean` lays out the tokens of any scanner.  What is added here is what the
three languages do with it: a scan of a stylesheet or of a script names no piece that stands
for a region, and the one piece of markup that does, the body of a raw-text element, carries
the tokens of a run over just the text that it takes.  So the regions of a run nest in their
tokens, and a structural run, which only drops tokens, keeps the order.
-/
import SourceView.Proofs.Lexing.Runs
import SourceView.Proofs.Script.Steps

namespace SourceView

variable {σ : Type}

/-! ### Scans without regions -/

/-- No piece of the scan stands for a region. -/
def Scan.Plain (s : Scan σ) : Prop :=
  ∀ l ∈ s.lexemes, l.embedded = []

theorem Scan.Plain.ite {p : Prop} [Decidable p] {a b : Scan σ} (ha : a.Plain) (hb : b.Plain) :
    (if p then a else b).Plain := by
  by_cases h : p
  · rw [if_pos h]; exact ha
  · rw [if_neg h]; exact hb

theorem Scan.Plain.single {l : Lexeme} (h : l.embedded = []) (state : σ) (faults : List Fault) :
    Scan.Plain ⟨[l], state, faults⟩ := by
  intro m hm
  rw [List.mem_singleton.mp hm]
  exact h

namespace Lexing

theorem whitespace?_embedded {text : List Char} {l : Lexeme} (h : whitespace? text = some l) :
    l.embedded = [] := by
  unfold whitespace? at h
  grind

theorem delimited_embedded (kind : TokenKind) (style what : String) (opener : Nat)
    (closer : List Char) (pos : Nat) (text : List Char) :
    (delimited kind style what opener closer pos text).1.embedded = [] := by
  unfold delimited
  grind

theorem quotedLiteral_embedded (kind : TokenKind) (style what : String) (multiline : Bool)
    (quote : Char) (pos : Nat) (rest : List Char) :
    (quotedLiteral kind style what multiline quote pos rest).1.embedded = [] := by
  unfold quotedLiteral
  grind

end Lexing

open Lexing

namespace Stylesheet

theorem number_embedded (text : List Char) : (number text).embedded = [] := by
  unfold number
  grind

theorem scanAtRule_plain (s : LexState) (rest : List Char) : (scanAtRule s rest).Plain :=
  .ite (.single rfl _ _) (.single rfl _ _)

theorem scanColon_plain (s : LexState) (rest : List Char) : (scanColon s rest).Plain :=
  .ite (.single rfl _ _) (.single rfl _ _)

theorem scanHash_plain (s : LexState) (rest : List Char) : (scanHash s rest).Plain := by
  unfold scanHash Scan.Plain Lexeme.unknown
  grind

theorem scanBang_plain (s : LexState) (rest : List Char) : (scanBang s rest).Plain :=
  .ite (.single rfl _ _) (.single rfl _ _)

theorem scanWord_plain (s : LexState) (text : List Char) : (scanWord s text).Plain := by
  unfold scanWord urlBody mark Scan.Plain
  grind

theorem scanInStatement_plain (s : LexState) (pos : Nat) (c : Char) (rest : List Char) :
    (scanInStatement s pos c rest).Plain :=
  .ite (.single (quotedLiteral_embedded ..) _ _) <| .ite (.single rfl _ _) <|
  .ite (scanAtRule_plain _ _) <| .ite (scanColon_plain _ _) <| .ite (scanHash_plain _ _) <|
  .ite (scanBang_plain _ _) <| .ite (.single (number_embedded _) _ _) <|
  .ite (.single rfl _ _) <| .ite (.single rfl _ _) <| .ite (scanWord_plain _ _) <|
  .ite (.single rfl _ _) (by simp [Scan.Plain])

theorem scanRich_plain (s : LexState) (pos : Nat) (text : List Char) :
    (scanRich s pos text).Plain := by
  cases text with
  | nil => simp [scanRich, Scan.Plain]
  | cons c rest =>
      have hstatement := scanInStatement_plain (s.begin (c :: rest)) pos c rest
      unfold scanRich
      unfold Scan.Plain mark at *
      grind [whitespace?_embedded, delimited_embedded]

theorem scanStructural_plain (s : Unit) (pos : Nat) (text : List Char) :
    (scanStructural s pos text).Plain := by
  unfold scanStructural Scan.Plain
  grind [delimited_embedded, quotedLiteral_embedded]

end Stylesheet

namespace Script

theorem regex?_embedded {rest : List Char} {l : Lexeme} (h : regex? rest = some l) :
    l.embedded = [] := by
  obtain ⟨n, -, rfl⟩ := Option.map_eq_some_iff.mp h
  rfl

theorem operator_embedded (text : List Char) : (operator text).embedded = [] := by
  unfold operator
  split <;> rfl

theorem scanSlash_embedded (s : LexState) (pos : Nat) (text : List Char) :
    (scanSlash s pos text).lexeme.embedded = [] := by
  unfold scanSlash
  grind [delimited_embedded, regex?_embedded, operator_embedded]

theorem closeBrace_embedded (s : LexState) : (closeBrace s).lexeme.embedded = [] := by
  unfold closeBrace mark
  grind

theorem word_embedded (detail : Detail) (s : LexState) (first : Nat) (text : List Char) :
    (word detail s first text).embedded = [] := by
  cases detail <;> rfl

theorem scanCode_embedded (detail : Detail) (s : LexState) (pos : Nat) (c : Char)
    (rest : List Char) : (scanCode detail s pos c rest).lexeme.embedded = [] := by
  have hstep := scanCode_step detail s pos c rest
  generalize scanCode detail s pos c rest = step at hstep
  cases hstep with
  | space hspace => exact whitespace?_embedded hspace
  | slash => exact scanSlash_embedded s pos (c :: rest)
  | quoted => exact quotedLiteral_embedded ..
  | closeBrace => exact closeBrace_embedded s
  | word | privateWord => exact word_embedded ..
  | operator => exact operator_embedded (c :: rest)
  | template | openBrace | bracket | tag | number | punctuation => rfl

theorem scanTemplate_embedded (s : LexState) (start : Nat) (c : Char) (rest : List Char) :
    (scanTemplate s start c rest).lexeme.embedded = [] := by
  unfold scanTemplate
  grind

theorem scanAttributes_embedded (s : LexState) (region : Region) (pos : Nat) (c : Char)
    (rest : List Char) : (scanAttributes s region pos c rest).lexeme.embedded = [] := by
  unfold scanAttributes mark
  grind [whitespace?_embedded, quotedLiteral_embedded]

theorem scanChildren_embedded (s : LexState) (region : Region) (pos : Nat) (c : Char)
    (rest : List Char) : (scanChildren s region pos c rest).lexeme.embedded = [] := by
  unfold scanChildren openTag mark
  grind [whitespace?_embedded]

theorem scanEndTag_embedded (detail : Detail) (s : LexState) (region : Region) (name : String)
    (start pos : Nat) (c : Char) (rest : List Char) :
    (scanEndTag detail s region name start pos c rest).lexeme.embedded = [] := by
  unfold scanEndTag scanResumed
  grind [whitespace?_embedded, scanCode_embedded, scanChildren_embedded]

theorem scan_plain (detail : Detail) (s : LexState) (pos : Nat) (text : List Char) :
    (scan detail s pos text).Plain := by
  cases text with
  | nil => simp [scan, Scan.Plain]
  | cons c rest =>
      refine Scan.Plain.single ?_ _ _
      cases s.mode with
      | code => exact scanCode_embedded detail s pos c rest
      | template start => exact scanTemplate_embedded s start c rest
      | attributes region => exact scanAttributes_embedded s region pos c rest
      | children region => exact scanChildren_embedded s region pos c rest
      | endTag region name start => exact scanEndTag_embedded detail s region name start pos c rest

end Script

/-! ### Runs -/

/-- What is said of the tokens of a run over `[lo, hi)`: they are laid out there, and each
spells its part and holds what it stands for. -/
structure Covers (detail : Detail) (source : List Char) (lo hi : Int) (ts : List Token) :
    Prop where
  laid : Token.Laid detail.gap lo hi ts
  holds : ∀ t ∈ ts, t.Holds detail.gap source

theorem Lexing.keep_sublist (l : Lexing) (detail : Detail) :
    (l.keep detail).tokens.Sublist l.tokens := by
  cases detail with
  | rich => exact List.Sublist.refl _
  | structural => exact List.filter_sublist

theorem Covers.inOrder {detail : Detail} {source : List Char} {lo hi : Int} {ts : List Token}
    (h : Covers detail source lo hi ts) : Token.InOrder lo hi ts :=
  Detail.inOrder_of_laid h.laid

/-- A structural run drops tokens of a run that has no gaps, and what it keeps is still in
order. -/
theorem Covers.keep {source : List Char} {lo hi : Int} {l : Lexing} {detail : Detail}
    (hlaid : Token.Tile lo hi l.tokens) (hholds : ∀ t ∈ l.tokens, t.Holds detail.gap source) :
    Covers detail source lo hi (l.keep detail).tokens := by
  refine ⟨?_, fun t ht => hholds t ((l.keep_sublist detail).subset ht)⟩
  cases detail with
  | rich => exact hlaid
  | structural => exact (Token.Tile.inOrder hlaid).sublist (l.keep_sublist .structural)

/-- A run in a language whose scans name no regions. -/
structure Plain (detail : Detail) (source : List Char) (lo hi : Int) (ts : List Token) :
    Prop where
  covers : Covers detail source lo hi ts
  embedded : ∀ t ∈ ts, t.embedded = []

/-- A scanner without regions covers the text that it runs over. -/
theorem Scanner.run_plain (scanner : Scanner σ)
    (hplain : ∀ state pos text, (scanner.scan state pos text).Plain) {source text : List Char}
    (detail : Detail) (state : σ) (pos : Nat) (htext : text <+: source.drop pos) :
    Plain detail source pos (pos + text.length : Nat)
      ((scanner.run 0 state pos text).keep detail).tokens := by
  have hall : ∀ t ∈ (scanner.run 0 state pos text).tokens,
      t.embedded = [] ∧ t.Spells source := by
    refine scanner.run_forall ?_ state pos text htext
    intro state pos text htext
    refine Lexeme.cut_forall ?_ pos text htext
    intro l hl pos text htext
    refine ⟨?_, l.token_spells htext⟩
    rcases Scan.mem_pieces hl with hl | rfl
    · exact hplain _ _ _ l hl
    · rfl
  refine ⟨Covers.keep (scanner.run_tile state pos text) ?_, ?_⟩
  · intro t ht
    exact Token.Holds.of_embedded_nil (hall t ht).2 (hall t ht).1
  · intro t ht
    exact (hall t ((Lexing.keep_sublist _ detail).subset ht)).1

theorem Stylesheet.lex_plain {source text : List Char} (detail : Detail) (pos : Nat)
    (htext : text <+: source.drop pos) :
    Plain detail source pos (pos + text.length : Nat) (lex detail pos text).tokens := by
  cases detail with
  | rich => exact richScanner.run_plain scanRich_plain .rich {} pos htext
  | structural => exact structuralScanner.run_plain scanStructural_plain .structural () pos htext

theorem Script.lex_plain {source text : List Char} (detail : Detail) (pos : Nat)
    (htext : text <+: source.drop pos) :
    Plain detail source pos (pos + text.length : Nat) (lex detail pos text).tokens :=
  (scanner detail).run_plain (scan_plain detail) detail {} pos htext

/-! ### Markup -/

namespace Markup

/-- The region that a piece of markup stands for is none, or the run over just the text that
the piece takes. -/
def BodyOf (detail : Detail) (pos : Nat) (text : List Char) (l : Lexeme) : Prop :=
  l.embedded = [] ∨
    ∃ language, l.embedded = (lexBody language detail pos (text.take l.length)).tokens

theorem scanAngle_embedded (pos : Nat) (text : List Char) :
    (scanAngle pos text).lexeme.embedded = [] := by
  unfold scanAngle region
  grind [delimited_embedded]

theorem characterData_embedded (c : Char) (rest : List Char) :
    (characterData c rest).embedded = [] := by
  unfold characterData
  grind [whitespace?_embedded]

theorem scanContent_embedded (detail : Detail) (pos : Nat) (c : Char) (rest : List Char) :
    (scanContent detail pos c rest).lexeme.embedded = [] := by
  unfold scanContent
  cases detail <;> grind [scanAngle_embedded, characterData_embedded]

theorem scanAttributes_embedded (tag : StartTag) (pos : Nat) (c : Char) (rest : List Char) :
    (scanAttributes tag pos c rest).lexeme.embedded = [] := by
  unfold scanAttributes quotedValue mark
  grind [scanAngle_embedded, whitespace?_embedded]

theorem scanEndTag_embedded (name : String) (start pos : Nat) (c : Char) (rest : List Char) :
    (scanEndTag name start pos c rest).lexeme.embedded = [] := by
  unfold scanEndTag
  grind [scanAngle_embedded, whitespace?_embedded]

theorem scanRawText_bodyOf (surroundings : Surroundings) (tag : StartTag) (pos : Nat) (c : Char)
    (rest : List Char) :
    BodyOf surroundings.detail pos (c :: rest)
      (scanRawText surroundings tag pos c rest).lexeme := by
  unfold scanRawText
  by_cases hn : (rawLength? ('<' :: '/' :: Text.lowerChars tag.name.toList)
      (surroundings.lowered.drop pos)).getD (c :: rest).length = 0
  · rw [if_pos hn]
    exact Or.inl (scanContent_embedded _ pos c rest)
  · rw [if_neg hn]
    by_cases hembed : surroundings.embed = true
    · exact Or.inr ⟨tag.language, by simp [hembed]⟩
    · exact Or.inl (by simp [hembed])

theorem scan_bodyOf (surroundings : Surroundings) (mode : Mode) (pos : Nat) (text : List Char) :
    ∀ l ∈ (scan surroundings mode pos text).lexemes, BodyOf surroundings.detail pos text l := by
  cases text with
  | nil => simp [scan]
  | cons c rest =>
      intro l hl
      simp only [scan, List.mem_singleton] at hl
      subst hl
      cases mode with
      | content => exact Or.inl (scanContent_embedded _ pos c rest)
      | attributes tag => exact Or.inl (scanAttributes_embedded tag pos c rest)
      | endTag name start => exact Or.inl (scanEndTag_embedded name start pos c rest)
      | rawText tag => exact scanRawText_bodyOf surroundings tag pos c rest

theorem lexBody_plain {source text : List Char} (language : String) (detail : Detail) (pos : Nat)
    (htext : text <+: source.drop pos) :
    (lexBody language detail pos text).tokens = [] ∨
      Plain detail source pos (pos + text.length : Nat)
        (lexBody language detail pos text).tokens := by
  unfold lexBody
  by_cases hcss : (language == "css") = true
  · rw [if_pos hcss]
    exact Or.inr (Stylesheet.lex_plain detail pos htext)
  · rw [if_neg hcss]
    by_cases hjs : (language == "js") = true
    · rw [if_pos hjs]
      exact Or.inr (Script.lex_plain detail pos htext)
    · rw [if_neg hjs]
      exact Or.inl rfl

/-- The token that a piece of markup becomes holds what it stands for. -/
theorem token_holds {source text : List Char} {detail : Detail} {pos : Nat} {l : Lexeme}
    (h : BodyOf detail pos text l) (htext : text <+: source.drop pos) :
    (l.token pos text).Holds detail.gap source := by
  have hspells := l.token_spells htext
  have hnone (hnil : l.embedded = []) : (l.token pos text).Holds detail.gap source :=
    Token.Holds.of_embedded_nil hspells hnil
  rcases h with hnil | ⟨language, hbody⟩
  · exact hnone hnil
  · have hpiece : text.take l.length <+: source.drop pos :=
      (List.take_prefix l.length text).trans htext
    rcases lexBody_plain language detail pos hpiece with hempty | hplain
    · exact hnone (hbody.trans hempty)
    · rw [← hbody] at hplain
      exact ⟨hspells, Or.inr hplain.covers.laid, hplain.embedded,
        fun u hu => (hplain.covers.holds u hu).spells⟩

theorem scan_holds (surroundings : Surroundings) {source text : List Char} (mode : Mode)
    (pos : Nat) (htext : text <+: source.drop pos) :
    ∀ t ∈ Lexeme.cut pos text (scan surroundings mode pos text).pieces,
      t.Holds surroundings.detail.gap source := by
  have hunknown : ∀ pos text, text <+: source.drop pos →
      (Lexeme.unknown.token pos text).Holds surroundings.detail.gap source :=
    fun pos text htext => token_holds (Or.inl rfl) htext
  cases text with
  | nil =>
      refine Lexeme.cut_forall ?_ pos [] htext
      intro l hl
      rcases Scan.mem_pieces hl with hl | rfl
      · simp [scan] at hl
      · exact hunknown
  | cons c rest =>
      have hbody := scan_bodyOf surroundings mode pos (c :: rest)
      intro t ht
      unfold Scan.pieces at ht
      -- The unknown character of a scan that takes none is cut off behind its one piece.
      by_cases hw : Lexeme.width (scan surroundings mode pos (c :: rest)).lexemes = 0
      · rw [if_pos hw] at ht
        simp only [scan, List.cons_append, List.nil_append, Lexeme.cut, List.mem_cons,
          List.not_mem_nil, or_false] at ht
        rcases ht with rfl | rfl
        · exact token_holds (hbody _ (by simp [scan])) htext
        · exact hunknown _ _ (Lexeme.prefix_drop htext)
      · rw [if_neg hw] at ht
        simp only [scan, Lexeme.cut, List.mem_singleton] at ht
        subst ht
        exact token_holds (hbody _ (by simp [scan])) htext

theorem run_covers (surroundings : Surroundings) {source text : List Char} (pos : Nat)
    (htext : text <+: source.drop pos) :
    Covers surroundings.detail source pos (pos + text.length : Nat)
      (((scanner surroundings).run 0 .content pos text).keep surroundings.detail).tokens :=
  Covers.keep ((scanner surroundings).run_tile .content pos text)
    ((scanner surroundings).run_forall
      (fun mode pos _ htext => scan_holds surroundings mode pos htext) .content pos text htext)

end Markup

/-! ### Languages -/

theorem boundedText_isPrefix (source : List Char) (start stop : Nat) :
    boundedText source start (some stop) <+: source.drop start := by
  rw [boundedText, List.drop_take]
  exact List.take_prefix ..

theorem boundedText_prefix (source : List Char) (start : Nat) (stop : Option Nat) :
    boundedText source start stop <+: source.drop start := by
  cases stop with
  | none => exact List.prefix_refl _
  | some stop => exact boundedText_isPrefix source start stop

theorem length_boundedText {source : List Char} {start stop : Nat} (hle : start ≤ stop)
    (hstop : stop ≤ source.length) :
    start + (boundedText source start (some stop)).length = stop := by
  rw [boundedText, List.length_drop, List.length_take]
  omega

/-- What a run over a part of a text covers is that part. -/
theorem Language.lex_covers (language : Language) (detail : Detail) (embed : Bool)
    {source : List Char} {start stop : Nat} (hle : start ≤ stop) (hstop : stop ≤ source.length) :
    Covers detail source start stop
      (language.lex detail embed source start (some stop)).tokens := by
  have htext := boundedText_isPrefix source start stop
  refine ⟨language.lex_laid detail embed hle hstop, ?_⟩
  cases language with
  | markup =>
      have hmin : min stop source.length = stop := Nat.min_eq_left hstop
      have hcovers := Markup.run_covers
        { embed, detail, lowered := (Text.lowerChars source).take stop } start htext
      rw [lex_markup, Markup.lex, Option.getD_some, hmin]
      exact hcovers.holds
  | stylesheet =>
      rw [lex_stylesheet]
      exact (Stylesheet.lex_plain detail start htext).covers.holds
  | script =>
      rw [lex_script]
      exact (Script.lex_plain detail start htext).covers.holds

/-- A run without an end of its own goes to the end of the text. -/
theorem Language.lex_none (language : Language) (detail : Detail) (embed : Bool)
    (source : List Char) (start : Nat) :
    language.lex detail embed source start none
      = language.lex detail embed source start (some source.length) := by
  rfl

namespace Covers

variable {detail : Detail} {source : List Char} {lo hi : Int} {ts : List Token}

/-- Regions may be put in the place of their tokens. -/
theorem flatten (h : Covers detail source lo hi ts) :
    Token.Laid detail.gap lo hi (Token.flatten ts) :=
  h.laid.flatten detail.gap_trans h.holds

theorem spells_flatten (h : Covers detail source lo hi ts) :
    ∀ t ∈ Token.flatten ts, t.Spells source :=
  Token.Holds.spells_flatten h.holds

theorem embedded_inOrder (h : Covers detail source lo hi ts) :
    ∀ t ∈ ts, Token.InOrder t.start t.stop t.embedded := by
  intro t ht
  obtain ⟨-, hspan, -⟩ := Token.InOrder.mem h.inOrder t ht
  rcases (h.holds t ht).laid with hnil | hlaid
  · rw [hnil]
    exact hspan
  · exact Detail.inOrder_of_laid hlaid

end Covers

/-- **The tokens of a run are faithful to the text.**  They are in order within the bounds of
the run, each spells its part, and so do the tokens of every region within the token that
stands for it; with the text between them they give back the source.  A rich run leaves no
text between them. -/
theorem Language.lex_faithful (language : Language) (detail : Detail) (embed : Bool)
    (source : String) (start stop : Nat) (hle : start ≤ stop)
    (hstop : stop ≤ source.toList.length) :
    let tokens := (language.lex detail embed source.toList start (some stop)).tokens
    Token.InOrder start stop tokens
      ∧ (∀ t ∈ tokens, t.Spells source.toList)
      ∧ (∀ t ∈ tokens, Token.InOrder t.start t.stop t.embedded
          ∧ ∀ u ∈ t.embedded, u.Spells source.toList)
      ∧ Token.reconstruct source (Token.flatten tokens) = source
      ∧ (detail = .rich →
          Token.Tile start stop tokens ∧ Token.Tile start stop (Token.flatten tokens)
            ∧ (tokens.map (·.value.toList)).flatten = Text.slice source.toList start stop
            ∧ ((Token.flatten tokens).map (·.value.toList)).flatten
                = Text.slice source.toList start stop) := by
  intro tokens
  have hcovers := language.lex_covers detail embed hle hstop
  have hstart : (0 : Int) ≤ start := Int.natCast_nonneg start
  have hspells : ∀ t ∈ tokens, t.Spells source.toList := fun t ht => (hcovers.holds t ht).spells
  refine ⟨hcovers.inOrder, hspells, ?_, ?_, ?_⟩
  · intro t ht
    exact ⟨hcovers.embedded_inOrder t ht, (hcovers.holds t ht).inner⟩
  · have horder := (Detail.inOrder_of_laid hcovers.flatten).of_le hstart
    have hgives := Token.reconstructFrom_eq horder (Int.le_refl 0) hcovers.spells_flatten
    have hall : Text.sliceFrom source.toList 0 = source.toList := rfl
    rw [Token.reconstruct, hgives, hall, String.ofList_toList]
  · rintro rfl
    exact ⟨hcovers.laid, hcovers.flatten, Token.values_of_tile hcovers.laid hstart hspells,
      Token.values_of_tile hcovers.flatten hstart hcovers.spells_flatten⟩

theorem Language.lex_faithful_of_script_element :
    let source := "<script>f(1)</script> a"
    let tokens := (markup.lex .rich true source.toList 0 (some 22)).tokens
    0 ≤ 22 ∧ 22 ≤ source.toList.length
      ∧ Token.Tile (0 : Nat) (22 : Nat) (Token.flatten tokens)
      ∧ Token.reconstruct source (Token.flatten tokens) = source := by
  intro source tokens
  have hstop : 22 ≤ source.toList.length := by decide
  obtain ⟨-, -, -, hgives, hrich⟩ := lex_faithful .markup .rich true source 0 22 (by decide) hstop
  exact ⟨by decide, hstop, (hrich rfl).2.1, hgives⟩

end SourceView
