/-
The markup around bodies.

Whether the lexer reads the body of a script or style element in its own language or not, it
takes the same looks at the markup around it.  Reading the body fills one token, of raw text,
with the tokens of the body, and puts the faults of the body among those of the markup.  So the
run that reads no bodies is the other run with its raw text made hollow and with those faults
left out that begin in raw text.

Faults of the markup begin where some token begins that is no raw text: at the text ahead, or
where the tag began that the lexer is in, which its mode remembers.  Faults of a body begin
where text of the body is left.  `Tells` is what a test of offsets has to do to tell the ones
from the others; it is kept fixed along the run, and at the end it is `outsideRaw`.
-/
import SourceView.Proofs.Lexing.Starts
import SourceView.Proofs.Markup.Detail
import SourceView.Proofs.Markup.Pieces

namespace SourceView

open Lexing

/-! ### Hollow raw text -/

/-- The token without the tokens of the region that it stands for. -/
def Token.hollow (t : Token) : Token :=
  { t with embedded := [] }

/-- Whether the offset lies in none of the raw texts among `ts`. -/
def Token.outsideRaw (ts : List Token) (x : Int) : Bool :=
  ts.all fun t => !(t.kind == .rawText && decide (t.start ≤ x) && decide (x < t.stop))

/-- The tokens without the regions that they stand for, and the faults that begin in no raw
text. -/
def Lexing.hollow (l : Lexing) : Lexing :=
  ⟨l.tokens.map Token.hollow, l.faults.filter fun f => Token.outsideRaw l.tokens f.start⟩

namespace Token

theorem outsideRaw_eq_true {ts : List Token} {x : Int} :
    outsideRaw ts x = true ↔ ∀ t ∈ ts, t.kind = .rawText → x < t.start ∨ t.stop ≤ x := by
  simp only [outsideRaw, List.all_eq_true, Bool.not_eq_true', Bool.and_eq_false_imp,
    Bool.and_eq_true, beq_iff_eq, decide_eq_true_eq, decide_eq_false_iff_not]
  refine forall₂_congr fun t _ => ?_
  constructor
  · intro h hkind
    by_cases hle : t.start ≤ x
    · exact Or.inr (Int.not_lt.mp (h ⟨hkind, hle⟩))
    · exact Or.inl (Int.not_le.mp hle)
  · rintro h ⟨hkind, hle⟩
    rcases h hkind with hlt | hstop <;> omega

/-- Raw text bounds something, so a structural run keeps all of it. -/
theorem outsideRaw_filter (ts : List Token) :
    outsideRaw (ts.filter (·.kind.isStructural)) = outsideRaw ts := by
  funext x
  rw [Bool.eq_iff_iff, outsideRaw_eq_true, outsideRaw_eq_true]
  constructor
  · intro h t ht hkind
    exact h t (List.mem_filter.mpr ⟨ht, by rw [hkind]; rfl⟩) hkind
  · intro h t ht
    exact h t (List.mem_filter.mp ht).1

/-- `keeps` fails all over the raw text among `ts` and holds where any other token begins. -/
structure Tells (keeps : Int → Bool) (ts : List Token) : Prop where
  inside : ∀ t ∈ ts, t.kind = .rawText → ∀ x, t.start ≤ x → x < t.stop → keeps x = false
  outside : ∀ t ∈ ts, t.kind ≠ .rawText → keeps t.start = true

theorem Tells.subset {keeps : Int → Bool} {ts us : List Token} (h : Tells keeps ts)
    (hsub : us ⊆ ts) : Tells keeps us :=
  ⟨fun t ht => h.inside t (hsub ht), fun t ht => h.outside t (hsub ht)⟩

end Token

open Token

theorem Lexing.keep_hollow (detail : Detail) (l : Lexing) :
    (l.keep detail).hollow = l.hollow.keep detail := by
  cases detail with
  | rich => rfl
  | structural =>
      simp only [Lexing.keep, Lexing.hollow, outsideRaw_filter, List.filter_map]
      rfl

variable {σ : Type} {keeps : Int → Bool}

/-- The piece without the region that it stands for. -/
def Lexeme.hollow (l : Lexeme) : Lexeme :=
  { l with embedded := [] }

theorem Lexeme.width_hollow (ls : List Lexeme) : width (ls.map hollow) = width ls := by
  induction ls with
  | nil => rfl
  | cons l ls ih => rw [List.map_cons, width, width, ih]; rfl

theorem Lexeme.cut_hollow (ls : List Lexeme) (pos : Nat) (text : List Char) :
    cut pos text (ls.map hollow) = (cut pos text ls).map Token.hollow := by
  induction ls generalizing pos text with
  | nil => rfl
  | cons l ls ih => exact congrArg (Token.hollow (l.token pos text) :: ·) (ih _ _)

/-- The scan without regions, and with the faults that `keeps` lets pass. -/
def Scan.hollow (keeps : Int → Bool) (s : Scan σ) : Scan σ :=
  { s with lexemes := s.lexemes.map Lexeme.hollow
           faults := s.faults.filter fun f => keeps f.start }

theorem Scan.pieces_hollow (s : Scan σ) : (s.hollow keeps).pieces = s.pieces.map Lexeme.hollow := by
  simp only [Scan.pieces, Scan.hollow, Lexeme.width_hollow]
  by_cases hw : Lexeme.width s.lexemes = 0
  · rw [if_pos hw, if_pos hw, List.map_append]
    rfl
  · rw [if_neg hw, if_neg hw]

namespace Markup

/-! ### Faults of markup -/

variable {P : Int → Prop} {pos : Nat} {tag : StartTag} {start : Nat}

/-- What is true of the offset at which the tag began that the lexer is in. -/
def Mode.Remembers (P : Int → Prop) : Mode → Prop
  | content | rawText _ => True
  | attributes tag => P tag.start
  | endTag _ start => P start

theorem finish_starts {mode : Mode} (h : mode.Remembers P) : ∀ f ∈ finish mode pos, P f.start := by
  cases mode with
  | content | rawText => simp [finish]
  | attributes tag => exact List.forall_mem_singleton.mpr h
  | endTag name start => exact List.forall_mem_singleton.mpr h

/-- What is asked of a step that takes no raw text: if `P` is true of the text ahead, it is true
of what the step remembers, and of where its faults begin. -/
structure Step.Outer (P : Int → Prop) (pos : Nat) (step : Step) : Prop where
  kind : step.lexeme.kind ≠ .rawText
  plain : step.lexeme.embedded = []
  mode : P pos → step.mode.Remembers P
  faults : P pos → ∀ f ∈ step.faults, P f.start

namespace Step.Outer

theorem ite {p : Prop} [Decidable p] {a b : Step} (ha : a.Outer P pos) (hb : b.Outer P pos) :
    (if p then a else b).Outer P pos := by
  by_cases h : p
  · rw [if_pos h]; exact ha
  · rw [if_neg h]; exact hb

theorem silent {l : Lexeme} {mode : Mode} (hkind : l.kind ≠ .rawText) (hplain : l.embedded = [])
    (hmode : P pos → mode.Remembers P) : Step.Outer P pos { lexeme := l, mode } :=
  ⟨hkind, hplain, hmode, by simp⟩

/-- A step may also find that the tag before it is unfinished. -/
theorem unclosed {step : Step} (h : step.Outer P pos) {f : Fault} (hf : P f.start) :
    Step.Outer P pos { step with faults := f :: step.faults } := by
  refine ⟨h.kind, h.plain, h.mode, fun hpos g hg => ?_⟩
  rcases List.mem_cons.mp hg with rfl | hg
  · exact hf
  · exact h.faults hpos g hg

end Step.Outer

theorem whitespace?_kind {text : List Char} {l : Lexeme} (h : whitespace? text = some l) :
    l.kind ≠ .rawText := by
  intro hkind
  have htrivia := (whitespace?_trivia h).1
  rw [hkind] at htrivia
  exact absurd htrivia (by decide)

theorem region_outer {kind : TokenKind} (h : kind ≠ .rawText) (style what : String) (opener : Nat)
    (closer : List Char) (text : List Char) :
    (region kind style what opener closer pos text).Outer P pos where
  kind := (delimited_kind kind style what opener closer pos text).symm ▸ h
  plain := delimited_embedded kind style what opener closer pos text
  mode := fun _ => trivial
  faults := fun hpos => delimited_starts kind style what opener closer hpos text

theorem scanAngle_outer (text : List Char) : (scanAngle pos text).Outer P pos :=
  .ite (region_outer (by decide) ..) <| .ite (region_outer (by decide) ..) <|
  .ite (region_outer (by decide) ..) <| .ite (region_outer (by decide) ..) <|
  .ite (.silent nofun rfl id) <| .ite (.silent nofun rfl id) <|
  .silent nofun rfl fun _ => trivial

theorem characterData_kind (c : Char) (rest : List Char) :
    (characterData c rest).kind ≠ .rawText := by
  unfold characterData
  split
  · split <;> exact nofun
  · split
    · rename_i l hl
      exact whitespace?_kind hl
    · exact nofun

theorem scanContent_outer (detail : Detail) (c : Char) (rest : List Char) :
    (scanContent detail pos c rest).Outer P pos := by
  refine .ite (scanAngle_outer (c :: rest)) ?_
  cases detail with
  | rich =>
      exact .silent (characterData_kind c rest) (characterData_embedded c rest) fun _ => trivial
  | structural => exact .silent nofun rfl fun _ => trivial

theorem StartTag.start_assign (tag : StartTag) (value : String) :
    (tag.assign value).start = tag.start := by
  unfold StartTag.assign
  split <;> rfl

theorem StartTag.body_remembers (tag : StartTag) : tag.body.Remembers P := by
  unfold StartTag.body
  split <;> trivial

theorem quotedValue_outer (htag : P tag.start) (quote : Char) (rest : List Char) :
    (quotedValue tag quote pos rest).Outer P pos := by
  have hmode (value : String) : (Mode.attributes (tag.assign value)).Remembers P := by
    show P (tag.assign value).start
    rw [StartTag.start_assign]
    exact htag
  unfold quotedValue
  split
  · exact .silent nofun rfl fun _ => hmode _
  · exact ⟨nofun, rfl, fun _ => hmode _, fun hpos => by simpa using hpos⟩

theorem scanAttributes_outer (htag : P tag.start) (c : Char) (rest : List Char) :
    (scanAttributes tag pos c rest).Outer P pos := by
  have hmode {tag' : StartTag} (h : tag'.start = tag.start) :
      (Mode.attributes tag').Remembers P := by
    show P tag'.start
    rw [h]
    exact htag
  unfold scanAttributes
  split
  · rename_i l hl
    exact .silent (whitespace?_kind hl) (whitespace?_embedded hl) fun _ => htag
  · exact .ite (.silent nofun rfl fun _ => tag.body_remembers) <|
      .ite (.silent nofun rfl fun _ => trivial) <|
      .ite ((scanAngle_outer (c :: rest)).unclosed htag) <|
      .ite (.silent nofun rfl fun _ => hmode rfl) <| .ite (quotedValue_outer htag c rest) <|
      .ite (.silent nofun rfl fun _ => hmode (tag.start_assign _)) <|
      .ite (.silent nofun rfl fun _ => htag) (.silent nofun rfl fun _ => hmode rfl)

theorem scanEndTag_outer (name : String) (hstart : P start) (c : Char) (rest : List Char) :
    (scanEndTag name start pos c rest).Outer P pos := by
  refine .ite (.silent nofun rfl fun _ => trivial) <|
    .ite ((scanAngle_outer (c :: rest)).unclosed hstart) ?_
  split
  · rename_i l hl
    exact .silent (whitespace?_kind hl) (whitespace?_embedded hl) fun _ => hstart
  · exact .silent nofun rfl fun _ => hstart

/-! ### Looks -/

variable {detail : Detail} {lowered : List Char} {mode : Mode} {text : List Char}

/-- The faults of a body begin in it. -/
theorem lexBody_faults (language : String) (detail : Detail) (pos : Nat) (text : List Char)
    (hpos : ∀ x : Nat, pos ≤ x → x < pos + text.length → P x) :
    ∀ f ∈ (lexBody language detail pos text).faults, P f.start := by
  unfold lexBody
  split
  · exact Stylesheet.lex_faults detail pos text hpos
  split
  · exact Script.lex_faults detail pos text hpos
  · simp

/-- A step that takes no raw text is the same whether bodies are read or not. -/
theorem Step.Outer.hollow {step : Step} (h : step.Outer (keeps · = true) pos)
    (htells : Tells keeps (Lexeme.cut pos text (Scan.pieces
      ⟨[step.lexeme], step.mode, step.faults⟩))) :
    Scan.hollow keeps ⟨[step.lexeme], step.mode, step.faults⟩
        = ⟨[step.lexeme], step.mode, step.faults⟩
      ∧ step.mode.Remembers (keeps · = true) := by
  obtain ⟨more, hcut, -, -⟩ := Scan.cut_pieces (s := ⟨[step.lexeme], step.mode, step.faults⟩) rfl
    pos text
  rw [hcut] at htells
  have hpos : keeps pos = true := htells.outside (step.lexeme.token pos text) (by simp) h.kind
  have hlexeme : step.lexeme.hollow = step.lexeme := by
    rw [Lexeme.hollow, ← h.plain]
  refine ⟨?_, h.mode hpos⟩
  rw [Scan.hollow, List.filter_eq_self.mpr (h.faults hpos), List.map_singleton, hlexeme]

/-- The piece of raw text of `n` characters. -/
def rawPiece (n : Nat) (language : String) (embedded : List Token) : Lexeme :=
  { kind := .rawText, length := n, style := "raw-text", language, embedded }

/-- Raw text is some piece, or content if there is none of it; either way however bodies are
treated. -/
theorem scanRawText_cases (detail : Detail) (lowered : List Char) (tag : StartTag) (pos : Nat)
    (c : Char) (rest : List Char) :
    (∀ embed, scanRawText { embed, detail, lowered } tag pos c rest
        = scanContent detail pos c rest)
      ∨ ∃ n, 0 < n ∧ ∀ embed, scanRawText { embed, detail, lowered } tag pos c rest
        = let body := if embed then lexBody tag.language detail pos ((c :: rest).take n)
            else ⟨[], []⟩
          { lexeme := rawPiece n tag.language body.tokens, mode := .content
            faults := body.faults } := by
  by_cases hn : (rawLength? ('<' :: '/' :: Text.lowerChars tag.name.toList)
      (lowered.drop pos)).getD (c :: rest).length = 0
  · exact .inl fun embed => if_pos hn
  · exact .inr ⟨_, Nat.pos_of_ne_zero hn, fun embed => if_neg hn⟩

/-- The scanner of markup that reads bodies in their own language. -/
def bodyScanner (detail : Detail) (lowered : List Char) : Scanner Mode :=
  scanner { embed := true, detail, lowered }

/-- A look that reads no bodies is the look that does, with its raw text made hollow. -/
theorem scan_hollow (htext : text ≠ []) (hmode : mode.Remembers (keeps · = true))
    (htells : Tells keeps
      (Lexeme.cut pos text ((bodyScanner detail lowered).scan mode pos text).pieces)) :
    (plainScanner detail lowered).scan mode pos text
        = ((bodyScanner detail lowered).scan mode pos text).hollow keeps
      ∧ ((bodyScanner detail lowered).scan mode pos text).state.Remembers (keeps · = true) := by
  obtain ⟨c, rest, rfl⟩ := List.exists_cons_of_ne_nil htext
  cases mode with
  | content =>
      obtain ⟨hsame, hnext⟩ := (scanContent_outer detail c rest).hollow htells
      exact ⟨hsame.symm, hnext⟩
  | attributes tag =>
      obtain ⟨hsame, hnext⟩ := (scanAttributes_outer hmode c rest).hollow htells
      exact ⟨hsame.symm, hnext⟩
  | endTag name start =>
      obtain ⟨hsame, hnext⟩ := (scanEndTag_outer name hmode c rest).hollow htells
      exact ⟨hsame.symm, hnext⟩
  | rawText tag =>
      rcases scanRawText_cases detail lowered tag pos c rest with hcontent | ⟨n, hn, hraw⟩
      · simp only [plainScanner, bodyScanner, scanner, scan, hcontent] at htells ⊢
        obtain ⟨hsame, hnext⟩ := (scanContent_outer detail c rest).hollow htells
        exact ⟨hsame.symm, hnext⟩
      · simp only [plainScanner, bodyScanner, scanner, scan, hraw, if_true, Bool.false_eq_true,
          if_false] at htells ⊢
        have hinside : ∀ f ∈ (lexBody tag.language detail pos ((c :: rest).take n)).faults,
            keeps f.start = false := by
          refine lexBody_faults (P := (keeps · = false)) _ _ _ _ fun x hle hlt => ?_
          rw [Scan.pieces_single hn] at htells
          exact htells.inside _ List.mem_cons_self rfl x (Int.ofNat_le.mpr hle)
            (Int.ofNat_lt.mpr hlt)
        have hnone : (lexBody tag.language detail pos ((c :: rest).take n)).faults.filter
            (fun f => keeps f.start) = [] :=
          List.filter_eq_nil_iff.mpr fun f hf => by simp [hinside f hf]
        refine ⟨?_, trivial⟩
        rw [Scan.hollow, hnone]
        rfl

/-! ### Runs -/

variable (detail lowered)

/-- A run that reads no bodies is the run that does, with its raw text made hollow, and without
the faults in it. -/
theorem run_hollow (mode : Mode) (pos : Nat) (text : List Char)
    (htells : Tells keeps ((bodyScanner detail lowered).run 0 mode pos text).tokens)
    (hmode : mode.Remembers (keeps · = true)) :
    (plainScanner detail lowered).run 0 mode pos text
      = ⟨((bodyScanner detail lowered).run 0 mode pos text).tokens.map Token.hollow,
          ((bodyScanner detail lowered).run 0 mode pos text).faults.filter
            fun f => keeps f.start⟩ := by
  -- The motive is written out, for the other run is not to be taken for an instance of this one.
  refine (bodyScanner detail lowered).run_induction
    (motive := fun mode pos text l => Tells keeps l.tokens → mode.Remembers (keeps · = true) →
      (plainScanner detail lowered).run 0 mode pos text
        = ⟨l.tokens.map Token.hollow, l.faults.filter fun f => keeps f.start⟩)
    ?_ ?_ mode pos text htells hmode
  · intro mode pos _ hmode
    show Lexing.mk [] (finish mode pos) = ⟨[], (finish mode pos).filter fun f => keeps f.start⟩
    rw [List.filter_eq_self.mpr (finish_starts hmode)]
  · intro mode pos text htext rest ih htells hmode
    obtain ⟨hscan, hnext⟩ := scan_hollow htext hmode
      (htells.subset (List.subset_append_left ..))
    have hrest := ih (htells.subset (List.subset_append_right ..)) hnext
    rw [Scanner.run_eq _ _ _ htext, hscan]
    simp only [Scan.pieces_hollow, Lexeme.width_hollow, Lexeme.cut_hollow, List.map_append,
      List.filter_append]
    rw [Scan.hollow, hrest]

/-- No token of a run but raw text begins in raw text. -/
theorem run_outsideRaw (mode : Mode) (pos : Nat) (text : List Char) :
    (∀ t ∈ ((bodyScanner detail lowered).run 0 mode pos text).tokens, pos ≤ t.start)
      ∧ ∀ t ∈ ((bodyScanner detail lowered).run 0 mode pos text).tokens, t.kind ≠ .rawText →
        outsideRaw ((bodyScanner detail lowered).run 0 mode pos text).tokens t.start = true := by
  induction mode, pos, text using (bodyScanner detail lowered).run_induction with
  | done mode pos => simp
  | step mode pos text htext rest ih =>
      obtain ⟨hlater, hrest⟩ := ih
      obtain ⟨c, cs, rfl⟩ := List.exists_cons_of_ne_nil htext
      obtain ⟨l, hl, hlength, -⟩ := scan_single { embed := true, detail, lowered } mode pos c cs
      have hcut : Lexeme.cut pos (c :: cs)
          ((bodyScanner detail lowered).scan mode pos (c :: cs)).pieces = [l.token pos (c :: cs)] :=
        Scan.cut_single hl hlength pos (c :: cs)
      have hbounds := (Lexeme.cut_tile _ pos (c :: cs)).inOrder.mem _
        (hcut ▸ List.mem_singleton_self _)
      have hstop : ∀ u ∈ rest.tokens, (l.token pos (c :: cs)).stop ≤ u.start :=
        fun u hu => Int.le_trans hbounds.2.2 (hlater u hu)
      rw [hcut, List.singleton_append]
      simp only [List.forall_mem_cons, outsideRaw_eq_true]
      refine ⟨⟨Int.le_refl _, fun u hu => Int.le_trans hbounds.2.1 (hstop u hu)⟩,
        fun hkind => ⟨fun hraw => absurd hraw hkind, fun u hu _ => ?_⟩,
        fun t ht hkind => ⟨fun _ => Or.inr (hstop t ht), outsideRaw_eq_true.mp (hrest t ht hkind)⟩⟩
      exact Or.inl (Int.lt_of_lt_of_le (Lexeme.token_start_lt hlength pos c cs) (hstop u hu))

theorem run_tells (mode : Mode) (pos : Nat) (text : List Char) :
    Tells (outsideRaw ((bodyScanner detail lowered).run 0 mode pos text).tokens)
      ((bodyScanner detail lowered).run 0 mode pos text).tokens where
  inside := by
    intro t ht hkind x hle hlt
    rw [← Bool.not_eq_true, outsideRaw_eq_true]
    intro h
    rcases h t ht hkind with hbefore | hafter <;> omega
  outside := (run_outsideRaw detail lowered mode pos text).2

/-! ### Lexers -/

/-- A lexer runs over the same text in the same surroundings, whether it reads bodies or not. -/
theorem lex_eq (detail : Detail) (source : List Char) (start : Nat) (stop : Option Nat) :
    ∃ lowered text, ∀ embed, lex detail embed source start stop
      = ((scanner { embed, detail, lowered }).run 0 .content start text).keep detail :=
  ⟨_, _, fun _ => rfl⟩

theorem lex_tells (source : List Char) (start : Nat) (stop : Option Nat) :
    Tells (outsideRaw (lex detail true source start stop).tokens)
      (lex detail true source start stop).tokens := by
  obtain ⟨lowered, text, hlex⟩ := lex_eq detail source start stop
  have hrun := run_tells detail lowered .content start text
  rw [hlex]
  cases detail with
  | rich => exact hrun
  | structural =>
      rw [Lexing.keep, outsideRaw_filter]
      exact hrun.subset (Lexing.keep_sublist _ .structural).subset

/-- **Without bodies the lexer finds the same markup.**  Its tokens are those of the lexer that
reads bodies, with nothing in them, and its faults are those that begin in no raw text. -/
theorem lex_hollow (source : List Char) (start : Nat) (stop : Option Nat) :
    lex detail false source start stop = (lex detail true source start stop).hollow := by
  obtain ⟨lowered, text, hlex⟩ := lex_eq detail source start stop
  have hrun := run_hollow detail lowered .content start text (run_tells ..) trivial
  rw [hlex, hlex, Lexing.keep_hollow]
  exact congrArg (Lexing.keep detail) hrun

/-- What is asked of the tokens of a body: they begin where the body has text left, and in a
structural run they bound something. -/
def InBody (detail : Detail) (stop : Int) (us : List Token) : Prop :=
  ∀ u ∈ us, u.start < stop ∧ (detail = .structural → u.kind.isStructural = true)

theorem lexBody_inBody (language : String) (detail : Detail) (pos : Nat) (text : List Char) :
    InBody detail (pos + text.length : Nat) (lexBody language detail pos text).tokens := by
  unfold lexBody
  split
  · intro u hu
    refine ⟨Stylesheet.lex_starts detail pos text u hu, ?_⟩
    rintro rfl
    exact (List.mem_filter.mp hu).2
  split
  · intro u hu
    refine ⟨Script.lex_starts detail pos text u hu, ?_⟩
    rintro rfl
    exact (List.mem_filter.mp hu).2
  · simp [InBody]

theorem lex_inBody (embed : Bool) (source : List Char) (start : Nat) (stop : Option Nat) :
    ∀ t ∈ (lex detail embed source start stop).tokens, InBody detail t.stop t.embedded := by
  intro t ht
  obtain ⟨mode, pos, text, htext, hcut⟩ :=
    Scanner.exists_of_mem_run _ ((Lexing.keep_sublist _ detail).subset ht)
  obtain ⟨c, rest, rfl⟩ := List.exists_cons_of_ne_nil htext
  obtain ⟨l, hl, hlength, -⟩ := scan_single _ mode pos c rest
  rw [show t = l.token pos (c :: rest) from
    List.mem_singleton.mp (Scan.cut_single hl hlength pos (c :: rest) ▸ hcut)]
  have hbody := scan_bodyOf _ mode pos (c :: rest) l (hl ▸ List.mem_singleton_self l)
  rcases hbody with hnone | ⟨language, hbody⟩
  · simp [InBody, Lexeme.token, hnone]
  · have hinside := lexBody_inBody language detail pos ((c :: rest).take l.length)
    rw [← hbody] at hinside
    exact hinside

/-- Outside of bodies the tokens of the lexer do not depend on whether it reads them. -/
theorem tokens_hollow (embed : Bool) (source : List Char) (start : Nat) (stop : Option Nat) :
    (lex detail embed source start stop).tokens.map Token.hollow
      = (lex detail false source start stop).tokens := by
  rw [lex_hollow]
  cases embed with
  | true => rfl
  | false =>
      rw [lex_hollow]
      exact List.map_map

end Markup

namespace Language

variable (detail : Detail) (source : List Char) (start : Nat) (stop : Option Nat)

theorem lex_markup_hollow :
    markup.lex detail false source start stop = (markup.lex detail true source start stop).hollow := by
  rw [lex_markup, lex_markup]
  exact Markup.lex_hollow detail source start stop

theorem lex_markup_tells :
    Token.Tells (Token.outsideRaw (markup.lex detail true source start stop).tokens)
      (markup.lex detail true source start stop).tokens := by
  rw [lex_markup]
  exact Markup.lex_tells detail source start stop

theorem lex_markup_inBody (embed : Bool) :
    ∀ t ∈ (markup.lex detail embed source start stop).tokens,
      Markup.InBody detail t.stop t.embedded := by
  rw [lex_markup]
  exact Markup.lex_inBody detail embed source start stop

end Language

/-- **A structural run over markup finds the boundaries of the rich one.**  Whether bodies are
read or not, its tokens are those tokens of the rich run that bound something, up to what stands
in them for a body; and where bodies are not read, both find the same faults. -/
theorem Language.markup_boundaries_agree (embed : Bool) (source : List Char) (start : Nat)
    (stop : Option Nat) :
    (markup.lex .structural embed source start stop).tokens.map Token.hollow
        = ((markup.lex .rich embed source start stop).tokens.filter
          (·.kind.isStructural)).map Token.hollow
      ∧ (markup.lex .structural false source start stop).faults
        = (markup.lex .rich false source start stop).faults := by
  have hkept : markup.lex .structural false source start stop
      = (markup.lex .rich false source start stop).keep .structural := by
    rw [lex_markup, lex_markup]
    exact Markup.lex_structural source start stop
  have houter (detail : Detail) : (markup.lex detail embed source start stop).tokens.map Token.hollow
      = (markup.lex detail false source start stop).tokens := by
    rw [lex_markup, lex_markup]
    exact Markup.tokens_hollow detail embed source start stop
  refine ⟨?_, by rw [hkept]; rfl⟩
  calc (markup.lex .structural embed source start stop).tokens.map Token.hollow
      = (markup.lex .rich false source start stop).tokens.filter (·.kind.isStructural) := by
        rw [houter, hkept]; rfl
    _ = ((markup.lex .rich embed source start stop).tokens.map Token.hollow).filter
          (·.kind.isStructural) := by rw [houter]
    _ = ((markup.lex .rich embed source start stop).tokens.filter
          (·.kind.isStructural)).map Token.hollow := List.filter_map

end SourceView
