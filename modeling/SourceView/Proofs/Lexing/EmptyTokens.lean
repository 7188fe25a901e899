/-
Which tokens are empty.

A look at the text ahead names pieces, and every piece has at least the character that it is
known by.  There is one exception, the address that stands in `url(…)` without quotes.  It goes
up to the next parenthesis, space or line break.  Spaces before it are a piece of their own, and
where a parenthesis follows there is no address; where a line break follows there is one, of no
characters.

So an empty token is a string that stands at a line break.  And every string that stands there is
empty, since the others begin with a quote.
-/
import SourceView.Proofs.Lexing.Solid
import SourceView.Proofs.Markup.Pieces
import SourceView.Proofs.Stylesheet.Addresses

namespace SourceView

open Lexing

variable {σ : Type}

/-! ### Pieces and tokens -/

/-- A line break comes first in the text. -/
def Lexing.Breaks (text : List Char) : Prop :=
  text.head?.any isLineBreak = true

/-- The token is a string that stands at a line break. -/
def Token.AtBreak (source : List Char) (t : Token) : Prop :=
  t.kind = .string ∧ Breaks (source.drop t.start.toNat)

/-- The token is empty if it is a string that stands at a line break, and only then. -/
structure Token.Sized (source : List Char) (t : Token) : Prop where
  le : t.start ≤ t.stop
  empty_iff : t.start = t.stop ↔ t.AtBreak source

/-- A token begins behind those before it, but for a string that stands at a line break. -/
def Token.Rising (source : List Char) (ts : List Token) : Prop :=
  ts.Pairwise fun t u => t.start < u.start ∨ t.AtBreak source

namespace Token

variable {source : List Char} {t : Token}

theorem AtBreak.not_isStructural (h : t.AtBreak source) : t.kind.isStructural = false := by
  rw [h.1]
  rfl

theorem Sized.lt_or (h : t.Sized source) : t.start < t.stop ∨ t.AtBreak source :=
  (Int.lt_or_eq_of_le h.le).imp_right h.empty_iff.mp

theorem Sized.lt_of_isStructural (h : t.Sized source) (hkind : t.kind.isStructural = true) :
    t.start < t.stop :=
  h.lt_or.resolve_right fun hbreak => Bool.false_ne_true (hbreak.not_isStructural ▸ hkind)

theorem rising_of_inOrder {lo hi : Int} {ts : List Token} (h : InOrder lo hi ts)
    (hsized : ∀ t ∈ ts, t.Sized source) : Rising source ts := by
  induction ts generalizing lo with
  | nil => exact .nil
  | cons t ts ih =>
      rw [List.forall_mem_cons] at hsized
      refine .cons (fun u hu => ?_) (ih h.2.2 hsized.2)
      exact hsized.1.lt_or.imp_left fun hlt => Int.lt_of_lt_of_le hlt (InOrder.mem h.2.2 u hu).1

end Token

/-- A piece that comes first in the text is empty if it is a string at a line break, and only
then. -/
def Lexeme.Sized (text : List Char) (l : Lexeme) : Prop :=
  l.length = 0 ↔ l.kind = .string ∧ Breaks text

/-- The pieces are sized where they come to stand, and text is left to each. -/
def Lexeme.AllSized : List Char → List Lexeme → Prop
  | _, [] => True
  | text, l :: ls => text ≠ [] ∧ l.Sized text ∧ AllSized (text.drop l.length) ls

namespace Lexeme

variable {source text : List Char} {pos : Nat} {l : Lexeme} {ls : List Lexeme}

/-- A piece with some length that is no string, or stands at no line break. -/
theorem Sized.of_pos (hlength : 0 < l.length) (h : l.kind = .string → ¬Breaks text) :
    l.Sized text :=
  iff_of_false (Nat.ne_of_gt hlength) fun hbreak => h hbreak.1 hbreak.2

theorem Sized.of_ne_string (hlength : 0 < l.length) (h : l.kind ≠ .string) : l.Sized text :=
  .of_pos hlength fun hkind => absurd hkind h

theorem breaks_iff_of_ahead (htext : text ≠ []) (hahead : text <+: source.drop pos) :
    Breaks (source.drop pos) ↔ Breaks text := by
  obtain ⟨rest, hrest⟩ := hahead
  obtain ⟨c, cs, rfl⟩ := List.exists_cons_of_ne_nil htext
  rw [← hrest]
  rfl

theorem Sized.token (h : l.Sized text) (htext : text ≠ []) (hahead : text <+: source.drop pos) :
    (l.token pos text).Sized source := by
  have hlength := List.length_pos_iff.mpr htext
  refine ⟨Int.ofNat_le.mpr (Nat.le_add_right _ _), ?_⟩
  have hempty : (l.token pos text).start = (l.token pos text).stop ↔ l.length = 0 := by
    change (pos : Int) = (pos + (text.take l.length).length : Nat) ↔ _
    rw [List.length_take]
    omega
  have hbreaks : (l.token pos text).AtBreak source ↔ l.kind = .string ∧ Breaks text :=
    and_congr Iff.rfl (breaks_iff_of_ahead htext hahead)
  rw [hempty, hbreaks]
  exact h

theorem AllSized.cut (h : AllSized text ls) (hahead : text <+: source.drop pos) :
    ∀ t ∈ cut pos text ls, t.Sized source := by
  induction ls generalizing pos text with
  | nil => simp [Lexeme.cut]
  | cons l ls ih =>
      obtain ⟨htext, hl, hls⟩ := h
      intro t ht
      rw [Lexeme.cut, List.mem_cons] at ht
      rcases ht with rfl | ht
      · exact hl.token htext hahead
      · exact ih hls (prefix_drop hahead) t ht

theorem AllSized.append {ms : List Lexeme} (h : AllSized text ls)
    (hms : AllSized (text.drop (width ls)) ms) : AllSized text (ls ++ ms) := by
  induction ls generalizing text with
  | nil => exact hms
  | cons l ls ih =>
      refine ⟨h.1, h.2.1, ih h.2.2 ?_⟩
      rw [List.drop_drop]
      exact hms

theorem AllSized.single (htext : text ≠ []) (h : l.Sized text) : AllSized text [l] :=
  ⟨htext, h, trivial⟩

end Lexeme

/-! ### Looks -/

/-- The pieces of the scan are sized. -/
def Scan.Sized (text : List Char) (s : Scan σ) : Prop :=
  Lexeme.AllSized text s.pieces

namespace Scan.Sized

variable {c : Char} {rest : List Char}

theorem ite {p : Prop} [Decidable p] {text : List Char} {a b : Scan σ} (ha : p → a.Sized text)
    (hb : ¬p → b.Sized text) : (if p then a else b).Sized text := by
  by_cases h : p
  · rw [if_pos h]; exact ha h
  · rw [if_neg h]; exact hb h

/-- One piece of some length. -/
theorem single {l : Lexeme} (hlength : 0 < l.length)
    (h : l.kind = .string → ¬Breaks (c :: rest)) (state : σ) (faults : List Fault) :
    Scan.Sized (c :: rest) ⟨[l], state, faults⟩ := by
  rw [Scan.Sized, Scan.pieces_single hlength]
  exact .single (List.cons_ne_nil c rest) (.of_pos hlength h)

theorem of_single {l : Lexeme} {s : Scan σ} (hl : s.lexemes = [l]) (hlength : 0 < l.length)
    (h : l.kind = .string → ¬Breaks (c :: rest)) : s.Sized (c :: rest) := by
  obtain ⟨ls, state, faults⟩ := s
  obtain rfl : ls = [l] := hl
  exact single hlength h state faults

/-- A look that names nothing is given an unknown character. -/
theorem unknown (state : σ) (faults : List Fault) :
    Scan.Sized (c :: rest) ⟨[], state, faults⟩ :=
  Lexeme.AllSized.single (List.cons_ne_nil c rest) (.of_ne_string Nat.one_pos (by decide))

end Scan.Sized

/-- A run finds tokens that are sized if its looks do. -/
theorem Scanner.run_sized {scanner : Scanner σ} {source : List Char}
    (hscan : ∀ state pos c rest, (scanner.scan state pos (c :: rest)).Sized (c :: rest))
    (state : σ) {pos : Nat} {text : List Char} (hahead : text <+: source.drop pos) :
    ∀ t ∈ (scanner.run 0 state pos text).tokens, t.Sized source := by
  induction state, pos, text using scanner.run_induction with
  | done state pos => simp
  | step state pos text htext rest ih =>
      obtain ⟨c, cs, rfl⟩ := List.exists_cons_of_ne_nil htext
      intro t ht
      rcases List.mem_append.mp ht with ht | ht
      · exact (hscan state pos c cs).cut hahead t ht
      · exact ih (Lexeme.prefix_drop hahead) t ht

/-! ### Whitespace -/

namespace Lexing

theorem not_breaks_of_whitespace? {text : List Char} (h : whitespace? text = none) :
    ¬Breaks text := by
  cases text with
  | nil => exact Bool.false_ne_true
  | cons c rest =>
      intro hbreak
      have hc : c = '\n' ∨ c = '\r' := by simpa [Breaks, isLineBreak] using hbreak
      rcases hc with rfl | rfl <;> simp [whitespace?, isSpace] at h

theorem drop_countWhile (p : Char → Bool) (text : List Char) :
    text.drop (countWhile p text) = text.dropWhile p := by
  induction text with
  | nil => rfl
  | cons c rest ih =>
      unfold countWhile at *
      by_cases hc : p c = true
      · rw [List.takeWhile_cons_of_pos hc, List.dropWhile_cons_of_pos hc]
        exact ih
      · rw [List.takeWhile_cons_of_neg hc, List.dropWhile_cons_of_neg hc]
        rfl

end Lexing

theorem Scan.Sized.whitespace {text : List Char} {l : Lexeme} (h : whitespace? text = some l)
    (state : σ) (faults : List Fault) : Scan.Sized text ⟨[l], state, faults⟩ := by
  cases text with
  | nil => exact absurd h (by simp [whitespace?])
  | cons c rest =>
      exact .single (whitespace?_trivia h).2 (fun hkind => absurd hkind (whitespace?_ne_string h))
        state faults

/-! ### Stylesheets -/

namespace Stylesheet

variable {c : Char} {rest : List Char}

theorem numberLength_pos {inSelector : Bool} (h : startsNumber inSelector (c :: rest) = true) :
    0 < numberLength (c :: rest) := by
  unfold numberLength
  -- An exponent does not make a number shorter.
  refine Nat.lt_of_lt_of_le ?_ (Script.le_ite (Script.le_ite (Nat.le_refl _) (by omega))
    (Nat.le_refl _))
  simp only [startsNumber, Bool.or_eq_true, Bool.and_eq_true, beq_iff_eq] at h
  rcases h with (hdigit | ⟨rfl, hpoint⟩) | ⟨⟨hsign, -⟩, -⟩
  · have hfirst : 0 < signLength (c :: rest)
        + countWhile Char.isDigit ((c :: rest).drop (signLength (c :: rest))) := by
      have hpos := Script.countWhile_pos hdigit rest
      unfold signLength
      split
      · omega
      · rwa [Nat.zero_add, List.drop_zero]
    exact Nat.lt_of_lt_of_le hfirst (Script.le_ite (by omega) (Nat.le_refl _))
  · have hfraction : ((('.' :: rest).drop 0).head? == some '.'
        && startsDigit (('.' :: rest).drop 0).tail) = true := by simpa using hpoint
    rw [show signLength ('.' :: rest) = 0 from rfl, List.drop_zero,
      show countWhile Char.isDigit ('.' :: rest) = 0 from rfl, if_pos hfraction]
    omega
  · have hmark : signLength (c :: rest) = 1 := by
      unfold signLength
      rcases hsign with rfl | rfl <;> rfl
    rw [hmark]
    exact Script.le_ite (by omega) (by omega)

theorem number_length_pos {inSelector : Bool} (h : startsNumber inSelector (c :: rest) = true) :
    0 < (number (c :: rest)).length := by
  have hpos := numberLength_pos h
  unfold number
  simp only
  split
  · exact Nat.succ_pos _
  split
  · exact hpos
  · exact Nat.add_pos_left hpos _

/-- An address ends before it begins where neither a space nor a parenthesis, and so a line break
stops it. -/
theorem address_sized (hspace : isSpace c = false) (hparen : c ≠ ')') :
    (address (countWhile (fun c => !isUrlStop c) (c :: rest))).Sized (c :: rest) := by
  have hstop : isUrlStop c = isLineBreak c := by simp [isUrlStop, isWhitespace, hspace, hparen]
  have hempty : countWhile (fun c => !isUrlStop c) (c :: rest) = 0 ↔ isLineBreak c = true := by
    unfold countWhile
    rw [← hstop]
    cases hc : isUrlStop c <;> simp [hc]
  exact hempty.trans ⟨fun hbreak => ⟨rfl, hbreak⟩, fun h => h.2⟩

/-- The address is empty just when a line break comes right behind the spaces before it. -/
theorem urlBody_sized (text : List Char) : Lexeme.AllSized text (urlBody text) := by
  unfold urlBody
  simp only [drop_countWhile]
  cases hbody : text.dropWhile isSpace with
  | nil => trivial
  | cons c body =>
      simp only [List.head?_cons]
      split
      · trivial
      rename_i hstop
      have hspace : isSpace c = false := by
        have := List.head?_dropWhile_not isSpace text
        rw [hbody] at this
        exact this
      have haddress : Lexeme.AllSized (text.dropWhile isSpace)
          [address (countWhile (fun c => !isUrlStop c) (c :: body))] := by
        rw [hbody]
        refine .single (List.cons_ne_nil c body) ?_
        exact address_sized hspace fun hparen => hstop (by rw [hparen]; rfl)
      by_cases hnone : countWhile isSpace text = 0
      · rw [if_pos hnone, List.nil_append]
        rw [← drop_countWhile, hnone] at haddress
        exact haddress
      · rw [if_neg hnone]
        refine .append (.single ?_ (.of_ne_string (Nat.pos_of_ne_zero hnone) (by simp))) ?_
        · rintro rfl
          exact hnone rfl
        · rw [Lexeme.width, Lexeme.width, Nat.add_zero, drop_countWhile]
          exact haddress

theorem scanWord_sized (s : LexState) (h : ¬Breaks (c :: rest)) :
    (scanWord s (c :: rest)).Sized (c :: rest) := by
  unfold scanWord
  rw [List.tail_cons]
  refine .ite (fun hparen => ?_) fun _ => .single (Nat.add_pos_left Nat.one_pos _) (fun _ => h) _ _
  have hlength := length_pos_of_head? (beq_iff_eq.mp hparen)
  have hwidth : Lexeme.width ({ kind := .function, length := 1 + nameLength rest, style := "function" }
      :: mark .parenOpen :: if Text.lowerChars ((c :: rest).take (1 + nameLength rest)) == "url".toList
        then urlBody ((c :: rest).drop (1 + nameLength rest)).tail else []) ≠ 0 := by
    simp only [Lexeme.width]
    omega
  rw [Scan.Sized, Scan.pieces, if_neg hwidth]
  refine ⟨List.cons_ne_nil c rest, .of_pos (Nat.add_pos_left Nat.one_pos _) (fun _ => h), ?_,
    .of_ne_string Nat.one_pos (by decide), ?_⟩
  · exact List.ne_nil_of_length_pos (by rw [List.length_drop]; exact Nat.sub_pos_of_lt hlength)
  · rw [show (mark .parenOpen).length = 1 from rfl, List.drop_one]
    split
    · exact urlBody_sized _
    · trivial

theorem scanColon_sized (s : LexState) (h : ¬Breaks (c :: rest)) :
    (scanColon s rest).Sized (c :: rest) := by
  refine .ite (fun _ => .single (Nat.add_pos_left ?_ _) (fun _ => h) _ _)
    fun _ => .single Nat.one_pos (fun _ => h) _ _
  split <;> decide

theorem scanHash_sized (s : LexState) (h : ¬Breaks (c :: rest)) :
    (scanHash s rest).Sized (c :: rest) := by
  refine .single ?_ (fun _ => h) _ _
  split <;> simp only <;> split <;>
    first | exact Nat.one_pos | exact Nat.add_pos_left Nat.one_pos _

/-- A look at what is no whitespace. -/
theorem scanInStatement_sized (s : LexState) (pos : Nat) (h : ¬Breaks (c :: rest)) :
    (scanInStatement s pos c rest).Sized (c :: rest) := by
  have hone {l : Lexeme} (hlength : 0 < l.length) {state : LexState} {faults : List Fault} :
      Scan.Sized (c :: rest) ⟨[l], state, faults⟩ := .single hlength (fun _ => h) state faults
  have hmore {n : Nat} : 0 < 1 + n := Nat.add_pos_left Nat.one_pos n
  exact .ite (fun _ => hone (quotedLiteral_length_pos ..)) fun _ =>
    .ite (fun _ => hone Nat.one_pos) fun _ =>
    .ite (fun _ => .ite (fun _ => hone Nat.one_pos) fun _ => hone hmore) fun _ =>
    .ite (fun _ => scanColon_sized s h) fun _ => .ite (fun _ => scanHash_sized s h) fun _ =>
    .ite (fun _ => .ite (fun _ => hone hmore) fun _ => hone Nat.one_pos) fun _ =>
    .ite (fun hnumber => hone (number_length_pos hnumber)) fun _ =>
    .ite (fun _ => hone (Nat.add_pos_left Nat.two_pos _)) fun _ =>
    .ite (fun _ => hone hmore) fun _ =>
    .ite (fun _ => scanWord_sized s h) fun _ =>
    .ite (fun _ => hone Nat.one_pos) fun _ => .unknown _ _

theorem scanRich_sized (s : LexState) (pos : Nat) (c : Char) (rest : List Char) :
    (scanRich s pos (c :: rest)).Sized (c :: rest) := by
  simp only [scanRich]
  cases hspace : whitespace? (c :: rest) with
  | some l => exact .whitespace hspace _ _
  | none =>
      have h := not_breaks_of_whitespace? hspace
      have hone {l : Lexeme} (hlength : 0 < l.length) {state : LexState} {faults : List Fault} :
          Scan.Sized (c :: rest) ⟨[l], state, faults⟩ := .single hlength (fun _ => h) state faults
      refine .ite (fun _ => hone ?_) fun _ => .ite (fun _ => hone Nat.one_pos) fun _ =>
        .ite (fun _ => hone Nat.one_pos) fun _ => .ite (fun _ => hone Nat.one_pos) fun _ => ?_
      · exact delimited_length_pos _ _ _ Nat.two_pos _ pos (List.cons_ne_nil c rest)
      cases delimiter? c with
      | some kind => exact hone Nat.one_pos
      | none => exact scanInStatement_sized _ pos h

end Stylesheet

/-! ### Scripts -/

namespace Script

variable {c : Char} {rest : List Char}

/-- A string of a script does not stand at a line break. -/
theorem scan_ne_string (detail : Detail) (s : LexState) (pos : Nat) {l : Lexeme}
    (hl : (scan detail s pos (c :: rest)).lexemes = [l]) (hbreak : Breaks (c :: rest)) :
    l.kind ≠ .string := by
  cases hspace : whitespace? (c :: rest) with
  | none => exact absurd hbreak (not_breaks_of_whitespace? hspace)
  | some space =>
      have hne := whitespace?_ne_string hspace
      rw [← (List.singleton_inj.mp hl)]
      cases s.mode with
      | code => simpa only [scanCode, hspace] using hne
      | template =>
          simp only [scanTemplate]
          split
          · simp
          split <;> simp
      | attributes => simpa only [scanAttributes, hspace] using hne
      | children =>
          simp only [scanChildren, hspace]
          split
          · simp [mark]
          split
          · simp
          split
          · simp [openTag]
          · exact hne
      | endTag =>
          simp only [scanEndTag, hspace]
          split
          · simp
          · exact hne

theorem scan_sized (detail : Detail) (s : LexState) (pos : Nat) (c : Char) (rest : List Char) :
    (scan detail s pos (c :: rest)).Sized (c :: rest) := by
  obtain ⟨l, hl, hlength⟩ := scan_single detail s pos c rest
  exact .of_single hl hlength fun hkind hbreak => scan_ne_string detail s pos hl hbreak hkind

end Script

/-! ### Markup -/

namespace Markup

variable {c : Char} {rest : List Char}

theorem scan_sized (surroundings : Surroundings) (mode : Mode) (pos : Nat) (c : Char)
    (rest : List Char) : (scan surroundings mode pos (c :: rest)).Sized (c :: rest) := by
  obtain ⟨l, hl, hlength, hkind⟩ := scan_single surroundings mode pos c rest
  exact .of_single hl hlength fun h => absurd h hkind

end Markup

/-! ### Runs -/

/-- Tokens that bound something are sized if they are solid. -/
theorem Token.Solid.sized {source : List Char} {t : Token} (h : t.Solid)
    (hkind : t.kind.isStructural = true) : t.Sized source := by
  have hlt := h hkind
  refine ⟨Int.le_of_lt hlt, iff_of_false (Int.ne_of_lt hlt) fun hbreak => ?_⟩
  exact Bool.false_ne_true (hbreak.not_isStructural ▸ hkind)

section

variable {source text : List Char} {pos : Nat}

theorem Stylesheet.lex_sized (detail : Detail) (hahead : text <+: source.drop pos) :
    ∀ t ∈ (lex detail pos text).tokens, t.Sized source := by
  cases detail with
  | rich => exact richScanner.run_sized scanRich_sized {} hahead
  | structural =>
      exact fun t ht => (lex_solid .structural pos text t ht).sized (List.mem_filter.mp ht).2

theorem Script.lex_sized (detail : Detail) (hahead : text <+: source.drop pos) :
    ∀ t ∈ (lex detail pos text).tokens, t.Sized source :=
  fun t ht => (scanner detail).run_sized (scan_sized detail) {} hahead t
    ((Lexing.keep_sublist _ detail).subset ht)

namespace Markup

theorem lexBody_sized (language : String) (detail : Detail) (hahead : text <+: source.drop pos) :
    ∀ t ∈ (lexBody language detail pos text).tokens, t.Sized source := by
  unfold lexBody
  split
  · exact Stylesheet.lex_sized detail hahead
  split
  · exact Script.lex_sized detail hahead
  · simp

/-- The tokens of a body are sized where the body stands. -/
theorem scan_body_sized (surroundings : Surroundings) (mode : Mode)
    (hahead : text <+: source.drop pos) :
    ∀ t ∈ Lexeme.cut pos text (scan surroundings mode pos text).pieces,
      ∀ u ∈ t.embedded, u.Sized source := by
  cases text with
  | nil =>
      intro t ht
      obtain ⟨l, hl, _, _, rfl⟩ := Lexeme.exists_of_mem_cut ht
      rcases Scan.mem_pieces hl with hl | rfl
      · exact absurd hl List.not_mem_nil
      · exact fun u hu => absurd hu List.not_mem_nil
  | cons c rest =>
      obtain ⟨l, hl, hlength, -⟩ := scan_single surroundings mode pos c rest
      have hbody := scan_bodyOf surroundings mode pos (c :: rest) l (by rw [hl]; simp)
      intro t ht u hu
      rw [Scan.cut_single hl hlength, List.mem_singleton] at ht
      have hu : u ∈ l.embedded := by rw [ht] at hu; exact hu
      rcases hbody with hnil | ⟨language, hbody⟩
      · rw [hnil] at hu
        exact absurd hu List.not_mem_nil
      · rw [hbody] at hu
        exact lexBody_sized language _ ((List.take_prefix _ _).trans hahead) u hu

theorem lex_sized (detail : Detail) (embed : Bool) (source : List Char) (start : Nat)
    (stop : Option Nat) : ∀ t ∈ (lex detail embed source start stop).tokens,
      t.Sized source ∧ ∀ u ∈ t.embedded, u.Sized source := by
  intro t ht
  have hrun := (Lexing.keep_sublist _ detail).subset ht
  have hahead := boundedText_isPrefix source start (min (stop.getD source.length) source.length)
  exact ⟨(scanner _).run_sized (scan_sized _) .content hahead t hrun,
    (scanner _).run_forall (fun mode _ _ hahead => scan_body_sized _ mode hahead) .content
      start _ hahead t hrun⟩

end Markup

end

/-! ### Languages -/

namespace Language

variable (language : Language) (detail : Detail) (embed : Bool) (source : List Char) (start : Nat)
  (stop : Option Nat)

theorem lex_sized : ∀ t ∈ (language.lex detail embed source start stop).tokens,
    t.Sized source ∧ ∀ u ∈ t.embedded, u.Sized source := by
  have hahead := boundedText_prefix source start stop
  intro t ht
  by_cases hmarkup : language = .markup
  · rw [hmarkup, lex_markup] at ht
    exact Markup.lex_sized detail embed source start stop t ht
  · have hplain := language.lex_plain detail embed source start stop hmarkup t ht
    refine ⟨?_, fun u hu => absurd (hplain ▸ hu) List.not_mem_nil⟩
    cases language with
    | markup => exact absurd rfl hmarkup
    | stylesheet =>
        rw [lex_stylesheet] at ht
        exact Stylesheet.lex_sized detail hahead t ht
    | script =>
        rw [lex_script] at ht
        exact Script.lex_sized detail hahead t ht

/-- Whatever the bounds are, the tokens cover some part of the text. -/
theorem lex_covers_within : ∃ lo hi,
    Covers detail source lo hi (language.lex detail embed source start stop).tokens := by
  have hahead := boundedText_prefix source start stop
  cases language with
  | markup =>
      let stop := min (stop.getD source.length) source.length
      rw [lex_markup]
      exact ⟨_, _, Markup.run_covers
        { embed, detail, lowered := (Text.lowerChars source).take stop } start
        (boundedText_isPrefix source start stop)⟩
  | stylesheet =>
      rw [lex_stylesheet]
      exact ⟨_, _, (Stylesheet.lex_plain detail start hahead).covers⟩
  | script =>
      rw [lex_script]
      exact ⟨_, _, (Script.lex_plain detail start hahead).covers⟩

/-- A structural run keeps only tokens that bound something. -/
theorem lex_structural : ∀ t ∈ (language.lex .structural embed source start stop).tokens,
    t.kind.isStructural = true ∧ ∀ u ∈ t.embedded, u.kind.isStructural = true := by
  have hkeep (l : Lexing) : ∀ t ∈ (l.keep .structural).tokens, t.kind.isStructural = true :=
    fun t ht => (List.mem_filter.mp ht).2
  intro t ht
  refine ⟨isStructural_of_lex embed source start stop language t ht, fun u hu => ?_⟩
  obtain ⟨body, pos, text, hbody⟩ :=
    language.exists_body .structural embed source start stop ht (List.ne_nil_of_mem hu)
  rw [hbody, Markup.lexBody] at hu
  split at hu
  · exact hkeep _ u hu
  split at hu
  · exact hkeep _ u hu
  · exact absurd hu List.not_mem_nil

end Language

/-- **Every empty token is a string at a line break, and every string at a line break is empty.**
So the tokens of a run, and those of every region in it, begin one behind the other, but for what
comes behind such a string; and a structural run has no empty tokens. -/
theorem Language.empty_iff_atBreak (language : Language) (detail : Detail) (embed : Bool)
    (source : List Char) (start : Nat) (stop : Option Nat) :
    let tokens := (language.lex detail embed source start stop).tokens
    (∀ t ∈ tokens, t.Sized source ∧ ∀ u ∈ t.embedded, u.Sized source)
      ∧ Token.Rising source tokens
      ∧ (∀ t ∈ tokens, Token.Rising source t.embedded)
      ∧ (detail = .structural →
          ∀ t ∈ tokens, t.start < t.stop ∧ ∀ u ∈ t.embedded, u.start < u.stop) := by
  intro tokens
  have hsized := language.lex_sized detail embed source start stop
  obtain ⟨lo, hi, hcovers⟩ := language.lex_covers_within detail embed source start stop
  refine ⟨hsized, Token.rising_of_inOrder hcovers.inOrder fun t ht => (hsized t ht).1,
    fun t ht => Token.rising_of_inOrder (hcovers.embedded_inOrder t ht) (hsized t ht).2, ?_⟩
  rintro rfl t ht
  have hkinds := language.lex_structural embed source start stop t ht
  exact ⟨(hsized t ht).1.lt_of_isStructural hkinds.1,
    fun u hu => ((hsized t ht).2 u hu).lt_of_isStructural (hkinds.2 u hu)⟩

/-- Behind `url(` an address before a line break is empty. -/
theorem Language.exists_empty_address :
    let source := "a\x7bb:url(\n)\x7d".toList
    ∃ t ∈ (stylesheet.lex .rich true source 0 none).tokens,
      t.start = t.stop ∧ t.AtBreak source := by
  intro source
  have hempty : ∃ t ∈ (stylesheet.lex .rich true source 0 none).tokens, t.start = t.stop := by
    decide +kernel
  obtain ⟨t, ht, heq⟩ := hempty
  have hsized := ((empty_iff_atBreak .stylesheet .rich true source 0 none).1 t ht).1
  exact ⟨t, ht, heq, hsized.empty_iff.mp heq⟩

end SourceView
