/-
A structural run over markup keeps the boundaries of the rich one.

In tags the two take the same steps.  Between them a structural run goes straight to the next
angle bracket, past all the text, entities and whitespace that a rich run tells apart.  None
of those holds an angle bracket, so the structural run keeps the same from behind each of
them as from before it.
-/
import SourceView.Proofs.Lexing.Kept
import SourceView.Proofs.Markup.Boundaries

namespace SourceView.Markup

open Lexing Parsing

/-! ### Character data -/

/-- There is no angle bracket among the first `n` characters of the text. -/
def Clear (n : Nat) (text : List Char) : Prop :=
  ∀ c ∈ text.take n, c ≠ '<'

namespace Clear

variable {c : Char} {m n : Nat} {text rest : List Char}

theorem zero (text : List Char) : Clear 0 text := by
  simp [Clear]

theorem head (hc : c ≠ '<') (h : Clear n rest) : Clear (n + 1) (c :: rest) := by
  intro d hd
  rw [List.take_succ_cons, List.mem_cons] at hd
  rcases hd with rfl | hd
  · exact hc
  · exact h d hd

theorem append (h : Clear m text) (h' : Clear n (text.drop m)) : Clear (m + n) text := by
  intro d hd
  rw [List.take_add, List.mem_append] at hd
  rcases hd with hd | hd
  · exact h d hd
  · exact h' d hd

theorem countWhile {p : Char → Bool} (hp : p '<' = false) (text : List Char) :
    Clear (countWhile p text) text := by
  intro d hd hbracket
  have hcounted := of_mem_take_countWhile hd
  rw [hbracket, hp] at hcounted
  exact absurd hcounted (by simp)

end Clear

theorem entity?_clear {rest : List Char} {n : Nat} (h : entity? ('&' :: rest) = some n) :
    Clear n ('&' :: rest) ∧ 0 < n := by
  -- What ends with a semicolon is clear if what stands before it is.
  have hterminated {k : Nat} (hk : Clear k ('&' :: rest))
      (h : (if (('&' :: rest).drop k).head? == some ';' then some (k + 1) else none) = some n) :
      Clear n ('&' :: rest) ∧ 0 < n := by
    by_cases hsemicolon : ((('&' :: rest).drop k).head? == some ';') = true
    · rw [if_pos hsemicolon, Option.some.injEq] at h
      rw [beq_iff_eq, List.head?_eq_some_iff] at hsemicolon
      obtain ⟨more, hmore⟩ := hsemicolon
      subst h
      exact ⟨hk.append (hmore ▸ .head (by decide) (.zero more)), Nat.succ_pos k⟩
    · rw [if_neg hsemicolon] at h
      cases h
  -- So are the digits of a character's number behind the mark of their base.
  have hdigits {k : Nat} {p : Char → Bool} (hp : p '<' = false) (hk : Clear k ('&' :: rest))
      (h : (if countWhile p (('&' :: rest).drop k) = 0 then none
        else if (('&' :: rest).drop (k + countWhile p (('&' :: rest).drop k))).head? == some ';'
          then some (k + countWhile p (('&' :: rest).drop k) + 1) else none) = some n) :
      Clear n ('&' :: rest) ∧ 0 < n := by
    by_cases hnone : countWhile p (('&' :: rest).drop k) = 0
    · rw [if_pos hnone] at h
      cases h
    · rw [if_neg hnone] at h
      exact hterminated (hk.append (.countWhile hp _)) h
  unfold entity? at h
  simp only at h
  rw [List.tail_cons] at h
  by_cases hhash : (rest.head? == some '#') = true
  · rw [if_pos hhash] at h
    rw [beq_iff_eq, List.head?_eq_some_iff] at hhash
    obtain ⟨more, rfl⟩ := hhash
    have hmark : Clear 2 ('&' :: '#' :: more) :=
      .head (by decide) (.head (by decide) (.zero more))
    by_cases hhex : (more.head? == some 'x' || more.head? == some 'X') = true
    · rw [List.tail_cons, if_pos hhex, if_pos hhex] at h
      refine hdigits (by decide) (hmark.append (n := 1) ?_) h
      rw [Bool.or_eq_true, beq_iff_eq, beq_iff_eq, List.head?_eq_some_iff,
        List.head?_eq_some_iff] at hhex
      rcases hhex with ⟨digits, rfl⟩ | ⟨digits, rfl⟩
      · exact .head (by decide) (.zero digits)
      · exact .head (by decide) (.zero digits)
    · rw [List.tail_cons, if_neg hhex, if_neg hhex] at h
      exact hdigits (by decide) hmark h
  · rw [if_neg hhash] at h
    split at h
    · refine hterminated ?_ h
      rw [Nat.add_comm]
      exact .head (by decide) (.countWhile (by decide) rest)
    · cases h

theorem whitespace?_clear {c : Char} {rest : List Char} {l : Lexeme}
    (h : whitespace? (c :: rest) = some l) : Clear l.length (c :: rest) := by
  unfold whitespace? at h
  simp only at h
  split at h
  · rename_i hspace
    cases h
    show Clear (1 + _) (c :: rest)
    rw [Nat.add_comm]
    refine .head ?_ (.countWhile (by decide) rest)
    rintro rfl
    exact absurd hspace (by decide)
  split at h
  · rename_i hbreak
    cases h
    rw [beq_iff_eq] at hbreak
    exact hbreak ▸ .head (by decide) (.zero rest)
  split at h
  · rename_i hbreak
    cases h
    rw [beq_iff_eq] at hbreak
    subst hbreak
    show Clear (if rest.head? == some '\n' then 2 else 1) ('\r' :: rest)
    by_cases hfeed : (rest.head? == some '\n') = true
    · rw [if_pos hfeed]
      rw [beq_iff_eq, List.head?_eq_some_iff] at hfeed
      obtain ⟨more, rfl⟩ := hfeed
      exact .head (by decide) (.head (by decide) (.zero more))
    · rw [if_neg hfeed]
      exact .head (by decide) (.zero rest)
  · cases h

/-- A piece of character data bounds nothing, takes at least one character and no angle
bracket. -/
theorem characterData_clear {c : Char} (hc : c ≠ '<') (rest : List Char) :
    (characterData c rest).kind.isStructural = false ∧ 0 < (characterData c rest).length
      ∧ Clear (characterData c rest).length (c :: rest) := by
  unfold characterData
  split
  · rename_i hampersand
    rw [beq_iff_eq] at hampersand
    subst hampersand
    split
    · rename_i n hn
      obtain ⟨hclear, hpos⟩ := entity?_clear hn
      exact ⟨rfl, hpos, hclear⟩
    · exact ⟨rfl, Nat.one_pos, .head hc (.zero rest)⟩
  · split
    · rename_i l hl
      obtain ⟨htrivia, hpos⟩ := whitespace?_trivia hl
      exact ⟨Cursor.not_isStructural_of_isTrivia htrivia, hpos, whitespace?_clear hl⟩
    · refine ⟨rfl, Nat.add_pos_left Nat.one_pos _, ?_⟩
      show Clear (1 + _) (c :: rest)
      rw [Nat.add_comm]
      exact .head hc (.countWhile (by decide) rest)

/-! ### What is stepped over -/

/-- The scanner of markup whose bodies are not lexed in their own language. -/
def plainScanner (detail : Detail) (lowered : List Char) : Scanner Mode :=
  scanner { embed := false, detail, lowered }

variable (lowered : List Char)

/-- In content a structural run keeps what it keeps from the next angle bracket on. -/
theorem kept_content (pos : Nat) (text : List Char) :
    (plainScanner .structural lowered).kept .content pos text
      = (plainScanner .structural lowered).kept .content (pos + countWhile (· != '<') text)
        (text.drop (countWhile (· != '<') text)) := by
  cases text with
  | nil => rfl
  | cons c rest =>
      by_cases hc : c = '<'
      · simp [countWhile, hc]
      · have hcount : countWhile (· != '<') (c :: rest) = 1 + countWhile (· != '<') rest := by
          simp [countWhile, hc, Nat.add_comm]
        have hlength : ((c :: rest).take (1 + countWhile (· != '<') rest)).length
            = 1 + countWhile (· != '<') rest := by
          rw [List.length_take, ← hcount]
          exact Nat.min_eq_left (List.takeWhile_prefix _).length_le
        have hscan : (plainScanner .structural lowered).scan .content pos (c :: rest)
            = ⟨[{ kind := .text, length := 1 + countWhile (· != '<') rest }], .content, []⟩ := by
          simp [plainScanner, scanner, scan, scanContent, hc]
        rw [Scanner.kept_filler (List.cons_ne_nil c rest) hscan rfl (Nat.add_pos_left Nat.one_pos _),
          hlength, hcount]

/-- In content a structural run keeps from behind characters without an angle bracket what it
keeps from before them. -/
theorem kept_content_clear {n : Nat} {text : List Char} (h : Clear n text) (pos : Nat) :
    (plainScanner .structural lowered).kept .content pos text
      = (plainScanner .structural lowered).kept .content (pos + (text.take n).length)
        (text.drop n) := by
  have hcount : countWhile (· != '<') text
      = (text.take n).length + countWhile (· != '<') (text.drop n) := by
    have hall : ∀ c ∈ text.take n, (c != '<') = true := fun c hc => by simpa using h c hc
    rw [countWhile, countWhile, ← List.length_append, ← List.takeWhile_append_of_pos hall,
      List.take_append_drop]
  have hdrop : text.drop n = text.drop (text.take n).length := by
    rw [List.length_take]
    rcases Nat.le_total n text.length with hle | hle
    · rw [Nat.min_eq_left hle]
    · rw [Nat.min_eq_right hle, List.drop_length, List.drop_eq_nil_of_le hle]
  rw [kept_content lowered pos text, kept_content lowered _ (text.drop n), Nat.add_assoc, ← hcount,
    hdrop, List.drop_drop, ← hdrop, ← hcount]

/-! ### Looks -/

/-- In content the structural run keeps what a look of the rich run does, and goes on behind
it. -/
theorem kept_scanContent {mode : Mode} {pos : Nat} {c : Char} {rest : List Char}
    (hstructural : (plainScanner .structural lowered).kept mode pos (c :: rest)
      = (plainScanner .structural lowered).kept .content pos (c :: rest))
    (hrich : (plainScanner .rich lowered).scan mode pos (c :: rest)
      = (plainScanner .rich lowered).scan .content pos (c :: rest)) :
    let scan := (plainScanner .rich lowered).scan mode pos (c :: rest)
    let n := Lexeme.width scan.pieces
    (plainScanner .structural lowered).kept mode pos (c :: rest)
      = scan.keptBefore pos (c :: rest) ((plainScanner .structural lowered).kept scan.state
        (pos + ((c :: rest).take n).length) ((c :: rest).drop n)) := by
  rw [hstructural, hrich]
  by_cases hc : c = '<'
  · have hsame : (plainScanner .structural lowered).scan .content pos (c :: rest)
        = (plainScanner .rich lowered).scan .content pos (c :: rest) := by
      simp [plainScanner, scanner, scan, scanContent, hc]
    exact Scanner.kept_eq_of_alike (List.cons_ne_nil c rest) (hsame ▸ .refl _)
  · obtain ⟨hfiller, hpos, hclear⟩ := characterData_clear hc rest
    have hscan : (plainScanner .rich lowered).scan .content pos (c :: rest)
        = ⟨[characterData c rest], .content, []⟩ := by
      simp [plainScanner, scanner, scan, scanContent, hc]
    have hpieces : Scan.pieces ⟨[characterData c rest], Mode.content, []⟩
        = [characterData c rest] := Scan.pieces_single hpos _ _
    simp only [hscan, hpieces, Lexeme.width, Nat.add_zero]
    rw [Scan.keptBefore_filler (fun l hl => ?_) rfl]
    · exact kept_content_clear lowered hclear pos
    · rw [hpieces, List.mem_singleton] at hl
      exact hl ▸ hfiller

/-- Raw text of which there is none is content. -/
theorem kept_rawText (tag : StartTag) (pos : Nat) (text : List Char) (htext : text ≠ []) :
    let scan := (plainScanner .rich lowered).scan (.rawText tag) pos text
    let n := Lexeme.width scan.pieces
    (plainScanner .structural lowered).kept (.rawText tag) pos text
      = scan.keptBefore pos text ((plainScanner .structural lowered).kept scan.state
        (pos + (text.take n).length) (text.drop n)) := by
  cases text with
  | nil => exact absurd rfl htext
  | cons c rest =>
      by_cases hn : (rawLength? ('<' :: '/' :: Text.lowerChars tag.name.toList)
          (lowered.drop pos)).getD (c :: rest).length = 0
      · have hcontent (detail : Detail) :
            (plainScanner detail lowered).scan (.rawText tag) pos (c :: rest)
              = (plainScanner detail lowered).scan .content pos (c :: rest) := by
          simp only [plainScanner, scanner, scan, scanRawText, if_pos hn]
        have hraw := Scanner.kept_eq (plainScanner .structural lowered) (.rawText tag) pos htext
        rw [hcontent .structural] at hraw
        exact kept_scanContent lowered (hraw.trans (Scanner.kept_eq _ _ pos htext).symm)
          (hcontent .rich)
      · have hsame : (plainScanner .structural lowered).scan (.rawText tag) pos (c :: rest)
            = (plainScanner .rich lowered).scan (.rawText tag) pos (c :: rest) := by
          simp only [plainScanner, scanner, scan, scanRawText, if_neg hn, if_false,
            Bool.false_eq_true]
        exact Scanner.kept_eq_of_alike htext (hsame ▸ .refl _)

/-! ### Runs -/

/-- What is kept of a run from any mode does not depend on its detail. -/
theorem kept_detail (mode : Mode) (pos : Nat) (text : List Char) :
    (plainScanner .structural lowered).kept mode pos text
      = (plainScanner .rich lowered).kept mode pos text := by
  apply Scanner.kept_congr
  · intro mode pos
    rfl
  · intro mode pos text htext
    cases text with
    | nil => exact absurd rfl htext
    | cons c rest =>
        cases mode with
        | content => exact kept_scanContent lowered rfl rfl
        | rawText tag => exact kept_rawText lowered tag pos (c :: rest) htext
        | attributes tag => exact Scanner.kept_eq_of_alike htext (.refl _)
        | endTag name start => exact Scanner.kept_eq_of_alike htext (.refl _)

/-- Where bodies are not lexed in their own language, a structural run keeps of markup what a
rich run does. -/
theorem lex_structural (source : List Char) (start : Nat) (stop : Option Nat) :
    lex .structural false source start stop
      = (lex .rich false source start stop).keep .structural :=
  kept_detail _ .content start _

end SourceView.Markup
