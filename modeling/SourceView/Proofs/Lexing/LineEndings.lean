/-
Line endings do not matter, but behind an escape.

Apart from the carriage returns themselves a stylesheet or a script is cut into the same tokens
whichever of the two ends its lines have, and the same is wrong with it.  Only a string and a
regular expression end with their line, and a backslash takes one character along: the line feed,
but not the carriage return with the line feed behind it.  So a text that holds no string, no
regular expression and nothing in error that goes over an escaped line feed says the same with
either line ending, and the first piece that does ends at the carriage return in the longer text.
-/
import SourceView.Proofs.Lexing.Coverage
import SourceView.Proofs.Script.LineEndings

namespace SourceView

open Text

namespace Lexing

/-- What the tokens are, in order. -/
def outline (l : Lexing) : List (TokenKind × String) :=
  l.tokens.map fun t => (t.kind, t.style)

/-- What is wrong, in the words that callers get. -/
def messages (l : Lexing) : List String :=
  l.faults.map (·.cause.message)

theorem outline_of_reading {l l' : Lexing}
    (h : l'.tokens.map Token.reading = l.tokens.map Token.longReading) :
    l'.outline = l.outline := by
  have hfst := congrArg (List.map fun r : TokenKind × String × List Char => (r.1, r.2.1)) h
  rw [List.map_map, List.map_map] at hfst
  exact hfst

theorem messages_of_causes {l l' : Lexing}
    (h : l'.faults.map Fault.cause = l.faults.map Fault.cause) : l'.messages = l.messages := by
  have hmessages := congrArg (List.map Anomaly.message) h
  rw [List.map_map, List.map_map] at hmessages
  exact hmessages

end Lexing

/-- What comes first of its kind is found once. -/
theorem first_unique {α : Type} {P : α → Prop} {us vs us' vs' : List α} {a b : α}
    (h : us ++ a :: vs = us' ++ b :: vs') (hus : ∀ u ∈ us, ¬P u) (ha : P a)
    (hus' : ∀ u ∈ us', ¬P u) (hb : P b) : us = us' ∧ a = b ∧ vs = vs' := by
  rcases List.append_eq_append_iff.mp h with ⟨more, rfl, hmore⟩ | ⟨more, rfl, hmore⟩
  · cases more with
    | nil =>
        obtain ⟨rfl, rfl⟩ := List.cons.inj hmore
        exact ⟨(List.append_nil us).symm, rfl, rfl⟩
    | cons u more =>
        obtain ⟨rfl, -⟩ := List.cons.inj hmore
        exact absurd ha (hus' a (by simp))
  · cases more with
    | nil =>
        obtain ⟨rfl, rfl⟩ := List.cons.inj hmore
        exact ⟨List.append_nil us', rfl, rfl⟩
    | cons u more =>
        obtain ⟨rfl, -⟩ := List.cons.inj hmore
        exact absurd hb (hus b (by simp))

/-- The first token with an escaped line feed is read as another one. -/
theorem Matched.differs {l l' : Lexing} (h : Matched l l') {us vs : List Token} {t : Token}
    (hl : l.tokens = us ++ t :: vs) (hus : ∀ u ∈ us, ¬u.EscapesLineFeed l.faults)
    (ht : t.EscapesLineFeed l.faults) :
    ∃ r, us.map Token.longReading ++ [r] <+: l'.tokens.map Token.reading ∧ r ≠ t.longReading
      ∧ (t.kind ≠ .error → r.1 ≠ t.kind) := by
  cases h with
  | whole hwhole => exact absurd ht (hwhole t (by simp [hl]))
  | escaped htokens hwhole hescapes htokens' hother hkind =>
      obtain ⟨rfl, rfl, -⟩ := first_unique (hl.symm.trans htokens) hus ht hwhole hescapes
      exact ⟨_, htokens', hother, hkind⟩

theorem Language.run_matched {language : Language} (hlanguage : language ≠ .markup) (embed : Bool)
    {source : List Char} (hreturn : '\r' ∉ source) :
    Matched (language.lex .rich embed source 0 none)
      (language.lex .rich embed (withReturns source) 0 none) := by
  cases language with
  | markup => exact absurd rfl hlanguage
  | stylesheet =>
      rw [lex_stylesheet_whole, lex_stylesheet_whole]
      exact Stylesheet.twins_richScanner.run_matched rfl 0 0 hreturn
  | script =>
      rw [lex_script_whole, lex_script_whole]
      exact (Script.twins_scanner .rich).run_matched rfl 0 0 hreturn

/-- The tokens of a whole text spell it. -/
theorem Language.flatten_values (language : Language) (embed : Bool) (source : List Char) :
    ((language.lex .rich embed source 0 none).tokens.map (·.value.toList)).flatten = source := by
  rw [language.lex_none]
  have hcovers := language.lex_covers .rich embed (Nat.zero_le source.length) (Nat.le_refl _)
  rw [Token.values_of_tile hcovers.laid (Int.le_refl 0) fun t ht => (hcovers.holds t ht).spells]
  exact (Text.slice_ofNat source 0 source.length).trans List.take_length

/-- What is read with carriage returns to be added spells the longer text. -/
theorem Language.flatten_longReadings (language : Language) (embed : Bool) (source : List Char) :
    (((language.lex .rich embed source 0 none).tokens.map Token.longReading).map
      (·.2.2)).flatten = withReturns source := by
  have hvalues := congrArg withReturns (language.flatten_values embed source)
  rw [withReturns_flatten, List.map_map] at hvalues
  rw [List.map_map]
  exact hvalues

/-- Where two outlines agree, so do the first pieces behind a common front, and as many follow. -/
theorem Lexing.of_outline_eq {us vs : List Token} {t : Token}
    {rs : List (TokenKind × String × List Char)} {r : TokenKind × String × List Char}
    (h : (us.map Token.longReading ++ r :: rs).map (fun r => (r.1, r.2.1))
      = (us ++ t :: vs).map fun t => (t.kind, t.style)) :
    r.1 = t.kind ∧ r.2.1 = t.style ∧ rs.length = vs.length := by
  have hfront : (us.map Token.longReading).map (fun r => (r.1, r.2.1))
      = us.map fun t => (t.kind, t.style) := by
    rw [List.map_map]
    rfl
  rw [List.map_append, List.map_append, hfront, List.append_cancel_left_eq] at h
  obtain ⟨hfirst, hrest⟩ := List.cons.inj h
  have hlength : rs.length = vs.length := by simpa using congrArg List.length hrest
  exact ⟨congrArg Prod.fst hfirst, congrArg Prod.snd hfirst, hlength⟩

/-- **Line endings do not matter where no token goes over an escaped line feed**: the tokens are the
same and spell the same but for the carriage returns, and the same is wrong with the text.  The first
token that does go over one is another one when a carriage return stands before the line feed.  What
the tokens are then differs too, unless that token is in error and others follow. -/
theorem Language.line_endings {language : Language} (hlanguage : language ≠ .markup) (embed : Bool)
    {source : List Char} (hreturn : '\r' ∉ source) :
    let l := language.lex .rich embed source 0 none
    let l' := language.lex .rich embed (withReturns source) 0 none
    ((∀ t ∈ l.tokens, ¬t.EscapesLineFeed l.faults) →
        l'.outline = l.outline ∧ l'.messages = l.messages
          ∧ l'.tokens.map Token.reading = l.tokens.map Token.longReading)
      ∧ ∀ us t vs, l.tokens = us ++ t :: vs → (∀ u ∈ us, ¬u.EscapesLineFeed l.faults) →
        t.EscapesLineFeed l.faults →
        l'.tokens.map Token.reading ≠ l.tokens.map Token.longReading
          ∧ (t.kind ≠ .error ∨ vs = [] → l'.outline ≠ l.outline) := by
  intro l l'
  have hmatched : Matched l l' := Language.run_matched hlanguage embed hreturn
  refine ⟨fun hnone => ?_, fun us t vs hl hus ht => ?_⟩
  · cases hmatched with
    | whole _ htokens hcauses =>
        exact ⟨Lexing.outline_of_reading htokens, Lexing.messages_of_causes hcauses, htokens⟩
    | escaped htokens _ hescapes => exact absurd hescapes (hnone _ (by simp [htokens]))
  obtain ⟨r, ⟨rs, hl'⟩, hother, hkind⟩ := hmatched.differs hl hus ht
  rw [List.append_assoc, List.singleton_append] at hl'
  constructor
  · intro heq
    rw [← hl', hl, List.map_append] at heq
    exact hother (List.cons.inj (List.append_cancel_left heq)).1
  intro hcase heq
  have houtline : (us.map Token.longReading ++ r :: rs).map (fun r => (r.1, r.2.1))
      = (us ++ t :: vs).map fun t => (t.kind, t.style) := by
    rw [hl', ← hl, List.map_map]
    exact heq
  obtain ⟨hsame, hstyle, hlength⟩ := Lexing.of_outline_eq houtline
  rcases hcase with herror | rfl
  · exact hkind herror hsame
  · -- Both runs spell their texts, so the last tokens spell the same.
    obtain rfl := List.eq_nil_of_length_eq_zero hlength
    have hspells : ((us.map Token.longReading ++ [r]).map (·.2.2)).flatten
        = (((us ++ [t]).map Token.longReading).map (·.2.2)).flatten := by
      rw [hl', ← hl, language.flatten_longReadings embed source, List.map_map]
      exact language.flatten_values embed (withReturns source)
    have hvalue : r.2.2 = withReturns t.value.toList := by
      simpa [Token.longReading] using hspells
    exact hother (Prod.ext hsame (Prod.ext hstyle hvalue))

/-- A comment goes over a line break of either length; a string that goes on behind an escaped one
does not. -/
theorem Language.line_endings_of_comment_and_string :
    (script.lex .rich true "/*\r\n*/".toList 0 none).outline
        = (script.lex .rich true "/*\n*/".toList 0 none).outline
      ∧ (stylesheet.lex .rich true "\"\\\r\n\"".toList 0 none).outline
        ≠ (stylesheet.lex .rich true "\"\\\n\"".toList 0 none).outline := by
  constructor
  · have hwhole : ∀ t ∈ (script.lex .rich true "/*\n*/".toList 0 none).tokens,
        ¬t.EscapesLineFeed (script.lex .rich true "/*\n*/".toList 0 none).faults := by
      decide +kernel
    exact ((line_endings (show script ≠ markup by decide) true (by decide)).1 hwhole).1
  · have hone : (stylesheet.lex .rich true "\"\\\n\"".toList 0 none).tokens.length = 1 := by
      decide +kernel
    have hescapes : ∀ t ∈ (stylesheet.lex .rich true "\"\\\n\"".toList 0 none).tokens,
        t.EscapesLineFeed (stylesheet.lex .rich true "\"\\\n\"".toList 0 none).faults
          ∧ t.kind ≠ .error := by
      decide +kernel
    obtain ⟨t, ht⟩ := List.length_eq_one_iff.mp hone
    obtain ⟨hescapes, hkind⟩ := hescapes t (ht ▸ List.mem_singleton_self t)
    exact ((line_endings (show stylesheet ≠ markup by decide) true (by decide)).2 [] t [] ht
      (by simp) hescapes).2 (.inl hkind)

end SourceView
