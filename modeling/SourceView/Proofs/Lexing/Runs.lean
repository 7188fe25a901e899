/-
The run of each language.

A run is given the whole source and its bounds.  Two things are said of it here: its tokens
follow one another from bound to bound, because every rule of its lexer hands over where the
next one starts, and the run is the run over the text between the bounds, because no rule looks
at anything else.
-/
import SourceView.Language
import SourceView.Proofs.Markup.Looks

namespace SourceView.Language

variable (detail : Detail) (embed : Bool) (source : List Char) (start : Nat) (stop : Option Nat)

theorem lex_markup :
    markup.lex detail embed source start stop = Markup.lex detail embed source start stop :=
  Markup.lexWithin_eq detail embed source start stop

theorem lex_stylesheet :
    stylesheet.lex detail embed source start stop
      = Stylesheet.lex detail start (boundedText source start stop) := by
  rw [← Window.ahead_upTo]
  exact Stylesheet.lexWithin_eq detail _ start

theorem lex_script :
    script.lex detail embed source start stop
      = Script.lex detail start (boundedText source start stop) := by
  rw [← Window.ahead_upTo]
  exact Script.lexWithin_eq detail _ start

/-- Over the whole of a text there is nothing to bound. -/
theorem lex_stylesheet_whole :
    stylesheet.lex detail embed source 0 none = Stylesheet.lex detail 0 source :=
  lex_stylesheet detail embed source 0 none

theorem lex_script_whole :
    script.lex detail embed source 0 none = Script.lex detail 0 source :=
  lex_script detail embed source 0 none

/-- A structural run keeps only what bounds something. -/
theorem isStructural_of_lex (language : Language) :
    ∀ t ∈ (language.lex .structural embed source start stop).tokens,
      t.kind.isStructural = true := by
  have hkeep (l : Lexing) : ∀ t ∈ (l.keep .structural).tokens, t.kind.isStructural = true :=
    fun t ht => (List.mem_filter.mp ht).2
  cases language with
  | markup =>
      rw [lex_markup]
      exact hkeep _
  | stylesheet =>
      rw [lex_stylesheet]
      exact hkeep _
  | script =>
      rw [lex_script]
      exact hkeep _

variable {source start}

/-- **The tokens of a run follow one another from bound to bound.** -/
theorem lex_laid (language : Language) {stop : Nat} (hle : start ≤ stop)
    (hstop : stop ≤ source.length) :
    Token.Laid detail.gap start stop
      (language.lex detail embed source start (some stop)).tokens := by
  have hbound : (Window.upTo source.toArray (some stop)).stop = stop := Nat.min_eq_left hstop
  have hstart : start ≤ (Window.upTo source.toArray (some stop)).stop := hbound.symm ▸ hle
  have hlaid : Token.Laid detail.gap start (Window.upTo source.toArray (some stop)).stop
      (language.lex detail embed source start (some stop)).tokens := by
    cases language with
    | markup => exact Markup.lexWithin_laid detail embed _ hstart
    | stylesheet => exact Stylesheet.lexWithin_laid detail _ hstart
    | script => exact Script.lexWithin_laid detail _ hstart
  rwa [hbound] at hlaid

end SourceView.Language
