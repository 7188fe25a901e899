/-
What the outline of markup has of its full tree.

The outline knows elements, comments and the bodies of raw-text elements.  The full tree has
them at the same places, and besides them text and the attributes of start tags, none of
which can be folded.

Both parses see the same angle brackets, so they go through the same tags: an end tag closes
an element, is passed as a stray one or interrupts what is open, and a start tag implies the
end of an element, in both or in neither.  What lies between the brackets is passed by the
full parse alone.  A body that is lexed in its own language is outside of this; there the
full parse has folds and faults of that language, by rules that are not those of markup.
-/
import SourceView.Proofs.Fold.Passes
import SourceView.Proofs.Parsing.Grammars
import SourceView.Proofs.Parsing.Nesting
import SourceView.Proofs.Markup.Boundaries
import SourceView.Proofs.Markup.Detail

namespace SourceView.Markup

open Fold Parsing Parsing.Cursor

variable {lines : LineIndex} {config : Config} {input outline : Input} {n m : Nat}

/-! ### The tokens of markup -/

/-- What is known of the tokens ahead of the rich parse, when bodies are not lexed. -/
structure Sound (behind ahead : List Token) : Prop where
  tight : TightTags ahead
  line : ∀ t ∈ ahead, t.kind ≠ .lineComment
  embedded : ∀ t ∈ ahead, t.embedded = []

theorem Sound.streams : Streams Sound := by
  refine ⟨fun h => ⟨h.tight.tail, fun u hu => h.line u (by simp [hu]),
    fun u hu => h.embedded u (by simp [hu])⟩, ?_⟩
  intro t behind ahead h ht
  exact h.tight.head ht

/-! ### Raw text -/

/-- A body that is not lexed is one node without children for both. -/
theorem rawText_pairs :
    Pairs Sound (FoldsAlike lines config) n m (rawText input) (rawText outline) := by
  refine ⟨?_, ?_⟩
  · intro r s t rest hmirrors _ _ hahead ht
    obtain ⟨u, us, hs, hbare, hnext⟩ := hmirrors.boundary Sound.streams hahead ht
    have hkind := Token.kind_of_bare hbare
    by_cases hraw : t.kind = .rawText
    · have hembedded : t.embedded = [] := hmirrors.good.embedded t (by simp [hahead])
      have hembedded' : u.embedded = [] := (Token.embedded_of_bare hbare).trans hembedded
      simp only [rawText, acceptKind?_of_eq hahead hraw, acceptKind?_of_eq hs (hkind.trans hraw),
        hembedded, hembedded', List.isEmpty_nil, if_true, Token.start_of_bare hbare,
        Token.stop_of_bare hbare, Token.language_of_bare hbare]
      exact .some hnext fun _ => .refl _
    · simp only [rawText, acceptKind?_of_ne hahead hraw, acceptKind?_of_ne hs (hkind ▸ hraw)]
      exact .none
  · intro r s r' t rest node hmirrors _ _ hahead ht hread
    have hraw : t.kind ≠ .rawText := ne_of_filler ht rfl
    simp [rawText, acceptKind?_of_ne hahead hraw] at hread

/-! ### Symbols of any height -/

variable {height height' : Nat}

theorem moves_symbols (input : Input) (height : Nat) (symbols : List Symbol)
    (hsymbols : Symbol.document ∉ symbols) :
    Moves (choice (symbols.map (readWithin input height))) :=
  Moves.choice_map fun symbol hsymbol =>
    moves_readWithin input height symbol fun hdocument => hsymbols (hdocument ▸ hsymbol)

/-- What stands in an element is read alike, whatever the heights, as long as these suffice for
the tokens ahead. -/
theorem symbol_pairs (houtline : outline.rich = false) (hstop : outline.stop = input.stop)
    (hconfig : outline.config = input.config) (hheight : n ≤ height) (hheight' : m ≤ height')
    (hn : n ≤ input.bound) (hm : m ≤ outline.bound) :
    ∀ symbol ∈ Symbol.children,
      Pairs Sound (FoldsAlike lines config) n m (readWithin input height symbol)
        (readWithin outline height' symbol) := by
  have hgood := Sound.streams
  have hR := FoldsAlike.relates lines config
  -- The induction is on the tokens ahead: children stand past the name of their element, so
  -- both parses have fewer tokens left for them.
  induction n generalizing m height height' with
  | zero => exact fun _ _ => Pairs.vacuous (Or.inl rfl)
  | succ n ih =>
      cases m with
      | zero => exact fun _ _ => Pairs.vacuous (Or.inr rfl)
      | succ m =>
          obtain ⟨height, rfl⟩ : ∃ k, height = k + 1 := ⟨height - 1, by omega⟩
          obtain ⟨height', rfl⟩ : ∃ k, height' = k + 1 := ⟨height' - 1, by omega⟩
          intro symbol hsymbol
          cases symbol with
          | document => exact absurd hsymbol (by decide)
          | comment =>
              exact comment_pairs hgood (fun _ => .refl _) fun hsound ht =>
                absurd ht (hsound.line _ List.mem_cons_self)
          | text => exact text_pairs hgood houtline fun _ => .without rfl
          | rawText => exact rawText_pairs
          | element =>
              have hchildren : Pairs Sound (FoldsAlike lines config) n m
                  (choice (Symbol.children.map (readWithin input height)))
                  (choice (Symbol.children.map (readWithin outline height'))) :=
                Pairs.choice (ih (by omega) (by omega) (by omega) (by omega))
              have hnothing : Moves (choice []) := Moves.choice (by simp)
              have hblocks : ReadsBlocks (choice []) := fun h => absurd h (by simp [choice])
              exact element_pairs hgood hR (moves_symbols input height _ (by decide))
                (moves_symbols outline height' _ (by decide)) hnothing hnothing hchildren
                .nothing hblocks hstop hconfig (by omega) (by omega)
                (fun hattributes h hf => .element hattributes (h hf)) FoldsAlike.of_tooDeep

/-! ### Parses -/

theorem parse_outline (houtline : outline.rich = false) (hstart : outline.start = input.start)
    (hstop : outline.stop = input.stop) (hconfig : outline.config = input.config)
    (hmirrors : input.cursor.Mirrors Sound outline.cursor) :
    ∃ xs ys, (grammar.parse input).tree = .container input.start input.stop .document xs
      ∧ (grammar.parse outline).tree = .container input.start input.stop .document ys
      ∧ FoldsAlike lines config (grammar.parse outline).faults.reverse xs ys
      ∧ (grammar.parse outline).faults = (grammar.parse input).faults := by
  have hbound (input : Input) : input.bound ≤ 3 * input.bound := by
    unfold Input.bound
    omega
  have houter : Pairs Sound (FoldsAlike lines config) input.bound outline.bound
      (choice (Symbol.outer.map (readWithin input (3 * input.bound))))
      (choice (Symbol.outer.map (readWithin outline (3 * outline.bound)))) := by
    refine Pairs.choice fun symbol hsymbol => ?_
    refine symbol_pairs houtline hstop hconfig (hbound input) (hbound outline) (Nat.le_refl _)
      (Nat.le_refl _) symbol ?_
    revert hsymbol
    cases symbol <;> decide
  exact (houter.follows Sound.streams).parse Sound.streams (FoldsAlike.relates lines config)
    (moves_symbols input _ _ (by decide)) (moves_symbols outline _ _ (by decide)) (parse_eq input)
    (parse_eq outline) hstart hstop hmirrors

end SourceView.Markup

namespace SourceView

open Parsing

/-- What the outline of markup has of its full analysis, when bodies are not lexed in their own
language. -/
theorem Language.markup_passes_agree (config : Config) (source : List Char)
    (hembed : config.embeddedLanguages = false) :
    (markup.pass config .rich source).Agrees config (markup.pass config .structural source) := by
  let input : Input :=
    { tokens := (markup.lex .rich config.embeddedLanguages source 0 none).tokens, source
      detail := .rich, config, start := 0, stop := source.length }
  let bare : Input :=
    { tokens := (markup.lex .structural config.embeddedLanguages source 0 none).tokens, source
      detail := .structural, config, start := 0, stop := source.length }
  have hkept : markup.lex .structural config.embeddedLanguages source 0 none
      = (markup.lex .rich config.embeddedLanguages source 0 none).keep .structural := by
    rw [hembed, lex_markup, lex_markup]
    exact Markup.lex_structural source 0 none
  have hsound : Markup.Sound [] input.tokens := by
    show Markup.Sound [] (markup.lex .rich config.embeddedLanguages source 0 none).tokens
    rw [lex_markup]
    refine ⟨Markup.lex_tight _ source 0 none, Markup.lex_noLine _ source 0 none, ?_⟩
    rw [hembed]
    exact Markup.lex_embedded source 0 none
  have hmirrors : input.cursor.Mirrors Markup.Sound bare.cursor :=
    ⟨(congrArg (·.tokens.map Token.bare) hkept).symm, hsound, rfl, rfl⟩
  obtain ⟨xs, ys, hfull, houtline, halike, hparse⟩ :=
    Markup.parse_outline (show bare.rich = false from rfl) (show bare.start = input.start from rfl)
      rfl rfl hmirrors
  exact Pass.agrees_of_foldsAlike rfl (congrArg Lexing.faults hkept).symm hparse.symm hfull houtline
    halike

/-- **Markup and its outline agree.**  Where bodies are not lexed in their own language and no
container lies past the nesting limit, the outline has the fold regions and the diagnostics of
the full analysis, whatever tags are cut short, mismatched, stray or left out. -/
theorem Language.markup_outline_agrees (config : Config) (source : String)
    (hembed : config.embeddedLanguages = false)
    (hshallow : ∀ d ∈ (markup.outline config source).diagnostics,
      d.message ≠ "Nesting too deep: contents not analyzed") :
    (markup.analyze config source).folds = (markup.outline config source).folds
      ∧ (markup.analyze config source).diagnostics
        = (markup.outline config source).diagnostics := by
  have hagrees := markup_passes_agree config source.toList hembed
  exact ⟨hagrees.folds_eq hshallow, hagrees.diagnostics_eq⟩

/-- A list whose start tag is cut short, with an item that ends where the next one begins, an end
tag that closes nothing, and the end tag of the list, cut short, inside of another element. -/
theorem Language.markup_outline_agrees_on_damaged_list :
    let config : Config := { embeddedLanguages := false }
    let source := "<ul\n<li>one\n<li>two</b>\n<p a=\"x\">&amp;\n<div>\n</ul z\n<script>\nf(</p>\n</script>"
    config.embeddedLanguages = false
      ∧ (∀ d ∈ (markup.outline config source).diagnostics,
        d.message ≠ "Nesting too deep: contents not analyzed")
      ∧ (markup.analyze config source).folds = (markup.outline config source).folds
      ∧ (markup.analyze config source).diagnostics
        = (markup.outline config source).diagnostics := by
  intro config source
  have hshallow : ∀ d ∈ (markup.outline config source).diagnostics,
      d.message ≠ "Nesting too deep: contents not analyzed" := by
    refine Pass.forall_message_ne.mpr ?_
    decide +kernel
  exact ⟨rfl, hshallow, markup_outline_agrees config source rfl hshallow⟩

end SourceView
