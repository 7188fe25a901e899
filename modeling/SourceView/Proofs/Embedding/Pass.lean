/-
What the grammar reads in a pass.

Of the tokens that come out of a pass, with every region in the place of its token, the grammar
of the text reads those that stand for no region, and the grammar of a body those of its
region.  Regions are apart, so a token in the text of a region is one of its own:
each grammar reads just what comes out of the pass in its range.
-/
import SourceView.Analysis
import SourceView.Proofs.Embedding.Shift
import SourceView.Proofs.Lexing.Solid
import SourceView.Proofs.Markup.Bodies
import SourceView.Proofs.Parsing.Passage
import SourceView.Proofs.Parsing.Traced

namespace SourceView

open Parsing

namespace Token

theorem mem_flatten {ts : List Token} {u : Token} :
    u ∈ flatten ts ↔ ∃ t ∈ ts, u ∈ t.leaves := by
  induction ts with
  | nil => simp [flatten]
  | cons t ts ih => simp [flatten, ih]

/-- Of two tokens that are in order one comes before the other. -/
theorem InOrder.before_or {lo hi : Int} {ts : List Token} (h : InOrder lo hi ts) {t u : Token}
    (ht : t ∈ ts) (hu : u ∈ ts) : t = u ∨ t.stop ≤ u.start ∨ u.stop ≤ t.start := by
  induction ts generalizing lo with
  | nil => exact absurd ht (by simp)
  | cons v ts ih =>
      rcases List.mem_cons.mp ht with rfl | htail <;> rcases List.mem_cons.mp hu with rfl | hutail
      · exact Or.inl rfl
      · exact Or.inr (Or.inl (InOrder.mem h.2.2 u hutail).1)
      · exact Or.inr (Or.inr (InOrder.mem h.2.2 t htail).1)
      · exact ih h.2.2 htail hutail

end Token

/-- A container was found past the nesting limit that begins at the offset. -/
def Pass.PastLimit (p : Pass) (s : Int) : Prop :=
  ∃ f ∈ p.parse.faults, f.cause = .tooDeep ∧ f.start = s

instance (p : Pass) (s : Int) : Decidable (p.PastLimit s) :=
  inferInstanceAs (Decidable (∃ f ∈ p.parse.faults, _))

namespace Language

variable (language : Language) (config : Config) (detail : Detail) (source : List Char)

theorem input_covers :
    Covers detail source 0 source.length (language.input config detail source).tokens := by
  have hcovers := language.lex_covers detail config.embeddedLanguages (Nat.zero_le _)
    (Nat.le_refl source.length)
  rw [← lex_none] at hcovers
  exact hcovers

theorem region_plain : ∀ t ∈ (language.input config detail source).tokens,
    ((language.input config detail source).region t).Plain :=
  fun t ht => ((language.input_covers config detail source).holds t ht).plain

/-- The parse of a pass follows a trace over its tokens. -/
theorem pass_follows :
    (language.pass config detail source).parse.Follows (language.input config detail source) := by
  have hplain (h : language ≠ .markup) : (language.input config detail source).Plain :=
    language.lex_plain detail config.embeddedLanguages source 0 none h
  cases language with
  | markup => exact Markup.parse_follows (region_plain .markup config detail source)
  | stylesheet => exact Stylesheet.parse_follows (hplain (by decide))
  | script => exact Script.parse_follows (hplain (by decide))

/-- A token that overlaps the text of a region is one of the region. -/
theorem mem_embedded_of_overlap {t u : Token}
    (ht : t ∈ (language.input config detail source).tokens) (hembedded : t.embedded ≠ [])
    (hu : u ∈ Token.flatten (language.input config detail source).tokens)
    (hstart : u.start < t.stop) (hstop : t.start < u.stop) : u ∈ t.embedded := by
  have hcovers := language.input_covers config detail source
  obtain ⟨v, hv, hleaf⟩ := Token.mem_flatten.mp hu
  rw [(hcovers.holds v hv).leaves_eq] at hleaf
  have hinside : v.start ≤ u.start ∧ u.stop ≤ v.stop := by
    split at hleaf
    · rw [List.mem_singleton.mp hleaf]
      exact ⟨Int.le_refl _, Int.le_refl _⟩
    · have hmem := Token.InOrder.mem (hcovers.embedded_inOrder v hv) u hleaf
      exact ⟨hmem.1, hmem.2.2⟩
  rcases Token.InOrder.before_or hcovers.inOrder ht hv with rfl | hbefore
  · rwa [if_neg hembedded] at hleaf
  · omega

/-- **Each grammar reads just the tokens of the pass in its range.** -/
theorem fair_input : (language.input config detail source).Fair
    (Token.flatten (language.input config detail source).tokens) := by
  have hcovers := language.input_covers config detail source
  have hsolid := language.lex_solid detail config.embeddedLanguages source 0 none
  refine ⟨⟨hcovers.inOrder, fun t ht => (hsolid t ht).1, fun t ht hnil => ?_,
    fun hplain t ht _ _ => ?_⟩, language.region_plain config detail source,
    fun t ht hembedded => ⟨hcovers.embedded_inOrder t ht, (hsolid t ht).2, fun u hu hnil => ?_,
      fun _ u hu => language.mem_embedded_of_overlap config detail source ht hembedded hu⟩⟩
  · exact Token.mem_flatten.mpr ⟨t, ht, by rw [Token.leaves_of_embedded_nil hnil]; simp⟩
  · rwa [Token.flatten_of_embedded_nil hplain] at ht
  · refine Token.mem_flatten.mpr ⟨t, ht, ?_⟩
    rwa [(hcovers.holds t ht).leaves_eq, if_neg hembedded]

theorem flatten_solid :
    ∀ t ∈ Token.flatten (language.input config detail source).tokens, t.Solid := by
  have hcovers := language.input_covers config detail source
  have hsolid := language.lex_solid detail config.embeddedLanguages source 0 none
  intro u hu
  obtain ⟨t, ht, hleaf⟩ := Token.mem_flatten.mp hu
  rw [(hcovers.holds t ht).leaves_eq] at hleaf
  split at hleaf
  · rw [List.mem_singleton.mp hleaf]
    exact (hsolid t ht).1
  · exact (hsolid t ht).2 u hleaf

/-- Every token that an outline is made from bounds something, those of regions too. -/
theorem isStructural_of_flatten :
    ∀ t ∈ Token.flatten (language.input config .structural source).tokens,
      t.kind.isStructural = true := by
  have hcovers := language.input_covers config .structural source
  intro u hu
  obtain ⟨t, ht, hleaf⟩ := Token.mem_flatten.mp hu
  rw [(hcovers.holds t ht).leaves_eq] at hleaf
  split at hleaf
  · rw [List.mem_singleton.mp hleaf]
    exact language.isStructural_of_lex config.embeddedLanguages source 0 none t ht
  · rename_i hembedded
    obtain ⟨body, pos, text, hbody⟩ :=
      language.exists_body .structural config.embeddedLanguages source 0 none ht hembedded
    rw [hbody] at hleaf
    exact (Markup.lexBody_inBody body .structural pos text u hleaf).2 rfl

/-! ### The tree of a pass -/

theorem pass_document : (language.pass config detail source).parse.tree
    = .container 0 source.length .document
        (language.pass config detail source).parse.tree.children := by
  obtain ⟨nodes, d, hi, -, htree, -⟩ := language.pass_follows config detail source
  rw [htree]
  rfl

/-- The children of the document lie in the text, apart. -/
theorem pass_children :
    (language.pass config detail source).parse.tree.children.Pairwise
        (fun left right => left.stop ≤ right.start)
      ∧ ∀ child ∈ (language.pass config detail source).parse.tree.children,
        0 ≤ child.start ∧ child.stop ≤ source.length := by
  obtain ⟨nodes, d, hi, htrace, htree, -⟩ := language.pass_follows config detail source
  have hfair := language.fair_input config detail source
  have hready := hfair.cursor_ready
  have hpass := htrace.passage hfair hready
  rw [htree]
  refine ⟨hpass.apart, fun child hchild => ?_⟩
  obtain ⟨hstart, -, hstop⟩ := hpass.inside child hchild
  exact ⟨Int.le_trans hready.low hstart, Int.le_trans (Int.le_trans hstop hpass.low)
    (hready.ordered.passes htrace.leads.passes).unclosedEnd_le_stop⟩

/-- **Every node below the document is made along a trace** over the tokens of the pass, and
what is noted there past the nesting limit is noted in the pass. -/
theorem pass_made :
    ∀ node ∈ Node.preorderAll (language.pass config detail source).parse.tree.children,
      Made (Token.flatten (language.pass config detail source).lexing.tokens)
        (language.pass config detail source).PastLimit node := by
  obtain ⟨nodes, d, hi, htrace, htree, hfaults⟩ := language.pass_follows config detail source
  have hfair := language.fair_input config detail source
  rw [htree]
  refine htrace.made hfair hfair.cursor_ready (fun s hs => ?_) fun s _ _ => ?_
  · obtain ⟨f, hf, -⟩ := hs
    exact absurd hf (by simp [Input.cursor])
  · rw [Pass.PastLimit, hfaults]
    simp [Cursor.Cuts]

end Language

end SourceView
