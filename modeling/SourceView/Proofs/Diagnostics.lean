/-
The diagnostics of a pass.

Lexers and grammars note faults in many places, the grammars of bodies among them.  Whatever a
grammar notes is the fault of a token that it reads: so a fault lies in the text, like those
that the lexers find.  Line and column follow from where it begins.

The diagnostics are put in the order of the text by a sort that leaves those of one place as
they were, and the lexical ones come first there because they come first before.
-/
import SourceView.Proofs.Embedding.Pass
import SourceView.Proofs.Lexing.FaultSpans
import SourceView.Proofs.Lines

namespace SourceView

/-! ### Faults of a parse -/

namespace Parsing

open Cursor

variable {tokens : List Token} {input : Input} {c d : Cursor} {lo hi : Int} {nodes : List Node}

/-- A fault with the span of a token lies in the range of the input. -/
theorem Input.Sound.lies {t : Token} (h : input.Sound tokens) (ht : t ∈ input.tokens)
    (cause : Anomaly) : Fault.Lies input.start input.stop ⟨cause, t.start, t.stop⟩ :=
  have hrange := Token.InOrder.mem h.order t ht
  ⟨hrange.1, hrange.2.1, hrange.2.2⟩

/-- **What a trace notes lies in the range of its input.** -/
theorem Trace.lies (h : Trace input c lo nodes d hi) (hinput : input.Fair tokens)
    (hc : c.Ready input lo) :
    ∀ f ∈ d.faults, f ∈ c.faults ∨ f.Lies input.start input.stop := by
  induction h with
  | done => exact fun f hf => Or.inl hf
  | append h h' ih ih' =>
      intro f hf
      rcases ih' hinput (h.ready hinput hc) f hf with hf | hlies
      · exact ih hinput hc f hf
      · exact Or.inr hlies
  | space h => exact fun f hf => Or.inl (h.faults ▸ hf)
  | pass h => exact fun f hf => Or.inl (h.faults ▸ hf)
  | note ht =>
      intro f hf
      rcases List.mem_cons.mp hf with rfl | hf
      · exact Or.inr (hinput.lies ht _)
      · exact Or.inl hf
  | within _ ih => exact ih hinput hc.push
  | @node input input' c c' d d' lo lo' hi nodes node h hmakes ih =>
      obtain ⟨hinput', hc'⟩ := hmakes.ready hinput hc
      have hinner := ih hinput' hc'
      have hadvance {f : Fault} (hf : f ∈ c.advance.faults ∨ f.Lies input.start input.stop) :
          f ∈ c.faults ∨ f.Lies input.start input.stop := by
        rwa [faults_advance] at hf
      intro f hf
      cases hmakes with
      | leaf | ajar | element => exact hadvance (hinner f hf)
      | plain => exact hinner f hf
      | shut =>
          rw [closeTo, faults_advance] at hf
          exact hadvance (hinner f hf)
      | flat hplain hahead =>
          rcases List.mem_cons.mp hf with rfl | hf
          · exact Or.inr (hinput.lies (hc.within.mem hahead) _)
          · exact hadvance (Or.inl hf)
      | cut hahead =>
          rcases List.mem_cons.mp hf with rfl | hf
          · exact Or.inr (hinput.lies (hc.within.mem hahead) _)
          · exact hadvance (hinner f hf)
      | body hahead =>
          rcases List.mem_append.mp hf with hf | hf
          · have hrange := Token.InOrder.mem hinput.order _ (hc.within.mem hahead)
            have hlies := (hinner f hf).resolve_left (by simp [Input.cursor])
            exact Or.inr ((hlies.le_low hrange.1).le_high hrange.2.2)
          · exact hadvance (Or.inl hf)

end Parsing

/-- **Every fault that a grammar notes lies in the text.** -/
theorem Language.parse_lies (language : Language) (config : Config) (detail : Detail)
    (source : List Char) :
    ∀ f ∈ (language.pass config detail source).parse.faults, f.Lies 0 source.length := by
  obtain ⟨nodes, d, hi, htrace, -, hfaults⟩ := language.pass_follows config detail source
  have hfair := language.fair_input config detail source
  intro f hf
  rw [hfaults, List.mem_reverse] at hf
  exact (htrace.lies hfair hfair.cursor_ready f hf).resolve_left (by simp [Parsing.Input.cursor])

/-! ### Order -/

namespace Diagnostic

/-- The diagnostic `d` may come before `e` at one place. -/
def LexicalFirst (d e : Diagnostic) : Prop :=
  d.origin = .lexical ∨ e.origin = .structural

theorem start_le_trans (a b c : Diagnostic) (hab : decide (a.start ≤ b.start) = true)
    (hbc : decide (b.start ≤ c.start) = true) : decide (a.start ≤ c.start) = true :=
  decide_eq_true (Int.le_trans (of_decide_eq_true hab) (of_decide_eq_true hbc))

theorem start_le_total (a b : Diagnostic) :
    (decide (a.start ≤ b.start) || decide (b.start ≤ a.start)) = true := by
  simp only [Bool.or_eq_true, decide_eq_true_eq]
  omega

variable (ds : List Diagnostic)

theorem inOrder_perm : (inOrder ds).Perm ds :=
  List.mergeSort_perm ..

theorem inOrder_sorted : (inOrder ds).Pairwise fun d e => decide (d.start ≤ e.start) = true :=
  List.pairwise_mergeSort start_le_trans start_le_total ds

/-- Diagnostics of one place stay as they are. -/
theorem filter_inOrder (s : Int) :
    (inOrder ds).filter (·.start = s) = ds.filter (·.start = s) := by
  have hone : (ds.filter (·.start = s)).Pairwise fun d e => decide (d.start ≤ e.start) = true := by
    refine List.pairwise_filter.mpr (List.pairwise_of_forall fun d e hd he => ?_)
    simp only [decide_eq_true_eq] at hd he ⊢
    omega
  have hstays : (ds.filter (·.start = s)).Sublist (inOrder ds) :=
    List.sublist_mergeSort start_le_trans start_le_total hone List.filter_sublist
  have hfilter := hstays.filter (·.start = s)
  rw [List.filter_filter] at hfilter
  simp only [Bool.and_self] at hfilter
  exact (hfilter.eq_of_length ((inOrder_perm ds).filter _).length_eq.symm).symm

/-- What holds of diagnostics of one place in their order holds of them when they are sorted. -/
theorem inOrder_pairwise {R : Diagnostic → Diagnostic → Prop} (h : ds.Pairwise R) :
    (inOrder ds).Pairwise fun d e => d.start < e.start ∨ d.start = e.start ∧ R d e := by
  refine List.pairwise_iff_forall_sublist.mpr fun {d e} hpair => ?_
  have hle : decide (d.start ≤ e.start) = true :=
    List.pairwise_iff_forall_sublist.mp (inOrder_sorted ds) hpair
  rcases Int.lt_or_eq_of_le (of_decide_eq_true hle) with hlt | heq
  · exact Or.inl hlt
  · -- Both are among those of one place, which have kept their order.
    have hplace := hpair.filter (·.start = e.start)
    rw [filter_inOrder] at hplace
    simp only [heq, decide_true, List.filter_cons_of_pos, List.filter_nil] at hplace
    exact Or.inr ⟨heq, List.pairwise_iff_forall_sublist.mp h (hplace.trans List.filter_sublist)⟩

end Diagnostic

namespace Pass

/-- What is wrong with the text, in the order in which it was found: by the lexer first. -/
def recorded (p : Pass) : List Diagnostic :=
  p.lexing.faults.map (·.diagnostic .lexical p.lines)
    ++ p.parse.faults.map (·.diagnostic .structural p.lines)

theorem recorded_lexicalFirst (p : Pass) : p.recorded.Pairwise Diagnostic.LexicalFirst := by
  refine List.pairwise_append.mpr ⟨?_, ?_, ?_⟩
  · exact List.pairwise_map.mpr (List.pairwise_of_forall fun _ _ => Or.inl rfl)
  · exact List.pairwise_map.mpr (List.pairwise_of_forall fun _ _ => Or.inr rfl)
  · intro d hd e _
    obtain ⟨f, -, rfl⟩ := List.mem_map.mp hd
    exact Or.inl rfl

end Pass

/-- The diagnostic points to a part of the text, and says on which line and in which column of
it that begins, both counted from one. -/
structure Diagnostic.Located (source : List Char) (d : Diagnostic) : Prop where
  lies : 0 ≤ d.start ∧ d.start ≤ d.stop ∧ d.stop ≤ source.length
  line : d.line = some (1 + (source.take d.start.toNat).count '\n' : Nat)
  column : d.column = some (d.start - LineIndex.lineBegin source d.start.toNat + 1)

theorem Fault.Lies.located {source : List Char} {f : Fault} (h : f.Lies 0 source.length)
    (origin : FaultOrigin) : (f.diagnostic origin (LineIndex.ofChars source)).Located source where
  lies := ⟨h.low, h.span, h.high⟩
  line := congrArg (fun n : Nat => some (n : Int)) (LineIndex.lineOf_ofChars source f.start)
  column := by
    obtain ⟨n, hn⟩ := Int.eq_ofNat_of_zero_le h.low
    have hstop := Int.le_trans h.span h.high
    have hcolumn := LineIndex.columnOf_ofChars source (show n ≤ source.length by omega)
    have hbegin := LineIndex.lineBegin_le source n
    show some ((LineIndex.columnOf _ f.start : Nat) : Int)
      = some (f.start - (LineIndex.lineBegin source f.start.toNat : Nat) + 1)
    rw [hn, hcolumn, Int.toNat_natCast]
    congr 1
    omega

/-- **Diagnostics are in order and in place.**  They are what was recorded, sorted by where it
begins: at one place lexical diagnostics come first, and otherwise they stay as recorded.  Each
points to a part of the text, with the line and the column of it. -/
theorem Language.diagnostics_placed (language : Language) (config : Config) (detail : Detail)
    (source : List Char) :
    let pass := language.pass config detail source
    pass.diagnostics.Perm pass.recorded
      ∧ pass.diagnostics.Pairwise (fun d e =>
        d.start < e.start ∨ d.start = e.start ∧ d.LexicalFirst e)
      ∧ (∀ s : Int, pass.diagnostics.filter (·.start = s) = pass.recorded.filter (·.start = s))
      ∧ ∀ d ∈ pass.diagnostics, d.Located source := by
  intro pass
  have hperm : pass.diagnostics.Perm pass.recorded := Diagnostic.inOrder_perm pass.recorded
  refine ⟨hperm, Diagnostic.inOrder_pairwise _ pass.recorded_lexicalFirst,
    Diagnostic.filter_inOrder _, fun d hd => ?_⟩
  rcases List.mem_append.mp (hperm.mem_iff.mp hd) with hd | hd <;>
    obtain ⟨f, hf, rfl⟩ := List.mem_map.mp hd
  · exact (language.lex_lies detail config.embeddedLanguages source f hf).located .lexical
  · exact (language.parse_lies config detail source f hf).located .structural

/-- A brace left open in a style sheet is told of where it stands in the document. -/
theorem Language.diagnostics_placed_of_open_style :
    let source := "<p>\n<style>a\x7b".toList
    let pass := markup.pass {} .rich source
    let fault : Fault := ⟨.unclosed "block" "\x7d", 12, 13⟩
    let d := fault.diagnostic .structural pass.lines
    d ∈ pass.diagnostics ∧ d.line = some 2 ∧ d.column = some 9 := by
  intro source pass fault d
  have hfault : fault ∈ pass.parse.faults := by decide +kernel
  have hd : d ∈ pass.recorded := List.mem_append_right _ (List.mem_map_of_mem hfault)
  obtain ⟨hperm, -, -, hlocated⟩ := diagnostics_placed markup {} .rich source
  have hmem : d ∈ pass.diagnostics := hperm.mem_iff.mpr hd
  have hplace := hlocated d hmem
  exact ⟨hmem, hplace.line.trans (by decide +kernel), hplace.column.trans (by decide +kernel)⟩

end SourceView
