/-
When a pass for nesting alone shows what a full one shows.

A pass tells its callers three things besides the tree: what the lexer found wrong, what the
grammar found wrong, and where the tree folds.  The faults of both passes are the same; the
folds are, unless some container lies past the nesting limit, for there the passes step over
the contents and need not agree on what is left of them.
-/
import SourceView.Proofs.Fold.Outline
import SourceView.Analysis

namespace SourceView

open Fold

/-- A full pass and an outline show the same. -/
structure Pass.Agrees (config : Config) (full outline : Pass) : Prop where
  lines : full.lines = outline.lines
  lexing : full.lexing.faults = outline.lexing.faults
  parse : full.parse.faults = outline.parse.faults
  folds : (∀ fault ∈ outline.parse.faults, fault.cause ≠ .tooDeep) →
    full.folds config = outline.folds config

namespace Pass

variable {config : Config} {full outline p : Pass} {a b : Int} {xs ys : List Node}

/-- Passes whose trees fold alike agree. -/
theorem agrees_of_foldsAlike (hlines : full.lines = outline.lines)
    (hlexing : full.lexing.faults = outline.lexing.faults)
    (hparse : full.parse.faults = outline.parse.faults)
    (hfull : full.parse.tree = .container a b .document xs)
    (houtline : outline.parse.tree = .container a b .document ys)
    (halike : FoldsAlike outline.lines config outline.parse.faults.reverse xs ys) :
    full.Agrees config outline := by
  refine ⟨hlines, hlexing, hparse, fun hshallow => ?_⟩
  rw [folds, folds, hfull, houtline, hlines]
  refine (halike fun fault hfault => hshallow fault ?_).regions_eq
  exact List.mem_reverse.mp hfault

/-- No diagnostic has the message just when no fault has it. -/
theorem forall_message_ne {message : String} :
    (∀ d ∈ p.diagnostics, d.message ≠ message)
      ↔ ∀ fault ∈ p.lexing.faults ++ p.parse.faults, fault.cause.message ≠ message := by
  have hmem (d : Diagnostic) : d ∈ p.diagnostics
      ↔ (∃ fault ∈ p.lexing.faults, fault.diagnostic .lexical p.lines = d)
        ∨ ∃ fault ∈ p.parse.faults, fault.diagnostic .structural p.lines = d := by
    rw [diagnostics, Diagnostic.inOrder, List.mem_mergeSort, List.mem_append, List.mem_map,
      List.mem_map]
  refine ⟨fun h fault hfault => ?_, fun h d hd => ?_⟩
  · rcases List.mem_append.mp hfault with hfault | hfault
    · exact h _ ((hmem _).mpr (Or.inl ⟨fault, hfault, rfl⟩))
    · exact h _ ((hmem _).mpr (Or.inr ⟨fault, hfault, rfl⟩))
  · rcases (hmem d).mp hd with ⟨fault, hfault, rfl⟩ | ⟨fault, hfault, rfl⟩
    · exact h fault (List.mem_append_left _ hfault)
    · exact h fault (List.mem_append_right _ hfault)

theorem Agrees.diagnostics_eq (h : full.Agrees config outline) :
    full.diagnostics = outline.diagnostics := by
  rw [diagnostics, diagnostics, h.lines, h.lexing, h.parse]

/-- Where no diagnostic tells of the nesting limit, the folds are the same. -/
theorem Agrees.folds_eq (h : full.Agrees config outline)
    (hshallow : ∀ d ∈ outline.diagnostics,
      d.message ≠ "Nesting too deep: contents not analyzed") :
    full.folds config = outline.folds config := by
  refine h.folds fun fault hfault hdeep => ?_
  refine forall_message_ne.mp hshallow fault (List.mem_append_right _ hfault) ?_
  rw [hdeep]
  rfl

end Pass

end SourceView
