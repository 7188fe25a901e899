/-
Room for what was printed, and the analysis of it.

A parser that is followed over a printed text must not run out of anything on the way: of
turns, or of places among the open containers.  What is left of these is carried along as
one fact, which passing tokens keeps and opening a container uses up by one.  When the
parser comes to the end so, the analysis of the text is the tree that was read.
-/
import SourceView.Analysis
import SourceView.Proofs.Parsing.Turns

namespace SourceView

namespace Parsing

open Cursor

variable {input : Input} {c : Cursor} {depth : Nat} {rest : List Token}

/-- Room for containers that stand inside each other `depth` deep, at a cursor among the tokens. -/
structure Room (input : Input) (depth : Nat) (c : Cursor) : Prop where
  within : c.Within input.tokens
  places : c.opened.length + depth ≤ maxDepth

theorem Room.start (h : depth ≤ maxDepth) : Room input depth input.cursor :=
  ⟨rfl, Nat.le_trans (Nat.le_of_eq (Nat.zero_add depth)) h⟩

theorem Room.turns (h : Room input depth c) : c.ahead.length < input.bound :=
  h.within.length_lt

theorem Room.mono {depth' : Nat} (h : Room input depth c) (hle : depth' ≤ depth) :
    Room input depth' c :=
  ⟨h.within, Nat.le_trans (Nat.add_le_add_left hle _) h.places⟩

theorem Room.past {ts : List Token} (h : Room input depth c) (hahead : c.ahead = ts ++ rest) :
    Room input depth (c.past ts rest) :=
  ⟨h.within.past hahead, h.places⟩

theorem Room.push (h : Room input (depth + 1) c) (o : OpenContainer) :
    Room input depth (c.push o) := by
  refine ⟨h.within, ?_⟩
  have hplaces := h.places
  rw [Cursor.push, List.length_cons]
  omega

theorem Room.tooDeep (h : Room input (depth + 1) c) : c.tooDeep = false := by
  have hplaces := h.places
  rw [Cursor.tooDeep, decide_eq_false_iff_not]
  omega

end Parsing

/-- A text that the lexer takes for some tokens, and the parser for some nodes, with nothing wrong,
is analyzed as those nodes, with nothing wrong. -/
theorem Language.analyze_printed (language : Language) {config : Config} {text : List Char}
    {tokens : List Token} {nodes : List Node}
    (hlex : language.lex .rich config.embeddedLanguages text 0 none = ⟨tokens, []⟩)
    (hparse : let parse := language.grammar.parse ⟨tokens, text, .rich, config, 0, text.length⟩
      parse.faults = [] ∧ parse.tree = .container 0 text.length .document nodes) :
    let analysis := language.analyze config (String.ofList text)
    analysis.diagnostics = [] ∧ analysis.tree = .container 0 text.length .document nodes := by
  have hpass : language.pass config .rich (String.ofList text).toList
      = ⟨⟨tokens, []⟩, language.grammar.parse ⟨tokens, text, .rich, config, 0, text.length⟩,
        LineIndex.ofChars text⟩ := by
    rw [String.toList_ofList, pass, hlex]
  refine ⟨?_, ?_⟩
  · show Pass.diagnostics (language.pass config .rich (String.ofList text).toList) = []
    rw [hpass, Pass.diagnostics, hparse.1]
    exact List.mergeSort_nil
  · show (language.pass config .rich (String.ofList text).toList).parse.tree = _
    rw [hpass, hparse.2]

end SourceView
