/-
Bodies of style and script elements.

A body is analyzed where it stands: its lexer is bounded to its part of the text, and the
grammar reads those tokens with the offsets that they have there.  What comes of it is what
comes of the body as a text of its own, moved to where the body begins.  So neither the text
before a body nor the text after it has any say in it.

Tokens and faults are moved in `Proofs/Lexing/Shift.lean`; moving is also a recast, and that
settles the parse.
-/
import SourceView.Proofs.Script.Recast
import SourceView.Proofs.Stylesheet.Recast

namespace SourceView

open Parsing

/-! ### Sound inputs -/

/-- What the grammar reads in a pass over a whole text. -/
def Language.input (language : Language) (config : Config) (detail : Detail)
    (source : List Char) : Input :=
  { tokens := (language.lex detail config.embeddedLanguages source 0 none).tokens
    source, detail, config, start := 0, stop := source.length }

/-- The grammar of a pass reads from a cursor that is sound, whatever is told otherwise, if the
faults that may start with one of its tokens are told. -/
theorem Language.sound_input (language : Language) (config : Config) (detail : Detail)
    (source : List Char) {r : Recast}
    (hkeeps : ∀ t ∈ (language.input config detail source).tokens, t.kind ≠ .rawText →
      r.keeps t.start = true) :
    r.Sound (language.input config detail source)
      (language.input config detail source).cursor := by
  have hcovers := language.lex_covers detail config.embeddedLanguages (Nat.zero_le _)
    (Nat.le_refl source.length)
  rw [← lex_none] at hcovers
  refine Recast.sound_cursor hcovers.inOrder hkeeps ?_ ?_
  · rintro (rfl : detail = .rich)
    exact language.snug_of_rich config source
  · rintro (rfl : detail = .structural)
    exact isStructural_of_lex config.embeddedLanguages source 0 none language

/-! ### Trees that are moved -/

mutual

/-- The node with every offset moved by `d`. -/
def Node.shift (d : Int) : Node → Node
  | leaf a b info => leaf (a + d) (b + d) info
  | container a b info children => container (a + d) (b + d) info (shiftAll d children)
  | element a b info attributes children =>
    element (a + d) (b + d) info (shiftAll d attributes) (shiftAll d children)

/-- The nodes with every offset moved by `d`. -/
def Node.shiftAll (d : Int) : List Node → List Node
  | [] => []
  | node :: nodes => node.shift d :: shiftAll d nodes

end

theorem Node.shiftAll_eq_map (d : Int) (nodes : List Node) :
    shiftAll d nodes = nodes.map (shift d) := by
  induction nodes with
  | nil => rfl
  | cons node nodes ih => rw [shiftAll, ih, List.map_cons]

theorem Node.children_shift (d : Int) (node : Node) :
    (node.shift d).children = node.children.map (shift d) := by
  cases node with
  | leaf => rfl
  | container | element => exact shiftAll_eq_map d _

/-- Everything is told, `d` characters further on. -/
def Parsing.Recast.shift (d : Int) : Recast where
  offset := d
  token := Token.shift d
  node := Node.shift d
  keeps := fun _ => true
  kind_token := Token.kind_shift d
  value_token := Token.value_shift d
  start_token := Token.start_shift d
  stop_token := Token.stop_shift d
  node_leaf := fun _ _ _ => rfl
  node_container := fun _ _ _ children => ⟨_, rfl, fun _ => Node.shiftAll_eq_map d children⟩
  node_element := by
    intro a b info attributes children
    rw [Node.shift, Node.shiftAll_eq_map, Node.shiftAll_eq_map]

theorem Parsing.Recast.faults_shift (d : Int) (fs : List Fault) :
    (shift d).faults fs = fs.map (Fault.shift d) := by
  have hall : (fs.filter fun f => (shift d).keeps f.start) = fs :=
    List.filter_eq_self.mpr fun _ _ => rfl
  rw [faults, hall]
  rfl

/-! ### A body in its text -/

/-- A part of a body is the same part of the text that the body stands in. -/
theorem Text.slice_append (before body after : List Char) {a b : Int} (ha : 0 ≤ a) (hb : 0 ≤ b)
    (hstop : b ≤ body.length) :
    slice (before ++ body ++ after) (a + before.length) (b + before.length) = slice body a b := by
  obtain ⟨a, rfl⟩ := Int.eq_ofNat_of_zero_le ha
  obtain ⟨b, rfl⟩ := Int.eq_ofNat_of_zero_le hb
  have hlength : b - a ≤ (body.drop a).length := by
    rw [List.length_drop]
    omega
  have hsize : b + before.length - (a + before.length) = b - a := by omega
  show slice _ ((a + before.length : Nat) : Int) ((b + before.length : Nat) : Int) = _
  rw [slice_ofNat, slice_ofNat, hsize, Nat.add_comm a, ← List.drop_drop, List.append_assoc,
    List.drop_left]
  by_cases hle : a ≤ body.length
  · rw [List.drop_append_of_le_length hle, List.take_append_of_le_length hlength]
  · have hnone : b - a = 0 := by omega
    rw [hnone, List.take_zero, List.take_zero]

/-- What the grammar reads of a body in its text is what it reads of the body alone, moved. -/
theorem Language.inputs_shift (language : Language) (config : Config) (detail : Detail)
    (before body after : List Char) :
    (Recast.shift before.length).Inputs (language.input config detail body)
      { tokens := (language.input config detail body).tokens.map (Token.shift before.length)
        source := before ++ body ++ after, detail, config, start := before.length
        stop := before.length + body.length } where
  tokens := rfl
  detail := rfl
  implied := rfl
  start := (Int.zero_add _).symm
  stop := Int.add_comm _ _
  text := by
    intro a b ha hb hstop
    exact congrArg String.ofList (Text.slice_append before body after ha hb hstop)

/-- **A body is analyzed as it would be alone.**  Bounded to the body of a style or script
element, the lexer finds the tokens and faults of the body as a text of its own, and the
grammar its nodes and faults, all moved to where the body begins: whatever text comes before
the body or after it. -/
theorem Language.body_shift {language : Language} (h : language ≠ .markup) (config : Config)
    (detail : Detail) (before body after : List Char) :
    let alone := language.pass config detail body
    let lexing := language.lex detail config.embeddedLanguages (before ++ body ++ after)
      before.length (some (before.length + body.length))
    let parse := language.grammar.parse
      { tokens := lexing.tokens, source := before ++ body ++ after, detail, config
        start := before.length, stop := before.length + body.length }
    lexing = alone.lexing.shift before.length
      ∧ parse.tree.children = alone.parse.tree.children.map (Node.shift before.length)
      ∧ parse.faults = alone.parse.faults.map (Fault.shift before.length) := by
  intro alone lexing parse
  have hlexing : lexing = alone.lexing.shift before.length :=
    lex_shift h detail config.embeddedLanguages before body after
  have htokens : lexing.tokens = alone.lexing.tokens.map (Token.shift before.length) := by
    rw [hlexing]
    rfl
  have hinput := language.inputs_shift config detail before body after
  have hc := language.sound_input config detail body (r := Recast.shift before.length)
    fun _ _ _ => rfl
  have hparse : parse.tree = alone.parse.tree.shift before.length
      ∧ parse.faults = (Recast.shift before.length).faults alone.parse.faults := by
    unfold parse
    rw [htokens]
    cases language with
    | markup => exact absurd rfl h
    | stylesheet => exact Stylesheet.parse_recasts hinput hc
    | script => exact Script.parse_recasts hinput hc
  refine ⟨hlexing, ?_, ?_⟩
  · rw [hparse.1, Node.children_shift]
  · rw [hparse.2, Recast.faults_shift]

theorem Language.body_shift_of_open_block :
    let before := "<style>".toList
    let body := "a\x7b/*".toList
    let after := "*/\x7d</style>".toList
    let lexing := stylesheet.lex .rich true (before ++ body ++ after) before.length
      (some (before.length + body.length))
    let parse := stylesheet.grammar.parse
      { tokens := lexing.tokens, source := before ++ body ++ after
        start := before.length, stop := before.length + body.length }
    stylesheet ≠ .markup
      ∧ lexing.faults = [⟨.unclosed "comment" "*/", 9, 11⟩]
      ∧ parse.faults = [⟨.unclosed "block" "\x7d", 8, 9⟩] := by
  intro before body after lexing parse
  have hlanguage : stylesheet ≠ .markup := by decide
  obtain ⟨hlexing, -, hfaults⟩ := body_shift hlanguage {} .rich before body after
  refine ⟨hlanguage, ?_, ?_⟩
  · exact (congrArg Lexing.faults hlexing).trans (by decide)
  · exact hfaults.trans (by decide)

end SourceView
