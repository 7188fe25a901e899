/-
Embedded code leaves the markup around it alone.

Two passes over a text of markup are compared, one that reads bodies in their own language and
one that does not.  Their lexers are compared in `Proofs/Markup/Bodies.lean`: the second finds
the tokens of the first, made hollow.  To make tokens hollow, and raw text in the tree, is a
recast, so the grammar takes the same steps.  It stops to parse a body only in the first pass;
that parse is over when the body is, and all that is left of it are children of the raw text
and faults.

Those faults begin in raw text, so they are not told.  For every fault of a grammar begins
where one of its tokens does: to leave out all others is a recast as well, one that changes
nothing else, so a parse told otherwise in that way has the same faults.
-/
import SourceView.Proofs.Embedding.Shift
import SourceView.Proofs.Markup.Bodies

namespace SourceView

open Parsing Parsing.Cursor

/-! ### Hollow trees -/

mutual

/-- The node with nothing in any raw text. -/
def Node.hollow : Node → Node
  | leaf a b info => leaf a b info
  | container a b (.rawText language) _ => container a b (.rawText language) []
  | container a b info children => container a b info (hollowAll children)
  | element a b info attributes children =>
    element a b info (hollowAll attributes) (hollowAll children)

/-- The nodes with nothing in any raw text. -/
def Node.hollowAll : List Node → List Node
  | [] => []
  | node :: nodes => node.hollow :: hollowAll nodes

end

theorem Node.hollowAll_eq_map (nodes : List Node) : hollowAll nodes = nodes.map hollow := by
  induction nodes with
  | nil => rfl
  | cons node nodes ih => rw [hollowAll, ih, List.map_cons]

namespace Parsing.Recast

/-- Raw text is told without what is in it, and the faults that `keeps` lets pass. -/
def hollow (keeps : Int → Bool) : Recast where
  offset := 0
  token := Token.hollow
  node := Node.hollow
  keeps := keeps
  kind_token := fun _ => rfl
  value_token := fun _ => rfl
  start_token := fun t => (Int.add_zero t.start).symm
  stop_token := fun t => (Int.add_zero t.stop).symm
  node_leaf := fun a b _ => by rw [Int.add_zero, Int.add_zero, Node.hollow]
  node_container := by
    intro a b info children
    rw [Int.add_zero, Int.add_zero]
    cases info with
    | rawText language => exact ⟨[], by rw [Node.hollow], fun h => absurd rfl (h language)⟩
    | _ => exact ⟨_, by rw [Node.hollow]; simp, fun _ => Node.hollowAll_eq_map children⟩
  node_element := by
    intro a b info attributes children
    rw [Int.add_zero, Int.add_zero, Node.hollow, Node.hollowAll_eq_map, Node.hollowAll_eq_map]

/-- Everything is told as it is, but for the faults that `keeps` does not let pass. -/
def filter (keeps : Int → Bool) : Recast where
  offset := 0
  token := id
  node := id
  keeps := keeps
  kind_token := fun _ => rfl
  value_token := fun _ => rfl
  start_token := fun t => (Int.add_zero t.start).symm
  stop_token := fun t => (Int.add_zero t.stop).symm
  node_leaf := fun a b _ => by rw [Int.add_zero, Int.add_zero]; rfl
  node_container := fun a b _ children =>
    ⟨children, by rw [Int.add_zero, Int.add_zero]; rfl, fun _ => (List.map_id children).symm⟩
  node_element := by
    intro a b info attributes children
    rw [Int.add_zero, Int.add_zero, List.map_id, List.map_id]
    rfl

variable {r : Recast} {input input' : Input} {c : Cursor}

theorem shift_zero : Fault.shift 0 = id := by
  funext f
  rw [Fault.shift, Int.add_zero, Int.add_zero]
  rfl

theorem faults_of_offset_zero (h : r.offset = 0) (fs : List Fault) :
    r.faults fs = fs.filter fun f => r.keeps f.start := by
  rw [faults, h, shift_zero, List.map_id]

/-- Faults that are not told leave the cursor as it is, and so do reports. -/
theorem cursor_untold {fs : List Fault} (h : ∀ f ∈ fs, r.keeps f.start = false) (c : Cursor)
    (reports : List Report) :
    r.cursor { c with faults := fs.reverse ++ c.faults, reports } = r.cursor c := by
  have hnone : r.faults fs = [] := by
    rw [faults, List.filter_eq_nil_iff.mpr fun f hf => by simp [h f hf], List.map_nil]
  rw [cursor, faults_append, faults_reverse, hnone]
  rfl

theorem inputs_filter (keeps : Int → Bool) (input : Input) : (filter keeps).Inputs input input where
  tokens := (List.map_id input.tokens).symm
  detail := rfl
  implied := rfl
  start := (Int.add_zero _).symm
  stop := (Int.add_zero _).symm
  text := fun a b _ _ _ => by
    show input.text (a + 0) (b + 0) = input.text a b
    rw [Int.add_zero, Int.add_zero]

end Parsing.Recast

/-! ### Faults of bodies -/

namespace Markup

variable {r : Recast} {input input' : Input} {t : Token} {source : List Char}

/-- What the grammar of a body reads: the tokens of the body, within its raw text. -/
abbrev bodyInput (input : Input) (t : Token) : Input :=
  { input with tokens := t.embedded, start := t.start, stop := t.stop }

/-- Every fault of a body begins where one of its tokens does. -/
theorem embeddedGrammar?_faults {language : String} {g : Grammar Rule}
    (h : embeddedGrammar? language = some g)
    (hc : ∀ r : Recast, (∀ t ∈ input.tokens, t.kind ≠ .rawText → r.keeps t.start = true) →
      r.Sound input input.cursor) :
    ∀ f ∈ (g.parse input).faults, ∃ u ∈ input.tokens, u.start = f.start := by
  let keeps (x : Int) : Bool := input.tokens.any fun u => u.start == x
  have hinput := Recast.inputs_filter keeps input
  have hsound := hc (.filter keeps) fun t ht _ =>
    List.any_eq_true.mpr ⟨t, ht, beq_self_eq_true t.start⟩
  have hfaults : (g.parse input).faults = (Recast.filter keeps).faults (g.parse input).faults := by
    unfold embeddedGrammar? at h
    split at h
    · exact Option.some.inj h ▸ (Stylesheet.parse_recasts hinput hsound).2
    · exact Option.some.inj h ▸ (Script.parse_recasts hinput hsound).2
    · exact absurd h (by simp)
  intro f hf
  rw [hfaults, Recast.faults_of_offset_zero rfl] at hf
  obtain ⟨u, hu, hstart⟩ := List.any_eq_true.mp (List.mem_filter.mp hf).2
  exact ⟨u, hu, beq_iff_eq.mp hstart⟩

/-- Every fault of a body begins in the raw text that the body is. -/
theorem rawText_faults (input : Input) (hhold : t.Holds input.detail.gap source)
    (hbody : InBody input.detail t.stop t.embedded) (hne : t.embedded ≠ []) {g : Grammar Rule}
    (hg : embeddedGrammar? t.language = some g) :
    ∀ f ∈ (g.parse (bodyInput input t)).faults, t.start ≤ f.start ∧ f.start < t.stop := by
  have hlaid := hhold.laid.resolve_left hne
  have horder := Detail.inOrder_of_laid hlaid
  have hsound (r : Recast) (hkept : ∀ u ∈ t.embedded, u.kind ≠ .rawText → r.keeps u.start = true) :
      r.Sound (bodyInput input t) (bodyInput input t).cursor := by
    refine Recast.sound_cursor horder hkept ?_ ?_
    · intro (hrich : input.detail = .rich)
      rw [hrich] at hlaid
      exact ⟨hlaid, fun u hu => Or.inl (hhold.plain u hu)⟩
    · exact fun hstructural u hu => (hbody u hu).2 hstructural
  intro f hf
  obtain ⟨u, hu, hstart⟩ := embeddedGrammar?_faults hg hsound f hf
  rw [← hstart]
  exact ⟨(horder.mem u hu).1, (hbody u hu).1⟩

/-! ### The grammar of markup -/

/-- Raw text is told without what is in it, if the faults of its body are not told. -/
theorem recasts_rawText {keeps : Int → Bool} {input' : Input}
    (h : ∀ t ∈ input.tokens, t.kind = .rawText → t.embedded ≠ [] → ∀ g,
      embeddedGrammar? t.language = some g →
        ∀ f ∈ (g.parse (bodyInput input t)).faults, keeps f.start = false) :
    (Recast.hollow keeps).Recasts input (rawText input) (rawText input') := by
  refine { fits_rawText with recasts := ?_ }
  intro c hc
  simp only [rawText, Recast.acceptKind?_cursor]
  cases haccept : c.acceptKind? .rawText with
  | none => rfl
  | some found =>
      obtain ⟨t, after⟩ := found
      obtain ⟨hkind, -, rfl, hahead⟩ := accept?_eq_some haccept
      have ht := hc.known t (by simp [hahead])
      have hembedded : ((Recast.hollow keeps).token t).embedded.isEmpty = true := rfl
      simp only [Option.map_some, Prod.map, hembedded, if_true]
      by_cases hempty : t.embedded.isEmpty = true
      · rw [if_pos hempty]
        rfl
      · rw [if_neg hempty]
        cases hg : embeddedGrammar? t.language with
        | none => rfl
        | some g =>
            have hne : t.embedded ≠ [] := fun hnil => hempty (by rw [hnil]; rfl)
            simp only [Option.map_some, Recast.read,
              Recast.cursor_untold (r := Recast.hollow keeps) (h t ht hkind hne g hg)]
            rfl

theorem recasts_derive (hinput : r.Inputs input input')
    (hraw : r.Recasts input (rawText input) (rawText input')) {self self' : Symbol → Production}
    (hself : ∀ s, s ≠ .document → r.Recasts input (self s) (self' s)) :
    r.Recasts input (choice (Symbol.outer.map self)) (choice (Symbol.outer.map self'))
      ∧ ∀ s, s ≠ .document → r.Recasts input (derive input self s) (derive input' self' s) := by
  have houter : r.Recasts input (choice (Symbol.outer.map self))
      (choice (Symbol.outer.map self')) := by
    refine Recast.Recasts.choice_map fun t ht => hself t ?_
    rintro rfl
    simp [Symbol.outer] at ht
  have hchildren : r.Recasts input (choice (Symbol.children.map self))
      (choice (Symbol.children.map self')) := by
    refine Recast.Recasts.choice_map fun t ht => hself t ?_
    rintro rfl
    simp [Symbol.children] at ht
  refine ⟨houter, fun s hs => ?_⟩
  cases s with
  | document => exact absurd rfl hs
  | comment => exact Recast.recasts_comment
  | element => exact Recast.recasts_element hinput Dialect.markup hchildren Recast.recasts_nothing
  | text => exact Recast.recasts_text hinput
  | rawText => exact hraw

theorem recasts_readWithin (hinput : r.Inputs input input')
    (hraw : r.Recasts input (rawText input) (rawText input')) (height : Nat) (s : Symbol)
    (hs : s ≠ .document) :
    r.Recasts input (readWithin input height s) (readWithin input' height s) := by
  induction height generalizing s with
  | zero => exact Recast.recasts_nothing
  | succ height ih => exact (recasts_derive hinput hraw ih).2 s hs

/-- The parse of markup that is told otherwise is the parse of it, told otherwise, if raw text
is. -/
theorem parse_recasts (hinput : r.Inputs input input')
    (hraw : r.Recasts input (rawText input) (rawText input'))
    (hc : r.Sound input input.cursor) :
    (grammar.parse input').tree = r.node (grammar.parse input).tree
      ∧ (grammar.parse input').faults = r.faults (grammar.parse input).faults := by
  rw [parse_eq, parse_eq, hinput.bound]
  exact Parse.recasts_ofItems hinput
    (recasts_derive hinput hraw (recasts_readWithin hinput hraw _)).1 hc grammar

end Markup

/-! ### Passes over markup -/

/-- What the grammar reads of markup without bodies is what it reads with them, made hollow. -/
theorem Language.inputs_hollow (keeps : Int → Bool) (config : Config) (detail : Detail)
    (source : List Char) :
    (Recast.hollow keeps).Inputs
      (markup.input { config with embeddedLanguages := true } detail source)
      (markup.input { config with embeddedLanguages := false } detail source) where
  tokens := congrArg Lexing.tokens (lex_markup_hollow detail source 0 none)
  detail := rfl
  implied := rfl
  start := (Int.add_zero _).symm
  stop := (Int.add_zero _).symm
  text := by
    intro a b _ _ _
    show String.ofList (Text.slice source (a + 0) (b + 0)) = String.ofList (Text.slice source a b)
    rw [Int.add_zero, Int.add_zero]

/-- The faults of a body are not among those that begin outside of raw text. -/
theorem Language.body_faults (config : Config) (detail : Detail) (source : List Char) :
    let input := markup.input { config with embeddedLanguages := true } detail source
    ∀ t ∈ input.tokens, t.kind = .rawText → t.embedded ≠ [] → ∀ g,
      Markup.embeddedGrammar? t.language = some g →
        ∀ f ∈ (g.parse (Markup.bodyInput input t)).faults,
          Token.outsideRaw input.tokens f.start = false := by
  intro input t ht hkind hne g hg f hf
  have hcovers := markup.lex_covers detail true (Nat.zero_le _) (Nat.le_refl source.length)
  rw [← lex_none] at hcovers
  obtain ⟨hstart, hstop⟩ := Markup.rawText_faults input (hcovers.holds t ht)
    (lex_markup_inBody detail source 0 none true t ht) hne hg f hf
  exact (lex_markup_tells detail source 0 none).inside t ht hkind f.start hstart hstop

/-- **Embedded code leaves the markup around it alone.**  A pass over markup that does not read
bodies finds the tokens and the tree of the pass that does, with nothing in its raw text, and
the same faults in the same order, but for those that begin in raw text. -/
theorem Language.pass_hollow (config : Config) (detail : Detail) (source : List Char) :
    let on := markup.pass { config with embeddedLanguages := true } detail source
    let off := markup.pass { config with embeddedLanguages := false } detail source
    let outside (f : Fault) := Token.outsideRaw on.lexing.tokens f.start
    off.lexing.tokens = on.lexing.tokens.map Token.hollow
      ∧ off.parse.tree = on.parse.tree.hollow
      ∧ off.lexing.faults = on.lexing.faults.filter outside
      ∧ off.parse.faults = on.parse.faults.filter outside := by
  intro on off outside
  have hlexing : off.lexing = on.lexing.hollow := lex_markup_hollow detail source 0 none
  obtain ⟨htree, hfaults⟩ := Markup.parse_recasts
    (inputs_hollow (Token.outsideRaw on.lexing.tokens) config detail source)
    (Markup.recasts_rawText (body_faults config detail source))
    (markup.sound_input _ detail source (lex_markup_tells detail source 0 none).outside)
  refine ⟨congrArg Lexing.tokens hlexing, htree, congrArg Lexing.faults hlexing, ?_⟩
  exact hfaults.trans (Recast.faults_of_offset_zero rfl _)

/-- Only a pass that reads bodies tells of the open brace; both tell of the missing end tag. -/
example :
    let faults (embed : Bool) := (Language.markup.pass { embeddedLanguages := embed } .rich
      "<p><style>a\x7b".toList).parse.faults.map fun f => (f.start, f.stop)
    faults true = [(11, 12), (3, 9)] ∧ faults false = [(3, 9)] := by
  decide +kernel

end SourceView
