/-
Stylesheets that are told otherwise.

The table of the places where a rule may start is a matter of the kinds of the tokens alone.
The texts that a stylesheet's nodes record, selectors, queries and values, are cut from the
source from one token or group to another; that their spans lie in the range of the input is
carried through the loops that find them.
-/
import SourceView.Proofs.Parsing.Recast

namespace SourceView.Stylesheet

open Parsing Parsing.Cursor Parsing.Recast

variable {r : Recast} {input input' : Input} {c : Cursor} {p p' block block' : Production}

/-! ### Where a rule may start -/

theorem closedGroups_map (r : Recast) (waiting : List Nat) (index : Nat) (ts : List Token) :
    closedGroups waiting index (ts.map r.token) = closedGroups waiting index ts := by
  induction ts generalizing waiting index with
  | nil => rfl
  | cons t ts ih => simp only [List.map_cons, closedGroups, r.kind_token, ih]

theorem ruleStartsFrom_map (r : Recast) (past : Nat → Option Nat) (index : Nat)
    (ts : List Token) : ruleStartsFrom past index (ts.map r.token) = ruleStartsFrom past index ts := by
  induction ts generalizing index with
  | nil => rfl
  | cons t ts ih => simp only [List.map_cons, ruleStartsFrom, r.kind_token, ih]

theorem ruleStarts_map (r : Recast) (ts : List Token) : ruleStarts (ts.map r.token) = ruleStarts ts := by
  simp only [ruleStarts, ruleStartsFrom_map, groupEnds, closedGroups_map, List.length_map]

/-! ### Rules -/

/-- An offset that lies in the range of the input. -/
def Within (input : Input) (offset : Int) : Prop :=
  input.start ≤ offset ∧ offset ≤ input.stop

theorem within_token {t : Token} {rest : List Token} (hc : r.Sound input c)
    (hahead : c.ahead = t :: rest) : Within input t.start ∧ Within input t.stop := by
  have hstart := hc.begun_start hahead
  have hspan := hc.ordered.span hahead
  have hstop := Int.le_trans (hc.ordered.stop_le hahead) hc.advance.ordered.unclosedEnd_le_stop
  exact ⟨⟨hstart, Int.le_trans hspan hstop⟩, Int.le_trans hstart hspan, hstop⟩

theorem within_node {node : Node} {d : Cursor} (h : r.Recasts input p p')
    (hc : r.Sound input c) (hrich : input.rich = true) (hnode : p c = some (node, d)) :
    Within input node.start ∧ Within input node.stop := by
  obtain ⟨hstart, hspan, hstop⟩ := h.span hc hrich hnode
  exact ⟨⟨hstart, Int.le_trans hspan hstop⟩, Int.le_trans hstart hspan, hstop⟩

/-- The source between two offsets in range is told alike. -/
theorem text_within (hinput : r.Inputs input input') {a b : Int} (ha : Within input a)
    (hb : Within input b) :
    input'.text (a + r.offset) (b + r.offset) = input.text a b :=
  hinput.text a b ha.1 hb.1 hb.2

def Head.recast (r : Recast) (head : Head) : Head :=
  { stop := head.stop.map (· + r.offset), children := head.children.map r.node
    cursor := r.cursor head.cursor }

theorem headLoop_recasts (h : r.Recasts input p p') (stop : Option Int) (turns : Nat)
    (hc : r.Sound input c) :
    headLoop p' (stop.map (· + r.offset)) turns (r.cursor c)
      = (headLoop p stop turns c).recast r := by
  induction turns generalizing stop c with
  | zero => rfl
  | succ turns ih =>
      have hc' := hc.skipTrivia
      simp only [headLoop, skipTrivia_cursor, peek?_cursor]
      cases hpeek : c.skipTrivia.peek? with
      | none => rfl
      | some t =>
          simp only [Option.map_some, r.kind_token, r.stop_token, advance_cursor]
          by_cases hend : t.kind = .blockOpen ∨ endsStatement t.kind = true
            ∨ t.kind.isCloser = true
          · rw [if_pos hend, if_pos hend]
            rfl
          rw [if_neg hend, if_neg hend]
          by_cases hgroup : (opensGroup t.kind || t.kind == .comment) = true
          · rw [if_pos hgroup, if_pos hgroup, h.recasts hc']
            cases hnode : p c.skipTrivia with
            | none => exact ih (some t.stop) hc'.advance
            | some found =>
                have hmore := ih (some found.1.stop) (h.sound hc' hnode)
                rw [Option.map_some] at hmore
                simp only [Option.map_some, Recast.read, r.stop_node, hmore]
                rfl
          · rw [if_neg hgroup, if_neg hgroup]
            exact ih (some t.stop) hc'.advance

/-- What a head ends with lies in the range of the input. -/
theorem headLoop_within (h : r.Recasts input p p') (hrich : input.rich = true)
    (stop : Option Int) (hstop : ∀ b ∈ stop, Within input b) (turns : Nat)
    (hc : r.Sound input c) : ∀ b ∈ (headLoop p stop turns c).stop, Within input b := by
  have hrun := headRun p turns stop c
  generalize headLoop p stop turns c = head at hrun
  induction hrun with
  | spent | ended | stopped => exact hstop
  | node _ _ _ hnode _ ih =>
      refine ih ?_ (h.sound hc.skipTrivia hnode)
      rintro _ ⟨⟩
      exact (within_node h hc.skipTrivia hrich hnode).2
  | piece hahead _ _ _ ih =>
      refine ih ?_ hc.skipTrivia.advance
      rintro _ ⟨⟩
      exact (within_token hc.skipTrivia hahead).2

theorem ruleStart?_cursor (hinput : r.Inputs input input') (starts : Array Bool) (c : Cursor) :
    ruleStart? input' starts (r.cursor c) = (ruleStart? input starts c).map r.token := by
  simp only [ruleStart?, peek?_cursor, Option.filter_map, Function.comp_def, r.kind_token,
    hinput.rich, pos_cursor]

theorem recasts_rule (hinput : r.Inputs input input') (starts : Array Bool)
    (h : r.Recasts input p p') (hblock : r.Recasts input block block') :
    r.Recasts input (rule input starts p block) (rule input' starts p' block') := by
  refine { fits_rule starts h.toFits hblock.toFits with recasts := ?_ }
  refine fun {c} hc => Attempt.read_recasts ?_
  simp only [tryRule, ruleStart?_cursor hinput, hinput.bound]
  cases hstart : ruleStart? input starts c with
  | none => rfl
  | some first =>
      obtain ⟨hpeek, hrich, -, -⟩ := ruleStart?_eq_some.mp hstart
      obtain ⟨rest, hahead⟩ := ahead_of_peek? hpeek
      have hloop : headLoop p' none input.bound (r.cursor c)
          = (headLoop p none input.bound c).recast r := headLoop_recasts h none input.bound hc
      have hwithin := headLoop_within h hrich none (by simp) input.bound hc
      have hafter := (hc.leads (leads_headLoop h.toMoves none input.bound c)).skipTrivia
      simp only [Option.map_some, r.start_token, hloop, Head.recast]
      cases hstop : (headLoop p none input.bound c).stop with
      | none => rfl
      | some stop =>
          have htext := text_within hinput (within_token hc hahead).1 (hwithin stop hstop)
          simp only [Option.map_some, skipTrivia_cursor, hblock.recasts hafter, htext]
          cases hnode : block (headLoop p none input.bound c).cursor.skipTrivia with
          | none => rfl
          | some found =>
              obtain ⟨node, d⟩ := found
              cases node with
              | leaf a b info => simp only [Option.map_some, Recast.read, r.node_leaf]; rfl
              | element a b info us xs =>
                  simp only [Option.map_some, Recast.read, r.node_element]; rfl
              | container a b info children =>
                  obtain ⟨children', hinfo, -⟩ := r.node_container a b info children
                  simp only [Option.map_some, Recast.read, hinfo]
                  cases info with
                  | block closed =>
                      simp only [outcome_ok, Recast.read,
                        r.node_container_of_ne (.rule _ _) (by simp), List.map_append,
                        List.map_cons, List.map_nil, hinfo]
                  | _ => rfl

/-- What becomes of an at-rule once its head is read: it ends with a semicolon, with a block, or
with its head. -/
def atRuleEnd (start stop : Int) (name query : String) (children : List Node) (c : Cursor)
    (semicolon : Option (Token × Cursor)) (block : Option (Node × Cursor)) :
    Option (Node × Cursor) :=
  match semicolon with
  | some (semicolon, c) =>
    some (.container start semicolon.stop (.atRule name query false true) children, c)
  | none =>
    match block with
    | some (.container a b (.block closed) inner, c) =>
      some (.container start b (.atRule name query true closed)
        (children ++ [.container a b (.block closed) inner]), c)
    | _ => some (.container start stop (.atRule name query false true) children, c)

theorem atRuleEnd_recasts (r : Recast) (start stop : Int) (name query : String)
    (children : List Node) (c : Cursor) (semicolon : Option (Token × Cursor))
    (block : Option (Node × Cursor)) :
    atRuleEnd (start + r.offset) (stop + r.offset) name query (children.map r.node) (r.cursor c)
        (semicolon.map (Prod.map r.token r.cursor)) (block.map r.read)
      = (atRuleEnd start stop name query children c semicolon block).map r.read := by
  have hnode (stop : Int) (hasBlock closed : Bool) (children : List Node) :=
    r.node_container_of_ne (.atRule name query hasBlock closed) (by simp) start stop children
  cases semicolon with
  | some found =>
      simp only [atRuleEnd, Option.map_some, Prod.map, Recast.read, r.stop_token, hnode]
  | none =>
      rcases block with - | ⟨node, d⟩
      · simp only [atRuleEnd, Option.map_none, Option.map_some, Recast.read, hnode]
      cases node with
      | leaf a b info =>
          simp only [atRuleEnd, Option.map_none, Option.map_some, Recast.read, r.node_leaf, hnode]
      | element a b info us xs =>
          simp only [atRuleEnd, Option.map_none, Option.map_some, Recast.read, r.node_element, hnode]
      | container a b info inner =>
          obtain ⟨inner', hinfo, -⟩ := r.node_container a b info inner
          cases info with
          | block closed =>
              simp only [atRuleEnd, Option.map_none, Option.map_some, Recast.read, hnode, hinfo,
                List.map_append, List.map_cons, List.map_nil]
          | _ => simp only [atRuleEnd, Option.map_none, Option.map_some, Recast.read, hnode, hinfo]

theorem atKeyword?_cursor (hinput : r.Inputs input input') (c : Cursor) :
    atKeyword? input' (r.cursor c) = (atKeyword? input c).map (Prod.map r.token r.cursor) := by
  simp only [atKeyword?, hinput.rich, acceptKind?_cursor]
  split <;> rfl

theorem recasts_atRule (hinput : r.Inputs input input') (h : r.Recasts input p p')
    (hblock : r.Recasts input block block') :
    r.Recasts input (atRule input p block) (atRule input' p' block') := by
  refine { fits_atRule h.toFits hblock.toFits with recasts := ?_ }
  intro c hc
  simp only [atRule, atKeyword?_cursor hinput, hinput.bound]
  cases hkeyword : atKeyword? input c with
  | none => rfl
  | some found =>
      obtain ⟨keyword, after⟩ := found
      obtain ⟨hrich, haccept⟩ := atKeyword?_eq_some.mp hkeyword
      obtain ⟨-, -, rfl, hahead⟩ := accept?_eq_some haccept
      have hloop : headLoop p' none input.bound (r.cursor c.advance)
          = (headLoop p none input.bound c.advance).recast r :=
        headLoop_recasts h none input.bound hc.advance
      have hwithin := headLoop_within h hrich none (by simp) input.bound hc.advance
      have hafter := (hc.advance.leads
        (leads_headLoop h.toMoves none input.bound c.advance)).skipTrivia
      simp only [Option.map_some, Prod.map, hloop, Head.recast, r.value_token, r.start_token,
        r.stop_token, skipTrivia_cursor, acceptKind?_cursor, hblock.recasts hafter]
      cases hstop : (headLoop p none input.bound c.advance).stop with
      | none => exact atRuleEnd_recasts ..
      | some stop =>
          simp only [Option.map_some,
            text_within hinput (within_token hc hahead).2 (hwithin stop hstop)]
          exact atRuleEnd_recasts ..

/-! ### Declarations -/

def Value.recast (r : Recast) (v : Value) : Value :=
  { span := v.span.map fun (a, b) => (a + r.offset, b + r.offset), important := v.important
    stop := v.stop + r.offset, cursor := r.cursor v.cursor }

theorem Value.extend_recast (r : Recast) (v : Value) (start stop : Int) (c : Cursor) :
    (v.recast r).extend (start + r.offset) (stop + r.offset) (r.cursor c)
      = (v.extend start stop c).recast r := by
  unfold Value.extend Value.recast
  cases v.span <;> rfl

theorem isImportant_token (r : Recast) (t : Token) : isImportant (r.token t) = isImportant t := by
  rw [isImportant, isImportant, r.kind_token, r.value_token]

theorem valueLoop_recasts (h : r.Recasts input p p') (turns : Nat) {v : Value}
    (hv : r.Sound input v.cursor) :
    valueLoop p' turns (v.recast r) = r.outcome (Value.recast r) (valueLoop p turns v) := by
  induction turns generalizing v with
  | zero => rfl
  | succ turns ih =>
      have hc := hv.skipTrivia
      have hcursor : (v.recast r).cursor = r.cursor v.cursor := rfl
      simp only [valueLoop, hcursor, skipTrivia_cursor, peek?_cursor]
      cases hpeek : v.cursor.skipTrivia.peek? with
      | none => rfl
      | some t =>
          simp only [Option.map_some, r.kind_token, r.start_token, r.stop_token, advance_cursor,
            isImportant_token]
          split
          · rfl
          split
          · rfl
          split
          · rfl
          split
          · rfl
          split
          · exact ih (v := { v with important := true, stop := t.stop
                                    cursor := v.cursor.skipTrivia.advance }) hc.advance
          by_cases hgroup : opensGroup t.kind = true
          · rw [if_pos hgroup, if_pos hgroup, h.recasts hc]
            cases hnode : p v.cursor.skipTrivia with
            | none =>
                simp only [Option.map_none, Value.extend_recast]
                exact ih hc.advance
            | some found =>
                simp only [Option.map_some, Recast.read, r.start_node, r.stop_node,
                  Value.extend_recast]
                exact ih (h.sound hc hnode)
          · rw [if_neg hgroup, if_neg hgroup]
            simp only [Value.extend_recast]
            exact ih hc.advance

/-- The span of a value lies in the range of the input. -/
def Value.Within (input : Input) (v : Value) : Prop :=
  ∀ s ∈ v.span, Stylesheet.Within input s.1 ∧ Stylesheet.Within input s.2

theorem Value.Within.extend {v : Value} (hv : v.Within input) {start stop : Int}
    (hstart : Stylesheet.Within input start) (hstop : Stylesheet.Within input stop) (c : Cursor) :
    (v.extend start stop c).Within input := by
  rintro _ ⟨⟩
  refine ⟨?_, hstop⟩
  cases hspan : v.span with
  | none => exact hstart
  | some s => exact (hv s hspan).1

theorem valueLoop_within (h : r.Recasts input p p') (hrich : input.rich = true) {turns : Nat}
    {v w : Value} (hloop : valueLoop p turns v = .ok w) (hv : r.Sound input v.cursor)
    (hwithin : v.Within input) : w.Within input := by
  have hrun := valueRun p turns v
  rw [hloop] at hrun
  clear hloop
  generalize hfound : Except.ok w = found at hrun
  induction hrun with
  | spent | ended | closed | semicolon =>
      cases hfound
      exact hwithin
  | opened => cases hfound
  | important _ _ _ _ ih => exact ih hv.skipTrivia.advance hwithin hfound
  | group _ _ _ _ hnode _ ih =>
      obtain ⟨hfrom, hto⟩ := within_node h hv.skipTrivia hrich hnode
      exact ih (h.sound hv.skipTrivia hnode) (hwithin.extend hfrom hto _) hfound
  | piece hahead _ _ _ _ ih =>
      obtain ⟨hstart, hstop⟩ := within_token hv.skipTrivia hahead
      exact ih hv.skipTrivia.advance (hwithin.extend hstart hstop _) hfound

theorem declarationStart_cursor (hinput : r.Inputs input input') (c : Cursor) :
    declarationStart input' (r.cursor c)
      = r.outcome (Prod.map r.token (Value.recast r)) (declarationStart input c) := by
  simp only [declarationStart, peek?_cursor, hinput.rich]
  cases c.peek? with
  | none => rfl
  | some property =>
      simp only [Option.map_some, r.kind_token, advance_cursor, skipTrivia_cursor,
        acceptKind?_cursor]
      split
      · rfl
      cases c.advance.skipTrivia.acceptKind? .colon with
      | none => rfl
      | some found =>
          simp only [Option.map_some, Prod.map, hinput.previousEnd]
          rfl

theorem recasts_declaration (hinput : r.Inputs input input') (h : r.Recasts input p p') :
    r.Recasts input (declaration input p) (declaration input' p') := by
  refine { fits_declaration h.toFits with recasts := ?_ }
  refine fun {c} hc => Attempt.read_recasts ?_
  simp only [tryDeclaration, declarationStart_cursor hinput, hinput.bound]
  cases hstart : declarationStart input c with
  | error d => rfl
  | ok found =>
      obtain ⟨property, v⟩ := found
      have hv := hc.leads (steps_declarationStart hstart).leads
      obtain ⟨-, hrich, -, colon, d, -, rfl⟩ := declarationStart_eq_ok.mp hstart
      simp only [outcome_ok, Prod.map,
        valueLoop_recasts h input.bound hv]
      cases hvalue : valueLoop p input.bound { stop := d.previousEnd input, cursor := d } with
      | error d => rfl
      | ok v =>
          have hwithin : v.Within input :=
            valueLoop_within h hrich hvalue hv (by simp [Value.Within])
          simp only [outcome_ok, Recast.read, r.node_leaf, Value.recast, r.value_token, r.start_token]
          cases hspan : v.span with
          | none => rfl
          | some s =>
              obtain ⟨hfrom, hto⟩ := hwithin s hspan
              simp only [Option.map_some, text_within hinput hfrom hto]

/-! ### Symbols and parses -/

theorem recasts_derive (hinput : r.Inputs input input') (starts : Array Bool)
    {self self' : Symbol → Production}
    (hself : ∀ s, s ≠ .document → r.Recasts input (self s) (self' s)) :
    r.Recasts input (derive.statement input self) (derive.statement input' self')
      ∧ ∀ s, s ≠ .document →
        r.Recasts input (derive input starts self s) (derive input' starts self' s) := by
  have hstructures : r.Recasts input (derive.structures self) (derive.structures self') := by
    refine Recasts.choice_map fun t ht => hself t ?_
    rintro rfl
    simp [Symbol.structures] at ht
  have hstatement : r.Recasts input (derive.statement input self)
      (derive.statement input' self') := by
    unfold derive.statement
    rw [hinput.rich]
    refine Recasts.choice_map fun t ht => hself t ?_
    rintro rfl
    by_cases hrich : input.rich = true <;>
      simp [hrich, Symbol.structures, Symbol.statements] at ht
  refine ⟨hstatement, fun s hs => ?_⟩
  cases s with
  | document => exact absurd rfl hs
  | comment => exact recasts_comment
  | block => exact recasts_group hinput .block (by decide) (by simp [Group.block]) hstatement
  | parentheses =>
      exact recasts_group hinput .parentheses (by decide) (by simp [Group.parentheses]) hstructures
  | brackets =>
      exact recasts_group hinput .brackets (by decide) (by simp [Group.brackets]) hstructures
  | rule => exact recasts_rule hinput starts hstructures (hself .block (by simp))
  | atRule => exact recasts_atRule hinput hstructures (hself .block (by simp))
  | declaration => exact recasts_declaration hinput hstructures

theorem recasts_readWithin (hinput : r.Inputs input input') (starts : Array Bool) (height : Nat)
    (s : Symbol) (hs : s ≠ .document) :
    r.Recasts input (readWithin input starts height s) (readWithin input' starts height s) := by
  induction height generalizing s with
  | zero => exact recasts_nothing
  | succ height ih => exact (recasts_derive hinput starts ih).2 s hs

/-- **The parse of a stylesheet that is told otherwise is the parse of it, told otherwise.** -/
theorem parse_recasts (hinput : r.Inputs input input') (hc : r.Sound input input.cursor) :
    (grammar.parse input').tree = r.node (grammar.parse input).tree
      ∧ (grammar.parse input').faults = r.faults (grammar.parse input).faults := by
  rw [parse_eq, parse_eq, hinput.tokens, ruleStarts_map, hinput.bound]
  have hread := recasts_readWithin hinput (ruleStarts input.tokens).toArray (3 * input.bound)
  exact Parse.recasts_ofItems hinput
    (recasts_derive hinput (ruleStarts input.tokens).toArray hread).1 hc grammar

end SourceView.Stylesheet
