/-
Scripts that are told otherwise.

No text of a script's nodes is cut from the source, except the value of an attribute, which is
settled with elements.  Where a statement ends depends on the kinds and texts of its tokens and
on the classes of the nodes inside of it, and those are told alike.
-/
import SourceView.Proofs.Parsing.ElementRecast

namespace SourceView.Script

open Parsing Parsing.Cursor Parsing.Recast

variable {r : Recast} {input input' : Input} {c : Cursor}
variable {p p' parentheses parentheses' block block' : Production}

/-! ### Templates -/

def TemplateRead.recast (r : Recast) (read : TemplateRead) : TemplateRead :=
  { children := read.children.map r.node, stop := read.stop.map (· + r.offset)
    cursor := r.cursor read.cursor }

theorem templateLoop_recasts (hinput : r.Inputs input input') (h : r.Recasts input p p')
    (turns : Nat) (hc : r.Sound input c) :
    templateLoop input' p' turns (r.cursor c) = (templateLoop input p turns c).recast r := by
  induction turns generalizing c with
  | zero => rfl
  | succ turns ih =>
      simp only [templateLoop, peek?_cursor]
      cases hpeek : c.peek? with
      | none => rfl
      | some t =>
          simp only [Option.map_some, r.kind_token, r.start_token, r.stop_token, advance_cursor]
          by_cases hend : t.kind = .templateEnd
          · rw [if_pos hend, if_pos hend]
            rfl
          rw [if_neg hend, if_neg hend]
          by_cases hcloser : t.kind.isCloser = true
          · rw [if_pos hcloser, if_pos hcloser]
            rfl
          rw [if_neg hcloser, if_neg hcloser]
          by_cases hopen : t.kind = .templateExprOpen
          · have hinner := hc.advance.push { closer := .templateExprClose, start := t.start }
            have hafter : r.Sound input ((Parsing.items input p (some .templateExprClose)
                (c.advance.push { closer := .templateExprClose, start := t.start })).cursor.closeTo
                  c.advance) :=
              hc.advance.leads
                (leads_itemsLoop h.toMoves (some .templateExprClose) input.bound _).close
            rw [if_pos hopen, if_pos hopen, push_cursor, items_recasts hinput h _ hinner]
            simp only [Recast.items, closeTo_cursor]
            cases hfound : (Parsing.items input p (some .templateExprClose)
                (c.advance.push { closer := .templateExprClose, start := t.start })).closer with
            | none => rfl
            | some u =>
                simp only [Option.map_some, ih hafter, TemplateRead.recast, List.map_append]
          · rw [if_neg hopen, if_neg hopen]
            exact ih hc.advance

theorem recasts_template (hinput : r.Inputs input input') (h : r.Recasts input p p') :
    r.Recasts input (template input p) (template input' p') := by
  refine { fits_template h.toFits with recasts := ?_ }
  intro c hc
  simp only [template, acceptKind?_cursor]
  cases haccept : c.acceptKind? .templateStart with
  | none => rfl
  | some found =>
      obtain ⟨opener, after⟩ := found
      obtain ⟨hkind, -, rfl, hahead⟩ := accept?_eq_some haccept
      have hkeeps : r.keeps opener.start = true := hc.keeps hahead (by simp [hkind])
      simp only [Option.map_some, Prod.map, tooDeep_cursor, r.start_token, hinput.bound]
      by_cases hdeep : c.advance.tooDeep = true
      · rw [if_pos hdeep, if_pos hdeep, skipBalanced_recasts hinput hkeeps]
        simp only [Option.map_some, Prod.map, Recast.read,
          r.node_container_of_ne (.templateLiteral true) (by simp), List.map_nil]
      · rw [if_neg hdeep, if_neg hdeep, push_cursor,
          templateLoop_recasts hinput h input.bound (hc.advance.push _)]
        simp only [TemplateRead.recast, closeTo_cursor]
        cases hstop : (templateLoop input p input.bound
            (c.advance.push { closer := .templateEnd, start := opener.start })).stop with
        | some stop =>
            simp only [Option.map_some, Recast.read,
              r.node_container_of_ne (.templateLiteral true) (by simp)]
        | none =>
            simp only [Option.map_none, Option.map_some, Recast.read, hinput.unclosedEnd,
              r.node_container_of_ne (.templateLiteral false) (by simp)]

/-! ### Statements -/

def Progress.shift (d : Int) (p : Progress) : Progress :=
  { p with stop := p.stop + d }

def StatementRest.recast (r : Recast) (rest : StatementRest) : StatementRest :=
  { children := rest.children.map r.node, stop := rest.stop + r.offset
    cursor := r.cursor rest.cursor }

theorem completes_token (r : Recast) (t : Token) : completes (r.token t) = completes t := by
  rw [completes, completes, r.kind_token, r.value_token]

theorem continues_token (r : Recast) (t : Token) : continues (r.token t) = continues t := by
  rw [continues, continues, r.kind_token, r.value_token]

theorem isControl_token (r : Recast) (t : Token) : isControl (r.token t) = isControl t := by
  rw [isControl, isControl, r.kind_token, r.value_token]

theorem Progress.after_node (r : Recast) (p : Progress) (node : Node) :
    (p.shift r.offset).after (r.node node) = (p.after node).shift r.offset := by
  cases node with
  | leaf a b info =>
      rw [r.node_leaf]
      cases info <;> rfl
  | element a b info attributes children =>
      rw [r.node_element]
      rfl
  | container a b info children =>
      obtain ⟨children', hnode, -⟩ := r.node_container a b info children
      rw [hnode]
      cases info with
      | parentheses closed =>
          simp only [Progress.after]
          rw [apply_ite (Progress.shift r.offset)]
          rfl
      | _ => rfl

theorem statementLoop_recasts (h : r.Recasts input p p') (turns : Nat) (progress : Progress)
    (hc : r.Sound input c) :
    statementLoop p' turns (progress.shift r.offset) (r.cursor c)
      = (statementLoop p turns progress c).recast r := by
  induction turns generalizing progress c with
  | zero => rfl
  | succ turns ih =>
      have hc' := hc.skipTrivia
      have hcomplete : (progress.shift r.offset).complete = progress.complete := rfl
      simp only [statementLoop, atLineBreak_cursor, skipTrivia_cursor, peek?_cursor, hcomplete]
      cases hpeek : c.skipTrivia.peek? with
      | none => rfl
      | some t =>
          simp only [Option.map_some, r.kind_token, r.value_token, continues_token,
            completes_token, r.stop_token, advance_cursor]
          split
          · rfl
          split
          · rfl
          split
          · rfl
          rw [h.recasts hc']
          cases hnode : p c.skipTrivia with
          | none => exact ih { progress with stop := t.stop, complete := completes t } hc'.advance
          | some found =>
              have hmore := ih (progress.after found.1) (h.sound hc' hnode)
              simp only [Option.map_some, Recast.read, Progress.after_node, hmore]
              rfl

theorem statementRest_recasts (hinput : r.Inputs input input') (h : r.Recasts input p p')
    (complete control : Bool) (hc : r.Sound input c) :
    statementRest input' p' complete control (r.cursor c)
      = (statementRest input p complete control c).recast r := by
  rw [statementRest, statementRest, hinput.bound, hinput.previousEnd]
  exact statementLoop_recasts h input.bound { stop := c.previousEnd input, complete, control } hc

theorem statementStart?_cursor (hinput : r.Inputs input input') (c : Cursor) :
    statementStart? input' (r.cursor c) = (statementStart? input c).map r.token := by
  simp only [statementStart?, peek?_cursor, Option.filter_map, Function.comp_def, r.kind_token,
    hinput.rich]

theorem recasts_statement (hinput : r.Inputs input input') (h : r.Recasts input p p') :
    r.Recasts input (statement input p) (statement input' p') := by
  refine { fits_statement h.toFits with recasts := ?_ }
  intro c hc
  simp only [statement, statementStart?_cursor hinput]
  cases statementStart? input c with
  | none => rfl
  | some first =>
      simp only [Option.map_some, r.start_token, isControl_token,
        statementRest_recasts hinput h _ _ hc, StatementRest.recast, Recast.read,
        r.node_container_of_ne .statement (by simp)]

def VariableHead.recast (r : Recast) (head : VariableHead) : VariableHead :=
  { keyword := r.token head.keyword, name := head.name.map r.token, cursor := r.cursor head.cursor }

theorem variableHead?_cursor (hinput : r.Inputs input input') (c : Cursor) :
    variableHead? input' (r.cursor c) = (variableHead? input c).map (VariableHead.recast r) := by
  simp only [variableHead?, hinput.rich, accept?_cursor]
  split
  · rfl
  cases c.accept? .keyword declarationKeywords.contains with
  | none => rfl
  | some found =>
      simp only [Option.map_some, Prod.map, skipTrivia_cursor, acceptKind?_cursor, skip_cursor,
        VariableHead.recast, Option.map_map, Option.some.injEq, VariableHead.mk.injEq, true_and,
        and_true]
      rfl

theorem recasts_variableDeclaration (hinput : r.Inputs input input')
    (h : r.Recasts input p p') :
    r.Recasts input (variableDeclaration input p) (variableDeclaration input' p') := by
  refine { fits_variableDeclaration h.toFits with recasts := ?_ }
  intro c hc
  simp only [variableDeclaration, variableHead?_cursor hinput]
  cases hhead : variableHead? input c with
  | none => rfl
  | some head =>
      obtain ⟨-, keyword, after, hkeyword, rfl⟩ := variableHead?_eq_some.mp hhead
      have hafter := (hc.leads (steps_of_accept? hkeyword).leads).skipTrivia.leads
        (leads_skip _ .identifier fun _ => true)
      simp only [Option.map_some, VariableHead.recast, Option.isSome_map,
        statementRest_recasts hinput h _ _ hafter, StatementRest.recast, r.start_token,
        r.value_token, Recast.read, r.node_container_of_ne (.variableDeclaration _ _) (by simp)]
      cases after.skipTrivia.acceptKind? .identifier <;>
        simp only [Option.map_none, Option.map_some, Option.elim_none, Option.elim_some,
          r.value_token]

/-! ### Functions -/

theorem paramNamesFrom_map (r : Recast) (depth : Int) (expecting : Bool) (ts : List Token) :
    paramNamesFrom depth expecting (ts.map r.token) = paramNamesFrom depth expecting ts := by
  induction ts generalizing depth expecting with
  | nil => rfl
  | cons t ts ih => simp only [List.map_cons, paramNamesFrom, r.kind_token, r.value_token, ih]

def FunctionHead.recast (r : Recast) (head : FunctionHead) : FunctionHead :=
  { head with start := head.start + r.offset, cursor := r.cursor head.cursor }

theorem functionHead_cursor (hinput : r.Inputs input input') (c : Cursor) :
    functionHead input' (r.cursor c)
      = r.outcome (FunctionHead.recast r) (functionHead input c) := by
  have hname (c : Cursor) : ((c.acceptKind? .identifier).map (Prod.map r.token r.cursor)).elim ""
      (fun found => found.1.value)
        = (c.acceptKind? .identifier).elim "" fun found => found.1.value := by
    cases c.acceptKind? .identifier with
    | none => rfl
    | some found => exact r.value_token found.1
  simp only [functionHead, hinput.rich, accept?_cursor]
  split
  · rfl
  -- The declaration begins at `function`, or at `async` before it.
  cases c.accept? .keyword (· == "async") with
  | none =>
      simp only [Option.map_none, accept?_cursor]
      cases c.accept? .keyword (· == "function") with
      | none => rfl
      | some found =>
          simp only [Option.map_some, Prod.map, r.start_token, skipTrivia_cursor, skip_cursor,
            acceptKind?_cursor, hname]
          rfl
  | some found =>
      simp only [Option.map_some, Prod.map, skipTrivia_cursor, accept?_cursor, r.start_token]
      cases found.2.skipTrivia.accept? .keyword (· == "function") with
      | none => rfl
      | some found =>
          simp only [Option.map_some, Prod.map, skipTrivia_cursor, skip_cursor,
            acceptKind?_cursor, hname]
          rfl

theorem recasts_functionDeclaration (hinput : r.Inputs input input')
    (hparentheses : r.Recasts input parentheses parentheses')
    (hblock : r.Recasts input block block') :
    r.Recasts input (functionDeclaration input parentheses block)
      (functionDeclaration input' parentheses' block') := by
  refine { fits_functionDeclaration hparentheses.toFits hblock.toFits with recasts := ?_ }
  refine fun {c} hc => Attempt.read_recasts ?_
  simp only [tryFunctionDeclaration, functionHead_cursor hinput]
  cases hhead : functionHead input c with
  | error d => rfl
  | ok head =>
      have hparts : sequence? [parentheses', block'] (r.cursor head.cursor)
          = (sequence? [parentheses, block] head.cursor).map
            (Prod.map (List.map r.node) r.cursor) := by
        refine sequence?_recasts [(parentheses, parentheses'), (block, block')] ?_
          (hc.leads (functionHead_eq_ok hhead).2.1.leads)
        simp [hparentheses, hblock]
      simp only [outcome_ok, FunctionHead.recast, hparts]
      cases sequence? [parentheses, block] head.cursor with
      | none => rfl
      | some found =>
          obtain ⟨parts, after⟩ := found
          have hstop : (parts.map r.node).getLast?.elim (head.start + r.offset) Node.stop
              = parts.getLast?.elim head.start Node.stop + r.offset := by
            rw [List.getLast?_map]
            cases parts.getLast? with
            | none => rfl
            | some part => exact r.stop_node part
          simp only [Option.map_some, Prod.map, hstop, tokensUntil_cursor, paramNames,
            paramNamesFrom_map, outcome_ok, Recast.read,
            r.node_container_of_ne (.functionDeclaration _ _) (by simp)]

/-! ### Symbols and parses -/

theorem recasts_derive (hinput : r.Inputs input input') {self self' : Symbol → Production}
    (hself : ∀ s, s ≠ .document → r.Recasts input (self s) (self' s)) :
    r.Recasts input (derive.statements input self) (derive.statements input' self')
      ∧ ∀ s, s ≠ .document → r.Recasts input (derive input self s) (derive input' self' s) := by
  have hstructures : r.Recasts input (derive.structures self) (derive.structures self') := by
    refine Recasts.choice_map fun t ht => hself t ?_
    rintro rfl
    simp [Symbol.structures] at ht
  have hstatements : r.Recasts input (derive.statements input self)
      (derive.statements input' self') := by
    unfold derive.statements
    rw [hinput.rich]
    refine Recasts.choice_map fun t ht => hself t ?_
    rintro rfl
    by_cases hrich : input.rich = true <;>
      simp [hrich, Symbol.structures, Symbol.statements] at ht
  have hchildren : r.Recasts input (choice (Symbol.children.map self))
      (choice (Symbol.children.map self')) := by
    refine Recasts.choice_map fun t ht => hself t ?_
    rintro rfl
    simp [Symbol.children] at ht
  have hexpression : r.Recasts input (choice [self .block]) (choice [self' .block]) := by
    show r.Recasts input (choice ([Symbol.block].map self)) (choice ([Symbol.block].map self'))
    refine Recasts.choice_map fun t ht => hself t ?_
    rintro rfl
    simp at ht
  refine ⟨hstatements, fun s hs => ?_⟩
  cases s with
  | document => exact absurd rfl hs
  | comment => exact recasts_comment
  | block => exact recasts_group hinput .block (by decide) (by simp [Group.block]) hstatements
  | parentheses =>
      exact recasts_group hinput .parentheses (by decide) (by simp [Group.parentheses]) hstructures
  | brackets =>
      exact recasts_group hinput .brackets (by decide) (by simp [Group.brackets]) hstructures
  | template => exact recasts_template hinput hstructures
  | element => exact recasts_element hinput Dialect.script hchildren hexpression
  | text => exact recasts_text hinput
  | functionDeclaration =>
      exact recasts_functionDeclaration hinput (hself .parentheses (by simp))
        (hself .block (by simp))
  | variableDeclaration => exact recasts_variableDeclaration hinput hstructures
  | statement => exact recasts_statement hinput hstructures

theorem recasts_readWithin (hinput : r.Inputs input input') (height : Nat) (s : Symbol)
    (hs : s ≠ .document) :
    r.Recasts input (readWithin input height s) (readWithin input' height s) := by
  induction height generalizing s with
  | zero => exact recasts_nothing
  | succ height ih => exact (recasts_derive hinput ih).2 s hs

/-- **The parse of a script that is told otherwise is the parse of it, told otherwise.** -/
theorem parse_recasts (hinput : r.Inputs input input') (hc : r.Sound input input.cursor) :
    (grammar.parse input').tree = r.node (grammar.parse input).tree
      ∧ (grammar.parse input').faults = r.faults (grammar.parse input).faults := by
  rw [parse_eq, parse_eq, hinput.bound]
  exact Parse.recasts_ofItems hinput (recasts_derive hinput (recasts_readWithin hinput _)).1 hc
    grammar

end SourceView.Script
