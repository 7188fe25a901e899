/-
Parses that run to the end of the tokens.

For every grammar and any token list the start rule reads a document over the whole range
and leaves no token and no container open: outside all containers no closer is waited for,
so the loop over the items of a document has nothing to stop at but the end.

That there is an answer at all is the other half.  The rules of a grammar refer to each
other, in places before any token is taken: the items of a document begin where the document
does, and a statement begins where the structures in it may.  No chain of such references is
longer than four, which gives the measure: three times the tokens ahead, and the place of
the symbol in such a chain.

Nor does a parse need a stack that grows with the tokens.  What a rule calls in a container of
its own is counted by the limit of the containers, and an element whose start tag is still open
stands in the container of the expression it is in.  So there are never more than `callRoom` rules
in each other, and it does not matter what a call beyond them would come to, or that it would
fail: none is ever made.
-/
import SourceView.Language
import SourceView.Proofs.Parsing.Grammars
import SourceView.Proofs.Parsing.Recursion

namespace SourceView

namespace Parsing

open Cursor

/-! ### Consuming everything -/

/-- Every loop over tokens comes to an end on an input, if what it reads inside moves. -/
structure LoopsTerminate (input : Input) : Prop where
  items : ∀ item closer, Moves item →
    Terminates (fun c : Cursor => c.ahead.length) input.bound (itemsStep item closer)
      (items input item closer)
  text :
    Terminates (fun s : Int × Cursor => s.2.ahead.length) input.bound textStep
      fun (stop, c) => textLoop stop input.bound c
  startTag : ∀ d expression, Moves expression →
    Terminates (fun c : Cursor => c.ahead.length) input.bound (startTagStep input d expression)
      (startTagLoop input d expression input.bound)
  content : ∀ d child e, Moves child →
    Terminates (fun c : Cursor => c.ahead.length) input.bound (contentStep input d child e)
      (contentLoop input d child e input.bound)

end Parsing

open Parsing Parsing.Cursor

/-! ### Stylesheets -/

namespace Stylesheet

variable {P : Cursor → Prop}

/-- A turn of the loop over what stands before a block. -/
def headStep (item : Production) (self : Option Int × Cursor → Head) : Option Int × Cursor → Head
  | (stop, c) =>
    let c := c.skipTrivia
    match c.peek? with
    | none => ⟨stop, [], c⟩
    | some t =>
      if t.kind = .blockOpen ∨ endsStatement t.kind ∨ t.kind.isCloser then ⟨stop, [], c⟩
      else
        let child := if opensGroup t.kind || t.kind == .comment then item c else none
        match child with
        | some (node, c) =>
          let more := self (some node.stop, c)
          { more with children := node :: more.children }
        | none => self (some t.stop, c.advance)

/-- The loop over what stands before a block, as a function of all that it changes. -/
def headFrom (item : Production) (turns : Nat) : Option Int × Cursor → Head
  | (stop, c) => headLoop item stop turns c

theorem headStep_alike (hP : Kept P) {item item' : Production} (hmoves : Moves item)
    (h : Agree P item' item) : Alike Prod.snd P (headStep item') (headStep item) := by
  rintro ⟨stop, c⟩ g f (hc : P c) hf
  have hskip := leads_skipTrivia c
  have hmore {stop : Option Int} {d : Cursor} (hsteps : c.skipTrivia.Steps d) :
      g (stop, d) = f (stop, d) :=
    hf (stop, d) (hskip.trans_steps hsteps)
  unfold headStep
  cases hpeek : c.skipTrivia.peek? with
  | none => simp only [hpeek]
  | some t =>
      obtain ⟨rest, hahead⟩ := ahead_of_peek? hpeek
      simp only [hpeek]
      rw [h c.skipTrivia (hP hc hskip), hmore (steps_advance hahead)]
      by_cases hgroup : (opensGroup t.kind || t.kind == .comment) = true
      · simp only [hgroup, if_true]
        cases hnode : item c.skipTrivia with
        | none => rfl
        | some found => simp only [hmore (hmoves.steps hnode)]
      · simp only [hgroup, if_false, Bool.false_eq_true]

theorem headLoop_congr (hP : Kept P) {item item' : Production} (hmoves : Moves item)
    (h : Agree P item' item) (stop : Option Int) (turns : Nat) {c : Cursor} (hc : P c) :
    headLoop item' stop turns c = headLoop item stop turns c :=
  (headStep_alike hP hmoves h).run_eq hP (headFrom item') (headFrom item) (fun _ => rfl)
    (fun _ => rfl) rfl turns (s := (stop, c)) hc

/-- A turn of the loop over the value of a declaration. -/
def valueStep (item : Production) (self : Value → Except Cursor Value) (v : Value) :
    Except Cursor Value :=
  let c := v.cursor.skipTrivia
  match c.peek? with
  | none => .ok { v with cursor := c }
  | some t =>
    if t.kind = .blockClose then .ok { v with cursor := c }
    else if t.kind = .blockOpen then .error c
    else if t.kind = .semicolon then .ok { v with stop := t.stop, cursor := c.advance }
    else if t.kind.isCloser then .ok { v with cursor := c }
    else if isImportant t then
      self { v with important := true, stop := t.stop, cursor := c.advance }
    else
      match (if opensGroup t.kind then item c else none) with
      | some (node, c) => self (v.extend node.start node.stop c)
      | none => self (v.extend t.start t.stop c.advance)

theorem valueStep_alike (hP : Kept P) {item item' : Production} (hmoves : Moves item)
    (h : Agree P item' item) : Alike Value.cursor P (valueStep item') (valueStep item) := by
  intro v g f hc hf
  have hskip := leads_skipTrivia v.cursor
  have hmore {w : Value} (hsteps : v.cursor.skipTrivia.Steps w.cursor) : g w = f w :=
    hf w (hskip.trans_steps hsteps)
  unfold valueStep
  cases hpeek : v.cursor.skipTrivia.peek? with
  | none => simp only [hpeek]
  | some t =>
      obtain ⟨rest, hahead⟩ := ahead_of_peek? hpeek
      have hadvance := steps_advance hahead
      simp only [hpeek]
      have himportant {d : Cursor} (hd : v.cursor.skipTrivia.Steps d) :
          g { v with important := true, stop := t.stop, cursor := d }
            = f { v with important := true, stop := t.stop, cursor := d } :=
        hmore hd
      have hextend (start stop : Int) {d : Cursor} (hd : v.cursor.skipTrivia.Steps d) :
          g (v.extend start stop d) = f (v.extend start stop d) :=
        hmore hd
      rw [h v.cursor.skipTrivia (hP hc hskip), himportant hadvance, hextend _ _ hadvance]
      by_cases hgroup : opensGroup t.kind = true
      · simp only [hgroup, if_true]
        cases hnode : item v.cursor.skipTrivia with
        | none => rfl
        | some found => simp only [hextend _ _ (hmoves.steps hnode)]
      · simp only [hgroup, if_false, Bool.false_eq_true]

theorem valueLoop_congr (hP : Kept P) {item item' : Production} (hmoves : Moves item)
    (h : Agree P item' item) (turns : Nat) {v : Value} (hv : P v.cursor) :
    valueLoop item' turns v = valueLoop item turns v :=
  (valueStep_alike hP hmoves h).run_eq hP (valueLoop item') (valueLoop item)
    (fun _ => rfl) (fun _ => rfl) rfl turns hv

theorem rule_congr (input : Input) (starts : Array Bool) {item item' block block' : Production}
    (hmoves : Moves item) {c : Cursor} (h : Agree c.Beside item' item)
    (h' : Agree c.Beside block' block) :
    rule input starts item' block' c = rule input starts item block c := by
  have hhead := headLoop_congr (kept_beside c) hmoves h none input.bound (Leads.refl c).beside
  have hblock := h' _
    ((leads_headLoop hmoves none input.bound c).trans (leads_skipTrivia _)).beside
  simp only [rule, Attempt.read, tryRule, hhead, hblock]

theorem atRule_congr (input : Input) {item item' block block' : Production} (hmoves : Moves item)
    {c : Cursor} (h : Agree c.Beside item' item) (h' : Agree c.Beside block' block) :
    atRule input item' block' c = atRule input item block c := by
  unfold atRule
  cases hkeyword : atKeyword? input c with
  | none => rfl
  | some found =>
      have hafter := (steps_of_accept? (atKeyword?_eq_some.mp hkeyword).2).leads
      have hhead := headLoop_congr (kept_beside c) hmoves h none input.bound hafter.beside
      have hblock := h' _ (hafter.trans
        ((leads_headLoop hmoves none input.bound found.2).trans (leads_skipTrivia _))).beside
      simp only [hhead, hblock]

theorem declaration_congr (input : Input) {item item' : Production} (hmoves : Moves item)
    {c : Cursor} (h : Agree c.Beside item' item) :
    declaration input item' c = declaration input item c := by
  simp only [declaration, Attempt.read, tryDeclaration]
  cases hstart : declarationStart input c with
  | error d => rfl
  | ok start =>
      obtain ⟨property, v⟩ := start
      simp only [valueLoop_congr (kept_beside c) hmoves h input.bound
        (steps_declarationStart hstart).leads.beside]

/-- The place of a symbol in a chain of references before any token is taken. -/
def Symbol.rank : Symbol → Nat
  | .document => 2
  | .rule | .atRule | .declaration => 1
  | _ => 0

/-- What the rules make of what the symbols read. -/
def rulesStep (input : Input) (self : Symbol × Cursor → Option (Node × Cursor)) :
    Symbol × Cursor → Option (Node × Cursor)
  | (symbol, c) =>
    derive input (ruleStarts input.tokens).toArray (fun s c => self (s, c)) symbol c

/-- A rule goes by what it calls. -/
theorem derive_congr (input : Input) (starts : Array Bool) {f g : Symbol → Production}
    (hf : ∀ s, s ≠ .document → Moves (f s)) {s : Symbol} {c : Cursor}
    (h : ∀ s' d, Calls Symbol.rank (s, c) (s', d) → g s' d = f s' d) :
    derive input starts g s c = derive input starts f s c := by
  have hstructures : Moves (derive.structures f) := moves_choice hf (by decide)
  have hstatement : Moves (derive.statement input f) := moves_choice hf (document_notMem input.rich)
  have hbeside (t : Symbol) (ht : t.rank < s.rank) : Agree c.Beside (g t) (f t) :=
    fun d hd => h t d (.beside hd ht)
  have hinside (t : Symbol) : Agree c.Inside (g t) (f t) :=
    fun d hd => h t d (.inside hd (by cases t <;> decide))
  cases s with
  | document =>
      refine document_congr input hstatement (Agree.choice_map fun t ht => hbeside t ?_)
      cases hrich : input.rich <;>
        · rw [hrich] at ht
          revert ht
          cases t <;> decide
  | comment => rfl
  | block => exact Group.block.read_congr input hstatement (Agree.choice_map fun t _ => hinside t)
  | parentheses =>
      exact Group.parentheses.read_congr input hstructures (Agree.choice_map fun t _ => hinside t)
  | brackets =>
      exact Group.brackets.read_congr input hstructures (Agree.choice_map fun t _ => hinside t)
  | rule =>
      refine rule_congr input starts hstructures (Agree.choice_map fun t ht => hbeside t ?_)
        (hbeside .block (by decide))
      revert ht
      cases t <;> decide
  | atRule =>
      refine atRule_congr input hstructures (Agree.choice_map fun t ht => hbeside t ?_)
        (hbeside .block (by decide))
      revert ht
      cases t <;> decide
  | declaration =>
      refine declaration_congr input hstructures (Agree.choice_map fun t ht => hbeside t ?_)
      revert ht
      cases t <;> decide

/-- The rules refer to each other by names that are in the table, and neither they nor the
loops in them run on without end.  The calls of the rules stay within `callRoom`: whatever is
put in the place of those beyond, the same is read. -/
structure Terminates (input : Input) : Prop where
  named : ∀ s, grammar.rule s.name = .ok fun input => read input s
  moves : ∀ s, s ≠ .document → Moves (read input s)
  rules : Parsing.Terminates (weight Symbol.rank) (3 * input.bound + 1) (rulesStep input)
    fun (s, c) => read input s c
  calls : ∀ beyond depth, callRoom ≤ depth → ∀ s c, c.ahead.length < input.bound →
    callsWithin (rulesStep input) beyond depth (s, c) = read input s c
  head : ∀ item, Moves item →
    Parsing.Terminates (fun s : Option Int × Cursor => s.2.ahead.length) input.bound (headStep item)
      (headFrom item input.bound)
  value : ∀ item, Moves item →
    Parsing.Terminates (fun v : Value => v.cursor.ahead.length) input.bound (valueStep item)
      (valueLoop item input.bound)

/-- The readings of the symbols solve the recursion of the rules. -/
theorem rules_terminate (input : Input) :
    Parsing.Terminates (weight Symbol.rank) (3 * input.bound + 1) (rulesStep input)
      fun (s, c) => read input s c := by
  refine terminates_of_run (rulesStep input) (fun height (s, c) =>
    readWithin input (ruleStarts input.tokens).toArray height s c) (fun _ => rfl) ?_
  rintro height ⟨s, c⟩ g - hg
  exact derive_congr input _ (moves_readWithin input _ height) fun s' d hcall =>
    hg (s', d) hcall.weight_lt

theorem rank_le (s : Symbol) : s.rank ≤ 3 := by
  cases s <;> decide

theorem terminates (input : Input) : Terminates input where
  named s := by cases s <;> rfl
  moves := moves_readWithin input _ _
  rules := rules_terminate input
  calls beyond depth hdepth s c hc := by
    have hroom := Nat.lt_of_lt_of_le (depthBelow_lt_callRoom rank_le (s, c)) hdepth
    refine callsWithin_eq (f := fun (s, c) => read input s c)
      (fun s hs => (rules_terminate input).solves s ?_) (fun s g hg => ?_) beyond hc hroom
    · have hrank := rank_le s.1
      simp only [weight]
      omega
    · exact derive_congr input _ (moves_readWithin input _ _) fun s' d hcall => hg (s', d) hcall
  head item hitem :=
    (headStep_alike (kept_ahead _) hitem (Agree.refl _ _)).terminates _ fun _ => rfl
  value item hitem :=
    (valueStep_alike (kept_ahead _) hitem (Agree.refl _ _)).terminates _ fun _ => rfl

end Stylesheet

/-! ### Scripts -/

namespace Script

variable {P : Cursor → Prop}

/-- A turn of the loop over a template. -/
def templateStep (input : Input) (item : Production) (self : Cursor → TemplateRead) (c : Cursor) :
    TemplateRead :=
  match c.peek? with
  | none => ⟨[], none, c⟩
  | some t =>
    if t.kind = .templateEnd then ⟨[], some t.stop, c.advance⟩
    else if t.kind.isCloser then ⟨[], none, c⟩
    else if t.kind = .templateExprOpen then
      let c := c.advance
      let inner := items input item (some .templateExprClose)
        (c.push { closer := .templateExprClose, start := t.start })
      let after := inner.cursor.closeTo c
      match inner.closer with
      | none => ⟨inner.nodes, none, after⟩
      | some _ =>
        let more := self after
        { more with children := inner.nodes ++ more.children }
    else self c.advance

/-- The children of an interpolation are read with one more container open. -/
theorem templateStep_alike (input : Input) {Q : Cursor → Prop} (hQ : Kept Q)
    (hpush : ∀ ⦃c d : Cursor⦄ (o : OpenContainer), P c → c.Steps d → Q (d.push o))
    {item item' : Production} (hmoves : Moves item) (h : Agree Q item' item) :
    Alike (fun c : Cursor => c) P (templateStep input item') (templateStep input item) := by
  intro c g f hc hf
  unfold templateStep
  cases hpeek : c.peek? with
  | none => rfl
  | some t =>
      obtain ⟨rest, hahead⟩ := ahead_of_peek? hpeek
      have hadvance := steps_advance hahead
      have hinner := (leads_itemsLoop hmoves (some .templateExprClose) input.bound
        (c.advance.push { closer := .templateExprClose, start := t.start })).close
      simp only [items]
      rw [hf c.advance hadvance, itemsLoop_congr hQ hmoves h _ _ (hpush _ hc hadvance),
        hf _ (hadvance.trans_leads hinner)]

/-- A template reads only inside itself, in its interpolations. -/
theorem template_congr (input : Input) {item item' : Production} (hmoves : Moves item)
    {c : Cursor} (h : Agree c.Inside item' item) :
    template input item' c = template input item c := by
  have hkept : Kept fun d => c.Inside d ∧ d.opened.length ≤ maxDepth :=
    fun _ _ hd hleads => ⟨kept_inside c hd.1 hleads, hleads.opened ▸ hd.2⟩
  have hpush (d e : Cursor) (o : OpenContainer) (hd : c.Inside d ∧ d.opened.length ≤ maxDepth)
      (hsteps : d.Steps e) : c.Inside (e.push o) := by
    have hlength : (e.push o).opened.length = d.opened.length + 1 := by
      rw [← hsteps.leads.opened]
      rfl
    have hdeeper := hd.1.2.1
    exact ⟨Nat.lt_trans hsteps.shorter hd.1.1, by omega, by omega⟩
  unfold template
  cases hopener : c.acceptKind? .templateStart with
  | none => rfl
  | some found =>
      have hopen := steps_of_accept? hopener
      simp only
      by_cases hdeep : found.2.tooDeep = true
      · simp only [if_pos hdeep]
      · have hlimit : found.2.opened.length < maxDepth := by simpa [tooDeep] using hdeep
        have hloop := (templateStep_alike input (kept_inside c) hpush hmoves h).run_eq hkept
          (templateLoop input item') (templateLoop input item) (fun _ => rfl) (fun _ => rfl) rfl
          input.bound
          (s := found.2.push { closer := .templateEnd, start := found.1.start })
          ⟨hopen.inside_push hdeep _, hlimit⟩
        simp only [if_neg hdeep, hloop]

/-- A turn of the loop over a statement. -/
def statementStep (item : Production) (self : Progress × Cursor → StatementRest) :
    Progress × Cursor → StatementRest
  | (p, c) =>
    let crossed := c.atLineBreak
    let c := c.skipTrivia
    match c.peek? with
    | none => ⟨[], p.stop, c⟩
    | some t =>
      if t.kind.isCloser then ⟨[], p.stop, c⟩
      else if crossed && p.complete && !continues t then ⟨[], p.stop, c⟩
      else if t.kind = .punctuation ∧ t.value = ";" then ⟨[], t.stop, c.advance⟩
      else
        match item c with
        | some (node, c) =>
          let more := self (p.after node, c)
          { more with children := node :: more.children }
        | none => self ({ p with stop := t.stop, complete := completes t }, c.advance)

/-- The loop over a statement, as a function of all that it changes. -/
def statementFrom (item : Production) (turns : Nat) : Progress × Cursor → StatementRest
  | (p, c) => statementLoop item turns p c

theorem statementStep_alike (hP : Kept P) {item item' : Production} (hmoves : Moves item)
    (h : Agree P item' item) : Alike Prod.snd P (statementStep item') (statementStep item) := by
  rintro ⟨p, c⟩ g f (hc : P c) hf
  have hskip := leads_skipTrivia c
  have hmore {p : Progress} {d : Cursor} (hsteps : c.skipTrivia.Steps d) : g (p, d) = f (p, d) :=
    hf (p, d) (hskip.trans_steps hsteps)
  unfold statementStep
  cases hpeek : c.skipTrivia.peek? with
  | none => simp only [hpeek]
  | some t =>
      obtain ⟨rest, hahead⟩ := ahead_of_peek? hpeek
      simp only [hpeek]
      rw [h c.skipTrivia (hP hc hskip), hmore (steps_advance hahead)]
      cases hnode : item c.skipTrivia with
      | none => rfl
      | some found => simp only [hmore (hmoves.steps hnode)]

theorem statementRest_congr (hP : Kept P) (input : Input) {item item' : Production}
    (hmoves : Moves item) (h : Agree P item' item) (complete control : Bool) {c : Cursor}
    (hc : P c) :
    statementRest input item' complete control c = statementRest input item complete control c :=
  (statementStep_alike hP hmoves h).run_eq hP (statementFrom item') (statementFrom item)
    (fun _ => rfl) (fun _ => rfl) rfl input.bound (s := (_, c)) hc

theorem statement_congr (input : Input) {item item' : Production} (hmoves : Moves item)
    {c : Cursor} (h : Agree c.Beside item' item) :
    statement input item' c = statement input item c := by
  unfold statement
  cases hfirst : statementStart? input c with
  | none => rfl
  | some first =>
      simp only
      rw [statementRest_congr (kept_beside c) input hmoves h _ _ (Leads.refl c).beside]

theorem variableDeclaration_congr (input : Input) {item item' : Production} (hmoves : Moves item)
    {c : Cursor} (h : Agree c.Beside item' item) :
    variableDeclaration input item' c = variableDeclaration input item c := by
  unfold variableDeclaration
  cases hhead : variableHead? input c with
  | none => rfl
  | some head =>
      obtain ⟨-, keyword, after, hkeyword, rfl⟩ := variableHead?_eq_some.mp hhead
      have hleads := (steps_of_accept? hkeyword).leads.trans
        ((leads_skipTrivia after).trans (leads_skip _ .identifier fun _ => true))
      simp only
      rw [statementRest_congr (kept_beside c) input hmoves h _ _ hleads.beside]

theorem functionDeclaration_congr (input : Input)
    {parentheses parentheses' block block' : Production} (hparentheses : Moves parentheses)
    (hblock : Moves block) {c : Cursor} (h : Agree c.Beside parentheses' parentheses)
    (h' : Agree c.Beside block' block) :
    functionDeclaration input parentheses' block' c
      = functionDeclaration input parentheses block c := by
  simp only [functionDeclaration, Attempt.read, tryFunctionDeclaration]
  cases hhead : functionHead input c with
  | error d => rfl
  | ok head =>
      have hparts : sequence? [parentheses', block'] head.cursor
          = sequence? [parentheses, block] head.cursor :=
        sequence?_congr (kept_beside c) [(parentheses', parentheses), (block', block)]
          (by simp [hparentheses, hblock]) (by simp [h, h'])
          (functionHead_eq_ok hhead).2.1.leads.beside
      simp only [hparts]

/-- The place of a symbol in a chain of references before any token is taken. -/
def Symbol.rank : Symbol → Nat
  | .document => 3
  | .functionDeclaration | .variableDeclaration | .statement => 2
  | .element => 1
  | _ => 0

/-- What the rules make of what the symbols read. -/
def rulesStep (input : Input) (self : Symbol × Cursor → Option (Node × Cursor)) :
    Symbol × Cursor → Option (Node × Cursor)
  | (symbol, c) => derive input (fun s c => self (s, c)) symbol c

/-- A rule goes by what it calls. -/
theorem derive_congr (input : Input) {f g : Symbol → Production}
    (hf : ∀ s, s ≠ .document → Moves (f s)) {s : Symbol} {c : Cursor}
    (h : ∀ s' d, Calls Symbol.rank (s, c) (s', d) → g s' d = f s' d) :
    derive input g s c = derive input f s c := by
  have hstructures : Moves (derive.structures f) := moves_choice hf (by decide)
  have hstatements : Moves (derive.statements input f) :=
    moves_choice hf (document_notMem input.rich)
  have hchildren : Moves (choice (Symbol.children.map f)) := moves_choice hf (by decide)
  have hexpression : Moves (choice ([.block].map f)) := moves_choice hf (by decide)
  have hbeside (t : Symbol) (ht : t.rank < s.rank) : Agree c.Beside (g t) (f t) :=
    fun d hd => h t d (.beside hd ht)
  have hinside (t : Symbol) (ht : t.rank ≤ 2) : Agree c.Inside (g t) (f t) :=
    fun d hd => h t d (.inside hd ht)
  have hsymbols {symbols : List Symbol} (hmem : ∀ t ∈ symbols, t.rank ≤ 2) :
      Agree c.Inside (choice (symbols.map g)) (choice (symbols.map f)) :=
    Agree.choice_map fun t ht => hinside t (hmem t ht)
  cases s with
  | document =>
      refine document_congr input hstatements (Agree.choice_map fun t ht => hbeside t ?_)
      cases hrich : input.rich <;>
        · rw [hrich] at ht
          revert ht
          cases t <;> decide
  | comment => rfl
  | block =>
      exact Group.block.read_congr input hstatements
        (hsymbols (by cases input.rich <;> decide))
  | parentheses => exact Group.parentheses.read_congr input hstructures (hsymbols (by decide))
  | brackets => exact Group.brackets.read_congr input hstructures (hsymbols (by decide))
  | template => exact template_congr input hstructures (hsymbols (by decide))
  | element =>
      exact element_congr input Dialect.script hchildren hexpression (hsymbols (by decide))
        (Agree.choice_map (f := g) (g := f) fun t (ht : t ∈ [Symbol.block]) =>
          hbeside t (by rw [List.mem_singleton.mp ht]; decide))
  | text => rfl
  | functionDeclaration =>
      exact functionDeclaration_congr input (hf .parentheses (by simp)) (hf .block (by simp))
        (hbeside .parentheses (by decide)) (hbeside .block (by decide))
  | variableDeclaration =>
      refine variableDeclaration_congr input hstructures (Agree.choice_map fun t ht => hbeside t ?_)
      revert ht
      cases t <;> decide
  | statement =>
      refine statement_congr input hstructures (Agree.choice_map fun t ht => hbeside t ?_)
      revert ht
      cases t <;> decide

/-- The rules refer to each other by names that are in the table, and neither they nor the
loops in them run on without end.  The calls of the rules stay within `callRoom`: whatever is
put in the place of those beyond, the same is read. -/
structure Terminates (input : Input) : Prop where
  named : ∀ s, grammar.rule s.name = .ok fun input => read input s
  moves : ∀ s, s ≠ .document → Moves (read input s)
  rules : Parsing.Terminates (weight Symbol.rank) (3 * input.bound + 1) (rulesStep input)
    fun (s, c) => read input s c
  calls : ∀ beyond depth, callRoom ≤ depth → ∀ s c, c.ahead.length < input.bound →
    callsWithin (rulesStep input) beyond depth (s, c) = read input s c
  template : ∀ item, Moves item →
    Parsing.Terminates (fun c : Cursor => c.ahead.length) input.bound (templateStep input item)
      (templateLoop input item input.bound)
  statement : ∀ item, Moves item →
    Parsing.Terminates (fun s : Progress × Cursor => s.2.ahead.length) input.bound
      (statementStep item) (statementFrom item input.bound)

/-- The readings of the symbols solve the recursion of the rules. -/
theorem rules_terminate (input : Input) :
    Parsing.Terminates (weight Symbol.rank) (3 * input.bound + 1) (rulesStep input)
      fun (s, c) => read input s c := by
  refine terminates_of_run (rulesStep input)
    (fun height (s, c) => readWithin input height s c) (fun _ => rfl) ?_
  rintro height ⟨s, c⟩ g - hg
  exact derive_congr input (moves_readWithin input height) fun s' d hcall =>
    hg (s', d) hcall.weight_lt

theorem rank_le (s : Symbol) : s.rank ≤ 3 := by
  cases s <;> decide

theorem terminates (input : Input) : Terminates input where
  named s := by cases s <;> rfl
  moves := moves_readWithin input _
  rules := rules_terminate input
  calls beyond depth hdepth s c hc := by
    have hroom := Nat.lt_of_lt_of_le (depthBelow_lt_callRoom rank_le (s, c)) hdepth
    refine callsWithin_eq (f := fun (s, c) => read input s c)
      (fun s hs => (rules_terminate input).solves s ?_) (fun s g hg => ?_) beyond hc hroom
    · have hrank := rank_le s.1
      simp only [weight]
      omega
    · exact derive_congr input (moves_readWithin input _) fun s' d hcall => hg (s', d) hcall
  template item hitem :=
    (templateStep_alike input (fun _ _ h _ => h) (fun _ _ _ _ _ => trivial) hitem
      (Agree.refl (fun _ => True) _)).terminates _ fun _ => rfl
  statement item hitem :=
    (statementStep_alike (kept_ahead _) hitem (Agree.refl _ _)).terminates _ fun _ => rfl

end Script

/-! ### Markup -/

namespace Markup

/-- The place of a symbol in a chain of references before any token is taken. -/
def Symbol.rank : Symbol → Nat
  | .document => 1
  | _ => 0

/-- What the rules make of what the symbols read. -/
def rulesStep (input : Input) (self : Symbol × Cursor → Option (Node × Cursor)) :
    Symbol × Cursor → Option (Node × Cursor)
  | (symbol, c) => derive input (fun s c => self (s, c)) symbol c

/-- A rule goes by what it calls. -/
theorem derive_congr (input : Input) {f g : Symbol → Production}
    (hf : ∀ s, s ≠ .document → Moves (f s)) {s : Symbol} {c : Cursor}
    (h : ∀ s' d, Calls Symbol.rank (s, c) (s', d) → g s' d = f s' d) :
    derive input g s c = derive input f s c := by
  have hchildren : Moves (choice (Symbol.children.map f)) := moves_choice hf (by decide)
  have houter : Moves (choice (Symbol.outer.map f)) := moves_choice hf (by decide)
  cases s with
  | document =>
      refine document_congr input houter
        (Agree.choice_map fun t ht d hd => h t d (.beside hd ?_))
      revert ht
      cases t <;> decide
  | comment => rfl
  | element =>
      exact element_congr input Dialect.markup hchildren (Moves.choice (by simp))
        (Agree.choice_map fun t _ d hd => h t d (.inside hd (by cases t <;> decide)))
        (Agree.refl _ _)
  | text => rfl
  | rawText => rfl

/-- The rules refer to each other by names that are in the table, and do not run on without
end.  Their calls stay within `callRoom`.  A raw text is parsed with a grammar of its own, which
does not come back to this one, so it takes the room of that grammar once more and no other. -/
structure Terminates (input : Input) : Prop where
  named : ∀ s, grammar.rule s.name = .ok fun input => read input s
  moves : ∀ s, s ≠ .document → Moves (read input s)
  rules : Parsing.Terminates (weight Symbol.rank) (3 * input.bound + 1) (rulesStep input)
    fun (s, c) => read input s c
  calls : ∀ beyond depth, callRoom ≤ depth → ∀ s c, c.ahead.length < input.bound →
    callsWithin (rulesStep input) beyond depth (s, c) = read input s c
  embedded : ∀ language g, embeddedGrammar? language = some g →
    g = Stylesheet.grammar ∨ g = Script.grammar

/-- The readings of the symbols solve the recursion of the rules. -/
theorem rules_terminate (input : Input) :
    Parsing.Terminates (weight Symbol.rank) (3 * input.bound + 1) (rulesStep input)
      fun (s, c) => read input s c := by
  refine terminates_of_run (rulesStep input)
    (fun height (s, c) => readWithin input height s c) (fun _ => rfl) ?_
  rintro height ⟨s, c⟩ g - hg
  exact derive_congr input (moves_readWithin input height) fun s' d hcall =>
    hg (s', d) hcall.weight_lt

theorem rank_le (s : Symbol) : s.rank ≤ 3 := by
  cases s <;> decide

theorem terminates (input : Input) : Terminates input where
  named s := by cases s <;> rfl
  moves := moves_readWithin input _
  rules := rules_terminate input
  calls beyond depth hdepth s c hc := by
    have hroom := Nat.lt_of_lt_of_le (depthBelow_lt_callRoom rank_le (s, c)) hdepth
    refine callsWithin_eq (f := fun (s, c) => read input s c)
      (fun s hs => (rules_terminate input).solves s ?_) (fun s g hg => ?_) beyond hc hroom
    · have hrank := rank_le s.1
      simp only [weight]
      omega
    · exact derive_congr input (moves_readWithin input _) fun s' d hcall => hg (s', d) hcall
  embedded language g h := by
    unfold embeddedGrammar? at h
    split at h <;> simp_all

end Markup

/-! ### Every language -/

namespace Language

/-- Nothing in a parse of the input with the grammar runs on without end, and its rules stand in
each other no deeper than there is room for, however many tokens there are. -/
def Terminates (language : Language) (input : Input) : Prop :=
  LoopsTerminate input ∧ match language with
    | markup => Markup.Terminates input
    | stylesheet => Stylesheet.Terminates input
    | script => Script.Terminates input

end Language

end SourceView
