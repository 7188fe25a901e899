/-
How the parses of the three grammars move.

Each rule of a grammar but the one for a whole document moves on when it reads a node.  The
rules refer to each other through what symbols of lesser height read, so the step of the
induction is over the rules of a grammar, and the run is over the height.
-/
import SourceView.Markup.Grammar
import SourceView.Proofs.Parsing.Progress
import SourceView.Proofs.Script.Loops
import SourceView.Proofs.Stylesheet.Loops

namespace SourceView

open Parsing Parsing.Cursor

/-! ### Stylesheets -/

namespace Stylesheet

theorem leads_headLoop {item : Production} (hitem : Moves item) (stop : Option Int)
    (turns : Nat) (c : Cursor) : c.Leads (headLoop item stop turns c).cursor := by
  have hrun := headRun item turns stop c
  generalize headLoop item stop turns c = head at hrun
  induction hrun with
  | spent => exact Leads.refl _
  | @ended _ _ c => exact leads_skipTrivia c
  | @stopped _ _ c => exact leads_skipTrivia c
  | @node _ _ c _ _ _ _ _ _ _ _ hnode _ ih =>
      exact ((leads_skipTrivia c).trans (hitem.steps hnode).leads).trans ih
  | @piece _ _ c _ _ _ _ _ _ _ ih => exact ((leads_skipTrivia c).trans (leads_advance _)).trans ih

/-- Where the loop over a value leaves the cursor, whether or not a brace failed it. -/
def valueLeftAt : Except Cursor Value → Cursor
  | .error d => d
  | .ok v => v.cursor

theorem leads_valueLoop {item : Production} (hitem : Moves item) (turns : Nat) (v : Value) :
    v.cursor.Leads (valueLeftAt (valueLoop item turns v)) := by
  have hrun := valueRun item turns v
  generalize valueLoop item turns v = found at hrun
  induction hrun with
  | spent => exact Leads.refl _
  | @ended _ v => exact leads_skipTrivia v.cursor
  | @closed _ v => exact leads_skipTrivia v.cursor
  | @opened _ v => exact leads_skipTrivia v.cursor
  | @semicolon _ v => exact (leads_skipTrivia v.cursor).trans (leads_advance _)
  | @important _ v _ _ _ _ _ _ _ ih =>
      exact ((leads_skipTrivia v.cursor).trans (leads_advance _)).trans ih
  | @group _ v _ _ _ _ _ _ _ _ _ hnode _ ih =>
      exact ((leads_skipTrivia v.cursor).trans (hitem.steps hnode).leads).trans ih
  | @piece _ v _ _ _ _ _ _ _ _ ih =>
      exact ((leads_skipTrivia v.cursor).trans (leads_advance _)).trans ih

theorem moves_rule (input : Input) (starts : Array Bool) {item block : Production}
    (hitem : Moves item) (hblock : Moves block) : Moves (rule input starts item block) := by
  refine ⟨fun {c node d} h => ?_⟩
  obtain ⟨-, -, -, hbody⟩ := rule_eq_some.mp h
  exact ((leads_headLoop hitem none input.bound c).trans (leads_skipTrivia _)).trans_steps
    (hblock.steps hbody)

theorem moves_atRule (input : Input) {item block : Production} (hitem : Moves item)
    (hblock : Moves block) : Moves (atRule input item block) := by
  refine ⟨fun {c node d} h => ?_⟩
  have hread {keyword : Token} {after : Cursor} (hkeyword : atKeyword? input c = some (keyword, after)) :
      c.Steps (headLoop item none input.bound after).cursor.skipTrivia :=
    (steps_of_accept? (atKeyword?_eq_some.mp hkeyword).2).trans_leads
      ((leads_headLoop hitem none input.bound after).trans (leads_skipTrivia _))
  cases atRuleRead h with
  | semicolon hkeyword hsemicolon =>
      exact (hread hkeyword).trans_leads (steps_of_accept? hsemicolon).leads
  | block hkeyword hbody => exact (hread hkeyword).trans_leads (hblock.steps hbody).leads
  | bare hkeyword => exact hread hkeyword

/-- The property and the colon of a declaration are passed. -/
theorem steps_declarationStart {input : Input} {c : Cursor} {property : Token} {v : Value}
    (h : declarationStart input c = .ok (property, v)) : c.Steps v.cursor := by
  obtain ⟨hpeek, -, -, colon, d, hcolon, rfl⟩ := declarationStart_eq_ok.mp h
  obtain ⟨rest, hahead⟩ := ahead_of_peek? hpeek
  exact (steps_advance hahead).trans_leads
    ((leads_skipTrivia _).trans (steps_of_accept? hcolon).leads)

theorem moves_declaration (input : Input) {item : Production} (hitem : Moves item) :
    Moves (declaration input item) := by
  refine ⟨fun {c node d} h => ?_⟩
  cases declarationRead h with
  | @mk _ _ start _ _ hstart hvalue =>
      have hleads := leads_valueLoop hitem input.bound start
      rw [hvalue] at hleads
      exact (steps_declarationStart hstart).trans_leads hleads

/-- A choice among symbols inside a document. -/
theorem moves_choice {self : Symbol → Production} (hself : ∀ s, s ≠ .document → Moves (self s))
    {symbols : List Symbol} (h : Symbol.document ∉ symbols) : Moves (choice (symbols.map self)) :=
  Moves.choice_map fun _ hs => hself _ (ne_of_mem_of_not_mem hs h)

theorem document_notMem (rich : Bool) :
    Symbol.document ∉ if rich then Symbol.statements else Symbol.structures := by
  cases rich <;> decide

theorem moves_derive (input : Input) (starts : Array Bool) {self : Symbol → Production}
    (hself : ∀ s, s ≠ .document → Moves (self s)) (s : Symbol) (hs : s ≠ .document) :
    Moves (derive input starts self s) := by
  have hstructures : Moves (derive.structures self) := moves_choice hself (by decide)
  have hstatement : Moves (derive.statement input self) :=
    moves_choice hself (document_notMem input.rich)
  cases s with
  | document => exact absurd rfl hs
  | comment => exact moves_comment
  | block => exact Group.block.moves_read input hstatement
  | parentheses => exact Group.parentheses.moves_read input hstructures
  | brackets => exact Group.brackets.moves_read input hstructures
  | rule => exact moves_rule input starts hstructures (hself .block (by simp))
  | atRule => exact moves_atRule input hstructures (hself .block (by simp))
  | declaration => exact moves_declaration input hstructures

theorem moves_readWithin (input : Input) (starts : Array Bool) (height : Nat) (s : Symbol)
    (hs : s ≠ .document) : Moves (readWithin input starts height s) := by
  induction height generalizing s with
  | zero => exact moves_nothing
  | succ height ih => exact moves_derive input starts ih s hs

end Stylesheet

/-! ### Scripts -/

namespace Script

theorem leads_interpolation (input : Input) {item : Production} (hitem : Moves item) (t : Token)
    (c : Cursor) :
    c.advance.Leads ((interpolation input item t c).cursor.closeTo c.advance) :=
  (leads_itemsLoop hitem (some .templateExprClose) input.bound
    (c.advance.push { closer := .templateExprClose, start := t.start })).close

theorem leads_templateLoop (input : Input) {item : Production} (hitem : Moves item)
    (turns : Nat) (c : Cursor) : c.Leads (templateLoop input item turns c).cursor := by
  have hrun := templateRun input item turns c
  generalize templateLoop input item turns c = read at hrun
  have hinner (t : Token) (c : Cursor) :
      c.Leads ((interpolation input item t c).cursor.closeTo c.advance) :=
    (leads_advance c).trans (leads_interpolation input hitem t c)
  induction hrun with
  | spent => exact Leads.refl _
  | exhausted => exact Leads.refl _
  | ended => exact leads_advance _
  | stopped => exact Leads.refl _
  | @unclosed _ c t => exact hinner t c
  | @closed _ c t _ _ _ _ _ _ _ ih => exact (hinner t c).trans ih
  | @filler _ c _ _ _ _ _ _ _ ih => exact (leads_advance c).trans ih

theorem moves_template (input : Input) {item : Production} (hitem : Moves item) :
    Moves (template input item) := by
  refine ⟨fun {c node d} h => ?_⟩
  obtain ⟨opener, rest, hahead, -, hread⟩ := literalRead h
  refine (steps_advance hahead).trans_leads ?_
  have hclose := (leads_templateLoop input hitem input.bound
    (c.advance.push { closer := .templateEnd, start := opener.start })).close
  cases hread with
  | skipped => exact leads_skipBalanced input opener .templateEnd c.advance
  | closed _ hread => exact hread ▸ hclose
  | unclosed _ hread => exact hread ▸ hclose

theorem leads_statementLoop {item : Production} (hitem : Moves item) (turns : Nat)
    (p : Progress) (c : Cursor) : c.Leads (statementLoop item turns p c).cursor := by
  have hrun := statementRun item turns p c
  generalize statementLoop item turns p c = found at hrun
  induction hrun with
  | spent => exact Leads.refl _
  | @exhausted _ _ c => exact leads_skipTrivia c
  | @ended _ _ c => exact leads_skipTrivia c
  | @semicolon _ _ c => exact (leads_skipTrivia c).trans (leads_advance _)
  | @node _ _ c _ _ _ _ _ _ _ _ hnode _ ih =>
      exact ((leads_skipTrivia c).trans (hitem.steps hnode).leads).trans ih
  | @piece _ _ c _ _ _ _ _ _ _ _ ih =>
      exact ((leads_skipTrivia c).trans (leads_advance _)).trans ih

/-- A statement takes its first token unless that ends something: what could end the
statement before it has not been read. -/
theorem steps_statementLoop {item : Production} (hitem : Moves item) (turns : Nat)
    {p : Progress} (hp : p.complete = false) {c : Cursor} {first : Token}
    (hpeek : c.peek? = some first) (hfirst : first.kind.isCloser = false) :
    c.Steps (statementLoop item (turns + 1) p c).cursor := by
  obtain ⟨rest, hahead⟩ := ahead_of_peek? hpeek
  have hrun := statementRun item (turns + 1) p c
  generalize statementLoop item (turns + 1) p c = found at hrun
  by_cases htrivia : first.kind.isTrivia = true
  · refine (steps_skipTrivia hahead htrivia).trans_leads ?_
    cases hrun with
    | exhausted | ended => exact Leads.refl _
    | semicolon => exact leads_advance _
    | node _ _ _ hnode hmore =>
        exact (hitem.steps hnode).leads.trans (hmore.eq ▸ leads_statementLoop hitem turns _ _)
    | piece _ _ _ _ hmore =>
        exact (leads_advance _).trans (hmore.eq ▸ leads_statementLoop hitem turns _ _)
  · have hskip := skipTrivia_of_not_trivia hahead (Bool.not_eq_true _ ▸ htrivia)
    cases hrun with
    | exhausted hahead' => rw [hskip, hahead] at hahead'; cases hahead'
    | ended hahead' hend =>
        rw [hskip, hahead, List.cons.injEq] at hahead'
        rw [← hahead'.1] at hend
        simp [EndsStatement, hfirst, hp] at hend
    | semicolon =>
        rw [hskip]
        exact steps_advance hahead
    | node _ _ _ hnode hmore =>
        rw [hskip] at hnode
        exact (hitem.steps hnode).trans_leads (hmore.eq ▸ leads_statementLoop hitem turns _ _)
    | piece _ _ _ _ hmore =>
        rw [hskip] at hmore
        exact (steps_advance hahead).trans_leads (hmore.eq ▸ leads_statementLoop hitem turns _ _)

/-- What comes before the parameters of a function bounds nothing, and begins with its first
token. -/
theorem functionHead_eq_ok {input : Input} {c : Cursor} {head : FunctionHead}
    (h : functionHead input c = .ok head) :
    (∃ first rest, c.ahead = first :: rest ∧ head.start = first.start)
      ∧ c.Steps head.cursor ∧ c.Skims head.cursor := by
  have hname (c : Cursor) :
      c.Skims ((c.skipTrivia.skip .operator (· == "*")).skipTrivia.skip .identifier fun _ => true) :=
    (((skims_skipTrivia c).trans (skims_skip _ .operator (· == "*") rfl)).trans
      (skims_skipTrivia _)).trans (skims_skip _ .identifier (fun _ => true) rfl)
  unfold functionHead at h
  split at h
  · exact absurd h (by simp)
  cases hasync : c.accept? .keyword (· == "async") with
  | none =>
      simp only [hasync] at h
      split at h
      · exact absurd h (by simp)
      · rename_i keyword after hkeyword
        obtain ⟨-, -, -, hahead⟩ := accept?_eq_some hkeyword
        rw [← Except.ok.inj h]
        exact ⟨⟨_, _, hahead, rfl⟩, (steps_of_accept? hkeyword).trans_leads (hname after).leads,
          (skims_of_accept? hkeyword rfl).trans (hname after)⟩
  | some found =>
      obtain ⟨async, c'⟩ := found
      simp only [hasync] at h
      obtain ⟨-, -, -, hahead⟩ := accept?_eq_some hasync
      split at h
      · exact absurd h (by simp)
      · rename_i keyword after hkeyword
        have hrest := ((skims_skipTrivia c').trans (skims_of_accept? hkeyword rfl)).trans
          (hname after)
        rw [← Except.ok.inj h]
        exact ⟨⟨_, _, hahead, rfl⟩, (steps_of_accept? hasync).trans_leads hrest.leads,
          (skims_of_accept? hasync rfl).trans hrest⟩

theorem moves_functionDeclaration (input : Input) {parentheses block : Production}
    (hparentheses : Moves parentheses) (hblock : Moves block) :
    Moves (functionDeclaration input parentheses block) := by
  refine ⟨fun {c node d} h => ?_⟩
  obtain ⟨hhead, hparts⟩ := functionRead h
  refine (functionHead_eq_ok hhead).2.1.trans_leads (leads_sequence? ?_ hparts)
  intro p hp
  rcases List.mem_cons.mp hp with rfl | hp
  · exact hparentheses
  · exact List.mem_singleton.mp hp ▸ hblock

theorem moves_variableDeclaration (input : Input) {item : Production} (hitem : Moves item) :
    Moves (variableDeclaration input item) := by
  refine ⟨fun {c node d} h => ?_⟩
  obtain ⟨hhead⟩ := variableRead h
  obtain ⟨-, keyword, after, hkeyword, rfl⟩ := variableHead?_eq_some.mp hhead
  refine (steps_of_accept? hkeyword).trans_leads ((leads_skipTrivia after).trans ?_)
  refine Leads.trans ?_ (leads_statementLoop hitem _ _ _)
  exact leads_skip _ .identifier fun _ => true

theorem moves_statement (input : Input) {item : Production} (hitem : Moves item) :
    Moves (statement input item) := by
  refine ⟨fun {c node d} h => ?_⟩
  obtain ⟨hfirst⟩ := statementRead h
  obtain ⟨hpeek, -, hclose⟩ := statementStart?_eq_some.mp hfirst
  exact steps_statementLoop hitem _ rfl hpeek hclose

/-- A choice among symbols inside a document. -/
theorem moves_choice {self : Symbol → Production} (hself : ∀ s, s ≠ .document → Moves (self s))
    {symbols : List Symbol} (h : Symbol.document ∉ symbols) : Moves (choice (symbols.map self)) :=
  Moves.choice_map fun _ hs => hself _ (ne_of_mem_of_not_mem hs h)

theorem document_notMem (rich : Bool) :
    Symbol.document ∉ if rich then Symbol.statements else Symbol.structures := by
  cases rich <;> decide

theorem moves_derive (input : Input) {self : Symbol → Production}
    (hself : ∀ s, s ≠ .document → Moves (self s)) (s : Symbol) (hs : s ≠ .document) :
    Moves (derive input self s) := by
  have hstructures : Moves (derive.structures self) := moves_choice hself (by decide)
  have hstatements : Moves (derive.statements input self) :=
    moves_choice hself (document_notMem input.rich)
  have hchildren : Moves (choice (Symbol.children.map self)) := moves_choice hself (by decide)
  have hexpression : Moves (choice ([.block].map self)) := moves_choice hself (by decide)
  cases s with
  | document => exact absurd rfl hs
  | comment => exact moves_comment
  | block => exact Group.block.moves_read input hstatements
  | parentheses => exact Group.parentheses.moves_read input hstructures
  | brackets => exact Group.brackets.moves_read input hstructures
  | template => exact moves_template input hstructures
  | element => exact moves_element input Dialect.script hchildren hexpression
  | text => exact moves_text input
  | functionDeclaration =>
      exact moves_functionDeclaration input (hself .parentheses (by simp)) (hself .block (by simp))
  | variableDeclaration => exact moves_variableDeclaration input hstructures
  | statement => exact moves_statement input hstructures

theorem moves_readWithin (input : Input) (height : Nat) (s : Symbol) (hs : s ≠ .document) :
    Moves (readWithin input height s) := by
  induction height generalizing s with
  | zero => exact moves_nothing
  | succ height ih => exact moves_derive input ih s hs

end Script

/-! ### Markup -/

namespace Markup

theorem moves_rawText (input : Input) : Moves (rawText input) := by
  refine ⟨fun {c node d} h => ?_⟩
  unfold rawText at h
  split at h
  · exact absurd h (by simp)
  · rename_i t c' ht
    refine (steps_of_accept? ht).trans_leads ?_
    simp only at h
    split at h
    · simp only [Option.some.injEq, Prod.mk.injEq] at h
      exact h.2 ▸ Leads.refl _
    split at h
    · simp only [Option.some.injEq, Prod.mk.injEq] at h
      exact h.2 ▸ Leads.refl _
    · simp only [Option.some.injEq, Prod.mk.injEq] at h
      exact h.2 ▸ ⟨Passes.refl _, List.suffix_append _ _, rfl⟩

/-- A choice among symbols inside a document. -/
theorem moves_choice {self : Symbol → Production} (hself : ∀ s, s ≠ .document → Moves (self s))
    {symbols : List Symbol} (h : Symbol.document ∉ symbols) : Moves (choice (symbols.map self)) :=
  Moves.choice_map fun _ hs => hself _ (ne_of_mem_of_not_mem hs h)

theorem moves_derive (input : Input) {self : Symbol → Production}
    (hself : ∀ s, s ≠ .document → Moves (self s)) (s : Symbol) (hs : s ≠ .document) :
    Moves (derive input self s) := by
  have hchildren : Moves (choice (Symbol.children.map self)) := moves_choice hself (by decide)
  cases s with
  | document => exact absurd rfl hs
  | comment => exact moves_comment
  | element => exact moves_element input Dialect.markup hchildren (Moves.choice (by simp))
  | text => exact moves_text input
  | rawText => exact moves_rawText input

theorem moves_readWithin (input : Input) (height : Nat) (s : Symbol) (hs : s ≠ .document) :
    Moves (readWithin input height s) := by
  induction height generalizing s with
  | zero => exact moves_nothing
  | succ height ih => exact moves_derive input ih s hs

end Markup

end SourceView
