/-
How a rule that fails takes the cursor back.

A production that fails returns nothing, and whoever tried it goes on with the cursor that it was
given.  With one cursor for the whole parse it comes to the same in another way: whoever tries a rule
notes the place and the number of faults, and when the rule fails the cursor goes back there.  The
place says nothing about the containers that are open, so this takes back everything only because
every container that a rule opens is closed again wherever the rule gives up.

Most rules look at a single token before they decide.  Three may give up later: a rule of a
stylesheet at its head or before its block, a declaration at its colon or at a brace in its value,
and a declaration of a function at its keyword, its parameters or its body.  These are tried on a
cursor of their own, and a failed attempt says where it gave up.
-/
import SourceView.Language
import SourceView.Parsing.Navigation
import SourceView.Proofs.Parsing.Grammars

namespace SourceView

namespace Parsing

variable {c d : Cursor} {p : Production}

/-! ### Going back -/

namespace Cursor

theorem Passes.moveTo (h : c.Passes d) :
    d.moveTo c.pos = { d with behind := c.behind, ahead := c.ahead } := by
  obtain ⟨ts, hahead, hbehind⟩ := h
  have htokens : d.tokens = c.behind.reverse ++ c.ahead := by
    rw [tokens, hbehind, hahead, List.reverse_append, List.reverse_reverse, List.append_assoc]
  have hpos : c.pos = c.behind.reverse.length := List.length_reverse.symm
  rw [Cursor.moveTo, htokens, hpos, List.take_left, List.drop_left, List.reverse_reverse]

/-- Going back takes back all that a parse has done since, but for the reports on other parses. -/
theorem Leads.restore (h : c.Leads d) : d.restore c.snapshot = { c with reports := d.reports } := by
  have hfaults : d.faults.drop (d.faults.length - c.faults.length) = c.faults :=
    (List.suffix_iff_eq_drop.mp h.faults).symm
  simp only [Cursor.restore, snapshot, h.passes.moveTo, hfaults, h.opened]

end Cursor

open Cursor

/-- Where a production leaves the cursor if it fails before it moves. -/
def landing (p : Production) (c : Cursor) : Cursor :=
  match p c with
  | some (_, d) => d
  | none => c

/-- How a production runs on one cursor: `leftAt` says where it leaves the cursor, whether or not it
reads a node. -/
structure Runs (p : Production) (leftAt : Cursor → Cursor) : Prop where
  reads : ∀ {c : Cursor} {node : Node} {d : Cursor}, p c = some (node, d) → leftAt c = d
  leads : ∀ c : Cursor, c.Leads (leftAt c)

theorem Moves.runs (h : Moves p) : Runs p (landing p) where
  reads hread := by rw [landing, hread]
  leads c := by
    unfold landing
    cases hread : p c with
    | none => exact Leads.refl c
    | some found => exact (h.steps hread).leads

/-- A rule that is tried runs as it was tried. -/
theorem Attempt.runs {attempt : Attempt} (h : ∀ c : Cursor, c.Leads (attempt.leftAt c)) :
    Runs attempt.read attempt.leftAt where
  reads := Attempt.leftAt_of_read
  leads := h

/-- In a table that has a rule for every symbol, a name that is not the one for documents stands for
a symbol that is not the one for documents. -/
theorem exists_symbol {α ρ : Type} {nameOf : α → String} {ruleOf : α → ρ} {symbols : List α}
    {document : α} {name : String} {rule : ρ} (hname : name ≠ nameOf document)
    (hrule : (symbols.map fun s => (nameOf s, ruleOf s)).lookup name = some rule) :
    ∃ s, symbols.find? (name == nameOf ·) = some s ∧ s ≠ document ∧ ruleOf s = rule := by
  induction symbols with
  | nil => simp at hrule
  | cons s symbols ih =>
      rw [List.map_cons, List.lookup_cons] at hrule
      rw [List.find?_cons]
      cases hs : name == nameOf s with
      | true =>
          rw [hs] at hrule
          refine ⟨s, rfl, ?_, Option.some.inj hrule⟩
          rintro rfl
          exact hname (beq_iff_eq.mp hs)
      | false =>
          rw [hs] at hrule
          exact ih hrule

end Parsing

open Parsing Parsing.Cursor

variable {input : Input}

/-! ### Stylesheets -/

namespace Stylesheet

theorem leads_tryRule (starts : Array Bool) {item block : Production} (hitem : Moves item)
    (hblock : Moves block) (c : Cursor) :
    c.Leads ((tryRule input starts item block).leftAt c) := by
  have hhead := leads_headLoop hitem none input.bound c
  have hnext := hhead.trans (leads_skipTrivia _)
  unfold Attempt.leftAt tryRule
  cases ruleStart? input starts c with
  | none => exact Leads.refl c
  | some first =>
      simp only
      cases (headLoop item none input.bound c).stop with
      | none => exact hhead
      | some stop =>
          simp only
          cases hbody : block (headLoop item none input.bound c).cursor.skipTrivia with
          | none => exact hnext
          | some found =>
              obtain ⟨node, d⟩ := found
              have hread : c.Leads d := hnext.trans (hblock.steps hbody).leads
              cases node with
              | container _ _ kind _ => cases kind <;> exact hread
              | _ => exact hread

theorem leads_declarationStart {c d : Cursor} (h : declarationStart input c = .error d) :
    c.Leads d := by
  unfold declarationStart at h
  split at h
  · exact Except.error.inj h ▸ Leads.refl c
  split at h
  · exact Except.error.inj h ▸ Leads.refl c
  split at h
  · exact Except.error.inj h ▸ (leads_advance c).trans (leads_skipTrivia _)
  · exact absurd h (by simp)

theorem leads_tryDeclaration {item : Production} (hitem : Moves item) (c : Cursor) :
    c.Leads ((tryDeclaration input item).leftAt c) := by
  unfold Attempt.leftAt tryDeclaration
  cases hstart : declarationStart input c with
  | error d => exact leads_declarationStart hstart
  | ok start =>
      obtain ⟨property, v⟩ := start
      have hleads := (steps_declarationStart hstart).leads.trans
        (leads_valueLoop hitem input.bound v)
      simp only
      cases hvalue : valueLoop item input.bound v with
      | error d =>
          rw [hvalue] at hleads
          exact hleads
      | ok w =>
          rw [hvalue] at hleads
          exact hleads

/-- Where what a symbol reads leaves the cursor. -/
def leftAt (input : Input) (symbol : Symbol) : Cursor → Cursor :=
  let starts := (ruleStarts input.tokens).toArray
  let self := readWithin input starts (3 * input.bound)
  match symbol with
  | .rule => (tryRule input starts (derive.structures self) (self .block)).leftAt
  | .declaration => (tryDeclaration input (derive.structures self)).leftAt
  | symbol => landing (read input symbol)

theorem runs_leftAt {s : Symbol} (hs : s ≠ .document) : Runs (read input s) (leftAt input s) := by
  have hself := moves_readWithin input (ruleStarts input.tokens).toArray (3 * input.bound)
  have hstructures := moves_choice hself (show Symbol.document ∉ Symbol.structures by decide)
  have hread : read input s = derive input (ruleStarts input.tokens).toArray
      (readWithin input (ruleStarts input.tokens).toArray (3 * input.bound)) s := by
    rw [read]
    rfl
  cases s with
  | document => exact absurd rfl hs
  | rule => exact hread ▸ Attempt.runs (leads_tryRule _ hstructures (hself .block (by simp)))
  | declaration => exact hread ▸ Attempt.runs (leads_tryDeclaration hstructures)
  | _ => exact (moves_readWithin input _ _ _ hs).runs

end Stylesheet

/-! ### Scripts -/

namespace Script

theorem leads_functionHead {c d : Cursor} (h : functionHead input c = .error d) : c.Leads d := by
  unfold functionHead at h
  split at h
  · exact Except.error.inj h ▸ Leads.refl c
  simp only at h
  split at h
  · rw [← Except.error.inj h]
    split
    · rename_i hasync
      exact (steps_of_accept? hasync).leads.trans (leads_skipTrivia _)
    · exact Leads.refl c
  · exact absurd h (by simp)

/-- When the parts of a function are not all there, the cursor is back where the first one is
due. -/
theorem leads_tryFunctionDeclaration {parentheses block : Production} (hparentheses : Moves parentheses)
    (hblock : Moves block) (c : Cursor) :
    c.Leads ((tryFunctionDeclaration input parentheses block).leftAt c) := by
  unfold Attempt.leftAt tryFunctionDeclaration
  cases hhead : functionHead input c with
  | error d => exact leads_functionHead hhead
  | ok head =>
      have hleads := (functionHead_eq_ok hhead).2.1.leads
      simp only
      cases hparts : sequence? [parentheses, block] head.cursor with
      | none => exact hleads
      | some found =>
          refine hleads.trans (leads_sequence? ?_ hparts)
          intro p hp
          rcases List.mem_cons.mp hp with rfl | hp
          · exact hparentheses
          · exact List.mem_singleton.mp hp ▸ hblock

/-- Where what a symbol reads leaves the cursor. -/
def leftAt (input : Input) (symbol : Symbol) : Cursor → Cursor :=
  let self := readWithin input (3 * input.bound)
  match symbol with
  | .functionDeclaration => (tryFunctionDeclaration input (self .parentheses) (self .block)).leftAt
  | symbol => landing (read input symbol)

theorem runs_leftAt {s : Symbol} (hs : s ≠ .document) : Runs (read input s) (leftAt input s) := by
  have hself := moves_readWithin input (3 * input.bound)
  have hread : read input s = derive input (readWithin input (3 * input.bound)) s := by
    rw [read]
    rfl
  cases s with
  | document => exact absurd rfl hs
  | functionDeclaration =>
      exact hread ▸ Attempt.runs
        (leads_tryFunctionDeclaration (hself .parentheses (by simp)) (hself .block (by simp)))
  | _ => exact (moves_readWithin input _ _ hs).runs

end Script

/-! ### Every language -/

namespace Language

/-- Where the rule of a name leaves the cursor; rules of markup fail before they move. -/
def leftAt (language : Language) (input : Input) (name : String) : Cursor → Cursor :=
  match language with
  | markup => ((Markup.Symbol.all.find? (name == ·.name)).map
      fun s => landing (Markup.read input s)).getD id
  | stylesheet => ((Stylesheet.Symbol.all.find? (name == ·.name)).map
      (Stylesheet.leftAt input)).getD id
  | script => ((Script.Symbol.all.find? (name == ·.name)).map (Script.leftAt input)).getD id

theorem runs_leftAt (language : Language) {name : String} {rule : Rule} (hname : name ≠ "document")
    (hrule : language.grammar.rules.lookup name = some rule) :
    Runs (rule input) (language.leftAt input name) := by
  cases language with
  | markup =>
      have hname' : name ≠ Markup.Symbol.document.name := hname
      obtain ⟨s, hfind, hs, rfl⟩ := exists_symbol hname' hrule
      simp only [leftAt, hfind, Option.map_some, Option.getD_some]
      exact (Markup.moves_readWithin input _ s hs).runs
  | stylesheet =>
      have hname' : name ≠ Stylesheet.Symbol.document.name := hname
      obtain ⟨s, hfind, hs, rfl⟩ := exists_symbol hname' hrule
      simp only [leftAt, hfind, Option.map_some, Option.getD_some]
      exact Stylesheet.runs_leftAt hs
  | script =>
      have hname' : name ≠ Script.Symbol.document.name := hname
      obtain ⟨s, hfind, hs, rfl⟩ := exists_symbol hname' hrule
      simp only [leftAt, hfind, Option.map_some, Option.getD_some]
      exact Script.runs_leftAt hs

end Language

end SourceView
