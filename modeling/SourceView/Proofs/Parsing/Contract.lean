/-
What every rule keeps to.

A rule either fails, and then nothing has happened, or it reads a node, and then the cursor is past
at least one token, the faults noted before are still there with any new ones after them, the
containers that are open are the ones that were open before, and the node lies between the token
that the rule began at and the token that comes next.  Only the rule for a whole document reads a
node without a token.

All this holds wherever the cursor stands, whatever has been noted and whatever is open.  A choice
of rules and rules one after another keep to the same, since each part does.
-/
import SourceView.Proofs.Parsing.Backtracking
import SourceView.Proofs.Parsing.Nesting
import SourceView.Proofs.Parsing.Turns

namespace SourceView

namespace Parsing

open Cursor

variable {input : Input} {c d : Cursor} {node : Node} {p : Production}

/-- What a rule has done that read a node and took the cursor from one place to another. -/
structure Honours (input : Input) (c : Cursor) (node : Node) (d : Cursor) : Prop where
  pos : c.pos < d.pos
  /-- The latest faults come first. -/
  faults : c.faults <:+ d.faults
  opened : d.opened = c.opened
  start : c.peek?.map Token.start = some node.start
  /-- The end of the range stands in for the start of the next token when there is none. -/
  stop : node.stop ≤ d.unclosedEnd input

/-- What trying rules from a cursor on has come to: nothing, or a node. -/
structure KeepsContract (input : Input) (c : Cursor) (r : Outcome (Option Node)) : Prop where
  fails : r.answer = .ok none → r.cursor = c
  reads : ∀ node, r.answer = .ok (some node) → Honours input c node r.cursor

namespace Cursor

theorem Steps.pos_lt (h : c.Steps d) : c.pos < d.pos := by
  obtain ⟨ts, hahead, hbehind⟩ := h.leads.passes
  have hahead := congrArg List.length hahead
  have hbehind := congrArg List.length hbehind
  have hshorter := h.shorter
  simp only [List.length_append, List.length_reverse] at hahead hbehind
  unfold pos
  omega

theorem Steps.ahead_ne_nil (h : c.Steps d) : c.ahead ≠ [] := by
  intro hnil
  have hshorter := h.shorter
  simp [hnil] at hshorter

/-- Any place in tokens that are in order is one that a parse may stand at. -/
theorem Within.ordered (hc : c.Within input.tokens)
    (horder : Token.InOrder input.start input.stop input.tokens) : c.Ordered input := by
  have hcursor : input.cursor.Ordered input := ⟨horder, Nat.lt_succ_self _⟩
  exact hcursor.passes ⟨c.behind.reverse, hc, by simp [Input.cursor]⟩

end Cursor

theorem Fits.honours (hp : Fits input p) (hc : c.Ordered input) (h : p c = some (node, d)) :
    Honours input c node d := by
  have hsteps := hp.steps h
  have hreads := hp.reads hc h
  refine ⟨hsteps.pos_lt, hsteps.leads.faults, hsteps.leads.opened, ?_, hreads.stop⟩
  cases hahead : c.ahead with
  | nil => exact absurd hahead hsteps.ahead_ne_nil
  | cons t rest => rw [peek?_of_ahead hahead, hreads.start, unclosedEnd_cons hahead, Option.map_some]

/-! ### Rules by their names -/

/-- The rules of the grammar fit the input, but for the one that reads a whole document. -/
def Grammar.AllFit (g : Grammar Rule) (input : Input) : Prop :=
  ∀ name rule, name ≠ "document" → g.rules.lookup name = some rule → Fits input (rule input)

theorem eq_ok_of_toOption {ε α : Type} {result : Except ε α} {a : α} (h : result.toOption = some a) :
    result = .ok a := by
  cases result with
  | error e => cases h
  | ok b => exact congrArg Except.ok (Option.some.inj h)

namespace Grammar

variable {g : Grammar Rule} {name : String} {names : List String}

theorem apply_of_reads {rule : Rule} (h : g.rules.lookup name = some rule)
    (hread : rule input c = some (node, d)) : g.apply input name c = ⟨.ok (some node), d⟩ := by
  simp only [apply, Grammar.rule, h, hread]

theorem apply_of_fails {rule : Rule} (h : g.rules.lookup name = some rule)
    (hread : rule input c = none) : g.apply input name c = ⟨.ok none, c⟩ := by
  simp only [apply, Grammar.rule, h, hread]

/-- A rule that fails, or that does not exist, leaves the cursor where it was. -/
theorem cursor_of_apply (h : ∀ node, (g.apply input name c).answer ≠ .ok (some node)) :
    (g.apply input name c).cursor = c := by
  cases hrule : g.rules.lookup name with
  | none => simp [apply, Grammar.rule, hrule]
  | some rule =>
      cases hread : rule input c with
      | none => rw [apply_of_fails hrule hread]
      | some found => exact absurd (congrArg Outcome.answer (apply_of_reads hrule hread)) (h found.1)

/-- An answer that is no error comes from a rule. -/
theorem exists_rule_of_ok {answer : Option Node} (h : (g.apply input name c).answer = .ok answer) :
    ∃ rule, g.rules.lookup name = some rule := by
  cases hrule : g.rules.lookup name with
  | none => simp [apply, Grammar.rule, hrule] at h
  | some rule => exact ⟨rule, rfl⟩

/-- The rule of the name, and what it has read. -/
theorem exists_rule_of_apply (h : (g.apply input name c).answer = .ok (some node)) :
    ∃ rule, g.rules.lookup name = some rule
      ∧ rule input c = some (node, (g.apply input name c).cursor) := by
  obtain ⟨rule, hrule⟩ := exists_rule_of_ok h
  refine ⟨rule, hrule, ?_⟩
  cases hread : rule input c with
  | none =>
      rw [apply_of_fails hrule hread] at h
      exact absurd h (by simp)
  | some found =>
      rw [apply_of_reads hrule hread, Except.ok.injEq, Option.some.injEq] at h
      rw [apply_of_reads hrule hread, ← h]

theorem AllFit.leads_apply (hg : g.AllFit input) (hname : name ≠ "document") :
    c.Leads (g.apply input name c).cursor := by
  by_cases h : ∃ node, (g.apply input name c).answer = .ok (some node)
  · obtain ⟨node, h⟩ := h
    obtain ⟨rule, hrule, hread⟩ := exists_rule_of_apply h
    exact ((hg name rule hname hrule).steps hread).leads
  · rw [not_exists] at h
    rw [cursor_of_apply h]
    exact Leads.refl c

theorem AllFit.apply_keeps (hg : g.AllFit input) (hc : c.Ordered input) (hname : name ≠ "document") :
    KeepsContract input c (g.apply input name c) where
  fails hnone := cursor_of_apply (by simp [hnone])
  reads node hnode := by
    obtain ⟨rule, hrule, hread⟩ := exists_rule_of_apply hnode
    exact (hg name rule hname hrule).honours hc hread

/-- The rules of a choice that fail leave the cursor to the first one that does not. -/
theorem AllFit.oneOf_keeps (hg : g.AllFit input) (hc : c.Ordered input)
    (hnames : "document" ∉ names) : KeepsContract input c (g.oneOf input names c) := by
  induction names with
  | nil => exact ⟨fun _ => rfl, fun node h => absurd h (by simp [oneOf])⟩
  | cons name names ih =>
      rw [List.mem_cons, not_or] at hnames
      simp only [oneOf]
      split
      · exact ih hnames.2
      · exact hg.apply_keeps hc (Ne.symm hnames.1)

/-- Rules one after another only move on. -/
theorem AllFit.leads_sequenceFrom (hg : g.AllFit input)
    (hnames : ∀ name ∈ names, (optionalName? name).getD name ≠ "document") :
    c.Leads (g.sequenceFrom input names c).cursor := by
  induction names generalizing c with
  | nil => exact Leads.refl c
  | cons name names ih =>
      have hfirst := (leads_skipTrivia c).trans
        (hg.leads_apply (hnames name List.mem_cons_self) (c := c.skipTrivia))
      simp only [sequenceFrom]
      split
      · exact hfirst
      split
      · exact hfirst
      · exact hfirst.trans (ih fun other hother => hnames other (List.mem_cons_of_mem name hother))

theorem cursor_of_sequence (h : (g.sequence input names c).answer = .ok none) :
    (g.sequence input names c).cursor = c := by
  unfold sequence at h ⊢
  simp only at h ⊢
  split at h
  · rfl
  · rename_i hsome
    exact absurd h hsome

end Grammar

end Parsing

open Parsing

variable {input : Input}

/-- The rules of every language fit their input. -/
theorem Language.allFit (language : Language) : language.grammar.AllFit input := by
  intro name rule hname hrule
  cases language with
  | markup =>
      have hname' : name ≠ Markup.Symbol.document.name := hname
      obtain ⟨s, -, hs, rfl⟩ := exists_symbol hname' hrule
      exact Markup.fits_readWithin _ s hs
  | stylesheet =>
      have hname' : name ≠ Stylesheet.Symbol.document.name := hname
      obtain ⟨s, -, hs, rfl⟩ := exists_symbol hname' hrule
      exact Stylesheet.fits_readWithin _ _ s hs
  | script =>
      have hname' : name ≠ Script.Symbol.document.name := hname
      obtain ⟨s, -, hs, rfl⟩ := exists_symbol hname' hrule
      exact Script.fits_readWithin _ s hs

namespace Language

/-- **Rules keep to a contract.**  Wherever the cursor stands in tokens that are in order, whatever
has been noted and whatever is open, a rule of a grammar, but for the one that reads a whole document,
does one of two things.  It fails, and the cursor is as before: nothing of what it has passed, noted
and opened on its way is left once the cursor has gone back.  Or it reads a node and moves on; what
was noted stays noted, the same containers are open, and the node lies between the token where the
rule began and the token that comes next.  A choice of rules does the same, and when rules one after
another fail, the cursor goes back however many of them have read something. -/
theorem rules_keep_contract (language : Language) {input : Input} {c : Cursor}
    (horder : Token.InOrder input.start input.stop input.tokens) (hc : c.Within input.tokens) :
    let g := language.grammar
    (∀ name, name ≠ "document" →
        let r := g.apply input name c
        let left := language.leftAt input name c
        KeepsContract input c r
          ∧ (r.answer = .ok none → left.restore c.snapshot = { c with reports := left.reports })
          ∧ ∀ node, r.answer = .ok (some node) → r.cursor = left)
      ∧ (∀ names, "document" ∉ names → KeepsContract input c (g.oneOf input names c))
      ∧ ∀ names, (∀ name ∈ names, (Grammar.optionalName? name).getD name ≠ "document") →
        let r := g.sequence input names c
        let left := (g.sequenceFrom input names c).cursor
        r.answer = .ok none →
          r.cursor = c ∧ left.restore c.snapshot = { c with reports := left.reports } := by
  intro g
  have hordered := hc.ordered horder
  have hg : g.AllFit input := language.allFit
  refine ⟨fun name hname => ?_, fun names hnames => hg.oneOf_keeps hordered hnames,
    fun names hnames => ?_⟩
  · intro r left
    refine ⟨hg.apply_keeps hordered hname, fun hnone => ?_, fun node hnode => ?_⟩
    · obtain ⟨rule, hrule⟩ := Grammar.exists_rule_of_ok hnone
      exact ((language.runs_leftAt hname hrule).leads c).restore
    · obtain ⟨rule, hrule, hread⟩ := Grammar.exists_rule_of_apply hnode
      exact ((language.runs_leftAt hname hrule).reads hread).symm
  · intro r left hnone
    exact ⟨Grammar.cursor_of_sequence hnone, (hg.leads_sequenceFrom hnames).restore⟩

/-- A declaration that gets to a brace before it fails, and the rule that is read instead. -/
theorem rules_keep_contract_of_brace :
    let input : Input :=
      { tokens := [⟨.property, "a", 0, 1, "", "", []⟩, ⟨.colon, ":", 1, 2, "", "", []⟩,
          ⟨.identifier, "b", 2, 3, "", "", []⟩, ⟨.blockOpen, "\x7b", 3, 4, "", "", []⟩,
          ⟨.blockClose, "\x7d", 4, 5, "", "", []⟩]
        source := "a:b\x7b\x7d".toList, start := 0, stop := 5 }
    let c := input.cursor
    let left := stylesheet.leftAt input "declaration" c
    let r := stylesheet.grammar.oneOf input ["declaration", "rule"] c
    let node : Node := .container 0 5 (.rule "a:b" true) [.container 3 5 (.block true) []]
    (stylesheet.grammar.apply input "declaration" c).answer = .ok none ∧ left.pos = 3
      ∧ left.restore c.snapshot = { c with reports := left.reports }
      ∧ r.answer = .ok (some node) ∧ Honours input c node r.cursor := by
  intro input c left r node
  have horder : Token.InOrder input.start input.stop input.tokens := by
    simp [input, Token.InOrder, Token.Laid]
  have hwithin : c.Within input.tokens := rfl
  obtain ⟨happly, honeOf, -⟩ := rules_keep_contract stylesheet horder hwithin
  have hfails : (stylesheet.grammar.apply input "declaration" c).answer = .ok none :=
    eq_ok_of_toOption (by decide +kernel)
  have hreads : r.answer = .ok (some node) := eq_ok_of_toOption (by decide +kernel)
  exact ⟨hfails, by decide +kernel, (happly "declaration" (by decide)).2.1 hfails, hreads,
    (honeOf ["declaration", "rule"] (by decide)).reads node hreads⟩

end Language

end SourceView
