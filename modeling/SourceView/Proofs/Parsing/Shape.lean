/-
What every node of a parse is like.

A parse builds nodes from the inside out.  A leaf is never an attribute, a container holds
nodes that were read before it, and an element holds such nodes and, apart from them, its
attributes.  So a property of nodes that is passed on in these three ways holds of every node that a
production reads, whatever the tokens are.
-/
import SourceView.Language
import SourceView.Proofs.Parsing.ElementOutline
import SourceView.Proofs.Parsing.Nesting

namespace SourceView

namespace Parsing

/-- The property is passed on to a node from the nodes that it is built of. -/
structure Inherits (P : Node → Prop) : Prop where
  leaf : ∀ {start stop info}, (Node.leaf start stop info).isAttribute = false →
    P (.leaf start stop info)
  container : ∀ {start stop info children}, (∀ n ∈ children, P n) →
    P (.container start stop info children)
  element : ∀ {start stop info attributes children}, (∀ a ∈ attributes, a.isAttribute = true) →
    (∀ n ∈ children, P n) → P (.element start stop info attributes children)

/-- The production reads nodes that have the property. -/
structure Yields (P : Node → Prop) (p : Production) : Prop where
  reads : ∀ {c : Cursor} {node : Node} {d : Cursor}, p c = some (node, d) → P node

variable {P : Node → Prop} {input : Input}

theorem yields_nothing : Yields P fun _ => none := by
  refine ⟨fun {c node d} h => ?_⟩
  exact absurd h (by simp)

theorem Yields.choice {ps : List Production} (h : ∀ p ∈ ps, Yields P p) : Yields P (choice ps) := by
  refine ⟨fun {c node d} hchoice => ?_⟩
  obtain ⟨p, hp, hresult⟩ := choice_eq_some hchoice
  exact (h p hp).reads hresult

theorem Yields.choice_map {α : Type} {f : α → Production} {as : List α}
    (h : ∀ a ∈ as, Yields P (f a)) : Yields P (Parsing.choice (as.map f)) := by
  refine Yields.choice fun p hp => ?_
  obtain ⟨a, ha, rfl⟩ := List.mem_map.mp hp
  exact h a ha

theorem sequence?_yields {ps : List Production} (h : ∀ p ∈ ps, Yields P p) {c d : Cursor}
    {nodes : List Node} (hseq : sequence? ps c = some (nodes, d)) : ∀ n ∈ nodes, P n := by
  induction ps generalizing c nodes with
  | nil =>
      simp only [sequence?, Option.some.injEq, Prod.mk.injEq] at hseq
      simp [← hseq.1]
  | cons p ps ih =>
      unfold sequence? at hseq
      cases hp : p c.skipTrivia with
      | none => simp [hp] at hseq
      | some found =>
          simp only [hp, Option.map_eq_some_iff, Prod.mk.injEq] at hseq
          obtain ⟨⟨others, e⟩, hothers, rfl, rfl⟩ := hseq
          exact List.forall_mem_cons.mpr ⟨(h p List.mem_cons_self).reads hp,
            ih (fun q hq => h q (List.mem_cons_of_mem p hq)) hothers⟩

/-! ### Containers and leaves -/

theorem itemsLoop_yields {item : Production} (hitem : Yields P item) (closer : Option TokenKind)
    (turns : Nat) (c : Cursor) : ∀ n ∈ (itemsLoop item closer turns c).nodes, P n := by
  have hrun := itemsRun item closer turns c
  generalize itemsLoop item closer turns c = found at hrun
  induction hrun with
  | spent | ended | closed | awaited => exact List.forall_mem_nil P
  | stray _ _ _ _ _ ih | filler _ _ _ _ _ ih => exact ih
  | node _ _ _ hnode _ ih => exact List.forall_mem_cons.mpr ⟨hitem.reads hnode, ih⟩

theorem Group.yields_read (hP : Inherits P) (g : Group) {item : Production}
    (hitem : Yields P item) : Yields P (g.read input item) := by
  refine ⟨fun {c node d} h => ?_⟩
  unfold read at h
  split at h
  · exact absurd h (by simp)
  · rename_i opener c' _
    split at h
    · simp only [Option.some.injEq, Prod.mk.injEq] at h
      exact h.1 ▸ hP.container (by simp)
    · have hinner := itemsLoop_yields hitem (some g.closer) input.bound
        (c'.push { closer := g.closer, start := opener.start })
      simp only [body, items] at h
      split at h <;>
        · simp only [Option.some.injEq, Prod.mk.injEq] at h
          exact h.1 ▸ hP.container hinner

theorem yields_comment (hP : Inherits P) : Yields P comment := by
  refine ⟨fun {c node d} h => ?_⟩
  unfold comment at h
  split at h
  · exact absurd h (by simp)
  split at h
  · simp only [Option.some.injEq, Prod.mk.injEq] at h
    exact h.1 ▸ hP.leaf rfl
  · exact absurd h (by simp)

theorem yields_text (hP : Inherits P) : Yields P (text input) := by
  refine ⟨fun {c node d} h => ?_⟩
  unfold text at h
  split at h
  · split at h
    · exact absurd h (by simp)
    split at h
    · simp only [Option.some.injEq, Prod.mk.injEq] at h
      exact h.1 ▸ hP.leaf rfl
    · exact absurd h (by simp)
  · exact absurd h (by simp)

/-! ### Elements -/

theorem readAttribute_yields (d : Dialect) {expression : Production}
    (hexpression : Yields P expression) (name : Token) (c : Cursor) :
    ∀ n ∈ (readAttribute input d expression name c).expression, P n := by
  unfold readAttribute
  simp only
  split
  · simp
  · split
    · split
      · simp
      · split
        · rename_i hnode
          simpa using hexpression.reads hnode
        · simp
    · split
      · rename_i hnode
        simpa using hexpression.reads hnode
      · simp

theorem startTagLoop_isAttribute (input : Input) (d : Dialect) (expression : Production)
    (turns : Nat) (c : Cursor) :
    ∀ a ∈ (startTagLoop input d expression turns c).attributes, a.isAttribute = true := by
  have hrun := startTagRun input d expression turns c
  generalize startTagLoop input d expression turns c = tag at hrun
  induction hrun with
  | spent | exhausted | ended | cut => exact List.forall_mem_nil _
  | named _ _ hread _ ih =>
      exact List.forall_mem_cons.mpr ⟨hread ▸ readAttribute_isAttribute .., ih⟩
  | expression _ _ _ _ _ _ ih | filler _ _ _ _ _ _ ih => exact ih

theorem startTagLoop_yields (input : Input) (d : Dialect) {expression : Production}
    (hexpression : Yields P expression) (turns : Nat) (c : Cursor) :
    ∀ n ∈ (startTagLoop input d expression turns c).expressions, P n := by
  have hrun := startTagRun input d expression turns c
  generalize startTagLoop input d expression turns c = tag at hrun
  induction hrun with
  | spent | exhausted | ended | cut => exact List.forall_mem_nil P
  | named _ _ hread _ ih =>
      refine List.forall_mem_append.mpr ⟨fun n hn => ?_, ih⟩
      exact readAttribute_yields d hexpression _ _ n (hread ▸ Option.mem_toList.mp hn)
  | expression _ _ _ _ hnode _ ih =>
      exact List.forall_mem_cons.mpr ⟨hexpression.reads hnode, ih⟩
  | filler _ _ _ _ _ _ ih => exact ih

theorem contentLoop_yields (d : Dialect) {child : Production} (hchild : Yields P child)
    (e : OpenElement) (turns : Nat) (c : Cursor) :
    ∀ n ∈ (contentLoop input d child e turns c).children, P n := by
  have hrun := contentRun input d child e turns c
  generalize contentLoop input d child e turns c = content at hrun
  induction hrun with
  | spent | exhausted | closed | interrupted | implied => exact List.forall_mem_nil P
  | stray _ _ _ _ _ ih | filler _ _ _ _ _ ih => exact ih
  | child _ _ _ hnode _ ih => exact List.forall_mem_cons.mpr ⟨hchild.reads hnode, ih⟩

theorem yields_element (hP : Inherits P) (d : Dialect) {child expression : Production}
    (hchild : Yields P child) (hexpression : Yields P expression) :
    Yields P (element input d child expression) := by
  refine ⟨fun {c node c'} h => ?_⟩
  obtain ⟨opener, rest, -, -, hread⟩ := elementRead h
  have hattributes := startTagLoop_isAttribute input d expression input.bound c.advance
  have hexpressions := startTagLoop_yields input d hexpression input.bound c.advance
  cases hread with
  | empty => exact hP.element hattributes hexpressions
  | tooDeep => exact hP.element hattributes hexpressions
  | content _ _ _ hcontent =>
      subst hcontent
      refine hP.element hattributes fun n hn => ?_
      rcases List.mem_append.mp hn with hn | hn
      · exact hexpressions n hn
      · exact contentLoop_yields d hchild _ input.bound _ n hn

end Parsing

open Parsing

variable {P : Node → Prop} {input : Input}

/-! ### Stylesheets -/

namespace Stylesheet

theorem headLoop_yields {item : Production} (hitem : Yields P item) (stop : Option Int)
    (turns : Nat) (c : Cursor) : ∀ n ∈ (headLoop item stop turns c).children, P n := by
  have hrun := headRun item turns stop c
  generalize headLoop item stop turns c = head at hrun
  induction hrun with
  | spent | ended | stopped => simp
  | node _ _ _ hnode _ ih => exact List.forall_mem_cons.mpr ⟨hitem.reads hnode, ih⟩
  | piece _ _ _ _ ih => exact ih

theorem yields_rule (hP : Inherits P) (starts : Array Bool) {item block : Production}
    (hitem : Yields P item) (hblock : Yields P block) :
    Yields P (rule input starts item block) := by
  refine ⟨fun {c node d} h => ?_⟩
  obtain ⟨-, -, -, hbody⟩ := rule_eq_some.mp h
  exact hP.container (List.forall_mem_append.mpr
    ⟨headLoop_yields hitem none input.bound c, by simpa using hblock.reads hbody⟩)

theorem yields_atRule (hP : Inherits P) {item block : Production} (hitem : Yields P item)
    (hblock : Yields P block) : Yields P (atRule input item block) := by
  refine ⟨fun {c node d} h => ?_⟩
  have hhead := headLoop_yields hitem none input.bound
  cases atRuleRead h with
  | semicolon | bare => exact hP.container (hhead _)
  | block _ hbody =>
      exact hP.container (List.forall_mem_append.mpr
        ⟨hhead _, by simpa using hblock.reads hbody⟩)

theorem yields_declaration (hP : Inherits P) {item : Production} :
    Yields P (declaration input item) := by
  refine ⟨fun {c node d} h => ?_⟩
  cases declarationRead h
  exact hP.leaf rfl

theorem yields_derive (hP : Inherits P) (starts : Array Bool) {self : Symbol → Production}
    (hself : ∀ s, s ≠ .document → Yields P (self s)) :
    Yields P (derive.statement input self)
      ∧ ∀ s, s ≠ .document → Yields P (derive input starts self s) := by
  have hstructures : Yields P (derive.structures self) :=
    Yields.choice_map fun s hs => hself s (ne_of_mem_of_not_mem hs (by decide))
  have hstatement : Yields P (derive.statement input self) :=
    Yields.choice_map fun s hs => hself s (ne_of_mem_of_not_mem hs (document_notMem input.rich))
  refine ⟨hstatement, fun s hs => ?_⟩
  cases s with
  | document => exact absurd rfl hs
  | comment => exact yields_comment hP
  | block => exact Group.block.yields_read hP hstatement
  | parentheses => exact Group.parentheses.yields_read hP hstructures
  | brackets => exact Group.brackets.yields_read hP hstructures
  | rule => exact yields_rule hP starts hstructures (hself .block (by simp))
  | atRule => exact yields_atRule hP hstructures (hself .block (by simp))
  | declaration => exact yields_declaration hP

theorem yields_readWithin (hP : Inherits P) (starts : Array Bool) (height : Nat) (s : Symbol)
    (hs : s ≠ .document) : Yields P (readWithin input starts height s) := by
  induction height generalizing s with
  | zero => exact yields_nothing
  | succ height ih => exact (yields_derive hP starts ih).2 s hs

theorem parse_yields (hP : Inherits P) (input : Input) :
    ∀ n ∈ (grammar.parse input).tree.children, P n := by
  rw [parse_eq]
  exact itemsLoop_yields
    (yields_derive hP (ruleStarts input.tokens).toArray (yields_readWithin hP _ _)).1 none _ _

end Stylesheet

/-! ### Scripts -/

namespace Script

theorem templateLoop_yields {item : Production} (hitem : Yields P item) (turns : Nat)
    (c : Cursor) : ∀ n ∈ (templateLoop input item turns c).children, P n := by
  have hrun := templateRun input item turns c
  generalize templateLoop input item turns c = read at hrun
  induction hrun with
  | spent | exhausted | ended | stopped => simp
  | unclosed => exact itemsLoop_yields hitem _ _ _
  | closed _ _ _ _ ih => exact List.forall_mem_append.mpr ⟨itemsLoop_yields hitem _ _ _, ih⟩
  | filler _ _ _ _ ih => exact ih

theorem yields_template (hP : Inherits P) {item : Production} (hitem : Yields P item) :
    Yields P (template input item) := by
  refine ⟨fun {c node d} h => ?_⟩
  obtain ⟨opener, rest, -, -, hread⟩ := literalRead h
  cases hread with
  | skipped => exact hP.container (by simp)
  | closed _ hread => exact hP.container (hread ▸ templateLoop_yields hitem _ _)
  | unclosed _ hread => exact hP.container (hread ▸ templateLoop_yields hitem _ _)

theorem statementLoop_yields {item : Production} (hitem : Yields P item) (turns : Nat)
    (p : Progress) (c : Cursor) : ∀ n ∈ (statementLoop item turns p c).children, P n := by
  have hrun := statementRun item turns p c
  generalize statementLoop item turns p c = found at hrun
  induction hrun with
  | spent | exhausted | ended | semicolon => simp
  | node _ _ _ hnode _ ih => exact List.forall_mem_cons.mpr ⟨hitem.reads hnode, ih⟩
  | piece _ _ _ _ _ ih => exact ih

theorem yields_functionDeclaration (hP : Inherits P) {parentheses block : Production}
    (hparentheses : Yields P parentheses) (hblock : Yields P block) :
    Yields P (functionDeclaration input parentheses block) := by
  refine ⟨fun {c node d} h => ?_⟩
  obtain ⟨-, hparts⟩ := functionRead h
  refine hP.container (sequence?_yields ?_ hparts)
  simp [hparentheses, hblock]

theorem yields_variableDeclaration (hP : Inherits P) {item : Production}
    (hitem : Yields P item) : Yields P (variableDeclaration input item) := by
  refine ⟨fun {c node d} h => ?_⟩
  obtain ⟨-⟩ := variableRead h
  exact hP.container (statementLoop_yields hitem _ _ _)

theorem yields_statement (hP : Inherits P) {item : Production} (hitem : Yields P item) :
    Yields P (statement input item) := by
  refine ⟨fun {c node d} h => ?_⟩
  obtain ⟨-⟩ := statementRead h
  exact hP.container (statementLoop_yields hitem _ _ _)

theorem yields_derive (hP : Inherits P) {self : Symbol → Production}
    (hself : ∀ s, s ≠ .document → Yields P (self s)) :
    Yields P (derive.statements input self)
      ∧ ∀ s, s ≠ .document → Yields P (derive input self s) := by
  have hstructures : Yields P (derive.structures self) :=
    Yields.choice_map fun s hs => hself s (ne_of_mem_of_not_mem hs (by decide))
  have hstatements : Yields P (derive.statements input self) :=
    Yields.choice_map fun s hs => hself s (ne_of_mem_of_not_mem hs (document_notMem input.rich))
  have hchildren : Yields P (choice (Symbol.children.map self)) :=
    Yields.choice_map fun s hs => hself s (ne_of_mem_of_not_mem hs (by decide))
  have hexpression : Yields P (choice ([.block].map self)) :=
    Yields.choice_map fun s hs => hself s (ne_of_mem_of_not_mem hs (by decide))
  refine ⟨hstatements, fun s hs => ?_⟩
  cases s with
  | document => exact absurd rfl hs
  | comment => exact yields_comment hP
  | block => exact Group.block.yields_read hP hstatements
  | parentheses => exact Group.parentheses.yields_read hP hstructures
  | brackets => exact Group.brackets.yields_read hP hstructures
  | template => exact yields_template hP hstructures
  | element => exact yields_element hP Dialect.script hchildren hexpression
  | text => exact yields_text hP
  | functionDeclaration =>
      exact yields_functionDeclaration hP (hself .parentheses (by simp)) (hself .block (by simp))
  | variableDeclaration => exact yields_variableDeclaration hP hstructures
  | statement => exact yields_statement hP hstructures

theorem yields_readWithin (hP : Inherits P) (height : Nat) (s : Symbol) (hs : s ≠ .document) :
    Yields P (readWithin input height s) := by
  induction height generalizing s with
  | zero => exact yields_nothing
  | succ height ih => exact (yields_derive hP ih).2 s hs

theorem parse_yields (hP : Inherits P) (input : Input) :
    ∀ n ∈ (grammar.parse input).tree.children, P n := by
  rw [parse_eq]
  exact itemsLoop_yields (yields_derive hP (yields_readWithin hP _)).1 none _ _

end Script

/-! ### Markup -/

namespace Markup

theorem yields_rawText (hP : Inherits P) : Yields P (rawText input) := by
  refine ⟨fun {c node d} h => ?_⟩
  unfold rawText at h
  split at h
  · exact absurd h (by simp)
  simp only at h
  split at h
  · simp only [Option.some.injEq, Prod.mk.injEq] at h
    exact h.1 ▸ hP.container (by simp)
  split at h
  · simp only [Option.some.injEq, Prod.mk.injEq] at h
    exact h.1 ▸ hP.container (by simp)
  · rename_i grammar hgrammar
    simp only [Option.some.injEq, Prod.mk.injEq] at h
    refine h.1 ▸ hP.container ?_
    unfold embeddedGrammar? at hgrammar
    split at hgrammar
    · exact Option.some.inj hgrammar ▸ Stylesheet.parse_yields hP _
    · exact Option.some.inj hgrammar ▸ Script.parse_yields hP _
    · exact absurd hgrammar (by simp)

theorem yields_derive (input : Input) (hP : Inherits P) {self : Symbol → Production}
    (hself : ∀ s, s ≠ .document → Yields P (self s)) :
    Yields P (choice (Symbol.outer.map self))
      ∧ ∀ s, s ≠ .document → Yields P (derive input self s) := by
  have houter : Yields P (choice (Symbol.outer.map self)) :=
    Yields.choice_map fun s hs => hself s (ne_of_mem_of_not_mem hs (by decide))
  have hchildren : Yields P (choice (Symbol.children.map self)) :=
    Yields.choice_map fun s hs => hself s (ne_of_mem_of_not_mem hs (by decide))
  refine ⟨houter, fun s hs => ?_⟩
  cases s with
  | document => exact absurd rfl hs
  | comment => exact yields_comment hP
  | element => exact yields_element hP Dialect.markup hchildren (Yields.choice (by simp))
  | text => exact yields_text hP
  | rawText => exact yields_rawText hP

theorem yields_readWithin (hP : Inherits P) (height : Nat) (s : Symbol) (hs : s ≠ .document) :
    Yields P (readWithin input height s) := by
  induction height generalizing s with
  | zero => exact yields_nothing
  | succ height ih => exact (yields_derive input hP ih).2 s hs

theorem parse_yields (hP : Inherits P) (input : Input) :
    ∀ n ∈ (grammar.parse input).tree.children, P n := by
  rw [parse_eq]
  exact itemsLoop_yields (yields_derive input hP (yields_readWithin hP _)).1 none _ _

end Markup

/-! ### Every language -/

/-- A property that is passed on to every node holds of all that stands in the document. -/
theorem Language.parse_yields (hP : Inherits P) (language : Language) (input : Input) :
    ∀ n ∈ (language.grammar.parse input).tree.children, P n := by
  cases language with
  | markup => exact Markup.parse_yields hP input
  | stylesheet => exact Stylesheet.parse_yields hP input
  | script => exact Script.parse_yields hP input

end SourceView
