/-
Grammars as tables of named rules.

A builder collects rules under distinct names; a grammar is a finished table whose start
rule is among them.  Nothing here depends on what a rule is.
-/
import SourceView.Text.Quoted

namespace SourceView.Parsing

/-- What is wrong with the use of a table. -/
inductive TableError where
  | unknownRule (grammar rule : String)
  | duplicateRule (grammar rule : String)
  | noStartRule (grammar start : String)
deriving DecidableEq

/-- The wording of the failure. -/
def TableError.message : TableError → String
  | unknownRule grammar rule =>
    s!"Grammar {Text.quoted grammar} has no rule {Text.quoted rule}"
  | duplicateRule grammar rule =>
    s!"Rule {Text.quoted rule} already registered in grammar {Text.quoted grammar}"
  | noStartRule grammar start =>
    s!"Grammar {Text.quoted grammar} has no start rule {Text.quoted start}"

/-- A finished table of rules. -/
structure Grammar (ρ : Type) where
  name : String
  start : String
  rules : List (String × ρ)

/-- A table that is being built. -/
structure GrammarBuilder (ρ : Type) where
  name : String
  start : String := "document"
  rules : List (String × ρ) := []

namespace GrammarBuilder

/-- The builder with one more rule, unless its name is taken. -/
def add (b : GrammarBuilder ρ) (name : String) (rule : ρ) : Except TableError (GrammarBuilder ρ) :=
  if (b.rules.lookup name).isSome then .error (.duplicateRule b.name name)
  else .ok { b with rules := b.rules ++ [(name, rule)] }

/-- The number of rules. -/
def size (b : GrammarBuilder ρ) : Nat :=
  b.rules.length

/-- The finished table, provided the start rule is in it. -/
def build (b : GrammarBuilder ρ) : Except TableError (Grammar ρ) :=
  if (b.rules.lookup b.start).isSome then .ok ⟨b.name, b.start, b.rules⟩
  else .error (.noStartRule b.name b.start)

end GrammarBuilder

namespace Grammar

/-- The rule of a given name. -/
def rule (g : Grammar ρ) (name : String) : Except TableError ρ :=
  match g.rules.lookup name with
  | some rule => .ok rule
  | none => .error (.unknownRule g.name name)

/-- Whether the table has a rule of that name. -/
def has (g : Grammar ρ) (name : String) : Bool :=
  (g.rules.lookup name).isSome

/-- The number of rules. -/
def size (g : Grammar ρ) : Nat :=
  g.rules.length

/-- The names of the rules, sorted. -/
def names (g : Grammar ρ) : List String :=
  (g.rules.map Prod.fst).mergeSort fun a b => decide (a ≤ b)

/-- The table as a short text. -/
def describe (g : Grammar ρ) : String :=
  s!"Grammar({Text.quoted g.name}, rules={g.size})"

end Grammar

end SourceView.Parsing
