/-
An engine goes by its own settings.

The lexer of markup looks at the settings around it, but an engine has put its own there.  All
else gets them handed over.  So whatever is around an engine, it gives what its own settings
alone would give, and leaves the settings around as they were.
-/
import SourceView.Session.Step

namespace SourceView

namespace Ambient

variable {α β : Type} (config earlier : Config)

/-- Work with other settings around it is done as if they had always been there, and does not show
in those that were. -/
theorem perform_within (work : Ambient α) :
    (within config work).perform earlier = ((work.perform config).1, earlier) :=
  rfl

theorem perform_bind (work : Ambient α) (next : α → Ambient β) :
    (work >>= next).perform config
      = (next (work.perform config).1).perform (work.perform config).2 :=
  rfl

end Ambient

open Ambient

/-- The settings around a lexer say whether it lexes bodies. -/
theorem Language.perform_tokenize (language : Language) (detail : Detail) (source : List Char)
    (around : Config) :
    (language.tokenize detail source).perform around
      = (language.lex detail around.embeddedLanguages source 0 none, around) := by
  cases language <;> rfl

namespace Engine

variable (e : Engine) (detail : Detail) (source : String) (around : Config)

/-- **A run among settings is the run by the engine's own settings**, and leaves those around as
they were. -/
theorem perform_work : (e.work detail source).perform around = (e.run detail source, around) := by
  rw [work, perform_bind, perform_within, perform_bind, Language.perform_tokenize]
  cases detail <;> rfl

theorem perform_highlight :
    (e.highlight source).perform around = (e.language.highlight e.config source, around) := by
  rw [highlight, perform_bind, perform_within, Language.perform_tokenize]
  rfl

theorem perform_highlightLines :
    (e.highlightLines source).perform around
      = (e.language.highlightLines e.config source, around) := by
  rw [highlightLines, perform_bind, perform_within, Language.perform_tokenize]
  rfl

end Engine

end SourceView
