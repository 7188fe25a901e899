/-
What the rules of a script read, and runs of their loops.

A template and the rest of a statement are read turn by turn, and the runs are as they are for the
loops that all grammars share.  The declarations and the other statements are told by the stages
that they go through when they read a node.
-/
import SourceView.Proofs.Parsing.Loops
import SourceView.Script.Grammar

namespace SourceView.Script

open Parsing Parsing.Cursor

/-! ### Templates -/

section

variable (input : Input) (item : Production)

/-- What the loop over an interpolation finds, from the token that opens it on. -/
def interpolation (t : Token) (c : Cursor) : Items :=
  items input item (some .templateExprClose)
    (c.advance.push { closer := .templateExprClose, start := t.start })

/-- The runs of the loop over a template. -/
inductive TemplateRun : (turns : Nat) → Cursor → TemplateRead → Prop
  | spent {c : Cursor} : TemplateRun 0 c ⟨[], none, c⟩
  | exhausted {turns : Nat} {c : Cursor} (hahead : c.ahead = []) :
      TemplateRun (turns + 1) c ⟨[], none, c⟩
  | ended {turns : Nat} {c : Cursor} {t : Token} {rest : List Token} (hahead : c.ahead = t :: rest)
      (ht : t.kind = .templateEnd) : TemplateRun (turns + 1) c ⟨[], some t.stop, c.advance⟩
  | stopped {turns : Nat} {c : Cursor} {t : Token} {rest : List Token} (hahead : c.ahead = t :: rest)
      (hend : t.kind ≠ .templateEnd) (ht : t.kind.isCloser = true) :
      TemplateRun (turns + 1) c ⟨[], none, c⟩
  | unclosed {turns : Nat} {c : Cursor} {t : Token} {rest : List Token}
      (hahead : c.ahead = t :: rest) (ht : t.kind = .templateExprOpen)
      (hcloser : (interpolation input item t c).closer = none) :
      TemplateRun (turns + 1) c
        ⟨(interpolation input item t c).nodes, none,
          (interpolation input item t c).cursor.closeTo c.advance⟩
  | closed {turns : Nat} {c : Cursor} {t u : Token} {rest : List Token} {read : TemplateRead}
      (hahead : c.ahead = t :: rest) (ht : t.kind = .templateExprOpen)
      (hcloser : (interpolation input item t c).closer = some u)
      (more : TemplateRun turns ((interpolation input item t c).cursor.closeTo c.advance) read) :
      TemplateRun (turns + 1) c
        { read with children := (interpolation input item t c).nodes ++ read.children }
  | filler {turns : Nat} {c : Cursor} {t : Token} {rest : List Token} {read : TemplateRead}
      (hahead : c.ahead = t :: rest) (hclose : ¬t.kind.isCloser = true)
      (hopen : t.kind ≠ .templateExprOpen) (more : TemplateRun turns c.advance read) :
      TemplateRun (turns + 1) c read

theorem templateRun (turns : Nat) (c : Cursor) :
    TemplateRun input item turns c (templateLoop input item turns c) := by
  induction turns generalizing c with
  | zero => exact .spent
  | succ turns ih =>
      unfold templateLoop
      cases hpeek : c.peek? with
      | none =>
          exact .exhausted (ahead_of_peek?_none hpeek)
      | some t =>
          obtain ⟨rest, hahead⟩ := ahead_of_peek? hpeek
          simp only
          by_cases hend : t.kind = .templateEnd
          · rw [if_pos hend]
            exact .ended hahead hend
          rw [if_neg hend]
          by_cases hclose : t.kind.isCloser = true
          · rw [if_pos hclose]
            exact .stopped hahead hend hclose
          rw [if_neg hclose]
          by_cases hopen : t.kind = .templateExprOpen
          · rw [if_pos hopen]
            cases hcloser : (interpolation input item t c).closer with
            | none =>
                rw [interpolation] at hcloser
                simp only [hcloser]
                exact .unclosed hahead hopen hcloser
            | some u =>
                have hmore := TemplateRun.closed hahead hopen hcloser (ih _)
                rw [interpolation] at hcloser hmore
                simp only [hcloser]
                exact hmore
          · rw [if_neg hopen]
            exact .filler hahead hclose hopen (ih _)

variable {input item}

/-- There is no other run. -/
theorem TemplateRun.eq {turns : Nat} {c : Cursor} {read : TemplateRead}
    (h : TemplateRun input item turns c read) : templateLoop input item turns c = read := by
  induction h with
  | spent => rfl
  | exhausted hahead => simp only [templateLoop, peek?_of_ahead_nil hahead]
  | ended hahead ht => simp only [templateLoop, peek?_of_ahead hahead, if_pos ht]
  | stopped hahead hend ht =>
      simp only [templateLoop, peek?_of_ahead hahead, if_neg hend, if_pos ht]
  | unclosed hahead ht hcloser =>
      rw [interpolation] at hcloser
      simp only [templateLoop, peek?_of_ahead hahead, ht, reduceCtorEq, if_false, if_true,
        TokenKind.isCloser, Bool.false_eq_true, hcloser, interpolation]
  | closed hahead ht hcloser _ ih =>
      rw [interpolation] at hcloser ih
      simp only [templateLoop, peek?_of_ahead hahead, ht, reduceCtorEq, if_false, if_true,
        TokenKind.isCloser, Bool.false_eq_true, hcloser, interpolation, ih]
  | @filler _ _ t _ _ hahead hclose hopen _ ih =>
      have hend : t.kind ≠ .templateEnd := fun h => hclose (by rw [h]; rfl)
      simp only [templateLoop, peek?_of_ahead hahead, if_neg hend, if_neg hclose, if_neg hopen, ih]

end

section

variable {input : Input} {item : Production}

/-- The ways a template is read behind its opener: it is skipped in too many containers, or read up
to its end or as far as it goes. -/
inductive LiteralRead (input : Input) (item : Production) (opener : Token) (c : Cursor) :
    Node → Cursor → Prop
  | skipped (hdeep : c.tooDeep = true) :
      LiteralRead input item opener c
        (.container opener.start (skipBalanced input opener .templateEnd c).1 (.templateLiteral true)
          [])
        (skipBalanced input opener .templateEnd c).2
  | closed (hdeep : ¬c.tooDeep = true) {read : TemplateRead}
      (hread : templateLoop input item input.bound
        (c.push { closer := .templateEnd, start := opener.start }) = read)
      {stop : Int} (hstop : read.stop = some stop) :
      LiteralRead input item opener c
        (.container opener.start stop (.templateLiteral true) read.children) (read.cursor.closeTo c)
  | unclosed (hdeep : ¬c.tooDeep = true) {read : TemplateRead}
      (hread : templateLoop input item input.bound
        (c.push { closer := .templateEnd, start := opener.start }) = read)
      (hstop : read.stop = none) :
      LiteralRead input item opener c
        (.container opener.start ((read.cursor.closeTo c).unclosedEnd input) (.templateLiteral false)
          read.children)
        (read.cursor.closeTo c)

/-- A template begins with its opener, and is read in one of these ways. -/
theorem literalRead {c d : Cursor} {node : Node} (h : template input item c = some (node, d)) :
    ∃ opener rest, c.ahead = opener :: rest ∧ opener.kind = .templateStart
      ∧ LiteralRead input item opener c.advance node d := by
  unfold template at h
  cases hopener : c.acceptKind? .templateStart with
  | none => simp [hopener] at h
  | some found =>
      obtain ⟨opener, c'⟩ := found
      obtain ⟨hkind, -, rfl, hahead⟩ := accept?_eq_some hopener
      refine ⟨opener, _, hahead, hkind, ?_⟩
      simp only [hopener] at h
      split at h
      · rename_i hdeep
        obtain ⟨rfl, rfl⟩ := Prod.mk.inj (Option.some.inj h)
        exact .skipped hdeep
      rename_i hdeep
      split at h
      · rename_i stop hstop
        obtain ⟨rfl, rfl⟩ := Prod.mk.inj (Option.some.inj h)
        exact .closed hdeep rfl hstop
      · rename_i hstop
        obtain ⟨rfl, rfl⟩ := Prod.mk.inj (Option.some.inj h)
        exact .unclosed hdeep rfl hstop

end

/-! ### Statements -/

/-- Whether a statement with this progress ends before the token that comes next, past a line break
if `crossed`. -/
def EndsStatement (p : Progress) (crossed : Bool) (t : Token) : Prop :=
  t.kind.isCloser = true ∨ (crossed && p.complete && !continues t) = true

section

variable (item : Production)

/-- The runs of the loop over the rest of a statement. -/
inductive StatementRun : (turns : Nat) → Progress → Cursor → StatementRest → Prop
  | spent {p : Progress} {c : Cursor} : StatementRun 0 p c ⟨[], p.stop, c⟩
  | exhausted {turns : Nat} {p : Progress} {c : Cursor} (hahead : c.skipTrivia.ahead = []) :
      StatementRun (turns + 1) p c ⟨[], p.stop, c.skipTrivia⟩
  | ended {turns : Nat} {p : Progress} {c : Cursor} {t : Token} {rest : List Token}
      (hahead : c.skipTrivia.ahead = t :: rest) (hend : EndsStatement p c.atLineBreak t) :
      StatementRun (turns + 1) p c ⟨[], p.stop, c.skipTrivia⟩
  | semicolon {turns : Nat} {p : Progress} {c : Cursor} {t : Token} {rest : List Token}
      (hahead : c.skipTrivia.ahead = t :: rest) (hend : ¬EndsStatement p c.atLineBreak t)
      (ht : t.kind = .punctuation ∧ t.value = ";") :
      StatementRun (turns + 1) p c ⟨[], t.stop, c.skipTrivia.advance⟩
  | node {turns : Nat} {p : Progress} {c d : Cursor} {t : Token} {rest : List Token} {node : Node}
      {found : StatementRest} (hahead : c.skipTrivia.ahead = t :: rest)
      (hend : ¬EndsStatement p c.atLineBreak t) (ht : ¬(t.kind = .punctuation ∧ t.value = ";"))
      (hnode : item c.skipTrivia = some (node, d)) (more : StatementRun turns (p.after node) d found) :
      StatementRun (turns + 1) p c { found with children := node :: found.children }
  | piece {turns : Nat} {p : Progress} {c : Cursor} {t : Token} {rest : List Token}
      {found : StatementRest} (hahead : c.skipTrivia.ahead = t :: rest)
      (hend : ¬EndsStatement p c.atLineBreak t) (ht : ¬(t.kind = .punctuation ∧ t.value = ";"))
      (hnode : item c.skipTrivia = none)
      (more : StatementRun turns { p with stop := t.stop, complete := completes t }
        c.skipTrivia.advance found) : StatementRun (turns + 1) p c found

theorem statementRun (turns : Nat) (p : Progress) (c : Cursor) :
    StatementRun item turns p c (statementLoop item turns p c) := by
  induction turns generalizing p c with
  | zero => exact .spent
  | succ turns ih =>
      unfold statementLoop
      cases hpeek : c.skipTrivia.peek? with
      | none =>
          simp only [hpeek]
          exact .exhausted (ahead_of_peek?_none hpeek)
      | some t =>
          obtain ⟨rest, hahead⟩ := ahead_of_peek? hpeek
          simp only [hpeek]
          by_cases hclose : t.kind.isCloser = true
          · rw [if_pos hclose]
            exact .ended hahead (Or.inl hclose)
          rw [if_neg hclose]
          by_cases hcrossed : (c.atLineBreak && p.complete && !continues t) = true
          · rw [if_pos hcrossed]
            exact .ended hahead (Or.inr hcrossed)
          rw [if_neg hcrossed]
          have hend : ¬EndsStatement p c.atLineBreak t := fun h => h.elim hclose hcrossed
          by_cases ht : t.kind = .punctuation ∧ t.value = ";"
          · rw [if_pos ht]
            exact .semicolon hahead hend ht
          rw [if_neg ht]
          cases hnode : item c.skipTrivia with
          | none => exact .piece hahead hend ht hnode (ih _ _)
          | some found => exact .node hahead hend ht hnode (ih _ _)

variable {item}

/-- There is no other run. -/
theorem StatementRun.eq {turns : Nat} {p : Progress} {c : Cursor} {found : StatementRest}
    (h : StatementRun item turns p c found) : statementLoop item turns p c = found := by
  have hnot {p : Progress} {crossed : Bool} {t : Token} (hend : ¬EndsStatement p crossed t) :
      ¬t.kind.isCloser = true ∧ ¬(crossed && p.complete && !continues t) = true :=
    ⟨fun h => hend (Or.inl h), fun h => hend (Or.inr h)⟩
  induction h with
  | spent => rfl
  | exhausted hahead => simp only [statementLoop, peek?_of_ahead_nil hahead]
  | ended hahead hend =>
      simp only [statementLoop, peek?_of_ahead hahead]
      rcases hend with hclose | hcrossed
      · rw [if_pos hclose]
      · rw [if_pos hcrossed, ite_self]
  | semicolon hahead hend ht =>
      simp only [statementLoop, peek?_of_ahead hahead, if_neg (hnot hend).1, if_neg (hnot hend).2,
        if_pos ht]
  | node hahead hend ht hnode _ ih =>
      simp only [statementLoop, peek?_of_ahead hahead, if_neg (hnot hend).1, if_neg (hnot hend).2,
        if_neg ht, hnode, ih]
  | piece hahead hend ht hnode _ ih =>
      simp only [statementLoop, peek?_of_ahead hahead, if_neg (hnot hend).1, if_neg (hnot hend).2,
        if_neg ht, hnode, ih]

end

/-! ### What a statement begins with -/

variable {input : Input} {c : Cursor} {t : Token}

theorem statementStart?_eq_some : statementStart? input c = some t ↔
    c.peek? = some t ∧ input.rich = true ∧ t.kind.isCloser = false := by
  simp [statementStart?, Option.filter_eq_some_iff]

theorem variableHead?_eq_some {head : VariableHead} : variableHead? input c = some head ↔
    input.rich = true ∧ ∃ keyword after,
      c.accept? .keyword declarationKeywords.contains = some (keyword, after)
      ∧ head = { keyword
                 name := (after.skipTrivia.acceptKind? .identifier).map Prod.fst
                 cursor := after.skipTrivia.skip .identifier fun _ => true } := by
  unfold variableHead?
  by_cases hrich : input.rich = true
  · simp only [hrich, Bool.not_true, Bool.false_eq_true, if_false, Option.map_eq_some_iff,
      Prod.exists, true_and]
    exact exists_congr fun _ => exists_congr fun _ => and_congr_right fun _ => eq_comm
  · simp [hrich]

/-! ### What a statement reads -/

variable {parentheses block item : Production} {d : Cursor} {node : Node}

/-- A declaration of a function that was read, by its stages. -/
inductive FunctionRead (input : Input) (parentheses block : Production) (c : Cursor) :
    Node → Cursor → Prop
  | mk {head : FunctionHead} {parts : List Node} {d : Cursor} (hhead : functionHead input c = .ok head)
      (hparts : sequence? [parentheses, block] head.cursor = some (parts, d)) :
      FunctionRead input parentheses block c
        (.container head.start (parts.getLast?.elim head.start Node.stop)
          (.functionDeclaration head.name (paramNames (head.cursor.tokensUntil d))) parts) d

theorem functionRead (h : functionDeclaration input parentheses block c = some (node, d)) :
    FunctionRead input parentheses block c node d := by
  rw [functionDeclaration, Attempt.read_eq_some, tryFunctionDeclaration] at h
  split at h
  · exact absurd h (by simp)
  rename_i head hhead
  split at h
  · exact absurd h (by simp)
  rename_i parts after hparts
  simp only [Except.ok.injEq, Prod.mk.injEq] at h
  obtain ⟨rfl, rfl⟩ := h
  exact .mk hhead hparts

/-- A declaration of variables that was read, by its stages. -/
inductive VariableRead (input : Input) (item : Production) (c : Cursor) : Node → Cursor → Prop
  | mk {head : VariableHead} (hhead : variableHead? input c = some head) :
      VariableRead input item c
        (.container head.keyword.start
          (statementRest input item head.name.isSome false head.cursor).stop
          (.variableDeclaration head.keyword.value (head.name.elim "" Token.value))
          (statementRest input item head.name.isSome false head.cursor).children)
        (statementRest input item head.name.isSome false head.cursor).cursor

theorem variableRead (h : variableDeclaration input item c = some (node, d)) :
    VariableRead input item c node d := by
  unfold variableDeclaration at h
  split at h
  · exact absurd h (by simp)
  rename_i head hhead
  simp only [Option.some.injEq, Prod.mk.injEq] at h
  obtain ⟨rfl, rfl⟩ := h
  exact .mk hhead

/-- Another statement that was read, by its stages. -/
inductive StatementRead (input : Input) (item : Production) (c : Cursor) : Node → Cursor → Prop
  | mk {first : Token} (hfirst : statementStart? input c = some first) :
      StatementRead input item c
        (.container first.start (statementRest input item false (isControl first) c).stop .statement
          (statementRest input item false (isControl first) c).children)
        (statementRest input item false (isControl first) c).cursor

theorem statementRead (h : statement input item c = some (node, d)) :
    StatementRead input item c node d := by
  unfold statement at h
  split at h
  · exact absurd h (by simp)
  rename_i first hfirst
  simp only [Option.some.injEq, Prod.mk.injEq] at h
  obtain ⟨rfl, rfl⟩ := h
  exact .mk hfirst

end SourceView.Script
