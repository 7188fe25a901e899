/-
What the rules of a stylesheet read, and runs of their loops.

The head of a rule and the value of a declaration are read turn by turn; a run is a row of such
turns, as it is for the loops that all grammars share.  A rule, an at-rule and a declaration are
then told by the stages that they go through when they read a node, so that nobody who wants to
know something of what they read has to open them.
-/
import SourceView.Proofs.Parsing.Loops
import SourceView.Stylesheet.Grammar

namespace SourceView.Stylesheet

open Parsing Parsing.Cursor

/-! ### Heads -/

section

variable (item : Production)

/-- The runs of the loop over the part before a block. -/
inductive HeadRun : (turns : Nat) → Option Int → Cursor → Head → Prop
  | spent {stop : Option Int} {c : Cursor} : HeadRun 0 stop c ⟨stop, [], c⟩
  | ended {turns : Nat} {stop : Option Int} {c : Cursor} (hahead : c.skipTrivia.ahead = []) :
      HeadRun (turns + 1) stop c ⟨stop, [], c.skipTrivia⟩
  | stopped {turns : Nat} {stop : Option Int} {c : Cursor} {t : Token} {rest : List Token}
      (hahead : c.skipTrivia.ahead = t :: rest)
      (hend : t.kind = .blockOpen ∨ endsStatement t.kind = true ∨ t.kind.isCloser = true) :
      HeadRun (turns + 1) stop c ⟨stop, [], c.skipTrivia⟩
  | node {turns : Nat} {stop : Option Int} {c d : Cursor} {t : Token} {rest : List Token}
      {node : Node} {head : Head} (hahead : c.skipTrivia.ahead = t :: rest)
      (hend : ¬(t.kind = .blockOpen ∨ endsStatement t.kind = true ∨ t.kind.isCloser = true))
      (hgroup : (opensGroup t.kind || t.kind == .comment) = true)
      (hnode : item c.skipTrivia = some (node, d)) (more : HeadRun turns (some node.stop) d head) :
      HeadRun (turns + 1) stop c { head with children := node :: head.children }
  | piece {turns : Nat} {stop : Option Int} {c : Cursor} {t : Token} {rest : List Token}
      {head : Head} (hahead : c.skipTrivia.ahead = t :: rest)
      (hend : ¬(t.kind = .blockOpen ∨ endsStatement t.kind = true ∨ t.kind.isCloser = true))
      (hnode : (opensGroup t.kind || t.kind == .comment) = true → item c.skipTrivia = none)
      (more : HeadRun turns (some t.stop) c.skipTrivia.advance head) : HeadRun (turns + 1) stop c head

theorem headRun (turns : Nat) (stop : Option Int) (c : Cursor) :
    HeadRun item turns stop c (headLoop item stop turns c) := by
  induction turns generalizing stop c with
  | zero => exact .spent
  | succ turns ih =>
      unfold headLoop
      cases hpeek : c.skipTrivia.peek? with
      | none =>
          simp only [hpeek]
          exact .ended (ahead_of_peek?_none hpeek)
      | some t =>
          obtain ⟨rest, hahead⟩ := ahead_of_peek? hpeek
          simp only [hpeek]
          by_cases hend : t.kind = .blockOpen ∨ endsStatement t.kind = true
            ∨ t.kind.isCloser = true
          · rw [if_pos hend]
            exact .stopped hahead hend
          rw [if_neg hend]
          by_cases hgroup : (opensGroup t.kind || t.kind == .comment) = true
          · rw [if_pos hgroup]
            cases hnode : item c.skipTrivia with
            | none => exact .piece hahead hend (fun _ => hnode) (ih _ _)
            | some found => exact .node hahead hend hgroup hnode (ih _ _)
          · rw [if_neg hgroup]
            exact .piece hahead hend (fun h => absurd h hgroup) (ih _ _)

variable {item}

/-- There is no other run. -/
theorem HeadRun.eq {turns : Nat} {stop : Option Int} {c : Cursor} {head : Head}
    (h : HeadRun item turns stop c head) : headLoop item stop turns c = head := by
  induction h with
  | spent => rfl
  | ended hahead => simp only [headLoop, peek?_of_ahead_nil hahead]
  | stopped hahead hend => simp only [headLoop, peek?_of_ahead hahead, if_pos hend]
  | node hahead hend hgroup hnode _ ih =>
      simp only [headLoop, peek?_of_ahead hahead, if_neg hend, if_pos hgroup, hnode, ih]
  | @piece _ _ _ t _ _ hahead hend hnode _ ih =>
      simp only [headLoop, peek?_of_ahead hahead, if_neg hend]
      by_cases hgroup : (opensGroup t.kind || t.kind == .comment) = true
      · simp only [if_pos hgroup, hnode hgroup, ih]
      · simp only [if_neg hgroup, ih]

end

/-! ### Values -/

/-- Whether a token is no part of a value: a brace fails it, and the others end it. -/
def EndsValue (t : Token) : Prop :=
  t.kind = .blockOpen ∨ t.kind = .semicolon ∨ t.kind.isCloser = true

section

variable (item : Production)

/-- The runs of the loop over the value of a declaration. -/
inductive ValueRun : (turns : Nat) → Value → Except Cursor Value → Prop
  | spent {v : Value} : ValueRun 0 v (.ok v)
  | ended {turns : Nat} {v : Value} (hahead : v.cursor.skipTrivia.ahead = []) :
      ValueRun (turns + 1) v (.ok { v with cursor := v.cursor.skipTrivia })
  | closed {turns : Nat} {v : Value} {t : Token} {rest : List Token}
      (hahead : v.cursor.skipTrivia.ahead = t :: rest) (ht : t.kind.isCloser = true) :
      ValueRun (turns + 1) v (.ok { v with cursor := v.cursor.skipTrivia })
  | opened {turns : Nat} {v : Value} {t : Token} {rest : List Token}
      (hahead : v.cursor.skipTrivia.ahead = t :: rest) (ht : t.kind = .blockOpen) :
      ValueRun (turns + 1) v (.error v.cursor.skipTrivia)
  | semicolon {turns : Nat} {v : Value} {t : Token} {rest : List Token}
      (hahead : v.cursor.skipTrivia.ahead = t :: rest) (ht : t.kind = .semicolon) :
      ValueRun (turns + 1) v (.ok { v with stop := t.stop, cursor := v.cursor.skipTrivia.advance })
  | important {turns : Nat} {v : Value} {t : Token} {rest : List Token} {found : Except Cursor Value}
      (hahead : v.cursor.skipTrivia.ahead = t :: rest) (hplain : ¬EndsValue t)
      (ht : isImportant t = true)
      (more : ValueRun turns
        { v with important := true, stop := t.stop, cursor := v.cursor.skipTrivia.advance } found) :
      ValueRun (turns + 1) v found
  | group {turns : Nat} {v : Value} {t : Token} {rest : List Token} {node : Node} {d : Cursor}
      {found : Except Cursor Value} (hahead : v.cursor.skipTrivia.ahead = t :: rest)
      (hplain : ¬EndsValue t) (ht : ¬isImportant t = true) (hgroup : opensGroup t.kind = true)
      (hnode : item v.cursor.skipTrivia = some (node, d))
      (more : ValueRun turns (v.extend node.start node.stop d) found) : ValueRun (turns + 1) v found
  | piece {turns : Nat} {v : Value} {t : Token} {rest : List Token} {found : Except Cursor Value}
      (hahead : v.cursor.skipTrivia.ahead = t :: rest) (hplain : ¬EndsValue t)
      (ht : ¬isImportant t = true) (hnode : opensGroup t.kind = true → item v.cursor.skipTrivia = none)
      (more : ValueRun turns (v.extend t.start t.stop v.cursor.skipTrivia.advance) found) :
      ValueRun (turns + 1) v found

theorem valueRun (turns : Nat) (v : Value) : ValueRun item turns v (valueLoop item turns v) := by
  induction turns generalizing v with
  | zero => exact .spent
  | succ turns ih =>
      unfold valueLoop
      cases hpeek : v.cursor.skipTrivia.peek? with
      | none =>
          simp only [hpeek]
          exact .ended (ahead_of_peek?_none hpeek)
      | some t =>
          obtain ⟨rest, hahead⟩ := ahead_of_peek? hpeek
          simp only [hpeek]
          by_cases hclose : t.kind = .blockClose
          · rw [if_pos hclose]
            exact .closed hahead (by rw [hclose]; rfl)
          rw [if_neg hclose]
          by_cases hopen : t.kind = .blockOpen
          · rw [if_pos hopen]
            exact .opened hahead hopen
          rw [if_neg hopen]
          by_cases hsemicolon : t.kind = .semicolon
          · rw [if_pos hsemicolon]
            exact .semicolon hahead hsemicolon
          rw [if_neg hsemicolon]
          by_cases hcloser : t.kind.isCloser = true
          · rw [if_pos hcloser]
            exact .closed hahead hcloser
          rw [if_neg hcloser]
          have hplain : ¬EndsValue t := fun h => h.elim hopen fun h => h.elim hsemicolon hcloser
          by_cases himportant : isImportant t = true
          · rw [if_pos himportant]
            exact .important hahead hplain himportant (ih _)
          rw [if_neg himportant]
          by_cases hgroup : opensGroup t.kind = true
          · rw [if_pos hgroup]
            cases hnode : item v.cursor.skipTrivia with
            | none => exact .piece hahead hplain himportant (fun _ => hnode) (ih _)
            | some found => exact .group hahead hplain himportant hgroup hnode (ih _)
          · rw [if_neg hgroup]
            exact .piece hahead hplain himportant (fun h => absurd h hgroup) (ih _)

variable {item}

/-- There is no other run. -/
theorem ValueRun.eq {turns : Nat} {v : Value} {found : Except Cursor Value}
    (h : ValueRun item turns v found) : valueLoop item turns v = found := by
  have hnone {t : Token} (hplain : ¬EndsValue t) :
      t.kind ≠ .blockClose ∧ t.kind ≠ .blockOpen ∧ t.kind ≠ .semicolon ∧ ¬t.kind.isCloser = true :=
    ⟨fun h => hplain (Or.inr (Or.inr (by rw [h]; rfl))), fun h => hplain (Or.inl h),
      fun h => hplain (Or.inr (Or.inl h)), fun h => hplain (Or.inr (Or.inr h))⟩
  induction h with
  | spent => rfl
  | ended hahead => simp only [valueLoop, peek?_of_ahead_nil hahead]
  | @closed _ _ t _ hahead ht =>
      have hopen : t.kind ≠ .blockOpen := fun h => by rw [h] at ht; cases ht
      have hsemicolon : t.kind ≠ .semicolon := fun h => by rw [h] at ht; cases ht
      simp only [valueLoop, peek?_of_ahead hahead, if_neg hopen, if_neg hsemicolon, if_pos ht,
        ite_self]
  | opened hahead ht =>
      simp only [valueLoop, peek?_of_ahead hahead, ht, reduceCtorEq, if_false, if_true]
  | semicolon hahead ht =>
      simp only [valueLoop, peek?_of_ahead hahead, ht, reduceCtorEq, if_false, if_true]
  | important hahead hplain ht _ ih =>
      obtain ⟨hclose, hopen, hsemicolon, hcloser⟩ := hnone hplain
      simp only [valueLoop, peek?_of_ahead hahead, if_neg hclose, if_neg hopen, if_neg hsemicolon,
        if_neg hcloser, if_pos ht, ih]
  | group hahead hplain ht hgroup hnode _ ih =>
      obtain ⟨hclose, hopen, hsemicolon, hcloser⟩ := hnone hplain
      simp only [valueLoop, peek?_of_ahead hahead, if_neg hclose, if_neg hopen, if_neg hsemicolon,
        if_neg hcloser, if_neg ht, if_pos hgroup, hnode, ih]
  | @piece _ _ t _ _ hahead hplain ht hnode _ ih =>
      obtain ⟨hclose, hopen, hsemicolon, hcloser⟩ := hnone hplain
      simp only [valueLoop, peek?_of_ahead hahead, if_neg hclose, if_neg hopen, if_neg hsemicolon,
        if_neg hcloser, if_neg ht]
      by_cases hgroup : opensGroup t.kind = true
      · simp only [if_pos hgroup, hnode hgroup, ih]
      · simp only [if_neg hgroup, ih]

end

/-! ### Rules -/

variable {input : Input} {starts : Array Bool} {item block : Production} {c d : Cursor} {t : Token}
variable {node : Node}

theorem ruleStart?_eq_some : ruleStart? input starts c = some t ↔
    c.peek? = some t ∧ input.rich = true ∧ t.kind ≠ .atRule ∧ starts.getD c.pos false = true := by
  simp [ruleStart?, Option.filter_eq_some_iff, and_assoc]

/-- A rule that was read, by its stages. -/
inductive RuleRead (input : Input) (starts : Array Bool) (item block : Production) (c : Cursor) :
    Node → Cursor → Prop
  | mk {first : Token} {rest : List Token} {stop start blockStop : Int} {closed : Bool}
      {children : List Node} {d : Cursor} (hahead : c.ahead = first :: rest)
      (hstart : ruleStart? input starts c = some first)
      (hstop : (headLoop item none input.bound c).stop = some stop)
      (hblock : block (headLoop item none input.bound c).cursor.skipTrivia
        = some (.container start blockStop (.block closed) children, d)) :
      RuleRead input starts item block c
        (.container first.start blockStop
          (.rule (Text.normalizeSpace (input.text first.start stop)) closed)
          ((headLoop item none input.bound c).children
            ++ [.container start blockStop (.block closed) children])) d

theorem rule_eq_some :
    rule input starts item block c = some (node, d) ↔ RuleRead input starts item block c node d := by
  rw [rule, Attempt.read_eq_some, tryRule]
  constructor
  · intro h
    cases hstart : ruleStart? input starts c with
    | none => simp [hstart] at h
    | some first =>
        obtain ⟨rest, hahead⟩ := ahead_of_peek? (ruleStart?_eq_some.mp hstart).1
        simp only [hstart] at h
        split at h
        · exact absurd h (by simp)
        · rename_i stop hstop
          split at h
          · rename_i hblock
            simp only [Except.ok.injEq, Prod.mk.injEq] at h
            obtain ⟨rfl, rfl⟩ := h
            exact .mk hahead hstart hstop hblock
          · exact absurd h (by simp)
          · exact absurd h (by simp)
  · rintro ⟨hahead, hstart, hstop, hblock⟩
    simp only [hstart, hstop, hblock]

/-- Where the table has no rule, none is read. -/
theorem rule_eq_none (h : starts.getD c.pos false = false) : rule input starts item block c = none := by
  refine Option.eq_none_iff_forall_ne_some.mpr fun ⟨_, _⟩ hread => ?_
  obtain ⟨-, hstart, -, -⟩ := rule_eq_some.mp hread
  rw [ruleStart?_eq_some, h] at hstart
  exact absurd hstart.2.2.2 Bool.false_ne_true

/-! ### At-rules -/

theorem atKeyword?_eq_some {d : Cursor} : atKeyword? input c = some (t, d) ↔
    input.rich = true ∧ c.acceptKind? .atRule = some (t, d) := by
  unfold atKeyword?
  by_cases hrich : input.rich = true <;> simp [hrich]

/-- What an at-rule asks for. -/
def query (input : Input) (keyword : Token) (head : Head) : String :=
  match head.stop with
  | some stop => Text.normalizeSpace (input.text keyword.stop stop)
  | none => ""

/-- An at-rule that was read, by its stages. -/
inductive AtRuleRead (input : Input) (item block : Production) (c : Cursor) : Node → Cursor → Prop
  | semicolon {keyword semicolon : Token} {after d : Cursor}
      (hkeyword : atKeyword? input c = some (keyword, after))
      (hsemicolon : (headLoop item none input.bound after).cursor.skipTrivia.acceptKind? .semicolon
        = some (semicolon, d)) :
      AtRuleRead input item block c
        (.container keyword.start semicolon.stop
          (.atRule (Text.lower (textFrom keyword.value 1))
            (query input keyword (headLoop item none input.bound after)) false true)
          (headLoop item none input.bound after).children) d
  | block {keyword : Token} {after d : Cursor} {start stop : Int} {closed : Bool}
      {children : List Node} (hkeyword : atKeyword? input c = some (keyword, after))
      (hblock : block (headLoop item none input.bound after).cursor.skipTrivia
        = some (.container start stop (.block closed) children, d)) :
      AtRuleRead input item block c
        (.container keyword.start stop
          (.atRule (Text.lower (textFrom keyword.value 1))
            (query input keyword (headLoop item none input.bound after)) true closed)
          ((headLoop item none input.bound after).children
            ++ [.container start stop (.block closed) children])) d
  | bare {keyword : Token} {after : Cursor} (hkeyword : atKeyword? input c = some (keyword, after)) :
      AtRuleRead input item block c
        (.container keyword.start ((headLoop item none input.bound after).stop.getD keyword.stop)
          (.atRule (Text.lower (textFrom keyword.value 1))
            (query input keyword (headLoop item none input.bound after)) false true)
          (headLoop item none input.bound after).children)
        (headLoop item none input.bound after).cursor.skipTrivia

theorem atRuleRead (h : atRule input item block c = some (node, d)) :
    AtRuleRead input item block c node d := by
  unfold atRule at h
  cases hkeyword : atKeyword? input c with
  | none => simp [hkeyword] at h
  | some found =>
      obtain ⟨keyword, after⟩ := found
      simp only [hkeyword] at h
      split at h
      · rename_i hsemicolon
        simp only [Option.some.injEq, Prod.mk.injEq] at h
        obtain ⟨rfl, rfl⟩ := h
        exact .semicolon hkeyword hsemicolon
      split at h
      · rename_i hblock
        simp only [Option.some.injEq, Prod.mk.injEq] at h
        obtain ⟨rfl, rfl⟩ := h
        exact .block hkeyword hblock
      · simp only [Option.some.injEq, Prod.mk.injEq] at h
        obtain ⟨rfl, rfl⟩ := h
        exact .bare hkeyword

/-! ### Declarations -/

/-- Where a declaration begins: with a property and a colon. -/
theorem declarationStart_eq_ok {v : Value} :
    declarationStart input c = .ok (t, v) ↔
      c.peek? = some t ∧ input.rich = true ∧ namesProperty t.kind = true
        ∧ ∃ colon d, c.advance.skipTrivia.acceptKind? .colon = some (colon, d)
          ∧ v = { stop := d.previousEnd input, cursor := d } := by
  unfold declarationStart
  cases hpeek : c.peek? with
  | none => simp
  | some property =>
      simp only [Option.some.injEq]
      split
      · rename_i hplain
        simp only [Bool.or_eq_true, Bool.not_eq_true'] at hplain
        refine iff_of_false (by simp) ?_
        rintro ⟨rfl, hrich, hnames, -⟩
        simp [hrich, hnames] at hplain
      · rename_i hplain
        simp only [Bool.or_eq_true, Bool.not_eq_true', not_or, Bool.not_eq_false] at hplain
        cases hcolon : c.advance.skipTrivia.acceptKind? .colon with
        | none => simp
        | some found =>
            obtain ⟨colon, d⟩ := found
            simp only [Except.ok.injEq, Prod.mk.injEq, Option.some.injEq]
            constructor
            · rintro ⟨rfl, rfl⟩
              exact ⟨rfl, hplain.1, hplain.2, colon, d, ⟨rfl, rfl⟩, rfl⟩
            · rintro ⟨rfl, -, -, _, _, ⟨rfl, rfl⟩, rfl⟩
              exact ⟨rfl, rfl⟩

/-- A declaration that was read, by its stages. -/
inductive DeclarationRead (input : Input) (item : Production) (c : Cursor) : Node → Cursor → Prop
  | mk {property : Token} {rest : List Token} {start value : Value}
      (hahead : c.ahead = property :: rest)
      (hstart : declarationStart input c = .ok (property, start))
      (hvalue : valueLoop item input.bound start = .ok value) :
      DeclarationRead input item c
        (.leaf property.start value.stop
          (.declaration property.value
            (match value.span with
              | some (start, stop) => Text.normalizeSpace (input.text start stop)
              | none => "") value.important)) value.cursor

theorem declarationRead (h : declaration input item c = some (node, d)) :
    DeclarationRead input item c node d := by
  rw [declaration, Attempt.read_eq_some, tryDeclaration] at h
  split at h
  · exact absurd h (by simp)
  rename_i property start hstart
  split at h
  · exact absurd h (by simp)
  rename_i value hvalue
  simp only [Except.ok.injEq, Prod.mk.injEq] at h
  obtain ⟨rfl, rfl⟩ := h
  obtain ⟨rest, hahead⟩ := ahead_of_peek? (declarationStart_eq_ok.mp hstart).1
  exact .mk hahead hstart hvalue

end SourceView.Stylesheet
