/-
How many containers are open.

A group, a template and an element ask for the limit before they open, so none of them opens
when as many containers are open as there may be.  An interpolation does not ask.  It opens in
a template and in nothing else, so it goes past the limit by one, and only when its template
was the last container that there was room for: whatever opens inside asks again.

That a stack is no higher needs nothing to be known about the cursor that a production is
given, so it holds of each production by itself and of the grammars by the height of their
rules.  Only the loop over a template carries something from turn to turn: that its template is
the innermost container, and was let in.
-/
import SourceView.Proofs.Parsing.Watching

namespace SourceView

open Parsing

namespace Parsing

namespace Stack

/-- The innermost container is an interpolation whose template is the last container that there
was room for. -/
def Overflows (stack : Stack) : Prop :=
  ∃ interpolation template outer, stack = interpolation :: template :: outer
    ∧ interpolation.closer = .templateExprClose ∧ template.closer = .templateEnd
    ∧ outer.length + 1 = maxDepth

/-- The stack keeps the limit, or is an interpolation past it. -/
def Bounded (stack : Stack) : Prop :=
  stack.length ≤ maxDepth ∨ stack.Overflows

/-- The innermost container is a template that there was room for. -/
def InTemplate (stack : Stack) : Prop :=
  ∃ template outer, stack = template :: outer ∧ template.closer = .templateEnd
    ∧ outer.length < maxDepth

variable {stack : Stack}

theorem Overflows.length_eq (h : stack.Overflows) : stack.length = maxDepth + 1 := by
  obtain ⟨interpolation, template, outer, rfl, -, -, hlength⟩ := h
  rw [List.length_cons, List.length_cons, hlength]

theorem Bounded.length_le (h : stack.Bounded) : stack.length ≤ maxDepth + 1 :=
  h.elim Nat.le_succ_of_le fun h => Nat.le_of_eq h.length_eq

theorem Bounded.past_iff (h : stack.Bounded) : maxDepth < stack.length ↔ stack.Overflows :=
  ⟨fun hpast => h.resolve_left (Nat.not_le_of_lt hpast), fun h => by rw [h.length_eq]; omega⟩

end Stack

/-! ### Opening -/

variable {c d : Cursor}

theorem opened_advance (c : Cursor) : c.advance.opened = c.opened := by
  unfold Cursor.advance
  split <;> rfl

/-- A container is opened where there is room for it. -/
theorem push_bounded (h : ¬c.tooDeep = true) (o : OpenContainer) :
    Stack.Bounded (c.push o).opened := by
  simp only [Cursor.tooDeep, decide_eq_true_eq, Nat.not_le] at h
  exact Or.inl h

theorem push_inTemplate (h : ¬c.tooDeep = true) {o : OpenContainer} (ho : o.closer = .templateEnd) :
    Stack.InTemplate (c.push o).opened := by
  simp only [Cursor.tooDeep, decide_eq_true_eq, Nat.not_le] at h
  exact ⟨o, c.opened, rfl, ho, h⟩

/-- An interpolation is opened in a template without a question. -/
theorem push_interpolation_bounded (h : Stack.InTemplate c.opened) {o : OpenContainer}
    (ho : o.closer = .templateExprClose) : Stack.Bounded (c.push o).opened := by
  obtain ⟨template, outer, hopened, htemplate, hlength⟩ := h
  have hpush : (c.push o).opened = o :: template :: outer := by rw [← hopened]; rfl
  rw [hpush]
  rcases Nat.lt_or_eq_of_le (Nat.succ_le_of_lt hlength) with hlt | heq
  · exact Or.inl hlt
  · exact Or.inr ⟨o, template, outer, rfl, ho, htemplate, heq⟩

/-! ### Productions -/

/-- Wherever the production is tried, the stacks that it comes to are bounded. -/
def Watched.Bounded (p : Watched) : Prop :=
  ∀ c, ∀ stack ∈ p.opens c, stack.Bounded

theorem Watched.bounded_nothing : nothing.Bounded :=
  fun _ _ h => absurd h List.not_mem_nil

theorem Watched.bounded_choice {ps : List Watched} (h : ∀ p ∈ ps, p.Bounded) :
    (choice ps).Bounded := by
  intro c
  change ∀ stack ∈ choiceOpens ps c, stack.Bounded
  induction ps with
  | nil => exact fun _ h => absurd h List.not_mem_nil
  | cons p ps ih =>
      refine List.forall_mem_append.mpr ⟨h p List.mem_cons_self c, ?_⟩
      split
      · exact fun _ h => absurd h List.not_mem_nil
      · exact ih fun q hq => h q (List.mem_cons_of_mem p hq)

theorem Watched.bounded_choice_map {β : Type} {f : β → Watched} {as : List β}
    (h : ∀ a, (f a).Bounded) : (choice (as.map f)).Bounded :=
  bounded_choice (List.forall_mem_map.mpr fun a _ => h a)

theorem Watched.sequenceOpens_bounded {ps : List Watched} (h : ∀ p ∈ ps, p.Bounded) (c : Cursor) :
    ∀ stack ∈ sequenceOpens ps c, stack.Bounded := by
  induction ps generalizing c with
  | nil => exact fun _ h => absurd h List.not_mem_nil
  | cons p ps ih =>
      refine List.forall_mem_append.mpr ⟨h p List.mem_cons_self _, ?_⟩
      split
      · exact fun _ h => absurd h List.not_mem_nil
      · exact ih (fun q hq => h q (List.mem_cons_of_mem p hq)) _

/-- What holds of the stacks of every turn holds of those of the loop.  `Keeps` is what the
turns keep. -/
theorem WatchedLoop.forall_opens {σ ρ : Type} {loop : WatchedLoop σ ρ} {P : Stack → Prop}
    (Keeps : σ → Prop) (hturn : ∀ s, Keeps s → ∀ stack ∈ (loop.turn s).1, P stack)
    (hkeeps : ∀ s s', Keeps s → (loop.turn s).2 = some s' → Keeps s') (turns : Nat) {s : σ}
    (hs : Keeps s) : ∀ stack ∈ loop.opens turns s, P stack := by
  induction turns generalizing s with
  | zero => exact fun _ h => absurd h List.not_mem_nil
  | succ turns ih =>
      refine List.forall_mem_append.mpr ⟨hturn s hs, ?_⟩
      cases hnext : (loop.turn s).2 with
      | none => exact fun _ h => absurd h List.not_mem_nil
      | some s' => exact ih (hkeeps s s' hs hnext)

theorem WatchedLoop.opens_bounded {σ ρ : Type} {loop : WatchedLoop σ ρ}
    (h : ∀ s, ∀ stack ∈ (loop.turn s).1, stack.Bounded) (turns : Nat) (s : σ) :
    ∀ stack ∈ loop.opens turns s, stack.Bounded :=
  forall_opens (fun _ => True) (fun s _ => h s) (fun _ _ _ _ => trivial) turns trivial

/-- Where nothing is opened. -/
theorem nil_bounded : ∀ stack ∈ ([] : List Stack), stack.Bounded :=
  fun _ h => absurd h List.not_mem_nil

/-- The stacks are those of the production at some cursor, or there are none. -/
def Watched.Tried (p : Watched) (seen : List Stack) : Prop :=
  seen = [] ∨ ∃ c, seen = p.opens c

theorem Watched.Bounded.tried {p : Watched} (h : p.Bounded) {seen : List Stack}
    (hseen : p.Tried seen) : ∀ stack ∈ seen, stack.Bounded := by
  rcases hseen with rfl | ⟨c, rfl⟩
  · exact nil_bounded
  · exact h c

/-! ### Containers -/

section

variable {input : Input} {dialect : Dialect} {item child expression : Watched}

theorem itemsTurn_tried (closer : Option TokenKind) (c : Cursor) :
    item.Tried (itemsTurn item closer c).1 := by
  cases hpeek : c.skipTrivia.peek? <;> grind [itemsTurn, Watched.Tried]

theorem startTagTurn_tried (c : Cursor) :
    expression.Tried (startTagTurn input dialect expression c).1 := by
  cases hpeek : c.skipTrivia.peek? <;> grind [startTagTurn, attributeOpens, Watched.Tried]

theorem contentTurn_tried (e : OpenElement) (c : Cursor) :
    child.Tried (contentTurn input dialect child e c).1 := by
  cases hpeek : c.skipTrivia.peek? <;> grind [contentTurn, Watched.Tried]

theorem itemsOpens_bounded (hitem : item.Bounded) (closer : Option TokenKind) (c : Cursor) :
    ∀ stack ∈ itemsOpens input item closer c, stack.Bounded :=
  WatchedLoop.opens_bounded (fun c => hitem.tried (itemsTurn_tried closer c)) input.bound c

theorem Group.opens_bounded (g : Group) (hitem : item.Bounded) (c : Cursor) :
    ∀ stack ∈ g.opens input item c, stack.Bounded := by
  unfold Group.opens
  split
  · exact nil_bounded
  split
  · exact nil_bounded
  · rename_i hdeep
    exact List.forall_mem_cons.mpr ⟨push_bounded hdeep _, itemsOpens_bounded hitem _ _⟩

theorem elementOpens_bounded (hchild : child.Bounded) (hexpression : expression.Bounded)
    (c : Cursor) : ∀ stack ∈ elementOpens input dialect child expression c, stack.Bounded := by
  unfold elementOpens
  split
  · exact nil_bounded
  refine List.forall_mem_append.mpr ⟨WatchedLoop.opens_bounded
    (fun c => hexpression.tried (startTagTurn_tried c)) _ _, ?_⟩
  split
  · exact nil_bounded
  split
  · exact nil_bounded
  · rename_i hdeep
    exact List.forall_mem_cons.mpr ⟨push_bounded hdeep _,
      WatchedLoop.opens_bounded (fun c => hchild.tried (contentTurn_tried _ c)) _ _⟩

end

end Parsing

/-! ### Scripts -/

namespace Script

variable {input : Input} {item parentheses block : Watched}

theorem templateTurn_bounded (hitem : item.Bounded) {c : Cursor}
    (hc : Stack.InTemplate c.opened) :
    ∀ stack ∈ (templateTurn input item c).1, stack.Bounded := by
  unfold templateTurn
  cases c.peek? with
  | none => exact nil_bounded
  | some t =>
      simp only
      split
      · exact nil_bounded
      split
      · refine List.forall_mem_cons.mpr
          ⟨push_interpolation_bounded ?_ rfl, itemsOpens_bounded hitem _ _⟩
        rw [opened_advance]
        exact hc
      · exact nil_bounded

/-- After an interpolation the template is the innermost container again. -/
theorem templateTurn_opened {c d : Cursor} (h : (templateTurn input item c).2 = some d) :
    d.opened = c.opened := by
  unfold templateTurn at h
  cases hpeek : c.peek? with
  | none => simp [hpeek] at h
  | some t =>
      simp only [hpeek] at h
      split at h
      · exact absurd h (by simp)
      split at h
      · obtain ⟨closer, -, hd⟩ := Option.map_eq_some_iff.mp h
        rw [← hd]
        exact opened_advance c
      · rw [← Option.some.inj h]
        exact opened_advance c

theorem templateOpens_bounded (hitem : item.Bounded) (c : Cursor) :
    ∀ stack ∈ templateOpens input item c, stack.Bounded := by
  unfold templateOpens
  split
  · exact nil_bounded
  split
  · exact nil_bounded
  rename_i hdeep
  refine List.forall_mem_cons.mpr ⟨push_bounded hdeep _, ?_⟩
  exact WatchedLoop.forall_opens (fun c : Cursor => Stack.InTemplate c.opened)
    (fun _ hc => templateTurn_bounded hitem hc)
    (fun _ _ hc hnext => by rw [templateTurn_opened hnext]; exact hc) _
    (push_inTemplate hdeep rfl)

theorem statementTurn_tried (s : Progress × Cursor) : item.Tried (statementTurn item s).1 := by
  obtain ⟨p, c⟩ := s
  cases hpeek : c.skipTrivia.peek? <;> grind [statementTurn, Watched.Tried]

theorem statementRestOpens_bounded (hitem : item.Bounded) (complete control : Bool) (c : Cursor) :
    ∀ stack ∈ statementRestOpens input item complete control c, stack.Bounded :=
  WatchedLoop.opens_bounded (fun s => hitem.tried (statementTurn_tried s)) input.bound _

theorem opens_bounded {self : Symbol → Watched} (h : ∀ symbol, (self symbol).Bounded)
    (symbol : Symbol) (c : Cursor) : ∀ stack ∈ opens input self symbol c, stack.Bounded := by
  have hitem {symbols : List Symbol} : (Watched.choice (symbols.map self)).Bounded :=
    Watched.bounded_choice_map h
  cases symbol with
  | document => exact itemsOpens_bounded hitem _ _
  | comment | text => exact nil_bounded
  | block | parentheses | brackets => exact Group.opens_bounded _ hitem _
  | template => exact templateOpens_bounded hitem _
  | element =>
      exact elementOpens_bounded hitem (Watched.bounded_choice (by simpa using h .block)) _
  | functionDeclaration =>
      change ∀ stack ∈ functionOpens input (self .parentheses) (self .block) c, stack.Bounded
      unfold functionOpens
      split
      · exact nil_bounded
      · exact Watched.sequenceOpens_bounded (by simp [h]) _
  | variableDeclaration =>
      change ∀ stack ∈ variableOpens input (opens.structures self) c, stack.Bounded
      unfold variableOpens
      split
      · exact nil_bounded
      · exact statementRestOpens_bounded hitem _ _ _
  | statement =>
      change ∀ stack ∈ statementOpens input (opens.structures self) c, stack.Bounded
      unfold statementOpens
      split
      · exact nil_bounded
      · exact statementRestOpens_bounded hitem _ _ _

theorem watch_bounded (height : Nat) (symbol : Symbol) : (watch input height symbol).Bounded := by
  induction height generalizing symbol with
  | zero => exact Watched.bounded_nothing
  | succ height ih => exact opens_bounded ih symbol

end Script

/-! ### Stylesheets -/

namespace Stylesheet

variable {input : Input} {starts : Array Bool} {item block : Watched}

theorem headTurn_tried (s : Option Int × Cursor) : item.Tried (headTurn item s).1 := by
  obtain ⟨stop, c⟩ := s
  cases hpeek : c.skipTrivia.peek? <;> grind [headTurn, Watched.Tried]

theorem valueTurn_tried (v : Value) : item.Tried (valueTurn item v).1 := by
  cases hpeek : v.cursor.skipTrivia.peek? <;> grind [valueTurn, Watched.Tried]

theorem headOpens_bounded (hitem : item.Bounded) (c : Cursor) :
    ∀ stack ∈ headOpens input item c, stack.Bounded :=
  WatchedLoop.opens_bounded (fun s => hitem.tried (headTurn_tried s)) input.bound _

theorem opens_bounded {self : Symbol → Watched} (h : ∀ symbol, (self symbol).Bounded)
    (symbol : Symbol) (c : Cursor) :
    ∀ stack ∈ opens input starts self symbol c, stack.Bounded := by
  have hitem {symbols : List Symbol} : (Watched.choice (symbols.map self)).Bounded :=
    Watched.bounded_choice_map h
  cases symbol with
  | document => exact itemsOpens_bounded hitem _ _
  | comment => exact nil_bounded
  | block | parentheses | brackets => exact Group.opens_bounded _ hitem _
  | rule =>
      change ∀ stack ∈ ruleOpens input starts (opens.structures self) (self .block) c, stack.Bounded
      unfold ruleOpens
      split
      · exact nil_bounded
      refine List.forall_mem_append.mpr ⟨headOpens_bounded hitem c, ?_⟩
      split
      · exact nil_bounded
      · exact h .block _
  | atRule =>
      change ∀ stack ∈ atRuleOpens input (opens.structures self) (self .block) c, stack.Bounded
      unfold atRuleOpens
      split
      · exact nil_bounded
      refine List.forall_mem_append.mpr ⟨headOpens_bounded hitem _, ?_⟩
      split
      · exact nil_bounded
      · exact h .block _
  | declaration =>
      change ∀ stack ∈ declarationOpens input (opens.structures self) c, stack.Bounded
      unfold declarationOpens
      split
      · exact nil_bounded
      · exact WatchedLoop.opens_bounded (fun v => hitem.tried (valueTurn_tried v)) _ _

theorem watch_bounded (height : Nat) (symbol : Symbol) :
    (watch input starts height symbol).Bounded := by
  induction height generalizing symbol with
  | zero => exact Watched.bounded_nothing
  | succ height ih => exact opens_bounded ih symbol

end Stylesheet

/-! ### Markup -/

namespace Markup

variable {input : Input}

theorem embeddedStacks_bounded (language : String) (input : Input) :
    ∀ stack ∈ embeddedStacks language input, stack.Bounded := by
  unfold embeddedStacks
  split
  · exact Stylesheet.watch_bounded _ _ _
  · exact Script.watch_bounded _ _ _
  · exact nil_bounded

theorem opens_bounded {self : Symbol → Watched} (h : ∀ symbol, (self symbol).Bounded)
    (symbol : Symbol) (c : Cursor) : ∀ stack ∈ opens input self symbol c, stack.Bounded := by
  have hitem {symbols : List Symbol} : (Watched.choice (symbols.map self)).Bounded :=
    Watched.bounded_choice_map h
  cases symbol with
  | document => exact itemsOpens_bounded hitem _ _
  | comment | text => exact nil_bounded
  | element => exact elementOpens_bounded hitem (Watched.bounded_choice (by simp)) _
  | rawText =>
      change ∀ stack ∈ rawTextOpens input c, stack.Bounded
      unfold rawTextOpens
      split
      · exact nil_bounded
      split
      · exact nil_bounded
      · exact embeddedStacks_bounded _ _

theorem watch_bounded (height : Nat) (symbol : Symbol) : (watch input height symbol).Bounded := by
  induction height generalizing symbol with
  | zero => exact Watched.bounded_nothing
  | succ height ih => exact opens_bounded ih symbol

end Markup

/-! ### Passes -/

/-- **The nesting limit is kept, but for interpolations.**  A stack that a pass comes to is past
the limit just when an interpolation has been opened in the last template that there was room
for, and then by one. -/
theorem Language.past_limit_iff (language : Language) (config : Config) (detail : Detail)
    (source : List Char) : ∀ stack ∈ language.openStacks config detail source,
      stack.length ≤ maxDepth + 1 ∧ (maxDepth < stack.length ↔ stack.Overflows) := by
  have hbounded : ∀ stack ∈ language.openStacks config detail source, stack.Bounded := by
    cases language with
    | markup => exact Markup.watch_bounded _ _ _
    | stylesheet => exact Stylesheet.watch_bounded _ _ _
    | script => exact Script.watch_bounded _ _ _
  exact fun stack hstack => ⟨(hbounded stack hstack).length_le, (hbounded stack hstack).past_iff⟩

/-- An interpolation goes past the limit inside of sixty-three parentheses and a template. -/
theorem Language.past_limit_interpolation :
    let source := List.replicate 63 '(' ++ "`${x}`".toList
    let parentheses : Stack :=
      (List.range 63).reverse.map fun (n : Nat) => { closer := .parenClose, start := n }
    let stack : Stack := { closer := .templateExprClose, start := 64 }
      :: { closer := .templateEnd, start := 63 } :: parentheses
    stack ∈ script.openStacks {} .structural source ∧ maxDepth < stack.length ∧ stack.Overflows := by
  intro source parentheses stack
  have hstack : stack ∈ script.openStacks {} .structural source := by decide +kernel
  have hpast : maxDepth < stack.length := by decide
  exact ⟨hstack, hpast, (past_limit_iff script {} .structural source stack hstack).2.mp hpast⟩

end SourceView
