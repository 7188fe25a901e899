/-
Loops and rules that end, and calls that do not stack up.

A loop gets the number of its turns from the number of tokens, and a rule the number of
rules that may stand inside it.  Neither number means anything to what is read: a loop is
given by what it does in one turn, a grammar by what a rule does with the others, and what
they come to is settled by that alone.

What has to be shown is that a turn goes on at a cursor with fewer tokens ahead, whatever
the tokens are.  It does because every turn takes a token and because a production that reads a
node has passed one.  Then the answer at a cursor goes by the answers at cursors with fewer
tokens ahead, no turn is ever missing, and the number of turns may be forgotten.

How many tokens there are says how long a parse takes, but not how deep its calls stand in each
other.  A rule calls others in containers that it has opened, of which there are only so many, or
where it stands itself, and then in an order that has an end.  So there is room for all calls in
a stack of a size that does not depend on the tokens.
-/
import SourceView.Proofs.Parsing.Progress

namespace SourceView.Parsing

variable {σ α : Type}

/-! ### Recursions -/

/-- The function `f` is what the recursion `step` comes to at the states of a measure below
`bound`.  It solves the recursion there, and the recursion ends: at a state it goes by the
answers at states of lesser measure and by no others. -/
structure Terminates (measure : σ → Nat) (bound : Nat) (step : (σ → α) → σ → α) (f : σ → α) :
    Prop where
  solves : ∀ s, measure s < bound → f s = step f s
  descends : ∀ s g, measure s < bound → (∀ s', measure s' < measure s → g s' = f s') →
    step g s = step f s

/-- The recursion has no other solution. -/
theorem Terminates.unique {measure : σ → Nat} {bound : Nat} {step : (σ → α) → σ → α} {f g : σ → α}
    (h : Terminates measure bound step f) (hg : ∀ s, measure s < bound → g s = step g s) (s : σ)
    (hs : measure s < bound) : g s = f s := by
  induction hn : measure s using Nat.strongRecOn generalizing s with
  | ind n ih =>
      have hbelow (s' : σ) (hs' : measure s' < measure s) : g s' = f s' :=
        ih (measure s') (hn ▸ hs') s' (Nat.lt_trans hs' hs) rfl
      rw [hg s hs, h.descends s g hs hbelow, ← h.solves s hs]

section

variable {measure : σ → Nat} {bound : Nat} {step step' : (σ → α) → σ → α} {run run' : Nat → σ → α}

/-- Two numbers of turns that both exceed the measure make no difference. -/
theorem run_eq_of_measure_lt (hrun : ∀ n, run (n + 1) = step (run n))
    (hdescends : ∀ n s g, measure s < bound → (∀ s', measure s' < measure s → g s' = run n s') →
      step g s = step (run n) s)
    {n m : Nat} {s : σ} (hs : measure s < bound) (hn : measure s < n) (hm : measure s < m) :
    run n s = run m s := by
  induction n generalizing m s with
  | zero => exact absurd hn (Nat.not_lt_zero _)
  | succ n ih =>
      obtain ⟨m, rfl⟩ := Nat.exists_eq_succ_of_ne_zero (Nat.ne_zero_of_lt hm)
      rw [hrun n, Nat.succ_eq_add_one, hrun m]
      exact hdescends m s (run n) hs fun s' hs' => ih (by omega) (by omega) (by omega)

/-- A recursion with a turn for every measure comes to what it comes to with more. -/
theorem terminates_of_run (step : (σ → α) → σ → α) (run : Nat → σ → α)
    (hrun : ∀ n, run (n + 1) = step (run n))
    (hdescends : ∀ n s g, measure s < bound → (∀ s', measure s' < measure s → g s' = run n s') →
      step g s = step (run n) s) :
    Terminates measure bound step (run bound) := by
  refine ⟨fun s hs => ?_, hdescends bound⟩
  rw [← hrun bound]
  exact run_eq_of_measure_lt hrun hdescends hs hs (Nat.lt_succ_of_lt hs)

end

/-! ### Places -/

/-- The property holds of a cursor wherever a parse may get from one that has it. -/
def Kept (P : Cursor → Prop) : Prop :=
  ∀ ⦃c d : Cursor⦄, P c → c.Leads d → P d

namespace Cursor

/-- The cursor `d` is no further back than `c`, and in as many containers. -/
def Beside (c d : Cursor) : Prop :=
  d.ahead.length ≤ c.ahead.length ∧ d.opened.length = c.opened.length

/-- The cursor `d` is further on than `c`, and in more containers.  There may be one more than the
limit says, as an interpolation is opened in its template without a look at the limit. -/
def Inside (c d : Cursor) : Prop :=
  d.ahead.length < c.ahead.length ∧ c.opened.length < d.opened.length
    ∧ d.opened.length ≤ maxDepth + 1

variable {c d : Cursor}

theorem Leads.beside (h : c.Leads d) : c.Beside d :=
  ⟨h.length_le, congrArg List.length h.opened⟩

theorem kept_beside (c : Cursor) : Kept c.Beside :=
  fun _ _ hc hd => ⟨Nat.le_trans hd.length_le hc.1, hd.opened ▸ hc.2⟩

theorem kept_inside (c : Cursor) : Kept c.Inside :=
  fun _ _ hc hd => ⟨Nat.lt_of_le_of_lt hd.length_le hc.1, hd.opened ▸ hc.2.1, hd.opened ▸ hc.2.2⟩

theorem kept_ahead (k : Nat) : Kept fun c => c.ahead.length < k :=
  fun _ _ hc hd => Nat.lt_of_le_of_lt hd.length_le hc

/-- What is opened after a token was passed is inside, unless it is too deep. -/
theorem Steps.inside_push (h : c.Steps d) (hdeep : ¬d.tooDeep = true) (o : OpenContainer) :
    c.Inside (d.push o) := by
  have hlength : (d.push o).opened.length = c.opened.length + 1 := by
    rw [← h.leads.opened]
    rfl
  have hlimit : d.opened.length < maxDepth := by simpa [tooDeep] using hdeep
  rw [h.leads.opened] at hlimit
  exact ⟨h.shorter, by omega, by omega⟩

end Cursor

section

variable {cursorOf : σ → Cursor} {P : Cursor → Prop} {step step' : (σ → α) → σ → α}
variable {run run' : Nat → σ → α}

/-- The steps make the same of functions that are the same at states that are further on. -/
def Alike (cursorOf : σ → Cursor) (P : Cursor → Prop) (step' step : (σ → α) → σ → α) : Prop :=
  ∀ s g f, P (cursorOf s) → (∀ s', (cursorOf s).Steps (cursorOf s') → g s' = f s') →
    step' g s = step f s

theorem Alike.terminates {bound : Nat}
    (h : Alike cursorOf (fun c => c.ahead.length < bound) step step) (run : Nat → σ → α)
    (hrun : ∀ n, run (n + 1) = step (run n)) :
    Terminates (fun s => (cursorOf s).ahead.length) bound step (run bound) :=
  terminates_of_run step run hrun fun n s g hs hg => h s g (run n) hs fun s' hs' => hg s' hs'.shorter

/-- Loops whose turns are alike are the same. -/
theorem Alike.run_eq (hP : Kept P) (h : Alike cursorOf P step' step) (run' run : Nat → σ → α)
    (hrun' : ∀ n, run' (n + 1) = step' (run' n)) (hrun : ∀ n, run (n + 1) = step (run n))
    (hzero : run' 0 = run 0) (n : Nat) {s : σ} (hs : P (cursorOf s)) : run' n s = run n s := by
  induction n generalizing s with
  | zero => rw [hzero]
  | succ n ih =>
      rw [hrun' n, hrun n]
      exact h s (run' n) (run n) hs fun s' hs' => ih (hP hs hs'.leads)

end

/-! ### Productions that read the same -/

/-- The productions read the same at the places with the property. -/
def Agree (P : Cursor → Prop) (p q : Production) : Prop :=
  ∀ c : Cursor, P c → p c = q c

theorem Agree.refl (P : Cursor → Prop) (p : Production) : Agree P p p :=
  fun _ _ => rfl

theorem Agree.choice_map {β : Type} {P : Cursor → Prop} {f g : β → Production} {as : List β}
    (h : ∀ a ∈ as, Agree P (f a) (g a)) : Agree P (choice (as.map f)) (choice (as.map g)) := by
  intro c hc
  induction as with
  | nil => rfl
  | cons a as ih =>
      simp only [List.map_cons, choice]
      rw [h a List.mem_cons_self c hc, ih fun b hb => h b (List.mem_cons_of_mem a hb)]

open Cursor

variable {P : Cursor → Prop}

theorem sequence?_congr (hP : Kept P) (ps : List (Production × Production))
    (hmoves : ∀ p ∈ ps, Moves p.2) (h : ∀ p ∈ ps, Agree P p.1 p.2) {c : Cursor} (hc : P c) :
    sequence? (ps.map Prod.fst) c = sequence? (ps.map Prod.snd) c := by
  induction ps generalizing c with
  | nil => rfl
  | cons p ps ih =>
      have hskip := hP hc (leads_skipTrivia c)
      simp only [List.map_cons, sequence?]
      rw [h p List.mem_cons_self _ hskip]
      cases hnode : p.2 c.skipTrivia with
      | none => rfl
      | some found =>
          simp only
          rw [ih (fun q hq => hmoves q (List.mem_cons_of_mem p hq))
            (fun q hq => h q (List.mem_cons_of_mem p hq))
            (hP hskip ((hmoves p List.mem_cons_self).steps hnode).leads)]

/-! ### Loops over children -/

/-- A turn of the loop over children. -/
def itemsStep (item : Production) (closer : Option TokenKind) (self : Cursor → Items) (c : Cursor) :
    Items :=
  let c := c.skipTrivia
  match c.peek? with
  | none => ⟨[], none, c⟩
  | some t =>
    if some t.kind = closer then ⟨[], some t, c.advance⟩
    else if t.kind.isCloser then
      match c.recover? t with
      | none => ⟨[], none, c⟩
      | some c => self c
    else
      match item c with
      | some (node, c) =>
        let more := self c
        { more with nodes := node :: more.nodes }
      | none => self c.advance

theorem itemsLoop_succ (item : Production) (closer : Option TokenKind) (turns : Nat) :
    itemsLoop item closer (turns + 1) = itemsStep item closer (itemsLoop item closer turns) :=
  rfl

theorem itemsStep_alike (hP : Kept P) {item item' : Production} (hmoves : Moves item)
    (h : Agree P item' item) (closer : Option TokenKind) :
    Alike (fun c : Cursor => c) P (itemsStep item' closer) (itemsStep item closer) := by
  intro c g f hc hf
  have hskip := leads_skipTrivia c
  have hmore {d : Cursor} (hsteps : c.skipTrivia.Steps d) : g d = f d :=
    hf d (hskip.trans_steps hsteps)
  unfold itemsStep
  cases hpeek : c.skipTrivia.peek? with
  | none => simp only [hpeek]
  | some t =>
      obtain ⟨rest, hahead⟩ := ahead_of_peek? hpeek
      simp only [hpeek]
      rw [h c.skipTrivia (hP hc hskip), hmore (steps_advance hahead)]
      cases hrecover : c.skipTrivia.recover? t with
      | none =>
          cases hnode : item c.skipTrivia with
          | none => rfl
          | some found => simp only [hmore (hmoves.steps hnode)]
      | some d =>
          simp only [hmore (steps_of_recover? hahead hrecover)]
          cases hnode : item c.skipTrivia with
          | none => rfl
          | some found => simp only [hmore (hmoves.steps hnode)]

theorem itemsLoop_congr (hP : Kept P) {item item' : Production} (hmoves : Moves item)
    (h : Agree P item' item) (closer : Option TokenKind) (turns : Nat) {c : Cursor} (hc : P c) :
    itemsLoop item' closer turns c = itemsLoop item closer turns c :=
  (itemsStep_alike hP hmoves h closer).run_eq hP _ _ (itemsLoop_succ item' closer)
    (itemsLoop_succ item closer) rfl turns hc

/-- A group reads only inside itself. -/
theorem Group.read_congr (g : Group) (input : Input) {item item' : Production}
    (hmoves : Moves item) {c : Cursor} (h : Agree c.Inside item' item) :
    g.read input item' c = g.read input item c := by
  unfold Group.read
  cases hopener : c.acceptKind? g.opener with
  | none => rfl
  | some found =>
      simp only
      by_cases hdeep : found.2.tooDeep = true
      · rw [if_pos hdeep, if_pos hdeep]
      · rw [if_neg hdeep, if_neg hdeep, Group.body, Group.body, items, items,
          itemsLoop_congr (kept_inside c) hmoves h _ _
            ((steps_of_accept? hopener).inside_push hdeep _)]

theorem document_congr (input : Input) {item item' : Production} (hmoves : Moves item)
    {c : Cursor} (h : Agree c.Beside item' item) :
    document input item' c = document input item c := by
  unfold document items
  rw [itemsLoop_congr (kept_beside c) hmoves h none _ (Leads.refl c).beside]

/-! ### Text -/

/-- A turn of the loop over text. -/
def textStep (self : Int × Cursor → Int × Cursor) : Int × Cursor → Int × Cursor
  | (stop, c) =>
    let next := c.skipTrivia
    match next.ahead with
    | [] => (stop, c)
    | t :: _ =>
      if t.kind = .text ∨ t.kind = .entity then self (t.stop, next.advance) else (stop, c)

theorem readAttribute_congr (hP : Kept P) (input : Input) (d : Dialect)
    {expression expression' : Production} (h : Agree P expression' expression) (name : Token)
    {c : Cursor} (hc : P c) :
    readAttribute input d expression' name c = readAttribute input d expression name c := by
  unfold readAttribute
  cases hequals : c.skipTrivia.acceptKind? .equals with
  | none => rfl
  | some found =>
      have hvalue := ((leads_skipTrivia c).trans (steps_of_accept? hequals).leads).trans
        (leads_skipTrivia found.2)
      simp only
      rw [h found.2.skipTrivia (hP hc hvalue)]

/-- A turn of the loop over a start tag. -/
def startTagStep (input : Input) (d : Dialect) (expression : Production) (self : Cursor → StartTag)
    (c : Cursor) : StartTag :=
  let c := c.skipTrivia
  match c.peek? with
  | none => ⟨none, [], [], c⟩
  | some t =>
    if t.kind = .tagEnd ∨ t.kind = .tagSelfCloseEnd then ⟨some t.kind, [], [], c.advance⟩
    else if t.kind = .attributeName then
      let read := readAttribute input d expression t c.advance
      let more := self read.cursor
      { more with
        attributes := read.node :: more.attributes
        expressions := read.expression.toList ++ more.expressions }
    else if t.kind = .tagOpen ∨ t.kind.isCloser then ⟨none, [], [], c⟩
    else
      match expression c with
      | some (node, c) =>
        let more := self c
        { more with expressions := node :: more.expressions }
      | none => self c.advance

theorem startTagLoop_succ (input : Input) (d : Dialect) (expression : Production) (turns : Nat) :
    startTagLoop input d expression (turns + 1)
      = startTagStep input d expression (startTagLoop input d expression turns) :=
  rfl

theorem startTagStep_alike (hP : Kept P) (input : Input) (d : Dialect)
    {expression expression' : Production} (hmoves : Moves expression)
    (h : Agree P expression' expression) :
    Alike (fun c : Cursor => c) P (startTagStep input d expression')
      (startTagStep input d expression) := by
  intro c g f hc hf
  have hskip := leads_skipTrivia c
  have hmore {e : Cursor} (hsteps : c.skipTrivia.Steps e) : g e = f e :=
    hf e (hskip.trans_steps hsteps)
  unfold startTagStep
  cases hpeek : c.skipTrivia.peek? with
  | none => simp only [hpeek]
  | some t =>
      obtain ⟨rest, hahead⟩ := ahead_of_peek? hpeek
      have hadvance := steps_advance hahead
      simp only [hpeek]
      rw [h c.skipTrivia (hP hc hskip),
        readAttribute_congr hP input d h t (hP hc (hskip.trans hadvance.leads)),
        hmore (hadvance.trans_leads (leads_readAttribute input d hmoves t _)), hmore hadvance]
      cases hnode : expression c.skipTrivia with
      | none => rfl
      | some found => simp only [hmore (hmoves.steps hnode)]

theorem startTagLoop_congr (hP : Kept P) (input : Input) (d : Dialect)
    {expression expression' : Production} (hmoves : Moves expression)
    (h : Agree P expression' expression) (turns : Nat) {c : Cursor} (hc : P c) :
    startTagLoop input d expression' turns c = startTagLoop input d expression turns c :=
  (startTagStep_alike hP input d hmoves h).run_eq hP _ _ (startTagLoop_succ input d expression')
    (startTagLoop_succ input d expression) rfl turns hc

/-- A turn of the loop over the content of an element. -/
def contentStep (input : Input) (d : Dialect) (child : Production) (e : OpenElement)
    (self : Cursor → Content) (c : Cursor) : Content :=
  let c := c.skipTrivia
  match c.peek? with
  | none => ⟨[], false, input.stop, e.complain (.unclosedElement e.written) e.opener c⟩
  | some t =>
    if t.kind = .tagClose ∧ Text.lower (tagName t) = e.key then
      let c := c.pastEndTag
      ⟨[], true, c.previousEnd input, c⟩
    else if t.kind.isCloser then
      match c.recover? t with
      | some c => self c
      | none => ⟨[], false, t.start, e.complain (e.interruptedBy t) t c⟩
    else if e.endsBefore d input t then
      ⟨[], false, t.start, c⟩
    else
      match child c with
      | some (node, c) =>
        let more := self c
        { more with children := node :: more.children }
      | none => self c.advance

theorem contentLoop_succ (input : Input) (d : Dialect) (child : Production) (e : OpenElement)
    (turns : Nat) :
    contentLoop input d child e (turns + 1)
      = contentStep input d child e (contentLoop input d child e turns) :=
  rfl

theorem contentStep_alike (hP : Kept P) (input : Input) (d : Dialect) {child child' : Production}
    (hmoves : Moves child) (h : Agree P child' child) (e : OpenElement) :
    Alike (fun c : Cursor => c) P (contentStep input d child' e) (contentStep input d child e) := by
  intro c g f hc hf
  have hskip := leads_skipTrivia c
  have hmore {d : Cursor} (hsteps : c.skipTrivia.Steps d) : g d = f d :=
    hf d (hskip.trans_steps hsteps)
  unfold contentStep
  cases hpeek : c.skipTrivia.peek? with
  | none => simp only [hpeek]
  | some t =>
      obtain ⟨rest, hahead⟩ := ahead_of_peek? hpeek
      simp only [hpeek]
      rw [h c.skipTrivia (hP hc hskip), hmore (steps_advance hahead)]
      cases hrecover : c.skipTrivia.recover? t with
      | none =>
          cases hnode : child c.skipTrivia with
          | none => rfl
          | some found => simp only [hmore (hmoves.steps hnode)]
      | some d =>
          simp only [hmore (steps_of_recover? hahead hrecover)]
          cases hnode : child c.skipTrivia with
          | none => rfl
          | some found => simp only [hmore (hmoves.steps hnode)]

theorem contentLoop_congr (hP : Kept P) (input : Input) (d : Dialect) {child child' : Production}
    (hmoves : Moves child) (h : Agree P child' child) (e : OpenElement) (turns : Nat) {c : Cursor}
    (hc : P c) :
    contentLoop input d child' e turns c = contentLoop input d child e turns c :=
  (contentStep_alike hP input d hmoves h e).run_eq hP _ _ (contentLoop_succ input d child' e)
    (contentLoop_succ input d child e) rfl turns hc

/-- An element reads inside itself, and the expressions in its start tag beside it: these come
before it is opened. -/
theorem element_congr (input : Input) (d : Dialect)
    {child child' expression expression' : Production}
    (hchild : Moves child) (hexpression : Moves expression) {c : Cursor}
    (h : Agree c.Inside child' child) (h' : Agree c.Beside expression' expression) :
    element input d child' expression' c = element input d child expression c := by
  unfold element
  cases hopener : c.acceptKind? .tagOpen with
  | none => rfl
  | some found =>
      have hopen := steps_of_accept? hopener
      have htag := hopen.trans_leads (leads_startTagLoop input d hexpression input.bound found.2)
      simp only
      rw [startTagLoop_congr (kept_beside c) input d hexpression h' _ hopen.leads.beside]
      generalize startTagLoop input d expression input.bound found.2 = tag at htag
      by_cases hdeep : tag.cursor.tooDeep = true
      · simp only [if_pos hdeep]
      · simp only [if_neg hdeep]
        rw [contentLoop_congr (kept_inside c) input d hchild h _ _ (htag.inside_push hdeep _)]

/-! ### Calls -/

section

variable {Symbol : Type} (rank : Symbol → Nat)

/-- Where the rule of a symbol at a cursor may call that of another one.  In the same container it
calls those of lower rank alone, and none of the highest is called inside a container. -/
inductive Calls : Symbol × Cursor → Symbol × Cursor → Prop
  | beside {s s' : Symbol} {c d : Cursor} (hplace : c.Beside d) (hrank : rank s' < rank s) :
      Calls (s, c) (s', d)
  | inside {s s' : Symbol} {c d : Cursor} (hplace : c.Inside d) (hrank : rank s' ≤ 2) :
      Calls (s, c) (s', d)

/-- What the reading of a symbol at a cursor has to go. -/
def weight (s : Symbol × Cursor) : Nat :=
  3 * s.2.ahead.length + rank s.1

/-- How many calls may stand in each other below that of a symbol at a cursor. -/
def depthBelow (s : Symbol × Cursor) : Nat :=
  3 * (maxDepth + 1 - s.2.opened.length) + rank s.1

/-- Room for all calls that stand in each other in a parse. -/
def callRoom : Nat :=
  3 * (maxDepth + 1) + 4

variable {rank} {s s' : Symbol × Cursor}

theorem Calls.ahead_le (h : Calls rank s s') : s'.2.ahead.length ≤ s.2.ahead.length := by
  cases h with
  | beside hplace => exact hplace.1
  | inside hplace => exact Nat.le_of_lt hplace.1

theorem Calls.weight_lt (h : Calls rank s s') : weight rank s' < weight rank s := by
  cases h with
  | beside hplace hrank =>
      have hahead := hplace.1
      simp only [weight]
      omega
  | inside hplace hrank =>
      have hahead := hplace.1
      simp only [weight]
      omega

theorem Calls.depthBelow_lt (h : Calls rank s s') : depthBelow rank s' < depthBelow rank s := by
  cases h with
  | beside hplace hrank =>
      simp only [depthBelow, hplace.2]
      omega
  | inside hplace hrank =>
      obtain ⟨-, hdeeper, hlimit⟩ := hplace
      simp only [depthBelow]
      omega

theorem depthBelow_lt_callRoom (hrank : ∀ s, rank s ≤ 3) (s : Symbol × Cursor) :
    depthBelow rank s < callRoom := by
  have hlast := hrank s.1
  simp only [depthBelow, callRoom]
  omega

end

/-- What a recursion comes to if calls stand in each other at most so deep; for those beyond it is
`beyond` that answers. -/
def callsWithin (step : (σ → α) → σ → α) (beyond : σ → α) : (depth : Nat) → σ → α
  | 0 => beyond
  | depth + 1 => step (callsWithin step beyond depth)

/-- **Nothing is called beyond the room for calls.**  Whatever would answer there, what the
recursion comes to is the same. -/
theorem callsWithin_eq {Symbol : Type} {rank : Symbol → Nat} {bound depth : Nat}
    {step : (Symbol × Cursor → α) → Symbol × Cursor → α} {f : Symbol × Cursor → α}
    (hsolves : ∀ s, s.2.ahead.length < bound → f s = step f s)
    (hcalls : ∀ s g, (∀ s', Calls rank s s' → g s' = f s') → step g s = step f s)
    (beyond : Symbol × Cursor → α) {s : Symbol × Cursor} (hs : s.2.ahead.length < bound)
    (hdepth : depthBelow rank s < depth) : callsWithin step beyond depth s = f s := by
  induction depth generalizing s with
  | zero => exact absurd hdepth (Nat.not_lt_zero _)
  | succ depth ih =>
      rw [callsWithin, hsolves s hs]
      refine hcalls s _ fun s' hcall => ih (Nat.lt_of_le_of_lt hcall.ahead_le hs) ?_
      exact Nat.lt_of_lt_of_le hcall.depthBelow_lt (Nat.le_of_lt_succ hdepth)

end SourceView.Parsing
