/-
Which block a rule takes.

The table of rule starts counts groups: to it any closer ends the group that was opened last.
The head of a rule goes by the closers that are due.  So the table may promise a brace at which a
group of the head is still open.  That brace belongs to the group, and the rule that looked for it
fails, or takes a later one.

Where every group is closed by its own kind, the table and the head agree (`Stacked.after_eq`).
-/
import Mathlib.Data.List.TakeWhile
import SourceView.Proofs.Embedding.Pass
import SourceView.Proofs.Stylesheet.Heads

namespace SourceView.Stylesheet

open Parsing Parsing.Cursor

variable {input : Input} {c : Cursor} {b t : Token} {st tail rest : List Token}
  {due outer : List TokenKind} {place : Place} {closer : TokenKind}

/-! ### Rules -/

/-- At a brace a block is read that the brace opens. -/
theorem read_block (hb : b.kind = .blockOpen) (hahead : c.ahead = b :: tail)
    (hbound : c.ahead.length < input.bound) :
    ∃ stop closed children d,
      read input .block c = some (.container b.start stop (.block closed) children, d) := by
  have hread : read input .block c
      = Group.block.read input (derive.statement input (read input)) c := read_eq_derive _ hbound
  rw [hread]
  by_cases hdeep : c.advance.tooDeep = true
  · rw [Group.read_deep hahead hb hdeep]
    exact ⟨_, _, _, _, rfl⟩
  · rw [Group.read_shallow hahead hb hdeep]
    cases hclosed : (Group.block.inside input (derive.statement input (read input)) b
        c.advance).closer with
    | some u => exact ⟨_, _, _, _, congrArg some (Group.body_closed hclosed)⟩
    | none => exact ⟨_, _, _, _, congrArg some (Group.body_unclosed hclosed)⟩

theorem read_block_eq_none (hbound : c.ahead.length < input.bound)
    (hb : ∀ b, c.peek? = some b → b.kind ≠ .blockOpen) : read input .block c = none := by
  rw [read_eq_derive _ hbound]
  cases hread : Group.block.read input (derive.statement input (read input)) c with
  | none => exact hread
  | some found =>
      obtain ⟨t, rest, hahead, ht⟩ := Group.ahead_of_read hread
      exact absurd ht (hb t (peek?_of_ahead hahead))

/-- A rule is read at the cursor, and the brace opens its block. -/
def TakesBlock (input : Input) (c : Cursor) (brace : Token) : Prop :=
  ∃ start stop selector closed nodes children d,
    read input .rule c = some (.container start stop (.rule selector closed)
      (nodes ++ [.container brace.start stop (.block closed) children]), d)

theorem TakesBlock.read_ne_none (h : TakesBlock input c b) : read input .rule c ≠ none := by
  obtain ⟨start, stop, selector, closed, nodes, children, d, hread⟩ := h
  simp [hread]

theorem TakesBlock.start_eq {u : Token} (h : TakesBlock input c b) (h' : TakesBlock input c u) :
    b.start = u.start := by
  obtain ⟨start, stop, selector, closed, nodes, children, d, hread⟩ := h
  obtain ⟨start', stop', selector', closed', nodes', children', d', hread'⟩ := h'
  rw [hread, Option.some.injEq, Prod.mk.injEq, Node.container.injEq] at hread'
  have hlast := congrArg List.getLast? hread'.1.2.2.2
  simp only [List.getLast?_append, List.getLast?_singleton, Option.some_or, Option.some.injEq,
    Node.container.injEq] at hlast
  exact hlast.1

/-- Where the block is looked for. -/
def behindHead (input : Input) (c : Cursor) : Cursor :=
  (headLoop (structures input) none input.bound c).cursor.skipTrivia

theorem behindHead_bound (hbound : c.ahead.length < input.bound) :
    (behindHead input c).ahead.length < input.bound :=
  Nat.lt_of_le_of_lt ((leads_headLoop (moves_structures input) none input.bound c).trans
    (leads_skipTrivia _)).length_le hbound

/-- Without a brace behind the head there is no rule. -/
theorem read_rule_none (hbound : c.ahead.length < input.bound)
    (hb : ∀ b, (behindHead input c).peek? = some b → b.kind ≠ .blockOpen) :
    read input .rule c = none := by
  have hblock := read_block_eq_none (behindHead_bound hbound) hb
  rw [behindHead] at hblock
  rw [read_eq_derive _ hbound]
  refine Option.eq_none_iff_forall_ne_some.mpr fun ⟨_, _⟩ hread => ?_
  obtain ⟨-, -, -, hbody⟩ := rule_eq_some.mp hread
  exact absurd (hblock.symm.trans hbody) (by simp)

/-- Nor is there one whose head is empty. -/
theorem read_rule_none_of_stop (hbound : c.ahead.length < input.bound)
    (hstop : (headLoop (structures input) none input.bound c).stop = none) :
    read input .rule c = none := by
  rw [read_eq_derive _ hbound]
  refine Option.eq_none_iff_forall_ne_some.mpr fun ⟨_, _⟩ hread => ?_
  obtain ⟨-, -, hstop', -⟩ := rule_eq_some.mp hread
  exact absurd (hstop.symm.trans hstop') (by simp)

/-- A head that is trivia alone is empty. -/
theorem read_rule_none_of_trivia (hbound : c.ahead.length < input.bound) (hb : b.kind = .blockOpen)
    (hahead : c.ahead = st ++ b :: tail) (hst : ∀ t ∈ st, t.kind.isTrivia = true) :
    read input .rule c = none := by
  have htrivia : b.kind.isTrivia = false := by rw [hb]; rfl
  have hskip : c.skipTrivia.ahead = b :: tail := by
    rw [ahead_skipTrivia, hahead, List.dropWhile_append_of_pos hst,
      List.dropWhile_cons_of_neg (by simp [htrivia])]
  refine read_rule_none_of_stop hbound ?_
  rw [Input.bound, ← headLoop_skipTrivia, headLoop_stops hskip htrivia (.inl hb)]

/-- Behind trivia the first token of the head is ahead. -/
theorem exists_next (hahead : c.ahead = st ++ b :: tail)
    (hst : ¬∀ t ∈ st, t.kind.isTrivia = true) : ∃ next ∈ st, c.skipTrivia.peek? = some next := by
  obtain ⟨next, more, hnext⟩ := List.exists_cons_of_ne_nil (mt List.dropWhile_eq_nil_iff.mp hst)
  have hmem : next ∈ st :=
    (List.dropWhile_suffix (·.kind.isTrivia)).subset (hnext ▸ List.mem_cons_self)
  have hskip : c.skipTrivia.ahead = next :: (more ++ b :: tail) := by
    rw [ahead_skipTrivia, hahead, List.dropWhile_append, hnext]
    rfl
  exact ⟨next, hmem, peek?_of_ahead hskip⟩

section

variable {first : Token} (hbound : c.ahead.length < input.bound) (hrich : input.rich = true)
  (hfirst : c.peek? = some first) (hkind : first.kind ≠ .atRule)
  (hstarts : (ruleStarts input.tokens).getD c.pos false = true)

include hbound hrich hfirst hkind hstarts

/-- A head that is not empty, and the block at the brace behind it, are a rule. -/
theorem takesBlock (hahead : (behindHead input c).ahead = b :: tail) (hb : b.kind = .blockOpen)
    (hstop : (headLoop (structures input) none input.bound c).stop ≠ none) :
    TakesBlock input c b := by
  obtain ⟨stop, closed, children, d, hblock⟩ := read_block hb hahead (behindHead_bound hbound)
  obtain ⟨n, hstop⟩ := Option.ne_none_iff_exists'.mp hstop
  rw [behindHead] at hblock
  rw [TakesBlock, read_eq_derive _ hbound]
  have hstart : ruleStart? input (ruleStarts input.tokens).toArray c = some first :=
    ruleStart?_eq_some.mpr ⟨hfirst, hrich, hkind, by simpa using hstarts⟩
  obtain ⟨rest, hfirst⟩ := ahead_of_peek? hfirst
  exact ⟨_, _, _, _, _, _, _, rule_eq_some.mpr (.mk hfirst hstart hstop hblock)⟩

/-- A rule has the block at the brace behind its head. -/
theorem read_rule_cases : read input .rule c = none
    ∨ ∃ b tail, (behindHead input c).ahead = b :: tail ∧ b.kind = .blockOpen
      ∧ TakesBlock input c b := by
  by_cases hb : ∃ b, (behindHead input c).peek? = some b ∧ b.kind = .blockOpen
  · obtain ⟨b, hpeek, hb⟩ := hb
    obtain ⟨tail, hahead⟩ := ahead_of_peek? hpeek
    by_cases hstop : (headLoop (structures input) none input.bound c).stop = none
    · exact .inl (read_rule_none_of_stop hbound hstop)
    · exact .inr ⟨b, tail, hahead, hb, takesBlock hbound hrich hfirst hkind hstarts hahead hb hstop⟩
  · exact .inl (read_rule_none hbound fun b hpeek hkind => hb ⟨b, hpeek, hkind⟩)

end

/-! ### The answer and the rule -/

/-- A statement that ends at a brace stands before it. -/
theorem exists_brace {ts : List Token} (h : statementEnd? ts = some '\x7b') :
    ∃ b tail, ts = statement ts ++ b :: tail ∧ b.kind = .blockOpen := by
  induction ts with
  | nil => exact absurd h (by simp [statementEnd?])
  | cons t ts ih =>
      cases hdecisive : decisive? t.kind with
      | some d =>
          obtain rfl : d = '\x7b' := by simpa [statementEnd?, hdecisive] using h
          refine ⟨t, ts, by simp [statement, hdecisive], ?_⟩
          revert hdecisive
          cases t.kind <;> simp [decisive?]
      | none =>
          obtain ⟨b, tail, hts, hb⟩ := ih (by simpa [statementEnd?, hdecisive] using h)
          refine ⟨b, tail, ?_, hb⟩
          rw [statement, List.takeWhile_cons_of_pos (by simp [hdecisive]), List.cons_append]
          exact congrArg (t :: ·) hts

/-- Where the table promises a brace, a statement with its groups closed ends at one. -/
theorem isRule_of_ruleStarts (hwithin : c.Within input.tokens)
    (hstarts : (ruleStarts input.tokens).getD c.pos false = true) : IsRule c.ahead := by
  have htokens : input.tokens = c.behind.reverse ++ c.ahead := hwithin
  rw [← opensBrace_iff, ← ruleStarts_append c.behind.reverse, ← htokens, List.length_reverse]
  exact hstarts

/-! ### Groups that are closed by their own kinds -/

/-- The closers that are due at a place, if every group is to be closed by its own. -/
inductive Stacked : Place → List TokenKind → Prop
  | within (due : List TokenKind) : Stacked (.within due) due
  | flat {opener closer : TokenKind} (hpair : groupCloser? opener = some closer)
      (inner due : List TokenKind) :
      Stacked (.flat due opener closer (inner.count closer + 1)) (inner ++ closer :: due)

theorem groupCloser?_inj {kind kind' : TokenKind} (h : groupCloser? kind = some closer)
    (h' : groupCloser? kind' = some closer) : kind = kind' := by
  revert h h'
  cases kind <;> cases kind' <;> simp [groupCloser?] <;> rintro rfl <;> simp

theorem settleStep_inHead {kind : TokenKind} (hkind : InHead kind) :
    settleStep due kind = match groupCloser? kind with
      | some closer => some (closer :: due)
      | none =>
        if kind.isCloser then if due.head? = some kind then some due.tail else none
        else some due := by
  obtain ⟨hdecisive, -⟩ := hkind
  revert hdecisive
  cases kind <;> simp [decisive?] <;> rfl

theorem ne_of_groupCloser? {kind kind' : TokenKind} (h : groupCloser? kind' = some closer)
    (h' : groupCloser? kind = none) : kind ≠ kind' := by
  rintro rfl
  rw [h] at h'
  exact absurd h' (by simp)

namespace Stacked

variable {kind : TokenKind}

theorem opens (outer : List TokenKind) (h : Stacked place due)
    (hkind : groupCloser? kind = some closer) :
    Stacked (place.step outer kind) (closer :: due) := by
  cases h with
  | within due =>
      rw [Place.step_opener hkind]
      split
      · exact .flat hkind [] due
      · exact .within _
  | @flat opener closer' hpair inner due =>
      have hnone := Place.groupCloser?_of_isCloser (isCloser_groupCloser? hpair)
      have hne : kind ≠ closer' := (ne_of_groupCloser? hkind hnone).symm
      rw [Place.step, if_neg hne]
      by_cases hown : kind = opener
      · subst hown
        obtain rfl : closer' = closer := Option.some.inj (hpair.symm.trans hkind)
        rw [if_pos rfl]
        simpa using Stacked.flat hpair (closer' :: inner) due
      · have hother : closer ≠ closer' := fun heq => hown (groupCloser?_inj hkind (heq ▸ hpair))
        rw [if_neg hown]
        simpa [hother] using Stacked.flat hpair (closer :: inner) due

theorem closes (outer : List TokenKind) (h : Stacked place (kind :: due))
    (hkind : kind.isCloser = true) : Stacked (place.step outer kind) due := by
  generalize hall : kind :: due = all at h
  cases h with
  | within due' =>
      rw [← hall, Place.step_own hkind]
      exact .within due
  | @flat opener closer' hpair inner due' =>
      have hne : kind ≠ opener :=
        ne_of_groupCloser? hpair (Place.groupCloser?_of_isCloser hkind)
      rw [Place.step, if_neg hne]
      cases inner with
      | nil =>
          obtain ⟨rfl, rfl⟩ := List.cons.inj hall
          simpa using Stacked.within due
      | cons k inner =>
          obtain ⟨rfl, rfl⟩ := List.cons.inj hall
          by_cases hown : kind = closer'
          · subst hown
            simpa using Stacked.flat hpair inner due'
          · simpa [hown] using Stacked.flat hpair inner due'

theorem passes (outer : List TokenKind) (h : Stacked place due) (hkind : groupCloser? kind = none)
    (hcloser : kind.isCloser = false) : place.step outer kind = place := by
  cases h with
  | within due => exact Place.step_filler hkind hcloser
  | flat hpair inner due =>
      have hother (h : kind = _) : False :=
        Bool.eq_false_iff.mp hcloser (h ▸ isCloser_groupCloser? hpair)
      rw [Place.step, if_neg (ne_of_groupCloser? hpair hkind), if_neg hother]

/-- Where every closer is of its own group's kind, the head comes out of all groups. -/
theorem after_eq (outer : List TokenKind) {ts : List Token} (hts : ∀ t ∈ ts, InHead t.kind)
    (h : Stacked place due) (hsettle : settle due (ts.map (·.kind)) = some []) :
    place.after outer ts = .within [] := by
  induction ts generalizing place due with
  | nil =>
      obtain rfl : due = [] := by simpa [settle] using hsettle
      generalize hnil : ([] : List TokenKind) = due at h
      cases h with
      | within => rw [← hnil]; rfl
      | flat => exact absurd hnil (by simp)
  | cons t ts ih =>
      rw [List.forall_mem_cons] at hts
      rw [List.map_cons, settle_cons, settleStep_inHead hts.1] at hsettle
      rw [Place.after_cons]
      cases hgroup : groupCloser? t.kind with
      | some closer => exact ih hts.2 (h.opens outer hgroup) (by simpa [hgroup] using hsettle)
      | none =>
          cases hcloser : t.kind.isCloser with
          | false =>
              rw [h.passes outer hgroup hcloser]
              exact ih hts.2 h (by simpa [hgroup, hcloser] using hsettle)
          | true =>
              by_cases hfirst : due.head? = some t.kind
              · obtain ⟨due', rfl⟩ := List.head?_eq_some_iff.mp hfirst
                exact ih hts.2 (h.closes outer hcloser) (by simpa [hgroup, hcloser] using hsettle)
              · simp [hgroup, hcloser, hfirst] at hsettle

end Stacked

/-! ### Rules that take a block -/

/-- A brace further on opens no block that this one does. -/
theorem start_ne_of_mem {lo hi : Int} (horder : Token.InOrder lo hi (b :: tail))
    (hsolid : b.start < b.stop) {u : Token} (hu : u ∈ tail) : b.start ≠ u.start := by
  have hle := (Token.InOrder.mem horder.2.2 u hu).1
  omega

theorem behindHead_eq (hahead : (headLoop (structures input) none input.bound c).cursor.ahead
    = t :: rest) (ht : t.kind.isTrivia = false) : (behindHead input c).ahead = t :: rest := by
  rw [behindHead, skipTrivia_of_not_trivia hahead ht, hahead]

/-- What is read behind a head that has the brace in it is further on. -/
theorem mem_of_behindHead (hahead : c.ahead = st ++ b :: tail)
    (hbehind : (behindHead input c).ahead = t :: rest)
    (hshort : (headLoop (structures input) none input.bound c).cursor.ahead.length ≤ tail.length) :
    t ∈ tail := by
  have hhead := leads_headLoop (moves_structures input) none input.bound c
  have hskip := leads_skipTrivia (headLoop (structures input) none input.bound c).cursor
  obtain ⟨ts, hts, -⟩ := (hhead.trans hskip).passes
  have hsuffix : (behindHead input c).ahead <:+ c.ahead := ⟨ts, hts.symm⟩
  have htail : tail <:+ c.ahead := ⟨st ++ [b], by simp [hahead]⟩
  have hle := Nat.le_trans hskip.length_le hshort
  exact (List.suffix_of_suffix_length_le hsuffix htail hle).subset (hbehind ▸ List.mem_cons_self)

/-- A rule takes the block of the brace, or fails at a closer before it, or takes no block before
the brace is passed. -/
theorem read_rule_at_brace {first next : Token} (hrich : input.rich = true)
    (hbound : c.ahead.length < input.bound) (hb : b.kind = .blockOpen)
    (hahead : c.ahead = st ++ b :: tail) (hst : ∀ t ∈ st, InHead t.kind)
    (hfirst : c.peek? = some first) (hkind : first.kind ≠ .atRule)
    (hnext : c.skipTrivia.peek? = some next) (hbrace : next.kind ≠ .blockOpen)
    (hstarts : (ruleStarts input.tokens).getD c.pos false = true) :
    let place := Place.after (awaited c) (.within []) st
    (TakesBlock input c b ∧ place = .within [])
      ∨ (read input .rule c = none ∧ place = .stopped)
      ∨ ((read input .rule c = none
          ∨ ∃ taken ∈ tail, taken.kind = .blockOpen ∧ TakesBlock input c taken)
        ∧ place.inGroup = true) := by
  intro place
  cases headLoop_ends input none hb hahead hst hbound hbound rfl with
  | brace hbehind hends =>
      have hbehind' := behindHead_eq hbehind (by rw [hb]; rfl)
      have hstop := headLoop_ne_none input input.tokens.length hb hahead hst
        hnext hbrace hends
      exact .inl ⟨takesBlock hbound hrich hfirst hkind hstarts hbehind' hb hstop, hends⟩
  | @closer t _ hbehind hcloser hstopped =>
      have hkind : t.kind.isTrivia = false ∧ t.kind ≠ .blockOpen := by
        revert hcloser
        cases t.kind <;> decide
      refine .inr (.inl ⟨read_rule_none hbound fun b hb => ?_, hstopped⟩)
      rw [peek?_of_ahead (behindHead_eq hbehind hkind.1)] at hb
      exact Option.some.inj hb ▸ hkind.2
  | past hshort hgroup =>
      refine .inr (.inr ⟨?_, hgroup⟩)
      refine (read_rule_cases hbound hrich hfirst hkind hstarts).imp_right ?_
      rintro ⟨taken, more, hbehind, hkind, htakes⟩
      exact ⟨taken, mem_of_behindHead hahead hbehind hshort, hkind, htakes⟩

end SourceView.Stylesheet

namespace SourceView

open Parsing Parsing.Cursor Stylesheet

/-- **Which block a rule takes.**  Where the table promises a brace, a rule is read with the block
of that brace just if its head is not trivia alone and is outside of all groups there.  A head that
a closer ends before is no rule, and one with a group open takes a block further on, or none.
Groups that are closed by their own kinds never get in the way. -/
theorem Language.rule_takes_block_iff (config : Config) (source : List Char) {c : Cursor}
    {first : Token} (hwithin : c.Within (stylesheet.input config .rich source).tokens)
    (hfirst : c.peek? = some first) (hkind : first.kind ≠ .atRule)
    (hstarts : (ruleStarts (stylesheet.input config .rich source).tokens).getD c.pos false
      = true) :
    let input := stylesheet.input config .rich source
    let head := statement c.ahead
    let place := Place.after (awaited c) (.within []) head
    ∃ brace rest, c.ahead = head ++ brace :: rest ∧ brace.kind = .blockOpen
      ∧ (TakesBlock input c brace ↔ place = .within [] ∧ ¬∀ t ∈ head, t.kind.isTrivia = true)
      ∧ ((∀ t ∈ head, t.kind.isTrivia = true) → read input .rule c = none)
      ∧ (place = .stopped → read input .rule c = none)
      ∧ (place.inGroup = true → read input .rule c = none
        ∨ ∃ taken ∈ rest, taken.kind = .blockOpen ∧ TakesBlock input c taken)
      ∧ (settle [] (head.map (·.kind)) = some [] → place = .within []) := by
  intro input head place
  obtain ⟨brace, rest, hahead, hopen⟩ := exists_brace (isRule_of_ruleStarts hwithin hstarts).1
  have hsound := fair_input stylesheet config .rich source
  have hsuffix : c.ahead <:+ input.tokens := ⟨c.behind.reverse, hwithin.symm⟩
  have hforeign := lex_noForeign 0 source
  rw [← lex_stylesheet_whole .rich config.embeddedLanguages] at hforeign
  have hhead : ∀ t ∈ head, InHead t.kind := fun t ht =>
    ⟨Option.isNone_iff_eq_none.mp (List.all_eq_true.mp List.all_takeWhile t ht),
      hforeign t (hsuffix.subset ((List.takeWhile_sublist _).subset ht))⟩
  -- Whoever takes another block does not take this one.
  have hother {taken : Token} (hmem : taken ∈ rest) (htakes : TakesBlock input c taken) :
      ¬TakesBlock input c brace := fun h => by
    have hsuffix' : brace :: rest <:+ input.tokens :=
      List.IsSuffix.trans ⟨head, hahead.symm⟩ hsuffix
    have hsolid : brace.start < brace.stop :=
      hsound.solid brace (hsuffix'.subset List.mem_cons_self) (by rw [hopen]; rfl)
    exact start_ne_of_mem (hsound.order.sublist hsuffix'.sublist) hsolid hmem (h.start_eq htakes)
  have hnone (h : read input .rule c = none) : ¬TakesBlock input c brace :=
    fun htakes => htakes.read_ne_none h
  have hsettled : settle [] (head.map (·.kind)) = some [] → place = .within [] :=
    Stacked.after_eq _ hhead (.within [])
  refine ⟨brace, rest, hahead, hopen, ?_⟩
  by_cases htrivia : ∀ t ∈ head, t.kind.isTrivia = true
  · have hread := read_rule_none_of_trivia hwithin.length_lt hopen hahead htrivia
    exact ⟨iff_of_false (hnone hread) fun h => h.2 htrivia, fun _ => hread, fun _ => hread,
      fun _ => .inl hread, hsettled⟩
  obtain ⟨next, hmem, hnext⟩ := exists_next hahead htrivia
  have hbrace : next.kind ≠ .blockOpen := fun h =>
    absurd (hhead next hmem).1 (by rw [h]; simp [decisive?])
  rcases read_rule_at_brace rfl hwithin.length_lt hopen hahead hhead hfirst hkind hnext hbrace
    hstarts with ⟨htakes, hplace⟩ | ⟨hread, hplace⟩ | ⟨hread, hgroup⟩
  · refine ⟨iff_of_true htakes ⟨hplace, htrivia⟩, fun h => absurd h htrivia, fun h => ?_,
      fun h => ?_, hsettled⟩
    · exact absurd (hplace.symm.trans h) (by simp)
    · exact absurd (hplace ▸ h : (Place.within []).inGroup = true) (by decide)
  · refine ⟨iff_of_false (hnone hread) fun h => ?_, fun _ => hread, fun _ => hread,
      fun _ => .inl hread, hsettled⟩
    exact absurd (hplace.symm.trans h.1) (by simp)
  · refine ⟨iff_of_false ?_ fun h => ?_, fun h => absurd h htrivia, fun h => ?_, fun _ => hread,
      hsettled⟩
    · rcases hread with hread | ⟨taken, hmem, -, htakes⟩
      · exact hnone hread
      · exact hother hmem htakes
    · exact absurd (h.1 ▸ hgroup : (Place.within []).inGroup = true) (by decide)
    · exact absurd (h ▸ hgroup : Place.stopped.inGroup = true) (by decide)

/-- A square bracket that closes a round one for the table leaves the group open for the rule. -/
theorem Language.rule_fails_in_open_group :
    let input := stylesheet.input {} .rich "a (] \x7b\x7d".toList
    (ruleStarts input.tokens).getD input.cursor.pos false = true
      ∧ read input .rule input.cursor = none := by
  intro input
  have hstarts : (ruleStarts input.tokens).getD input.cursor.pos false = true := by decide +kernel
  have hfirst : input.cursor.peek?.map (·.kind) = some .selector := by decide +kernel
  obtain ⟨first, hfirst, hkind⟩ := Option.map_eq_some_iff.mp hfirst
  obtain ⟨brace, rest, hahead, hopen, -, -, -, hgroup, -⟩ := rule_takes_block_iff {} _
    (show input.cursor.Within input.tokens from rfl) hfirst (by rw [hkind]; decide) hstarts
  refine ⟨hstarts, (hgroup (by decide +kernel)).resolve_right ?_⟩
  rintro ⟨taken, hmem, htaken, -⟩
  -- The text has one brace only.
  have hcount : (input.cursor.ahead.map (·.kind)).count .blockOpen = 1 := by decide +kernel
  have hrest : 0 < (rest.map (·.kind)).count .blockOpen :=
    List.count_pos_iff.mpr (htaken ▸ List.mem_map_of_mem hmem)
  rw [hahead, List.map_append, List.map_cons, List.count_append, hopen, List.count_cons_self]
    at hcount
  omega

end SourceView
