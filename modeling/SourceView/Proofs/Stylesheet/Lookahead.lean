/-
The table of rule starts answers what a scan from every token would.

A scan goes forward from a token and counts the groups that it is in.  It looks for a brace that
opens outside of all groups, and gives up where the statement ends, where a brace opens inside of
a group, and at a closer that no group waits for.

The table is made in two passes, and no scan is made at all.  The first pass keeps the openers
that wait for a closer and pairs each with the closer that comes when it is the innermost one.
That closer is the one at which a scan from behind the opener has left the group, which is what
`closing` finds: `mem_closedGroups` says so of all openers at once, of those that come and of
those that wait already.  The second pass goes backward.  At an opener it asks for the answer
behind the group, and a scan that is in a group goes on behind it as if it had begun there
(`opensBrace_succ`).
-/
import SourceView.Stylesheet.Grammar
import Mathlib.Data.List.Infix

namespace SourceView.Stylesheet

open Parsing

/-! ### The scan -/

/-- Whether a scan that is in `depth` groups comes to a brace outside of all groups before the
statement ends. -/
def opensBrace (depth : Nat) : List Token → Bool
  | [] => false
  | t :: ts =>
    if t.kind = .blockOpen then depth == 0
    else if endsStatement t.kind then false
    else if opensGroup t.kind then opensBrace (depth + 1) ts
    else if t.kind.isCloser then
      match depth with
      | 0 => false
      | depth + 1 => opensBrace depth ts
    else opensBrace depth ts

/-- The index past the closer of the group that is `depth` groups out, if the statement does not
end before.  The tokens begin at `index`. -/
def closing (index depth : Nat) : List Token → Option Nat
  | [] => none
  | t :: ts =>
    if t.kind = .blockOpen then none
    else if endsStatement t.kind then none
    else if opensGroup t.kind then closing (index + 1) (depth + 1) ts
    else if t.kind.isCloser then
      match depth with
      | 0 => some (index + 1)
      | depth + 1 => closing (index + 1) depth ts
    else closing (index + 1) depth ts

/-- What a token is to a scan. -/
inductive Part (t : Token) : Prop
  | brace (hbrace : t.kind = .blockOpen)
  | stop (hbrace : t.kind ≠ .blockOpen) (hstop : endsStatement t.kind = true)
      (hopener : opensGroup t.kind = false)
  | opener (hbrace : t.kind ≠ .blockOpen) (hstop : endsStatement t.kind = false)
      (hopener : opensGroup t.kind = true) (hcloser : t.kind.isCloser = false)
  | closer (hbrace : t.kind ≠ .blockOpen) (hstop : endsStatement t.kind = false)
      (hopener : opensGroup t.kind = false) (hcloser : t.kind.isCloser = true)
  | other (hbrace : t.kind ≠ .blockOpen) (hstop : endsStatement t.kind = false)
      (hopener : opensGroup t.kind = false) (hcloser : t.kind.isCloser = false)

theorem part (t : Token) : Part t := by
  by_cases hbrace : t.kind = .blockOpen
  · exact .brace hbrace
  cases hstop : endsStatement t.kind with
  | true =>
      have hopener : opensGroup t.kind = false := by
        revert hstop
        cases t.kind <;> decide
      exact .stop hbrace hstop hopener
  | false =>
      cases hopener : opensGroup t.kind with
      | true =>
          have hcloser : t.kind.isCloser = false := by
            revert hopener
            cases t.kind <;> decide
          exact .opener hbrace hstop hopener hcloser
      | false =>
          cases hcloser : t.kind.isCloser with
          | true => exact .closer hbrace hstop hopener hcloser
          | false => exact .other hbrace hstop hopener hcloser

variable {waiting : List Nat} {index depth opener past : Nat} {t : Token} {ts : List Token}

theorem closing_bounds (h : closing index depth ts = some past) :
    index < past ∧ past ≤ index + ts.length := by
  induction ts generalizing index depth with
  | nil => exact absurd h (by simp [closing])
  | cons t ts ih =>
      have hmore {depth : Nat} (h : closing (index + 1) depth ts = some past) :
          index < past ∧ past ≤ index + (t :: ts).length := by
        have hbounds := ih h
        rw [List.length_cons]
        omega
      cases part t with
      | brace hbrace => simp [closing, hbrace] at h
      | stop hbrace hstop => simp [closing, hbrace, hstop] at h
      | opener hbrace hstop hopener =>
          exact hmore (by simpa [closing, hbrace, hstop, hopener] using h)
      | closer hbrace hstop hopener hcloser =>
          cases depth with
          | zero =>
              obtain rfl : index + 1 = past := by
                simpa [closing, hbrace, hstop, hopener, hcloser] using h
              rw [List.length_cons]
              omega
          | succ depth =>
              exact hmore (by simpa [closing, hbrace, hstop, hopener, hcloser] using h)
      | other hbrace hstop hopener hcloser =>
          exact hmore (by simpa [closing, hbrace, hstop, hopener, hcloser] using h)

/-- A scan that is in groups goes on behind the outermost one as from its start. -/
theorem opensBrace_succ (index depth : Nat) (ts : List Token) :
    opensBrace (depth + 1) ts
      = (closing index depth ts).elim false fun past => opensBrace 0 (ts.drop (past - index)) := by
  induction ts generalizing index depth with
  | nil => rfl
  | cons t ts ih =>
      have hmore (depth : Nat) : opensBrace (depth + 1) ts
          = (closing (index + 1) depth ts).elim false
              fun past => opensBrace 0 ((t :: ts).drop (past - index)) := by
        rw [ih (index + 1) depth]
        cases hclosing : closing (index + 1) depth ts with
        | none => rfl
        | some past =>
            obtain ⟨n, rfl⟩ := Nat.exists_eq_add_of_lt (closing_bounds hclosing).1
            simp only [Option.elim_some, show index + 1 + n + 1 - index = n + 1 + 1 by omega,
              show index + 1 + n + 1 - (index + 1) = n + 1 by omega, List.drop_succ_cons]
      cases part t with
      | brace hbrace => simp [closing, opensBrace, hbrace]
      | stop hbrace hstop => simp [closing, opensBrace, hbrace, hstop]
      | opener hbrace hstop hopener =>
          simpa [closing, opensBrace, hbrace, hstop, hopener] using hmore (depth + 1)
      | closer hbrace hstop hopener hcloser =>
          cases depth with
          | zero => simp [closing, opensBrace, hbrace, hstop, hopener, hcloser]
          | succ depth =>
              simpa [closing, opensBrace, hbrace, hstop, hopener, hcloser] using hmore depth
      | other hbrace hstop hopener hcloser =>
          simpa [closing, opensBrace, hbrace, hstop, hopener, hcloser] using hmore depth

/-! ### The forward pass -/

/-- The opener stands among the tokens, which begin at `index`, and its group is closed. -/
def Closes (index : Nat) (ts : List Token) (opener past : Nat) : Prop :=
  ∃ place, opener = index + place ∧ (∃ t, ts[place]? = some t ∧ opensGroup t.kind = true)
    ∧ closing (opener + 1) 0 (ts.drop (place + 1)) = some past

theorem closes_cons :
    Closes index (t :: ts) opener past
      ↔ (opener = index ∧ opensGroup t.kind = true ∧ closing (index + 1) 0 ts = some past)
        ∨ Closes (index + 1) ts opener past := by
  rw [Closes, ← Nat.or_exists_add_one]
  refine or_congr ?_ ?_
  · constructor
    · rintro ⟨rfl, ⟨u, hu, hopener⟩, hclosing⟩
      obtain rfl : t = u := Option.some.inj hu
      exact ⟨rfl, hopener, hclosing⟩
    · rintro ⟨rfl, hopener, hclosing⟩
      exact ⟨rfl, ⟨t, rfl, hopener⟩, hclosing⟩
  · simp [Closes, Nat.add_assoc, Nat.add_comm 1]

theorem exists_waiting_cons {P : Nat → Prop} {o : Nat} :
    (∃ depth, (o :: waiting)[depth]? = some opener ∧ P depth)
      ↔ (o = opener ∧ P 0) ∨ ∃ depth, waiting[depth]? = some opener ∧ P (depth + 1) := by
  rw [← Nat.or_exists_add_one]
  simp

/-- A group is closed if its opener waits for the closer, the innermost first, or is still to
come. -/
theorem mem_closedGroups :
    (opener, past) ∈ closedGroups waiting index ts
      ↔ (∃ depth, waiting[depth]? = some opener ∧ closing index depth ts = some past)
        ∨ Closes index ts opener past := by
  induction ts generalizing waiting index with
  | nil => simp [closedGroups, closing, Closes]
  | cons t ts ih =>
      rw [closes_cons]
      cases part t with
      | brace hbrace =>
          have hopener : opensGroup t.kind ≠ true := by rw [hbrace]; decide
          simp [closedGroups, closing, ih, hbrace, hbrace ▸ hopener]
      | stop hbrace hstop hopener => simp [closedGroups, closing, ih, hbrace, hstop, hopener]
      | opener hbrace hstop hopener =>
          simp [closedGroups, closing, ih, hbrace, hstop, hopener, exists_waiting_cons, or_assoc,
            or_left_comm, eq_comm (a := index)]
      | closer hbrace hstop hopener hcloser =>
          cases waiting with
          | nil => simp [closedGroups, ih, hbrace, hstop, hopener, hcloser]
          | cons o waiting =>
              simp [closedGroups, closing, ih, hbrace, hstop, hopener, hcloser,
                exists_waiting_cons, or_assoc, eq_comm (a := o), eq_comm (a := index + 1)]
      | other hbrace hstop hopener hcloser =>
          simp [closedGroups, closing, ih, hbrace, hstop, hopener, hcloser]

/-! ### The backward pass -/

/-- A table that is told at most one thing of an index has it there. -/
theorem getD_foldl_set {pairs : List (Nat × Nat)} {table : Array (Option Nat)} {told : Option Nat}
    (hopener : opener < table.size) (hpairs : ∀ p ∈ pairs, p.1 = opener → told = some p.2)
    (htold : told = table.getD opener none ∨ ∃ past, (opener, past) ∈ pairs) :
    (pairs.foldl (fun table p => table.setIfInBounds p.1 (some p.2)) table).getD opener none
      = told := by
  induction pairs generalizing table with
  | nil => simpa [eq_comm] using htold
  | cons p pairs ih =>
      obtain ⟨o, past⟩ := p
      rw [List.forall_mem_cons] at hpairs
      refine ih (by simpa using hopener) hpairs.2 ?_
      by_cases ho : o = opener
      · left
        rw [hpairs.1 ho]
        simp [ho, hopener]
      · refine htold.imp (fun htold => ?_) fun ⟨past, hmem⟩ => ⟨past, ?_⟩
        · rw [htold]
          simp [Array.getD_eq_getD_getElem?, Array.getElem?_setIfInBounds_ne ho]
        · simpa [Ne.symm ho] using hmem

theorem getD_groupEnds {place : Nat} (ht : ts[place]? = some t)
    (hopener : opensGroup t.kind = true) :
    (groupEnds ts).getD place none = closing (place + 1) 0 (ts.drop (place + 1)) := by
  have hmem {past : Nat} : (place, past) ∈ closedGroups [] 0 ts
      ↔ closing (place + 1) 0 (ts.drop (place + 1)) = some past := by
    rw [mem_closedGroups]
    simp [Closes, ht, hopener]
  have hplace : place < ts.length := (List.getElem?_eq_some_iff.mp ht).1
  refine getD_foldl_set (by simpa using hplace) (fun p hp heq => ?_) ?_
  · exact hmem.mp (heq ▸ hp)
  · cases hclosing : closing (place + 1) 0 (ts.drop (place + 1)) with
    | none => left; simp [hplace]
    | some past => exact .inr ⟨past, hmem.mpr hclosing⟩

theorem ruleStartsFrom_eq {past : Nat → Option Nat}
    (hpast : ∀ place t, ts[place]? = some t → opensGroup t.kind = true →
      past (index + place) = closing (index + place + 1) 0 (ts.drop (place + 1))) :
    ruleStartsFrom past index ts = ts.tails.map (opensBrace 0) := by
  induction ts generalizing index with
  | nil => rfl
  | cons t ts ih =>
      have hafter : ruleStartsFrom past (index + 1) ts = ts.tails.map (opensBrace 0) := by
        refine ih fun place u hu hopener => ?_
        rw [Nat.add_assoc, Nat.add_comm 1]
        exact hpast (place + 1) u hu hopener
      have hhead : (ts.tails.map (opensBrace 0)).headD false = opensBrace 0 ts := by
        cases ts <;> rfl
      rw [ruleStartsFrom, hafter, List.tails, List.map_cons]
      congr 1
      cases part t with
      | brace hbrace => simp [opensBrace, hbrace]
      | stop hbrace hstop hopener => simp [opensBrace, hbrace, hstop]
      | opener hbrace hstop hopener hcloser =>
          have hgroup : past index = closing (index + 1) 0 ts := hpast 0 t rfl hopener
          rw [if_neg (by simpa using hbrace), if_neg (by simp [hstop, hcloser]), if_pos hopener,
            hgroup, opensBrace, if_neg hbrace, if_neg (by simp [hstop]), if_pos hopener,
            opensBrace_succ (index + 1)]
          cases hclosing : closing (index + 1) 0 ts with
          | none => rfl
          | some past =>
              have hlt : past - (index + 1) < ts.tails.length := by
                have := closing_bounds hclosing
                rw [List.length_tails]
                omega
              simp [List.getElem?_eq_getElem hlt, List.getElem_tails]
      | closer hbrace hstop hopener hcloser => simp [opensBrace, hbrace, hstop, hopener, hcloser]
      | other hbrace hstop hopener hcloser =>
          simpa [opensBrace, hbrace, hstop, hopener, hcloser] using hhead

theorem ruleStarts_eq_tails (tokens : List Token) :
    ruleStarts tokens = tokens.tails.map (opensBrace 0) := by
  refine ruleStartsFrom_eq fun place t ht hopener => ?_
  rw [Nat.zero_add]
  exact getD_groupEnds ht hopener

/-- **The table of rule starts equals the plain scan.**  For every token, and for the end after
them, its entry says whether a scan that begins there comes to a brace outside of all groups. -/
theorem ruleStarts_eq_scan (tokens : List Token) :
    ruleStarts tokens
      = (List.range (tokens.length + 1)).map fun index => opensBrace 0 (tokens.drop index) := by
  rw [ruleStarts_eq_tails]
  refine List.ext_getElem (by simp) fun index _ _ => ?_
  simp [List.getElem_tails]

end SourceView.Stylesheet
