/-
How the head of a rule is read.

The grammar keeps the closers that are due.  A closer of another kind is passed as stray, or it
ends the groups inside the one that waits for it, and past the nesting limit a group is passed as
a flat run that heeds no kind but its own.

A `Place` is what a reading of the head knows of the groups around it, and `Place.step` what a
token does to it.  The loops of the grammar are followed through the tokens up to a brace: there
a loop has been left, with the place that the tokens give, or it has the brace in it
(`itemsLoop_lands`).  So the tokens say where a head ends (`headLoop_ends`).
-/
import SourceView.Proofs.Parsing.Completion
import SourceView.Proofs.Parsing.Trace
import SourceView.Proofs.Stylesheet.Brackets
import SourceView.Proofs.Stylesheet.NestedRules

namespace SourceView.Stylesheet

open Parsing Parsing.Cursor

/-! ### Places in a head -/

/-- What closes the group that tokens of this kind open. -/
def groupCloser? : TokenKind → Option TokenKind
  | .parenOpen => some .parenClose
  | .bracketOpen => some .bracketClose
  | _ => none

/-- Where a head is read. -/
inductive Place where
  /-- In groups that wait for these closers, the innermost first. -/
  | within (due : List TokenKind)
  /-- In a group past the nesting limit, with `depth` openers to be closed. -/
  | flat (due : List TokenKind) (opener closer : TokenKind) (depth : Nat)
  /-- At a closer that ends the head. -/
  | stopped
deriving DecidableEq

namespace Place

/-- The place behind a token of the kind, in a head inside of containers that wait for the closers
`outer`. -/
def step (outer : List TokenKind) : Place → TokenKind → Place
  | within due, kind =>
    match groupCloser? kind with
    | some closer =>
      if maxDepth ≤ due.length + outer.length then flat due kind closer 1
      else within (closer :: due)
    | none =>
      if kind.isCloser then
        if kind ∈ due then within (due.dropWhile (· != kind)).tail
        else if due = [] ∨ kind ∈ outer then stopped
        else within due
      else within due
  | flat due opener closer depth, kind =>
    if kind = opener then flat due opener closer (depth + 1)
    else if kind = closer then
      if depth = 1 then within due else flat due opener closer (depth - 1)
    else flat due opener closer depth
  | stopped, _ => stopped

/-- Whether some group is open. -/
def inGroup : Place → Bool
  | within due => !due.isEmpty
  | flat .. => true
  | stopped => false

/-- The place behind the tokens. -/
def after (outer : List TokenKind) (place : Place) (ts : List Token) : Place :=
  ts.foldl (fun place t => place.step outer t.kind) place

end Place

theorem isCloser_groupCloser? {kind closer : TokenKind} (h : groupCloser? kind = some closer) :
    closer.isCloser = true := by
  revert h
  cases kind <;> simp [groupCloser?] <;> rintro rfl <;> rfl

namespace Place

variable {outer due : List TokenKind} {place : Place} {t : Token} {ts us : List Token}
  {kind closer : TokenKind}

theorem after_cons : after outer place (t :: ts) = after outer (place.step outer t.kind) ts :=
  rfl

theorem after_stopped (outer : List TokenKind) (ts : List Token) :
    after outer stopped ts = stopped := by
  induction ts with
  | nil => rfl
  | cons t ts ih => exact ih

theorem step_opener (h : groupCloser? kind = some closer) :
    step outer (within due) kind
      = if maxDepth ≤ due.length + outer.length then flat due kind closer 1
        else within (closer :: due) := by
  simp only [step, h]

theorem step_filler (h : groupCloser? kind = none) (hcloser : kind.isCloser = false) :
    step outer (within due) kind = within due := by
  simp only [step, h, hcloser, Bool.false_eq_true, if_false]

theorem groupCloser?_of_isCloser (h : kind.isCloser = true) : groupCloser? kind = none := by
  revert h
  cases kind <;> decide

theorem step_own (hcloser : kind.isCloser = true) :
    step outer (within (kind :: due)) kind = within due := by
  simp [step, groupCloser?_of_isCloser hcloser, hcloser]

/-- A closer that a container further out waits for closes the innermost group without a word. -/
theorem step_awaited (hcloser : kind.isCloser = true) (hne : kind ≠ closer)
    (hmem : kind ∈ due ∨ kind ∈ outer) :
    step outer (within (closer :: due)) kind = step outer (within due) kind := by
  simp only [step, groupCloser?_of_isCloser hcloser, hcloser, if_true, List.mem_cons, hne, false_or]
  by_cases hdue : kind ∈ due
  · rw [if_pos hdue, if_pos hdue, List.dropWhile_cons_of_pos (by simpa using Ne.symm hne)]
  · have houter : kind ∈ outer := hmem.resolve_left hdue
    rw [if_neg hdue, if_neg hdue, if_pos (.inr houter), if_pos (.inr houter)]

theorem step_stray (hcloser : kind.isCloser = true) (hne : kind ≠ closer) (hdue : kind ∉ due)
    (houter : kind ∉ outer) :
    step outer (within (closer :: due)) kind = within (closer :: due) := by
  simp [step, groupCloser?_of_isCloser hcloser, hcloser, hne, hdue, houter]

theorem step_outermost (hcloser : kind.isCloser = true) :
    step outer (within []) kind = stopped := by
  simp [step, groupCloser?_of_isCloser hcloser, hcloser]

theorem groupCloser?_of_isTrivia (h : kind.isTrivia = true) :
    groupCloser? kind = none ∧ kind.isCloser = false := by
  revert h
  cases kind <;> decide

theorem after_dropWhile (ts : List Token) :
    after outer (within due) (ts.dropWhile (·.kind.isTrivia)) = after outer (within due) ts := by
  induction ts with
  | nil => rfl
  | cons t ts ih =>
      by_cases ht : t.kind.isTrivia = true
      · have hfiller := groupCloser?_of_isTrivia ht
        rw [List.dropWhile_cons_of_pos (by exact ht), ih, after_cons,
          step_filler hfiller.1 hfiller.2]
      · rw [List.dropWhile_cons_of_neg (by exact ht)]

end Place

/-! ### Loops that come to a brace -/

/-- What was read from the place `place`, with the tokens `st` before the brace `b`, leaves the
tokens `ahead`.  Either it is left before the brace, and from there the head goes on inside of the
groups `due`, or it has the brace in it. -/
inductive Lands (outer due : List TokenKind) (b : Token) (tail : List Token) (place : Place)
    (st ahead : List Token) : Prop
  | before {st' : List Token} (hahead : ahead = st' ++ b :: tail) (hsuffix : st' <:+ st)
      (hafter : place.after outer st = (Place.within due).after outer st')
  | past (hshort : ahead.length ≤ tail.length) (hopen : (place.after outer st).inGroup = true)

variable {outer due : List TokenKind} {b t : Token} {st tail ahead rest : List Token}
  {place : Place} {opener closer : TokenKind}

theorem Lands.cons (h : Lands outer due b tail (place.step outer t.kind) st ahead) :
    Lands outer due b tail place (t :: st) ahead := by
  cases h with
  | before hahead hsuffix hafter =>
      exact .before hahead (hsuffix.trans (List.suffix_cons t st)) hafter
  | past hshort hopen => exact .past hshort hopen

theorem Lands.of_suffix {st' : List Token} (hsuffix : st' <:+ st)
    (hafter : place.after outer st' = place.after outer st)
    (h : Lands outer due b tail place st' ahead) : Lands outer due b tail place st ahead := by
  cases h with
  | before hahead hsuffix' hafter' =>
      exact .before hahead (hsuffix'.trans hsuffix) (hafter.symm.trans hafter')
  | past hshort hopen => exact .past hshort (hafter ▸ hopen)

/-- Where one thing is left, the next one is read. -/
theorem Lands.trans {due' : List TokenKind} {ahead' : List Token}
    (h : Lands outer due b tail place st ahead)
    (hbefore : ∀ st', st' <:+ st → ahead = st' ++ b :: tail →
      Lands outer due' b tail (.within due) st' ahead')
    (hpast : ahead'.length ≤ ahead.length) : Lands outer due' b tail place st ahead' := by
  cases h with
  | before hahead hsuffix hafter =>
      cases hbefore _ hsuffix hahead with
      | before hahead' hsuffix' hafter' =>
          exact .before hahead' (hsuffix'.trans hsuffix) (hafter.trans hafter')
      | past hshort hopen => exact .past hshort (hafter ▸ hopen)
  | past hshort hopen => exact .past (Nat.le_trans hpast hshort) hopen

/-- Past the nesting limit only the kinds of the group itself are counted. -/
theorem passBalanced_lands (hb : b.kind ≠ closer) (depth : Nat) (behind : List Token) :
    Lands outer due b tail (.flat due opener closer depth) st
      (passBalanced opener closer depth behind (st ++ b :: tail)).2.2 := by
  induction st generalizing depth behind with
  | nil =>
      refine .past ?_ rfl
      have hmore (depth : Nat) :
          (passBalanced opener closer depth (b :: behind) tail).2.2.length ≤ tail.length := by
        obtain ⟨ts, hts, -⟩ := passBalanced_spec opener closer depth (b :: behind) tail
        have hlength := congrArg List.length hts
        rw [List.length_append] at hlength
        omega
      rw [List.nil_append, passBalanced]
      split <;> exact hmore _
  | cons t st ih =>
      refine .cons ?_
      rw [List.cons_append, passBalanced, Place.step]
      split
      · exact ih _ _
      split
      · split
        · exact .before rfl (List.suffix_refl st) rfl
        · exact ih _ _
      · exact ih _ _

/-! ### Structures that a head reads -/

variable {input : Input} {c : Cursor} {turns : Nat} {k : Option TokenKind}

/-- The structures of nesting. -/
def structures (input : Input) : Production :=
  derive.structures (read input)

theorem moves_structures (input : Input) : Moves (structures input) :=
  moves_choice (moves_readWithin input _ _) (by decide)

theorem read_eq_derive (symbol : Symbol) (hbound : c.ahead.length < input.bound) :
    read input symbol c
      = derive input (ruleStarts input.tokens).toArray (read input) symbol c := by
  refine (terminates input).rules.solves (symbol, c) ?_
  have hrank : symbol.rank ≤ 2 := by cases symbol <;> decide
  simp only [weight]
  omega

theorem begins_read (input : Input) : Begins structure? (read input) Symbol.structures :=
  begins_structures input _ _

/-- The group that tokens of this kind open. -/
theorem structures_group_read (hahead : c.ahead = t :: rest) (hbound : c.ahead.length < input.bound)
    (ht : groupCloser? t.kind = some closer) :
    ∃ g ∈ groups, g.opener = t.kind ∧ g.closer = closer
      ∧ structures input c = g.read input (structures input) c := by
  have hread (symbol : Symbol) (hsymbol : symbol ∈ Symbol.structures) {g : Group}
      (hg : t.kind = g.opener)
      (hderive : read input symbol c = g.read input (structures input) c) :
      structures input c = g.read input (structures input) c := by
    obtain ⟨found, hfound⟩ : ∃ found, g.read input (structures input) c = some found := by
      rw [Group.read, acceptKind?_of_eq hahead hg]
      by_cases hdeep : c.advance.tooDeep = true <;> simp [hdeep]
    rw [hfound] at hderive ⊢
    exact (begins_read input).choice hsymbol hderive
  unfold groupCloser? at ht
  split at ht
  · rename_i hkind
    obtain rfl := Option.some.inj ht
    exact ⟨.parentheses, by simp [groups], hkind.symm, rfl,
      hread .parentheses (by simp [Symbol.structures]) hkind (read_eq_derive _ hbound)⟩
  · rename_i hkind
    obtain rfl := Option.some.inj ht
    exact ⟨.brackets, by simp [groups], hkind.symm, rfl,
      hread .brackets (by simp [Symbol.structures]) hkind (read_eq_derive _ hbound)⟩
  · exact absurd ht (by simp)

/-- Tokens of these kinds may stand in a head. -/
def InHead (kind : TokenKind) : Prop :=
  decisive? kind = none ∧ isForeign kind = false

theorem ahead_skipTrivia (c : Cursor) :
    c.skipTrivia.ahead = c.ahead.dropWhile (·.kind.isTrivia) := by
  show (passTrivia c.behind c.ahead).2 = _
  generalize c.behind = behind
  induction c.ahead generalizing behind with
  | nil => rfl
  | cons t rest ih =>
      unfold passTrivia
      by_cases ht : t.kind.isTrivia = true
      · simp [ht, ih]
      · simp [ht]

/-- Whitespace before a brace does not change the place. -/
theorem skipTrivia_lands (hb : b.kind = .blockOpen) (hahead : c.ahead = st ++ b :: tail) :
    ∃ st', c.skipTrivia.ahead = st' ++ b :: tail ∧ st' <:+ st
      ∧ ∀ outer due, Place.after outer (.within due) st' = Place.after outer (.within due) st := by
  refine ⟨st.dropWhile (·.kind.isTrivia), ?_, List.dropWhile_suffix _,
    fun outer due => Place.after_dropWhile st⟩
  rw [ahead_skipTrivia, hahead]
  clear hahead
  induction st with
  | nil => simp [hb, TokenKind.isTrivia]
  | cons t st ih =>
      by_cases ht : t.kind.isTrivia = true
      · simpa [ht] using ih
      · simp [ht]

/-- What the grammar passes in a head that is neither an opener nor a closer: a comment, or a token
at which no structure begins. -/
theorem structures_filler (hahead : c.ahead = t :: rest) (hbound : c.ahead.length < input.bound)
    (hkind : InHead t.kind) (ht : groupCloser? t.kind = none) :
    structures input c = none ∨ ∃ node, structures input c = some (node, c.advance) := by
  by_cases hcomment : t.kind = .comment
  · right
    refine ⟨.leaf t.start t.stop .comment,
      (begins_read input).choice (a := .comment) (by simp [Symbol.structures]) ?_⟩
    rw [read_eq_derive _ hbound]
    simp [derive, Parsing.comment, hahead, hcomment]
  · left
    refine (begins_read input).choice_eq_none hahead ?_
    obtain ⟨hdecisive, hforeign⟩ := hkind
    revert hcomment hdecisive hforeign ht
    cases t.kind <;> simp [structure?, decisive?, isForeign, groupCloser?]

theorem itemsLoop_filler (hahead : c.ahead = t :: rest) (hbound : c.ahead.length < input.bound)
    (htrivia : t.kind.isTrivia = false) (hkind : InHead t.kind) (ht : groupCloser? t.kind = none)
    (hcloser : t.kind.isCloser = false) (hown : some t.kind ≠ k) :
    (itemsLoop (structures input) k (turns + 1) c).cursor
      = (itemsLoop (structures input) k turns c.advance).cursor := by
  rcases structures_filler hahead hbound hkind ht with hnone | ⟨node, hnode⟩
  · rw [itemsLoop, skipTrivia_of_not_trivia hahead htrivia]
    simp only [peek?_of_ahead hahead, if_neg hown, hcloser, Bool.false_eq_true, if_false, hnone]
  · rw [itemsLoop_item hahead htrivia hown hcloser hnode]

/-! ### Groups that a head reads -/

/-- A group is left before the brace, or has it in it, if that holds of the loop inside. -/
theorem structures_lands (input : Input) (outer due : List TokenKind) (hb : b.kind = .blockOpen)
    (hahead : c.ahead = t :: st ++ b :: tail)
    (hbound : c.ahead.length < input.bound) (ht : groupCloser? t.kind = some closer)
    (hopened : awaited c = due ++ outer)
    (hinside : ∀ {d : Cursor}, d.ahead = st ++ b :: tail → awaited d = closer :: due ++ outer →
      Lands outer due b tail (.within (closer :: due)) st
        (items input (structures input) (some closer) d).cursor.ahead) :
    ∃ node d, structures input c = some (node, d) ∧ c.Steps d
      ∧ Lands outer due b tail (.within due) (t :: st) d.ahead := by
  obtain ⟨g, hg, hopener, rfl, hread⟩ := structures_group_read hahead hbound ht
  have hne : b.kind ≠ g.closer := fun h =>
    absurd (isCloser_closer hg) (by rw [← h, hb]; decide)
  have hlength : due.length + outer.length = c.advance.opened.length := by
    have hopened := congrArg List.length hopened
    rw [awaited, List.length_map, List.length_append] at hopened
    rw [(leads_advance c).opened, hopened]
  have hahead' : c.advance.ahead = st ++ b :: tail := ahead_advance hahead
  suffices h : ∃ node d, g.read input (structures input) c = some (node, d)
      ∧ Lands outer due b tail ((Place.within due).step outer t.kind) st d.ahead by
    obtain ⟨node, d, hfound, hlands⟩ := h
    rw [← hread] at hfound
    exact ⟨node, d, hfound, (moves_structures input).steps hfound, hlands.cons⟩
  rw [Place.step_opener ht, hlength]
  by_cases hdeep : c.advance.tooDeep = true
  · rw [Group.read_deep hahead hopener.symm hdeep, if_pos (by simpa [tooDeep] using hdeep)]
    refine ⟨_, _, rfl, ?_⟩
    rw [← hopener]
    show Lands _ _ _ _ _ _ (passBalanced _ _ _ _ c.advance.ahead).2.2
    rw [hahead', ← hopener]
    exact passBalanced_lands hne 1 _
  · rw [Group.read_shallow hahead hopener.symm hdeep, if_neg (by simpa [tooDeep] using hdeep)]
    have hawaited : awaited (c.advance.push { closer := g.closer, start := t.start })
        = g.closer :: due ++ outer := by
      show g.closer :: awaited c.advance = _
      rw [awaited_advance, hopened]
      rfl
    have hlands := hinside (d := c.advance.push { closer := g.closer, start := t.start }) hahead'
      hawaited
    cases hclosed : (g.inside input (structures input) t c.advance).closer with
    | some u =>
        rw [Group.body_closed hclosed]
        exact ⟨_, _, rfl, hlands⟩
    | none =>
        rw [Group.body_unclosed hclosed]
        exact ⟨_, _, rfl, hlands⟩

theorem skipTrivia_twice (c : Cursor) : c.skipTrivia.skipTrivia = c.skipTrivia := by
  cases hahead : c.skipTrivia.ahead with
  | nil => exact skipTrivia_of_nil hahead
  | cons t rest => exact skipTrivia_of_not_trivia hahead (c.atToken_skipTrivia t rest hahead)

theorem itemsLoop_skipTrivia (c : Cursor) :
    itemsLoop (structures input) k (turns + 1) c.skipTrivia
      = itemsLoop (structures input) k (turns + 1) c := by
  rw [itemsLoop, itemsLoop, skipTrivia_twice]

/-- A loop that comes to the brace has it in it. -/
theorem itemsLoop_past (hb : b.kind = .blockOpen) (hcloser : closer.isCloser = true)
    (hahead : c.ahead = b :: tail) :
    (itemsLoop (structures input) (some closer) (turns + 1) c).cursor.ahead.length
      ≤ tail.length := by
  have hown : some b.kind ≠ some closer := by
    rintro h
    rw [← Option.some.inj h, hb] at hcloser
    exact absurd hcloser (by decide)
  have hmore {d : Cursor} (hsteps : c.Steps d) :
      (itemsLoop (structures input) (some closer) turns d).cursor.ahead.length ≤ tail.length := by
    have hle := (leads_itemsLoop (moves_structures input) (some closer) turns d).length_le
    have hlt := hsteps.shorter
    rw [hahead, List.length_cons] at hlt
    omega
  cases hitem : structures input c with
  | some found =>
      rw [itemsLoop_item hahead (by rw [hb]; rfl) hown (by rw [hb]; rfl) hitem]
      exact hmore ((moves_structures input).steps hitem)
  | none =>
      have hopen : b.kind.isCloser = false := by rw [hb]; rfl
      rw [itemsLoop, skipTrivia_of_not_trivia hahead (by rw [hb]; rfl)]
      simp only [peek?_of_ahead hahead, if_neg hown, hopen, Bool.false_eq_true, if_false, hitem]
      exact hmore (steps_advance hahead)

/-- At a closer that is not its own a loop ends if someone further out waits for it, and else
passes it. -/
theorem itemsLoop_lands_of_closer (hahead : c.ahead = t :: st ++ b :: tail)
    (hopened : awaited c = closer :: due ++ outer) (hkind : InHead t.kind)
    (htrivia : t.kind.isTrivia = false) (hclose : t.kind.isCloser = true) (hne : t.kind ≠ closer)
    (hmore : ∀ d, c.Steps d → d.ahead = st ++ b :: tail →
      Lands outer due b tail (.within (closer :: due)) st
        (itemsLoop (structures input) (some closer) turns d).cursor.ahead) :
    Lands outer due b tail (.within (closer :: due)) (t :: st)
      (itemsLoop (structures input) (some closer) (turns + 1) c).cursor.ahead := by
  have hforeign : t.kind ≠ .tagClose := fun h =>
    absurd (h ▸ hkind.2 : isForeign .tagClose = false) (by decide)
  rw [itemsLoop_other hahead hclose htrivia (fun h => hne (Option.some.inj h)),
    recover?_bracket hforeign, hopened]
  by_cases hmem : t.kind ∈ closer :: due ++ outer
  · rw [if_pos hmem]
    refine .before hahead (List.suffix_refl _) ?_
    have hmem' : t.kind ∈ due ∨ t.kind ∈ outer := by
      simpa [hne] using hmem
    rw [Place.after_cons, Place.after_cons, Place.step_awaited hclose hne hmem']
  · rw [if_neg hmem]
    simp only [List.cons_append, List.mem_cons, List.mem_append, not_or] at hmem
    refine .cons ?_
    rw [Place.step_stray hclose hne hmem.2.1 hmem.2.2, advance_note]
    exact hmore _ ((steps_advance hahead).trans_leads (leads_note ..)) (ahead_advance hahead)

/-- **A loop inside a group of a head comes to the brace in the place that the tokens give.** -/
theorem itemsLoop_lands (hb : b.kind = .blockOpen) {c : Cursor} (hcloser : closer.isCloser = true)
    (hahead : c.ahead = st ++ b :: tail) (hst : ∀ t ∈ st, InHead t.kind)
    (hbound : c.ahead.length < input.bound) (hturns : c.ahead.length < turns)
    (hopened : awaited c = closer :: due ++ outer) :
    Lands outer due b tail (.within (closer :: due)) st
      (itemsLoop (structures input) (some closer) turns c).cursor.ahead := by
  induction hn : c.ahead.length using Nat.strongRecOn generalizing c st due closer turns with
  | ind n ih =>
  obtain ⟨turns, rfl⟩ : ∃ k, turns = k + 1 := ⟨turns - 1, by omega⟩
  obtain ⟨st', hskip, hsuffix, hafter⟩ := skipTrivia_lands hb hahead
  have hleads := leads_skipTrivia c
  have hshort := hleads.length_le
  rw [← itemsLoop_skipTrivia]
  refine .of_suffix hsuffix (hafter _ _) ?_
  have hopened' : awaited c.skipTrivia = closer :: due ++ outer :=
    (awaited_of_leads hleads).trans hopened
  have htoken := c.atToken_skipTrivia
  have hst' : ∀ t ∈ st', InHead t.kind := fun t ht => hst t (hsuffix.subset ht)
  generalize c.skipTrivia = d at *
  -- Wherever the loop goes on, it lands.
  have hmore {e : Cursor} {st₂ : List Token} (hsteps : d.Steps e) (he : e.ahead = st₂ ++ b :: tail)
      (hst₂ : st₂ <:+ st') : Lands outer due b tail (.within (closer :: due)) st₂
        (itemsLoop (structures input) (some closer) turns e).cursor.ahead := by
    have hlt := hsteps.shorter
    exact ih _ (by omega) hcloser he (fun t ht => hst' t (hst₂.subset ht)) (by omega) (by omega)
      ((awaited_of_leads hsteps.leads).trans hopened') rfl
  cases st' with
  | nil => exact .past (itemsLoop_past hb hcloser hskip) rfl
  | cons t st' =>
      have htrivia : t.kind.isTrivia = false := htoken t _ hskip
      have hkind := hst' t List.mem_cons_self
      have hadvance := steps_advance hskip
      have hnext : d.advance.ahead = st' ++ b :: tail := ahead_advance hskip
      have hrest := List.suffix_cons t st'
      by_cases hown : some t.kind = some closer
      · rw [itemsLoop_closer hskip htrivia hown]
        refine .before hnext hrest ?_
        rw [Place.after_cons, Option.some.inj hown, Place.step_own hcloser]
      have hne : t.kind ≠ closer := fun h => hown (congrArg some h)
      cases hclose : t.kind.isCloser with
      | true =>
          exact itemsLoop_lands_of_closer hskip hopened' hkind htrivia hclose hne
            fun e hsteps he => hmore hsteps he hrest
      | false =>
          cases hgroup : groupCloser? t.kind with
          | none =>
              rw [itemsLoop_filler hskip (by omega) htrivia hkind hgroup hclose hown]
              refine .cons ?_
              rw [Place.step_filler hgroup hclose]
              exact hmore hadvance hnext hrest
          | some inner =>
              have hinner := isCloser_groupCloser? hgroup
              have hlt := hadvance.shorter
              obtain ⟨node, e, hfound, hsteps, hlands⟩ :=
                structures_lands input outer (closer :: due) hb hskip (by omega) hgroup
                  hopened' fun {f} hf hf' => by
                    have hsame : f.ahead.length = d.advance.ahead.length := by rw [hf, hnext]
                    exact ih _ (by omega) hinner hf (fun u hu => hst' u (hrest.subset hu))
                      (by omega) (by omega) hf' rfl
              rw [itemsLoop_item hskip htrivia hown hclose hfound]
              have hle := (leads_itemsLoop (moves_structures input) (some closer) turns e).length_le
              exact hlands.trans (fun st₂ hst₂ he => hmore hsteps he hst₂) hle

/-! ### Heads -/

/-- How the reading of a head ends: at the brace, at a closer before it, or behind it. -/
inductive HeadEnds (outer : List TokenKind) (b : Token) (tail st ahead : List Token) : Prop
  | brace (hahead : ahead = b :: tail) (hoff : Place.after outer (.within []) st = .within [])
  | closer {t : Token} {rest : List Token} (hahead : ahead = t :: rest)
      (hcloser : t.kind.isCloser = true) (hoff : Place.after outer (.within []) st = .stopped)
  | past (hshort : ahead.length ≤ tail.length)
      (hopen : (Place.after outer (.within []) st).inGroup = true)

theorem HeadEnds.of_after {st' : List Token}
    (hafter : Place.after outer (.within []) st' = Place.after outer (.within []) st)
    (h : HeadEnds outer b tail st' ahead) : HeadEnds outer b tail st ahead := by
  cases h with
  | brace hahead hoff => exact .brace hahead (hafter.symm.trans hoff)
  | closer hahead hcloser hoff => exact .closer hahead hcloser (hafter.symm.trans hoff)
  | past hshort hopen => exact .past hshort (hafter ▸ hopen)

variable {stop : Option Int}

theorem headLoop_skipTrivia (c : Cursor) :
    headLoop (structures input) stop (turns + 1) c.skipTrivia
      = headLoop (structures input) stop (turns + 1) c := by
  rw [headLoop, headLoop, skipTrivia_twice]

theorem headLoop_stops (hahead : c.ahead = t :: rest) (htrivia : t.kind.isTrivia = false)
    (ht : t.kind = .blockOpen ∨ t.kind.isCloser = true) :
    headLoop (structures input) stop (turns + 1) c = ⟨stop, [], c⟩ := by
  have hends : t.kind = .blockOpen ∨ endsStatement t.kind ∨ t.kind.isCloser := by
    rcases ht with ht | ht
    · exact .inl ht
    · exact .inr (.inr ht)
  rw [headLoop, skipTrivia_of_not_trivia hahead htrivia]
  simp only [peek?_of_ahead hahead, if_pos hends]

theorem goes_of_inHead (hkind : InHead t.kind) (hcloser : t.kind.isCloser = false) :
    ¬(t.kind = .blockOpen ∨ endsStatement t.kind ∨ t.kind.isCloser) := by
  obtain ⟨hdecisive, -⟩ := hkind
  revert hdecisive hcloser
  cases t.kind <;> simp [decisive?, endsStatement]

theorem headLoop_group {node : Node} {d : Cursor} (hahead : c.ahead = t :: rest)
    (htrivia : t.kind.isTrivia = false) (hkind : InHead t.kind) (hcloser : t.kind.isCloser = false)
    (hgroup : groupCloser? t.kind = some closer) (hnode : structures input c = some (node, d)) :
    let inner := headLoop (structures input) (some node.stop) turns d
    headLoop (structures input) stop (turns + 1) c
      = { inner with children := node :: inner.children } := by
  have hopens : (opensGroup t.kind || t.kind == .comment) = true := by
    revert hgroup
    cases t.kind <;> simp [groupCloser?, opensGroup]
  rw [headLoop, skipTrivia_of_not_trivia hahead htrivia]
  simp only [peek?_of_ahead hahead, if_neg (goes_of_inHead hkind hcloser), hopens, if_true, hnode]

theorem headLoop_filler (input : Input) (stop : Option Int) (turns : Nat)
    (hahead : c.ahead = t :: rest) (hbound : c.ahead.length < input.bound)
    (htrivia : t.kind.isTrivia = false) (hkind : InHead t.kind) (hcloser : t.kind.isCloser = false)
    (hgroup : groupCloser? t.kind = none) :
    ∃ stop' children, headLoop (structures input) stop (turns + 1) c
      = { headLoop (structures input) (some stop') turns c.advance with children } := by
  rw [headLoop, skipTrivia_of_not_trivia hahead htrivia]
  simp only [peek?_of_ahead hahead, if_neg (goes_of_inHead hkind hcloser)]
  rcases structures_filler hahead hbound hkind hgroup with hnone | ⟨node, hnode⟩
  · exact ⟨t.stop, _, by rw [hnone, ite_self]⟩
  · by_cases hread : (opensGroup t.kind || t.kind == .comment) = true
    · exact ⟨node.stop, _, by rw [if_pos hread, hnode]⟩
    · exact ⟨t.stop, _, by rw [if_neg hread]⟩

/-- **A head comes to the brace in the place that the tokens give.** -/
theorem headLoop_ends (input : Input) (stop : Option Int) (hb : b.kind = .blockOpen) {c : Cursor}
    (hahead : c.ahead = st ++ b :: tail) (hst : ∀ t ∈ st, InHead t.kind)
    (hbound : c.ahead.length < input.bound) (hturns : c.ahead.length < turns)
    (hopened : awaited c = outer) :
    HeadEnds outer b tail st (headLoop (structures input) stop turns c).cursor.ahead := by
  induction hn : c.ahead.length using Nat.strongRecOn generalizing c st stop turns with
  | ind n ih =>
  obtain ⟨turns, rfl⟩ : ∃ k, turns = k + 1 := ⟨turns - 1, by omega⟩
  obtain ⟨st', hskip, hsuffix, hafter⟩ := skipTrivia_lands hb hahead
  have hleads := leads_skipTrivia c
  have hshort := hleads.length_le
  rw [← headLoop_skipTrivia]
  refine .of_after (hafter outer []) ?_
  have hopened' : awaited c.skipTrivia = outer := (awaited_of_leads hleads).trans hopened
  have htoken := c.atToken_skipTrivia
  have hst' : ∀ t ∈ st', InHead t.kind := fun t ht => hst t (hsuffix.subset ht)
  generalize c.skipTrivia = d at *
  -- Wherever the head goes on, it ends as it should.
  have hmore {e : Cursor} {st₂ : List Token} {stop' : Option Int} (hsteps : d.Steps e)
      (he : e.ahead = st₂ ++ b :: tail) (hst₂ : st₂ <:+ st') :
      HeadEnds outer b tail st₂ (headLoop (structures input) stop' turns e).cursor.ahead := by
    have hlt := hsteps.shorter
    exact ih _ (by omega) stop' he (fun t ht => hst' t (hst₂.subset ht)) (by omega) (by omega)
      ((awaited_of_leads hsteps.leads).trans hopened') rfl
  cases st' with
  | nil =>
      rw [headLoop_stops hskip (by rw [hb]; rfl) (.inl hb)]
      exact .brace hskip rfl
  | cons t st' =>
      have htrivia : t.kind.isTrivia = false := htoken t _ hskip
      have hkind := hst' t List.mem_cons_self
      have hadvance := steps_advance hskip
      have hnext : d.advance.ahead = st' ++ b :: tail := ahead_advance hskip
      cases hclose : t.kind.isCloser with
      | true =>
          rw [headLoop_stops hskip htrivia (.inr hclose)]
          refine .closer hskip hclose ?_
          rw [Place.after_cons, Place.step_outermost hclose, Place.after_stopped]
      | false =>
          cases hgroup : groupCloser? t.kind with
          | none =>
              obtain ⟨stop', children, hgoes⟩ := headLoop_filler input stop turns hskip
                (by omega) htrivia hkind hclose hgroup
              rw [hgoes]
              refine .of_after ?_ (hmore hadvance hnext (List.suffix_cons t st'))
              rw [Place.after_cons, Place.step_filler hgroup hclose]
          | some inner =>
              have hinner := isCloser_groupCloser? hgroup
              have hlt := hadvance.shorter
              obtain ⟨node, e, hfound, hsteps, hlands⟩ :=
                structures_lands input outer [] hb hskip (by omega)
                  hgroup hopened' fun {f} hf hf' => by
                    have hsame : f.ahead.length = d.advance.ahead.length := by rw [hf, hnext]
                    exact itemsLoop_lands hb hinner hf
                      (fun u hu => hst' u (List.mem_cons_of_mem t hu)) (by omega) (by omega) hf'
              rw [headLoop_group hskip htrivia hkind hclose hgroup hfound]
              cases hlands with
              | before he hst₂ hafter₂ => exact .of_after hafter₂.symm (hmore hsteps he hst₂)
              | past hpast hopen =>
                  have hle := (leads_headLoop (moves_structures input) (some node.stop) turns
                    e).length_le
                  exact .past (Nat.le_trans hle hpast) hopen

theorem headLoop_stop_ne_none {n : Int} (c : Cursor) :
    (headLoop (structures input) (some n) turns c).stop ≠ none := by
  induction turns generalizing c n with
  | zero => simp [headLoop]
  | succ turns ih =>
      rw [headLoop]
      cases c.skipTrivia.peek? with
      | none => simp
      | some t =>
          simp only
          split
          · simp
          · split <;> exact ih _

/-- A head that takes a token has an end. -/
theorem headLoop_ne_none (input : Input) (turns : Nat) (hb : b.kind = .blockOpen)
    (hahead : c.ahead = st ++ b :: tail)
    (hst : ∀ t ∈ st, InHead t.kind) (hnext : c.skipTrivia.peek? = some t) (ht : t.kind ≠ .blockOpen)
    (hends : Place.after outer (.within []) st = .within []) :
    (headLoop (structures input) none (turns + 1) c).stop ≠ none := by
  obtain ⟨st', hskip, hsuffix, hafter⟩ := skipTrivia_lands hb hahead
  rw [peek?, hskip] at hnext
  cases st' with
  | nil => exact absurd (Option.some.inj hnext ▸ hb) ht
  | cons u st' =>
      obtain rfl : u = t := Option.some.inj hnext
      have hcloser : u.kind.isCloser = false := by
        refine Bool.eq_false_iff.mpr fun hcloser => ?_
        rw [← hafter, Place.after_cons, Place.step_outermost hcloser,
          Place.after_stopped] at hends
        exact absurd hends (by simp)
      have hgoes := goes_of_inHead (hst u (hsuffix.subset List.mem_cons_self)) hcloser
      rw [headLoop]
      simp only [peek?_of_ahead hskip, if_neg hgoes]
      split <;> exact headLoop_stop_ne_none _

end SourceView.Stylesheet
