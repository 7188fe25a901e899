/-
How a structural parse follows a rich one.

A structural run keeps of the tokens just those that bound something.  A rich parse reads
more into the text, but it opens and closes the same structures at those tokens: where it
reads a node, the structural parse either reads one too, or takes the structures inside of
it one after another, or stands still because no boundary was passed.

Two cursors mirror each other when they have the same boundaries ahead, the same faults
noted and the same containers open.  What is shown of a production is that from cursors that
mirror each other both parses get to cursors that do, and that the nodes they read on the
way are related.  Which relation that is differs from language to language; all that is
needed of it here is that it goes through rows of nodes.
-/
import SourceView.Proofs.Parsing.Progress

namespace SourceView

/-- The token without what a run for nesting alone may leave out. -/
def Token.bare (t : Token) : Token :=
  { t with style := "" }

namespace Token

variable {t u : Token}

theorem kind_of_bare (h : t.bare = u.bare) : t.kind = u.kind :=
  show t.bare.kind = u.bare.kind from congrArg Token.kind h

theorem value_of_bare (h : t.bare = u.bare) : t.value = u.value :=
  show t.bare.value = u.bare.value from congrArg Token.value h

theorem start_of_bare (h : t.bare = u.bare) : t.start = u.start :=
  show t.bare.start = u.bare.start from congrArg Token.start h

theorem stop_of_bare (h : t.bare = u.bare) : t.stop = u.stop :=
  show t.bare.stop = u.bare.stop from congrArg Token.stop h

theorem language_of_bare (h : t.bare = u.bare) : t.language = u.language :=
  show t.bare.language = u.bare.language from congrArg Token.language h

theorem embedded_of_bare (h : t.bare = u.bare) : t.embedded = u.embedded :=
  show t.bare.embedded = u.bare.embedded from congrArg Token.embedded h

end Token

namespace Parsing

open Cursor

/-! ### Boundaries -/

/-- The tokens among `ts` that bound something. -/
def boundaries (ts : List Token) : List Token :=
  (ts.filter (·.kind.isStructural)).map Token.bare

theorem boundaries_cons_boundary {t : Token} (ht : t.kind.isStructural = true)
    (ts : List Token) : boundaries (t :: ts) = t.bare :: boundaries ts := by
  simp [boundaries, ht]

theorem boundaries_cons_filler {t : Token} (ht : t.kind.isStructural = false)
    (ts : List Token) : boundaries (t :: ts) = boundaries ts := by
  simp [boundaries, ht]

theorem boundaries_append_filler {ts : List Token} (hts : ∀ t ∈ ts, t.kind.isStructural = false)
    (us : List Token) : boundaries (ts ++ us) = boundaries us := by
  induction ts with
  | nil => rfl
  | cons t ts ih =>
      rw [List.cons_append, boundaries_cons_filler (hts t (by simp))]
      exact ih fun u hu => hts u (by simp [hu])

/-- Filler is of no kind that bounds anything. -/
theorem ne_of_filler {kind other : TokenKind} (h : kind.isStructural = false)
    (hother : other.isStructural = true) : kind ≠ other := by
  intro hsame
  rw [hsame, hother] at h
  exact absurd h (by simp)

theorem isStructural_of_isCloser {kind : TokenKind} (h : kind.isCloser = true) :
    kind.isStructural = true := by
  cases kind <;> simp_all [TokenKind.isCloser, TokenKind.isStructural]

theorem not_isTrivia_of_isStructural {kind : TokenKind} (h : kind.isStructural = true) :
    kind.isTrivia = false := by
  cases kind <;> simp_all [TokenKind.isTrivia, TokenKind.isStructural]

/-- Between an end tag's name and its `>`, if that is the next boundary, stands only what
is passed with them. -/
def Tight (ts : List Token) : Prop :=
  ∀ u us, boundaries ts = u :: us → u.kind = .tagEnd →
    ∃ junk t rest, ts = junk ++ t :: rest ∧ (∀ j ∈ junk, isEndTagJunk j = true) ∧ t.kind = .tagEnd

/-- What is asked of the tokens behind and ahead of a rich parse: it is kept as they are
passed, and end tags are tight. -/
structure Streams (good : List Token → List Token → Prop) : Prop where
  pass : ∀ {t behind ahead}, good behind (t :: ahead) → good (t :: behind) ahead
  tight : ∀ {t behind ahead}, good behind (t :: ahead) → t.kind = .tagClose → Tight ahead

theorem Streams.passes {good : List Token → List Token → Prop} (hgood : Streams good)
    {c d : Cursor} (h : good c.behind c.ahead) (hpass : c.Passes d) : good d.behind d.ahead :=
  hpass.preserves (fun _ _ _ hbefore => hgood.pass hbefore) h

/-- What is asked of a relation between rows of nodes; it may look at the faults noted. -/
structure Relates (R : List Fault → List Node → List Node → Prop) : Prop where
  nil : ∀ f, R f [] []
  append : ∀ {f xs ys us vs}, R f xs ys → R f us vs → R f (xs ++ us) (ys ++ vs)
  mono : ∀ {f f' xs ys}, R f xs ys → f <:+ f' → R f' xs ys

/-! ### Cursors that mirror each other -/

/-- The cursor `s` of a structural parse stands where the cursor `r` of a rich one does. -/
structure Cursor.Mirrors (good : List Token → List Token → Prop) (r s : Cursor) : Prop where
  ahead : boundaries r.ahead = s.ahead.map Token.bare
  good : good r.behind r.ahead
  faults : s.faults = r.faults
  opened : s.opened = r.opened

namespace Cursor

variable {good : List Token → List Token → Prop} {r r' s : Cursor} {t : Token} {rest : List Token}

theorem ahead_advance (h : r.ahead = t :: rest) : r.advance.ahead = rest := by
  simp [advance, h]

theorem Mirrors.note (h : r.Mirrors good s) (cause : Anomaly) (start stop : Int) :
    (r.note cause start stop).Mirrors good (s.note cause start stop) :=
  ⟨h.ahead, h.good, congrArg (_ :: ·) h.faults, h.opened⟩

theorem Mirrors.push (h : r.Mirrors good s) (o : OpenContainer) :
    (r.push o).Mirrors good (s.push o) :=
  ⟨h.ahead, h.good, h.faults, congrArg (_ :: ·) h.opened⟩

theorem Mirrors.closeTo {r₀ s₀ : Cursor} (h : r.Mirrors good s) (h₀ : r₀.Mirrors good s₀) :
    (r.closeTo r₀).Mirrors good (s.closeTo s₀) :=
  ⟨h.ahead, h.good, h.faults, h₀.opened⟩

theorem Mirrors.tooDeep (h : r.Mirrors good s) : s.tooDeep = r.tooDeep := by
  rw [Cursor.tooDeep, Cursor.tooDeep, h.opened]

theorem Mirrors.boundaries_only (h : r.Mirrors good s) :
    ∀ u ∈ s.ahead, u.kind.isStructural = true := by
  intro u hu
  have hbare : u.bare ∈ boundaries r.ahead := h.ahead ▸ List.mem_map_of_mem hu
  obtain ⟨t, ht, hsame⟩ := List.mem_map.mp hbare
  exact Token.kind_of_bare hsame ▸ (List.mem_filter.mp ht).2

theorem Mirrors.boundaries_eq (h : r.Mirrors good s) :
    boundaries s.ahead = boundaries r.ahead := by
  rw [h.ahead, boundaries, List.filter_eq_self.mpr h.boundaries_only]

theorem Mirrors.skipTrivia_eq (h : r.Mirrors good s) : s.skipTrivia = s := by
  cases hahead : s.ahead with
  | nil =>
      obtain ⟨behind, ahead, faults, opened, reports⟩ := s
      subst hahead
      rfl
  | cons u us =>
      refine skipTrivia_of_not_trivia hahead (not_isTrivia_of_isStructural ?_)
      exact h.boundaries_only u (by simp [hahead])

theorem Mirrors.ahead_nil (h : r.Mirrors good s) (hahead : r.ahead = []) : s.ahead = [] := by
  have hmap := h.ahead
  rw [hahead] at hmap
  exact List.map_eq_nil_iff.mp hmap.symm

/-- What bounds nothing is passed by the rich cursor alone. -/
theorem Mirrors.skims (hgood : Streams good) (h : r.Mirrors good s) (hskims : r.Skims r') :
    r'.Mirrors good s := by
  refine ⟨?_, hgood.passes h.good hskims.passes, h.faults.trans hskims.faults.symm,
    h.opened.trans hskims.opened.symm⟩
  rw [boundaries, hskims.boundaries]
  exact h.ahead

theorem Mirrors.filler (hgood : Streams good) (h : r.Mirrors good s) (hahead : r.ahead = t :: rest)
    (ht : t.kind.isStructural = false) : r.advance.Mirrors good s :=
  h.skims hgood (skims_advance hahead ht)

theorem Mirrors.skipTrivia (hgood : Streams good) (h : r.Mirrors good s) :
    r.skipTrivia.Mirrors good s :=
  h.skims hgood (skims_skipTrivia r)

/-- A boundary is passed by both cursors. -/
theorem Mirrors.boundary (hgood : Streams good) (h : r.Mirrors good s)
    (hahead : r.ahead = t :: rest) (ht : t.kind.isStructural = true) :
    ∃ u us, s.ahead = u :: us ∧ u.bare = t.bare ∧ r.advance.Mirrors good s.advance := by
  have hmap := h.ahead
  rw [hahead, boundaries_cons_boundary ht] at hmap
  obtain ⟨u, us, hs, hbare, hrest⟩ := List.map_eq_cons_iff.mp hmap.symm
  refine ⟨u, us, hs, hbare, ?_, ?_, ?_, ?_⟩
  · rw [ahead_advance hahead, ahead_advance hs, hrest]
  · exact hgood.passes h.good (leads_advance r).passes
  · simp [advance, hahead, hs, h.faults]
  · simp [advance, hahead, hs, h.opened]

/-- No token stands between the cursor and the next boundary. -/
def AtBoundary (c : Cursor) : Prop :=
  ∀ t rest, c.ahead = t :: rest → t.kind.isStructural = true

/-- At a boundary, what is not closed ends at the same place for both. -/
theorem Mirrors.unclosedEnd (hgood : Streams good) (h : r.Mirrors good s) (hat : r.AtBoundary)
    {input outer : Input} (hstop : outer.stop = input.stop) :
    s.unclosedEnd outer = r.unclosedEnd input := by
  unfold Cursor.unclosedEnd
  cases hahead : r.ahead with
  | nil => rw [h.ahead_nil hahead]; exact hstop
  | cons t rest =>
      obtain ⟨u, us, hs, hbare, -⟩ := h.boundary hgood hahead (hat t rest hahead)
      rw [hs]
      exact Token.start_of_bare hbare

/-! ### End tags and stray closers -/

theorem passEndTag_of_tight {junk ts : List Token} (behind : List Token)
    (hjunk : ∀ j ∈ junk, isEndTagJunk j = true) (ht : t.kind = .tagEnd) :
    passEndTag behind (junk ++ t :: ts) = some (t :: junk.reverse ++ behind, ts) := by
  induction junk generalizing behind with
  | nil => simp [passEndTag, ht]
  | cons j junk ih =>
      have hj := hjunk j (by simp)
      have hend : j.kind ≠ .tagEnd := by
        intro hkind
        simp [isEndTagJunk, hkind, TokenKind.isTrivia] at hj
      rw [List.cons_append, passEndTag, if_neg hend, if_pos hj,
        ih (j :: behind) fun i hi => hjunk i (by simp [hi])]
      simp

theorem not_isStructural_of_junk (h : isEndTagJunk t = true) : t.kind.isStructural = false := by
  unfold isEndTagJunk at h
  revert h
  cases t.kind <;> decide

/-- Where the next boundary is no `>`, none is passed. -/
theorem passEndTag_eq_none {ts : List Token} (behind : List Token)
    (h : ∀ u us, boundaries ts = u :: us → u.kind ≠ .tagEnd) :
    passEndTag behind ts = none := by
  induction ts generalizing behind with
  | nil => rfl
  | cons t ts ih =>
      by_cases ht : t.kind.isStructural = true
      · have hne : t.kind ≠ .tagEnd := h t.bare _ (boundaries_cons_boundary ht ts)
        have hjunk : isEndTagJunk t = false := by
          cases hj : isEndTagJunk t with
          | false => rfl
          | true => rw [not_isStructural_of_junk hj] at ht; exact absurd ht (by simp)
        rw [passEndTag, if_neg hne, hjunk]
        rfl
      · rw [Bool.not_eq_true] at ht
        have hrest := ih (t :: behind) (by rwa [boundaries_cons_filler ht] at h)
        have hend : t.kind ≠ .tagEnd := ne_of_filler ht rfl
        rw [passEndTag, if_neg hend]
        by_cases hjunk : isEndTagJunk t = true
        · rw [if_pos hjunk, hrest]
        · rw [if_neg hjunk]

/-- Both cursors pass an end tag, and what they passed last ends at the same place. -/
theorem Mirrors.pastEndTag (hgood : Streams good) (h : r.Mirrors good s)
    (hahead : r.ahead = t :: rest) (ht : t.kind = .tagClose) :
    r.pastEndTag.Mirrors good s.pastEndTag
      ∧ ∀ input outer : Input, s.pastEndTag.previousEnd outer = r.pastEndTag.previousEnd input := by
  obtain ⟨u, us, hs, hbare, hnext⟩ := h.boundary hgood hahead (by rw [ht]; rfl)
  have hstop := Token.stop_of_bare hbare
  have htight := hgood.tight (hahead ▸ h.good) ht
  have hlater := hgood.passes h.good (steps_pastEndTag hahead).leads.passes
  have hr := ahead_advance hahead
  have hs' := ahead_advance hs
  have hmap := hnext.ahead
  rw [hr, hs'] at hmap
  by_cases hend : ∃ v vs, boundaries rest = v :: vs ∧ v.kind = .tagEnd
  · obtain ⟨v, vs, hboundary, hv⟩ := hend
    obtain ⟨junk, e, after, hrest, hjunk, he⟩ := htight v vs hboundary hv
    have hplain : ∀ j ∈ junk, j.kind.isStructural = false :=
      fun j hj => not_isStructural_of_junk (hjunk j hj)
    have hmore : boundaries rest = e.bare :: boundaries after := by
      rw [hrest, boundaries_append_filler hplain, boundaries_cons_boundary (by rw [he]; rfl)]
    obtain ⟨e', after', hus, hbare', hafter⟩ := List.map_eq_cons_iff.mp (hmap.symm.trans hmore)
    have he' : e'.kind = .tagEnd := (Token.kind_of_bare hbare').trans he
    have hpassR : r.pastEndTag
        = { r.advance with behind := e :: junk.reverse ++ r.advance.behind, ahead := after } := by
      simp only [Cursor.pastEndTag]
      rw [hr, hrest, passEndTag_of_tight r.advance.behind hjunk he]
    have hpassS : s.pastEndTag
        = { s.advance with behind := e' :: s.advance.behind, ahead := after' } := by
      simp only [Cursor.pastEndTag]
      rw [hs', hus, passEndTag, if_pos he']
    rw [hpassR] at hlater
    rw [hpassR, hpassS]
    exact ⟨⟨hafter.symm, hlater, hnext.faults, hnext.opened⟩,
      fun _ _ => Token.stop_of_bare hbare'⟩
  · have hnone : ∀ v vs, boundaries rest = v :: vs → v.kind ≠ .tagEnd :=
      fun v vs hboundary hv => hend ⟨v, vs, hboundary, hv⟩
    have hpassR : r.pastEndTag = r.advance := by
      simp only [Cursor.pastEndTag]
      rw [hr, passEndTag_eq_none _ hnone]
    have hsame := hnext.boundaries_eq
    rw [hr, hs'] at hsame
    have hnoneS : ∀ v vs, boundaries us = v :: vs → v.kind ≠ .tagEnd :=
      fun v vs hboundary => hnone v vs (hsame ▸ hboundary)
    have hpassS : s.pastEndTag = s.advance := by
      simp only [Cursor.pastEndTag]
      rw [hs', passEndTag_eq_none _ hnoneS]
    rw [hpassR, hpassS]
    refine ⟨hnext, fun _ _ => ?_⟩
    simp [previousEnd, advance, hahead, hs, hstop]

theorem Mirrors.expects (h : r.Mirrors good s) (kind : TokenKind) (name : Option String) :
    s.expects kind name = r.expects kind name := by
  rw [Cursor.expects, Cursor.expects, h.opened]

/-- A closer is recovered from in the same way. -/
theorem Mirrors.recover? (hgood : Streams good) (h : r.Mirrors good s)
    (hahead : r.ahead = t :: rest) (ht : t.kind.isCloser = true) {u : Token}
    (hbare : u.bare = t.bare) :
    (r.recover? t = none ∧ s.recover? u = none)
      ∨ ∃ r' s', r.recover? t = some r' ∧ s.recover? u = some s' ∧ r'.Mirrors good s' := by
  have hkind := Token.kind_of_bare hbare
  have hvalue := Token.value_of_bare hbare
  have hnamed : tagName u = tagName t := by rw [tagName, tagName, hkind, hvalue]
  have hfault : unexpectedCloser u = unexpectedCloser t := by
    rw [unexpectedCloser, unexpectedCloser, hkind, hvalue]
  have hnote := h.note (unexpectedCloser t) t.start t.stop
  simp only [Cursor.recover?, hkind, hnamed, hfault, Token.start_of_bare hbare,
    Token.stop_of_bare hbare, h.expects]
  by_cases hexpects : r.expects t.kind
      (if t.kind = .tagClose then some (Text.lower (tagName t)) else none) = true
  · exact Or.inl ⟨if_pos hexpects, if_pos hexpects⟩
  · refine Or.inr ⟨_, _, if_neg hexpects, if_neg hexpects, ?_⟩
    by_cases hclose : t.kind = .tagClose
    · rw [if_pos hclose, if_pos hclose]
      exact (hnote.pastEndTag hgood hahead hclose).1
    · rw [if_neg hclose, if_neg hclose]
      obtain ⟨_, _, hs', -, hnext⟩ := hnote.boundary hgood hahead (isStructural_of_isCloser ht)
      exact hnext

/-- A closer that one of them awaits is awaited by the other. -/
theorem Mirrors.recover?_none (hgood : Streams good) (h : r.Mirrors good s)
    (hahead : r.ahead = t :: rest) (ht : t.kind.isCloser = true) {u : Token}
    (hbare : u.bare = t.bare) (hrecover : r.recover? t = none) : s.recover? u = none := by
  rcases h.recover? hgood hahead ht hbare with ⟨-, hs⟩ | ⟨_, _, hr, -, -⟩
  · exact hs
  · cases hrecover.symm.trans hr

/-- A stray closer is noted and passed by both. -/
theorem Mirrors.recover?_some (hgood : Streams good) (h : r.Mirrors good s)
    (hahead : r.ahead = t :: rest) (ht : t.kind.isCloser = true) {u : Token}
    (hbare : u.bare = t.bare) {r' : Cursor} (hrecover : r.recover? t = some r') :
    ∃ s', s.recover? u = some s' ∧ r'.Mirrors good s' := by
  rcases h.recover? hgood hahead ht hbare with ⟨hr, -⟩ | ⟨_, s', hr, hs, hmirrors⟩
  · cases hrecover.symm.trans hr
  · obtain rfl := Option.some.inj (hrecover.symm.trans hr)
    exact ⟨s', hs, hmirrors⟩

end Cursor

/-! ### Taking structures one after another -/

/-- Between the cursors `s` and `s'` a loop whose children `q` reads takes `nodes`, and no
closer comes up. -/
inductive Takes (q : Production) : Cursor → List Node → Cursor → Prop
  | done (s : Cursor) : Takes q s [] s
  | read {s s₁ s' : Cursor} {t : Token} {rest : List Token} {node : Node} {nodes : List Node}
      (hahead : s.ahead = t :: rest) (ht : t.kind.isCloser = false)
      (hnode : q s = some (node, s₁)) (hmore : Takes q s₁ nodes s') :
      Takes q s (node :: nodes) s'
  | pass {s s' : Cursor} {t : Token} {rest : List Token} {nodes : List Node}
      (hahead : s.ahead = t :: rest) (ht : t.kind.isCloser = false) (hnone : q s = none)
      (hmore : Takes q s.advance nodes s') : Takes q s nodes s'

theorem Takes.trans {q : Production} {s s₁ s' : Cursor} {xs ys : List Node}
    (h : Takes q s xs s₁) (h' : Takes q s₁ ys s') : Takes q s (xs ++ ys) s' := by
  induction h with
  | done => exact h'
  | read hahead ht hnode _ ih => exact .read hahead ht hnode (ih h')
  | pass hahead ht hnone _ ih => exact .pass hahead ht hnone (ih h')

theorem Takes.single {q : Production} {s s' : Cursor} {t : Token} {rest : List Token}
    {node : Node} (hahead : s.ahead = t :: rest) (ht : t.kind.isCloser = false)
    (hnode : q s = some (node, s')) : Takes q s [node] s' :=
  .read hahead ht hnode (.done s')

theorem Takes.leads {q : Production} (hq : Moves q) {s s' : Cursor} {nodes : List Node}
    (h : Takes q s nodes s') : s.Leads s' := by
  induction h with
  | done s => exact Leads.refl s
  | read _ _ hnode _ ih => exact (hq.steps hnode).leads.trans ih
  | pass hahead _ _ _ ih => exact (leads_advance _).trans ih

/-- A loop goes over what is taken and on from there. -/
theorem Takes.itemsLoop {q : Production} (hq : Moves q) {closer : Option TokenKind}
    (hcloser : ∀ kind, closer = some kind → kind.isCloser = true) {s s' : Cursor}
    {nodes : List Node} (h : Takes q s nodes s')
    (hplain : ∀ t ∈ s.ahead, t.kind.isTrivia = false) {turns : Nat}
    (hturns : s.ahead.length < turns) :
    ∃ turns', s'.ahead.length < turns' ∧
      itemsLoop q closer turns s =
        { itemsLoop q closer turns' s' with
          nodes := nodes ++ (itemsLoop q closer turns' s').nodes } := by
  have hother {t : Token} (ht : t.kind.isCloser = false) : some t.kind ≠ closer := by
    intro hsame
    have := hcloser t.kind hsame.symm
    rw [ht] at this
    exact absurd this (by simp)
  have hskip {s : Cursor} {t : Token} {rest : List Token} (hahead : s.ahead = t :: rest)
      (hplain : ∀ t ∈ s.ahead, t.kind.isTrivia = false) : s.skipTrivia = s :=
    skipTrivia_of_not_trivia hahead (hplain t (by simp [hahead]))
  have hlater {s s₁ : Cursor} (hstep : s.Steps s₁)
      (hplain : ∀ t ∈ s.ahead, t.kind.isTrivia = false) :
      ∀ t ∈ s₁.ahead, t.kind.isTrivia = false := by
    obtain ⟨ts, hahead, -⟩ := hstep.leads.passes
    exact fun t ht => hplain t (hahead ▸ List.mem_append_right ts ht)
  induction h generalizing turns with
  | done s => exact ⟨turns, hturns, rfl⟩
  | @read s s₁ s' t rest node nodes hahead ht hnode _ ih =>
      obtain ⟨turns, rfl⟩ : ∃ k, turns = k + 1 := ⟨turns - 1, by omega⟩
      have hstep := hq.steps hnode
      have hshort := hstep.shorter
      obtain ⟨turns', hturns', heq⟩ := ih (hlater hstep hplain)
        (show s₁.ahead.length < turns by omega)
      refine ⟨turns', hturns', ?_⟩
      have hhere := hskip hahead hplain
      rw [(ItemsRun.node (hhere.symm ▸ hahead) (hother ht) (Bool.not_eq_true _ ▸ ht)
        (hhere.symm ▸ hnode) (itemsRun q closer turns s₁)).eq, heq]
      rfl
  | @pass s s' t rest nodes hahead ht hnone _ ih =>
      obtain ⟨turns, rfl⟩ : ∃ k, turns = k + 1 := ⟨turns - 1, by omega⟩
      have hstep := steps_advance hahead
      have hshort := hstep.shorter
      obtain ⟨turns', hturns', heq⟩ := ih (hlater hstep hplain)
        (show s.advance.ahead.length < turns by omega)
      refine ⟨turns', hturns', ?_⟩
      have hhere := hskip hahead hplain
      rw [(ItemsRun.filler (hhere.symm ▸ hahead) (hother ht) (Bool.not_eq_true _ ▸ ht)
        (hhere.symm ▸ hnone) (itemsRun q closer turns s.skipTrivia.advance)).eq, hhere, heq]

/-! ### Productions that follow each other -/

variable {good : List Token → List Token → Prop} {R : List Fault → List Node → List Node → Prop}

/-- Both outcomes are failures, or both are nodes and the cursors after them mirror each
other. -/
inductive Matched (good : List Token → List Token → Prop)
    (R : List Fault → List Node → List Node → Prop) :
    Option (Node × Cursor) → Option (Node × Cursor) → Prop
  | none : Matched good R none none
  | some {node other : Node} {r s : Cursor} (hcursor : r.Mirrors good s)
      (hnode : R s.faults [node] [other]) : Matched good R (some (node, r)) (some (other, s))

theorem Matched.eq_none {found : Option (Node × Cursor)} (h : Matched good R .none found) :
    found = .none := by
  cases h
  rfl

theorem Matched.eq_some {node : Node} {r : Cursor} {found : Option (Node × Cursor)}
    (h : Matched good R (.some (node, r)) found) :
    ∃ other s, found = .some (other, s) ∧ r.Mirrors good s ∧ R s.faults [node] [other] := by
  cases h with
  | some hcursor hnode => exact ⟨_, _, rfl, hcursor, hnode⟩

/-- From cursors that mirror each other, with fewer than `n` and `m` tokens ahead, `p` and `q`
do the same at a boundary; elsewhere `p` may read what `q` does not see. -/
structure Pairs (good : List Token → List Token → Prop)
    (R : List Fault → List Node → List Node → Prop) (n m : Nat) (p q : Production) : Prop where
  boundary : ∀ {r s : Cursor} {t : Token} {rest : List Token}, r.Mirrors good s →
    r.ahead.length < n → s.ahead.length < m → r.ahead = t :: rest →
    t.kind.isStructural = true → Matched good R (p r) (q s)
  filler : ∀ {r s r' : Cursor} {t : Token} {rest : List Token} {node : Node}, r.Mirrors good s →
    r.ahead.length < n → s.ahead.length < m → r.ahead = t :: rest →
    t.kind.isStructural = false → p r = some (node, r') →
    r'.Mirrors good s ∧ R s.faults [node] []

/-- A rich parse that got to `r` with the nodes `xs` is outlined from `s` on: a loop over `q`
takes related nodes and gets to where the rich parse is. -/
def Outlined (good : List Token → List Token → Prop) (R : List Fault → List Node → List Node → Prop)
    (q : Production) (s r : Cursor) (xs : List Node) : Prop :=
  ∃ ys s', Takes q s ys s' ∧ r.Mirrors good s' ∧ R s'.faults xs ys

/-- From cursors that mirror each other, with fewer than `n` and `m` tokens ahead, what `p`
reads is outlined; where `p` fails at a boundary, so does `q`. -/
structure Follows (good : List Token → List Token → Prop)
    (R : List Fault → List Node → List Node → Prop) (n m : Nat) (p q : Production) : Prop where
  reads : ∀ {r s r' : Cursor} {t : Token} {rest : List Token} {node : Node}, r.Mirrors good s →
    r.ahead.length < n → s.ahead.length < m → r.ahead = t :: rest → t.kind.isCloser = false →
    p r = some (node, r') → Outlined good R q s r' [node]
  fails : ∀ {r s : Cursor} {t : Token} {rest : List Token}, r.Mirrors good s →
    r.ahead.length < n → s.ahead.length < m → r.ahead = t :: rest → t.kind.isCloser = false →
    t.kind.isStructural = true → p r = none → q s = none

variable {n m : Nat} {p q : Production} {r r' s : Cursor} {xs us : List Node}

theorem Outlined.here (hR : Relates R) (h : r.Mirrors good s) : Outlined good R q s r [] :=
  ⟨[], s, .done s, h, hR.nil _⟩

/-- What is outlined in two parts is outlined as a whole. -/
theorem Outlined.append (hR : Relates R) (hq : Moves q) (h : Outlined good R q s r xs)
    (hmore : ∀ s', r.Mirrors good s' → s'.ahead.length ≤ s.ahead.length →
      Outlined good R q s' r' us) :
    Outlined good R q s r' (xs ++ us) := by
  obtain ⟨ys, s₁, htakes, hmirrors, hrelated⟩ := h
  obtain ⟨vs, s₂, htakes', hmirrors', hrelated'⟩ :=
    hmore s₁ hmirrors (htakes.leads hq).length_le
  exact ⟨ys ++ vs, s₂, htakes.trans htakes', hmirrors',
    hR.append (hR.mono hrelated (htakes'.leads hq).faults) hrelated'⟩

/-- A token that is read by neither is passed by both, or by the rich parse alone. -/
theorem Cursor.Mirrors.pass (hgood : Streams good) (h : r.Mirrors good s) {t : Token}
    {rest : List Token} (hahead : r.ahead = t :: rest) (ht : t.kind.isCloser = false)
    (hnone : t.kind.isStructural = true → q s = none) :
    ∃ s', r.advance.Mirrors good s' ∧ s'.ahead.length ≤ s.ahead.length
      ∧ ∀ {r' xs}, Outlined good R q s' r' xs → Outlined good R q s r' xs := by
  by_cases hboundary : t.kind.isStructural = true
  · obtain ⟨u, rest', hs, hbare, hnext⟩ := h.boundary hgood hahead hboundary
    refine ⟨s.advance, hnext, (leads_advance s).length_le, ?_⟩
    rintro r' xs ⟨ys, s', htakes, hmirrors, hrelated⟩
    exact ⟨ys, s', .pass hs (Token.kind_of_bare hbare ▸ ht) (hnone hboundary) htakes, hmirrors,
      hrelated⟩
  · rw [Bool.not_eq_true] at hboundary
    exact ⟨s, h.filler hgood hahead hboundary, Nat.le_refl _, fun h => h⟩

/-- What stands in the place of the nodes read may be said of others too. -/
theorem Outlined.imp {R' : List Fault → List Node → List Node → Prop}
    (h : Outlined good R q s r xs) (himp : ∀ {f ys}, R f xs ys → R' f us ys) :
    Outlined good R' q s r us := by
  obtain ⟨ys, s', htakes, hmirrors, hrelated⟩ := h
  exact ⟨ys, s', htakes, hmirrors, himp hrelated⟩

/-- At a boundary both fail. -/
theorem Pairs.fails (h : Pairs good R n m p q) (hmirrors : r.Mirrors good s)
    (hn : r.ahead.length < n) (hm : s.ahead.length < m) {t : Token} {rest : List Token}
    (hahead : r.ahead = t :: rest) (ht : t.kind.isStructural = true) (hnone : p r = none) :
    q s = none := by
  have hmatched := h.boundary hmirrors hn hm hahead ht
  rw [hnone] at hmatched
  exact hmatched.eq_none

/-- At a boundary both read a node. -/
theorem Pairs.reads (h : Pairs good R n m p q) (hmirrors : r.Mirrors good s)
    (hn : r.ahead.length < n) (hm : s.ahead.length < m) {t : Token} {rest : List Token}
    (hahead : r.ahead = t :: rest) (ht : t.kind.isStructural = true) {node : Node}
    (hnode : p r = some (node, r')) :
    ∃ other s', q s = some (other, s') ∧ r'.Mirrors good s' ∧ R s'.faults [node] [other] := by
  have hmatched := h.boundary hmirrors hn hm hahead ht
  rw [hnode] at hmatched
  exact hmatched.eq_some

theorem Pairs.follows (hgood : Streams good) (h : Pairs good R n m p q) :
    Follows good R n m p q := by
  refine ⟨?_, ?_⟩
  · intro r s r' t rest node hmirrors hn hm hahead ht hnode
    by_cases hboundary : t.kind.isStructural = true
    · obtain ⟨u, us, hs, hbare, -⟩ := hmirrors.boundary hgood hahead hboundary
      obtain ⟨other, s', hother, hcursor, hrelated⟩ :=
        h.reads hmirrors hn hm hahead hboundary hnode
      exact ⟨_, _, .single hs (Token.kind_of_bare hbare ▸ ht) hother, hcursor, hrelated⟩
    · rw [Bool.not_eq_true] at hboundary
      obtain ⟨hcursor, hrelated⟩ := h.filler hmirrors hn hm hahead hboundary hnode
      exact ⟨[], s, .done s, hcursor, hrelated⟩
  · intro r s t rest hmirrors hn hm hahead _ hboundary hnone
    exact h.fails hmirrors hn hm hahead hboundary hnone

/-- Where there is nothing to choose from, both fail. -/
theorem Pairs.nothing : Pairs good R n m (choice []) (choice []) := by
  refine ⟨fun _ _ _ _ _ => .none, fun _ _ _ _ _ hnode => ?_⟩
  exact absurd hnode (by simp [Parsing.choice])

/-- Productions are paired one by one by what they stand for. -/
theorem Pairs.choice {α : Type} {f g : α → Production} {as : List α}
    (h : ∀ a ∈ as, Pairs good R n m (f a) (g a)) :
    Pairs good R n m (choice (as.map f)) (choice (as.map g)) := by
  induction as with
  | nil => exact .nothing
  | cons a as ih =>
      have hfirst := h a (by simp)
      have hmore := ih fun b hb => h b (by simp [hb])
      refine ⟨?_, ?_⟩
      · intro r s t rest hmirrors hn hm hahead ht
        simp only [List.map_cons, Parsing.choice]
        cases hp : f a r with
        | none =>
            rw [hfirst.fails hmirrors hn hm hahead ht hp]
            exact hmore.boundary hmirrors hn hm hahead ht
        | some found =>
            obtain ⟨other, s', hq, hcursor, hrelated⟩ := hfirst.reads hmirrors hn hm hahead ht hp
            rw [hq]
            exact .some hcursor hrelated
      · intro r s r' t rest node hmirrors hn hm hahead ht hnode
        simp only [List.map_cons, Parsing.choice] at hnode
        cases hp : f a r with
        | none =>
            rw [hp] at hnode
            exact hmore.filler hmirrors hn hm hahead ht hnode
        | some found =>
            rw [hp] at hnode
            exact hfirst.filler hmirrors hn hm hahead ht (hp.trans hnode)

/-- Nothing is asked where there is no room for tokens. -/
theorem Pairs.vacuous (h : n = 0 ∨ m = 0) : Pairs good R n m p q := by
  rcases h with rfl | rfl
  · exact ⟨fun _ h => absurd h (Nat.not_lt_zero _), fun _ h => absurd h (Nat.not_lt_zero _)⟩
  · exact ⟨fun _ _ h => absurd h (Nat.not_lt_zero _), fun _ _ h => absurd h (Nat.not_lt_zero _)⟩

/-! ### Loops -/

/-- What two loops found is alike: the closer, what the cursors have ahead, and the nodes as
far as the relation looks at them. -/
structure Items.Matched (good : List Token → List Token → Prop)
    (R : List Fault → List Node → List Node → Prop) (a b : Items) : Prop where
  closer : b.closer.map Token.bare = a.closer.map Token.bare
  cursor : a.cursor.Mirrors good b.cursor
  nodes : R b.cursor.faults a.nodes b.nodes
  stop : a.closer = none → a.cursor.AtBoundary

theorem Items.Matched.prepend (hR : Relates R) {a b : Items} (h : a.Matched good R b)
    {f : List Fault} {node : Node} {nodes : List Node} (hnode : R f [node] nodes)
    (hf : f <:+ b.cursor.faults) :
    Items.Matched good R { a with nodes := node :: a.nodes }
      { b with nodes := nodes ++ b.nodes } :=
  ⟨h.closer, h.cursor, hR.append (hR.mono hnode hf) h.nodes, h.stop⟩

/-- The loops over children follow each other when the productions of their children do. -/
theorem Follows.itemsLoop (hgood : Streams good) (hR : Relates R) (hp : Moves p) (hq : Moves q)
    (h : Follows good R n m p q) (closer : Option TokenKind)
    (hcloser : ∀ kind, closer = some kind → kind.isCloser = true) {turns turns' : Nat}
    {r s : Cursor} (hmirrors : r.Mirrors good s) (hturns : r.ahead.length < turns)
    (hturns' : s.ahead.length < turns') (hn : r.ahead.length < n) (hm : s.ahead.length < m) :
    (itemsLoop p closer turns r).Matched good R (itemsLoop q closer turns' s) := by
  have hrun := itemsRun p closer turns r
  generalize Parsing.itemsLoop p closer turns r = found at hrun
  -- A turn of the other loop starts where its cursor is: no trivia is ahead of it.
  have hhere {r s : Cursor} (hmirrors : r.Mirrors good s) {us : List Token} (hs : s.ahead = us) :
      s.skipTrivia.ahead = us := hmirrors.skipTrivia_eq.symm ▸ hs
  induction hrun generalizing s turns' with
  | spent => exact absurd hturns (Nat.not_lt_zero _)
  | @ended turns r hahead =>
      obtain ⟨turns', rfl⟩ : ∃ k, turns' = k + 1 := ⟨turns' - 1, by omega⟩
      have hskip := hmirrors.skipTrivia hgood
      rw [(ItemsRun.ended (hhere hmirrors (hskip.ahead_nil hahead))).eq, hmirrors.skipTrivia_eq]
      refine ⟨rfl, hskip, hR.nil _, fun _ t rest hahead' => ?_⟩
      rw [hahead] at hahead'
      cases hahead'
  | @closed turns r t rest hahead ht =>
      obtain ⟨turns', rfl⟩ : ∃ k, turns' = k + 1 := ⟨turns' - 1, by omega⟩
      have hskip := hmirrors.skipTrivia hgood
      obtain ⟨u, us, hs, hbare, hnext⟩ := hskip.boundary hgood hahead
        (isStructural_of_isCloser (hcloser _ ht.symm))
      rw [(ItemsRun.closed (hhere hmirrors hs) (Token.kind_of_bare hbare ▸ ht)).eq,
        hmirrors.skipTrivia_eq]
      exact ⟨congrArg some hbare, hnext, hR.nil _, fun habsurd => absurd habsurd (by simp)⟩
  | @awaited turns r t rest hahead hother ht hrecover =>
      obtain ⟨turns', rfl⟩ : ∃ k, turns' = k + 1 := ⟨turns' - 1, by omega⟩
      have hskip := hmirrors.skipTrivia hgood
      have hboundary := isStructural_of_isCloser ht
      obtain ⟨u, us, hs, hbare, -⟩ := hskip.boundary hgood hahead hboundary
      have hkind := Token.kind_of_bare hbare
      have hs' := hskip.recover?_none hgood hahead ht hbare hrecover
      rw [(ItemsRun.awaited (hhere hmirrors hs) (hkind ▸ hother) (hkind ▸ ht)
        (hmirrors.skipTrivia_eq.symm ▸ hs')).eq, hmirrors.skipTrivia_eq]
      refine ⟨rfl, hskip, hR.nil _, fun _ t' rest' hahead' => ?_⟩
      obtain ⟨rfl, -⟩ := List.cons.inj (hahead.symm.trans hahead')
      exact hboundary
  | @stray turns r r' t rest found hahead hother ht hrecover _ ih =>
      obtain ⟨turns', rfl⟩ : ∃ k, turns' = k + 1 := ⟨turns' - 1, by omega⟩
      have hskip := hmirrors.skipTrivia hgood
      have hskipped := (leads_skipTrivia r).length_le
      obtain ⟨u, us, hs, hbare, -⟩ := hskip.boundary hgood hahead (isStructural_of_isCloser ht)
      have hkind := Token.kind_of_bare hbare
      obtain ⟨s', hs', hmirrors'⟩ := hskip.recover?_some hgood hahead ht hbare hrecover
      have hr' := (steps_of_recover? hahead hrecover).shorter
      have hs'' := (steps_of_recover? hs hs').shorter
      rw [(ItemsRun.stray (hhere hmirrors hs) (hkind ▸ hother) (hkind ▸ ht)
        (hmirrors.skipTrivia_eq.symm ▸ hs') (itemsRun q closer turns' s')).eq]
      exact ih hmirrors' (by omega) (by omega) (by omega) (by omega)
  | @node turns r r' t rest node found hahead _ ht hnode _ ih =>
      have hskipped := (leads_skipTrivia r).length_le
      have hplain : ∀ u ∈ s.ahead, u.kind.isTrivia = false :=
        fun u hu => not_isTrivia_of_isStructural (hmirrors.boundaries_only u hu)
      obtain ⟨nodes, s', htakes, hmirrors', hrelated⟩ := h.reads (hmirrors.skipTrivia hgood)
        (by omega) hm hahead (Bool.not_eq_true _ ▸ ht) hnode
      have hstep := (hp.steps hnode).shorter
      have hlen := (htakes.leads hq).length_le
      obtain ⟨turns'', hturns'', heq⟩ := htakes.itemsLoop hq hcloser hplain hturns'
      rw [heq]
      exact (ih hmirrors' (by omega) hturns'' (by omega) (by omega)).prepend hR hrelated
        (leads_itemsLoop hq closer turns'' s').faults
  | @filler turns r t rest found hahead hother ht hnode _ ih =>
      have hskip := hmirrors.skipTrivia hgood
      have hskipped := (leads_skipTrivia r).length_le
      have hshort := (steps_advance hahead).shorter
      cases hboundary : t.kind.isStructural with
      | false => exact ih (hskip.filler hgood hahead hboundary) (by omega) hturns' (by omega) hm
      | true =>
          obtain ⟨turns', rfl⟩ : ∃ k, turns' = k + 1 := ⟨turns' - 1, by omega⟩
          obtain ⟨u, us, hs, hbare, hnext⟩ := hskip.boundary hgood hahead hboundary
          have hkind := Token.kind_of_bare hbare
          have hnone := h.fails hskip (by omega) hm hahead (Bool.not_eq_true _ ▸ ht) hboundary hnode
          have hshort' := (steps_advance hs).shorter
          rw [(ItemsRun.filler (hhere hmirrors hs) (hkind ▸ hother) (hkind ▸ ht)
            (hmirrors.skipTrivia_eq.symm ▸ hnone)
            (itemsRun q closer turns' s.skipTrivia.advance)).eq, hmirrors.skipTrivia_eq]
          exact ih hnext (by omega) (by omega) (by omega) (by omega)

/-- When the items of two documents follow each other, then the parses have related nodes and
the same faults. -/
theorem Follows.parse (hgood : Streams good) (hR : Relates R) (hp : Moves p) (hq : Moves q)
    {input outline : Input} {g : Grammar Rule} (h : Follows good R input.bound outline.bound p q)
    (hparse : g.parse input = .ofItems g input (items input p none input.cursor))
    (hparse' : g.parse outline = .ofItems g outline (items outline q none outline.cursor))
    (hstart : outline.start = input.start) (hstop : outline.stop = input.stop)
    (hmirrors : input.cursor.Mirrors good outline.cursor) :
    ∃ xs ys, (g.parse input).tree = .container input.start input.stop .document xs
      ∧ (g.parse outline).tree = .container input.start input.stop .document ys
      ∧ R (g.parse outline).faults.reverse xs ys
      ∧ (g.parse outline).faults = (g.parse input).faults := by
  have hitems := h.itemsLoop hgood hR hp hq none (by simp) hmirrors (Nat.lt_succ_self _)
    (Nat.lt_succ_self _) (Nat.lt_succ_self _) (Nat.lt_succ_self _)
  rw [hparse, hparse', Parse.ofItems, Parse.ofItems, hstart, hstop]
  refine ⟨_, _, rfl, rfl, ?_, congrArg List.reverse hitems.cursor.faults⟩
  rw [List.reverse_reverse]
  exact hitems.nodes

/-! ### Containers -/

theorem acceptKind?_of_eq {c : Cursor} {t : Token} {rest : List Token}
    (hahead : c.ahead = t :: rest) {kind : TokenKind} (ht : t.kind = kind) :
    c.acceptKind? kind = some (t, c.advance) := by
  simp [acceptKind?, accept?, hahead, ht]

theorem acceptKind?_of_ne {c : Cursor} {t : Token} {rest : List Token}
    (hahead : c.ahead = t :: rest) {kind : TokenKind} (ht : t.kind ≠ kind) :
    c.acceptKind? kind = none := by
  simp [acceptKind?, accept?, hahead, ht]

theorem passBalanced_mirrors {opener closer : TokenKind}
    (hopener : opener.isStructural = true) (hcloser : closer.isStructural = true) (depth : Nat)
    (behind behind' : List Token) {ahead ahead' : List Token}
    (hahead : boundaries ahead = ahead'.map Token.bare) :
    let full := passBalanced opener closer depth behind ahead
    let outline := passBalanced opener closer depth behind' ahead'
    outline.1 = full.1 ∧ boundaries full.2.2 = outline.2.2.map Token.bare := by
  induction ahead generalizing depth behind behind' ahead' with
  | nil =>
      have hnil : ahead' = [] := List.map_eq_nil_iff.mp hahead.symm
      subst hnil
      exact ⟨rfl, rfl⟩
  | cons t rest ih =>
      by_cases ht : t.kind.isStructural = true
      · rw [boundaries_cons_boundary ht] at hahead
        obtain ⟨u, us, rfl, hbare, hus⟩ := List.map_eq_cons_iff.mp hahead.symm
        have hkind := Token.kind_of_bare hbare
        simp only [passBalanced, hkind]
        split
        · exact ih _ _ _ hus.symm
        split
        · split
          · exact ⟨congrArg some (Token.stop_of_bare hbare), hus.symm⟩
          · exact ih _ _ _ hus.symm
        · exact ih _ _ _ hus.symm
      · rw [Bool.not_eq_true] at ht
        rw [boundaries_cons_filler ht] at hahead
        rw [passBalanced, if_neg (ne_of_filler ht hopener), if_neg (ne_of_filler ht hcloser)]
        exact ih _ _ _ hahead

theorem skipBalanced_mirrors (hgood : Streams good) {input outline : Input}
    (hstop : outline.stop = input.stop) {r s : Cursor} (hmirrors : r.Mirrors good s) {t u : Token}
    (hbare : u.bare = t.bare) (ht : t.kind.isStructural = true) {closer : TokenKind}
    (hcloser : closer.isStructural = true) :
    (skipBalanced outline u closer s).1 = (skipBalanced input t closer r).1
      ∧ (skipBalanced input t closer r).2.Mirrors good (skipBalanced outline u closer s).2 := by
  have hkind := Token.kind_of_bare hbare
  obtain ⟨hend, hahead⟩ := passBalanced_mirrors ht hcloser 1 r.behind s.behind hmirrors.ahead
  have hall := hgood.passes hmirrors.good (leads_skipBalanced input t closer r).passes
  have hnote := hmirrors.note .tooDeep t.start t.stop
  simp only [skipBalanced, note, hkind, Token.start_of_bare hbare, Token.stop_of_bare hbare, hend,
    hstop]
  exact ⟨trivial, ⟨hahead, hall, hnote.faults, hmirrors.opened⟩⟩

/-- Containers are read alike when loops over what they hold go alike. -/
theorem Group.pairs (hgood : Streams good) {Q : List Fault → List Node → List Node → Prop}
    (hQ : Relates Q) (hp : Moves p) (hq : Moves q) (h : Follows good Q n m p q) {g : Group}
    (hopener : g.opener.isStructural = true) (hcloser : g.closer.isCloser = true)
    (hnode : ∀ {f start stop closed xs ys}, Q f xs ys →
      R f [.container start stop (g.node closed) xs] [.container start stop (g.node closed) ys])
    {input outline : Input} (hstop : outline.stop = input.stop) (hn : n ≤ input.bound)
    (hm : m ≤ outline.bound) :
    Pairs good R (n + 1) (m + 1) (g.read input p) (g.read outline q) := by
  refine ⟨?_, ?_⟩
  · intro r s t rest hmirrors hn' hm' hahead ht
    obtain ⟨u, us, hs, hbare, hnext⟩ := hmirrors.boundary hgood hahead ht
    have hkind := Token.kind_of_bare hbare
    have hstart := Token.start_of_bare hbare
    by_cases hopen : t.kind = g.opener
    · have hr' := (steps_advance hahead).shorter
      have hs' := (steps_advance hs).shorter
      simp only [read, acceptKind?_of_eq hahead hopen, acceptKind?_of_eq hs (hkind.trans hopen)]
      by_cases hdeep : r.advance.tooDeep = true
      · obtain ⟨hend, hskip⟩ := skipBalanced_mirrors hgood hstop hnext hbare
          (hopen ▸ hopener) (isStructural_of_isCloser hcloser)
        simp only [hnext.tooDeep, hdeep, if_true, hstart, hend]
        exact .some hskip (hnode (hQ.nil _))
      · simp only [hnext.tooDeep, hdeep, if_false, Bool.false_eq_true]
        have hpushed := hnext.push { closer := g.closer, start := t.start }
        have hitems := h.itemsLoop hgood hQ hp hq (some g.closer)
          (fun kind hkind => Option.some.inj hkind ▸ hcloser) hpushed
          (show r.advance.ahead.length < input.bound by omega)
          (show s.advance.ahead.length < outline.bound by omega)
          (show r.advance.ahead.length < n by omega) (show s.advance.ahead.length < m by omega)
        have hclosed := hitems.cursor.closeTo hnext
        have hcloser' := hitems.closer
        simp only [body, items, hstart]
        cases hfound : (Parsing.itemsLoop p (some g.closer) input.bound
            (r.advance.push { closer := g.closer, start := t.start })).closer with
        | some v =>
            rw [hfound] at hcloser'
            obtain ⟨w, hw, hsame⟩ := Option.map_eq_some_iff.mp hcloser'
            simp only [hw, Token.stop_of_bare hsame]
            exact .some hclosed (hnode hitems.nodes)
        | none =>
            rw [hfound] at hcloser'
            have hw := Option.map_eq_none_iff.mp hcloser'
            simp only [hw, Token.stop_of_bare hbare]
            have hnoted := hclosed.note (.unclosed g.what g.expected) t.start t.stop
            have hend := hnoted.unclosedEnd hgood (hitems.stop hfound) hstop
            rw [hend]
            exact .some hnoted (hnode (hQ.mono hitems.nodes (List.suffix_cons _ _)))
    · simp only [read, acceptKind?_of_ne hahead hopen, acceptKind?_of_ne hs (hkind ▸ hopen)]
      exact .none
  · intro r s r' t rest node hmirrors hn' hm' hahead ht hread
    have hopen : t.kind ≠ g.opener := ne_of_filler ht hopener
    simp [read, acceptKind?_of_ne hahead hopen] at hread

/-! ### Leaves -/

/-- Comments are read alike; a comment that bounds nothing is read by the full parse alone. -/
theorem comment_pairs (hgood : Streams good)
    (hcomment : ∀ {f start stop}, R f [.leaf start stop .comment] [.leaf start stop .comment])
    (hremark : ∀ {f t behind rest}, good behind (t :: rest) → t.kind = .lineComment →
      R f [.leaf t.start t.stop .comment] []) :
    Pairs good R n m comment comment := by
  refine ⟨?_, ?_⟩
  · intro r s t rest hmirrors _ _ hahead ht
    obtain ⟨u, us, hs, hbare, hnext⟩ := hmirrors.boundary hgood hahead ht
    simp only [comment, hahead, hs, Token.kind_of_bare hbare, Token.start_of_bare hbare,
      Token.stop_of_bare hbare]
    split
    · exact .some hnext hcomment
    · exact .none
  · intro r s r' t rest node hmirrors _ _ hahead ht hread
    simp only [comment, hahead] at hread
    split at hread
    · rename_i hkind
      simp only [Option.some.injEq, Prod.mk.injEq] at hread
      obtain ⟨rfl, rfl⟩ := hread
      have hline : t.kind = .lineComment := hkind.resolve_left (ne_of_filler ht rfl)
      exact ⟨hmirrors.filler hgood hahead ht, hremark (hahead ▸ hmirrors.good) hline⟩
    · exact absurd hread (by simp)

/-- Text is read by the full parse alone. -/
theorem text_pairs (hgood : Streams good) {input outline : Input} (houtline : outline.rich = false)
    (htext : ∀ {f start stop}, R f [.leaf start stop .text] []) :
    Pairs good R n m (text input) (text outline) := by
  have hnone (c : Cursor) : text outline c = none := by
    rw [text, houtline]
    rfl
  refine ⟨?_, ?_⟩
  · intro r s t rest _ _ _ hahead ht
    have hkind : ¬ (t.kind = .text ∨ t.kind = .entity) := by
      intro hkind
      rw [not_isStructural_of_text hkind] at ht
      exact absurd ht (by simp)
    have hread : text input r = none := by
      rw [text, hahead]
      simp only [if_neg hkind, ite_self]
    rw [hread, hnone]
    exact .none
  · intro r s r' t rest node hmirrors _ _ hahead ht hread
    rw [text, hahead] at hread
    split at hread
    · simp only at hread
      split at hread
      · simp only [Option.some.injEq, Prod.mk.injEq] at hread
        obtain ⟨rfl, rfl⟩ := hread
        exact ⟨(hmirrors.filler hgood hahead ht).skims hgood (skims_textLoop _ _ _), htext⟩
      · exact absurd hread (by simp)
    · exact absurd hread (by simp)

end Parsing

end SourceView
