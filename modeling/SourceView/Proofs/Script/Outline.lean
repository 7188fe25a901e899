/-
What the outline of a script has of its full tree.

The outline knows blocks, parentheses, brackets, templates, elements and comments.  The full
tree has them all, inside of statements and declarations, and between them what bounds
nothing: text, attributes, line comments.

A statement takes the structures in it one after another, just as the outline does without
it.  A declaration of a function is read whole or not at all; where it fails, the full parse
goes on from where it began, and since it read nothing but a structure or two, which a
statement then reads again, the outline need not know.
-/
import SourceView.Proofs.Fold.Passes
import SourceView.Proofs.Parsing.Grammars
import SourceView.Proofs.Parsing.Nesting
import SourceView.Proofs.Script.Boundaries
import SourceView.Proofs.Script.Detail

namespace SourceView.Script

open Fold Parsing Parsing.Cursor

/-! ### The tokens of a script -/

/-- What is known of the tokens ahead of the rich parse. -/
structure Sound (lines : LineIndex) (behind ahead : List Token) : Prop where
  tight : TightTags ahead
  line : ∀ t ∈ ahead, t.kind = .lineComment →
    lines.lineOf t.start = lines.lineOf (max t.start (t.stop - 1))

theorem Sound.streams (lines : LineIndex) : Streams (Sound lines) := by
  refine ⟨fun h => ⟨h.tight.tail, fun u hu => h.line u (by simp [hu])⟩, ?_⟩
  intro t behind ahead h ht
  exact h.tight.head ht

/-! ### Templates -/

variable {good : List Token → List Token → Prop} {R : List Fault → List Node → List Node → Prop}
variable {input outline : Input} {n m : Nat} {item q : Production} {r r' s : Cursor}

/-- What two templates hold is alike, and ends alike. -/
structure TemplateRead.Matched (good : List Token → List Token → Prop)
    (R : List Fault → List Node → List Node → Prop) (a b : TemplateRead) : Prop where
  stop : b.stop = a.stop
  cursor : a.cursor.Mirrors good b.cursor
  children : R b.cursor.faults a.children b.children
  boundary : a.stop = none → a.cursor.AtBoundary

/-- What stands in an interpolation is read alike from behind the tokens that open it. -/
theorem interpolation_mirrors (hgood : Streams good) (hR : Relates R) (hitem : Moves item)
    (hq : Moves q) (h : Follows good R n m item q) (hn : n ≤ input.bound) (hm : m ≤ outline.bound)
    {t u : Token} (hbare : u.bare = t.bare) (hmirrors : r.advance.Mirrors good s.advance)
    (hr : r.advance.ahead.length < n) (hs : s.advance.ahead.length < m) :
    (interpolation input item t r).Matched good R (interpolation outline q u s) := by
  rw [interpolation, interpolation, Token.start_of_bare hbare]
  exact h.itemsLoop hgood hR hitem hq (some .templateExprClose)
    (fun kind hkind => Option.some.inj hkind ▸ rfl)
    (hmirrors.push { closer := .templateExprClose, start := t.start })
    (Nat.lt_of_lt_of_le hr hn) (Nat.lt_of_lt_of_le hs hm) hr hs

theorem templateLoop_mirrors (hgood : Streams good) (hR : Relates R) (hitem : Moves item)
    (hq : Moves q) (h : Follows good R n m item q) (hn : n ≤ input.bound) (hm : m ≤ outline.bound)
    {turns turns' : Nat} (hmirrors : r.Mirrors good s) (hturns : r.ahead.length < turns)
    (hturns' : s.ahead.length < turns') (hr : r.ahead.length < n) (hs : s.ahead.length < m) :
    (templateLoop input item turns r).Matched good R (templateLoop outline q turns' s) := by
  have hrun := templateRun input item turns r
  generalize templateLoop input item turns r = read at hrun
  induction hrun generalizing s turns' with
  | spent => exact absurd hturns (Nat.not_lt_zero _)
  | exhausted hahead =>
      obtain ⟨turns', rfl⟩ : ∃ k, turns' = k + 1 := ⟨turns' - 1, by omega⟩
      rw [(TemplateRun.exhausted (hmirrors.ahead_nil hahead)).eq]
      refine ⟨rfl, hmirrors, hR.nil _, fun _ t rest hahead' => ?_⟩
      cases hahead.symm.trans hahead'
  | ended hahead ht =>
      obtain ⟨turns', rfl⟩ : ∃ k, turns' = k + 1 := ⟨turns' - 1, by omega⟩
      obtain ⟨u, us, hs', hbare, hnext⟩ := hmirrors.boundary hgood hahead (by rw [ht]; rfl)
      rw [(TemplateRun.ended hs' ((Token.kind_of_bare hbare).trans ht)).eq,
        Token.stop_of_bare hbare]
      exact ⟨rfl, hnext, hR.nil _, fun habsurd => absurd habsurd (by simp)⟩
  | stopped hahead hend ht =>
      obtain ⟨turns', rfl⟩ : ∃ k, turns' = k + 1 := ⟨turns' - 1, by omega⟩
      have hboundary := isStructural_of_isCloser ht
      obtain ⟨u, us, hs', hbare, -⟩ := hmirrors.boundary hgood hahead hboundary
      have hkind := Token.kind_of_bare hbare
      rw [(TemplateRun.stopped hs' (hkind ▸ hend) (hkind ▸ ht)).eq]
      refine ⟨rfl, hmirrors, hR.nil _, fun _ t' rest' hahead' => ?_⟩
      obtain ⟨rfl, -⟩ := List.cons.inj (hahead.symm.trans hahead')
      exact hboundary
  | @unclosed turns r t rest hahead ht hcloser =>
      obtain ⟨turns', rfl⟩ : ∃ k, turns' = k + 1 := ⟨turns' - 1, by omega⟩
      obtain ⟨u, us, hs', hbare, hnext⟩ := hmirrors.boundary hgood hahead (by rw [ht]; rfl)
      have hr' := (steps_advance hahead).shorter
      have hs'' := (steps_advance hs').shorter
      have hinner := interpolation_mirrors hgood hR hitem hq h hn hm hbare hnext (by omega)
        (by omega)
      have hsame := hinner.closer
      rw [hcloser] at hsame
      rw [(TemplateRun.unclosed hs' ((Token.kind_of_bare hbare).trans ht)
        (Option.map_eq_none_iff.mp hsame)).eq]
      exact ⟨rfl, hinner.cursor.closeTo hnext, hinner.nodes, fun _ => hinner.stop hcloser⟩
  | @closed turns r t v rest read hahead ht hcloser _ ih =>
      obtain ⟨turns', rfl⟩ : ∃ k, turns' = k + 1 := ⟨turns' - 1, by omega⟩
      obtain ⟨u, us, hs', hbare, hnext⟩ := hmirrors.boundary hgood hahead (by rw [ht]; rfl)
      have hr' := (steps_advance hahead).shorter
      have hs'' := (steps_advance hs').shorter
      have hinner := interpolation_mirrors hgood hR hitem hq h hn hm hbare hnext (by omega)
        (by omega)
      have hsame := hinner.closer
      rw [hcloser] at hsame
      obtain ⟨w, hw, -⟩ := Option.map_eq_some_iff.mp hsame
      have hlen := (leads_interpolation input hitem t r).length_le
      have hlen' := (leads_interpolation outline hq u s).length_le
      have hrun := TemplateRun.closed hs' ((Token.kind_of_bare hbare).trans ht) hw
        (templateRun outline q turns' _)
      generalize interpolation outline q u s = other at *
      have hmore : read.Matched good R
          (templateLoop outline q turns' (other.cursor.closeTo s.advance)) :=
        ih (hinner.cursor.closeTo hnext) (by omega) (by omega) (by omega) (by omega)
      have hfaults := (leads_templateLoop outline hq turns' (other.cursor.closeTo s.advance)).faults
      rw [hrun.eq]
      exact ⟨hmore.stop, hmore.cursor,
        hR.append (hR.mono hinner.nodes hfaults) hmore.children, hmore.boundary⟩
  | @filler turns r t rest read hahead hclose hopen _ ih =>
      have hshort := (steps_advance hahead).shorter
      cases hboundary : t.kind.isStructural with
      | false => exact ih (hmirrors.filler hgood hahead hboundary) (by omega) hturns' (by omega) hs
      | true =>
          obtain ⟨turns', rfl⟩ : ∃ k, turns' = k + 1 := ⟨turns' - 1, by omega⟩
          obtain ⟨u, us, hs', hbare, hnext⟩ := hmirrors.boundary hgood hahead hboundary
          have hkind := Token.kind_of_bare hbare
          have hshort' := (steps_advance hs').shorter
          rw [(TemplateRun.filler hs' (hkind ▸ hclose) (hkind ▸ hopen)
            (templateRun outline q turns' s.advance)).eq]
          exact ih hnext (by omega) (by omega) (by omega) (by omega)

/-- Templates are read alike when loops over what stands in their interpolations go alike. -/
theorem template_pairs (hgood : Streams good) (hR : Relates R) (hitem : Moves item) (hq : Moves q)
    (h : Follows good R n m item q) (hstop : outline.stop = input.stop) (hn : n ≤ input.bound)
    (hm : m ≤ outline.bound)
    (hnode : ∀ {f start stop closed xs ys}, R f xs ys →
      R f [.container start stop (.templateLiteral closed) xs]
        [.container start stop (.templateLiteral closed) ys]) :
    Pairs good R (n + 1) (m + 1) (template input item) (template outline q) := by
  refine ⟨?_, ?_⟩
  · intro r s t rest hmirrors hn' hm' hahead ht
    obtain ⟨u, us, hs, hbare, hnext⟩ := hmirrors.boundary hgood hahead ht
    have hkind := Token.kind_of_bare hbare
    have hstart := Token.start_of_bare hbare
    by_cases hopen : t.kind = .templateStart
    · have hr' := (steps_advance hahead).shorter
      have hs' := (steps_advance hs).shorter
      simp only [template, acceptKind?_of_eq hahead hopen,
        acceptKind?_of_eq hs (hkind.trans hopen), hnext.tooDeep, hstart]
      by_cases hdeep : r.advance.tooDeep = true
      · obtain ⟨hend, hskip⟩ := skipBalanced_mirrors hgood hstop hnext hbare ht
          (show TokenKind.isStructural .templateEnd = true from rfl)
        simp only [if_pos hdeep, hend]
        exact .some hskip (hnode (hR.nil _))
      · simp only [if_neg hdeep]
        have hread := templateLoop_mirrors hgood hR hitem hq h hn hm
          (hnext.push { closer := .templateEnd, start := t.start })
          (show r.advance.ahead.length < input.bound by omega)
          (show s.advance.ahead.length < outline.bound by omega)
          (show r.advance.ahead.length < n by omega) (show s.advance.ahead.length < m by omega)
        have hclosed := hread.cursor.closeTo hnext
        rw [hread.stop]
        cases hfound : (templateLoop input item input.bound
            (r.advance.push { closer := .templateEnd, start := t.start })).stop with
        | some stop => exact .some hclosed (hnode hread.children)
        | none =>
            have hend := hclosed.unclosedEnd hgood (hread.boundary hfound) hstop
            simp only [hend]
            exact .some hclosed (hnode hread.children)
    · simp only [template, acceptKind?_of_ne hahead hopen, acceptKind?_of_ne hs (hkind ▸ hopen)]
      exact .none
  · intro r s r' t rest node hmirrors hn' hm' hahead ht hread
    have hopen : t.kind ≠ .templateStart := ne_of_filler ht rfl
    simp [template, acceptKind?_of_ne hahead hopen] at hread

/-! ### Statements -/

/-- A statement takes the structures in it one after another, and so does the outline in its
place. -/
theorem statementLoop_outlined (hgood : Streams good) (hR : Relates R) (hitem : Moves item)
    (hq : Moves q) (h : Follows good R n m item q) (turns : Nat) (p : Progress)
    (hmirrors : r.Mirrors good s) (hn : r.ahead.length < n) (hm : s.ahead.length < m) :
    Outlined good R q s (statementLoop item turns p r).cursor
      (statementLoop item turns p r).children := by
  have hrun := statementRun item turns p r
  generalize statementLoop item turns p r = found at hrun
  induction hrun generalizing s with
  | spent => exact .here hR hmirrors
  | exhausted | ended => exact .here hR (hmirrors.skipTrivia hgood)
  | semicolon hahead _ hend =>
      exact .here hR ((hmirrors.skipTrivia hgood).filler hgood hahead (by rw [hend.1]; rfl))
  | @node _ _ r _ _ _ _ _ hahead hend _ hnode _ ih =>
      have hshort := (leads_skipTrivia r).length_le
      have hcloser := Bool.eq_false_iff.mpr fun h => hend (Or.inl h)
      have hstep := (hitem.steps hnode).shorter
      exact (h.reads (hmirrors.skipTrivia hgood) (by omega) hm hahead hcloser hnode).append hR hq
        fun s₁ hnext hlen₁ => ih hnext (by omega) (by omega)
  | @piece _ _ r _ _ _ hahead hend _ hnode _ ih =>
      have hskip := hmirrors.skipTrivia hgood
      have hshort := (leads_skipTrivia r).length_le
      have hcloser := Bool.eq_false_iff.mpr fun h => hend (Or.inl h)
      have hadvance := (steps_advance hahead).shorter
      obtain ⟨s₁, hnext, hlen₁, hback⟩ := hskip.pass hgood hahead hcloser fun hboundary =>
        h.fails hskip (by omega) hm hahead hcloser hboundary hnode
      exact hback (ih hnext (by omega) (by omega))

/-- Parts that are read one after another are outlined one after another. -/
theorem sequence?_outlined (hgood : Streams good) (hR : Relates R) (hq : Moves q)
    {ps : List Production} {parts : List Node}
    (hps : ∀ p ∈ ps, Moves p ∧ ∀ {r s r' : Cursor} {node : Node}, r.Mirrors good s →
      r.ahead.length < n → s.ahead.length < m → p r = some (node, r') →
      Outlined good R q s r' [node])
    (hread : sequence? ps r = some (parts, r')) (hmirrors : r.Mirrors good s)
    (hn : r.ahead.length < n) (hm : s.ahead.length < m) : Outlined good R q s r' parts := by
  induction ps generalizing r s parts with
  | nil =>
      simp only [sequence?, Option.some.injEq, Prod.mk.injEq] at hread
      obtain ⟨rfl, rfl⟩ := hread
      exact .here hR hmirrors
  | cons p ps ih =>
      have hskip := hmirrors.skipTrivia hgood
      have hshort := (leads_skipTrivia r).length_le
      unfold sequence? at hread
      cases hnode : p r.skipTrivia with
      | none => simp [hnode] at hread
      | some found =>
          obtain ⟨node, r₁⟩ := found
          simp only [hnode] at hread
          obtain ⟨⟨nodes, d⟩, hmore, hsame⟩ := Option.map_eq_some_iff.mp hread
          simp only [Prod.mk.injEq] at hsame
          obtain ⟨rfl, rfl⟩ := hsame
          obtain ⟨hmoves, houtlined⟩ := hps p (by simp)
          have hstep := (hmoves.steps hnode).shorter
          exact (houtlined hskip (by omega) hm hnode).append hR hq fun s₁ hnext hlen₁ =>
            ih (fun p' hp' => hps p' (by simp [hp'])) hmore hnext (by omega) (by omega)

variable {lines : LineIndex} {config : Config} {node : Node}

theorem functionDeclaration_outlined {parentheses block : Production} (hq : Moves q)
    (hparts : ∀ p ∈ [parentheses, block], Moves p ∧ ∀ {r s r' : Cursor} {node : Node},
      r.Mirrors (Sound lines) s → r.ahead.length < n → s.ahead.length < m →
      p r = some (node, r') → Outlined (Sound lines) (FoldsAlike lines config) q s r' [node])
    (hread : functionDeclaration input parentheses block r = some (node, r'))
    (hmirrors : r.Mirrors (Sound lines) s) (hn : r.ahead.length < n) (hm : s.ahead.length < m) :
    Outlined (Sound lines) (FoldsAlike lines config) q s r' [node] := by
  have hgood := Sound.streams lines
  obtain ⟨hhead, hsequence⟩ := functionRead hread
  obtain ⟨-, hsteps, hskims⟩ := functionHead_eq_ok hhead
  have hshort := hsteps.shorter
  have houtlined := sequence?_outlined hgood (FoldsAlike.relates lines config) hq hparts hsequence
    (hmirrors.skims hgood hskims) (by omega) hm
  exact houtlined.imp fun hrelated hf => .within rfl (hrelated hf)

theorem variableDeclaration_outlined (hitem : Moves item) (hq : Moves q)
    (h : Follows (Sound lines) (FoldsAlike lines config) n m item q)
    (hread : variableDeclaration input item r = some (node, r'))
    (hmirrors : r.Mirrors (Sound lines) s) (hn : r.ahead.length < n) (hm : s.ahead.length < m) :
    Outlined (Sound lines) (FoldsAlike lines config) q s r' [node] := by
  obtain ⟨hhead⟩ := variableRead hread
  obtain ⟨-, keyword, c, hkeyword, rfl⟩ := variableHead?_eq_some.mp hhead
  have hskims := ((skims_of_accept? hkeyword rfl).trans (skims_skipTrivia c)).trans
    (skims_skip _ .identifier (fun _ => true) rfl)
  have hshort := hskims.leads.length_le
  refine Outlined.imp (statementLoop_outlined (Sound.streams lines)
    (FoldsAlike.relates lines config) hitem hq h input.bound _
    (hmirrors.skims (Sound.streams lines) hskims) (Nat.lt_of_le_of_lt hshort hn) hm) ?_
  exact fun hrelated hf => .within rfl (hrelated hf)

theorem statement_outlined (hitem : Moves item) (hq : Moves q)
    (h : Follows (Sound lines) (FoldsAlike lines config) n m item q)
    (hread : statement input item r = some (node, r'))
    (hmirrors : r.Mirrors (Sound lines) s) (hn : r.ahead.length < n) (hm : s.ahead.length < m) :
    Outlined (Sound lines) (FoldsAlike lines config) q s r' [node] := by
  obtain ⟨-⟩ := statementRead hread
  refine Outlined.imp (statementLoop_outlined (Sound.streams lines)
    (FoldsAlike.relates lines config) hitem hq h input.bound _ hmirrors hn hm) ?_
  exact fun hrelated hf => .within rfl (hrelated hf)

/-! ### Symbols of any height -/

variable {height height' : Nat}

/-- The structure that a token begins. -/
def structure? : TokenKind → Option Symbol
  | .comment | .lineComment => some .comment
  | .blockOpen => some .block
  | .parenOpen => some .parentheses
  | .bracketOpen => some .brackets
  | .templateStart => some .template
  | .tagOpen => some .element
  | _ => none

theorem not_isCloser_of_structure? {kind : TokenKind} {symbol : Symbol}
    (h : structure? kind = some symbol) : kind.isCloser = false := by
  revert h
  cases kind <;> simp [structure?, TokenKind.isCloser]

theorem begins_structures (input : Input) (height : Nat) :
    Begins structure? (readWithin input height) Symbol.structures := by
  intro symbol hsymbol c found h
  cases height with
  | zero => exact absurd h (by simp [readWithin])
  | succ height =>
      simp only [Symbol.structures, List.mem_cons, List.not_mem_nil, or_false] at hsymbol
      rcases hsymbol with rfl | rfl | rfl | rfl | rfl | rfl
      case inl =>
        obtain ⟨t, rest, hahead, hkind⟩ := ahead_of_comment h
        refine ⟨t, rest, hahead, ?_⟩
        rcases hkind with hkind | hkind <;> rw [hkind] <;> rfl
      case inr.inr.inr.inr.inl =>
        have hread :
            template input (derive.structures (readWithin input height)) c = some found := h
        obtain ⟨t, rest, hahead, hkind, -⟩ := literalRead hread
        exact ⟨t, rest, hahead, by rw [hkind]; rfl⟩
      case inr.inr.inr.inr.inr =>
        have hread : Parsing.element input Dialect.script
            (choice (Symbol.children.map (readWithin input height)))
            (choice [readWithin input height .block]) c = some found := h
        obtain ⟨t, rest, hahead, hkind, -⟩ := elementRead hread
        exact ⟨t, rest, hahead, by rw [hkind]; rfl⟩
      all_goals
        obtain ⟨t, rest, hahead, hkind⟩ := Group.ahead_of_read h
        exact ⟨t, rest, hahead, by rw [hkind]; rfl⟩

theorem readsBlocks_block (input : Input) (height : Nat) :
    ReadsBlocks (choice [readWithin input height .block]) := by
  intro c found h
  obtain ⟨p, hp, hread⟩ := choice_eq_some h
  rw [List.mem_singleton.mp hp] at hread
  obtain ⟨t, rest, hahead, hkind⟩ :=
    begins_structures input height .block (by simp [Symbol.structures]) hread
  refine ⟨t, rest, hahead, ?_⟩
  revert hkind
  cases t.kind <;> simp [structure?]

theorem moves_symbols (input : Input) (height : Nat) (symbols : List Symbol)
    (hsymbols : Symbol.document ∉ symbols) :
    Moves (choice (symbols.map (readWithin input height))) :=
  Moves.choice_map fun symbol hsymbol =>
    moves_readWithin input height symbol fun hdocument => hsymbols (hdocument ▸ hsymbol)

theorem moves_structures (input : Input) (height : Nat) :
    Moves (derive.structures (readWithin input height)) :=
  moves_symbols input height _ (by decide)

theorem moves_statements (input : Input) (height : Nat) :
    Moves (derive.statements input (readWithin input height)) := by
  refine moves_symbols input height _ ?_
  split <;> decide

/-- An outline knows no statements. -/
theorem statements_of_outline (houtline : outline.rich = false) (self : Symbol → Production) :
    derive.statements outline self = derive.structures self := by
  rw [derive.statements, derive.structures, houtline]
  rfl

/-- Statements follow what the outline reads in their place, given that structures do. -/
theorem statements_follow (hrich : input.rich = true) (hq : Moves q)
    (h : Follows (Sound lines) (FoldsAlike lines config) n m
      (derive.structures (readWithin input height)) q)
    (h' : Follows (Sound lines) (FoldsAlike lines config) n m
      (derive.structures (readWithin input (height + 1))) q) :
    Follows (Sound lines) (FoldsAlike lines config) n m
      (derive.statements input (readWithin input (height + 1))) q := by
  have hitem := moves_structures input height
  refine ⟨?_, ?_⟩
  · intro r s r' t rest node hmirrors hn hm hahead ht hread
    obtain ⟨p, hp, hread⟩ := choice_eq_some hread
    rw [if_pos hrich] at hp
    obtain ⟨symbol, hsymbol, rfl⟩ := List.mem_map.mp hp
    simp only [Symbol.statements, List.mem_cons, List.not_mem_nil, or_false] at hsymbol
    rcases hsymbol with rfl | rfl | rfl | rfl
    · exact h'.reads hmirrors hn hm hahead ht
        ((begins_structures input (height + 1)).choice (by simp [Symbol.structures]) hread)
    · -- The parts of the declaration are structures.
      refine functionDeclaration_outlined hq ?_ hread hmirrors hn hm
      have hpart {symbol : Symbol} (hsymbol : symbol ∈ Symbol.structures) :
          Moves (readWithin input height symbol) ∧ ∀ {r s r' : Cursor} {node : Node},
            r.Mirrors (Sound lines) s → r.ahead.length < n → s.ahead.length < m →
            readWithin input height symbol r = some (node, r') →
            Outlined (Sound lines) (FoldsAlike lines config) q s r' [node] := by
        refine ⟨moves_readWithin input height symbol ?_, ?_⟩
        · rintro rfl
          exact absurd hsymbol (by decide)
        · intro r s r' node hmirrors hn hm hread
          have hbegins := begins_structures input height
          obtain ⟨t, rest, hahead, hkind⟩ := hbegins symbol hsymbol hread
          exact h.reads hmirrors hn hm hahead (not_isCloser_of_structure? hkind)
            (hbegins.choice hsymbol hread)
      intro p hp
      rcases List.mem_cons.mp hp with rfl | hp
      · exact hpart (by simp [Symbol.structures])
      · rw [List.mem_singleton.mp hp]
        exact hpart (by simp [Symbol.structures])
    · exact variableDeclaration_outlined hitem hq h hread hmirrors hn hm
    · exact statement_outlined hitem hq h hread hmirrors hn hm
  · intro r s t rest hmirrors hn hm hahead ht hboundary hnone
    -- Whatever is no closer begins a statement.
    have hstatement := choice_eq_none.mp hnone (readWithin input (height + 1) .statement)
      (by rw [if_pos hrich]; exact List.mem_map_of_mem (by simp [Symbol.statements]))
    have hread :
        statement input (derive.structures (readWithin input height)) r = none := hstatement
    simp [statement, statementStart?_eq_some.mpr ⟨peek?_of_ahead hahead, hrich, ht⟩] at hread

/-- Inside of braces statements are followed wherever structures are read alike. -/
theorem statements_follow_of_pairs (hrich : input.rich = true) (houtline : outline.rich = false)
    (hheight : 2 * n ≤ height)
    (h : ∀ height, 2 * n ≤ height + 1 → Pairs (Sound lines) (FoldsAlike lines config) n m
      (derive.structures (readWithin input height))
      (derive.structures (readWithin outline height'))) :
    Follows (Sound lines) (FoldsAlike lines config) n m
      (derive.statements input (readWithin input height))
      (derive.statements outline (readWithin outline height')) := by
  have hgood := Sound.streams lines
  rw [statements_of_outline houtline]
  by_cases hzero : n = 0 ∨ m = 0
  · exact (Pairs.vacuous hzero).follows hgood
  · obtain ⟨height, rfl⟩ : ∃ k, height = k + 1 := ⟨height - 1, by omega⟩
    exact statements_follow hrich (moves_structures outline height')
      ((h height (by omega)).follows hgood) ((h (height + 1) (by omega)).follows hgood)

/-- Structures and text are read alike, whatever their heights, as long as these suffice for
the tokens ahead. -/
theorem symbol_pairs (hrich : input.rich = true) (houtline : outline.rich = false)
    (hstop : outline.stop = input.stop) (hconfig : outline.config = input.config)
    (hheight : 2 * n ≤ height + 1) (hheight' : m ≤ height') (hn : n ≤ input.bound)
    (hm : m ≤ outline.bound) :
    ∀ symbol ∈ Symbol.structures ++ Symbol.children,
      Pairs (Sound lines) (FoldsAlike lines config) n m (readWithin input height symbol)
        (readWithin outline height' symbol) := by
  have hgood := Sound.streams lines
  have hR := FoldsAlike.relates lines config
  induction n generalizing m height height' with
  | zero => exact fun _ _ => Pairs.vacuous (Or.inl rfl)
  | succ n ih =>
      cases m with
      | zero => exact fun _ _ => Pairs.vacuous (Or.inr rfl)
      | succ m =>
          obtain ⟨height, rfl⟩ : ∃ k, height = k + 1 := ⟨height - 1, by omega⟩
          obtain ⟨height', rfl⟩ : ∃ k, height' = k + 1 := ⟨height' - 1, by omega⟩
          have hlower (height : Nat) (hheight : 2 * n ≤ height + 1) (symbols : List Symbol)
              (hsymbols : ∀ symbol ∈ symbols, symbol ∈ Symbol.structures ++ Symbol.children) :
              Pairs (Sound lines) (FoldsAlike lines config) n m
                (choice (symbols.map (readWithin input height)))
                (choice (symbols.map (readWithin outline height'))) :=
            Pairs.choice fun symbol hsymbol =>
              ih hheight (by omega) (by omega) (by omega) symbol (hsymbols symbol hsymbol)
          have hstructures (height : Nat) (hheight : 2 * n ≤ height + 1) :
              Pairs (Sound lines) (FoldsAlike lines config) n m
                (derive.structures (readWithin input height))
                (derive.structures (readWithin outline height')) :=
            hlower height hheight Symbol.structures fun _ hsymbol => List.mem_append_left _ hsymbol
          have hgroups := (hstructures height (by omega)).follows hgood
          have hmoves := moves_structures input height
          have hmoves' := moves_structures outline height'
          have hgroup {g : Group} (hopener : g.opener.isStructural = true)
              (hcloser : g.closer.isCloser = true) :
              Pairs (Sound lines) (FoldsAlike lines config) (n + 1) (m + 1)
                (g.read input (derive.structures (readWithin input height)))
                (g.read outline (derive.structures (readWithin outline height'))) :=
            Group.pairs hgood hR hmoves hmoves' hgroups hopener hcloser
              (fun h hf => .container (h hf)) hstop (by omega) (by omega)
          intro symbol hsymbol
          simp only [Symbol.structures, Symbol.children, List.cons_append, List.nil_append,
            List.mem_cons, List.not_mem_nil, or_false] at hsymbol
          cases symbol with
          | document | functionDeclaration | variableDeclaration | statement => simp at hsymbol
          | comment =>
              exact comment_pairs hgood (fun _ => .refl _) fun {_ t _ _} hsound ht _ =>
                .without (SameCandidates.candidate?_of_line (hsound.line t (by simp) ht))
          | block =>
              have hstatements := statements_follow_of_pairs hrich houtline
                (show 2 * n ≤ height by omega) hstructures
              exact Group.pairs (g := .block) hgood hR (moves_statements input height)
                (moves_statements outline height') hstatements rfl rfl
                (fun h hf => .container (h hf)) hstop (by omega) (by omega)
          | parentheses => exact hgroup rfl rfl
          | brackets => exact hgroup rfl rfl
          | template =>
              exact template_pairs hgood hR hmoves hmoves' hgroups hstop (by omega) (by omega)
                fun h hf => .container (h hf)
          | text => exact text_pairs hgood houtline fun _ => .without rfl
          | element =>
              have hchildren := hlower height (by omega) Symbol.children
                fun _ hsymbol => List.mem_append_right _ hsymbol
              have hexpression := hlower height (by omega) [.block] (by simp [Symbol.structures])
              exact element_pairs hgood hR (moves_symbols input height _ (by decide))
                (moves_symbols outline height' _ (by decide))
                (moves_symbols input height [.block] (by decide))
                (moves_symbols outline height' [.block] (by decide)) hchildren hexpression
                (readsBlocks_block input height) hstop hconfig (by omega) (by omega)
                (fun hattributes h hf => .element hattributes (h hf)) FoldsAlike.of_tooDeep

/-! ### Parses -/

theorem parse_outline (hrich : input.rich = true) (houtline : outline.rich = false)
    (hstart : outline.start = input.start) (hstop : outline.stop = input.stop)
    (hconfig : outline.config = input.config)
    (hmirrors : input.cursor.Mirrors (Sound lines) outline.cursor) :
    ∃ xs ys, (grammar.parse input).tree = .container input.start input.stop .document xs
      ∧ (grammar.parse outline).tree = .container input.start input.stop .document ys
      ∧ FoldsAlike lines config (grammar.parse outline).faults.reverse xs ys
      ∧ (grammar.parse outline).faults = (grammar.parse input).faults := by
  have hbound : outline.bound ≤ 3 * outline.bound := by
    unfold Input.bound
    omega
  have hbound' : 2 * input.bound ≤ 3 * input.bound := by
    unfold Input.bound
    omega
  have hpairs (height : Nat) (hheight : 2 * input.bound ≤ height + 1) :
      Pairs (Sound lines) (FoldsAlike lines config) input.bound outline.bound
        (derive.structures (readWithin input height))
        (derive.structures (readWithin outline (3 * outline.bound))) :=
    Pairs.choice fun symbol hsymbol =>
      symbol_pairs hrich houtline hstop hconfig hheight hbound (Nat.le_refl _) (Nat.le_refl _)
        symbol (List.mem_append_left _ hsymbol)
  have hfollows := statements_follow_of_pairs hrich houtline hbound' hpairs
  exact hfollows.parse (Sound.streams lines) (FoldsAlike.relates lines config)
    (moves_statements _ _) (moves_statements _ _) (parse_eq input) (parse_eq outline) hstart hstop
    hmirrors

end SourceView.Script

namespace SourceView

open Parsing

/-- What the outline of a script has of its full analysis. -/
theorem Language.script_passes_agree (config : Config) (source : List Char) :
    (script.pass config .rich source).Agrees config (script.pass config .structural source) := by
  let input : Input :=
    { tokens := (script.lex .rich config.embeddedLanguages source 0 none).tokens, source
      detail := .rich, config, start := 0, stop := source.length }
  let bare : Input :=
    { tokens := (script.lex .structural config.embeddedLanguages source 0 none).tokens, source
      detail := .structural, config, start := 0, stop := source.length }
  have hkept : script.lex .structural config.embeddedLanguages source 0 none
      = (script.lex .rich config.embeddedLanguages source 0 none).keep .structural := by
    rw [lex_script_whole, lex_script_whole]
    exact Script.lex_structural 0 source
  have hsound : Script.Sound (LineIndex.ofChars source) [] input.tokens := by
    show Script.Sound _ [] (script.lex .rich config.embeddedLanguages source 0 none).tokens
    rw [lex_script_whole]
    exact ⟨Script.lex_tight 0 source, Script.lex_lineComment source⟩
  have hmirrors : input.cursor.Mirrors (Script.Sound (LineIndex.ofChars source)) bare.cursor :=
    ⟨(congrArg (·.tokens.map Token.bare) hkept).symm, hsound, rfl, rfl⟩
  obtain ⟨xs, ys, hfull, houtline, halike, hparse⟩ :=
    Script.parse_outline (show input.rich = true from rfl) (show bare.rich = false from rfl) rfl rfl
      rfl hmirrors
  exact Pass.agrees_of_foldsAlike rfl (congrArg Lexing.faults hkept).symm hparse.symm hfull houtline
    halike

/-- **A script and its outline agree.**  Where no container lies past the nesting limit, the
outline has the fold regions and the diagnostics of the full analysis. -/
theorem Language.script_outline_agrees (config : Config) (source : String)
    (hshallow : ∀ d ∈ (script.outline config source).diagnostics,
      d.message ≠ "Nesting too deep: contents not analyzed") :
    (script.analyze config source).folds = (script.outline config source).folds
      ∧ (script.analyze config source).diagnostics
        = (script.outline config source).diagnostics := by
  have hagrees := script_passes_agree config source.toList
  exact ⟨hagrees.folds_eq hshallow, hagrees.diagnostics_eq⟩

/-- A function that returns an element, with a parenthesis behind it that closes nothing. -/
theorem Language.script_outline_agrees_on_function :
    let source := "function f(a) \x7b\n  return <b c=\x7b[\n    1\n  ]\x7d>`$\x7ba\x7d`</b>; // x\n\x7d\n)"
    (∀ d ∈ (script.outline {} source).diagnostics,
        d.message ≠ "Nesting too deep: contents not analyzed")
      ∧ (script.analyze {} source).folds = (script.outline {} source).folds
      ∧ (script.analyze {} source).diagnostics = (script.outline {} source).diagnostics := by
  intro source
  have hshallow : ∀ d ∈ (script.outline {} source).diagnostics,
      d.message ≠ "Nesting too deep: contents not analyzed" := by
    refine Pass.forall_message_ne.mpr ?_
    decide +kernel
  exact ⟨hshallow, script_outline_agrees {} source hshallow⟩

end SourceView
