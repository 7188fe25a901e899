/-
What the outline of a stylesheet has of its full tree.

The outline knows blocks, parentheses, brackets and comments.  The full tree has all of those
too, inside of rules and at-rules, but one kind of node hides some of them: a declaration
keeps nothing of the groups and comments in its value, and the outline has them in its place.

That is all there is to it.  A head reads its groups as the outline does, and a value passes
them one by one; where either stops, the outline goes on at the same boundary.
-/
import SourceView.Proofs.Parsing.Nesting
import SourceView.Proofs.Stylesheet.Boundaries

namespace SourceView.Stylesheet

open Node (Row)
open Parsing Parsing.Cursor

/-- Whether a container is a rule or an at-rule, for which an outline has no node. -/
def isStatement : Container → Bool
  | .rule .. | .atRule .. => true
  | _ => false

/-- Whether a container is a pair of parentheses or brackets. -/
def isGroup : Container → Bool
  | .parentheses _ | .brackets _ => true
  | _ => false

/-- How a row of a full tree is filled in to that of the outline.  Rules and at-rules give
way to what stands in them, and declarations to what their values hold, the nodes `us` that
a full parse reads there and drops; both occur only where statements do. -/
inductive Fills : (statements : Bool) → List Node → List Node → Prop
  | nil {statements : Bool} : Fills statements [] []
  | comment {statements : Bool} {a b : Int} {xs ys : List Node} (hmore : Fills statements xs ys) :
      Fills statements (.leaf a b .comment :: xs) (.leaf a b .comment :: ys)
  | block {statements closed : Bool} {a b : Int} {us vs xs ys : List Node}
      (hinner : Fills true us vs) (hmore : Fills statements xs ys) :
      Fills statements (.container a b (.block closed) us :: xs)
        (.container a b (.block closed) vs :: ys)
  | group {statements : Bool} {a b : Int} {info : Container} {us vs xs ys : List Node}
      (hinfo : isGroup info = true) (hinner : Fills false us vs) (hmore : Fills statements xs ys) :
      Fills statements (.container a b info us :: xs) (.container a b info vs :: ys)
  | statement {a b : Int} {info : Container} {us vs xs ys : List Node}
      (hinfo : isStatement info = true) (hinner : Fills false us vs) (hmore : Fills true xs ys) :
      Fills true (.container a b info us :: xs) (vs ++ ys)
  | declaration {a b : Int} {property value : String} {important : Bool} {us vs xs ys : List Node}
      (hrow : Row a b us) (hinner : Fills false us vs) (hmore : Fills true xs ys) :
      Fills true (.leaf a b (.declaration property value important) :: xs) (vs ++ ys)

namespace Fills

variable {statements : Bool} {us vs xs ys : List Node}

theorem append (h : Fills statements xs ys) (h' : Fills statements us vs) :
    Fills statements (xs ++ us) (ys ++ vs) := by
  induction h with
  | nil => exact h'
  | comment _ ih => exact .comment (ih h')
  | block hinner _ _ ih => exact .block hinner (ih h')
  | group hinfo hinner _ _ ih => exact .group hinfo hinner (ih h')
  | statement hinfo hinner _ _ ih =>
      rw [List.append_assoc]
      exact .statement hinfo hinner (ih h')
  | declaration hrow hinner _ _ ih =>
      rw [List.append_assoc]
      exact .declaration hrow hinner (ih h')

theorem of_groups (h : Fills false xs ys) : Fills true xs ys := by
  generalize hfalse : false = statements at h
  induction h with
  | nil => exact .nil
  | comment _ ih => exact .comment (ih hfalse)
  | block hinner _ _ ih => exact .block hinner (ih hfalse)
  | group hinfo hinner _ _ ih => exact .group hinfo hinner (ih hfalse)
  | statement => exact absurd hfalse (by simp)
  | declaration => exact absurd hfalse (by simp)

theorem of_statement {a b : Int} {info : Container} (hinfo : isStatement info = true)
    (hinner : Fills false us vs) : Fills true [.container a b info us] vs := by
  have hall := Fills.statement (a := a) (b := b) hinfo hinner .nil
  rwa [List.append_nil] at hall

theorem of_declaration {a b : Int} {property value : String} {important : Bool}
    (hrow : Row a b us) (hinner : Fills false us vs) :
    Fills true [.leaf a b (.declaration property value important)] vs := by
  have hall : Fills true (.leaf a b (.declaration property value important) :: []) (vs ++ []) :=
    .declaration hrow hinner .nil
  rwa [List.append_nil] at hall

/-- Where the full row nests, the filled one does. -/
theorem row (h : Fills statements xs ys) {lo hi : Int} (hrow : Row lo hi xs) : Row lo hi ys := by
  induction h generalizing lo hi with
  | nil => exact hrow
  | comment _ ih => exact ⟨hrow.1, hrow.2.1, ih hrow.2.2⟩
  | block _ _ ihinner ih => exact ⟨hrow.1, ihinner hrow.2.1, ih hrow.2.2⟩
  | group _ _ _ ihinner ih => exact ⟨hrow.1, ihinner hrow.2.1, ih hrow.2.2⟩
  | statement _ _ _ ihinner ih =>
      exact ((ihinner hrow.2.1).of_le hrow.1).append (ih hrow.2.2)
  | declaration hinside _ _ ihinner ih =>
      exact ((ihinner hinside).of_le hrow.1).append (ih hrow.2.2)

theorem relates (statements : Bool) : Relates fun _ => Fills statements :=
  ⟨fun _ => .nil, append, fun h _ => h⟩

end Fills

/-! ### The tokens of a stylesheet -/

/-- What is known of the tokens behind and ahead of the rich parse. -/
structure Sheet (input : Input) (behind ahead : List Token) : Prop where
  ordered : Cursor.Ordered input { behind, ahead }
  snug : Cursor.Snug input { behind, ahead }
  noForeign : ∀ t ∈ ahead, isForeign t.kind = false

theorem Sheet.streams (input : Input) : Streams (Sheet input) := by
  refine ⟨?_, ?_⟩
  · intro t behind ahead h
    have hpass : Cursor.Passes { behind, ahead := t :: ahead } { behind := t :: behind, ahead } :=
      ⟨[t], rfl, rfl⟩
    exact ⟨h.ordered.passes hpass, h.snug.passes hpass, fun u hu => h.noForeign u (by simp [hu])⟩
  · intro t behind ahead h ht
    have hforeign := h.noForeign t (by simp)
    rw [ht] at hforeign
    exact absurd hforeign (by decide)

variable {input outline : Input} {r s : Cursor}

theorem ordered_of_mirrors (h : r.Mirrors (Sheet input) s) : r.Ordered input :=
  ⟨h.good.ordered.order, h.good.ordered.short⟩

theorem snug_of_mirrors (h : r.Mirrors (Sheet input) s) : r.Snug input :=
  ⟨h.good.snug.tile, h.good.snug.regions⟩

/-! ### Structures -/

/-- The structure that a token begins. -/
def structure? : TokenKind → Option Symbol
  | .comment | .lineComment => some .comment
  | .blockOpen => some .block
  | .parenOpen => some .parentheses
  | .bracketOpen => some .brackets
  | _ => none

theorem begins_structures (input : Input) (starts : Array Bool) (height : Nat) :
    Begins structure? (readWithin input starts height) Symbol.structures := by
  intro symbol hsymbol c found h
  cases height with
  | zero => exact absurd h (by simp [readWithin])
  | succ height =>
      simp only [Symbol.structures, List.mem_cons, List.not_mem_nil, or_false] at hsymbol
      rcases hsymbol with rfl | rfl | rfl | rfl
      · obtain ⟨t, rest, hahead, hkind⟩ := ahead_of_comment h
        refine ⟨t, rest, hahead, ?_⟩
        rcases hkind with hkind | hkind <;> rw [hkind] <;> rfl
      all_goals
        obtain ⟨t, rest, hahead, hkind⟩ := Group.ahead_of_read h
        exact ⟨t, rest, hahead, by rw [hkind]; rfl⟩

theorem fits_structures (starts : Array Bool) (height : Nat) :
    Fits input (derive.structures (readWithin input starts height)) := by
  refine Fits.choice_map fun symbol hsymbol => fits_readWithin starts height symbol ?_
  rintro rfl
  simp [Symbol.structures] at hsymbol

theorem fits_statement (starts : Array Bool) (height : Nat) :
    Fits input (derive.statement input (readWithin input starts height)) :=
  (fits_derive starts (fits_readWithin starts height)).1

/-! ### Heads and values -/

variable {n m : Nat} {item q : Production}

/-- What is asked of the structures that the outline reads: they move on, none of them begins
where no structure does, and comments are among them. -/
structure Reader (q : Production) : Prop extends Moves q where
  none_of_ne : ∀ {s : Cursor} {t : Token} {rest : List Token}, s.ahead = t :: rest →
    structure? t.kind = none → q s = none
  comment : ∀ {s : Cursor} {t : Token} {rest : List Token}, s.ahead = t :: rest →
    t.kind = .comment → q s = some (.leaf t.start t.stop .comment, s.advance)

theorem Reader.none_of_mirrors (hq : Reader q) (h : r.Mirrors (Sheet input) s) {t : Token}
    {rest : List Token} (hahead : r.ahead = t :: rest) (ht : structure? t.kind = none)
    (hboundary : t.kind.isStructural = true) : q s = none := by
  obtain ⟨u, us, hs, hbare, -⟩ := h.boundary (Sheet.streams input) hahead hboundary
  exact hq.none_of_ne hs (by rw [Token.kind_of_bare hbare, ht])

/-- A token that is no structure to the outline either begins none or is a comment. -/
theorem structure?_of_piece {t : Token} (hopen : t.kind ≠ .blockOpen)
    (hgroup : ¬opensGroup t.kind = true) (hforeign : isForeign t.kind = false) :
    t.kind = .comment ∨ structure? t.kind = none := by
  revert hopen hgroup hforeign
  cases t.kind <;> decide

theorem headLoop_outlined (hitem : Moves item) (hq : Reader q)
    (h : Follows (Sheet input) (fun _ => Fills false) n m item q) (stop : Option Int) (turns : Nat)
    (hmirrors : r.Mirrors (Sheet input) s) (hn : r.ahead.length < n) (hm : s.ahead.length < m) :
    Outlined (Sheet input) (fun _ => Fills false) q s (headLoop item stop turns r).cursor
      (headLoop item stop turns r).children := by
  have hgood := Sheet.streams input
  have hR := Fills.relates false
  have hrun := headRun item turns stop r
  generalize headLoop item stop turns r = head at hrun
  induction hrun generalizing s with
  | spent => exact .here hR hmirrors
  | ended | stopped => exact .here hR (hmirrors.skipTrivia hgood)
  | @node _ _ r _ _ _ _ _ hahead hend _ hnode _ ih =>
      have hshort := (leads_skipTrivia r).length_le
      have hcloser := Bool.eq_false_iff.mpr fun h => hend (Or.inr (Or.inr h))
      have hstep := (hitem.steps hnode).shorter
      exact (h.reads (hmirrors.skipTrivia hgood) (by omega) hm hahead hcloser hnode).append hR
        hq.toMoves fun s₁ hnext hlen₁ => ih hnext (by omega) (by omega)
  | @piece _ _ r t _ _ hahead hend hnode _ ih =>
      have hskip := hmirrors.skipTrivia hgood
      have hshort := (leads_skipTrivia r).length_le
      have hcloser := Bool.eq_false_iff.mpr fun h => hend (Or.inr (Or.inr h))
      have hlen := (steps_advance hahead).shorter
      have hnone (hboundary : t.kind.isStructural = true) : q s = none := by
        by_cases hgroup : (opensGroup t.kind || t.kind == .comment) = true
        · exact h.fails hskip (by omega) hm hahead hcloser hboundary (hnode hgroup)
        simp only [Bool.or_eq_true, beq_iff_eq, not_or] at hgroup
        have hstructure := structure?_of_piece (fun h => hend (Or.inl h)) hgroup.1
          (hskip.good.noForeign t (by rw [hahead]; exact List.mem_cons_self))
        exact hq.none_of_mirrors hskip hahead (hstructure.resolve_left hgroup.2) hboundary
      obtain ⟨s₁, hnext, hlen₁, hback⟩ := hskip.pass hgood hahead hcloser hnone
      exact hback (ih hnext (by omega) (by omega))

/-- What a value `w` holds from `start` on, the outline has: a row up to where the value ends. -/
def ValueOutlined (input : Input) (q : Production) (s : Cursor) (start : Int) (w : Value) : Prop :=
  ∃ xs, Row start w.stop xs ∧ Outlined (Sheet input) (fun _ => Fills false) q s w.cursor xs

namespace ValueOutlined

variable {start : Int} {w : Value} {t : Token} {rest : List Token}

theorem here (hmirrors : w.cursor.Mirrors (Sheet input) s) (hle : start ≤ w.stop) :
    ValueOutlined input q s start w :=
  ⟨[], hle, .here (Fills.relates false) hmirrors⟩

/-- Past a token where the outline reads nothing. -/
theorem pass (hmirrors : r.Mirrors (Sheet input) s) (hahead : r.ahead = t :: rest)
    (hcloser : t.kind.isCloser = false) (hnone : t.kind.isStructural = true → q s = none)
    (hle : start ≤ t.start)
    (hmore : ∀ {s₁}, r.advance.Mirrors (Sheet input) s₁ → s₁.ahead.length ≤ s.ahead.length →
      ValueOutlined input q s₁ t.stop w) : ValueOutlined input q s start w := by
  obtain ⟨s₁, hnext, hlen, hback⟩ := hmirrors.pass (Sheet.streams input) hahead hcloser hnone
  obtain ⟨xs, hrow, houtlined⟩ := hmore hnext hlen
  have hspan := (ordered_of_mirrors hmirrors).span hahead
  exact ⟨xs, hrow.of_le (Int.le_trans hle hspan), hback houtlined⟩

/-- Past a comment, which the outline reads. -/
theorem comment (hq : Reader q) (hmirrors : r.Mirrors (Sheet input) s)
    (hahead : r.ahead = t :: rest) (ht : t.kind = .comment) (hle : start ≤ t.start)
    (hmore : ∀ {s₁}, r.advance.Mirrors (Sheet input) s₁ → s₁.ahead.length ≤ s.ahead.length →
      ValueOutlined input q s₁ t.stop w) : ValueOutlined input q s start w := by
  obtain ⟨o, os, hs, hbare, hnext⟩ :=
    hmirrors.boundary (Sheet.streams input) hahead (by rw [ht]; rfl)
  obtain ⟨xs, hrow, ys, s', htakes, hcursor, hfills⟩ := hmore hnext (leads_advance s).length_le
  have hkind := (Token.kind_of_bare hbare).trans ht
  have hread := hq.comment hs hkind
  rw [Token.start_of_bare hbare, Token.stop_of_bare hbare] at hread
  exact ⟨.leaf t.start t.stop .comment :: xs,
    ⟨hle, (ordered_of_mirrors hmirrors).span hahead, hrow⟩, _, s',
    .read hs (by rw [hkind]; rfl) hread htakes, hcursor, .comment hfills⟩

/-- Past a group, which both read. -/
theorem group {node : Node} {d : Cursor} (hitem : Fits input item) (hq : Reader q)
    (h : Follows (Sheet input) (fun _ => Fills false) n m item q)
    (hmirrors : r.Mirrors (Sheet input) s) (hn : r.ahead.length < n) (hm : s.ahead.length < m)
    (hahead : r.ahead = t :: rest) (hcloser : t.kind.isCloser = false)
    (hnode : item r = some (node, d)) (hle : start ≤ t.start)
    (hmore : ∀ {s₁}, d.Mirrors (Sheet input) s₁ → s₁.ahead.length ≤ s.ahead.length →
      ValueOutlined input q s₁ node.stop w) : ValueOutlined input q s start w := by
  obtain ⟨ys, s₁, htakes, hmirrors', hfills⟩ := h.reads hmirrors hn hm hahead hcloser hnode
  obtain ⟨xs, hrow, zs, s', hothers, hcursor, hfills'⟩ :=
    hmore hmirrors' (htakes.leads hq.toMoves).length_le
  have hread := hitem.reads (ordered_of_mirrors hmirrors) hnode
  refine ⟨node :: xs, ⟨?_, hread.nested (snug_of_mirrors hmirrors), hrow⟩, ys ++ zs, s',
    htakes.trans hothers, hcursor, hfills.append hfills'⟩
  rw [hread.start, unclosedEnd_cons hahead]
  exact hle

end ValueOutlined

/-- What a value passes, the outline has in its span. -/
theorem valueLoop_outlined (hitem : Fits input item) (hq : Reader q)
    (h : Follows (Sheet input) (fun _ => Fills false) n m item q) {turns : Nat} {v w : Value}
    (hvalue : valueLoop item turns v = .ok w) (hmirrors : v.cursor.Mirrors (Sheet input) s)
    (hn : v.cursor.ahead.length < n) (hm : s.ahead.length < m)
    (hstop : v.stop ≤ v.cursor.unclosedEnd input) : ValueOutlined input q s v.stop w := by
  have hgood := Sheet.streams input
  have hrun := valueRun item turns v
  rw [hvalue] at hrun
  clear hvalue
  generalize hfound : Except.ok w = found at hrun
  -- The value ends before the token that comes next.
  have hbefore {v : Value} {t : Token} {rest : List Token} {s : Cursor}
      (hmirrors : v.cursor.Mirrors (Sheet input) s) (hstop : v.stop ≤ v.cursor.unclosedEnd input)
      (hahead : v.cursor.skipTrivia.ahead = t :: rest) : v.stop ≤ t.start := by
    rw [← unclosedEnd_cons hahead]
    exact Int.le_trans hstop
      ((ordered_of_mirrors hmirrors).unclosedEnd_le (leads_skipTrivia v.cursor).passes)
  induction hrun generalizing s with
  | spent =>
      cases hfound
      exact .here hmirrors (Int.le_refl _)
  | ended | closed =>
      cases hfound
      exact .here (hmirrors.skipTrivia hgood) (Int.le_refl _)
  | opened => cases hfound
  | semicolon hahead ht =>
      cases hfound
      have hskip := hmirrors.skipTrivia hgood
      exact .here (hskip.filler hgood hahead (by rw [ht]; rfl))
        (Int.le_trans (hbefore hmirrors hstop hahead) ((ordered_of_mirrors hskip).span hahead))
  | @important _ v t _ _ hahead hplain ht _ ih =>
      have hskip := hmirrors.skipTrivia hgood
      have hshort := (leads_skipTrivia v.cursor).length_le
      have hlen := (steps_advance hahead).shorter
      have hnone : structure? t.kind = none := by
        simp only [isImportant, Bool.and_eq_true, beq_iff_eq] at ht
        rw [ht.1]
        rfl
      exact .pass hskip hahead (Bool.eq_false_iff.mpr fun h => hplain (Or.inr (Or.inr h)))
        (hq.none_of_mirrors hskip hahead hnone) (hbefore hmirrors hstop hahead)
        fun hnext hle => ih hnext (show v.cursor.skipTrivia.advance.ahead.length < n by omega)
          (by omega) ((ordered_of_mirrors hskip).stop_le hahead) hfound
  | @group _ v _ _ _ d _ hahead hplain _ _ hnode _ ih =>
      have hskip := hmirrors.skipTrivia hgood
      have hshort := (leads_skipTrivia v.cursor).length_le
      have hstep := (hitem.steps hnode).shorter
      exact .group hitem hq h hskip (by omega) hm hahead
        (Bool.eq_false_iff.mpr fun h => hplain (Or.inr (Or.inr h))) hnode
        (hbefore hmirrors hstop hahead)
        fun hnext hle => ih hnext (show d.ahead.length < n by omega) (by omega)
          (hitem.reads (ordered_of_mirrors hskip) hnode).stop hfound
  | @piece _ v t _ _ hahead hplain _ hnode _ ih =>
      have hskip := hmirrors.skipTrivia hgood
      have hshort := (leads_skipTrivia v.cursor).length_le
      have hlen := (steps_advance hahead).shorter
      have hcloser := Bool.eq_false_iff.mpr fun h => hplain (Or.inr (Or.inr h))
      have hle := hbefore hmirrors hstop hahead
      have hmore {s₁ : Cursor} (hnext : v.cursor.skipTrivia.advance.Mirrors (Sheet input) s₁)
          (hle : s₁.ahead.length ≤ s.ahead.length) : ValueOutlined input q s₁ t.stop w :=
        ih hnext (show v.cursor.skipTrivia.advance.ahead.length < n by omega) (by omega)
          ((ordered_of_mirrors hskip).stop_le hahead) hfound
      by_cases hgroup : opensGroup t.kind = true
      · exact .pass hskip hahead hcloser (fun hboundary =>
          h.fails hskip (by omega) hm hahead hcloser hboundary (hnode hgroup)) hle hmore
      rcases structure?_of_piece (fun h => hplain (Or.inl h)) hgroup
        (hskip.good.noForeign t (by rw [hahead]; exact List.mem_cons_self)) with hcomment | hnone
      · exact .comment hq hskip hahead hcomment hle hmore
      · exact .pass hskip hahead hcloser (hq.none_of_mirrors hskip hahead hnone) hle hmore

/-! ### Statements -/

variable {block : Production} {starts : Array Bool} {node : Node} {r' : Cursor}

/-- The block of a statement, where the outline has a block too. -/
theorem block_outlined
    (h : Follows (Sheet input) (fun _ => Fills false) n m item q)
    (hblock : ∀ {c found}, block c = some found →
      item c = some found ∧ ∃ t rest, c.ahead = t :: rest ∧ t.kind = .blockOpen)
    (hread : block r.skipTrivia = some (node, r')) (hmirrors : r.Mirrors (Sheet input) s)
    (hn : r.ahead.length < n) (hm : s.ahead.length < m) :
    Outlined (Sheet input) (fun _ => Fills false) q s r' [node] := by
  obtain ⟨hnode, t, rest, hahead, hkind⟩ := hblock hread
  have hshort := (leads_skipTrivia r).length_le
  exact h.reads (hmirrors.skipTrivia (Sheet.streams input)) (by omega) hm hahead
    (by rw [hkind]; rfl) hnode

theorem rule_outlined (hitem : Moves item) (hq : Reader q)
    (h : Follows (Sheet input) (fun _ => Fills false) n m item q)
    (hblock : ∀ {c found}, block c = some found →
      item c = some found ∧ ∃ t rest, c.ahead = t :: rest ∧ t.kind = .blockOpen)
    (hread : rule input starts item block r = some (node, r'))
    (hmirrors : r.Mirrors (Sheet input) s) (hn : r.ahead.length < n) (hm : s.ahead.length < m) :
    Outlined (Sheet input) (fun _ => Fills true) q s r' [node] := by
  obtain ⟨-, -, -, hbody⟩ := rule_eq_some.mp hread
  have hlen := (leads_headLoop hitem none input.bound r).length_le
  exact ((headLoop_outlined hitem hq h none input.bound hmirrors hn hm).append
    (Fills.relates false) hq.toMoves fun s₁ hcursor hlen₁ =>
      block_outlined h hblock hbody hcursor (by omega) (by omega)).imp (Fills.of_statement rfl)

theorem atRule_outlined (hitem : Moves item) (hq : Reader q)
    (h : Follows (Sheet input) (fun _ => Fills false) n m item q)
    (hblock : ∀ {c found}, block c = some found →
      item c = some found ∧ ∃ t rest, c.ahead = t :: rest ∧ t.kind = .blockOpen)
    (hread : atRule input item block r = some (node, r'))
    (hmirrors : r.Mirrors (Sheet input) s) (hn : r.ahead.length < n) (hm : s.ahead.length < m) :
    Outlined (Sheet input) (fun _ => Fills true) q s r' [node] := by
  have hgood := Sheet.streams input
  have hhead {keyword : Token} {c : Cursor} (hkeyword : atKeyword? input r = some (keyword, c)) :
      Outlined (Sheet input) (fun _ => Fills false) q s (headLoop item none input.bound c).cursor
          (headLoop item none input.bound c).children
        ∧ (headLoop item none input.bound c).cursor.ahead.length < r.ahead.length := by
    obtain ⟨hkind, -, rfl, hahead⟩ := accept?_eq_some (atKeyword?_eq_some.mp hkeyword).2
    have hshort := (steps_advance hahead).shorter
    have hlen := (leads_headLoop hitem none input.bound r.advance).length_le
    exact ⟨headLoop_outlined hitem hq h none input.bound
      (hmirrors.filler hgood hahead (by rw [hkind]; rfl)) (by omega) hm, by omega⟩
  cases atRuleRead hread with
  | semicolon hkeyword hsemicolon =>
      obtain ⟨ys, s₁, htakes, hcursor, hfills⟩ := (hhead hkeyword).1
      obtain ⟨hkind, -, rfl, hahead⟩ := accept?_eq_some hsemicolon
      exact ⟨ys, s₁, htakes,
        (hcursor.skipTrivia hgood).filler hgood hahead (by rw [hkind]; rfl),
        Fills.of_statement rfl hfills⟩
  | block hkeyword hbody =>
      obtain ⟨houtlined, hlen⟩ := hhead hkeyword
      exact (houtlined.append (Fills.relates false) hq.toMoves fun s₁ hcursor hlen₁ =>
        block_outlined h hblock hbody hcursor (by omega) (by omega)).imp (Fills.of_statement rfl)
  | bare hkeyword =>
      obtain ⟨ys, s₁, htakes, hcursor, hfills⟩ := (hhead hkeyword).1
      exact ⟨ys, s₁, htakes, hcursor.skipTrivia hgood, Fills.of_statement rfl hfills⟩

theorem declaration_outlined (hitem : Fits input item) (hq : Reader q)
    (h : Follows (Sheet input) (fun _ => Fills false) n m item q)
    (hread : declaration input item r = some (node, r'))
    (hmirrors : r.Mirrors (Sheet input) s) (hn : r.ahead.length < n) (hm : s.ahead.length < m) :
    Outlined (Sheet input) (fun _ => Fills true) q s r' [node] := by
  have hgood := Sheet.streams input
  have hordered := ordered_of_mirrors hmirrors
  cases declarationRead hread with
  | @mk property _ start value hahead hstart hvalue =>
      have hleads := (steps_declarationStart hstart).leads
      have hlen := hleads.length_le
      obtain ⟨-, -, hnames, colon, e, hcolon, rfl⟩ := declarationStart_eq_ok.mp hstart
      obtain ⟨hkind, -, rfl, hahead'⟩ := accept?_eq_some hcolon
      have hfiller : property.kind.isStructural = false := by
        revert hnames
        cases property.kind <;> decide
      have hmirrors' := (hmirrors.filler hgood hahead hfiller).skipTrivia hgood
      obtain ⟨xs, hrow, houtlined⟩ := valueLoop_outlined hitem hq h hvalue
        (hmirrors'.filler hgood hahead' (by rw [hkind]; rfl)) (Nat.lt_of_le_of_lt hlen hn) hm
        (hordered.passes hleads.passes).previousEnd_le_unclosedEnd
      have hbefore := hordered.previousEnd_le hleads.passes
      rw [(snug_of_mirrors hmirrors).previousEnd_eq_unclosedEnd, unclosedEnd_cons hahead] at hbefore
      exact houtlined.imp (Fills.of_declaration (hrow.of_le hbefore))

/-! ### Symbols of any height -/

variable {starts' : Array Bool} {height height' : Nat}

theorem reader_structures (starts : Array Bool) (height : Nat) :
    Reader (derive.structures (readWithin outline starts (height + 1))) := by
  refine { (fits_structures starts (height + 1)).toMoves with none_of_ne := ?_, comment := ?_ }
  · exact fun hahead ht => (begins_structures outline starts (height + 1)).choice_eq_none hahead ht
  · intro s t rest hahead ht
    have hcomment : Symbol.comment ∈ Symbol.structures := by simp [Symbol.structures]
    refine (begins_structures outline starts (height + 1)).choice hcomment ?_
    show comment s = _
    simp [Parsing.comment, hahead, ht]

theorem structures_of_block {c : Cursor} {found : Node × Cursor}
    (h : readWithin input starts height .block c = some found) :
    derive.structures (readWithin input starts height) c = some found
      ∧ ∃ t rest, c.ahead = t :: rest ∧ t.kind = .blockOpen := by
  have hblock : Symbol.block ∈ Symbol.structures := by simp [Symbol.structures]
  have hbegins := begins_structures input starts height
  obtain ⟨t, rest, hahead, hkind⟩ := hbegins .block hblock h
  refine ⟨hbegins.choice hblock h, t, rest, hahead, ?_⟩
  revert hkind
  cases t.kind <;> simp [structure?]

/-- Statements follow what the outline reads in their place, given that structures do. -/
theorem statement_follows (hrich : input.rich = true) (hq : Reader q)
    (h : Follows (Sheet input) (fun _ => Fills false) n m
      (derive.structures (readWithin input starts height)) q)
    (h' : Follows (Sheet input) (fun _ => Fills false) n m
      (derive.structures (readWithin input starts (height + 1))) q) :
    Follows (Sheet input) (fun _ => Fills true) n m
      (derive.statement input (readWithin input starts (height + 1))) q := by
  have hitem : Fits input (derive.structures (readWithin input starts height)) :=
    fits_structures starts height
  have hsymbols : Symbol.statements = .comment :: .atRule :: .rule :: .declaration ::
      [.block, .parentheses, .brackets] := rfl
  refine ⟨?_, ?_⟩
  · intro r s r' t rest node hmirrors hn hm hahead ht hread
    have hstructure {symbol : Symbol} (hsymbol : symbol ∈ Symbol.structures)
        (hread : readWithin input starts (height + 1) symbol r = some (node, r')) :
        Outlined (Sheet input) (fun _ => Fills true) q s r' [node] := by
      exact (h'.reads hmirrors hn hm hahead ht ((begins_structures _ _ _).choice hsymbol hread)).imp
        Fills.of_groups
    obtain ⟨p, hp, hread⟩ := choice_eq_some hread
    obtain ⟨symbol, hsymbol, rfl⟩ := List.mem_map.mp hp
    cases symbol with
    | document => simp [hrich, Symbol.statements] at hsymbol
    | comment | block | parentheses | brackets =>
        exact hstructure (by simp [Symbol.structures]) hread
    | rule =>
        exact rule_outlined hitem.toMoves hq h structures_of_block hread hmirrors hn hm
    | atRule =>
        exact atRule_outlined hitem.toMoves hq h structures_of_block hread hmirrors hn hm
    | declaration => exact declaration_outlined hitem hq h hread hmirrors hn hm
  · intro r s t rest hmirrors hn hm hahead ht hboundary hnone
    refine h'.fails hmirrors hn hm hahead ht hboundary (choice_eq_none.mpr fun p hp => ?_)
    refine choice_eq_none.mp hnone p ?_
    obtain ⟨symbol, hsymbol, rfl⟩ := List.mem_map.mp hp
    refine List.mem_map_of_mem ?_
    rw [if_pos hrich, hsymbols]
    revert hsymbol
    cases symbol <;> decide

/-- An outline knows no statements. -/
theorem statement_of_outline (houtline : outline.rich = false) (self : Symbol → Production) :
    derive.statement outline self = derive.structures self := by
  rw [derive.statement, derive.structures, houtline]
  rfl

/-- Inside of braces statements are followed wherever structures are read alike. -/
theorem statement_follows_of_pairs (hrich : input.rich = true) (houtline : outline.rich = false)
    (hheight : 2 * n ≤ height) (hheight' : m ≤ height')
    (h : ∀ height, 2 * n ≤ height + 1 → Pairs (Sheet input) (fun _ => Fills false) n m
      (derive.structures (readWithin input starts height))
      (derive.structures (readWithin outline starts' height'))) :
    Follows (Sheet input) (fun _ => Fills true) n m
      (derive.statement input (readWithin input starts height))
      (derive.statement outline (readWithin outline starts' height')) := by
  have hgood := Sheet.streams input
  rw [statement_of_outline houtline]
  by_cases hzero : n = 0 ∨ m = 0
  · exact (Pairs.vacuous hzero).follows hgood
  · obtain ⟨height, rfl⟩ : ∃ k, height = k + 1 := ⟨height - 1, by omega⟩
    obtain ⟨height', rfl⟩ : ∃ k, height' = k + 1 := ⟨height' - 1, by omega⟩
    exact statement_follows hrich (reader_structures starts' height')
      ((h height (by omega)).follows hgood) ((h (height + 1) (by omega)).follows hgood)

/-- Structures are read alike, whatever their heights, as long as these suffice for the
tokens ahead. -/
theorem structures_pairs (hrich : input.rich = true) (houtline : outline.rich = false)
    (hstop : outline.stop = input.stop) (hheight : 2 * n ≤ height + 1) (hheight' : m ≤ height')
    (hn : n ≤ input.bound) (hm : m ≤ outline.bound) :
    Pairs (Sheet input) (fun _ => Fills false) n m
      (derive.structures (readWithin input starts height))
      (derive.structures (readWithin outline starts' height')) := by
  have hgood := Sheet.streams input
  induction n generalizing m height height' with
  | zero => exact Pairs.vacuous (Or.inl rfl)
  | succ n ih =>
      cases m with
      | zero => exact Pairs.vacuous (Or.inr rfl)
      | succ m =>
          obtain ⟨height, rfl⟩ : ∃ k, height = k + 1 := ⟨height - 1, by omega⟩
          obtain ⟨height', rfl⟩ : ∃ k, height' = k + 1 := ⟨height' - 1, by omega⟩
          have hlower (height : Nat) (hheight : 2 * n ≤ height + 1) :
              Pairs (Sheet input) (fun _ => Fills false) n m
                (derive.structures (readWithin input starts height))
                (derive.structures (readWithin outline starts' height')) :=
            ih hheight (by omega) (by omega) (by omega)
          have hstatements := statement_follows_of_pairs hrich houtline
            (show 2 * n ≤ height by omega) (show m ≤ height' by omega) hlower
          have hgroups := (hlower height (by omega)).follows hgood
          have hgroup {g : Group} (hopener : g.opener.isStructural = true)
              (hcloser : g.closer.isCloser = true) (hinfo : ∀ closed, isGroup (g.node closed) = true) :
              Pairs (Sheet input) (fun _ => Fills false) (n + 1) (m + 1)
                (g.read input (derive.structures (readWithin input starts height)))
                (g.read outline (derive.structures (readWithin outline starts' height'))) :=
            Group.pairs hgood (Fills.relates false) (fits_structures starts height).toMoves
              (fits_structures starts' height').toMoves hgroups hopener hcloser
              (fun hinner => .group (hinfo _) hinner .nil) hstop (by omega) (by omega)
          refine Pairs.choice fun symbol hsymbol => ?_
          simp only [Symbol.structures, List.mem_cons, List.not_mem_nil, or_false] at hsymbol
          rcases hsymbol with rfl | rfl | rfl | rfl
          · refine comment_pairs hgood (.comment .nil) fun {_ t _ rest} hsheet ht => ?_
            have hforeign := hsheet.noForeign t (by simp)
            rw [ht] at hforeign
            exact absurd hforeign (by decide)
          · exact Group.pairs (g := .block) hgood (Fills.relates true)
              (fits_statement starts height).toMoves (fits_statement starts' height').toMoves
              hstatements rfl rfl (fun hinner => .block hinner .nil) hstop (by omega) (by omega)
          · exact hgroup rfl rfl fun _ => rfl
          · exact hgroup rfl rfl fun _ => rfl

/-! ### Parses -/

theorem parse_fills (hrich : input.rich = true) (houtline : outline.rich = false)
    (hstart : outline.start = input.start) (hstop : outline.stop = input.stop)
    (hmirrors : input.cursor.Mirrors (Sheet input) outline.cursor) :
    ∃ xs ys, (grammar.parse input).tree = .container input.start input.stop .document xs
      ∧ (grammar.parse outline).tree = .container input.start input.stop .document ys
      ∧ Fills true xs ys ∧ (grammar.parse outline).faults = (grammar.parse input).faults := by
  have hgood := Sheet.streams input
  have hbound : outline.bound ≤ 3 * outline.bound := by
    unfold Input.bound
    omega
  have hbound' : 2 * input.bound ≤ 3 * input.bound := by
    unfold Input.bound
    omega
  have hpairs (height : Nat) (hheight : 2 * input.bound ≤ height + 1) :
      Pairs (Sheet input) (fun _ => Fills false) input.bound outline.bound
        (derive.structures (readWithin input (ruleStarts input.tokens).toArray height))
        (derive.structures (readWithin outline (ruleStarts outline.tokens).toArray
          (3 * outline.bound))) :=
    structures_pairs hrich houtline hstop hheight hbound (Nat.le_refl _) (Nat.le_refl _)
  have hfollows := statement_follows_of_pairs hrich houtline hbound' hbound hpairs
  exact hfollows.parse hgood (Fills.relates true) (fits_statement _ _).toMoves
    (fits_statement _ _).toMoves (parse_eq input) (parse_eq outline) hstart hstop hmirrors

end SourceView.Stylesheet

namespace SourceView

open Parsing

/-- **The outline of a stylesheet fills in its full tree**, where the addresses in it are plain,
and the same is found wrong with it. -/
theorem Language.outline_fills (config : Config) (source : List Char)
    (hplain : ∀ t ∈ (Stylesheet.lex .rich 0 source).tokens, Stylesheet.isPlainText t = true) :
    let full := stylesheet.pass config .rich source
    let outline := stylesheet.pass config .structural source
    ∃ xs ys, full.parse.tree = .container 0 source.length .document xs
      ∧ outline.parse.tree = .container 0 source.length .document ys
      ∧ Node.Row 0 source.length xs ∧ Stylesheet.Fills true xs ys
      ∧ outline.parse.faults = full.parse.faults ∧ outline.lexing.faults = full.lexing.faults := by
  intro full outline
  let input : Input :=
    { tokens := (stylesheet.lex .rich config.embeddedLanguages source 0 none).tokens, source
      detail := .rich, config, start := 0, stop := source.length }
  let bare : Input :=
    { tokens := (stylesheet.lex .structural config.embeddedLanguages source 0 none).tokens, source
      detail := .structural, config, start := 0, stop := source.length }
  obtain ⟨htokens, hfaults⟩ := Stylesheet.lex_agrees 0 source hplain
  have hforeign := Stylesheet.lex_noForeign 0 source
  rw [← lex_stylesheet_whole .rich config.embeddedLanguages] at htokens hfaults hforeign
  rw [← lex_stylesheet_whole .structural config.embeddedLanguages] at htokens hfaults
  have hsnug : input.Snug := stylesheet.snug_of_rich config source
  have hmirrors : input.cursor.Mirrors (Stylesheet.Sheet input) bare.cursor :=
    ⟨htokens, ⟨hsnug.ordered, hsnug, hforeign⟩, rfl, rfl⟩
  obtain ⟨xs, ys, hfull, houtline, hfills, hparse⟩ :=
    Stylesheet.parse_fills (show input.rich = true from rfl) (show bare.rich = false from rfl)
      rfl rfl hmirrors
  obtain ⟨nodes, htree, hrow⟩ := Stylesheet.parse_nests hsnug
  have hsame : nodes = xs := by
    have hboth := htree.symm.trans hfull
    simp only [Node.container.injEq, true_and] at hboth
    exact hboth
  exact ⟨xs, ys, hfull, houtline, hsame ▸ hrow, hfills, hparse, hfaults.symm⟩

/-- **What is found wrong with a stylesheet does not depend on the depth of the parse.**  A parse
of nesting alone, of just those tokens of a rich run that bound something, notes the same
faults in the same order as the full parse of the run, under any settings. -/
theorem Language.stylesheet_faults_at_both_depths (config config' : Config) (source : List Char) :
    let tokens := (stylesheet.lex .rich config.embeddedLanguages source 0 none).tokens
    let full : Input :=
      { tokens, source, detail := .rich, config, start := 0, stop := source.length }
    let outline : Input :=
      { tokens := tokens.filter (·.kind.isStructural), source, detail := .structural
        config := config', start := 0, stop := source.length }
    (stylesheet.grammar.parse outline).faults = (stylesheet.grammar.parse full).faults := by
  intro tokens full outline
  have hsnug : full.Snug := stylesheet.snug_of_rich config source
  have hforeign := Stylesheet.lex_noForeign 0 source
  rw [← lex_stylesheet_whole .rich config.embeddedLanguages] at hforeign
  have hsheet : Stylesheet.Sheet full full.cursor.behind full.cursor.ahead :=
    ⟨hsnug.ordered, hsnug, hforeign⟩
  have hmirrors : full.cursor.Mirrors (Stylesheet.Sheet full) outline.cursor :=
    ⟨rfl, hsheet, rfl, rfl⟩
  obtain ⟨-, -, -, -, -, hfaults⟩ :=
    Stylesheet.parse_fills (show full.rich = true from rfl) (show outline.rich = false from rfl)
      rfl rfl hmirrors
  exact hfaults

end SourceView
