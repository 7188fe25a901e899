/-
The trees of the three grammars nest.

Each rule puts its node where `Proofs/Parsing/Placement.lean` says a production does, so the
symbols of a grammar do, at every height; and the tree of a parse is a document over the
whole range, with the row of nodes that its loop found.  The body of a raw-text element is a
parse of its own over just the span of its token, and its row becomes that of the body.
-/
import SourceView.Analysis
import SourceView.Proofs.Lexing.Coverage
import SourceView.Proofs.Parsing.Grammars
import SourceView.Proofs.Parsing.Placement

namespace SourceView

open Node (Row)
open Parsing Parsing.Cursor

/-! ### Stylesheets -/

namespace Stylesheet

variable {input : Input}

/-- The children of a head are a row up to where its last token ends.  `before` stands for
that end while the head is empty. -/
theorem headLoop_row {item : Production} (hitem : Fits input item) (before : Int)
    (stop : Option Int) (turns : Nat) {c : Cursor} (hc : c.Ordered input)
    (hstop : stop.getD before ≤ c.unclosedEnd input) :
    let head := headLoop item stop turns c
    head.stop.getD before ≤ head.cursor.unclosedEnd input
      ∧ (c.Snug input → Row (stop.getD before) (head.stop.getD before) head.children) := by
  have hrun := headRun item turns stop c
  generalize headLoop item stop turns c = head at hrun
  dsimp only
  induction hrun with
  | spent => exact ⟨hstop, fun _ => Int.le_refl _⟩
  | @ended _ _ c =>
      exact ⟨Int.le_trans hstop (hc.unclosedEnd_le (leads_skipTrivia c).passes),
        fun _ => Int.le_refl _⟩
  | @stopped _ _ c =>
      exact ⟨Int.le_trans hstop (hc.unclosedEnd_le (leads_skipTrivia c).passes),
        fun _ => Int.le_refl _⟩
  | @node _ _ c _ _ _ _ _ _ _ _ hnode _ ih =>
      have hskip := (leads_skipTrivia c).passes
      have hc' := hc.passes hskip
      have hpass := (hitem.steps hnode).leads.passes
      have hread := hitem.reads hc' hnode
      obtain ⟨hend, hrow⟩ := ih (hc'.passes hpass) hread.stop
      refine ⟨hend, fun hsnug => ?_⟩
      have hsnug' := hsnug.passes hskip
      refine ⟨?_, hread.nested hsnug', hrow (hsnug'.passes hpass)⟩
      rw [hread.start]
      exact Int.le_trans hstop (hc.unclosedEnd_le hskip)
  | @piece _ _ c _ _ _ hahead _ _ _ ih =>
      have hskip := (leads_skipTrivia c).passes
      have hc' := hc.passes hskip
      have hle := Int.le_trans hstop (hc.unclosedEnd_le hskip)
      rw [unclosedEnd_cons hahead] at hle
      obtain ⟨hend, hrow⟩ := ih hc'.advance (hc'.stop_le hahead)
      refine ⟨hend, fun hsnug => ?_⟩
      exact (hrow (hsnug.passes (hskip.trans (leads_advance _).passes))).of_le
        (Int.le_trans hle (hc'.span hahead))

theorem valueLoop_stop {item : Production} (hitem : Fits input item) {turns : Nat}
    {v w : Value} (h : valueLoop item turns v = .ok w) (hv : v.cursor.Ordered input)
    (hstop : v.stop ≤ v.cursor.unclosedEnd input) :
    w.stop ≤ w.cursor.unclosedEnd input ∧ (v.cursor.Snug input → v.stop ≤ w.stop) := by
  have hrun := valueRun item turns v
  rw [h] at hrun
  clear h
  generalize hfound : Except.ok w = found at hrun
  -- What is passed as one token ends with that.
  have hpassed {v u : Value} {t : Token} {rest : List Token} (hv : v.cursor.Ordered input)
      (hstop : v.stop ≤ v.cursor.unclosedEnd input)
      (hahead : v.cursor.skipTrivia.ahead = t :: rest)
      (hcursor : u.cursor = v.cursor.skipTrivia.advance) (hu : u.stop = t.stop)
      (ih : u.cursor.Ordered input → u.stop ≤ u.cursor.unclosedEnd input →
        w.stop ≤ w.cursor.unclosedEnd input ∧ (u.cursor.Snug input → u.stop ≤ w.stop)) :
      w.stop ≤ w.cursor.unclosedEnd input ∧ (v.cursor.Snug input → v.stop ≤ w.stop) := by
    have hskip := (leads_skipTrivia v.cursor).passes
    have hc := hv.passes hskip
    have hle := Int.le_trans hstop (hv.unclosedEnd_le hskip)
    rw [unclosedEnd_cons hahead] at hle
    have hspan := hc.span hahead
    have hmore := ih (hcursor ▸ hc.advance) (by rw [hcursor, hu]; exact hc.stop_le hahead)
    refine ⟨hmore.1, fun hsnug => ?_⟩
    have hfurther := hmore.2
      (hcursor ▸ hsnug.passes (hskip.trans (leads_advance _).passes))
    omega
  induction hrun with
  | spent =>
      cases hfound
      exact ⟨hstop, fun _ => Int.le_refl _⟩
  | @ended _ v | @closed _ v =>
      cases hfound
      exact ⟨Int.le_trans hstop (hv.unclosedEnd_le (leads_skipTrivia v.cursor).passes),
        fun _ => Int.le_refl _⟩
  | opened => cases hfound
  | @semicolon _ v t _ hahead =>
      cases hfound
      have hskip := (leads_skipTrivia v.cursor).passes
      have hc := hv.passes hskip
      have hle := Int.le_trans hstop (hv.unclosedEnd_le hskip)
      rw [unclosedEnd_cons hahead] at hle
      exact ⟨hc.stop_le hahead, fun _ => Int.le_trans hle (hc.span hahead)⟩
  | important hahead _ _ _ ih =>
      exact hpassed hv hstop hahead rfl rfl fun hv hstop => ih hv hstop hfound
  | @group _ v t _ node d _ hahead _ _ _ hnode _ ih =>
      have hskip := (leads_skipTrivia v.cursor).passes
      have hc := hv.passes hskip
      have hle := Int.le_trans hstop (hv.unclosedEnd_le hskip)
      have hpass := (hitem.steps hnode).leads.passes
      have hread := hitem.reads hc hnode
      have hmore := ih (hc.passes hpass) hread.stop hfound
      refine ⟨hmore.1, fun hsnug => ?_⟩
      have hsnug' := hsnug.passes hskip
      have hfurther : node.stop ≤ w.stop := hmore.2 (hsnug'.passes hpass)
      have hnested := (hread.nested hsnug').le
      rw [hread.start] at hnested
      omega
  | piece hahead _ _ _ _ ih =>
      exact hpassed hv hstop hahead rfl rfl fun hv hstop => ih hv hstop hfound

theorem fits_rule (starts : Array Bool) {item block : Production} (hitem : Fits input item)
    (hblock : Fits input block) : Fits input (rule input starts item block) := by
  refine { moves_rule input starts hitem.toMoves hblock.toMoves with reads := ?_ }
  intro c node d hc h
  cases rule_eq_some.mp h with
  | @mk first _ stop start _ _ _ _ hahead _ hstop hbody =>
      have hstart : c.unclosedEnd input = first.start := unclosedEnd_cons hahead
      have hhead := leads_headLoop hitem.toMoves none input.bound c
      have hpass := (hhead.trans (leads_skipTrivia _)).passes
      obtain ⟨hend, hrow⟩ := headLoop_row hitem first.start none input.bound hc
        (Int.le_of_eq hstart.symm)
      rw [hstop] at hend hrow
      have hread := hblock.reads (hc.passes hpass) hbody
      have hgap := (hc.passes hhead.passes).unclosedEnd_le (leads_skipTrivia _).passes
      have hfrom : start = _ := hread.start
      refine ⟨hstart.symm, hread.stop, fun hsnug => ?_⟩
      refine (hrow hsnug).append (Row.single ?_ (hread.nested (hsnug.passes hpass))
        (Int.le_refl _))
      show stop ≤ start
      rw [hfrom]
      exact Int.le_trans hend hgap

theorem fits_atRule {item block : Production} (hitem : Fits input item)
    (hblock : Fits input block) : Fits input (atRule input item block) := by
  refine { moves_atRule input hitem.toMoves hblock.toMoves with reads := ?_ }
  intro c node d hc h
  obtain ⟨keyword, after, hkeyword⟩ : ∃ keyword after, atKeyword? input c = some (keyword, after) := by
    cases atRuleRead h <;> exact ⟨_, _, ‹_›⟩
  obtain ⟨-, -, rfl, hahead⟩ := accept?_eq_some (atKeyword?_eq_some.mp hkeyword).2
  have hstart : c.unclosedEnd input = keyword.start := unclosedEnd_cons hahead
  have hloop := (leads_headLoop hitem.toMoves none input.bound c.advance).passes
  have hskip := (leads_skipTrivia (headLoop item none input.bound c.advance).cursor).passes
  have hpass := (leads_advance c).passes.trans hloop
  have hafter := hc.passes (hpass.trans hskip)
  have hgap := (hc.passes hpass).unclosedEnd_le hskip
  obtain ⟨hend, hrow⟩ := headLoop_row hitem keyword.stop none input.bound hc.advance
    (hc.stop_le hahead)
  have hchildren (hsnug : c.Snug input) :
      Row keyword.start ((headLoop item none input.bound c.advance).stop.getD keyword.stop)
        (headLoop item none input.bound c.advance).children :=
    (hrow (hsnug.passes (leads_advance c).passes)).of_le (hc.span hahead)
  cases atRuleRead h with
  | semicolon hkeyword' hsemicolon =>
      cases hkeyword.symm.trans hkeyword'
      obtain ⟨-, -, rfl, hsemicolon'⟩ := accept?_eq_some hsemicolon
      refine ⟨hstart.symm, hafter.stop_le hsemicolon', fun hsnug => (hchildren hsnug).to_le ?_⟩
      have hlast := hafter.span hsemicolon'
      rw [unclosedEnd_cons hsemicolon'] at hgap
      omega
  | @block _ _ _ start _ _ _ hkeyword' hbody =>
      cases hkeyword.symm.trans hkeyword'
      have hread := hblock.reads hafter hbody
      have hfrom : start = _ := hread.start
      refine ⟨hstart.symm, hread.stop, fun hsnug => ?_⟩
      refine (hchildren hsnug).append (Row.single ?_
        (hread.nested (hsnug.passes (hpass.trans hskip))) (Int.le_refl _))
      show _ ≤ start
      omega
  | bare hkeyword' =>
      cases hkeyword.symm.trans hkeyword'
      exact ⟨hstart.symm, Int.le_trans hend hgap, hchildren⟩

theorem fits_declaration {item : Production} (hitem : Fits input item) :
    Fits input (declaration input item) := by
  refine { moves_declaration input hitem.toMoves with reads := ?_ }
  intro c node d hc h
  cases declarationRead h with
  | @mk property _ start value hahead hstart' hvalue =>
      have hstart : c.unclosedEnd input = property.start := unclosedEnd_cons hahead
      have hpass := (steps_declarationStart hstart').leads.passes
      obtain ⟨-, -, -, colon, e, hcolon, rfl⟩ := declarationStart_eq_ok.mp hstart'
      have he := hc.passes hpass
      obtain ⟨hstop, hle⟩ := valueLoop_stop hitem hvalue he he.previousEnd_le_unclosedEnd
      refine ⟨hstart.symm, hstop, fun hsnug => ?_⟩
      have hfurther := hle (hsnug.passes hpass)
      have hbefore := hc.previousEnd_le hpass
      rw [hsnug.previousEnd_eq_unclosedEnd, hstart] at hbefore
      exact Int.le_trans hbefore hfurther

theorem fits_derive (starts : Array Bool) {self : Symbol → Production}
    (hself : ∀ s, s ≠ .document → Fits input (self s)) :
    Fits input (derive.statement input self)
      ∧ ∀ s, s ≠ .document → Fits input (derive input starts self s) := by
  have hstructures : Fits input (derive.structures self) := by
    refine Fits.choice_map fun t ht => hself t ?_
    rintro rfl
    simp [Symbol.structures] at ht
  have hstatement : Fits input (derive.statement input self) := by
    refine Fits.choice_map fun t ht => hself t ?_
    rintro rfl
    by_cases hrich : input.rich = true <;>
      simp [hrich, Symbol.structures, Symbol.statements] at ht
  refine ⟨hstatement, fun s hs => ?_⟩
  cases s with
  | document => exact absurd rfl hs
  | comment => exact fits_comment
  | block => exact Group.block.fits_read hstatement
  | parentheses => exact Group.parentheses.fits_read hstructures
  | brackets => exact Group.brackets.fits_read hstructures
  | rule => exact fits_rule starts hstructures (hself .block (by simp))
  | atRule => exact fits_atRule hstructures (hself .block (by simp))
  | declaration => exact fits_declaration hstructures

theorem fits_readWithin (starts : Array Bool) (height : Nat) (s : Symbol) (hs : s ≠ .document) :
    Fits input (readWithin input starts height s) := by
  induction height generalizing s with
  | zero => exact fits_nothing
  | succ height ih => exact (fits_derive starts ih).2 s hs

end Stylesheet

/-! ### Scripts -/

namespace Script

variable {input : Input}

/-- Where what a template holds ends: with its backtick, or where the cursor stands. -/
def TemplateRead.finish (input : Input) (r : TemplateRead) : Int :=
  r.stop.getD (r.cursor.unclosedEnd input)

theorem templateLoop_rows {item : Production} (hitem : Fits input item) (turns : Nat)
    {c : Cursor} (hc : c.Ordered input) :
    let read := templateLoop input item turns c
    read.finish input ≤ read.cursor.unclosedEnd input
      ∧ Rows input c (read.finish input) read.children := by
  have hrun := templateRun input item turns c
  generalize templateLoop input item turns c = read at hrun
  have hpass (t : Token) (c : Cursor) :
      c.Passes ((interpolation input item t c).cursor.closeTo c.advance) :=
    ((leads_advance c).trans (leads_interpolation input hitem.toMoves t c)).passes
  have hinner (t : Token) {c : Cursor} (hc : c.Ordered input) :
      (interpolation input item t c).stop input
          ≤ ((interpolation input item t c).cursor.closeTo c.advance).unclosedEnd input
        ∧ Rows input c ((interpolation input item t c).stop input)
          (interpolation input item t c).nodes := by
    obtain ⟨hstop, hrow⟩ := itemsLoop_rows hitem (some .templateExprClose) input.bound
      (hc.advance.passes (passes_push _ { closer := .templateExprClose, start := t.start }))
    exact ⟨hstop, hrow.of_passes hc ((leads_advance c).passes.trans (passes_push _ _))⟩
  dsimp only
  induction hrun with
  | spent | exhausted | stopped => exact ⟨Int.le_refl _, Rows.nil (Int.le_refl _)⟩
  | ended hahead =>
      refine ⟨hc.stop_le hahead, Rows.nil ?_⟩
      rw [unclosedEnd_cons hahead]
      exact hc.span hahead
  | @unclosed _ c t _ _ _ hcloser =>
      obtain ⟨-, hrow⟩ := hinner t hc
      simp only [Items.stop, hcloser] at hrow
      exact ⟨Int.le_refl _, hrow⟩
  | @closed _ c t _ _ _ _ _ hcloser _ ih =>
      obtain ⟨hstop, hrow⟩ := hinner t hc
      obtain ⟨hfinish, hmore⟩ := ih (hc.passes (hpass t c))
      exact ⟨hfinish, Rows.append (hpass t c) (fun hsnug => (hrow hsnug).to_le hstop) hmore⟩
  | @filler _ c _ _ _ _ _ _ _ ih =>
      obtain ⟨hfinish, hmore⟩ := ih hc.advance
      exact ⟨hfinish, hmore.of_passes hc (leads_advance c).passes⟩

theorem fits_template {item : Production} (hitem : Fits input item) :
    Fits input (template input item) := by
  refine { moves_template input hitem.toMoves with reads := ?_ }
  intro c node d hc h
  obtain ⟨opener, rest, hahead, -, hread⟩ := literalRead h
  have hstart : c.unclosedEnd input = opener.start := unclosedEnd_cons hahead
  obtain ⟨hstop, hrow⟩ := templateLoop_rows hitem input.bound
    (hc.advance.passes (passes_push _ { closer := .templateEnd, start := opener.start }))
  cases hread with
  | skipped =>
      obtain ⟨hbegin, hstop⟩ := skipBalanced_stop opener .templateEnd hc.advance
      rw [previousEnd_advance hahead] at hbegin
      have hspan := hc.span hahead
      exact ⟨hstart.symm, hstop, fun _ => Int.le_trans hspan hbegin⟩
  | closed _ hread hend | unclosed _ hread hend =>
      rw [hread, TemplateRead.finish, hend] at hstop hrow
      exact ⟨hstart.symm, hstop, hrow.nested_container hc hahead (passes_push _ _) _⟩

theorem Progress.after_stop (p : Progress) (node : Node) : (p.after node).stop = node.stop := by
  unfold Progress.after
  split
  · split <;> rfl
  · rfl
  · rfl

/-- The structures in a statement are a row from where it has got to up to its end. -/
theorem statementLoop_row {item : Production} (hitem : Fits input item) (turns : Nat)
    {p : Progress} {c : Cursor} (hc : c.Ordered input) (hp : p.stop ≤ c.unclosedEnd input) :
    let rest := statementLoop item turns p c
    rest.stop ≤ rest.cursor.unclosedEnd input
      ∧ (c.Snug input → Row p.stop rest.stop rest.children) := by
  have hrun := statementRun item turns p c
  generalize statementLoop item turns p c = found at hrun
  dsimp only
  induction hrun with
  | spent => exact ⟨hp, fun _ => Int.le_refl _⟩
  | @exhausted _ _ c | @ended _ _ c =>
      exact ⟨Int.le_trans hp (hc.unclosedEnd_le (leads_skipTrivia c).passes),
        fun _ => Int.le_refl _⟩
  | @semicolon _ _ c _ _ hahead =>
      have hskip := (leads_skipTrivia c).passes
      have hc' := hc.passes hskip
      have hle := Int.le_trans hp (hc.unclosedEnd_le hskip)
      rw [unclosedEnd_cons hahead] at hle
      exact ⟨hc'.stop_le hahead, fun _ => Int.le_trans hle (hc'.span hahead)⟩
  | @node _ p c _ _ _ node _ _ _ _ hnode _ ih =>
      have hskip := (leads_skipTrivia c).passes
      have hc' := hc.passes hskip
      have hpass := (hitem.steps hnode).leads.passes
      have hread := hitem.reads hc' hnode
      rw [Progress.after_stop] at ih
      obtain ⟨hend, hrow⟩ := ih (hc'.passes hpass) hread.stop
      refine ⟨hend, fun hsnug => ?_⟩
      have hsnug' := hsnug.passes hskip
      refine ⟨?_, hread.nested hsnug', hrow (hsnug'.passes hpass)⟩
      rw [hread.start]
      exact Int.le_trans hp (hc.unclosedEnd_le hskip)
  | @piece _ _ c _ _ _ hahead _ _ _ _ ih =>
      have hskip := (leads_skipTrivia c).passes
      have hc' := hc.passes hskip
      have hle := Int.le_trans hp (hc.unclosedEnd_le hskip)
      rw [unclosedEnd_cons hahead] at hle
      obtain ⟨hend, hrow⟩ := ih hc'.advance (hc'.stop_le hahead)
      refine ⟨hend, fun hsnug => ?_⟩
      exact (hrow (hsnug.passes (hskip.trans (leads_advance _).passes))).of_le
        (Int.le_trans hle (hc'.span hahead))

theorem statementRest_row {item : Production} (hitem : Fits input item)
    (complete control : Bool) {c : Cursor} (hc : c.Ordered input) :
    let rest := statementRest input item complete control c
    rest.stop ≤ rest.cursor.unclosedEnd input
      ∧ (c.Snug input → Row (c.previousEnd input) rest.stop rest.children) :=
  statementLoop_row (p := ⟨_, complete, control⟩) hitem input.bound hc
    hc.previousEnd_le_unclosedEnd

theorem fits_variableDeclaration {item : Production} (hitem : Fits input item) :
    Fits input (variableDeclaration input item) := by
  refine { moves_variableDeclaration input hitem.toMoves with reads := ?_ }
  intro c node d hc h
  obtain ⟨hhead⟩ := variableRead h
  obtain ⟨-, keyword, after, hkeyword, rfl⟩ := variableHead?_eq_some.mp hhead
  obtain ⟨-, -, rfl, hahead⟩ := accept?_eq_some hkeyword
  have hstart : c.unclosedEnd input = keyword.start := unclosedEnd_cons hahead
  have hspan := hc.span hahead
  have hname := ((leads_skipTrivia c.advance).trans
    (leads_skip _ .identifier fun _ => true)).passes
  have hpass := (leads_advance c).passes.trans hname
  have hafter := hc.passes hpass
  obtain ⟨hend, hrow⟩ := statementRest_row hitem _ false hafter
  refine ⟨hstart.symm, hend, fun hsnug => (hrow (hsnug.passes hpass)).of_le ?_⟩
  have hle := hc.advance.previousEnd_le hname
  rw [previousEnd_advance hahead] at hle
  exact Int.le_trans hspan hle

theorem fits_statement {item : Production} (hitem : Fits input item) :
    Fits input (statement input item) := by
  refine { moves_statement input hitem.toMoves with reads := ?_ }
  intro c node d hc h
  cases statementRead h with
  | @mk first hfirst =>
      obtain ⟨rest, hahead⟩ := ahead_of_peek? (statementStart?_eq_some.mp hfirst).1
      have hstart : c.unclosedEnd input = first.start := unclosedEnd_cons hahead
      obtain ⟨hend, hrow⟩ := statementRest_row hitem false (isControl first) hc
      refine ⟨hstart.symm, hend, fun hsnug => (hrow hsnug).of_le ?_⟩
      rw [← hstart]
      exact Int.le_of_eq hsnug.previousEnd_eq_unclosedEnd.symm

/-- Productions one after another read a row, up to where the last one ends.  `before`
stands for that end while there is none. -/
theorem sequence?_row {ps : List Production} (hps : ∀ p ∈ ps, Fits input p) {before : Int}
    {c d : Cursor} {nodes : List Node} (hc : c.Ordered input)
    (hbefore : before ≤ c.unclosedEnd input) (h : sequence? ps c = some (nodes, d)) :
    nodes.getLast?.elim before Node.stop ≤ d.unclosedEnd input
      ∧ (c.Snug input → Row before (nodes.getLast?.elim before Node.stop) nodes) := by
  induction ps generalizing before c nodes with
  | nil =>
      simp only [sequence?, Option.some.injEq, Prod.mk.injEq] at h
      obtain ⟨rfl, rfl⟩ := h
      exact ⟨hbefore, fun _ => Int.le_refl _⟩
  | cons p ps ih =>
      have hskip := (leads_skipTrivia c).passes
      unfold sequence? at h
      cases hp : p c.skipTrivia with
      | none => simp [hp] at h
      | some found =>
          obtain ⟨node, c'⟩ := found
          simp only [hp, Option.map_eq_some_iff, Prod.mk.injEq] at h
          obtain ⟨⟨others, e⟩, hothers, rfl, rfl⟩ := h
          have hfits := hps p (by simp)
          have hc' := hc.passes hskip
          have hpass := (hfits.steps hp).leads.passes
          have hread := hfits.reads hc' hp
          obtain ⟨hend, hrow⟩ := ih (fun q hq => hps q (by simp [hq])) (hc'.passes hpass)
            hread.stop hothers
          have hlast : (node :: others).getLast?.elim before Node.stop
              = others.getLast?.elim node.stop Node.stop := by
            rw [List.getLast?_cons]
            cases others.getLast? <;> rfl
          rw [hlast]
          refine ⟨hend, fun hsnug => ?_⟩
          have hsnug' := hsnug.passes hskip
          refine ⟨?_, hread.nested hsnug', hrow (hsnug'.passes hpass)⟩
          rw [hread.start]
          exact Int.le_trans hbefore (hc.unclosedEnd_le hskip)

theorem fits_functionDeclaration {parentheses block : Production}
    (hparentheses : Fits input parentheses) (hblock : Fits input block) :
    Fits input (functionDeclaration input parentheses block) := by
  refine { moves_functionDeclaration input hparentheses.toMoves hblock.toMoves with reads := ?_ }
  intro c node d hc h
  obtain ⟨hhead, hparts⟩ := functionRead h
  obtain ⟨⟨first, rest, hahead, hfirst⟩, hsteps, -⟩ := functionHead_eq_ok hhead
  have hstart : c.unclosedEnd input = first.start := unclosedEnd_cons hahead
  have hpass := hsteps.leads.passes
  have hle := hc.unclosedEnd_le hpass
  rw [hstart, ← hfirst] at hle
  have hfits : ∀ p ∈ [parentheses, block], Fits input p := by
    intro p hp
    rcases List.mem_cons.mp hp with rfl | hp
    · exact hparentheses
    · exact List.mem_singleton.mp hp ▸ hblock
  obtain ⟨hend, hrow⟩ := sequence?_row hfits (hc.passes hpass) hle hparts
  exact ⟨hfirst.trans hstart.symm, hend, fun hsnug => hrow (hsnug.passes hpass)⟩

theorem fits_derive {self : Symbol → Production}
    (hself : ∀ s, s ≠ .document → Fits input (self s)) :
    Fits input (derive.statements input self)
      ∧ ∀ s, s ≠ .document → Fits input (derive input self s) := by
  have hstructures : Fits input (derive.structures self) := by
    refine Fits.choice_map fun t ht => hself t ?_
    rintro rfl
    simp [Symbol.structures] at ht
  have hstatements : Fits input (derive.statements input self) := by
    refine Fits.choice_map fun t ht => hself t ?_
    rintro rfl
    by_cases hrich : input.rich = true <;>
      simp [hrich, Symbol.structures, Symbol.statements] at ht
  have hchildren : Fits input (choice (Symbol.children.map self)) := by
    refine Fits.choice_map fun t ht => hself t ?_
    rintro rfl
    simp [Symbol.children] at ht
  have hexpression : Fits input (choice [self .block]) := by
    refine Fits.choice ?_
    intro p hp
    exact List.mem_singleton.mp hp ▸ hself .block (by simp)
  refine ⟨hstatements, fun s hs => ?_⟩
  cases s with
  | document => exact absurd rfl hs
  | comment => exact fits_comment
  | block => exact Group.block.fits_read hstatements
  | parentheses => exact Group.parentheses.fits_read hstructures
  | brackets => exact Group.brackets.fits_read hstructures
  | template => exact fits_template hstructures
  | element => exact fits_element Dialect.script hchildren hexpression
  | text => exact fits_text
  | functionDeclaration =>
      exact fits_functionDeclaration (hself .parentheses (by simp)) (hself .block (by simp))
  | variableDeclaration => exact fits_variableDeclaration hstructures
  | statement => exact fits_statement hstructures

theorem fits_readWithin (height : Nat) (s : Symbol) (hs : s ≠ .document) :
    Fits input (readWithin input height s) := by
  induction height generalizing s with
  | zero => exact fits_nothing
  | succ height ih => exact (fits_derive ih).2 s hs

end Script

/-! ### Parses -/

/-- The tokens of an input lie side by side over its range, and so do those of the regions
that they stand for. -/
abbrev Parsing.Input.Snug (input : Input) : Prop :=
  input.cursor.Snug input

theorem Parsing.Input.Snug.ordered {input : Input} (h : input.Snug) :
    input.cursor.Ordered input :=
  ⟨Token.Tile.inOrder h.tile, Nat.lt_succ_self _⟩

/-- The outcome of a parse nests: a document over the whole range, with a row of nodes. -/
def Parsing.Parse.Nests (p : Parse) (input : Input) : Prop :=
  ∃ nodes, p.tree = .container input.start input.stop .document nodes
    ∧ Row input.start input.stop nodes

theorem Parsing.Parse.Nests.of_items {input : Input} {g : Grammar Rule} {item : Production}
    (hparse : g.parse input = .ofItems g input (items input item none input.cursor))
    (hitem : Fits input item) (h : input.Snug) : (g.parse input).Nests input := by
  rw [hparse]
  exact ⟨_, rfl, document_row hitem h.ordered h⟩

theorem Stylesheet.parse_eq (input : Input) :
    grammar.parse input = .ofItems grammar input (items input (derive.statement input
      (readWithin input (ruleStarts input.tokens).toArray (3 * input.bound))) none
      input.cursor) := by
  refine Grammar.parse_of_document (fun input => read input .document) rfl ?_
  show read input .document = _
  rw [read]
  rfl

theorem Stylesheet.parse_nests {input : Input} (h : input.Snug) :
    (grammar.parse input).Nests input :=
  .of_items (parse_eq input)
    (fits_derive (ruleStarts input.tokens).toArray (fits_readWithin _ _)).1 h

theorem Script.parse_eq (input : Input) :
    grammar.parse input = .ofItems grammar input (items input (derive.statements input
      (readWithin input (3 * input.bound))) none input.cursor) := by
  refine Grammar.parse_of_document (fun input => read input .document) rfl ?_
  show read input .document = _
  rw [read]
  rfl

theorem Script.parse_nests {input : Input} (h : input.Snug) :
    (grammar.parse input).Nests input :=
  .of_items (parse_eq input) (fits_derive (fits_readWithin _)).1 h

/-! ### Markup -/

namespace Markup

variable {input : Input}

theorem embeddedGrammar?_nests {language : String} {g : Grammar Rule}
    (h : embeddedGrammar? language = some g) {input : Input} (hinput : input.Snug) :
    (g.parse input).Nests input := by
  unfold embeddedGrammar? at h
  split at h
  · exact Option.some.inj h ▸ Stylesheet.parse_nests hinput
  · exact Option.some.inj h ▸ Script.parse_nests hinput
  · exact absurd h (by simp)

theorem fits_rawText : Fits input (rawText input) := by
  refine { moves_rawText input with reads := ?_ }
  intro c node d hc h
  unfold rawText at h
  split at h
  · exact absurd h (by simp)
  · rename_i t c' ht
    obtain ⟨-, -, rfl, hahead⟩ := accept?_eq_some ht
    have hstart : c.unclosedEnd input = t.start := unclosedEnd_cons hahead
    have hstop := hc.stop_le hahead
    have hspan := hc.span hahead
    simp only at h
    split at h
    · simp only [Option.some.injEq, Prod.mk.injEq] at h
      obtain ⟨rfl, rfl⟩ := h
      exact ⟨hstart.symm, hstop, fun _ => hspan⟩
    rename_i hembedded
    split at h
    · simp only [Option.some.injEq, Prod.mk.injEq] at h
      obtain ⟨rfl, rfl⟩ := h
      exact ⟨hstart.symm, hstop, fun _ => hspan⟩
    · rename_i grammar hgrammar
      simp only [Option.some.injEq, Prod.mk.injEq] at h
      obtain ⟨rfl, rfl⟩ := h
      refine ⟨hstart.symm, hstop, fun hsnug => ?_⟩
      have ht := hsnug.regions t (by rw [hahead]; exact List.mem_cons_self)
      rw [List.isEmpty_iff] at hembedded
      obtain ⟨htile, hplain⟩ := ht.resolve_left hembedded
      have hinner : Input.Snug
          { input with tokens := t.embedded, start := t.start, stop := t.stop } :=
        ⟨htile, fun u hu => Or.inl (hplain u hu)⟩
      obtain ⟨nodes, htree, hrow⟩ := embeddedGrammar?_nests hgrammar hinner
      rw [htree]
      exact hrow

theorem fits_derive {self : Symbol → Production}
    (hself : ∀ s, s ≠ .document → Fits input (self s)) :
    Fits input (choice (Symbol.outer.map self))
      ∧ ∀ s, s ≠ .document → Fits input (derive input self s) := by
  have houter : Fits input (choice (Symbol.outer.map self)) := by
    refine Fits.choice_map fun t ht => hself t ?_
    rintro rfl
    simp [Symbol.outer] at ht
  have hchildren : Fits input (choice (Symbol.children.map self)) := by
    refine Fits.choice_map fun t ht => hself t ?_
    rintro rfl
    simp [Symbol.children] at ht
  refine ⟨houter, fun s hs => ?_⟩
  cases s with
  | document => exact absurd rfl hs
  | comment => exact fits_comment
  | element => exact fits_element Dialect.markup hchildren (Fits.choice (by simp))
  | text => exact fits_text
  | rawText => exact fits_rawText

theorem fits_readWithin (height : Nat) (s : Symbol) (hs : s ≠ .document) :
    Fits input (readWithin input height s) := by
  induction height generalizing s with
  | zero => exact fits_nothing
  | succ height ih => exact (fits_derive ih).2 s hs

theorem parse_eq (input : Input) :
    grammar.parse input = .ofItems grammar input (items input
      (choice (Symbol.outer.map (readWithin input (3 * input.bound)))) none input.cursor) := by
  refine Grammar.parse_of_document (fun input => read input .document) rfl ?_
  show read input .document = _
  rw [read]
  rfl

theorem parse_nests (h : input.Snug) : (grammar.parse input).Nests input :=
  .of_items (parse_eq input) (fits_derive (fits_readWithin _)).1 h

end Markup

/-! ### Full runs -/

theorem Language.parse_nests (language : Language) {input : Input} (h : input.Snug) :
    (language.grammar.parse input).Nests input := by
  cases language with
  | markup => exact Markup.parse_nests h
  | stylesheet => exact Stylesheet.parse_nests h
  | script => exact Script.parse_nests h

/-- The tokens of a rich run lie side by side, in the regions of raw text as well. -/
theorem Language.snug_of_rich (language : Language) (config : Config) (source : List Char) :
    Input.Snug
      { tokens := (language.lex .rich config.embeddedLanguages source 0 none).tokens
        source, detail := .rich, config, start := 0, stop := source.length } := by
  have hcovers := language.lex_covers .rich config.embeddedLanguages (Nat.zero_le _)
    (Nat.le_refl source.length)
  rw [← lex_none] at hcovers
  refine ⟨hcovers.laid, fun t ht => ?_⟩
  have hold := hcovers.holds t ht
  exact hold.laid.imp_right fun hlaid => ⟨hlaid, hold.plain⟩

/-- **The tree of a full analysis nests.**  Its root spans the source; no node ends before it
begins, whatever stands in a node lies in its span, and of two neighbours there the left one
ends before the right one begins. -/
theorem Language.analyze_nested (language : Language) (config : Config) (source : String) :
    let tree := (language.analyze config source).tree
    tree.start = 0 ∧ tree.stop = source.toList.length ∧ ∀ node ∈ tree.visited, node.Placed := by
  obtain ⟨nodes, htree, hrow⟩ :=
    language.parse_nests (language.snug_of_rich config source.toList)
  have hanalyze : (language.analyze config source).tree
      = .container 0 source.toList.length .document nodes := htree
  rw [hanalyze]
  exact ⟨rfl, rfl, Node.Nested.visited hrow⟩

end SourceView
