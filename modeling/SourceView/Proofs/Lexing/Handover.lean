/-
From one look to the next.

The offsets that a look gives are taken as they are: nothing in a run keeps two looks from
emitting the same characters twice, or from leaving some out.  What keeps them is said of each
look.  It *hands over* when the tokens that are kept of it lie one after another from its own
offset to the one at which the next look is due, side by side in a rich run.

If every look of a lexer hands over, its tokens lie one after another from the offset at which
the run begins to the end of the window.
-/
import SourceView.Proofs.Lexing.Looks

namespace SourceView

variable {σ : Type} {w : Window} {pos : Nat} {detail : Detail}

/-! ### How tokens follow one another -/

namespace Detail

/-- How the tokens of a run follow one another: side by side in a rich run, in order in a
structural one. -/
def gap : Detail → Int → Int → Prop
  | rich => (· = ·)
  | structural => (· ≤ ·)

theorem gap_refl (detail : Detail) (a : Int) : detail.gap a a := by
  cases detail with
  | rich => exact rfl
  | structural => exact Int.le_refl a

theorem gap_trans (detail : Detail) (a b c : Int) (hab : detail.gap a b) (hbc : detail.gap b c) :
    detail.gap a c := by
  cases detail with
  | rich => exact Eq.trans hab hbc
  | structural => exact Int.le_trans hab hbc

theorem inOrder_of_laid {detail : Detail} {lo hi : Int} {ts : List Token}
    (h : Token.Laid detail.gap lo hi ts) : Token.InOrder lo hi ts := by
  cases detail with
  | rich => exact Token.Tile.inOrder h
  | structural => exact h

/-- Of emissions that lie side by side, those that are kept follow one another as the detail
asks. -/
theorem laid_filter (detail : Detail) {lo hi : Int} {es : List Emission}
    (h : Token.Tile lo hi (es.map (·.token w))) :
    Token.Laid detail.gap lo hi ((es.filter (detail.keeps ·.kind)).map (·.token w)) := by
  cases detail with
  | rich =>
      have hall : es.filter (Detail.rich.keeps ·.kind) = es :=
        List.filter_eq_self.mpr fun _ _ => rfl
      rw [hall]
      exact h
  | structural => exact h.inOrder.sublist (List.filter_sublist.map _)

end Detail

/-! ### Looks -/

/-- A look at `pos` hands over to the look at `look.next`. -/
structure Look.HandsOver (detail : Detail) (w : Window) (pos : Nat) (look : Look σ) : Prop where
  laid : Token.Laid detail.gap pos look.next ((look.kept detail).map (·.token w))
  within : look.next ≤ w.stop

/-- Pieces in their places lie side by side. -/
theorem Lexeme.place_tile (ls : List Lexeme) (pos : Nat) :
    Token.Tile pos (pos + width ls : Nat) ((place pos ls).map (·.token w)) := by
  induction ls generalizing pos with
  | nil => exact rfl
  | cons l ls ih =>
      refine ⟨rfl, Int.ofNat_le.mpr (Nat.le_add_right _ _), ?_⟩
      rw [width, ← Nat.add_assoc]
      exact ih (pos + l.length)

namespace Look

variable {look : Look σ}

/-- A look that a scan tells hands over. -/
theorem Tells.handsOver {scan : Scan σ} (h : look.Tells detail w pos scan) :
    look.HandsOver detail w pos := by
  refine ⟨?_, h.within⟩
  rw [h.kept, h.next]
  exact detail.laid_filter (Lexeme.place_tile scan.lexemes pos)

theorem HandsOver.le (h : look.HandsOver detail w pos) : pos ≤ look.next :=
  Int.ofNat_le.mp (Detail.inOrder_of_laid h.laid).le

/-- With the unknown character of a look that has not moved on, the look still hands over. -/
theorem HandsOver.moved (h : look.HandsOver detail w pos) (hpos : pos < w.stop) :
    (look.moved pos).HandsOver detail w pos := by
  unfold Look.moved
  by_cases hstay : look.next = pos
  · have hunknown : Token.Tile pos (pos + 1 : Nat) ([Emission.unknown pos].map (·.token w)) :=
      ⟨rfl, Int.ofNat_le.mpr (Nat.le_succ pos), rfl⟩
    have hlaid := h.laid
    rw [hstay] at hlaid
    rw [if_pos hstay]
    refine ⟨?_, hpos⟩
    rw [Look.kept, List.filter_append, List.map_append]
    exact hlaid.append detail.gap_trans (detail.laid_filter hunknown)
  · rw [if_neg hstay]
    exact h

/-- Every look ends up further on. -/
theorem HandsOver.lt_moved (h : look.HandsOver detail w pos) : pos < (look.moved pos).next := by
  unfold Look.moved
  by_cases hstay : look.next = pos
  · rw [if_pos hstay]
    exact Nat.lt_succ_self pos
  · rw [if_neg hstay]
    exact Nat.lt_of_le_of_ne h.le (Ne.symm hstay)

end Look

/-! ### Runs -/

namespace Lexer

variable {lexer : Lexer σ}

/-- Every look of the lexer within the window hands over. -/
def HandsOver (lexer : Lexer σ) (detail : Detail) (w : Window) : Prop :=
  ∀ s pos, pos < w.stop → (lexer.look w s pos).HandsOver detail w pos

theorem runFrom_laid (h : lexer.HandsOver detail w) (left : Nat) (s : σ) (pos : Nat)
    (hleft : w.stop - pos ≤ left) (hpos : pos ≤ w.stop) :
    Token.Laid detail.gap pos w.stop (lexer.runFrom detail w left s pos).tokens := by
  have hend {pos : Nat} (hpos : pos ≤ w.stop) (hstop : w.stop ≤ pos) :
      Token.Laid detail.gap pos w.stop [] := by
    rw [Nat.le_antisymm hpos hstop]
    exact detail.gap_refl _
  induction left generalizing s pos with
  | zero => exact hend hpos (by omega)
  | succ left ih =>
      rw [runFrom]
      by_cases hlt : pos < w.stop
      · have hlook := h s pos hlt
        have hmoved := hlook.moved hlt
        have hfurther := hlook.lt_moved
        rw [if_pos hlt]
        exact hmoved.laid.append detail.gap_trans (ih _ _ (by omega) hmoved.within)
      · rw [if_neg hlt]
        exact hend hpos (Nat.le_of_not_lt hlt)

/-- **The tokens of a run follow one another from its offset to the end of the window**, if
every look hands over. -/
theorem run_laid (h : lexer.HandsOver detail w) (s : σ) {pos : Nat} (hpos : pos ≤ w.stop) :
    Token.Laid detail.gap pos w.stop (lexer.run detail w s pos).tokens :=
  runFrom_laid h _ s pos (Nat.le_refl _) hpos

/-- Turns that a run does not need make no difference. -/
theorem runFrom_congr (h : lexer.HandsOver detail w) {left left' : Nat} (s : σ) (pos : Nat)
    (hleft : w.stop - pos ≤ left) (hleft' : w.stop - pos ≤ left') :
    lexer.runFrom detail w left s pos = lexer.runFrom detail w left' s pos := by
  have hend {pos : Nat} (left : Nat) (s : σ) (hstop : w.stop ≤ pos) :
      lexer.runFrom detail w left s pos = ⟨[], lexer.finish s pos⟩ := by
    cases left with
    | zero => rfl
    | succ left => exact if_neg (Nat.not_lt.mpr hstop)
  induction left generalizing left' s pos with
  | zero => rw [hend 0 s (by omega), hend left' s (by omega)]
  | succ left ih =>
      by_cases hpos : pos < w.stop
      · obtain ⟨left', rfl⟩ := Nat.exists_eq_add_one_of_ne_zero (show left' ≠ 0 by omega)
        have hfurther := (h s pos hpos).lt_moved
        have hrest := @ih left' ((lexer.look w s pos).moved pos).state
          ((lexer.look w s pos).moved pos).next (by omega) (by omega)
        rw [runFrom, runFrom, if_pos hpos, if_pos hpos]
        dsimp only
        rw [hrest]
      · rw [hend _ s (Nat.le_of_not_lt hpos), hend _ s (Nat.le_of_not_lt hpos)]

/-- A run is a look, what is kept of it, and the run from the offset that the look hands over
at. -/
theorem run_of_lt (h : lexer.HandsOver detail w) (s : σ) (hpos : pos < w.stop) :
    lexer.run detail w s pos =
      let look := (lexer.look w s pos).moved pos
      let lexing := lexer.run detail w look.state look.next
      ⟨(look.kept detail).map (·.token w) ++ lexing.tokens, look.faults ++ lexing.faults⟩ := by
  obtain ⟨left, hleft⟩ := Nat.exists_eq_add_one_of_ne_zero (show w.stop - pos ≠ 0 by omega)
  have hfurther := (h s pos hpos).lt_moved
  have hrest := @runFrom_congr _ _ _ lexer h left _ ((lexer.look w s pos).moved pos).state
    ((lexer.look w s pos).moved pos).next (by omega) (Nat.le_refl _)
  rw [run, hleft, runFrom, if_pos hpos]
  dsimp only
  rw [hrest]
  rfl

/-- A run from the state `start` at `pos` comes to the look at `place`, in the state `state` and
with the tokens `before` behind it. -/
inductive Reaches (lexer : Lexer σ) (detail : Detail) (w : Window) (state : σ) (place : Nat) :
    (start : σ) → (pos : Nat) → (before : List Token) → Prop
  | here : Reaches lexer detail w state place state place []
  | later {start : σ} {pos : Nat} {before : List Token} (hpos : pos < w.stop)
      (h : Reaches lexer detail w state place ((lexer.look w start pos).moved pos).state
        ((lexer.look w start pos).moved pos).next before) :
      Reaches lexer detail w state place start pos
        ((((lexer.look w start pos).moved pos).kept detail).map (·.token w) ++ before)

/-- Behind the tokens so far stand those of the run from there. -/
theorem Reaches.tokens_eq (h : lexer.HandsOver detail w) {state start : σ} {place pos : Nat}
    {before : List Token} (hreaches : lexer.Reaches detail w state place start pos before) :
    (lexer.run detail w start pos).tokens
      = before ++ (lexer.run detail w state place).tokens := by
  induction hreaches with
  | here => rfl
  | later hpos _ ih =>
      rw [run_of_lt h _ hpos]
      dsimp only
      rw [ih, List.append_assoc]

end Lexer

end SourceView
