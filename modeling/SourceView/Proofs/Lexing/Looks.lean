/-
What a look at an offset does, told by a scan of the text ahead.

A scan *tells* a look when the look emits, side by side from its offset on, the pieces that the
scan names, when the next look is due where the last of them ends, and when that is within the
window.  So each rule of a lexer hands over where the next one starts, and each reads no further
than the window goes, for the scan knows nothing else.

If every look of a lexer is told by a scan, its run is the run over the text ahead.
-/
import SourceView.Proofs.Lexing.Run
import SourceView.Proofs.Lexing.Window

namespace SourceView

open Lexing

variable {σ : Type} {w : Window} {pos : Nat} {detail : Detail}

/-! ### Pieces in their places -/

namespace Lexeme

/-- What is emitted for a piece at an offset. -/
def emission (l : Lexeme) (pos : Nat) : Emission :=
  { kind := l.kind, start := pos, stop := pos + l.length, style := l.style, language := l.language
    embedded := l.embedded }

/-- What is emitted for pieces that lie side by side from an offset on. -/
def place (pos : Nat) : List Lexeme → List Emission
  | [] => []
  | l :: ls => l.emission pos :: place (pos + l.length) ls

theorem place_append (ls ms : List Lexeme) (pos : Nat) :
    place pos (ls ++ ms) = place pos ls ++ place (pos + width ls) ms := by
  induction ls generalizing pos with
  | nil => rfl
  | cons l ls ih => rw [List.cons_append, place, place, ih, width, List.cons_append, Nat.add_assoc]

/-- Within the window a piece spells the token that its emission does. -/
theorem token_emission {l : Lexeme} (h : l.length ≤ (w.ahead pos).length) :
    (l.emission pos).token w = l.token pos (w.ahead pos) := by
  have hlen : ((w.ahead pos).take l.length).length = l.length := by
    rw [List.length_take, Nat.min_eq_left h]
  simp only [Emission.token, emission, Lexeme.token, w.slice_eq h, hlen, Int.natCast_add]

/-- Within the window the tokens of placed pieces are those that the pieces cut off. -/
theorem map_token_place {ls : List Lexeme} (h : width ls ≤ (w.ahead pos).length) :
    (place pos ls).map (·.token w) = cut pos (w.ahead pos) ls := by
  induction ls generalizing pos with
  | nil => rfl
  | cons l ls ih =>
      rw [width] at h
      have hl : l.length ≤ (w.ahead pos).length := by omega
      have hlen : ((w.ahead pos).take l.length).length = l.length := by
        rw [List.length_take, Nat.min_eq_left hl]
      have hrest : width ls ≤ (w.ahead (pos + l.length)).length := by
        rw [← w.drop_ahead, List.length_drop]
        omega
      rw [place, List.map_cons, cut, token_emission hl, ih hrest, hlen, w.drop_ahead]

end Lexeme

/-- The tokens that a detail keeps are those of the kinds that it keeps. -/
theorem Lexing.keep_eq (l : Lexing) :
    l.keep detail = ⟨l.tokens.filter (detail.keeps ·.kind), l.faults⟩ := by
  cases detail with
  | rich =>
      have hall : l.tokens.filter (Detail.rich.keeps ·.kind) = l.tokens :=
        List.filter_eq_self.mpr fun _ _ => rfl
      rw [hall]
      rfl
  | structural => rfl

/-! ### Looks and scans -/

namespace Look

/-- A look at `pos` is told by a scan of the text ahead. -/
structure Tells (detail : Detail) (w : Window) (pos : Nat) (look : Look σ) (scan : Scan σ) :
    Prop where
  kept : look.kept detail = (Lexeme.place pos scan.lexemes).filter (detail.keeps ·.kind)
  next : look.next = pos + Lexeme.width scan.lexemes
  within : look.next ≤ w.stop
  state : look.state = scan.state
  faults : look.faults = scan.faults
  /-- Also what is not kept is a piece that the scan names. -/
  emitted : look.emissions ⊆ Lexeme.place pos scan.lexemes

variable {look : Look σ} {scan : Scan σ} {state : σ} {faults : List Fault}

theorem Tells.emit {e : Emission} {l : Lexeme} (h : e = l.emission pos) (hstop : e.stop ≤ w.stop) :
    (Look.emit e state faults).Tells detail w pos ⟨[l], state, faults⟩ := by
  subst h
  exact ⟨rfl, rfl, hstop, rfl, rfl, List.Subset.refl _⟩

/-- Where neither moves on, nothing is emitted. -/
theorem Tells.stay (h : pos ≤ w.stop) :
    (Look.move pos state).Tells detail w pos ⟨[], state, []⟩ :=
  ⟨rfl, rfl, h, rfl, rfl, List.nil_subset _⟩

/-- What is stepped over without a token is a piece that the run does not keep. -/
theorem Tells.move {next : Nat} {l : Lexeme} (hkind : detail.keeps l.kind = false)
    (hnext : next = pos + l.length) (hstop : next ≤ w.stop) :
    (Look.move next state).Tells detail w pos ⟨[l], state, []⟩ := by
  refine ⟨?_, by simp [Lexeme.width, Look.move, hnext], hstop, rfl, rfl, List.nil_subset _⟩
  rw [Lexeme.place, Lexeme.place, List.filter_cons_of_neg (by simpa [Lexeme.emission] using hkind)]
  rfl

theorem Tells.ite {p : Prop} [Decidable p] {look' : Look σ} {scan' : Scan σ}
    (h : p → look.Tells detail w pos scan) (h' : ¬p → look'.Tells detail w pos scan') :
    (if p then look else look').Tells detail w pos (if p then scan else scan') := by
  by_cases hp : p
  · rw [if_pos hp, if_pos hp]
    exact h hp
  · rw [if_neg hp, if_neg hp]
    exact h' hp

/-- A rich run drops nothing. -/
theorem Tells.emissions (h : look.Tells .rich w pos scan) :
    look.emissions = Lexeme.place pos scan.lexemes := by
  have hall (es : List Emission) : es.filter (Detail.rich.keeps ·.kind) = es :=
    List.filter_eq_self.mpr fun _ _ => rfl
  rw [← hall look.emissions, ← hall (Lexeme.place pos scan.lexemes)]
  exact h.kept

/-- What is told to a rich run is told to any. -/
theorem Tells.of_rich (h : look.Tells .rich w pos scan) : look.Tells detail w pos scan :=
  ⟨by rw [Look.kept, h.emissions], h.next, h.within, h.state, h.faults, h.emitted⟩

/-- A fault more on both sides. -/
theorem Tells.fault (h : look.Tells detail w pos scan) (f : Fault) :
    Look.Tells detail w pos { look with faults := f :: look.faults }
      { scan with faults := f :: scan.faults } :=
  ⟨h.kept, h.next, h.within, h.state, by rw [h.faults], h.emitted⟩

/-- A look that has not moved on is told by the scan with the unknown character added. -/
theorem Tells.moved (h : look.Tells detail w pos scan) (hpos : pos < w.stop) :
    (look.moved pos).kept detail
        = (Lexeme.place pos scan.pieces).filter (detail.keeps ·.kind)
      ∧ (look.moved pos).next = pos + Lexeme.width scan.pieces
      ∧ (look.moved pos).next ≤ w.stop
      ∧ (look.moved pos).state = scan.state ∧ (look.moved pos).faults = scan.faults := by
  have hkept : look.emissions.filter (detail.keeps ·.kind) = _ := h.kept
  by_cases hw : Lexeme.width scan.lexemes = 0
  · have hnext : look.next = pos := by rw [h.next, hw, Nat.add_zero]
    rw [Look.moved, if_pos hnext, Scan.pieces, if_pos hw, Lexeme.place_append, Lexeme.width_append,
      hw, Nat.add_zero, Nat.zero_add]
    refine ⟨?_, rfl, hpos, h.state, h.faults⟩
    rw [Look.kept, List.filter_append, List.filter_append, hkept]
    rfl
  · have hnext : look.next ≠ pos := by rw [h.next]; omega
    rw [Look.moved, if_neg hnext, Scan.pieces, if_neg hw]
    exact ⟨hkept, h.next, h.within, h.state, h.faults⟩

theorem Tells.emitted_moved (h : look.Tells detail w pos scan) :
    (look.moved pos).emissions ⊆ Lexeme.place pos scan.pieces := by
  by_cases hw : Lexeme.width scan.lexemes = 0
  · have hnext : look.next = pos := by rw [h.next, hw, Nat.add_zero]
    rw [Look.moved, if_pos hnext, Scan.pieces, if_pos hw, Lexeme.place_append, hw, Nat.add_zero]
    exact List.append_subset.mpr ⟨List.subset_append_of_subset_left _ h.emitted,
      List.subset_append_of_subset_right _ (List.Subset.refl _)⟩
  · have hnext : look.next ≠ pos := by rw [h.next]; omega
    rw [Look.moved, if_neg hnext, Scan.pieces, if_neg hw]
    exact h.emitted

end Look

/-! ### Runs -/

namespace Lexer

variable {lexer : Lexer σ} {scanner : Scanner σ}

theorem runFrom_eq (hfinish : lexer.finish = scanner.finish)
    (hlook : ∀ s pos, pos < w.stop →
      (lexer.look w s pos).Tells detail w pos (scanner.scan s pos (w.ahead pos)))
    (left : Nat) (s : σ) (pos : Nat) (hleft : w.stop - pos ≤ left) :
    lexer.runFrom detail w left s pos = (scanner.run 0 s pos (w.ahead pos)).keep detail := by
  have hend (s : σ) (pos : Nat) (hstop : w.stop ≤ pos) : (⟨[], lexer.finish s pos⟩ : Lexing)
      = (scanner.run 0 s pos (w.ahead pos)).keep detail := by
    rw [(w.ahead_eq_nil_iff pos).mpr hstop, Scanner.run, hfinish, Lexing.keep_eq, List.filter_nil]
  induction left generalizing s pos with
  | zero => exact hend s pos (by omega)
  | succ left ih =>
      rw [runFrom]
      by_cases hpos : pos < w.stop
      · obtain ⟨hkept, hnext, hwithin, hstate, hfaults⟩ := (hlook s pos hpos).moved hpos
        have htext : w.ahead pos ≠ [] := by
          rw [Ne, w.ahead_eq_nil_iff]
          omega
        have hwidth := (scanner.scan s pos (w.ahead pos)).width_pieces_pos
        have hle : Lexeme.width (scanner.scan s pos (w.ahead pos)).pieces ≤ (w.ahead pos).length := by
          rw [w.length_ahead]
          omega
        have hlen : ((w.ahead pos).take
            (Lexeme.width (scanner.scan s pos (w.ahead pos)).pieces)).length
            = Lexeme.width (scanner.scan s pos (w.ahead pos)).pieces := by
          rw [List.length_take, Nat.min_eq_left hle]
        have htokens : (((lexer.look w s pos).moved pos).kept detail).map (·.token w)
            = (Lexeme.cut pos (w.ahead pos) (scanner.scan s pos (w.ahead pos)).pieces).filter
                (detail.keeps ·.kind) := by
          rw [hkept, ← Lexeme.map_token_place hle, List.filter_map]
          rfl
        have hrest := ih ((lexer.look w s pos).moved pos).state ((lexer.look w s pos).moved pos).next
          (by omega)
        rw [if_pos hpos, scanner.run_eq s pos htext]
        dsimp only
        rw [hrest, htokens, hstate, hnext, hfaults]
        simp only [Lexing.keep_eq, List.filter_append, hlen, w.drop_ahead]
      · rw [if_neg hpos]
        exact hend s pos (by omega)

/-- **A lexer whose looks are told by scans runs as the scanner does over the text ahead.** -/
theorem run_eq (hfinish : lexer.finish = scanner.finish)
    (hlook : ∀ s pos, pos < w.stop →
      (lexer.look w s pos).Tells detail w pos (scanner.scan s pos (w.ahead pos)))
    (s : σ) (pos : Nat) :
    lexer.run detail w s pos = (scanner.run 0 s pos (w.ahead pos)).keep detail :=
  runFrom_eq hfinish hlook _ s pos (Nat.le_refl _)

/-- Also the tokens of such a run that its detail would not keep are tokens of the scanner's. -/
theorem runFrom_rich_subset
    (hlook : ∀ s pos, pos < w.stop →
      (lexer.look w s pos).Tells detail w pos (scanner.scan s pos (w.ahead pos)))
    (left : Nat) (s : σ) (pos : Nat) :
    (lexer.runFrom .rich w left s pos).tokens ⊆ (scanner.run 0 s pos (w.ahead pos)).tokens := by
  induction left generalizing s pos with
  | zero => exact List.nil_subset _
  | succ left ih =>
      rw [runFrom]
      by_cases hpos : pos < w.stop
      · have htells := hlook s pos hpos
        obtain ⟨-, hnext, hwithin, hstate, -⟩ := htells.moved hpos
        have hemitted := htells.emitted_moved
        generalize hscan : scanner.scan s pos (w.ahead pos) = scan at *
        have htext : w.ahead pos ≠ [] := by
          rw [Ne, w.ahead_eq_nil_iff]
          omega
        have hle : Lexeme.width scan.pieces ≤ (w.ahead pos).length := by
          rw [w.length_ahead]
          omega
        have hlen : ((w.ahead pos).take (Lexeme.width scan.pieces)).length
            = Lexeme.width scan.pieces := by
          rw [List.length_take, Nat.min_eq_left hle]
        rw [if_pos hpos, scanner.run_eq s pos htext, hscan]
        simp only [hlen, w.drop_ahead, ← hnext, ← hstate, ← Lexeme.map_token_place hle]
        refine List.append_subset.mpr ⟨List.subset_append_of_subset_left _ ?_,
          List.subset_append_of_subset_right _ (ih _ _)⟩
        exact List.map_subset _ (List.Subset.trans List.filter_sublist.subset hemitted)
      · rw [if_neg hpos]
        exact List.nil_subset _

end Lexer

/-! ### Shared rules -/

namespace Window

/-- What is stepped over lies within the window. -/
theorem skipWhile_le {p : Char → Bool} (h : pos ≤ w.stop) : w.skipWhile p pos ≤ w.stop := by
  have hcount := countWhile_le p (w.ahead pos)
  rw [w.length_ahead] at hcount
  rw [w.skipWhile_eq]
  omega

theorem skipUntil_le {p : Char → Bool} (h : pos ≤ w.stop) : w.skipUntil p pos ≤ w.stop :=
  skipWhile_le h

/-- A word that is found ends within the window. -/
theorem find?_le {needle : List Char} (hneedle : needle ≠ []) {found : Nat}
    (h : w.find? needle pos = some found) : found + needle.length ≤ w.stop := by
  rw [w.find?_eq pos hneedle, Option.map_eq_some_iff] at h
  obtain ⟨n, hn, rfl⟩ := h
  have hle := (Text.prefix_drop_findIndex? hn).length_le
  have hpos : 0 < needle.length := List.length_pos_iff.mpr hneedle
  rw [w.drop_ahead, w.length_ahead] at hle
  omega

end Window

namespace Lexing

variable {c : Char} {kind : TokenKind} {style what : String}

theorem whitespaceAt?_eq (hc : w.at? pos = some c) :
    whitespaceAt? w pos c = (whitespace? (w.ahead pos)).map (·.emission pos) := by
  rw [Window.ahead_eq_cons hc, whitespaceAt?, whitespace?, w.skipWhile_eq, w.head?_ahead]
  by_cases hspace : isSpace c = true
  · rw [if_pos hspace, if_pos hspace, Option.map_some, Lexeme.emission, Nat.add_assoc]
  rw [if_neg hspace, if_neg hspace]
  by_cases hfeed : (c == '\n') = true
  · rw [if_pos hfeed, if_pos hfeed]
    rfl
  rw [if_neg hfeed, if_neg hfeed]
  by_cases hreturn : (c == '\r') = true
  · rw [if_pos hreturn, if_pos hreturn, Option.map_some, Lexeme.emission]
    by_cases hnext : (w.at? (pos + 1) == some '\n') = true
    · rw [if_pos hnext, if_pos hnext]
    · rw [if_neg hnext, if_neg hnext]
  · rw [if_neg hreturn, if_neg hreturn]
    rfl

theorem whitespaceAt?_le (hc : w.at? pos = some c) {e : Emission}
    (h : whitespaceAt? w pos c = some e) : e.stop ≤ w.stop := by
  have hpos := Window.lt_stop hc
  have hspace : w.skipWhile isSpace (pos + 1) ≤ w.stop := Window.skipWhile_le hpos
  unfold whitespaceAt? at h
  by_cases hnext : (w.at? (pos + 1) == some '\n') = true
  · have hlt := Window.lt_stop (beq_iff_eq.mp hnext)
    grind
  · grind

/-- Whitespace at an offset is the whitespace that the text ahead begins with, if it does. -/
theorem whitespaceAt?_cases (hc : w.at? pos = some c) :
    (∃ l, whitespaceAt? w pos c = some (l.emission pos) ∧ whitespace? (w.ahead pos) = some l
        ∧ (l.emission pos).stop ≤ w.stop)
      ∨ (whitespaceAt? w pos c = none ∧ whitespace? (w.ahead pos) = none) := by
  have heq := whitespaceAt?_eq hc
  cases hspace : whitespace? (w.ahead pos) with
  | some l =>
      rw [hspace, Option.map_some] at heq
      exact Or.inl ⟨l, heq, rfl, whitespaceAt?_le hc heq⟩
  | none =>
      rw [hspace, Option.map_none] at heq
      exact Or.inr ⟨heq, rfl⟩

/-- A region at an offset is the region at the start of the text ahead, if its opener stands
there. -/
theorem delimitedAt_eq {opener : Nat} {closer : List Char} (hcloser : closer ≠ [])
    (hopener : pos + opener ≤ w.stop) :
    delimitedAt kind style what opener closer w pos
      = ((delimited kind style what opener closer pos (w.ahead pos)).1.emission pos,
          (delimited kind style what opener closer pos (w.ahead pos)).2) := by
  have hlen := w.length_ahead pos
  have hend : pos + (w.ahead pos).length = w.stop := by omega
  rw [delimitedAt, delimited, w.find?_eq _ hcloser, w.drop_ahead]
  cases Text.findIndex? closer (w.ahead (pos + opener)) with
  | some inner => simp only [Option.map_some, Lexeme.emission, Nat.add_assoc]
  | none => simp only [Option.map_none, Lexeme.emission, hend]

theorem delimitedAt_le {opener : Nat} {closer : List Char} (hcloser : closer ≠ []) :
    (delimitedAt kind style what opener closer w pos).1.stop ≤ w.stop := by
  unfold delimitedAt
  cases hfind : w.find? closer (pos + opener) with
  | some close => exact Window.find?_le hcloser hfind
  | none => exact Nat.le_refl _

/-- A look that takes a region. -/
theorem delimitedAt_tells {opener : Nat} {closer : List Char} (state : σ) (hcloser : closer ≠ [])
    (hopener : pos + opener ≤ w.stop) :
    (Look.emit (delimitedAt kind style what opener closer w pos).1 state
        (delimitedAt kind style what opener closer w pos).2).Tells detail w pos
      ⟨[(delimited kind style what opener closer pos (w.ahead pos)).1], state,
        (delimited kind style what opener closer pos (w.ahead pos)).2⟩ := by
  have hle : (delimitedAt kind style what opener closer w pos).1.stop ≤ w.stop :=
    delimitedAt_le hcloser
  rw [delimitedAt_eq hcloser hopener] at hle ⊢
  exact .emit rfl hle

variable {quote : Char} {multiline : Bool}

theorem literalEnd_of_le (left : Nat) (h : w.stop ≤ pos) :
    literalEnd quote multiline w left pos = (w.stop, false) := by
  have hnone : w.at? pos = none := (w.at?_eq_none_iff pos).mpr h
  cases left <;> simp only [literalEnd, hnone, Nat.min_eq_right h]

/-- A literal ends where the text ahead has it end. -/
theorem literalEnd_eq (left : Nat) (hleft : w.stop - pos ≤ left) (hpos : pos ≤ w.stop) :
    literalEnd quote multiline w left pos
      = (pos + (literalBody quote multiline (w.ahead pos)).1,
          (literalBody quote multiline (w.ahead pos)).2) := by
  induction left generalizing pos with
  | zero =>
      have hstop : w.stop ≤ pos := by omega
      rw [literalEnd_of_le _ hstop, (w.ahead_eq_nil_iff pos).mpr hstop, literalBody]
      exact Prod.ext (Nat.le_antisymm hstop hpos) rfl
  | succ left ih =>
      cases hc : w.at? pos with
      | none =>
          have hstop : w.stop ≤ pos := (w.at?_eq_none_iff pos).mp hc
          rw [literalEnd_of_le _ hstop, Window.ahead_eq_nil hc, literalBody]
          exact Prod.ext (Nat.le_antisymm hstop hpos) rfl
      | some c =>
          have hlt := Window.lt_stop hc
          rw [Window.ahead_eq_cons hc, literalEnd, hc]
          dsimp only
          by_cases hback : c = '\\'
          · subst hback
            rw [if_pos (beq_self_eq_true _)]
            -- The backslash may be the last character of the window.
            cases hnext : w.at? (pos + 1) with
            | none =>
                have hstop : w.stop ≤ pos + 1 := (w.at?_eq_none_iff _).mp hnext
                rw [literalEnd_of_le _ (by omega), Window.ahead_eq_nil hnext, literalBody]
                exact Prod.ext (Nat.le_antisymm hstop hlt) rfl
            | some d =>
                have hlt' := Window.lt_stop hnext
                have hahead : w.ahead (pos + 1) = d :: w.ahead (pos + 2) :=
                  Window.ahead_eq_cons hnext
                rw [hahead, literalBody_escape, @ih (pos + 2) (by omega) hlt']
                exact Prod.ext (by simp only; omega) rfl
          · rw [if_neg (by simpa using hback), literalBody_cons _ _ hback]
            by_cases hquote : c = quote
            · rw [if_pos (by simpa using hquote), if_pos hquote]
            rw [if_neg (by simpa using hquote), if_neg hquote]
            by_cases hbreak : (!multiline && isLineBreak c) = true
            · rw [if_pos hbreak, if_pos hbreak, Nat.min_eq_left hpos, Nat.add_zero]
            · rw [if_neg hbreak, if_neg hbreak, @ih (pos + 1) (by omega) hlt]
              exact Prod.ext (by simp only; omega) rfl

theorem quotedAt_eq (hpos : pos < w.stop) :
    quotedAt kind style what multiline quote w pos
      = ((quotedLiteral kind style what multiline quote pos (w.ahead (pos + 1))).1.emission pos,
          (quotedLiteral kind style what multiline quote pos (w.ahead (pos + 1))).2) := by
  have hstop (n : Nat) : pos + 1 + n = pos + (n + 1) := by omega
  rw [quotedAt, quotedLiteral, literalEnd_eq _ (Nat.le_refl _) hpos]
  cases hbody : literalBody quote multiline (w.ahead (pos + 1)) with
  | mk n closed =>
      cases closed with
      | true => simp only [if_true, Lexeme.emission, hstop]
      | false => simp only [Bool.false_eq_true, if_false, Lexeme.emission, hstop]

theorem quotedAt_le (hpos : pos < w.stop) :
    (quotedAt kind style what multiline quote w pos).1.stop ≤ w.stop := by
  have hbody := literalBody_le quote multiline (w.ahead (pos + 1))
  rw [w.length_ahead] at hbody
  rw [quotedAt, literalEnd_eq _ (Nat.le_refl _) hpos]
  cases hliteral : literalBody quote multiline (w.ahead (pos + 1)) with
  | mk n closed =>
      rw [hliteral] at hbody
      cases closed <;> simp only [if_true, Bool.false_eq_true, if_false] <;> omega

/-- A look that takes a literal. -/
theorem quotedAt_tells (state : σ) (hpos : pos < w.stop) :
    (Look.emit (quotedAt kind style what multiline quote w pos).1 state
        (quotedAt kind style what multiline quote w pos).2).Tells detail w pos
      ⟨[(quotedLiteral kind style what multiline quote pos (w.ahead (pos + 1))).1], state,
        (quotedLiteral kind style what multiline quote pos (w.ahead (pos + 1))).2⟩ := by
  have hle : (quotedAt kind style what multiline quote w pos).1.stop ≤ w.stop := quotedAt_le hpos
  rw [quotedAt_eq hpos] at hle ⊢
  exact .emit rfl hle

end Lexing

end SourceView
