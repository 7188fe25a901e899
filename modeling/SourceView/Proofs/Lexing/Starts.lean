/-
Where tokens and faults of a run begin.

A fault of a stylesheet begins at the text ahead of the look that finds it.  A script also
finds, at a later look or at the end, that something is unfinished that began earlier; its
state remembers where.  So whatever is true of the offset of every look is true of the offsets
that a state remembers, and of those at which faults begin.

A look is taken only where text is left.  What is found of a text therefore begins before the
end of that text, tokens as well as faults.
-/
import SourceView.Proofs.Lexing.Coverage

namespace SourceView

open Lexing

variable {σ : Type} {P : Int → Prop}

/-! ### Any scanner -/

/-- What is true of the offsets of all looks of a run is true of those at which its faults
begin, if it is true of what a look finds and remembers. -/
theorem Scanner.run_faults {scanner : Scanner σ} (remembers : σ → Prop)
    (hscan : ∀ state (pos : Nat) text, P pos → remembers state →
      remembers (scanner.scan state pos text).state
        ∧ ∀ f ∈ (scanner.scan state pos text).faults, P f.start)
    (hfinish : ∀ state pos, remembers state → ∀ f ∈ scanner.finish state pos, P f.start)
    (state : σ) (pos : Nat) (text : List Char)
    (hpos : ∀ x : Nat, pos ≤ x → x < pos + text.length → P x) (hstate : remembers state) :
    ∀ f ∈ (scanner.run 0 state pos text).faults, P f.start := by
  induction state, pos, text using scanner.run_induction with
  | done state pos => exact hfinish state pos hstate
  | step state pos text htext rest ih =>
      have hlength := List.length_pos_iff.mpr htext
      obtain ⟨hnext, hfaults⟩ := hscan state pos text (hpos pos (by omega) (by omega)) hstate
      intro f hf
      rcases List.mem_append.mp hf with hf | hf
      · exact hfaults f hf
      · refine ih ?_ hnext f hf
        intro x hle hlt
        rw [List.length_take, List.length_drop] at hlt
        exact hpos x (by omega) (by omega)

/-- All pieces but the last leave some text. -/
def Scan.Leaves (text : List Char) (s : Scan σ) : Prop :=
  Lexeme.width s.lexemes.dropLast < text.length

/-- Tokens begin before the end of the text, if all pieces but the last of each look leave some
text. -/
theorem Lexeme.start_of_mem_cut {ls : List Lexeme} (pos : Nat) (text : List Char)
    (h : width ls.dropLast < text.length) :
    ∀ t ∈ cut pos text ls, t.start < (pos + text.length : Nat) := by
  induction ls generalizing pos text with
  | nil => simp [cut]
  | cons l ls ih =>
      intro t ht
      rw [cut, List.mem_cons] at ht
      rcases ht with rfl | ht
      · show (pos : Int) < _
        omega
      cases ls with
      | nil => exact absurd ht (by simp [cut])
      | cons m ms =>
          rw [List.dropLast_cons_cons, width] at h
          have hrest := ih (pos + (text.take l.length).length) (text.drop l.length)
            (by rw [List.length_drop]; omega) t ht
          rw [List.length_take, List.length_drop] at hrest
          omega

theorem Scan.Leaves.pieces {s : Scan σ} {text : List Char} (h : s.Leaves text) :
    Lexeme.width s.pieces.dropLast < text.length := by
  unfold Scan.pieces
  by_cases hw : Lexeme.width s.lexemes = 0
  · rw [if_pos hw, List.dropLast_concat, hw]
    exact Nat.lt_of_le_of_lt (Nat.zero_le _) h
  · rw [if_neg hw]
    exact h

theorem Scan.Leaves.ite {p : Prop} [Decidable p] {text : List Char} {a b : Scan σ}
    (ha : a.Leaves text) (hb : b.Leaves text) : (if p then a else b).Leaves text := by
  by_cases h : p
  · rw [if_pos h]; exact ha
  · rw [if_neg h]; exact hb

/-- A look that names one piece or none leaves the text there is. -/
theorem Scan.Leaves.single {c : Char} {rest : List Char} {s : Scan σ}
    (h : s.lexemes.length ≤ 1) : s.Leaves (c :: rest) := by
  have hnil : s.lexemes.dropLast = [] := by
    apply List.eq_nil_of_length_eq_zero
    rw [List.length_dropLast]
    omega
  rw [Leaves, hnil]
  exact Nat.succ_pos _

theorem Scanner.run_starts {scanner : Scanner σ}
    (hscan : ∀ state pos c rest, (scanner.scan state pos (c :: rest)).Leaves (c :: rest))
    (state : σ) (pos : Nat) (text : List Char) :
    ∀ t ∈ (scanner.run 0 state pos text).tokens, t.start < (pos + text.length : Nat) := by
  induction state, pos, text using scanner.run_induction with
  | done state pos => simp
  | step state pos text htext rest ih =>
      obtain ⟨c, rest', rfl⟩ := List.exists_cons_of_ne_nil htext
      intro t ht
      rcases List.mem_append.mp ht with ht | ht
      · exact Lexeme.start_of_mem_cut pos (c :: rest') (hscan state pos c rest').pieces t ht
      · have hlt := ih t ht
        rw [List.length_take, List.length_drop] at hlt
        omega

/-! ### Shared literals -/

theorem Lexing.delimited_starts (kind : TokenKind) (style what : String) (opener : Nat)
    (closer : List Char) {pos : Nat} (hpos : P pos) (text : List Char) :
    ∀ f ∈ (delimited kind style what opener closer pos text).2, P f.start := by
  unfold delimited
  cases Text.findIndex? closer (text.drop opener) with
  | some inner => simp
  | none => simpa using hpos

theorem Lexing.quotedLiteral_starts (kind : TokenKind) (style what : String) (multiline : Bool)
    (quote : Char) {pos : Nat} (hpos : P pos) (rest : List Char) :
    ∀ f ∈ (quotedLiteral kind style what multiline quote pos rest).2, P f.start := by
  unfold quotedLiteral
  by_cases hclosed : (literalBody quote multiline rest).2 = true
  · simp [hclosed]
  · simpa [hclosed] using hpos

/-! ### Stylesheets -/

/-- Every fault of the scan begins at an offset of which `P` is true. -/
def Scan.Starts (P : Int → Prop) (s : Scan σ) : Prop :=
  ∀ f ∈ s.faults, P f.start

theorem Scan.Starts.ite {p : Prop} [Decidable p] {a b : Scan σ} (ha : a.Starts P)
    (hb : b.Starts P) : (if p then a else b).Starts P := by
  by_cases h : p
  · rw [if_pos h]; exact ha
  · rw [if_neg h]; exact hb

theorem Scan.Starts.silent (ls : List Lexeme) (state : σ) : Scan.Starts P ⟨ls, state, []⟩ := by
  simp [Scan.Starts]

namespace Stylesheet

theorem scanInStatement_starts (s : LexState) {pos : Nat} (hpos : P pos) (c : Char)
    (rest : List Char) : (scanInStatement s pos c rest).Starts P :=
  .ite (quotedLiteral_starts _ _ _ _ _ hpos _) <| .ite (.silent _ _) <|
  .ite (.ite (.silent _ _) (.silent _ _)) <| .ite (.ite (.silent _ _) (.silent _ _)) <|
  .ite (.silent _ _) <| .ite (.ite (.silent _ _) (.silent _ _)) <| .ite (.silent _ _) <|
  .ite (.silent _ _) <| .ite (.silent _ _) <| .ite (.ite (.silent _ _) (.silent _ _)) <|
  .ite (.silent _ _) (.silent _ _)

theorem scanRich_starts (s : LexState) {pos : Nat} (hpos : P pos) (text : List Char) :
    (scanRich s pos text).Starts P := by
  cases text with
  | nil => exact .silent _ _
  | cons c rest =>
      simp only [scanRich]
      cases whitespace? (c :: rest) with
      | some l => exact .silent _ _
      | none =>
          refine .ite (delimited_starts _ _ _ _ _ hpos _) <| .ite (.silent _ _) <|
            .ite (.silent _ _) <| .ite (.silent _ _) ?_
          cases delimiter? c with
          | some kind => exact .silent _ _
          | none => exact scanInStatement_starts _ hpos c rest

theorem scanStructural_starts (s : Unit) {pos : Nat} (hpos : P pos) (text : List Char) :
    (scanStructural s pos text).Starts P := by
  cases text with
  | nil => exact .silent _ _
  | cons c rest =>
      simp only [scanStructural]
      refine .ite (delimited_starts _ _ _ _ _ hpos _) ?_
      cases delimiter? c with
      | some kind => exact .silent _ _
      | none => exact .ite (quotedLiteral_starts _ _ _ _ _ hpos _) (.silent _ _)

/-- The faults of a stylesheet begin where text is left. -/
theorem lex_faults (detail : Detail) (pos : Nat) (text : List Char)
    (hpos : ∀ x : Nat, pos ≤ x → x < pos + text.length → P x) :
    ∀ f ∈ (lex detail pos text).faults, P f.start := by
  cases detail with
  | rich =>
      refine richScanner.run_faults (fun _ => True) ?_ (by simp [richScanner]) _ _ _
        hpos trivial
      exact fun s pos text hpos _ => ⟨trivial, scanRich_starts s hpos text⟩
  | structural =>
      refine structuralScanner.run_faults (fun _ => True) ?_ (by simp [structuralScanner]) _ _ _
        hpos trivial
      exact fun s pos text hpos _ => ⟨trivial, scanStructural_starts s hpos text⟩

theorem length_pos_of_head? {n : Nat} {c : Char} {text : List Char}
    (h : (text.drop n).head? = some c) : n < text.length := by
  rw [List.head?_drop] at h
  exact (List.getElem?_eq_some_iff.mp h).1

theorem urlBody_leaves (text : List Char) :
    urlBody text = [] ∨ Lexeme.width (urlBody text).dropLast < text.length := by
  simp only [urlBody]
  split
  · exact .inl rfl
  · rename_i c hhead
    have hspaces := length_pos_of_head? hhead
    by_cases hstop : (c == '"' || c == '\'' || c == ')') = true
    · exact .inl (if_pos hstop)
    · rw [if_neg hstop, List.dropLast_concat]
      refine .inr ?_
      by_cases hzero : countWhile isSpace text = 0
      · rw [if_pos hzero]
        exact Nat.zero_lt_of_lt hspaces
      · rw [if_neg hzero]
        exact hspaces

theorem width_dropLast_call {l : Lexeme} {ls : List Lexeme} {m : Nat} (hl : l.length < m)
    (hls : ls = [] ∨ l.length + (1 + Lexeme.width ls.dropLast) < m) :
    Lexeme.width (l :: mark .parenOpen :: ls).dropLast < m := by
  cases ls with
  | nil => exact hl
  | cons _ _ => exact hls.resolve_left (List.cons_ne_nil _ _)

/-- A word that calls a function leaves some text to the address, if that is taken. -/
theorem scanWord_leaves (s : LexState) (c : Char) (rest : List Char) :
    (scanWord s (c :: rest)).Leaves (c :: rest) := by
  unfold scanWord
  by_cases hcall : (((c :: rest).drop (1 + nameLength rest)).head? == some '(') = true
  · have hlt := length_pos_of_head? (beq_iff_eq.mp hcall)
    rw [List.tail_cons, if_pos hcall]
    refine width_dropLast_call hlt ?_
    split
    · refine (urlBody_leaves _).imp_right ?_
      intro hbody
      rw [List.length_tail, List.length_drop] at hbody
      show 1 + nameLength rest + _ < _
      omega
    · exact .inl rfl
  · rw [List.tail_cons, if_neg hcall]
    exact .single (Nat.le_refl _)

theorem scanInStatement_leaves (s : LexState) (pos : Nat) (c : Char) (rest : List Char) :
    (scanInStatement s pos c rest).Leaves (c :: rest) :=
  .ite (.single (Nat.le_refl _)) <| .ite (.single (Nat.le_refl _)) <|
  .ite (.ite (.single (Nat.le_refl _)) (.single (Nat.le_refl _))) <|
  .ite (.ite (.single (Nat.le_refl _)) (.single (Nat.le_refl _))) <|
  .ite (.single (Nat.le_refl _)) <|
  .ite (.ite (.single (Nat.le_refl _)) (.single (Nat.le_refl _))) <|
  .ite (.single (Nat.le_refl _)) <| .ite (.single (Nat.le_refl _)) <|
  .ite (.single (Nat.le_refl _)) <| .ite (scanWord_leaves s c rest) <|
  .ite (.single (Nat.le_refl _)) (.single (Nat.zero_le _))

theorem scanRich_leaves (s : LexState) (pos : Nat) (c : Char) (rest : List Char) :
    (scanRich s pos (c :: rest)).Leaves (c :: rest) := by
  simp only [scanRich]
  cases whitespace? (c :: rest) with
  | some l => exact .single (Nat.le_refl _)
  | none =>
      refine .ite (.single (Nat.le_refl _)) <| .ite (.single (Nat.le_refl _)) <|
        .ite (.single (Nat.le_refl _)) <| .ite (.single (Nat.le_refl _)) ?_
      cases delimiter? c with
      | some kind => exact .single (Nat.le_refl _)
      | none => exact scanInStatement_leaves _ pos c rest

theorem scanStructural_leaves (s : Unit) (pos : Nat) (c : Char) (rest : List Char) :
    (scanStructural s pos (c :: rest)).Leaves (c :: rest) := by
  simp only [scanStructural]
  refine .ite (.single (Nat.le_refl _)) ?_
  cases delimiter? c with
  | some kind => exact .single (Nat.le_refl _)
  | none => exact .ite (.single (Nat.le_refl _)) (.single (Nat.le_refl _))

/-- The tokens of a stylesheet begin where text is left. -/
theorem lex_starts (detail : Detail) (pos : Nat) (text : List Char) :
    ∀ t ∈ (lex detail pos text).tokens, t.start < (pos + text.length : Nat) := by
  cases detail with
  | rich => exact richScanner.run_starts scanRich_leaves {} pos text
  | structural =>
      intro t ht
      exact structuralScanner.run_starts scanStructural_leaves () pos text t
        (List.mem_filter.mp ht).1

end Stylesheet

/-! ### Scripts -/

namespace Script

/-- What is true of the offsets at which what a script is inside of began. -/
def Mode.Remembers (P : Int → Prop) : Mode → Prop
  | code => True
  | template start => P start
  | attributes region | children region => P region.start
  | endTag region _ start => P region.start ∧ P start

def Context.Remembers (P : Int → Prop) : Context → Prop
  | template => True
  | attributes region | children region => P region.start

structure LexState.Remembers (P : Int → Prop) (s : LexState) : Prop where
  mode : s.mode.Remembers P
  frames : ∀ frame ∈ s.frames, frame.context.Remembers P ∧ P frame.start

/-- A step remembers such offsets alone, and its faults begin at such. -/
structure Step.Starts (P : Int → Prop) (step : Step) : Prop where
  state : step.state.Remembers P
  faults : ∀ f ∈ step.faults, P f.start

namespace Step.Starts

theorem ite {p : Prop} [Decidable p] {a b : Step} (ha : a.Starts P) (hb : b.Starts P) :
    (if p then a else b).Starts P := by
  by_cases h : p
  · rw [if_pos h]; exact ha
  · rw [if_neg h]; exact hb

theorem silent {s : LexState} {l : Lexeme} (h : s.Remembers P) :
    Step.Starts P { lexeme := l, state := s } :=
  ⟨h, by simp⟩

end Step.Starts

variable {s : LexState} {pos : Nat}

theorem LexState.Remembers.remember (h : s.Remembers P) (kind : TokenKind) (piece : List Char) :
    (s.remember kind piece).Remembers P := by
  unfold LexState.remember
  split
  · exact h
  · exact ⟨h.mode, h.frames⟩

theorem LexState.Remembers.enter (h : s.Remembers P) {mode : Mode} (hmode : mode.Remembers P) :
    LexState.Remembers P { s with mode } :=
  ⟨hmode, h.frames⟩

theorem LexState.Remembers.push (h : s.Remembers P) {context : Context} {start : Nat}
    (hcontext : context.Remembers P) (hstart : P start) :
    LexState.Remembers P
      { s with mode := .code, frames := ⟨context, s.depth, start⟩ :: s.frames } := by
  refine ⟨trivial, ?_⟩
  intro frame hframe
  rcases List.mem_cons.mp hframe with rfl | hframe
  · exact ⟨hcontext, hstart⟩
  · exact h.frames frame hframe

theorem Region.resume_remembers {region : Region} (h : P region.start) :
    region.resume.Remembers P := by
  unfold Region.resume
  split
  · trivial
  · exact h

theorem Region.start_close (region : Region) (name : String) :
    (region.close name).start = region.start := by
  unfold Region.close
  split <;> rfl

theorem closeBrace_starts (h : s.Remembers P) : (closeBrace s).Starts P := by
  have hplain : Step.Starts P
      { lexeme := mark .blockClose, state := { s with depth := s.depth - 1 } } :=
    .silent ⟨h.mode, h.frames⟩
  simp only [closeBrace]
  split
  · exact hplain
  · rename_i frame frames hframes
    obtain ⟨hcontext, hstart⟩ := h.frames frame (by simp [hframes])
    have hrest : ∀ f ∈ frames, f.context.Remembers P ∧ P f.start :=
      fun f hf => h.frames f (by simp [hframes, hf])
    refine .ite ?_ hplain
    cases hcase : frame.context with
      | template => exact .silent ⟨hstart, hrest⟩
      | attributes region | children region =>
          rw [hcase] at hcontext
          exact .silent ⟨hcontext, hrest⟩

theorem scanSlash_starts (h : s.Remembers P) (hpos : P pos) (text : List Char) :
    (scanSlash s pos text).Starts P := by
  unfold scanSlash
  refine .ite (.silent h) <| .ite ⟨h, delimited_starts _ _ _ _ _ hpos _⟩ ?_
  cases (if s.expressionAllowed then regex? text.tail else none) with
  | some l => exact .silent h
  | none => exact .silent h

theorem scanCode_starts (detail : Detail) (h : s.Remembers P) (hpos : P pos) (c : Char)
    (rest : List Char) : (scanCode detail s pos c rest).Starts P := by
  have hstep := scanCode_step detail s pos c rest
  generalize scanCode detail s pos c rest = step at hstep
  cases hstep with
  | slash => exact scanSlash_starts h hpos (c :: rest)
  | quoted => exact ⟨h, quotedLiteral_starts _ _ _ _ _ hpos _⟩
  | closeBrace => exact closeBrace_starts h
  | template => exact .silent (h.enter hpos)
  | tag => exact .silent (h.enter hpos)
  | openBrace => exact .silent ⟨h.mode, h.frames⟩
  | space | bracket | number | word | privateWord | punctuation | operator => exact .silent h

theorem scanTemplate_starts (h : s.Remembers P) {start : Nat} (hstart : P start) (c : Char)
    (rest : List Char) : (scanTemplate s start c rest).Starts P :=
  .ite (.silent (h.enter trivial)) <|
    .ite (.silent (h.push trivial hstart)) (.silent h)

theorem scanAttributes_starts (h : s.Remembers P) {region : Region} (hregion : P region.start)
    (hpos : P pos) (c : Char) (rest : List Char) :
    (scanAttributes s region pos c rest).Starts P := by
  unfold scanAttributes
  cases whitespace? (c :: rest) with
  | some l => exact .silent h
  | none =>
      exact .ite (.silent (h.enter hregion)) <|
        .ite (.silent (h.enter (Region.resume_remembers hregion))) <|
        .ite (.silent (h.push hregion hpos)) <|
        .ite ⟨h, quotedLiteral_starts _ _ _ _ _ hpos _⟩ <| .ite (.silent h) (.silent h)

theorem scanChildren_starts (h : s.Remembers P) {region : Region} (hregion : P region.start)
    (hpos : P pos) (c : Char) (rest : List Char) :
    (scanChildren s region pos c rest).Starts P := by
  unfold scanChildren
  refine .ite (.silent (h.push hregion hpos)) <|
    .ite (.silent (h.enter ⟨?_, hpos⟩)) <| .ite (.silent (h.enter hregion)) ?_
  · rw [Region.start_close]
    exact hregion
  · cases whitespace? (c :: rest) with
    | some l => exact .silent h
    | none => exact .silent h

theorem scanEndTag_starts (detail : Detail) (h : s.Remembers P) {region : Region}
    (hregion : P region.start) (name : String) {start : Nat} (hstart : P start) (hpos : P pos)
    (c : Char) (rest : List Char) :
    (scanEndTag detail s region name start pos c rest).Starts P := by
  have hresumed := h.enter (Region.resume_remembers hregion)
  have hnext : (scanResumed detail s region pos c rest).Starts P :=
    .ite (scanCode_starts detail hresumed hpos c rest)
      (scanChildren_starts hresumed hregion hpos c rest)
  unfold scanEndTag
  refine .ite (.silent hresumed) ?_
  cases whitespace? (c :: rest) with
  | some l => exact .silent h
  | none =>
      refine ⟨hnext.state, ?_⟩
      intro f hf
      rcases List.mem_cons.mp hf with rfl | hf
      · exact hstart
      · exact hnext.faults f hf

theorem scan_starts (detail : Detail) (h : s.Remembers P) (hpos : P pos) (text : List Char) :
    (scan detail s pos text).state.Remembers P
      ∧ ∀ f ∈ (scan detail s pos text).faults, P f.start := by
  cases text with
  | nil => exact ⟨h, by simp [scan]⟩
  | cons c rest =>
      have hmode := h.mode
      have hstep {step : Step} (hstep : step.Starts P) (piece : List Char) :
          (step.state.remember step.lexeme.kind piece).Remembers P
            ∧ ∀ f ∈ step.faults, P f.start :=
        ⟨hstep.state.remember _ _, hstep.faults⟩
      unfold scan
      refine hstep ?_ _
      cases hcase : s.mode with
      | code => exact scanCode_starts detail h hpos c rest
      | template start =>
          rw [hcase] at hmode
          exact scanTemplate_starts h hmode c rest
      | attributes region =>
          rw [hcase] at hmode
          exact scanAttributes_starts h hmode hpos c rest
      | children region =>
          rw [hcase] at hmode
          exact scanChildren_starts h hmode hpos c rest
      | endTag region name start =>
          rw [hcase] at hmode
          exact scanEndTag_starts detail h hmode.1 name hmode.2 hpos c rest

theorem finish_starts (h : s.Remembers P) (pos : Nat) : ∀ f ∈ finish s pos, P f.start := by
  have hmode := h.mode
  intro f hf
  simp only [finish, List.mem_append, List.mem_filterMap, List.mem_reverse] at hf
  rcases hf with hf | ⟨frame, hframe, hf⟩
  · cases hcase : s.mode with
    | code | children => simp [hcase] at hf
    | template start | attributes region =>
        simp only [hcase, List.mem_singleton] at hf hmode
        exact hf ▸ hmode
    | endTag region name start =>
        simp only [hcase, List.mem_singleton] at hf hmode
        exact hf ▸ hmode.2
  · obtain ⟨hcontext, hstart⟩ := h.frames frame hframe
    split at hf
    · cases hf
      exact hstart
    · cases hf

/-- The faults of a script begin where text is left. -/
theorem lex_faults (detail : Detail) (pos : Nat) (text : List Char)
    (hpos : ∀ x : Nat, pos ≤ x → x < pos + text.length → P x) :
    ∀ f ∈ (lex detail pos text).faults, P f.start := by
  have hrun := (scanner detail).run_faults (LexState.Remembers P)
    (fun s pos text hpos h => scan_starts detail h hpos text)
    (fun s pos h => finish_starts h pos) {} pos text hpos ⟨trivial, by simp⟩
  cases detail <;> exact hrun

/-- The tokens of a script begin where text is left. -/
theorem lex_starts (detail : Detail) (pos : Nat) (text : List Char) :
    ∀ t ∈ (lex detail pos text).tokens, t.start < (pos + text.length : Nat) := by
  intro t ht
  exact (scanner detail).run_starts (fun s pos c rest => .single (Nat.le_refl _)) {} pos text t
    ((Lexing.keep_sublist _ detail).subset ht)

end Script

end SourceView
