/-
Where the faults of a run lie.

A fault that a look finds ends at the text ahead or with what the look takes, and one that is
found at the end of the text ends there.  It begins at the text ahead, or where something began
that is still unfinished, and that was passed on the way.  So a fault lies in the text of its
run, and does not end before it begins.
-/
import SourceView.Proofs.Markup.Bodies

namespace SourceView

open Lexing

variable {σ : Type} {lo : Int} {pos : Nat}

/-- The fault lies in the range and does not end before it begins. -/
structure Fault.Lies (lo hi : Int) (f : Fault) : Prop where
  low : lo ≤ f.start
  span : f.start ≤ f.stop
  high : f.stop ≤ hi

theorem Fault.Lies.le_high {lo hi hi' : Int} {f : Fault} (h : f.Lies lo hi) (hle : hi ≤ hi') :
    f.Lies lo hi' :=
  ⟨h.low, h.span, Int.le_trans h.high hle⟩

theorem Fault.Lies.le_low {lo lo' hi : Int} {f : Fault} (h : f.Lies lo hi) (hle : lo' ≤ lo) :
    f.Lies lo' hi :=
  ⟨Int.le_trans hle h.low, h.span, h.high⟩

/-! ### Any scanner -/

/-- The offset was passed on the way to `pos`, or is the one there. -/
def Passed (lo : Int) (pos : Nat) (x : Int) : Prop :=
  lo ≤ x ∧ x ≤ pos

/-- The faults of a run lie in its text if those of every look do, where the states remember
what was passed. -/
theorem Scanner.run_lies {scanner : Scanner σ} (remembers : Nat → σ → Prop)
    (hmono : ∀ {pos pos' state}, pos ≤ pos' → remembers pos state → remembers pos' state)
    (hscan : ∀ state (pos : Nat) text, lo ≤ pos → remembers pos state →
      remembers pos (scanner.scan state pos text).state
        ∧ ∀ f ∈ (scanner.scan state pos text).faults, f.Lies lo (pos + text.length : Nat))
    (hfinish : ∀ state (pos : Nat), remembers pos state →
      ∀ f ∈ scanner.finish state pos, f.Lies lo pos)
    (state : σ) (pos : Nat) (text : List Char) (hpos : lo ≤ pos) (hstate : remembers pos state) :
    ∀ f ∈ (scanner.run 0 state pos text).faults, f.Lies lo (pos + text.length : Nat) := by
  induction state, pos, text using scanner.run_induction with
  | done state pos => exact hfinish state pos hstate
  | step state pos text htext rest ih =>
      obtain ⟨hnext, hfaults⟩ := hscan state pos text hpos hstate
      intro f hf
      rcases List.mem_append.mp hf with hf | hf
      · exact hfaults f hf
      · refine (ih ?_ (hmono (Nat.le_add_right _ _) hnext) f hf).le_high ?_
        · omega
        · rw [List.length_take, List.length_drop]
          omega

/-- The faults end between the offsets. -/
structure EndIn (start stop : Int) (fs : List Fault) : Prop where
  ends : ∀ f ∈ fs, start ≤ f.stop ∧ f.stop ≤ stop

theorem EndIn.nil {start stop : Int} : EndIn start stop [] :=
  ⟨by simp⟩

theorem EndIn.ite {start stop : Int} {p : Prop} [Decidable p] {a b : Scan σ}
    (ha : EndIn start stop a.faults) (hb : EndIn start stop b.faults) :
    EndIn start stop (if p then a else b).faults := by
  by_cases h : p
  · rw [if_pos h]; exact ha
  · rw [if_neg h]; exact hb

theorem EndIn.single {start stop : Int} {f : Fault} (hstart : start ≤ f.stop)
    (hstop : f.stop ≤ stop) : EndIn start stop [f] :=
  ⟨List.forall_mem_singleton.mpr ⟨hstart, hstop⟩⟩

/-- A look may also find that a tag before it is unfinished. -/
theorem EndIn.unclosed {fs : List Fault} {hi : Nat} (h : EndIn pos hi fs) (hle : pos ≤ hi)
    (cause : Anomaly) (start : Int) : EndIn pos hi (⟨cause, start, pos⟩ :: fs) :=
  ⟨List.forall_mem_cons.mpr ⟨⟨Int.le_refl _, Int.ofNat_le.mpr hle⟩, h.ends⟩⟩

/-- Faults that begin at what was passed and end in the text ahead lie in the text. -/
theorem EndIn.lies {hi : Int} {fs : List Fault} (h : EndIn pos hi fs)
    (hstarts : ∀ f ∈ fs, Passed lo pos f.start) : ∀ f ∈ fs, f.Lies lo hi := by
  intro f hf
  obtain ⟨hlow, hpassed⟩ := hstarts f hf
  exact ⟨hlow, Int.le_trans hpassed (h.ends f hf).1, (h.ends f hf).2⟩

/-! ### Shared literals -/

theorem Lexing.delimited_ends (kind : TokenKind) (style what : String) (opener : Nat)
    (closer : List Char) (pos : Nat) (text : List Char) :
    EndIn pos (pos + text.length : Nat) (delimited kind style what opener closer pos text).2 := by
  unfold delimited
  split
  · exact .nil
  · exact .single (Int.ofNat_le.mpr (Nat.le_add_right _ _)) (Int.le_refl _)

theorem Lexing.quotedLiteral_ends (kind : TokenKind) (style what : String) (multiline : Bool)
    (quote : Char) (pos : Nat) (rest : List Char) :
    EndIn pos (pos + (rest.length + 1) : Nat)
      (quotedLiteral kind style what multiline quote pos rest).2 := by
  have hbody := literalBody_le quote multiline rest
  unfold quotedLiteral
  simp only
  split
  · exact .nil
  · exact .single (Int.ofNat_le.mpr (by omega)) (Int.ofNat_le.mpr (by omega))

/-! ### Stylesheets -/

namespace Stylesheet

theorem scanInStatement_ends (s : LexState) (pos : Nat) (c : Char) (rest : List Char) :
    EndIn pos (pos + (rest.length + 1) : Nat) (scanInStatement s pos c rest).faults :=
  .ite (quotedLiteral_ends ..) <| .ite .nil <| .ite (.ite .nil .nil) <| .ite (.ite .nil .nil) <|
  .ite .nil <| .ite (.ite .nil .nil) <| .ite .nil <| .ite .nil <| .ite .nil <|
  .ite (.ite .nil .nil) <| .ite .nil .nil

theorem scanRich_ends (s : LexState) (pos : Nat) (text : List Char) :
    EndIn pos (pos + text.length : Nat) (scanRich s pos text).faults := by
  cases text with
  | nil => exact .nil
  | cons c rest =>
      simp only [scanRich]
      split
      · exact .nil
      split
      · exact delimited_ends ..
      split
      · exact .nil
      split
      · exact .nil
      split
      · exact .nil
      split
      · exact .nil
      · exact scanInStatement_ends _ pos c rest

theorem scanStructural_ends (s : Unit) (pos : Nat) (text : List Char) :
    EndIn pos (pos + text.length : Nat) (scanStructural s pos text).faults := by
  cases text with
  | nil => exact .nil
  | cons c rest =>
      simp only [scanStructural]
      split
      · exact delimited_ends ..
      split
      · exact .nil
      split
      · exact quotedLiteral_ends ..
      · exact .nil

theorem lex_lies (detail : Detail) (pos : Nat) (text : List Char) :
    ∀ f ∈ (lex detail pos text).faults, f.Lies pos (pos + text.length : Nat) := by
  have hpassed {pos' : Nat} (hpos : (pos : Int) ≤ pos') : Passed pos pos' pos' :=
    ⟨hpos, Int.le_refl _⟩
  cases detail with
  | rich =>
      refine richScanner.run_lies (fun _ _ => True) (fun _ => id) ?_
        (by simp [richScanner]) {} pos text (Int.le_refl _) trivial
      exact fun s pos' text hpos _ =>
        ⟨trivial, (scanRich_ends s pos' text).lies (scanRich_starts s (hpassed hpos) text)⟩
  | structural =>
      refine structuralScanner.run_lies (fun _ _ => True) (fun _ => id) ?_
        (by simp [structuralScanner]) () pos text (Int.le_refl _) trivial
      exact fun s pos' text hpos _ => ⟨trivial, (scanStructural_ends s pos' text).lies
        (scanStructural_starts s (hpassed hpos) text)⟩

end Stylesheet

/-! ### Scripts -/

namespace Script

theorem Mode.Remembers.imp {P Q : Int → Prop} (h : ∀ x, P x → Q x) {mode : Mode}
    (hmode : mode.Remembers P) : mode.Remembers Q := by
  cases mode with
  | code => trivial
  | template | attributes | children => exact h _ hmode
  | endTag => exact ⟨h _ hmode.1, h _ hmode.2⟩

theorem Context.Remembers.imp {P Q : Int → Prop} (h : ∀ x, P x → Q x) {context : Context}
    (hcontext : context.Remembers P) : context.Remembers Q := by
  cases context with
  | template => trivial
  | attributes | children => exact h _ hcontext

theorem LexState.Remembers.imp {P Q : Int → Prop} (h : ∀ x, P x → Q x) {s : LexState}
    (hs : s.Remembers P) : s.Remembers Q :=
  ⟨hs.mode.imp h, fun frame hframe =>
    ⟨(hs.frames frame hframe).1.imp h, h _ (hs.frames frame hframe).2⟩⟩

theorem scanSlash_ends (s : LexState) (pos : Nat) (text : List Char) :
    EndIn pos (pos + text.length : Nat) (scanSlash s pos text).faults := by
  simp only [scanSlash]
  split
  · exact .nil
  split
  · exact delimited_ends ..
  split <;> exact .nil

theorem closeBrace_faults (s : LexState) : (closeBrace s).faults = [] := by
  unfold closeBrace
  grind

theorem scanCode_ends (detail : Detail) (s : LexState) (pos : Nat) (c : Char) (rest : List Char) :
    EndIn pos (pos + (rest.length + 1) : Nat) (scanCode detail s pos c rest).faults := by
  have hstep := scanCode_step detail s pos c rest
  generalize scanCode detail s pos c rest = step at hstep
  cases hstep with
  | slash => exact scanSlash_ends s pos (c :: rest)
  | quoted => exact quotedLiteral_ends ..
  | closeBrace => exact closeBrace_faults s ▸ .nil
  | _ => exact .nil

theorem scanTemplate_faults (s : LexState) (start : Nat) (c : Char) (rest : List Char) :
    (scanTemplate s start c rest).faults = [] := by
  unfold scanTemplate
  grind

theorem scanAttributes_ends (s : LexState) (region : Region) (pos : Nat) (c : Char)
    (rest : List Char) :
    EndIn pos (pos + (rest.length + 1) : Nat) (scanAttributes s region pos c rest).faults := by
  unfold scanAttributes
  split
  · exact .nil
  split
  · exact .nil
  split
  · exact .nil
  split
  · exact .nil
  split
  · exact quotedLiteral_ends ..
  split <;> exact .nil

theorem scanChildren_faults (s : LexState) (region : Region) (pos : Nat) (c : Char)
    (rest : List Char) : (scanChildren s region pos c rest).faults = [] := by
  unfold scanChildren openTag
  grind

theorem scanEndTag_ends (detail : Detail) (s : LexState) (region : Region) (name : String)
    (start pos : Nat) (c : Char) (rest : List Char) :
    EndIn pos (pos + (rest.length + 1) : Nat)
      (scanEndTag detail s region name start pos c rest).faults := by
  have hresumed : EndIn pos (pos + (rest.length + 1) : Nat)
      (scanResumed detail s region pos c rest).faults := by
    unfold scanResumed
    simp only
    split
    · exact scanCode_ends ..
    · exact scanChildren_faults .. ▸ .nil
  unfold scanEndTag
  split
  · exact .nil
  split
  · exact .nil
  · exact .unclosed hresumed (Nat.le_add_right _ _) _ _

theorem scan_ends (detail : Detail) (s : LexState) (pos : Nat) (text : List Char) :
    EndIn pos (pos + text.length : Nat) (scan detail s pos text).faults := by
  cases text with
  | nil => exact .nil
  | cons c rest =>
      simp only [scan]
      split
      · exact scanCode_ends ..
      · exact scanTemplate_faults .. ▸ .nil
      · exact scanAttributes_ends ..
      · exact scanChildren_faults .. ▸ .nil
      · exact scanEndTag_ends ..

theorem finish_ends (s : LexState) (pos : Nat) : EndIn pos pos (finish s pos) := by
  refine ⟨fun f hf => ?_⟩
  simp only [finish, List.mem_append, List.mem_filterMap, List.mem_reverse] at hf
  have hstop : f.stop = pos := by
    rcases hf with hf | ⟨frame, -, hf⟩
    · split at hf
      · exact absurd hf (by simp)
      · exact absurd hf (by simp)
      all_goals rw [List.mem_singleton.mp hf]
    · split at hf
      · cases hf
        rfl
      · cases hf
  exact ⟨Int.le_of_eq hstop.symm, Int.le_of_eq hstop⟩

theorem lex_lies (detail : Detail) (pos : Nat) (text : List Char) :
    ∀ f ∈ (lex detail pos text).faults, f.Lies pos (pos + text.length : Nat) := by
  have hrun := (scanner detail).run_lies (fun pos' s => s.Remembers (Passed pos pos'))
    (fun hle h => h.imp fun x hx => ⟨hx.1, Int.le_trans hx.2 (Int.ofNat_le.mpr hle)⟩)
    (fun s pos' text hpos h =>
      ⟨(scan_starts detail h ⟨hpos, Int.le_refl _⟩ text).1, (scan_ends detail s pos' text).lies
        (scan_starts detail h ⟨hpos, Int.le_refl _⟩ text).2⟩)
    (fun s pos' h => (finish_ends s pos').lies (finish_starts h pos'))
    {} pos text (Int.le_refl _) ⟨trivial, by simp⟩
  cases detail <;> exact hrun

end Script

/-! ### Markup -/

namespace Markup

theorem lexBody_lies (language : String) (detail : Detail) (pos : Nat) (text : List Char) :
    ∀ f ∈ (lexBody language detail pos text).faults, f.Lies pos (pos + text.length : Nat) := by
  unfold lexBody
  split
  · exact Stylesheet.lex_lies detail pos text
  split
  · exact Script.lex_lies detail pos text
  · simp

theorem Mode.Remembers.imp {P Q : Int → Prop} (h : ∀ x, P x → Q x) {mode : Mode}
    (hmode : mode.Remembers P) : mode.Remembers Q := by
  cases mode with
  | content | rawText => trivial
  | attributes | endTag => exact h _ hmode

theorem scanAngle_ends (pos : Nat) (text : List Char) :
    EndIn pos (pos + text.length : Nat) (scanAngle pos text).faults := by
  simp only [scanAngle]
  split
  · exact delimited_ends ..
  split
  · exact delimited_ends ..
  split
  · exact delimited_ends ..
  split
  · exact delimited_ends ..
  split
  · exact .nil
  split <;> exact .nil

theorem scanContent_ends (detail : Detail) (pos : Nat) (c : Char) (rest : List Char) :
    EndIn pos (pos + (rest.length + 1) : Nat) (scanContent detail pos c rest).faults := by
  unfold scanContent
  split
  · exact scanAngle_ends pos (c :: rest)
  · exact .nil

theorem scanAttributes_ends (tag : StartTag) (pos : Nat) (c : Char) (rest : List Char) :
    EndIn pos (pos + (rest.length + 1) : Nat) (scanAttributes tag pos c rest).faults := by
  unfold scanAttributes
  split
  · exact .nil
  split
  · exact .nil
  split
  · exact .nil
  split
  · exact .unclosed (scanAngle_ends pos (c :: rest)) (Nat.le_add_right _ _) _ _
  split
  · exact .nil
  split
  · unfold quotedValue
    split
    · exact .nil
    · have hline := countWhile_le (fun c => !isLineBreak c) rest
      exact .single (Int.ofNat_le.mpr (by omega)) (Int.ofNat_le.mpr (by omega))
  split
  · exact .nil
  split <;> exact .nil

theorem scanEndTag_ends (name : String) (start pos : Nat) (c : Char) (rest : List Char) :
    EndIn pos (pos + (rest.length + 1) : Nat) (scanEndTag name start pos c rest).faults := by
  unfold scanEndTag
  split
  · exact .nil
  split
  · exact .unclosed (scanAngle_ends pos (c :: rest)) (Nat.le_add_right _ _) _ _
  split <;> exact .nil

/-- A step that takes no raw text finds faults that lie in the text. -/
theorem Step.Outer.lies {step : Step} {hi : Int} (h : step.Outer (Passed lo pos) pos)
    (hpos : lo ≤ pos) (hends : EndIn pos hi step.faults) :
    step.mode.Remembers (Passed lo pos) ∧ ∀ f ∈ step.faults, f.Lies lo hi :=
  ⟨h.mode ⟨hpos, Int.le_refl _⟩, hends.lies (h.faults ⟨hpos, Int.le_refl _⟩)⟩

theorem scan_lies (surroundings : Surroundings) (mode : Mode) (pos : Nat) (text : List Char)
    (hpos : lo ≤ pos) (hmode : mode.Remembers (Passed lo pos)) :
    (scan surroundings mode pos text).state.Remembers (Passed lo pos)
      ∧ ∀ f ∈ (scan surroundings mode pos text).faults, f.Lies lo (pos + text.length : Nat) := by
  cases text with
  | nil => exact ⟨hmode, by simp [scan]⟩
  | cons c rest =>
      have hcontent := (scanContent_outer surroundings.detail c rest).lies hpos
        (scanContent_ends surroundings.detail pos c rest)
      cases mode with
      | content => exact hcontent
      | attributes tag =>
          exact (scanAttributes_outer hmode c rest).lies hpos (scanAttributes_ends tag pos c rest)
      | endTag name start =>
          exact (scanEndTag_outer name hmode c rest).lies hpos
            (scanEndTag_ends name start pos c rest)
      | rawText tag =>
          obtain ⟨embed, detail, lowered⟩ := surroundings
          rcases scanRawText_cases detail lowered tag pos c rest with hsame | ⟨n, -, hraw⟩
          · simp only [scan, hsame embed]
            exact hcontent
          · simp only [scan, hraw embed]
            refine ⟨trivial, fun f hf => ?_⟩
            split at hf
            · refine ((lexBody_lies _ _ _ _ f hf).le_low hpos).le_high ?_
              rw [List.length_take]
              omega
            · exact absurd hf (by simp)

theorem finish_ends (mode : Mode) (pos : Nat) : EndIn pos pos (finish mode pos) := by
  cases mode with
  | content | rawText => exact .nil
  | attributes | endTag => exact .single (Int.le_refl _) (Int.le_refl _)

theorem lex_lies (detail : Detail) (embed : Bool) (source : List Char) :
    ∀ f ∈ (lex detail embed source 0 none).faults, f.Lies 0 source.length := by
  have hrun (surroundings : Surroundings) (text : List Char) :
      ∀ f ∈ (((scanner surroundings).run 0 .content 0 text).keep detail).faults,
        f.Lies 0 text.length := by
    have hlies := (scanner surroundings).run_lies (fun pos mode => mode.Remembers (Passed 0 pos))
      (fun hle h => h.imp fun x hx => ⟨hx.1, Int.le_trans hx.2 (Int.ofNat_le.mpr hle)⟩)
      (fun mode pos text hpos h => scan_lies surroundings mode pos text hpos h)
      (fun mode pos h => (finish_ends mode pos).lies (finish_starts h))
      .content 0 text (Int.le_refl _) trivial
    rw [Nat.zero_add] at hlies
    cases detail <;> exact hlies
  have hlen := length_boundedText (Nat.zero_le _) (Nat.le_refl source.length)
  rw [Nat.zero_add] at hlen
  intro f hf
  have hlies := hrun _ _ f hf
  rw [Option.getD_none, Nat.min_self, hlen] at hlies
  exact hlies

end Markup

/-- **Every fault that a lexer finds lies in the text.** -/
theorem Language.lex_lies (language : Language) (detail : Detail) (embed : Bool)
    (source : List Char) :
    ∀ f ∈ (language.lex detail embed source 0 none).faults, f.Lies 0 source.length := by
  cases language with
  | markup =>
      rw [lex_markup]
      exact Markup.lex_lies detail embed source
  | stylesheet =>
      have hlies := Stylesheet.lex_lies detail 0 source
      rw [Nat.zero_add] at hlies
      rw [lex_stylesheet_whole]
      exact hlies
  | script =>
      have hlies := Script.lex_lies detail 0 source
      rw [Nat.zero_add] at hlies
      rw [lex_script_whole]
      exact hlies

end SourceView
