/-
Runs that begin elsewhere.

The scanners of stylesheets and of scripts look at the text ahead and at nothing else.  The
offset of that text goes into the faults, and a script remembers in its state where the
constructs began that it is inside of; neither is ever asked for again.  So a run that begins
`d` characters further on takes the same steps in a shifted state, and its outcome is the
outcome of the run, shifted.

For any scanner it is enough to know this of one look (`Scanner.run_shift`).
-/
import SourceView.Proofs.Lexing.Coverage

namespace SourceView

/-! ### Offsets that are moved -/

mutual

/-- The token with every offset moved by `d`. -/
def Token.shift (d : Int) : Token → Token
  | ⟨kind, value, start, stop, style, language, embedded⟩ =>
    ⟨kind, value, start + d, stop + d, style, language, Token.shiftAll d embedded⟩

/-- The tokens with every offset moved by `d`. -/
def Token.shiftAll (d : Int) : List Token → List Token
  | [] => []
  | t :: ts => t.shift d :: Token.shiftAll d ts

end

namespace Token

@[simp] theorem kind_shift (d : Int) (t : Token) : (t.shift d).kind = t.kind := by
  cases t; rfl

@[simp] theorem value_shift (d : Int) (t : Token) : (t.shift d).value = t.value := by
  cases t; rfl

@[simp] theorem start_shift (d : Int) (t : Token) : (t.shift d).start = t.start + d := by
  cases t; rfl

@[simp] theorem stop_shift (d : Int) (t : Token) : (t.shift d).stop = t.stop + d := by
  cases t; rfl

end Token

/-- The fault with its span moved by `d`. -/
def Fault.shift (d : Int) (f : Fault) : Fault :=
  { f with start := f.start + d, stop := f.stop + d }

/-- The outcome of a run with every offset moved by `d`. -/
def Lexing.shift (d : Int) (l : Lexing) : Lexing :=
  ⟨l.tokens.map (Token.shift d), l.faults.map (Fault.shift d)⟩

theorem Lexing.keep_shift (detail : Detail) (d : Int) (l : Lexing) :
    (l.shift d).keep detail = (l.keep detail).shift d := by
  cases detail with
  | rich => rfl
  | structural => simp [Lexing.keep, Lexing.shift, List.filter_map, Function.comp_def]

/-! ### Any scanner -/

variable {σ : Type}

/-- The scan in states moved by `move`, with its faults moved by `d`. -/
def Scan.shift (move : σ → σ) (d : Nat) (s : Scan σ) : Scan σ :=
  { s with state := move s.state, faults := s.faults.map (Fault.shift d) }

theorem Scan.pieces_shift (move : σ → σ) (d : Nat) (s : Scan σ) :
    (s.shift move d).pieces = s.pieces :=
  rfl

/-- A test that does not look at the offset decides alike in both scans. -/
theorem Scan.ite_shift {move : σ → σ} {d : Nat} {p : Prop} [Decidable p] {a a' b b' : Scan σ}
    (ha : a' = a.shift move d) (hb : b' = b.shift move d) :
    (if p then a' else b') = (if p then a else b).shift move d := by
  rw [ha, hb]
  exact (apply_ite (Scan.shift move d) p a b).symm

theorem Lexeme.token_shift {l : Lexeme} (h : l.embedded = []) (d pos : Nat) (text : List Char) :
    l.token (pos + d) text = (l.token pos text).shift d := by
  simp only [Lexeme.token, Token.shift, h, Token.shiftAll, Token.mk.injEq, true_and, and_true]
  omega

theorem Lexeme.cut_shift {ls : List Lexeme} (h : ∀ l ∈ ls, l.embedded = []) (d pos : Nat)
    (text : List Char) : cut (pos + d) text ls = (cut pos text ls).map (Token.shift d) := by
  induction ls generalizing pos text with
  | nil => rfl
  | cons l ls ih =>
      rw [cut, cut, List.map_cons, token_shift (h l (by simp)), Nat.add_right_comm,
        ih fun m hm => h m (by simp [hm])]

theorem Scan.Plain.pieces {s : Scan σ} (h : s.Plain) : ∀ l ∈ s.pieces, l.embedded = [] := by
  intro l hl
  rcases Scan.mem_pieces hl with hl | rfl
  · exact h l hl
  · rfl

/-- A run that begins further on takes the same steps, if each look is the same from there. -/
theorem Scanner.run_shift (scanner : Scanner σ) (move : σ → σ) (d : Nat)
    (hplain : ∀ state pos text, (scanner.scan state pos text).Plain)
    (hscan : ∀ state pos text,
      scanner.scan (move state) (pos + d) text = (scanner.scan state pos text).shift move d)
    (hfinish : ∀ state pos,
      scanner.finish (move state) (pos + d) = (scanner.finish state pos).map (Fault.shift d))
    (state : σ) (pos : Nat) (text : List Char) :
    scanner.run 0 (move state) (pos + d) text = (scanner.run 0 state pos text).shift d := by
  induction state, pos, text using scanner.run_induction with
  | done state pos =>
      simp only [run, hfinish, Lexing.shift, List.map_nil]
  | step state pos text htext rest ih =>
      have hcut := Lexeme.cut_shift (hplain state pos text).pieces d pos text
      have hfaults : ((scanner.scan state pos text).shift move d).faults
          = (scanner.scan state pos text).faults.map (Fault.shift d) := rfl
      have hstate : ((scanner.scan state pos text).shift move d).state
          = move (scanner.scan state pos text).state := rfl
      rw [Nat.add_right_comm] at ih
      rw [scanner.run_eq _ _ htext, hscan]
      simp only [Scan.pieces_shift, hcut, hfaults, hstate, ih, Lexing.shift, List.map_append]

/-! ### Shared literals -/

namespace Lexing

theorem delimited_shift (kind : TokenKind) (style what : String) (opener : Nat)
    (closer : List Char) (d pos : Nat) (text : List Char) :
    delimited kind style what opener closer (pos + d) text
      = ((delimited kind style what opener closer pos text).1,
          (delimited kind style what opener closer pos text).2.map (Fault.shift d)) := by
  unfold delimited
  cases Text.findIndex? closer (text.drop opener) with
  | some inner => rfl
  | none =>
      simp only [List.map_cons, List.map_nil, Fault.shift, Nat.add_right_comm pos d]
      rfl

theorem quotedLiteral_shift (kind : TokenKind) (style what : String) (multiline : Bool)
    (quote : Char) (d pos : Nat) (rest : List Char) :
    quotedLiteral kind style what multiline quote (pos + d) rest
      = ((quotedLiteral kind style what multiline quote pos rest).1,
          (quotedLiteral kind style what multiline quote pos rest).2.map (Fault.shift d)) := by
  unfold quotedLiteral
  by_cases hclosed : (literalBody quote multiline rest).2 = true
  · simp only [hclosed, if_true, List.map_nil]
  · simp only [hclosed, Bool.false_eq_true, if_false, List.map_cons, List.map_nil, Fault.shift,
      Nat.add_right_comm pos d]
    rfl

end Lexing

open Lexing

/-! ### Stylesheets -/

namespace Stylesheet

open Scan (ite_shift)

variable (d pos : Nat)

theorem scanInStatement_shift (s : LexState) (c : Char) (rest : List Char) :
    scanInStatement s (pos + d) c rest = (scanInStatement s pos c rest).shift id d := by
  unfold scanInStatement
  refine ite_shift (by rw [quotedLiteral_shift]; rfl) ?_
  refine ite_shift rfl <| ite_shift ?_ <| ite_shift ?_ <| ite_shift rfl <| ite_shift ?_ <|
    ite_shift rfl <| ite_shift rfl <| ite_shift rfl <| ite_shift ?_ <| ite_shift rfl rfl
  · exact ite_shift rfl rfl
  · exact ite_shift rfl rfl
  · exact ite_shift rfl rfl
  · exact ite_shift rfl rfl

theorem scanRich_shift (s : LexState) (text : List Char) :
    scanRich s (pos + d) text = (scanRich s pos text).shift id d := by
  cases text with
  | nil => rfl
  | cons c rest =>
      simp only [scanRich]
      cases whitespace? (c :: rest) with
      | some l => rfl
      | none =>
          refine ite_shift (by rw [delimited_shift]; rfl) ?_
          refine ite_shift rfl <| ite_shift rfl <| ite_shift rfl ?_
          cases delimiter? c with
          | some kind => rfl
          | none => exact scanInStatement_shift d pos (s.begin (c :: rest)) c rest

theorem scanStructural_shift (s : Unit) (text : List Char) :
    scanStructural s (pos + d) text = (scanStructural s pos text).shift id d := by
  cases text with
  | nil => rfl
  | cons c rest =>
      simp only [scanStructural]
      refine ite_shift (by rw [delimited_shift]; rfl) ?_
      cases delimiter? c with
      | some kind => rfl
      | none => exact ite_shift (by rw [quotedLiteral_shift]; rfl) rfl

/-- **A stylesheet is cut alike wherever it lies.** -/
theorem lex_shift (detail : Detail) (text : List Char) :
    lex detail (pos + d) text = (lex detail pos text).shift d := by
  cases detail with
  | rich =>
      exact richScanner.run_shift id d scanRich_plain (fun s pos text => scanRich_shift d pos s text)
        (fun _ _ => rfl) {} pos text
  | structural =>
      have hrun := structuralScanner.run_shift id d scanStructural_plain
        (fun s pos text => scanStructural_shift d pos s text) (fun _ _ => rfl) () pos text
      exact (congrArg (Lexing.keep .structural) hrun).trans (Lexing.keep_shift _ _ _)

end Stylesheet

/-! ### Scripts -/

namespace Script

def Region.shift (d : Nat) (r : Region) : Region :=
  { r with start := r.start + d }

def Context.shift (d : Nat) : Context → Context
  | template => template
  | attributes region => attributes (region.shift d)
  | children region => children (region.shift d)

def Frame.shift (d : Nat) (f : Frame) : Frame :=
  { f with context := f.context.shift d, start := f.start + d }

def Mode.shift (d : Nat) : Mode → Mode
  | code => code
  | template start => template (start + d)
  | attributes region => attributes (region.shift d)
  | children region => children (region.shift d)
  | endTag region name start => endTag (region.shift d) name (start + d)

/-- The state in which all that was begun was begun `d` characters further on. -/
def LexState.shift (d : Nat) (s : LexState) : LexState :=
  { s with mode := s.mode.shift d, frames := s.frames.map (Frame.shift d) }

def Step.shift (d : Nat) (step : Step) : Step :=
  { step with state := step.state.shift d, faults := step.faults.map (Fault.shift d) }

theorem Step.ite_shift {d : Nat} {p : Prop} [Decidable p] {a a' b b' : Step}
    (ha : a' = a.shift d) (hb : b' = b.shift d) :
    (if p then a' else b') = (if p then a else b).shift d := by
  rw [ha, hb]
  exact (apply_ite (Step.shift d) p a b).symm

open Step (ite_shift)

variable (d pos : Nat)

theorem Region.resume_shift (region : Region) :
    (region.shift d).resume = region.resume.shift d := by
  unfold Region.resume
  rw [apply_ite (Mode.shift d)]
  rfl

theorem Region.close_shift (region : Region) (name : String) :
    (region.shift d).close name = (region.close name).shift d := by
  unfold Region.close
  rw [apply_ite (Region.shift d)]
  rfl

theorem LexState.remember_shift (s : LexState) (kind : TokenKind) (piece : List Char) :
    (s.shift d).remember kind piece = (s.remember kind piece).shift d := by
  unfold remember
  rw [apply_ite (LexState.shift d)]
  rfl

theorem closeBrace_shift (s : LexState) : closeBrace (s.shift d) = (closeBrace s).shift d := by
  obtain ⟨mode, depth, frames, lastChar, lastWord, afterMember⟩ := s
  cases frames with
  | nil => rfl
  | cons frame frames =>
      obtain ⟨context, at_, start⟩ := frame
      cases context <;> exact ite_shift rfl rfl

theorem scanSlash_shift (s : LexState) (text : List Char) :
    scanSlash (s.shift d) (pos + d) text = (scanSlash s pos text).shift d := by
  have hallowed : (s.shift d).expressionAllowed = s.expressionAllowed := rfl
  unfold scanSlash
  refine ite_shift rfl <| ite_shift (by rw [delimited_shift]; rfl) ?_
  rw [hallowed]
  cases (if s.expressionAllowed then regex? text.tail else none) <;> rfl

theorem scanCode_shift (detail : Detail) (s : LexState) (c : Char) (rest : List Char) :
    scanCode detail (s.shift d) (pos + d) c rest = (scanCode detail s pos c rest).shift d := by
  unfold scanCode
  cases whitespace? (c :: rest) with
  | some l => rfl
  | none =>
      refine ite_shift (scanSlash_shift d pos s _) <| ite_shift ?_ <| ite_shift rfl <|
        ite_shift rfl <| ite_shift (closeBrace_shift d s) ?_
      · rw [quotedLiteral_shift]
        rfl
      cases bracket? c with
      | some kind => rfl
      | none =>
          exact ite_shift rfl <| ite_shift rfl <| ite_shift rfl <| ite_shift rfl <|
            ite_shift rfl rfl

theorem scanTemplate_shift (s : LexState) (start : Nat) (c : Char) (rest : List Char) :
    scanTemplate (s.shift d) (start + d) c rest = (scanTemplate s start c rest).shift d :=
  ite_shift rfl <| ite_shift rfl rfl

theorem scanAttributes_shift (s : LexState) (region : Region) (c : Char) (rest : List Char) :
    scanAttributes (s.shift d) (region.shift d) (pos + d) c rest
      = (scanAttributes s region pos c rest).shift d := by
  unfold scanAttributes
  cases whitespace? (c :: rest) with
  | some l => rfl
  | none =>
      refine ite_shift rfl <| ite_shift ?_ <| ite_shift rfl <| ite_shift ?_ <| ite_shift rfl rfl
      · have hresume := Region.resume_shift d { region with tag := "" }
        simp only [Step.shift, LexState.shift, List.map_nil, ← hresume]
        rfl
      · rw [quotedLiteral_shift]
        rfl

theorem scanChildren_shift (s : LexState) (region : Region) (c : Char) (rest : List Char) :
    scanChildren (s.shift d) (region.shift d) (pos + d) c rest
      = (scanChildren s region pos c rest).shift d := by
  unfold scanChildren
  refine ite_shift rfl <| ite_shift ?_ <| ite_shift rfl ?_
  · simp only [Region.close_shift]
    rfl
  · cases whitespace? (c :: rest) <;> rfl

theorem scanResumed_shift (detail : Detail) (s : LexState) (region : Region) (c : Char)
    (rest : List Char) :
    scanResumed detail (s.shift d) (region.shift d) (pos + d) c rest
      = (scanResumed detail s region pos c rest).shift d := by
  unfold scanResumed
  rw [Region.resume_shift]
  exact ite_shift (scanCode_shift d pos detail { s with mode := region.resume } c rest)
    (scanChildren_shift d pos { s with mode := region.resume } region c rest)

theorem scanEndTag_shift (detail : Detail) (s : LexState) (region : Region) (name : String)
    (start : Nat) (c : Char) (rest : List Char) :
    scanEndTag detail (s.shift d) (region.shift d) name (start + d) (pos + d) c rest
      = (scanEndTag detail s region name start pos c rest).shift d := by
  unfold scanEndTag
  refine ite_shift ?_ ?_
  · rw [Region.resume_shift]
    rfl
  cases whitespace? (c :: rest) with
  | some l => rfl
  | none =>
      simp only [scanResumed_shift]
      rfl

theorem scan_shift (detail : Detail) (s : LexState) (text : List Char) :
    scan detail (s.shift d) (pos + d) text = (scan detail s pos text).shift (LexState.shift d) d := by
  cases text with
  | nil => rfl
  | cons c rest =>
      -- What a step is taken into is remembered alike.
      have hstep {step step' : Step} (h : step' = step.shift d) :
          (⟨[step'.lexeme], step'.state.remember step'.lexeme.kind
              ((c :: rest).take step'.lexeme.length), step'.faults⟩ : Scan LexState)
            = Scan.shift (LexState.shift d) d
                ⟨[step.lexeme], step.state.remember step.lexeme.kind
                  ((c :: rest).take step.lexeme.length), step.faults⟩ := by
        rw [h, Scan.shift, ← LexState.remember_shift]
        rfl
      unfold scan
      refine hstep ?_
      have hmode : (s.shift d).mode = s.mode.shift d := rfl
      rw [hmode]
      cases s.mode with
      | code => exact scanCode_shift d pos detail s c rest
      | template start => exact scanTemplate_shift d s start c rest
      | attributes region => exact scanAttributes_shift d pos s region c rest
      | children region => exact scanChildren_shift d pos s region c rest
      | endTag region name start =>
          exact scanEndTag_shift d pos detail s region name start c rest

theorem finish_shift (s : LexState) :
    finish (s.shift d) (pos + d) = (finish s pos).map (Fault.shift d) := by
  have hframes : (s.shift d).frames = s.frames.map (Frame.shift d) := rfl
  have hmode : (s.shift d).mode = s.mode.shift d := rfl
  simp only [finish]
  rw [hframes, hmode, List.map_append, ← List.map_reverse, List.filterMap_map, List.map_filterMap]
  congr 1
  · cases s.mode <;> rfl
  · refine congrArg (fun f => List.filterMap f s.frames.reverse) (funext fun frame => ?_)
    obtain ⟨context, at_, start⟩ := frame
    cases context <;> rfl

/-- **A script is cut alike wherever it lies.** -/
theorem lex_shift (detail : Detail) (text : List Char) :
    lex detail (pos + d) text = (lex detail pos text).shift d := by
  have hrun := (scanner detail).run_shift (LexState.shift d) d (scan_plain detail)
    (fun s pos text => scan_shift d pos detail s text) (fun s pos => finish_shift d pos s) {} pos text
  exact (congrArg (Lexing.keep detail) hrun).trans (Lexing.keep_shift _ _ _)

end Script

/-! ### Parts of a text -/

/-- The part of a text that stands between two others. -/
theorem boundedText_append (before body after : List Char) :
    boundedText (before ++ body ++ after) before.length (some (before.length + body.length))
      = body := by
  rw [boundedText, ← List.length_append, List.take_left, List.drop_left]

/-- **Bounded to a part of a text, a stylesheet or a script is cut as that part alone is.** -/
theorem Language.lex_shift {language : Language} (h : language ≠ .markup) (detail : Detail)
    (embed : Bool) (before body after : List Char) :
    language.lex detail embed (before ++ body ++ after) before.length
        (some (before.length + body.length))
      = (language.lex detail embed body 0 none).shift before.length := by
  cases language with
  | markup => exact absurd rfl h
  | stylesheet =>
      have hshift := Stylesheet.lex_shift before.length 0 detail body
      rw [Nat.zero_add] at hshift
      rw [lex_stylesheet, lex_stylesheet_whole, boundedText_append]
      exact hshift
  | script =>
      have hshift := Script.lex_shift before.length 0 detail body
      rw [Nat.zero_add] at hshift
      rw [lex_script, lex_script_whole, boundedText_append]
      exact hshift

end SourceView
