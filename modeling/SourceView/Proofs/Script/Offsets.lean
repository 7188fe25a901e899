/-
Offsets are never asked for.

A script remembers where the constructs began that it is inside of, and the offset of the text ahead
goes into what it remembers and into the faults.  Nothing that it does depends on either.  So looks
at one text in states that differ in offsets alone name the same pieces, find the same causes, and
leave states that differ in offsets alone (`scan_forgets`).
-/
import SourceView.Proofs.Script.Ahead

namespace SourceView.Script

open Lexing

def Region.forget (r : Region) : Region :=
  { r with start := 0 }

def Context.forget : Context → Context
  | template => template
  | attributes region => attributes region.forget
  | children region => children region.forget

def Frame.forget (f : Frame) : Frame :=
  { f with context := f.context.forget, start := 0 }

def Mode.forget : Mode → Mode
  | code => code
  | template _ => template 0
  | attributes region => attributes region.forget
  | children region => children region.forget
  | endTag region name _ => endTag region.forget name 0

/-- The state as far as it does not say where what is being read began. -/
def LexState.forget (s : LexState) : LexState :=
  { s with mode := s.mode.forget, frames := s.frames.map Frame.forget }

/-- The step `b` is the step `a` as far as that does not say where. -/
structure Step.Forgets (a b : Step) : Prop where
  lexeme : b.lexeme = a.lexeme
  state : b.state = a.state.forget
  causes : b.faults.map Fault.cause = a.faults.map Fault.cause

namespace Step.Forgets

theorem ite {p : Prop} [Decidable p] {a a' b b' : Step} (ha : a.Forgets a') (hb : b.Forgets b') :
    (if p then a else b).Forgets (if p then a' else b') := by
  by_cases h : p
  · rw [if_pos h, if_pos h]
    exact ha
  · rw [if_neg h, if_neg h]
    exact hb

theorem silent (l : Lexeme) (s : LexState) :
    Step.Forgets { lexeme := l, state := s } { lexeme := l, state := s.forget } :=
  ⟨rfl, rfl, rfl⟩

end Step.Forgets

theorem Region.resume_forget (region : Region) : region.forget.resume = region.resume.forget := by
  unfold Region.resume
  rw [apply_ite Mode.forget]
  rfl

theorem Region.close_forget (region : Region) (name : String) :
    region.forget.close name = (region.close name).forget := by
  unfold Region.close
  rw [apply_ite Region.forget]
  rfl

theorem LexState.remember_forget (s : LexState) (kind : TokenKind) (piece : List Char) :
    s.forget.remember kind piece = (s.remember kind piece).forget := by
  unfold remember
  rw [apply_ite LexState.forget]
  rfl

variable (pos : Nat)

theorem closeBrace_forgets (s : LexState) : (closeBrace s).Forgets (closeBrace s.forget) := by
  obtain ⟨mode, depth, frames, lastChar, lastWord, afterMember⟩ := s
  cases frames with
  | nil => exact ⟨rfl, rfl, rfl⟩
  | cons frame frames =>
      obtain ⟨context, at_, start⟩ := frame
      cases context <;> exact .ite ⟨rfl, rfl, rfl⟩ ⟨rfl, rfl, rfl⟩

theorem quotedLiteral_forgets (kind : TokenKind) (style what : String) (multiline : Bool)
    (quote : Char) (s : LexState) (rest : List Char) :
    Step.Forgets
      ⟨(quotedLiteral kind style what multiline quote pos rest).1, s,
        (quotedLiteral kind style what multiline quote pos rest).2⟩
      ⟨(quotedLiteral kind style what multiline quote 0 rest).1, s.forget,
        (quotedLiteral kind style what multiline quote 0 rest).2⟩ := by
  unfold quotedLiteral
  rcases literalBody quote multiline rest with ⟨n, closed⟩
  cases closed <;> exact ⟨rfl, rfl, rfl⟩

theorem scanSlash_forgets (s : LexState) (text : List Char) :
    (scanSlash s pos text).Forgets (scanSlash s.forget 0 text) := by
  have hallowed : s.forget.expressionAllowed = s.expressionAllowed := rfl
  unfold scanSlash
  refine .ite (.silent _ s) <| .ite ?_ ?_
  · unfold delimited
    cases Text.findIndex? ['*', '/'] (text.drop 2) <;> exact ⟨rfl, rfl, rfl⟩
  · rw [hallowed]
    cases (if s.expressionAllowed then regex? text.tail else none) <;> exact .silent _ s

theorem scanCode_forgets (detail : Detail) (s : LexState) (c : Char) (rest : List Char) :
    (scanCode detail s pos c rest).Forgets (scanCode detail s.forget 0 c rest) := by
  unfold scanCode
  cases whitespace? (c :: rest) with
  | some l => exact .silent l s
  | none =>
      refine .ite (scanSlash_forgets pos s _) <|
        .ite (quotedLiteral_forgets pos _ _ _ _ c s rest) <| .ite ⟨rfl, rfl, rfl⟩ <|
        .ite ⟨rfl, rfl, rfl⟩ <| .ite (closeBrace_forgets s) ?_
      cases bracket? c with
      | some kind => exact .silent _ s
      | none =>
          exact .ite ⟨rfl, rfl, rfl⟩ <| .ite (.silent _ s) <| .ite (.silent _ s) <|
            .ite (.silent _ s) <| .ite (.silent _ s) (.silent _ s)

theorem scanTemplate_forgets (s : LexState) (start : Nat) (c : Char) (rest : List Char) :
    (scanTemplate s start c rest).Forgets (scanTemplate s.forget 0 c rest) :=
  .ite ⟨rfl, rfl, rfl⟩ <| .ite ⟨rfl, rfl, rfl⟩ (.silent _ s)

theorem scanAttributes_forgets (s : LexState) (region : Region) (c : Char) (rest : List Char) :
    (scanAttributes s region pos c rest).Forgets
      (scanAttributes s.forget region.forget 0 c rest) := by
  unfold scanAttributes
  cases whitespace? (c :: rest) with
  | some l => exact .silent l s
  | none =>
      refine .ite ⟨rfl, rfl, rfl⟩ <| .ite ⟨rfl, ?_, rfl⟩ <| .ite ⟨rfl, rfl, rfl⟩ <|
        .ite (quotedLiteral_forgets pos _ _ _ _ c s rest) <| .ite (.silent _ s) (.silent _ s)
      have hresume := Region.resume_forget { region with tag := "" }
      simp only [LexState.forget, ← hresume]
      rfl

theorem scanChildren_forgets (s : LexState) (region : Region) (c : Char) (rest : List Char) :
    (scanChildren s region pos c rest).Forgets (scanChildren s.forget region.forget 0 c rest) := by
  unfold scanChildren
  refine .ite ⟨rfl, rfl, rfl⟩ <| .ite ⟨rfl, ?_, rfl⟩ <| .ite ⟨rfl, rfl, rfl⟩ ?_
  · simp only [Region.close_forget]
    rfl
  · cases whitespace? (c :: rest) <;> exact .silent _ s

theorem scanResumed_forgets (detail : Detail) (s : LexState) (region : Region) (c : Char)
    (rest : List Char) :
    (scanResumed detail s region pos c rest).Forgets
      (scanResumed detail s.forget region.forget 0 c rest) := by
  unfold scanResumed
  rw [Region.resume_forget]
  exact .ite (scanCode_forgets pos detail { s with mode := region.resume } c rest)
    (scanChildren_forgets pos { s with mode := region.resume } region c rest)

theorem scanEndTag_forgets (detail : Detail) (s : LexState) (region : Region) (name : String)
    (start : Nat) (c : Char) (rest : List Char) :
    (scanEndTag detail s region name start pos c rest).Forgets
      (scanEndTag detail s.forget region.forget name 0 0 c rest) := by
  unfold scanEndTag
  refine .ite ⟨rfl, ?_, rfl⟩ ?_
  · rw [Region.resume_forget]
    rfl
  cases whitespace? (c :: rest) with
  | some l => exact .silent l s
  | none =>
      have hresumed := scanResumed_forgets pos detail s region c rest
      exact ⟨hresumed.lexeme, hresumed.state, congrArg (_ :: ·) hresumed.causes⟩

/-- A look does what it does without the offsets. -/
theorem scan_forgets (detail : Detail) (s : LexState) (text : List Char) :
    (scan detail s.forget 0 text).lexemes = (scan detail s pos text).lexemes
      ∧ (scan detail s.forget 0 text).state = (scan detail s pos text).state.forget
      ∧ (scan detail s.forget 0 text).faults.map Fault.cause
        = (scan detail s pos text).faults.map Fault.cause := by
  cases text with
  | nil => exact ⟨rfl, rfl, rfl⟩
  | cons c rest =>
      have hlook {a b : Step} (h : a.Forgets b) :
          [b.lexeme] = [a.lexeme]
            ∧ b.state.remember b.lexeme.kind ((c :: rest).take b.lexeme.length)
              = (a.state.remember a.lexeme.kind ((c :: rest).take a.lexeme.length)).forget
            ∧ b.faults.map Fault.cause = a.faults.map Fault.cause := by
        rw [h.lexeme, h.state, LexState.remember_forget]
        exact ⟨rfl, rfl, h.causes⟩
      refine hlook ?_
      have hmode : s.forget.mode = s.mode.forget := rfl
      rw [hmode]
      cases s.mode with
      | code => exact scanCode_forgets pos detail s c rest
      | template start => exact scanTemplate_forgets s start c rest
      | attributes region => exact scanAttributes_forgets pos s region c rest
      | children region => exact scanChildren_forgets pos s region c rest
      | endTag region name start => exact scanEndTag_forgets pos detail s region name start c rest

theorem finish_forgets (s : LexState) :
    (finish s.forget 0).map Fault.cause = (finish s pos).map Fault.cause := by
  unfold finish
  rw [List.map_append, List.map_append]
  congr 1
  · have hmode : s.forget.mode = s.mode.forget := rfl
    rw [hmode]
    cases s.mode <;> rfl
  · rw [LexState.forget, ← List.map_reverse, List.filterMap_map, List.map_filterMap,
      List.map_filterMap]
    congr 1
    funext frame
    obtain ⟨context, depth, start⟩ := frame
    cases context <;> rfl

end SourceView.Script
