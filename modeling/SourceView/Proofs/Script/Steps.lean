/-
What a step over code may be.

Code is cut into pieces by a chain of tests, the first of which decides.  Here it is said
once what a step of code can be and what is known where it is taken; whatever is to hold of
every step is then a case each.
-/
import SourceView.Proofs.Script.Ahead

namespace SourceView.Script

open Lexing

/-- The steps over code at the character `c`. -/
inductive CodeStep (detail : Detail) (s : LexState) (pos : Nat) (c : Char) (rest : List Char) :
    Step → Prop
  | space {l : Lexeme} (hspace : whitespace? (c :: rest) = some l) :
      CodeStep detail s pos c rest { lexeme := l, state := s }
  | slash (hc : (c == '/') = true) : CodeStep detail s pos c rest (scanSlash s pos (c :: rest))
  | quoted (hc : (c == '"' || c == '\'') = true) :
      CodeStep detail s pos c rest
        { lexeme := (quotedLiteral .string "string" "string literal" false c pos rest).1
          state := s
          faults := (quotedLiteral .string "string" "string literal" false c pos rest).2 }
  | template (hc : (c == '\x60') = true) :
      CodeStep detail s pos c rest
        { lexeme := { kind := .templateStart, length := 1, style := "string" }
          state := { s with mode := .template pos } }
  | openBrace (hc : (c == '{') = true) :
      CodeStep detail s pos c rest
        { lexeme := mark .blockOpen, state := { s with depth := s.depth + 1 } }
  | closeBrace (hc : (c == '}') = true) : CodeStep detail s pos c rest (closeBrace s)
  | bracket {kind : TokenKind} (hc : bracket? c = some kind) :
      CodeStep detail s pos c rest { lexeme := mark kind, state := s }
  | tag (hc : (c == '<' && s.expressionAllowed && startsTagName rest) = true) :
      CodeStep detail s pos c rest (openTag s { start := pos } (c :: rest))
  | number (hc : (c.isDigit || (c == '.' && startsDigit rest)) = true) :
      CodeStep detail s pos c rest { lexeme := number (c :: rest), state := s }
  | word (hc : isNameStart c = true) :
      CodeStep detail s pos c rest { lexeme := word detail s 1 (c :: rest), state := s }
  | privateWord (hc : (c == '#' && rest.head?.any isNameStart) = true) :
      CodeStep detail s pos c rest { lexeme := word detail s 2 (c :: rest), state := s }
  | punctuation
      (hc : (c == ';' || c == ',' || (c == '.' && !(Text.startsWith rest ['.', '.']))) = true) :
      CodeStep detail s pos c rest { lexeme := mark .punctuation, state := s }
  | operator : CodeStep detail s pos c rest { lexeme := operator (c :: rest), state := s }

variable {detail : Detail} {s : LexState} {pos : Nat} {c : Char} {rest : List Char}

/-- The test at hand decides, or the steps after it are those that are left. -/
theorem CodeStep.ite {p : Prop} [Decidable p] {a b : Step} (ha : p → CodeStep detail s pos c rest a)
    (hb : CodeStep detail s pos c rest b) : CodeStep detail s pos c rest (if p then a else b) := by
  by_cases h : p
  · rw [if_pos h]
    exact ha h
  · rw [if_neg h]
    exact hb

theorem scanCode_step (detail : Detail) (s : LexState) (pos : Nat) (c : Char) (rest : List Char) :
    CodeStep detail s pos c rest (scanCode detail s pos c rest) := by
  unfold scanCode
  cases hspace : whitespace? (c :: rest) with
  | some l => exact .space hspace
  | none =>
      refine .ite .slash <| .ite .quoted <| .ite .template <| .ite .openBrace <| .ite .closeBrace ?_
      cases hbracket : bracket? c with
      | some kind => exact .bracket hbracket
      | none =>
          exact .ite .tag <| .ite .number <| .ite .word <| .ite .privateWord <|
            .ite .punctuation .operator

end SourceView.Script
