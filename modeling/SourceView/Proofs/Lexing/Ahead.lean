/-
Scanning told by the text ahead.

A run has the whole source at hand and speaks of it by offsets.  What it does depends only on the
characters that are still ahead of it, up to its bound, and for proofs it is easier to have just
those: a scan takes the text ahead and names the pieces that come next, each by its kind and its
number of characters, and the run cuts the text into the pieces.

The run walks over the characters one by one.  `skip` counts the characters ahead that the
last scan has spoken for; at zero the scanner is asked again.
-/
import SourceView.Lexing.Literal

namespace SourceView

/-- A piece of the text ahead: what it is and how many characters it takes. -/
structure Lexeme where
  kind : TokenKind
  length : Nat
  style : String := ""
  language : String := ""
  embedded : List Token := []

/-- The outcome of one look at the text ahead: the pieces that come next, the state after
them, and what is wrong with them. -/
structure Scan (σ : Type) where
  lexemes : List Lexeme
  state : σ
  faults : List Fault := []

/-- A language's way of scanning.  `scan` gets the offset of the text ahead, which is not
empty; `finish` tells what is still unfinished when the text ends. -/
structure Scanner (σ : Type) where
  scan : σ → Nat → List Char → Scan σ
  finish : σ → Nat → List Fault

namespace Lexeme

/-- The piece that stands for a character no rule knows. -/
def unknown : Lexeme :=
  { kind := .unknown, length := 1, style := "unknown" }

/-- The number of characters that the pieces take together. -/
def width : List Lexeme → Nat
  | [] => 0
  | l :: ls => l.length + width ls

/-- The token that the piece cuts from `text` at offset `pos`. -/
def token (l : Lexeme) (pos : Nat) (text : List Char) : Token :=
  let piece := text.take l.length
  { kind := l.kind, value := String.ofList piece, start := pos, stop := pos + piece.length
    style := l.style, language := l.language, embedded := l.embedded }

/-- The tokens that the pieces cut from `text`, side by side from offset `pos` on. -/
def cut (pos : Nat) (text : List Char) : List Lexeme → List Token
  | [] => []
  | l :: ls => l.token pos text :: cut (pos + (text.take l.length).length) (text.drop l.length) ls

end Lexeme

/-- The pieces of a scan, with an unknown character added if they take none. -/
def Scan.pieces (s : Scan σ) : List Lexeme :=
  if Lexeme.width s.lexemes = 0 then s.lexemes ++ [Lexeme.unknown] else s.lexemes

namespace Scanner

/-- The run over the text that lies at offset `pos`, after `skip` more characters that are
spoken for. -/
def run (scanner : Scanner σ) : (skip : Nat) → σ → (pos : Nat) → List Char → Lexing
  | _, state, pos, [] => ⟨[], scanner.finish state pos⟩
  | skip + 1, state, pos, _ :: rest => scanner.run skip state (pos + 1) rest
  | 0, state, pos, c :: rest =>
    let scan := scanner.scan state pos (c :: rest)
    let pieces := scan.pieces
    let lexing := scanner.run (Lexeme.width pieces - 1) scan.state (pos + 1) rest
    ⟨Lexeme.cut pos (c :: rest) pieces ++ lexing.tokens, scan.faults ++ lexing.faults⟩

end Scanner

namespace Lexing

/-- The tokens that a run of the given detail keeps. -/
def keep (detail : Detail) (l : Lexing) : Lexing :=
  match detail with
  | .rich => l
  | .structural => { l with tokens := l.tokens.filter (·.kind.isStructural) }

end Lexing

/-- The part of a source text that a run is bounded to, with the offset of its start.  Bounds
past the end mean the end. -/
def boundedText (source : List Char) (start : Nat) (stop : Option Nat) : List Char :=
  match stop with
  | none => source.drop start
  | some stop => (source.take stop).drop start

namespace Lexing

/-- The number of characters at the start of `text` that satisfy `p`. -/
def countWhile (p : Char → Bool) (text : List Char) : Nat :=
  (text.takeWhile p).length

theorem of_mem_take_countWhile {p : Char → Bool} {text : List Char} {c : Char}
    (h : c ∈ text.take (countWhile p text)) : p c = true := by
  have htake : text.take (countWhile p text) = text.takeWhile p :=
    (List.prefix_iff_eq_take.mp (List.takeWhile_prefix p)).symm
  rw [htake] at h
  exact List.all_eq_true.mp List.all_takeWhile c h

theorem countWhile_le (p : Char → Bool) (text : List Char) :
    countWhile p text ≤ text.length :=
  (List.takeWhile_prefix p).length_le

/-- The run of spaces or the line break at the start of `text`. -/
def whitespace? (text : List Char) : Option Lexeme :=
  match text with
  | [] => none
  | c :: rest =>
    if isSpace c then
      some { kind := .whitespace, length := 1 + countWhile isSpace rest, style := "space" }
    else if c == '\n' then some { kind := .newline, length := 1 }
    else if c == '\r' then
      some { kind := .newline, length := if rest.head? == some '\n' then 2 else 1 }
    else none

/-- A region from an opener of `opener` characters to `closer`, at the start of `text`. -/
def delimited (kind : TokenKind) (style what : String) (opener : Nat) (closer : List Char)
    (pos : Nat) (text : List Char) : Lexeme × List Fault :=
  match Text.findIndex? closer (text.drop opener) with
  | some inner => ({ kind, length := opener + inner + closer.length, style }, [])
  | none =>
    ({ kind, length := text.length, style },
      [⟨.unclosed what (String.ofList closer), pos, (pos + text.length : Nat)⟩])

/-- The number of characters that a literal takes after its opening quote, and whether its
closing quote is among them. -/
def literalBody (quote : Char) (multiline : Bool) : List Char → Nat × Bool
  | [] => (0, false)
  | ['\\'] => (1, false)
  | '\\' :: _ :: rest =>
    let (n, closed) := literalBody quote multiline rest
    (n + 2, closed)
  | c :: rest =>
    if c = quote then (1, true)
    else if !multiline && isLineBreak c then (0, false)
    else
      let (n, closed) := literalBody quote multiline rest
      (n + 1, closed)

theorem literalBody_escape (quote : Char) (multiline : Bool) (c : Char) (rest : List Char) :
    literalBody quote multiline ('\\' :: c :: rest)
      = ((literalBody quote multiline rest).1 + 2, (literalBody quote multiline rest).2) := by
  rw [literalBody]

theorem literalBody_cons (quote : Char) (multiline : Bool) {c : Char} (hc : c ≠ '\\')
    (rest : List Char) :
    literalBody quote multiline (c :: rest)
      = if c = quote then (1, true)
        else if (!multiline && isLineBreak c) = true then (0, false)
        else ((literalBody quote multiline rest).1 + 1, (literalBody quote multiline rest).2) :=
  literalBody.eq_4 quote multiline c rest (fun h => absurd h hc) fun _ _ h => absurd h hc

theorem literalBody_le (quote : Char) (multiline : Bool) (text : List Char) :
    (literalBody quote multiline text).1 ≤ text.length := by
  fun_induction literalBody quote multiline text with
  | case1 => exact Nat.le_refl _
  | case2 => exact Nat.le_refl _
  | case3 c rest n closed hbody ih | case6 c rest _ _ _ _ n closed hbody ih =>
      rw [hbody] at ih
      simp only [List.length_cons]
      omega
  | case4 => exact Nat.succ_le_succ (Nat.zero_le _)
  | case5 => exact Nat.zero_le _

/-- The literal that the quote at the start of `text` opens. -/
def quotedLiteral (kind : TokenKind) (style what : String) (multiline : Bool) (quote : Char)
    (pos : Nat) (rest : List Char) : Lexeme × List Fault :=
  let (n, closed) := literalBody quote multiline rest
  if closed then ({ kind, length := n + 1, style }, [])
  else
    ({ kind := .error, length := n + 1, style := "error" },
      [⟨.unclosedLiteral what quote, pos, (pos + (n + 1) : Nat)⟩])

end Lexing

/-! ### Words -/

namespace Text

variable {needle text : List Char} {n : Nat}

/-- The needle stands where it is found. -/
theorem prefix_drop_findIndex? (h : findIndex? needle text = some n) : needle <+: text.drop n := by
  induction text generalizing n with
  | nil =>
      cases needle with
      | nil => exact List.nil_prefix
      | cons => simp [findIndex?] at h
  | cons c text ih =>
      rw [findIndex?] at h
      by_cases hfirst : needle.isPrefixOf (c :: text) = true
      · rw [if_pos hfirst, Option.some.injEq] at h
        exact h ▸ List.isPrefixOf_iff_prefix.mp hfirst
      · rw [if_neg hfirst, Option.map_eq_some_iff] at h
        obtain ⟨m, hm, rfl⟩ := h
        exact ih hm

end Text

end SourceView
