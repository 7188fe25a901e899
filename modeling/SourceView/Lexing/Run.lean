/-
How a lexer runs.

A language gives a lexer: a function that looks at the source from an offset on.  A look emits
tokens, each by the offsets at which it begins and ends, and says where the next look is due.
The run takes the offsets as they are given.  A look that has not moved on is answered with
one unknown character, so every turn of the run moves on.

At structural detail the emissions that bound nothing are dropped.
-/
import SourceView.Lexing.Window
import SourceView.Token
import SourceView.Fault

namespace SourceView

/-- How much a run tells: everything, or only what bounds something. -/
inductive Detail where
  | rich | structural
deriving DecidableEq

namespace Detail

/-- The name of a degree of detail. -/
def name : Detail → String
  | rich => "rich"
  | structural => "structural"

/-- Whether a run keeps tokens of this kind. -/
def keeps : Detail → TokenKind → Bool
  | rich, _ => true
  | structural, kind => kind.isStructural

end Detail

/-- What is emitted for a token: what it is, and the offsets at which it begins and ends. -/
structure Emission where
  kind : TokenKind
  start : Nat
  stop : Nat
  style : String := ""
  language : String := ""
  embedded : List Token := []

namespace Emission

/-- The character at an offset, which no rule knows. -/
def unknown (pos : Nat) : Emission :=
  { kind := .unknown, start := pos, stop := pos + 1, style := "unknown" }

/-- The token that is recorded: the text is what the source has between the two offsets. -/
def token (w : Window) (e : Emission) : Token :=
  { kind := e.kind, value := String.ofList (w.slice e.start e.stop), start := e.start
    stop := e.stop, style := e.style, language := e.language, embedded := e.embedded }

end Emission

/-- The outcome of one look: what it emits, the offset of the next look, the state then, and
what is wrong. -/
structure Look (σ : Type) where
  emissions : List Emission
  next : Nat
  state : σ
  faults : List Fault := []

namespace Look

/-- A look that emits one token; the next look is due where that ends. -/
def emit (e : Emission) (state : σ) (faults : List Fault := []) : Look σ :=
  { emissions := [e], next := e.stop, state, faults }

/-- A look that moves on without a token. -/
def move (next : Nat) (state : σ) : Look σ :=
  { emissions := [], next, state }

/-- The look at `pos`, with an unknown character added if it has not moved on. -/
def moved (look : Look σ) (pos : Nat) : Look σ :=
  if look.next = pos then
    { look with emissions := look.emissions ++ [Emission.unknown pos], next := pos + 1 }
  else look

/-- What the look emits and a run of the given detail keeps. -/
def kept (look : Look σ) (detail : Detail) : List Emission :=
  look.emissions.filter (detail.keeps ·.kind)

end Look

/-- A language's way of lexing.  `look` is taken at an offset within the window; `finish` tells
what is still unfinished at the offset where the run ends. -/
structure Lexer (σ : Type) where
  look : Window → σ → Nat → Look σ
  finish : σ → Nat → List Fault

/-- The tokens and the faults of a run, each in the order they were found. -/
structure Lexing where
  tokens : List Token
  faults : List Fault

namespace Lexer

/-- The run from offset `pos` on, for as many turns as are left at most. -/
def runFrom (lexer : Lexer σ) (detail : Detail) (w : Window) : (left : Nat) → σ → (pos : Nat) → Lexing
  | 0, state, pos => ⟨[], lexer.finish state pos⟩
  | left + 1, state, pos =>
    if pos < w.stop then
      let look := (lexer.look w state pos).moved pos
      let lexing := lexer.runFrom detail w left look.state look.next
      ⟨(look.kept detail).map (·.token w) ++ lexing.tokens, look.faults ++ lexing.faults⟩
    else ⟨[], lexer.finish state pos⟩

/-- The run from offset `pos` on.  Every turn moves on, so there are no more turns than the
window has characters left. -/
def run (lexer : Lexer σ) (detail : Detail) (w : Window) (state : σ) (pos : Nat) : Lexing :=
  lexer.runFrom detail w (w.stop - pos) state pos

end Lexer

end SourceView
