/-
The part of a source that a run may look at.

A run is bounded to a part of its source and has the whole source at hand, so every look at a
character says how far it may go.  All offsets are offsets of the whole source.
-/
import SourceView.Text.Slice

namespace SourceView

/-- A source, and the offset at which a run over it stops. -/
structure Window where
  source : Array Char
  stop : Nat
  stop_le : stop ≤ source.size

namespace Window

/-- The window that ends at `stop`, or at the end of the source if that comes first or no end
is given. -/
def upTo (source : Array Char) (stop : Option Nat) : Window :=
  { source, stop := min (stop.getD source.size) source.size, stop_le := Nat.min_le_right _ _ }

/-- The character at an offset; from the end of the window on there is none. -/
def at? (w : Window) (pos : Nat) : Option Char :=
  if h : pos < w.stop then
    have hsize : pos < w.source.size := Nat.lt_of_lt_of_le h w.stop_le
    some w.source[pos]
  else none

/-- Whether `word` stands at an offset, and ends within the window. -/
def startsWith (w : Window) (pos : Nat) : List Char → Bool
  | [] => true
  | c :: cs => w.at? pos == some c && w.startsWith (pos + 1) cs

/-- The first of the `left` offsets from `pos` on at which `needle` stands. -/
def findFrom (w : Window) (needle : List Char) : (left pos : Nat) → Option Nat
  | 0, _ => none
  | left + 1, pos =>
    if w.startsWith pos needle then some pos else w.findFrom needle left (pos + 1)

/-- The first offset from `pos` on at which `needle` stands and ends within the window. -/
def find? (w : Window) (needle : List Char) (pos : Nat) : Option Nat :=
  w.findFrom needle (w.stop - pos) pos

/-- The offset behind those of the `left` characters from `pos` on that satisfy `p`. -/
def skipFrom (w : Window) (p : Char → Bool) : (left pos : Nat) → Nat
  | 0, pos => pos
  | left + 1, pos =>
    match w.at? pos with
    | none => pos
    | some c => if p c then w.skipFrom p left (pos + 1) else pos

/-- The first offset from `pos` on at which no character satisfies `p`: there is another one,
or the window ends. -/
def skipWhile (w : Window) (p : Char → Bool) (pos : Nat) : Nat :=
  w.skipFrom p (w.stop - pos) pos

/-- The first offset from `pos` on at which a character satisfies `p`, or the end of the
window. -/
def skipUntil (w : Window) (p : Char → Bool) (pos : Nat) : Nat :=
  w.skipWhile (fun c => !p c) pos

/-- The text between two offsets of the source.  Nothing keeps it within the window but the
offsets themselves. -/
def slice (w : Window) (start stop : Nat) : List Char :=
  (w.source.extract start stop).toList

end Window

end SourceView
