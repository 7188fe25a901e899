/-
Writing JSON.

A value is written on one line, or over several with every item on a line of its own.  The
text is plain ASCII: any other character, and any control character, is written by its
UTF-16 code units.
-/
import SourceView.Json.Basic

namespace SourceView.Json

/-! ### Texts -/

/-- A code unit as an escape. -/
def unitEscape (n : Nat) : List Char :=
  '\\' :: 'u' :: Text.hexDigits 4 n

/-- A character as it is written inside quotes. -/
def escapeChar (c : Char) : List Char :=
  if c = '"' then ['\\', '"']
  else if c = '\\' then ['\\', '\\']
  else if c = '\n' then ['\\', 'n']
  else if c = '\r' then ['\\', 'r']
  else if c = '\t' then ['\\', 't']
  else if c = '\x08' then ['\\', 'b']
  else if c = '\x0c' then ['\\', 'f']
  else if 32 ≤ c.toNat ∧ c.toNat < 127 then [c]
  else if c.toNat < 0x10000 then unitEscape c.toNat
  else
    let n := c.toNat - 0x10000
    unitEscape (0xD800 + n / 0x400) ++ unitEscape (0xDC00 + n % 0x400)

/-- A text in quotes. -/
def writeText (s : String) : List Char :=
  '"' :: s.toList.flatMap escapeChar ++ ['"']

/-! ### Values -/

/-- How many spaces an item on a line of its own is indented by for every level; on one line
if there is no number. -/
abbrev Layout := Option Nat

/-- The layout of a given indentation; one below zero indents nothing. -/
def Layout.ofIndent (indent : Option Int) : Layout :=
  indent.map Int.toNat

/-- What stands before an item at a level. -/
def Layout.lineBreak (layout : Layout) (level : Nat) : List Char :=
  match layout with
  | none => []
  | some width => '\n' :: List.replicate (width * level) ' '

/-- What stands between two items at a level. -/
def Layout.separator (layout : Layout) (level : Nat) : List Char :=
  match layout with
  | none => [',', ' ']
  | some _ => ',' :: layout.lineBreak level

/-- The items of a list or an object between their brackets; `level` is that of the items. -/
def Layout.enclose (layout : Layout) (level : Nat) (left right : Char) (items : List (List Char)) :
    List Char :=
  if items.isEmpty then [left, right]
  else
    left :: layout.lineBreak (level + 1) ++ (layout.separator (level + 1)).intercalate items
      ++ layout.lineBreak level ++ [right]

mutual

/-- A value at a level. -/
def writeAt (layout : Layout) (level : Nat) : Json → List Char
  | null => "null".toList
  | bool true => "true".toList
  | bool false => "false".toList
  | int n => (toString n).toList
  | real written => written.toList
  | text s => writeText s
  | array items => layout.enclose level '[' ']' (writeAll layout (level + 1) items)
  | object members => layout.enclose level '\x7b' '\x7d' (writeMembers layout (level + 1) members)
termination_by structural x => x

/-- Values at a level. -/
def writeAll (layout : Layout) (level : Nat) : List Json → List (List Char)
  | [] => []
  | item :: items => writeAt layout level item :: writeAll layout level items
termination_by structural xs => xs

/-- Members at a level. -/
def writeMembers (layout : Layout) (level : Nat) : List (String × Json) → List (List Char)
  | [] => []
  | member :: members => writeMember layout level member :: writeMembers layout level members
termination_by structural xs => xs

/-- A member at a level. -/
def writeMember (layout : Layout) (level : Nat) : String × Json → List Char
  | (key, value) => writeText key ++ [':', ' '] ++ writeAt layout level value
termination_by structural x => x

end

/-- A value as text. -/
def write (layout : Layout) (json : Json) : String :=
  String.ofList (writeAt layout 0 json)

end SourceView.Json
