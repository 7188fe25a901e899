/-
Reading JSON.

The reader takes exactly one value with blanks around it.  Of the members with the same key
the last one counts, in the place of the first.  An escape that names half of a character
outside the basic plane stands for the replacement character unless the other half follows.

A limit may be set to the digits of an integer.  The reader goes through the text once, so of
an integer past the limit and a flaw in the text the one that comes first is reported.

Each step of the reader takes a character, or turns to a reader that does, so twice the
length of the text bounds the steps.
-/
import SourceView.Json.Basic

namespace SourceView.Json

/-- Why a text cannot be read. -/
inductive ReadFailure where
  /-- The text does not spell a value. -/
  | malformed
  /-- An integer has more digits than the limit. -/
  | tooManyDigits
deriving DecidableEq

/-- What was read and the text after it. -/
abbrev Reading (α : Type) := Except ReadFailure (α × List Char)

/-- What was read, if the text spelled it. -/
def reading (found : Option (α × List Char)) : Reading α :=
  match found with
  | some found => .ok found
  | none => .error .malformed

/-! ### Blanks and words -/

/-- Whether `c` may stand between the parts of a text. -/
def isBlank (c : Char) : Bool :=
  c == ' ' || c == '\t' || c == '\n' || c == '\r'

/-- The text from its first part on. -/
def skipBlanks (cs : List Char) : List Char :=
  cs.dropWhile isBlank

/-- The text after a word that it begins with. -/
def afterWord? : (word cs : List Char) → Option (List Char)
  | [], cs => some cs
  | w :: word, c :: cs => if w = c then afterWord? word cs else none
  | _ :: _, [] => none

/-! ### Numbers -/

/-- The value of a row of decimal digits. -/
def digitsValue (digits : List Char) : Nat :=
  digits.foldl (fun n c => 10 * n + (c.toNat - '0'.toNat)) 0

/-- The digits of a fraction, with the point, at the start of the text. -/
def fraction (cs : List Char) : List Char :=
  match cs with
  | '.' :: rest =>
    let digits := rest.takeWhile Char.isDigit
    if digits.isEmpty then [] else '.' :: digits
  | _ => []

/-- The exponent at the start of the text. -/
def exponent (cs : List Char) : List Char :=
  let ofDigits (mark : List Char) (rest : List Char) : List Char :=
    let digits := rest.takeWhile Char.isDigit
    if digits.isEmpty then [] else mark ++ digits
  match cs with
  | e :: s :: rest =>
    if e = 'e' ∨ e = 'E' then
      if s = '+' ∨ s = '-' then ofDigits [e, s] rest else ofDigits [e] (s :: rest)
    else []
  | _ => []

/-- Whether a number of digits is past the limit. -/
def exceeds (digits : Nat) (limit : Option Nat) : Bool :=
  limit.any (· < digits)

/-- The number at the start of the text, whose sign has been read. -/
def readNumber (limit : Option Nat) (negative : Bool) (cs : List Char) : Reading Json :=
  let whole := match cs with
    | '0' :: _ => ['0']
    | _ => cs.takeWhile Char.isDigit
  if whole.isEmpty then .error .malformed
  else
    let rest := cs.drop whole.length
    let fraction := fraction rest
    let exponent := exponent (rest.drop fraction.length)
    let rest := rest.drop (fraction.length + exponent.length)
    if fraction.isEmpty && exponent.isEmpty then
      if exceeds whole.length limit then .error .tooManyDigits
      else
        let n : Int := digitsValue whole
        .ok (int (if negative then -n else n), rest)
    else
      let written := whole ++ fraction ++ exponent
      .ok (real (String.ofList (if negative then '-' :: written else written)), rest)

/-! ### Texts -/

/-- The value of a hexadecimal digit. -/
def hexValue? (c : Char) : Option Nat :=
  if '0' ≤ c ∧ c ≤ '9' then some (c.toNat - '0'.toNat)
  else if 'a' ≤ c ∧ c ≤ 'f' then some (c.toNat - 'a'.toNat + 10)
  else if 'A' ≤ c ∧ c ≤ 'F' then some (c.toNat - 'A'.toNat + 10)
  else none

/-- The code unit of four hexadecimal digits. -/
def unit? (a b c d : Char) : Option Nat := do
  let a ← hexValue? a
  let b ← hexValue? b
  let c ← hexValue? c
  let d ← hexValue? d
  some (((a * 16 + b) * 16 + c) * 16 + d)

/-- The character of a code unit that is not half of one. -/
def unitChar (n : Nat) : Char :=
  if 0xD800 ≤ n ∧ n < 0xE000 then '\ufffd' else Char.ofNat n

/-- The second half of a character at the start of the text. -/
def lowUnit? : List Char → Option Nat
  | '\\' :: 'u' :: a :: b :: c :: d :: _ =>
    match unit? a b c d with
    | some n => if 0xDC00 ≤ n ∧ n < 0xE000 then some n else none
    | none => none
  | _ => none

/-- The character of an escape by a letter. -/
def escaped? : Char → Option Char
  | '"' => some '"'
  | '\\' => some '\\'
  | '/' => some '/'
  | 'b' => some '\x08'
  | 'f' => some '\x0c'
  | 'n' => some '\n'
  | 'r' => some '\r'
  | 't' => some '\t'
  | _ => none

/-- The characters up to the closing quote and the text after it.  `skip` characters belong
to the second half of a character that has been read. -/
def readTextFrom : (skip : Nat) → List Char → Option (List Char × List Char)
  | _, [] => none
  | skip + 1, _ :: rest => readTextFrom skip rest
  | 0, '"' :: rest => some ([], rest)
  | 0, '\\' :: 'u' :: a :: b :: c :: d :: rest =>
    match unit? a b c d with
    | none => none
    | some n =>
      if 0xD800 ≤ n ∧ n < 0xDC00 then
        match lowUnit? rest with
        | some low =>
          let full := 0x10000 + (n - 0xD800) * 0x400 + (low - 0xDC00)
          (readTextFrom 6 rest).map fun (cs, rest) => (Char.ofNat full :: cs, rest)
        | none => (readTextFrom 0 rest).map fun (cs, rest) => (unitChar n :: cs, rest)
      else (readTextFrom 0 rest).map fun (cs, rest) => (unitChar n :: cs, rest)
  | 0, '\\' :: c :: rest =>
    match escaped? c with
    | none => none
    | some c => (readTextFrom 0 rest).map fun (cs, rest) => (c :: cs, rest)
  | 0, c :: rest =>
    if c.toNat < 32 ∨ c = '\\' then none
    else (readTextFrom 0 rest).map fun (cs, rest) => (c :: cs, rest)

/-! ### Values -/

mutual

/-- The value at the start of the text. -/
def readValue (limit : Option Nat) : (steps : Nat) → List Char → Reading Json
  | 0, _ => .error .malformed
  | steps + 1, cs =>
    match cs with
    | [] => .error .malformed
    | '"' :: rest =>
      reading ((readTextFrom 0 rest).map fun (cs, rest) => (Json.text (String.ofList cs), rest))
    | '[' :: rest =>
      match skipBlanks rest with
      | ']' :: rest => .ok (array [], rest)
      | rest => (readItems limit steps rest).map fun (items, rest) => (array items, rest)
    | '\x7b' :: rest =>
      match skipBlanks rest with
      | '\x7d' :: rest => .ok (object [], rest)
      | rest => (readMembers limit steps rest).map fun (members, rest) =>
          (object (members.foldl (fun all (key, value) => setMember key value all) []), rest)
    | '-' :: rest =>
      match afterWord? "Infinity".toList rest with
      | some rest => .ok (real "-Infinity", rest)
      | none => readNumber limit true rest
    | 'n' :: _ => reading ((afterWord? "null".toList cs).map (null, ·))
    | 't' :: _ => reading ((afterWord? "true".toList cs).map (bool true, ·))
    | 'f' :: _ => reading ((afterWord? "false".toList cs).map (bool false, ·))
    | 'N' :: _ => reading ((afterWord? "NaN".toList cs).map (real "NaN", ·))
    | 'I' :: _ => reading ((afterWord? "Infinity".toList cs).map (real "Infinity", ·))
    | _ => readNumber limit false cs

/-- The items of a list, at least one, up to its closing bracket. -/
def readItems (limit : Option Nat) : (steps : Nat) → List Char → Reading (List Json)
  | 0, _ => .error .malformed
  | steps + 1, cs =>
    match readValue limit steps cs with
    | .error failure => .error failure
    | .ok (item, rest) =>
      match skipBlanks rest with
      | ']' :: rest => .ok ([item], rest)
      | ',' :: rest =>
        (readItems limit steps (skipBlanks rest)).map fun (items, rest) => (item :: items, rest)
      | _ => .error .malformed

/-- The members of an object, at least one, up to its closing brace. -/
def readMembers (limit : Option Nat) : (steps : Nat) → List Char → Reading (List (String × Json))
  | 0, _ => .error .malformed
  | steps + 1, cs =>
    match cs with
    | '"' :: rest =>
      match readTextFrom 0 rest with
      | none => .error .malformed
      | some (key, rest) =>
        match skipBlanks rest with
        | ':' :: rest =>
          match readValue limit steps (skipBlanks rest) with
          | .error failure => .error failure
          | .ok (value, rest) =>
            let member := (String.ofList key, value)
            match skipBlanks rest with
            | '\x7d' :: rest => .ok ([member], rest)
            | ',' :: rest =>
              (readMembers limit steps (skipBlanks rest)).map fun (members, rest) =>
                (member :: members, rest)
            | _ => .error .malformed
        | _ => .error .malformed
    | _ => .error .malformed

end

/-- The value that a text spells, whose integers have at most so many digits. -/
def read (limit : Option Nat) (text : String) : Except ReadFailure Json :=
  let cs := text.toList
  match readValue limit (2 * cs.length + 1) (skipBlanks cs) with
  | .error failure => .error failure
  | .ok (value, rest) => if (skipBlanks rest).isEmpty then .ok value else .error .malformed

end SourceView.Json
