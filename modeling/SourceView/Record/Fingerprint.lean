/-
Fingerprints: digests of values.

A value is spelled out in full and the spelling is digested.  A record is spelled by the
name of its class and then each field by its name and its value; a row stands in brackets, a
set in braces in the order of what its members are shown as.  Settings are spelled like a
record.
-/
import SourceView.Config
import SourceView.Digest.Algorithm
import SourceView.Record.Shown

namespace SourceView

namespace Value

mutual

/-- A value spelled out. -/
def spelling : Value → String
  | tuple items => "seq[" ++ spellings items ++ "]"
  | member cls name => s!"{cls.name}.{name}"
  | record cls fields => cls.name ++ fieldSpellings (cls.fields.map Field.name) fields
  | null => "None"
  | bool true => "True"
  | bool false => "False"
  | int n => toString n
  | real written => written
  | text s => Text.quoted s
  | plain members => (Json.object members).shown
  | diagnostic d => d.shown
termination_by structural x => x

/-- Values spelled out one after another. -/
def spellings : List Value → String
  | [] => ""
  | value :: values => spelling value ++ spellings values
termination_by structural xs => xs

/-- Fields spelled out, each after its name. -/
def fieldSpellings (names : List String) : List Value → String
  | [] => ""
  | value :: values => names.headD "" ++ spelling value ++ fieldSpellings names.tail values
termination_by structural xs => xs

end

end Value

namespace Config

/-- The settings as fields. -/
def fields (c : Config) : List (String × Value) := [
  ("class_prefix", .text c.classPrefix), ("mark_whitespace", .bool c.markWhitespace),
  ("empty_line", .text c.emptyLine), ("fold_comments", .bool c.foldComments),
  ("embedded_languages", .bool c.embeddedLanguages),
  ("implied_end_tags", .bool c.impliedEndTags)]

/-- The name of the class of settings. -/
def className : String := "AnalysisConfig"

/-- Settings spelled out. -/
def spelling (c : Config) : String :=
  className ++ String.join (c.fields.map fun (name, value) => name ++ value.spelling)

/-- Settings as messages show them. -/
def shown (c : Config) : String :=
  let parts := c.fields.map fun (name, value) => s!"{name}={value.shown}"
  className ++ "(" ++ ", ".intercalate parts ++ ")"

/-- The settings that an object of fields describes; what it leaves out has its default, and
keys that are no settings are passed over. -/
def ofJson (json : Json) : Config :=
  let text (key default : String) : String := match json.get? key with
    | some (.text s) => s
    | _ => default
  let bool (key : String) (default : Bool) : Bool := match json.get? key with
    | some (.bool b) => b
    | _ => default
  let c : Config := {}
  { classPrefix := text "class_prefix" c.classPrefix
    markWhitespace := bool "mark_whitespace" c.markWhitespace
    emptyLine := text "empty_line" c.emptyLine
    foldComments := bool "fold_comments" c.foldComments
    embeddedLanguages := bool "embedded_languages" c.embeddedLanguages
    impliedEndTags := bool "implied_end_tags" c.impliedEndTags }

end Config

/-! ### Rows and sets -/

/-- What a fingerprint can be taken of: values, settings, rows and sets.  A row that can still
grow cannot be a member of a set; a fixed one can, and so can a set.  `ofMembers?` makes a set
of its members. -/
inductive Fingerprinted where
  | value (value : Value)
  | config (config : Config)
  | row (fixed : Bool) (items : List Fingerprinted)
  | set (members : List Fingerprinted)

namespace Fingerprinted

mutual

/-- Whether something can be a member of a set. -/
def isFixed : Fingerprinted → Bool
  | value v => v.isFixed
  | config _ => true
  | row fixed items => fixed && areFixed items
  | set _ => true
termination_by structural x => x

/-- Whether all of several things can be members of a set. -/
def areFixed : List Fingerprinted → Bool
  | [] => true
  | item :: items => isFixed item && areFixed items
termination_by structural xs => xs

end

mutual

/-- Whether two members of a set are one. -/
def same : Fingerprinted → Fingerprinted → Bool
  | value x, value y => x.same y
  | config c, config d => c == d
  | row f xs, row g ys => f == g && sameAll xs ys
  | set xs, set ys => xs.length == ys.length && allAmong xs ys
  | _, _ => false
termination_by structural x => x

/-- Whether two rows are alike one by one. -/
def sameAll : List Fingerprinted → List Fingerprinted → Bool
  | [], [] => true
  | x :: xs, y :: ys => same x y && sameAll xs ys
  | _, _ => false
termination_by structural xs => xs

/-- Whether all of several things are among others. -/
def allAmong : List Fingerprinted → List Fingerprinted → Bool
  | [], _ => true
  | x :: xs, ys => ys.any (same x) && allAmong xs ys
termination_by structural xs => xs

end

/-- The things without those that are the same as an earlier one. -/
def distinct (items : List Fingerprinted) : List Fingerprinted :=
  items.foldl (fun kept item => if kept.any (·.same item) then kept else kept ++ [item]) []

/-- The integer that a thing counts as where things are compared. -/
def number? : Fingerprinted → Option Int
  | value v => v.number?
  | _ => none

/-- Whether a member may stand before another one: numbers stand in ascending order, before
all else. -/
def mayPrecede (x y : Fingerprinted) : Bool :=
  match x.number?, y.number? with
  | some m, some n => decide (m ≤ n)
  | some _, none => true
  | none, some _ => false
  | none, none => true

/-- The set of given members; nothing if one of them cannot be a member. -/
def ofMembers? (items : List Fingerprinted) : Option Fingerprinted :=
  if areFixed items then some (set ((distinct items).mergeSort mayPrecede)) else none

mutual

/-- Something as messages show it. -/
def shown : Fingerprinted → String
  | value v => v.shown
  | config c => c.shown
  | row true items => shownTuple (shownAll items)
  | row false items => "[" ++ ", ".intercalate (shownAll items) ++ "]"
  | set [] => "frozenset()"
  | set members => "frozenset(\x7b" ++ ", ".intercalate (shownAll members) ++ "\x7d)"
termination_by structural x => x

/-- Several things as messages show them. -/
def shownAll : List Fingerprinted → List String
  | [] => []
  | item :: items => shown item :: shownAll items
termination_by structural xs => xs

end

mutual

/-- Something spelled out. -/
def spelling : Fingerprinted → String
  | value v => v.spelling
  | config c => c.spelling
  | row _ items => "seq[" ++ String.join ((spellings items).map Prod.snd) ++ "]"
  | set members =>
    let ordered := (spellings members).mergeSort fun p q => decide (p.1 ≤ q.1)
    "set\x7b" ++ String.join (ordered.map Prod.snd) ++ "\x7d"
termination_by structural x => x

/-- Several things, each by what it is shown as and how it is spelled. -/
def spellings : List Fingerprinted → List (String × String)
  | [] => []
  | item :: items => (shown item, spelling item) :: spellings items
termination_by structural xs => xs

end

/-- The fingerprint of something, as far as an offset if there is one. -/
def fingerprint (item : Fingerprinted) (stop : Option Int) : String :=
  Digest.ofText .sha256 item.spelling stop

end Fingerprinted

/-- How much of a fingerprint is kept where nothing else is asked for. -/
def fingerprintLength : Int := 16

/-- The fingerprint of a value. -/
def Value.fingerprint (value : Value) : String :=
  Digest.ofText .sha256 value.spelling (some fingerprintLength)

/-- The fingerprint of settings. -/
def Config.fingerprint (c : Config) : String :=
  Digest.ofText .sha256 c.spelling (some fingerprintLength)

end SourceView
