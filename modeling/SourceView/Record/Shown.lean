/-
Records as messages show them.
-/
import SourceView.Record.Value

namespace SourceView

/-- A JSON value as messages put it into a sentence: a text without its quotes. -/
def Json.plainText : Json → String
  | .text s => s
  | other => other.shown

/-- A diagnostic as messages show it. -/
def DiagnosticRecord.shown (d : DiagnosticRecord) : String :=
  s!"{d.origin.className}({d.message.shown}, start={d.start.plainText}, end={d.stop.plainText})"

/-- A row of parts between parentheses; a single part is followed by a comma. -/
def shownTuple : List String → String
  | [part] => "(" ++ part ++ ",)"
  | parts => "(" ++ ", ".intercalate parts ++ ")"

/-- The member of a set as messages show it. -/
def EnumClass.shownMember (cls : EnumClass) (name : String) : String :=
  let value := (cls.members.lookup name).getD ""
  s!"<{cls.name}.{name}: {value}>"

/-- The name of a member of a set; another value is shown in full, as `shown`. -/
def Value.bareName (value : Value) (shown : String) : String :=
  match value with
  | .member _ name => name
  | _ => shown

/-- A value as messages put it into a sentence: a text without its quotes, another value as
`shown`. -/
def Value.plainText (value : Value) (shown : String) : String :=
  match value with
  | .text s => s
  | _ => shown

/-- A record as messages show it, out of its fields and what they are shown as.  A token is
shown by its kind, its text and its span, another record by all its fields. -/
def RecordClass.shownRecord (cls : RecordClass) (fields : List Value) (shown : List String) :
    String :=
  match cls, fields.zip shown with
  | .token, (kind, shownKind) :: (_, shownText) :: (start, shownStart) :: (stop, shownStop) :: _ =>
    let span := start.plainText shownStart ++ ":" ++ stop.plainText shownStop
    s!"{cls.name}({kind.bareName shownKind}, {shownText}, {span})"
  | _, _ =>
    let parts := (cls.fields.zip shown).map fun (field, value) => field.name ++ "=" ++ value
    cls.name ++ "(" ++ ", ".intercalate parts ++ ")"

namespace Value

mutual

/-- A value as messages show it. -/
def shown : Value → String
  | null => "None"
  | bool true => "True"
  | bool false => "False"
  | int n => toString n
  | real written => written
  | text s => Text.quoted s
  | tuple items => shownTuple (shownAll items)
  | plain members => (Json.object members).shown
  | member cls name => cls.shownMember name
  | diagnostic d => d.shown
  | record cls fields => cls.shownRecord fields (shownAll fields)
termination_by structural x => x

/-- Values as messages show them. -/
def shownAll : List Value → List String
  | [] => []
  | value :: values => shown value :: shownAll values
termination_by structural xs => xs

end

end Value

end SourceView
