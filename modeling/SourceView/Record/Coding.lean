/-
Records as JSON.

A record becomes an object with its class under a key of its own beside the fields; a
member of a closed set becomes an object with the set and the name of the member.  Reading
goes the other way.  A field that is not given gets its default; keys that the class does
not know are passed over.  An object without a class is left as it is.

Reading refuses what it does not know: a class, a member, or a record that lacks a field
without a default.  The fields are read in their order before any is missed.
-/
import SourceView.Record.Value
import SourceView.Json.Reader
import SourceView.Json.Writer

namespace SourceView

/-- Why a value cannot be read or written. -/
inductive RecordRefusal where
  /-- The text is not JSON. -/
  | invalidText
  /-- The text has an integer of too many digits. -/
  | tooManyDigits
  /-- The text is a value of another type than an object. -/
  | notObject (typeName : String)
  | missingClass
  | unknownClass (shown : String)
  | unknownMember (cls : EnumClass) (shown : String)
  /-- A field without a default is not given. -/
  | malformed (cls : RecordClass)
  /-- A value that is not a record. -/
  | notRecord (typeName : String)
  /-- A list or an object where a name was due. -/
  | notAName

namespace RecordRefusal

/-- The wording of a refusal; an integer of too many digits has none, nor has a list or an
object for a name. -/
def message? : RecordRefusal → Option String
  | invalidText => some "Invalid JSON"
  | tooManyDigits => none
  | notObject typeName => some s!"Expected a JSON object, got {typeName}"
  | missingClass => some "Missing '_type' field in serialized object"
  | unknownClass shown => some s!"Unknown type: {shown}"
  | unknownMember cls shown => some s!"Unknown {cls.name} member: {shown}"
  | malformed cls => some s!"Malformed {cls.name}"
  | notRecord typeName => some s!"Cannot serialize {typeName} as an object"
  | notAName => none

end RecordRefusal

/-- Why a text whose JSON cannot be read holds no record. -/
def RecordRefusal.ofReadFailure : Json.ReadFailure → RecordRefusal
  | .malformed => .invalidText
  | .tooManyDigits => .tooManyDigits

/-- The key of the class. -/
def classKey : String := "_type"

/-! ### Writing -/

/-- An object of a class. -/
def classed (cls : String) (members : List (String × Json)) : Json :=
  .object ((classKey, .text cls) :: members)

namespace DiagnosticRecord

/-- A diagnostic as JSON. -/
def encode (d : DiagnosticRecord) : Json :=
  classed d.origin.className [("message", d.message), ("start", d.start), ("end", d.stop),
    ("lineno", d.line), ("col_offset", d.column)]

/-- The diagnostic that an object holds; the end is the start if none is given. -/
def decode (origin : FaultOrigin) (members : List (String × Json)) : DiagnosticRecord :=
  let field (key : String) (default : Json) : Json := (members.lookup key).getD default
  let start := field "start" (.int 0)
  let stop := match field "end" .null with
    | .null => start
    | stop => stop
  { origin, message := field "message" (.text ""), start, stop
    line := field "lineno" .null, column := field "col_offset" .null }

end DiagnosticRecord

namespace Value

mutual

/-- A value as JSON. -/
def encode : Value → Json
  | null => .null
  | bool b => .bool b
  | int n => .int n
  | real written => .real written
  | text s => .text s
  | tuple items => .array (encodeAll items)
  | plain members => .object members
  | member cls name => classed cls.name [("name", .text name)]
  | diagnostic d => d.encode
  | record cls fields => classed cls.name ((cls.fields.map Field.name).zip (encodeAll fields))
termination_by structural x => x

/-- Values as JSON. -/
def encodeAll : List Value → List Json
  | [] => []
  | value :: values => encode value :: encodeAll values
termination_by structural xs => xs

end

end Value

/-- JSON as a record in the form of an object. -/
def Json.asObject (json : Json) (typeName : String) : Except RecordRefusal Json :=
  match json with
  | .object members => .ok (.object members)
  | _ => .error (.notRecord typeName)

/-- A value as an object. -/
def Value.toObject (value : Value) : Except RecordRefusal Json :=
  value.encode.asObject value.className

/-- A value as text, with its keys in order. -/
def Value.toText (value : Value) (layout : Json.Layout) : Except RecordRefusal String :=
  value.toObject.map fun json => json.sortKeys.write layout

/-! ### Reading -/

/-- The fields of a record, out of what was read under each key. -/
def readFields (decoded : List (String × Except RecordRefusal Value)) (fields : List Field) :
    Except RecordRefusal (List (Option Value)) :=
  match fields with
  | [] => .ok []
  | field :: fields => do
    let value ← match decoded.lookup field.name with
      | none => .ok field.default
      | some result => result.map some
    let values ← readFields decoded fields
    .ok (value :: values)

/-- All of several values, if none is missing. -/
def allGiven : List (Option Value) → Option (List Value)
  | [] => some []
  | none :: _ => none
  | some value :: values => (allGiven values).map (value :: ·)

/-- The member of a set that an object names. -/
def readMember (cls : EnumClass) (name : Option Json) : Except RecordRefusal Value :=
  match name with
  | some (.text name) =>
    if cls.has name then .ok (.member cls name)
    else .error (.unknownMember cls (Text.quoted name))
  | some (.array _) | some (.object _) => .error .notAName
  | some name => .error (.unknownMember cls name.shown)
  | none => .error (.unknownMember cls Json.null.shown)

/-- The value of an object with a class; `decoded` is what its members hold when they are
read. -/
def readClassed (members : List (String × Json))
    (decoded : List (String × Except RecordRefusal Value)) : Except RecordRefusal Value :=
  match members.lookup classKey with
  | none | some .null => .error .missingClass
  | some (.array _) | some (.object _) => .error .notAName
  | some (.text name) =>
    match EnumClass.ofName? name, FaultOrigin.ofClassName? name, RecordClass.ofName? name with
    | some cls, _, _ => readMember cls (members.lookup "name")
    | none, some origin, _ => .ok (.diagnostic (DiagnosticRecord.decode origin members))
    | none, none, some cls => do
      let values ← readFields decoded cls.fields
      match allGiven values with
      | some values => .ok (.record cls values)
      | none => .error (.malformed cls)
    | none, none, none => .error (.unknownClass (Text.quoted name))
  | some other => .error (.unknownClass other.shown)

namespace Value

mutual

/-- The value that JSON holds. -/
def decode : Json → Except RecordRefusal Value
  | .null => .ok null
  | .bool b => .ok (bool b)
  | .int n => .ok (int n)
  | .real written => .ok (real written)
  | .text s => .ok (text s)
  | .array items => (decodeAll items).map tuple
  | .object members =>
    let decoded := decodeMembers members
    if (members.lookup classKey).isSome then readClassed members decoded else .ok (plain members)
termination_by structural x => x

/-- The values that items hold. -/
def decodeAll : List Json → Except RecordRefusal (List Value)
  | [] => .ok []
  | item :: items => do
    let value ← decode item
    let values ← decodeAll items
    .ok (value :: values)
termination_by structural xs => xs

/-- What each member holds, or why it holds nothing. -/
def decodeMembers : List (String × Json) → List (String × Except RecordRefusal Value)
  | [] => []
  | entry :: entries => decodeMember entry :: decodeMembers entries
termination_by structural xs => xs

/-- What a member holds, or why it holds nothing. -/
def decodeMember : String × Json → String × Except RecordRefusal Value
  | (key, value) => (key, decode value)
termination_by structural x => x

end

/-- The value of an object, which has to have a class. -/
def ofObject (members : List (String × Json)) : Except RecordRefusal Value :=
  readClassed members (decodeMembers members)

/-- The value that JSON holds, which has to be an object with a class. -/
def ofJson (json : Json) : Except RecordRefusal Value :=
  match json with
  | .object members => ofObject members
  | other => .error (.notObject other.typeName)

/-- The value that a text holds, whose integers have at most so many digits. -/
def ofTextWithin (limit : Option Nat) (text : String) : Except RecordRefusal Value :=
  match Json.read limit text with
  | .error failure => .error (.ofReadFailure failure)
  | .ok json => ofJson json

/-- The most digits that an integer in the text of a record may have. -/
def digitLimit : Nat := 4300

/-- The value that a text holds. -/
def ofText (text : String) : Except RecordRefusal Value :=
  ofTextWithin (some digitLimit) text

end Value

/-- Things of this library that have no form as a record. -/
inductive Unrecorded where
  | lineIndex | location
deriving DecidableEq

/-- Why a thing without a form as a record cannot be written: a place looks like a record of
a class that nobody knows, an index does not look like a record at all. -/
def Unrecorded.refusal : Unrecorded → RecordRefusal
  | lineIndex => .notRecord "LineIndex"
  | location => .unknownClass (Text.quoted "SourceLocation")

end SourceView
