/-
Records: values in a form that can be stored and sent.

A record is of a class, and a class lays down its fields: their order, and what stands for
one that is not given.  What a field holds is not checked; a reader of records takes what
is there.  Beside records there are members of closed sets, such as the kinds of tokens,
and diagnostics, whose fields are taken as they are.
-/
import SourceView.Fault
import SourceView.Language
import SourceView.Json.Basic

namespace SourceView

/-- The closed sets whose members may stand in records. -/
inductive EnumClass where
  | tokenKind | foldKind | language
deriving DecidableEq

namespace EnumClass

/-- Every set. -/
def all : List EnumClass := [tokenKind, foldKind, language]

/-- The name of a set in records. -/
def name : EnumClass → String
  | tokenKind => "TokenType"
  | foldKind => "FoldKind"
  | language => "LanguageKind"

/-- The set of a given name. -/
def ofName? (name : String) : Option EnumClass :=
  all.find? (·.name == name)

end EnumClass

/-- The name of a language in records. -/
def Language.memberName : Language → String
  | markup => "MARKUP"
  | stylesheet => "STYLESHEET"
  | script => "SCRIPT"

/-- The language of a given name in records. -/
def Language.ofMemberName? (name : String) : Option Language :=
  Language.all.find? (·.memberName == name)

/-- The members of a set, each with what its value is shown as. -/
def EnumClass.members : EnumClass → List (String × String)
  | tokenKind => TokenKind.all.mapIdx fun i kind => (kind.name, toString (i + 1))
  | foldKind => FoldKind.all.map fun kind => (kind.name, toString kind.rank)
  | language => Language.all.map fun language => (language.memberName, Text.quoted language.name)

/-- Whether a set has a member of that name. -/
def EnumClass.has (cls : EnumClass) (name : String) : Bool :=
  (cls.members.lookup name).isSome

/-- The diagnostics of a given class name. -/
def FaultOrigin.ofClassName? (name : String) : Option FaultOrigin :=
  [FaultOrigin.lexical, .structural].find? (·.className == name)

/-- The classes of records. -/
inductive RecordClass where
  -- Nodes
  | document | comment | block | parentheses | brackets | templateLiteral | attributeNode | element
  | rawText | text | rule | atRule | declaration | functionDeclaration | variableDeclaration
  | statement
  -- What comes with them
  | token | foldRegion | analysis | outline
deriving DecidableEq

namespace RecordClass

/-- Every class. -/
def all : List RecordClass := [
  document, comment, block, parentheses, brackets, templateLiteral, attributeNode, element,
  rawText, text, rule, atRule, declaration, functionDeclaration, variableDeclaration, statement,
  token, foldRegion, analysis, outline]

/-- The name of a class in records. -/
def name : RecordClass → String
  | document => "Document"
  | comment => "Comment"
  | block => "Block"
  | parentheses => "Parentheses"
  | brackets => "Brackets"
  | templateLiteral => "TemplateLiteral"
  | attributeNode => "Attribute"
  | element => "Element"
  | rawText => "RawText"
  | text => "Text"
  | rule => "Rule"
  | atRule => "AtRule"
  | declaration => "Declaration"
  | functionDeclaration => "FunctionDeclaration"
  | variableDeclaration => "VariableDeclaration"
  | statement => "Statement"
  | token => "Token"
  | foldRegion => "FoldRegion"
  | analysis => "AnalysisResult"
  | outline => "StructureResult"

/-- The class of a given name. -/
def ofName? (name : String) : Option RecordClass :=
  all.find? (·.name == name)

end RecordClass

/-- A diagnostic as a record holds it. -/
structure DiagnosticRecord where
  origin : FaultOrigin
  message : Json
  start : Json
  stop : Json
  line : Json
  column : Json

/-- A value that records are made of. -/
inductive Value where
  | null
  | bool (b : Bool)
  | int (n : Int)
  | real (written : String)
  | text (s : String)
  | tuple (items : List Value)
  /-- An object of no class, as it was read. -/
  | plain (members : List (String × Json))
  | member (cls : EnumClass) (name : String)
  | diagnostic (d : DiagnosticRecord)
  | record (cls : RecordClass) (fields : List Value)

instance : Inhabited Value := ⟨.null⟩

/-- A field of a class: its name, and its value where none is given. -/
structure Field where
  name : String
  default : Option Value := none

namespace RecordClass

/-- The fields that every node has. -/
def spanFields : List Field := [⟨"start", none⟩, ⟨"end", none⟩]

/-- The field of the children. -/
def childrenField : Field := ⟨"children", some (.tuple [])⟩

/-- A field that is empty where none is given. -/
def textField (name : String) : Field := ⟨name, some (.text "")⟩

/-- A field of a truth value. -/
def boolField (name : String) (value : Bool) : Field := ⟨name, some (.bool value)⟩

/-- The fields of a class besides those that all nodes of its shape have. -/
def ownFields : RecordClass → List Field
  | document | comment | text | statement => []
  | block | parentheses | brackets | templateLiteral => [boolField "closed" true]
  | attributeNode => [textField "name", ⟨"value", some .null⟩]
  | element =>
    [textField "name", ⟨"attributes", some (.tuple [])⟩, boolField "self_closing" false,
      boolField "closed" true]
  | rawText => [textField "language"]
  | rule => [textField "selector", boolField "closed" true]
  | atRule =>
    [textField "name", textField "prelude", boolField "has_block" false, boolField "closed" true]
  | declaration => [textField "property", textField "value", boolField "important" false]
  | functionDeclaration => [textField "name", ⟨"params", some (.tuple [])⟩]
  | variableDeclaration => [textField "kind", textField "name"]
  | token =>
    [⟨"type", none⟩, ⟨"value", none⟩, ⟨"start", none⟩, ⟨"end", none⟩, textField "style_class",
      textField "language", ⟨"embedded", some (.tuple [])⟩]
  | foldRegion =>
    [⟨"start_line", none⟩, ⟨"end_line", none⟩,
      ⟨"kind", some (.member .foldKind FoldKind.block.name)⟩]
  | analysis =>
    [⟨"language", none⟩, ⟨"tokens", none⟩, ⟨"tree", none⟩, ⟨"highlighted_lines", some (.tuple [])⟩,
      ⟨"fold_regions", some (.tuple [])⟩, ⟨"errors", some (.tuple [])⟩]
  | outline =>
    [⟨"language", none⟩, ⟨"tree", none⟩, ⟨"fold_regions", some (.tuple [])⟩,
      ⟨"errors", some (.tuple [])⟩]

/-- The fields of a class in their order. -/
def fields (cls : RecordClass) : List Field :=
  match cls with
  | token | foldRegion | analysis | outline => cls.ownFields
  | comment | text | attributeNode | declaration => spanFields ++ cls.ownFields
  | _ => spanFields ++ childrenField :: cls.ownFields

end RecordClass

namespace Value

/-- The name of the class of a value. -/
def className : Value → String
  | null => "NoneType"
  | bool _ => "bool"
  | int _ => "int"
  | real _ => "float"
  | text _ => "str"
  | tuple _ => "tuple"
  | plain _ => "dict"
  | member cls _ => cls.name
  | diagnostic d => d.origin.className
  | record cls _ => cls.name

/-- The integer that a value counts as where values are compared: a truth value counts as one
or zero, a fold kind as its rank. -/
def number? : Value → Option Int
  | bool b => some (if b then 1 else 0)
  | int n => some n
  | member .foldKind name => (FoldKind.ofName? name).map fun kind => (kind.rank : Int)
  | _ => none

/-- The text that a value counts as where values are compared: a language counts as its short
name. -/
def word? : Value → Option String
  | text s => some s
  | member .language name => (Language.ofMemberName? name).map Language.name
  | _ => none

mutual

/-- Whether two values are alike.  The kind of a fold region and the place of a diagnostic
take no part. -/
def same : Value → Value → Bool
  | null, null => true
  | real a, real b => a == b
  | tuple xs, tuple ys => sameAll xs ys
  | plain xs, plain ys => (Json.object xs).agrees (.object ys)
  | member c m, member d n => c == d && m == n
  | diagnostic d, diagnostic e =>
    d.origin == e.origin && d.message.agrees e.message && d.start.agrees e.start
      && d.stop.agrees e.stop
  | record c xs, record d ys =>
    c == d && if c = .foldRegion then sameLines xs ys else sameAll xs ys
  | x, y => (x.number?.isSome && x.number? == y.number?) || (x.word?.isSome && x.word? == y.word?)
termination_by structural x => x

/-- Whether two lists of values are alike one by one. -/
def sameAll : List Value → List Value → Bool
  | [], [] => true
  | x :: xs, y :: ys => same x y && sameAll xs ys
  | _, _ => false
termination_by structural xs => xs

/-- Whether two lists of values are alike in their first two places. -/
def sameLines : List Value → List Value → Bool
  | x :: xs, y :: ys => same x y && match xs, ys with
    | x :: _, y :: _ => same x y
    | _, _ => false
  | _, _ => false
termination_by structural xs => xs

end

/-! ### Members of sets -/

end Value

/-- Whether a JSON value has no parts. -/
def Json.isSimple : Json → Bool
  | array _ | object _ => false
  | _ => true

/-- Whether what tells a diagnostic from others has no parts. -/
def DiagnosticRecord.isFixed (d : DiagnosticRecord) : Bool :=
  d.message.isSimple && d.start.isSimple && d.stop.isSimple

namespace Value

mutual

/-- Whether a value can be a member of a set: an object of no class can still change, and so
can what holds one.  The kind of a fold region takes no part. -/
def isFixed : Value → Bool
  | plain _ => false
  | tuple items => areFixed items
  | diagnostic d => d.isFixed
  | record .foldRegion fields => areFixedLines fields
  | record _ fields => areFixed fields
  | _ => true
termination_by structural x => x

/-- Whether all of several values can be members of a set. -/
def areFixed : List Value → Bool
  | [] => true
  | value :: values => isFixed value && areFixed values
termination_by structural xs => xs

/-- Whether the first two of several values can be members of a set. -/
def areFixedLines : List Value → Bool
  | x :: xs => isFixed x && match xs with
    | y :: _ => isFixed y
    | [] => true
  | [] => true
termination_by structural xs => xs

end

end Value

end SourceView
