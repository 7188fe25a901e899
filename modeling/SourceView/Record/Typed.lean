/-
The records of this library's own values.

Every node, token, fold region, diagnostic and analysis has a record, and the record gives
the value back.  A record whose fields hold something else than the class expects gives
nothing.
-/
import SourceView.Record.Coding
import SourceView.Analysis

namespace SourceView

/-! ### Parts -/

namespace Value

/-- The integer that a value is. -/
def int? : Value → Option Int
  | int n => some n
  | _ => none

/-- The truth value that a value is. -/
def bool? : Value → Option Bool
  | bool b => some b
  | _ => none

/-- The text that a value is. -/
def text? : Value → Option String
  | text s => some s
  | _ => none

/-- The items of a tuple. -/
def items? : Value → Option (List Value)
  | tuple items => some items
  | _ => none

/-- The member of a set that a value is. -/
def member? (cls : EnumClass) : Value → Option String
  | member c name => if c = cls then some name else none
  | _ => none

/-- The texts that a tuple holds. -/
def texts? (value : Value) : Option (List String) :=
  value.items?.bind fun items => items.mapM text?

/-- A text or null. -/
def ofText? (s : Option String) : Value :=
  s.elim null text

/-- The text or nothing that a value is. -/
def optionalText? : Value → Option (Option String)
  | null => some none
  | text s => some (some s)
  | _ => none

end Value

/-! ### Nodes -/

namespace Leaf

/-- The class of a leaf. -/
def recordClass : Leaf → RecordClass
  | comment => .comment
  | text => .text
  | .attribute .. => .attributeNode
  | declaration .. => .declaration

/-- What a leaf records. -/
def fields : Leaf → List Value
  | comment | text => []
  | .attribute name value => [.text name, .ofText? value]
  | declaration property value important => [.text property, .text value, .bool important]

/-- The leaf of a class that records the given fields. -/
def ofFields? (cls : RecordClass) (fields : List Value) : Option Leaf :=
  match cls, fields with
  | .comment, [] => some comment
  | .text, [] => some text
  | .attributeNode, [name, value] => do
    some (.attribute (← name.text?) (← value.optionalText?))
  | .declaration, [property, value, important] => do
    some (declaration (← property.text?) (← value.text?) (← important.bool?))
  | _, _ => none

end Leaf

namespace Container

/-- The class of a container. -/
def recordClass : Container → RecordClass
  | document => .document
  | block _ => .block
  | parentheses _ => .parentheses
  | brackets _ => .brackets
  | templateLiteral _ => .templateLiteral
  | rawText _ => .rawText
  | rule .. => .rule
  | atRule .. => .atRule
  | functionDeclaration .. => .functionDeclaration
  | variableDeclaration .. => .variableDeclaration
  | statement => .statement

/-- What a container records besides its children. -/
def fields : Container → List Value
  | document | statement => []
  | block closed | parentheses closed | brackets closed | templateLiteral closed => [.bool closed]
  | rawText language => [.text language]
  | rule selector closed => [.text selector, .bool closed]
  | atRule name query hasBlock closed => [.text name, .text query, .bool hasBlock, .bool closed]
  | functionDeclaration name params => [.text name, .tuple (params.map .text)]
  | variableDeclaration kind name => [.text kind, .text name]

/-- The container of a class that records the given fields. -/
def ofFields? (cls : RecordClass) (fields : List Value) : Option Container :=
  match cls, fields with
  | .document, [] => some document
  | .statement, [] => some statement
  | .block, [closed] => closed.bool?.map block
  | .parentheses, [closed] => closed.bool?.map parentheses
  | .brackets, [closed] => closed.bool?.map brackets
  | .templateLiteral, [closed] => closed.bool?.map templateLiteral
  | .rawText, [language] => language.text?.map rawText
  | .rule, [selector, closed] => do some (rule (← selector.text?) (← closed.bool?))
  | .atRule, [name, query, hasBlock, closed] => do
    some (atRule (← name.text?) (← query.text?) (← hasBlock.bool?) (← closed.bool?))
  | .functionDeclaration, [name, params] => do
    some (functionDeclaration (← name.text?) (← params.texts?))
  | .variableDeclaration, [kind, name] => do
    some (variableDeclaration (← kind.text?) (← name.text?))
  | _, _ => none

end Container

namespace Node

mutual

/-- The record of a tree. -/
def toValue : Node → Value
  | leaf start stop info => .record info.recordClass (.int start :: .int stop :: info.fields)
  | container start stop info children =>
    .record info.recordClass
      (.int start :: .int stop :: .tuple (toValues children) :: info.fields)
  | element start stop info attributes children =>
    .record .element [.int start, .int stop, .tuple (toValues children), .text info.name,
      .tuple (toValues attributes), .bool info.selfClosing, .bool info.closed]
termination_by structural x => x

/-- The records of several trees. -/
def toValues : List Node → List Value
  | [] => []
  | node :: nodes => toValue node :: toValues nodes
termination_by structural xs => xs

end

/-- The element of the given fields, once its children and attributes are read. -/
def elementOf? (start stop name selfClosing closed : Value)
    (attributes children : Option (List Node)) : Option Node := do
  some (element (← start.int?) (← stop.int?)
    { name := ← name.text?, selfClosing := ← selfClosing.bool?, closed := ← closed.bool? }
    (← attributes) (← children))

/-- The leaf of the given class and fields. -/
def leafOf? (cls : RecordClass) (start stop : Value) (fields : List Value) : Option Node := do
  some (leaf (← start.int?) (← stop.int?) (← Leaf.ofFields? cls fields))

/-- The container of the given class and fields, once its children are read. -/
def containerOf? (cls : RecordClass) (start stop : Value) (fields : List Value)
    (children : Option (List Node)) : Option Node := do
  some (container (← start.int?) (← stop.int?) (← Container.ofFields? cls fields) (← children))

mutual

/-- The tree that a record holds. -/
def ofValue? : Value → Option Node
  | .record .element
      [start, stop, .tuple children, name, .tuple attributes, selfClosing, closed] =>
    elementOf? start stop name selfClosing closed (ofValues? attributes) (ofValues? children)
  | .record cls (start :: stop :: .tuple children :: fields) =>
    containerOf? cls start stop fields (ofValues? children)
  | .record cls (start :: stop :: fields) => leafOf? cls start stop fields
  | _ => none

/-- The trees that records hold. -/
def ofValues? : List Value → Option (List Node)
  | [] => some []
  | value :: values =>
    match ofValue? value, ofValues? values with
    | some node, some nodes => some (node :: nodes)
    | _, _ => none

end

end Node

/-! ### Tokens -/

namespace Token

mutual

/-- The record of a token. -/
def toValue : Token → Value
  | ⟨kind, value, start, stop, style, language, embedded⟩ =>
    .record .token [.member .tokenKind kind.name, .text value, .int start, .int stop, .text style,
      .text language, .tuple (toValues embedded)]
termination_by structural x => x

/-- The records of tokens. -/
def toValues : List Token → List Value
  | [] => []
  | token :: tokens => toValue token :: toValues tokens
termination_by structural xs => xs

end

/-- The token of the given fields, once the tokens of its region are read. -/
def ofFields? (kind value start stop style language : Value) (embedded : Option (List Token)) :
    Option Token := do
  some ⟨← (kind.member? .tokenKind).bind TokenKind.ofName?, ← value.text?, ← start.int?,
    ← stop.int?, ← style.text?, ← language.text?, ← embedded⟩

mutual

/-- The token that a record holds. -/
def ofValue? : Value → Option Token
  | .record .token [kind, value, start, stop, style, language, .tuple embedded] =>
    ofFields? kind value start stop style language (ofValues? embedded)
  | _ => none

/-- The tokens that records hold. -/
def ofValues? : List Value → Option (List Token)
  | [] => some []
  | value :: values =>
    match ofValue? value, ofValues? values with
    | some token, some tokens => some (token :: tokens)
    | _, _ => none

end

end Token

/-! ### Fold regions and diagnostics -/

namespace FoldRegion

/-- The record of a region. -/
def toValue (r : FoldRegion) : Value :=
  .record .foldRegion [.int r.startLine, .int r.endLine, .member .foldKind r.kind.name]

/-- The region that a record holds. -/
def ofValue? : Value → Option FoldRegion
  | .record .foldRegion [startLine, endLine, kind] => do
    some ⟨← startLine.int?, ← endLine.int?, ← (kind.member? .foldKind).bind FoldKind.ofName?⟩
  | _ => none

end FoldRegion

/-- An integer or null. -/
def Json.ofInt? (n : Option Int) : Json :=
  n.elim null int

/-- The integer or nothing that JSON holds. -/
def Json.optionalInt? : Json → Option (Option Int)
  | null => some none
  | int n => some (some n)
  | _ => none

namespace Diagnostic

/-- The record of a diagnostic. -/
def toRecord (d : Diagnostic) : DiagnosticRecord :=
  { origin := d.origin, message := .text d.message, start := .int d.start, stop := .int d.stop
    line := .ofInt? d.line, column := .ofInt? d.column }

/-- The diagnostic that a record holds. -/
def ofRecord? (d : DiagnosticRecord) : Option Diagnostic :=
  match d.message, d.start, d.stop with
  | .text message, .int start, .int stop => do
    some { origin := d.origin, message, start, stop, line := ← d.line.optionalInt?
           column := ← d.column.optionalInt? }
  | _, _, _ => none

/-- The record of a diagnostic as a value. -/
def toValue (d : Diagnostic) : Value :=
  .diagnostic d.toRecord

/-- The diagnostic that a value holds. -/
def ofValue? : Value → Option Diagnostic
  | .diagnostic d => ofRecord? d
  | _ => none

end Diagnostic

/-! ### Analyses -/

/-- The record of a language. -/
def Language.toValue (language : Language) : Value :=
  .member .language language.memberName

/-- The language that a record names. -/
def Language.ofValue? (value : Value) : Option Language :=
  (value.member? .language).bind Language.ofMemberName?

namespace Outline

/-- The record of an outline. -/
def toValue (o : Outline) : Value :=
  .record .outline [o.language.toValue, o.tree.toValue, .tuple (o.folds.map FoldRegion.toValue),
    .tuple (o.diagnostics.map Diagnostic.toValue)]

/-- The outline that a record holds. -/
def ofValue? : Value → Option Outline
  | .record .outline [language, tree, .tuple folds, .tuple diagnostics] => do
    some ⟨← Language.ofValue? language, ← Node.ofValue? tree, ← folds.mapM FoldRegion.ofValue?,
      ← diagnostics.mapM Diagnostic.ofValue?⟩
  | _ => none

end Outline

namespace Analysis

/-- The record of a full analysis. -/
def toValue (a : Analysis) : Value :=
  .record .analysis [a.language.toValue, .tuple (Token.toValues a.tokens), a.tree.toValue,
    .tuple (a.lines.map .text), .tuple (a.folds.map FoldRegion.toValue),
    .tuple (a.diagnostics.map Diagnostic.toValue)]

/-- The full analysis that a record holds. -/
def ofValue? : Value → Option Analysis
  | .record .analysis [language, .tuple tokens, tree, lines, .tuple folds, .tuple diagnostics] => do
    some ⟨← Language.ofValue? language, ← Token.ofValues? tokens, ← Node.ofValue? tree,
      ← lines.texts?, ← folds.mapM FoldRegion.ofValue?, ← diagnostics.mapM Diagnostic.ofValue?⟩
  | _ => none

end Analysis

end SourceView
