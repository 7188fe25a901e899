/-
Tokens: classified pieces of a source text.

A lexer turns a text into tokens in the order of their offsets, none overlapping another.
A rich run classifies every character; a structural run keeps only the tokens that bound
something, and the text between them belongs to none.  Either way the tokens together with
the text between them give back the source, which is what `reconstruct` says.
-/
import SourceView.Text.Slice
import SourceView.Text.Quoted

namespace SourceView

/-- What a token is. -/
inductive TokenKind where
  -- Shared
  | whitespace | newline | text | unknown | error | comment | lineComment | string | number
  | identifier | keyword | punctuation | operator
  -- Delimiters
  | blockOpen | blockClose | parenOpen | parenClose | bracketOpen | bracketClose
  -- Markup
  | tagOpen | tagClose | tagEnd | tagSelfCloseEnd | attributeName | attributeValue | equals
  | entity | doctype | processingInstruction | cdata | rawText
  -- Stylesheet
  | atRule | selector | pseudo | property | customProperty | valueKeyword | color | hexColor
  | dimension | function | colon | semicolon | comma
  -- Script
  | builtIn | literal | regex | templateStart | templateContent | templateEnd
  | templateExprOpen | templateExprClose
deriving DecidableEq

namespace TokenKind

/-- Every kind, in the order of their declaration. -/
def all : List TokenKind := [
  .whitespace, .newline, .text, .unknown, .error, .comment, .lineComment, .string, .number,
  .identifier, .keyword, .punctuation, .operator, .blockOpen, .blockClose, .parenOpen,
  .parenClose, .bracketOpen, .bracketClose, .tagOpen, .tagClose, .tagEnd, .tagSelfCloseEnd,
  .attributeName, .attributeValue, .equals, .entity, .doctype, .processingInstruction, .cdata,
  .rawText, .atRule, .selector, .pseudo, .property, .customProperty, .valueKeyword, .color,
  .hexColor, .dimension, .function, .colon, .semicolon, .comma, .builtIn, .literal, .regex,
  .templateStart, .templateContent, .templateEnd, .templateExprOpen, .templateExprClose]

/-- The name of a kind in records and messages. -/
def name : TokenKind → String
  | .whitespace => "WHITESPACE"
  | .newline => "NEWLINE"
  | .text => "TEXT"
  | .unknown => "UNKNOWN"
  | .error => "ERROR"
  | .comment => "COMMENT"
  | .lineComment => "LINE_COMMENT"
  | .string => "STRING"
  | .number => "NUMBER"
  | .identifier => "IDENTIFIER"
  | .keyword => "KEYWORD"
  | .punctuation => "PUNCTUATION"
  | .operator => "OPERATOR"
  | .blockOpen => "BLOCK_OPEN"
  | .blockClose => "BLOCK_CLOSE"
  | .parenOpen => "PAREN_OPEN"
  | .parenClose => "PAREN_CLOSE"
  | .bracketOpen => "BRACKET_OPEN"
  | .bracketClose => "BRACKET_CLOSE"
  | .tagOpen => "TAG_OPEN"
  | .tagClose => "TAG_CLOSE"
  | .tagEnd => "TAG_END"
  | .tagSelfCloseEnd => "TAG_SELF_CLOSE_END"
  | .attributeName => "ATTRIBUTE_NAME"
  | .attributeValue => "ATTRIBUTE_VALUE"
  | .equals => "EQUALS"
  | .entity => "ENTITY"
  | .doctype => "DOCTYPE"
  | .processingInstruction => "PROCESSING_INSTRUCTION"
  | .cdata => "CDATA"
  | .rawText => "RAW_TEXT"
  | .atRule => "AT_RULE"
  | .selector => "SELECTOR"
  | .pseudo => "PSEUDO"
  | .property => "PROPERTY"
  | .customProperty => "CUSTOM_PROPERTY"
  | .valueKeyword => "VALUE_KEYWORD"
  | .color => "COLOR"
  | .hexColor => "HEX_COLOR"
  | .dimension => "DIMENSION"
  | .function => "FUNCTION"
  | .colon => "COLON"
  | .semicolon => "SEMICOLON"
  | .comma => "COMMA"
  | .builtIn => "BUILT_IN"
  | .literal => "LITERAL"
  | .regex => "REGEX"
  | .templateStart => "TEMPLATE_START"
  | .templateContent => "TEMPLATE_CONTENT"
  | .templateEnd => "TEMPLATE_END"
  | .templateExprOpen => "TEMPLATE_EXPR_OPEN"
  | .templateExprClose => "TEMPLATE_EXPR_CLOSE"

/-- The kind of a given name. -/
def ofName? (name : String) : Option TokenKind :=
  all.find? (·.name == name)

/-- Whether tokens of this kind bound something, and so survive a structural run.  All others
are consumed there, so that a brace inside a string never counts, and then dropped. -/
def isStructural : TokenKind → Bool
  | .comment | .blockOpen | .blockClose | .parenOpen | .parenClose | .bracketOpen
  | .bracketClose | .tagOpen | .tagClose | .tagEnd | .tagSelfCloseEnd | .rawText
  | .templateStart | .templateEnd | .templateExprOpen | .templateExprClose => true
  | _ => false

/-- Whether tokens of this kind never carry meaning for a grammar. -/
def isTrivia : TokenKind → Bool
  | .whitespace | .newline => true
  | _ => false

/-- Whether tokens of this kind end some container. -/
def isCloser : TokenKind → Bool
  | .blockClose | .parenClose | .bracketClose | .templateExprClose | .templateEnd
  | .tagClose => true
  | _ => false

end TokenKind

/-- A classified piece of a source text.  `language` and `embedded` are for raw text alone:
the language of the region and its own tokens, whose offsets count from the start of the
whole text. -/
structure Token where
  kind : TokenKind
  value : String
  start : Int
  stop : Int
  style : String := ""
  language : String := ""
  embedded : List Token := []

namespace Token

/-- The number of characters that the offsets span; none when they are out of order. -/
def length? (t : Token) : Option Nat :=
  if t.start ≤ t.stop then some (t.stop - t.start).toNat else none

/-- The token as a short text. -/
def describe (t : Token) : String :=
  s!"Token({t.kind.name}, {Text.quoted t.value}, {t.start}:{t.stop})"

mutual

/-- The token itself, or the tokens of the region it stands for. -/
def leaves : Token → List Token
  | ⟨kind, value, start, stop, style, language, []⟩ =>
    [⟨kind, value, start, stop, style, language, []⟩]
  | ⟨_, _, _, _, _, _, t :: ts⟩ => t.leaves ++ flatten ts

/-- The tokens with every embedded region put in the place of its raw text. -/
def flatten : List Token → List Token
  | [] => []
  | t :: ts => t.leaves ++ flatten ts

end

/-- The values of the tokens together with the text of `source` that lies before, between
and after them, from offset `pos` on. -/
def reconstructFrom (source : List Char) (pos : Int) : List Token → List Char
  | [] => Text.sliceFrom source pos
  | t :: ts =>
    (if pos < t.start then Text.slice source pos t.start else [])
      ++ t.value.toList ++ reconstructFrom source t.stop ts

/-- The text that the tokens and the unclassified rest of `source` spell. -/
def reconstruct (source : String) (tokens : List Token) : String :=
  String.ofList (reconstructFrom source.toList 0 tokens)

end Token

end SourceView
