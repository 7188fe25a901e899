/-
Words and operators of scripts.

Keywords decide where a slash begins a regular expression and where a statement ends; the
other words only choose styles.
-/

namespace SourceView.Script

/-- Keywords. -/
def keywords : List String := [
  "as", "async", "await", "break", "case", "catch", "class", "const", "continue", "debugger",
  "default", "delete", "do", "else", "enum", "export", "extends", "finally", "for", "from",
  "function", "get", "if", "implements", "import", "in", "instanceof", "interface", "let",
  "new", "of", "package", "private", "protected", "public", "return", "set", "static",
  "super", "switch", "this", "throw", "try", "typeof", "var", "void", "while", "with", "yield"]

/-- Words that stand for a value. -/
def literals : List String := [
  "true", "false", "null", "undefined", "NaN", "Infinity"]

/-- Names that every script, or its host, provides. -/
def builtIns : List String := [
  "Array", "ArrayBuffer", "BigInt", "Boolean", "DataView", "Date", "Error", "EvalError",
  "Float32Array", "Float64Array", "Function", "Int8Array", "Int16Array", "Int32Array", "Intl",
  "JSON", "Map", "Math", "Number", "Object", "Promise", "Proxy", "RangeError",
  "ReferenceError", "Reflect", "RegExp", "Set", "String", "Symbol", "SyntaxError",
  "TypeError", "Uint8Array", "Uint16Array", "Uint32Array", "URIError", "WeakMap", "WeakRef",
  "WeakSet", "decodeURI", "decodeURIComponent", "encodeURI", "encodeURIComponent", "eval",
  "globalThis", "isFinite", "isNaN", "parseFloat", "parseInt", "queueMicrotask",
  "structuredClone", "alert", "cancelAnimationFrame", "clearInterval", "clearTimeout",
  "console", "customElements", "document", "fetch", "history", "localStorage", "location",
  "navigator", "performance", "requestAnimationFrame", "sessionStorage", "setInterval",
  "setTimeout", "window"]

/-- Keywords after which an expression begins, so that a slash opens a regular expression. -/
def expressionKeywords : List String := [
  "await", "case", "delete", "do", "else", "in", "instanceof", "new", "of", "return", "throw",
  "typeof", "void", "yield"]

/-- Characters after which an expression begins. -/
def expressionStarters : List Char := [
  '(', ',', '=', ':', '[', '!', '&', '|', '?', '{', '}', ';', '+', '-', '*', '%', '<', '>', '~',
  '^']

/-- Keywords that begin a declaration of variables. -/
def declarationKeywords : List String := [
  "var", "let", "const"]

/-- Operators, longer ones first, so that the first one that fits is the longest. -/
def operators : List (List Char) := [
  ['>', '>', '>', '='], ['*', '*', '='], ['=', '=', '='], ['!', '=', '='], ['>', '>', '>'],
  ['<', '<', '='], ['>', '>', '='], ['&', '&', '='], ['|', '|', '='], ['?', '?', '='],
  ['.', '.', '.'], ['+', '+'], ['-', '-'], ['+', '='], ['-', '='], ['*', '='], ['/', '='],
  ['%', '='], ['=', '='], ['!', '='], ['>', '='], ['<', '='], ['&', '&'], ['|', '|'],
  ['&', '='], ['|', '='], ['^', '='], ['<', '<'], ['>', '>'], ['=', '>'], ['?', '?'],
  ['?', '.'], ['*', '*'], ['+'], ['-'], ['*'], ['/'], ['%'], ['<'], ['>'], ['='], ['!'], ['&'],
  ['|'], ['^'], ['~'], ['?'], [':']]

/-- The operator that begins `rest`. -/
def operator? (rest : List Char) : Option (List Char) :=
  operators.find? (·.isPrefixOf rest)

end SourceView.Script
