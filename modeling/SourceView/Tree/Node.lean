/-
Syntax trees.

A node covers a span of the source and is of one of sixteen classes.  They come in three
shapes: leaves, containers with children in source order, and elements, which have
attributes besides.  What else a class records stands in `Leaf` and `Container`.

Some classes may become fold regions; their fold kind decides which of several candidates
on one line wins, lower kinds first.
-/
import SourceView.Token

namespace SourceView

/-- The classes of fold regions, the one of highest priority first. -/
inductive FoldKind where
  | block | element | bracket | comment
deriving DecidableEq

namespace FoldKind

/-- The kinds in the order of their priority. -/
def all : List FoldKind := [.block, .element, .bracket, .comment]

/-- The place of a kind in the order of priority. -/
def rank : FoldKind → Nat
  | block => 0
  | element => 1
  | bracket => 2
  | comment => 3

/-- The name of a kind in records. -/
def name : FoldKind → String
  | block => "BLOCK"
  | element => "ELEMENT"
  | bracket => "BRACKET"
  | comment => "COMMENT"

/-- The kind of a given name. -/
def ofName? (name : String) : Option FoldKind :=
  all.find? (·.name == name)

end FoldKind

/-- What a node without children records. -/
inductive Leaf where
  /-- A comment of any language. -/
  | comment
  /-- A run of character data. -/
  | text
  /-- An attribute; a bare one has no value. -/
  | attribute (name : String) (value : Option String)
  /-- A property and its value. -/
  | declaration (property value : String) (important : Bool)
deriving DecidableEq

/-- What a node with children records.  `closed` is false when the end was missing. -/
inductive Container where
  /-- The root of every parse. -/
  | document
  /-- Braces. -/
  | block (closed : Bool)
  | parentheses (closed : Bool)
  | brackets (closed : Bool)
  /-- A template; its children stand in its interpolations. -/
  | templateLiteral (closed : Bool)
  /-- The body of a raw-text element, with what its own language makes of it. -/
  | rawText (language : String)
  /-- A selector and its block. -/
  | rule (selector : String) (closed : Bool)
  /-- An at-rule, with or without a block. -/
  | atRule (name query : String) (hasBlock closed : Bool)
  | functionDeclaration (name : String) (params : List String)
  | variableDeclaration (kind name : String)
  | statement
deriving DecidableEq

/-- What an element records besides its attributes and children. -/
structure ElementInfo where
  /-- The name of the tag, as the language writes it. -/
  name : String := ""
  /-- Written as self-closing, or of a kind that never has content. -/
  selfClosing : Bool := false
  /-- The end tag was there, or none is needed. -/
  closed : Bool := true
deriving DecidableEq

/-- A node of a syntax tree. -/
inductive Node where
  | leaf (start stop : Int) (info : Leaf)
  | container (start stop : Int) (info : Container) (children : List Node)
  | element (start stop : Int) (info : ElementInfo) (attributes children : List Node)

namespace Node

/-- The offset of the first character. -/
def start : Node → Int
  | leaf start _ _ | container start _ _ _ | element start _ _ _ _ => start

/-- The offset just past the last character. -/
def stop : Node → Int
  | leaf _ stop _ | container _ stop _ _ | element _ stop _ _ _ => stop

/-- The children in source order. -/
def children : Node → List Node
  | leaf _ _ _ => []
  | container _ _ _ children | element _ _ _ _ children => children

/-- The attributes of an element. -/
def attributes : Node → List Node
  | element _ _ _ attributes _ => attributes
  | _ => []

/-- The name of the class of a leaf. -/
def leafClass : Leaf → String
  | .comment => "Comment"
  | .text => "Text"
  | .attribute .. => "Attribute"
  | .declaration .. => "Declaration"

/-- The name of the class of a container. -/
def containerClass : Container → String
  | .document => "Document"
  | .block _ => "Block"
  | .parentheses _ => "Parentheses"
  | .brackets _ => "Brackets"
  | .templateLiteral _ => "TemplateLiteral"
  | .rawText _ => "RawText"
  | .rule .. => "Rule"
  | .atRule .. => "AtRule"
  | .functionDeclaration .. => "FunctionDeclaration"
  | .variableDeclaration .. => "VariableDeclaration"
  | .statement => "Statement"

/-- The name of a node's class. -/
def className : Node → String
  | leaf _ _ info => leafClass info
  | container _ _ info _ => containerClass info
  | element .. => "Element"

/-- The fold kind of a node that may become a fold region. -/
def foldKind? : Node → Option FoldKind
  | leaf _ _ .comment => some .comment
  | leaf _ _ _ => none
  | container _ _ info _ => match info with
    | .block _ => some .block
    | .parentheses _ | .brackets _ | .templateLiteral _ => some .bracket
    | _ => none
  | element .. => some .element

/-- Whether the node is the root of a parse. -/
def isDocument : Node → Bool
  | container _ _ .document _ => true
  | _ => false

/-- Whether the node is a comment. -/
def isComment : Node → Bool
  | leaf _ _ .comment => true
  | _ => false

/-! ### Equality -/

mutual

/-- Whether two trees are alike in every class, span and field. -/
def same : Node → Node → Bool
  | leaf a b i, leaf c d j => a == c && b == d && i == j
  | container a b i xs, container c d j ys => a == c && b == d && i == j && sameAll xs ys
  | element a b i us xs, element c d j vs ys =>
    a == c && b == d && i == j && sameAll us vs && sameAll xs ys
  | _, _ => false

/-- Whether two lists of trees are alike one by one. -/
def sameAll : List Node → List Node → Bool
  | [], [] => true
  | x :: xs, y :: ys => same x y && sameAll xs ys
  | _, _ => false

end

mutual

theorem eq_of_same : ∀ {x y : Node}, same x y = true → x = y
  | leaf .., leaf .., h => by simp_all [same]
  | container _ _ _ _, container _ _ _ _, h => by
    simp only [same, Bool.and_eq_true, beq_iff_eq] at h
    obtain ⟨⟨⟨rfl, rfl⟩, rfl⟩, hxs⟩ := h
    rw [eq_of_sameAll hxs]
  | element _ _ _ _ _, element _ _ _ _ _, h => by
    simp only [same, Bool.and_eq_true, beq_iff_eq] at h
    obtain ⟨⟨⟨⟨rfl, rfl⟩, rfl⟩, hus⟩, hxs⟩ := h
    rw [eq_of_sameAll hus, eq_of_sameAll hxs]
  | leaf .., container .., h | leaf .., element .., h | container .., leaf .., h
  | container .., element .., h | element .., leaf .., h | element .., container .., h => by
    simp [same] at h

theorem eq_of_sameAll : ∀ {xs ys : List Node}, sameAll xs ys = true → xs = ys
  | [], [], _ => rfl
  | _ :: _, _ :: _, h => by
    simp only [sameAll, Bool.and_eq_true] at h
    rw [eq_of_same h.1, eq_of_sameAll h.2]
  | [], _ :: _, h | _ :: _, [], h => by simp [sameAll] at h

end

mutual

theorem same_refl : ∀ x : Node, same x x = true
  | leaf .. => by simp [same]
  | container _ _ _ xs => by simp [same, sameAll_refl xs]
  | element _ _ _ us xs => by simp [same, sameAll_refl us, sameAll_refl xs]

theorem sameAll_refl : ∀ xs : List Node, sameAll xs xs = true
  | [] => rfl
  | x :: xs => by simp [sameAll, same_refl x, sameAll_refl xs]

end

instance : DecidableEq Node := fun x y =>
  if h : same x y = true then .isTrue (eq_of_same h)
  else .isFalse fun heq => h (heq ▸ same_refl x)

end Node

end SourceView
