/-
JSON values.

The members of an object stand in the order in which they were written, each key once.
Integers are exact at any size.  A number with a fraction or an exponent is kept as it was
written; nothing here computes with it.
-/
import SourceView.Text.Quoted

namespace SourceView

/-- A JSON value. -/
inductive Json where
  | null
  | bool (b : Bool)
  | int (n : Int)
  /-- A number that is not an integer, as it was written. -/
  | real (written : String)
  | text (s : String)
  | array (items : List Json)
  | object (members : List (String × Json))

namespace Json

instance : Inhabited Json := ⟨null⟩

/-- The members with the value of `key` set; a new key comes last. -/
def setMember (key : String) (value : Json) : List (String × Json) → List (String × Json)
  | [] => [(key, value)]
  | (k, v) :: rest => if k = key then (key, value) :: rest else (k, v) :: setMember key value rest

/-- The members of an object, none for any other value. -/
def members : Json → List (String × Json)
  | object members => members
  | _ => []

/-- The value of a member. -/
def get? (json : Json) (key : String) : Option Json :=
  json.members.lookup key

/-- The value of a member; null if it is not there. -/
def getD (json : Json) (key : String) : Json :=
  (json.get? key).getD null

/-! ### Equality -/

/-- The integer that a value counts as where values are compared: a truth value counts as one
or zero. -/
def number? : Json → Option Int
  | bool b => some (if b then 1 else 0)
  | int n => some n
  | _ => none

mutual

/-- Whether two values are alike, members in the same order. -/
def same : Json → Json → Bool
  | null, null => true
  | real a, real b => a == b
  | text a, text b => a == b
  | array xs, array ys => sameAll xs ys
  | object xs, object ys => sameMembers xs ys
  | x, y => x.number?.isSome && x.number? == y.number?
termination_by structural x => x

/-- Whether two lists of values are alike one by one. -/
def sameAll : List Json → List Json → Bool
  | [], [] => true
  | x :: xs, y :: ys => same x y && sameAll xs ys
  | _, _ => false
termination_by structural xs => xs

/-- Whether two lists of members are alike one by one. -/
def sameMembers : List (String × Json) → List (String × Json) → Bool
  | [], [] => true
  | x :: xs, y :: ys => sameMember x y && sameMembers xs ys
  | _, _ => false
termination_by structural xs => xs

/-- Whether two members have the same key and like values. -/
def sameMember : String × Json → String × Json → Bool
  | (k, v), (l, w) => k == l && same v w
termination_by structural x => x

end

/-! ### The order of members -/

mutual

/-- The value with the members of every object in the order of their keys. -/
def sortKeys : Json → Json
  | array items => array (sortKeysAll items)
  | object members => object ((sortKeysMembers members).mergeSort fun x y => decide (x.1 ≤ y.1))
  | other => other
termination_by structural x => x

/-- `sortKeys` on every item of a list. -/
def sortKeysAll : List Json → List Json
  | [] => []
  | item :: items => sortKeys item :: sortKeysAll items
termination_by structural xs => xs

/-- `sortKeys` on the value of every member. -/
def sortKeysMembers : List (String × Json) → List (String × Json)
  | [] => []
  | member :: members => sortKeysMember member :: sortKeysMembers members
termination_by structural xs => xs

/-- `sortKeys` on the value of a member. -/
def sortKeysMember : String × Json → String × Json
  | (key, value) => (key, sortKeys value)
termination_by structural x => x

end

/-- Whether two values are alike whatever the order of their members. -/
def agrees (a b : Json) : Bool :=
  same a.sortKeys b.sortKeys

/-! ### Values in messages -/

/-- The name of the type of a value, as messages show it. -/
def typeName : Json → String
  | null => "NoneType"
  | bool _ => "bool"
  | int _ => "int"
  | real _ => "float"
  | text _ => "str"
  | array _ => "list"
  | object _ => "dict"

mutual

/-- A value as messages show it. -/
def shown : Json → String
  | null => "None"
  | bool true => "True"
  | bool false => "False"
  | int n => toString n
  | real written => written
  | text s => Text.quoted s
  | array items => "[" ++ ", ".intercalate (shownAll items) ++ "]"
  | object members => "\x7b" ++ ", ".intercalate (shownMembers members) ++ "\x7d"
termination_by structural x => x

/-- The items of a list as messages show them. -/
def shownAll : List Json → List String
  | [] => []
  | item :: items => shown item :: shownAll items
termination_by structural xs => xs

/-- The members of an object as messages show them. -/
def shownMembers : List (String × Json) → List String
  | [] => []
  | member :: members => shownMember member :: shownMembers members
termination_by structural xs => xs

/-- A member as messages show it. -/
def shownMember : String × Json → String
  | (key, value) => Text.quoted key ++ ": " ++ shown value
termination_by structural x => x

end

end Json

end SourceView
