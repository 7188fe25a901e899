/-
Edits that are given by rules.

A rule says which nodes it is about, by their class and by what their records hold, and what
becomes of them.  Of several rules the first one that is about a node decides; a node that
no rule is about is kept.
-/
import SourceView.Record.Typed
import SourceView.Tree.Edit

namespace SourceView

/-- What a rule does with a node. -/
inductive EditAction where
  | drop
  /-- Overwrites fields of the node's record. -/
  | set (fields : List (String × Json))
  | replace (node : Node)

/-- A rule: the class of the nodes it is about, any class if none is given, what fields of
their records hold, and what becomes of them. -/
structure EditRule where
  cls : Option String
  conditions : List (String × Json)
  action : EditAction

namespace EditRule

/-- Whether a rule is about a node. -/
def applies (rule : EditRule) (node : Node) : Bool :=
  let json := node.toValue.encode
  (rule.cls.isNone || rule.cls == some node.className)
    && rule.conditions.all fun (field, value) => (json.getD field).agrees value

/-- The node that an object describes. -/
def nodeOf? (json : Json) : Except RecordRefusal (Option Node) :=
  (Value.ofJson json).map Node.ofValue?

/-- A node with fields of its record overwritten. -/
def overwrite (node : Node) (fields : List (String × Json)) : Option Node :=
  let members := fields.foldl (fun all (key, value) => Json.setMember key value all)
    node.toValue.encode.members
  match nodeOf? (.object members) with
  | .ok node => node
  | .error _ => none

/-- What a rule makes of a node. -/
def edit (rule : EditRule) (node : Node) : Edit :=
  match rule.action with
  | .drop => .drop
  | .replace other => .replace other
  | .set fields => match overwrite node fields with
    | some other => .replace other
    | none => .keep

/-- What rules make of a node. -/
def editAll (rules : List EditRule) (node : Node) : Edit :=
  match rules.find? (·.applies node) with
  | some rule => rule.edit node
  | none => .keep

end EditRule

end SourceView
