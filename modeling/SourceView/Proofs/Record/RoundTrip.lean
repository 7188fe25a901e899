/-
What is written as text is read back: nodes, tokens, fold regions, diagnostics, analyses.

The way to a text and back has three stages, and each is undone by its own inverse.  A node
or a token becomes a record, a record becomes JSON, and JSON becomes text.  The first stage
is the only one to know the classes: each of them records all that it consists of, also what
is left out where values are compared, such as the kind of a fold region and the line and
the column of a diagnostic.
-/
import SourceView.Record.Typed
import SourceView.Proofs.Record.Decoding
import Mathlib.Algebra.Group.Nat.Defs

namespace SourceView

/-! ### From text to records -/

/-- Whether an integer, for itself, has at most so many digits. -/
def Json.Short (digits : Nat) : Json → Prop
  | int n => n.natAbs < 10 ^ digits
  | _ => True

theorem Json.faithful_of_short {digits : Nat} (hdigits : 0 < digits) {json : Json}
    (h : Faithful none json) (hshort : Short digits json) : Faithful (some digits) json := by
  cases json with
  | int n =>
      have hlength := (Nat.length_toDigits_le_iff (by decide) hdigits).mpr hshort
      simpa [Faithful, exceeds] using hlength
  | null | bool | text | array | real | object => exact h

namespace Value

/-- A record or a diagnostic is read from its text within a limit that its integers keep. -/
theorem ofTextWithin_toText {limit : Option Nat} {value : Value} (hproper : value.Proper)
    {cls : String} {members : List (String × Json)} (hencode : value.encode = classed cls members)
    (hfaithful : value.encode.All (Json.Faithful limit)) (layout : Json.Layout) :
    ∃ text, value.toText layout = .ok text ∧ ofTextWithin limit text = .ok value := by
  have hdecode := decode_encode hproper
  have hkeys : (classKey :: members.map Prod.fst).Nodup := by
    rw [hencode] at hfaithful
    exact hfaithful.1
  have htext : value.toText layout = .ok ((classed cls members).sortKeys.write layout) := by
    rw [toText, toObject, hencode]
    rfl
  refine ⟨_, htext, ?_⟩
  obtain ⟨sorted, hsorted, hclassed, -⟩ := decode_classed cls members hkeys
  rw [hencode] at hdecode hfaithful
  rw [ofTextWithin, Json.read_write layout hfaithful.sortKeys]
  rw [hsorted] at hdecode ⊢
  rw [← hdecode, hclassed]
  rfl

end Value

/-! ### From records to nodes -/

theorem TokenKind.ofName?_name (kind : TokenKind) : ofName? kind.name = some kind := by
  cases kind <;> rfl

theorem TokenKind.has_name (kind : TokenKind) : EnumClass.tokenKind.has kind.name = true := by
  have hmem : kind ∈ all := by cases kind <;> decide
  obtain ⟨i, hi, hkind⟩ := List.mem_iff_getElem.mp hmem
  refine List.lookup_isSome_iff.mpr ⟨(kind.name, toString (i + 1)), ?_, beq_self_eq_true _⟩
  exact List.mem_mapIdx.mpr ⟨i, hi, by rw [hkind]⟩

theorem FoldKind.ofName?_name (kind : FoldKind) : ofName? kind.name = some kind := by
  cases kind <;> rfl

theorem FoldKind.has_name (kind : FoldKind) : EnumClass.foldKind.has kind.name = true := by
  cases kind <;> rfl

theorem Language.has_memberName (language : Language) :
    EnumClass.language.has language.memberName = true := by
  cases language <;> rfl

namespace Value

theorem texts?_map (texts : List String) : (tuple (texts.map text)).texts? = some texts := by
  show (texts.map text).mapM text? = _
  induction texts with
  | nil => rfl
  | cons s texts ih => simp [ih, text?]

theorem proper_text (s : String) : (text s).Proper :=
  trivial

theorem optionalText?_ofText? (s : Option String) : (ofText? s).optionalText? = some s := by
  cases s <;> rfl

end Value

theorem areProper_map {α : Type} {f : α → Value} (h : ∀ a, (f a).Proper) (items : List α) :
    Value.AreProper (items.map f) := by
  induction items with
  | nil => trivial
  | cons a items ih => exact ⟨h a, ih⟩

/-- Items that are read one by one are read together. -/
theorem mapM_map_of_forall {α : Type} {f : α → Value} {g : Value → Option α}
    (h : ∀ a, g (f a) = some a) (items : List α) : (items.map f).mapM g = some items := by
  induction items with
  | nil => rfl
  | cons a items ih => simp [h, ih]

theorem Leaf.ofFields?_fields (info : Leaf) : ofFields? info.recordClass info.fields = some info := by
  cases info with
  | comment | text | declaration => rfl
  | «attribute» name value => simp [recordClass, fields, ofFields?, Value.text?,
      Value.optionalText?_ofText?]

theorem Leaf.length_fields (info : Leaf) :
    info.fields.length + 2 = info.recordClass.fields.length := by
  cases info <;> rfl

theorem Leaf.areProper_fields (info : Leaf) : Value.AreProper info.fields := by
  cases info with
  | comment | text => trivial
  | «attribute» name value => cases value <;> exact ⟨trivial, trivial, trivial⟩
  | declaration => exact ⟨trivial, trivial, trivial, trivial⟩

theorem Container.length_fields (info : Container) :
    info.fields.length + 3 = info.recordClass.fields.length := by
  cases info <;> rfl

theorem Container.areProper_fields (info : Container) : Value.AreProper info.fields := by
  cases info with
  | functionDeclaration name params =>
      exact ⟨trivial, areProper_map Value.proper_text params, trivial⟩
  | _ => simp [fields, Value.AreProper, Value.Proper]

theorem Container.ofFields?_fields (info : Container) :
    ofFields? info.recordClass info.fields = some info := by
  cases info with
  | functionDeclaration name params =>
      simp [recordClass, fields, ofFields?, Value.text?, Value.texts?_map]
  | _ => rfl

namespace Node

mutual

/-- A tree is read from its record. -/
theorem ofValue?_toValue : ∀ node : Node, ofValue? node.toValue = some node
  | leaf start stop info => by
    have hinfo := info.ofFields?_fields
    cases info <;> simp_all [toValue, ofValue?, leafOf?, Leaf.fields, Leaf.recordClass, Value.int?]
  | container start stop info children => by
    have hinfo := info.ofFields?_fields
    have hchildren := ofValues?_toValues children
    cases info <;> simp_all [toValue, ofValue?, containerOf?, Container.recordClass, Value.int?]
  | element start stop info attributes children => by
    have hattributes := ofValues?_toValues attributes
    have hchildren := ofValues?_toValues children
    simp [toValue, ofValue?, elementOf?, hattributes, hchildren, Value.int?, Value.text?,
      Value.bool?]

theorem ofValues?_toValues : ∀ nodes : List Node, ofValues? (toValues nodes) = some nodes
  | [] => rfl
  | node :: nodes => by
    rw [toValues, ofValues?, ofValue?_toValue node, ofValues?_toValues nodes]

end

mutual

theorem toValue_proper : ∀ node : Node, node.toValue.Proper
  | leaf _ _ info => ⟨info.length_fields, trivial, trivial, info.areProper_fields⟩
  | container _ _ info children =>
    ⟨info.length_fields, trivial, trivial, toValues_proper children, info.areProper_fields⟩
  | element _ _ _ attributes children =>
    ⟨rfl, trivial, trivial, toValues_proper children, trivial, toValues_proper attributes, trivial,
      trivial, trivial⟩

theorem toValues_proper : ∀ nodes : List Node, Value.AreProper (toValues nodes)
  | [] => trivial
  | node :: nodes => ⟨toValue_proper node, toValues_proper nodes⟩

end

end Node

/-! ### From records to tokens, fold regions and diagnostics -/

namespace Token

mutual

/-- A token is read from its record. -/
theorem ofValue?_toValue : ∀ token : Token, ofValue? token.toValue = some token
  | ⟨kind, value, start, stop, style, language, embedded⟩ => by
    have hembedded := ofValues?_toValues embedded
    simp [toValue, ofValue?, ofFields?, hembedded, Value.member?, Value.text?, Value.int?,
      TokenKind.ofName?_name]

theorem ofValues?_toValues : ∀ tokens : List Token, ofValues? (toValues tokens) = some tokens
  | [] => rfl
  | token :: tokens => by
    rw [toValues, ofValues?, ofValue?_toValue token, ofValues?_toValues tokens]

end

mutual

theorem toValue_proper : ∀ token : Token, token.toValue.Proper
  | ⟨kind, _, _, _, _, _, embedded⟩ =>
    ⟨rfl, kind.has_name, trivial, trivial, trivial, trivial, trivial, toValues_proper embedded,
      trivial⟩

theorem toValues_proper : ∀ tokens : List Token, Value.AreProper (toValues tokens)
  | [] => trivial
  | token :: tokens => ⟨toValue_proper token, toValues_proper tokens⟩

end

end Token

namespace FoldRegion

theorem ofValue?_toValue (r : FoldRegion) : ofValue? r.toValue = some r := by
  simp [toValue, ofValue?, Value.int?, Value.member?, FoldKind.ofName?_name]

theorem toValue_proper (r : FoldRegion) : r.toValue.Proper :=
  ⟨rfl, trivial, trivial, r.kind.has_name, trivial⟩

end FoldRegion

namespace Diagnostic

theorem ofValue?_toValue (d : Diagnostic) : ofValue? d.toValue = some d := by
  obtain ⟨origin, message, start, stop, line, column⟩ := d
  cases line <;> cases column <;> rfl

theorem toValue_proper (d : Diagnostic) : d.toValue.Proper where
  atoms := by
    obtain ⟨origin, message, start, stop, line, column⟩ := d
    cases line <;> cases column <;> simp [toRecord, Json.ofInt?, Json.isAtom]
  stop_ne := by
    simp [toRecord]

end Diagnostic

/-! ### From records to analyses -/

theorem Language.ofValue?_toValue (language : Language) :
    ofValue? language.toValue = some language := by
  cases language <;> rfl

theorem Outline.ofValue?_toValue (o : Outline) : ofValue? o.toValue = some o := by
  simp [toValue, ofValue?, Language.ofValue?_toValue, Node.ofValue?_toValue,
    mapM_map_of_forall FoldRegion.ofValue?_toValue, mapM_map_of_forall Diagnostic.ofValue?_toValue]

theorem Outline.toValue_proper (o : Outline) : o.toValue.Proper :=
  ⟨rfl, o.language.has_memberName, o.tree.toValue_proper,
    areProper_map FoldRegion.toValue_proper o.folds,
    areProper_map Diagnostic.toValue_proper o.diagnostics, trivial⟩

theorem Analysis.ofValue?_toValue (a : Analysis) : ofValue? a.toValue = some a := by
  simp [toValue, ofValue?, Language.ofValue?_toValue, Node.ofValue?_toValue,
    Token.ofValues?_toValues, Value.texts?_map, mapM_map_of_forall FoldRegion.ofValue?_toValue,
    mapM_map_of_forall Diagnostic.ofValue?_toValue]

theorem Analysis.toValue_proper (a : Analysis) : a.toValue.Proper :=
  ⟨rfl, a.language.has_memberName, Token.toValues_proper a.tokens, a.tree.toValue_proper,
    areProper_map Value.proper_text a.lines, areProper_map FoldRegion.toValue_proper a.folds,
    areProper_map Diagnostic.toValue_proper a.diagnostics, trivial⟩

/-! ### All that has a record -/

/-- What has a record. -/
inductive Recorded where
  | node (n : Node)
  | token (t : Token)
  | foldRegion (r : FoldRegion)
  | diagnostic (d : Diagnostic)
  | analysis (a : Analysis)
  | outline (o : Outline)

namespace Recorded

/-- The record of what has one. -/
def toValue : Recorded → Value
  | node n => n.toValue
  | token t => t.toValue
  | foldRegion r => r.toValue
  | diagnostic d => d.toValue
  | analysis a => a.toValue
  | outline o => o.toValue

/-- What a record is the record of, which its class tells. -/
def ofValue? (value : Value) : Option Recorded :=
  match value with
  | .diagnostic _ => (Diagnostic.ofValue? value).map diagnostic
  | .record .token _ => (Token.ofValue? value).map token
  | .record .foldRegion _ => (FoldRegion.ofValue? value).map foldRegion
  | .record .analysis _ => (Analysis.ofValue? value).map analysis
  | .record .outline _ => (Outline.ofValue? value).map outline
  | _ => (Node.ofValue? value).map node

theorem ofValue?_toValue (r : Recorded) : ofValue? r.toValue = some r := by
  cases r with
  | node n =>
      have hnode := congrArg (Option.map node) n.ofValue?_toValue
      cases n with
      | leaf _ _ info => cases info <;> exact hnode
      | container _ _ info _ => cases info <;> exact hnode
      | element => exact hnode
  | token t =>
      have htoken := congrArg (Option.map token) t.ofValue?_toValue
      cases t with
      | mk => exact htoken
  | foldRegion r => exact congrArg (Option.map foldRegion) r.ofValue?_toValue
  | diagnostic d => exact congrArg (Option.map diagnostic) d.ofValue?_toValue
  | analysis a => exact congrArg (Option.map analysis) a.ofValue?_toValue
  | outline o => exact congrArg (Option.map outline) o.ofValue?_toValue

theorem toValue_proper (r : Recorded) : r.toValue.Proper := by
  cases r with
  | node n => exact n.toValue_proper
  | token t => exact t.toValue_proper
  | foldRegion r => exact r.toValue_proper
  | diagnostic d => exact d.toValue_proper
  | analysis a => exact a.toValue_proper
  | outline o => exact o.toValue_proper

theorem encode_toValue (r : Recorded) : ∃ cls members, r.toValue.encode = classed cls members := by
  cases r with
  | node n => cases n <;> exact ⟨_, _, rfl⟩
  | token t => cases t with
    | mk => exact ⟨_, _, rfl⟩
  | foldRegion | diagnostic | analysis | outline => exact ⟨_, _, rfl⟩

/-- **What is written is read back.**  Whatever has a record, and with whatever indentation it is
written, can be written as text, and the text is read as the same record, which is that of the
same thing, of its class and with all its fields.  Reading sets a limit to the digits of
integers; within the limit it makes no difference. -/
theorem ofText_toText (r : Recorded) (indent : Option Int) :
    ∃ text, r.toValue.toText (.ofIndent indent) = .ok text
      ∧ Value.ofTextWithin none text = .ok r.toValue
      ∧ (r.toValue.encode.All (Json.Short Value.digitLimit) →
        Value.ofText text = .ok r.toValue)
      ∧ ofValue? r.toValue = some r := by
  obtain ⟨cls, members, hencode⟩ := r.encode_toValue
  have hfaithful := Value.all_encode r.toValue_proper
  obtain ⟨text, htext, hread⟩ :=
    Value.ofTextWithin_toText r.toValue_proper hencode hfaithful (.ofIndent indent)
  refine ⟨text, htext, hread, fun hshort => ?_, r.ofValue?_toValue⟩
  have hwithin := Json.All.combine (fun _ => Json.faithful_of_short (by decide)) hfaithful hshort
  obtain ⟨text', htext', hread'⟩ :=
    Value.ofTextWithin_toText r.toValue_proper hencode hwithin (.ofIndent indent)
  obtain rfl : text = text' := Except.ok.inj (htext.symm.trans htext')
  exact hread'

/-- Raw text with a token of its own, over several lines. -/
theorem ofText_toText_rawText :
    let inner : Token := { kind := .identifier, value := "x", start := 8, stop := 9 }
    let outer : Token :=
      { kind := .rawText, value := "x", start := 8, stop := 9, language := "js", embedded := [inner] }
    ∃ text, (token outer).toValue.toText (.ofIndent (some 2)) = .ok text
      ∧ Value.ofText text = .ok (token outer).toValue
      ∧ ofValue? (token outer).toValue = some (token outer) := by
  intro inner outer
  obtain ⟨text, htext, -, hread, hvalue⟩ := ofText_toText (token outer) (some 2)
  refine ⟨text, htext, hread ?_, hvalue⟩
  have hshort : ∀ n < 10, n < 10 ^ Value.digitLimit := fun n hn =>
    Nat.lt_of_lt_of_le hn (Nat.le_self_pow (by decide) 10)
  have h8 := hshort 8 (by decide)
  have h9 := hshort 9 (by decide)
  simp [outer, inner, toValue, Token.toValue, Token.toValues, Value.encode, Value.encodeAll, classed,
    Json.All, Json.AllItems, Json.AllMembers, Json.AllMember, Json.Short, RecordClass.fields,
    RecordClass.ownFields, RecordClass.textField, h8, h9]

end Recorded

end SourceView
