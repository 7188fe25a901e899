/-
What a reader of records refuses without a word.

A refusal is worded, but for two of them: an integer with too many digits, which is refused
before there is any record, and a list or an object where a name is due.  A name is due in two
places, for the class of a record and for the member of a closed set.  Nothing else that JSON
can hold is in the way of a wording, in whatever field it stands.

A record is read from the outside in, and the first refusal is the one that is heard.  So what
stands for a name matters only if the reader comes to it, past items and fields that can all
be read.
-/
import SourceView.Proofs.Record.Decoding

namespace SourceView

/-! ### The first failure -/

/-- The first of a list at which `q` is true has only such before it of which `p` is. -/
theorem exists_first_cons_iff {α : Type} {p q : α → Prop} {a : α} {as : List α} :
    (∃ before b after, a :: as = before ++ b :: after ∧ (∀ c ∈ before, p c) ∧ q b) ↔
      q a ∨ p a ∧ ∃ before b after, as = before ++ b :: after ∧ (∀ c ∈ before, p c) ∧ q b := by
  constructor
  · rintro ⟨_ | ⟨c, before⟩, b, after, heq, hbefore, hb⟩
    · exact Or.inl ((List.cons.inj heq).1 ▸ hb)
    · obtain ⟨rfl, rfl⟩ := List.cons.inj heq
      rw [List.forall_mem_cons] at hbefore
      exact Or.inr ⟨hbefore.1, before, b, after, rfl, hbefore.2, hb⟩
  · rintro (ha | ⟨ha, before, b, after, rfl, hbefore, hb⟩)
    · exact ⟨[], a, as, rfl, by simp, ha⟩
    · exact ⟨a :: before, b, after, rfl, List.forall_mem_cons.mpr ⟨ha, hbefore⟩, hb⟩

/-- What fails of several steps is the first that does. -/
theorem mapM_eq_error_iff {α β ε : Type} {f : α → Except ε β} {e : ε} {as : List α} :
    as.mapM f = .error e ↔ ∃ before a after, as = before ++ a :: after
      ∧ (∀ b ∈ before, ∃ value, f b = .ok value) ∧ f a = .error e := by
  induction as with
  | nil => simp [pure, Except.pure]
  | cons a as ih =>
      rw [exists_first_cons_iff, ← ih, List.mapM_cons]
      cases hfirst : f a with
      | error e' => simp [bind, Except.bind]
      | ok value => cases hrest : as.mapM f <;> simp [bind, Except.bind, pure, Except.pure]

/-- Whether JSON is a list or an object. -/
def Json.isCompound : Json → Bool
  | array _ | object _ => true
  | _ => false

namespace Value

variable {members inner : List (String × Json)} {json : Json} {refusal : RecordRefusal}

/-- One reading has one refusal, which has a word or has none. -/
theorem unworded {α : Type} {r : RecordRefusal} (h : Except.error r = (.error refusal : Except _ α))
    (hword : refusal.message? = none) : r.message? = none := by
  rw [Except.error.inj h]
  exact hword

/-! ### Names -/

/-- A list or an object stands for the class of an object, or for the member of the set that is
its class. -/
inductive Misnamed (members : List (String × Json)) : Prop
  | cls {json : Json} (hclass : members.lookup classKey = some json) (h : json.isCompound = true)
  | member {set : EnumClass} {json : Json} (hclass : members.lookup classKey = some (.text set.name))
      (hname : members.lookup "name" = some json) (h : json.isCompound = true)

/-- The reader of JSON comes to the object with these members, with nothing refused before. -/
inductive ComesTo : Json → List (String × Json) → Prop
  | here {members : List (String × Json)} : ComesTo (.object members) members
  | item {before after : List Json} {item : Json} {inner : List (String × Json)}
      (hbefore : ∀ json ∈ before, ∃ value, decode json = .ok value) (h : ComesTo item inner) :
      ComesTo (.array (before ++ item :: after)) inner
  | field {members inner : List (String × Json)} {cls : RecordClass} {before after : List Field}
      {field : Field} {json : Json} (hclass : members.lookup classKey = some (.text cls.name))
      (hfields : cls.fields = before ++ field :: after)
      (hbefore : ∀ f ∈ before, ∀ json, members.lookup f.name = some json →
        ∃ value, decode json = .ok value)
      (hfield : members.lookup field.name = some json) (h : ComesTo json inner) :
      ComesTo (.object members) inner

/-! ### Items and fields -/

theorem decodeAll_eq_mapM (items : List Json) : decodeAll items = items.mapM decode := by
  induction items with
  | nil => rfl
  | cons item items ih => rw [decodeAll, ih, List.mapM_cons]; rfl

/-- What is read for a field: what was read under its key, or what stands for it. -/
def readField (decoded : List (String × Except RecordRefusal Value)) (field : Field) :
    Except RecordRefusal (Option Value) :=
  match decoded.lookup field.name with
  | none => .ok field.default
  | some result => result.map some

theorem readFields_eq_mapM (decoded : List (String × Except RecordRefusal Value))
    (fields : List Field) : readFields decoded fields = fields.mapM (readField decoded) := by
  induction fields with
  | nil => rfl
  | cons field fields ih =>
      rw [readFields, ih, List.mapM_cons, readField]
      cases decoded.lookup field.name <;> rfl

theorem lookup_decodeMembers_eq (members : List (String × Json)) (key : String) :
    (decodeMembers members).lookup key = (members.lookup key).map decode := by
  induction members with
  | nil => rfl
  | cons m members ih =>
      obtain ⟨key', json⟩ := m
      rw [decodeMembers, decodeMember, List.lookup_cons, List.lookup_cons, ih]
      split <;> rfl

/-- A field is refused with what is given for it. -/
theorem readField_eq_error_iff {field : Field} :
    readField (decodeMembers members) field = .error refusal ↔
      ∃ json, members.lookup field.name = some json ∧ decode json = .error refusal := by
  rw [readField, lookup_decodeMembers_eq]
  cases members.lookup field.name with
  | none => simp
  | some json => cases h : decode json <;> simp [Except.map, h]

theorem readField_ok_iff {field : Field} :
    (∃ value, readField (decodeMembers members) field = .ok value) ↔
      ∀ json, members.lookup field.name = some json → ∃ value, decode json = .ok value := by
  rw [readField, lookup_decodeMembers_eq]
  cases members.lookup field.name with
  | none => simp
  | some json => cases h : decode json <;> simp [Except.map, h]

/-- The refusal of several items is that of the first that is refused. -/
theorem decodeAll_eq_error_iff {items : List Json} :
    decodeAll items = .error refusal ↔ ∃ before item after, items = before ++ item :: after
      ∧ (∀ json ∈ before, ∃ value, decode json = .ok value) ∧ decode item = .error refusal := by
  rw [decodeAll_eq_mapM, mapM_eq_error_iff]

/-- The refusal of the fields of a record is that of the first that is refused. -/
theorem readFields_eq_error_iff {fields : List Field} :
    readFields (decodeMembers members) fields = .error refusal ↔
      ∃ before field after, fields = before ++ field :: after
        ∧ (∀ f ∈ before, ∀ json, members.lookup f.name = some json →
          ∃ value, decode json = .ok value)
        ∧ ∃ json, members.lookup field.name = some json ∧ decode json = .error refusal := by
  simp only [readFields_eq_mapM, mapM_eq_error_iff, readField_eq_error_iff, readField_ok_iff]

/-! ### Objects -/

/-- What stands for a name is refused, without a word. -/
theorem readClassed_misnamed (h : Misnamed members)
    (decoded : List (String × Except RecordRefusal Value)) :
    readClassed members decoded = .error .notAName := by
  cases h with
  | @cls json hclass h =>
      cases json <;> simp [Json.isCompound] at h <;> simp [readClassed, hclass]
  | @member set json hclass hname h =>
      rw [readClassed, hclass]
      simp only [set.ofName?_name, hname]
      cases json <;> simp [Json.isCompound] at h <;> rfl

/-- A member of a set is refused without a word only if something else stands for its name. -/
theorem exists_of_readMember {set : EnumClass} {name : Option Json}
    (h : readMember set name = .error refusal) (hword : refusal.message? = none) :
    ∃ json, name = some json ∧ json.isCompound = true := by
  unfold readMember at h
  split at h
  · split at h
    · exact absurd h (by simp)
    · exact absurd (unworded h hword) nofun
  · exact ⟨_, rfl, rfl⟩
  · exact ⟨_, rfl, rfl⟩
  · exact absurd (unworded h hword) nofun
  · exact absurd (unworded h hword) nofun

/-- An object with a class is refused without a word only if something else stands for a name or
a field of its record is so refused. -/
theorem misnamed_or_of_readClassed (h : readClassed members (decodeMembers members) = .error refusal)
    (hword : refusal.message? = none) :
    Misnamed members ∨ ∃ cls : RecordClass, members.lookup classKey = some (.text cls.name)
      ∧ readFields (decodeMembers members) cls.fields = .error refusal := by
  unfold readClassed at h
  split at h
  · exact absurd (unworded h hword) nofun
  · exact absurd (unworded h hword) nofun
  · rename_i hclass
    exact Or.inl (.cls hclass rfl)
  · rename_i hclass
    exact Or.inl (.cls hclass rfl)
  · rename_i name hclass
    split at h
    · rename_i set henum
      have hname : set.name = name := by simpa using List.find?_some henum
      obtain ⟨json, hjson, hcompound⟩ := exists_of_readMember h hword
      exact Or.inl (.member (hname ▸ hclass) hjson hcompound)
    · exact absurd h (by simp)
    · rename_i cls _ _ hcls
      have hname : cls.name = name := by simpa using List.find?_some hcls
      cases hfields : readFields (decodeMembers members) cls.fields with
      | error refusal' =>
          rw [hfields] at h
          obtain rfl : refusal' = refusal := Except.error.inj h
          exact Or.inr ⟨cls, hname ▸ hclass, hfields⟩
      | ok values =>
          cases hgiven : allGiven values <;>
            simp only [hfields, hgiven, bind, Except.bind] at h
          · exact absurd (unworded h hword) nofun
          · exact absurd h (by simp)
    · exact absurd (unworded h hword) nofun
  · exact absurd (unworded h hword) nofun

/-! ### Records -/

theorem Misnamed.isSome_class (h : Misnamed members) : (members.lookup classKey).isSome = true := by
  cases h with
  | cls hclass | member hclass => rw [hclass]; rfl

theorem ComesTo.isSome_class (h : ComesTo (.object members) inner) (hinner : Misnamed inner) :
    (members.lookup classKey).isSome = true := by
  cases h with
  | here => exact hinner.isSome_class
  | field hclass => rw [hclass]; rfl

/-- What stands for a name is refused wherever the reader comes to it. -/
theorem decode_of_comesTo (h : ComesTo json inner) (hinner : Misnamed inner) :
    decode json = .error .notAName := by
  induction h with
  | @here members =>
      rw [decode, if_pos hinner.isSome_class]
      exact readClassed_misnamed hinner _
  | item hbefore _ ih =>
      rw [decode, decodeAll_eq_error_iff.mpr ⟨_, _, _, rfl, hbefore, ih hinner⟩]
      rfl
  | @field members inner cls before after field json hclass hfields hbefore hfield _ ih =>
      obtain ⟨henum, horigin, hname⟩ := cls.ofName?_name
      have hrefused : readFields (decodeMembers members) cls.fields = .error .notAName :=
        readFields_eq_error_iff.mpr ⟨before, field, after, hfields, hbefore, json, hfield, ih hinner⟩
      rw [decode]
      simp only [hclass, Option.isSome_some, if_true, readClassed, henum, horigin, hname, hrefused]
      rfl

mutual

/-- A refusal without a word comes from what stands for a name. -/
theorem exists_of_decode : ∀ {json : Json} {refusal : RecordRefusal},
    decode json = .error refusal → refusal.message? = none →
      ∃ inner, ComesTo json inner ∧ Misnamed inner
  | .array items, refusal, h, hword => by
    have hall : decodeAll items = .error refusal := by
      rw [decode] at h
      cases hall : decodeAll items <;> rw [hall] at h <;> cases h
      rfl
    obtain ⟨before, item, after, hitems, hbefore, hitem⟩ := decodeAll_eq_error_iff.mp hall
    have hmem : item ∈ items := by rw [hitems]; simp
    obtain ⟨inner, hcomes, hinner⟩ := exists_of_decode_item hmem hitem hword
    exact ⟨inner, hitems ▸ .item hbefore hcomes, hinner⟩
  | .object members, refusal, h, hword => by
    rw [decode] at h
    split at h
    · rcases misnamed_or_of_readClassed h hword with hmisnamed | ⟨cls, hclass, hrefused⟩
      · exact ⟨members, .here, hmisnamed⟩
      · obtain ⟨before, field, after, hfields, hbefore, json, hfield, hjson⟩ :=
          readFields_eq_error_iff.mp hrefused
        obtain ⟨inner, hcomes, hinner⟩ := exists_of_decode_member hfield hjson hword
        exact ⟨inner, .field hclass hfields hbefore hfield hcomes, hinner⟩
    · cases h
  | .null, _, h, _ | .bool _, _, h, _ | .int _, _, h, _ | .real _, _, h, _ | .text _, _, h, _ => by
    cases h

theorem exists_of_decode_item : ∀ {items : List Json} {item : Json} {refusal : RecordRefusal},
    item ∈ items → decode item = .error refusal → refusal.message? = none →
      ∃ inner, ComesTo item inner ∧ Misnamed inner
  | _ :: _, _, _, .head _, h, hword => exists_of_decode h hword
  | _ :: _, _, _, .tail _ hitem, h, hword => exists_of_decode_item hitem h hword

theorem exists_of_decode_member : ∀ {members : List (String × Json)} {key : String} {json : Json}
    {refusal : RecordRefusal}, members.lookup key = some json → decode json = .error refusal →
      refusal.message? = none → ∃ inner, ComesTo json inner ∧ Misnamed inner
  | (key', first) :: members, key, json, refusal, hlookup, h, hword => by
    rw [List.lookup_cons] at hlookup
    split at hlookup
    · obtain rfl := Option.some.inj hlookup
      exact exists_of_decode h hword
    · exact exists_of_decode_member hlookup h hword

end

end Value

/-- An object fails as a text just when it does inside of a record. -/
theorem Value.ofObject_eq_notAName_iff {members : List (String × Json)} :
    (∃ refusal, ofObject members = .error refusal ∧ refusal.message? = none) ↔
      ∃ inner, ComesTo (.object members) inner ∧ Misnamed inner := by
  cases hclass : members.lookup classKey with
  | none =>
      refine iff_of_false ?_ ?_
      · rintro ⟨refusal, h, hword⟩
        rw [ofObject, readClassed, hclass] at h
        exact absurd (unworded h hword) nofun
      · rintro ⟨inner, hcomes, hinner⟩
        have hsome := hcomes.isSome_class hinner
        rw [hclass] at hsome
        exact absurd hsome (by simp)
  | some json =>
      have hdecode : decode (.object members) = ofObject members := by
        simp [decode, ofObject, hclass]
      rw [← hdecode]
      constructor
      · rintro ⟨refusal, h, hword⟩
        exact exists_of_decode h hword
      · rintro ⟨inner, hcomes, hinner⟩
        exact ⟨.notAName, decode_of_comesTo hcomes hinner, rfl⟩

/-- **Reading fails without a word only where a name is due.**  Besides a text in which an integer
has too many digits, it is just a record in which the reader comes to a list or an object in the
place of a name, whatever stands under the other keys. -/
theorem Value.ofTextWithin_unworded_iff (limit : Option Nat) (text : String) :
    (∃ refusal, ofTextWithin limit text = .error refusal ∧ refusal.message? = none) ↔
      Json.read limit text = .error .tooManyDigits
        ∨ ∃ members inner, Json.read limit text = .ok (.object members)
          ∧ ComesTo (.object members) inner ∧ Misnamed inner := by
  rw [ofTextWithin]
  cases hread : Json.read limit text with
  | error failure =>
      cases failure <;> simp [RecordRefusal.ofReadFailure, RecordRefusal.message?]
  | ok json =>
      cases json with
      | object members => simpa [ofJson] using ofObject_eq_notAName_iff
      | null | bool | int | real | text | array => simp [ofJson, RecordRefusal.message?]

example : Value.ofText "\x7b\"_type\": []\x7d" = .error .notAName := by cbv

end SourceView
