/-
A record in its form as JSON gives the record back.

Encoder and decoder go through a value independently, the one by its fields, the other by
the keys of an object and the class that stands in it.  What joins them is that the keys of
a class differ from one another and from the key of the class.  Then every key gives the
value that was put under it, in whatever order the members come to stand; in particular
putting them in order loses nothing.
-/
import SourceView.Record.Coding
import SourceView.Proofs.Json.RoundTrip

namespace SourceView

/-! ### The order of members -/

namespace Json

variable {p q r : Json → Prop}

theorem sortKeysAll_eq (items : List Json) : sortKeysAll items = items.map sortKeys := by
  induction items with
  | nil => rfl
  | cons item items ih => rw [sortKeysAll, ih, List.map_cons]

theorem sortKeysMembers_eq (members : List (String × Json)) :
    sortKeysMembers members = members.map fun m => (m.1, m.2.sortKeys) := by
  induction members with
  | nil => rfl
  | cons m members ih => rw [sortKeysMembers, ih, List.map_cons, sortKeysMember]

theorem allItems_iff {items : List Json} : AllItems p items ↔ ∀ item ∈ items, item.All p := by
  induction items with
  | nil => simp [AllItems]
  | cons item items ih => simp [AllItems, ih]

theorem allMembers_iff {members : List (String × Json)} :
    AllMembers p members ↔ ∀ m ∈ members, m.2.All p := by
  induction members with
  | nil => simp [AllMembers]
  | cons m members ih =>
      obtain ⟨key, value⟩ := m
      simp [AllMembers, AllMember, ih]

theorem lookup_of_mem {α : Type} {pairs : List (String × α)} (hkeys : (pairs.map Prod.fst).Nodup)
    {key : String} {value : α} (h : (key, value) ∈ pairs) : pairs.lookup key = some value := by
  induction pairs with
  | nil => simp at h
  | cons pair pairs ih =>
      obtain ⟨key', value'⟩ := pair
      rw [List.map_cons, List.nodup_cons] at hkeys
      rcases List.mem_cons.mp h with heq | htail
      · rw [← heq, List.lookup_cons_self]
      · have hne : (key == key') = false := by
          rw [beq_eq_false_iff_ne]
          rintro rfl
          exact hkeys.1 (List.mem_map.mpr ⟨_, htail, rfl⟩)
        rw [List.lookup_cons, hne]
        exact ih hkeys.2 htail

/-- An object with its members in order has the keys that it had, and under each of them what
was there, in order itself. -/
theorem sortKeys_object (members : List (String × Json)) (hkeys : (members.map Prod.fst).Nodup) :
    ∃ sorted, (object members).sortKeys = object sorted ∧ (sorted.map Prod.fst).Nodup
      ∧ ∀ key value, (key, value) ∈ sorted ↔
        ∃ original, (key, original) ∈ members ∧ value = original.sortKeys := by
  refine ⟨_, rfl, ?_, ?_⟩
  · have hperm := (List.mergeSort_perm (sortKeysMembers members) fun x y => decide (x.1 ≤ y.1)).map
      Prod.fst
    rw [hperm.nodup_iff, sortKeysMembers_eq, List.map_map]
    exact hkeys
  · intro key value
    rw [(List.mergeSort_perm _ _).mem_iff, sortKeysMembers_eq, List.mem_map]
    constructor
    · rintro ⟨⟨key', original⟩, hmem, heq⟩
      obtain ⟨rfl, rfl⟩ := Prod.mk.inj heq
      exact ⟨original, hmem, rfl⟩
    · rintro ⟨original, hmem, rfl⟩
      exact ⟨(key, original), hmem, rfl⟩

mutual

theorem All.combine (hr : ∀ json, p json → q json → r json) :
    ∀ {json : Json}, json.All p → json.All q → json.All r
  | array _, hp, hq => ⟨hr _ hp.1 hq.1, AllItems.combine hr hp.2 hq.2⟩
  | object _, hp, hq => ⟨hr _ hp.1 hq.1, AllMembers.combine hr hp.2 hq.2⟩
  | null, hp, hq | bool _, hp, hq | int _, hp, hq | real _, hp, hq | text _, hp, hq => hr _ hp hq

theorem AllItems.combine (hr : ∀ json, p json → q json → r json) :
    ∀ {items : List Json}, AllItems p items → AllItems q items → AllItems r items
  | [], _, _ => trivial
  | _ :: _, hp, hq => ⟨All.combine hr hp.1 hq.1, AllItems.combine hr hp.2 hq.2⟩

theorem AllMembers.combine (hr : ∀ json, p json → q json → r json) :
    ∀ {members : List (String × Json)}, AllMembers p members → AllMembers q members →
      AllMembers r members
  | [], _, _ => trivial
  | (_, _) :: _, hp, hq => ⟨All.combine hr hp.1 hq.1, AllMembers.combine hr hp.2 hq.2⟩

end

mutual

/-- A value with its members in order is read as it was written if the value is. -/
theorem All.sortKeys {limit : Option Nat} :
    ∀ {json : Json}, json.All (Faithful limit) → json.sortKeys.All (Faithful limit)
  | array items, h => by
    refine ⟨trivial, ?_⟩
    rw [sortKeysAll_eq, allItems_iff]
    intro item hitem
    obtain ⟨original, horiginal, rfl⟩ := List.mem_map.mp hitem
    exact AllItems.sortKeys h.2 original horiginal
  | object members, h => by
    obtain ⟨sorted, heq, hkeys, hmem⟩ := sortKeys_object members h.1
    rw [heq]
    refine ⟨hkeys, allMembers_iff.mpr ?_⟩
    rintro ⟨key, value⟩ hvalue
    obtain ⟨original, horiginal, rfl⟩ := (hmem key value).mp hvalue
    exact AllMembers.sortKeys h.2 (key, original) horiginal
  | null, h | bool _, h | int _, h | real _, h | text _, h => h

theorem AllItems.sortKeys {limit : Option Nat} : ∀ {items : List Json},
    AllItems (Faithful limit) items → ∀ item ∈ items, item.sortKeys.All (Faithful limit)
  | _ :: _, h, _, .head _ => h.1.sortKeys
  | _ :: _, h, item, .tail _ hitem => AllItems.sortKeys h.2 item hitem

theorem AllMembers.sortKeys {limit : Option Nat} : ∀ {members : List (String × Json)},
    AllMembers (Faithful limit) members → ∀ m ∈ members, m.2.sortKeys.All (Faithful limit)
  | (_, _) :: _, h, _, .head _ => All.sortKeys h.1
  | _ :: _, h, m, .tail _ hm => AllMembers.sortKeys h.2 m hm

end

/-- Whether a value is a text, an integer, a truth value or null. -/
def isAtom : Json → Bool
  | null | bool _ | int _ | text _ => true
  | _ => false

theorem sortKeys_atom {json : Json} (h : json.isAtom = true) : json.sortKeys = json := by
  cases json with
  | null | bool | int | real | text => rfl
  | array | object => cases h

theorem all_atom {json : Json} (h : json.isAtom = true) : json.All (Faithful none) := by
  cases json with
  | null | bool | int | text => trivial
  | real | array | object => cases h

end Json

/-! ### Values as their classes allow -/

/-- A diagnostic whose fields have no parts, and which has an end. -/
structure DiagnosticRecord.Proper (d : DiagnosticRecord) : Prop where
  atoms : ∀ json ∈ [d.message, d.start, d.stop, d.line, d.column], json.isAtom = true
  stop_ne : d.stop ≠ .null

namespace Value

mutual

/-- Whether every record in a value has the fields of its class and every member is one of its
set.  Objects of no class and numbers that are not integers are left out. -/
def Proper : Value → Prop
  | tuple items => AreProper items
  | member cls name => cls.has name = true
  | diagnostic d => d.Proper
  | record cls fields => fields.length = cls.fields.length ∧ AreProper fields
  | real _ | plain _ => False
  | _ => True
termination_by structural x => x

/-- `Proper` for every one of several values. -/
def AreProper : List Value → Prop
  | [] => True
  | value :: values => Proper value ∧ AreProper values
termination_by structural xs => xs

end

theorem encodeAll_eq (values : List Value) : encodeAll values = values.map encode := by
  induction values with
  | nil => rfl
  | cons value values ih => rw [encodeAll, ih, List.map_cons]

theorem decodeMembers_eq (members : List (String × Json)) :
    decodeMembers members = members.map fun m => (m.1, decode m.2) := by
  induction members with
  | nil => rfl
  | cons m members ih => rw [decodeMembers, ih, List.map_cons, decodeMember]

end Value

/-! ### Keys -/

theorem RecordClass.nodup_keys (cls : RecordClass) :
    (classKey :: cls.fields.map Field.name).Nodup := by
  cases cls <;> decide

theorem RecordClass.ofName?_name (cls : RecordClass) :
    EnumClass.ofName? cls.name = none ∧ FaultOrigin.ofClassName? cls.name = none
      ∧ RecordClass.ofName? cls.name = some cls := by
  cases cls <;> exact ⟨rfl, rfl, rfl⟩

theorem nodup_memberKeys : [classKey, "name"].Nodup := by
  decide

theorem nodup_diagnosticKeys :
    [classKey, "message", "start", "end", "lineno", "col_offset"].Nodup := by
  decide

theorem EnumClass.ofName?_name (cls : EnumClass) : EnumClass.ofName? cls.name = some cls := by
  cases cls <;> rfl

theorem FaultOrigin.ofClassName?_className (origin : FaultOrigin) :
    EnumClass.ofName? origin.className = none
      ∧ FaultOrigin.ofClassName? origin.className = some origin := by
  cases origin <;> exact ⟨rfl, rfl⟩

/-- The keys of a record are those of its fields, and that of its class. -/
theorem keys_record {cls : RecordClass} {fields : List Value}
    (hlength : fields.length = cls.fields.length) :
    ((classKey, Json.text cls.name) ::
      (cls.fields.map Field.name).zip (Value.encodeAll fields)).map Prod.fst =
        classKey :: cls.fields.map Field.name := by
  rw [List.map_cons, List.map_fst_zip]
  simp [Value.encodeAll_eq, hlength]

namespace Value

mutual

/-- The JSON of a value is read as it was written, but for the sizes of its integers. -/
theorem all_encode : ∀ {value : Value}, value.Proper → value.encode.All (Json.Faithful none)
  | null, _ | bool _, _ | int _, _ | text _, _ => by trivial
  | tuple items, h => by
    refine ⟨trivial, ?_⟩
    rw [encodeAll_eq, Json.allItems_iff]
    intro json hjson
    obtain ⟨item, hitem, rfl⟩ := List.mem_map.mp hjson
    exact all_encode_of_mem h item hitem
  | member cls name, _ => by
    exact ⟨nodup_memberKeys, trivial, trivial, trivial⟩
  | diagnostic d, h => by
    have hatoms := fun json hjson => Json.all_atom (h.atoms json hjson)
    refine ⟨nodup_diagnosticKeys, trivial, ?_⟩
    refine ⟨hatoms _ ?_, hatoms _ ?_, hatoms _ ?_, hatoms _ ?_, hatoms _ ?_, trivial⟩ <;> simp
  | record cls fields, h => by
    refine ⟨?_, trivial, ?_⟩
    · rw [Json.Faithful, keys_record h.1]
      exact cls.nodup_keys
    · rw [encodeAll_eq, Json.allMembers_iff]
      rintro ⟨key, json⟩ hjson
      obtain ⟨field, hfield, rfl⟩ := List.mem_map.mp (List.of_mem_zip hjson).2
      exact all_encode_of_mem h.2 field hfield

theorem all_encode_of_mem : ∀ {values : List Value}, AreProper values →
    ∀ value ∈ values, value.encode.All (Json.Faithful none)
  | _ :: _, h, _, .head _ => all_encode h.1
  | _ :: _, h, value, .tail _ hvalue => all_encode_of_mem h.2 value hvalue

end

/-! ### Decoding -/

theorem lookup_decodeMembers {members : List (String × Json)}
    (hkeys : (members.map Prod.fst).Nodup) {key : String} {json : Json}
    (h : (key, json) ∈ members) : (decodeMembers members).lookup key = some (decode json) := by
  rw [decodeMembers_eq]
  refine Json.lookup_of_mem ?_ (List.mem_map.mpr ⟨(key, json), h, rfl⟩)
  rwa [List.map_map]

/-- Where the value of every field has been read, a record has these values. -/
theorem readFields_eq {decoded : List (String × Except RecordRefusal Value)} {fields : List Field}
    {values : List Value} (hlength : values.length = fields.length)
    (h : ∀ p ∈ (fields.map Field.name).zip values, decoded.lookup p.1 = some (.ok p.2)) :
    readFields decoded fields = .ok (values.map some) := by
  induction fields generalizing values with
  | nil =>
      rw [List.eq_nil_of_length_eq_zero hlength]
      rfl
  | cons field fields ih =>
      obtain ⟨value, values, rfl⟩ := List.exists_cons_of_length_eq_add_one hlength
      have hfirst := h (field.name, value) (by simp)
      have hrest := ih (Nat.succ.inj hlength) fun p hp => h p (by simp [hp])
      simp only [readFields, hfirst, hrest]
      rfl

theorem allGiven_map_some (values : List Value) : allGiven (values.map some) = some values := by
  induction values with
  | nil => rfl
  | cons value values ih => rw [List.map_cons, allGiven, ih, Option.map_some]

theorem decodeAll_eq {values : List Value} {f : Value → Json}
    (h : ∀ value ∈ values, decode (f value) = .ok value) :
    decodeAll (values.map f) = .ok values := by
  induction values with
  | nil => rfl
  | cons value values ih =>
      have hfirst := h value List.mem_cons_self
      have hrest := ih fun v hv => h v (List.mem_cons_of_mem _ hv)
      simp only [List.map_cons, decodeAll, hfirst, hrest]
      rfl

/-- An object of a class with its members in order is read as one of this class, and under
every key as what was put there. -/
theorem decode_classed (cls : String) (members : List (String × Json))
    (hkeys : (classKey :: members.map Prod.fst).Nodup) :
    ∃ sorted, (classed cls members).sortKeys = .object sorted
      ∧ decode (.object sorted) = readClassed sorted (decodeMembers sorted)
      ∧ sorted.lookup classKey = some (.text cls)
      ∧ ∀ key json, (key, json) ∈ members →
        sorted.lookup key = some json.sortKeys
          ∧ (decodeMembers sorted).lookup key = some (decode json.sortKeys) := by
  obtain ⟨sorted, heq, hsorted, hmem⟩ :=
    Json.sortKeys_object ((classKey, .text cls) :: members) hkeys
  have hclass : sorted.lookup classKey = some (.text cls) :=
    Json.lookup_of_mem hsorted ((hmem _ _).mpr ⟨_, List.mem_cons_self, rfl⟩)
  refine ⟨sorted, heq, by simp [decode, hclass], hclass, fun key json hjson => ?_⟩
  have hfound := (hmem key json.sortKeys).mpr ⟨json, List.mem_cons_of_mem _ hjson, rfl⟩
  exact ⟨Json.lookup_of_mem hsorted hfound, lookup_decodeMembers hsorted hfound⟩

theorem decode_encode_member {cls : EnumClass} {name : String} (h : cls.has name = true) :
    decode (member cls name).encode.sortKeys = .ok (member cls name) := by
  obtain ⟨sorted, heq, hdecode, hclass, hmembers⟩ :=
    decode_classed cls.name [("name", .text name)] nodup_memberKeys
  have hname := (hmembers "name" _ List.mem_cons_self).1
  rw [encode, heq, hdecode]
  simp only [readClassed, hclass, cls.ofName?_name, hname, Json.sortKeys, readMember, h, if_true]

theorem decode_encode_diagnostic {d : DiagnosticRecord} (h : d.Proper) :
    decode (diagnostic d).encode.sortKeys = .ok (diagnostic d) := by
  obtain ⟨sorted, heq, hdecode, hclass, hmembers⟩ :=
    decode_classed d.origin.className [("message", d.message), ("start", d.start),
      ("end", d.stop), ("lineno", d.line), ("col_offset", d.column)] nodup_diagnosticKeys
  obtain ⟨henum, horigin⟩ := d.origin.ofClassName?_className
  have hfield : ∀ p ∈ [("message", d.message), ("start", d.start), ("end", d.stop),
      ("lineno", d.line), ("col_offset", d.column)], sorted.lookup p.1 = some p.2 := by
    intro p hp
    rw [(hmembers p.1 p.2 hp).1, Json.sortKeys_atom]
    refine h.atoms _ ?_
    simpa using List.mem_map_of_mem (f := Prod.snd) hp
  simp only [List.forall_mem_cons, List.not_mem_nil, false_imp_iff, implies_true, and_true]
    at hfield
  obtain ⟨hmessage, hstart, hstop, hline, hcolumn⟩ := hfield
  rw [encode, DiagnosticRecord.encode, heq, hdecode]
  simp only [readClassed, hclass, henum, horigin, DiagnosticRecord.decode, hmessage, hstart,
    hstop, hline, hcolumn, Option.getD_some]
  split
  next hnull => exact absurd hnull h.stop_ne
  next => rfl

mutual

/-- **Decoding inverts encoding**, also if the members of objects are put in order in
between. -/
theorem decode_encode : ∀ {value : Value}, value.Proper → decode value.encode.sortKeys = .ok value
  | null, _ | bool _, _ | int _, _ | text _, _ => rfl
  | tuple items, h => by
    have hitems := decodeAll_eq (decode_encode_of_mem h)
    simp only [encode, Json.sortKeys, Json.sortKeysAll_eq, encodeAll_eq, List.map_map, decode]
    rw [show decodeAll (items.map (Json.sortKeys ∘ encode)) = _ from hitems]
    rfl
  | member _ _, h => decode_encode_member h
  | diagnostic _, h => decode_encode_diagnostic h
  | record cls fields, h => by
    obtain ⟨henum, horigin, hname⟩ := cls.ofName?_name
    have hkeys := keys_record h.1 ▸ cls.nodup_keys
    obtain ⟨sorted, heq, hdecode, hclass, hmembers⟩ :=
      decode_classed cls.name ((cls.fields.map Field.name).zip (encodeAll fields)) hkeys
    have hfields : readFields (decodeMembers sorted) cls.fields = .ok (fields.map some) := by
      refine readFields_eq h.1 ?_
      rintro ⟨key, value⟩ hp
      have hencoded : (key, value.encode) ∈ (cls.fields.map Field.name).zip (encodeAll fields) := by
        rw [encodeAll_eq, ← List.map_id (cls.fields.map Field.name), List.zip_map]
        exact List.mem_map.mpr ⟨_, hp, rfl⟩
      rw [(hmembers key _ hencoded).2, decode_encode_of_mem h.2 value (List.of_mem_zip hp).2]
    rw [encode, heq, hdecode]
    simp only [readClassed, hclass, henum, horigin, hname, hfields]
    show (match allGiven (fields.map some) with | some values => _ | none => _) = _
    rw [allGiven_map_some]

theorem decode_encode_of_mem : ∀ {values : List Value}, AreProper values →
    ∀ value ∈ values, decode value.encode.sortKeys = .ok value
  | _ :: _, h, _, .head _ => decode_encode h.1
  | _ :: _, h, value, .tail _ hvalue => decode_encode_of_mem h.2 value hvalue

end

end Value

end SourceView
