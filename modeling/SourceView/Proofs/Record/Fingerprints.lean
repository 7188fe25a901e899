/-
Which values a fingerprint tells apart.

Trees and settings are all told apart.  In their spellings every integer is followed by the
name of a field, by the name of a class or by a bracket, so each one ends where it seems to.

Rows of plain values are not: integers that follow each other run into one.  What is left of
such a row is seen when every integer in it is replaced by its figures, and rows of plain
values are spelled alike exactly if they agree then.
-/
import SourceView.Proofs.Record.Spelling

namespace SourceView

/-! ### Integers that stand apart -/

namespace Value

/-- Whether a value shows by its last character that it ends there. -/
def isClosed : Value → Bool
  | null | bool _ | text _ | tuple _ => true
  | _ => false

/-- Whether a value is an integer without a sign. -/
def isUnsigned : Value → Bool
  | int n => decide (0 ≤ n)
  | _ => false

mutual

/-- Nothing that may end with a digit stands right before an integer without a sign, and
every record has all its fields. -/
def Parted : Value → Prop
  | null | bool _ | int _ | text _ => True
  | tuple items => AreParted items
  | record cls fields => fields.length = cls.fields.length ∧ FieldsParted fields
  | _ => False

/-- `Parted` for values that follow each other. -/
def AreParted : List Value → Prop
  | [] => True
  | value :: values =>
    Parted value ∧ (value.isClosed ∨ ∀ next ∈ values.head?, next.isUnsigned = false) ∧
      AreParted values

/-- `Parted` for values with names between them. -/
def FieldsParted : List Value → Prop
  | [] => True
  | value :: values => Parted value ∧ FieldsParted values

end

theorem Parted.head {value : Value} (h : value.Parted) : ∃ head, value.head? = some head := by
  cases value with
  | null | bool | int | text | tuple | record => exact ⟨_, rfl⟩
  | real | plain | member | diagnostic => exact h.elim

/-- A value that is no integer without a sign is spelled with something else than a digit
first. -/
theorem Parted.noDigit {value : Value} (h : value.Parted) (hsign : value.isUnsigned = false)
    (rest : List Char) : NoDigit (value.spelling.toList ++ rest) := by
  obtain ⟨head, hhead⟩ := h.head
  obtain ⟨c, cs, hc, hform, -⟩ := head.spelled_begin
  rw [toList_spelling hhead, hc]
  refine NoDigit.cons ?_ _
  by_contra hdigit
  have hnumeral : head.form = .numeral := by
    rw [← hform, Head.formOf_of_isDigit (by simpa using hdigit)]
  cases value with
  | int n =>
      obtain rfl := Option.some.inj hhead
      have hnegative : ¬ 0 ≤ n := by simpa [isUnsigned] using hsign
      have hspelled : (Head.int n).spelled = _ := Json.toList_toString_int n
      rw [if_neg hnegative, hc] at hspelled
      rw [(List.cons.inj hspelled).1] at hdigit
      exact hdigit (by decide)
  | null | bool | text | tuple | record =>
      obtain rfl := Option.some.inj hhead
      cases hnumeral
  | real | plain | member | diagnostic => exact h.elim

/-- Whether a text begins with something else than a digit, as names do. -/
def isName (name : String) : Bool :=
  name.toList.head?.any fun c => !c.isDigit

theorem isName_of_mem (cls : RecordClass) :
    ∀ name ∈ cls.fields.map Field.name, isName name := by
  cases cls <;> decide +kernel

theorem noDigit_of_isName {name : String} (h : isName name) (rest : List Char) :
    NoDigit (name.toList ++ rest) := by
  obtain ⟨c, hc, hdigit⟩ := (Option.any_eq_true _ _).mp h
  obtain ⟨cs, hcs⟩ := List.head?_eq_some_iff.mp hc
  rw [hcs]
  exact NoDigit.cons (by simpa using hdigit) _

/-- The text behind a parted value goes on with something else than a digit. -/
theorem AreParted.noDigit {values : List Value} (h : AreParted values)
    (hnext : ∀ next ∈ values.head?, next.isUnsigned = false) (rest : List Char) :
    NoDigit ((spellings values).toList ++ ']' :: rest) := by
  cases values with
  | nil => exact NoDigit.cons (by decide) rest
  | cons next values =>
      rw [toList_spellings_cons, List.append_assoc]
      exact h.1.noDigit (hnext next rfl) _

mutual

/-- A parted value can be read, if the text behind it does not go on with a digit. -/
theorem Parted.legible : ∀ {value : Value} {rest : List Char}, value.Parted →
    (value.isClosed ∨ NoDigit rest) → Legible Numbering.whole value rest
  | null, _, _, _ => trivial
  | bool _, _, _, _ => trivial
  | text _, _, _, _ => trivial
  | int _, _, _, hrest => ⟨trivial, hrest.resolve_left (by simp [isClosed])⟩
  | tuple _, rest, h, _ => AreParted.legible h rest
  | record cls _, _, h, hrest =>
    ⟨h.1, FieldsParted.legible h.2 (by rw [List.length_map, h.1]) (isName_of_mem cls)
      (hrest.resolve_left (by simp [isClosed]))⟩

theorem AreParted.legible : ∀ {values : List Value}, AreParted values → ∀ rest : List Char,
    AreLegible Numbering.whole values (']' :: rest)
  | [], _, _ => trivial
  | _ :: _, h, rest =>
    ⟨h.1.legible (h.2.1.imp_right fun hnext => h.2.2.noDigit hnext rest), h.2.2.legible rest⟩

theorem FieldsParted.legible : ∀ {names : List String} {values : List Value} {rest : List Char},
    FieldsParted values → names.length = values.length → (∀ name ∈ names, isName name) →
    NoDigit rest → FieldsLegible Numbering.whole names values rest
  | _, [], _, _, _, _, _ => trivial
  | _ :: names, value :: values, rest, h, hlength, hnames, hrest => by
    have hlegible : FieldsLegible Numbering.whole names values rest :=
      h.2.legible (Nat.succ.inj hlength) (fun name hname => hnames name (.tail _ hname)) hrest
    refine ⟨h.1.legible (.inr ?_), hlegible⟩
    -- Behind a field stands the name of the next one, or the rest.
    match names, values, hlength with
    | [], [], _ => exact hrest
    | name :: names, next :: values, _ =>
      rw [List.tail_cons, toList_fieldSpellings_cons, List.append_assoc]
      exact noDigit_of_isName (hnames name (by simp)) _

end

/-- Parted values that are spelled alike are one. -/
theorem Parted.spelling_inj {x y : Value} (hx : x.Parted) (hy : y.Parted)
    (h : x.spelling = y.spelling) : x = y := by
  have hend : NoDigit [] := by simp [NoDigit]
  exact (spelling_append_inj x y [] [] (hx.legible (.inr hend)) (hy.legible (.inr hend))
    (by rw [h])).1

end Value

/-! ### Trees and settings -/

theorem Leaf.fieldsParted (info : Leaf) : Value.FieldsParted info.fields := by
  cases info with
  | comment | text => trivial
  | «attribute» name value => cases value <;> exact ⟨trivial, trivial, trivial⟩
  | declaration => exact ⟨trivial, trivial, trivial, trivial⟩

theorem Value.areParted_texts (texts : List String) : AreParted (texts.map text) := by
  induction texts with
  | nil => trivial
  | cons s texts ih => exact ⟨trivial, .inl rfl, ih⟩

theorem Container.fieldsParted (info : Container) : Value.FieldsParted info.fields := by
  cases info with
  | functionDeclaration name params => exact ⟨trivial, Value.areParted_texts params, trivial⟩
  | _ => simp [fields, Value.FieldsParted, Value.Parted]

namespace Node

theorem isUnsigned_toValue (node : Node) : node.toValue.isUnsigned = false := by
  cases node <;> rfl

mutual

theorem toValue_parted : ∀ node : Node, node.toValue.Parted
  | leaf _ _ info => ⟨info.length_fields, trivial, trivial, info.fieldsParted⟩
  | container _ _ info children =>
    ⟨info.length_fields, trivial, trivial, toValues_parted children, info.fieldsParted⟩
  | element _ _ _ attributes children =>
    ⟨rfl, trivial, trivial, toValues_parted children, trivial, toValues_parted attributes, trivial,
      trivial, trivial⟩

theorem toValues_parted : ∀ nodes : List Node, Value.AreParted (toValues nodes)
  | [] => trivial
  | node :: nodes => by
    refine ⟨toValue_parted node, .inr ?_, toValues_parted nodes⟩
    cases nodes with
    | nil => simp [toValues]
    | cons next nodes =>
        rintro value hvalue
        obtain rfl : next.toValue = value := by simpa [toValues] using hvalue
        exact next.isUnsigned_toValue

end

end Node

theorem Config.eq_of_spelling {c d : Config} (h : c.spelling = d.spelling) : c = d := by
  have hspelling (c : Config) : c.spelling.toList = className.toList ++
      (Value.fieldSpellings (c.fields.map Prod.fst) (c.fields.map Prod.snd)).toList := by
    simp [spelling, fields, Value.fieldSpellings]
  have hlegible (c : Config) :
      Value.FieldsLegible .whole (c.fields.map Prod.fst) (c.fields.map Prod.snd) [] :=
    ⟨trivial, trivial, trivial, trivial, trivial, trivial, trivial⟩
  have hfields := congrArg String.toList h
  rw [hspelling c, hspelling d] at hfields
  obtain ⟨hvalues, -⟩ := Value.fieldSpellings_append_inj (c.fields.map Prod.fst)
    (c.fields.map Prod.snd) (d.fields.map Prod.snd) [] [] rfl (hlegible c) (hlegible d)
    (by rw [List.append_cancel_left hfields]; rfl)
  cases c
  cases d
  simpa [fields] using hvalues

/-- No two trees are spelled out in the same bytes, and no two settings are: what a fingerprint
is the digest of is different wherever a class, a field or the nesting is. -/
theorem bytes_separate_trees_and_settings :
    (∀ m n : Node,
      Digest.textBytes m.toValue.spelling = Digest.textBytes n.toValue.spelling ↔ m = n) ∧
    (∀ c d : Config, Digest.textBytes c.spelling = Digest.textBytes d.spelling ↔ c = d) := by
  constructor
  · intro m n
    rw [Digest.textBytes_inj]
    refine ⟨fun h => ?_, fun h => by rw [h]⟩
    have hrecords : m.toValue = n.toValue := m.toValue_parted.spelling_inj n.toValue_parted h
    have hread := congrArg Node.ofValue? hrecords
    rw [Node.ofValue?_toValue, Node.ofValue?_toValue] at hread
    exact Option.some.inj hread
  · intro c d
    rw [Digest.textBytes_inj]
    exact ⟨Config.eq_of_spelling, fun h => by rw [h]⟩

/-! ### Rows of plain values -/

/-- The figure that a digit stands for. -/
def figure (digit : Char) : Int :=
  (digit.toNat - '0'.toNat : Nat)

/-- The figures of an integer, the first one with the sign. -/
def figures (n : Int) : List Int :=
  match Nat.toDigits 10 n.natAbs with
  | [] => []
  | first :: others => (if 0 ≤ n then figure first else -figure first) :: others.map figure

theorem digitChar_figure {c : Char} (hc : c.isDigit) :
    (figure c).natAbs < 10 ∧ (figure c).natAbs.digitChar = c := by
  have hrange : 48 ≤ c.toNat ∧ c.toNat ≤ 57 := Char.isDigit_iff_toNat.mp hc
  have hlt : c.toNat - '0'.toNat < 10 := by
    rw [show '0'.toNat = 48 from rfl]
    omega
  refine ⟨hlt, Char.toNat_inj.mp ?_⟩
  show (c.toNat - '0'.toNat).digitChar.toNat = c.toNat
  rw [Nat.toNat_digitChar_of_lt_ten hlt, show '0'.toNat = 48 from rfl]
  omega

theorem toDigits_figure {c : Char} (hc : c.isDigit) :
    Nat.toDigits 10 (figure c).natAbs = [c] := by
  obtain ⟨hlt, hchar⟩ := digitChar_figure hc
  rw [Nat.toDigits_of_lt_base hlt, hchar]

theorem toList_toString_figure {c : Char} (hc : c.isDigit) :
    (toString (figure c)).toList = [c] := by
  have hnat : 0 ≤ figure c := Int.natCast_nonneg _
  rw [Json.toList_toString_int, if_pos hnat, toDigits_figure hc]

/-- With the sign before it a figure is spelled as the sign and the digit, unless it is zero. -/
theorem toList_toString_neg_figure {c : Char} (hc : c.isDigit) (hzero : c ≠ '0') :
    (toString (-figure c)).toList = ['-', c] := by
  obtain ⟨-, hchar⟩ := digitChar_figure hc
  have hpositive : ¬ 0 ≤ -figure c := by
    intro hle
    have hnat : 0 ≤ figure c := Int.natCast_nonneg _
    have hfigure : (figure c).natAbs = 0 := by omega
    rw [hfigure] at hchar
    exact hzero hchar.symm
  rw [Json.toList_toString_int, if_neg hpositive, Int.natAbs_neg, toDigits_figure hc]

theorem natAbs_lt_of_mem_figures {n k : Int} (hk : k ∈ figures n) : k.natAbs < 10 := by
  have hall := Json.isDigit_of_mem_toDigits n.natAbs
  unfold figures at hk
  split at hk
  · cases hk
  next first others hdigits =>
    rw [hdigits] at hall
    rcases List.mem_cons.mp hk with rfl | hothers
    · have hlt := (digitChar_figure (hall first List.mem_cons_self)).1
      split
      · exact hlt
      · rwa [Int.natAbs_neg]
    · obtain ⟨c, hc, rfl⟩ := List.mem_map.mp hothers
      exact (digitChar_figure (hall c (List.mem_cons_of_mem _ hc))).1

namespace Value

theorem toList_spellings_figures {cs : List Char} (hcs : ∀ c ∈ cs, c.isDigit) :
    (spellings ((cs.map figure).map int)).toList = cs := by
  induction cs with
  | nil => rfl
  | cons c cs ih =>
      have hfigure : (int (figure c)).spelling.toList = [c] :=
        toList_toString_figure (hcs c List.mem_cons_self)
      have hothers := ih fun d hd => hcs d (List.mem_cons_of_mem c hd)
      rw [List.map_cons, List.map_cons, toList_spellings_cons, hfigure, hothers]
      rfl

/-- The figures of an integer are spelled like the integer. -/
theorem spellings_map_figures (n : Int) :
    (spellings ((figures n).map int)).toList = (toString n).toList := by
  obtain ⟨first, others, hdigits, hfirst⟩ := Json.toDigits_cons n.natAbs
  have hall := Json.isDigit_of_mem_toDigits n.natAbs
  rw [hdigits] at hall
  have hothers : (spellings ((others.map figure).map int)).toList = others :=
    toList_spellings_figures fun c hc => hall c (List.mem_cons_of_mem first hc)
  have hfigures : figures n =
      (if 0 ≤ n then figure first else -figure first) :: others.map figure := by
    rw [figures, hdigits]
  rw [hfigures, List.map_cons, toList_spellings_cons, hothers, Json.toList_toString_int, hdigits]
  by_cases hn : 0 ≤ n
  · have hspelled : (int (figure first)).spelling.toList = [first] := toList_toString_figure hfirst
    rw [if_pos hn, if_pos hn, hspelled]
    rfl
  · have hzero : first ≠ '0' := by
      rintro rfl
      have := Json.toDigits_head n.natAbs (by rw [hdigits]; rfl)
      omega
    have hspelled : (int (-figure first)).spelling.toList = ['-', first] :=
      toList_toString_neg_figure hfirst hzero
    rw [if_neg hn, if_neg hn, hspelled]
    rfl

mutual

/-- Whether a value is made of rows, integers, truth values, texts and null alone. -/
def IsPlain : Value → Prop
  | null | bool _ | int _ | text _ => True
  | tuple items => ArePlain items
  | _ => False

/-- Whether all of several values are plain. -/
def ArePlain : List Value → Prop
  | [] => True
  | value :: values => IsPlain value ∧ ArePlain values

end

mutual

/-- What a value is once every integer in its rows is replaced by its figures: several values
if it is an integer itself. -/
def figured : Value → List Value
  | int n => (figures n).map int
  | tuple items => [tuple (allFigured items)]
  | value => [value]

/-- `figured` for values one after another. -/
def allFigured : List Value → List Value
  | [] => []
  | value :: values => figured value ++ allFigured values

end

mutual

/-- A value is spelled like what its figures leave of it. -/
theorem spellings_figured : ∀ {value : Value}, value.IsPlain →
    (spellings value.figured).toList = value.spelling.toList
  | int n, _ => spellings_map_figures n
  | tuple items, h => by
    rw [figured, toList_spellings_singleton, toList_spelling rfl, toList_spelling rfl, body, body,
      spellings_allFigured h]
  | null, _ => toList_spellings_singleton _
  | bool _, _ => toList_spellings_singleton _
  | text _, _ => toList_spellings_singleton _

theorem spellings_allFigured : ∀ {values : List Value}, ArePlain values →
    (spellings (allFigured values)).toList = (spellings values).toList
  | [], _ => rfl
  | value :: values, h => by
    rw [allFigured, spellings_append, spellings_figured h.1, spellings_allFigured h.2,
      toList_spellings_cons]

end

theorem areLegible_of_single {ns : List Int} {rest : List Char} (h : ∀ n ∈ ns, n.natAbs < 10) :
    AreLegible Numbering.figures (ns.map int) rest := by
  induction ns with
  | nil => trivial
  | cons n ns ih =>
      have hn : n.natAbs < 10 := h n List.mem_cons_self
      exact ⟨⟨hn, trivial⟩, ih fun m hm => h m (List.mem_cons_of_mem n hm)⟩

mutual

/-- What its figures leave of a plain value can be read whatever follows it. -/
theorem IsPlain.legible : ∀ {value : Value}, value.IsPlain → ∀ rest : List Char,
    AreLegible Numbering.figures value.figured rest
  | int _, _, _ => areLegible_of_single fun _ hk => natAbs_lt_of_mem_figures hk
  | tuple _, h, rest => ⟨ArePlain.legible h (']' :: rest), trivial⟩
  | null, _, _ => ⟨trivial, trivial⟩
  | bool _, _, _ => ⟨trivial, trivial⟩
  | text _, _, _ => ⟨trivial, trivial⟩

theorem ArePlain.legible : ∀ {values : List Value}, ArePlain values → ∀ rest : List Char,
    AreLegible Numbering.figures (allFigured values) rest
  | [], _, _ => trivial
  | _ :: _, h, rest => (h.1.legible _).append (h.2.legible rest)

end

/-- Plain values are spelled out in the same bytes exactly if they agree once every integer in
their rows is replaced by its figures.  They are the same themselves if in none of their rows an
integer without a sign stands right behind another integer. -/
theorem plain_bytes_eq_iff_figured {x y : Value} (hx : x.IsPlain) (hy : y.IsPlain) :
    (Digest.textBytes x.spelling = Digest.textBytes y.spelling ↔ x.figured = y.figured) ∧
    (x.Parted → y.Parted → Digest.textBytes x.spelling = Digest.textBytes y.spelling →
      x = y) := by
  rw [Digest.textBytes_inj]
  refine ⟨⟨fun h => ?_, fun h => ?_⟩, fun hpartedX hpartedY h => hpartedX.spelling_inj hpartedY h⟩
  · have hspelled : (spellings x.figured).toList ++ ']' :: [] =
        (spellings y.figured).toList ++ ']' :: [] := by
      rw [spellings_figured hx, spellings_figured hy, h]
    exact (spellings_append_inj _ _ [] [] (hx.legible _) (hy.legible _) hspelled).1
  · apply String.toList_inj.mp
    rw [← spellings_figured hx, ← spellings_figured hy, h]

/-- A row of one and two is spelled out like a row of twelve, but a row of one and minus two is
not. -/
theorem plain_bytes_eq_iff_figured_of_twelve :
    (tuple [int 1, int 2]).IsPlain ∧ (tuple [int 1, int (-2)]).IsPlain ∧
      (tuple [int 12]).IsPlain ∧ tuple [int 1, int 2] ≠ tuple [int 12] ∧
      Digest.textBytes (tuple [int 1, int 2]).spelling =
        Digest.textBytes (tuple [int 12]).spelling ∧
      Digest.textBytes (tuple [int 1, int (-2)]).spelling ≠
        Digest.textBytes (tuple [int 12]).spelling := by
  have hpair : (tuple [int 1, int 2]).IsPlain := ⟨trivial, trivial, trivial⟩
  have hsigned : (tuple [int 1, int (-2)]).IsPlain := ⟨trivial, trivial, trivial⟩
  have hsingle : (tuple [int 12]).IsPlain := ⟨trivial, trivial⟩
  have hfigured : (tuple [int 1, int 2]).figured = (tuple [int 12]).figured := by rfl
  have hpartedSigned : (tuple [int 1, int (-2)]).Parted := by
    simp [Parted, AreParted, isUnsigned]
  have hpartedSingle : (tuple [int 12]).Parted := by simp [Parted, AreParted]
  refine ⟨hpair, hsigned, hsingle, by simp,
    (plain_bytes_eq_iff_figured hpair hsingle).1.mpr hfigured, ?_⟩
  intro h
  have hsame := (plain_bytes_eq_iff_figured hsigned hsingle).2 hpartedSigned hpartedSingle h
  simp at hsame

end Value

end SourceView
