/-
Spelled out values are told apart: trees and settings that a fingerprint is fed the same
bytes for are the same.

Nothing stands between the parts of a spelling, so every part has to show by itself where it
ends.  Words do, because no word begins another one, quoted texts do, because of their marks,
and what a word opens is closed by a bracket or has a known number of fields.  Integers do
not: an integer ends where no further digit follows.  What has to be known of integers is
kept apart in a `Numbering`, and a value is legible if all the integers in it keep to it.  The
proof is one induction over values: a legible value is determined by any text that begins
with its spelling, and so is the rest of that text.

In the record of a tree an integer stands only before the name of a field, and no name begins
with a digit.
-/
import SourceView.Proofs.Record.RoundTrip
import SourceView.Proofs.Text.Encoding
import SourceView.Proofs.Text.Quoted
import SourceView.Record.Fingerprint

namespace SourceView

/-! ### Integers -/

/-- Integers that begin the same text have the same sign, and their figures begin the same
text. -/
theorem toString_append_split {m n : Int} {rest rest' : List Char}
    (h : (toString m).toList ++ rest = (toString n).toList ++ rest') :
    (0 ≤ m ↔ 0 ≤ n) ∧
      Nat.toDigits 10 m.natAbs ++ rest = Nat.toDigits 10 n.natAbs ++ rest' := by
  have hdash (k : Nat) (others others' : List Char) :
      Nat.toDigits 10 k ++ others ≠ '-' :: others' := by
    obtain ⟨c, cs, hcons, hdigit⟩ := Json.toDigits_cons k
    rw [hcons]
    rintro hsame
    rw [(List.cons.inj hsame).1] at hdigit
    exact absurd hdigit (by decide)
  rw [Json.toList_toString_int, Json.toList_toString_int] at h
  by_cases hm : 0 ≤ m
  · by_cases hn : 0 ≤ n
    · rw [if_pos hm, if_pos hn] at h
      exact ⟨iff_of_true hm hn, h⟩
    · rw [if_pos hm, if_neg hn] at h
      exact absurd h (hdash _ _ _)
  · by_cases hn : 0 ≤ n
    · rw [if_neg hm, if_pos hn] at h
      exact absurd h.symm (hdash _ _ _)
    · rw [if_neg hm, if_neg hn] at h
      exact ⟨iff_of_false hm hn, (List.cons.inj h).2⟩

theorem eq_of_toDigits {m n : Int} (hsign : 0 ≤ m ↔ 0 ≤ n)
    (h : Nat.toDigits 10 m.natAbs = Nat.toDigits 10 n.natAbs) : m = n := by
  have habs : m.natAbs = n.natAbs := by
    rw [← Json.digitsValue_toDigits m.natAbs, h, Json.digitsValue_toDigits]
  omega

/-- The text does not go on with a digit. -/
def NoDigit (rest : List Char) : Prop :=
  ∀ c ∈ rest.head?, c.isDigit = false

theorem NoDigit.cons {c : Char} (hc : c.isDigit = false) (rest : List Char) :
    NoDigit (c :: rest) := by
  intro d hd
  obtain rfl : c = d := by simpa using hd
  exact hc

/-- Digits end where no further digit follows. -/
theorem digits_append_inj {cs ds rest rest' : List Char} (hcs : ∀ c ∈ cs, c.isDigit)
    (hds : ∀ d ∈ ds, d.isDigit) (hrest : NoDigit rest) (hrest' : NoDigit rest')
    (h : cs ++ rest = ds ++ rest') : cs = ds ∧ rest = rest' := by
  have hsame : cs = ds := by
    rw [← Json.takeWhile_digits hcs hrest, h, Json.takeWhile_digits hds hrest']
  subst hsame
  exact ⟨rfl, List.append_cancel_left h⟩

/-- What integers are bound to where they are spelled out: which of them may stand at all,
and what may come behind one, such that an integer shows where it ends. -/
structure Numbering where
  Allowed : Int → Prop
  Follows : List Char → Prop
  separates : ∀ {m n : Int} {rest rest' : List Char}, Allowed m → Allowed n → Follows rest →
    Follows rest' → (toString m).toList ++ rest = (toString n).toList ++ rest' →
    m = n ∧ rest = rest'

/-- Any integer may stand, but no digit may come behind one. -/
def Numbering.whole : Numbering where
  Allowed _ := True
  Follows := NoDigit
  separates := by
    intro m n rest rest' _ _ hrest hrest' h
    obtain ⟨hsign, hdigits⟩ := toString_append_split h
    obtain ⟨hsame, htail⟩ := digits_append_inj (Json.isDigit_of_mem_toDigits m.natAbs)
      (Json.isDigit_of_mem_toDigits n.natAbs) hrest hrest' hdigits
    exact ⟨eq_of_toDigits hsign hsame, htail⟩

/-- Only single figures may stand, with or without a sign; anything may come behind one. -/
def Numbering.figures : Numbering where
  Allowed n := n.natAbs < 10
  Follows _ := True
  separates := by
    intro m n rest rest' hm hn _ _ h
    obtain ⟨hsign, hdigits⟩ := toString_append_split h
    have hlength : (Nat.toDigits 10 m.natAbs).length = (Nat.toDigits 10 n.natAbs).length := by
      rw [Nat.toDigits_of_lt_base hm, Nat.toDigits_of_lt_base hn]
      rfl
    obtain ⟨hsame, htail⟩ := List.append_inj hdigits hlength
    exact ⟨eq_of_toDigits hsign hsame, htail⟩

/-! ### Heads -/

/-- What a value begins with: all of it, or what opens it. -/
inductive Head where
  | null
  | bool (b : Bool)
  | int (n : Int)
  | text (s : String)
  | tuple
  | record (cls : RecordClass)
deriving DecidableEq

namespace Head

/-- A head spelled out. -/
def spelled : Head → List Char
  | null => "None".toList
  | bool true => "True".toList
  | bool false => "False".toList
  | int n => (toString n).toList
  | text s => (Text.quoted s).toList
  | tuple => "seq[".toList
  | record cls => cls.name.toList

/-- The heads that are words. -/
def words : List Head :=
  [null, bool true, bool false, tuple] ++ RecordClass.all.map record

/-- No word begins another one. -/
theorem words_apart : ∀ a ∈ words, ∀ b ∈ words, a.spelled <+: b.spelled → a = b := by
  decide +kernel

/-- The ways that heads are written in. -/
inductive Form where
  | word | numeral | quotation
deriving DecidableEq

/-- The way that a head is written in. -/
def form : Head → Form
  | int _ => .numeral
  | text _ => .quotation
  | _ => .word

/-- The way that a head is written in which begins with a given character. -/
def formOf (c : Char) : Form :=
  if c = '\'' ∨ c = '"' then .quotation
  else if c = '-' ∨ c.isDigit then .numeral
  else .word

theorem formOf_of_isDigit {c : Char} (hc : c.isDigit) : formOf c = .numeral := by
  have hquote : ¬ (c = '\'' ∨ c = '"') := by
    rintro (rfl | rfl) <;> exact absurd hc (by decide)
  rw [formOf, if_neg hquote, if_pos (.inr hc)]

theorem mem_words {head : Head} (h : head.form = .word) : head ∈ words := by
  cases head with
  | null => decide
  | bool b => cases b <;> decide
  | int n => exact absurd h (by simp [form])
  | text s => exact absurd h (by simp [form])
  | tuple => decide
  | record cls => cases cls <;> decide

theorem words_begin :
    ∀ head ∈ words, head.spelled.head?.any (fun c => formOf c = .word ∧ c ≠ ']') := by
  decide +kernel

/-- The first character of a head tells the way it is written in, and is no closing bracket. -/
theorem spelled_begin (head : Head) :
    ∃ c cs, head.spelled = c :: cs ∧ formOf c = head.form ∧ c ≠ ']' := by
  cases hform : head.form with
  | word =>
      obtain ⟨c, hc, hbegins⟩ := (Option.any_eq_true _ _).mp (words_begin head (mem_words hform))
      obtain ⟨cs, hcs⟩ := List.head?_eq_some_iff.mp hc
      obtain ⟨hword, hbracket⟩ := of_decide_eq_true hbegins
      exact ⟨c, cs, hcs, hword, hbracket⟩
  | numeral =>
      obtain ⟨n, rfl⟩ : ∃ n, head = int n := by
        cases head <;> first | exact ⟨_, rfl⟩ | cases hform
      have hspelled : (int n).spelled = _ := Json.toList_toString_int n
      rw [hspelled]
      split
      · obtain ⟨c, cs, hcons, hdigit⟩ := Json.toDigits_cons n.natAbs
        refine ⟨c, cs, hcons, formOf_of_isDigit hdigit, ?_⟩
        rintro rfl
        exact absurd hdigit (by decide)
      · exact ⟨'-', _, rfl, by decide, by decide⟩
  | quotation =>
      obtain ⟨s, rfl⟩ : ∃ s, head = text s := by
        cases head <;> first | exact ⟨_, rfl⟩ | cases hform
      have hspelled : (text s).spelled = Text.quotedChars s.toList := String.toList_ofList
      rw [hspelled]
      refine ⟨_, _, rfl, ?_⟩
      rcases Text.isMark_quoteMark s.toList with hmark | hmark
      all_goals rw [hmark]; decide

/-- Whether a head is all of its value. -/
def isAtom : Head → Bool
  | tuple | record _ => false
  | _ => true

/-- What follows a head is such that the head shows where it ends. -/
def Ends (numbering : Numbering) : Head → List Char → Prop
  | int n, rest => numbering.Allowed n ∧ numbering.Follows rest
  | _, _ => True

/-- Two texts that begin with heads begin with the same head and go on alike. -/
theorem spelled_append_inj {numbering : Numbering} {a b : Head} {rest rest' : List Char}
    (ha : a.Ends numbering rest) (hb : b.Ends numbering rest')
    (h : a.spelled ++ rest = b.spelled ++ rest') : a = b ∧ rest = rest' := by
  have hforms : a.form = b.form := by
    obtain ⟨c, cs, hc, hforma, -⟩ := a.spelled_begin
    obtain ⟨d, ds, hd, hformb, -⟩ := b.spelled_begin
    rw [hc, hd] at h
    rw [← hforma, ← hformb, (List.cons.inj h).1]
  cases hform : a.form with
  | word =>
      have hprefix : a.spelled <+: b.spelled ∨ b.spelled <+: a.spelled :=
        List.prefix_or_prefix_of_prefix (List.prefix_append _ rest) (h ▸ List.prefix_append _ rest')
      have hwordA := mem_words hform
      have hwordB := mem_words (hforms ▸ hform)
      have hsame : a = b := by
        rcases hprefix with hprefix | hprefix
        · exact words_apart a hwordA b hwordB hprefix
        · exact (words_apart b hwordB a hwordA hprefix).symm
      subst hsame
      exact ⟨rfl, List.append_cancel_left h⟩
  | numeral =>
      rw [hform] at hforms
      cases a <;> cases hform
      cases b <;> cases hforms
      obtain ⟨rfl, hrest⟩ := numbering.separates ha.1 hb.1 ha.2 hb.2 h
      exact ⟨rfl, hrest⟩
  | quotation =>
      rw [hform] at hforms
      cases a <;> cases hform
      cases b <;> cases hforms
      obtain ⟨rfl, hrest⟩ := Text.quoted_append_inj h
      exact ⟨rfl, hrest⟩

end Head

/-! ### Values -/

namespace Value

/-- The head of a value that can be told apart by it. -/
def head? : Value → Option Head
  | null => some .null
  | bool b => some (.bool b)
  | int n => some (.int n)
  | text s => some (.text s)
  | tuple _ => some .tuple
  | record cls _ => some (.record cls)
  | _ => none

/-- What a value is spelled with behind its head. -/
def body : Value → List Char
  | tuple items => (spellings items).toList ++ [']']
  | record cls fields => (fieldSpellings (cls.fields.map Field.name) fields).toList
  | _ => []

theorem toList_spelling {value : Value} {head : Head} (h : value.head? = some head) :
    value.spelling.toList = head.spelled ++ value.body := by
  cases value with
  | null | int | text => obtain rfl := Option.some.inj h; exact (List.append_nil _).symm
  | bool b => obtain rfl := Option.some.inj h; cases b <;> rfl
  | tuple items =>
      obtain rfl := Option.some.inj h
      show ("seq[" ++ spellings items ++ "]").toList = "seq[".toList ++ (_ ++ "]".toList)
      rw [String.toList_append, String.toList_append, List.append_assoc]
  | record cls fields =>
      obtain rfl := Option.some.inj h
      exact String.toList_append
  | real | plain | member | diagnostic => cases h

/-- An atom is nothing but its head. -/
theorem eq_of_atom {x y : Value} {head : Head} (hatom : head.isAtom = true)
    (hx : x.head? = some head) (hy : y.head? = some head) : x = y ∧ x.body = [] ∧ y.body = [] := by
  cases head with
  | null | bool | int | text =>
      cases x <;> cases hx
      cases y <;> cases hy
      exact ⟨rfl, rfl, rfl⟩
  | tuple | record => cases hatom

theorem toList_spellings_cons (value : Value) (values : List Value) :
    (spellings (value :: values)).toList = value.spelling.toList ++ (spellings values).toList :=
  String.toList_append ..

theorem spellings_append (xs ys : List Value) :
    (spellings (xs ++ ys)).toList = (spellings xs).toList ++ (spellings ys).toList := by
  induction xs with
  | nil => rfl
  | cons x xs ih =>
      rw [List.cons_append, toList_spellings_cons, toList_spellings_cons, ih, List.append_assoc]

theorem toList_spellings_singleton (value : Value) :
    (spellings [value]).toList = value.spelling.toList := by
  rw [toList_spellings_cons]
  exact List.append_nil _

theorem toList_fieldSpellings_cons (names : List String) (value : Value) (values : List Value) :
    (fieldSpellings names (value :: values)).toList =
      (names.headD "").toList ++ (value.spelling.toList ++
        (fieldSpellings names.tail values).toList) := by
  rw [fieldSpellings, String.toList_append, String.toList_append, List.append_assoc]

section

variable (numbering : Numbering)

mutual

/-- A value can be read where a given text follows its spelling: it is of a kind that its head
tells, a record has all its fields, and every integer in it keeps to the numbering. -/
def Legible : Value → List Char → Prop
  | null, _ | bool _, _ | text _, _ => True
  | int n, rest => numbering.Allowed n ∧ numbering.Follows rest
  | tuple items, rest => AreLegible items (']' :: rest)
  | record cls fields, rest =>
    fields.length = cls.fields.length ∧
      FieldsLegible (cls.fields.map Field.name) fields rest
  | _, _ => False
termination_by structural x => x

/-- Values can be read one after another. -/
def AreLegible : List Value → List Char → Prop
  | [], _ => True
  | value :: values, rest =>
    Legible value ((spellings values).toList ++ rest) ∧ AreLegible values rest
termination_by structural xs => xs

/-- Fields can be read one after another, each behind its name. -/
def FieldsLegible (names : List String) : List Value → List Char → Prop
  | [], _ => True
  | value :: values, rest =>
    Legible value ((fieldSpellings names.tail values).toList ++ rest) ∧
      FieldsLegible names.tail values rest
termination_by structural xs => xs

end

variable {numbering}

theorem AreLegible.append {xs ys : List Value} {rest : List Char}
    (hxs : AreLegible numbering xs ((spellings ys).toList ++ rest))
    (hys : AreLegible numbering ys rest) : AreLegible numbering (xs ++ ys) rest := by
  induction xs with
  | nil => exact hys
  | cons x xs ih =>
      have hx : Legible numbering x ((spellings (xs ++ ys)).toList ++ rest) := by
        rw [spellings_append, List.append_assoc]
        exact hxs.1
      exact ⟨hx, ih hxs.2⟩

/-- A legible value has a head, and the head shows where it ends. -/
theorem Legible.head {value : Value} {rest : List Char} (h : Legible numbering value rest) :
    ∃ head, value.head? = some head ∧ head.Ends numbering (value.body ++ rest) := by
  cases value with
  | null | bool | text | tuple | record => exact ⟨_, rfl, trivial⟩
  | int n => exact ⟨_, rfl, h⟩
  | real | plain | member | diagnostic => exact h.elim

theorem Legible.spelling_begin {value : Value} {rest : List Char}
    (h : Legible numbering value rest) :
    ∃ c cs, value.spelling.toList = c :: cs ∧ c ≠ ']' := by
  obtain ⟨head, hhead, -⟩ := h.head
  obtain ⟨c, cs, hc, -, hbracket⟩ := head.spelled_begin
  exact ⟨c, cs ++ value.body, by rw [toList_spelling hhead, hc, List.cons_append], hbracket⟩

/-- Two texts that begin with legible values begin with the same head. -/
theorem Legible.heads_eq {x y : Value} {rest rest' : List Char} (hx : Legible numbering x rest)
    (hy : Legible numbering y rest')
    (h : x.spelling.toList ++ rest = y.spelling.toList ++ rest') :
    x.head? = y.head? ∧ x.body ++ rest = y.body ++ rest' := by
  obtain ⟨a, ha, hendsA⟩ := hx.head
  obtain ⟨b, hb, hendsB⟩ := hy.head
  rw [toList_spelling ha, toList_spelling hb, List.append_assoc, List.append_assoc] at h
  obtain ⟨rfl, hbody⟩ := Head.spelled_append_inj hendsA hendsB h
  exact ⟨ha.trans hb.symm, hbody⟩

/-- Two texts that begin with legible values, one of which is an atom, begin with the same
value and go on alike. -/
theorem Legible.atom_append_inj {x y : Value} {head : Head} {rest rest' : List Char}
    (hatom : head.isAtom = true) (hhead : x.head? = some head) (hx : Legible numbering x rest)
    (hy : Legible numbering y rest')
    (h : x.spelling.toList ++ rest = y.spelling.toList ++ rest') : x = y ∧ rest = rest' := by
  obtain ⟨hheads, hbody⟩ := hx.heads_eq hy h
  obtain ⟨hsame, hnilX, hnilY⟩ := eq_of_atom hatom hhead (hheads ▸ hhead)
  rw [hnilX, hnilY] at hbody
  exact ⟨hsame, hbody⟩

mutual

/-- Two texts that begin with legible values begin with the same value and go on alike. -/
theorem spelling_append_inj : ∀ (x y : Value) (rest rest' : List Char),
    Legible numbering x rest → Legible numbering y rest' →
    x.spelling.toList ++ rest = y.spelling.toList ++ rest' → x = y ∧ rest = rest'
  | tuple items, y, rest, rest' => by
    intro hx hy h
    obtain ⟨hhead, hbody⟩ := hx.heads_eq hy h
    obtain ⟨items', rfl⟩ : ∃ items', y = tuple items' := by
      cases y <;> cases hhead
      exact ⟨_, rfl⟩
    simp only [body, List.append_assoc, List.singleton_append] at hbody
    obtain ⟨rfl, hrest⟩ := spellings_append_inj items items' rest rest' hx hy hbody
    exact ⟨rfl, hrest⟩
  | record cls fields, y, rest, rest' => by
    intro hx hy h
    obtain ⟨hhead, hbody⟩ := hx.heads_eq hy h
    obtain ⟨fields', rfl⟩ : ∃ fields', y = record cls fields' := by
      cases y <;> cases hhead
      exact ⟨_, rfl⟩
    have hlength : fields.length = fields'.length := hx.1.trans hy.1.symm
    obtain ⟨rfl, hrest⟩ :=
      fieldSpellings_append_inj _ fields fields' rest rest' hlength hx.2 hy.2 hbody
    exact ⟨rfl, hrest⟩
  | null, _, _, _ => Legible.atom_append_inj rfl rfl
  | bool _, _, _, _ => Legible.atom_append_inj rfl rfl
  | int _, _, _, _ => Legible.atom_append_inj rfl rfl
  | text _, _, _, _ => Legible.atom_append_inj rfl rfl
  | real _, _, _, _ => fun hx => hx.elim
  | plain _, _, _, _ => fun hx => hx.elim
  | member _ _, _, _, _ => fun hx => hx.elim
  | diagnostic _, _, _, _ => fun hx => hx.elim

/-- Legible values in brackets are determined by any text that goes on with them. -/
theorem spellings_append_inj : ∀ (xs ys : List Value) (rest rest' : List Char),
    AreLegible numbering xs (']' :: rest) → AreLegible numbering ys (']' :: rest') →
    (spellings xs).toList ++ ']' :: rest = (spellings ys).toList ++ ']' :: rest' →
    xs = ys ∧ rest = rest'
  | [], [], rest, rest', _, _, h => ⟨rfl, (List.cons.inj h).2⟩
  | [], y :: ys, rest, rest', _, hys, h => by
    -- The bracket that closes one row is no first character of a value of the other.
    obtain ⟨c, cs, hc, hbracket⟩ := hys.1.spelling_begin
    rw [toList_spellings_cons, hc] at h
    exact absurd (List.cons.inj h).1.symm hbracket
  | x :: xs, [], rest, rest', hxs, _, h => by
    obtain ⟨c, cs, hc, hbracket⟩ := hxs.1.spelling_begin
    rw [toList_spellings_cons, hc] at h
    exact absurd (List.cons.inj h).1 hbracket
  | x :: xs, y :: ys, rest, rest', hxs, hys, h => by
    rw [toList_spellings_cons, toList_spellings_cons, List.append_assoc, List.append_assoc] at h
    obtain ⟨rfl, htail⟩ := spelling_append_inj x y _ _ hxs.1 hys.1 h
    obtain ⟨rfl, hrest⟩ := spellings_append_inj xs ys rest rest' hxs.2 hys.2 htail
    exact ⟨rfl, hrest⟩

/-- As many legible fields of the same names are determined by any text that begins with
them. -/
theorem fieldSpellings_append_inj (names : List String) :
    ∀ (xs ys : List Value) (rest rest' : List Char), xs.length = ys.length →
    FieldsLegible numbering names xs rest → FieldsLegible numbering names ys rest' →
    (fieldSpellings names xs).toList ++ rest = (fieldSpellings names ys).toList ++ rest' →
    xs = ys ∧ rest = rest'
  | [], [], rest, rest', _, _, _, h => ⟨rfl, h⟩
  | x :: xs, y :: ys, rest, rest', hlength, hxs, hys, h => by
    simp only [toList_fieldSpellings_cons, List.append_assoc] at h
    have hvalues := List.append_cancel_left h
    obtain ⟨rfl, htail⟩ := spelling_append_inj x y _ _ hxs.1 hys.1 hvalues
    obtain ⟨rfl, hrest⟩ := fieldSpellings_append_inj names.tail xs ys rest rest'
      (Nat.succ.inj hlength) hxs.2 hys.2 htail
    exact ⟨rfl, hrest⟩

end

end

end Value

end SourceView
