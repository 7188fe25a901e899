/-
What is written as JSON is read back as it was.

The reader is the writer run the other way, so the proof follows the writer.  A text comes
back character by character, an integer digit by digit.  A value comes back whatever
follows it, as long as that cannot be taken for more digits; in a list or an object what
follows a value is a comma, a line break or a bracket, and this is all that an item has to
know about the rest.  The steps of the reader suffice because every level of the reader has
characters of its own to pay for it.

Two kinds of values are left out.  A number that is not an integer is kept as it was
written, and nothing says that it was written as a number; and of an object with a key
twice only one member is read.
-/
import SourceView.Json.Reader
import SourceView.Json.Writer
import Mathlib.Data.List.Basic

namespace SourceView.Json

/-! ### Texts -/

theorem hexValue?_hexDigit : ∀ n < 16, hexValue? (Text.hexDigit n) = some n := by
  decide

theorem hexDigits_four (n : Nat) :
    Text.hexDigits 4 n =
      [Text.hexDigit (n / 16 / 16 / 16 % 16), Text.hexDigit (n / 16 / 16 % 16),
        Text.hexDigit (n / 16 % 16), Text.hexDigit (n % 16)] :=
  rfl

/-- Four digits give back the code unit that they were made of. -/
theorem unit?_hexDigits {n : Nat} (hn : n < 0x10000) :
    unit? (Text.hexDigit (n / 16 / 16 / 16 % 16)) (Text.hexDigit (n / 16 / 16 % 16))
      (Text.hexDigit (n / 16 % 16)) (Text.hexDigit (n % 16)) = some n := by
  simp only [unit?, hexValue?_hexDigit _ (Nat.mod_lt _ (by decide : 0 < 16)), bind, Option.bind,
    Option.some.injEq]
  omega

/-- A code unit that does not begin a pair is read as its character. -/
theorem readTextFrom_unitEscape {n : Nat} (hn : n < 0x10000) (hsingle : ¬ (0xD800 ≤ n ∧ n < 0xDC00))
    (rest : List Char) :
    readTextFrom 0 (unitEscape n ++ rest) =
      (readTextFrom 0 rest).map fun (cs, rest) => (unitChar n :: cs, rest) := by
  simp only [unitEscape, hexDigits_four, List.cons_append, List.nil_append, readTextFrom,
    unit?_hexDigits hn, if_neg hsingle]

/-- Two code units that make a pair are read as the character of the pair. -/
theorem readTextFrom_pair {high low : Nat} (hhigh : high < 0x400) (hlow : low < 0x400)
    (rest : List Char) :
    readTextFrom 0 (unitEscape (0xD800 + high) ++ unitEscape (0xDC00 + low) ++ rest) =
      (readTextFrom 0 rest).map fun (cs, rest) =>
        (Char.ofNat (0x10000 + high * 0x400 + low) :: cs, rest) := by
  have hsecond : lowUnit? (unitEscape (0xDC00 + low) ++ rest) = some (0xDC00 + low) := by
    simp only [unitEscape, hexDigits_four, List.cons_append, lowUnit?]
    rw [unit?_hexDigits (by omega)]
    simp only
    rw [if_pos (by omega)]
  have hskip : readTextFrom 6 (unitEscape (0xDC00 + low) ++ rest) = readTextFrom 0 rest := by
    simp only [unitEscape, hexDigits_four, List.cons_append, List.nil_append, readTextFrom]
  rw [List.append_assoc, unitEscape, hexDigits_four]
  simp only [List.cons_append, List.nil_append]
  rw [readTextFrom, unit?_hexDigits (by omega)]
  simp only
  rw [if_pos (by omega), hsecond, hskip]
  simp only [Nat.add_sub_cancel_left]

theorem unitChar_toNat {c : Char} : unitChar c.toNat = c := by
  have hvalid := c.valid
  rw [unitChar, if_neg, Char.ofNat_toNat]
  rcases hvalid with h | h <;> simp only [Char.toNat] at * <;> omega

/-- A character that stands for itself is read as itself. -/
theorem readTextFrom_plain {c : Char} (hquote : c ≠ '"') (hslash : c ≠ '\\') (hlow : 32 ≤ c.toNat)
    (rest : List Char) :
    readTextFrom 0 (c :: rest) = (readTextFrom 0 rest).map fun (cs, rest) => (c :: cs, rest) := by
  rw [readTextFrom]
  · rw [if_neg (by simp only [hslash, or_false]; omega)]
  · exact hquote
  · exact fun _ _ _ _ _ h _ => hslash h
  · exact fun _ _ h _ => hslash h

/-- A character is read as it was written. -/
theorem readTextFrom_escapeChar (c : Char) (rest : List Char) :
    readTextFrom 0 (escapeChar c ++ rest) =
      (readTextFrom 0 rest).map fun (cs, rest) => (c :: cs, rest) := by
  have hvalid := c.valid
  unfold escapeChar
  split_ifs with hquote hslash hn hr ht hb hf hplain hunit
  · subst hquote; simp [readTextFrom, escaped?]
  · subst hslash; simp [readTextFrom, escaped?]
  · subst hn; simp [readTextFrom, escaped?]
  · subst hr; simp [readTextFrom, escaped?]
  · subst ht; simp [readTextFrom, escaped?]
  · subst hb; simp [readTextFrom, escaped?]
  · subst hf; simp [readTextFrom, escaped?]
  · exact readTextFrom_plain hquote hslash hplain.1 rest
  · rw [readTextFrom_unitEscape hunit, unitChar_toNat]
    rcases hvalid with h | h <;> simp only [Char.toNat] at * <;> omega
  · have hbound : c.toNat < 0x110000 := by
      rcases hvalid with h | h <;> simp only [Char.toNat] at * <;> omega
    have hsum : 0x10000 + (c.toNat - 0x10000) / 0x400 * 0x400 + (c.toNat - 0x10000) % 0x400
        = c.toNat := by
      omega
    rw [readTextFrom_pair (by omega) (by omega), hsum, Char.ofNat_toNat]

/-- A text is read as it was written, up to its closing quote. -/
theorem readTextFrom_flatMap (cs rest : List Char) :
    readTextFrom 0 (cs.flatMap escapeChar ++ '"' :: rest) = some (cs, rest) := by
  induction cs with
  | nil => simp [readTextFrom]
  | cons c cs ih =>
      rw [List.flatMap_cons, List.append_assoc, readTextFrom_escapeChar, ih]
      rfl

/-! ### Integers -/

/-- The text goes on behind a value that has ended. -/
def Ends (rest : List Char) : Prop :=
  ∀ c ∈ rest.head?, c ∈ [',', '\n', ']', '\x7d']

theorem Ends.nil : Ends [] := by
  simp [Ends]

theorem Ends.cons {c : Char} (h : c ∈ [',', '\n', ']', '\x7d']) (rest : List Char) :
    Ends (c :: rest) := by
  simpa [Ends] using h

theorem digitsValue_toDigits (n : Nat) : digitsValue (Nat.toDigits 10 n) = n :=
  Nat.ofDigitChars_ten_toDigits

theorem isDigit_of_mem_toDigits (n : Nat) : ∀ c ∈ Nat.toDigits 10 n, c.isDigit := by
  intro c hc
  exact Nat.isDigit_of_mem_toDigits (by decide) (by decide) hc

/-- No number but zero is written with a leading zero. -/
theorem toDigits_head (n : Nat) (h : (Nat.toDigits 10 n).head? = some '0') : n = 0 := by
  induction n using Nat.strongRecOn with
  | ind n ih =>
      by_cases hn : n < 10
      · rw [Nat.toDigits_of_lt_base hn] at h
        have hdigit : ∀ n < 10, n.digitChar = '0' → n = 0 := by decide
        exact hdigit n hn (by simpa using h)
      · rw [Nat.toDigits_of_base_le (by decide) (by omega),
          List.head?_append_of_ne_nil _ Nat.toDigits_ne_nil] at h
        have := ih (n / 10) (by omega) h
        omega

theorem not_isDigit_head {rest : List Char} (h : Ends rest) : ∀ c ∈ rest.head?, c.isDigit = false := by
  intro c hc
  have hcases := h c hc
  revert c
  simp only [List.mem_cons, List.not_mem_nil, or_false]
  rintro c - (rfl | rfl | rfl | rfl) <;> rfl

theorem takeWhile_digits {cs rest : List Char} (hcs : ∀ c ∈ cs, c.isDigit)
    (hrest : ∀ c ∈ rest.head?, c.isDigit = false) : (cs ++ rest).takeWhile Char.isDigit = cs := by
  rw [List.takeWhile_append_of_pos hcs]
  cases rest with
  | nil => simp
  | cons c rest =>
      rw [List.takeWhile_cons, hrest c rfl]
      simp

theorem fraction_of_ends {rest : List Char} (h : Ends rest) : fraction rest = [] := by
  unfold fraction
  split
  · exact absurd (h '.' rfl) (by decide)
  · rfl

theorem exponent_of_ends {rest : List Char} (h : Ends rest) : exponent rest = [] := by
  unfold exponent
  split
  · rename_i e s rest
    rw [if_neg]
    rintro (rfl | rfl)
    · exact absurd (h 'e' rfl) (by decide)
    · exact absurd (h 'E' rfl) (by decide)
  · rfl

/-- A number is read as it was written, up to what cannot be part of it. -/
theorem readNumber_toDigits {limit : Option Nat} (negative : Bool) {n : Nat} {rest : List Char}
    (hlimit : exceeds (Nat.toDigits 10 n).length limit = false) (hrest : Ends rest) :
    readNumber limit negative (Nat.toDigits 10 n ++ rest) =
      .ok (int (if negative then -n else n), rest) := by
  unfold readNumber
  extract_lets +onlyGivenNames whole
  have hwhole : whole = Nat.toDigits 10 n := by
    unfold whole
    split
    next cs hcs =>
        have hzero : n = 0 := by
          apply toDigits_head
          rw [← List.head?_append_of_ne_nil _ Nat.toDigits_ne_nil, hcs]
          rfl
        rw [hzero, Nat.toDigits_zero]
    next => exact takeWhile_digits (isDigit_of_mem_toDigits n) (not_isDigit_head hrest)
  clear_value whole
  subst hwhole
  have hne : (Nat.toDigits 10 n).isEmpty = false := by
    simp [Nat.toDigits_ne_nil]
  simp only [hne, Bool.false_eq_true, if_false, List.drop_left, fraction_of_ends hrest,
    List.length_nil, List.drop_zero, exponent_of_ends hrest, List.isEmpty_nil, Bool.and_self,
    if_true, hlimit, digitsValue_toDigits, Nat.add_zero]

/-! ### Blanks -/

theorem skipBlanks_append {ws : List Char} (h : ∀ c ∈ ws, isBlank c) (cs : List Char) :
    skipBlanks (ws ++ cs) = skipBlanks cs :=
  List.dropWhile_append_of_pos h

theorem skipBlanks_cons {c : Char} (h : isBlank c = false) (cs : List Char) :
    skipBlanks (c :: cs) = c :: cs := by
  simp [skipBlanks, h]

theorem isBlank_of_mem_lineBreak {layout : Layout} {level : Nat} :
    ∀ c ∈ layout.lineBreak level, isBlank c := by
  intro c hc
  cases layout with
  | none => simp [Layout.lineBreak] at hc
  | some width =>
      rcases List.mem_cons.mp hc with rfl | hc
      · rfl
      · rw [List.eq_of_mem_replicate hc]
        rfl

/-- Between two items stands a comma, and then nothing but blanks. -/
theorem separator_eq (layout : Layout) (level : Nat) :
    ∃ ws, layout.separator level = ',' :: ws ∧ ∀ c ∈ ws, isBlank c := by
  cases layout with
  | none => exact ⟨[' '], rfl, List.forall_mem_singleton.mpr rfl⟩
  | some width => exact ⟨_, rfl, isBlank_of_mem_lineBreak⟩

theorem Ends.lineBreak {c : Char} (h : c ∈ [',', '\n', ']', '\x7d']) (layout : Layout) (level : Nat)
    (rest : List Char) : Ends (layout.lineBreak level ++ c :: rest) := by
  cases layout with
  | none => exact .cons h rest
  | some width => exact .cons (by decide) _

/-- A part of a value begins with something that is neither a blank nor a bracket that ends. -/
def Starts (cs : List Char) : Prop :=
  ∃ c tail, cs = c :: tail ∧ isBlank c = false ∧ c ≠ ']' ∧ c ≠ '\x7d'

theorem Starts.append {cs : List Char} (h : Starts cs) (rest : List Char) : Starts (cs ++ rest) := by
  obtain ⟨c, tail, rfl, hc⟩ := h
  exact ⟨c, tail ++ rest, rfl, hc⟩

theorem Starts.skipBlanks_eq {cs : List Char} (h : Starts cs) : skipBlanks cs = cs := by
  obtain ⟨c, tail, rfl, hc, -⟩ := h
  exact skipBlanks_cons hc tail

/-! ### Values that are read as they were written -/

mutual

/-- Whether `p` holds of a value and of all that it is made of. -/
def All (p : Json → Prop) : Json → Prop
  | array items => p (array items) ∧ AllItems p items
  | object members => p (object members) ∧ AllMembers p members
  | other => p other
termination_by structural x => x

/-- Whether `p` holds of all that items are made of. -/
def AllItems (p : Json → Prop) : List Json → Prop
  | [] => True
  | item :: items => All p item ∧ AllItems p items
termination_by structural xs => xs

/-- Whether `p` holds of all that members are made of. -/
def AllMembers (p : Json → Prop) : List (String × Json) → Prop
  | [] => True
  | member :: members => AllMember p member ∧ AllMembers p members
termination_by structural xs => xs

/-- Whether `p` holds of all that a member is made of. -/
def AllMember (p : Json → Prop) : String × Json → Prop
  | (_, value) => All p value
termination_by structural x => x

end

/-- Whether a value, its parts apart, is read as it was written: an integer that the limit
allows, and no key twice. -/
def Faithful (limit : Option Nat) : Json → Prop
  | int n => exceeds (Nat.toDigits 10 n.natAbs).length limit = false
  | real _ => False
  | object members => (members.map Prod.fst).Nodup
  | _ => True

variable {limit : Option Nat} {layout : Layout} {level : Nat}

theorem toList_toString_int (n : Int) :
    (toString n).toList =
      if 0 ≤ n then Nat.toDigits 10 n.natAbs else '-' :: Nat.toDigits 10 n.natAbs := by
  rw [Int.toString_eq_repr, Int.repr_eq_if]
  by_cases hn : 0 ≤ n
  · rw [if_pos hn, if_pos hn, Nat.toList_repr]
    congr 1
    omega
  · rw [if_neg hn, if_neg hn, String.toList_append, Nat.toList_repr]
    have habs : (-n).toNat = n.natAbs := by omega
    rw [habs]
    rfl

theorem starts_of_isDigit {c : Char} (hc : c.isDigit) (tail : List Char) : Starts (c :: tail) := by
  refine ⟨c, tail, rfl, ?_, ?_, ?_⟩
  · simp only [isBlank, Bool.or_eq_false_iff, beq_eq_false_iff_ne]
    refine ⟨⟨⟨?_, ?_⟩, ?_⟩, ?_⟩ <;> rintro rfl <;> exact absurd hc (by decide)
  all_goals rintro rfl; exact absurd hc (by decide)

/-- The first digit of a number and the others. -/
theorem toDigits_cons (n : Nat) : ∃ c cs, Nat.toDigits 10 n = c :: cs ∧ c.isDigit := by
  cases h : Nat.toDigits 10 n with
  | nil => exact absurd h Nat.toDigits_ne_nil
  | cons c cs =>
      exact ⟨c, cs, rfl, isDigit_of_mem_toDigits n c (h ▸ List.mem_cons_self)⟩

theorem enclose_starts {left right : Char} (hblank : isBlank left = false) (hleft : left ≠ ']')
    (hbrace : left ≠ '\x7d') (items : List (List Char)) :
    Starts (layout.enclose level left right items) := by
  unfold Layout.enclose
  split
  · exact ⟨left, _, rfl, hblank, hleft, hbrace⟩
  · exact ⟨left, _, rfl, hblank, hleft, hbrace⟩

theorem writeAt_starts (layout : Layout) (level : Nat) {json : Json} (h : json.All (Faithful limit)) :
    Starts (writeAt layout level json) := by
  cases json with
  | null => exact ⟨_, _, rfl, by decide⟩
  | bool b => cases b <;> exact ⟨_, _, rfl, by decide⟩
  | int n =>
      obtain ⟨c, cs, hdigits, hc⟩ := toDigits_cons n.natAbs
      rw [writeAt, toList_toString_int, hdigits]
      split
      · exact starts_of_isDigit hc cs
      · exact ⟨'-', _, rfl, by decide⟩
  | real written => exact h.elim
  | text s => exact ⟨'"', _, rfl, by decide⟩
  | array items => exact enclose_starts (by decide) (by decide) (by decide) _
  | object members => exact enclose_starts (by decide) (by decide) (by decide) _

theorem writeMember_starts (layout : Layout) (level : Nat) (member : String × Json) :
    Starts (writeMember layout level member) :=
  ⟨'"', _, by rw [writeMember, writeText]; rfl, by decide⟩

theorem intercalate_starts (sep : List Char) {x : List Char} (h : Starts x) (xs : List (List Char)) :
    Starts (sep.intercalate (x :: xs)) := by
  cases xs with
  | nil => simpa using h
  | cons y ys =>
      rw [List.intercalate_cons_cons, List.append_assoc]
      exact h.append _

/-! ### Reading -/

theorem setMember_new {key : String} {value : Json} {members : List (String × Json)}
    (h : key ∉ members.map Prod.fst) : setMember key value members = members ++ [(key, value)] := by
  induction members with
  | nil => rfl
  | cons m members ih =>
      rw [List.map_cons, List.mem_cons, not_or] at h
      rw [setMember, if_neg (Ne.symm h.1), ih h.2]
      rfl

/-- Members with keys of their own are taken as they come. -/
theorem foldl_setMember (members found : List (String × Json))
    (h : ((found ++ members).map Prod.fst).Nodup) :
    members.foldl (fun all (key, value) => setMember key value all) found = found ++ members := by
  induction members generalizing found with
  | nil => simp
  | cons member members ih =>
      obtain ⟨key, value⟩ := member
      have hnew : key ∉ found.map Prod.fst := by
        simp only [List.map_append, List.map_cons, List.nodup_append] at h
        exact fun hmem => h.2.2 _ hmem _ List.mem_cons_self rfl
      simp only [List.foldl_cons]
      rw [setMember_new hnew, ih _ (by simpa using h), List.append_assoc, List.singleton_append]

theorem readValue_digit {c : Char} (hc : c.isDigit) (steps : Nat) (cs : List Char) :
    readValue limit (steps + 1) (c :: cs) = readNumber limit false (c :: cs) := by
  rw [readValue]
  all_goals
    intros
    rename_i h
    first
    | exact absurd h (List.cons_ne_nil _ _)
    | obtain ⟨rfl, -⟩ := List.cons.inj h
      exact absurd hc (by decide)

theorem readValue_int {n : Int} (hlimit : Faithful limit (int n)) {rest : List Char}
    (hrest : Ends rest) (steps : Nat) :
    readValue limit (steps + 1) ((toString n).toList ++ rest) = .ok (int n, rest) := by
  obtain ⟨c, cs, hdigits, hc⟩ := toDigits_cons n.natAbs
  have hnumber := fun negative => readNumber_toDigits negative hlimit hrest
  rw [toList_toString_int]
  by_cases hn : 0 ≤ n
  · rw [if_pos hn]
    have hvalue : (n.natAbs : Int) = n := by omega
    rw [hdigits] at hnumber ⊢
    rw [List.cons_append, readValue_digit hc, ← List.cons_append, hnumber]
    simp [hvalue]
  · rw [if_neg hn]
    have hvalue : -(n.natAbs : Int) = n := by omega
    have hword : afterWord? "Infinity".toList (Nat.toDigits 10 n.natAbs ++ rest) = none := by
      rw [hdigits]
      have hne : 'I' ≠ c := by
        rintro rfl
        exact absurd hc (by decide)
      exact if_neg hne
    rw [List.cons_append, readValue]
    simp only [hword, hnumber, if_true, hvalue]

theorem readValue_text (s : String) (rest : List Char) (steps : Nat) :
    readValue limit (steps + 1) (writeText s ++ rest) = .ok (text s, rest) := by
  rw [writeText, List.append_assoc, List.cons_append, readValue, List.singleton_append,
    readTextFrom_flatMap]
  simp [reading]

theorem skipBlanks_lineBreak {c : Char} (hc : isBlank c = false) (rest : List Char) :
    skipBlanks (layout.lineBreak level ++ c :: rest) = c :: rest := by
  rw [skipBlanks_append isBlank_of_mem_lineBreak, skipBlanks_cons hc]

/-- The items between brackets, one at least, and what follows them. -/
theorem enclose_cons (left right : Char) (x : List Char) (xs : List (List Char))
    (rest : List Char) :
    layout.enclose level left right (x :: xs) ++ rest =
      left :: (layout.lineBreak (level + 1) ++ ((layout.separator (level + 1)).intercalate (x :: xs)
        ++ (layout.lineBreak level ++ right :: rest))) := by
  simp [Layout.enclose]

theorem length_enclose_cons (layout : Layout) (level : Nat) (left right : Char) (x : List Char)
    (xs : List (List Char)) :
    ((layout.separator (level + 1)).intercalate (x :: xs)).length + 2
      ≤ (layout.enclose level left right (x :: xs)).length := by
  simp only [Layout.enclose, List.isEmpty_cons, Bool.false_eq_true, if_false, List.length_append,
    List.length_cons, List.length_nil]
  omega

/-- What follows an item that is not the last. -/
theorem intercalate_cons_cons_append (layout : Layout) (level : Nat) (x y : List Char)
    (xs : List (List Char)) (rest : List Char) :
    ∃ ws, (∀ c ∈ ws, isBlank c) ∧
      (layout.separator level).intercalate (x :: y :: xs) ++ rest =
        x ++ ',' :: (ws ++ ((layout.separator level).intercalate (y :: xs) ++ rest)) := by
  obtain ⟨ws, hsep, hws⟩ := separator_eq layout level
  refine ⟨ws, hws, ?_⟩
  simp [List.intercalate_cons_cons, hsep]

theorem length_intercalate_cons_cons (layout : Layout) (level : Nat) (x y : List Char)
    (xs : List (List Char)) :
    x.length + ((layout.separator level).intercalate (y :: xs)).length + 1
      ≤ ((layout.separator level).intercalate (x :: y :: xs)).length := by
  obtain ⟨ws, hsep, -⟩ := separator_eq layout level
  simp only [List.intercalate_cons_cons, hsep, List.length_append, List.length_cons]
  omega

/-- A list is not empty if something starts behind its bracket. -/
theorem readValue_array {cs body : List Char} (hbody : skipBlanks cs = body) (hstarts : Starts body)
    (steps : Nat) :
    readValue limit (steps + 1) ('[' :: cs) =
      (readItems limit steps body).map fun (items, rest) => (array items, rest) := by
  obtain ⟨c, tail, rfl, -, hc, -⟩ := hstarts
  rw [readValue, hbody]
  split
  next rest h => exact absurd (List.cons.inj h).1 hc
  next => rfl

/-- An object is not empty if something starts behind its brace. -/
theorem readValue_object {cs body : List Char} (hbody : skipBlanks cs = body)
    (hstarts : Starts body) (steps : Nat) :
    readValue limit (steps + 1) ('\x7b' :: cs) =
      (readMembers limit steps body).map fun (members, rest) =>
        (object (members.foldl (fun all (key, value) => setMember key value all) []), rest) := by
  obtain ⟨c, tail, rfl, -, -, hc⟩ := hstarts
  rw [readValue, hbody]
  split
  next rest h => exact absurd (List.cons.inj h).1 hc
  next => rfl

/-- The first member of an object, the last one before a brace and not before a comma. -/
theorem readMembers_member {key : String} {value : Json} {cs rest : List Char} {steps : Nat}
    (hstarts : Starts cs) (hvalue : readValue limit steps cs = .ok (value, rest))
    (after : List Char) :
    (skipBlanks rest = '\x7d' :: after →
        readMembers limit (steps + 1) (writeText key ++ [':', ' '] ++ cs)
          = .ok ([(key, value)], after))
      ∧ (skipBlanks rest = ',' :: after →
        readMembers limit (steps + 1) (writeText key ++ [':', ' '] ++ cs)
          = (readMembers limit steps (skipBlanks after)).map fun (members, rest) =>
            ((key, value) :: members, rest)) := by
  have hblank : skipBlanks (' ' :: cs) = cs := by
    rw [← List.singleton_append, skipBlanks_append (List.forall_mem_singleton.mpr rfl),
      hstarts.skipBlanks_eq]
  rw [writeText]
  simp only [List.append_assoc, List.cons_append, List.nil_append]
  rw [readMembers, readTextFrom_flatMap]
  simp only [skipBlanks_cons (c := ':') (by decide), hblank, hvalue, String.ofList_toList]
  refine ⟨fun hafter => ?_, fun hafter => ?_⟩
  · simp only [hafter]
  · simp only [hafter]

variable (layout)

mutual

/-- A value is read as it was written, whatever follows that cannot be part of it. -/
theorem readValue_writeAt : ∀ (steps : Nat) (json : Json) (_ : json.All (Faithful limit))
    (level : Nat) {rest : List Char} (_ : Ends rest) (_ : 2 * (writeAt layout level json).length ≤ steps),
    readValue limit steps (writeAt layout level json ++ rest) = .ok (json, rest)
  | 0, json, h, level, rest, hrest, hsteps => by
    obtain ⟨c, tail, hstart, -⟩ := writeAt_starts layout level h
    rw [hstart] at hsteps
    simp at hsteps
  | _ + 1, null, _, _, _, _, _ | _ + 1, bool true, _, _, _, _, _
  | _ + 1, bool false, _, _, _, _, _ => by
    rfl
  | steps + 1, int n, h, _, _, hrest, _ => readValue_int h hrest steps
  | _, real _, h, _, _, _, _ => h.elim
  | steps + 1, text s, _, _, _, _, _ => readValue_text s _ steps
  | _ + 1, array [], _, _, _, _, _ | _ + 1, object [], _, _, _, _, _ => by
    rfl
  | steps + 1, array (item :: items), h, level, rest, hrest, hsteps => by
    have hstarts := intercalate_starts (layout.separator (level + 1))
      (writeAt_starts layout (level + 1) h.2.1)
      (writeAll layout (level + 1) items)
    have hlength := length_enclose_cons layout level '[' ']'
      (writeAt layout (level + 1) item) (writeAll layout (level + 1) items)
    have hitems := readItems_writeAll steps item items h.2 (level + 1) level rest
      (by simp only [writeAt, writeAll] at hsteps ⊢; omega)
    rw [writeAt, writeAll, enclose_cons, readValue_array _ (hstarts.append _)]
    · rw [← writeAll, hitems]
      rfl
    · rw [skipBlanks_append isBlank_of_mem_lineBreak, (hstarts.append _).skipBlanks_eq]
  | steps + 1, object ((key, value) :: members), h, level, rest, hrest, hsteps => by
    have hstarts := intercalate_starts (layout.separator (level + 1))
      (writeMember_starts layout (level + 1) (key, value))
      (writeMembers layout (level + 1) members)
    have hlength := length_enclose_cons layout level '\x7b' '\x7d'
      (writeMember layout (level + 1) (key, value)) (writeMembers layout (level + 1) members)
    have hmembers := readMembers_writeMembers steps key value members h.2 (level + 1) level rest
      (by simp only [writeAt, writeMembers] at hsteps ⊢; omega)
    rw [writeAt, writeMembers, enclose_cons, readValue_object _ (hstarts.append _)]
    · have hall := foldl_setMember ((key, value) :: members) [] h.1
      rw [List.nil_append] at hall
      rw [← writeMembers, hmembers]
      simp only [Except.map, hall]
    · rw [skipBlanks_append isBlank_of_mem_lineBreak, (hstarts.append _).skipBlanks_eq]
termination_by structural steps => steps

/-- Items are read as they were written, up to the closing bracket. -/
theorem readItems_writeAll : ∀ (steps : Nat) (item : Json) (items : List Json)
    (_ : AllItems (Faithful limit) (item :: items)) (level outer : Nat) (rest : List Char)
    (_ : 2 * ((layout.separator level).intercalate
      (writeAll layout level (item :: items))).length + 1 ≤ steps),
    readItems limit steps ((layout.separator level).intercalate
      (writeAll layout level (item :: items)) ++ (layout.lineBreak outer ++ ']' :: rest)) =
        .ok (item :: items, rest)
  | 0, item, items, h, level, outer, rest, hsteps => by omega
  | steps + 1, item, [], h, level, outer, rest, hsteps => by
    have hitem := readValue_writeAt steps item h.1 level
      (Ends.lineBreak (c := ']') (by decide) layout outer rest)
      (by simp only [writeAll, List.intercalate_singleton] at hsteps; omega)
    simp only [writeAll, List.intercalate_singleton, readItems, hitem,
      skipBlanks_lineBreak (c := ']') (by decide)]
  | steps + 1, item, next :: items, h, level, outer, rest, hsteps => by
    have hstarts := intercalate_starts (layout.separator level)
      (writeAt_starts layout level h.2.1) (writeAll layout level items)
    have hlength := length_intercalate_cons_cons layout level
      (writeAt layout level item) (writeAt layout level next) (writeAll layout level items)
    obtain ⟨ws, hws, heq⟩ := intercalate_cons_cons_append layout level
      (writeAt layout level item) (writeAt layout level next) (writeAll layout level items)
      (layout.lineBreak outer ++ ']' :: rest)
    have hitem := fun rest => readValue_writeAt steps item h.1 level
      (Ends.cons (c := ',') (by decide) rest)
      (by simp only [writeAll] at hsteps; omega)
    have hitems := readItems_writeAll steps next items h.2 level outer rest
      (by simp only [writeAll] at hsteps ⊢; omega)
    rw [writeAll, writeAll, heq, readItems, hitem]
    simp only [skipBlanks_cons (c := ',') (by decide), skipBlanks_append hws,
      (hstarts.append _).skipBlanks_eq]
    rw [← writeAll, hitems]
    rfl
termination_by structural steps => steps

/-- Members are read as they were written, up to the closing brace. -/
theorem readMembers_writeMembers : ∀ (steps : Nat) (key : String) (value : Json)
    (members : List (String × Json)) (_ : AllMembers (Faithful limit) ((key, value) :: members))
    (level outer : Nat) (rest : List Char) (_ : 2 * ((layout.separator level).intercalate
      (writeMembers layout level ((key, value) :: members))).length + 1 ≤ steps),
    readMembers limit steps ((layout.separator level).intercalate
      (writeMembers layout level ((key, value) :: members))
        ++ (layout.lineBreak outer ++ '\x7d' :: rest)) = .ok ((key, value) :: members, rest)
  | 0, key, value, members, h, level, outer, rest, hsteps => by omega
  | steps + 1, key, value, [], h, level, outer, rest, hsteps => by
    have hvalue := readValue_writeAt steps value h.1 level
      (Ends.lineBreak (c := '\x7d') (by decide) layout outer rest) (by
        simp only [writeMembers, writeMember, List.intercalate_singleton, List.length_append]
          at hsteps
        omega)
    have hstarts := (writeAt_starts layout level h.1).append
      (layout.lineBreak outer ++ '\x7d' :: rest)
    simp only [writeMembers, writeMember, List.intercalate_singleton]
    rw [List.append_assoc _ (writeAt _ _ _), (readMembers_member hstarts hvalue rest).1
      (skipBlanks_lineBreak (c := '\x7d') (by decide) rest)]
  | steps + 1, key, value, (key', value') :: members, h, level, outer, rest, hsteps => by
    have hstarts := intercalate_starts (layout.separator level)
      (writeMember_starts layout level (key', value'))
      (writeMembers layout level members)
    have hlength := length_intercalate_cons_cons layout level
      (writeMember layout level (key, value)) (writeMember layout level (key', value'))
      (writeMembers layout level members)
    obtain ⟨ws, hws, heq⟩ := intercalate_cons_cons_append layout level
      (writeMember layout level (key, value)) (writeMember layout level (key', value'))
      (writeMembers layout level members) (layout.lineBreak outer ++ '\x7d' :: rest)
    have hvalue := fun rest => readValue_writeAt steps value h.1 level
      (Ends.cons (c := ',') (by decide) rest) (by
        simp only [writeMembers] at hsteps
        simp only [writeMember, List.length_append] at hsteps hlength
        omega)
    have hmembers := readMembers_writeMembers steps key' value' members h.2 level outer rest
      (by simp only [writeMembers] at hsteps ⊢; omega)
    have hfirst := fun rest => (writeAt_starts layout level h.1).append
      (',' :: rest)
    rw [writeMembers, writeMembers, heq, writeMember, List.append_assoc _ (writeAt _ _ _),
      (readMembers_member (hfirst _) (hvalue _) _).2 (skipBlanks_cons (by decide) _),
      skipBlanks_append hws, (hstarts.append _).skipBlanks_eq, ← writeMembers, hmembers]
    rfl
termination_by structural steps => steps

end

/-- **What is written is read back.**  Within the limit on integers, a value is read from its
text as it was, in whatever layout it was written. -/
theorem read_write (layout : Layout) {json : Json} (h : json.All (Faithful limit)) :
    read limit (json.write layout) = .ok json := by
  have hstarts := writeAt_starts layout 0 h
  have hvalue := readValue_writeAt layout (2 * (writeAt layout 0 json).length + 1)
    json h 0 Ends.nil (by omega)
  rw [List.append_nil] at hvalue
  simp only [read, write, String.toList_ofList, hstarts.skipBlanks_eq, hvalue]
  rfl

end SourceView.Json
