/-
Where lower case leaves its text.

Lower case is written character by character, and every character but one becomes one character.
The capital I with a dot becomes two, so what stands at some offset of a text stands further on in
its lower case, by as many places as there are such letters before it: `lowerOffset`.

A word of ASCII is looked for in lower case in order to find it in either case.  Two letters
beyond ASCII could be taken for one of ASCII then, the Kelvin sign and the capital I with a dot.
A word that is `Findable` is hidden in neither, so it is found just where the text spells it in
ASCII, in either case.
-/
import SourceView.Text.Letter
import SourceView.Text.Lowercase
import Mathlib

namespace SourceView.Text

/-! ### Single characters -/

/-- The capital I with a dot. -/
def dottedI : Char := '\u0130'

theorem toNat_dottedI : dottedI.toNat = 0x130 := rfl

/-- The characters that lower case reads or writes by a rule of their own: the sigmas, and the
capital I with a dot with the mark that it leaves. -/
def irregular : List Char := ['\u03a3', '\u03c2', '\u03c3', dottedI, '\u0307']

/-- Whether the character is in the lower case of itself or of its capital in ASCII, and of
nothing else. -/
def standsAlone (x : Char) : Bool :=
  0 < x.toNat && !irregular.contains x
    && lowercaseRuns.toList.all fun run =>
      !run.covers x.toNat && !run.covers (x.toNat - run.shift).toNat

/-- Of the characters that stand alone, `d` is the one that `c` is in either case. -/
def Partner (c d : Char) : Prop :=
  ∀ x, standsAlone x = true → (d = x ↔ c.toLower = x)

theorem standsAlone_ne {x : Char} (h : standsAlone x = true) :
    0 < x.toNat ∧ x ∉ irregular := by
  simp only [standsAlone, Bool.and_eq_true, decide_eq_true_eq, Bool.not_eq_true',
    List.contains_eq_mem, decide_eq_false_iff_not] at h
  exact h.1

theorem standsAlone_not_covers {x : Char} (h : standsAlone x = true) {run : CaseRun}
    (hrun : run ∈ lowercaseRuns) :
    run.covers x.toNat = false ∧ run.covers (x.toNat - run.shift).toNat = false := by
  simp only [standsAlone, Bool.and_eq_true, List.all_eq_true, Bool.not_eq_true'] at h
  exact h.2 run (Array.mem_toList_iff.mpr hrun)

theorem toLower_of_not_isAlpha {c : Char} (h : c.isAlpha = false) : c.toLower = c :=
  Char.toLower_eq_of_not_isUpper fun hupper => by simp [Char.isAlpha, hupper] at h

theorem toLower_of_not_ascii {c : Char} (h : ¬ c.toNat < 128) : c.toLower = c :=
  toLower_of_not_isAlpha <| Bool.eq_false_iff.mpr fun halpha => h (toNat_lt_of_isAlpha halpha)

/-- A number that is no code point gives the first of all characters. -/
theorem toNat_ofNat {n : Nat} (h : 0 < (Char.ofNat n).toNat) : (Char.ofNat n).toNat = n := by
  unfold Char.ofNat at h ⊢
  split
  · rfl
  · rename_i hvalid
    rw [dif_neg hvalid] at h
    exact absurd h (by decide)

/-- Beyond ASCII no character but itself stands alone in the place of a character of a run. -/
theorem partner_of_covers {c : Char} (hc : ¬ c.toNat < 128) {run : CaseRun}
    (hrun : run ∈ lowercaseRuns) (hcovers : run.covers c.toNat = true) :
    Partner c (Char.ofNat (c.toNat + run.shift).toNat) := by
  intro x hx
  obtain ⟨hcode, himage⟩ := standsAlone_not_covers hx hrun
  rw [toLower_of_not_ascii hc]
  constructor
  · rintro rfl
    have hpos := (standsAlone_ne hx).1
    rw [toNat_ofNat hpos] at himage hpos
    rw [show ((c.toNat + run.shift).toNat - run.shift).toNat = c.toNat by omega, hcovers] at himage
    exact absurd himage (by decide)
  · rintro rfl
    rw [hcovers] at hcode
    exact absurd hcode (by decide)

/-- A character other than the capital I with a dot becomes one character outside any word. -/
theorem lowerChar_partner {c : Char} (hc : c ≠ dottedI) :
    ∃ d, lowerChar c = [d] ∧ Partner c d := by
  unfold lowerChar
  split
  · exact ⟨_, rfl, fun x _ => Iff.rfl⟩
  · rename_i hascii
    have hcode : c.toNat ≠ 0x130 := fun h => hc (Char.toNat_inj.mp (h.trans toNat_dottedI.symm))
    rw [if_neg hcode]
    split
    · rename_i run hfind
      have hcovers := Array.find?_some hfind
      exact ⟨_, rfl, partner_of_covers hascii (Array.mem_of_find?_eq_some hfind) hcovers⟩
    · exact ⟨_, rfl, fun x _ => by rw [toLower_of_not_ascii hascii]⟩

/-! ### Texts -/

theorem lowerFrom_dottedI (cased : Bool) (rest : List Char) :
    ∃ cased', lowerFrom cased (dottedI :: rest) = 'i' :: '\u0307' :: lowerFrom cased' rest :=
  ⟨_, rfl⟩

theorem lowerFrom_cons {c : Char} (hc : c ≠ dottedI) (cased : Bool) (rest : List Char) :
    ∃ d cased', lowerFrom cased (c :: rest) = d :: lowerFrom cased' rest ∧ Partner c d := by
  rw [lowerFrom]
  split
  · rename_i hsigma
    have hc : c = '\u03a3' := Char.toNat_inj.mp hsigma
    refine ⟨_, _, rfl, fun x hx => iff_of_false ?_ ?_⟩
    · have hregular := (standsAlone_ne hx).2
      split <;> rintro rfl <;> exact hregular (by decide)
    · rintro rfl
      rw [toLower_of_not_ascii (by rw [hsigma]; decide), hc] at hx
      exact (standsAlone_ne hx).2 (by decide)
  · obtain ⟨d, hd, hpartner⟩ := lowerChar_partner hc
    exact ⟨d, _, by rw [hd]; rfl, hpartner⟩

/-- Where in the lower case of `cs` the character stands that is at `offset` in `cs`. -/
def lowerOffset (cs : List Char) (offset : Nat) : Nat :=
  offset + (cs.take offset).count dottedI

theorem lowerOffset_cons_succ (c : Char) (rest : List Char) (offset : Nat) :
    lowerOffset (c :: rest) (offset + 1)
      = lowerOffset rest offset + if c = dottedI then 2 else 1 := by
  simp only [lowerOffset, List.take_succ_cons, List.count_cons, beq_iff_eq]
  split <;> omega

theorem lowerOffset_add (cs : List Char) (i n : Nat) :
    lowerOffset cs (i + n) = lowerOffset cs i + n + ((cs.drop i).take n).count dottedI := by
  rw [lowerOffset, List.take_add, List.count_append, lowerOffset]
  omega

/-- Offsets in lower case are those of the text as long as no capital I with a dot comes. -/
theorem lowerOffset_eq_self_iff {cs : List Char} {offset : Nat} :
    lowerOffset cs offset = offset ↔ dottedI ∉ cs.take offset := by
  rw [lowerOffset, Nat.add_eq_left, List.count_eq_zero]

theorem le_lowerOffset (cs : List Char) (offset : Nat) : offset ≤ lowerOffset cs offset :=
  Nat.le_add_right _ _

/-- Behind the place of an offset stands the lower case of the text behind the offset. -/
theorem drop_lowerOffset (cased : Bool) (cs : List Char) (offset : Nat) :
    ∃ cased', (lowerFrom cased cs).drop (lowerOffset cs offset)
      = lowerFrom cased' (cs.drop offset) := by
  induction cs generalizing cased offset with
  | nil => exact ⟨cased, by simp [lowerFrom]⟩
  | cons c rest ih =>
      cases offset with
      | zero => exact ⟨cased, rfl⟩
      | succ offset =>
          rw [lowerOffset_cons_succ, List.drop_succ_cons]
          by_cases hc : c = dottedI
          · obtain ⟨cased', hcons⟩ := lowerFrom_dottedI cased rest
            rw [if_pos hc, hc, hcons]
            exact ih cased' offset
          · obtain ⟨d, cased', hcons, -⟩ := lowerFrom_cons hc cased rest
            rw [if_neg hc, hcons]
            exact ih cased' offset

/-- What is no place of an offset lies within the lower case of a capital I with a dot. -/
theorem exists_lowerOffset (cased : Bool) (cs : List Char) (place : Nat) :
    (∃ offset, lowerOffset cs offset = place)
      ∨ ((lowerFrom cased cs).drop place).head? = some '\u0307' := by
  induction cs generalizing cased place with
  | nil => exact .inl ⟨place, by simp [lowerOffset]⟩
  | cons c rest ih =>
      by_cases hc : c = dottedI
      · obtain ⟨cased', hcons⟩ := lowerFrom_dottedI cased rest
        rw [hc, hcons]
        match place with
        | 0 => exact .inl ⟨0, rfl⟩
        | 1 => exact .inr rfl
        | place + 2 =>
            refine (ih cased' place).imp_left fun ⟨offset, hplace⟩ => ⟨offset + 1, ?_⟩
            rw [lowerOffset_cons_succ, hplace, if_pos rfl]
      · obtain ⟨d, cased', hcons, -⟩ := lowerFrom_cons hc cased rest
        rw [hcons]
        match place with
        | 0 => exact .inl ⟨0, rfl⟩
        | place + 1 =>
            refine (ih cased' place).imp_left fun ⟨offset, hplace⟩ => ⟨offset + 1, ?_⟩
            rw [lowerOffset_cons_succ, hplace, if_neg hc]

/-! ### Words -/

/-- A word that is in the lower case of a text only where the text has it in ASCII. -/
structure Findable (word : List Char) : Prop where
  alone : ∀ x ∈ word, standsAlone x = true
  last : word.getLast? ≠ some 'i'

theorem Findable.dottedI_notMem {word : List Char} (h : Findable word) : dottedI ∉ word :=
  fun hmem => (standsAlone_ne (h.alone _ hmem)).2 (by decide)

theorem Findable.tail {x : Char} {word : List Char} (h : Findable (x :: word)) : Findable word where
  alone := fun y hy => h.alone y (List.mem_cons_of_mem x hy)
  last := by
    cases word with
    | nil => exact nofun
    | cons y word => exact List.getLast?_cons_cons ▸ h.last

/-- **A findable word begins the lower case of a text just when the text begins with it in either
case of ASCII.** -/
theorem Findable.prefix_lowerFrom_iff {word : List Char} (h : Findable word) (cased : Bool)
    (text : List Char) :
    word <+: lowerFrom cased text ↔ (text.take word.length).map Char.toLower = word := by
  induction word generalizing cased text with
  | nil => simp
  | cons x word ih =>
      cases text with
      | nil => simp [lowerFrom]
      | cons c rest =>
          have hx := h.alone x List.mem_cons_self
          by_cases hc : c = dottedI
          · obtain ⟨cased', hcons⟩ := lowerFrom_dottedI cased rest
            rw [hc, hcons, List.length_cons, List.take_succ_cons, List.map_cons]
            refine iff_of_false (fun hprefix => ?_) fun hmap => ?_
            · obtain ⟨hx, hprefix⟩ := List.cons_prefix_cons.mp hprefix
              -- A word cannot end within the two characters, nor go on with the second.
              cases word with
              | nil => exact h.last (hx ▸ rfl)
              | cons y word =>
                  have hy : y = '\u0307' := (List.cons_prefix_cons.mp hprefix).1
                  exact (standsAlone_ne (h.alone y (by simp))).2 (by simp [hy, irregular])
            · refine h.dottedI_notMem (List.mem_cons.mpr (.inl ?_))
              exact (toLower_of_not_ascii (by decide)).symm.trans (List.cons.inj hmap).1
          · obtain ⟨d, cased', hcons, hpartner⟩ := lowerFrom_cons hc cased rest
            rw [hcons, List.cons_prefix_cons, ih h.tail cased' rest, List.length_cons,
              List.take_succ_cons, List.map_cons, List.cons.injEq, ← hpartner x hx, eq_comm]

/-- A test of characters that passes no letter of ASCII, and nothing else that lower case could
make or take away, gives the same at a text and at its lower case. -/
theorem head?_lowerFrom_all {p : Char → Bool}
    (hp : ∀ x, p x = true → standsAlone x = true ∧ x.isAlpha = false) (cased : Bool)
    (text : List Char) : (lowerFrom cased text).head?.all p = text.head?.all p := by
  have hi : p 'i' = false := by
    rw [← Bool.not_eq_true]
    exact fun h => absurd (hp _ h).2 (by decide)
  have hdotted : p dottedI = false := by
    rw [← Bool.not_eq_true]
    exact fun h => (standsAlone_ne (hp _ h).1).2 (by decide)
  cases text with
  | nil => rfl
  | cons c rest =>
      by_cases hc : c = dottedI
      · obtain ⟨cased', hcons⟩ := lowerFrom_dottedI cased rest
        rw [hc, hcons, List.head?_cons, List.head?_cons, Option.all_some, Option.all_some, hi,
          hdotted]
      · obtain ⟨d, cased', hcons, hpartner⟩ := lowerFrom_cons hc cased rest
        rw [hcons, List.head?_cons, List.head?_cons, Option.all_some, Option.all_some,
          Bool.eq_iff_iff]
        constructor
        · intro hd
          obtain ⟨halone, halpha⟩ := hp d hd
          have hlower : c.toLower = d := (hpartner d halone).mp rfl
          rw [← hlower, Char.isAlpha_toLower_eq_isAlpha] at halpha
          rw [← toLower_of_not_isAlpha halpha, hlower]
          exact hd
        · intro hd
          obtain ⟨halone, halpha⟩ := hp c hd
          rw [(hpartner c halone).mpr (toLower_of_not_isAlpha halpha)]
          exact hd

end SourceView.Text
