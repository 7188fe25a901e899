/-
Carriage returns before line feeds.

A line break is one character or two, and a text may be given with breaks of either length.
Whatever is counted within a line is the same in both texts: what stands before a line feed in
one stands before a carriage return in the other, and neither is part of anything but a break.
What goes on over lines is longer by one character for each break.

An escape takes one character along.  Of a break of two characters that is the first, and the
second is left to break the line.  So a literal of one line that goes on behind an escaped line
feed ends at the line feed of the other text (`literalBody_broken`).
-/
import SourceView.Proofs.Lexing.Run
import SourceView.Proofs.Stylesheet.Prefix

namespace SourceView

namespace Text

/-- The text with a carriage return before every line feed. -/
def withReturns (text : List Char) : List Char :=
  text.flatMap fun c => if c = '\n' then ['\r', '\n'] else [c]

/-- None of the first `n` characters is a line feed. -/
def Inline (n : Nat) (text : List Char) : Prop :=
  '\n' ∉ text.take n

instance (n : Nat) (text : List Char) : Decidable (Inline n text) :=
  inferInstanceAs (Decidable (_ ∉ _))

variable {c d : Char} {n m : Nat} {rest text needle : List Char} {p : Char → Bool}

/-! ### The longer text -/

theorem withReturns_feed (rest : List Char) :
    withReturns ('\n' :: rest) = '\r' :: '\n' :: withReturns rest := rfl

theorem withReturns_cons (hc : c ≠ '\n') (rest : List Char) :
    withReturns (c :: rest) = c :: withReturns rest := by
  rw [withReturns, List.flatMap_cons, if_neg hc]
  rfl

theorem length_withReturns_feed (rest : List Char) :
    (withReturns ('\n' :: rest)).length = (withReturns rest).length + 2 := rfl

theorem length_withReturns_cons (hc : c ≠ '\n') (rest : List Char) :
    (withReturns (c :: rest)).length = (withReturns rest).length + 1 := by
  rw [withReturns_cons hc]
  rfl

theorem withReturns_append (text rest : List Char) :
    withReturns (text ++ rest) = withReturns text ++ withReturns rest :=
  List.flatMap_append

theorem withReturns_flatten (pieces : List (List Char)) :
    withReturns pieces.flatten = (pieces.map withReturns).flatten := by
  induction pieces with
  | nil => rfl
  | cons piece pieces ih =>
      rw [List.flatten_cons, withReturns_append, ih, List.map_cons, List.flatten_cons]

theorem withReturns_of_notMem (h : '\n' ∉ text) : withReturns text = text := by
  induction text with
  | nil => rfl
  | cons c rest ih =>
      rw [List.mem_cons, not_or] at h
      rw [withReturns_cons (Ne.symm h.1), ih h.2]

theorem withReturns_eq_nil : withReturns text = [] ↔ text = [] := by
  cases text with
  | nil => simp [withReturns]
  | cons c rest =>
      by_cases hc : c = '\n'
      · simp [hc, withReturns_feed]
      · simp [withReturns_cons hc]

theorem getLast?_withReturns (text : List Char) : (withReturns text).getLast? = text.getLast? := by
  rcases List.eq_nil_or_concat text with rfl | ⟨front, c, rfl⟩
  · rfl
  · rw [List.concat_eq_append, withReturns_append]
    by_cases hc : c = '\n'
    · simp [hc, withReturns]
    · simp [hc, withReturns]

theorem feed_notMem_of_return (h : '\r' ∉ withReturns text) : '\n' ∉ text := by
  intro hfeed
  refine h (List.mem_flatMap.mpr ⟨'\n', hfeed, ?_⟩)
  rw [if_pos rfl]
  exact List.mem_cons_self

theorem withReturns_beq (hfeed : '\n' ∉ needle) (hreturn : '\r' ∉ needle) (text : List Char) :
    (withReturns text == needle) = (text == needle) := by
  rw [Bool.eq_iff_iff, beq_iff_eq, beq_iff_eq]
  constructor
  · rintro rfl
    exact (withReturns_of_notMem (feed_notMem_of_return hreturn)).symm
  · rintro rfl
    exact withReturns_of_notMem hfeed

/-- A part of the text and its part of the longer one. -/
theorem withReturns_split (n : Nat) (text : List Char) :
    withReturns text = withReturns (text.take n) ++ withReturns (text.drop n) := by
  rw [← withReturns_append, List.take_append_drop]

theorem take_withReturns (n : Nat) (text : List Char) :
    (withReturns text).take (withReturns (text.take n)).length = withReturns (text.take n) := by
  rw [withReturns_split n text, List.take_left]

theorem drop_withReturns (n : Nat) (text : List Char) :
    (withReturns text).drop (withReturns (text.take n)).length = withReturns (text.drop n) := by
  rw [withReturns_split n text, List.drop_left]

/-! ### Within a line -/

theorem Inline.length (h : Inline n text) :
    (withReturns (text.take n)).length = min n text.length := by
  rw [withReturns_of_notMem h, List.length_take]

theorem Inline.take (h : Inline n text) : (withReturns text).take n = text.take n := by
  rw [withReturns_split n text, withReturns_of_notMem h]
  rcases Nat.le_total n text.length with hle | hle
  · rw [List.take_append_of_le_length (by simp [hle]), List.take_take, Nat.min_self]
  · simp [List.drop_eq_nil_of_le hle, withReturns, List.take_take]

theorem Inline.drop (h : Inline n text) :
    (withReturns text).drop n = withReturns (text.drop n) := by
  rw [withReturns_split n text, withReturns_of_notMem h]
  rcases Nat.le_total n text.length with hle | hle
  · rw [List.drop_append_of_le_length (by simp [hle]), List.drop_take, Nat.sub_self, List.take_zero,
      List.nil_append]
  · simp [List.drop_eq_nil_of_le hle, withReturns]

theorem inline_zero (text : List Char) : Inline 0 text := by
  simp [Inline]

theorem Inline.append (h : Inline n text) (h' : Inline m (text.drop n)) : Inline (n + m) text := by
  rw [Inline, List.take_add, List.mem_append, not_or]
  exact ⟨h, h'⟩

theorem Inline.behind (h : Inline (n + m) text) : Inline m (text.drop n) := by
  rw [Inline, List.take_add, List.mem_append, not_or] at h
  exact h.2

theorem inline_succ : Inline (n + 1) (c :: rest) ↔ c ≠ '\n' ∧ Inline n rest := by
  rw [Inline, List.take_succ_cons, List.mem_cons, not_or]
  exact and_congr_left' ne_comm

theorem Inline.cons (hc : c ≠ '\n') (h : Inline n rest) : Inline (1 + n) (c :: rest) := by
  rw [Nat.add_comm]
  exact inline_succ.mpr ⟨hc, h⟩

theorem Inline.head (h : text.head? = some c) (hc : c ≠ '\n') : Inline 1 text := by
  obtain ⟨rest, rfl⟩ := List.head?_eq_some_iff.mp h
  exact .cons hc (inline_zero rest)

theorem Inline.le (h : Inline n text) (hle : m ≤ n) : Inline m text :=
  fun hmem => h (List.take_subset_take_left text hle hmem)

/-! ### What is asked of a text -/

/-- The first character is asked for. -/
theorem head?_withReturns (hd : d ≠ '\n') (hd' : d ≠ '\r') (text : List Char) :
    ((withReturns text).head? == some d) = (text.head? == some d) := by
  cases text with
  | nil => rfl
  | cons c rest =>
      by_cases hc : c = '\n'
      · subst hc
        have hreturn : ('\r' == d) = false := beq_false_of_ne (Ne.symm hd')
        have hfeed : ('\n' == d) = false := beq_false_of_ne (Ne.symm hd)
        simp [withReturns_feed, hreturn, hfeed]
      · rw [withReturns_cons hc]
        rfl

theorem any_withReturns (hp : p '\r' = p '\n') (text : List Char) :
    (withReturns text).head?.any p = text.head?.any p := by
  cases text with
  | nil => rfl
  | cons c rest =>
      by_cases hc : c = '\n'
      · subst hc
        exact hp
      · rw [withReturns_cons hc]
        rfl

theorem tail_withReturns (h : text.head? = some c) (hc : c ≠ '\n') :
    (withReturns text).tail = withReturns text.tail := by
  obtain ⟨rest, rfl⟩ := List.head?_eq_some_iff.mp h
  rw [withReturns_cons hc]
  rfl

theorem takeWhile_withReturns (hfeed : p '\n' = false) (hreturn : p '\r' = false)
    (text : List Char) : (withReturns text).takeWhile p = text.takeWhile p := by
  induction text with
  | nil => rfl
  | cons c rest ih =>
      by_cases hc : c = '\n'
      · subst hc
        simp [withReturns_feed, hfeed, hreturn]
      · rw [withReturns_cons hc, List.takeWhile_cons, List.takeWhile_cons, ih]

theorem dropWhile_withReturns (hfeed : p '\n' = true) (hreturn : p '\r' = true) (text : List Char) :
    (withReturns text).dropWhile p = withReturns (text.dropWhile p) := by
  induction text with
  | nil => rfl
  | cons c rest ih =>
      by_cases hc : c = '\n'
      · subst hc
        simp [withReturns_feed, hfeed, hreturn, ih]
      · rw [withReturns_cons hc, List.dropWhile_cons, List.dropWhile_cons, ih]
        split
        · rfl
        · rw [withReturns_cons hc]

theorem find?_withReturns (hfeed : p '\n' = false) (hreturn : p '\r' = false) (text : List Char) :
    (withReturns text).find? p = text.find? p := by
  induction text with
  | nil => rfl
  | cons c rest ih =>
      by_cases hc : c = '\n'
      · subst hc
        simp [withReturns_feed, hfeed, hreturn, ih]
      · rw [withReturns_cons hc, List.find?_cons, List.find?_cons, ih]

theorem isPrefixOf_withReturns (hfeed : '\n' ∉ needle) (hreturn : '\r' ∉ needle)
    (text : List Char) : needle.isPrefixOf (withReturns text) = needle.isPrefixOf text := by
  induction needle generalizing text with
  | nil => simp
  | cons d needle ih =>
      simp only [List.mem_cons, not_or] at hfeed hreturn
      cases text with
      | nil => rfl
      | cons c rest =>
          by_cases hc : c = '\n'
          · subst hc
            have hd : (d == '\n') = false := beq_false_of_ne (Ne.symm hfeed.1)
            have hd' : (d == '\r') = false := beq_false_of_ne (Ne.symm hreturn.1)
            simp [withReturns_feed, List.isPrefixOf, hd, hd']
          · rw [withReturns_cons hc, List.isPrefixOf, List.isPrefixOf, ih hfeed.2 hreturn.2]

/-- What is looked for is found at the same place. -/
theorem findIndex?_withReturns (hfeed : '\n' ∉ needle) (hreturn : '\r' ∉ needle)
    (text : List Char) :
    findIndex? needle (withReturns text)
      = (findIndex? needle text).map fun n => (withReturns (text.take n)).length := by
  induction text with
  | nil => simp only [withReturns, List.flatMap_nil, findIndex?]; split <;> rfl
  | cons c rest ih =>
      have hsame := isPrefixOf_withReturns hfeed hreturn (c :: rest)
      have hmore : ((findIndex? needle rest).map fun n => (withReturns (rest.take n)).length).map
            (· + (withReturns [c]).length)
          = ((findIndex? needle rest).map (· + 1)).map
            fun n => (withReturns ((c :: rest).take n)).length := by
        cases findIndex? needle rest with
        | none => rfl
        | some n =>
            have hsplit := withReturns_append [c] (rest.take n)
            rw [List.singleton_append] at hsplit
            simp only [Option.map_some, List.take_succ_cons, hsplit, List.length_append,
              Nat.add_comm]
      by_cases hstarts : needle.isPrefixOf (c :: rest) = true
      · have hzero (text : List Char) (h : needle.isPrefixOf text = true) :
            findIndex? needle text = some 0 := by
          cases text with
          | nil => simpa [findIndex?] using h
          | cons c rest => rw [findIndex?, if_pos h]
        rw [hzero _ hstarts, hzero _ (hsame.trans hstarts)]
        rfl
      · by_cases hc : c = '\n'
        · subst hc
          have hfirst : needle.isPrefixOf ('\n' :: withReturns rest) = false := by
            cases needle with
            | nil => simp at hstarts
            | cons d needle =>
                simp only [List.mem_cons, not_or] at hfeed
                simp [List.isPrefixOf, Ne.symm hfeed.1]
          rw [withReturns_feed] at hsame ⊢
          rw [findIndex?, hsame, if_neg hstarts, findIndex?, hfirst, findIndex?, if_neg hstarts, ih,
            ← hmore]
          cases findIndex? needle rest <;> rfl
        · rw [withReturns_cons hc] at hsame ⊢
          rw [findIndex?, hsame, if_neg hstarts, findIndex?, if_neg hstarts, ih, ← hmore,
            withReturns_cons hc]
          cases findIndex? needle rest <;> rfl

/-! ### Counts -/

/-- The count takes the same characters of the longer text, and keeps to their line. -/
def SameCount (count : List Char → Nat) : Prop :=
  ∀ text, count (withReturns text) = count text ∧ Inline (count text) text

variable {f g : List Char → Nat}

theorem SameCount.more (hf : SameCount f) (hg : SameCount g) :
    SameCount fun text => f text + g (text.drop (f text)) := fun text => by
  obtain ⟨hsame, hinline⟩ := hf text
  obtain ⟨hsame', hinline'⟩ := hg (text.drop (f text))
  simp only [hsame, hinline.drop, hsame']
  exact ⟨trivial, hinline.append hinline'⟩

/-- A count that goes on behind a first character, where the text ahead asks for it. -/
theorem SameCount.ite {q : List Char → Bool} (hnil : q [] = false)
    (hfeed : ∀ rest, q ('\n' :: rest) = false) (hreturn : ∀ rest, q ('\r' :: rest) = false)
    (hcons : ∀ c rest, c ≠ '\n' → q (c :: withReturns rest) = q (c :: rest)) (hf : SameCount f) :
    SameCount fun text => if q text then 1 + f text.tail else 0 := fun text => by
  cases text with
  | nil => exact ⟨rfl, by simp only [hnil]; exact inline_zero []⟩
  | cons c rest =>
      by_cases hc : c = '\n'
      · subst hc
        simp only [withReturns_feed, hfeed, hreturn, Bool.false_eq_true, if_false]
        exact ⟨trivial, inline_zero _⟩
      · obtain ⟨hsame, hinline⟩ := hf rest
        simp only [withReturns_cons hc, hcons c rest hc, List.tail_cons, hsame]
        refine ⟨trivial, ?_⟩
        split
        · exact .cons hc hinline
        · exact inline_zero _

end Text

/-! ### Runs of characters and literals -/

namespace Lexing

open Text

variable {quote : Char} {p : Char → Bool} {text : List Char}

theorem countWhile_withReturns (hfeed : p '\n' = false) (hreturn : p '\r' = false)
    (text : List Char) : countWhile p (withReturns text) = countWhile p text :=
  congrArg List.length (takeWhile_withReturns hfeed hreturn text)

theorem inline_countWhile (hfeed : p '\n' = false) (text : List Char) :
    Inline (countWhile p text) text := fun hmem => by
  have hp := of_mem_take_countWhile hmem
  rw [hfeed] at hp
  exact absurd hp Bool.false_ne_true

theorem sameCount_countWhile {p : Char → Bool} (hfeed : p '\n' = false) (hreturn : p '\r' = false) :
    SameCount (countWhile p) := fun text =>
  ⟨countWhile_withReturns hfeed hreturn text, inline_countWhile hfeed text⟩

/-- What a literal over several lines takes of the text, it takes of the longer one. -/
theorem literalBody_lines (hfeed : quote ≠ '\n') (hreturn : quote ≠ '\r') (text : List Char) :
    literalBody quote true (withReturns text)
      = ((withReturns (text.take (literalBody quote true text).1)).length,
          (literalBody quote true text).2) := by
  fun_induction literalBody quote true text with
  | case1 => rfl
  | case2 => rfl
  | case3 d rest n closed hbody ih =>
      rw [hbody] at ih
      have hbackslash : '\\' ≠ '\n' := by decide
      rw [withReturns_cons hbackslash, List.take_succ_cons, List.take_succ_cons,
        length_withReturns_cons hbackslash]
      by_cases hd : d = '\n'
      · subst hd
        have hreturn' : '\r' ≠ '\\' ∧ '\n' ≠ '\\' := by decide
        rw [withReturns_feed, literalBody_escape, literalBody_cons quote true hreturn'.2,
          if_neg (Ne.symm hfeed), if_neg (by decide), ih, length_withReturns_feed]
      · rw [withReturns_cons hd, literalBody_escape, ih, length_withReturns_cons hd]
  | case4 rest hlast hescape =>
      rw [withReturns_cons hfeed, literalBody_cons quote true (ne_backslash hlast hescape),
        if_pos rfl, List.take_succ_cons, length_withReturns_cons hfeed]
      rfl
  | case5 c rest hlast hescape hc hbreak => exact absurd hbreak (by simp)
  | case6 c rest hlast hescape hc hbreak n closed hbody ih =>
      rw [hbody] at ih
      rw [List.take_succ_cons]
      by_cases hd : c = '\n'
      · subst hd
        rw [withReturns_feed, literalBody_cons quote true (by decide), if_neg (Ne.symm hreturn),
          if_neg (by decide), literalBody_cons quote true (by decide), if_neg hc,
          if_neg (by decide), ih, length_withReturns_feed]
      · rw [withReturns_cons hd, literalBody_cons quote true (ne_backslash hlast hescape),
          if_neg hc, if_neg hbreak, ih, length_withReturns_cons hd]

/-- A literal of one line, if it keeps to its line. -/
theorem literalBody_inline (hreturn : quote ≠ '\r')
    (h : Inline (literalBody quote false text).1 text) :
    literalBody quote false (withReturns text) = literalBody quote false text := by
  fun_induction literalBody quote false text with
  | case1 => rfl
  | case2 => rfl
  | case3 d rest n closed hbody ih =>
      rw [hbody] at ih
      obtain ⟨hd, hinline⟩ := inline_succ.mp (inline_succ.mp h).2
      rw [withReturns_cons (by decide), withReturns_cons hd, literalBody_escape, ih hinline]
  | case4 rest hlast hescape =>
      rw [withReturns_cons (inline_succ.mp h).1,
        literalBody_cons quote false (ne_backslash hlast hescape), if_pos rfl]
  | case5 c rest hlast hescape hc hbreak =>
      by_cases hd : c = '\n'
      · rw [hd, withReturns_feed, literalBody_cons quote false (by decide),
          if_neg (Ne.symm hreturn), if_pos (by decide)]
      · rw [withReturns_cons hd, literalBody_cons quote false (ne_backslash hlast hescape),
          if_neg hc, if_pos hbreak]
  | case6 c rest hlast hescape hc hbreak n closed hbody ih =>
      rw [hbody] at ih
      obtain ⟨hd, hinline⟩ := inline_succ.mp h
      rw [withReturns_cons hd, literalBody_cons quote false (ne_backslash hlast hescape),
        if_neg hc, if_neg hbreak, ih hinline]

/-- A literal of one line that goes on behind an escaped line feed stays unfinished before that
line feed. -/
theorem literalBody_broken (hfeed : quote ≠ '\n')
    (h : ¬Inline (literalBody quote false text).1 text) :
    ∃ n, literalBody quote false (withReturns text) = (n, false)
      ∧ n < (withReturns (text.take (literalBody quote false text).1)).length := by
  fun_induction literalBody quote false text with
  | case1 => exact absurd (inline_zero []) h
  | case2 => exact absurd (inline_succ.mpr ⟨by decide, inline_zero []⟩) h
  | case3 d rest n closed hbody ih =>
      rw [hbody] at ih
      have hbackslash : '\\' ≠ '\n' := by decide
      rw [withReturns_cons hbackslash, List.take_succ_cons, List.take_succ_cons,
        length_withReturns_cons hbackslash]
      by_cases hd : d = '\n'
      · subst hd
        refine ⟨2, ?_, ?_⟩
        · rw [withReturns_feed, literalBody_escape, literalBody_cons quote false (by decide),
            if_neg (Ne.symm hfeed), if_pos (by decide)]
        · rw [length_withReturns_feed]
          omega
      · obtain ⟨m, hm, hlt⟩ := ih fun hinline =>
          h (inline_succ.mpr ⟨hbackslash, inline_succ.mpr ⟨hd, hinline⟩⟩)
        refine ⟨m + 2, ?_, ?_⟩
        · rw [withReturns_cons hd, literalBody_escape, hm]
        · rw [length_withReturns_cons hd]
          exact Nat.add_lt_add_right hlt 2
  | case4 rest => exact absurd (inline_succ.mpr ⟨hfeed, inline_zero rest⟩) h
  | case5 c rest hlast hescape hc hbreak => exact absurd (inline_zero _) h
  | case6 c rest hlast hescape hc hbreak n closed hbody ih =>
      rw [hbody] at ih
      have hd : c ≠ '\n' := by
        rintro rfl
        exact hbreak rfl
      obtain ⟨m, hm, hlt⟩ := ih fun hinline => h (inline_succ.mpr ⟨hd, hinline⟩)
      refine ⟨m + 1, ?_, ?_⟩
      · rw [withReturns_cons hd, literalBody_cons quote false (ne_backslash hlast hescape),
          if_neg hc, if_neg hbreak, hm]
      · rw [List.take_succ_cons, length_withReturns_cons hd]
        exact Nat.succ_lt_succ hlt

end Lexing

end SourceView
