/-
The shape of regular expressions.

A regular expression ends at the first slash that is neither escaped nor inside of brackets.  Both
are said here of a place in a text, by what stands before it: a character is escaped if an odd
number of backslashes stand right before it, and a place is inside of brackets if behind a bracket
that opens some none has closed them.  The scan has no such view.  It goes over a backslash and the
character behind it in one step, and remembers of the brackets only whether it is inside of any.

That the two agree is a fact about one step: seen from behind it, the same characters are escaped,
and what the scan remembers of the brackets stands for those in front (`insideOf_cons`,
`insideOf_escape`).  No step ends at a line break, but an escape takes any character along.  So a
line break stands in a regular expression only where it is escaped.
-/
import SourceView.Proofs.Lexing.Runs
import SourceView.Proofs.Script.Boundaries
import SourceView.Proofs.Stylesheet.Prefix

namespace SourceView

open Lexing

namespace Script

/-! ### Places in a text -/

/-- Whether the character at place `i` is escaped: an odd number of backslashes stand right before
it. -/
def Escaped (text : List Char) (i : Nat) : Prop :=
  countWhile (· == '\\') (text.take i).reverse % 2 = 1

/-- Whether no bracket that closes stands at a place from `lo` on and before `i`. -/
def Unclosed (text : List Char) (lo i : Nat) : Prop :=
  ∀ k, lo ≤ k → k < i → text[k]? = some ']' → Escaped text k

/-- Whether place `i` is inside of brackets: behind one that opens some, with none behind it that
closes them. -/
def InBrackets (text : List Char) (i : Nat) : Prop :=
  ∃ j < i, text[j]? = some '[' ∧ ¬Escaped text j ∧ Unclosed text (j + 1) i

/-- Whether the slash at place `i` may close a regular expression. -/
def MayClose (text : List Char) (i : Nat) : Prop :=
  text[i]? = some '/' ∧ ¬Escaped text i ∧ ¬InBrackets text i

/-- Whether place `i` is inside of brackets in a text that begins inside of them if `inside`. -/
def InsideOf (inside : Bool) (text : List Char) (i : Nat) : Prop :=
  (inside = true ∧ Unclosed text 0 i) ∨ InBrackets text i

/-- Whether the slash at place `i` may close a regular expression of which `text` is a part. -/
def Closes (inside : Bool) (text : List Char) (i : Nat) : Prop :=
  text[i]? = some '/' ∧ ¬Escaped text i ∧ ¬InsideOf inside text i

variable {inside : Bool} {c d : Char} {rest text : List Char} {i n : Nat}

theorem not_escaped_zero (text : List Char) : ¬Escaped text 0 := by
  simp [Escaped, countWhile]

theorem escaped_one (d : Char) (rest : List Char) : Escaped ('\\' :: d :: rest) 1 := by
  simp [Escaped, countWhile]

/-- What stands before a character that is no backslash escapes nothing behind it. -/
theorem escaped_cons (hc : c ≠ '\\') : Escaped (c :: rest) (i + 1) ↔ Escaped rest i := by
  have hcount : countWhile (· == '\\') ((rest.take i).reverse ++ [c])
      = countWhile (· == '\\') (rest.take i).reverse := by
    simp only [countWhile, List.takeWhile_append]
    split
    · rename_i hall
      simpa [hc] using hall.symm
    · rfl
  rw [Escaped, Escaped, List.take_succ_cons, List.reverse_cons, hcount]

/-- Nor does an escape as a whole. -/
theorem escaped_escape : Escaped ('\\' :: d :: rest) (i + 2) ↔ Escaped rest i := by
  have hcount : countWhile (· == '\\') ((rest.take i).reverse ++ [d, '\\']) % 2
      = countWhile (· == '\\') (rest.take i).reverse % 2 := by
    simp only [countWhile, List.takeWhile_append]
    split
    · by_cases hd : d = '\\' <;> simp [*]
    · rfl
  rw [Escaped, Escaped, List.take_succ_cons, List.take_succ_cons, List.reverse_cons,
    List.reverse_cons, List.append_assoc, List.singleton_append, hcount]

theorem unclosed_step {lo : Nat} (hi : lo < i) :
    Unclosed text lo i
      ↔ (text[lo]? = some ']' → Escaped text lo) ∧ Unclosed text (lo + 1) i := by
  constructor
  · exact fun h => ⟨h lo (Nat.le_refl lo) hi, fun k hlo => h k (Nat.le_of_lt hlo)⟩
  · rintro ⟨hhere, hlater⟩ k hlo hk
    rcases Nat.eq_or_lt_of_le hlo with rfl | hlo
    · exact hhere
    · exact hlater k hlo hk

theorem unclosed_cons (hc : c ≠ '\\') {lo : Nat} :
    Unclosed (c :: rest) (lo + 1) (i + 1) ↔ Unclosed rest lo i := by
  constructor
  · intro h k hlo hi hk
    exact (escaped_cons hc).mp (h (k + 1) (by omega) (by omega) hk)
  · intro h k hlo hi hk
    obtain ⟨k, rfl⟩ := Nat.exists_eq_add_one_of_ne_zero (show k ≠ 0 by omega)
    exact (escaped_cons hc).mpr (h k (by omega) (by omega) hk)

theorem unclosed_escape {lo : Nat} :
    Unclosed ('\\' :: d :: rest) (lo + 2) (i + 2) ↔ Unclosed rest lo i := by
  constructor
  · intro h k hlo hi hk
    exact escaped_escape.mp (h (k + 2) (by omega) (by omega) hk)
  · intro h k hlo hi hk
    obtain ⟨k, rfl⟩ := Nat.exists_eq_add_of_le' (show 2 ≤ k by omega)
    exact escaped_escape.mpr (h k (by omega) (by omega) hk)

theorem insideOf_cons (hc : c ≠ '\\') :
    InsideOf inside (c :: rest) (i + 1)
      ↔ InsideOf (if inside then c != ']' else c == '[') rest i := by
  have hfirst : Unclosed (c :: rest) 0 (i + 1) ↔ c ≠ ']' ∧ Unclosed rest 0 i := by
    rw [unclosed_step i.succ_pos, unclosed_cons hc]
    simp [not_escaped_zero]
  have hlater : InBrackets (c :: rest) (i + 1)
      ↔ (c = '[' ∧ Unclosed rest 0 i) ∨ InBrackets rest i := by
    rw [InBrackets, ← Nat.or_exists_add_one]
    simp [InBrackets, unclosed_cons hc, escaped_cons hc, not_escaped_zero]
  rw [InsideOf, InsideOf, hlater, hfirst]
  cases inside <;> grind

theorem insideOf_escape :
    InsideOf inside ('\\' :: d :: rest) (i + 2) ↔ InsideOf inside rest i := by
  have hfirst : Unclosed ('\\' :: d :: rest) 0 (i + 2) ↔ Unclosed rest 0 i := by
    rw [unclosed_step (by omega), unclosed_step (by omega), unclosed_escape]
    simp [escaped_one]
  have hlater : InBrackets ('\\' :: d :: rest) (i + 2) ↔ InBrackets rest i := by
    rw [InBrackets, ← Nat.or_exists_add_one, ← Nat.or_exists_add_one]
    simp [InBrackets, unclosed_escape, escaped_escape, escaped_one]
  rw [InsideOf, InsideOf, hlater, hfirst]

theorem closes_cons (hc : c ≠ '\\') :
    Closes inside (c :: rest) (i + 1)
      ↔ Closes (if inside then c != ']' else c == '[') rest i := by
  rw [Closes, Closes, escaped_cons hc, insideOf_cons hc, List.getElem?_cons_succ]

theorem closes_escape : Closes inside ('\\' :: d :: rest) (i + 2) ↔ Closes inside rest i := by
  rw [Closes, Closes, escaped_escape, insideOf_escape, List.getElem?_cons_succ,
    List.getElem?_cons_succ]

/-! ### The scan of a body -/

/-- The body of a regular expression goes up to place `i`: there is the slash that closes it, the
first that does, and the line breaks before it are escaped. -/
structure EndsAt (inside : Bool) (text : List Char) (i : Nat) : Prop where
  closes : Closes inside text i
  first : ∀ j < i, ¬Closes inside text j
  breaks : ∀ j < i, ∀ c, text[j]? = some c → isLineBreak c = true → Escaped text j

theorem EndsAt.cons (hc : c ≠ '\\') (hbreak : isLineBreak c = false)
    (hslash : ¬Closes inside (c :: rest) 0)
    (h : EndsAt (if inside then c != ']' else c == '[') rest i) :
    EndsAt inside (c :: rest) (i + 1) where
  closes := (closes_cons hc).mpr h.closes
  first j hj := by
    cases j with
    | zero => exact hslash
    | succ j => exact fun hcloses => h.first j (by omega) ((closes_cons hc).mp hcloses)
  breaks j hj c' hc' hbreak' := by
    cases j with
    | zero =>
        obtain rfl := Option.some.inj hc'
        exact absurd hbreak' (by simp [hbreak])
    | succ j => exact (escaped_cons hc).mpr (h.breaks j (by omega) c' hc' hbreak')

theorem EndsAt.escape (h : EndsAt inside rest i) : EndsAt inside ('\\' :: d :: rest) (i + 2) where
  closes := closes_escape.mpr h.closes
  first j hj := by
    match j with
    | 0 => exact fun hcloses => absurd hcloses.1 (by simp)
    | 1 => exact fun hcloses => hcloses.2.1 (escaped_one d rest)
    | j + 2 => exact fun hcloses => h.first j (by omega) (closes_escape.mp hcloses)
  breaks j hj c' hc' hbreak' := by
    match j with
    | 0 =>
        obtain rfl := Option.some.inj hc'
        exact absurd hbreak' (by decide)
    | 1 => exact escaped_one d rest
    | j + 2 => exact escaped_escape.mpr (h.breaks j (by omega) c' hc' hbreak')

theorem endsAt_regexBody (h : regexBody inside text = some n) :
    ∃ i, n = i + 1 ∧ EndsAt inside text i := by
  fun_induction regexBody inside text generalizing n with
  | case1 => exact absurd h (by simp)
  | case2 => exact absurd h (by simp)
  | case3 inside d rest ih =>
      obtain ⟨m, hm, rfl⟩ := Option.map_eq_some_iff.mp h
      obtain ⟨i, rfl, hends⟩ := ih hm
      exact ⟨i + 2, by omega, hends.escape⟩
  | case4 => exact absurd h (by simp)
  | case5 c rest hlast hescape hbreak ih =>
      obtain ⟨m, hm, rfl⟩ := Option.map_eq_some_iff.mp h
      obtain ⟨i, rfl, hends⟩ := ih hm
      have hinside : InsideOf true (c :: rest) 0 := .inl ⟨rfl, fun _ _ hk => absurd hk (by omega)⟩
      exact ⟨i + 1, rfl, hends.cons (ne_backslash hlast hescape) (by simpa using hbreak)
        fun hcloses => hcloses.2.2 hinside⟩
  | case6 inside c rest hlast hescape hbreak houtside hslash =>
      obtain rfl : c = '/' := by simpa using hslash
      refine ⟨0, (Option.some.inj h).symm, ⟨rfl, not_escaped_zero _, ?_⟩, by simp, by simp⟩
      rintro (⟨hinside, -⟩ | ⟨j, hj, -⟩)
      · exact houtside hinside
      · exact absurd hj (by omega)
  | case7 inside c rest hlast hescape hbreak houtside hslash ih =>
      obtain ⟨m, hm, rfl⟩ := Option.map_eq_some_iff.mp h
      obtain ⟨i, rfl, hends⟩ := ih hm
      refine ⟨i + 1, rfl, .cons (ne_backslash hlast hescape) (by simpa using hbreak) ?_ ?_⟩
      · rintro ⟨hc, -⟩
        exact hslash (by simpa using hc)
      · rwa [if_neg houtside]

/-! ### Tokens -/

/-- What stands behind place `i` makes no difference to what a place up to there is. -/
theorem escaped_take {m : Nat} (hi : i ≤ m) : Escaped (text.take m) i ↔ Escaped text i := by
  rw [Escaped, Escaped, List.take_take, Nat.min_eq_left hi]

theorem unclosed_take {m lo : Nat} (hi : i ≤ m) :
    Unclosed (text.take m) lo i ↔ Unclosed text lo i := by
  refine forall_congr' fun k => imp_congr_right fun _ => imp_congr_right fun hk => ?_
  rw [List.getElem?_take_of_lt (by omega), escaped_take (by omega)]

theorem mayClose_take {m : Nat} (hi : i < m) : MayClose (text.take m) i ↔ MayClose text i := by
  have hbrackets : InBrackets (text.take m) i ↔ InBrackets text i := by
    refine exists_congr fun j => and_congr_right fun hj => ?_
    rw [List.getElem?_take_of_lt (by omega), escaped_take (by omega), unclosed_take (by omega)]
  rw [MayClose, MayClose, List.getElem?_take_of_lt hi, escaped_take (by omega), hbrackets]

theorem closes_false : Closes false text i ↔ MayClose text i := by
  simp [Closes, MayClose, InsideOf]

/-- A regular expression: its body up to the slash that closes it, which is the first that may, and
its flags.  Line breaks stand in the body alone, and only where they are escaped. -/
structure IsRegex (value body flags : List Char) : Prop where
  spelled : value = '/' :: (body ++ '/' :: flags)
  nonempty : body ≠ []
  letters : ∀ c ∈ flags, Text.isAsciiLetter c = true
  closes : MayClose (body ++ '/' :: flags) body.length
  first : ∀ i < body.length, ¬MayClose (body ++ '/' :: flags) i
  breaks : ∀ i c, body[i]? = some c → isLineBreak c = true → Escaped body i

theorem IsRegex.exists_break_iff {value body flags : List Char} (h : IsRegex value body flags) :
    (∃ c ∈ value, isLineBreak c = true)
      ↔ ∃ i c, body[i]? = some c ∧ isLineBreak c = true ∧ Escaped body i := by
  constructor
  · rintro ⟨c, hc, hbreak⟩
    rw [h.spelled, List.mem_cons, List.mem_append, List.mem_cons] at hc
    rcases hc with rfl | hc | rfl | hc
    · exact absurd hbreak (by decide)
    · obtain ⟨i, hi⟩ := List.mem_iff_getElem?.mp hc
      exact ⟨i, c, hi, hbreak, h.breaks i c hi hbreak⟩
    · exact absurd hbreak (by decide)
    · have hletter := h.letters c hc
      rw [isLineBreak, Bool.or_eq_true, beq_iff_eq, beq_iff_eq] at hbreak
      rcases hbreak with rfl | rfl <;> exact absurd hletter (by decide)
  · rintro ⟨i, c, hc, hbreak, -⟩
    refine ⟨c, ?_, hbreak⟩
    rw [h.spelled]
    simp [List.mem_of_getElem? hc]

theorem isRegex_of_regex? {l : Lexeme} (h : regex? rest = some l) (hslash : rest.head? ≠ some '/') :
    ∃ body flags, IsRegex (('/' :: rest).take l.length) body flags := by
  obtain ⟨n, hn, rfl⟩ := Option.map_eq_some_iff.mp h
  obtain ⟨i, rfl, hends⟩ := endsAt_regexBody hn
  generalize hflags : countWhile Text.isAsciiLetter (rest.drop (i + 1)) = more
  obtain ⟨hi, hget⟩ := List.getElem?_eq_some_iff.mp hends.closes.1
  have hbody : (rest.take i).length = i := by
    rw [List.length_take]
    omega
  have htail : rest.take (i + 1 + more)
      = rest.take i ++ '/' :: (rest.drop (i + 1)).take more := by
    rw [List.take_add, List.take_add_one, List.getElem?_eq_getElem hi, hget, List.append_assoc]
    rfl
  refine ⟨rest.take i, (rest.drop (i + 1)).take more, ?_, ?_, ?_, ?_, ?_, ?_⟩
  · show ('/' :: rest).take (1 + (i + 1) + more) = _
    rw [← htail, Nat.add_assoc, Nat.add_comm 1, List.take_succ_cons]
  · intro hnil
    rw [hnil, List.length_nil] at hbody
    subst hbody
    rw [List.head?_eq_getElem?] at hslash
    exact hslash hends.closes.1
  · intro c hc
    rw [← hflags] at hc
    exact of_mem_take_countWhile hc
  · rw [← htail, hbody, mayClose_take (by omega)]
    exact closes_false.mp hends.closes
  · intro j hj
    rw [hbody] at hj
    rw [← htail, mayClose_take (by omega), ← closes_false]
    exact hends.first j hj
  · intro j c hc hbreak
    have hj : j < i := hbody ▸ (List.getElem?_eq_some_iff.mp hc).1
    rw [List.getElem?_take_of_lt hj] at hc
    exact (escaped_take (by omega)).mpr (hends.breaks j hj c hc hbreak)

/-- If a step names a regular expression, one is at the start of the text. -/
def Step.Regular (text : List Char) (step : Step) : Prop :=
  step.lexeme.kind = .regex →
    ∃ rest, text = '/' :: rest ∧ rest.head? ≠ some '/' ∧ regex? rest = some step.lexeme

theorem Step.Regular.of_kind {step : Step} (h : step.lexeme.kind ≠ .regex) : step.Regular text :=
  fun hkind => absurd hkind h

theorem Step.Regular.ite {p : Prop} [Decidable p] {a b : Step} (ha : p → a.Regular text)
    (hb : ¬p → b.Regular text) : (if p then a else b).Regular text := by
  by_cases h : p
  · rw [if_pos h]; exact ha h
  · rw [if_neg h]; exact hb h

open Step.Regular (of_kind)

theorem whitespace?_ne_regex {l : Lexeme} (h : whitespace? text = some l) : l.kind ≠ .regex := by
  intro hkind
  have htrivia := (whitespace?_trivia h).1
  rw [hkind] at htrivia
  exact absurd htrivia (by decide)

theorem quotedLiteral_ne_regex {kind : TokenKind} (hkind : kind ≠ .regex) (style what : String)
    (multiline : Bool) (quote : Char) (pos : Nat) (rest : List Char) :
    (quotedLiteral kind style what multiline quote pos rest).1.kind ≠ .regex := by
  unfold quotedLiteral
  simp only
  split
  · exact hkind
  · nofun

theorem operator_ne_regex (text : List Char) : (operator text).kind ≠ .regex := by
  unfold operator
  split <;> nofun

theorem word_ne_regex (detail : Detail) (s : LexState) (first : Nat) (text : List Char) :
    (word detail s first text).kind ≠ .regex := by
  unfold word wordKind
  grind

variable (detail : Detail) (s : LexState) (region : Region) (pos : Nat)

theorem scanSlash_regular (rest : List Char) :
    (scanSlash s pos ('/' :: rest)).Regular ('/' :: rest) := by
  simp only [scanSlash, List.tail_cons]
  refine .ite (fun _ => of_kind (by simp)) fun hline => .ite (fun _ => of_kind ?_) fun _ => ?_
  · rw [delimited_kind]
    simp
  cases hregex : (if s.expressionAllowed = true then regex? rest else none) with
  | none => exact of_kind (operator_ne_regex _)
  | some l =>
      have hslash : rest.head? ≠ some '/' := by simpa using hline
      split at hregex
      · exact fun _ => ⟨rest, rfl, hslash, hregex⟩
      · exact absurd hregex (by simp)

theorem closeBrace_ne_regex : (closeBrace s).lexeme.kind ≠ .regex := by
  unfold closeBrace
  split
  · simp [mark]
  split
  · split <;> simp [mark]
  · simp [mark]

theorem scanCode_regular (c : Char) (rest : List Char) :
    (scanCode detail s pos c rest).Regular (c :: rest) := by
  have hstep := scanCode_step detail s pos c rest
  generalize scanCode detail s pos c rest = step at hstep
  cases hstep with
  | space hspace => exact of_kind (whitespace?_ne_regex hspace)
  | slash hc =>
      obtain rfl := beq_iff_eq.mp hc
      exact scanSlash_regular s pos rest
  | quoted => exact of_kind (quotedLiteral_ne_regex (by decide) _ _ _ _ _ _)
  | closeBrace => exact of_kind (closeBrace_ne_regex s)
  | bracket hkind =>
      refine of_kind ?_
      rintro rfl
      exact absurd (bracket?_boundary hkind).2 (by decide)
  | template | openBrace | tag | number | punctuation => exact of_kind nofun
  | word | privateWord => exact of_kind (word_ne_regex detail s _ _)
  | operator => exact of_kind (operator_ne_regex _)

theorem scanTemplate_regular (start : Nat) (c : Char) (rest : List Char) :
    (scanTemplate s start c rest).Regular (c :: rest) :=
  .ite (fun _ => of_kind nofun) fun _ => .ite (fun _ => of_kind nofun) fun _ => of_kind nofun

theorem scanAttributes_regular (c : Char) (rest : List Char) :
    (scanAttributes s region pos c rest).Regular (c :: rest) := by
  unfold scanAttributes
  cases hspace : whitespace? (c :: rest) with
  | some l => exact of_kind (whitespace?_ne_regex hspace)
  | none =>
      exact .ite (fun _ => of_kind nofun) fun _ => .ite (fun _ => of_kind nofun) fun _ =>
        .ite (fun _ => of_kind nofun) fun _ =>
        .ite (fun _ => of_kind (quotedLiteral_ne_regex (by decide) _ _ _ _ _ _)) fun _ =>
        .ite (fun _ => of_kind nofun) fun _ => of_kind nofun

theorem scanChildren_regular (c : Char) (rest : List Char) :
    (scanChildren s region pos c rest).Regular (c :: rest) := by
  unfold scanChildren
  refine .ite (fun _ => of_kind nofun) fun _ => .ite (fun _ => of_kind nofun) fun _ =>
    .ite (fun _ => of_kind nofun) fun _ => ?_
  cases hspace : whitespace? (c :: rest) with
  | some l => exact of_kind (whitespace?_ne_regex hspace)
  | none => exact of_kind nofun

theorem scanEndTag_regular (name : String) (start : Nat) (c : Char) (rest : List Char) :
    (scanEndTag detail s region name start pos c rest).Regular (c :: rest) := by
  unfold scanEndTag
  refine .ite (fun _ => of_kind nofun) fun _ => ?_
  cases hspace : whitespace? (c :: rest) with
  | some l => exact of_kind (whitespace?_ne_regex hspace)
  | none =>
      exact .ite (fun _ => scanCode_regular detail _ pos c rest)
        fun _ => scanChildren_regular _ region pos c rest

theorem scan_regular (c : Char) (rest : List Char) :
    ∃ step : Step, (scan detail s pos (c :: rest)).lexemes = [step.lexeme]
      ∧ step.Regular (c :: rest) := by
  refine ⟨_, rfl, ?_⟩
  cases s.mode with
  | code => exact scanCode_regular detail s pos c rest
  | template start => exact scanTemplate_regular s start c rest
  | attributes region => exact scanAttributes_regular s region pos c rest
  | children region => exact scanChildren_regular s region pos c rest
  | endTag region name start => exact scanEndTag_regular detail s region pos name start c rest

end Script

open Script in
/-- **The shape of a regular expression.**  It is a slash, a body that is not empty, the first slash
that may close it, and letters.  It goes over the end of a line just if a line break is escaped in
its body. -/
theorem Language.regex_shape (embed : Bool) (source : List Char) (start : Nat) (stop : Option Nat)
    {t : Token} (ht : t ∈ (script.lex .rich embed source start stop).tokens)
    (hkind : t.kind = .regex) :
    ∃ body flags, IsRegex t.value.toList body flags
      ∧ ((∃ c ∈ t.value.toList, isLineBreak c = true)
        ↔ ∃ i c, body[i]? = some c ∧ isLineBreak c = true ∧ Escaped body i) := by
  rw [lex_script] at ht
  obtain ⟨s, pos, text, htext, hcut⟩ := (scanner .rich).exists_of_mem_run ht
  obtain ⟨c, rest, rfl⟩ := List.exists_cons_of_ne_nil htext
  obtain ⟨step, hlexemes, hregular⟩ := scan_regular .rich s pos c rest
  obtain ⟨more, hpieces, hmore, -⟩ := Scan.cut_pieces hlexemes pos (c :: rest)
  rw [show (scanner .rich).scan s pos (c :: rest) = scan .rich s pos (c :: rest) from rfl,
    hpieces, List.mem_cons] at hcut
  rcases hcut with rfl | hcut
  · obtain ⟨rest, heq, hslash, hregex⟩ := hregular hkind
    obtain ⟨body, flags, hshape⟩ := isRegex_of_regex? hregex hslash
    rw [Lexeme.token, String.toList_ofList, heq]
    exact ⟨body, flags, hshape, hshape.exists_break_iff⟩
  · rw [hmore t hcut] at hkind
    exact absurd hkind (by decide)

open Script in
/-- A backslash takes a regular expression over the end of its line. -/
theorem Language.regex_over_line_break :
    ∃ t ∈ (script.lex .rich true "/a\\\nb/".toList 0 none).tokens, t.kind = .regex
      ∧ ∃ body flags, IsRegex t.value.toList body flags
        ∧ ∃ i c, body[i]? = some c ∧ isLineBreak c = true ∧ Escaped body i := by
  obtain ⟨t, ht, hregex⟩ := List.any_eq_true.mp
    (show (script.lex .rich true "/a\\\nb/".toList 0 none).tokens.any
      (fun t => t.kind == .regex && t.value.toList.contains '\n') = true by decide +kernel)
  rw [Bool.and_eq_true, beq_iff_eq, List.contains_iff_mem] at hregex
  obtain ⟨body, flags, hshape, hbreak⟩ := regex_shape true _ 0 none ht hregex.1
  exact ⟨t, ht, hregex.1, body, flags, hshape, hbreak.mp ⟨'\n', hregex.2, by decide⟩⟩

end SourceView
