/-
Where raw text ends.

Behind the start tag of an element with raw text the lexer looks for the end tag in the lower case
of the whole source, and takes the place where it finds it for an offset of the source.  A place
of lower case is `lowerOffset` of an offset, which lies further on as soon as a capital I with a
dot comes before.  So the raw text ends where an end tag would be if all places were offsets:
`RawTextEnds` says so for any notion of place, of which two matter, the one that the lexer has and
the one that it should have, by which every offset is its own place.

Between the name of a start tag and its `>` the lexer may leave the tag, but only for content, and
in content no tag ends.  So the `>` that follows a name, with no other tag between, is the one that
the tag of that name ends with: `Mode.Past`.
-/
import SourceView.Proofs.Lexing.Runs
import SourceView.Proofs.Markup.Bodies
import SourceView.Proofs.Markup.VoidElements
import SourceView.Proofs.Text.Lowercase

namespace SourceView

namespace Markup

open Lexing Parsing
open Text (lowerChars lowerFrom lowerOffset dottedI Findable standsAlone)

/-! ### End tags of raw text -/

variable {place : Nat → Nat} {source name : List Char} {stop i p q : Nat}

/-- The source has `</` and the name at the offset, in either case of ASCII. -/
def Spelled (source name : List Char) (i : Nat) : Prop :=
  ((source.drop i).take (name.length + 2)).map Char.toLower = '<' :: '/' :: name

/-- At offset `i` the source has an end tag of raw text, as far as a search sees that goes by
`place` and up to `stop`: `</` and the name, and behind it a boundary or the end of the range. -/
structure EndTagAt (place : Nat → Nat) (source : List Char) (stop : Nat) (name : List Char)
    (i : Nat) : Prop where
  spelled : Spelled source name i
  inside : place i + (name.length + 2) ≤ stop
  behind : place i + (name.length + 2) < stop →
    (source.drop (i + (name.length + 2))).head?.all isRawBoundary = true

/-- Raw text from offset `p` on ends at the least place of an end tag behind it, or with the range
if there is none. -/
inductive RawTextEnds (place : Nat → Nat) (source : List Char) (stop : Nat) (name : List Char)
    (p : Nat) : Nat → Prop
  | found {i : Nat} (htag : EndTagAt place source stop name i) (hp : p ≤ place i)
      (hleast : ∀ j, EndTagAt place source stop name j → p ≤ place j → place i ≤ place j) :
      RawTextEnds place source stop name p (place i)
  | missing (hnone : ∀ j, EndTagAt place source stop name j → place j < p) :
      RawTextEnds place source stop name p stop

theorem exists_rawTextEnds (place : Nat → Nat) (source : List Char) (stop : Nat)
    (name : List Char) (p : Nat) : ∃ q, RawTextEnds place source stop name p q := by
  classical
  by_cases h : ∃ q, ∃ i, EndTagAt place source stop name i ∧ p ≤ place i ∧ place i = q
  · obtain ⟨i, htag, hp, hplace⟩ := Nat.find_spec h
    exact ⟨_, .found htag hp fun j hj hpj => hplace ▸ Nat.find_min' h ⟨j, hj, hpj, rfl⟩⟩
  · exact ⟨stop, .missing fun j hj => Nat.lt_of_not_le fun hpj => h ⟨_, j, hj, hpj, rfl⟩⟩

theorem RawTextEnds.unique {q' : Nat} (h : RawTextEnds place source stop name p q)
    (h' : RawTextEnds place source stop name p q') : q = q' := by
  cases h with
  | @found i hi hp hleast =>
      cases h' with
      | @found j hj hpj hleast' => exact Nat.le_antisymm (hleast j hj hpj) (hleast' i hi hp)
      | missing hnone => exact absurd hp (Nat.not_le_of_lt (hnone i hi))
  | missing hnone =>
      cases h' with
      | @found j hj hpj => exact absurd hpj (Nat.not_le_of_lt (hnone j hj))
      | missing => rfl

theorem EndTagAt.congr {place' : Nat → Nat} (h : EndTagAt place source stop name i)
    (hplace : place i = place' i) : EndTagAt place' source stop name i :=
  ⟨h.spelled, hplace ▸ h.inside, hplace ▸ h.behind⟩

theorem EndTagAt.lt_stop (h : EndTagAt place source stop name i) : place i < stop := by
  have := h.inside
  omega

theorem RawTextEnds.le_stop (h : RawTextEnds place source stop name p q) : q ≤ stop := by
  cases h with
  | found htag => exact htag.lt_stop.le
  | missing => exact Nat.le_refl stop

/-! ### The search in lower case -/

/-- Every name of an element with raw text can be looked for in lower case. -/
theorem findable_endTag {name : String} (h : name ∈ rawTextElements) :
    Findable ('<' :: '/' :: name.toList) := by
  have halone : ∀ name ∈ rawTextElements, ('<' :: '/' :: name.toList).all standsAlone = true := by
    decide +kernel
  have hlast : ∀ name ∈ rawTextElements, ('<' :: '/' :: name.toList).getLast? ≠ some 'i' := by
    decide +kernel
  exact ⟨List.all_eq_true.mp (halone name h), hlast name h⟩

/-- The characters that may follow the name in an end tag of raw text. -/
def rawBoundaries : List Char :=
  ['/', '>', ' ', '\t', '\x0c', '\x0b', '\u00a0', '\ufeff', '\n', '\r']

/-- Lower case neither makes such a character nor takes one away. -/
theorem isRawBoundary_alone {x : Char} (h : isRawBoundary x = true) :
    standsAlone x = true ∧ x.isAlpha = false := by
  have hmem : x ∈ rawBoundaries := by
    simpa [isRawBoundary, isWhitespace, isSpace, isLineBreak, rawBoundaries, or_assoc] using h
  have halone : rawBoundaries.all standsAlone = true := by decide +kernel
  have halpha : ∀ x ∈ rawBoundaries, x.isAlpha = false := by simp [rawBoundaries]
  exact ⟨List.all_eq_true.mp halone x hmem, halpha x hmem⟩

/-- An end tag keeps its length in lower case. -/
theorem Spelled.lowerOffset_add (h : Spelled source name i)
    (hname : Findable ('<' :: '/' :: name)) :
    lowerOffset source (i + (name.length + 2)) = lowerOffset source i + (name.length + 2) := by
  have hcount : ((source.drop i).take (name.length + 2)).count dottedI = 0 := by
    refine List.count_eq_zero.mpr fun hmem => hname.dottedI_notMem ?_
    rw [← show _ = '<' :: '/' :: name from h]
    exact List.mem_map.mpr ⟨dottedI, hmem, Text.toLower_of_not_ascii (by decide)⟩
  rw [Text.lowerOffset_add, hcount, Nat.add_zero]

theorem head?_take_all (test : Char → Bool) (n : Nat) (text : List Char) :
    (text.take n).head?.all test = true ↔ (0 < n → text.head?.all test = true) := by
  cases n with
  | zero => simp
  | succ n => cases text <;> simp

/-- At the place of an offset the search finds just what `EndTagAt` says. -/
theorem endsRawText_iff (hname : Findable ('<' :: '/' :: name)) (source : List Char)
    (stop i : Nat) :
    endsRawText ('<' :: '/' :: name) (((lowerChars source).take stop).drop (lowerOffset source i))
        = true ↔ EndTagAt (lowerOffset source) source stop name i := by
  obtain ⟨cased, htext⟩ := Text.drop_lowerOffset false source i
  obtain ⟨cased', hbehind⟩ := Text.drop_lowerOffset false source (i + (name.length + 2))
  have hspelled : '<' :: '/' :: name <+: (lowerChars source).drop (lowerOffset source i)
      ↔ Spelled source name i := by
    rw [lowerChars, htext]
    exact hname.prefix_lowerFrom_iff cased _
  rw [endsRawText, Bool.and_eq_true, List.isPrefixOf_iff_prefix, List.drop_take,
    List.prefix_take_iff, hspelled, List.drop_take, head?_take_all, List.drop_drop]
  simp only [List.length_cons, Nat.add_assoc, Nat.reduceAdd]
  have hboundary (h : Spelled source name i) :
      ((lowerChars source).drop (lowerOffset source i + (name.length + 2))).head?.all
          isRawBoundary
        = (source.drop (i + (name.length + 2))).head?.all isRawBoundary := by
    rw [← h.lowerOffset_add hname, lowerChars, hbehind,
      Text.head?_lowerFrom_all fun _ => isRawBoundary_alone]
  constructor
  · rintro ⟨⟨h, hinside⟩, hafter⟩
    rw [hboundary h] at hafter
    exact ⟨h, by omega, fun hlt => hafter (by omega)⟩
  · rintro ⟨h, hinside, hafter⟩
    rw [hboundary h]
    exact ⟨⟨h, by omega⟩, fun hlt => hafter (by omega)⟩

/-- The search finds nothing but at the place of an offset. -/
theorem exists_of_endsRawText
    (h : endsRawText ('<' :: '/' :: name) (((lowerChars source).take stop).drop q) = true) :
    ∃ i, lowerOffset source i = q := by
  refine (Text.exists_lowerOffset false source q).resolve_right fun hmark => ?_
  rw [endsRawText, Bool.and_eq_true, List.isPrefixOf_iff_prefix, List.drop_take,
    List.prefix_take_iff] at h
  obtain ⟨rest, hrest⟩ := h.1.1
  rw [← lowerChars, ← hrest] at hmark
  exact absurd hmark (by simp)

theorem rawLength?_eq_some {tag text : List Char} {n : Nat} (h : rawLength? tag text = some n) :
    endsRawText tag (text.drop n) = true ∧ ∀ m, endsRawText tag (text.drop m) = true → n ≤ m := by
  induction text generalizing n with
  | nil => exact absurd h nofun
  | cons c rest ih =>
      rw [rawLength?] at h
      by_cases hends : endsRawText tag (c :: rest) = true
      · rw [if_pos hends, Option.some.injEq] at h
        subst h
        exact ⟨hends, fun m _ => Nat.zero_le m⟩
      · rw [if_neg hends, Option.map_eq_some_iff] at h
        obtain ⟨n, hn, rfl⟩ := h
        obtain ⟨hfound, hleast⟩ := ih hn
        refine ⟨hfound, fun m hm => ?_⟩
        cases m with
        | zero => exact absurd hm hends
        | succ m => exact Nat.succ_le_succ (hleast m hm)

theorem rawLength?_eq_none {tag text : List Char} (htag : tag ≠ [])
    (h : rawLength? tag text = none) (m : Nat) : endsRawText tag (text.drop m) = false := by
  induction text generalizing m with
  | nil =>
      cases tag with
      | nil => exact absurd rfl htag
      | cons x tag => simp [endsRawText]
  | cons c rest ih =>
      rw [rawLength?] at h
      by_cases hends : endsRawText tag (c :: rest) = true
      · rw [if_pos hends] at h
        exact absurd h (by simp)
      · rw [if_neg hends, Option.map_eq_none_iff] at h
        cases m with
        | zero => exact Bool.eq_false_iff.mpr hends
        | succ m => exact ih h m

/-- **The search gives the end of raw text by the places of lower case.** -/
theorem rawTextEnds_search (hname : Findable ('<' :: '/' :: name)) (source : List Char)
    (hp : p ≤ stop) :
    RawTextEnds (lowerOffset source) source stop name p
      (p + (rawLength? ('<' :: '/' :: name) (((lowerChars source).take stop).drop p)).getD
        (stop - p)) := by
  have hbehind (j : Nat) (h : EndTagAt (lowerOffset source) source stop name j)
      (hpj : p ≤ lowerOffset source j) :
      endsRawText ('<' :: '/' :: name)
        ((((lowerChars source).take stop).drop p).drop (lowerOffset source j - p)) = true := by
    rw [List.drop_drop, Nat.add_sub_cancel' hpj]
    exact (endsRawText_iff hname source stop j).mpr h
  cases hsearch : rawLength? ('<' :: '/' :: name) (((lowerChars source).take stop).drop p) with
  | none =>
      rw [Option.getD_none, Nat.add_sub_cancel' hp]
      refine .missing fun j hj => Nat.lt_of_not_le fun hpj => ?_
      have hends := hbehind j hj hpj
      rw [rawLength?_eq_none (List.cons_ne_nil _ _) hsearch] at hends
      exact absurd hends (by decide)
  | some n =>
      obtain ⟨hends, hleast⟩ := rawLength?_eq_some hsearch
      rw [List.drop_drop] at hends
      obtain ⟨i, hplace⟩ := exists_of_endsRawText hends
      rw [← hplace] at hends
      rw [Option.getD_some, ← hplace]
      refine .found ((endsRawText_iff hname source stop i).mp hends) (by omega) fun j hj hpj => ?_
      have := hleast _ (hbehind j hj hpj)
      omega

/-! ### Where the two ends agree -/

theorem notMem_take_of_le {n m : Nat} {c : Char} (h : c ∉ source.take m) (hle : n ≤ m) :
    c ∉ source.take n :=
  fun hmem => h ((List.take_prefix_take_left hle).subset hmem)

/-- Raw text ends where it should if no capital I with a dot comes before its due end. -/
theorem RawTextEnds.eq_of_notMem {due : Nat}
    (hq : RawTextEnds (lowerOffset source) source stop name p q)
    (hdue : RawTextEnds id source stop name p due) (hplain : dottedI ∉ source.take due) :
    q = due := by
  have hsame {i : Nat} (hi : i ≤ due) : lowerOffset source i = i :=
    Text.lowerOffset_eq_self_iff.mpr (notMem_take_of_le hplain hi)
  cases hdue with
  | @found due hdue hp hleast =>
      have hplace := hsame (Nat.le_refl due)
      have hdue' : EndTagAt (lowerOffset source) source stop name due := hdue.congr hplace.symm
      cases hq with
      | @found i hi hpi hleast' =>
          have hle : lowerOffset source i ≤ due :=
            (hleast' due hdue' (hplace.symm ▸ hp)).trans (Nat.le_of_eq hplace)
          have hplace' := hsame ((Text.le_lowerOffset source i).trans hle)
          rw [hplace'] at hpi hle ⊢
          exact Nat.le_antisymm hle (hleast i (hi.congr hplace') hpi)
      | missing hnone =>
          have := hnone due hdue'
          rw [hplace] at this
          exact absurd hp (Nat.not_le_of_lt this)
  | missing hnone =>
      cases hq with
      | @found i hi hpi =>
          have hplace := hsame ((Text.le_lowerOffset source i).trans hi.lt_stop.le)
          rw [hplace] at hpi
          exact absurd hpi (Nat.not_le_of_lt (hnone i (hi.congr hplace)))
      | missing => rfl

/-- Before the end of the range raw text ends at an offset that no capital I with a dot comes
before, or at one to which such letters bring a tag from further left. -/
theorem RawTextEnds.eq_or_notMem_or
    (hq : RawTextEnds (lowerOffset source) source stop name p q) :
    q = stop ∨ dottedI ∉ source.take q
      ∨ ∃ i < q, Spelled source name i ∧ lowerOffset source i = q := by
  cases hq with
  | @found i hi =>
      rcases Nat.lt_or_eq_of_le (Text.le_lowerOffset source i) with hlt | heq
      · exact .inr (.inr ⟨i, hlt, hi.spelled, rfl⟩)
      · rw [← heq]
        exact .inr (.inl (Text.lowerOffset_eq_self_iff.mp heq.symm))
  | missing => exact .inl rfl

/-! ### Steps -/

/-- What the lexer may be in behind the name of a start tag, as long as no other tag begins: the
tag of that name, or content where the tag was left. -/
def Mode.Past (name : String) : Mode → Prop
  | .content => True
  | .attributes tag => tag.name = name
  | .endTag .. | .rawText _ => False

/-- When the step reads the name of a start tag, the lexer is behind that name. -/
def Step.Opens (pos : Nat) (text : List Char) (step : Step) : Prop :=
  step.lexeme.kind = .tagOpen → step.mode.Past (tagName (step.lexeme.token pos text))

theorem Step.Opens.of_ne {pos : Nat} {text : List Char} {step : Step}
    (h : step.lexeme.kind ≠ .tagOpen) : step.Opens pos text :=
  fun hkind => absurd hkind h

/-- What is asked of a step: it goes behind a name when it reads one, it stays there until another
tag begins, and a `>` that it reads there ends the tag of that name. -/
structure Step.Follows (mode : Mode) (pos : Nat) (text : List Char) (step : Step) : Prop where
  opens : step.Opens pos text
  ends : ∀ name, mode.Past name → step.lexeme.kind = .tagEnd →
    ∃ tag : StartTag, tag.name = name ∧ step.mode = tag.body
  stays : ∀ name, mode.Past name → step.lexeme.kind ≠ .tagOpen → step.lexeme.kind ≠ .tagClose →
    step.lexeme.kind ≠ .tagEnd → step.mode.Past name

namespace Step.Follows

variable {mode : Mode} {pos : Nat} {text : List Char}

theorem ite {c : Prop} [Decidable c] {a b : Step} (ha : a.Follows mode pos text)
    (hb : b.Follows mode pos text) : (if c then a else b).Follows mode pos text := by
  by_cases h : c
  · rw [if_pos h]; exact ha
  · rw [if_neg h]; exact hb

/-- A piece that neither begins nor ends a start tag. -/
theorem within {step : Step} (hopen : step.lexeme.kind ≠ .tagOpen)
    (hend : step.lexeme.kind ≠ .tagEnd)
    (hmode : ∀ name, mode.Past name → step.lexeme.kind ≠ .tagClose → step.mode.Past name) :
    step.Follows mode pos text :=
  ⟨.of_ne hopen, fun _ _ h => absurd h hend, fun name h _ hclose _ => hmode name h hclose⟩

end Step.Follows

variable {mode : Mode} {pos : Nat} {detail : Detail}

theorem whitespace?_within {text : List Char} {l : Lexeme} (h : whitespace? text = some l) :
    l.kind ≠ .tagOpen ∧ l.kind ≠ .tagEnd := by
  have htrivia := (whitespace?_trivia h).1
  constructor <;> intro hkind <;> rw [hkind] at htrivia <;> exact absurd htrivia (by decide)

theorem region_follows {kind : TokenKind} (hopen : kind ≠ .tagOpen) (hend : kind ≠ .tagEnd)
    (style what : String) (opener : Nat) (closer : List Char) (text : List Char) :
    (region kind style what opener closer pos text).Follows mode pos text := by
  have hkind := delimited_kind kind style what opener closer pos text
  exact .within (hkind.symm ▸ hopen) (hkind.symm ▸ hend) fun _ _ _ => trivial

theorem scanAngle_follows (c : Char) (rest : List Char) :
    (scanAngle pos (c :: rest)).Follows mode pos (c :: rest) := by
  refine .ite (region_follows (by decide) (by decide) ..) <|
    .ite (region_follows (by decide) (by decide) ..) <|
    .ite (region_follows (by decide) (by decide) ..) <|
    .ite (region_follows (by decide) (by decide) ..) <|
    .ite (.within nofun nofun fun _ _ h => absurd rfl h) <|
    .ite ⟨fun _ => ?_, nofun, fun _ _ h => absurd rfl h⟩ <|
    .within nofun nofun fun _ _ _ => trivial
  -- The token of a name has the name behind its angle bracket.
  have htake : rest.take (rest.takeWhile isNameChar).length = rest.takeWhile isNameChar :=
    (List.prefix_iff_eq_take.mp (List.takeWhile_prefix _)).symm
  show String.ofList (rest.takeWhile isNameChar) = tagName _
  simp [tagName, textFrom, Lexeme.token, Nat.add_comm 1, htake]

theorem characterData_within (c : Char) (rest : List Char) :
    (characterData c rest).kind ≠ .tagOpen ∧ (characterData c rest).kind ≠ .tagEnd := by
  unfold characterData
  split
  · split <;> exact ⟨nofun, nofun⟩
  · split
    · rename_i l hl
      exact whitespace?_within hl
    · exact ⟨nofun, nofun⟩

theorem scanContent_follows (detail : Detail) (c : Char) (rest : List Char) :
    (scanContent detail pos c rest).Follows mode pos (c :: rest) := by
  refine .ite (scanAngle_follows c rest) ?_
  cases detail with
  | rich =>
      obtain ⟨hopen, hend⟩ := characterData_within c rest
      exact .within hopen hend fun _ _ _ => trivial
  | structural => exact .within nofun nofun fun _ _ _ => trivial

theorem StartTag.name_assign (tag : StartTag) (value : String) :
    (tag.assign value).name = tag.name := by
  unfold StartTag.assign
  split <;> rfl

theorem scanAttributes_follows (tag : StartTag) (c : Char) (rest : List Char) :
    (scanAttributes tag pos c rest).Follows (.attributes tag) pos (c :: rest) := by
  have hassign (value : String) (name : String) (h : (Mode.attributes tag).Past name) :
      (Mode.attributes (tag.assign value)).Past name :=
    (tag.name_assign value).trans h
  unfold scanAttributes
  split
  · rename_i l hl
    obtain ⟨hopen, hend⟩ := whitespace?_within hl
    exact .within hopen hend fun _ h _ => h
  refine .ite ⟨nofun, fun name h _ => ⟨tag, h, rfl⟩, fun _ _ _ _ h => absurd rfl h⟩ <|
    .ite (.within nofun nofun fun _ _ _ => trivial) <| .ite ?_ <|
    .ite (.within nofun nofun fun _ h _ => h) <| .ite ?_ <|
    .ite (.within nofun nofun fun name h _ => hassign _ name h) <|
    .ite (.within nofun nofun fun _ h _ => h) <| .within nofun nofun fun _ h _ => h
  · have hangle : (scanAngle pos (c :: rest)).Follows (.attributes tag) pos (c :: rest) :=
      scanAngle_follows c rest
    exact ⟨hangle.opens, hangle.ends, hangle.stays⟩
  · unfold quotedValue
    split <;> exact .within nofun nofun fun name h _ => hassign _ name h

/-- Elsewhere than behind a name only the reading of a name counts. -/
theorem Step.Follows.elsewhere {text : List Char} {step : Step}
    (hmode : ∀ name, ¬ mode.Past name) (hopens : step.Opens pos text) :
    step.Follows mode pos text :=
  ⟨hopens, fun name h => absurd h (hmode name), fun name h => absurd h (hmode name)⟩

theorem scanEndTag_opens (name : String) (start : Nat) (c : Char) (rest : List Char) :
    (scanEndTag name start pos c rest).Opens pos (c :: rest) := by
  unfold scanEndTag
  split
  · exact .of_ne (by simp)
  split
  · have hangle : (scanAngle pos (c :: rest)).Follows .content pos (c :: rest) :=
      scanAngle_follows c rest
    exact hangle.opens
  split
  · rename_i l hl
    exact .of_ne (whitespace?_within hl).1
  · exact .of_ne (by simp)

theorem scanRawText_opens (surroundings : Surroundings) (tag : StartTag) (c : Char)
    (rest : List Char) :
    (scanRawText surroundings tag pos c rest).Opens pos (c :: rest) := by
  simp only [scanRawText]
  split
  · have hcontent : (scanContent surroundings.detail pos c rest).Follows .content pos (c :: rest) :=
      scanContent_follows surroundings.detail c rest
    exact hcontent.opens
  · exact .of_ne (by simp)

/-- The step that a look at the text ahead takes. -/
def stepAt (surroundings : Surroundings) (mode : Mode) (pos : Nat) (c : Char) (rest : List Char) :
    Step :=
  match mode with
  | .content => scanContent surroundings.detail pos c rest
  | .attributes tag => scanAttributes tag pos c rest
  | .endTag name start => scanEndTag name start pos c rest
  | .rawText tag => scanRawText surroundings tag pos c rest

theorem stepAt_follows (surroundings : Surroundings) (mode : Mode) (pos : Nat) (c : Char)
    (rest : List Char) : (stepAt surroundings mode pos c rest).Follows mode pos (c :: rest) := by
  cases mode with
  | content => exact scanContent_follows ..
  | attributes tag => exact scanAttributes_follows ..
  | endTag name start => exact .elsewhere (fun _ => id) (scanEndTag_opens name start c rest)
  | rawText tag => exact .elsewhere (fun _ => id) (scanRawText_opens surroundings tag c rest)

/-! ### Runs -/

variable {surroundings : Surroundings} {range : List Char} {t opener ender : Token}
  {ts before between behind : List Token}

/-- The tokens of the run over what the range has from the offset on. -/
def tokensFrom (surroundings : Surroundings) (range : List Char) (mode : Mode) (pos : Nat) :
    List Token :=
  ((scanner surroundings).run 0 mode pos (range.drop pos)).tokens

/-- A run takes one step, and goes on behind the token of that step. -/
theorem tokensFrom_cons (surroundings : Surroundings) (mode : Mode) {c : Char} {rest : List Char}
    (h : range.drop pos = c :: rest) :
    let step := stepAt surroundings mode pos c rest
    let next := pos + ((c :: rest).take step.lexeme.length).length
    pos < next ∧ next ≤ range.length ∧ tokensFrom surroundings range mode pos
      = step.lexeme.token pos (c :: rest) :: tokensFrom surroundings range step.mode next := by
  intro step next
  obtain ⟨l, hl, hlength, -⟩ := scan_single surroundings mode pos c rest
  obtain rfl : step.lexeme = l := List.singleton_inj.mp hl
  have hpieces : ((scanner surroundings).scan mode pos (c :: rest)).pieces = [step.lexeme] :=
    Scan.pieces_single hlength _ _
  have hlen : pos + (c :: rest).length = range.length := by
    have := congrArg List.length h
    rw [List.length_drop, List.length_cons] at this
    rw [List.length_cons]
    omega
  have htake : ((c :: rest).take step.lexeme.length).length
      = min step.lexeme.length (c :: rest).length := List.length_take
  have hbehind : range.drop next = (c :: rest).drop step.lexeme.length := by
    rw [← h, List.drop_drop]
    by_cases hle : step.lexeme.length ≤ (c :: rest).length
    · rw [show next = pos + step.lexeme.length by omega]
    · rw [List.drop_eq_nil_of_le (by omega), List.drop_eq_nil_of_le (by omega)]
  refine ⟨?_, by omega, ?_⟩
  · rw [List.length_cons] at htake
    omega
  · rw [tokensFrom, h, Scanner.run_eq _ mode pos (List.cons_ne_nil c rest)]
    simp only [hpieces, Lexeme.width, Nat.add_zero, Lexeme.cut, List.singleton_append]
    rw [tokensFrom, hbehind]
    rfl

/-- The first token of a run, with the step that took it and the run behind it. -/
theorem exists_of_tokensFrom (h : tokensFrom surroundings range mode pos = t :: ts) :
    ∃ c rest, range.drop pos = c :: rest ∧ ∃ next : Nat,
      t = (stepAt surroundings mode pos c rest).lexeme.token pos (c :: rest)
        ∧ t.stop = next ∧ next ≤ range.length
        ∧ ts = tokensFrom surroundings range (stepAt surroundings mode pos c rest).mode next := by
  cases htext : range.drop pos with
  | nil =>
      rw [tokensFrom, htext] at h
      exact absurd h nofun
  | cons c rest =>
      obtain ⟨-, hle, hcons⟩ := tokensFrom_cons surroundings mode htext
      rw [hcons, List.cons.injEq] at h
      exact ⟨c, rest, rfl, _, h.1.symm, h.1 ▸ rfl, hle, h.2.symm⟩

/-- A run may be taken up again before any of its tokens. -/
theorem exists_of_tokensFrom_append
    (h : tokensFrom surroundings range mode pos = before ++ t :: ts) :
    ∃ mode pos, tokensFrom surroundings range mode pos = t :: ts := by
  induction before generalizing mode pos with
  | nil => exact ⟨mode, pos, h⟩
  | cons u before ih =>
      obtain ⟨c, rest, -, next, -, -, -, hbehind⟩ := exists_of_tokensFrom h
      exact ih hbehind.symm

/-- From behind a name the `>` that comes before any other end of a start tag ends the tag of that
name. -/
theorem exists_of_past {name : String} (hmode : mode.Past name)
    (h : tokensFrom surroundings range mode pos = between ++ ender :: behind)
    (hbetween : ∀ t ∈ between, endsStartTag t.kind = false) (hender : ender.kind = .tagEnd) :
    ∃ (tag : StartTag) (p : Nat), tag.name = name ∧ ender.stop = p ∧ p ≤ range.length
      ∧ behind = tokensFrom surroundings range tag.body p := by
  induction between generalizing mode pos with
  | nil =>
      obtain ⟨c, rest, -, p, rfl, hstop, hp, hbehind⟩ := exists_of_tokensFrom h
      have hlook := stepAt_follows surroundings mode pos c rest
      obtain ⟨tag, hname, hbody⟩ := hlook.ends name hmode hender
      exact ⟨tag, p, hname, hstop, hp, hbody ▸ hbehind⟩
  | cons t between ih =>
      obtain ⟨c, rest, -, next, rfl, -, -, hbehind⟩ := exists_of_tokensFrom h
      obtain ⟨hends, hbetween⟩ := List.forall_mem_cons.mp hbetween
      have hkind {kind : TokenKind} (hkind : endsStartTag kind = true) :
          (stepAt surroundings mode pos c rest).lexeme.kind ≠ kind := by
        rintro rfl
        rw [show endsStartTag (stepAt surroundings mode pos c rest).lexeme.kind = false from hends]
          at hkind
        exact absurd hkind (by decide)
      have hnext := (stepAt_follows surroundings mode pos c rest).stays name hmode
        (hkind rfl) (hkind rfl) (hkind rfl)
      exact ih hnext hbehind.symm hbetween

/-- The tokens behind a start tag that ends at `p` begin with the raw text up to `q`, if there is
any. -/
structure BeginsWithRawText (source : List Char) (p q : Nat) (behind : List Token) : Prop where
  le : p ≤ q
  some : p < q → ∃ raw more, behind = raw :: more ∧ raw.kind = .rawText ∧ raw.start = p
    ∧ raw.stop = q ∧ raw.Spells source
  none : p = q → ∀ t ∈ behind, t.kind = .rawText → p < t.start

/-- A structural run keeps all raw text. -/
theorem BeginsWithRawText.filter {keeps : Token → Bool}
    (h : BeginsWithRawText source p q behind) (hkeeps : ∀ t, t.kind.isStructural = true → keeps t) :
    BeginsWithRawText source p q (behind.filter keeps) where
  le := h.le
  some hlt := by
    obtain ⟨raw, more, rfl, hkind, hspan⟩ := h.some hlt
    exact ⟨raw, more.filter keeps, List.filter_cons_of_pos (hkeeps raw (by rw [hkind]; rfl)), hkind,
      hspan⟩
  none heq t ht := h.none heq t (List.mem_filter.mp ht).1

theorem tokensFrom_start (surroundings : Surroundings) (range : List Char) (mode : Mode)
    (pos : Nat) : ∀ t ∈ tokensFrom surroundings range mode pos, (pos : Int) ≤ t.start :=
  fun t ht => ((scanner surroundings).run_tile mode pos (range.drop pos)).inOrder.mem t ht |>.1

/-- The length of raw text that the search gives. -/
def searchedLength (source : List Char) (stop : Nat) (name : String) (p : Nat) : Nat :=
  (rawLength? ('<' :: '/' :: (Text.lower name).toList)
    (((lowerChars source).take stop).drop p)).getD (stop - p)

/-- Raw text is taken as long as the search gives, and content instead where that is nothing. -/
theorem scanRawText_searched (surroundings : Surroundings)
    (hlowered : surroundings.lowered = (lowerChars source).take stop) (hstop : stop ≤ source.length)
    (tag : StartTag) {c : Char} {rest : List Char} (htext : (source.take stop).drop p = c :: rest) :
    let n := searchedLength source stop tag.name p
    let step := scanRawText surroundings tag p c rest
    (n = 0 ∧ step = scanContent surroundings.detail p c rest)
      ∨ (0 < n ∧ step.lexeme.kind = .rawText ∧ step.lexeme.length = n) := by
  intro n step
  have hlength : (c :: rest).length = stop - p := by
    rw [← htext, List.length_drop, List.length_take, Nat.min_eq_left hstop]
  have hn : (rawLength? ('<' :: '/' :: Text.lowerChars tag.name.toList)
      (surroundings.lowered.drop p)).getD (c :: rest).length = n := by
    rw [hlowered, hlength]
    simp only [n, searchedLength, Text.lower, String.toList_ofList]
  by_cases hzero : n = 0
  · exact .inl ⟨hzero, if_pos (hn.trans hzero)⟩
  · have hstep : step = _ := if_neg (hn.trans_ne hzero)
    refine .inr ⟨Nat.pos_of_ne_zero hzero, ?_, ?_⟩
    · rw [hstep]
    · rw [hstep]
      exact hn

/-- **Behind the start tag of an element with raw text the run takes what the search gives.** -/
theorem tokensFrom_rawText (detail : Detail) (embed : Bool) (source : List Char) {tag : StartTag}
    (hname : Text.lower tag.name ∈ rawTextElements) (hstop : stop ≤ source.length) (hp : p ≤ stop) :
    let surroundings : Surroundings := { embed, detail, lowered := (lowerChars source).take stop }
    ∃ q, RawTextEnds (lowerOffset source) source stop (Text.lower tag.name).toList p q
      ∧ BeginsWithRawText source p q
        (tokensFrom surroundings (source.take stop) (.rawText tag) p) := by
  intro surroundings
  have hsearch : RawTextEnds (lowerOffset source) source stop (Text.lower tag.name).toList p
      (p + searchedLength source stop tag.name p) :=
    rawTextEnds_search (findable_endTag hname) source hp
  have hle := hsearch.le_stop
  refine ⟨_, hsearch, ?_⟩
  have hlength : ((source.take stop).drop p).length = stop - p := by
    rw [List.length_drop, List.length_take, Nat.min_eq_left hstop]
  cases htext : (source.take stop).drop p with
  | nil =>
      rw [htext, List.length_nil] at hlength
      rw [tokensFrom, htext]
      exact ⟨Nat.le_add_right _ _, fun hlt => by omega, fun _ t ht => absurd ht List.not_mem_nil⟩
  | cons c rest =>
      rw [htext] at hlength
      obtain ⟨hnext, -, hcons⟩ := tokensFrom_cons surroundings (.rawText tag) htext
      rw [hcons]
      refine ⟨Nat.le_add_right _ _, ?_, ?_⟩
      · intro hlt
        rcases scanRawText_searched surroundings rfl hstop tag htext with
          ⟨hzero, -⟩ | ⟨-, hkind, hlen⟩
        · omega
        refine ⟨_, _, rfl, hkind, rfl, ?_, ?_⟩
        · show ((p + ((c :: rest).take _).length : Nat) : Int) = _
          rw [stepAt, hlen, List.length_take, Nat.min_eq_left (by omega)]
        · refine Lexeme.token_spells _ ?_
          rw [← htext]
          exact boundedText_isPrefix source p stop
      · intro heq t ht hraw
        rcases scanRawText_searched surroundings rfl hstop tag htext with
          ⟨-, hcontent⟩ | ⟨hpos, -⟩
        · rcases List.mem_cons.mp ht with rfl | ht
          · refine absurd hraw ?_
            show (scanRawText surroundings tag p c rest).lexeme.kind ≠ .rawText
            rw [hcontent]
            exact (scanContent_outer (P := fun _ => True) surroundings.detail c rest).kind
          · exact Int.lt_of_lt_of_le (Int.ofNat_lt.mpr hnext) (tokensFrom_start _ _ _ _ t ht)
        · omega

/-! ### Lexers -/

/-- A start tag that is kept is a start tag of the whole run. -/
theorem exists_of_filter_append {keeps : Token → Bool}
    (h : ts.filter keeps = before ++ opener :: (between ++ ender :: behind)) :
    ∃ before' between' behind', ts = before' ++ opener :: (between' ++ ender :: behind')
      ∧ between'.filter keeps = between ∧ behind'.filter keeps = behind := by
  obtain ⟨first, rest, rfl, -, hrest⟩ := List.filter_eq_append_iff.mp h
  obtain ⟨dropped, after, rfl, -, -, hafter⟩ := List.filter_eq_cons_iff.mp hrest
  obtain ⟨inside, last, rfl, hinside, hlast⟩ := List.filter_eq_append_iff.mp hafter
  obtain ⟨dropped', behind', rfl, hdropped, -, hbehind⟩ := List.filter_eq_cons_iff.mp hlast
  refine ⟨first ++ dropped, inside ++ dropped', behind', by simp, ?_, hbehind⟩
  rw [List.filter_append, hinside, List.filter_eq_nil_iff.mpr hdropped, List.append_nil]

theorem exists_keeps (detail : Detail) (l : Lexing) :
    ∃ keeps : Token → Bool, (∀ t, t.kind.isStructural = true → keeps t = true)
      ∧ (l.keep detail).tokens = l.tokens.filter keeps := by
  cases detail with
  | rich => exact ⟨fun _ => true, fun _ _ => rfl, (List.filter_eq_self.mpr fun _ _ => rfl).symm⟩
  | structural => exact ⟨(·.kind.isStructural), fun _ h => h, rfl⟩

theorem isStructural_of_endsStartTag {kind : TokenKind} (h : endsStartTag kind = true) :
    kind.isStructural = true := by
  revert h
  cases kind <;> decide

end Markup

open Markup Parsing in
/-- **Raw text ends where lower case has its end tag.**  Behind a start tag that ends at `p` the
lexer takes raw text up to `q`, the place of the end tag in the lower case of the source, and there
is a token of raw text just when `q` is behind `p`.  It should go up to `due`, where the end tag is
in the source.  It does if no capital I with a dot comes before that, and else only if no end tag
is there at all, or if such letters bring another one from further left to just that place. -/
theorem Language.raw_text_ends (detail : Detail) (embed : Bool) (source : List Char) (start : Nat)
    (stop : Option Nat) {before between behind : List Token} {opener ender : Token}
    (htokens : (markup.lex detail embed source start stop).tokens
      = before ++ opener :: (between ++ ender :: behind))
    (hopener : opener.kind = .tagOpen) (hname : Text.lower (tagName opener) ∈ rawTextElements)
    (hbetween : ∀ t ∈ between, endsStartTag t.kind = false) (hender : ender.kind = .tagEnd) :
    let name := (Text.lower (tagName opener)).toList
    let limit := min (stop.getD source.length) source.length
    ∃ p q due : Nat, ender.stop = p
      ∧ RawTextEnds (Text.lowerOffset source) source limit name p q
      ∧ BeginsWithRawText source p q behind
      ∧ RawTextEnds id source limit name p due
      ∧ (Text.dottedI ∉ source.take due → q = due)
      ∧ (q = due → due = limit ∨ Text.dottedI ∉ source.take due
        ∨ ∃ i < due, Spelled source name i ∧ Text.lowerOffset source i = due) := by
  intro name limit
  have hlimit : limit ≤ source.length := Nat.min_le_right _ _
  obtain ⟨keeps, hkeeps, hkept⟩ := exists_keeps detail
    ((scanner { embed, detail, lowered := (Text.lowerChars source).take limit }).run 0 .content
      start ((source.take limit).drop start))
  have hall : (Markup.lex detail embed source start stop).tokens = _ := hkept
  rw [lex_markup, hall] at htokens
  obtain ⟨before', between', behind', hrun, rfl, rfl⟩ := exists_of_filter_append htokens
  obtain ⟨mode, pos, htail⟩ := exists_of_tokensFrom_append hrun
  obtain ⟨c, rest, -, next, rfl, -, -, hafter⟩ := exists_of_tokensFrom htail
  have hpast := (stepAt_follows _ mode pos c rest).opens hopener
  have hinside : ∀ t ∈ between', endsStartTag t.kind = false := by
    intro t ht
    refine Bool.eq_false_iff.mpr fun hends => ?_
    have hkeep := hkeeps t (isStructural_of_endsStartTag hends)
    rw [hbetween t (List.mem_filter.mpr ⟨ht, hkeep⟩)] at hends
    exact absurd hends (by decide)
  obtain ⟨tag, p, htag, hstop, hp, rfl⟩ := exists_of_past hpast hafter.symm hinside hender
  rw [List.length_take, Nat.min_eq_left hlimit] at hp
  have hraw : Text.lower tag.name ∈ rawTextElements := htag ▸ hname
  obtain ⟨q, hq, hbegins⟩ := tokensFrom_rawText detail embed source hraw hlimit hp
  have hbody : tag.body = .rawText tag := if_pos (List.contains_iff_mem.mpr hraw)
  rw [htag] at hq
  rw [← hbody] at hbegins
  obtain ⟨due, hdue⟩ := exists_rawTextEnds id source limit name p
  refine ⟨p, q, due, hstop, hq, hbegins.filter hkeeps, hdue, hq.eq_of_notMem hdue, ?_⟩
  rintro rfl
  exact hq.eq_or_notMem_or

open Markup Parsing in
/-- Behind one such letter the raw text of a title takes the angle bracket of its end tag. -/
theorem Language.raw_text_overruns :
    let source := "<title>\u0130</title>".toList
    ∃ opener ender behind,
      (markup.lex .rich true source 0 none).tokens = [] ++ opener :: ([] ++ ender :: behind)
        ∧ opener.kind = .tagOpen ∧ Text.lower (tagName opener) = "title"
        ∧ ender.kind = .tagEnd ∧ ender.stop = 7
        ∧ BeginsWithRawText source 7 9 behind
        ∧ RawTextEnds id source 16 "title".toList 7 8 := by
  intro source
  have hshown : (markup.lex .rich true source 0 none).tokens.map
        (fun t => (t.kind, t.value, t.stop))
      = [(.tagOpen, "<title", 6), (.tagEnd, ">", 7), (.rawText, "\u0130<", 9),
        (.text, "/title>", 16)] := by
    decide +kernel
  obtain ⟨opener, rest, hrest, hopener, hshown⟩ := List.map_eq_cons_iff.mp hshown
  obtain ⟨ender, behind, rfl, hender, hbehind⟩ := List.map_eq_cons_iff.mp hshown
  simp only [Prod.mk.injEq] at hopener hender
  have htokens : (markup.lex .rich true source 0 none).tokens
      = [] ++ opener :: ([] ++ ender :: behind) := hrest
  have hname : Text.lower (tagName opener) = "title" := by
    rw [tagName, hopener.1, hopener.2.1]
    decide +kernel
  -- The only end tag is at 8, and in lower case at 9.
  have honly : ∀ j < 16, Spelled source "title".toList j → j = 8 := by
    unfold Spelled
    decide +kernel
  have hends (place : Nat → Nat) (hle : ∀ j, j ≤ place j) (h7 : 7 ≤ place 8) (h9 : place 8 ≤ 9) :
      RawTextEnds place source 16 "title".toList 7 (place 8) := by
    refine .found ⟨?_, ?_, ?_⟩ h7 fun j hj _ => ?_
    · unfold Spelled
      decide +kernel
    · show place 8 + 7 ≤ 16
      omega
    · intro _
      decide +kernel
    · rw [honly j ((hle j).trans_lt hj.lt_stop) hj.spelled]
  obtain ⟨p, q, due, hp, hq, hbegins, -⟩ := raw_text_ends .rich true source 0 none htokens
    hopener.1 (hname ▸ by decide) (fun t ht => absurd ht List.not_mem_nil) hender.1
  obtain rfl : 7 = p := Int.ofNat_inj.mp (hender.2.2.symm.trans hp)
  rw [hname] at hq
  have h9 : q = 9 := hq.unique (hends _ (Text.le_lowerOffset source) (by decide) (by decide))
  subst h9
  exact ⟨opener, ender, behind, htokens, hopener.1, hname, hender.1, hender.2.2, hbegins,
    hends id (fun _ => Nat.le_refl _) (by decide) (by decide)⟩

end SourceView
