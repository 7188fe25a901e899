/-
Markers around whitespace.

A text falls into its maximal runs of one and the same character.  Marked text is written run by
run: a run of spaces or of tabs stands as it is between the tags of its marker, and any other run
is escaped and has no marker.

No escaped text has an angle bracket in it.  So the tags of the markers are the only tags there are,
no tag begins inside of another one, and a reader who takes them out finds the text as it is written
when nothing is marked.
-/
import SourceView.Proofs.Highlight.Breaks
import SourceView.Proofs.Highlight.Reading
import Mathlib.Data.List.SplitBy

namespace SourceView.Highlight

variable {classPrefix : List Char}

/-! ### Runs -/

/-- The tag of a marker for a kind of whitespace, whatever the prefix of its class is. -/
def markerTag (classPrefix kind : List Char) : List Char :=
  openTag (escape classPrefix ++ '-' :: kind)

/-- How a run of one character is written when whitespace is marked. -/
def markRun (classPrefix : List Char) : List Char → List Char
  | ' ' :: rest => markerTag classPrefix "space".toList ++ (' ' :: rest) ++ closeTag
  | '\t' :: rest => markerTag classPrefix "tab".toList ++ ('\t' :: rest) ++ closeTag
  | run => escape run

/-- A row of runs: none is empty, each is of one character, and the next one is of another. -/
inductive Runs : List (List Char) → Prop
  | nil : Runs []
  | cons {c : Char} {n : Nat} {runs : List (List Char)} (hnext : runs.flatten.head? ≠ some c)
      (hruns : Runs runs) : Runs (List.replicate (n + 1) c :: runs)

theorem isMarked_iff {c : Char} : isMarked c = true ↔ c = ' ' ∨ c = '\t' := by
  rw [isMarked, Bool.or_eq_true, beq_iff_eq, beq_iff_eq]

theorem escape_append (as bs : List Char) : escape (as ++ bs) = escape as ++ escape bs :=
  List.flatMap_append

theorem markTag_space : markTag classPrefix ' ' = markerTag classPrefix "space".toList := by
  rw [markTag, markerTag, if_neg (by decide), escape_append]
  rfl

theorem markTag_tab : markTag classPrefix '\t' = markerTag classPrefix "tab".toList := by
  rw [markTag, markerTag, if_pos rfl, escape_append]
  rfl

/-- A run of whitespace has a marker around it. -/
theorem markRun_of_isMarked {c : Char} (hc : isMarked c = true) (n : Nat) :
    markRun classPrefix (List.replicate (n + 1) c)
      = markTag classPrefix c ++ List.replicate (n + 1) c ++ closeTag := by
  rcases isMarked_iff.mp hc with rfl | rfl
  · rw [markTag_space]
    rfl
  · rw [markTag_tab]
    rfl

/-- Any other run has none. -/
theorem markRun_of_not_isMarked {c : Char} (hc : isMarked c ≠ true) (n : Nat) :
    markRun classPrefix (List.replicate (n + 1) c) = escape (List.replicate (n + 1) c) := by
  rw [ne_eq, isMarked_iff, not_or] at hc
  rw [List.replicate_succ, markRun]
  · exact fun rest h => hc.1 (List.cons_eq_cons.mp h).1
  · exact fun rest h => hc.2 (List.cons_eq_cons.mp h).1

/-- Whitespace of one kind is written as it is. -/
theorem escape_replicate {c : Char} (hc : isMarked c = true) (n : Nat) :
    escape (List.replicate n c) = List.replicate n c := by
  have hchar : escapeChar c = [c] := by
    rcases isMarked_iff.mp hc with rfl | rfl <;> rfl
  rw [escape, List.flatMap_replicate, hchar]
  simp

/-- Inside of a marker its character is written as it is. -/
theorem markFrom_replicate {c : Char} (hc : isMarked c = true) (n : Nat) (rest : List Char) :
    markFrom classPrefix (some c) (List.replicate n c ++ rest)
      = List.replicate n c ++ markFrom classPrefix (some c) rest := by
  induction n with
  | zero => rfl
  | succ n ih =>
      rw [List.replicate_succ, List.cons_append, markFrom, if_pos hc, if_pos rfl, ih]
      rfl

/-- A marker ends where its run ends. -/
theorem markFrom_some {c : Char} {rest : List Char} (h : rest.head? ≠ some c) :
    markFrom classPrefix (some c) rest = closeTag ++ markFrom classPrefix none rest := by
  cases rest with
  | nil => exact (List.append_nil closeTag).symm
  | cons d rest =>
      have hrun : some c ≠ some d := fun heq => h heq.symm
      rw [markFrom, markFrom]
      by_cases hd : isMarked d = true
      · simp [hd, hrun, closeMark]
      · simp [hd, closeMark]

theorem markFrom_of_not_isMarked {c : Char} (hc : isMarked c ≠ true) (n : Nat) (rest : List Char) :
    markFrom classPrefix none (List.replicate n c ++ rest)
      = escape (List.replicate n c) ++ markFrom classPrefix none rest := by
  induction n with
  | zero => rfl
  | succ n ih =>
      rw [List.replicate_succ, List.cons_append, markFrom, if_neg hc, ih]
      simp [closeMark, escape]

/-- The next run is written by itself. -/
theorem markFrom_run {c : Char} {rest : List Char} (h : rest.head? ≠ some c) (n : Nat) :
    markFrom classPrefix none (List.replicate (n + 1) c ++ rest)
      = markRun classPrefix (List.replicate (n + 1) c) ++ markFrom classPrefix none rest := by
  by_cases hc : isMarked c = true
  · rw [markRun_of_isMarked hc, List.replicate_succ, List.cons_append, markFrom, if_pos hc,
      markFrom_replicate hc, markFrom_some h]
    simp [closeMark]
  · rw [markRun_of_not_isMarked hc, markFrom_of_not_isMarked hc]

theorem Runs.markFrom_flatten {runs : List (List Char)} (h : Runs runs) :
    markFrom classPrefix none runs.flatten = runs.flatMap (markRun classPrefix) := by
  induction h with
  | nil => rfl
  | cons hnext _ ih =>
      rw [List.flatten_cons, markFrom_run hnext, List.flatMap_cons, ih]

/-- The maximal runs of a text are runs. -/
theorem runs_of_isChain {runs : List (List Char)} (hne : [] ∉ runs)
    (hrun : ∀ run ∈ runs, run.IsChain fun a b => (a == b) = true)
    (hnext : runs.IsChain fun as bs => ∃ ha hb, (as.getLast ha == bs.head hb) = false) :
    Runs runs := by
  induction runs with
  | nil => exact .nil
  | cons run runs ih =>
      rw [List.mem_cons, not_or] at hne
      have hruns := ih hne.2 (fun r hr => hrun r (List.mem_cons_of_mem run hr)) hnext.tail
      obtain ⟨c, rest, rfl⟩ := List.exists_cons_of_ne_nil (Ne.symm hne.1)
      have hchain := hrun (c :: rest) List.mem_cons_self
      simp only [beq_iff_eq] at hchain
      have hconst : c :: rest = List.replicate (rest.length + 1) c :=
        List.isChain_eq_iff_eq_replicate.mp hchain c rfl
      rw [hconst] at hnext ⊢
      refine .cons ?_ hruns
      cases hruns with
      | nil => exact fun h => by cases h
      | @cons d m runs hnext' hruns' =>
          obtain ⟨ha, hb, hother⟩ := (List.isChain_cons_cons.mp hnext).1
          have hother : c ≠ d := by simpa using hother
          simpa [List.replicate_succ] using Ne.symm hother

theorem runs_splitBy (cs : List Char) : Runs (cs.splitBy (· == ·)) :=
  runs_of_isChain (List.nil_notMem_splitBy _ cs) (fun _ => List.isChain_of_mem_splitBy)
    (List.isChain_getLast_head_splitBy _ cs)

/-- Marked text is its maximal runs, each written by itself. -/
theorem markFrom_eq_flatMap (cs : List Char) :
    markFrom classPrefix none cs = (cs.splitBy (· == ·)).flatMap (markRun classPrefix) := by
  rw [← (runs_splitBy cs).markFrom_flatten, List.flatten_splitBy]

/-! ### Tags taken out -/

/-- The text without the words: at each place the first word that begins there is taken out. -/
def withoutFrom (words : List (List Char)) : (skip : Nat) → List Char → List Char
  | _, [] => []
  | skip + 1, _ :: rest => withoutFrom words skip rest
  | 0, c :: rest =>
    match words.find? (·.isPrefixOf (c :: rest)) with
    | some word => withoutFrom words (word.length - 1) rest
    | none => c :: withoutFrom words 0 rest

/-- The text without the words. -/
def without (words : List (List Char)) (cs : List Char) : List Char :=
  withoutFrom words 0 cs

/-- A tag: between angle brackets there is none that closes it. -/
def IsTag (word : List Char) : Prop :=
  ∃ body, word = '<' :: (body ++ ['>']) ∧ '>' ∉ body

/-- Of two tags at one place neither goes on beyond the other. -/
theorem IsTag.eq_of_append_eq {tag other more more' : List Char} (h : IsTag tag)
    (h' : IsTag other) (heq : tag ++ more = other ++ more') : tag = other := by
  obtain ⟨body, rfl, hbody⟩ := h
  obtain ⟨body', rfl, hbody'⟩ := h'
  have hends : body ++ '>' :: more = body' ++ '>' :: more' := by simpa using heq
  have hspan : ∀ (b m : List Char), '>' ∉ b → (b ++ '>' :: m).takeWhile (· != '>') = b := by
    intro b m hb
    rw [List.takeWhile_append_of_pos fun c hc => bne_iff_ne.mpr (ne_of_mem_of_not_mem hc hb)]
    simp
  have hsame : body = body' := by rw [← hspan body more hbody, hends, hspan body' more' hbody']
  rw [hsame]

variable {tags : List (List Char)}

theorem withoutFrom_length (word more : List Char) :
    withoutFrom tags word.length (word ++ more) = without tags more := by
  induction word with
  | nil => rfl
  | cons c word ih => exact ih

/-- A tag is taken out as a whole. -/
theorem without_tag (htags : ∀ tag ∈ tags, IsTag tag) {tag : List Char} (htag : tag ∈ tags)
    (more : List Char) : without tags (tag ++ more) = without tags more := by
  have hfound : tags.find? (·.isPrefixOf (tag ++ more)) = some tag := by
    cases hfind : tags.find? (·.isPrefixOf (tag ++ more)) with
    | none =>
        have hnone := List.find?_eq_none.mp hfind tag htag
        exact absurd (List.isPrefixOf_iff_prefix.mpr (List.prefix_append tag more)) hnone
    | some other =>
        have hprefix : other.isPrefixOf (tag ++ more) = true := by
          simpa using List.find?_some hfind
        obtain ⟨more', hother⟩ := List.isPrefixOf_iff_prefix.mp hprefix
        have hmem := List.mem_of_find?_eq_some hfind
        rw [(htags other hmem).eq_of_append_eq (htags tag htag) hother]
  obtain ⟨body, rfl, -⟩ := htags tag htag
  rw [without, List.cons_append, withoutFrom, ← List.cons_append, hfound]
  exact withoutFrom_length (body ++ ['>']) more

/-- Text without an angle bracket is left as it is. -/
theorem without_plain (htags : ∀ tag ∈ tags, IsTag tag) {cs : List Char} (h : '<' ∉ cs)
    (more : List Char) : without tags (cs ++ more) = cs ++ without tags more := by
  induction cs with
  | nil => rfl
  | cons c cs ih =>
      rw [List.mem_cons, not_or] at h
      have hnone : tags.find? (·.isPrefixOf (c :: (cs ++ more))) = none := by
        refine List.find?_eq_none.mpr fun tag htag hprefix => ?_
        obtain ⟨body, rfl, -⟩ := htags tag htag
        exact h.1 (List.cons_prefix_cons.mp (List.isPrefixOf_iff_prefix.mp hprefix)).1
      rw [List.cons_append, without, withoutFrom, hnone]
      exact congrArg (c :: ·) (ih h.2)

/-- The tags of markers. -/
def markerTags (classPrefix : List Char) : List (List Char) :=
  [markerTag classPrefix "space".toList, markerTag classPrefix "tab".toList, closeTag]

theorem isTag_openTag {cls : List Char} (h : FitsClass cls) : IsTag (openTag cls) := by
  have hstart : '>' ∉ spanStart := by decide
  have hcls : '>' ∉ cls := fun hmem => (h '>' hmem).2.1 rfl
  refine ⟨spanStart ++ ['"'] ++ cls ++ ['"'], ?_, ?_⟩
  · rw [openTag_eq]
    simp
  · simp [hstart, hcls]

theorem isTag_of_mem_markerTags : ∀ tag ∈ markerTags classPrefix, IsTag tag := by
  have hfits : ∀ kind : List Char, escape ('-' :: kind) = '-' :: kind →
      FitsClass (escape classPrefix ++ '-' :: kind) := by
    intro kind hkind
    rw [← hkind, ← escape_append]
    exact escape_fitsClass _
  intro tag htag
  simp only [markerTags, List.mem_cons, List.not_mem_nil, or_false] at htag
  rcases htag with rfl | rfl | rfl
  · exact isTag_openTag (hfits _ rfl)
  · exact isTag_openTag (hfits _ rfl)
  · exact ⟨"/span".toList, by decide, by decide⟩

theorem not_mem_escape (cs : List Char) : '<' ∉ escape cs :=
  fun h => (escape_fitsClass cs _ h).1 rfl

/-- A run without the tags of its marker is the run as it is written when nothing is marked. -/
theorem without_markRun {c : Char} (n : Nat) (more : List Char) :
    without (markerTags classPrefix) (markRun classPrefix (List.replicate (n + 1) c) ++ more)
      = escape (List.replicate (n + 1) c) ++ without (markerTags classPrefix) more := by
  have htags : ∀ tag ∈ markerTags classPrefix, IsTag tag := isTag_of_mem_markerTags
  by_cases hc : isMarked c = true
  · have hopen : markTag classPrefix c ∈ markerTags classPrefix := by
      rcases isMarked_iff.mp hc with rfl | rfl
      · simp [markTag_space, markerTags]
      · simp [markTag_tab, markerTags]
    have hclose : closeTag ∈ markerTags classPrefix := by simp [markerTags]
    have hplain : '<' ∉ List.replicate (n + 1) c := escape_replicate hc _ ▸ not_mem_escape _
    rw [markRun_of_isMarked hc, escape_replicate hc, List.append_assoc, List.append_assoc,
      without_tag htags hopen, without_plain htags hplain, without_tag htags hclose]
  · rw [markRun_of_not_isMarked hc, without_plain htags (not_mem_escape _)]

/-- Text without the tags of its markers is the text as it is written when nothing is marked. -/
theorem Runs.without_flatMap {runs : List (List Char)} (h : Runs runs) :
    without (markerTags classPrefix) (runs.flatMap (markRun classPrefix)) = escape runs.flatten := by
  induction h with
  | nil => rfl
  | cons _ _ ih =>
      rw [List.flatMap_cons, without_markRun, ih, List.flatten_cons, escape_append]

/-- **Marking adds markers and nothing else.**  Marked text is written by its maximal runs of one
character: a run of spaces, and a run of tabs, has one marker around it, and nothing else has one.
Without the tags of the markers it is the text as it is written when nothing is marked.  Marked or
not, a text is written line by line. -/
theorem marking_adds_markers (classPrefix : String) :
    (∀ text : String,
        (escapeText true classPrefix text).toList
          = (text.toList.splitBy (· == ·)).flatMap (markRun classPrefix.toList)
        ∧ without (markerTags classPrefix.toList) (escapeText true classPrefix text).toList
          = (escapeText false classPrefix text).toList)
      ∧ ∀ (mark : Bool) (a b : String),
        escapeText mark classPrefix (a ++ "\n" ++ b)
          = escapeText mark classPrefix a ++ "\n" ++ escapeText mark classPrefix b := by
  refine ⟨fun text => ?_, fun mark a b => ?_⟩
  · have hmarked : (escapeText true classPrefix text).toList
        = (text.toList.splitBy (· == ·)).flatMap (markRun classPrefix.toList) := by
      rw [← markFrom_eq_flatMap]
      simp [escapeText, escapeChars]
    refine ⟨hmarked, ?_⟩
    rw [hmarked, (runs_splitBy text.toList).without_flatMap, List.flatten_splitBy]
    simp [escapeText, escapeChars]
  · apply String.toList_injective
    simp [escapeText, escapeChars_append_break]

example : escapeText true "cp-token" "a <b>\t"
    = "a<span class=\"cp-token-space\"> </span>&lt;b&gt;<span class=\"cp-token-tab\">\t</span>" := by
  decide

end SourceView.Highlight
