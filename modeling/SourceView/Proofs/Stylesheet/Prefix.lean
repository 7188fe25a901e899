/-
What of a text is cut up for good before it is known what follows.

A structural run goes from one piece to the next.  As long as a piece ends within the text
that is known, it ends there whatever follows, and so does the next one.  The first piece
that may not is a comment, a literal or filler that has not ended, or a slash at the end; from
there on the pieces depend on what follows, but they all reach the end of the known text, and
among those that begin in it only a comment is kept.

`exists_cut` says this of the tokens: those that are settled, a comment that may lie across
the end, and those that come later.
-/
import SourceView.Proofs.Lexing.Shift
import SourceView.Proofs.Stylesheet.Brackets

namespace SourceView

/-! ### Literals and delimited regions -/

namespace Text

variable {needle text : List Char} {n : Nat}

/-- What occurs in a text occurs there whatever follows. -/
theorem findIndex?_append (h : findIndex? needle text = some n) (s : List Char) :
    n + needle.length ≤ text.length ∧ findIndex? needle (text ++ s) = some n := by
  induction text generalizing n with
  | nil =>
      have hneedle : needle = [] := by
        cases needle with
        | nil => rfl
        | cons => simp [findIndex?] at h
      subst hneedle
      have hn : n = 0 := by simpa [findIndex?] using h.symm
      subst hn
      cases s <;> simp [findIndex?]
  | cons c text ih =>
      rw [List.cons_append, findIndex?]
      rw [findIndex?] at h
      by_cases hfirst : needle.isPrefixOf (c :: text) = true
      · rw [if_pos hfirst, Option.some.injEq] at h
        subst h
        have hstarts := List.isPrefixOf_iff_prefix.mp hfirst
        refine ⟨Nat.zero_add _ ▸ hstarts.length_le, if_pos ?_⟩
        exact List.isPrefixOf_iff_prefix.mpr (hstarts.trans (List.prefix_append _ s))
      · rw [if_neg hfirst, Option.map_eq_some_iff] at h
        obtain ⟨m, hm, rfl⟩ := h
        obtain ⟨hlen, hmore⟩ := ih hm
        refine ⟨by rw [List.length_cons]; omega, ?_⟩
        -- The needle is no longer than the text, so it does not begin here with what follows.
        have hnot : ¬ needle.isPrefixOf (c :: (text ++ s)) = true := by
          intro hlonger
          refine hfirst (List.isPrefixOf_iff_prefix.mpr ?_)
          refine List.prefix_of_prefix_length_le (List.isPrefixOf_iff_prefix.mp hlonger)
            (List.prefix_append (c :: text) s) ?_
          rw [List.length_cons]
          omega
        rw [if_neg hnot, hmore]
        rfl

/-- What does not occur in a text ends past it if it occurs with what follows. -/
theorem length_lt_of_findIndex?_append (hnone : findIndex? needle text = none) {s : List Char}
    (h : findIndex? needle (text ++ s) = some n) : text.length < n + needle.length := by
  induction text generalizing n with
  | nil =>
      cases needle with
      | nil => simp [findIndex?] at hnone
      | cons => simp only [List.length_nil, List.length_cons]; omega
  | cons c text ih =>
      rw [List.cons_append, findIndex?] at h
      rw [findIndex?] at hnone
      by_cases hfirst : needle.isPrefixOf (c :: text) = true
      · rw [if_pos hfirst] at hnone
        exact absurd hnone (by simp)
      rw [if_neg hfirst, Option.map_eq_none_iff] at hnone
      by_cases hlonger : needle.isPrefixOf (c :: (text ++ s)) = true
      · refine Nat.lt_of_not_le fun hle => hfirst (List.isPrefixOf_iff_prefix.mpr ?_)
        rw [if_pos hlonger, Option.some.injEq] at h
        exact List.prefix_of_prefix_length_le (List.isPrefixOf_iff_prefix.mp hlonger)
          (List.prefix_append (c :: text) s) (by omega)
      · rw [if_neg hlonger, Option.map_eq_some_iff] at h
        obtain ⟨m, hm, rfl⟩ := h
        have hlen := ih hnone hm
        rw [List.length_cons]
        omega

end Text

namespace Lexing

/-- A run of characters ends within a text whatever follows, or takes all of it. -/
theorem countWhile_append (p : Char → Bool) (text : List Char) :
    (countWhile p text ≤ text.length ∧ ∀ s, countWhile p (text ++ s) = countWhile p text)
      ∨ ∀ s, text.length ≤ countWhile p (text ++ s) := by
  unfold countWhile
  by_cases hall : (text.takeWhile p).length = text.length
  · refine Or.inr fun s => ?_
    rw [List.takeWhile_append, if_pos hall, List.length_append]
    exact Nat.le_add_right _ _
  · refine Or.inl ⟨(List.takeWhile_prefix p).length_le, fun s => ?_⟩
    rw [List.takeWhile_append, if_neg hall]

/-- A character that begins no escape is no backslash. -/
theorem ne_backslash {c : Char} {rest : List Char} (hlast : c = '\\' → rest = [] → False)
    (hescape : ∀ d more, c = '\\' → rest = d :: more → False) : c ≠ '\\' := by
  intro hc
  cases rest with
  | nil => exact hlast hc rfl
  | cons d more => exact hescape d more hc rfl

/-- A literal ends within a text whatever follows, or takes all of it. -/
theorem literalBody_append (quote : Char) (multiline : Bool) (text : List Char) :
    ((literalBody quote multiline text).1 ≤ text.length
        ∧ ∀ s, literalBody quote multiline (text ++ s) = literalBody quote multiline text)
      ∨ ∀ s, text.length ≤ (literalBody quote multiline (text ++ s)).1 := by
  generalize hn : text.length = n
  induction n using Nat.strongRecOn generalizing text with
  | ind n ih =>
      match text, hn with
      | [], hn => exact Or.inr fun s => hn ▸ Nat.zero_le _
      | c :: rest, hn =>
          rw [List.length_cons] at hn
          by_cases hc : c = '\\'
          · subst hc
            cases rest with
            | nil =>
                refine Or.inr fun s => ?_
                cases s with
                | nil => exact hn ▸ Nat.le_refl _
                | cons c s =>
                    rw [List.cons_append, List.nil_append, literalBody_escape, ← hn]
                    exact Nat.le_add_left 1 _
            | cons c rest =>
                rw [List.length_cons] at hn
                simp only [List.cons_append, literalBody_escape]
                rcases ih rest.length (by omega) rest rfl with ⟨hlen, hsame⟩ | hall
                · exact Or.inl ⟨by omega, fun s => by rw [hsame s]⟩
                · exact Or.inr fun s => hn ▸ Nat.add_le_add_right (hall s) 2
          · simp only [List.cons_append, literalBody_cons quote multiline hc]
            by_cases hquote : c = quote
            · simp only [if_pos hquote]
              exact Or.inl ⟨by omega, fun _ => trivial⟩
            by_cases hbreak : (!multiline && isLineBreak c) = true
            · simp only [if_neg hquote, if_pos hbreak]
              exact Or.inl ⟨Nat.zero_le _, fun _ => trivial⟩
            simp only [if_neg hquote, if_neg hbreak]
            rcases ih rest.length (by omega) rest rfl with ⟨hlen, hsame⟩ | hall
            · exact Or.inl ⟨by omega, fun s => by rw [hsame s]⟩
            · exact Or.inr fun s => hn ▸ Nat.add_le_add_right (hall s) 1

end Lexing

namespace Stylesheet

open Lexing

/-! ### Looks -/

/-- The piece that a structural run cuts off a text first. -/
def look (text : List Char) : Lexeme :=
  (scanStructural () 0 text).lexemes.headD Lexeme.unknown

variable {c : Char} {text rest p : List Char} {l : Lexeme} {pos : Nat} {t : Token}

theorem scanStructural_lexemes (pos : Nat) (htext : text ≠ []) :
    (scanStructural () pos text).lexemes = [look text] := by
  obtain ⟨l, hl, -⟩ := scanStructural_single 0 htext
  have hshift := scanStructural_shift pos 0 () text
  rw [Nat.zero_add] at hshift
  rw [hshift, look, hl]
  exact hl

theorem look_length_pos (htext : text ≠ []) : 0 < (look text).length := by
  obtain ⟨l, hl, hpos, -⟩ := scanStructural_single 0 htext
  rw [look, hl]
  exact hpos

theorem look_comment (hc : (c == '/' && rest.head? == some '*') = true) :
    look (c :: rest) = (delimited .comment "comment" "comment" 2 ['*', '/'] 0 (c :: rest)).1 := by
  simp only [look, scanStructural, hc, if_true, List.headD_cons]

theorem look_delimiter {kind : TokenKind} (hc : delimiter? c = some kind) (rest : List Char) :
    look (c :: rest) = { kind, length := 1 } := by
  rw [look, scanStructural_delimiter hc, List.headD_cons]

theorem look_quote (hc : (c == '"' || c == '\'') = true) (rest : List Char) :
    look (c :: rest) = (quotedLiteral .string "string" "string" false c 0 rest).1 := by
  rw [look, scanStructural_quoted hc, List.headD_cons]

theorem look_filler (hcomment : (c == '/' && rest.head? == some '*') = false)
    (hdelimiter : delimiter? c = none) (hquote : (c == '"' || c == '\'') = false) :
    look (c :: rest)
      = { kind := .text, length := 1 + countWhile (fun c => !isStructuralStop c) rest } := by
  simp only [look, scanStructural, hcomment, hdelimiter, hquote, Bool.false_eq_true, if_false,
    List.headD_cons]

/-- The first piece of `p` is `l`, whatever follows.  If it is kept it ends with a character
that a structural run stops at. -/
structure Fixed (p : List Char) (l : Lexeme) : Prop where
  pos : 0 < l.length
  within : l.length ≤ p.length
  same : ∀ s, look (p ++ s) = l
  kept : l.kind.isStructural = true → (p.take l.length).getLast?.any isStructuralStop = true

/-- The first piece of `p` takes all of it, whatever follows.  It is kept only if it is a
comment, which then takes something of what follows as well; and whether it is one shows in
`p`, unless that is a single character. -/
structure Straddles (p : List Char) : Prop where
  beyond : ∀ s, p.length ≤ (look (p ++ s)).length
  comment : ∀ s, (look (p ++ s)).kind.isStructural = true →
    (look (p ++ s)).kind = .comment ∧ (s ≠ [] → p.length < (look (p ++ s)).length)
  alike : 1 < p.length → ∀ s s', (look (p ++ s)).kind.isStructural = true →
    (look (p ++ s')).kind.isStructural = true

theorem straddles_of_filler (hbeyond : ∀ s, p.length ≤ (look (p ++ s)).length)
    (hkind : ∀ s, (look (p ++ s)).kind.isStructural = false) : Straddles p where
  beyond := hbeyond
  comment s h := absurd h (by simp [hkind s])
  alike _ s _ h := absurd h (by simp [hkind s])

theorem look_opened (inner s : List Char) :
    look ('/' :: '*' :: inner ++ s)
      = { kind := .comment
          length := (Text.findIndex? ['*', '/'] (inner ++ s)).elim ((inner ++ s).length + 2)
            (2 + · + 2)
          style := "comment" } := by
  show look ('/' :: '*' :: (inner ++ s)) = _
  rw [look_comment rfl, delimited, List.drop_succ_cons, List.drop_succ_cons, List.drop_zero]
  cases Text.findIndex? ['*', '/'] (inner ++ s) <;> rfl

/-- A comment that ends is the same whatever follows. -/
theorem fixed_comment {inner : List Char} {n : Nat}
    (hfound : Text.findIndex? ['*', '/'] inner = some n) :
    Fixed ('/' :: '*' :: inner)
      { kind := .comment, length := 2 + n + 2, style := "comment" } where
  pos := Nat.succ_pos _
  within := by
    obtain ⟨hlen, -⟩ := Text.findIndex?_append hfound []
    simp only [List.length_cons, List.length_nil] at hlen ⊢
    omega
  same s := by
    rw [look_opened, (Text.findIndex?_append hfound s).2, Option.elim_some]
  kept _ := by
    obtain ⟨more, hmore⟩ := Text.prefix_drop_findIndex? hfound
    have htake : ('/' :: '*' :: inner).take (2 + n + 2)
        = ('/' :: '*' :: inner).take (2 + n) ++ ['*', '/'] := by
      rw [List.take_add, Nat.add_comm 2 n]
      show _ ++ (inner.drop n).take 2 = _
      rw [← hmore]
      rfl
    rw [htake, List.getLast?_append]
    rfl

/-- A comment that does not end takes all there is, and something of what follows. -/
theorem straddles_comment {inner : List Char} (hnone : Text.findIndex? ['*', '/'] inner = none) :
    Straddles ('/' :: '*' :: inner) := by
  have hkind (s : List Char) : (look ('/' :: '*' :: inner ++ s)).kind = .comment := by
    rw [look_opened]
  have hbeyond (s : List Char) : ('/' :: '*' :: inner).length + min 1 s.length
      ≤ (look ('/' :: '*' :: inner ++ s)).length := by
    rw [look_opened, List.length_cons, List.length_cons]
    cases hfound : Text.findIndex? ['*', '/'] (inner ++ s) with
    | none =>
        simp only [Option.elim_none, List.length_append]
        omega
    | some n =>
        have hlen := Text.length_lt_of_findIndex?_append hnone hfound
        simp only [Option.elim_some, List.length_cons, List.length_nil] at hlen ⊢
        omega
  refine ⟨fun s => ?_, fun s _ => ⟨hkind s, fun hs => ?_⟩, fun _ s s' _ => ?_⟩
  · exact Nat.le_of_add_right_le (hbeyond s)
  · have hpos := List.length_pos_iff.mpr hs
    have hlonger := hbeyond s
    omega
  · rw [hkind]
    rfl

theorem fixed_or_straddles_comment (inner : List Char) :
    (∃ l, Fixed ('/' :: '*' :: inner) l) ∨ Straddles ('/' :: '*' :: inner) := by
  cases hfound : Text.findIndex? ['*', '/'] inner with
  | some n => exact Or.inl ⟨_, fixed_comment hfound⟩
  | none => exact Or.inr (straddles_comment hfound)

theorem fixed_or_straddles_quote (hc : (c == '"' || c == '\'') = true) (rest : List Char) :
    (∃ l, Fixed (c :: rest) l) ∨ Straddles (c :: rest) := by
  have hlook (s : List Char) : look (c :: rest ++ s)
      = (quotedLiteral .string "string" "string" false c 0 (rest ++ s)).1 :=
    look_quote hc (rest ++ s)
  have hkind (text : List Char) :
      (quotedLiteral .string "string" "string" false c 0 text).1.kind.isStructural = false := by
    unfold quotedLiteral
    simp only
    split <;> rfl
  have hlength (text : List Char) :
      (quotedLiteral .string "string" "string" false c 0 text).1.length
        = (literalBody c false text).1 + 1 := by
    unfold quotedLiteral
    simp only
    split <;> rfl
  rcases literalBody_append c false rest with ⟨hlen, hsame⟩ | hall
  · refine Or.inl ⟨(quotedLiteral .string "string" "string" false c 0 rest).1, ?_, ?_, ?_, ?_⟩
    · exact quotedLiteral_length_pos ..
    · rw [hlength, List.length_cons]
      omega
    · intro s
      rw [hlook]
      unfold quotedLiteral
      rw [hsame s]
    · exact fun h => absurd h (by simp [hkind])
  · refine Or.inr (straddles_of_filler (fun s => ?_) fun s => ?_)
    · rw [hlook, hlength, List.length_cons]
      exact Nat.add_le_add_right (hall s) 1
    · rw [hlook, hkind]

theorem fixed_or_straddles_filler
    (hlook : ∀ s, look (c :: rest ++ s)
      = { kind := .text, length := 1 + countWhile (fun c => !isStructuralStop c) (rest ++ s) }) :
    (∃ l, Fixed (c :: rest) l) ∨ Straddles (c :: rest) := by
  rcases countWhile_append (fun c => !isStructuralStop c) rest with ⟨hlen, hsame⟩ | hall
  · refine Or.inl ⟨{ kind := .text
                     length := 1 + countWhile (fun c => !isStructuralStop c) rest }, ?_, ?_, ?_, ?_⟩
    · exact Nat.add_pos_left Nat.one_pos _
    · show 1 + _ ≤ rest.length + 1
      omega
    · intro s
      rw [hlook, hsame s]
    · exact fun h => absurd h (by simp [TokenKind.isStructural])
  · refine Or.inr (straddles_of_filler (fun s => ?_) fun s => ?_)
    · have hrest := hall s
      rw [hlook, List.length_cons]
      show _ ≤ 1 + _
      omega
    · rw [hlook]
      rfl

/-- What a slash at the end of the known text begins is not known. -/
theorem straddles_slash : Straddles ['/'] where
  beyond s := look_length_pos (List.cons_ne_nil '/' s)
  comment s hkept := by
    cases hcomment : s.head? == some '*' with
    | false =>
        have hlook : look ('/' :: s) = _ := look_filler (by simp [hcomment]) rfl rfl
        rw [List.singleton_append, hlook] at hkept
        exact absurd hkept (by simp [TokenKind.isStructural])
    | true =>
        rw [beq_iff_eq] at hcomment
        obtain ⟨inner, rfl⟩ : ∃ inner, s = '*' :: inner := by
          cases s with
          | nil => simp at hcomment
          | cons c inner => exact ⟨inner, by rw [Option.some.inj hcomment]⟩
        rw [List.singleton_append, look_comment rfl]
        refine ⟨delimited_kind .., fun _ => ?_⟩
        unfold delimited
        split
        · show 1 < 2 + _ + _
          omega
        · simp
  alike h := absurd h (Nat.lt_irrefl 1)

/-- The first piece of a text is fixed, or it takes all of it. -/
theorem fixed_or_straddles (hp : p ≠ []) : (∃ l, Fixed p l) ∨ Straddles p := by
  obtain ⟨c, rest, rfl⟩ := List.exists_cons_of_ne_nil hp
  cases hdelimiter : delimiter? c with
  | some kind =>
      refine Or.inl ⟨{ kind, length := 1 }, Nat.one_pos, Nat.succ_pos _, fun s => ?_, fun _ => ?_⟩
      · exact look_delimiter hdelimiter (rest ++ s)
      · simp [isStructuralStop, hdelimiter]
  | none =>
      by_cases hquote : (c == '"' || c == '\'') = true
      · exact fixed_or_straddles_quote hquote rest
      rw [Bool.not_eq_true] at hquote
      cases hcomment : c == '/' && rest.head? == some '*' with
      | true =>
          rw [Bool.and_eq_true, beq_iff_eq, beq_iff_eq] at hcomment
          obtain ⟨rfl, hstar⟩ := hcomment
          cases rest with
          | nil => simp at hstar
          | cons d inner =>
              rw [show d = '*' from Option.some.inj hstar]
              exact fixed_or_straddles_comment inner
      | false =>
          by_cases hslash : c = '/' ∧ rest = []
          · obtain ⟨rfl, rfl⟩ := hslash
            exact Or.inr straddles_slash
          -- The character after this one is known, so no comment begins here.
          refine fixed_or_straddles_filler fun s => look_filler ?_ hdelimiter hquote
          cases rest with
          | nil =>
              have hc : (c == '/') = false := by simpa using hslash
              rw [hc, Bool.false_and]
          | cons => exact hcomment

/-! ### Tokens -/

/-- The token of the first piece, if it is kept. -/
def first? (pos : Nat) (text : List Char) : Option Token :=
  if (look text).kind.isStructural then some ((look text).token pos text) else none

theorem mem_first? :
    t ∈ first? pos text
      ↔ (look text).kind.isStructural = true ∧ t = (look text).token pos text := by
  rw [first?, Option.mem_def, Option.ite_none_right_eq_some, Option.some.injEq, eq_comm (a := t)]

theorem scanStructural_pieces (pos : Nat) (htext : text ≠ []) :
    (scanStructural () pos text).pieces = [look text] := by
  have hpos := look_length_pos htext
  rw [Scan.pieces, scanStructural_lexemes pos htext, if_neg]
  simp only [Lexeme.width]
  omega

/-- A structural run is a look, and the run over what is left. -/
theorem lex_eq (pos : Nat) (htext : text ≠ []) :
    (lex .structural pos text).tokens = (first? pos text).toList
      ++ (lex .structural (pos + (text.take (look text).length).length)
          (text.drop (look text).length)).tokens := by
  have hpieces : (structuralScanner.scan () pos text).pieces = [look text] :=
    scanStructural_pieces pos htext
  show (structuralScanner.run 0 () pos text).tokens.filter _ = _
  rw [structuralScanner.run_eq () pos htext]
  simp only [hpieces, Lexeme.cut, Lexeme.width, Nat.add_zero, List.filter_append]
  refine congrArg (· ++ _) ?_
  rw [first?]
  by_cases hkept : (look text).kind.isStructural = true
  · rw [if_pos hkept]
    exact List.filter_cons_of_pos hkept
  · rw [if_neg hkept]
    exact List.filter_cons_of_neg hkept

theorem start_of_mem_lex (ht : t ∈ (lex .structural pos text).tokens) : (pos : Int) ≤ t.start :=
  ((inOrder_lex pos text).mem t ht).1

/-- A piece that is kept begins with a character that a structural run stops at. -/
theorem stop_of_look (h : (look (c :: rest)).kind.isStructural = true) :
    isStructuralStop c = true := by
  cases hstop : isStructuralStop c with
  | true => rfl
  | false =>
      simp only [isStructuralStop, Bool.or_eq_false_iff, Option.isSome_eq_false_iff,
        Option.isNone_iff_eq_none] at hstop
      obtain ⟨⟨⟨hslash, hdouble⟩, hsingle⟩, hdelimiter⟩ := hstop
      rw [look_filler (by rw [hslash, Bool.false_and]) hdelimiter (by rw [hdouble, hsingle]; rfl)]
        at h
      exact absurd h (by simp [TokenKind.isStructural])

/-- A token that is kept begins with a character that a structural run stops at. -/
theorem stop_of_mem_lex (ht : t ∈ (lex .structural 0 text).tokens) :
    (text.drop t.start.toNat).head?.any isStructuralStop = true := by
  obtain ⟨hrun, hkept⟩ := List.mem_filter.mp ht
  refine structuralScanner.run_forall (P := fun t => t.kind.isStructural = true →
    (text.drop t.start.toNat).head?.any isStructuralStop = true)
    (fun _ pos piece hpiece t ht hkept => ?_) () 0 text (List.prefix_refl text) t hrun hkept
  cases piece with
  | nil =>
      obtain rfl : t = Lexeme.unknown.token pos [] := by
        simpa [structuralScanner, scanStructural, Scan.pieces, Lexeme.width, Lexeme.cut] using ht
      exact absurd hkept (by simp [Lexeme.token, Lexeme.unknown, TokenKind.isStructural])
  | cons c rest =>
      have hpieces : (structuralScanner.scan () pos (c :: rest)).pieces = [look (c :: rest)] :=
        scanStructural_pieces pos (List.cons_ne_nil c rest)
      rw [hpieces, Lexeme.cut, Lexeme.cut, List.mem_singleton] at ht
      subst ht
      obtain ⟨more, hmore⟩ := hpiece
      show (text.drop (pos : Int).toNat).head?.any isStructuralStop = true
      rw [Int.toNat_natCast, ← hmore]
      exact stop_of_look hkept

/-- The tokens of a text `p` at offset `pos` and what follows it: the first are settled, a
comment may lie across the end of `p`, and the others come later. -/
structure Cut (pos : Nat) (p : List Char) (settled : List Token)
    (straddling : List Char → Option Token) (later : List Char → List Token) : Prop where
  tokens : ∀ s, (lex .structural pos (p ++ s)).tokens
    = settled ++ ((straddling s).toList ++ later s)
  settled_stop : ∀ t ∈ settled, t.stop < (pos + p.length : Nat)
    ∨ (t.stop = (pos + p.length : Nat) ∧ p.getLast?.any isStructuralStop = true)
  comment : ∀ s, ∀ t ∈ straddling s, t.kind = .comment ∧ t.start < (pos + p.length : Nat)
    ∧ ((pos + p.length : Nat) : Int) ≤ t.stop ∧ (s ≠ [] → ((pos + p.length : Nat) : Int) < t.stop)
  alike : ∀ s, ∀ t ∈ straddling s, t.start + 1 < (pos + p.length : Nat) →
    ∀ s', ∃ u ∈ straddling s', u.start = t.start
  later_start : ∀ s, ∀ t ∈ later s, ((pos + p.length : Nat) : Int) ≤ t.start

/-- A text that begins with a piece that is fixed is cut up as what is left of it is. -/
theorem Cut.fixed {settled : List Token} {straddling : List Char → Option Token}
    {later : List Char → List Token} (hp : p ≠ []) (hl : Fixed p l)
    (h : Cut (pos + l.length) (p.drop l.length) settled straddling later) :
    Cut pos p ((first? pos p).toList ++ settled) straddling later := by
  have hend : pos + l.length + (p.drop l.length).length = pos + p.length := by
    have hwithin := hl.within
    rw [List.length_drop]
    omega
  have hlook : look p = l := List.append_nil p ▸ hl.same []
  refine ⟨fun s => ?_, ?_, hend ▸ h.comment, hend ▸ h.alike, hend ▸ h.later_start⟩
  · have hfirst : first? pos (p ++ s) = first? pos p := by
      rw [first?, first?, hl.same s, hlook, Lexeme.token, Lexeme.token,
        List.take_append_of_le_length hl.within]
    rw [lex_eq pos (List.append_ne_nil_of_left_ne_nil hp s), hl.same s,
      List.take_append_of_le_length hl.within, List.drop_append_of_le_length hl.within,
      List.length_take, Nat.min_eq_left hl.within, h.tokens, hfirst, List.append_assoc]
  · intro t ht
    rcases List.mem_append.mp ht with ht | ht
    · obtain ⟨hkept, rfl⟩ := mem_first?.mp (Option.mem_toList.mp ht)
      rw [hlook] at hkept ⊢
      have hwithin := hl.within
      have hstop : (l.token pos p).stop = (pos + l.length : Nat) := by
        show ((pos + (p.take l.length).length : Nat) : Int) = _
        rw [List.length_take, Nat.min_eq_left hwithin]
      rcases Nat.lt_or_eq_of_le hwithin with hlt | heq
      · exact Or.inl (by rw [hstop]; omega)
      · have hlast := hl.kept hkept
        rw [heq, List.take_length] at hlast
        exact Or.inr ⟨by rw [hstop, heq], hlast⟩
    · rcases h.settled_stop t ht with hstop | ⟨hstop, hlast⟩
      · exact Or.inl (hend ▸ hstop)
      · refine Or.inr ⟨hend ▸ hstop, ?_⟩
        rw [List.getLast?_drop] at hlast
        split at hlast
        · simp at hlast
        · exact hlast

/-- A text whose first piece takes all of it settles nothing. -/
theorem Straddles.cut (h : Straddles p) (hp : p ≠ []) (pos : Nat) :
    Cut pos p [] (fun s => first? pos (p ++ s)) fun s =>
      (lex .structural (pos + ((p ++ s).take (look (p ++ s)).length).length)
        ((p ++ s).drop (look (p ++ s)).length)).tokens := by
  have hne (s : List Char) : p ++ s ≠ [] := List.append_ne_nil_of_left_ne_nil hp s
  refine ⟨fun s => lex_eq pos (hne s), by simp, ?_, ?_, ?_⟩
  · intro s t ht
    obtain ⟨hkept, rfl⟩ := mem_first?.mp ht
    obtain ⟨hcomment, hmore⟩ := h.comment s hkept
    have hbeyond := h.beyond s
    have hpos := List.length_pos_iff.mpr hp
    have hstop : ((look (p ++ s)).token pos (p ++ s)).stop
        = (pos + min (look (p ++ s)).length (p.length + s.length) : Nat) := by
      show ((pos + ((p ++ s).take (look (p ++ s)).length).length : Nat) : Int) = _
      rw [List.length_take, List.length_append]
    rw [hstop]
    refine ⟨hcomment, ?_, by omega, fun hs => ?_⟩
    · show (pos : Int) < _
      omega
    · have hlonger := hmore hs
      have hs := List.length_pos_iff.mpr hs
      omega
  · intro s t ht hstart s'
    obtain ⟨hkept, rfl⟩ := mem_first?.mp ht
    have hlen : 1 < p.length := by
      change (pos : Int) + 1 < _ at hstart
      omega
    exact ⟨_, mem_first?.mpr ⟨h.alike hlen s s' hkept, rfl⟩, rfl⟩
  · intro s t ht
    have hstart := start_of_mem_lex ht
    have hbeyond := h.beyond s
    rw [List.length_take, List.length_append] at hstart
    omega

theorem exists_cut (pos : Nat) (p : List Char) :
    ∃ settled straddling later, Cut pos p settled straddling later := by
  generalize hn : p.length = n
  induction n using Nat.strongRecOn generalizing pos p with
  | ind n ih =>
      by_cases hp : p = []
      · subst hp
        exact ⟨[], fun _ => none, fun s => (lex .structural pos s).tokens, fun s => rfl, by simp,
          by simp, by simp, fun s t ht => start_of_mem_lex ht⟩
      rcases fixed_or_straddles hp with ⟨l, hl⟩ | hstraddles
      · have hpos := hl.pos
        have hwithin := hl.within
        obtain ⟨settled, straddling, later, h⟩ :=
          ih (p.drop l.length).length (by rw [List.length_drop]; omega) (pos + l.length)
            (p.drop l.length) rfl
        exact ⟨_, straddling, later, h.fixed hp hl⟩
      · exact ⟨_, _, _, hstraddles.cut hp pos⟩

end Stylesheet

end SourceView
