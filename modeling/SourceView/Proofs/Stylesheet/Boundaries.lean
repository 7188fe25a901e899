/-
The two scanners of stylesheets see the same boundaries.

A structural run steps over whatever is no comment, no quoted text and no delimiter, and it
may do so one character at a time: where it stops does not depend on where it began.  So a
piece of a rich run is either a piece of the structural run as well, or it is made of
characters that the structural run steps over, and between them the two see the same
boundaries and note the same faults.

One piece breaks this.  The address in `url(…)` is taken whole when it is not quoted, and it
may hold a delimiter, a quote or the start of a comment; a structural run sees those.
-/
import SourceView.Proofs.Stylesheet.Ahead
import SourceView.Proofs.Lexing.Run
import SourceView.Proofs.Parsing.Outline

namespace SourceView.Stylesheet

open Lexing Parsing

/-! ### Stepping over text -/

/-- Whether a structural run steps over the character `c` before `rest`. -/
def stepsOver (c : Char) (rest : List Char) : Bool :=
  (delimiter? c).isNone && c != '"' && c != '\'' && !(c == '/' && rest.head? == some '*')

/-- Whether a structural run steps over all characters of a text that nothing follows. -/
def stepsOverAll : List Char → Bool
  | [] => true
  | c :: rest => stepsOver c rest && stepsOverAll rest

/-- A structural run steps over the first `n` characters of the text. -/
def SteppedOver : (n : Nat) → List Char → Prop
  | 0, _ | _ + 1, [] => True
  | n + 1, c :: rest => stepsOver c rest = true ∧ SteppedOver n rest

theorem stepsOver_of_not_stop {c : Char} (h : isStructuralStop c = false) (rest : List Char) :
    stepsOver c rest = true := by
  simp only [isStructuralStop, Bool.or_eq_false_iff, beq_eq_false_iff_ne] at h
  obtain ⟨⟨⟨hslash, hdouble⟩, hsingle⟩, hdelimiter⟩ := h
  have hnone : (delimiter? c).isNone = true := by
    rw [Option.isNone_iff_eq_none]
    simpa using hdelimiter
  simp [stepsOver, hnone, hslash, hdouble, hsingle]

theorem SteppedOver.of_take {n : Nat} {text : List Char}
    (h : ∀ c ∈ text.take n, isStructuralStop c = false) : SteppedOver n text := by
  induction n generalizing text with
  | zero => exact trivial
  | succ n ih =>
      cases text with
      | nil => exact trivial
      | cons c rest =>
          rw [List.take_succ_cons] at h
          exact ⟨stepsOver_of_not_stop (h c (by simp)) rest, ih fun d hd => h d (by simp [hd])⟩

/-! ### Runs -/

/-- The boundaries that a structural run over the text sees. -/
def seen (pos : Nat) (text : List Char) : List Token :=
  boundaries (structuralScanner.run 0 () pos text).tokens

/-- The faults that a structural run over the text notes. -/
def noted (pos : Nat) (text : List Char) : List Fault :=
  (structuralScanner.run 0 () pos text).faults

/-- The pieces `ls` at the start of the text show what a structural run sees there, and the
faults of both are `faults`. -/
structure Shows (pos : Nat) (text : List Char) (ls : List Lexeme) (faults : List Fault) :
    Prop where
  tokens : seen pos text = boundaries (Lexeme.cut pos text ls)
    ++ seen (pos + (text.take (Lexeme.width ls)).length) (text.drop (Lexeme.width ls))
  faults : noted pos text = faults
    ++ noted (pos + (text.take (Lexeme.width ls)).length) (text.drop (Lexeme.width ls))

theorem Shows.nil (pos : Nat) (text : List Char) : Shows pos text [] [] := by
  refine ⟨?_, ?_⟩ <;> simp [Lexeme.cut, Lexeme.width, boundaries]

theorem Shows.append {pos : Nat} {text : List Char} {l : Lexeme} {ls : List Lexeme}
    {faults more : List Fault} (h : Shows pos text [l] faults)
    (hmore : Shows (pos + (text.take l.length).length) (text.drop l.length) ls more) :
    Shows pos text (l :: ls) (faults ++ more) := by
  have hwidth : Lexeme.width [l] = l.length := by simp [Lexeme.width]
  have hdrop : (text.drop l.length).drop (Lexeme.width ls)
      = text.drop (Lexeme.width (l :: ls)) := by
    rw [List.drop_drop, Lexeme.width]
  have hend : pos + (text.take l.length).length
      + ((text.drop l.length).take (Lexeme.width ls)).length
      = pos + (text.take (Lexeme.width (l :: ls))).length := by
    rw [Lexeme.width, List.take_add, List.length_append]
    omega
  have hcut : boundaries (Lexeme.cut pos text (l :: ls)) = boundaries (Lexeme.cut pos text [l])
      ++ boundaries (Lexeme.cut (pos + (text.take l.length).length) (text.drop l.length) ls) := by
    simp [Lexeme.cut, boundaries, List.filter_cons]
    split <;> simp
  refine ⟨?_, ?_⟩
  · rw [h.tokens, hwidth, hmore.tokens, hdrop, hend, hcut, List.append_assoc]
  · rw [h.faults, hwidth, hmore.faults, hdrop, hend, List.append_assoc]

theorem Shows.after_filler {pos : Nat} {text : List Char} {l : Lexeme} {ls : List Lexeme}
    {faults : List Fault} (h : Shows pos text [l] [])
    (hmore : Shows (pos + (text.take l.length).length) (text.drop l.length) ls faults) :
    Shows pos text (l :: ls) faults :=
  h.append hmore

/-- A look of a structural run shows what the run sees. -/
theorem shows_structural (pos : Nat) {text : List Char} (htext : text ≠ []) :
    Shows pos text (scanStructural () pos text).pieces (scanStructural () pos text).faults := by
  refine ⟨?_, ?_⟩
  · rw [seen, structuralScanner.run_eq () pos htext]
    simp only [boundaries, List.filter_append, List.map_append]
    rfl
  · rw [noted, structuralScanner.run_eq () pos htext]
    rfl

theorem scanStructural_of_stepsOver {c : Char} {rest : List Char} (h : stepsOver c rest = true)
    (pos : Nat) :
    scanStructural () pos (c :: rest) =
      { lexemes := [{ kind := .text, length := 1 + countWhile (fun c => !isStructuralStop c) rest }]
        state := () } := by
  simp only [stepsOver, Bool.and_eq_true, bne_iff_ne, Bool.not_eq_true', Option.isNone_iff_eq_none]
    at h
  obtain ⟨⟨⟨hdelimiter, hdouble⟩, hsingle⟩, hcomment⟩ := h
  simp [scanStructural, hcomment, hdelimiter, hdouble, hsingle]

/-- What a structural run steps over does not change what it sees after it. -/
theorem seen_of_stepsOver {c : Char} {rest : List Char} (h : stepsOver c rest = true) (pos : Nat) :
    seen pos (c :: rest) = seen (pos + 1) rest ∧ noted pos (c :: rest) = noted (pos + 1) rest := by
  have hfirst := shows_structural pos (List.cons_ne_nil c rest)
  rw [scanStructural_of_stepsOver h] at hfirst
  have hpieces (k : Nat) : Scan.pieces (σ := Unit)
      { lexemes := [{ kind := .text, length := 1 + k }], state := () }
        = [{ kind := .text, length := 1 + k }] := by
    simp [Scan.pieces, Lexeme.width]
  have hwidth (k : Nat) : Lexeme.width [{ kind := .text, length := 1 + k }] = 1 + k := by
    simp [Lexeme.width]
  have hnone (k pos : Nat) (text : List Char) :
      boundaries (Lexeme.cut pos text [{ kind := .text, length := 1 + k }]) = [] := by
    simp [Lexeme.cut, Lexeme.token, boundaries, TokenKind.isStructural]
  obtain ⟨hseen, hnoted⟩ := hfirst
  simp only [hpieces, hwidth, hnone, List.nil_append] at hseen hnoted
  rw [hseen, hnoted]
  cases rest with
  | nil => simp [countWhile]
  | cons d rest =>
      by_cases hstop : isStructuralStop d = true
      · simp [countWhile, hstop]
      · rw [Bool.not_eq_true] at hstop
        have hmore := shows_structural (pos + 1) (List.cons_ne_nil d rest)
        rw [scanStructural_of_stepsOver (stepsOver_of_not_stop hstop rest)] at hmore
        obtain ⟨hseen', hnoted'⟩ := hmore
        simp only [hpieces, hwidth, hnone, List.nil_append] at hseen' hnoted'
        have hcount : countWhile (fun c => !isStructuralStop c) (d :: rest)
            = 1 + countWhile (fun c => !isStructuralStop c) rest := by
          simp [countWhile, hstop, Nat.add_comm]
        rw [hseen', hnoted', hcount, Nat.add_comm 1 (1 + _), List.take_succ_cons,
          List.drop_succ_cons, List.length_cons]
        have hend : ∀ k : Nat, pos + (k + 1) = pos + 1 + k := by omega
        rw [hend]
        exact ⟨rfl, rfl⟩

theorem seen_of_steppedOver {n : Nat} {text : List Char} (h : SteppedOver n text) (pos : Nat) :
    seen pos text = seen (pos + (text.take n).length) (text.drop n)
      ∧ noted pos text = noted (pos + (text.take n).length) (text.drop n) := by
  induction n generalizing pos text with
  | zero => simp
  | succ n ih =>
      cases text with
      | nil => simp
      | cons c rest =>
          obtain ⟨hseen, hnoted⟩ := seen_of_stepsOver h.1 pos
          obtain ⟨hseen', hnoted'⟩ := ih h.2 (pos + 1)
          have hend : pos + ((c :: rest).take (n + 1)).length
              = pos + 1 + (rest.take n).length := by
            rw [List.take_succ_cons, List.length_cons]
            omega
          rw [hseen, hnoted, hseen', hnoted', hend, List.drop_succ_cons]
          exact ⟨rfl, rfl⟩

/-- A piece that bounds nothing, of characters that are stepped over. -/
theorem Shows.filler {l : Lexeme} (hkind : l.kind.isStructural = false) (pos : Nat)
    {text : List Char} (h : SteppedOver l.length text) : Shows pos text [l] [] := by
  have hwidth : Lexeme.width [l] = l.length := by simp [Lexeme.width]
  have hnone : boundaries (Lexeme.cut pos text [l]) = [] := by
    simp [Lexeme.cut, Lexeme.token, boundaries, hkind]
  obtain ⟨hseen, hnoted⟩ := seen_of_steppedOver h pos
  refine ⟨?_, ?_⟩
  · rw [hwidth, hnone]
    exact hseen
  · rw [hwidth]
    exact hnoted

/-- A piece that the structural run cuts off as well, maybe in another style. -/
theorem Shows.same {l : Lexeme} (style : String) {faults : List Fault} (hpos : 0 < l.length)
    {pos : Nat} {text : List Char} (htext : text ≠ [])
    (h : scanStructural () pos text = ⟨[{ l with style }], (), faults⟩) :
    Shows pos text [l] faults := by
  have hshows := shows_structural pos htext
  have hcut : boundaries (Lexeme.cut pos text [{ l with style }])
      = boundaries (Lexeme.cut pos text [l]) := by
    simp only [Lexeme.cut, Lexeme.token, boundaries, List.filter_cons]
    split <;> simp [Token.bare]
  rw [h, Scan.pieces_single (l := { l with style }) hpos] at hshows
  exact ⟨hcut ▸ hshows.tokens, hshows.faults⟩

/-! ### Characters -/

theorem not_stop {p : Char → Bool}
    (hp : ['/', '"', '\'', '\x7b', '\x7d', '(', ')', '[', ']'].any p = false) {c : Char}
    (h : p c = true) : isStructuralStop c = false := by
  cases hstop : isStructuralStop c with
  | false => rfl
  | true =>
      have hc : c ∈ ['/', '"', '\'', '\x7b', '\x7d', '(', ')', '[', ']'] := by
        simp only [isStructuralStop, delimiter?, Bool.or_eq_true, beq_iff_eq] at hstop
        rcases hstop with ((rfl | rfl) | rfl) | hstop
        · decide
        · decide
        · decide
        · split at hstop
          all_goals first | decide | exact absurd hstop (by simp)
      exact absurd h (List.any_eq_false.mp hp c hc)

theorem not_stop_of_isNameChar {c : Char} (h : isNameChar c = true) :
    isStructuralStop c = false :=
  not_stop (by decide) h

theorem not_stop_of_isNameStart {c : Char} (h : isNameStart c = true) :
    isStructuralStop c = false :=
  not_stop (by decide) h

theorem not_stop_of_isSpace {c : Char} (h : isSpace c = true) : isStructuralStop c = false :=
  not_stop (by decide) h

theorem not_stop_of_isDigit {c : Char} (h : c.isDigit = true) : isStructuralStop c = false :=
  not_stop (by decide) h

theorem not_stop_of_isHexDigit {c : Char} (h : isHexDigit c = true) :
    isStructuralStop c = false :=
  not_stop (by decide) h

theorem not_stop_of_isLetter {c : Char} (h : Text.isLetter c = true) :
    isStructuralStop c = false :=
  not_stop (by decide) h

/-! ### Lengths that are stepped over -/

theorem SteppedOver.append {m n : Nat} {text : List Char} (h : SteppedOver m text)
    (h' : SteppedOver n (text.drop m)) : SteppedOver (m + n) text := by
  induction m generalizing text with
  | zero => simpa using h'
  | succ m ih =>
      cases text with
      | nil =>
          cases n <;> exact trivial
      | cons c rest =>
          rw [Nat.add_right_comm]
          exact ⟨h.1, ih h.2 h'⟩

theorem SteppedOver.countWhile {p : Char → Bool} (hp : ∀ {c}, p c = true → isStructuralStop c = false)
    (text : List Char) : SteppedOver (countWhile p text) text :=
  SteppedOver.of_take fun _ hc => hp (of_mem_take_countWhile hc)

theorem SteppedOver.head {c : Char} {text : List Char} (h : text.head? = some c)
    (hc : isStructuralStop c = false) {n : Nat} (hrest : SteppedOver n text.tail) :
    SteppedOver (1 + n) text := by
  cases text with
  | nil => rw [Nat.add_comm]; exact trivial
  | cons d rest =>
      rw [List.head?_cons, Option.some.injEq] at h
      subst h
      rw [Nat.add_comm]
      exact ⟨stepsOver_of_not_stop hc rest, hrest⟩

theorem signLength_steppedOver (text : List Char) : SteppedOver (signLength text) text := by
  unfold signLength
  by_cases h : (text.head? == some '+' || text.head? == some '-') = true
  · rw [if_pos h]
    rw [Bool.or_eq_true, beq_iff_eq, beq_iff_eq] at h
    rcases h with h | h
    · exact SteppedOver.head (n := 0) h (by decide) trivial
    · exact SteppedOver.head (n := 0) h (by decide) trivial
  · rw [if_neg h]
    exact trivial

theorem numberLength_steppedOver (text : List Char) : SteppedOver (numberLength text) text := by
  have hdigits (text : List Char) : SteppedOver (countWhile Char.isDigit text) text :=
    SteppedOver.countWhile not_stop_of_isDigit text
  have hwhole := (signLength_steppedOver text).append (hdigits _)
  simp only [numberLength]
  generalize signLength text + countWhile Char.isDigit (text.drop (signLength text)) = n at hwhole ⊢
  -- The fraction after a whole number of `n` characters.
  have hfraction : SteppedOver (if (text.drop n).head? == some '.' && startsDigit (text.drop n).tail
      then n + 1 + countWhile Char.isDigit (text.drop n).tail else n) text := by
    by_cases h : ((text.drop n).head? == some '.' && startsDigit (text.drop n).tail) = true
    · rw [if_pos h, Nat.add_assoc]
      rw [Bool.and_eq_true, beq_iff_eq] at h
      exact hwhole.append (SteppedOver.head h.1 (by decide) (hdigits _))
    · rw [if_neg h]
      exact hwhole
  generalize (if (text.drop n).head? == some '.' && startsDigit (text.drop n).tail
      then n + 1 + countWhile Char.isDigit (text.drop n).tail else n) = m at hfraction ⊢
  by_cases h : ((text.drop m).head? == some 'e' || (text.drop m).head? == some 'E') = true
  · rw [if_pos h]
    split
    · exact hfraction
    · rw [Nat.add_assoc]
      refine hfraction.append (SteppedOver.append ?_ (hdigits _))
      rw [Bool.or_eq_true, beq_iff_eq, beq_iff_eq] at h
      rcases h with h | h
      · exact SteppedOver.head h (by decide) (signLength_steppedOver _)
      · exact SteppedOver.head h (by decide) (signLength_steppedOver _)
  · rw [if_neg h]
    exact hfraction

theorem number_steppedOver (text : List Char) : SteppedOver (number text).length text := by
  have hlength := numberLength_steppedOver text
  unfold number
  simp only
  split
  · rename_i h
    rw [beq_iff_eq] at h
    exact hlength.append (SteppedOver.head (n := 0) h (by decide) trivial)
  split
  · exact hlength
  · refine hlength.append ?_
    have hunit := SteppedOver.countWhile not_stop_of_isLetter (text.drop (numberLength text))
    exact hunit

theorem word_steppedOver {c : Char} {rest : List Char} (hc : isStructuralStop c = false) :
    SteppedOver (1 + nameLength rest) (c :: rest) :=
  SteppedOver.head rfl hc (SteppedOver.countWhile not_stop_of_isNameChar rest)

/-! ### Looks of a rich run -/

/-- A text token that is no quoted literal, such as an address, holds nothing that a
structural run would stop at. -/
def isPlainText (t : Token) : Bool :=
  t.kind != .string || t.value.toList.head? == some '"' || t.value.toList.head? == some '\''
    || stepsOverAll t.value.toList

/-- A look of a rich run at the text shows what a structural run sees there, provided the
addresses that it takes are plain. -/
def Agrees (pos : Nat) (text : List Char) (scan : Scan LexState) : Prop :=
  (∀ t ∈ Lexeme.cut pos text scan.pieces, isPlainText t = true) →
    Shows pos text scan.pieces scan.faults

theorem Agrees.ite {p : Prop} [Decidable p] {pos : Nat} {text : List Char} {a b : Scan LexState}
    (ha : p → Agrees pos text a) (hb : ¬p → Agrees pos text b) :
    Agrees pos text (if p then a else b) := by
  by_cases h : p
  · rw [if_pos h]; exact ha h
  · rw [if_neg h]; exact hb h

/-- One piece that bounds nothing, of characters that are stepped over. -/
theorem Agrees.filler {c : Char} {rest : List Char} {l : Lexeme} (s : LexState) (pos : Nat)
    (hkind : l.kind.isStructural = false) (hfirst : stepsOver c rest = true)
    (h : SteppedOver l.length (c :: rest)) : Agrees pos (c :: rest) ⟨[l], s, []⟩ := by
  intro _
  have hshows := Shows.filler hkind pos h
  by_cases hl : l.length = 0
  · -- A piece without characters is followed by one unknown character.
    have hpieces : Scan.pieces ⟨[l], s, []⟩ = [l, Lexeme.unknown] := by
      simp [Scan.pieces, Lexeme.width, hl]
    rw [hpieces]
    refine hshows.after_filler ?_
    rw [hl]
    exact Shows.filler rfl _ ⟨hfirst, trivial⟩
  · rw [Scan.pieces_single (Nat.pos_of_ne_zero hl)]
    exact hshows

/-- One character that bounds nothing. -/
theorem Agrees.one {c : Char} {rest : List Char} {l : Lexeme} (s : LexState) (pos : Nat)
    (hkind : l.kind.isStructural = false) (hlength : l.length = 1)
    (hfirst : stepsOver c rest = true) : Agrees pos (c :: rest) ⟨[l], s, []⟩ :=
  Agrees.filler s pos hkind hfirst (by rw [hlength]; exact ⟨hfirst, trivial⟩)

/-- A piece that the structural run cuts off as well. -/
theorem Agrees.same {l : Lexeme} (style : String) {s : LexState} {faults : List Fault}
    (hpos : 0 < l.length) {pos : Nat} {text : List Char} (htext : text ≠ [])
    (h : scanStructural () pos text = ⟨[{ l with style }], (), faults⟩) :
    Agrees pos text ⟨[l], s, faults⟩ := by
  intro _
  rw [Scan.pieces_single hpos]
  exact Shows.same style hpos htext h

variable {c : Char} {rest : List Char}

theorem scanStructural_quoted (hc : (c == '"' || c == '\'') = true) (pos : Nat) :
    scanStructural () pos (c :: rest)
      = ⟨[(quotedLiteral .string "string" "string" false c pos rest).1], (),
        (quotedLiteral .string "string" "string" false c pos rest).2⟩ := by
  have hslash : (c == '/') = false := by
    rw [Bool.or_eq_true, beq_iff_eq, beq_iff_eq] at hc
    rcases hc with rfl | rfl <;> rfl
  have hdelimiter : delimiter? c = none := by
    rw [Bool.or_eq_true, beq_iff_eq, beq_iff_eq] at hc
    rcases hc with rfl | rfl <;> rfl
  simp only [scanStructural, hslash, Bool.false_and, Bool.false_eq_true, if_false, hdelimiter, hc,
    if_true]

theorem quotedLiteral_length_pos (kind : TokenKind) (style what : String) (multiline : Bool)
    (quote : Char) (pos : Nat) (rest : List Char) :
    0 < (quotedLiteral kind style what multiline quote pos rest).1.length := by
  unfold quotedLiteral
  simp only
  split <;> exact Nat.succ_pos _

theorem scanStructural_delimiter {kind : TokenKind} (hc : delimiter? c = some kind) (pos : Nat) :
    scanStructural () pos (c :: rest) = ⟨[{ kind, length := 1 }], (), []⟩ := by
  have hslash : (c == '/') = false := by
    cases hslash : c == '/' with
    | false => rfl
    | true =>
        rw [beq_iff_eq] at hslash
        subst hslash
        rw [show delimiter? '/' = none from rfl] at hc
        cases hc
  simp only [scanStructural, hslash, Bool.false_and, Bool.false_eq_true, if_false, hc]

theorem Agrees.delimiter {kind : TokenKind} (hc : delimiter? c = some kind) (s : LexState)
    (pos : Nat) : Agrees pos (c :: rest) ⟨[mark kind], s, []⟩ :=
  Agrees.same (l := mark kind) "" Nat.zero_lt_one (List.cons_ne_nil _ _)
    (scanStructural_delimiter hc pos)

theorem Agrees.quoted (hc : (c == '"' || c == '\'') = true) (s : LexState) (pos : Nat) :
    Agrees pos (c :: rest)
      ⟨[(quotedLiteral .string "string" "string" false c pos rest).1], s,
        (quotedLiteral .string "string" "string" false c pos rest).2⟩ :=
  Agrees.same _ (quotedLiteral_length_pos ..) (List.cons_ne_nil _ _) (scanStructural_quoted hc pos)

theorem delimited_length_pos (kind : TokenKind) (style what : String) {opener : Nat}
    (hopener : 0 < opener) (closer : List Char) (pos : Nat) {text : List Char} (htext : text ≠ []) :
    0 < (delimited kind style what opener closer pos text).1.length := by
  unfold delimited
  split
  · simp only
    omega
  · exact List.length_pos_iff.mpr htext

theorem Agrees.comment (hc : (c == '/' && rest.head? == some '*') = true) (s : LexState)
    (pos : Nat) :
    Agrees pos (c :: rest)
      ⟨[(delimited .comment "comment" "comment" 2 ['*', '/'] pos (c :: rest)).1], s,
        (delimited .comment "comment" "comment" 2 ['*', '/'] pos (c :: rest)).2⟩ := by
  refine Agrees.same (delimited .comment "comment" "comment" 2 ['*', '/'] pos (c :: rest)).1.style
    (delimited_length_pos _ _ _ Nat.two_pos _ pos (List.cons_ne_nil _ _)) (List.cons_ne_nil _ _) ?_
  simp only [scanStructural, hc, if_true]

theorem whitespace?_agrees {l : Lexeme} (h : whitespace? (c :: rest) = some l) (s : LexState)
    (pos : Nat) : Agrees pos (c :: rest) ⟨[l], s, []⟩ := by
  unfold whitespace? at h
  simp only at h
  split at h
  · rename_i hspace
    have hstop := not_stop_of_isSpace hspace
    rw [← Option.some.inj h]
    exact Agrees.filler s pos rfl (stepsOver_of_not_stop hstop rest)
      (SteppedOver.head rfl hstop (SteppedOver.countWhile not_stop_of_isSpace rest))
  split at h
  · rename_i hnewline
    rw [beq_iff_eq] at hnewline
    subst hnewline
    rw [← Option.some.inj h]
    exact Agrees.one s pos rfl rfl (stepsOver_of_not_stop (by decide) rest)
  split at h
  · rename_i hreturn
    rw [beq_iff_eq] at hreturn
    subst hreturn
    rw [← Option.some.inj h]
    refine Agrees.filler s pos rfl (stepsOver_of_not_stop (by decide) rest) ?_
    by_cases hfeed : (rest.head? == some '\n') = true
    · simp only [hfeed, if_true]
      rw [beq_iff_eq] at hfeed
      exact SteppedOver.head (n := 1) rfl (by decide) (SteppedOver.head (n := 0) hfeed (by decide) trivial)
    · simp only [hfeed, if_false, Bool.false_eq_true]
      exact SteppedOver.head (n := 0) rfl (by decide) trivial
  · exact absurd h (by simp)

theorem scanAtRule_agrees (s : LexState) (pos : Nat) :
    Agrees pos ('@' :: rest) (scanAtRule s rest) := by
  have hat := stepsOver_of_not_stop (c := '@') (by decide) rest
  refine Agrees.ite (fun _ => Agrees.one s pos rfl rfl hat) fun _ => ?_
  exact Agrees.filler _ pos rfl hat
    (SteppedOver.head rfl (by decide) (SteppedOver.countWhile not_stop_of_isNameChar rest))

theorem scanColon_agrees (s : LexState) (pos : Nat) :
    Agrees pos (':' :: rest) (scanColon s rest) := by
  have hcolon := stepsOver_of_not_stop (c := ':') (by decide) rest
  refine Agrees.ite (fun _ => ?_) fun _ => Agrees.one _ pos rfl rfl hcolon
  refine Agrees.filler s pos rfl hcolon ?_
  by_cases hdouble : (rest.head? == some ':') = true
  · simp only [hdouble, if_true]
    rw [beq_iff_eq] at hdouble
    rw [Nat.add_assoc 1 1]
    refine SteppedOver.head rfl (by decide) (SteppedOver.head hdouble (by decide) ?_)
    rw [← List.drop_one]
    exact SteppedOver.countWhile not_stop_of_isNameChar _
  · simp only [hdouble, if_false, Bool.false_eq_true]
    exact SteppedOver.head rfl (by decide) (SteppedOver.countWhile not_stop_of_isNameChar _)

theorem scanHash_agrees (s : LexState) (pos : Nat) :
    Agrees pos ('#' :: rest) (scanHash s rest) := by
  have hhash := stepsOver_of_not_stop (c := '#') (by decide) rest
  have hunknown : Agrees pos ('#' :: rest) ⟨[Lexeme.unknown], s, []⟩ :=
    Agrees.one s pos rfl rfl hhash
  unfold scanHash
  simp only
  split
  · split
    · exact hunknown
    · exact Agrees.filler s pos rfl hhash
        (SteppedOver.head rfl (by decide) (SteppedOver.countWhile not_stop_of_isNameChar rest))
  · split
    · exact Agrees.filler s pos rfl hhash
        (SteppedOver.head rfl (by decide) (SteppedOver.countWhile not_stop_of_isHexDigit rest))
    · exact hunknown

theorem scanBang_agrees (s : LexState) (pos : Nat) :
    Agrees pos ('!' :: rest) (scanBang s rest) := by
  have hbang := stepsOver_of_not_stop (c := '!') (by decide) rest
  refine Agrees.ite (fun _ => ?_) fun _ => Agrees.one s pos rfl rfl hbang
  exact Agrees.filler s pos rfl hbang
    (SteppedOver.head rfl (by decide) (SteppedOver.countWhile not_stop_of_isNameChar rest))

/-- What is stepped over on its own is stepped over before anything that does not make a
comment of its last character. -/
theorem SteppedOver.of_stepsOverAll {n : Nat} {text : List Char} (h : stepsOverAll (text.take n) = true)
    (hnext : (text.drop n).head? ≠ some '*') : SteppedOver n text := by
  induction n generalizing text with
  | zero => exact trivial
  | succ n ih =>
      cases text with
      | nil => exact trivial
      | cons c rest =>
          rw [List.take_succ_cons, stepsOverAll, Bool.and_eq_true] at h
          rw [List.drop_succ_cons] at hnext
          refine ⟨?_, ih h.2 hnext⟩
          have hfirst := h.1
          unfold stepsOver at hfirst ⊢
          cases n with
          | zero =>
              rw [List.drop_zero] at hnext
              have hhead : (rest.head? == some '*') = false := by
                rw [beq_eq_false_iff_ne]
                exact hnext
              simpa [hhead] using hfirst
          | succ n =>
              cases rest with
              | nil => exact hfirst
              | cons d rest => exact hfirst

theorem urlStop_head {text : List Char} :
    (text.drop (countWhile (fun c => !isUrlStop c) text)).head? ≠ some '*' := by
  intro h
  have hdrop : text.drop (countWhile (fun c => !isUrlStop c) text)
      = text.dropWhile fun c => !isUrlStop c := by
    have htake : ((text.takeWhile fun c => !isUrlStop c) ++ text.dropWhile fun c => !isUrlStop c).drop
        (text.takeWhile fun c => !isUrlStop c).length = text.dropWhile fun c => !isUrlStop c :=
      List.drop_left
    rwa [List.takeWhile_append_dropWhile] at htake
  rw [hdrop] at h
  have hstop := List.head?_dropWhile_not (fun c => !isUrlStop c) text
  rw [h] at hstop
  exact absurd hstop (by decide)

/-- The address in `url(…)`, if it is plain. -/
theorem urlBody_shows (pos : Nat) (text : List Char)
    (h : ∀ t ∈ Lexeme.cut pos text (urlBody text), isPlainText t = true) :
    Shows pos text (urlBody text) [] := by
  unfold urlBody at h ⊢
  simp only at h ⊢
  cases hhead : (text.drop (countWhile isSpace text)).head? with
  | none => exact Shows.nil pos text
  | some c =>
      simp only [hhead] at h ⊢
      split
      · exact Shows.nil pos text
      · rename_i hquote
        rw [if_neg hquote] at h
        have haddress (pos : Nat) (text : List Char) (hhead : text.head? = some c)
            (hplain : ∀ t ∈ Lexeme.cut pos text
              [{ kind := .string, length := countWhile (fun c => !isUrlStop c) text
                 style := "string" }], isPlainText t = true) :
            Shows pos text [{ kind := .string
                              length := countWhile (fun c => !isUrlStop c) text
                              style := "string" }] [] := by
          have hthis := hplain _ (by rw [Lexeme.cut]; exact List.mem_cons_self)
          refine Shows.filler rfl pos (SteppedOver.of_stepsOverAll ?_ urlStop_head)
          simp only [isPlainText, Lexeme.token, String.toList_ofList] at hthis
          generalize countWhile (fun c => !isUrlStop c) text = n at hthis
          cases text with
          | nil => cases n <;> rfl
          | cons d rest =>
              rw [List.head?_cons, Option.some.injEq] at hhead
              subst hhead
              cases n with
              | zero => rfl
              | succ n =>
                  have hd : d ≠ '"' ∧ d ≠ '\'' := by
                    simp only [Bool.or_eq_true, beq_iff_eq, not_or] at hquote
                    exact hquote.1
                  simpa [hd.1, hd.2] using hthis
        by_cases hspaces : countWhile isSpace text = 0
        · rw [if_pos hspaces, List.nil_append] at h ⊢
          rw [hspaces, List.drop_zero] at h hhead ⊢
          exact haddress pos text hhead h
        · rw [if_neg hspaces] at h ⊢
          refine (Shows.filler rfl pos
            (SteppedOver.countWhile not_stop_of_isSpace text)).after_filler ?_
          refine haddress _ _ hhead fun t ht => h t ?_
          exact List.mem_cons_of_mem _ ht

/-- A called function, with the address after it if there is one. -/
theorem called_shows {later : List Char} {ls : List Lexeme} (hc : isStructuralStop c = false)
    (pos : Nat) (hlater : (c :: rest).drop (1 + nameLength rest) = '(' :: later)
    (h : ∀ pos, (∀ t ∈ Lexeme.cut pos later ls, isPlainText t = true) → Shows pos later ls [])
    (hplain : ∀ t ∈ Lexeme.cut pos (c :: rest)
      ({ kind := .function, length := 1 + nameLength rest, style := "function" }
        :: mark .parenOpen :: ls), isPlainText t = true) :
    Shows pos (c :: rest)
      ({ kind := .function, length := 1 + nameLength rest, style := "function" }
        :: mark .parenOpen :: ls) [] := by
  have hopen (pos : Nat) : Shows pos ('(' :: later) [mark .parenOpen] [] :=
    Shows.same (l := mark .parenOpen) "" Nat.zero_lt_one (List.cons_ne_nil _ _)
      (scanStructural_delimiter rfl _)
  refine (Shows.filler rfl pos (word_steppedOver hc)).after_filler ?_
  simp only [hlater]
  refine (hopen _).append (h _ fun t ht => hplain t ?_)
  rw [Lexeme.cut, Lexeme.cut]
  simp only [hlater]
  exact List.mem_cons_of_mem _ (List.mem_cons_of_mem _ ht)

theorem wordKind_filler (s : LexState) (word : List Char) :
    (wordKind s word).1.isStructural = false := by
  unfold wordKind
  simp only
  repeat' split
  all_goals rfl

theorem scanWord_agrees (hc : isStructuralStop c = false) (s : LexState) (pos : Nat) :
    Agrees pos (c :: rest) (scanWord s (c :: rest)) := by
  unfold scanWord
  refine Agrees.ite (fun hparen => ?_) fun _ => ?_
  · intro hplain
    rw [beq_iff_eq] at hparen
    obtain ⟨later, hlater⟩ : ∃ later, (c :: rest).drop (1 + nameLength rest) = '(' :: later := by
      rw [List.head?_eq_some_iff] at hparen
      exact hparen
    have hpieces (ls : List Lexeme) (s : LexState) : Scan.pieces
        ⟨{ kind := .function, length := 1 + nameLength rest, style := "function" }
          :: mark .parenOpen :: ls, s, []⟩
        = { kind := .function, length := 1 + nameLength rest, style := "function" }
          :: mark .parenOpen :: ls := by
      rw [Scan.pieces, if_neg]
      simp only [Lexeme.width]
      omega
    rw [List.tail_cons, hpieces] at hplain ⊢
    refine called_shows hc pos hlater ?_ hplain
    intro pos hplain
    rw [hlater, List.tail_cons] at hplain ⊢
    by_cases hurl : (Text.lowerChars ((c :: rest).take (1 + nameLength rest))
        == "url".toList) = true
    · rw [if_pos hurl] at hplain ⊢
      exact urlBody_shows _ _ hplain
    · rw [if_neg hurl]
      exact Shows.nil _ _
  · exact Agrees.filler s pos (wordKind_filler s _) (stepsOver_of_not_stop hc rest) (word_steppedOver hc)

theorem scanInStatement_agrees (hcomment : (c == '/' && rest.head? == some '*') = false)
    (hdelimiter : delimiter? c = none) (s : LexState) (pos : Nat) :
    Agrees pos (c :: rest) (scanInStatement s pos c rest) := by
  unfold scanInStatement
  refine Agrees.ite (fun hquote => Agrees.quoted hquote s pos) fun hquote => ?_
  have hfirst : stepsOver c rest = true := by
    rw [Bool.not_eq_true, Bool.or_eq_false_iff] at hquote
    simp [stepsOver, hdelimiter, hcomment, bne, hquote.1, hquote.2]
  have hname {n : Nat} (hc : isStructuralStop c = false) (h : SteppedOver n rest) :
      SteppedOver (1 + n) (c :: rest) := SteppedOver.head rfl hc h
  refine Agrees.ite (fun _ => Agrees.one s pos rfl rfl hfirst) fun _ => ?_
  refine Agrees.ite (fun h => ?_) fun _ => ?_
  · rw [beq_iff_eq] at h
    subst h
    exact scanAtRule_agrees s pos
  refine Agrees.ite (fun h => ?_) fun _ => ?_
  · rw [beq_iff_eq] at h
    subst h
    exact scanColon_agrees s pos
  refine Agrees.ite (fun h => ?_) fun _ => ?_
  · rw [beq_iff_eq] at h
    subst h
    exact scanHash_agrees s pos
  refine Agrees.ite (fun h => ?_) fun _ => ?_
  · rw [beq_iff_eq] at h
    subst h
    exact scanBang_agrees s pos
  refine Agrees.ite (fun _ => ?_) fun _ => ?_
  · refine Agrees.filler s pos ?_ hfirst (number_steppedOver _)
    unfold number
    simp only
    repeat' split
    all_goals rfl
  refine Agrees.ite (fun h => ?_) fun _ => ?_
  · rw [Bool.and_eq_true, beq_iff_eq, beq_iff_eq] at h
    refine Agrees.filler s pos rfl hfirst ?_
    rw [h.1]
    rw [Nat.add_assoc 1 1]
    exact SteppedOver.head rfl (by decide) (SteppedOver.head h.2 (by decide)
      (SteppedOver.countWhile not_stop_of_isNameChar _))
  refine Agrees.ite (fun h => ?_) fun _ => ?_
  · rw [Bool.and_eq_true, Bool.and_eq_true, beq_iff_eq] at h
    refine Agrees.filler s pos rfl hfirst ?_
    rw [h.1.1]
    exact SteppedOver.head rfl (by decide) (SteppedOver.countWhile not_stop_of_isNameChar _)
  refine Agrees.ite (fun h => ?_) fun _ => ?_
  · refine scanWord_agrees ?_ s pos
    rw [Bool.or_eq_true, Bool.and_eq_true, beq_iff_eq] at h
    rcases h with h | ⟨rfl, -⟩
    · exact not_stop_of_isNameStart h
    · decide
  refine Agrees.ite (fun _ => Agrees.one s pos rfl rfl hfirst) fun _ => ?_
  intro _
  exact Shows.filler rfl pos ⟨hfirst, trivial⟩

theorem scanRich_agrees (s : LexState) (pos : Nat) {text : List Char} (htext : text ≠ []) :
    Agrees pos text (scanRich s pos text) := by
  cases text with
  | nil => exact absurd rfl htext
  | cons c rest =>
      unfold scanRich
      cases hspace : whitespace? (c :: rest) with
      | some l => exact whitespace?_agrees hspace s pos
      | none =>
          refine Agrees.ite (fun h => Agrees.comment h s pos) fun hcomment => ?_
          refine Agrees.ite (fun h => ?_) fun _ => ?_
          · rw [beq_iff_eq] at h
            subst h
            exact Agrees.delimiter rfl _ pos
          refine Agrees.ite (fun h => ?_) fun _ => ?_
          · rw [beq_iff_eq] at h
            subst h
            exact Agrees.delimiter rfl _ pos
          refine Agrees.ite (fun h => ?_) fun _ => ?_
          · rw [beq_iff_eq] at h
            subst h
            exact Agrees.one _ pos rfl rfl (stepsOver_of_not_stop (by decide) rest)
          cases hdelimiter : delimiter? c with
          | some kind => exact Agrees.delimiter hdelimiter s pos
          | none =>
              exact scanInStatement_agrees (by simpa using hcomment) hdelimiter _ pos

/-! ### Runs of both kinds -/

/-- **Where addresses are plain, both runs see the same boundaries and note the same faults.** -/
theorem lex_agrees (pos : Nat) (text : List Char)
    (h : ∀ t ∈ (lex .rich pos text).tokens, isPlainText t = true) :
    boundaries (lex .rich pos text).tokens = (lex .structural pos text).tokens.map Token.bare
      ∧ (lex .rich pos text).faults = (lex .structural pos text).faults := by
  suffices hrun : ∀ s, (∀ t ∈ (richScanner.run 0 s pos text).tokens, isPlainText t = true) →
      seen pos text = boundaries (richScanner.run 0 s pos text).tokens
        ∧ noted pos text = (richScanner.run 0 s pos text).faults by
    obtain ⟨htokens, hfaults⟩ := hrun {} h
    exact ⟨htokens.symm, hfaults.symm⟩
  intro s
  clear h
  induction s, pos, text using richScanner.run_induction with
  | done s pos => exact fun _ => ⟨rfl, rfl⟩
  | step s pos text htext rest ih =>
      intro hplain
      have hpieces := scanRich_agrees s pos htext fun t ht => hplain t (List.mem_append_left _ ht)
      obtain ⟨htokens, hfaults⟩ := ih fun t ht => hplain t (List.mem_append_right _ ht)
      refine ⟨?_, ?_⟩
      · rw [hpieces.tokens]
        simp only [boundaries, List.filter_append, List.map_append] at htokens ⊢
        rw [← htokens]
        rfl
      · rw [hpieces.faults, ← hfaults]
        rfl

/-! ### Tokens that stylesheets do not have -/

/-- Whether tokens of this kind stand in other languages only: comments that a line break
ends, and end tags. -/
def isForeign : TokenKind → Bool
  | .lineComment | .tagClose => true
  | _ => false

/-- No piece of the scan is foreign to stylesheets. -/
def NoForeign (scan : Scan LexState) : Prop :=
  ∀ l ∈ scan.lexemes, isForeign l.kind = false

theorem NoForeign.ite {p : Prop} [Decidable p] {a b : Scan LexState} (ha : NoForeign a)
    (hb : NoForeign b) : NoForeign (if p then a else b) := by
  by_cases h : p
  · rw [if_pos h]; exact ha
  · rw [if_neg h]; exact hb

theorem NoForeign.single {l : Lexeme} (h : isForeign l.kind = false) (s : LexState)
    (faults : List Fault) : NoForeign ⟨[l], s, faults⟩ := by
  intro m hm
  rw [List.mem_singleton.mp hm]
  exact h

theorem quotedLiteral_noForeign (quote : Char) (pos : Nat) (rest : List Char) :
    isForeign (quotedLiteral .string "string" "string" false quote pos rest).1.kind = false := by
  unfold quotedLiteral
  grind [isForeign]

theorem scanHash_noForeign (s : LexState) (rest : List Char) : NoForeign (scanHash s rest) := by
  unfold scanHash Lexeme.unknown NoForeign
  grind [isForeign]

theorem scanWord_noForeign (s : LexState) (text : List Char) : NoForeign (scanWord s text) := by
  unfold scanWord urlBody wordKind mark NoForeign
  grind [isForeign]

theorem number_noForeign (text : List Char) : isForeign (number text).kind = false := by
  unfold number
  grind [isForeign]

theorem scanInStatement_noForeign (s : LexState) (pos : Nat) (c : Char) (rest : List Char) :
    NoForeign (scanInStatement s pos c rest) :=
  .ite (.single (quotedLiteral_noForeign c pos rest) _ _) <| .ite (.single rfl _ _) <|
  .ite (.ite (.single rfl _ _) (.single rfl _ _)) <|
  .ite (.ite (.single rfl _ _) (.single rfl _ _)) <| .ite (scanHash_noForeign _ _) <|
  .ite (.ite (.single rfl _ _) (.single rfl _ _)) <| .ite (.single (number_noForeign _) _ _) <|
  .ite (.single rfl _ _) <| .ite (.single rfl _ _) <| .ite (scanWord_noForeign _ _) <|
  .ite (.single rfl _ _) (by simp [NoForeign])

theorem scanRich_noForeign (s : LexState) (pos : Nat) (text : List Char) :
    NoForeign (scanRich s pos text) := by
  cases text with
  | nil => simp [scanRich, NoForeign]
  | cons c rest =>
      have hstatement := scanInStatement_noForeign (s.begin (c :: rest)) pos c rest
      unfold scanRich whitespace? delimited delimiter?
      unfold NoForeign mark at *
      grind [isForeign]

theorem lex_noForeign (pos : Nat) (text : List Char) :
    ∀ t ∈ (lex .rich pos text).tokens, isForeign t.kind = false := by
  intro t ht
  obtain ⟨s, pos, text, -, ht⟩ := richScanner.exists_of_mem_run ht
  obtain ⟨l, hl, _, _, rfl⟩ := Lexeme.exists_of_mem_cut ht
  rcases Scan.mem_pieces hl with hl | rfl
  · exact scanRich_noForeign s pos text l hl
  · rfl

end SourceView.Stylesheet
