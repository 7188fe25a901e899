/-
Unquoted addresses, where the two runs over a stylesheet part.

A rich run takes the address in `url(…)` whole, and a structural run looks into it.  Where
the address is plain that makes no difference.  Where it is not, the structural run sees a
boundary inside of it, at an offset at which the rich run has no token of its own, and the
two sequences differ from there on.

A quote in an address is set aside.  It opens a literal for the structural run, which may
end anywhere, inside of the address or far behind it.
-/
import SourceView.Proofs.Stylesheet.Boundaries
import SourceView.Proofs.Lexing.Runs

namespace SourceView

/-- What a token is and where it lies. -/
def Token.extent (t : Token) : TokenKind × Int × Int :=
  (t.kind, t.start, t.stop)

theorem Parsing.extents_boundaries (ts : List Token) :
    (boundaries ts).map Token.extent = (ts.filter (·.kind.isStructural)).map Token.extent := by
  rw [boundaries, List.map_map]
  rfl

end SourceView

namespace SourceView.Stylesheet

open Lexing Parsing

/-! ### Addresses -/

/-- Whether the token is an address, a string that no quote opens. -/
def isAddress (t : Token) : Bool :=
  t.kind == .string && t.value.toList.head? != some '"' && t.value.toList.head? != some '\''

theorem isPlainText_eq (t : Token) :
    isPlainText t = (!isAddress t || stepsOverAll t.value.toList) := by
  simp only [isPlainText, isAddress, bne, Bool.not_and, Bool.not_not]

/-- Whether a quote stands in the token. -/
def holdsQuote (t : Token) : Bool :=
  t.value.toList.any fun c => c == '"' || c == '\''

/-- The piece that an address of `n` characters is. -/
def address (n : Nat) : Lexeme :=
  { kind := .string, length := n, style := "string" }

/-- The pieces hold no address, or one behind pieces that show what a structural run sees. -/
inductive Addressed (pos : Nat) (text : List Char) (pieces : List Lexeme) : Prop
  | nowhere (h : ∀ t ∈ Lexeme.cut pos text pieces, isAddress t = false)
  | last (ls : List Lexeme) (n : Nat) (hpieces : pieces = ls ++ [address n])
      (hls : ∀ l ∈ ls, (l.kind == .string) = false) (hshows : Shows pos text ls [])

namespace Addressed

variable {pos : Nat} {text : List Char} {scan : Scan LexState}

/-- Pieces that are no strings are no addresses. -/
theorem of_kinds (h : ∀ l ∈ scan.lexemes, (l.kind == .string) = false) :
    Addressed pos text scan.pieces := by
  refine .nowhere fun t ht => ?_
  obtain ⟨l, hl, _, _, rfl⟩ := Lexeme.exists_of_mem_cut ht
  have hkind : (l.kind == .string) = false := by
    rcases Scan.mem_pieces hl with hl | rfl
    · exact h l hl
    · rfl
  simp [isAddress, Lexeme.token, hkind]

theorem single {l : Lexeme} (h : (l.kind == .string) = false) (s : LexState) (faults : List Fault) :
    Addressed pos text (Scan.pieces ⟨[l], s, faults⟩) :=
  of_kinds fun m hm => by rwa [List.mem_singleton.mp hm]

theorem ite {p : Prop} [Decidable p] {a b : Scan LexState} (ha : p → Addressed pos text a.pieces)
    (hb : Addressed pos text b.pieces) : Addressed pos text (if p then a else b).pieces := by
  by_cases h : p
  · rw [if_pos h]
    exact ha h
  · rw [if_neg h]
    exact hb

end Addressed

/-! ### Looks of a rich run -/

variable {c : Char} {rest : List Char}

/-- A literal begins with the quote that opens it. -/
theorem quotedLiteral_addressed (hc : (c == '"' || c == '\'') = true) (s : LexState) (pos : Nat) :
    let literal := quotedLiteral .string "string" "string" false c pos rest
    Addressed pos (c :: rest) (Scan.pieces ⟨[literal.1], s, literal.2⟩) := by
  intro literal
  have hpos : 0 < literal.1.length := quotedLiteral_length_pos ..
  rw [Scan.pieces_single hpos]
  refine .nowhere fun t ht => ?_
  rw [Lexeme.cut, Lexeme.cut, List.mem_singleton] at ht
  obtain ⟨n, hn⟩ := Nat.exists_eq_add_one_of_ne_zero (Nat.ne_of_gt hpos)
  rw [Bool.or_eq_true, beq_iff_eq, beq_iff_eq] at hc
  rw [ht, isAddress, Lexeme.token, String.toList_ofList, hn, List.take_succ_cons]
  rcases hc with rfl | rfl <;> simp

/-- The pieces of an address in `url(…)` are the spaces before it and the address. -/
theorem urlBody_cases (text : List Char) :
    urlBody text = []
      ∨ ∃ gap n, urlBody text = gap ++ [address n] ∧ (∀ l ∈ gap, l.kind = .whitespace)
        ∧ ∀ pos, Shows pos text gap [] := by
  unfold urlBody
  simp only
  cases (text.drop (countWhile isSpace text)).head? with
  | none => exact Or.inl rfl
  | some c =>
      simp only
      split
      · exact Or.inl rfl
      · refine Or.inr ⟨_, _, rfl, ?_, fun pos => ?_⟩
        · split <;> simp
        · split
          · exact Shows.nil pos text
          · exact Shows.filler rfl pos (SteppedOver.countWhile not_stop_of_isSpace text)

theorem wordKind_ne_string (s : LexState) (word : List Char) :
    ((wordKind s word).1 == .string) = false := by
  unfold wordKind
  grind

theorem scanWord_addressed (hc : isStructuralStop c = false) (s : LexState) (pos : Nat) :
    Addressed pos (c :: rest) (scanWord s (c :: rest)).pieces := by
  unfold scanWord
  refine Addressed.ite (fun hparen => ?_) (.single (wordKind_ne_string s _) _ _)
  rw [beq_iff_eq, List.head?_eq_some_iff] at hparen
  obtain ⟨later, hlater⟩ : ∃ later, (c :: rest).drop (1 + nameLength rest) = '(' :: later := hparen
  have hfunction (ls : List Lexeme) (h : ∀ l ∈ ls, (l.kind == .string) = false) :
      ∀ l ∈ { kind := .function, length := 1 + nameLength rest, style := "function" }
        :: mark .parenOpen :: ls, (l.kind == .string) = false := by
    intro l hl
    rw [List.mem_cons, List.mem_cons] at hl
    rcases hl with rfl | rfl | hl
    · rfl
    · rfl
    · exact h l hl
  by_cases hurl : (Text.lowerChars ((c :: rest).take (1 + nameLength rest))
      == "url".toList) = true
  · rw [List.tail_cons, if_pos hurl, hlater, List.tail_cons]
    rcases urlBody_cases later with hbody | ⟨gap, n, hbody, hgap, hshows⟩
    · rw [hbody]
      exact .of_kinds (hfunction [] (by simp))
    · rw [hbody]
      have hnone : ∀ l ∈ gap, (l.kind == .string) = false := fun l hl => by rw [hgap l hl]; rfl
      refine .last ({ kind := .function, length := 1 + nameLength rest, style := "function" }
        :: mark .parenOpen :: gap) n ?_ (hfunction gap hnone) ?_
      · rw [Scan.pieces, if_neg]
        · rfl
        · simp only [Lexeme.width]
          omega
      · refine called_shows hc pos hlater (fun pos _ => hshows pos) fun t ht => ?_
        obtain ⟨l, hl, _, _, rfl⟩ := Lexeme.exists_of_mem_cut ht
        simp [isPlainText, Lexeme.token, bne, hfunction gap hnone l hl]
  · rw [List.tail_cons, if_neg hurl]
    exact .of_kinds (hfunction [] (by simp))

theorem scanHash_addressed (s : LexState) (pos : Nat) (text : List Char) :
    Addressed pos text (scanHash s rest).pieces := by
  refine .of_kinds ?_
  unfold scanHash Lexeme.unknown
  grind

theorem number_ne_string (text : List Char) : ((number text).kind == .string) = false := by
  unfold number
  grind

theorem scanInStatement_addressed (s : LexState) (pos : Nat) :
    Addressed pos (c :: rest) (scanInStatement s pos c rest).pieces := by
  unfold scanInStatement
  refine .ite (fun hc => quotedLiteral_addressed hc s pos) <| .ite (fun _ => .single rfl _ _) <|
    .ite (fun _ => .ite (fun _ => .single rfl _ _) (.single rfl _ _)) <|
    .ite (fun _ => .ite (fun _ => .single rfl _ _) (.single rfl _ _)) <|
    .ite (fun _ => scanHash_addressed ..) <|
    .ite (fun _ => .ite (fun _ => .single rfl _ _) (.single rfl _ _)) <|
    .ite (fun _ => .single (number_ne_string _) _ _) <| .ite (fun _ => .single rfl _ _) <|
    .ite (fun _ => .single rfl _ _) <| .ite (fun hc => scanWord_addressed ?_ s pos) <|
    .ite (fun _ => .single rfl _ _) (.of_kinds (by simp))
  rw [Bool.or_eq_true, Bool.and_eq_true, beq_iff_eq] at hc
  rcases hc with hc | ⟨rfl, -⟩
  · exact not_stop_of_isNameStart hc
  · decide

theorem scanRich_addressed (s : LexState) (pos : Nat) (text : List Char) :
    Addressed pos text (scanRich s pos text).pieces := by
  cases text with
  | nil => exact .of_kinds (by simp [scanRich])
  | cons c rest =>
      unfold scanRich
      cases hspace : whitespace? (c :: rest) with
      | some l =>
          refine .single ?_ _ _
          unfold whitespace? at hspace
          grind
      | none =>
          refine .ite (fun _ => .single ?_ _ _) <| .ite (fun _ => .single rfl _ _) <|
            .ite (fun _ => .single rfl _ _) <| .ite (fun _ => .single rfl _ _) ?_
          · split <;> rfl
          cases hdelimiter : delimiter? c with
          | some kind =>
              refine .single ?_ _ _
              show (kind == .string) = false
              unfold delimiter? at hdelimiter
              grind
          | none => exact scanInStatement_addressed _ pos

/-! ### Boundaries inside of an address -/

/-- What is stepped over stays so when the text behind it is cut short. -/
theorem stepsOver_take {c : Char} {rest : List Char} (h : stepsOver c rest = true) (n : Nat) :
    stepsOver c (rest.take n) = true := by
  unfold stepsOver at h ⊢
  cases n with
  | zero =>
      rw [Bool.and_eq_true] at h ⊢
      exact ⟨h.1, by simp⟩
  | succ n => cases rest <;> exact h

/-- What a structural run does not step over and is no quote is a boundary. -/
theorem seen_of_not_stepsOver {c : Char} {rest : List Char} (h : stepsOver c rest = false)
    (hquote : c ≠ '"' ∧ c ≠ '\'') (pos : Nat) :
    ∃ t ts, seen pos (c :: rest) = t :: ts ∧ t.start = pos := by
  have hshows := shows_structural pos (List.cons_ne_nil c rest)
  obtain ⟨l, faults, hscan, hkind, hlength⟩ : ∃ l faults,
      scanStructural () pos (c :: rest) = ⟨[l], (), faults⟩ ∧ l.kind.isStructural = true
        ∧ 0 < l.length := by
    by_cases hcomment : (c == '/' && rest.head? == some '*') = true
    · refine ⟨_, _, by simp only [scanStructural, hcomment, if_true]; rfl, ?_,
        delimited_length_pos _ _ _ Nat.two_pos _ pos (List.cons_ne_nil c rest)⟩
      unfold delimited
      split <;> rfl
    · cases hdelimiter : delimiter? c with
      | none => simp [stepsOver, hdelimiter, hquote, hcomment] at h
      | some kind =>
          refine ⟨_, _, scanStructural_delimiter hdelimiter pos, ?_, Nat.one_pos⟩
          show kind.isStructural = true
          unfold delimiter? at hdelimiter
          grind [TokenKind.isStructural]
  rw [hscan, Scan.pieces_single hlength] at hshows
  have hcut : boundaries (Lexeme.cut pos (c :: rest) [l]) = [(l.token pos (c :: rest)).bare] :=
    boundaries_cons_boundary hkind []
  exact ⟨_, _, by rw [hshows.tokens, hcut]; rfl, rfl⟩

/-- Inside of an address that is not plain a structural run sees a boundary. -/
theorem seen_of_address {n : Nat} {text : List Char} (h : stepsOverAll (text.take n) = false)
    (hquotes : (text.take n).any (fun c => c == '"' || c == '\'') = false) (pos : Nat) :
    ∃ t ts, seen pos text = t :: ts ∧ t.start < (pos + (text.take n).length : Nat) := by
  induction n generalizing text pos with
  | zero => exact absurd h (by simp [stepsOverAll])
  | succ n ih =>
      cases text with
      | nil => exact absurd h (by simp [stepsOverAll])
      | cons c rest =>
          rw [List.take_succ_cons] at h hquotes ⊢
          rw [List.any_cons, Bool.or_eq_false_iff, Bool.or_eq_false_iff, beq_eq_false_iff_ne,
            beq_eq_false_iff_ne] at hquotes
          cases hfirst : stepsOver c rest with
          | true =>
              rw [stepsOverAll, stepsOver_take hfirst, Bool.true_and] at h
              obtain ⟨t, ts, hseen, hstart⟩ := ih h hquotes.2 (pos + 1)
              refine ⟨t, ts, (seen_of_stepsOver hfirst pos).1.trans hseen, ?_⟩
              rw [List.length_cons]
              omega
          | false =>
              obtain ⟨t, ts, hseen, hstart⟩ := seen_of_not_stepsOver hfirst hquotes.1 pos
              refine ⟨t, ts, hseen, ?_⟩
              rw [hstart, List.length_cons]
              omega

/-! ### Runs -/

/-- Where an address is not plain, the runs differ: the first boundary that the structural run
sees behind what both agree on lies inside of the address, and the next token of the rich run
lies behind it. -/
theorem extents_ne_of_address {ls : List Lexeme} {n pos : Nat} {text : List Char} {ts : List Token}
    (hshows : Shows pos text ls [])
    (hplain : isPlainText ((address n).token (pos + (text.take (Lexeme.width ls)).length)
      (text.drop (Lexeme.width ls))) = false)
    (hquotes : holdsQuote ((address n).token (pos + (text.take (Lexeme.width ls)).length)
      (text.drop (Lexeme.width ls))) = false)
    (hbehind : ∀ t ∈ ts, ((pos + (text.take (Lexeme.width (ls ++ [address n]))).length : Nat) : Int)
      ≤ t.start) :
    (seen pos text).map Token.extent
      ≠ (boundaries (Lexeme.cut pos text (ls ++ [address n]) ++ ts)).map Token.extent := by
  have hwidth : Lexeme.width (ls ++ [address n]) = Lexeme.width ls + n := by
    rw [Lexeme.width_append]
    rfl
  rw [hwidth, List.take_add, List.length_append, ← Nat.add_assoc] at hbehind
  have hcut : boundaries (Lexeme.cut pos text (ls ++ [address n]) ++ ts)
      = boundaries (Lexeme.cut pos text ls) ++ boundaries ts := by
    rw [Lexeme.cut_append, List.append_assoc]
    simp only [boundaries, List.filter_append, List.map_append]
    rfl
  rw [hshows.tokens, hcut, List.map_append, List.map_append]
  intro heq
  replace heq := List.append_cancel_left heq
  simp only [isPlainText, holdsQuote, Lexeme.token, String.toList_ofList] at hplain hquotes
  rw [Bool.or_eq_false_iff, show (address n).length = n from rfl] at hplain
  rw [show (address n).length = n from rfl] at hquotes
  obtain ⟨t, us, hseen, hstart⟩ := seen_of_address hplain.2 hquotes _
  rw [hseen, extents_boundaries, List.map_cons] at heq
  cases hts : ts.filter (·.kind.isStructural) with
  | nil => rw [hts] at heq; cases heq
  | cons u vs =>
      rw [hts, List.map_cons, List.cons.injEq] at heq
      have hsame : t.start = u.start := congrArg (·.2.1) heq.1
      have hu := hbehind u (List.mem_filter.mp (hts ▸ List.mem_cons_self)).1
      omega

/-- Where the runs agree from a look on, an address that it takes is plain. -/
theorem cut_plain_of_extents {s : LexState} {pos : Nat} {text : List Char} {ts : List Token}
    (hquotes : ∀ t ∈ Lexeme.cut pos text (scanRich s pos text).pieces,
      isAddress t = true → holdsQuote t = false)
    (hbehind : ∀ t ∈ ts,
      ((pos + (text.take (Lexeme.width (scanRich s pos text).pieces)).length : Nat) : Int) ≤ t.start)
    (hextents : (seen pos text).map Token.extent
      = (boundaries (Lexeme.cut pos text (scanRich s pos text).pieces ++ ts)).map Token.extent) :
    ∀ t ∈ Lexeme.cut pos text (scanRich s pos text).pieces, isPlainText t = true := by
  intro t ht
  rcases scanRich_addressed s pos text with hnowhere | ⟨ls, n, hpieces, hls, hshows⟩
  · rw [isPlainText_eq, hnowhere t ht]
    rfl
  · rw [hpieces] at hquotes hbehind hextents ht
    have hquote := hquotes t ht
    rw [Lexeme.cut_append, List.mem_append] at ht
    rcases ht with ht | ht
    · obtain ⟨l, hl, _, _, rfl⟩ := Lexeme.exists_of_mem_cut ht
      simp [isPlainText, Lexeme.token, bne, hls l hl]
    · cases hplain : isPlainText t with
      | true => rfl
      | false =>
          have haddress : isAddress t = true := by
            rw [isPlainText_eq, Bool.or_eq_false_iff, Bool.not_eq_false'] at hplain
            exact hplain.1
          rw [Lexeme.cut, Lexeme.cut, List.mem_singleton] at ht
          subst ht
          exact absurd hextents (extents_ne_of_address hshows hplain (hquote haddress) hbehind)

/-- Runs that agree on what bounds something have taken plain addresses only. -/
theorem plain_of_extents (s : LexState) (pos : Nat) (text : List Char) :
    let run := richScanner.run 0 s pos text
    (∀ t ∈ run.tokens, isAddress t = true → holdsQuote t = false) →
    (seen pos text).map Token.extent = (boundaries run.tokens).map Token.extent →
    ∀ t ∈ run.tokens, isPlainText t = true := by
  -- The induction also needs that no token of a run lies before its offset.
  suffices hrun : (∀ t ∈ (richScanner.run 0 s pos text).tokens, (pos : Int) ≤ t.start) ∧
      ((∀ t ∈ (richScanner.run 0 s pos text).tokens, isAddress t = true → holdsQuote t = false) →
        (seen pos text).map Token.extent
          = (boundaries (richScanner.run 0 s pos text).tokens).map Token.extent →
        ∀ t ∈ (richScanner.run 0 s pos text).tokens, isPlainText t = true) from hrun.2
  induction s, pos, text using richScanner.run_induction with
  | done s pos => simp
  | step s pos text htext rest ih =>
      obtain ⟨hbehind, ih⟩ := ih
      refine ⟨fun t ht => ?_, fun hquotes hextents => ?_⟩
      · rcases List.mem_append.mp ht with ht | ht
        · exact (Token.InOrder.mem (Lexeme.cut_tile _ pos text).inOrder t ht).1
        · have := hbehind t ht
          omega
      · have hhere : ∀ t ∈ Lexeme.cut pos text (scanRich s pos text).pieces, isPlainText t = true :=
          cut_plain_of_extents (fun t ht => hquotes t (List.mem_append_left _ ht)) hbehind hextents
        have hrest : (seen (pos + (text.take (Lexeme.width (scanRich s pos text).pieces)).length)
              (text.drop (Lexeme.width (scanRich s pos text).pieces))).map Token.extent
            = (boundaries rest.tokens).map Token.extent := by
          rw [(scanRich_agrees s pos htext hhere).tokens] at hextents
          simp only [boundaries, List.filter_append, List.map_append] at hextents ⊢
          exact List.append_cancel_left hextents
        intro t ht
        rcases List.mem_append.mp ht with ht | ht
        · exact hhere t ht
        · exact ih (fun u hu => hquotes u (List.mem_append_right _ hu)) hrest t ht

end SourceView.Stylesheet

namespace SourceView

open Parsing

/-- **The boundaries of a stylesheet depend on its addresses.**  Where no unquoted address holds
a quote, a structural run sees what bounds something at the same offsets as the rich run if and
only if every address is plain: it holds no delimiter and no start of a comment. -/
theorem Language.stylesheet_boundaries_agree_iff (embed : Bool) (source : List Char) (start : Nat)
    (stop : Option Nat)
    (hquotes : ∀ t ∈ (stylesheet.lex .rich embed source start stop).tokens,
      Stylesheet.isAddress t = true → Stylesheet.holdsQuote t = false) :
    (stylesheet.lex .structural embed source start stop).tokens.map Token.extent
        = ((stylesheet.lex .rich embed source start stop).tokens.filter
          (·.kind.isStructural)).map Token.extent
      ↔ ∀ t ∈ (stylesheet.lex .rich embed source start stop).tokens,
        Stylesheet.isPlainText t = true := by
  let text := boundedText source start stop
  rw [lex_stylesheet] at hquotes
  simp only [lex_stylesheet]
  have hstructural : (Stylesheet.lex .structural start text).tokens.map Token.extent
      = (Stylesheet.seen start text).map Token.extent :=
    (extents_boundaries _).symm
  rw [hstructural, ← extents_boundaries]
  constructor
  · intro hextents
    exact Stylesheet.plain_of_extents {} start text hquotes hextents
  · intro hplain
    have hagree := (Stylesheet.lex_agrees start text hplain).1
    rw [hagree, List.map_map]
    exact extents_boundaries _

/-- An address with a brace in it, which ends the block around it in a structural run. -/
theorem Language.stylesheet_boundaries_differ_in_address :
    let source := "a\x7bb:url(x\x7dy)\x7d".toList
    (∀ t ∈ (stylesheet.lex .rich true source 0 none).tokens,
        Stylesheet.isAddress t = true → Stylesheet.holdsQuote t = false)
      ∧ (stylesheet.lex .structural true source 0 none).tokens.map Token.extent
        ≠ ((stylesheet.lex .rich true source 0 none).tokens.filter
          (·.kind.isStructural)).map Token.extent := by
  intro source
  have hquotes : ∀ t ∈ (stylesheet.lex .rich true source 0 none).tokens,
      Stylesheet.isAddress t = true → Stylesheet.holdsQuote t = false := by
    decide +kernel
  refine ⟨hquotes, fun hagree => ?_⟩
  have hplain := (stylesheet_boundaries_agree_iff true source 0 none hquotes).mp hagree
  exact absurd hplain (by decide +kernel)

end SourceView
