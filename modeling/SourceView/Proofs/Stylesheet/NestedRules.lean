/-
When lexer and grammar take the same statement for a nested rule.

Both ask whether a brace opens before the statement ends.  The lexer asks the characters ahead,
where no token is yet; the grammar asks the tokens.  A brace or a semicolon in a string, in a
comment or in an address is one that only the lexer sees, and a group is one that only the grammar
sees.

Apart from these the two see the same: no other token holds a brace or a semicolon, unless it is
one (`scanRich_allShowDecisive`).  So the first brace or semicolon of the text stands in a token of the
statement that conceals it, or it is what ends the statement.  That gives the answers of both in
terms of the same tokens, `looksNested_iff` and `opensBrace_iff`, and with it the statements on
which they differ.
-/
import SourceView.Proofs.Lexing.Runs
import SourceView.Proofs.Lexing.EmptyTokens
import SourceView.Proofs.Stylesheet.Lookahead

namespace SourceView

/-- Pieces take the text apart. -/
theorem Lexeme.flatMap_cut (pos : Nat) (text : List Char) (ls : List Lexeme) :
    (cut pos text ls).flatMap (·.value.toList) = text.take (width ls) := by
  induction ls generalizing pos text with
  | nil => rfl
  | cons l ls ih =>
      rw [cut, List.flatMap_cons, ih, width, List.take_add, token, String.toList_ofList]

theorem Scanner.flatMap_run {σ : Type} (scanner : Scanner σ) (state : σ) (pos : Nat)
    (text : List Char) : (scanner.run 0 state pos text).tokens.flatMap (·.value.toList) = text := by
  induction state, pos, text using scanner.run_induction with
  | done state pos => rfl
  | step state pos text _ rest ih =>
      rw [List.flatMap_append, Lexeme.flatMap_cut, ih, List.take_append_drop]

namespace Stylesheet

open Lexing

variable {n pos : Nat} {c : Char} {rest text : List Char} {l : Lexeme} {t : Token} {ts : List Token}

/-! ### What a statement is told by -/

/-- Whether `c` opens a block or ends a statement. -/
def isDecisive (c : Char) : Bool :=
  c == '{' || c == ';' || c == '}'

/-- What a token of this kind says by itself. -/
def decisive? : TokenKind → Option Char
  | .blockOpen => some '{'
  | .blockClose => some '}'
  | .semicolon => some ';'
  | _ => none

/-- Whether a token of this kind may hold characters that say nothing: a string or an address, a
comment, and a string that is not finished. -/
def conceals : TokenKind → Bool
  | .string | .comment | .error => true
  | _ => false

/-- The tokens of the statement. -/
def statement (ts : List Token) : List Token :=
  ts.takeWhile fun t => (decisive? t.kind).isNone

/-- The brace or the semicolon behind the statement. -/
def statementEnd? (ts : List Token) : Option Char :=
  ts.findSome? fun t => decisive? t.kind

/-- The first brace or semicolon that a token of the statement conceals. -/
def concealed? (ts : List Token) : Option Char :=
  (((statement ts).filter (conceals ·.kind)).flatMap (·.value.toList)).find? isDecisive

/-- Whether the tokens close the groups that they open, and `depth` groups around them. -/
def closesGroups (depth : Nat) : List Token → Bool
  | [] => depth == 0
  | t :: ts =>
    if opensGroup t.kind then closesGroups (depth + 1) ts
    else if t.kind.isCloser then
      match depth with
      | 0 => false
      | depth + 1 => closesGroups depth ts
    else closesGroups depth ts

/-- The statement ends at a brace that opens, and its groups are closed. -/
def IsRule (ts : List Token) : Prop :=
  statementEnd? ts = some '{' ∧ closesGroups 0 (statement ts) = true

instance (ts : List Token) : Decidable (IsRule ts) :=
  inferInstanceAs (Decidable (_ ∧ _))

/-! ### The answer of the grammar -/

theorem opensBrace_eq (depth : Nat) (ts : List Token) :
    opensBrace depth ts
      = (statementEnd? ts == some '{' && closesGroups depth (statement ts)) := by
  induction ts generalizing depth with
  | nil => rfl
  | cons t ts ih =>
      have hmore (h : t.kind ≠ .blockOpen) (hstop : endsStatement t.kind = false) :
          decisive? t.kind = none := by
        revert h hstop
        cases t.kind <;> decide
      cases part t with
      | brace hbrace => simp [opensBrace, statementEnd?, statement, decisive?, closesGroups, hbrace]
      | stop hbrace hstop hopener =>
          have hends : decisive? t.kind = some '}' ∨ decisive? t.kind = some ';' := by
            revert hstop
            cases t.kind <;> decide
          rcases hends with hends | hends <;> simp [opensBrace, statementEnd?, hbrace, hstop, hends]
      | opener hbrace hstop hopener =>
          simp [opensBrace, statementEnd?, statement, closesGroups, hbrace, hstop, hopener,
            hmore hbrace hstop, ih]
      | closer hbrace hstop hopener hcloser =>
          cases depth <;>
            simp [opensBrace, statementEnd?, statement, closesGroups, hbrace, hstop, hopener,
              hcloser, hmore hbrace hstop, ih]
      | other hbrace hstop hopener hcloser =>
          simp [opensBrace, statementEnd?, statement, closesGroups, hbrace, hstop, hopener,
            hcloser, hmore hbrace hstop, ih]

theorem opensBrace_iff (ts : List Token) : opensBrace 0 ts = true ↔ IsRule ts := by
  rw [opensBrace_eq, Bool.and_eq_true, beq_iff_eq]
  rfl

theorem ruleStarts_append (before ts : List Token) :
    (ruleStarts (before ++ ts)).getD before.length false = opensBrace 0 ts := by
  have hlength : before.length < (ruleStarts (before ++ ts)).length := by
    rw [ruleStarts_eq_tails, List.length_map, List.length_tails, List.length_append]
    omega
  rw [List.getD_eq_getElem?_getD, List.getElem?_eq_getElem hlength]
  simp only [Option.getD_some, ruleStarts_eq_tails, List.getElem_map, List.getElem_tails,
    List.drop_left]

/-! ### Texts that hold nothing decisive -/

/-- None of the first `n` characters of the text is a brace or a semicolon. -/
def Clear (n : Nat) (text : List Char) : Prop :=
  (text.take n).filter isDecisive = []

theorem not_decisive {p : Char → Bool} (hp : ['{', ';', '}'].any p = false)
    (h : p c = true) : isDecisive c = false := by
  cases hc : isDecisive c with
  | false => rfl
  | true =>
      have hmem : c ∈ ['{', ';', '}'] := by
        simpa [isDecisive, or_assoc] using hc
      exact absurd h (List.any_eq_false.mp hp c hmem)

theorem Clear.append {m : Nat} (h : Clear m text) (h' : Clear n (text.drop m)) :
    Clear (m + n) text := by
  rw [Clear, List.take_add, List.filter_append, h, h', List.append_nil]

theorem Clear.countWhile {p : Char → Bool} (hp : ['{', ';', '}'].any p = false)
    (text : List Char) : Clear (countWhile p text) text := by
  rw [Clear, List.filter_eq_nil_iff]
  intro c hc
  rw [not_decisive hp (of_mem_take_countWhile hc)]
  exact Bool.false_ne_true

theorem Clear.head (h : text.head? = some c) (hc : isDecisive c = false) : Clear 1 text := by
  obtain ⟨rest, rfl⟩ := List.head?_eq_some_iff.mp h
  simpa [Clear] using hc

theorem Clear.cons (hc : isDecisive c = false) (h : Clear n rest) : Clear (1 + n) (c :: rest) :=
  .append (.head rfl hc) h

theorem signLength_clear (text : List Char) : Clear (signLength text) text := by
  unfold signLength
  split
  · rename_i h
    rw [Bool.or_eq_true, beq_iff_eq, beq_iff_eq] at h
    rcases h with h | h <;> exact .head h (by decide)
  · rfl

theorem digits_clear (text : List Char) : Clear (countWhile Char.isDigit text) text :=
  .countWhile (by decide) text

theorem numberLength_clear (text : List Char) : Clear (numberLength text) text := by
  have hwhole := (signLength_clear text).append (digits_clear _)
  simp only [numberLength]
  generalize signLength text + countWhile Char.isDigit (text.drop (signLength text)) = n at hwhole ⊢
  -- The fraction after a whole number of `n` characters.
  have hfraction : Clear (if (text.drop n).head? == some '.' && startsDigit (text.drop n).tail
      then n + 1 + countWhile Char.isDigit (text.drop n).tail else n) text := by
    split
    · rename_i h
      rw [Bool.and_eq_true, beq_iff_eq] at h
      refine (hwhole.append (.head h.1 (by decide))).append ?_
      rw [← List.drop_drop, List.drop_one]
      exact digits_clear _
    · exact hwhole
  generalize (if (text.drop n).head? == some '.' && startsDigit (text.drop n).tail
      then n + 1 + countWhile Char.isDigit (text.drop n).tail else n) = m at hfraction ⊢
  split
  · rename_i h
    rw [Bool.or_eq_true, beq_iff_eq, beq_iff_eq] at h
    have hmark : Clear 1 (text.drop m) := by
      rcases h with h | h <;> exact .head h (by decide)
    split
    · exact hfraction
    · rw [Nat.add_assoc]
      refine hfraction.append ((hmark.append ?_).append (digits_clear _))
      rw [List.drop_one]
      exact signLength_clear _
  · exact hfraction

theorem number_clear (text : List Char) : Clear (number text).length text := by
  have hlength := numberLength_clear text
  unfold number
  simp only
  split
  · rename_i h
    exact hlength.append (.head (beq_iff_eq.mp h) (by decide))
  split
  · exact hlength
  · exact hlength.append (.countWhile (p := Text.isLetter) (by decide) _)

/-! ### Looks -/

/-- The token says by its characters what it says by its kind, unless it is of a kind that may
conceal some. -/
def ShowsDecisive (t : Token) : Prop :=
  conceals t.kind = false → t.value.toList.filter isDecisive = (decisive? t.kind).toList

/-- All tokens that a look at the text cuts off are such. -/
def AllShowDecisive (text : List Char) (scan : Scan LexState) : Prop :=
  ∀ pos, ∀ t ∈ Lexeme.cut pos text scan.pieces, ShowsDecisive t

theorem showsDecisive_token (h : conceals l.kind = true
    ∨ (text.take l.length).filter isDecisive = (decisive? l.kind).toList) (pos : Nat) :
    ShowsDecisive (l.token pos text) := by
  intro hplain
  rw [Lexeme.token, String.toList_ofList]
  exact h.resolve_left (Bool.eq_false_iff.mp hplain)

theorem showsDecisive_of_clear (hkind : decisive? l.kind = none) (h : Clear l.length text) (pos : Nat) :
    ShowsDecisive (l.token pos text) :=
  showsDecisive_token (.inr (by rw [hkind, h]; rfl)) pos

namespace AllShowDecisive

theorem ite {p : Prop} [Decidable p] {a b : Scan LexState} (ha : p → AllShowDecisive text a)
    (hb : ¬p → AllShowDecisive text b) : AllShowDecisive text (if p then a else b) := by
  by_cases h : p
  · rw [if_pos h]; exact ha h
  · rw [if_neg h]; exact hb h

/-- One piece, and an unknown character behind it if it takes none. -/
theorem single (hc : isDecisive c = false) (h : ∀ pos, ShowsDecisive (l.token pos (c :: rest)))
    (s : LexState) (faults : List Fault) : AllShowDecisive (c :: rest) ⟨[l], s, faults⟩ := by
  intro pos t ht
  unfold Scan.pieces at ht
  by_cases hwidth : Lexeme.width [l] = 0
  · have hlength : l.length = 0 := hwidth
    rw [if_pos hwidth, List.singleton_append, Lexeme.cut, Lexeme.cut, Lexeme.cut, hlength,
      List.drop_zero, List.mem_cons, List.mem_singleton] at ht
    rcases ht with rfl | rfl
    · exact h pos
    · exact showsDecisive_of_clear rfl (.head rfl hc) _
  · rw [if_neg hwidth, Lexeme.cut, Lexeme.cut, List.mem_singleton] at ht
    exact ht ▸ h pos

/-- One piece of characters that say nothing. -/
theorem filler (hc : isDecisive c = false) (hkind : decisive? l.kind = none)
    (h : Clear l.length (c :: rest)) (s : LexState) (faults : List Fault) :
    AllShowDecisive (c :: rest) ⟨[l], s, faults⟩ :=
  single hc (showsDecisive_of_clear hkind h) s faults

/-- One piece of a kind that may conceal something. -/
theorem concealing (hc : isDecisive c = false) (hkind : conceals l.kind = true) (s : LexState)
    (faults : List Fault) : AllShowDecisive (c :: rest) ⟨[l], s, faults⟩ :=
  single hc (showsDecisive_token (.inl hkind)) s faults

/-- A look that names nothing is given an unknown character. -/
theorem unknown (hc : isDecisive c = false) (s : LexState) (faults : List Fault) :
    AllShowDecisive (c :: rest) ⟨[], s, faults⟩ := by
  intro pos t ht
  obtain rfl : t = Lexeme.unknown.token pos (c :: rest) := List.mem_singleton.mp ht
  exact showsDecisive_of_clear rfl (.head rfl hc) pos

/-- A sign that is a token of its own. -/
theorem sign {kind : TokenKind} (h : [c].filter isDecisive = (decisive? kind).toList)
    (s : LexState) : AllShowDecisive (c :: rest) ⟨[mark kind], s, []⟩ := by
  intro pos t ht
  have hmark : ((c :: rest).take (mark kind).length).filter isDecisive
      = (decisive? (mark kind).kind).toList := h
  rw [Scan.pieces_single (l := mark kind) Nat.one_pos, Lexeme.cut, Lexeme.cut,
    List.mem_singleton] at ht
  exact ht ▸ showsDecisive_token (.inr hmark) pos

end AllShowDecisive

theorem wordKind_decisive? (s : LexState) (word : List Char) :
    decisive? (wordKind s word).1 = none := by
  unfold wordKind
  grind [decisive?]

theorem word_clear (hc : isDecisive c = false) (rest : List Char) :
    Clear (1 + nameLength rest) (c :: rest) :=
  .cons hc (.countWhile (p := isNameChar) (by decide) rest)

/-- The address conceals what is in it, and before it are spaces. -/
theorem urlBody_showsDecisive (pos : Nat) (text : List Char) :
    ∀ t ∈ Lexeme.cut pos text (urlBody text), ShowsDecisive t := by
  unfold urlBody
  simp only
  have haddress (n pos : Nat) (text : List Char) : ShowsDecisive ((address n).token pos text) :=
    showsDecisive_token (.inl rfl) pos
  cases (text.drop (countWhile isSpace text)).head? with
  | none => simp [Lexeme.cut]
  | some c =>
      simp only
      split
      · simp [Lexeme.cut]
      split
      · simpa [Lexeme.cut, address] using haddress _ pos text
      · simpa [Lexeme.cut, address] using
          ⟨showsDecisive_of_clear rfl (.countWhile (p := isSpace) (by decide) text) pos, haddress _ _ _⟩

variable (s : LexState)

theorem scanWord_allShowDecisive (hc : isDecisive c = false) :
    AllShowDecisive (c :: rest) (scanWord s (c :: rest)) := by
  unfold scanWord
  rw [List.tail_cons]
  refine .ite (fun hparen => ?_) fun _ =>
    .filler hc (wordKind_decisive? s _) (word_clear hc rest) _ _
  intro pos t ht
  rw [Scan.pieces, if_neg (by simp only [Lexeme.width]; omega), Lexeme.cut, Lexeme.cut,
    List.mem_cons, List.mem_cons] at ht
  rcases ht with rfl | rfl | ht
  · exact showsDecisive_of_clear rfl (word_clear hc rest) pos
  · exact showsDecisive_of_clear rfl (.head (beq_iff_eq.mp hparen) (by decide)) _
  · rw [show (mark .parenOpen).length = 1 from rfl, List.drop_one] at ht
    split at ht
    · exact urlBody_showsDecisive _ _ t ht
    · simp [Lexeme.cut] at ht

theorem scanColon_allShowDecisive (hc : isDecisive c = false) : AllShowDecisive (c :: rest) (scanColon s rest) := by
  unfold scanColon
  refine .ite (fun _ => .filler hc rfl ?_ _ _) fun _ => .filler hc rfl (.head rfl hc) _ _
  simp only
  split
  · rename_i hsecond
    have hcolons : Clear 2 (c :: rest) := .cons hc (.head (beq_iff_eq.mp hsecond) (by decide))
    exact hcolons.append (.countWhile (p := isNameChar) (by decide) _)
  · exact word_clear hc rest

theorem scanHash_allShowDecisive (hc : isDecisive c = false) : AllShowDecisive (c :: rest) (scanHash s rest) := by
  have hunknown : Clear Lexeme.unknown.length (c :: rest) := .head rfl hc
  unfold scanHash
  simp only
  split
  · split
    · exact .filler hc rfl hunknown _ _
    · exact .filler hc rfl (word_clear hc rest) _ _
  · split
    · exact .filler hc rfl (.cons hc (.countWhile (p := isHexDigit) (by decide) rest)) _ _
    · exact .filler hc rfl hunknown _ _

theorem number_decisive? (text : List Char) : decisive? (number text).kind = none := by
  unfold number
  grind [decisive?]

theorem quotedLiteral_conceals (quote : Char) (pos : Nat) (rest : List Char) :
    conceals (quotedLiteral .string "string" "string" false quote pos rest).1.kind = true := by
  unfold quotedLiteral
  grind [conceals]

/-- A look at what is neither whitespace nor a comment nor a delimiter. -/
theorem scanInStatement_allShowDecisive (pos : Nat) (hc : isDecisive c = false) :
    AllShowDecisive (c :: rest) (scanInStatement s pos c rest) := by
  have hone {l : Lexeme} (hkind : decisive? l.kind = none) (hlength : l.length = 1)
      {state : LexState} {faults : List Fault} : AllShowDecisive (c :: rest) ⟨[l], state, faults⟩ :=
    .filler hc hkind (hlength ▸ .head rfl hc) state faults
  have hword {l : Lexeme} (hkind : decisive? l.kind = none)
      (hlength : l.length = 1 + nameLength rest) {state : LexState} {faults : List Fault} :
      AllShowDecisive (c :: rest) ⟨[l], state, faults⟩ :=
    .filler hc hkind (hlength ▸ word_clear hc rest) state faults
  refine .ite (fun _ => ?_) fun _ => .ite (fun _ => hone rfl rfl) fun _ =>
    .ite (fun _ => .ite (fun _ => hone rfl rfl) fun _ => hword rfl rfl) fun _ =>
    .ite (fun _ => scanColon_allShowDecisive s hc) fun _ => .ite (fun _ => scanHash_allShowDecisive s hc) fun _ =>
    .ite (fun _ => .ite (fun _ => hword rfl rfl) fun _ => hone rfl rfl) fun _ =>
    .ite (fun _ => .filler hc ?_ (number_clear _) _ _) fun _ =>
    .ite (fun hdashes => .filler hc rfl ?_ _ _) fun _ =>
    .ite (fun _ => hword rfl rfl) fun _ => .ite (fun _ => scanWord_allShowDecisive s hc) fun _ =>
    .ite (fun _ => hone rfl rfl) fun _ => ?_
  · exact .concealing hc (quotedLiteral_conceals _ pos rest) _ _
  · exact number_decisive? (c :: rest)
  · rw [Bool.and_eq_true, beq_iff_eq, beq_iff_eq] at hdashes
    have hname : Clear (nameLength rest.tail) (rest.drop 1) := by
      rw [List.drop_one]
      exact .countWhile (p := isNameChar) (by decide) rest.tail
    show Clear (1 + 1 + nameLength rest.tail) (c :: rest)
    rw [Nat.add_assoc]
    exact .cons hc (.append (.head hdashes.2 (by decide)) hname)
  · exact .unknown hc _ _

theorem whitespace?_allShowDecisive (h : whitespace? (c :: rest) = some l) (faults : List Fault) :
    AllShowDecisive (c :: rest) ⟨[l], s, faults⟩ := by
  simp only [whitespace?] at h
  split at h
  · rename_i hspace
    have hc : isDecisive c = false := not_decisive (p := isSpace) (by decide) hspace
    obtain rfl := Option.some.inj h
    exact .filler hc rfl (.cons hc (.countWhile (p := isSpace) (by decide) rest)) _ _
  split at h
  · rename_i hfeed
    have hc : isDecisive c = false := by rw [beq_iff_eq.mp hfeed]; decide
    obtain rfl := Option.some.inj h
    exact .filler hc rfl (.head rfl hc) _ _
  split at h
  · rename_i hreturn
    have hc : isDecisive c = false := by rw [beq_iff_eq.mp hreturn]; decide
    obtain rfl := Option.some.inj h
    refine .filler hc rfl ?_ _ _
    simp only
    split
    · rename_i hfeed
      exact .cons hc (.head (beq_iff_eq.mp hfeed) (by decide))
    · exact .head rfl hc
  · exact absurd h (by simp)

theorem delimiter?_decisive? {kind : TokenKind} (hc : isDecisive c = false)
    (h : delimiter? c = some kind) : decisive? kind = none := by
  unfold delimiter? at h
  split at h
  · exact absurd hc (by decide)
  · exact absurd hc (by decide)
  · obtain rfl := Option.some.inj h; rfl
  · obtain rfl := Option.some.inj h; rfl
  · obtain rfl := Option.some.inj h; rfl
  · obtain rfl := Option.some.inj h; rfl
  · exact absurd h (by simp)

theorem scanRich_allShowDecisive (pos : Nat) (c : Char) (rest : List Char) :
    AllShowDecisive (c :: rest) (scanRich s pos (c :: rest)) := by
  simp only [scanRich]
  cases hspace : whitespace? (c :: rest) with
  | some l => exact whitespace?_allShowDecisive s hspace _
  | none =>
      refine .ite (fun hcomment => ?_) fun _ => .ite (fun hopen => ?_) fun hopen =>
        .ite (fun hclose => ?_) fun hclose => .ite (fun hends => ?_) fun hends => ?_
      · rw [Bool.and_eq_true, beq_iff_eq] at hcomment
        refine .concealing (by rw [hcomment.1]; decide) ?_ _ _
        rw [delimited_kind]
        rfl
      · exact .sign (by rw [beq_iff_eq.mp hopen]; decide) _
      · exact .sign (by rw [beq_iff_eq.mp hclose]; decide) _
      · exact .sign (by rw [beq_iff_eq.mp hends]; decide) _
      have hc : isDecisive c = false := by simp [isDecisive, hopen, hclose, hends]
      cases hkind : delimiter? c with
      | some kind =>
          exact .filler hc (delimiter?_decisive? hc hkind) (.head rfl hc) _ _
      | none => exact scanInStatement_allShowDecisive _ pos hc

/-! ### The answer of the lexer -/

theorem run_showsDecisive (pos : Nat) (text : List Char) :
    ∀ t ∈ (richScanner.run 0 s pos text).tokens, ShowsDecisive t := by
  intro t ht
  obtain ⟨s, pos, text, htext, ht⟩ := richScanner.exists_of_mem_run ht
  obtain ⟨c, rest, rfl⟩ := List.exists_cons_of_ne_nil htext
  exact scanRich_allShowDecisive s pos c rest pos t ht

/-- The first brace or semicolon of such tokens is one that is concealed, or else the one that
ends the statement. -/
theorem find?_flatMap (h : ∀ t ∈ ts, ShowsDecisive t) :
    (ts.flatMap (·.value.toList)).find? isDecisive = (concealed? ts).or (statementEnd? ts) := by
  induction ts with
  | nil => rfl
  | cons t ts ih =>
      rw [List.forall_mem_cons] at h
      have hfirst (hplain : conceals t.kind = false) :
          t.value.toList.find? isDecisive = decisive? t.kind := by
        rw [← List.head?_filter, h.1 hplain]
        cases decisive? t.kind <;> rfl
      rw [List.flatMap_cons, List.find?_append, ih h.2]
      cases hdecisive : decisive? t.kind with
      | some d =>
          have hplain : conceals t.kind = false := by
            revert hdecisive
            cases t.kind <;> simp [decisive?, conceals]
          rw [hfirst hplain, hdecisive]
          simp [concealed?, statement, statementEnd?, hdecisive]
      | none =>
          cases hconceals : conceals t.kind with
          | true =>
              simp [concealed?, statement, statementEnd?, hdecisive, hconceals, Option.or_assoc]
          | false =>
              rw [hfirst hconceals, hdecisive]
              simp [concealed?, statement, statementEnd?, hdecisive, hconceals]

theorem looksNested_iff (pos : Nat) (text : List Char) :
    let ahead := (richScanner.run 0 s pos text).tokens
    LexState.looksNested text = true
      ↔ (concealed? ahead).or (statementEnd? ahead) = some '{' := by
  intro ahead
  rw [← find?_flatMap (run_showsDecisive s pos text), richScanner.flatMap_run]
  exact beq_iff_eq

/-! ### Statements in a block -/

/-- A run over the window from offset `start` on comes to the start of a statement in a block of
declarations.  There it looks at offset `place`, in the state `s` and behind the tokens `before`. -/
structure MeetsStatement (w : Window) (start : Nat) (s : LexState) (place : Nat)
    (before : List Token) : Prop where
  reaches : richLexer.Reaches .rich w s place {} start before
  inDeclarations : s.inDeclarations = true
  atStart : s.atStart = true
  /-- The look is not at a space, a comment or a delimiter. -/
  begins : (lookRich w s place).state.atStart = false

/-- A statement starts within the window. -/
theorem MeetsStatement.lt_stop {w : Window} {start place : Nat} {s : LexState} {before : List Token}
    (h : MeetsStatement w start s place before) : place < w.stop := by
  refine Nat.lt_of_not_le fun hstop => ?_
  have hbegins := h.begins
  rw [lookRich, (w.at?_eq_none_iff place).mpr hstop] at hbegins
  exact absurd (h.atStart.symm.trans hbegins) (by decide)

/-- If the look is at the start of a statement, the state after it has the answer. -/
def Answers (answer : Bool) (scan : Scan LexState) : Prop :=
  scan.state.atStart = false → scan.state.nested = answer

theorem Answers.ite {p : Prop} [Decidable p] {answer : Bool} {a b : Scan LexState}
    (ha : Answers answer a) (hb : Answers answer b) : Answers answer (if p then a else b) := by
  by_cases h : p
  · rw [if_pos h]; exact ha
  · rw [if_neg h]; exact hb

theorem scanInStatement_answers (pos : Nat) (c : Char) (rest : List Char) :
    Answers s.nested (scanInStatement s pos c rest) := by
  have hkept {ls : List Lexeme} {faults : List Fault} : Answers s.nested ⟨ls, s, faults⟩ :=
    fun _ => rfl
  refine .ite hkept <| .ite hkept <| .ite (.ite hkept fun _ => rfl) <|
    .ite (.ite hkept fun _ => ?_) <| .ite hkept <| .ite (.ite hkept hkept) <| .ite hkept <|
    .ite hkept <| .ite hkept <| .ite (.ite hkept hkept) <| .ite hkept hkept
  simp only
  split <;> rfl

theorem scanRich_answers {s : LexState} (hblock : s.inDeclarations = true)
    (hstart : s.atStart = true) (pos : Nat) (text : List Char) :
    Answers (LexState.looksNested text) (scanRich s pos text) := by
  have hidle {answer : Bool} {ls : List Lexeme} {faults : List Fault} :
      Answers answer ⟨ls, s, faults⟩ := fun h => absurd (hstart.symm.trans h) (by decide)
  have hnext {answer : Bool} {ls : List Lexeme} {blocks : List Bool} :
      Answers answer ⟨ls, { blocks }, []⟩ := fun (h : true = false) => absurd h (by decide)
  cases text with
  | nil => exact hidle
  | cons c rest =>
      have hbegin : (s.begin (c :: rest)).nested = LexState.looksNested (c :: rest) := by
        simp [LexState.begin, hstart, hblock]
      simp only [scanRich]
      cases whitespace? (c :: rest) with
      | some l => exact hidle
      | none =>
          refine .ite hidle <| .ite hnext <| .ite hnext <| .ite hnext ?_
          cases delimiter? c with
          | some kind => exact hidle
          | none => exact hbegin ▸ scanInStatement_answers _ pos c rest

end Stylesheet

open Stylesheet in
/-- **When lexer and grammar agree on what a nested rule is.**  The lexer takes a statement in a
block for one if the first brace or semicolon ahead opens a block, also one that a string, an
address or a comment of the statement conceals.  The grammar takes it for one if the statement ends
at a brace and its groups are closed. -/
theorem Language.nested_rules_agree_iff (embed : Bool) (source : List Char) (start : Nat)
    (stop : Option Nat) {s : LexState} {place : Nat} {before : List Token}
    (h : MeetsStatement (.upTo source.toArray stop) start s place before) :
    let w := Window.upTo source.toArray stop
    let tokens := (stylesheet.lex .rich embed source start stop).tokens
    let rest := tokens.drop before.length
    let nested := (lookRich w s place).state.nested
    let rule := (ruleStarts tokens).getD before.length false
    nested = nestedAt w place
      ∧ (nested = true ↔ (concealed? rest).or (statementEnd? rest) = some '{')
      ∧ (rule = true ↔ IsRule rest)
      ∧ (nested = rule
        ↔ (∀ c, concealed? rest = some c → (c = '{' ↔ IsRule rest))
          ∧ (concealed? rest = none → statementEnd? rest = some '{' →
            closesGroups 0 (statement rest) = true)) := by
  intro w tokens rest nested rule
  have hrun : (richLexer.run .rich w s place).tokens
      = (richScanner.run 0 s place (w.ahead place)).tokens :=
    congrArg Lexing.tokens (@Lexer.run_eq _ w .rich _ richScanner rfl
      (fun s _ hpos => lookRich_tells s hpos) s place)
  have htokens : tokens = before ++ (richScanner.run 0 s place (w.ahead place)).tokens :=
    hrun ▸ h.reaches.tokens_eq (richLexer_handsOver w)
  have hrest : rest = (richScanner.run 0 s place (w.ahead place)).tokens := by
    rw [show rest = _ from congrArg (List.drop before.length) htokens, List.drop_left]
  -- The state behind the look is the one behind the scan of the text ahead.
  have hstate : (lookRich w s place).state = (scanRich s place (w.ahead place)).state :=
    (@lookRich_tells w place .rich s h.lt_stop).state
  have hanswer : nested = LexState.looksNested (w.ahead place) :=
    (congrArg LexState.nested hstate).trans
      (scanRich_answers h.inDeclarations h.atStart place _ (hstate ▸ h.begins))
  have hnested : nested = true ↔ (concealed? rest).or (statementEnd? rest) = some '{' := by
    rw [hanswer, hrest]
    exact looksNested_iff s place (w.ahead place)
  have hrule : rule = true ↔ IsRule rest := by
    rw [hrest, ← opensBrace_iff, ← ruleStarts_append before, ← htokens]
  refine ⟨hanswer.trans nestedAt_eq.symm, hnested, hrule, ?_⟩
  rw [Bool.eq_iff_iff, hnested, hrule]
  cases concealed? rest with
  | none => simp [IsRule]
  | some c => simp

open Stylesheet in
/-- A brace in a string makes a selector of the property before it. -/
theorem Language.nested_rule_feigned_by_string :
    let source := "a\x7bb:\"\x7b\";\x7d".toList
    let w := Window.upTo source.toArray none
    let tokens := (stylesheet.lex .rich true source 0 none).tokens
    ∃ s place before,
      MeetsStatement w 0 s place before
        ∧ concealed? (tokens.drop before.length) = some '{'
        ∧ (lookRich w s place).state.nested
          ≠ (ruleStarts tokens).getD before.length false := by
  intro source w tokens
  obtain ⟨s, place, before, hmeets, hconcealed, hrule⟩ : ∃ s place before,
      MeetsStatement w 0 s place before
        ∧ concealed? (tokens.drop before.length) = some '{'
        ∧ ¬IsRule (tokens.drop before.length) :=
    ⟨_, _, _,
      { reaches := .later (by decide) (.later (by decide +kernel) .here)
        inDeclarations := by decide +kernel
        atStart := by decide +kernel
        begins := by decide +kernel },
      by decide +kernel, by decide +kernel⟩
  refine ⟨s, place, before, hmeets, hconcealed, fun hagree => hrule ?_⟩
  have hanswers := (nested_rules_agree_iff true source 0 none hmeets).2.2.2.mp hagree
  exact (hanswers.1 '{' hconcealed).mp rfl

end SourceView
