/-
Rules that are printed are parsed back.

Where the parser asks its table whether a rule starts, the answer depends on the tokens ahead
alone: at a class the brace is next, and at a property the semicolon comes first.  So a
statement is read as what it was printed as, wherever it stands and whatever comes after
it.  For the body of a rule this is said of each statement in it, and of the rule it then
follows; the limit on open containers is the only bound.
-/
import SourceView.Proofs.Parsing.Nesting
import SourceView.Proofs.Parsing.Printed
import SourceView.Proofs.Stylesheet.Printing

namespace SourceView.Stylesheet

open Piece
open Parsing Parsing.Cursor

variable {input : Input} {c d : Cursor} {pos height turns : Nat} {rest : List Token}

/-! ### Words as values -/

/-- The kinds that a word may have as a value. -/
inductive IsWord : TokenKind → Prop
  | color : IsWord .color
  | keyword : IsWord .valueKeyword
  | other : IsWord .identifier

theorem isWord_value (w : Word) : IsWord w.value.kind := by
  have hlook : wordKind { blocks := [true], inValue := true } w.text.toList
      = if colors.contains (Text.lower w.text) then (.color, "color")
        else if valueKeywords.contains (Text.lower w.text) then (.valueKeyword, "value")
        else (.identifier, "value") := rfl
  show IsWord (wordKind { blocks := [true], inValue := true } w.text.toList).1
  rw [hlook]
  split
  · exact .color
  split
  · exact .keyword
  · exact .other

/-! ### Where a rule may start -/

/-- The answers for tokens depend on what is ahead of them only. -/
theorem ruleStartsFrom_append (past : Nat → Option Nat) (index : Nat) (ts us : List Token) :
    (ruleStartsFrom past index (ts ++ us)).getD ts.length false
      = (ruleStartsFrom past (index + ts.length) us).headD false := by
  induction ts generalizing index with
  | nil => cases us <;> simp [ruleStartsFrom]
  | cons t ts ih =>
      rw [List.cons_append, ruleStartsFrom, List.length_cons, List.getD_cons_succ, ih,
        Nat.add_comm ts.length, Nat.add_assoc]

/-- The answer of the table at a cursor, by the tokens ahead. -/
theorem ruleStarts_of_within (h : c.Within input.tokens) :
    ∃ past, (ruleStarts input.tokens).toArray.getD c.pos false
      = (ruleStartsFrom past c.pos c.ahead).headD false := by
  have hanswer := ruleStartsFrom_append
    (fun index => (groupEnds input.tokens).getD index none) 0 c.behind.reverse c.ahead
  rw [← h, List.length_reverse, Nat.zero_add] at hanswer
  exact ⟨_, by simpa [ruleStarts, Cursor.pos] using hanswer⟩

/-- Before a brace a rule starts. -/
theorem ruleStarts_class {t brace : Token} (h : c.Within input.tokens)
    (hahead : c.ahead = t :: brace :: rest) (ht : t.kind = .selector) (hbrace : brace.kind = .blockOpen) :
    (ruleStarts input.tokens).toArray.getD c.pos false = true := by
  obtain ⟨past, hanswer⟩ := ruleStarts_of_within h
  rw [hanswer, hahead]
  simp [ruleStartsFrom, ht, hbrace, endsStatement, opensGroup, TokenKind.isCloser]

/-- Before a semicolon none starts. -/
theorem ruleStarts_declaration {t colon value semicolon : Token} (h : c.Within input.tokens)
    (hahead : c.ahead = t :: colon :: value :: semicolon :: rest) (ht : t.kind = .property)
    (hcolon : colon.kind = .colon) (hvalue : IsWord value.kind)
    (hsemicolon : semicolon.kind = .semicolon) :
    (ruleStarts input.tokens).toArray.getD c.pos false = false := by
  obtain ⟨past, hanswer⟩ := ruleStarts_of_within h
  rw [hanswer, hahead]
  generalize hkind : value.kind = kind at hvalue
  cases hvalue <;>
    simp [ruleStartsFrom, ht, hcolon, hsemicolon, hkind, endsStatement, opensGroup, TokenKind.isCloser]

/-! ### Declarations -/

section Declarations

variable {item : Production} {v : Value} {t : Token}

/-- A word extends the value. -/
theorem valueLoop_word (hahead : v.cursor.ahead = t :: rest) (ht : IsWord t.kind) :
    valueLoop item (turns + 1) v = valueLoop item turns (v.extend t.start t.stop v.cursor.advance) := by
  generalize hkind : t.kind = kind at ht
  have htrivia : t.kind.isTrivia = false := by
    rw [hkind]
    cases ht <;> rfl
  rw [valueLoop, skipTrivia_of_not_trivia hahead htrivia]
  cases ht <;>
    simp [peek?_of_ahead hahead, hkind, isImportant, opensGroup, TokenKind.isCloser]

/-- A semicolon ends the declaration. -/
theorem valueLoop_semicolon (hahead : v.cursor.ahead = t :: rest) (ht : t.kind = .semicolon) :
    valueLoop item (turns + 1) v = .ok { v with stop := t.stop, cursor := v.cursor.advance } := by
  rw [valueLoop, skipTrivia_of_not_trivia hahead (by rw [ht]; rfl)]
  simp [peek?_of_ahead hahead, ht]

theorem declaration_word {colon value semicolon : Token} (hrich : input.rich = true)
    (hwithin : c.Within input.tokens) (hahead : c.ahead = t :: colon :: value :: semicolon :: rest)
    (ht : t.kind = .property) (hcolon : colon.kind = .colon) (hvalue : IsWord value.kind)
    (hsemicolon : semicolon.kind = .semicolon) :
    declaration input item c
      = some (.leaf t.start semicolon.stop (.declaration t.value
            (Text.normalizeSpace (input.text value.start value.stop)) false),
          c.past [t, colon, value, semicolon] rest) := by
  obtain ⟨turns, hturns⟩ : ∃ turns, input.bound = turns + 2 := by
    have hbound := hwithin.length_lt
    rw [hahead, List.length_cons, List.length_cons] at hbound
    exact ⟨input.bound - 2, by omega⟩
  have hnext : c.advance.skipTrivia = c.past [t] (colon :: value :: semicolon :: rest) := by
    rw [advance_eq_past hahead]
    exact skipTrivia_of_not_trivia rfl (by rw [hcolon]; rfl)
  have haccept : (c.past [t] (colon :: value :: semicolon :: rest)).acceptKind? .colon
      = some (colon, c.past [t, colon] (value :: semicolon :: rest)) :=
    acceptKind?_of_eq rfl hcolon
  have hstart := declarationStart_eq_ok.mpr ⟨peek?_of_ahead hahead, hrich,
    (by rw [ht]; rfl : namesProperty t.kind = true), colon, _, hnext.symm ▸ haccept, rfl⟩
  simp only [declaration, Attempt.read, tryDeclaration, hstart, hturns]
  rw [valueLoop_word rfl hvalue, valueLoop_semicolon rfl hsemicolon]
  rfl

end Declarations

/-! ### Rules -/

section Rules

variable {t brace : Token} {item block : Production}

/-- A selector of one class. -/
theorem headLoop_class (hahead : c.ahead = t :: brace :: rest) (ht : t.kind = .selector)
    (hbrace : brace.kind = .blockOpen) :
    headLoop item none (turns + 2) c = ⟨some t.stop, [], c.past [t] (brace :: rest)⟩ := by
  have hadvance : c.advance = c.past [t] (brace :: rest) := advance_eq_past hahead
  have hnext : (c.past [t] (brace :: rest)).skipTrivia = c.past [t] (brace :: rest) :=
    skipTrivia_of_not_trivia rfl (by rw [hbrace]; rfl)
  have hpeek : (c.past [t] (brace :: rest)).peek? = some brace := rfl
  rw [headLoop, skipTrivia_of_not_trivia hahead (by rw [ht]; rfl)]
  simp [peek?_of_ahead hahead, ht, endsStatement, opensGroup, TokenKind.isCloser, hadvance, headLoop,
    hnext, hpeek, hbrace]

/-- A rule for a class, with a block that is read. -/
theorem rule_class {starts : Array Bool} {start stop : Int} {closed : Bool} {children : List Node}
    (hrich : input.rich = true) (hwithin : c.Within input.tokens)
    (hahead : c.ahead = t :: brace :: rest) (ht : t.kind = .selector) (hbrace : brace.kind = .blockOpen)
    (hstarts : starts.getD c.pos false = true)
    (hblock : block (c.past [t] (brace :: rest))
      = some (.container start stop (.block closed) children, d)) :
    rule input starts item block c
      = some (.container t.start stop
          (.rule (Text.normalizeSpace (input.text t.start t.stop)) closed)
          [.container start stop (.block closed) children], d) := by
  obtain ⟨turns, hturns⟩ : ∃ turns, input.bound = turns + 2 := by
    have hbound := hwithin.length_lt
    rw [hahead, List.length_cons, List.length_cons] at hbound
    exact ⟨input.bound - 2, by omega⟩
  have hskip : (c.past [t] (brace :: rest)).skipTrivia = c.past [t] (brace :: rest) :=
    skipTrivia_of_not_trivia rfl (by rw [hbrace]; rfl)
  have hhead : headLoop item none input.bound c = ⟨some t.stop, [], c.past [t] (brace :: rest)⟩ :=
    hturns ▸ headLoop_class hahead ht hbrace
  have hstart : ruleStart? input starts c = some t :=
    ruleStart?_eq_some.mpr ⟨peek?_of_ahead hahead, hrich, by rw [ht]; decide, hstarts⟩
  have hread : RuleRead input starts item block c _ d :=
    .mk hahead hstart (by rw [hhead]) (by rw [hhead, hskip]; exact hblock)
  rw [hhead] at hread
  exact rule_eq_some.mpr hread

end Rules

/-! ### Texts without blanks -/

theorem wordsFrom_of_not_isBlank {word cs : List Char} (hne : word.reverse ++ cs ≠ [])
    (hcs : ∀ c ∈ cs, Text.isBlank c = false) : Text.wordsFrom word cs = [word.reverse ++ cs] := by
  induction cs generalizing word with
  | nil =>
      have hword : word.isEmpty = false := by
        cases word with
        | nil => exact absurd rfl hne
        | cons c word => rfl
      rw [Text.wordsFrom, hword, List.append_nil]
      rfl
  | cons c cs ih =>
      have hblank := hcs c List.mem_cons_self
      rw [Text.wordsFrom, hblank, if_neg Bool.false_ne_true,
        ih (by simp) fun d hd => hcs d (List.mem_cons_of_mem c hd), List.reverse_cons, List.append_assoc]
      rfl

/-- A text without blanks is its only word. -/
theorem normalizeSpace_of_not_isBlank {s : String} (hne : s ≠ "")
    (hs : ∀ c ∈ s.toList, Text.isBlank c = false) : Text.normalizeSpace s = s := by
  have hcs : s.toList ≠ [] := fun h => hne (String.toList_eq_nil_iff.mp h)
  have hwords : Text.words s.toList = [s.toList] := wordsFrom_of_not_isBlank hcs hs
  rw [Text.normalizeSpace, Text.normalizeSpaceChars, hwords, List.intercalate_singleton,
    String.ofList_toList]

theorem not_isBlank_of_isLower {c : Char} (h : c.isLower = true) : Text.isBlank c = false := by
  obtain ⟨hlo, hhi⟩ := toNat_of_isLower h
  simp only [Text.isBlank, Bool.or_eq_false_iff, Bool.and_eq_false_iff, decide_eq_false_iff_not,
    beq_eq_false_iff_ne]
  omega

theorem Word.normalizeSpace_text (w : Word) : Text.normalizeSpace w.text = w.text :=
  normalizeSpace_of_not_isBlank w.nonempty fun c hc => not_isBlank_of_isLower (w.isLower_of_mem c hc)

theorem Word.normalizeSpace_class (w : Word) :
    Text.normalizeSpace (String.ofList ('.' :: w.text.toList)) = "." ++ w.text := by
  have hclass : "." ++ w.text = String.ofList ('.' :: w.text.toList) := by
    rw [← String.toList_inj, String.toList_append]
    simp
  rw [hclass]
  refine normalizeSpace_of_not_isBlank (by simp) fun c hc => ?_
  rw [String.toList_ofList, List.mem_cons] at hc
  rcases hc with rfl | hc
  · rfl
  · exact not_isBlank_of_isLower (w.isLower_of_mem c hc)

/-! ### Statements -/

/-- The parser reads the statement wherever it is printed in a block, and stops behind it. -/
def Statement.Parsed (input : Input) (s : Statement) : Prop :=
  ∀ {height pos : Nat} {c : Cursor} {rest : List Token}, Room input s.depth c → 2 * s.depth < height →
    c.ahead = tokens pos s.pieces ++ rest →
    derive.statement input (readWithin input (ruleStarts input.tokens).toArray height) c
      = some (s.node pos, c.past (tokens pos s.pieces) rest)

/-- At a class or a property the parser tries a rule, and then a declaration. -/
theorem statement_eq {starts : Array Bool} {t : Token} (hrich : input.rich = true)
    (hahead : c.ahead = t :: rest) (ht : t.kind = .selector ∨ t.kind = .property)
    {found : Node × Cursor}
    (hread : let self := readWithin input starts (height + 1)
      self .rule c = some found ∨ (self .rule c = none ∧ self .declaration c = some found)) :
    derive.statement input (readWithin input starts (height + 1)) c = some found := by
  have hcomment : readWithin input starts (height + 1) .comment c = none := by
    show comment c = none
    rcases ht with ht | ht <;> simp [comment, hahead, ht]
  have hatRule : readWithin input starts (height + 1) .atRule c = none := by
    have hkind : t.kind ≠ .atRule := by rcases ht with ht | ht <;> simp [ht]
    show atRule input _ _ c = none
    simp [atRule, atKeyword?, acceptKind?_of_ne hahead hkind]
  rcases hread with hrule | ⟨hrule, hdeclaration⟩
  · simp only [derive.statement, hrich, if_true, Symbol.statements, List.map_cons, choice, hcomment,
      hatRule, hrule]
  · simp only [derive.statement, hrich, if_true, Symbol.statements, List.map_cons, choice, hcomment,
      hatRule, hrule, hdeclaration]

/-- A statement begins with a class or with a property. -/
theorem Statement.exists_first (s : Statement) (hahead : c.ahead = tokens pos s.pieces ++ rest) :
    ∃ t ts, c.ahead = t :: ts ∧ (t.kind = .selector ∨ t.kind = .property) := by
  cases s with
  | declaration property value => exact ⟨_, _, hahead, .inr rfl⟩
  | rule name body => exact ⟨_, _, hahead, .inl rfl⟩

/-- Statements, and then what else the loop finds. -/
theorem itemsLoop_parsed {closer : Option TokenKind}
    (hcloser : closer = none ∨ closer = some .blockClose) {ss : List Statement}
    (hss : ∀ s ∈ ss, s.Parsed input) (hroom : Room input (depthAll ss) c)
    (hheight : 2 * depthAll ss < height) (hahead : c.ahead = tokens pos (piecesAll ss) ++ rest)
    {others : List Node} {t : Option Token}
    (hmore : itemsLoop
        (derive.statement input (readWithin input (ruleStarts input.tokens).toArray height)) closer turns
        (c.past (tokens pos (piecesAll ss)) rest) = ⟨others, t, d⟩) :
    itemsLoop (derive.statement input (readWithin input (ruleStarts input.tokens).toArray height)) closer
        (turns + ss.length) c
      = ⟨nodes pos ss ++ others, t, d⟩ := by
  induction ss generalizing c pos with
  | nil =>
      have hpast : c.past [] rest = c := past_nil hahead
      rw [piecesAll, Piece.tokens, hpast] at hmore
      exact hmore
  | cons s ss ih =>
      have hsplit : tokens pos (piecesAll (s :: ss))
          = tokens pos s.pieces ++ tokens (pos + s.print.length) (piecesAll ss) := by
        rw [piecesAll, tokens_append, s.spell_pieces]
      rw [hsplit, List.append_assoc] at hahead
      rw [hsplit, ← past_past] at hmore
      obtain ⟨first, ts, hfirst, hkind⟩ := s.exists_first hahead
      have hread := hss s List.mem_cons_self (hroom.mono (Nat.le_max_left ..))
        (show 2 * s.depth < height by simp only [depthAll] at hheight; omega) hahead
      have hothers := ih (fun s hs => hss s (List.mem_cons_of_mem _ hs))
        ((hroom.mono (Nat.le_max_right ..)).past hahead)
        (show 2 * depthAll ss < height by simp only [depthAll] at hheight; omega) rfl hmore
      have hne : some first.kind ≠ closer := by
        rcases hcloser with rfl | rfl <;> rcases hkind with hkind | hkind <;> simp [hkind]
      have htrivia : first.kind.isTrivia = false := by
        rcases hkind with hkind | hkind <;> rw [hkind] <;> rfl
      have hother : first.kind.isCloser = false := by
        rcases hkind with hkind | hkind <;> rw [hkind] <;> rfl
      rw [List.length_cons, ← Nat.add_assoc, itemsLoop_item hfirst htrivia hne hother hread, hothers,
        nodes]
      rfl

/-- A block around statements. -/
theorem block_parsed {body : List Statement} (hbody : ∀ s ∈ body, s.Parsed input)
    (hroom : Room input (depthAll body + 1) c) (hheight : 2 * depthAll body < height)
    {brace closer : Token} (hbrace : brace.kind = .blockOpen) (hcloser : closer.kind = .blockClose)
    (hahead : c.ahead = brace :: (tokens pos (piecesAll body) ++ closer :: rest)) :
    Group.block.read input
        (derive.statement input (readWithin input (ruleStarts input.tokens).toArray height)) c
      = some (.container brace.start closer.stop (.block true) (nodes pos body),
          c.past (brace :: (tokens pos (piecesAll body) ++ [closer])) rest) := by
  have hadvance : c.advance = c.past [brace] (tokens pos (piecesAll body) ++ closer :: rest) :=
    advance_eq_past hahead
  generalize hinner : c.past [brace] (tokens pos (piecesAll body) ++ closer :: rest) = inner at *
  have hroom' : Room input (depthAll body + 1) inner := hinner ▸ hroom.past hahead
  obtain ⟨turns, hturns⟩ : ∃ turns, input.bound = turns + 1 + body.length := by
    have hlength := length_le_piecesAll body
    have hbound := hroom.turns
    simp only [hahead, List.length_append, length_tokens, List.length_cons] at hbound
    exact ⟨input.bound - 1 - body.length, by omega⟩
  let opened := inner.push ⟨.blockClose, none, brace.start⟩
  have hend : itemsLoop
      (derive.statement input (readWithin input (ruleStarts input.tokens).toArray height))
      (some .blockClose) (turns + 1) (opened.past (tokens pos (piecesAll body)) (closer :: rest))
      = ⟨[], some closer, opened.past (tokens pos (piecesAll body) ++ [closer]) rest⟩ := by
    rw [itemsLoop_closer rfl (by rw [hcloser]; rfl) (congrArg some hcloser), advance_eq_past rfl,
      past_past]
  have hinside : Group.block.inside input
      (derive.statement input (readWithin input (ruleStarts input.tokens).toArray height)) brace inner
      = ⟨nodes pos body, some closer, opened.past (tokens pos (piecesAll body) ++ [closer]) rest⟩ := by
    have hall := itemsLoop_parsed (.inr rfl) hbody (hroom'.push ⟨.blockClose, none, brace.start⟩) hheight
      (hinner ▸ rfl) hend
    rw [← hturns, List.append_nil] at hall
    exact hall
  rw [Group.read_shallow hahead hbrace (by rw [hadvance, hroom'.tooDeep]; decide), hadvance,
    Group.body_closed (congrArg Items.closer hinside), hinside]
  simp only
  rw [closeTo_push_past, ← hinner, past_past]
  rfl

/-- The tokens of a rule: the class, and the block with the body inside. -/
theorem tokens_rule (name : Word) (body : List Statement) (pos : Nat) :
    ∃ brace closer : Token, tokens pos (Statement.rule name body).pieces
        = name.selector.token pos :: brace ::
          (tokens (pos + name.selector.text.length + 1) (piecesAll body) ++ [closer])
      ∧ brace.kind = .blockOpen ∧ closer.kind = .blockClose
      ∧ brace.start = (pos + name.selector.text.length : Nat)
      ∧ closer.stop = (pos + (Statement.rule name body).print.length : Nat) := by
  refine ⟨(sign .blockOpen '{').token (pos + name.selector.text.length),
    (sign .blockClose '}').token (pos + name.selector.text.length + 1 + (printAll body).length),
    ?_, rfl, rfl, rfl, ?_⟩
  · rw [Statement.pieces, Piece.tokens, Piece.tokens, tokens_append, spell_piecesAll]
    rfl
  · simp only [Piece.token, sign, Statement.print, Word.selector, List.length_append, List.length_cons,
      List.length_nil]
    omega

/-! ### Parses -/

section Parses

variable (hrich : input.rich = true) (hspells : ∀ t ∈ input.tokens, t.Spells input.source)

include hspells in
theorem text_eq_value (hwithin : c.Within input.tokens) {t : Token} (ht : t ∈ c.ahead) :
    input.text t.start t.stop = t.value := by
  have hmem : t ∈ input.tokens := by
    rw [hwithin]
    exact List.mem_append_right _ ht
  rw [Input.text, ← hspells t hmem, String.ofList_toList]

include hrich hspells

theorem declaration_parsed (property value : Word) :
    (Statement.declaration property value).Parsed input := by
  intro height pos c rest hroom hheight hahead
  obtain ⟨height, rfl⟩ := Nat.exists_eq_add_one_of_ne_zero (Nat.ne_of_gt hheight)
  have hstarts := ruleStarts_declaration hroom.within hahead rfl rfl (isWord_value value) rfl
  have hrule : readWithin input (ruleStarts input.tokens).toArray (height + 1) .rule c = none := by
    exact rule_eq_none hstarts
  have hread : readWithin input (ruleStarts input.tokens).toArray (height + 1) .declaration c = _ :=
    declaration_word hrich hroom.within hahead rfl rfl (isWord_value value) rfl
  have hname : (property.property.token pos).value = property.text := String.ofList_toList
  have hvalue (p : Nat) : (value.value.token p).value = value.text := String.ofList_toList
  have hstop : ((sign .semicolon ';').token (pos + property.property.text.length + 1
      + value.value.text.length)).stop
      = (pos + (Statement.declaration property value).print.length : Nat) := by
    simp only [Piece.token, sign, Statement.print, Word.property, Word.value, List.length_append,
      List.length_cons, List.length_nil]
    omega
  rw [text_eq_value hspells hroom.within
    (by simp [hahead, Statement.pieces, Piece.tokens]), hname, hvalue, value.normalizeSpace_text]
    at hread
  rw [statement_eq hrich hahead (.inr rfl) (.inr ⟨hrule, hread⟩), Statement.node, ← hstop]
  rfl

theorem rule_parsed (name : Word) {body : List Statement} (hbody : ∀ s ∈ body, s.Parsed input) :
    (Statement.rule name body).Parsed input := by
  intro height pos c rest hroom hheight hahead
  simp only [Statement.depth] at hroom hheight
  obtain ⟨height, rfl⟩ : ∃ n, height = n + 2 := ⟨height - 2, by omega⟩
  obtain ⟨brace, closer, hsplit, hbrace, hcloser, hstart, hstop⟩ := tokens_rule name body pos
  rw [hsplit, List.cons_append, List.cons_append, List.append_assoc] at hahead
  have hroom' : Room input (depthAll body + 1) (c.past [name.selector.token pos] (brace ::
      (tokens (pos + name.selector.text.length + 1) (piecesAll body) ++ closer :: rest))) :=
    hroom.past hahead
  have hblock := block_parsed hbody hroom' (show 2 * depthAll body < height by omega) hbrace hcloser rfl
  have hstarts := ruleStarts_class hroom.within hahead rfl hbrace
  have hread : readWithin input (ruleStarts input.tokens).toArray (height + 2) .rule c = _ :=
    rule_class hrich hroom.within hahead rfl hbrace hstarts hblock
  have hselector : (name.selector.token pos).value = String.ofList ('.' :: name.text.toList) := rfl
  rw [text_eq_value hspells hroom.within (by simp [hahead]), hselector, name.normalizeSpace_class,
    past_past, hstart, hstop] at hread
  rw [statement_eq hrich hahead (.inl rfl) (.inl hread), hsplit, Statement.node]
  rfl

end Parses

mutual

theorem Statement.parsed (hrich : input.rich = true)
    (hspells : ∀ t ∈ input.tokens, t.Spells input.source) : ∀ s : Statement, s.Parsed input
  | .declaration property value => declaration_parsed hrich hspells property value
  | .rule name body => rule_parsed hrich hspells name (parsed_all hrich hspells body)

theorem parsed_all (hrich : input.rich = true)
    (hspells : ∀ t ∈ input.tokens, t.Spells input.source) :
    ∀ ss : List Statement, ∀ s ∈ ss, s.Parsed input
  | [] => fun _ hs => absurd hs List.not_mem_nil
  | first :: others =>
    List.forall_mem_cons.mpr ⟨Statement.parsed hrich hspells first, parsed_all hrich hspells others⟩

end

/-- Statements that the limit of the parser allows are what a document holds. -/
theorem parse_parsed (hrich : input.rich = true)
    (hspells : ∀ t ∈ input.tokens, t.Spells input.source) {ss : List Statement}
    (hdepth : depthAll ss ≤ maxDepth) (htokens : input.tokens = tokens 0 (piecesAll ss)) :
    (grammar.parse input).faults = []
      ∧ (grammar.parse input).tree = .container input.start input.stop .document (nodes 0 ss) := by
  have hbound : input.bound = (piecesAll ss).length + 1 := by
    rw [Input.bound, htokens, length_tokens]
  have hlevels := depthAll_le ss
  have hlength := length_le_piecesAll ss
  obtain ⟨turns, hturns⟩ : ∃ turns, input.bound = turns + 1 + ss.length :=
    ⟨input.bound - 1 - ss.length, by omega⟩
  have hahead : input.cursor.ahead = tokens 0 (piecesAll ss) ++ [] := by
    rw [List.append_nil]
    exact htokens
  let all := input.cursor.past (tokens 0 (piecesAll ss)) []
  have hend : itemsLoop (derive.statement input
      (readWithin input (ruleStarts input.tokens).toArray (3 * input.bound))) none (turns + 1) all
      = ⟨[], none, all⟩ := itemsLoop_nil rfl
  have hitems := itemsLoop_parsed (.inl rfl) (parsed_all hrich hspells ss) (Room.start hdepth)
    (show 2 * depthAll ss < 3 * input.bound by omega) hahead hend
  rw [← hturns, List.append_nil] at hitems
  rw [parse_eq, items, hitems]
  exact ⟨rfl, rfl⟩

/-- **Rules that are printed are parsed back.**  Of rules for classes at most 64 deep inside each
other, printed without spaces, the full analysis finds the rules again: with their selectors, each
with one closed block, and in it the declarations and rules in their order, none important and each
over the text that it was printed as; and nothing is wrong. -/
theorem analyze_printRules (config : Config) (rules : List ClassRule)
    (hdepth : depthAll (rules.map ClassRule.statement) ≤ 64) :
    let statements := rules.map ClassRule.statement
    let analysis := Language.stylesheet.analyze config (String.ofList (printAll statements))
    analysis.diagnostics = []
      ∧ analysis.tree = .container 0 (printAll statements).length .document (nodes 0 statements) := by
  intro statements analysis
  have hlex := lex_printAll rules
  rw [← Language.lex_stylesheet_whole .rich config.embeddedLanguages] at hlex
  refine Language.stylesheet.analyze_printed hlex (parse_parsed rfl ?_ hdepth rfl)
  intro t ht
  have hspells : t.Spells ([] ++ spell (piecesAll statements)) := spells_of_mem_tokens ht
  rw [List.nil_append, spell_piecesAll] at hspells
  exact hspells

/-- A card with a heading inside it, between two declarations, and an empty rule. -/
def cardRules : List ClassRule :=
  let card : Word := ⟨"card", by decide, by decide⟩
  let heading : Word := ⟨"heading", by decide, by decide⟩
  let color : Word := ⟨"color", by decide, by decide⟩
  let red : Word := ⟨"red", by decide, by decide⟩
  [⟨card, [.declaration color red, .rule heading [.declaration color card], .declaration card red]⟩,
    ⟨red, []⟩]

example : String.ofList (printAll (cardRules.map ClassRule.statement))
    = ".card\x7bcolor:red;.heading\x7bcolor:card;\x7dcard:red;\x7d.red\x7b\x7d" := by
  decide

/-- Of the card and the empty rule the analysis makes rules with closed blocks. -/
theorem analyze_printRules_of_cardRules :
    let statements := cardRules.map ClassRule.statement
    let analysis := Language.stylesheet.analyze {} (String.ofList (printAll statements))
    depthAll statements ≤ 64 ∧ analysis.diagnostics = []
      ∧ analysis.tree = .container 0 (printAll statements).length .document (nodes 0 statements) := by
  intro statements analysis
  have hdepth : depthAll statements ≤ 64 := by decide
  obtain ⟨hdiagnostics, htree⟩ := analyze_printRules {} cardRules hdepth
  exact ⟨hdepth, hdiagnostics, htree⟩

end SourceView.Stylesheet
