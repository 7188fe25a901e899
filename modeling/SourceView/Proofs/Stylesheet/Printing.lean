/-
Rules of classes as they are printed, and how the lexer reads them.

A rule has a class for its selector and a body of declarations and further rules, and all of
it is printed without spaces.  The lexer then has nothing but the state to tell words apart:
whether a statement is a nested rule it finds out by the first brace or semicolon ahead, and
whether a word is a property or a value by the colon.  Between statements the state says no
more than which blocks are open, and every statement leads back to that.
-/
import SourceView.Proofs.Lexing.Pieces
import SourceView.Proofs.Stylesheet.Ahead
import SourceView.Tree.Node

namespace SourceView.Stylesheet

open Lexing Piece

/-! ### What is printed -/

/-- A word of small letters. -/
structure Word where
  text : String
  nonempty : text ≠ ""
  letters : text.toList.all Char.isLower = true

/-- What stands in the body of a rule: a property with its value, or a rule for a class. -/
inductive Statement where
  | declaration (property value : Word)
  | rule (name : Word) (body : List Statement)

/-- A rule for a class. -/
structure ClassRule where
  name : Word
  body : List Statement

/-- The statement that a rule is. -/
def ClassRule.statement (r : ClassRule) : Statement :=
  .rule r.name r.body

mutual

/-- A statement as it is printed. -/
def Statement.print : Statement → List Char
  | .declaration property value => property.text.toList ++ ':' :: value.text.toList ++ [';']
  | .rule name body => '.' :: name.text.toList ++ '{' :: printAll body ++ ['}']

/-- Statements as they are printed, with nothing between them. -/
def printAll : List Statement → List Char
  | [] => []
  | s :: ss => s.print ++ printAll ss

end

mutual

/-- The node of a statement that is printed at offset `pos`. -/
def Statement.node (pos : Nat) : Statement → Node
  | .declaration property value =>
    .leaf pos (pos + (Statement.declaration property value).print.length : Nat)
      (.declaration property.text value.text false)
  | .rule name body =>
    let stop := pos + (Statement.rule name body).print.length
    let brace := pos + ('.' :: name.text.toList).length
    .container pos stop (.rule ("." ++ name.text) true)
      [.container brace stop (.block true) (nodes (brace + 1) body)]

/-- The nodes of statements that are printed one after another. -/
def nodes (pos : Nat) : List Statement → List Node
  | [] => []
  | s :: ss => s.node pos :: nodes (pos + s.print.length) ss

end

mutual

/-- How many rules stand inside each other in a statement. -/
def Statement.depth : Statement → Nat
  | .declaration _ _ => 0
  | .rule _ body => depthAll body + 1

/-- How many rules stand inside each other among statements. -/
def depthAll : List Statement → Nat
  | [] => 0
  | s :: ss => max s.depth (depthAll ss)

end

/-! ### Pieces -/

/-- One character of punctuation. -/
def sign (kind : TokenKind) (c : Char) : Piece :=
  ⟨kind, "punctuation", [c]⟩

namespace Word

/-- A word that names a property. -/
def property (w : Word) : Piece :=
  ⟨.property, if isKnownProperty w.text then "property" else "property-unknown", w.text.toList⟩

/-- A word that is a value. -/
def value (w : Word) : Piece :=
  let look := wordKind { blocks := [true], inValue := true } w.text.toList
  ⟨look.1, look.2, w.text.toList⟩

/-- A word that names a class. -/
def selector (w : Word) : Piece :=
  ⟨.selector, "selector-class", '.' :: w.text.toList⟩

end Word

mutual

/-- The pieces of a statement. -/
def Statement.pieces : Statement → List Piece
  | .declaration property value =>
    [property.property, sign .colon ':', value.value, sign .semicolon ';']
  | .rule name body =>
    name.selector :: sign .blockOpen '{' :: (piecesAll body ++ [sign .blockClose '}'])

/-- The pieces of statements. -/
def piecesAll : List Statement → List Piece
  | [] => []
  | s :: ss => s.pieces ++ piecesAll ss

end

mutual

theorem Statement.spell_pieces : ∀ s : Statement, spell s.pieces = s.print
  | .declaration property value => by
    simp [Statement.pieces, Statement.print, Word.property, Word.value, sign]
  | .rule name body => by
    simp [Statement.pieces, Statement.print, Word.selector, sign, spell_piecesAll body]

theorem spell_piecesAll : ∀ ss : List Statement, spell (piecesAll ss) = printAll ss
  | [] => rfl
  | s :: ss => by rw [piecesAll, printAll, spell_append, s.spell_pieces, spell_piecesAll ss]

end

mutual

/-- Every level of nesting has pieces of its own. -/
theorem Statement.depth_le : ∀ s : Statement, s.depth ≤ s.pieces.length
  | .declaration _ _ => Nat.zero_le _
  | .rule name body => by
    have hbody := depthAll_le body
    simp only [Statement.depth, Statement.pieces, List.length_append, List.length_cons]
    omega

theorem depthAll_le : ∀ ss : List Statement, depthAll ss ≤ (piecesAll ss).length
  | [] => Nat.le_refl 0
  | s :: ss => by
    have hfirst := s.depth_le
    have hothers := depthAll_le ss
    simp only [depthAll, piecesAll, List.length_append]
    omega

end

theorem length_le_piecesAll (ss : List Statement) : ss.length ≤ (piecesAll ss).length := by
  induction ss with
  | nil => exact Nat.le_refl 0
  | cons s ss ih =>
      have hfirst : 0 < s.pieces.length := by cases s <;> simp [Statement.pieces]
      simp only [piecesAll, List.length_append, List.length_cons]
      omega

/-! ### Small letters -/

theorem toNat_of_isLower {c : Char} (h : c.isLower = true) : 97 ≤ c.toNat ∧ c.toNat ≤ 122 := by
  have hbounds : (decide ('a'.val ≤ c.val) && decide (c.val ≤ 'z'.val)) = true := h
  simpa [UInt32.le_iff_toNat_le, ← Char.toNat_val] using hbounds

/-- A small letter is none of the characters that are no small letters. -/
theorem ne_of_isLower {c d : Char} (h : c.isLower = true) (hd : d.isLower = false) : c ≠ d := by
  rintro rfl
  rw [h] at hd
  exact absurd hd (by simp)

theorem isAlpha_of_isLower {c : Char} (h : c.isLower = true) : c.isAlpha = true := by
  show (c.isUpper || c.isLower) = true
  rw [h, Bool.or_true]

theorem isNameChar_of_isLower {c : Char} (h : c.isLower = true) : isNameChar c = true := by
  simp [isNameChar, Text.isAlphanumeric_of_isAlpha (isAlpha_of_isLower h)]

theorem isNameStart_of_isLower {c : Char} (h : c.isLower = true) : isNameStart c = true := by
  simp [isNameStart, Text.isLetter_of_isAlpha (isAlpha_of_isLower h)]

theorem not_isDigit_of_isLower {c : Char} (h : c.isLower = true) : c.isDigit = false := by
  obtain ⟨hlo, -⟩ := toNat_of_isLower h
  rw [Bool.eq_false_iff]
  intro hdigit
  obtain ⟨-, hhi⟩ := Char.isDigit_iff_toNat.mp hdigit
  have h9 : '9'.toNat = 57 := rfl
  omega

theorem whitespace?_of_isLower {c : Char} (h : c.isLower = true) (rest : List Char) :
    whitespace? (c :: rest) = none := by
  have hspace : isSpace c = false := by
    simp [isSpace, ne_of_isLower h (d := ' ') rfl, ne_of_isLower h (d := '\t') rfl,
      ne_of_isLower h (d := '\x0c') rfl, ne_of_isLower h (d := '\x0b') rfl,
      ne_of_isLower h (d := '\u00a0') rfl, ne_of_isLower h (d := '\ufeff') rfl]
  simp [whitespace?, hspace, ne_of_isLower h (d := '\n') rfl, ne_of_isLower h (d := '\r') rfl]

theorem delimiter?_of_isLower {c : Char} (h : c.isLower = true) : delimiter? c = none := by
  unfold delimiter?
  split
  case h_7 => rfl
  -- No delimiter is a small letter.
  all_goals exact absurd h (by decide)

theorem Word.toList_ne_nil (w : Word) : w.text.toList ≠ [] :=
  fun h => w.nonempty (String.toList_eq_nil_iff.mp h)

theorem Word.isLower_of_mem (w : Word) : ∀ c ∈ w.text.toList, c.isLower = true :=
  List.all_eq_true.mp w.letters

theorem Word.exists_cons (w : Word) :
    ∃ c cs, w.text.toList = c :: cs ∧ c.isLower = true ∧ ∀ d ∈ cs, d.isLower = true := by
  obtain ⟨c, cs, hword⟩ : ∃ c cs, w.text.toList = c :: cs :=
    List.exists_cons_of_ne_nil w.toList_ne_nil
  exact ⟨c, cs, hword, w.isLower_of_mem c (hword ▸ List.mem_cons_self),
    fun d hd => w.isLower_of_mem d (hword ▸ List.mem_cons_of_mem c hd)⟩

/-! ### What the lexer reads -/

section Lexer

variable {s : LexState} {pos : Nat} {rest : List Char}

/-- A word does not tell whether a brace opens before the statement ends. -/
theorem looksNested_word (w : Word) (rest : List Char) :
    LexState.looksNested (w.text.toList ++ rest) = LexState.looksNested rest := by
  have hword : w.text.toList.find? (fun c => c == '{' || c == ';' || c == '}') = none := by
    rw [List.find?_eq_none]
    intro c hc
    have hlower := w.isLower_of_mem c hc
    simp [ne_of_isLower hlower (d := '{') rfl, ne_of_isLower hlower (d := ';') rfl,
      ne_of_isLower hlower (d := '}') rfl]
  rw [LexState.looksNested, LexState.looksNested, List.find?_append, hword, Option.none_or]

/-- A name of small letters ends at a character that goes with no name. -/
theorem nameLength_of_isLower {cs : List Char} (hcs : ∀ c ∈ cs, c.isLower = true) {d : Char}
    (hd : isNameChar d = false) : nameLength (cs ++ d :: rest) = cs.length := by
  have hhead : (d :: rest).head?.any isNameChar = false := hd
  rw [nameLength, countWhile,
    takeWhile_append_of_head (fun c hc => isNameChar_of_isLower (hcs c hc)) hhead]

/-- A word up to a character that goes with no name is one piece. -/
theorem scanWord_word (w : Word) {d : Char} (hname : isNameChar d = false) (hparen : d ≠ '(') :
    scanWord s (w.text.toList ++ d :: rest) =
      { lexemes := [{ kind := (wordKind s w.text.toList).1, length := w.text.toList.length
                      style := (wordKind s w.text.toList).2 }]
        state := s } := by
  obtain ⟨c, cs, hword, -, hcs⟩ := w.exists_cons
  have hlen : nameLength (cs ++ d :: rest) = cs.length := nameLength_of_isLower hcs hname
  have htake : (c :: (cs ++ d :: rest)).take (1 + cs.length) = c :: cs := by
    rw [Nat.add_comm, List.take_succ_cons, List.take_left]
  have hdrop : (c :: (cs ++ d :: rest)).drop (1 + cs.length) = d :: rest := by
    rw [Nat.add_comm, List.drop_succ_cons, List.drop_left]
  rw [hword, List.cons_append]
  simp only [scanWord, List.tail_cons, hlen, htake, hdrop]
  simp [hparen, Nat.add_comm]

theorem startsNumber_of_isLower {c : Char} (hc : c.isLower = true) (inSelector : Bool) :
    startsNumber inSelector (c :: rest) = false := by
  simp [startsNumber, not_isDigit_of_isLower hc, ne_of_isLower hc (d := '.') rfl,
    ne_of_isLower hc (d := '+') rfl, ne_of_isLower hc (d := '-') rfl]

/-- No rule but the one for words begins at a small letter. -/
theorem scanInStatement_of_isLower {c : Char} (hc : c.isLower = true) :
    scanInStatement s pos c rest = scanWord s (c :: rest) := by
  simp [scanInStatement, ne_of_isLower hc (d := '"') rfl, ne_of_isLower hc (d := '\'') rfl,
    ne_of_isLower hc (d := ',') rfl, ne_of_isLower hc (d := '@') rfl, ne_of_isLower hc (d := ':') rfl,
    ne_of_isLower hc (d := '#') rfl, ne_of_isLower hc (d := '!') rfl, ne_of_isLower hc (d := '-') rfl,
    ne_of_isLower hc (d := '.') rfl, startsNumber_of_isLower hc, isNameStart_of_isLower hc]

theorem scanRich_word {s' : LexState} {p : Piece} (w : Word) {d : Char} (hname : isNameChar d = false)
    (hparen : d ≠ '(') (hbegin : s.begin (w.text.toList ++ d :: rest) = s')
    (hkind : wordKind s' w.text.toList = (p.kind, p.style)) (htext : p.text = w.text.toList) :
    scanRich s pos (w.text.toList ++ d :: rest) = ⟨[p.lexeme], s', []⟩ := by
  have hword : scanRich s pos (w.text.toList ++ d :: rest)
      = scanWord (s.begin (w.text.toList ++ d :: rest)) (w.text.toList ++ d :: rest) := by
    obtain ⟨c, cs, hword, hc, -⟩ := w.exists_cons
    rw [hword, List.cons_append]
    simp [scanRich, whitespace?_of_isLower hc, delimiter?_of_isLower hc, scanInStatement_of_isLower hc,
      ne_of_isLower hc (d := '/') rfl, ne_of_isLower hc (d := '{') rfl,
      ne_of_isLower hc (d := '}') rfl, ne_of_isLower hc (d := ';') rfl]
  rw [hword, hbegin, scanWord_word w hname hparen, hkind, Piece.lexeme, htext]

/-- A class is one piece, where the statement is no declaration. -/
theorem scanRich_selector (w : Word) (pos : Nat)
    (hselector : (s.begin ('.' :: (w.text.toList ++ '{' :: rest))).inSelector = true) :
    scanRich s pos ('.' :: (w.text.toList ++ '{' :: rest)) =
      { lexemes := [{ kind := .selector, length := ('.' :: w.text.toList).length
                      style := "selector-class" }]
        state := s.begin ('.' :: (w.text.toList ++ '{' :: rest)) } := by
  obtain ⟨c, cs, hword, hc, hcs⟩ := w.exists_cons
  have hlen : nameLength (w.text.toList ++ '{' :: rest) = w.text.toList.length :=
    nameLength_of_isLower w.isLower_of_mem (by decide)
  have hdigit : startsDigit (w.text.toList ++ '{' :: rest) = false := by
    simp [startsDigit, hword, not_isDigit_of_isLower hc]
  have hstarts : startsName (w.text.toList ++ '{' :: rest) = true := by
    simp [startsName, hword, isNameStart_of_isLower hc]
  simp [scanRich, scanInStatement, whitespace?, isSpace, delimiter?, startsNumber, hdigit, hstarts,
    hlen, hselector, Nat.add_comm]

/-- The colon after a property. -/
theorem scanRich_colon (bs : List Bool) (pos : Nat) (rest : List Char) :
    scanRich { blocks := true :: bs, atStart := false } pos (':' :: rest)
      = ⟨[mark .colon], { blocks := true :: bs, atStart := false, inValue := true }, []⟩ := by
  simp [scanRich, scanInStatement, whitespace?, isSpace, delimiter?, LexState.begin, scanColon,
    LexState.inSelector, LexState.inDeclarations]

/-- A sign is read wherever it stands. -/
theorem reads_sign {s' s'' : LexState} {ps : List Piece} {kind : TokenKind} {c : Char}
    (hscan : ∀ pos rest, scanRich s pos (c :: rest) = ⟨[mark kind], s', []⟩)
    (hps : richScanner.Reads s' (pos + 1) ps rest s'') :
    richScanner.Reads s pos (sign kind c :: ps) rest s'' :=
  Scanner.Reads.cons (List.cons_ne_nil _ _) (hscan pos _) hps

/-- A word is read up to a sign. -/
theorem reads_word {s' s'' : LexState} {p : Piece} {ps : List Piece} (w : Word) {kind : TokenKind}
    {d : Char} (hname : isNameChar d = false) (hparen : d ≠ '(') (htext : p.text = w.text.toList)
    (hkind : wordKind s' w.text.toList = (p.kind, p.style))
    (hbegin : s.begin (w.text.toList ++ d :: (spell ps ++ rest)) = s')
    (hps : richScanner.Reads s' (pos + w.text.toList.length) (sign kind d :: ps) rest s'') :
    richScanner.Reads s pos (p :: sign kind d :: ps) rest s'' := by
  rw [← htext] at hps
  refine Scanner.Reads.cons (htext ▸ w.toList_ne_nil) ?_ hps
  rw [htext]
  exact scanRich_word w hname hparen hbegin hkind htext

/-- A declaration is not taken for a rule, as its semicolon comes before any brace. -/
theorem begin_declaration (property value : Word) (bs : List Bool) (rest : List Char) :
    LexState.begin { blocks := true :: bs }
        (property.text.toList ++ ':' :: (value.text.toList ++ ';' :: rest))
      = { blocks := true :: bs, atStart := false } := by
  have hnested : LexState.looksNested
      (property.text.toList ++ ':' :: (value.text.toList ++ ';' :: rest)) = false := by
    rw [looksNested_word]
    show LexState.looksNested (value.text.toList ++ ';' :: rest) = false
    rw [looksNested_word]
    rfl
  simp [LexState.begin, hnested]

theorem wordKind_property (w : Word) (bs : List Bool) :
    wordKind { blocks := true :: bs, atStart := false } w.text.toList
      = (w.property.kind, w.property.style) := by
  simp [wordKind, LexState.inSelector, LexState.inDeclarations, Word.property]

theorem wordKind_value (w : Word) (bs : List Bool) :
    wordKind { blocks := true :: bs, atStart := false, inValue := true } w.text.toList
      = (w.value.kind, w.value.style) := rfl

/-- The lexer reads a declaration, and then waits for the next statement. -/
theorem declaration_reads (property value : Word) (bs : List Bool) :
    richScanner.Reads { blocks := true :: bs } pos (Statement.declaration property value).pieces rest
      { blocks := true :: bs } := by
  have hbegin : LexState.begin { blocks := true :: bs } (property.text.toList ++ ':' ::
      (spell [value.value, sign .semicolon ';'] ++ rest))
      = { blocks := true :: bs, atStart := false } := by
    rw [← begin_declaration property value bs rest, spell_cons, List.append_assoc]
    rfl
  unfold Statement.pieces
  refine reads_word property (by decide) (by decide) rfl (wordKind_property property bs) hbegin ?_
  refine reads_sign (scanRich_colon bs) ?_
  refine reads_word value (by decide) (by decide) rfl (wordKind_value value bs) rfl ?_
  exact reads_sign (fun _ _ => rfl) Scanner.Reads.nil

/-- A class is read as a selector wherever a statement may begin: in a block of declarations, as
the brace comes before any semicolon. -/
theorem inSelector_rule (name : Word) (bs : List Bool) (rest : List Char) :
    (LexState.begin { blocks := bs } ('.' :: (name.text.toList ++ '{' :: rest))).inSelector = true := by
  have hnested : LexState.looksNested ('.' :: (name.text.toList ++ '{' :: rest)) = true := by
    show LexState.looksNested (name.text.toList ++ '{' :: rest) = true
    rw [looksNested_word]
    rfl
  simp [LexState.begin, LexState.inSelector, LexState.inDeclarations, hnested]

mutual

theorem Statement.reads : ∀ (s : Statement) (bs : List Bool) (pos : Nat) (rest : List Char),
    richScanner.Reads { blocks := true :: bs } pos s.pieces rest { blocks := true :: bs }
  | .declaration property value, bs, pos, rest => declaration_reads property value bs
  | .rule name body, bs, pos, rest => rule_reads name body (true :: bs) pos rest

/-- The lexer reads a rule in any block, and then waits for the next statement. -/
theorem rule_reads : ∀ (name : Word) (body : List Statement) (bs : List Bool) (pos : Nat)
    (rest : List Char),
    richScanner.Reads { blocks := bs } pos (Statement.rule name body).pieces rest { blocks := bs }
  | name, body, bs, pos, rest => by
    unfold Statement.pieces
    have hselector := inSelector_rule name bs
      (spell (piecesAll body ++ [sign .blockClose '}']) ++ rest)
    refine Scanner.Reads.cons (List.cons_ne_nil _ _) (scanRich_selector name pos hselector) ?_
    refine reads_sign (fun _ _ => rfl) ?_
    show richScanner.Reads { blocks := true :: bs } _ _ _ _
    refine Scanner.Reads.append (reads_all body bs _ _) ?_
    exact reads_sign (fun _ _ => rfl) Scanner.Reads.nil

theorem reads_all : ∀ (ss : List Statement) (bs : List Bool) (pos : Nat) (rest : List Char),
    richScanner.Reads { blocks := true :: bs } pos (piecesAll ss) rest { blocks := true :: bs }
  | [], _, _, _ => Scanner.Reads.nil
  | s :: ss, bs, pos, rest => Scanner.Reads.append (s.reads bs pos _) (reads_all ss bs _ rest)

end

/-- Outside of all blocks the lexer reads rules alone. -/
theorem reads_rules (rules : List ClassRule) (pos : Nat) :
    richScanner.Reads {} pos (piecesAll (rules.map ClassRule.statement)) rest {} := by
  induction rules generalizing pos with
  | nil => exact Scanner.Reads.nil
  | cons r rules ih => exact Scanner.Reads.append (rule_reads r.name r.body [] pos _) (ih _)

/-- The lexer takes what is printed for its pieces, and finds nothing wrong. -/
theorem lex_printAll (rules : List ClassRule) :
    lex .rich 0 (printAll (rules.map ClassRule.statement))
      = ⟨tokens 0 (piecesAll (rules.map ClassRule.statement)), []⟩ := by
  rw [← spell_piecesAll, lex, (reads_rules rules 0).run_eq]
  rfl

end Lexer

end SourceView.Stylesheet
