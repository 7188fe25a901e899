/-
Tags of markup, accounted for.

Every start tag of a text begins an element, and the elements come in the order of their
start tags.  Every end tag is that of one element of its name, or nothing waits for it and
that is noted.  An element that is not closed has a fault of its own, unless its end tag may
be left out.  Beyond these the parse notes nothing.

The lexer's part in this is small: no other token than that of an end tag closes anything,
and none of those is empty, so they are told apart by where they start.
-/
import SourceView.Analysis
import SourceView.Proofs.Markup.Boundaries
import SourceView.Proofs.Markup.Detail
import SourceView.Proofs.Parsing.ElementLedger
import SourceView.Proofs.Parsing.Grammars
import SourceView.Proofs.Parsing.Nesting

namespace SourceView.Markup

open Lexing
open Parsing Parsing.Cursor

/-! ### Closers of markup -/

/-- Whether a token of this kind closes nothing, unless it begins an end tag. -/
def closesByTag (kind : TokenKind) : Bool :=
  !kind.isCloser || kind == .tagClose

theorem closesByTag_of_trivia {kind : TokenKind} (h : kind.isTrivia = true) :
    closesByTag kind = true := by
  revert h
  cases kind <;> decide

theorem region_closesByTag {kind : TokenKind} (h : closesByTag kind = true) (style what : String)
    (opener : Nat) (closer : List Char) (pos : Nat) (text : List Char) :
    closesByTag (region kind style what opener closer pos text).lexeme.kind = true := by
  show closesByTag (delimited kind style what opener closer pos text).1.kind = true
  rw [delimited_kind]
  exact h

theorem scanAngle_closesByTag (pos : Nat) (text : List Char) :
    closesByTag (scanAngle pos text).lexeme.kind = true := by
  unfold scanAngle
  simp only
  split
  · exact region_closesByTag rfl ..
  split
  · exact region_closesByTag rfl ..
  split
  · exact region_closesByTag rfl ..
  split
  · exact region_closesByTag rfl ..
  split
  · rfl
  split <;> rfl

theorem characterData_closesByTag (c : Char) (rest : List Char) :
    closesByTag (characterData c rest).kind = true := by
  unfold characterData
  split
  · split <;> rfl
  · split
    · exact closesByTag_of_trivia (whitespace?_trivia ‹_›).1
    · rfl

theorem scanContent_closesByTag (detail : Detail) (pos : Nat) (c : Char) (rest : List Char) :
    closesByTag (scanContent detail pos c rest).lexeme.kind = true := by
  unfold scanContent
  split
  · exact scanAngle_closesByTag ..
  · cases detail with
    | rich => exact characterData_closesByTag ..
    | structural => rfl

theorem scanAttributes_closesByTag (tag : StartTag) (pos : Nat) (c : Char) (rest : List Char) :
    closesByTag (scanAttributes tag pos c rest).lexeme.kind = true := by
  unfold scanAttributes
  split
  · exact closesByTag_of_trivia (whitespace?_trivia ‹_›).1
  split
  · rfl
  split
  · rfl
  split
  · exact scanAngle_closesByTag pos (c :: rest)
  split
  · rfl
  split
  · unfold quotedValue
    split <;> rfl
  split
  · rfl
  split <;> rfl

theorem scanEndTag_closesByTag (name : String) (start pos : Nat) (c : Char) (rest : List Char) :
    closesByTag (scanEndTag name start pos c rest).lexeme.kind = true := by
  unfold scanEndTag
  split
  · rfl
  split
  · exact scanAngle_closesByTag pos (c :: rest)
  split
  · exact closesByTag_of_trivia (whitespace?_trivia ‹_›).1
  · rfl

theorem scanRawText_closesByTag (surroundings : Surroundings) (tag : StartTag) (pos : Nat)
    (c : Char) (rest : List Char) :
    closesByTag (scanRawText surroundings tag pos c rest).lexeme.kind = true := by
  unfold scanRawText
  simp only
  split
  · exact scanContent_closesByTag ..
  · rfl

theorem scan_closesByTag (surroundings : Surroundings) (mode : Mode) (pos : Nat)
    (text : List Char) :
    ∀ l ∈ (scan surroundings mode pos text).lexemes, closesByTag l.kind = true := by
  cases text with
  | nil => simp [scan]
  | cons c rest =>
      intro l hl
      rw [List.mem_singleton.mp hl]
      cases mode with
      | content => exact scanContent_closesByTag _ pos c rest
      | attributes tag => exact scanAttributes_closesByTag tag pos c rest
      | endTag name start => exact scanEndTag_closesByTag name start pos c rest
      | rawText tag => exact scanRawText_closesByTag surroundings tag pos c rest

/-- The closers of a run are its end tags, and none of them is empty. -/
theorem run_closers (surroundings : Surroundings) (mode : Mode) (pos : Nat) (text : List Char) :
    ∀ t ∈ ((scanner surroundings).run 0 mode pos text).tokens, t.kind.isCloser = true →
      t.kind = .tagClose ∧ t.start < t.stop := by
  intro t ht hcloser
  obtain ⟨mode, pos, text, htext, hcut⟩ := Scanner.exists_of_mem_run _ ht
  obtain ⟨l, hlexemes, hlook, -⟩ := scan_look surroundings mode pos htext
  obtain ⟨more, hpieces, hmore, -⟩ := Scan.cut_pieces hlexemes pos text
  change t ∈ Lexeme.cut pos text (scan surroundings mode pos text).pieces at hcut
  rw [hpieces, List.mem_cons] at hcut
  rcases hcut with rfl | hcut
  · have hkind : l.kind = .tagClose := by
      have hclose := scan_closesByTag surroundings mode pos text l (by simp [hlexemes])
      rw [closesByTag, show l.kind.isCloser = true from hcloser] at hclose
      exact beq_iff_eq.mp hclose
    refine ⟨hkind, ?_⟩
    have hlength := (hlook.close hkind).1
    have htext := List.length_pos_iff.mpr htext
    show (pos : Int) < (pos + (text.take l.length).length : Nat)
    rw [List.length_take]
    omega
  · rw [hmore t hcut] at hcloser
    exact absurd hcloser (by decide)

/-- The closers of a run are told apart by their starts. -/
theorem run_apart (surroundings : Surroundings) (mode : Mode) (pos : Nat) (text : List Char) :
    Token.Apart (((scanner surroundings).run 0 mode pos text).tokens.filter (·.kind.isCloser)) := by
  have htile := (scanner surroundings).run_tile mode pos text
  have horder := Token.InOrder.sublist (List.filter_sublist (p := fun t => t.kind.isCloser))
    (Token.Tile.inOrder htile)
  refine horder.apart ?_
  intro t ht
  obtain ⟨ht, hcloser⟩ := List.mem_filter.mp ht
  exact (run_closers surroundings mode pos text t ht hcloser).2

/-- What is known of the tokens of a run over markup whose bodies are not lexed. -/
structure PlainTags (tokens : List Token) : Prop where
  closers : ∀ t ∈ tokens, t.kind.isCloser = true → t.kind = .tagClose
  embedded : ∀ t ∈ tokens, t.embedded = []
  apart : Token.Apart (tokens.filter (·.kind.isCloser))

/-- The end tags are the closers. -/
theorem PlainTags.filter_tagClose {tokens : List Token} (h : PlainTags tokens) :
    tokens.filter (·.kind == .tagClose) = tokens.filter (·.kind.isCloser) := by
  refine List.filter_congr ?_
  intro t ht
  cases hcloser : t.kind.isCloser with
  | true => exact beq_iff_eq.mpr (h.closers t ht hcloser)
  | false =>
      refine beq_eq_false_iff_ne.mpr ?_
      intro hclose
      rw [hclose] at hcloser
      cases hcloser

theorem lex_plainTags (detail : Detail) (source : List Char) (start : Nat) (stop : Option Nat) :
    PlainTags (lex detail false source start stop).tokens := by
  have hrich : PlainTags (lex .rich false source start stop).tokens := by
    refine ⟨fun t ht hcloser => (run_closers _ _ _ _ t ht hcloser).1,
      lex_embedded source start stop, run_apart _ _ _ _⟩
  cases detail with
  | rich => exact hrich
  | structural =>
      rw [lex_structural]
      have hsub : ((lex .rich false source start stop).keep .structural).tokens.Sublist
          (lex .rich false source start stop).tokens := List.filter_sublist
      exact ⟨fun t ht => hrich.closers t (hsub.subset ht),
        fun t ht => hrich.embedded t (hsub.subset ht),
        hrich.apart.sublist (hsub.filter fun t => t.kind.isCloser)⟩

/-! ### Productions of markup -/

variable {input : Input}

theorem comment_tagsAccounted {c d : Cursor} {node : Node} (h : comment c = some (node, d)) :
    TagsAccounted input.tokens input.config.impliedEndTags c d [node] := by
  unfold comment at h
  cases hahead : c.ahead with
  | nil => simp [hahead] at h
  | cons t rest =>
      simp only [hahead] at h
      by_cases hkind : t.kind = .comment ∨ t.kind = .lineComment
      · simp only [if_pos hkind, Option.some.injEq, Prod.mk.injEq] at h
        obtain ⟨rfl, rfl⟩ := h
        refine .of_passesNoTag (passesNoTag_advance hahead ?_) rfl
        rcases hkind with hkind | hkind <;> rw [hkind] <;> rfl
      · simp [if_neg hkind] at h

theorem text_tagsAccounted {c d : Cursor} {node : Node} (h : text input c = some (node, d)) :
    TagsAccounted input.tokens input.config.impliedEndTags c d [node] := by
  unfold text at h
  by_cases hrich : input.rich = true
  · rw [if_pos hrich] at h
    cases hahead : c.ahead with
    | nil => simp [hahead] at h
    | cons t rest =>
        simp only [hahead] at h
        by_cases hkind : t.kind = .text ∨ t.kind = .entity
        · simp only [if_pos hkind, Option.some.injEq, Prod.mk.injEq] at h
          obtain ⟨rfl, rfl⟩ := h
          have hfiller := skims_advance hahead (not_isStructural_of_text hkind)
          exact .of_passesNoTag (hfiller.trans (skims_textLoop _ _ _)).passesNoTag rfl
        · simp [if_neg hkind] at h
  · rw [if_neg hrich] at h
    exact absurd h (by simp)

/-- A body that is not lexed has nothing in it. -/
theorem rawText_tagsAccounted (hembedded : ∀ t ∈ input.tokens, t.embedded = []) {c d : Cursor}
    {node : Node} (hwithin : c.Within input.tokens) (h : rawText input c = some (node, d)) :
    TagsAccounted input.tokens input.config.impliedEndTags c d [node] := by
  unfold rawText at h
  cases htoken : c.acceptKind? .rawText with
  | none => simp [htoken] at h
  | some found =>
      obtain ⟨t, c'⟩ := found
      obtain ⟨hkind, -, rfl, hahead⟩ := accept?_eq_some htoken
      have hnone : t.embedded = [] := by
        refine hembedded t ?_
        rw [hwithin, hahead]
        exact List.mem_append_right _ List.mem_cons_self
      simp only [htoken, hnone, List.isEmpty_nil, if_true, Option.some.injEq, Prod.mk.injEq] at h
      obtain ⟨rfl, rfl⟩ := h
      refine .of_passesNoTag (passesNoTag_advance hahead ?_) rfl
      rw [hkind]
      rfl

/-- What may stand among elements accounts for the tags, as long as elements do not stand inside each
other more than `height` deep. -/
theorem accountsForTags_choice (htags : PlainTags input.tokens) (height : Nat) (symbols : List Symbol)
    (helement : .element ∈ symbols) (hdocument : .document ∉ symbols) :
    AccountsForTags input height (choice (symbols.map (readWithin input height))) := by
  have hmoves (height : Nat) (symbols : List Symbol) (hdocument : .document ∉ symbols) :
      Moves (choice (symbols.map (readWithin input height))) := by
    refine Moves.choice_map fun s hs => moves_readWithin input height s ?_
    rintro rfl
    exact hdocument hs
  induction height generalizing symbols with
  | zero =>
      refine { hmoves 0 symbols hdocument with opens := ?_, accounted := ?_ }
      · exact fun _ _ hn => absurd hn (Nat.not_lt_zero _)
      · exact fun _ hn => absurd hn (Nat.not_lt_zero _)
  | succ height ih =>
      have hread : AccountsForTags input (height + 1) (readWithin input (height + 1) .element) :=
        (ih Symbol.children (by decide) (by decide)).element htags.closers
      refine { hmoves (height + 1) symbols hdocument with opens := ?_, accounted := ?_ }
      · intro c t rest hahead hopen hn
        obtain ⟨found, hfound⟩ := hread.opens hahead hopen hn
        cases hchoice : choice (symbols.map (readWithin input (height + 1))) c with
        | some found => exact ⟨found, rfl⟩
        | none =>
            have hnone := choice_eq_none.mp hchoice _ (List.mem_map_of_mem helement)
            rw [hfound] at hnone
            cases hnone
      · intro c node d hwithin hn hshallow h
        obtain ⟨p, hp, hresult⟩ := choice_eq_some h
        obtain ⟨s, hs, rfl⟩ := List.mem_map.mp hp
        cases s with
        | document => exact absurd hs hdocument
        | comment => exact comment_tagsAccounted hresult
        | element => exact hread.accounted hwithin hn hshallow hresult
        | text => exact text_tagsAccounted hresult
        | rawText => exact rawText_tagsAccounted htags.embedded hwithin hresult

/-! ### Passes -/

/-- The elements of a parse of markup account for its tags. -/
theorem parse_accounted (htags : PlainTags input.tokens)
    (hshallow : Shallow (grammar.parse input).faults) :
    Accounted (Tagged input.tokens input.config.impliedEndTags)
      ((grammar.parse input).tree.walk.filter Node.isElement)
      (input.tokens.filter (·.kind == .tagOpen)) (input.tokens.filter (·.kind == .tagClose))
      (grammar.parse input).faults := by
  rw [parse_eq] at hshallow ⊢
  have hreads := accountsForTags_choice htags (3 * input.bound) Symbol.outer (by decide) (by decide)
  have hheight : input.cursor.ahead.length < 3 * input.bound := by
    show input.tokens.length < 3 * (input.tokens.length + 1)
    omega
  obtain ⟨⟨ts, faults, hts, -, hfaults, haccounted⟩, hend⟩ := itemsLoop_tagsAccounted hreads input.bound
    input.cursor rfl rfl hheight (Nat.lt_succ_self _)
    (fun f hf => hshallow f (List.mem_reverse.mpr hf))
  unfold items
  generalize itemsLoop (choice (Symbol.outer.map (readWithin input (3 * input.bound)))) none
    input.bound input.cursor = all at *
  have htokens : input.tokens = ts := by
    rw [hend, List.append_nil] at hts
    exact hts
  have hnoted : all.cursor.faults.reverse = faults := by
    rw [hfaults, List.reverse_append, List.reverse_reverse]
    rfl
  rw [← htokens, ← htags.filter_tagClose] at haccounted
  show Accounted _ ((Node.container input.start input.stop .document all.nodes).walk.filter
    Node.isElement) _ _ all.cursor.faults.reverse
  rw [Node.walk_eq, hnoted]
  exact haccounted

/-- **Every tag of markup is accounted for.**  Unless something is past the nesting limit, the
elements are, in preorder, those of the start tags; each end tag closes one element of its
name, or it closes nothing and has one fault; an element that is not closed has one fault of
its own, unless its end tag may be left out; and nothing else is noted. -/
theorem tags_accounted (config : Config) (hembed : config.embeddedLanguages = false)
    (detail : Detail) (source : List Char) :
    let pass := Language.markup.pass config detail source
    Shallow pass.parse.faults →
      ∃ entries stray, Accounts (Tagged pass.lexing.tokens config.impliedEndTags)
          (pass.parse.tree.walk.filter Node.isElement)
          (pass.lexing.tokens.filter (·.kind == .tagOpen))
          (pass.lexing.tokens.filter (·.kind == .tagClose)) pass.parse.faults entries stray
        ∧ Token.Apart (pass.lexing.tokens.filter (·.kind == .tagClose))
        ∧ (∀ t ∈ stray, pass.parse.faults.countP (Fault.isAt Anomaly.isUnexpected t) = 1)
        ∧ ∀ e ∈ entries, e.node.closed? = some false →
          (e.fault = none ↔ config.impliedEndTags = true
            ∧ Markup.optionalEndTags.contains (Text.lower (tagName e.opener)) = true) := by
  intro pass hshallow
  have htags : PlainTags pass.lexing.tokens := by
    show PlainTags (Language.markup.lex detail config.embeddedLanguages source 0 none).tokens
    rw [hembed, Language.lex_markup]
    exact lex_plainTags detail source 0 none
  have hapart : Token.Apart (pass.lexing.tokens.filter (·.kind == .tagClose)) := by
    rw [htags.filter_tagClose]
    exact htags.apart
  obtain ⟨entries, stray, haccounts⟩ := parse_accounted htags hshallow
  refine ⟨entries, stray, haccounts, hapart, ?_, ?_⟩
  · intro t ht
    exact haccounts.countP_unexpected hapart (fun e he => he.not_isUnexpected) ht
  · intro e he hclosed
    exact (haccounts.fits e he).fault_eq_none_iff hclosed

/-- Of a list item and a bold run that the end of their list ends, an end tag that nothing waits
for, and an element at the end of the text, all but the list item are noted. -/
theorem tags_accounted_of_damaged_list :
    let config : Config := { embeddedLanguages := false }
    let pass := Language.markup.pass config .rich "<ul><li><b>x</ul></p><div>".toList
    config.embeddedLanguages = false ∧ Shallow pass.parse.faults ∧ pass.parse.faults.length = 3
      ∧ ∃ entries stray, Accounts (Tagged pass.lexing.tokens config.impliedEndTags)
          (pass.parse.tree.walk.filter Node.isElement)
          (pass.lexing.tokens.filter (·.kind == .tagOpen))
          (pass.lexing.tokens.filter (·.kind == .tagClose)) pass.parse.faults entries stray := by
  intro config pass
  have hshallow : Shallow pass.parse.faults := by
    unfold Shallow
    decide +kernel
  obtain ⟨entries, stray, haccounts, -⟩ :=
    tags_accounted { embeddedLanguages := false } rfl .rich "<ul><li><b>x</ul></p><div>".toList
      hshallow
  exact ⟨rfl, hshallow, by decide +kernel, entries, stray, haccounts⟩

end SourceView.Markup
