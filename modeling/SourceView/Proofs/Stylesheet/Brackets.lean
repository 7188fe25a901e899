/-
Brackets of a stylesheet, settled one by one.

The outline of a stylesheet is about three pairs of brackets and about comments.  What its
parse does with a token depends on which closers are awaited, and on nothing else: an opener
begins a node; a closer ends the innermost container if that waits for it, ends all up to one
further out if that waits for it, and ends nothing otherwise.

`Settles` says this of a stretch of tokens, by one rule for each thing that may happen.  From
the rules alone the nodes, closers and faults of the parse are matched, and it is seen that nothing is noted
just when the brackets match.

`Course` says the same of the loop of the parse, with its cursors.  What holds of the parse of
an outline is an induction on that: the tokens settle as long as no container is past the
nesting limit.
-/
import SourceView.Proofs.Lexing.EndTags
import SourceView.Proofs.Parsing.Ledger
import SourceView.Proofs.Parsing.Turns
import SourceView.Proofs.Stylesheet.Looks
import SourceView.Proofs.Stylesheet.Outline
import SourceView.Proofs.Tree.Walks

namespace SourceView.Stylesheet

open Lexing
open Parsing Parsing.Cursor

/-! ### Tokens of an outline -/

/-- The containers of an outline. -/
def groups : List Group := [.block, .parentheses, .brackets]

/-- Whether tokens of this kind begin a node of an outline. -/
def beginsNode (kind : TokenKind) : Bool :=
  kind == .comment || groups.any (·.opener == kind)

/-- Whether an outline is made of tokens of this kind. -/
def IsBracket (kind : TokenKind) : Prop :=
  kind = .comment ∨ ∃ g ∈ groups, kind = g.opener ∨ kind = g.closer

theorem isCloser_closer {g : Group} (hg : g ∈ groups) : g.closer.isCloser = true := by
  revert g
  decide

theorem not_isCloser_opener {g : Group} (hg : g ∈ groups) : g.opener.isCloser = false := by
  revert g
  decide

theorem beginsNode_opener {g : Group} (hg : g ∈ groups) : beginsNode g.opener = true := by
  revert g
  decide

theorem ne_comment {g : Group} (hg : g ∈ groups) : g.opener ≠ .comment ∧ g.closer ≠ .comment := by
  revert g
  decide

theorem not_beginsNode_of_isCloser {kind : TokenKind} (h : kind.isCloser = true) :
    beginsNode kind = false := by
  revert h
  cases kind <;> decide

theorem isBracket_delimiter {c : Char} {kind : TokenKind} (h : delimiter? c = some kind) :
    IsBracket kind := by
  unfold delimiter? at h
  split at h <;> cases h
  · exact Or.inr ⟨.block, by simp [groups], Or.inl rfl⟩
  · exact Or.inr ⟨.block, by simp [groups], Or.inr rfl⟩
  · exact Or.inr ⟨.parentheses, by simp [groups], Or.inl rfl⟩
  · exact Or.inr ⟨.parentheses, by simp [groups], Or.inr rfl⟩
  · exact Or.inr ⟨.brackets, by simp [groups], Or.inl rfl⟩
  · exact Or.inr ⟨.brackets, by simp [groups], Or.inr rfl⟩

/-- A look of a structural run names one piece, which takes some of the text, and what of it
is kept is a bracket or a comment. -/
theorem scanStructural_single (pos : Nat) {text : List Char} (htext : text ≠ []) :
    ∃ l, (scanStructural () pos text).lexemes = [l] ∧ 0 < l.length
      ∧ (l.kind.isStructural = true → IsBracket l.kind) := by
  cases text with
  | nil => exact absurd rfl htext
  | cons c rest =>
      simp only [scanStructural]
      split
      · refine ⟨_, rfl, delimited_length_pos _ _ _ Nat.two_pos _ pos htext, fun _ => ?_⟩
        rw [delimited_kind]
        exact Or.inl rfl
      split
      · rename_i kind hkind
        exact ⟨_, rfl, Nat.one_pos, fun _ => isBracket_delimiter hkind⟩
      split
      · refine ⟨_, rfl, quotedLiteral_length_pos .., fun h => absurd h ?_⟩
        unfold quotedLiteral
        simp only
        split <;> simp [TokenKind.isStructural]
      · refine ⟨_, rfl, Nat.add_pos_left Nat.one_pos _, fun h => absurd h ?_⟩
        simp [TokenKind.isStructural]

theorem lex_brackets (pos : Nat) (text : List Char) :
    ∀ t ∈ (lex .structural pos text).tokens, IsBracket t.kind ∧ t.start < t.stop := by
  intro t ht
  obtain ⟨hrun, hkept⟩ := List.mem_filter.mp ht
  obtain ⟨s, pos, text, htext, hcut⟩ := structuralScanner.exists_of_mem_run hrun
  obtain ⟨l, hl, hpos, hkind⟩ := scanStructural_single pos htext
  obtain ⟨more, hpieces, hmore, -⟩ := Scan.cut_pieces hl pos text
  rw [show structuralScanner.scan s pos text = scanStructural () pos text from rfl, hpieces,
    List.mem_cons] at hcut
  rcases hcut with rfl | hcut
  · refine ⟨hkind hkept, ?_⟩
    have hlen := List.length_pos_iff.mpr htext
    show (pos : Int) < (pos + (text.take l.length).length : Nat)
    rw [List.length_take]
    omega
  · rw [hmore t hcut] at hkept
    exact absurd hkept (by decide)

theorem inOrder_lex (pos : Nat) (text : List Char) :
    Token.InOrder pos (pos + text.length : Nat) (lex .structural pos text).tokens :=
  Token.InOrder.sublist List.filter_sublist
    (Token.Tile.inOrder (structuralScanner.run_tile () pos text))

/-- The tokens of an outline are told apart by their starts. -/
theorem lex_apart (pos : Nat) (text : List Char) :
    Token.Apart (lex .structural pos text).tokens :=
  (inOrder_lex pos text).apart fun t ht => (lex_brackets pos text t ht).2

/-! ### Settling -/

/-- What may become of a token that begins a node of an outline.  A container that is closed
ends with its closer; one that is not has a fault at its opener. -/
inductive Settled : Entry → Prop
  | comment {t : Token} (ht : t.kind = .comment) :
      Settled { node := .leaf t.start t.stop .comment, opener := t }
  | closed {g : Group} (hg : g ∈ groups) {t u : Token} (ht : t.kind = g.opener)
      (hu : u.kind = g.closer) (children : List Node) :
      Settled
        { node := .container t.start u.stop (g.node true) children, opener := t, closer := some u }
  | unclosed {g : Group} (hg : g ∈ groups) {t : Token} (ht : t.kind = g.opener) (stop : Int)
      (children : List Node) :
      Settled
        { node := .container t.start stop (g.node false) children, opener := t
          fault := some ⟨.unclosed g.what g.expected, t.start, t.stop⟩ }

/-- No closer of a group comes next: the tokens end, or another closer does. -/
def Interrupted (g : Group) (ts : List Token) : Prop :=
  ∀ t rest, ts = t :: rest → t.kind.isCloser = true ∧ t.kind ≠ g.closer

/-- The tokens `ts`, before the tokens `after`, give these nodes and these faults where the
closers `awaited` may still come. -/
inductive Settles : (awaited : List TokenKind) → (ts after : List Token) → List Node →
    List Fault → Prop
  | done {awaited : List TokenKind} {after : List Token} : Settles awaited [] after [] []
  | comment {awaited : List TokenKind} {t : Token} {ts after : List Token} {nodes : List Node}
      {faults : List Fault} (ht : t.kind = .comment) (hmore : Settles awaited ts after nodes faults) :
      Settles awaited (t :: ts) after (.leaf t.start t.stop .comment :: nodes) faults
  | stray {awaited : List TokenKind} {t : Token} {ts after : List Token} {nodes : List Node}
      {faults : List Fault} (ht : t.kind.isCloser = true) (hnot : t.kind ∉ awaited)
      (hmore : Settles awaited ts after nodes faults) :
      Settles awaited (t :: ts) after nodes (strayFault t :: faults)
  | closed {awaited : List TokenKind} {g : Group} {t u : Token} {inner ts after : List Token}
      {children nodes : List Node} {faults faults' : List Fault} (hg : g ∈ groups)
      (ht : t.kind = g.opener) (hu : u.kind = g.closer)
      (hinner : Settles (g.closer :: awaited) inner (u :: (ts ++ after)) children faults)
      (hmore : Settles awaited ts after nodes faults') :
      Settles awaited (t :: (inner ++ u :: ts)) after
        (.container t.start u.stop (g.node true) children :: nodes) (faults ++ faults')
  | unclosed {awaited : List TokenKind} {g : Group} {t : Token} {inner ts after : List Token}
      {stop : Int} {children nodes : List Node} {faults faults' : List Fault} (hg : g ∈ groups)
      (ht : t.kind = g.opener) (hend : Interrupted g (ts ++ after))
      (hinner : Settles (g.closer :: awaited) inner (ts ++ after) children faults)
      (hmore : Settles awaited ts after nodes faults') :
      Settles awaited (t :: (inner ++ ts)) after
        (.container t.start stop (g.node false) children :: nodes)
        (faults ++ ⟨.unclosed g.what g.expected, t.start, t.stop⟩ :: faults')

namespace Settles

variable {awaited : List TokenKind} {ts after : List Token} {nodes : List Node}
  {faults : List Fault}

/-- **Whatever settles is accounted for.** -/
theorem accounted (h : Settles awaited ts after nodes faults) :
    Accounted Settled (Node.preorderAll nodes) (ts.filter (beginsNode ·.kind))
      (ts.filter (·.kind.isCloser)) faults := by
  induction h with
  | done => exact .nil
  | @comment awaited t ts after nodes faults ht hmore ih =>
      have hbegins : beginsNode t.kind = true := by rw [ht]; rfl
      have hcloser : t.kind.isCloser = false := by rw [ht]; rfl
      simp only [List.filter_cons, hbegins, hcloser, if_true, Bool.false_eq_true, if_false]
      exact ih.cons (.comment ht)
  | @stray awaited t ts after nodes faults ht hnot hmore ih =>
      simp only [List.filter_cons, not_beginsNode_of_isCloser ht, ht, if_true,
        Bool.false_eq_true, if_false]
      exact ih.astray t
  | @closed awaited g t u inner ts after children nodes faults faults' hg ht hu _ _ ihinner ih =>
      have hbegins : beginsNode t.kind = true := ht ▸ beginsNode_opener hg
      have hopener : t.kind.isCloser = false := ht ▸ not_isCloser_opener hg
      have hcloser : u.kind.isCloser = true := hu ▸ isCloser_closer hg
      simp only [List.filter_cons, List.filter_append, hbegins, hopener,
        not_beginsNode_of_isCloser hcloser, hcloser, if_true, Bool.false_eq_true, if_false]
      refine ((ihinner.append ih).cons (.closed hg ht hu children)).of_perm ?_ (List.Perm.refl _)
      show List.Perm (u :: (inner.filter (·.kind.isCloser) ++ ts.filter (·.kind.isCloser))) _
      exact List.perm_middle.symm
  | @unclosed awaited g t inner ts after stop children nodes faults faults' hg ht _ _ _ ihinner ih =>
      have hbegins : beginsNode t.kind = true := ht ▸ beginsNode_opener hg
      have hopener : t.kind.isCloser = false := ht ▸ not_isCloser_opener hg
      simp only [List.filter_cons, List.filter_append, hbegins, hopener, if_true,
        Bool.false_eq_true, if_false]
      refine ((ihinner.append ih).cons (.unclosed hg ht stop children)).of_perm
        (List.Perm.refl _) ?_
      show List.Perm (⟨.unclosed g.what g.expected, t.start, t.stop⟩ :: (faults ++ faults')) _
      exact List.perm_middle.symm

end Settles

/-! ### Matching brackets -/

/-- The sequences of brackets in which every opener is matched by a closer of its own kind,
with comments anywhere. -/
inductive Balanced : List TokenKind → Prop
  | nil : Balanced []
  | comment {kinds : List TokenKind} (hmore : Balanced kinds) : Balanced (.comment :: kinds)
  | group {g : Group} (hg : g ∈ groups) {inner kinds : List TokenKind} (hinner : Balanced inner)
      (hmore : Balanced kinds) : Balanced (g.opener :: (inner ++ g.closer :: kinds))

/-- The closers that are awaited after one more token; a closer has to be the one that is
awaited first. -/
def settleStep (awaited : List TokenKind) (kind : TokenKind) : Option (List TokenKind) :=
  match groups.find? (·.opener == kind) with
  | some g => some (g.closer :: awaited)
  | none =>
    if kind.isCloser then if awaited.head? = some kind then some awaited.tail else none
    else some awaited

/-- The closers that are awaited after some tokens. -/
def settle (awaited kinds : List TokenKind) : Option (List TokenKind) :=
  kinds.foldlM settleStep awaited

theorem settle_cons (awaited : List TokenKind) (kind : TokenKind) (kinds : List TokenKind) :
    settle awaited (kind :: kinds) = (settleStep awaited kind).bind (settle · kinds) :=
  List.foldlM_cons

theorem settle_append (awaited kinds more : List TokenKind) :
    settle awaited (kinds ++ more) = (settle awaited kinds).bind (settle · more) :=
  List.foldlM_append

theorem settle_comment (awaited kinds : List TokenKind) :
    settle awaited (.comment :: kinds) = settle awaited kinds :=
  settle_cons awaited .comment kinds

theorem settle_opener {g : Group} (hg : g ∈ groups) (awaited kinds : List TokenKind) :
    settle awaited (g.opener :: kinds) = settle (g.closer :: awaited) kinds := by
  have hstep : settleStep awaited g.opener = some (g.closer :: awaited) := by
    simp only [groups, List.mem_cons, List.not_mem_nil, or_false] at hg
    rcases hg with rfl | rfl | rfl <;> rfl
  rw [settle_cons, hstep, Option.bind_some]

theorem settle_closer {kind : TokenKind} (hkind : kind.isCloser = true)
    (awaited kinds : List TokenKind) :
    settle awaited (kind :: kinds)
      = if awaited.head? = some kind then settle awaited.tail kinds else none := by
  have hfind : groups.find? (·.opener == kind) = none := by
    revert hkind
    cases kind <;> decide
  rw [settle_cons, settleStep, hfind]
  by_cases hfirst : awaited.head? = some kind <;> simp [hkind, hfirst]

theorem Balanced.settle {kinds : List TokenKind} (h : Balanced kinds) (awaited : List TokenKind) :
    settle awaited kinds = some awaited := by
  induction h generalizing awaited with
  | nil => rfl
  | comment _ ih => rw [settle_comment, ih]
  | group hg _ _ ihinner ih =>
      rw [settle_opener hg, settle_append, ihinner, Option.bind_some,
        settle_closer (isCloser_closer hg), List.head?_cons, if_pos rfl, List.tail_cons, ih]

namespace Settles

variable {awaited : List TokenKind} {ts after : List Token} {nodes : List Node}
  {faults : List Fault}

/-- Brackets of which nothing is noted match. -/
theorem balanced (h : Settles awaited ts after nodes []) : Balanced (ts.map (·.kind)) := by
  generalize hnone : [] = faults at h
  induction h with
  | done => exact .nil
  | comment ht _ ih =>
      rw [List.map_cons, ht]
      exact .comment (ih hnone)
  | stray => exact absurd hnone (by simp)
  | closed hg ht hu _ _ ihinner ih =>
      obtain ⟨hnone, hnone'⟩ := List.append_eq_nil_iff.mp hnone.symm
      rw [List.map_cons, List.map_append, List.map_cons, ht, hu]
      exact .group hg (ihinner hnone.symm) (ih hnone'.symm)
  | unclosed => exact absurd hnone (by simp)

/-- Nothing is noted of brackets that match as far as the tokens go: then they leave the
closers awaited that were. -/
theorem silent (h : Settles awaited ts after nodes faults)
    (hmatch : settle awaited ((ts ++ after).map (·.kind)) = some []) :
    faults = [] ∧ settle awaited (ts.map (·.kind)) = some awaited := by
  induction h with
  | done => exact ⟨rfl, rfl⟩
  | comment ht _ ih =>
      rw [List.cons_append, List.map_cons, ht, settle_comment] at hmatch
      rw [List.map_cons, ht, settle_comment]
      exact ih hmatch
  | @stray awaited t ts after nodes faults ht hnot _ ih =>
      rw [List.cons_append, List.map_cons, settle_closer ht, if_neg] at hmatch
      · exact absurd hmatch (by simp)
      · intro hhead
        exact hnot (List.mem_of_mem_head? hhead)
  | @closed awaited g t u inner ts after children nodes faults faults' hg ht hu _ _ ihinner ih =>
      rw [List.cons_append, List.append_assoc, List.map_cons, ht, settle_opener hg] at hmatch
      obtain ⟨hfaults, hinner⟩ := ihinner hmatch
      rw [List.map_append, settle_append, hinner, Option.bind_some, List.cons_append,
        List.map_cons, hu, settle_closer (isCloser_closer hg), List.head?_cons, if_pos rfl] at hmatch
      obtain ⟨hfaults', hrest⟩ := ih hmatch
      refine ⟨by rw [hfaults, hfaults', List.append_nil], ?_⟩
      rw [List.map_cons, List.map_append, List.map_cons, ht, hu, settle_opener hg, settle_append,
        hinner, Option.bind_some, settle_closer (isCloser_closer hg), List.head?_cons, if_pos rfl]
      exact hrest
  | @unclosed awaited g t inner ts after stop children nodes faults faults' hg ht hend _ _
      ihinner ih =>
      -- What comes next is no closer of the group, so the brackets do not match after all.
      rw [List.cons_append, List.append_assoc, List.map_cons, ht, settle_opener hg] at hmatch
      obtain ⟨-, hinner⟩ := ihinner hmatch
      rw [List.map_append, settle_append, hinner, Option.bind_some] at hmatch
      cases hrest : ts ++ after with
      | nil => simp [hrest, settle] at hmatch
      | cons u rest =>
          obtain ⟨hcloser, hne⟩ := hend u rest hrest
          rw [hrest, List.map_cons, settle_closer hcloser, if_neg] at hmatch
          · exact absurd hmatch (by simp)
          · intro hhead
            exact hne (Option.some.inj hhead).symm

/-- **Of a whole outline nothing is noted just if its brackets match.** -/
theorem faults_eq_nil_iff (h : Settles [] ts [] nodes faults) :
    faults = [] ↔ Balanced (ts.map (·.kind)) := by
  constructor
  · rintro rfl
    exact h.balanced
  · intro hbalanced
    refine (h.silent ?_).1
    rw [List.append_nil]
    exact hbalanced.settle []

end Settles

/-! ### Parses -/

variable {input : Input} {starts : Array Bool} {height : Nat} {c : Cursor} {t : Token}
  {rest : List Token}

/-- An opener has its group read. -/
theorem structures_group (starts : Array Bool) (height : Nat) (hrich : input.rich = false)
    {g : Group} (hg : g ∈ groups) (hahead : c.ahead = t :: rest) (ht : t.kind = g.opener) :
    derive.structures (readWithin input starts (height + 1)) c
      = g.read input (derive.structures (readWithin input starts height)) c := by
  have hread : ∃ symbol ∈ Symbol.structures, readWithin input starts (height + 1) symbol
      = g.read input (derive.structures (readWithin input starts height)) := by
    simp only [groups, List.mem_cons, List.not_mem_nil, or_false] at hg
    rcases hg with rfl | rfl | rfl
    · refine ⟨.block, by simp [Symbol.structures], ?_⟩
      rw [← statement_of_outline hrich]
      rfl
    · exact ⟨.parentheses, by simp [Symbol.structures], rfl⟩
    · exact ⟨.brackets, by simp [Symbol.structures], rfl⟩
  obtain ⟨symbol, hsymbol, hread⟩ := hread
  obtain ⟨found, hfound⟩ : ∃ found,
      g.read input (derive.structures (readWithin input starts height)) c = some found := by
    rw [Group.read, acceptKind?_of_eq hahead ht]
    by_cases hdeep : c.advance.tooDeep = true <;> simp [hdeep]
  rw [hfound]
  rw [← hread] at hfound
  exact (begins_structures input starts (height + 1)).choice hsymbol hfound

/-- The closers that the open containers wait for. -/
def awaited (c : Cursor) : List TokenKind :=
  c.opened.map (·.closer)

/-- A closer is passed as stray just if no open container waits for one of its kind. -/
theorem recover?_bracket (ht : t.kind ≠ .tagClose) :
    c.recover? t = if t.kind ∈ awaited c then none
      else some (c.note (unexpectedCloser t) t.start t.stop).advance := by
  have hexpects : c.expects t.kind none = true ↔ t.kind ∈ awaited c := by
    simp [expects, awaited]
  rw [recover?]
  simp only [if_neg ht, hexpects]

theorem awaited_of_leads {d : Cursor} (h : c.Leads d) : awaited d = awaited c :=
  congrArg (List.map OpenContainer.closer) h.opened

theorem awaited_advance (c : Cursor) : awaited c.advance = awaited c :=
  awaited_of_leads (leads_advance c)

theorem advance_note (c : Cursor) (cause : Anomaly) (start stop : Int) :
    (c.note cause start stop).advance = c.advance.note cause start stop := by
  obtain ⟨behind, ahead, faults, opened, reports⟩ := c
  cases ahead <;> rfl

theorem not_isTrivia_of_isBracket {kind : TokenKind} (h : IsBracket kind) :
    kind.isTrivia = false := by
  rcases h with rfl | ⟨g, hg, rfl | rfl⟩
  · rfl
  · revert g
    decide
  · revert g
    decide

/-- A container past the nesting limit is noted. -/
theorem mem_faults_skipBalanced (input : Input) (opener : Token) (closer : TokenKind) (c : Cursor) :
    ⟨.tooDeep, opener.start, opener.stop⟩ ∈ (skipBalanced input opener closer c).2.faults :=
  List.mem_cons_self

theorem ne_tagClose {g : Group} (hg : g ∈ groups) : g.closer ≠ .tagClose := by
  revert g
  decide

/-! ### The course of a loop -/

/-- The course of a loop over the children of an outline's containers, from a cursor to what it
finds, by one rule for each thing that may come next. -/
inductive Course (input : Input) : Option TokenKind → Cursor → Items → Prop
  | stops {closer : Option TokenKind} {c : Cursor}
      (hend : ∀ t rest, c.ahead = t :: rest →
        t.kind ∈ awaited c ∧ t.kind.isCloser = true ∧ some t.kind ≠ closer) :
      Course input closer c ⟨[], none, c⟩
  | closes {closer : Option TokenKind} {c : Cursor} {t : Token} {rest : List Token}
      (hahead : c.ahead = t :: rest) (ht : some t.kind = closer) :
      Course input closer c ⟨[], some t, c.advance⟩
  | comment {closer : Option TokenKind} {c : Cursor} {t : Token} {rest : List Token} {all : Items}
      (hahead : c.ahead = t :: rest) (ht : t.kind = .comment)
      (hmore : Course input closer c.advance all) :
      Course input closer c { all with nodes := .leaf t.start t.stop .comment :: all.nodes }
  | stray {closer : Option TokenKind} {c : Cursor} {t : Token} {rest : List Token} {all : Items}
      (hahead : c.ahead = t :: rest) (ht : t.kind.isCloser = true) (hnot : t.kind ∉ awaited c)
      (hmore : Course input closer (c.note (unexpectedCloser t) t.start t.stop).advance all) :
      Course input closer c all
  | skipped {closer : Option TokenKind} {c : Cursor} {t : Token} {rest : List Token} {all : Items}
      {g : Group} (hahead : c.ahead = t :: rest) (hg : g ∈ groups) (ht : t.kind = g.opener)
      (hdeep : c.advance.tooDeep = true)
      (hmore : Course input closer (skipBalanced input t g.closer c.advance).2 all) :
      Course input closer c
        { all with
          nodes := .container t.start (skipBalanced input t g.closer c.advance).1 (g.node true) []
            :: all.nodes }
  | closed {closer : Option TokenKind} {c : Cursor} {t u : Token} {rest : List Token}
      {inner all : Items} {g : Group} (hahead : c.ahead = t :: rest) (hg : g ∈ groups)
      (ht : t.kind = g.opener) (hdeep : ¬ c.advance.tooDeep = true)
      (hinner : Course input (some g.closer)
        (c.advance.push { closer := g.closer, start := t.start }) inner)
      (hu : inner.closer = some u)
      (hmore : Course input closer (inner.cursor.closeTo c.advance) all) :
      Course input closer c
        { all with nodes := .container t.start u.stop (g.node true) inner.nodes :: all.nodes }
  | unclosed {closer : Option TokenKind} {c : Cursor} {t : Token} {rest : List Token}
      {inner all : Items} {g : Group} (hahead : c.ahead = t :: rest) (hg : g ∈ groups)
      (ht : t.kind = g.opener) (hdeep : ¬ c.advance.tooDeep = true)
      (hinner : Course input (some g.closer)
        (c.advance.push { closer := g.closer, start := t.start }) inner)
      (hnone : inner.closer = none)
      (hmore : Course input closer
        ((inner.cursor.closeTo c.advance).note (.unclosed g.what g.expected) t.start t.stop) all) :
      Course input closer c
        { all with
          nodes := .container t.start (inner.cursor.unclosedEnd input) (g.node false) inner.nodes
            :: all.nodes }

section

variable {turns : Nat} {closer : Option TokenKind} {g : Group}

/-- At a closer that is not its own, the loop ends, or the closer is passed. -/
theorem course_other {item : Production} (hahead : c.ahead = t :: rest) (hg : g ∈ groups)
    (ht : t.kind = g.closer) (hown : some t.kind ≠ closer)
    (hmore : ∀ d, c.advance.Passes d → Course input closer d (itemsLoop item closer turns d)) :
    Course input closer c (itemsLoop item closer (turns + 1) c) := by
  have hcloser : t.kind.isCloser = true := ht ▸ isCloser_closer hg
  have htrivia := not_isTrivia_of_isBracket (Or.inr ⟨g, hg, Or.inr ht⟩)
  rw [itemsLoop_other hahead hcloser htrivia hown, recover?_bracket (ht ▸ ne_tagClose hg)]
  by_cases hawaited : t.kind ∈ awaited c
  · rw [if_pos hawaited]
    refine .stops fun u us hu => ?_
    cases hahead.symm.trans hu
    exact ⟨hawaited, hcloser, hown⟩
  · rw [if_neg hawaited]
    refine .stray hahead hcloser hawaited (hmore _ ?_)
    rw [advance_note]
    exact (leads_note ..).passes

/-- At an opener the loop has the container read, and goes on behind it. -/
theorem course_opener (hrich : input.rich = false) (hahead : c.ahead = t :: rest) (hg : g ∈ groups)
    (ht : t.kind = g.opener) (hown : some t.kind ≠ closer)
    (hinner : Course input (some g.closer)
      (c.advance.push { closer := g.closer, start := t.start })
      (g.inside input (derive.structures (readWithin input starts height)) t c.advance))
    (hmore : ∀ d, c.advance.Passes d → Course input closer d
      (itemsLoop (derive.structures (readWithin input starts (height + 1))) closer turns d)) :
    Course input closer c
      (itemsLoop (derive.structures (readWithin input starts (height + 1))) closer (turns + 1)
        c) := by
  have hcloser : t.kind.isCloser = false := ht ▸ not_isCloser_opener hg
  have htrivia := not_isTrivia_of_isBracket (Or.inr ⟨g, hg, Or.inl ht⟩)
  have hread := structures_group starts height hrich hg hahead ht
  by_cases hdeep : c.advance.tooDeep = true
  · rw [Group.read_deep hahead ht hdeep] at hread
    rw [itemsLoop_item hahead htrivia hown hcloser hread]
    exact .skipped hahead hg ht hdeep (hmore _ (leads_skipBalanced ..).passes)
  rw [Group.read_shallow hahead ht hdeep] at hread
  have hinside : c.advance.Leads ((g.inside input
      (derive.structures (readWithin input starts height)) t c.advance).cursor.closeTo c.advance) :=
    (leads_itemsLoop (fits_structures starts height).toMoves ..).close
  cases hclosed : (g.inside input (derive.structures (readWithin input starts height)) t
    c.advance).closer with
  | some u =>
      rw [Group.body_closed hclosed] at hread
      rw [itemsLoop_item hahead htrivia hown hcloser hread]
      exact .closed hahead hg ht hdeep hinner hclosed (hmore _ hinside.passes)
  | none =>
      rw [Group.body_unclosed hclosed] at hread
      rw [itemsLoop_item hahead htrivia hown hcloser hread]
      exact .unclosed hahead hg ht hdeep hinner hclosed
        (hmore _ (hinside.trans (leads_note ..)).passes)

end

/-- The loop over the children of an outline's containers takes its course, with turns for all
the tokens ahead and symbols high enough for as many containers in each other. -/
theorem course (starts : Array Bool) (hrich : input.rich = false) {turns : Nat}
    (htokens : ∀ t ∈ c.ahead, IsBracket t.kind) (hbound : c.ahead.length < input.bound)
    (hheight : c.ahead.length ≤ height) (hturns : c.ahead.length < turns)
    (closer : Option TokenKind) :
    Course input closer c
      (itemsLoop (derive.structures (readWithin input starts height)) closer turns c) := by
  induction hn : c.ahead.length using Nat.strongRecOn generalizing c height turns closer with
  | ind n ih =>
  obtain ⟨turns, rfl⟩ : ∃ k, turns = k + 1 := ⟨turns - 1, by omega⟩
  cases hahead : c.ahead with
  | nil =>
      rw [itemsLoop_nil hahead]
      exact .stops fun t rest ht => absurd (hahead.symm.trans ht) (by simp)
  | cons t rest =>
      rw [hahead, List.length_cons] at hn hbound hheight hturns
      rw [hahead] at htokens
      obtain ⟨height, rfl⟩ : ∃ k, height = k + 1 := ⟨height - 1, by omega⟩
      have hbracket := htokens t (by simp)
      -- Wherever this loop or one inside of it goes on, it takes its course from there.
      have hmore (height' turns' : Nat) (hheight' : rest.length ≤ height')
          (hturns' : rest.length < turns') (closer' : Option TokenKind) (d : Cursor)
          (hpasses : c.advance.Passes d) :
          Course input closer' d
            (itemsLoop (derive.structures (readWithin input starts height')) closer' turns' d) := by
        obtain ⟨ts, hts, -⟩ := hpasses
        rw [ahead_advance hahead] at hts
        have hlength := congrArg List.length hts
        rw [List.length_append] at hlength
        refine ih _ (by omega) ?_ (by omega) (by omega) (by omega) closer' rfl
        intro u hu
        refine htokens u (List.mem_cons_of_mem t ?_)
        rw [hts]
        exact List.mem_append_right ts hu
      have hgoes := hmore (height + 1) turns (by omega) (by omega) closer
      by_cases hown : some t.kind = closer
      · rw [itemsLoop_closer hahead (not_isTrivia_of_isBracket hbracket) hown]
        exact .closes hahead hown
      rcases hbracket with ht | ⟨g, hg, ht | ht⟩
      · have hreader : Reader (derive.structures (readWithin input starts (height + 1))) :=
          reader_structures starts height
        have hcloser : t.kind.isCloser = false := by rw [ht]; rfl
        rw [itemsLoop_item hahead (not_isTrivia_of_isBracket (Or.inl ht)) hown hcloser
          (hreader.comment hahead ht)]
        exact .comment hahead ht (hgoes _ (Passes.refl _))
      · exact course_opener hrich hahead hg ht hown
          (hmore height input.bound (by omega) (by omega) (some g.closer)
            (c.advance.push { closer := g.closer, start := t.start }) (Passes.refl _)) hgoes
      · exact course_other hahead hg ht hown hgoes

namespace Course

variable {closer : Option TokenKind} {all : Items}

theorem leads (h : Course input closer c all) : c.Leads all.cursor := by
  induction h with
  | stops => exact Leads.refl _
  | closes => exact leads_advance _
  | comment _ _ _ ih => exact (leads_advance _).trans ih
  | stray _ _ _ _ ih => exact (leads_note ..).trans ((leads_advance _).trans ih)
  | skipped _ _ _ _ _ ih => exact (leads_advance _).trans ((leads_skipBalanced ..).trans ih)
  | closed _ _ _ _ _ _ _ ihinner ih => exact (leads_advance _).trans (ihinner.close.trans ih)
  | unclosed _ _ _ _ _ _ _ ihinner ih =>
      exact (leads_advance _).trans (ihinner.close.trans ((leads_note ..).trans ih))

/-- A token that ends the loop is of the kind that the loop was to end at. -/
theorem kind_of_closer (h : Course input closer c all) {u : Token} (hu : all.closer = some u) :
    some u.kind = closer := by
  induction h with
  | stops => cases hu
  | closes _ ht =>
      cases hu
      exact ht
  | comment _ _ _ ih | stray _ _ _ _ ih | skipped _ _ _ _ _ ih => exact ih hu
  | closed _ _ _ _ _ _ _ _ ih | unclosed _ _ _ _ _ _ _ _ ih => exact ih hu

/-- Where no token of the loop's own ends it, one does that a container further out waits for,
if any is left. -/
theorem interrupted (h : Course input closer c all) (hnone : all.closer = none) {u : Token}
    {us : List Token} (hu : all.cursor.ahead = u :: us) :
    u.kind ∈ awaited c ∧ u.kind.isCloser = true ∧ some u.kind ≠ closer := by
  rw [← awaited_of_leads h.leads]
  induction h with
  | stops hend => exact hend u us hu
  | closes => cases hnone
  | comment _ _ _ ih | stray _ _ _ _ ih | skipped _ _ _ _ _ ih => exact ih hnone hu
  | closed _ _ _ _ _ _ _ _ ih | unclosed _ _ _ _ _ _ _ _ ih => exact ih hnone hu

/-- Nothing is awaited outside of all containers, so nothing stops the loop there. -/
theorem whole (h : Course input none c all) (hopened : c.opened = []) :
    all.closer = none ∧ all.cursor.ahead = [] := by
  have hcloser : all.closer = none := by
    cases hcloser : all.closer with
    | none => rfl
    | some u => exact absurd (h.kind_of_closer hcloser) (by simp)
  refine ⟨hcloser, ?_⟩
  cases hahead : all.cursor.ahead with
  | nil => rfl
  | cons u us => exact absurd (h.interrupted hcloser hahead).1 (by simp [awaited, hopened])

end Course

/-- The parse of an outline is what the loop outside of all containers finds, and that takes
its course to the end of the tokens. -/
theorem parse_course (hrich : input.rich = false) (htokens : ∀ t ∈ input.tokens, IsBracket t.kind) :
    ∃ all, grammar.parse input = Parse.ofItems grammar input all
      ∧ Course input none input.cursor all ∧ all.closer = none ∧ all.cursor.ahead = [] := by
  rw [parse_eq, statement_of_outline hrich]
  have hheight : input.cursor.ahead.length ≤ 3 * input.bound := by
    show input.tokens.length ≤ 3 * (input.tokens.length + 1)
    omega
  have hbound : input.cursor.ahead.length < input.bound := Nat.lt_succ_self _
  have hcourse := course (ruleStarts input.tokens).toArray hrich htokens hbound hheight hbound none
  exact ⟨_, rfl, hcourse, hcourse.whole rfl⟩

/-! ### Settled tokens -/

/-- A loop over children came to `all`, from a cursor with the tokens `ahead` and the faults
`before`: it has settled the tokens that it passed. -/
def Settling (awaited : List TokenKind) (before : List Fault) (ahead : List Token) (all : Items) :
    Prop :=
  ∃ ts faults, ahead = ts ++ (all.closer.toList ++ all.cursor.ahead)
    ∧ Settles awaited ts (all.closer.toList ++ all.cursor.ahead) all.nodes faults
    ∧ all.cursor.faults = faults.reverse ++ before

namespace Settling

variable {awaited : List TokenKind} {before : List Fault} {ahead : List Token}
  {all inner : Items} {g : Group}

theorem comment (ht : t.kind = .comment) (h : Settling awaited before ahead all) :
    Settling awaited before (t :: ahead)
      { all with nodes := .leaf t.start t.stop .comment :: all.nodes } := by
  obtain ⟨ts, faults, rfl, hsettles, hfaults⟩ := h
  exact ⟨t :: ts, faults, rfl, .comment ht hsettles, hfaults⟩

theorem stray (ht : t.kind.isCloser = true) (hnot : t.kind ∉ awaited)
    (h : Settling awaited (strayFault t :: before) ahead all) :
    Settling awaited before (t :: ahead) all := by
  obtain ⟨ts, faults, rfl, hsettles, hfaults⟩ := h
  refine ⟨t :: ts, strayFault t :: faults, rfl, .stray ht hnot hsettles, ?_⟩
  rw [hfaults, List.reverse_cons, List.append_assoc]
  rfl

/-- Behind an opener one closer more is awaited. -/
theorem of_push {o : OpenContainer} (hahead : c.ahead = t :: rest)
    (h : Settling (Stylesheet.awaited (c.advance.push o)) (c.advance.push o).faults
      (c.advance.push o).ahead all) :
    Settling (o.closer :: Stylesheet.awaited c) c.faults rest all := by
  rw [← awaited_advance, ← faults_advance, ← ahead_advance hahead]
  exact h

theorem closed (hg : g ∈ groups) (ht : t.kind = g.opener)
    (hinner : Settling (g.closer :: awaited) before ahead inner) {u : Token}
    (hu : inner.closer = some u) (hkind : u.kind = g.closer)
    (h : Settling awaited inner.cursor.faults inner.cursor.ahead all) :
    Settling awaited before (t :: ahead)
      { all with nodes := .container t.start u.stop (g.node true) inner.nodes :: all.nodes } := by
  obtain ⟨ts, faults, rfl, hsettles, hfaults⟩ := hinner
  obtain ⟨us, faults', hus, hsettles', hfaults'⟩ := h
  rw [hu, hus] at hsettles
  refine ⟨t :: (ts ++ u :: us), faults ++ faults', ?_, .closed hg ht hkind hsettles hsettles', ?_⟩
  · simp [hu, hus]
  · rw [hfaults', hfaults, List.reverse_append, List.append_assoc]

theorem unclosed (hg : g ∈ groups) (ht : t.kind = g.opener)
    (hinner : Settling (g.closer :: awaited) before ahead inner) (hnone : inner.closer = none)
    (hend : Interrupted g inner.cursor.ahead) (stop : Int)
    (h : Settling awaited (⟨.unclosed g.what g.expected, t.start, t.stop⟩ :: inner.cursor.faults)
      inner.cursor.ahead all) :
    Settling awaited before (t :: ahead)
      { all with nodes := .container t.start stop (g.node false) inner.nodes :: all.nodes } := by
  obtain ⟨ts, faults, rfl, hsettles, hfaults⟩ := hinner
  obtain ⟨us, faults', hus, hsettles', hfaults'⟩ := h
  rw [hnone, hus] at hsettles
  rw [hus] at hend
  refine ⟨t :: (ts ++ us), faults ++ ⟨.unclosed g.what g.expected, t.start, t.stop⟩ :: faults',
    ?_, .unclosed hg ht hend hsettles hsettles', ?_⟩
  · simp [hnone, hus]
  · rw [hfaults', hfaults]
    simp

end Settling

/-- Unless a container is past the nesting limit, the loop settles the tokens that it passes. -/
theorem Course.settling {closer : Option TokenKind} {all : Items}
    (h : Course input closer c all) (hshallow : Shallow all.cursor.faults) :
    Settling (awaited c) c.faults c.ahead all := by
  induction h with
  | stops => exact ⟨[], [], rfl, .done, rfl⟩
  | closes hahead => exact ⟨[], [], by rw [hahead, ahead_advance hahead]; rfl, .done, faults_advance _⟩
  | @comment closer c t rest all hahead ht _ ih =>
      have hsettling := ih hshallow
      rw [awaited_advance, faults_advance, ahead_advance hahead] at hsettling
      rw [hahead]
      exact hsettling.comment ht
  | @stray closer c t rest all hahead ht hnot _ ih =>
      have hsettling := ih hshallow
      rw [awaited_advance, faults_advance,
        ahead_advance (r := c.note (unexpectedCloser t) t.start t.stop) hahead] at hsettling
      rw [hahead]
      exact hsettling.stray ht hnot
  | skipped _ _ _ _ hmore =>
      exact absurd rfl (hshallow _ (hmore.leads.faults.subset (mem_faults_skipBalanced ..)))
  | @closed closer c t u rest inner all g hahead hg ht _ hinner hu hmore ihinner ih =>
      have hinside := (ihinner (hshallow.of_suffix hmore.leads.faults)).of_push hahead
      have hsettling := ih hshallow
      rw [awaited_of_leads (hinner.leads.close (c := c.advance)), awaited_advance] at hsettling
      rw [hahead]
      exact hinside.closed hg ht hu (Option.some.inj (hinner.kind_of_closer hu)) hsettling
  | @unclosed closer c t rest inner all g hahead hg ht _ hinner hnone hmore ihinner ih =>
      have hbefore := hshallow.of_suffix hmore.leads.faults
      have hinside := (ihinner (hbefore.of_suffix (List.suffix_cons _ _))).of_push hahead
      have hsettling := ih hshallow
      rw [awaited_of_leads ((hinner.leads.close (c := c.advance)).trans (leads_note ..)),
        awaited_advance] at hsettling
      have hend : Interrupted g inner.cursor.ahead := by
        intro u us hu
        obtain ⟨-, hcloser, hne⟩ := hinner.interrupted hnone hu
        exact ⟨hcloser, fun hsame => hne (congrArg some hsame)⟩
      rw [hahead]
      exact hinside.unclosed hg ht hnone hend _ hsettling

/-- The tokens of an outline settle to its tree and its faults. -/
theorem parse_settles (hrich : input.rich = false)
    (htokens : ∀ t ∈ input.tokens, IsBracket t.kind)
    (hshallow : Shallow (grammar.parse input).faults) :
    ∃ nodes, (grammar.parse input).tree = .container input.start input.stop .document nodes
      ∧ Settles [] input.tokens [] nodes (grammar.parse input).faults := by
  obtain ⟨all, hparse, hcourse, hcloser, hahead⟩ := parse_course hrich htokens
  rw [hparse] at hshallow ⊢
  obtain ⟨ts, faults, hts, hsettles, hfaults⟩ :=
    hcourse.settling fun f hf => hshallow f (List.mem_reverse.mpr hf)
  rw [hcloser, hahead] at hts hsettles
  have htokens : input.tokens = ts := hts.trans (List.append_nil ts)
  refine ⟨all.nodes, rfl, ?_⟩
  show Settles [] input.tokens [] all.nodes all.cursor.faults.reverse
  rw [hfaults, htokens, List.reverse_append, List.reverse_reverse]
  exact hsettles

/-- A container that is not closed has its fault at its opener. -/
theorem Settled.unclosed_fault {e : Entry} (h : Settled e) (hclosed : e.node.closed? = some false) :
    ∃ f, e.fault = some f ∧ f.isAt Anomaly.isUnclosed e.opener = true := by
  cases h with
  | comment => exact absurd hclosed (by simp [Node.closed?])
  | @closed g hg t u ht hu children =>
      simp only [groups, List.mem_cons, List.not_mem_nil, or_false] at hg
      rcases hg with rfl | rfl | rfl <;>
        simp [Node.closed?, Group.block, Group.parentheses, Group.brackets] at hclosed
  | unclosed => exact ⟨_, rfl, by simp [Fault.isAt, Anomaly.isUnclosed]⟩

/-- Every fault of an entry says that a container was not closed, and is at its opener. -/
theorem Settled.fault {e : Entry} (h : Settled e) :
    ∀ f ∈ e.fault, f.cause.isUnexpected = false ∧ f.start = e.opener.start := by
  intro f hf
  cases h with
  | comment => exact absurd hf (by simp)
  | closed => exact absurd hf (by simp)
  | unclosed =>
      rw [← Option.some.inj hf]
      exact ⟨rfl, rfl⟩

/-- **The outline of a stylesheet accounts for every bracket.**  Unless a container is past
the nesting limit, the nodes of the tree are, in preorder, those of the openers and comments;
a node that is closed ends with a closer of its own kind, each closer ends at most one node,
and a closer that ends none has one fault; a node that is not closed has one fault at its
opener; and nothing at all is noted just if the brackets match. -/
theorem outline_accounted (w : Window) (pos : Nat) (source : List Char) (config : Config)
    (start stop : Int) :
    let tokens := (lexWithin .structural w pos).tokens
    let parse := grammar.parse { tokens, source, detail := .structural, config, start, stop }
    Shallow parse.faults →
      ∃ entries stray, Accounts Settled parse.tree.walk.tail (tokens.filter (beginsNode ·.kind))
          (tokens.filter (·.kind.isCloser)) parse.faults entries stray
        ∧ Token.Apart tokens
        ∧ (∀ t ∈ stray, parse.faults.countP (Fault.isAt Anomaly.isUnexpected t) = 1)
        ∧ (∀ e ∈ entries, e.node.closed? = some false →
          parse.faults.countP (Fault.isAt Anomaly.isUnclosed e.opener) = 1)
        ∧ (parse.faults = [] ↔ Balanced (tokens.map (·.kind))) := by
  intro tokens parse hshallow
  have hlex : tokens = (lex .structural pos (w.ahead pos)).tokens :=
    congrArg Lexing.tokens (lexWithin_eq .structural w pos)
  have htokens : ∀ t ∈ tokens, IsBracket t.kind :=
    fun t ht => (lex_brackets pos (w.ahead pos) t (hlex ▸ ht)).1
  have hapart : Token.Apart tokens := hlex ▸ lex_apart pos (w.ahead pos)
  obtain ⟨nodes, htree, hsettles⟩ := parse_settles rfl htokens hshallow
  obtain ⟨entries, stray, haccounts⟩ := hsettles.accounted
  have hwalk : parse.tree.walk.tail = Node.preorderAll nodes := by
    rw [htree, Node.walk_eq]
    rfl
  refine ⟨entries, stray, hwalk ▸ haccounts, hapart, ?_, ?_, hsettles.faults_eq_nil_iff⟩
  · intro t ht
    refine haccounts.countP_unexpected (hapart.sublist List.filter_sublist) ?_ ht
    exact fun e he f hf => (he.fault f hf).1
  · intro e he hclosed
    obtain ⟨f, hfault, hat⟩ := (haccounts.fits e he).unclosed_fault hclosed
    refine haccounts.countP_unclosed (hapart.sublist List.filter_sublist) ?_ he hfault hat
    exact fun e he f hf => (he.fault f hf).2

/-- A block, in it parentheses that are not closed, a stray bracket and a bracket at the end
that is not closed: the outline accounts for them. -/
theorem outline_accounted_of_mismatched :
    let w := Window.upTo "a{(]}[".toList.toArray none
    let tokens := (lexWithin .structural w 0).tokens
    let parse := grammar.parse
      { tokens, source := "a{(]}[".toList, detail := .structural, start := 0, stop := 6 }
    Shallow parse.faults ∧ parse.faults.length = 3
      ∧ ∃ entries stray, Accounts Settled parse.tree.walk.tail
        (tokens.filter (beginsNode ·.kind)) (tokens.filter (·.kind.isCloser)) parse.faults
        entries stray := by
  intro w tokens parse
  have hshallow : Shallow parse.faults := by
    unfold Shallow
    decide +kernel
  obtain ⟨entries, stray, haccounts, -⟩ :=
    outline_accounted w 0 "a{(]}[".toList {} 0 6 hshallow
  exact ⟨hshallow, by decide +kernel, entries, stray, haccounts⟩

end SourceView.Stylesheet
