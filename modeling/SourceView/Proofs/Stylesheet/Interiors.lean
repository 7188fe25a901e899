/-
What stands inside of comments and strings.

An outline shows no more of a comment than where it lies, and of a string not even that; braces
and quotes inside of them count for nothing.  Said of texts: what stands between the marks of a
comment or of a closed string may be exchanged for anything as long that does not close it, and
the outline stays as it was.

A run comes to the piece in the same way in both texts, because the first character of the piece
is the same, and `fixed_or_straddles` leaves a look before it no choice once one more character is
known.  Behind the piece the texts do not differ.  And a draft goes by what its tokens are and
where they lie, not by what they say.
-/
import SourceView.Proofs.Stylesheet.Locality

namespace SourceView

/-- What a token is and where it lies, without what it says. -/
def Token.place (t : Token) : TokenKind × Int × Int :=
  (t.kind, t.start, t.stop)

/-- The source with another text in the place of a token. -/
def Token.exchange (t : Token) (source text : List Char) : List Char :=
  source.take t.start.toNat ++ text ++ source.drop t.stop.toNat

/-- A token that stands for no region is told by its other fields. -/
theorem Token.mem_of_any {t : Token} {ts : List Token} (hplain : t.embedded = [])
    (h : ts.any (fun u => (u.kind, u.value, u.start, u.stop) == (t.kind, t.value, t.start, t.stop)
      && (u.style, u.language) == (t.style, t.language) && u.embedded.isEmpty) = true) : t ∈ ts := by
  obtain ⟨u, hu, hsame⟩ := List.any_eq_true.mp h
  simp only [Bool.and_eq_true, beq_iff_eq, Prod.mk.injEq, List.isEmpty_iff] at hsame
  obtain ⟨⟨⟨hkind, hvalue, hstart, hstop⟩, hstyle, hlanguage⟩, hembedded⟩ := hsame
  have heq : u = t := by
    cases u
    cases t
    simp_all
  exact heq ▸ hu

namespace Stylesheet

open Lexing

/-- Everything that the looks of a structural run emit, also what the run does not keep. -/
def taken (source : List Char) : List Token :=
  (structuralLexer.run .rich (.upTo source.toArray none) () 0).tokens

/-- Everything that a structural run goes over. -/
def passed (pos : Nat) (text : List Char) : List Token :=
  (structuralScanner.run 0 () pos text).tokens

/-- What the looks of a run emit is among what the run goes over. -/
theorem taken_subset (source : List Char) : taken source ⊆ passed 0 source := by
  have hahead : (Window.upTo source.toArray none).ahead 0 = source :=
    Window.ahead_upTo source 0 none
  have hsubset := @Lexer.runFrom_rich_subset _ (Window.upTo source.toArray none) .structural
    structuralLexer structuralScanner (fun u _ h => lookStructural_tells u h)
    ((Window.upTo source.toArray none).stop - 0) () 0
  rw [hahead] at hsubset
  exact hsubset

/-- The text is that of the token, which is a comment or a string with its end, but for the
interior: that may be any as long, without what ends a comment, or without quotes, backslashes
and line breaks. -/
inductive Refills (t : Token) : List Char → Prop
  | comment {old new : List Char} (hkind : t.kind = .comment)
      (hvalue : t.value.toList = '/' :: '*' :: old ++ ['*', '/'])
      (hlength : new.length = old.length) (hopen : Text.isInfixOf ['*', '/'] new = false) :
      Refills t ('/' :: '*' :: new ++ ['*', '/'])
  | string {mark : Char} {old new : List Char} (hkind : t.kind = .string)
      (hvalue : t.value.toList = mark :: old ++ [mark]) (hlength : new.length = old.length)
      (hplain : ∀ c ∈ new, c ≠ '"' ∧ c ≠ '\'' ∧ c ≠ '\\' ∧ isLineBreak c = false) :
      Refills t (mark :: new ++ [mark])

variable {t u : Token} {pos : Nat} {text new p s s' after : List Char} {d c : Char}

/-! ### The piece -/

namespace Refills

theorem length_eq (h : Refills t new) : new.length = t.value.toList.length := by
  cases h with
  | comment hkind hvalue hlength hopen => simp [hvalue, hlength]
  | string hkind hvalue hlength hplain => simp [hvalue, hlength]

/-- The first character is the same. -/
theorem head (h : Refills t new) : ∃ c v w, t.value.toList = c :: v ∧ new = c :: w := by
  cases h with
  | comment hkind hvalue hlength hopen => exact ⟨_, _, _, hvalue, rfl⟩
  | string hkind hvalue hlength hplain => exact ⟨_, _, _, hvalue, rfl⟩

end Refills

/-- What ends a comment is found behind a text that does not hold it. -/
theorem findIndex?_commentEnd (h : Text.isInfixOf ['*', '/'] new = false) (after : List Char) :
    Text.findIndex? ['*', '/'] (new ++ '*' :: '/' :: after) = some new.length := by
  induction new with
  | nil => rfl
  | cons c new ih =>
      rw [Text.isInfixOf, Text.findIndex?] at h
      by_cases hfirst : ['*', '/'].isPrefixOf (c :: new) = true
      · rw [if_pos hfirst] at h
        exact absurd h (by simp)
      rw [if_neg hfirst, Option.isSome_map] at h
      -- A star before the end is followed by the star of the end, or by what follows it in the text.
      have hnot : ¬ ['*', '/'].isPrefixOf (c :: (new ++ '*' :: '/' :: after)) = true := by
        intro hlonger
        apply hfirst
        cases new with
        | nil => simp [List.isPrefixOf] at hlonger
        | cons d new => simpa [List.isPrefixOf] using hlonger
      rw [List.cons_append, Text.findIndex?, if_neg hnot, ih h]
      rfl

/-- A literal goes on to the quote behind a text that neither ends it nor escapes anything. -/
theorem literalBody_plain {mark : Char} (hmark : mark = '"' ∨ mark = '\'')
    (h : ∀ c ∈ new, c ≠ '"' ∧ c ≠ '\'' ∧ c ≠ '\\' ∧ isLineBreak c = false) (after : List Char) :
    literalBody mark false (new ++ mark :: after) = (new.length + 1, true) := by
  have hescape : mark ≠ '\\' := by
    intro heq
    rcases hmark with hmark | hmark <;> exact absurd (heq ▸ hmark) (by decide)
  induction new with
  | nil => rw [List.nil_append, literalBody_cons mark false hescape, if_pos rfl, List.length_nil]
  | cons c new ih =>
      obtain ⟨hdouble, hsingle, hslash, hbreak⟩ := h c List.mem_cons_self
      have hne : c ≠ mark := by
        intro heq
        rcases hmark with hmark | hmark
        · exact hdouble (heq.trans hmark)
        · exact hsingle (heq.trans hmark)
      have hmore := ih fun d hd => h d (List.mem_cons_of_mem c hd)
      rw [List.cons_append, literalBody_cons mark false hslash, if_neg hne, if_neg (by simp [hbreak]),
        hmore, List.length_cons]

/-- Only what stands at a quote is a string. -/
theorem quote_of_look (h : (look (c :: after)).kind = .string) : c = '"' ∨ c = '\'' := by
  by_cases hquote : (c == '"' || c == '\'') = true
  · simpa using hquote
  rw [Bool.not_eq_true] at hquote
  cases hdelimiter : delimiter? c with
  | some kind =>
      rw [look_delimiter hdelimiter] at h
      have hkind : kind = .string := h
      unfold delimiter? at hdelimiter
      split at hdelimiter <;> simp_all
  | none =>
      cases hcomment : c == '/' && after.head? == some '*' with
      | true =>
          rw [look_comment hcomment, delimited_kind] at h
          exact absurd h (by decide)
      | false =>
          rw [look_filler hcomment hdelimiter hquote] at h
          cases h

/-- At another text for a piece a run takes all of it, and for the same. -/
theorem Refills.look (h : Refills t new) (after : List Char)
    (hlook : (look (t.value.toList ++ after)).kind = t.kind) :
    (Stylesheet.look (new ++ after)).kind = t.kind
      ∧ (Stylesheet.look (new ++ after)).length = new.length := by
  cases h with
  | @comment old new hkind hvalue hlength hopen =>
      have hend := findIndex?_commentEnd hopen after
      have hlooked := look_opened (new ++ ['*', '/']) after
      rw [List.append_assoc] at hlooked
      simp only [List.cons_append, List.append_assoc, List.nil_append] at hlooked ⊢
      rw [hlooked, hend, hkind]
      refine ⟨rfl, ?_⟩
      simp only [Option.elim_some, List.length_cons, List.length_append, List.length_nil]
      omega
  | @string mark old new hkind hvalue hlength hplain =>
      rw [hvalue, List.cons_append, List.cons_append, hkind] at hlook
      have hmark := quote_of_look hlook
      have hquote : (mark == '"' || mark == '\'') = true := by simpa using hmark
      have hbody := literalBody_plain hmark hplain after
      simp only [List.cons_append, List.append_assoc, List.nil_append]
      rw [look_quote hquote, quotedLiteral, hbody, hkind]
      refine ⟨rfl, ?_⟩
      simp

/-! ### The run -/

/-- What a run takes first, and the run over what is left. -/
theorem places_append (pos : Nat) (hp : p ≠ []) (hlook : (p ++ s).take (look (p ++ s)).length = p) :
    (passed pos (p ++ s)).map Token.place
      = ((look (p ++ s)).kind, (pos : Int), ((pos + p.length : Nat) : Int))
        :: (passed (pos + p.length) s).map Token.place := by
  have hne : p ++ s ≠ [] := List.append_ne_nil_of_left_ne_nil hp s
  have hpieces : (structuralScanner.scan () pos (p ++ s)).pieces = [look (p ++ s)] :=
    scanStructural_pieces pos hne
  have hrest : (p ++ s).drop (look (p ++ s)).length = s := by
    have hsplit := List.take_append_drop (look (p ++ s)).length (p ++ s)
    rw [hlook] at hsplit
    exact List.append_cancel_left hsplit
  rw [passed, structuralScanner.run_eq () pos hne]
  simp only [hpieces, Lexeme.cut, Lexeme.width, Nat.add_zero, hlook, hrest, List.map_append,
    List.map_cons, List.map_nil, Token.place, Lexeme.token]
  rfl

/-- A look that ends before a character does not depend on what follows that. -/
theorem look_congr (hlook : (look (p ++ d :: s)).length = p.length) (s' : List Char) :
    look (p ++ d :: s') = look (p ++ d :: s) := by
  have hjoin (s : List Char) : p ++ d :: s = (p ++ [d]) ++ s := by simp
  have hne : p ++ [d] ≠ [] := by simp
  rcases fixed_or_straddles hne with ⟨l, hl⟩ | hstraddles
  · rw [hjoin s, hjoin s', hl.same s, hl.same s']
  · have hbeyond := hstraddles.beyond s
    rw [← hjoin s, hlook, List.length_append, List.length_singleton] at hbeyond
    omega

/-- The runs over two texts that begin with a piece and the same character behind it agree on the
piece. -/
theorem places_congr (pos : Nat) (hp : p ≠ [])
    (hlook : (p ++ d :: s).take (look (p ++ d :: s)).length = p)
    (hrest : (passed (pos + p.length) (d :: s')).map Token.place
      = (passed (pos + p.length) (d :: s)).map Token.place) :
    (passed pos (p ++ d :: s')).map Token.place = (passed pos (p ++ d :: s)).map Token.place := by
  have hlength : (look (p ++ d :: s)).length = p.length := by
    have hlen := congrArg List.length hlook
    rw [List.length_take, List.length_append, List.length_cons] at hlen
    omega
  have hsame := look_congr hlength s'
  have hlook' : (p ++ d :: s').take (look (p ++ d :: s')).length = p := by
    rw [hsame, hlength, List.take_left]
  rw [places_append pos hp hlook, places_append pos hp hlook', hsame, hrest]

/-- **A run over the text with a piece exchanged takes pieces of the same kinds at the same
places.** -/
theorem places_exchange (ht : t ∈ passed pos text) (h : Refills t new) :
    ∃ before after, text = before ++ (t.value.toList ++ after)
      ∧ t.start = (pos + before.length : Nat)
      ∧ t.stop = (pos + before.length + t.value.toList.length : Nat)
      ∧ (passed pos (before ++ (new ++ after))).map Token.place
        = (passed pos text).map Token.place := by
  obtain ⟨c, v, w, hold, hnew⟩ := h.head
  generalize hn : text.length = n
  induction n using Nat.strongRecOn generalizing pos text with
  | ind n ih =>
      by_cases htext : text = []
      · rw [htext, passed, Scanner.run] at ht
        exact absurd ht List.not_mem_nil
      have hpieces : (structuralScanner.scan () pos text).pieces = [look text] :=
        scanStructural_pieces pos htext
      have hpos := look_length_pos htext
      obtain ⟨p, s, hp, hs⟩ : ∃ p s, text.take (look text).length = p
          ∧ text.drop (look text).length = s := ⟨_, _, rfl, rfl⟩
      have hsplit : text = p ++ s := by rw [← hp, ← hs, List.take_append_drop]
      have hlook : (p ++ s).take (look (p ++ s)).length = p := by rw [← hsplit, hp]
      have hne : p ≠ [] := by
        intro hnil
        rw [hnil, List.take_eq_nil_iff] at hp
        exact hp.elim (Nat.ne_of_gt hpos) htext
      rw [passed, structuralScanner.run_eq () pos htext] at ht
      simp only [hpieces, Lexeme.cut, Lexeme.width, Nat.add_zero, hp, hs, List.cons_append,
        List.nil_append, List.mem_cons] at ht
      rcases ht with ht | ht
      · -- The piece comes first.
        have hvalue : t.value.toList = p := by rw [ht, Lexeme.token, String.toList_ofList, hp]
        have hkind : t.kind = (look (p ++ s)).kind := by rw [ht, ← hsplit]; rfl
        obtain ⟨hsame, hwhole⟩ := h.look s (by rw [hvalue, hkind])
        refine ⟨[], s, by rw [hvalue]; exact hsplit, by rw [ht]; rfl, ?_, ?_⟩
        · rw [hvalue, ht, ← hp]
          rfl
        · have hnew' : (new ++ s).take (look (new ++ s)).length = new := by
            rw [hwhole, List.take_left]
          rw [hsplit, List.nil_append, places_append pos hne hlook,
            places_append pos (by simp [hnew]) hnew', hsame, hkind, h.length_eq, hvalue]
      · -- The piece comes later, and what is before it is passed as it was.
        have hrest : s.length < n := by
          have hlen := List.length_pos_iff.mpr hne
          rw [hsplit, List.length_append] at hn
          omega
        obtain ⟨before, after, rfl, hstart, hstop, hplaces⟩ := ih _ hrest ht rfl
        refine ⟨p ++ before, after, by rw [hsplit, List.append_assoc], ?_, ?_, ?_⟩
        · rw [hstart, List.length_append, Nat.add_assoc]
        · rw [hstop, List.length_append, Nat.add_assoc pos]
        · rw [hsplit, List.append_assoc]
          cases before with
          | nil =>
              rw [hold, hnew] at hplaces ⊢
              rw [hold] at hlook
              exact places_congr pos hne hlook hplaces
          | cons d before => exact places_congr pos hne hlook hplaces

/-! ### Outlines -/

/-- A draft goes by the places of its tokens. -/
theorem Draft.read_congr (h : t.place = u.place) (d : Draft) : d.read t = d.read u := by
  obtain ⟨kind, value, start, stop, style, language, embedded⟩ := t
  obtain ⟨kind', value', start', stop', style', language', embedded'⟩ := u
  obtain ⟨rfl, rfl, rfl⟩ : kind = kind' ∧ start = start' ∧ stop = stop' := by
    simpa [Token.place] using h
  have hclose (nodes : List Node) (frames : List Frame) :
      Draft.close ⟨kind, value, start, stop, style, language, embedded⟩ nodes frames
        = Draft.close ⟨kind, value', start, stop, style', language', embedded'⟩ nodes frames := by
    induction frames generalizing nodes with
    | nil => rfl
    | cons f frames ih => simp only [Draft.close, ih]
  simp only [Draft.read, hclose]
  rfl

theorem Draft.foldl_read_congr {ts us : List Token} (h : ts.map Token.place = us.map Token.place)
    (d : Draft) : ts.foldl Draft.read d = us.foldl Draft.read d := by
  induction ts generalizing us d with
  | nil =>
      obtain rfl : us = [] := by simpa using h.symm
      rfl
  | cons t ts ih =>
      cases us with
      | nil => simp at h
      | cons u us =>
          rw [List.map_cons, List.map_cons, List.cons.injEq] at h
          rw [List.foldl_cons, List.foldl_cons, Draft.read_congr h.1, ih h.2]

/-- What is kept of a run goes by the kinds. -/
theorem places_lex (pos : Nat) (text : List Char) :
    (lex .structural pos text).tokens.map Token.place
      = ((passed pos text).map Token.place).filter (·.1.isStructural) := by
  rw [List.filter_map]
  rfl

theorem drafted_congr (hlength : text.length = p.length)
    (h : (passed 0 text).map Token.place = (passed 0 p).map Token.place) :
    drafted text = drafted p := by
  have hplaces : (lex .structural 0 text).tokens.map Token.place
      = (lex .structural 0 p).tokens.map Token.place := by rw [places_lex, places_lex, h]
  rw [drafted, drafted, Draft.complete, Draft.complete, Draft.foldl_read_congr hplaces, hlength]

end Stylesheet

open Stylesheet in
/-- **The outline of a stylesheet does not see into comments and strings.**  The interior of a comment
that ends, and of a string, may be exchanged for any text of the same length that does not end it:
the tokens are of the same kinds at the same places, and the tree is the same. -/
theorem Language.stylesheet_interiors_unseen (config : Config) {source new : List Char} {t : Token}
    (ht : t ∈ taken source) (h : Refills t new) :
    let pass (text : List Char) := stylesheet.pass config .structural text
    (pass (t.exchange source new)).lexing.tokens.map Token.place
        = (pass source).lexing.tokens.map Token.place
      ∧ (pass (t.exchange source new)).parse.tree = (pass source).parse.tree := by
  intro pass
  obtain ⟨before, after, hsource, hstart, hstop, hplaces⟩ := places_exchange (taken_subset source ht) h
  have hexchange : t.exchange source new = before ++ (new ++ after) := by
    rw [Token.exchange, hstart, hstop, hsource, Int.toNat_natCast, Int.toNat_natCast, Nat.zero_add,
      List.take_left, ← List.append_assoc before, ← List.length_append, List.drop_left,
      List.append_assoc]
  have hlength : (t.exchange source new).length = source.length := by
    rw [hexchange, hsource]
    simp only [List.length_append, h.length_eq]
  rw [← hexchange] at hplaces
  refine ⟨?_, ?_⟩
  · have hlex (text : List Char) : (pass text).lexing.tokens.map Token.place
        = ((passed 0 text).map Token.place).filter (·.1.isStructural) := by
      rw [← places_lex, ← lex_stylesheet_whole .structural config.embeddedLanguages]
      rfl
    rw [hlex, hlex, hplaces]
  · have htree (text : List Char) : (pass text).parse.tree
        = .container 0 text.length .document (drafted text) := tree_eq_drafted config text
    rw [htree, htree, hlength, drafted_congr hlength hplaces]

open Stylesheet in
/-- A quote in a comment and an opening brace in a string stand in the place of closing braces. -/
theorem Language.stylesheet_interiors_unseen_of_brace :
    let source := ['/', '*', '}', '*', '/', '{', '"', '}', '"', '}']
    let comment : Token :=
      { kind := .comment, value := "/*\x7d*/", start := 0, stop := 5, style := "comment" }
    let string : Token :=
      { kind := .string, value := "\x22\x7d\x22", start := 6, stop := 9, style := "string" }
    let pass (text : List Char) := stylesheet.pass {} .structural text
    (comment ∈ taken source ∧ Refills comment ['/', '*', '"', '*', '/']
        ∧ (pass ['/', '*', '"', '*', '/', '{', '"', '}', '"', '}']).parse.tree
          = (pass source).parse.tree)
      ∧ string ∈ taken source ∧ Refills string ['"', '{', '"']
        ∧ (pass ['/', '*', '}', '*', '/', '{', '"', '{', '"', '}']).parse.tree
          = (pass source).parse.tree := by
  intro source comment string pass
  have hcomment : comment ∈ taken source := Token.mem_of_any rfl (by decide +kernel)
  have hstring : string ∈ taken source := Token.mem_of_any rfl (by decide +kernel)
  have hfirst : Refills comment ['/', '*', '"', '*', '/'] :=
    @Refills.comment _ ['}'] ['"'] rfl (by decide) rfl (by decide)
  have hsecond : Refills string ['"', '{', '"'] :=
    @Refills.string _ '"' ['}'] ['{'] rfl (by decide) rfl (by simp [Lexing.isLineBreak])
  exact ⟨⟨hcomment, hfirst, (stylesheet_interiors_unseen {} hcomment hfirst).2⟩,
    hstring, hsecond, (stylesheet_interiors_unseen {} hstring hsecond).2⟩

end SourceView
