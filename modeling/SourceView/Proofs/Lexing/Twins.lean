/-
Runs over a text with line breaks of either length.

A look at the longer text takes the same characters as the look at the text, and a carriage return
more for each line feed among them, unless what it reads has to end with its line.  Then an escape
has taken the line feed along, which in the longer text stands behind what the escape takes, and
the piece ends before it.  These are the ways in which two looks may compare (`Twin`), and up to
the first piece with such a line feed the two runs say the same (`Scanner.Twins.run_matched`).

The two runs are at different offsets, so their states are not equal but alike: what a scanner does
may depend on neither.
-/
import SourceView.Proofs.Lexing.Returns

namespace SourceView

open Text

/-! ### What a token says -/

/-- The cause names the value of an attribute, the one literal that may have several lines. -/
def Anomaly.ofAttribute : Anomaly → Bool
  | .unclosedLiteral what _ => what == "attribute value"
  | _ => false

namespace Token

/-- What is read of a token apart from its place. -/
def reading (t : Token) : TokenKind × String × List Char :=
  (t.kind, t.style, t.value.toList)

/-- What is read of the token when a carriage return stands before each of its line feeds: the same
kind and style, and its text with the carriage returns in it. -/
def longReading (t : Token) : TokenKind × String × List Char :=
  (t.kind, t.style, withReturns t.value.toList)

/-- The token goes over a line feed, though what it is has one line: an escape takes the line feed
along.  In error that is every literal but the value of an attribute, whose fault begins where the
token does. -/
def EscapesLineFeed (faults : List Fault) (t : Token) : Prop :=
  '\n' ∈ t.value.toList ∧ (t.kind = .string ∨ t.kind = .regex
    ∨ t.kind = .error ∧ ∀ f ∈ faults, f.start = t.start → f.cause.ofAttribute = false)

instance (faults : List Fault) (t : Token) : Decidable (t.EscapesLineFeed faults) :=
  inferInstanceAs (Decidable (_ ∧ _))

variable {t : Token} {fs gs : List Fault}

theorem EscapesLineFeed.imp (h : t.EscapesLineFeed fs)
    (hfaults : ∀ f ∈ gs, f.start = t.start → f.cause.ofAttribute = true → f ∈ fs) :
    t.EscapesLineFeed gs := by
  refine ⟨h.1, h.2.imp_right (Or.imp_right fun ⟨hkind, hnone⟩ => ⟨hkind, fun f hf hstart => ?_⟩)⟩
  cases hattribute : f.cause.ofAttribute with
  | false => rfl
  | true => exact hattribute ▸ hnone f (hfaults f hf hstart hattribute) hstart

/-- Faults of attributes elsewhere make no difference to a token. -/
theorem escapesLineFeed_append_left
    (hfs : ∀ f ∈ fs, f.cause.ofAttribute = true → f.start ≠ t.start) :
    t.EscapesLineFeed (fs ++ gs) ↔ t.EscapesLineFeed gs := by
  constructor
  · exact fun h => h.imp fun f hf _ _ => List.mem_append_right fs hf
  · refine fun h => h.imp fun f hf hstart hattribute => ?_
    exact (List.mem_append.mp hf).resolve_left fun hmem => hfs f hmem hattribute hstart

theorem escapesLineFeed_append_right
    (hgs : ∀ f ∈ gs, f.cause.ofAttribute = true → f.start ≠ t.start) :
    t.EscapesLineFeed (fs ++ gs) ↔ t.EscapesLineFeed fs := by
  constructor
  · exact fun h => h.imp fun f hf _ _ => List.mem_append_left gs hf
  · refine fun h => h.imp fun f hf hstart hattribute => ?_
    exact (List.mem_append.mp hf).resolve_right fun hmem => hgs f hmem hattribute hstart

end Token

namespace Lexeme

variable {text : List Char} {l : Lexeme} {ls : List Lexeme}

theorem reading_token (l : Lexeme) (pos : Nat) (text : List Char) :
    (l.token pos text).reading = (l.kind, l.style, text.take l.length) := by
  simp only [Token.reading, token, String.toList_ofList]

theorem longReading_token (l : Lexeme) (pos : Nat) (text : List Char) :
    (l.token pos text).longReading = (l.kind, l.style, withReturns (text.take l.length)) := by
  simp only [Token.longReading, token, String.toList_ofList]

/-- Pieces that keep to their line are read alike in the longer text, wherever it lies. -/
theorem reading_cut (h : Inline (width ls) text) (pos pos' : Nat) :
    (cut pos' (withReturns text) ls).map Token.reading
      = (cut pos text ls).map Token.longReading := by
  induction ls generalizing pos pos' text with
  | nil => rfl
  | cons l ls ih =>
      have hl : Inline l.length text := h.le (Nat.le_add_right _ _)
      rw [cut, cut, List.map_cons, List.map_cons, reading_token, longReading_token, hl.take,
        hl.drop, withReturns_of_notMem hl, ih h.behind]

/-- They hold no line feed. -/
theorem notMem_cut (h : Inline (width ls) text) (pos : Nat) :
    ∀ t ∈ cut pos text ls, '\n' ∉ t.value.toList := by
  induction ls generalizing pos text with
  | nil => simp [cut]
  | cons l ls ih =>
      refine List.forall_mem_cons.mpr ⟨?_, ih h.behind _⟩
      rw [token, String.toList_ofList]
      exact h.le (Nat.le_add_right _ _)

end Lexeme

/-! ### Looks -/

variable {σ : Type}

/-- How the look `b` at the longer text compares with the look `a` at the text at offset `pos`. -/
inductive Twin (pos : Nat) (text : List Char) : Scan σ → Scan σ → Prop
  /-- They are the same, and keep to their line. -/
  | inline {a : Scan σ} (h : Inline (Lexeme.width a.pieces) text) : Twin pos text a a
  /-- What they read may go over lines. -/
  | spread {l l' : Lexeme} {state : σ} {fs fs' : List Fault} (hl : 0 < l.length)
      (hkind : l'.kind = l.kind) (hstyle : l'.style = l.style)
      (hlength : l'.length = (withReturns (text.take l.length)).length)
      (hcauses : fs'.map Fault.cause = fs.map Fault.cause)
      (hlines : l.kind ∈ [.newline, .comment, .templateContent, .attributeValue]
        ∨ l.kind = .error ∧ ∃ f ∈ fs, f.start = pos ∧ f.cause.ofAttribute = true) :
      Twin pos text ⟨[l], state, fs⟩ ⟨[l'], state, fs'⟩
  /-- What they read has one line, but goes on behind an escaped line feed of the text. -/
  | escaped {l l' : Lexeme} {state state' : σ} {fs fs' : List Fault} (hl : 0 < l.length)
      (hl' : 0 < l'.length) (hbreak : ¬Inline l.length text)
      (hline : l.kind = .string ∨ l.kind = .regex
        ∨ l.kind = .error ∧ ∀ f ∈ fs, f.cause.ofAttribute = false)
      (hdiffers : l'.kind ≠ l.kind
        ∨ l.kind = .error ∧ l'.length < (withReturns (text.take l.length)).length) :
      Twin pos text ⟨[l], state, fs⟩ ⟨[l'], state', fs'⟩

/-- The look `b` at the longer text says what the look `a` at the text says. -/
structure Scan.Retold (pos : Nat) (text : List Char) (a b : Scan σ) : Prop where
  state : b.state = a.state
  causes : b.faults.map Fault.cause = a.faults.map Fault.cause
  rest : (withReturns text).drop (Lexeme.width b.pieces)
    = withReturns (text.drop (Lexeme.width a.pieces))
  tokens : ∀ pos', (Lexeme.cut pos' (withReturns text) b.pieces).map Token.reading
    = (Lexeme.cut pos text a.pieces).map Token.longReading
  whole : ∀ t ∈ Lexeme.cut pos text a.pieces, ¬t.EscapesLineFeed a.faults

/-- The look `a` at the text takes one token, which goes over an escaped line feed, and the look `b`
at the longer text takes another one. -/
structure Scan.Differs (pos : Nat) (text : List Char) (a b : Scan σ) (t : Token) : Prop where
  tokens : Lexeme.cut pos text a.pieces = [t]
  start : t.start = pos
  escapes : t.EscapesLineFeed a.faults
  other : ∀ pos', ∃ r rs, (Lexeme.cut pos' (withReturns text) b.pieces).map Token.reading = r :: rs
    ∧ r ≠ t.longReading ∧ (t.kind ≠ .error → r.1 ≠ t.kind)

namespace Twin

variable {pos : Nat} {text : List Char} {a a' b b' : Scan σ}

theorem ite {p : Prop} [Decidable p] (ha : p → Twin pos text a a') (hb : ¬p → Twin pos text b b') :
    Twin pos text (if p then a else b) (if p then a' else b') := by
  by_cases h : p
  · rw [if_pos h, if_pos h]
    exact ha h
  · rw [if_neg h, if_neg h]
    exact hb h

/-- One piece that keeps to its line. -/
theorem single {l : Lexeme} (hl : 0 < l.length) (h : Inline l.length text) (state : σ)
    (fs : List Fault) : Twin pos text ⟨[l], state, fs⟩ ⟨[l], state, fs⟩ := by
  refine .inline ?_
  rw [Scan.pieces_single hl]
  exact h

/-- One character. -/
theorem one {c : Char} {rest : List Char} (hc : c ≠ '\n') {l : Lexeme} (hl : l.length = 1)
    (state : σ) (fs : List Fault) : Twin pos (c :: rest) ⟨[l], state, fs⟩ ⟨[l], state, fs⟩ :=
  .single (hl ▸ Nat.one_pos) (hl ▸ inline_succ.mpr ⟨hc, inline_zero rest⟩) state fs

/-- One character and some behind it. -/
theorem more {c : Char} {rest : List Char} (hc : c ≠ '\n') {n : Nat} (h : Inline n rest)
    {l : Lexeme} (hl : l.length = 1 + n) (state : σ) (fs : List Fault) :
    Twin pos (c :: rest) ⟨[l], state, fs⟩ ⟨[l], state, fs⟩ :=
  .single (hl ▸ Nat.add_pos_left Nat.one_pos n) (hl ▸ .cons hc h) state fs

/-- A fault that is found besides. -/
theorem fault {l l' : Lexeme} {state state' : σ} {fs fs' : List Fault} (f : Fault)
    (hf : f.cause.ofAttribute = false) (h : Twin pos text ⟨[l], state, fs⟩ ⟨[l'], state', fs'⟩) :
    Twin pos text ⟨[l], state, f :: fs⟩ ⟨[l'], state', f :: fs'⟩ := by
  cases h with
  | inline h => exact .inline h
  | spread hl hkind hstyle hlength hcauses hlines =>
      refine .spread hl hkind hstyle hlength (congrArg (_ :: ·) hcauses) (hlines.imp_right ?_)
      exact fun ⟨herror, g, hg, hstart, hattribute⟩ =>
        ⟨herror, g, List.mem_cons_of_mem f hg, hstart, hattribute⟩
  | escaped hl hl' hbreak hline hdiffers =>
      refine .escaped hl hl' hbreak (hline.imp_right (Or.imp_right ?_)) hdiffers
      exact fun ⟨herror, hnone⟩ => ⟨herror, List.forall_mem_cons.mpr ⟨hf, hnone⟩⟩

theorem retold_or_differs (h : Twin pos text a b) (htext : text ≠ []) :
    Scan.Retold pos text a b ∨ ∃ t, Scan.Differs pos text a b t := by
  cases h with
  | inline h =>
      refine Or.inl ⟨rfl, rfl, h.drop, Lexeme.reading_cut h pos, fun t ht hescapes => ?_⟩
      exact Lexeme.notMem_cut h pos t ht hescapes.1
  | @spread l l' state fs fs' hl hkind hstyle hlength hcauses hlines =>
      have hl' : 0 < l'.length := by
        rw [hlength, List.length_pos_iff, ne_eq, withReturns_eq_nil, List.take_eq_nil_iff]
        exact fun hnil => hnil.elim (Nat.ne_of_gt hl) htext
      refine Or.inl ⟨rfl, hcauses, ?_, fun pos' => ?_, ?_⟩
      · rw [Scan.pieces_single hl, Scan.pieces_single hl']
        simp only [Lexeme.width, Nat.add_zero]
        rw [hlength, drop_withReturns]
      · rw [Scan.cut_single (s := ⟨[l], state, fs⟩) rfl hl,
          Scan.cut_single (s := ⟨[l'], state, fs'⟩) rfl hl', List.map_singleton, List.map_singleton,
          Lexeme.reading_token, Lexeme.longReading_token, hkind, hstyle, hlength, take_withReturns]
      · rw [Scan.cut_single (s := ⟨[l], state, fs⟩) rfl hl]
        refine List.forall_mem_singleton.mpr ?_
        rintro ⟨-, hescapes⟩
        simp only [Lexeme.token] at hescapes
        rcases hlines with hlines | ⟨hkind, f, hf, hstart, hattribute⟩
        · rcases hescapes with hkind | hkind | ⟨hkind, -⟩ <;> rw [hkind] at hlines <;>
            exact absurd hlines (by decide)
        · rcases hescapes with hkind' | hkind' | ⟨-, hnone⟩
          · exact absurd (hkind.symm.trans hkind') (by decide)
          · exact absurd (hkind.symm.trans hkind') (by decide)
          · exact Bool.false_ne_true ((hnone f hf hstart).symm.trans hattribute)
  | @escaped l l' state state' fs fs' hl hl' hbreak hline hdiffers =>
      have hbreak' : '\n' ∈ (l.token pos text).value.toList := by
        rw [Lexeme.token, String.toList_ofList]
        exact Decidable.not_not.mp hbreak
      refine Or.inr ⟨l.token pos text, Scan.cut_single (s := ⟨[l], state, fs⟩) rfl hl pos text, rfl,
        ⟨hbreak', ?_⟩, fun pos' =>
          ⟨(l'.kind, l'.style, (withReturns text).take l'.length), [], ?_, ?_, ?_⟩⟩
      · exact hline.imp_right (Or.imp_right fun h => ⟨h.1, fun f hf _ => h.2 f hf⟩)
      · rw [Scan.cut_single (s := ⟨[l'], state', fs'⟩) rfl hl', List.map_singleton,
          Lexeme.reading_token]
      · rw [Lexeme.longReading_token]
        intro heq
        rcases hdiffers with hkind | ⟨-, hlength⟩
        · exact hkind (congrArg Prod.fst heq)
        · have hpiece : ((withReturns text).take l'.length).length
              = (withReturns (text.take l.length)).length :=
            congrArg (fun r : TokenKind × String × List Char => r.2.2.length) heq
          rw [List.length_take] at hpiece
          omega
      · intro hkind
        exact hdiffers.resolve_right fun h => hkind h.1

end Twin

/-! ### Shared pieces -/

section

open Lexing

variable {pos : Nat} {c : Char} {rest text : List Char} {l : Lexeme}

theorem Lexing.whitespace?_withReturns (hc : c ≠ '\n') (hc' : c ≠ '\r') (rest : List Char) :
    whitespace? (c :: withReturns rest) = whitespace? (c :: rest) := by
  simp only [whitespace?, beq_iff_eq, hc, hc', if_false]
  rw [countWhile_withReturns (by decide) (by decide)]

namespace Twin

/-- Spaces keep to their line. -/
theorem space (hc : c ≠ '\n') (hc' : c ≠ '\r') (h : whitespace? (c :: rest) = some l) (state : σ) :
    Twin pos (c :: rest) ⟨[l], state, []⟩ ⟨[l], state, []⟩ := by
  simp only [whitespace?, beq_iff_eq, hc, hc', if_false] at h
  split at h
  · cases h
    exact .single (Nat.add_pos_left Nat.one_pos _) (.cons hc (inline_countWhile (by decide) rest))
      state []
  · exact absurd h (by simp)

/-- A line break is one piece in either text. -/
theorem newline (rest : List Char) (state : σ) :
    Twin pos ('\n' :: rest) ⟨[{ kind := .newline, length := 1 }], state, []⟩
      ⟨[{ kind := .newline, length := 2 }], state, []⟩ :=
  .spread Nat.one_pos rfl rfl rfl rfl (.inl (by decide))

/-- A comment goes over lines. -/
theorem comment (h : (c == '/' && rest.head? == some '*') = true) (state : σ) :
    Twin pos (c :: rest)
      ⟨[(delimited .comment "comment" "comment" 2 ['*', '/'] pos (c :: rest)).1], state,
        (delimited .comment "comment" "comment" 2 ['*', '/'] pos (c :: rest)).2⟩
      ⟨[(delimited .comment "comment" "comment" 2 ['*', '/'] pos (withReturns (c :: rest))).1],
        state, (delimited .comment "comment" "comment" 2 ['*', '/'] pos (withReturns (c :: rest))).2⟩ := by
  rw [Bool.and_eq_true, beq_iff_eq, beq_iff_eq] at h
  obtain ⟨rfl, hrest⟩ := h
  obtain ⟨more, rfl⟩ := List.head?_eq_some_iff.mp hrest
  have hopener : Inline 2 ('/' :: '*' :: more) := by simp [Inline]
  unfold delimited
  rw [hopener.drop, findIndex?_withReturns (by decide) (by decide)]
  cases hfound : findIndex? ['*', '/'] (('/' :: '*' :: more).drop 2) with
  | none => exact .spread (Nat.succ_pos _) rfl rfl (by simp) rfl (.inl (by simp))
  | some n =>
      refine .spread (Nat.succ_pos _) rfl rfl ?_ rfl (.inl (by simp))
      have hclose : (('/' :: '*' :: more).drop (2 + n)).take 2 = ['*', '/'] := by
        rw [← List.drop_drop]
        exact (List.prefix_iff_eq_take.mp (prefix_drop_findIndex? hfound)).symm
      simp only [Option.map_some, List.length_cons, List.length_nil, Nat.zero_add, Nat.reduceAdd,
        List.take_add, hclose, withReturns_append, List.length_append, hopener.length]
      simp [withReturns]

/-- A literal of one line, or the part of it before an escaped line feed. -/
theorem quoted {quote : Char} (hquote : quote = '"' ∨ quote = '\'') (style : String)
    {what : String} (hwhat : what ≠ "attribute value") (state : σ) :
    Twin pos (quote :: rest)
      ⟨[(quotedLiteral .string style what false quote pos rest).1], state,
        (quotedLiteral .string style what false quote pos rest).2⟩
      ⟨[(quotedLiteral .string style what false quote pos (withReturns rest)).1], state,
        (quotedLiteral .string style what false quote pos (withReturns rest)).2⟩ := by
  have hfeed : quote ≠ '\n' := by rintro rfl; simp at hquote
  have hreturn : quote ≠ '\r' := by rintro rfl; simp at hquote
  have hattribute : (Anomaly.unclosedLiteral what quote).ofAttribute = false :=
    beq_false_of_ne hwhat
  rw [quotedLiteral, quotedLiteral]
  rcases hbody : literalBody quote false rest with ⟨n, closed⟩
  by_cases hinline : Inline n rest
  · have hline : Inline (n + 1) (quote :: rest) := inline_succ.mpr ⟨hfeed, hinline⟩
    rw [literalBody_inline hreturn (by rwa [hbody]), hbody]
    cases closed <;> exact .single (Nat.succ_pos n) hline state _
  · have hbreak : ¬Inline (n + 1) (quote :: rest) := fun h => hinline (inline_succ.mp h).2
    obtain ⟨m, hm, hlt⟩ := literalBody_broken hfeed (by rwa [hbody])
    rw [hbody] at hlt
    rw [hm]
    cases closed with
    | true => exact .escaped (Nat.succ_pos n) (Nat.succ_pos m) hbreak (.inl rfl) (.inl (by simp))
    | false =>
        refine .escaped (Nat.succ_pos n) (Nat.succ_pos m) hbreak
          (.inr (.inr ⟨rfl, List.forall_mem_singleton.mpr hattribute⟩)) (.inr ⟨rfl, ?_⟩)
        show m + 1 < (withReturns ((quote :: rest).take (n + 1))).length
        rw [List.take_succ_cons, length_withReturns_cons hfeed]
        exact Nat.succ_lt_succ hlt

/-- The value of an attribute goes over lines. -/
theorem attributeValue {quote : Char} (hquote : quote = '"' ∨ quote = '\'') (style : String)
    (state : σ) :
    Twin pos (quote :: rest)
      ⟨[(quotedLiteral .attributeValue style "attribute value" true quote pos rest).1], state,
        (quotedLiteral .attributeValue style "attribute value" true quote pos rest).2⟩
      ⟨[(quotedLiteral .attributeValue style "attribute value" true quote pos
          (withReturns rest)).1], state,
        (quotedLiteral .attributeValue style "attribute value" true quote pos
          (withReturns rest)).2⟩ := by
  have hfeed : quote ≠ '\n' := by rintro rfl; simp at hquote
  have hreturn : quote ≠ '\r' := by rintro rfl; simp at hquote
  have hlength (n : Nat) : (withReturns (rest.take n)).length + 1
      = (withReturns ((quote :: rest).take (n + 1))).length := by
    rw [List.take_succ_cons, length_withReturns_cons hfeed]
  rw [quotedLiteral, quotedLiteral, literalBody_lines hfeed hreturn]
  rcases literalBody quote true rest with ⟨n, closed⟩
  cases closed with
  | true => exact .spread (Nat.succ_pos n) rfl rfl (hlength n) rfl (.inl (by simp))
  | false =>
      exact .spread (Nat.succ_pos n) rfl rfl (hlength n) rfl
        (.inr ⟨rfl, _, List.mem_singleton_self _, rfl, rfl⟩)

end Twin

end

/-! ### Runs -/

/-- How the run `l'` over the longer text compares with the run `l` over the text. -/
inductive Matched (l l' : Lexing) : Prop
  /-- No token goes over an escaped line feed, and the two say the same. -/
  | whole (hwhole : ∀ t ∈ l.tokens, ¬t.EscapesLineFeed l.faults)
      (htokens : l'.tokens.map Token.reading = l.tokens.map Token.longReading)
      (hcauses : l'.faults.map Fault.cause = l.faults.map Fault.cause)
  /-- They say the same up to the first token that does. -/
  | escaped {us vs : List Token} {t : Token} {r : TokenKind × String × List Char}
      (htokens : l.tokens = us ++ t :: vs)
      (hwhole : ∀ u ∈ us, ¬u.EscapesLineFeed l.faults) (hescapes : t.EscapesLineFeed l.faults)
      (htokens' : us.map Token.longReading ++ [r] <+: l'.tokens.map Token.reading)
      (hother : r ≠ t.longReading) (hkind : t.kind ≠ .error → r.1 ≠ t.kind)

/-- The run begins at `pos`: no token stands before it, and no attribute that is at fault. -/
structure Lexing.Begins (pos : Nat) (l : Lexing) : Prop where
  tokens : ∀ t ∈ l.tokens, (pos : Int) ≤ t.start
  attributes : ∀ f ∈ l.faults, f.cause.ofAttribute = true → (pos : Int) ≤ f.start

/-- Runs that match go on matching behind looks that say the same. -/
theorem Matched.behind {ts ts' : List Token} {fs fs' : List Fault} {l l' : Lexing} {pos : Nat}
    (htokens : ts'.map Token.reading = ts.map Token.longReading)
    (hcauses : fs'.map Fault.cause = fs.map Fault.cause) (hwhole : ∀ t ∈ ts, ¬t.EscapesLineFeed fs)
    (hbegins : l.Begins pos) (hfs : ∀ f ∈ fs, f.cause.ofAttribute = true → f.start < pos)
    (h : Matched l l') :
    Matched ⟨ts ++ l.tokens, fs ++ l.faults⟩ ⟨ts' ++ l'.tokens, fs' ++ l'.faults⟩ := by
  have hts : ∀ t ∈ ts, ¬t.EscapesLineFeed (fs ++ l.faults) := fun t ht hescapes =>
    hwhole t ht (hescapes.imp fun f hf _ _ => List.mem_append_left _ hf)
  have hrest : ∀ t ∈ l.tokens,
      (t.EscapesLineFeed (fs ++ l.faults) ↔ t.EscapesLineFeed l.faults) := fun t ht =>
    Token.escapesLineFeed_append_left fun f hf hattribute hstart =>
      absurd (hbegins.tokens t ht) (Int.not_le.mpr (hstart ▸ hfs f hf hattribute))
  cases h with
  | whole hwhole' htokens' hcauses' =>
      refine .whole ?_ ?_ ?_
      · rintro t ht
        rcases List.mem_append.mp ht with ht | ht
        · exact hts t ht
        · exact fun hescapes => hwhole' t ht ((hrest t ht).mp hescapes)
      · rw [List.map_append, List.map_append, htokens, htokens']
      · rw [List.map_append, List.map_append, hcauses, hcauses']
  | @escaped us vs t r hl hus hescapes hl' hother hkind =>
      have hsplit : ts ++ l.tokens = (ts ++ us) ++ t :: vs := by rw [hl, List.append_assoc]
      refine .escaped hsplit ?_ ((hrest t (by simp [hl])).mpr hescapes) ?_ hother hkind
      · rintro u hu
        rcases List.mem_append.mp hu with hu | hu
        · exact hts u hu
        · exact fun hescapes => hus u hu ((hrest u (by simp [hl, hu])).mp hescapes)
      · rw [List.map_append, List.map_append, htokens, List.append_assoc]
        exact (List.prefix_append_right_inj _).mpr hl'

/-- A scanner whose looks depend on the offset and on the state only up to `alike`, and which
compare in one of the three ways.  It finds an attribute at fault where it looks. -/
structure Scanner.Twins (scanner : Scanner σ) (alike : σ → σ → Prop) : Prop where
  blind : ∀ {s s' : σ}, alike s s' → ∀ pos pos' text,
    (scanner.scan s' pos' text).lexemes = (scanner.scan s pos text).lexemes
      ∧ (scanner.scan s' pos' text).faults.map Fault.cause
        = (scanner.scan s pos text).faults.map Fault.cause
      ∧ alike (scanner.scan s pos text).state (scanner.scan s' pos' text).state
  finish : ∀ {s s' : σ}, alike s s' → ∀ pos pos',
    (scanner.finish s' pos').map Fault.cause = (scanner.finish s pos).map Fault.cause
  twin : ∀ s pos c rest, '\r' ∉ c :: rest →
    Twin pos (c :: rest) (scanner.scan s pos (c :: rest))
      (scanner.scan s pos (withReturns (c :: rest)))
  attributes : ∀ s pos text, ∀ f ∈ (scanner.scan s pos text).faults,
    f.cause.ofAttribute = true → f.start = pos
  finished : ∀ s pos, ∀ f ∈ scanner.finish s pos, f.cause.ofAttribute = false

namespace Scanner.Twins

variable {scanner : Scanner σ} {alike : σ → σ → Prop}

theorem run_begins (h : scanner.Twins alike) (state : σ) (pos : Nat) (text : List Char) :
    (scanner.run 0 state pos text).Begins pos := by
  refine ⟨fun t ht => ((scanner.run_tile state pos text).inOrder.mem t ht).1, ?_⟩
  induction state, pos, text using scanner.run_induction with
  | done state pos =>
      intro f hf hattribute
      exact absurd (h.finished state pos f hf) (by simp [hattribute])
  | step state pos text htext rest ih =>
      intro f hf hattribute
      rcases List.mem_append.mp hf with hf | hf
      · exact Int.le_of_eq (h.attributes state pos text f hf hattribute).symm
      · exact Int.le_trans (Int.ofNat_le.mpr (Nat.le_add_right _ _)) (ih f hf hattribute)

/-- **A run over the longer text says what the run over the text says, up to the first token that
goes over an escaped line feed.** -/
theorem run_matched (h : scanner.Twins alike) {state state' : σ} (hstate : alike state state')
    (pos pos' : Nat) {text : List Char} (hreturn : '\r' ∉ text) :
    Matched (scanner.run 0 state pos text) (scanner.run 0 state' pos' (withReturns text)) := by
  generalize hn : text.length = n
  induction n using Nat.strongRecOn generalizing state state' pos pos' text with
  | ind n ih =>
      cases text with
      | nil => exact .whole (by simp [run]) rfl (h.finish hstate pos pos')
      | cons c rest =>
          have htext : c :: rest ≠ [] := List.cons_ne_nil c rest
          have htext' : withReturns (c :: rest) ≠ [] := mt withReturns_eq_nil.mp htext
          obtain ⟨hlexemes, hcauses, hnext⟩ := h.blind hstate pos pos' (withReturns (c :: rest))
          have hpieces : (scanner.scan state' pos' (withReturns (c :: rest))).pieces
              = (scanner.scan state pos (withReturns (c :: rest))).pieces := by
            rw [Scan.pieces, Scan.pieces, hlexemes]
          have htwin := h.twin state pos c rest hreturn
          have hfaults := h.attributes state pos (c :: rest)
          rw [scanner.run_eq state pos htext, scanner.run_eq state' pos' htext']
          simp only [hpieces]
          generalize hscan : scanner.scan state pos (c :: rest) = scan at *
          generalize scanner.scan state pos (withReturns (c :: rest)) = scan' at *
          have hwidth : 0 < ((c :: rest).take (Lexeme.width scan.pieces)).length := by
            have hpos := scan.width_pieces_pos
            rw [List.length_take, List.length_cons]
            omega
          have hbegins := h.run_begins scan.state
            (pos + ((c :: rest).take (Lexeme.width scan.pieces)).length)
            ((c :: rest).drop (Lexeme.width scan.pieces))
          rcases htwin.retold_or_differs htext with hretold | ⟨t, hdiffers⟩
          · refine .behind (hretold.tokens pos') (hcauses.trans hretold.causes) hretold.whole
              hbegins (fun f hf hattribute => ?_) ?_
            · rw [hfaults f hf hattribute]
              omega
            · rw [hretold.rest]
              refine ih _ ?_ (hretold.state ▸ hnext) _ _
                (fun hmem => hreturn (List.mem_of_mem_drop hmem)) rfl
              rw [List.length_drop, ← hn, List.length_cons]
              rw [List.length_take] at hwidth
              omega
          · obtain ⟨r, rs, hr, hother, hkind⟩ := hdiffers.other pos'
            rw [hdiffers.tokens]
            refine .escaped (List.nil_append _).symm (by simp) ?_ ?_ hother hkind
            · refine (Token.escapesLineFeed_append_right fun f hf hattribute hstart => ?_).mpr
                hdiffers.escapes
              have hlate := hbegins.attributes f hf hattribute
              rw [hstart, hdiffers.start] at hlate
              omega
            · rw [List.map_append, hr]
              exact ⟨rs ++ _, rfl⟩

end Scanner.Twins

end SourceView
