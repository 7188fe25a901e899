/-
End tags in the tokens of a run.

A rich parse that passes an end tag looks past the filler behind its name for the `>`, and
an outline looks at the next boundary.  The two agree when end tags are *tight*: if the next
boundary behind the name is a `>` at all, then only what is passed with it stands before it.

A lexer sees to that by reading what follows the name of an end tag in a mode of its own.
A `>` ends a tag in two modes only: in a start tag, which is entered past a boundary, and past
the name of an end tag, where whatever is no junk leaves the mode.  In all other modes the
next boundary is none that ends a tag.  Here is what a lexer has to promise about one look for
the tags of its runs to be tight.
-/
import SourceView.Proofs.Lexing.Run
import SourceView.Proofs.Parsing.Outline
import SourceView.Proofs.Lexing.Ahead

namespace SourceView.Parsing

variable {t : Token} {ts us : List Token}

/-- The next boundary, if there is one, is no `>`. -/
def NoEnd (ts : List Token) : Prop :=
  ∀ u us, boundaries ts = u :: us → u.kind ≠ .tagEnd

/-- Every end tag among `ts` is tight. -/
def TightTags (ts : List Token) : Prop :=
  ∀ us t rest, ts = us ++ t :: rest → t.kind = .tagClose → Tight rest

namespace NoEnd

theorem nil : NoEnd [] := by
  intro u us h
  exact absurd h (by simp [boundaries])

theorem boundary (ht : t.kind.isStructural = true) (hend : t.kind ≠ .tagEnd) (ts : List Token) :
    NoEnd (t :: ts) := by
  intro u us h
  rw [boundaries_cons_boundary ht, List.cons.injEq] at h
  exact h.1 ▸ hend

theorem filler (ht : t.kind.isStructural = false) (h : NoEnd ts) : NoEnd (t :: ts) := by
  intro u us hboundary
  rw [boundaries_cons_filler ht] at hboundary
  exact h u us hboundary

theorem tight (h : NoEnd ts) : Tight ts :=
  fun u us hboundary hend => absurd hend (h u us hboundary)

end NoEnd

theorem Tight.here (ht : t.kind = .tagEnd) (ts : List Token) : Tight (t :: ts) :=
  fun _ _ _ _ => ⟨[], t, ts, rfl, by simp, ht⟩

theorem Tight.junk (ht : isEndTagJunk t = true) (h : Tight ts) : Tight (t :: ts) := by
  intro u us hboundary hend
  rw [boundaries_cons_filler (Cursor.not_isStructural_of_junk ht)] at hboundary
  obtain ⟨junk, e, rest, rfl, hjunk, he⟩ := h u us hboundary hend
  refine ⟨t :: junk, e, rest, rfl, fun j hj => ?_, he⟩
  rcases List.mem_cons.mp hj with rfl | hj
  · exact ht
  · exact hjunk j hj

namespace TightTags

theorem nil : TightTags [] := by
  intro us t rest h
  exact absurd h (by simp)

theorem tail (h : TightTags (t :: ts)) : TightTags ts :=
  fun us u rest hsplit hu => h (t :: us) u rest (by rw [hsplit, List.cons_append]) hu

theorem head (h : TightTags (t :: ts)) (ht : t.kind = .tagClose) : Tight ts :=
  h [] t ts rfl ht

theorem cons (ht : t.kind = .tagClose → Tight ts) (h : TightTags ts) : TightTags (t :: ts) := by
  intro us u rest hsplit hu
  cases us with
  | nil =>
      obtain ⟨rfl, rfl⟩ := List.cons.inj hsplit
      exact ht hu
  | cons v us => exact h us u rest (List.cons.inj hsplit).2 hu

end TightTags

/-! ### Kinds -/

/-- Whether neither a tag ends nor an end tag or a line comment begins with a token of this
kind. -/
def isPlain : TokenKind → Bool
  | .tagEnd | .tagClose | .lineComment => false
  | _ => true

theorem noEnd_of_plain {kind : TokenKind} (h : isPlain kind = true) : kind ≠ .tagEnd := by
  rintro rfl
  exact absurd h (by decide)

theorem noClose_of_plain {kind : TokenKind} (h : isPlain kind = true) : kind ≠ .tagClose := by
  rintro rfl
  exact absurd h (by decide)

theorem noLine_of_plain {kind : TokenKind} (h : isPlain kind = true) : kind ≠ .lineComment := by
  rintro rfl
  exact absurd h (by decide)

theorem isPlain_of_trivia {kind : TokenKind} (h : kind.isTrivia = true) : isPlain kind = true := by
  revert h
  cases kind <;> decide

/-! ### Looks -/

variable {σ : Type} {outside endTag : σ → Prop}

/-- With the piece no tag ends, and unless it is a boundary no tag begins. -/
structure StaysOutside (outside : σ → Prop) (l : Lexeme) (next : σ) : Prop where
  noEnd : l.kind ≠ .tagEnd
  stays : l.kind.isStructural = false → outside next

/-- What is asked of a look that names the piece `l` and goes from one state to the next.  It
enters an end tag by its name.  Outside of tags it stays there.  Past the name of an end tag it
names the `>`, or junk, or it is outside again. -/
structure TagLook (outside endTag : σ → Prop) (state : σ) (l : Lexeme) (next : σ) : Prop where
  close : l.kind = .tagClose → 0 < l.length ∧ endTag next
  staysOutside : outside state → StaysOutside outside l next
  inside : endTag state → l.kind = .tagEnd
    ∨ ((l.kind.isTrivia || l.kind == .text) = true ∧ 0 < l.length ∧ endTag next)
    ∨ StaysOutside outside l next

/-- Every look of the scanner names one piece and does as asked. -/
def ReadsTags (outside endTag : σ → Prop) (scanner : Scanner σ) : Prop :=
  ∀ state pos text, text ≠ [] → ∃ l, (scanner.scan state pos text).lexemes = [l]
    ∧ TagLook outside endTag state l (scanner.scan state pos text).state

/-! ### Runs -/

/-- What a run says about tags, by the state that it begins in. -/
structure Tags (outside endTag : σ → Prop) (state : σ) (ts : List Token) : Prop where
  tight : TightTags ts
  noEnd : outside state → NoEnd ts
  inside : endTag state → Tight ts

/-- Unknown characters are of no account to tags. -/
theorem Tags.unknown {state : σ} {more : List Token} (hmore : ∀ t ∈ more, t.kind = .unknown)
    (h : Tags outside endTag state ts) :
    TightTags (more ++ ts) ∧ (outside state → NoEnd (more ++ ts)) := by
  induction more with
  | nil => exact ⟨h.tight, h.noEnd⟩
  | cons u more ih =>
      obtain ⟨htight, hnoEnd⟩ := ih fun v hv => hmore v (by simp [hv])
      have hu := hmore u (by simp)
      refine ⟨.cons (fun hclose => ?_) htight, fun houtside => .filler ?_ (hnoEnd houtside)⟩
      · rw [hu] at hclose
        exact absurd hclose (by decide)
      · rw [hu]
        rfl

/-- **The end tags of a run are tight.** -/
theorem ReadsTags.run {scanner : Scanner σ} (h : ReadsTags outside endTag scanner) (state : σ)
    (pos : Nat) (text : List Char) :
    Tags outside endTag state (scanner.run 0 state pos text).tokens := by
  induction state, pos, text using scanner.run_induction with
  | done state pos => exact ⟨.nil, fun _ => .nil, fun _ => NoEnd.nil.tight⟩
  | step state pos text htext rest ih =>
      obtain ⟨l, hlexemes, hlook⟩ := h state pos text htext
      obtain ⟨more, hcut, hmore, hnil⟩ := Scan.cut_pieces hlexemes pos text
      obtain ⟨htight, hnoEnd⟩ := Tags.unknown hmore ih
      have hkind : (l.token pos text).kind = l.kind := rfl
      simp only [hcut, List.cons_append]
      generalize l.token pos text = t at hkind
      have hstays (h : StaysOutside outside l (scanner.scan state pos text).state) :
          NoEnd (t :: (more ++ rest.tokens)) := by
        by_cases hboundary : t.kind.isStructural = true
        · exact .boundary hboundary (hkind ▸ h.noEnd) _
        · rw [Bool.not_eq_true] at hboundary
          exact .filler hboundary (hnoEnd (h.stays (hkind ▸ hboundary)))
      refine ⟨.cons (fun hclose => ?_) htight, fun houtside => hstays (hlook.staysOutside houtside),
        fun hinside => ?_⟩
      · obtain ⟨hpos, hend⟩ := hlook.close (hkind ▸ hclose)
        rw [hnil hpos]
        exact ih.inside hend
      · rcases hlook.inside hinside with hend | ⟨hjunk, hpos, hnext⟩ | h
        · exact .here (hkind.trans hend) _
        · rw [hnil hpos]
          exact .junk (by rw [isEndTagJunk, hkind]; exact hjunk) (ih.inside hnext)
        · exact (hstays h).tight

end SourceView.Parsing

/-! ### Pieces that languages share -/

namespace SourceView.Lexing

theorem whitespace?_trivia {text : List Char} {l : Lexeme} (h : whitespace? text = some l) :
    l.kind.isTrivia = true ∧ 0 < l.length := by
  unfold whitespace? at h
  cases text with
  | nil => exact absurd h (by simp)
  | cons c rest =>
      simp only at h
      split at h
      · cases h
        exact ⟨rfl, Nat.add_pos_left Nat.one_pos _⟩
      split at h
      · cases h
        exact ⟨rfl, Nat.one_pos⟩
      split at h
      · cases h
        refine ⟨rfl, ?_⟩
        show 0 < if _ then 2 else 1
        split <;> omega
      · exact absurd h (by simp)

theorem whitespace?_ne_string {text : List Char} {l : Lexeme} (h : whitespace? text = some l) :
    l.kind ≠ .string := by
  intro hkind
  have htrivia := (whitespace?_trivia h).1
  rw [hkind] at htrivia
  exact absurd htrivia (by decide)

theorem delimited_kind (kind : TokenKind) (style what : String) (opener : Nat)
    (closer : List Char) (pos : Nat) (text : List Char) :
    (delimited kind style what opener closer pos text).1.kind = kind := by
  unfold delimited
  split <;> rfl

end SourceView.Lexing
