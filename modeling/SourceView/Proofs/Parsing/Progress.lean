/-
How a parse moves.

A cursor only moves forward: what lies behind it grows by just the tokens that it has
passed, the faults that were noted stay noted, and once a structure is read the containers
that were open before it are open again.  A production that reads a node has passed at least
one token, so a loop with a turn for every token never runs out of them, and symbols cannot
stand inside each other without end.

All of this holds of any token list whatever.
-/
import SourceView.Proofs.Parsing.Loops

namespace SourceView.Parsing

namespace Cursor

/-- The cursor `d` is where `c` gets by passing tokens. -/
def Passes (c d : Cursor) : Prop :=
  ∃ ts, c.ahead = ts ++ d.ahead ∧ d.behind = ts.reverse ++ c.behind

/-- The cursor `d` is where a parse may get from `c` once nothing more is open than before. -/
structure Leads (c d : Cursor) : Prop where
  passes : c.Passes d
  faults : c.faults <:+ d.faults
  opened : d.opened = c.opened

/-- The cursor `d` is where a parse may get from `c` with at least one token passed. -/
structure Steps (c d : Cursor) : Prop where
  leads : c.Leads d
  shorter : d.ahead.length < c.ahead.length

variable {c d e : Cursor}

/-! ### Ways of moving -/

theorem Passes.refl (c : Cursor) : c.Passes c :=
  ⟨[], rfl, rfl⟩

theorem Passes.trans (h : c.Passes d) (h' : d.Passes e) : c.Passes e := by
  obtain ⟨ts, hahead, hbehind⟩ := h
  obtain ⟨us, hahead', hbehind'⟩ := h'
  refine ⟨ts ++ us, ?_, ?_⟩
  · rw [hahead, hahead', List.append_assoc]
  · rw [hbehind', hbehind, List.reverse_append, List.append_assoc]

theorem Passes.length_le (h : c.Passes d) : d.ahead.length ≤ c.ahead.length := by
  obtain ⟨ts, hahead, -⟩ := h
  rw [hahead, List.length_append]
  omega

/-- What passing a token keeps is kept however many are passed. -/
theorem Passes.preserves {P : List Token → List Token → Prop}
    (hstep : ∀ t behind ahead, P behind (t :: ahead) → P (t :: behind) ahead)
    (h : c.Passes d) (hc : P c.behind c.ahead) : P d.behind d.ahead := by
  obtain ⟨ts, hahead, hbehind⟩ := h
  rw [hbehind]
  rw [hahead] at hc
  generalize c.behind = behind at hc
  clear hahead hbehind
  induction ts generalizing behind with
  | nil => exact hc
  | cons t ts ih =>
      rw [List.reverse_cons, List.append_assoc]
      exact ih (t :: behind) (hstep t behind _ hc)

theorem Leads.refl (c : Cursor) : c.Leads c :=
  ⟨Passes.refl c, List.suffix_refl _, rfl⟩

theorem Leads.trans (h : c.Leads d) (h' : d.Leads e) : c.Leads e :=
  ⟨h.passes.trans h'.passes, h.faults.trans h'.faults, h'.opened.trans h.opened⟩

theorem Leads.length_le (h : c.Leads d) : d.ahead.length ≤ c.ahead.length :=
  h.passes.length_le

theorem Steps.trans_leads (h : c.Steps d) (h' : d.Leads e) : c.Steps e :=
  ⟨h.leads.trans h', Nat.lt_of_le_of_lt h'.length_le h.shorter⟩

theorem Leads.trans_steps (h : c.Leads d) (h' : d.Steps e) : c.Steps e :=
  ⟨h.trans h'.leads, Nat.lt_of_lt_of_le h'.shorter h.length_le⟩

theorem leads_note (c : Cursor) (cause : Anomaly) (start stop : Int) :
    c.Leads (c.note cause start stop) :=
  ⟨Passes.refl c, List.suffix_cons _ _, rfl⟩

/-- A container that was opened is closed again. -/
theorem Leads.close {o : OpenContainer} (h : (c.push o).Leads d) : c.Leads (d.closeTo c) :=
  ⟨h.passes, h.faults, rfl⟩

theorem leads_advance (c : Cursor) : c.Leads c.advance := by
  cases hahead : c.ahead with
  | nil =>
      rw [advance, hahead]
      exact Leads.refl c
  | cons t rest =>
      rw [advance, hahead]
      exact ⟨⟨[t], by simp [hahead], rfl⟩, List.suffix_refl _, rfl⟩

theorem faults_advance (c : Cursor) : c.advance.faults = c.faults := by
  rw [advance]
  cases c.ahead <;> rfl

theorem steps_advance {t : Token} {rest : List Token} (h : c.ahead = t :: rest) :
    c.Steps c.advance := by
  refine ⟨leads_advance c, ?_⟩
  simp [advance, h]

theorem steps_of_accept? {t : Token} {kind : TokenKind} {right : String → Bool}
    (h : c.accept? kind right = some (t, d)) : c.Steps d := by
  obtain ⟨-, -, rfl, hahead⟩ := accept?_eq_some h
  exact steps_advance hahead

theorem leads_skip (c : Cursor) (kind : TokenKind) (right : String → Bool) :
    c.Leads (c.skip kind right) := by
  unfold skip
  cases h : c.accept? kind right with
  | none => exact Leads.refl c
  | some found => exact (steps_of_accept? h).leads

theorem passTrivia_spec (behind ahead : List Token) :
    ∃ ts, ahead = ts ++ (passTrivia behind ahead).2
      ∧ (passTrivia behind ahead).1 = ts.reverse ++ behind ∧ ∀ t ∈ ts, t.kind.isTrivia = true := by
  induction ahead generalizing behind with
  | nil => exact ⟨[], rfl, rfl, by simp⟩
  | cons t rest ih =>
      unfold passTrivia
      by_cases ht : t.kind.isTrivia = true
      · rw [if_pos ht]
        obtain ⟨ts, hahead, hbehind, htrivia⟩ := ih (t :: behind)
        refine ⟨t :: ts, by rw [List.cons_append, ← hahead], ?_, ?_⟩
        · rw [hbehind, List.reverse_cons, List.append_assoc]
          rfl
        · intro u hu
          rcases List.mem_cons.mp hu with rfl | hu
          · exact ht
          · exact htrivia u hu
      · rw [if_neg ht]
        exact ⟨[], rfl, rfl, by simp⟩

theorem leads_skipTrivia (c : Cursor) : c.Leads c.skipTrivia := by
  obtain ⟨ts, hahead, hbehind, -⟩ := passTrivia_spec c.behind c.ahead
  exact ⟨⟨ts, hahead, hbehind⟩, List.suffix_refl _, rfl⟩

/-- The cursor `d` is where `c` gets by passing nothing that bounds anything. -/
structure Skims (c d : Cursor) : Prop where
  passes : c.Passes d
  boundaries : d.ahead.filter (·.kind.isStructural) = c.ahead.filter (·.kind.isStructural)
  faults : d.faults = c.faults
  opened : d.opened = c.opened

theorem Skims.refl (c : Cursor) : c.Skims c :=
  ⟨Passes.refl c, rfl, rfl, rfl⟩

theorem Skims.trans (h : c.Skims d) (h' : d.Skims e) : c.Skims e :=
  ⟨h.passes.trans h'.passes, h'.boundaries.trans h.boundaries, h'.faults.trans h.faults,
    h'.opened.trans h.opened⟩

theorem Skims.leads (h : c.Skims d) : c.Leads d :=
  ⟨h.passes, h.faults ▸ List.suffix_refl _, h.opened⟩

theorem skims_advance {t : Token} {rest : List Token} (h : c.ahead = t :: rest)
    (ht : t.kind.isStructural = false) : c.Skims c.advance := by
  refine ⟨(leads_advance c).passes, ?_, ?_, ?_⟩ <;> simp [advance, h, ht]

theorem skims_of_accept? {t : Token} {kind : TokenKind} {right : String → Bool}
    (h : c.accept? kind right = some (t, d)) (hkind : kind.isStructural = false) : c.Skims d := by
  obtain ⟨ht, -, rfl, hahead⟩ := accept?_eq_some h
  exact skims_advance hahead (ht ▸ hkind)

theorem skims_skip (c : Cursor) (kind : TokenKind) (right : String → Bool)
    (hkind : kind.isStructural = false) : c.Skims (c.skip kind right) := by
  unfold skip
  cases h : c.accept? kind right with
  | none => exact Skims.refl c
  | some found => exact skims_of_accept? h hkind

theorem not_isStructural_of_isTrivia {kind : TokenKind} (h : kind.isTrivia = true) :
    kind.isStructural = false := by
  cases kind <;> simp_all [TokenKind.isTrivia, TokenKind.isStructural]

theorem skims_skipTrivia (c : Cursor) : c.Skims c.skipTrivia := by
  obtain ⟨ts, hahead, hbehind, htrivia⟩ := passTrivia_spec c.behind c.ahead
  have hnone : ts.filter (·.kind.isStructural) = [] := by
    refine List.filter_eq_nil_iff.mpr fun t ht => ?_
    rw [not_isStructural_of_isTrivia (htrivia t ht)]
    simp
  refine ⟨⟨ts, hahead, hbehind⟩, ?_, rfl, rfl⟩
  rw [hahead, List.filter_append, hnone]
  rfl

theorem skipTrivia_of_not_trivia {t : Token} {rest : List Token} (h : c.ahead = t :: rest)
    (ht : t.kind.isTrivia = false) : c.skipTrivia = c := by
  obtain ⟨behind, ahead, faults, opened, reports⟩ := c
  subst h
  simp [skipTrivia, passTrivia, ht]

theorem steps_skipTrivia {t : Token} {rest : List Token} (h : c.ahead = t :: rest)
    (ht : t.kind.isTrivia = true) : c.Steps c.skipTrivia := by
  refine ⟨leads_skipTrivia c, ?_⟩
  obtain ⟨ts, hahead, -⟩ := passTrivia_spec (t :: c.behind) rest
  have hlen := congrArg List.length hahead
  rw [List.length_append] at hlen
  simp only [skipTrivia, h, passTrivia, ht, if_true, List.length_cons]
  omega

theorem passEndTag_spec {behind ahead behind' ahead' : List Token}
    (h : passEndTag behind ahead = some (behind', ahead')) :
    ∃ ts, ahead = ts ++ ahead' ∧ behind' = ts.reverse ++ behind := by
  induction ahead generalizing behind with
  | nil => simp [passEndTag] at h
  | cons t rest ih =>
      unfold passEndTag at h
      by_cases hend : t.kind = .tagEnd
      · rw [if_pos hend, Option.some.injEq, Prod.mk.injEq] at h
        obtain ⟨rfl, rfl⟩ := h
        exact ⟨[t], rfl, rfl⟩
      · rw [if_neg hend] at h
        by_cases hjunk : isEndTagJunk t = true
        · rw [if_pos hjunk] at h
          obtain ⟨ts, rfl, rfl⟩ := ih h
          exact ⟨t :: ts, rfl, by simp⟩
        · rw [if_neg hjunk] at h
          exact absurd h (by simp)

theorem steps_pastEndTag {t : Token} {rest : List Token} (h : c.ahead = t :: rest) :
    c.Steps c.pastEndTag := by
  refine (steps_advance h).trans_leads ?_
  simp only [pastEndTag]
  cases hpass : passEndTag c.advance.behind c.advance.ahead with
  | none => exact Leads.refl _
  | some moved => exact ⟨passEndTag_spec hpass, List.suffix_refl _, rfl⟩

/-- A closer that nothing waits for is passed. -/
theorem steps_of_recover? {t : Token} {rest : List Token} (h : c.ahead = t :: rest)
    (hrecover : c.recover? t = some d) : c.Steps d := by
  unfold recover? at hrecover
  by_cases hexpects : c.expects t.kind
      (if t.kind = .tagClose then some (Text.lower (tagName t)) else none) = true
  · simp [hexpects] at hrecover
  · rw [if_neg hexpects, Option.some.injEq] at hrecover
    refine (leads_note c (unexpectedCloser t) t.start t.stop).trans_steps ?_
    rw [← hrecover]
    by_cases hclose : t.kind = .tagClose
    · rw [if_pos hclose]
      exact steps_pastEndTag h
    · rw [if_neg hclose]
      exact steps_advance h

end Cursor

/-- A production that reads a node passes a token. -/
structure Moves (p : Production) : Prop where
  steps : ∀ {c : Cursor} {node : Node} {d : Cursor}, p c = some (node, d) → c.Steps d

open Cursor

/-! ### Putting productions together -/

theorem moves_nothing : Moves fun _ => none := by
  refine ⟨fun {c node d} h => ?_⟩
  exact absurd h (by simp)

theorem choice_eq_some {ps : List Production} {c : Cursor} {result : Node × Cursor}
    (h : choice ps c = some result) : ∃ p ∈ ps, p c = some result := by
  induction ps with
  | nil => simp [choice] at h
  | cons p ps ih =>
      unfold choice at h
      cases hp : p c with
      | none =>
          rw [hp] at h
          obtain ⟨q, hq, hresult⟩ := ih h
          exact ⟨q, List.mem_cons_of_mem p hq, hresult⟩
      | some found =>
          rw [hp] at h
          exact ⟨p, List.mem_cons_self, hp.trans h⟩

theorem choice_eq_none {ps : List Production} {c : Cursor} :
    choice ps c = none ↔ ∀ p ∈ ps, p c = none := by
  induction ps with
  | nil => simp [choice]
  | cons p ps ih =>
      rw [choice]
      cases hp : p c with
      | none => simp [hp, ih]
      | some found => simp [hp]

/-- The productions of which each begins at tokens of its own. -/
def Begins {α : Type} (first : TokenKind → Option α) (f : α → Production) (as : List α) : Prop :=
  ∀ a ∈ as, ∀ {c : Cursor} {found : Node × Cursor}, f a c = some found →
    ∃ t rest, c.ahead = t :: rest ∧ first t.kind = some a

/-- What one of them reads, the choice of all of them reads. -/
theorem Begins.choice {α : Type} {first : TokenKind → Option α} {f : α → Production} {as : List α}
    (h : Begins first f as) {a : α} (ha : a ∈ as) {c : Cursor} {found : Node × Cursor}
    (hread : f a c = some found) : choice (as.map f) c = some found := by
  obtain ⟨t, rest, hahead, hkind⟩ := h a ha hread
  cases hchoice : Parsing.choice (as.map f) c with
  | none =>
      have hnone := choice_eq_none.mp hchoice _ (List.mem_map_of_mem ha)
      rw [hread] at hnone
      exact absurd hnone (by simp)
  | some other =>
      obtain ⟨p, hp, hother⟩ := choice_eq_some hchoice
      obtain ⟨b, hb, rfl⟩ := List.mem_map.mp hp
      obtain ⟨t', rest', hahead', hkind'⟩ := h b hb hother
      rw [hahead] at hahead'
      cases hahead'
      rw [hkind] at hkind'
      cases hkind'
      rw [← hother, hread]

/-- None of them begins at other tokens. -/
theorem Begins.choice_eq_none {α : Type} {first : TokenKind → Option α} {f : α → Production}
    {as : List α} (h : Begins first f as) {c : Cursor} {t : Token} {rest : List Token}
    (hahead : c.ahead = t :: rest) (ht : first t.kind = none) :
    Parsing.choice (as.map f) c = none := by
  refine Parsing.choice_eq_none.mpr fun p hp => ?_
  obtain ⟨a, ha, rfl⟩ := List.mem_map.mp hp
  cases hread : f a c with
  | none => rfl
  | some found =>
      obtain ⟨t', rest', hahead', hkind⟩ := h a ha hread
      rw [hahead] at hahead'
      cases hahead'
      rw [ht] at hkind
      exact absurd hkind (by simp)

theorem Moves.choice {ps : List Production} (h : ∀ p ∈ ps, Moves p) : Moves (choice ps) := by
  refine ⟨fun {c node d} hchoice => ?_⟩
  obtain ⟨p, hp, hresult⟩ := choice_eq_some hchoice
  exact (h p hp).steps hresult

/-- The same where each production stands for something. -/
theorem Moves.choice_map {α : Type} {f : α → Production} {as : List α}
    (h : ∀ a ∈ as, Moves (f a)) : Moves (Parsing.choice (as.map f)) := by
  refine Moves.choice fun p hp => ?_
  obtain ⟨a, ha, rfl⟩ := List.mem_map.mp hp
  exact h a ha

theorem leads_sequence? {ps : List Production} (h : ∀ p ∈ ps, Moves p) {c d : Cursor}
    {nodes : List Node} (hseq : sequence? ps c = some (nodes, d)) : c.Leads d := by
  induction ps generalizing c nodes with
  | nil =>
      simp only [sequence?, Option.some.injEq, Prod.mk.injEq] at hseq
      exact hseq.2 ▸ Leads.refl c
  | cons p ps ih =>
      unfold sequence? at hseq
      cases hp : p c.skipTrivia with
      | none => simp [hp] at hseq
      | some found =>
          simp only [hp, Option.map_eq_some_iff, Prod.mk.injEq] at hseq
          obtain ⟨⟨others, e⟩, hothers, -, rfl⟩ := hseq
          exact ((leads_skipTrivia c).trans ((h p (by simp)).steps hp).leads).trans
            (ih (fun q hq => h q (by simp [hq])) hothers)

/-! ### Loops and containers -/

theorem leads_itemsLoop {item : Production} (hitem : Moves item) (closer : Option TokenKind)
    (turns : Nat) (c : Cursor) : c.Leads (itemsLoop item closer turns c).cursor := by
  have hrun := itemsRun item closer turns c
  generalize itemsLoop item closer turns c = found at hrun
  induction hrun with
  | spent => exact Leads.refl _
  | ended | awaited => exact leads_skipTrivia _
  | closed => exact (leads_skipTrivia _).trans (leads_advance _)
  | stray hahead _ _ hrecover _ ih =>
      exact ((leads_skipTrivia _).trans (steps_of_recover? hahead hrecover).leads).trans ih
  | node _ _ _ hnode _ ih => exact ((leads_skipTrivia _).trans (hitem.steps hnode).leads).trans ih
  | filler _ _ _ _ _ ih => exact ((leads_skipTrivia _).trans (leads_advance _)).trans ih

theorem passBalanced_spec (opener closer : TokenKind) (depth : Nat) (behind ahead : List Token) :
    ∃ ts, ahead = ts ++ (passBalanced opener closer depth behind ahead).2.2
      ∧ (passBalanced opener closer depth behind ahead).2.1 = ts.reverse ++ behind := by
  induction ahead generalizing depth behind with
  | nil => exact ⟨[], rfl, rfl⟩
  | cons t rest ih =>
      have hmore (depth : Nat) :
          ∃ ts, t :: rest = ts ++ (passBalanced opener closer depth (t :: behind) rest).2.2
            ∧ (passBalanced opener closer depth (t :: behind) rest).2.1 = ts.reverse ++ behind := by
        obtain ⟨ts, hahead, hbehind⟩ := ih depth (t :: behind)
        refine ⟨t :: ts, by rw [List.cons_append, ← hahead], ?_⟩
        rw [hbehind, List.reverse_cons, List.append_assoc]
        rfl
      unfold passBalanced
      by_cases hopener : t.kind = opener
      · rw [if_pos hopener]
        exact hmore _
      rw [if_neg hopener]
      by_cases hcloser : t.kind = closer
      · rw [if_pos hcloser]
        by_cases hdepth : depth = 1
        · rw [if_pos hdepth]
          exact ⟨[t], rfl, rfl⟩
        · rw [if_neg hdepth]
          exact hmore _
      · rw [if_neg hcloser]
        exact hmore _

theorem leads_skipBalanced (input : Input) (opener : Token) (closer : TokenKind) (c : Cursor) :
    c.Leads (skipBalanced input opener closer c).2 :=
  (leads_note c .tooDeep opener.start opener.stop).trans
    ⟨passBalanced_spec opener.kind closer 1 c.behind c.ahead, List.suffix_refl _, rfl⟩

theorem Group.leads_body (g : Group) (input : Input) {item : Production} (hitem : Moves item)
    (opener : Token) (c : Cursor) : c.Leads (g.body input item opener c).2 := by
  have hinner := leads_itemsLoop hitem (some g.closer) input.bound
    (c.push { closer := g.closer, start := opener.start })
  unfold body items
  cases hcloser : (itemsLoop item (some g.closer) input.bound
    (c.push { closer := g.closer, start := opener.start })).closer with
  | some t => simp only [hcloser]; exact hinner.close
  | none => simp only [hcloser]; exact hinner.close.trans (leads_note _ _ _ _)

theorem Group.ahead_of_read {g : Group} {input : Input} {item : Production} {c : Cursor}
    {found : Node × Cursor} (h : g.read input item c = some found) :
    ∃ t rest, c.ahead = t :: rest ∧ t.kind = g.opener := by
  unfold Group.read at h
  cases hopener : c.acceptKind? g.opener with
  | none => simp [hopener] at h
  | some opened =>
      obtain ⟨hkind, -, -, hahead⟩ := accept?_eq_some hopener
      exact ⟨_, _, hahead, hkind⟩

theorem Group.moves_read (g : Group) (input : Input) {item : Production} (hitem : Moves item) :
    Moves (g.read input item) := by
  refine ⟨fun {c node d} h => ?_⟩
  unfold read at h
  cases hopener : c.acceptKind? g.opener with
  | none => simp [hopener] at h
  | some found =>
      obtain ⟨opener, c'⟩ := found
      refine (steps_of_accept? hopener).trans_leads ?_
      simp only [hopener] at h
      by_cases hdeep : c'.tooDeep = true
      · simp only [hdeep, if_true, Option.some.injEq, Prod.mk.injEq] at h
        exact h.2 ▸ leads_skipBalanced input opener g.closer c'
      · simp only [if_neg hdeep, Option.some.injEq] at h
        have hbody := g.leads_body input hitem opener c'
        rw [h] at hbody
        exact hbody

/-! ### Leaves -/

theorem ahead_of_comment {c : Cursor} {found : Node × Cursor} (h : comment c = some found) :
    ∃ t rest, c.ahead = t :: rest ∧ (t.kind = .comment ∨ t.kind = .lineComment) := by
  unfold comment at h
  cases hahead : c.ahead with
  | nil => simp [hahead] at h
  | cons t rest =>
      simp only [hahead] at h
      split at h
      · exact ⟨t, rest, rfl, ‹_›⟩
      · exact absurd h (by simp)

theorem moves_comment : Moves comment := by
  refine ⟨fun {c node d} h => ?_⟩
  unfold comment at h
  cases hahead : c.ahead with
  | nil => simp [hahead] at h
  | cons t rest =>
      simp only [hahead] at h
      by_cases hkind : t.kind = .comment ∨ t.kind = .lineComment
      · simp only [if_pos hkind, Option.some.injEq, Prod.mk.injEq] at h
        exact h.2 ▸ steps_advance hahead
      · simp [if_neg hkind] at h

theorem not_isStructural_of_text {kind : TokenKind} (h : kind = .text ∨ kind = .entity) :
    kind.isStructural = false := by
  rcases h with rfl | rfl <;> rfl

theorem skims_textLoop (stop : Int) (turns : Nat) (c : Cursor) :
    c.Skims (textLoop stop turns c).2 := by
  induction turns generalizing stop c with
  | zero => exact Skims.refl c
  | succ turns ih =>
      unfold textLoop
      cases hahead : c.skipTrivia.ahead with
      | nil => simp only [hahead]; exact Skims.refl c
      | cons t rest =>
          simp only [hahead]
          by_cases hkind : t.kind = .text ∨ t.kind = .entity
          · rw [if_pos hkind]
            exact ((skims_skipTrivia c).trans
              (skims_advance hahead (not_isStructural_of_text hkind))).trans (ih _ _)
          · rw [if_neg hkind]
            exact Skims.refl c

theorem moves_text (input : Input) : Moves (text input) := by
  refine ⟨fun {c node d} h => ?_⟩
  unfold text at h
  by_cases hrich : input.rich = true
  · rw [if_pos hrich] at h
    cases hahead : c.ahead with
    | nil => simp [hahead] at h
    | cons t rest =>
        simp only [hahead] at h
        by_cases hkind : t.kind = .text ∨ t.kind = .entity
        · simp only [if_pos hkind, Option.some.injEq, Prod.mk.injEq] at h
          exact h.2 ▸ (steps_advance hahead).trans_leads (skims_textLoop _ _ _).leads
        · simp [if_neg hkind] at h
  · rw [if_neg hrich] at h
    exact absurd h (by simp)

/-! ### Elements -/

theorem leads_readAttribute (input : Input) (d : Dialect) {expression : Production}
    (hexpression : Moves expression) (name : Token) (c : Cursor) :
    c.Leads (readAttribute input d expression name c).cursor := by
  unfold readAttribute
  cases hequals : c.skipTrivia.acceptKind? .equals with
  | none => exact Leads.refl c
  | some found =>
      obtain ⟨equals, c'⟩ := found
      have hvalue : c.Leads c'.skipTrivia :=
        ((leads_skipTrivia c).trans (steps_of_accept? hequals).leads).trans (leads_skipTrivia c')
      -- No literal value or an expression comes after the equals sign, or a literal value.
      have hread {node : Node} {e : Cursor} (hnode : expression c'.skipTrivia = some (node, e)) :
          c.Leads e :=
        hvalue.trans (hexpression.steps hnode).leads
      simp only
      split
      · split
        · exact hvalue.trans (leads_advance _)
        · split
          · exact hread ‹_›
          · exact hvalue
      · split
        · exact hread ‹_›
        · exact hvalue

theorem leads_startTagLoop (input : Input) (d : Dialect) {expression : Production}
    (hexpression : Moves expression) (turns : Nat) (c : Cursor) :
    c.Leads (startTagLoop input d expression turns c).cursor := by
  have hrun := startTagRun input d expression turns c
  generalize startTagLoop input d expression turns c = tag at hrun
  induction hrun with
  | spent => exact Leads.refl _
  | exhausted | cut => exact leads_skipTrivia _
  | ended => exact (leads_skipTrivia _).trans (leads_advance _)
  | named _ _ hread _ ih =>
      refine ((leads_skipTrivia _).trans ((leads_advance _).trans ?_)).trans ih
      exact hread ▸ leads_readAttribute input d hexpression _ _
  | expression _ _ _ _ hnode _ ih =>
      exact ((leads_skipTrivia _).trans (hexpression.steps hnode).leads).trans ih
  | filler _ _ _ _ _ _ ih => exact ((leads_skipTrivia _).trans (leads_advance _)).trans ih

theorem OpenElement.leads_complain (e : OpenElement) (cause : Anomaly) (blame : Token)
    (c : Cursor) : c.Leads (e.complain cause blame c) := by
  unfold complain
  by_cases hoptional : e.optional = true
  · rw [if_pos hoptional]
    exact Leads.refl c
  · rw [if_neg hoptional]
    exact leads_note ..

theorem leads_contentLoop (input : Input) (d : Dialect) {child : Production}
    (hchild : Moves child) (e : OpenElement) (turns : Nat) (c : Cursor) :
    c.Leads (contentLoop input d child e turns c).cursor := by
  have hrun := contentRun input d child e turns c
  generalize contentLoop input d child e turns c = content at hrun
  induction hrun with
  | spent => exact Leads.refl _
  | exhausted | interrupted => exact (leads_skipTrivia _).trans (e.leads_complain ..)
  | closed hahead => exact (leads_skipTrivia _).trans (steps_pastEndTag hahead).leads
  | stray hahead _ _ hrecover _ ih =>
      exact ((leads_skipTrivia _).trans (steps_of_recover? hahead hrecover).leads).trans ih
  | implied => exact leads_skipTrivia _
  | child _ _ _ hnode _ ih => exact ((leads_skipTrivia _).trans (hchild.steps hnode).leads).trans ih
  | filler _ _ _ _ _ ih => exact ((leads_skipTrivia _).trans (leads_advance _)).trans ih

theorem moves_element (input : Input) (d : Dialect) {child expression : Production}
    (hchild : Moves child) (hexpression : Moves expression) :
    Moves (element input d child expression) := by
  refine ⟨fun {c node c'} h => ?_⟩
  obtain ⟨opener, rest, hahead, -, hread⟩ := elementRead h
  have htag := leads_startTagLoop input d hexpression input.bound c.advance
  refine (steps_advance hahead).trans_leads (htag.trans ?_)
  cases hread with
  | empty => exact Leads.refl _
  | tooDeep => exact leads_note ..
  | content _ _ _ hcontent =>
      subst hcontent
      exact (leads_contentLoop input d hchild _ input.bound _).close

/-! ### Documents -/

/-- The parse that the items of a document come to. -/
def Parse.ofItems (g : Grammar Rule) (input : Input) (all : Items) : Parse :=
  { tree := .container input.start input.stop .document all.nodes
    faults := all.cursor.faults.reverse
    reports := all.cursor.reports.reverse
      ++ if all.cursor.faults.isEmpty then [] else [⟨g.name, all.cursor.faults.length⟩] }

theorem Grammar.parse_of_document {g : Grammar Rule} {input : Input} (rule : Rule)
    {item : Production} (hrule : g.rules.lookup g.start = some rule)
    (hdocument : rule input = document input item) :
    g.parse input = .ofItems g input (Parsing.items input item none input.cursor) := by
  simp only [Grammar.parse, hrule, hdocument, document, Option.getD_some, Node.isDocument, if_true]
  rfl

end SourceView.Parsing
