/-
Every token of a script has its place in the full tree.

No token of a script is empty, and a statement can be read wherever no closer comes next.  So
the items of a document take the tokens one after another: what is neither whitespace nor in
one of them is a closer that nothing waits for, or was passed with an end tag of that kind.
Since the items lie apart, none of them has to share a token with another.
-/
import SourceView.Proofs.Embedding.Pass
import SourceView.Proofs.Script.Pieces

namespace SourceView

open Lexing Parsing Parsing.Cursor

/-- Whether the token lies in the span of the node. -/
def Node.spans (n : Node) (t : Token) : Bool :=
  n.start ≤ t.start && t.stop ≤ n.stop

theorem Node.spans_iff {n : Node} {t : Token} :
    n.spans t = true ↔ n.start ≤ t.start ∧ t.stop ≤ n.stop := by
  simp [Node.spans]

/-- Of nodes that lie apart, only one can have a token in its span that is not empty. -/
theorem Node.countP_spans {nodes : List Node} {t : Token} (hspan : t.start < t.stop)
    (hapart : nodes.Pairwise fun left right => left.stop ≤ right.start)
    (h : ∃ n ∈ nodes, n.spans t = true) : nodes.countP (·.spans t) = 1 := by
  obtain ⟨n, hn, hspans⟩ := h
  obtain ⟨before, after, rfl⟩ := List.append_of_mem hn
  rw [List.pairwise_append, List.pairwise_cons] at hapart
  obtain ⟨-, ⟨hafter, -⟩, hbefore⟩ := hapart
  rw [Node.spans_iff] at hspans
  have hnone {others : List Node} (hothers : ∀ m ∈ others, m.spans t ≠ true) :
      others.countP (·.spans t) = 0 := List.countP_eq_zero.mpr hothers
  have hleft : before.countP (·.spans t) = 0 := hnone fun m hm hm' => by
    have hle := hbefore m hm n (by simp)
    rw [Node.spans_iff] at hm'
    omega
  have hright : after.countP (·.spans t) = 0 := hnone fun m hm hm' => by
    have hle := hafter m hm
    rw [Node.spans_iff] at hm'
    omega
  rw [List.countP_append, List.countP_cons, hleft, hright, if_pos (Node.spans_iff.mpr hspans)]

namespace Parsing

variable {tokens : List Token} {input : Input} {c d : Cursor} {lo : Int} {t : Token}
  {rest : List Token} {faults : List Fault} {nodes : List Node}

/-! ### Closers out of place -/

/-- A closer that nothing waits for, noted where it stands. -/
def IsStray (faults : List Fault) (u : Token) : Prop :=
  u.kind.isCloser = true ∧ ⟨unexpectedCloser u, u.start, u.stop⟩ ∈ faults

/-- The tokens that go with an end tag: junk after its name, and the `>` behind that. -/
def IsEndTagRest (ts : List Token) : Prop :=
  ∃ junk e, ts = junk ++ [e] ∧ (∀ u ∈ junk, isEndTagJunk u = true) ∧ e.kind = .tagEnd

/-- The token is a closer that nothing waits for, or goes with an end tag that is one. -/
def Discarded (tokens : List Token) (faults : List Fault) (t : Token) : Prop :=
  IsStray faults t ∨ ∃ before u ts after, tokens = before ++ u :: (ts ++ after)
    ∧ IsStray faults u ∧ u.kind = .tagClose ∧ IsEndTagRest ts ∧ t ∈ ts

theorem IsStray.mono {faults' : List Fault} (h : IsStray faults t) (hfaults : faults ⊆ faults') :
    IsStray faults' t :=
  ⟨h.1, hfaults h.2⟩

theorem Discarded.mono {faults' : List Fault} (h : Discarded tokens faults t)
    (hfaults : faults ⊆ faults') : Discarded tokens faults' t := by
  rcases h with h | ⟨before, u, ts, after, htokens, hstray, hrest⟩
  · exact Or.inl (h.mono hfaults)
  · exact Or.inr ⟨before, u, ts, after, htokens, hstray.mono hfaults, hrest⟩

theorem passEndTag_rest {behind ahead behind' ahead' : List Token}
    (h : passEndTag behind ahead = some (behind', ahead')) :
    ∃ ts, ahead = ts ++ ahead' ∧ IsEndTagRest ts := by
  induction ahead generalizing behind with
  | nil => simp [passEndTag] at h
  | cons t rest ih =>
      unfold passEndTag at h
      by_cases hend : t.kind = .tagEnd
      · rw [if_pos hend, Option.some.injEq, Prod.mk.injEq] at h
        obtain ⟨-, rfl⟩ := h
        exact ⟨[t], rfl, [], t, rfl, by simp, hend⟩
      · rw [if_neg hend] at h
        by_cases hjunk : isEndTagJunk t = true
        · rw [if_pos hjunk] at h
          obtain ⟨ts, rfl, junk, e, rfl, hall, he⟩ := ih h
          exact ⟨t :: (junk ++ [e]), rfl, t :: junk, e, rfl,
            List.forall_mem_cons.mpr ⟨hjunk, hall⟩, he⟩
        · rw [if_neg hjunk] at h
          exact absurd h (by simp)

theorem pastEndTag_rest (hahead : c.ahead = t :: rest) :
    ∃ ts, rest = ts ++ c.pastEndTag.ahead ∧ (ts = [] ∨ IsEndTagRest ts) := by
  have hadvance : c.advance.ahead = rest := by simp [advance, hahead]
  unfold pastEndTag
  cases hpast : passEndTag c.advance.behind c.advance.ahead with
  | none => simp only [hpast]; exact ⟨[], hadvance.symm, Or.inl rfl⟩
  | some moved =>
      simp only [hpast]
      obtain ⟨ts, hts, hrest⟩ := passEndTag_rest hpast
      exact ⟨ts, hadvance ▸ hts, Or.inr hrest⟩

/-- What is passed at a closer that nothing waits for is noted, or goes with what is. -/
theorem recover?_discards (hc : c.Within tokens) (hahead : c.ahead = t :: rest)
    (hcloser : t.kind.isCloser = true) (h : c.recover? t = some d) :
    ∀ u, c.Passed d u → Discarded tokens d.faults u := by
  -- The closer is noted, and `ts` are passed with it.
  have hpassed {ts : List Token} (hrest : rest = ts ++ d.ahead) (hstray : IsStray d.faults t)
      (hts : ts = [] ∨ t.kind = .tagClose ∧ IsEndTagRest ts) :
      ∀ u, c.Passed d u → Discarded tokens d.faults u := by
    rintro u ⟨us, hus, hu⟩
    rw [hahead, hrest, ← List.cons_append] at hus
    rw [← List.append_cancel_right hus] at hu
    rcases List.mem_cons.mp hu with rfl | hu
    · exact Or.inl hstray
    · obtain ⟨hclose, hend⟩ := hts.resolve_left (List.ne_nil_of_mem hu)
      refine Or.inr ⟨c.behind.reverse, t, ts, d.ahead, ?_, hstray, hclose, hend, hu⟩
      rw [hc, hahead, hrest]
  unfold recover? at h
  by_cases hclose : t.kind = .tagClose
  · simp only [if_pos hclose, Option.ite_none_left_eq_some, Option.some.injEq] at h
    obtain ⟨-, rfl⟩ := h
    obtain ⟨ts, hts, hend⟩ :=
      pastEndTag_rest (c := c.note (unexpectedCloser t) t.start t.stop) hahead
    have hfaults := (steps_pastEndTag (c := c.note (unexpectedCloser t) t.start t.stop)
      hahead).leads.faults
    exact hpassed hts ⟨hcloser, hfaults.subset List.mem_cons_self⟩
      (hend.imp_right fun h => ⟨hclose, h⟩)
  · simp only [if_neg hclose, Option.ite_none_left_eq_some, Option.some.injEq] at h
    obtain ⟨-, rfl⟩ := h
    have hrest : rest = [] ++ ((c.note (unexpectedCloser t) t.start t.stop).advance).ahead := by
      simp [advance, note, hahead]
    refine hpassed hrest ⟨hcloser, ?_⟩ (Or.inl rfl)
    rw [faults_advance]
    exact List.mem_cons_self

/-- A closer is never waited for where nothing is open. -/
theorem recover?_isSome (hopened : c.opened = []) (t : Token) : (c.recover? t).isSome = true := by
  simp [recover?, expects, hopened]

/-! ### Items of a document -/

/-- What becomes of a token: it is whitespace, or in the span of a node, or it was discarded and
no node reaches over it. -/
def Covered (tokens : List Token) (nodes : List Node) (faults : List Fault) (t : Token) : Prop :=
  t.kind.isTrivia = true ∨ (∃ n ∈ nodes, n.spans t = true)
    ∨ Discarded tokens faults t ∧ ∀ n ∈ nodes, n.stop ≤ t.start ∨ t.stop ≤ n.start

/-- A production that reads something wherever neither whitespace nor a closer comes next. -/
def Total (item : Production) : Prop :=
  ∀ {c : Cursor} {t : Token} {rest : List Token}, c.ahead = t :: rest → t.kind.isCloser = false →
    (item c).isSome = true

theorem itemsLoop_after {item : Production} (hitem : Traces input item) (hinput : input.Fair tokens)
    (closer : Option TokenKind) (turns : Nat) (hc : c.Ready input lo) :
    ∀ n ∈ (itemsLoop item closer turns c).nodes, c.unclosedEnd input ≤ n.start := by
  obtain ⟨d, hi, htrace, -⟩ := itemsLoop_trace hitem closer turns hc.within lo
  exact fun n hn => ((htrace.passage hinput hc).inside n hn).1

/-- **Where something can be read at every token, a loop with nothing open loses none.** -/
theorem itemsLoop_covers {item : Production} (htraces : Traces input item)
    (hfits : Fits input item) (htotal : Total item) (hinput : input.Fair tokens) (turns : Nat)
    (hc : c.Ready input lo) (hopened : c.opened = []) (hturns : c.ahead.length < turns) :
    ∀ t ∈ c.ahead, Covered input.tokens (itemsLoop item none turns c).nodes
      (itemsLoop item none turns c).cursor.faults t := by
  have hrun := itemsRun item none turns c
  generalize itemsLoop item none turns c = found at hrun
  induction hrun generalizing lo with
  | spent => exact absurd hturns (Nat.not_lt_zero _)
  | @ended _ c hahead =>
      intro u hu
      rcases (leads_skipTrivia c).passes.passed_or hu with hpassed | hu
      · exact Or.inl ((skips_skipTrivia c).of_passed hpassed)
      · rw [hahead] at hu
        cases hu
  | closed _ ht => cases ht
  | @awaited _ c t _ _ _ _ hrecover =>
      have hsome := recover?_isSome ((leads_skipTrivia c).opened.trans hopened) t
      rw [hrecover] at hsome
      cases hsome
  | @stray _ c d t _ found hahead _ ht hrecover hmore ih =>
      intro u hu
      have hskip := Trace.trivia input c lo
      have hc' := hskip.ready hinput hc
      have hshort := hskip.leads.length_le
      obtain ⟨mid, hpass⟩ := Trace.of_recover? lo hahead hc'.within hrecover
      have hd := hpass.ready hinput hc'
      have hlen := (steps_of_recover? hahead hrecover).shorter
      rcases hskip.leads.passes.passed_or hu with hpassed | hu
      · exact Or.inl ((skips_skipTrivia c).of_passed hpassed)
      rcases hpass.leads.passes.passed_or hu with hpassed | hu
      · refine Or.inr (Or.inr ⟨?_, fun n hn => Or.inr ?_⟩)
        · refine (recover?_discards hc'.within hahead ht hrecover u hpassed).mono ?_
          exact hmore.eq ▸ (leads_itemsLoop htraces.toMoves none _ d).faults.subset
        · have hafter := itemsLoop_after htraces hinput none _ hd n (hmore.eq ▸ hn)
          have hstop := hc'.ordered.passed_stop hpass.leads.passes hpassed
          have hend := hd.ordered.previousEnd_le_unclosedEnd
          omega
      · exact ih hd (hpass.leads.opened.trans (hskip.leads.opened.trans hopened)) (by omega) u hu
  | @node _ c d t _ node found hahead _ _ hnode _ ih =>
      intro u hu
      have hskip := Trace.trivia input c lo
      have hc' := hskip.ready hinput hc
      have hshort := hskip.leads.length_le
      have hread := htraces.trace (atToken_skipTrivia c) hc'.within hnode lo
      have hpassage := hread.passage hinput hc'
      have hd := hread.ready hinput hc'
      have hlen := (htraces.steps hnode).shorter
      rcases hskip.leads.passes.passed_or hu with hpassed | hu
      · exact Or.inl ((skips_skipTrivia c).of_passed hpassed)
      rcases hread.leads.passes.passed_or hu with hpassed | hu
      · refine (hpassage.covers u hpassed).imp_right fun hstop => Or.inl ?_
        refine ⟨node, List.mem_cons_self, Node.spans_iff.mpr ⟨?_, hstop⟩⟩
        rw [(hfits.reads hc'.ordered hnode).start]
        exact (hc'.ordered.mem hpassed.mem).1
      · rcases ih hd (hread.leads.opened.trans (hskip.leads.opened.trans hopened)) (by omega) u hu
          with hblank | ⟨n, hn, hspans⟩ | ⟨hdiscarded, hapart⟩
        · exact Or.inl hblank
        · exact Or.inr (Or.inl ⟨n, List.mem_cons_of_mem _ hn, hspans⟩)
        · refine Or.inr (Or.inr ⟨hdiscarded, List.forall_mem_cons.mpr ⟨?_, hapart⟩⟩)
          exact Or.inl (Int.le_trans hd.low (hd.ordered.mem hu).1)
  | filler hahead _ ht hnode =>
      have hsome := htotal hahead (Bool.eq_false_iff.mpr ht)
      rw [hnode] at hsome
      cases hsome

end Parsing

/-! ### Scripts -/

namespace Script

/-- A statement is read wherever nothing else is. -/
theorem total_statements {input : Input} (hrich : input.rich = true) (height : Nat) :
    Total (derive.statements input (readWithin input (height + 1))) := by
  intro c t rest hahead hcloser
  have hstart := statementStart?_eq_some.mpr ⟨peek?_of_ahead hahead, hrich, hcloser⟩
  have hstatement : (readWithin input (height + 1) .statement c).isSome = true := by
    simp [readWithin, derive, statement, hstart]
  refine Option.isSome_iff_ne_none.mpr fun hnone => ?_
  rw [derive.statements, if_pos hrich] at hnone
  have hfails := choice_eq_none.mp hnone _
    (List.mem_map_of_mem (show Symbol.statement ∈ Symbol.statements by simp [Symbol.statements]))
  rw [hfails] at hstatement
  exact absurd hstatement (by simp)

theorem parse_covers {tokens : List Token} {input : Input} (hrich : input.rich = true)
    (hplain : input.Plain) (hinput : input.Fair tokens) :
    ∀ t ∈ input.tokens,
      Covered input.tokens (grammar.parse input).tree.children (grammar.parse input).faults t := by
  obtain ⟨height, hheight⟩ : ∃ height, 3 * input.bound = height + 1 :=
    ⟨3 * input.bound - 1, by unfold Input.bound; omega⟩
  intro t ht
  rw [parse_eq, hheight]
  have hcovers := itemsLoop_covers (traces_derive hplain (traces_readWithin hplain _)).1
    (fits_derive (fits_readWithin (height + 1))).1 (total_statements hrich height) hinput
    input.bound hinput.cursor_ready rfl (Nat.lt_succ_self _) t ht
  refine hcovers.imp_right (Or.imp_right fun ⟨hdiscarded, hapart⟩ => ⟨?_, hapart⟩)
  exact hdiscarded.mono (List.reverse_perm _).symm.subset

end Script

/-- **The full tree of a script loses no token.**  Every token but whitespace is in the span of
just one child of the document.  The exceptions are the closers that nothing waits for, which are
reported where they stand, and the rest of such end tags; no child reaches over any of them. -/
theorem Language.script_tokens_kept (config : Config) (source : List Char) :
    let pass := script.pass config .rich source
    ∀ t ∈ pass.lexing.tokens, t.kind.isTrivia = false →
      pass.parse.tree.children.countP (·.spans t) = 1
        ∨ Discarded pass.lexing.tokens pass.parse.faults t
          ∧ ∀ child ∈ pass.parse.tree.children, child.stop ≤ t.start ∨ t.stop ≤ child.start := by
  intro pass t ht htrivia
  have hspan : t.start < t.stop := by
    have hsame := lex_script_whole .rich config.embeddedLanguages source
    exact Script.lex_nonempty .rich 0 source t (hsame ▸ ht)
  have hplain : (script.input config .rich source).Plain :=
    script.lex_plain .rich config.embeddedLanguages source 0 none (by decide)
  have hcovered := Script.parse_covers rfl hplain (script.fair_input config .rich source) t ht
  rcases hcovered with habsurd | hspans | hdiscarded
  · rw [htrivia] at habsurd
    exact absurd habsurd (by simp)
  · exact Or.inl (Node.countP_spans hspan (script.pass_children config .rich source).1 hspans)
  · exact Or.inr hdiscarded

end SourceView
