/-
What the flag of a closed node tells.

Groups and template literals record whether their closer was there.  Where they are read token
by token the flag is right: a node that is closed ends with its closer, behind all that it
holds, and behind a node that is not closed there is no such token.  For whatever closer a
node passes without being closed by it belongs to a node inside, so it ends no later than
that one does.

Past the nesting limit nothing is read.  A node there says that it is closed, wherever the
balanced run of tokens that it takes comes to an end.
-/
import SourceView.Proofs.Embedding.Pass

namespace SourceView

/-- The node ends with one of the tokens, which is of the given kind and begins behind all that
the node holds. -/
def Node.ClosedBy (closer : TokenKind) (tokens : List Token) (node : Node) : Prop :=
  ∃ t ∈ tokens, t.kind = closer ∧ t.stop = node.stop ∧ node.start ≤ t.start
    ∧ ∀ child ∈ node.children, child.stop ≤ t.start

instance (closer : TokenKind) (tokens : List Token) (node : Node) :
    Decidable (node.ClosedBy closer tokens) :=
  inferInstanceAs (Decidable (∃ t ∈ tokens, _))

namespace Parsing

open Cursor

variable {tokens : List Token} {input : Input} {c d : Cursor} {lo hi : Int} {node : Node}
  {nodes : List Node} {t : Token}

/-- A closer that an open container waits for is passed only inside of a node. -/
theorem Trace.shuts_inside (h : Trace input c lo nodes d hi) (hinput : input.Fair tokens)
    (hc : c.Ready input lo) (ht : c.Passed d t) (hshuts : t.kind.shuts = true)
    (hopen : ∃ o ∈ c.opened, o.closer = t.kind) : ∃ n ∈ nodes, t.stop ≤ n.stop := by
  have hkind : t.kind.isTrivia ≠ true := fun htrivia => by
    rw [TokenKind.not_shuts_of_isTrivia htrivia] at hshuts
    exact absurd hshuts (by simp)
  induction h with
  | done => exact absurd ht (not_passed_of_ahead_eq rfl)
  | @append input c d e lo mid hi nodes others h h' ih ih' =>
      have hd := h.leads.passes
      rcases ht.split hd h'.leads.passes with ht | ht
      · obtain ⟨n, hn, hstop⟩ := ih hinput hc ht hopen
        exact ⟨n, List.mem_append_left _ hn, hstop⟩
      · rw [← h.leads.opened] at hopen
        obtain ⟨n, hn, hstop⟩ := ih' hinput (h.ready hinput hc) ht hopen
        exact ⟨n, List.mem_append_right _ hn, hstop⟩
  | space h => exact absurd (h.of_passed ht) hkind
  | pass h =>
      obtain ⟨o, ho, hcloser⟩ := hopen
      exact absurd hcloser (h.of_passed ht hshuts o ho)
  | note => exact absurd ht (not_passed_of_ahead_eq rfl)
  | within _ ih =>
      obtain ⟨o, ho, hcloser⟩ := hopen
      exact ih hinput hc.push ht ⟨o, List.mem_cons_of_mem _ ho, hcloser⟩
  | node h hmakes =>
      have hcovers := ((Trace.node h hmakes).passage hinput hc).covers t ht
      exact ⟨_, List.mem_singleton_self _, hcovers.resolve_left hkind⟩

/-- An open container is not closed behind a trace by what waited for it: a closer there was
passed, so it lies in a node. -/
theorem Trace.not_closedBy {o : OpenContainer} {rest : List Token} {info : Container}
    (hinput : input.Fair tokens) (hplain : input.Plain) (hsolid : ∀ t ∈ tokens, t.Solid)
    (hc : c.Ready input lo) (hahead : c.ahead = t :: rest) (hopener : t.kind ≠ o.closer)
    (hcloser : o.closer.shuts = true) (h : Trace input (c.advance.push o) t.stop nodes d hi) :
    ¬(Node.container t.start (d.unclosedEnd input) info nodes).ClosedBy o.closer tokens := by
  rintro ⟨v, hv, hkind, hstop, hstart, hbefore⟩
  change v.stop = d.unclosedEnd input at hstop
  change t.start ≤ v.start at hstart
  change ∀ child ∈ nodes, child.stop ≤ v.start at hbefore
  have hc' := (hc.advance hahead).push (o := o)
  have hd := hc'.ordered.passes h.leads.passes
  have hspan := hsolid v hv (TokenKind.isStructural_of_shuts (hkind ▸ hcloser))
  -- Between the opener and what comes next it is one of the tokens that are passed.
  have hknown : v ∈ input.tokens := by
    have hbegin := (Token.InOrder.mem hinput.order t (hc.within.mem hahead)).1
    have hend := hd.unclosedEnd_le_stop
    exact hinput.seen hplain v hv (by omega) (by omega)
  have hmem := hc.within.ahead_of_start_le hc.ordered hinput.order hknown hspan
    (Int.le_trans (Int.le_of_eq (unclosedEnd_cons hahead)) hstart)
  rw [hahead] at hmem
  have hrest : v ∈ (c.advance.push o).ahead := by
    change v ∈ c.advance.ahead
    rw [ahead_advance hahead]
    exact (List.mem_cons.mp hmem).resolve_left fun h => hopener (h ▸ hkind)
  have hpassed : (c.advance.push o).Passed d v := by
    refine (h.leads.passes.passed_or hrest).resolve_right fun hv => ?_
    have := (hd.mem hv).1
    omega
  obtain ⟨n, hn, hinside⟩ := h.shuts_inside hinput hc' hpassed (hkind ▸ hcloser)
    ⟨o, List.mem_cons_self, hkind.symm⟩
  have := hbefore n hn
  omega

/-- **The flag of a node is right, unless the node is past the nesting limit**, where it always
says that the node is closed. -/
theorem Made.flag_iff {past : Int → Prop} (h : Made tokens past node)
    (hsolid : ∀ t ∈ tokens, t.Solid) {closer : TokenKind} {closed : Bool}
    (hflag : node.flag? = some (closer, closed)) :
    closed = true ↔ node.ClosedBy closer tokens ∨ past node.start := by
  cases h with
  | @intro input input' c c' d d' lo lo' hi nodes hinput hc hmarked hagrees htrace hmakes =>
  obtain ⟨hinput', hc'⟩ := hmakes.ready hinput hc
  have hpass := htrace.passage hinput' hc'
  have hd' := hc'.ordered.passes htrace.leads.passes
  cases hmakes with
  | leaf | element | cut | body => exact absurd hflag (by simp [Node.flag?, Container.flag?])
  | plain _ _ _ hinfo =>
      rw [Node.flag?, hinfo] at hflag
      exact absurd hflag (by simp)
  | shut hplain hahead _ hinfo hcloser hu =>
      rw [Node.flag?, hinfo, Option.some.injEq, Prod.mk.injEq] at hflag
      obtain ⟨rfl, rfl⟩ := hflag
      have hmem := (hc'.within.passes htrace.leads.passes).mem hcloser
      have hlow := hpass.low
      rw [unclosedEnd_cons hcloser] at hlow
      refine iff_of_true rfl (Or.inl ⟨_, hinput.known _ hmem (hplain _ hmem), hu, rfl, ?_, ?_⟩)
      · exact Int.le_trans (hc.ordered.span hahead) (Int.le_trans hpass.rises hlow)
      · exact fun n hn => Int.le_trans (hpass.inside n hn).2.2 hlow
  | ajar hplain hahead ht hopener _ hinfo =>
      rw [Node.flag?, hinfo, Option.some.injEq, Prod.mk.injEq] at hflag
      obtain ⟨rfl, rfl⟩ := hflag
      refine iff_of_false (by simp) (not_or.mpr ⟨?_, ?_⟩)
      · exact htrace.not_closedBy hinput hplain hsolid hc hahead hopener
          (Container.shuts_of_flag? hinfo)
      · exact (hagrees.at_head hinput hc hahead ht (Int.le_trans hpass.rises hpass.low)).not.mpr
          (htrace.not_cuts hinput hc hmarked hahead ht hc' (faults_advance c))
  | flat hplain hahead ht hinfo =>
      rename_i t rest closer' info
      rw [Node.flag?, hinfo, Option.some.injEq, Prod.mk.injEq] at hflag
      obtain ⟨rfl, rfl⟩ := hflag
      have hbehind : t.stop ≤ (skipBalanced input t closer' c.advance).2.unclosedEnd input :=
        Int.le_trans (hc.ordered.stop_le hahead) (hc.ordered.advance.unclosedEnd_le
          (leads_skipBalanced input t closer' c.advance).passes)
      refine iff_of_true rfl (Or.inr ((hagrees.at_head hinput hc hahead ht hbehind).mpr ?_))
      exact (cuts_congr rfl).mpr (cuts_note.mpr (Or.inl ⟨rfl, rfl⟩))

end Parsing

/-- **The flag of a node is right, up to the nesting limit.**  A block, parentheses, brackets or
a template literal in the tree of a pass is closed just when it ends with its own closer, behind
all that it holds, or is past the nesting limit. -/
theorem Language.closed_iff (language : Language) (config : Config) (detail : Detail)
    (source : List Char) :
    let pass := language.pass config detail source
    ∀ node ∈ pass.parse.tree.walk, ∀ closer closed, node.flag? = some (closer, closed) →
      (closed = true ↔ node.ClosedBy closer (Token.flatten pass.lexing.tokens)
        ∨ pass.PastLimit node.start) := by
  intro pass node hnode closer closed hflag
  rw [Node.walk_eq] at hnode
  rcases List.mem_cons.mp hnode with rfl | hnode
  · rw [language.pass_document config detail source] at hflag
    exact absurd hflag (by simp [Node.flag?, Container.flag?])
  · exact (language.pass_made config detail source node hnode).flag_iff
      (language.flatten_solid config detail source) hflag

/-- The innermost of too many open braces says that it is closed. -/
theorem Language.closed_past_limit :
    let pass := stylesheet.pass {} .rich (List.replicate 65 '{')
    let node : Node := .container 64 65 (.block true) []
    node ∈ pass.parse.tree.walk ∧ node.flag? = some (.blockClose, true)
      ∧ ¬node.ClosedBy .blockClose (Token.flatten pass.lexing.tokens)
      ∧ pass.PastLimit node.start := by
  intro pass node
  have hnode : node ∈ pass.parse.tree.walk := by
    rw [Node.walk_eq]
    decide +kernel
  have hopen : ¬node.ClosedBy .blockClose (Token.flatten pass.lexing.tokens) := by
    decide +kernel
  have hclosed := closed_iff .stylesheet {} .rich _ node hnode .blockClose true rfl
  exact ⟨hnode, rfl, hopen, (hclosed.mp rfl).resolve_left hopen⟩

end SourceView
