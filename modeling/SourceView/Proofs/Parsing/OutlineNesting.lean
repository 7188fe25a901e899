/-
How the tree of an outline nests.

An outline sees the tokens that bound something and nothing of the text between them, so the
end of the last token, the start of the next one and the end of the range are three places.
Most nodes take their ends so that nothing in them reaches further.  The exception is an
element past the nesting limit.  It ends with the last token of its start tag; but a container
in the start tag, which is past the limit as well, goes up to the end of the range if its closer
is missing, and the last token may end before that.  Then, and only then, a child sticks out of
its parent.

That the ends of nodes past the limit are of these two kinds is shown along the trace: where too
much is open, everything that is made ends with a token that was passed, or where nothing is
left.
-/
import SourceView.Proofs.Embedding.Pass
import SourceView.Proofs.Parsing.ElementLedger

namespace SourceView

namespace Parsing

open Cursor

variable {tokens : List Token} {input input' : Input} {c c' d d' e : Cursor} {lo lo' hi : Int}
  {node : Node} {nodes : List Node} {t : Token} {rest : List Token}

/-! ### Ends past the nesting limit -/

/-- The offset is the end of a token that is passed between the cursors, or the end of the
range if nothing is left of that. -/
def EndsAt (input : Input) (c d : Cursor) (x : Int) : Prop :=
  (∃ t, c.Passed d t ∧ t.stop = x) ∨ d.ahead = [] ∧ x = input.stop

theorem Cursor.Passed.from_earlier (h : d.Passed e t) (hc : c.Passes d) : c.Passed e t := by
  obtain ⟨us, hus, -⟩ := hc
  obtain ⟨ts, hts, ht⟩ := h
  exact ⟨us ++ ts, by rw [hus, hts, List.append_assoc], List.mem_append_right _ ht⟩

theorem Cursor.Passed.to_later (h : c.Passed d t) (hd : d.Passes e) : c.Passed e t := by
  obtain ⟨us, hus, -⟩ := hd
  obtain ⟨ts, hts, ht⟩ := h
  exact ⟨ts ++ us, by rw [hts, hus, List.append_assoc], List.mem_append_left _ ht⟩

theorem EndsAt.from_earlier {x : Int} (h : EndsAt input d e x) (hc : c.Passes d) :
    EndsAt input c e x :=
  h.imp_left fun ⟨t, ht, hstop⟩ => ⟨t, ht.from_earlier hc, hstop⟩

theorem EndsAt.to_later {x : Int} (h : EndsAt input c d x) (hd : d.Passes e) :
    EndsAt input c e x := by
  rcases h with ⟨t, ht, hstop⟩ | ⟨hnil, hstop⟩
  · exact Or.inl ⟨t, ht.to_later hd, hstop⟩
  · refine Or.inr ⟨?_, hstop⟩
    obtain ⟨ts, hts, -⟩ := hd
    rw [hnil] at hts
    exact (List.append_eq_nil_iff.mp hts.symm).2

/-- Whoever passes anything has passed what it ends behind. -/
theorem Cursor.Passes.exists_previousEnd (input : Input) (h : c.Passes d)
    (hshort : d.ahead.length < c.ahead.length) :
    ∃ t, c.Passed d t ∧ t.stop = d.previousEnd input := by
  obtain ⟨ts, hahead, hbehind⟩ := h
  rcases List.eq_nil_or_concat ts with rfl | ⟨us, u, rfl⟩
  · rw [hahead, List.nil_append] at hshort
    exact absurd hshort (Nat.lt_irrefl _)
  · exact ⟨u, ⟨_, hahead, by simp⟩, by simp [previousEnd, hbehind]⟩

theorem Cursor.passed_advance (hahead : c.ahead = t :: rest) : c.Passed c.advance t :=
  ⟨[t], by rw [ahead_advance hahead, hahead]; rfl, List.mem_singleton_self t⟩

/-- Where too much is open, what a trace has read and made ends with tokens that it passed, or
where nothing is left. -/
structure Exhausts (input : Input) (c : Cursor) (lo : Int) (nodes : List Node) (d : Cursor)
    (hi : Int) : Prop where
  read : hi = lo ∨ EndsAt input c d hi
  made : ∀ n ∈ nodes, EndsAt input c d n.stop

theorem Exhausts.of_read (h : hi = lo ∨ EndsAt input c d hi) : Exhausts input c lo [] d hi :=
  ⟨h, by simp⟩

theorem Exhausts.single (h : EndsAt input c d node.stop) :
    Exhausts input c lo [node] d node.stop :=
  ⟨Or.inr h, fun n hn => by rw [List.mem_singleton.mp hn]; exact h⟩

/-- What was read behind the token at the cursor ends as was said, and so does the token. -/
theorem Exhausts.endsAt (h : Exhausts input c.advance t.stop nodes d hi)
    (hahead : c.ahead = t :: rest) (hd : c.advance.Passes d) : EndsAt input c d hi := by
  rcases h.read with rfl | hends
  · exact Or.inl ⟨t, (passed_advance hahead).to_later hd, rfl⟩
  · exact hends.from_earlier (leads_advance c).passes

theorem Makes.endsAt (h : Makes input c input' c' lo' nodes d' hi node d)
    (hinput : input.Fair tokens) (hc : c.Ready input lo) (htrace : Trace input' c' lo' nodes d' hi)
    (hdeep : c.tooDeep = true)
    (hinner : c'.tooDeep = true → Exhausts input' c' lo' nodes d' hi) :
    EndsAt input c d node.stop := by
  have hdeep' : c.advance.tooDeep = true := by
    rw [tooDeep, (leads_advance c).opened]
    exact hdeep
  have hpasses := htrace.leads.passes
  cases h with
  | leaf hahead => exact (hinner hdeep').endsAt hahead hpasses
  | plain hahead ht hshort =>
      rcases (hinner hdeep).read with rfl | hends
      · -- The token at the cursor has been read, and it begins where nothing had been.
        have hhead := hpasses.passed_head hahead hshort
        have hread := ((htrace.passage hinput ⟨hc.ordered, hc.within,
          hc.ordered.previousEnd_le_unclosedEnd⟩).covers _ hhead).resolve_left
            (Bool.eq_false_iff.mp ht)
        have hstart := hc.ordered.previousEnd_le_unclosedEnd
        have hspan := hc.ordered.span hahead
        rw [unclosedEnd_cons hahead] at hstart
        exact Or.inl ⟨_, hhead, by simp only [Node.stop]; omega⟩
      · exact hends
  | shut _ _ hshallow | ajar _ _ _ _ hshallow =>
      rw [hdeep'] at hshallow
      exact absurd hshallow (by simp)
  | flat hplain hahead =>
      rename_i t rest closer info ht hinfo
      have hskip := (leads_skipBalanced input t closer c.advance).passes
      have hshort := (steps_advance hahead).trans_leads
        (leads_skipBalanced input t closer c.advance)
      rcases skipBalanced_end input t closer c.advance with hend | hend
      · rw [Node.stop, hend]
        have hpasses' := (leads_advance c).passes.trans hskip
        exact Or.inl (hpasses'.exists_previousEnd input hshort.shorter)
      · exact Or.inr hend
  | element hahead ht hstop =>
      rcases hstop with rfl | ⟨hshallow, -⟩
      · exact (hinner hdeep').endsAt hahead hpasses
      · rw [hdeep'] at hshallow
        exact absurd hshallow (by simp)
  | cut hahead =>
      exact Or.inl (((leads_advance c).passes.trans hpasses).exists_previousEnd
        _ ((steps_advance hahead).trans_leads htrace.leads).shorter)
  | body hahead => exact Or.inl ⟨_, passed_advance hahead, rfl⟩

theorem Trace.exhausts (h : Trace input c lo nodes d hi) (hinput : input.Fair tokens)
    (hc : c.Ready input lo) (hdeep : c.tooDeep = true) : Exhausts input c lo nodes d hi := by
  induction h with
  | done => exact .of_read (Or.inl rfl)
  | append h h' ih ih' =>
      have hd := h.leads.passes
      have he := h'.leads.passes
      have hready := h.ready hinput hc
      have hfirst := ih hinput hc hdeep
      have hsecond := ih' hinput hready (by rw [tooDeep, h.leads.opened]; exact hdeep)
      refine ⟨?_, List.forall_mem_append.mpr ⟨fun n hn => (hfirst.made n hn).to_later he,
        fun n hn => (hsecond.made n hn).from_earlier hd⟩⟩
      rcases hsecond.read with rfl | hends
      · exact hfirst.read.imp_right fun hends => hends.to_later he
      · exact Or.inr (hends.from_earlier hd)
  | space => exact .of_read (Or.inl rfl)
  | pass h hshort => exact .of_read (Or.inr (Or.inl (h.passes.exists_previousEnd _ hshort)))
  | note => exact .of_read (Or.inl rfl)
  | @within input c d lo hi nodes o _ ih =>
      have hpush : (c.push o).tooDeep = true :=
        decide_eq_true (Nat.le_succ_of_le (of_decide_eq_true hdeep))
      exact ⟨(ih hinput hc.push hpush).read, (ih hinput hc.push hpush).made⟩
  | node h hmakes ih =>
      obtain ⟨hinput', hc'⟩ := hmakes.ready hinput hc
      exact .single (hmakes.endsAt hinput hc h hdeep (ih hinput' hc'))

/-! ### Nodes and their children -/

/-- What is read in the start tag of an element past the limit reaches further than the last
token there just when no token ends where it does. -/
theorem Trace.sticks_out_iff (htrace : Trace input c.advance t.stop nodes d hi)
    (hinput : input.Fair tokens) (hplain : input.Plain) (hspans : ∀ u ∈ tokens, u.start < u.stop)
    (hc : c.Ready input lo) (hahead : c.ahead = t :: rest) (ht : t.kind.isStructural = true)
    (hdeep : c.advance.tooDeep = true) {child : Node} (hchild : child ∈ nodes) :
    d.previousEnd input < child.stop ↔ ∀ u ∈ tokens, u.stop ≠ child.stop := by
  have hc' := hc.advance hahead
  have hpasses := htrace.leads.passes
  have hd := hc'.ordered.passes hpasses
  have hwithin := hc'.within.passes hpasses
  have hknown {u : Token} (hu : u ∈ c.ahead) : u ∈ tokens := by
    have hmem : u ∈ input.tokens := by
      rw [show input.tokens = _ from hc.within]
      exact List.mem_append_right _ hu
    exact hinput.known u hmem (hplain u hmem)
  rcases (htrace.exhausts hinput hc' hdeep).made child hchild with ⟨u, hu, hstop⟩ | ⟨hnil, hstop⟩
  · -- A token ends there that is passed, so it is no later than the last.
    have hle := hc'.ordered.passed_stop hpasses hu
    exact iff_of_false (by omega) fun h =>
      h u (hknown (hu.from_earlier (leads_advance c).passes).mem) hstop
  · -- The child goes up to the end of the range, and nothing is left of that.
    have hlast := hd.previousEnd_le_unclosedEnd
    rw [unclosedEnd_nil hnil] at hlast
    constructor
    · intro hlt u hu hend
      have hspan := hinput.solid t (hc.within.mem hahead) ht
      have hrange := Token.InOrder.mem hinput.order t (hc.within.mem hahead)
      have hbegins := hspans u hu
      have hmem := hinput.seen hplain u hu (by omega) (by omega)
      rcases hwithin.ahead_or_stop_le hinput.order hmem with hleft | hle
      · rw [hnil] at hleft
        exact absurd hleft (by simp)
      · omega
    · intro hnone
      have hshort := ((steps_advance hahead).trans_leads htrace.leads).shorter
      obtain ⟨u, hu, hend⟩ :=
        ((leads_advance c).passes.trans hpasses).exists_previousEnd input hshort
      have := hnone u (hknown hu.mem)
      omega

/-- A node begins no later than what is read for it. -/
theorem Makes.start_le (h : Makes input c input' c' lo' nodes d' hi node d)
    (hc : c.Ready input lo) (hc' : c'.Ready input' lo') : node.start ≤ c'.unclosedEnd input' := by
  cases h with
  | plain hahead => exact Int.le_of_eq (unclosedEnd_cons hahead).symm
  | body => exact hc'.low
  | leaf hahead | shut _ hahead | ajar _ hahead | flat _ hahead | element hahead | cut hahead =>
      exact Int.le_trans (hc.ordered.span hahead) hc'.low

/-- A child reaches out of its parent just when that is an element past the nesting limit and no
token ends where the child does. -/
theorem Makes.overhangs_iff {past : Int → Prop}
    (h : Makes input c input' c' lo' nodes d' hi node d) (hinput : input.Fair tokens)
    (hc : c.Ready input lo) (hmarked : c.Marked input) (hagrees : Agrees past input c d)
    (htrace : Trace input' c' lo' nodes d' hi) (hspans : ∀ t ∈ tokens, t.start < t.stop) :
    ∀ child ∈ node.children, node.stop < child.stop ↔
      node.isElement = true ∧ past node.start ∧ ∀ t ∈ tokens, t.stop ≠ child.stop := by
  obtain ⟨hinput', hc'⟩ := h.ready hinput hc
  have hpass := htrace.passage hinput' hc'
  have hd' := hc'.ordered.passes htrace.leads.passes
  have hlow := hpass.low
  -- What reaches no further than was read is inside.
  have hinside {stop : Int} (hle : hi ≤ stop) : ∀ child ∈ nodes, ¬stop < child.stop := by
    intro child hchild
    have := (hpass.inside child hchild).2.2
    omega
  have hcontainer {info : Container} {start stop : Int} (hle : hi ≤ stop) :
      ∀ child ∈ nodes, stop < child.stop ↔
        (Node.container start stop info nodes).isElement = true ∧ past start
          ∧ ∀ t ∈ tokens, t.stop ≠ child.stop :=
    fun child hchild => iff_of_false (hinside hle child hchild) fun h =>
      absurd h.1 (by simp [Node.isElement])
  cases h with
  | leaf | flat => simp [Node.children]
  | plain => exact hcontainer (Int.le_refl _)
  | shut _ _ _ _ hcloser =>
      have hspan := hd'.span hcloser
      rw [unclosedEnd_cons hcloser] at hlow
      exact hcontainer (Int.le_trans hlow hspan)
  | ajar => exact hcontainer hlow
  | element hahead ht hstop =>
      rename_i stop t rest info attributes
      have hle : hi ≤ stop := by
        rcases hstop with rfl | ⟨-, rfl⟩
        · exact Int.le_refl _
        · exact hlow
      have hnot := (hagrees.at_head hinput hc hahead (by rw [ht]; rfl)
        (Int.le_trans hpass.rises hlow)).not.mpr
          (htrace.not_cuts hinput hc hmarked hahead (by rw [ht]; rfl) hc' (faults_advance c))
      exact fun child hchild => iff_of_false (hinside hle child hchild) fun h => hnot h.2.1
  | cut hahead ht hdeep hplain =>
      have hpast := (hagrees.at_head hinput hc hahead (by rw [ht]; rfl)
        (Int.le_trans hpass.rises hlow)).mpr (cuts_note.mpr (Or.inl ⟨rfl, rfl⟩))
      intro child hchild
      have hplain := hplain.resolve_left (List.ne_nil_of_mem hchild)
      refine (htrace.sticks_out_iff hinput hplain hspans hc hahead (by rw [ht]; rfl) hdeep
        hchild).trans ?_
      exact ⟨fun h => ⟨rfl, hpast, h⟩, fun h => h.2.2⟩
  | body => exact hcontainer (Int.le_trans hlow hd'.unclosedEnd_le_stop)

/-- How a node and its children lie: the children are apart and begin in the node. -/
theorem Made.nests {past : Int → Prop} (h : Made tokens past node)
    (hspans : ∀ t ∈ tokens, t.start < t.stop) :
    node.start ≤ node.stop
      ∧ node.children.Pairwise (fun left right => left.stop ≤ right.start)
      ∧ ∀ child ∈ node.children, node.start ≤ child.start
        ∧ (node.stop < child.stop ↔
          node.isElement = true ∧ past node.start ∧ ∀ t ∈ tokens, t.stop ≠ child.stop) := by
  cases h with
  | @intro input input' c c' d d' lo lo' hi nodes hinput hc hmarked hagrees htrace hmakes =>
  obtain ⟨hinput', hc'⟩ := hmakes.ready hinput hc
  have hpass := htrace.passage hinput' hc'
  have hstart := hmakes.start_le hc hc'
  have hoverhangs := hmakes.overhangs_iff hinput hc hmarked hagrees htrace hspans
  refine ⟨((hmakes.passage hc htrace hpass).inside node (List.mem_singleton_self node)).2.1, ?_⟩
  rcases hmakes.children with hchildren | hchildren <;> rw [hchildren] at hoverhangs ⊢
  · exact ⟨hpass.apart, fun child hchild =>
      ⟨Int.le_trans hstart (hpass.inside child hchild).1, hoverhangs child hchild⟩⟩
  · simp

end Parsing

/-- **Where the tree of an outline nests.**  No node ends before it begins, its children are
apart and begin in it, and a child reaches out of it just when it is an element past the nesting
limit and no token ends where the child does. -/
theorem Language.outline_nested_iff (language : Language) (config : Config) (source : List Char) :
    let pass := language.pass config .structural source
    ∀ node ∈ pass.parse.tree.walk,
      node.start ≤ node.stop
        ∧ node.children.Pairwise (fun left right => left.stop ≤ right.start)
        ∧ ∀ child ∈ node.children, node.start ≤ child.start
          ∧ (node.stop < child.stop ↔
            node.isElement = true ∧ pass.PastLimit node.start
              ∧ ∀ t ∈ Token.flatten pass.lexing.tokens, t.stop ≠ child.stop) := by
  intro pass node hnode
  rw [Node.walk_eq] at hnode
  rcases List.mem_cons.mp hnode with rfl | hnode
  · obtain ⟨hapart, hinside⟩ := language.pass_children config .structural source
    have htree := language.pass_document config .structural source
    have hstart : pass.parse.tree.start = 0 := congrArg Node.start htree
    have hstop : pass.parse.tree.stop = source.length := congrArg Node.stop htree
    have hdocument : pass.parse.tree.isElement = false := congrArg Node.isElement htree
    rw [hstart, hstop, hdocument]
    refine ⟨Int.natCast_nonneg _, hapart, fun child hchild => ?_⟩
    obtain ⟨hbegin, hend⟩ := hinside child hchild
    exact ⟨hbegin, iff_of_false (Int.not_lt.mpr hend) fun h => absurd h.1 (by simp)⟩
  · refine (language.pass_made config .structural source node hnode).nests fun t ht => ?_
    exact language.flatten_solid config .structural source t ht
      (language.isStructural_of_flatten config source t ht)

/-- A block in the start tag of an element past the limit goes on to the end of the text, past
the brace that is the last thing its parent knows of. -/
theorem Language.outline_overhangs_past_limit :
    let pass := script.pass {} .structural (List.replicate 64 '(' ++ "<a \x7bb".toList)
    let child : Node := .container 67 69 (.block true) []
    let node : Node := .element 64 68 { name := "a", closed := false } [] [child]
    node ∈ pass.parse.tree.walk ∧ child ∈ node.children ∧ node.stop < child.stop := by
  intro pass child node
  have hnode : node ∈ pass.parse.tree.walk := by
    rw [Node.walk_eq]
    decide +kernel
  have hchild : child ∈ node.children := List.mem_singleton_self child
  have hnests := outline_nested_iff .script {} _ node hnode
  refine ⟨hnode, hchild, ((hnests.2.2 child hchild).2).mpr ?_⟩
  decide +kernel

end SourceView
