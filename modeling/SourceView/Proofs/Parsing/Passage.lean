/-
Where the nodes of a trace lie, and what is noted along it.

The tokens of an input are in order, with or without text between them.  From that alone
follows how a trace lies in the text: how far has been read never falls, it never gets past
the token that comes next, no token has been passed that ends behind it, and the nodes lie
apart in that order.

A container past the nesting limit is noted as a fault where it begins.  Such a fault lies
between the cursors that it is noted between, so whether one was noted at some place is
settled once and for all when the parse is past that place.  That is why a property of nodes
may speak of the faults of the whole parse, and is proved where the node is made.
-/
import SourceView.Proofs.Parsing.Trace
import SourceView.Proofs.Tree.Walks

namespace SourceView

namespace Parsing

open Cursor

/-! ### Inputs -/

/-- The tokens of the input are in order, those that bound something are not empty, and they
are just the tokens of `tokens` in the range of the input, unless some stand for a region. -/
structure Input.Sound (tokens : List Token) (input : Input) : Prop where
  order : Token.InOrder input.start input.stop input.tokens
  solid : ∀ t ∈ input.tokens, t.kind.isStructural = true → t.start < t.stop
  known : ∀ t ∈ input.tokens, t.embedded = [] → t ∈ tokens
  seen : input.Plain → ∀ t ∈ tokens, t.start < input.stop → input.start < t.stop →
    t ∈ input.tokens

/-- The same of the input and of the regions that its tokens stand for. -/
structure Input.Fair (tokens : List Token) (input : Input) : Prop extends input.Sound tokens where
  region_plain : ∀ t ∈ input.tokens, (input.region t).Plain
  region_sound : ∀ t ∈ input.tokens, t.embedded ≠ [] → (input.region t).Sound tokens

theorem Input.Sound.fair {tokens : List Token} {input : Input} (h : input.Sound tokens)
    (hplain : input.Plain) : input.Fair tokens := by
  refine ⟨h, fun t ht u hu => ?_, fun t ht hembedded => absurd (hplain t ht) hembedded⟩
  rw [region, hplain t ht] at hu
  exact absurd hu (by simp)

namespace Cursor

variable {tokens : List Token} {input : Input} {c d e : Cursor} {t : Token} {rest : List Token}

/-! ### Passed tokens -/

/-- The token is passed on the way from `c` to `d`. -/
def Passed (c d : Cursor) (t : Token) : Prop :=
  ∃ ts, c.ahead = ts ++ d.ahead ∧ t ∈ ts

theorem Passed.mem (h : c.Passed d t) : t ∈ c.ahead := by
  obtain ⟨ts, hahead, ht⟩ := h
  exact hahead ▸ List.mem_append_left _ ht

theorem Passes.passed_or (h : c.Passes d) (ht : t ∈ c.ahead) : c.Passed d t ∨ t ∈ d.ahead := by
  obtain ⟨ts, hahead, -⟩ := h
  rw [hahead] at ht
  exact (List.mem_append.mp ht).imp_left fun ht => ⟨ts, hahead, ht⟩

theorem Passed.split (h : c.Passed e t) (hd : c.Passes d) (he : d.Passes e) :
    c.Passed d t ∨ d.Passed e t := by
  obtain ⟨ts, hahead, ht⟩ := h
  obtain ⟨us, hus, -⟩ := hd
  obtain ⟨vs, hvs, -⟩ := he
  rw [hus, hvs, ← List.append_assoc] at hahead
  rw [← List.append_cancel_right hahead] at ht
  exact (List.mem_append.mp ht).imp (fun ht => ⟨us, hus, ht⟩) fun ht => ⟨vs, hvs, ht⟩

theorem Skips.of_passed {P : Token → Prop} (h : c.Skips P d) (ht : c.Passed d t) : P t := by
  obtain ⟨ts, hahead, -, hts⟩ := h.tokens
  obtain ⟨us, hahead', hu⟩ := ht
  rw [hahead] at hahead'
  exact hts t (List.append_cancel_right hahead' ▸ hu)

theorem Passed.of_advance (h : c.Passed d t) {u : Token} (hahead : c.ahead = u :: rest)
    (hpass : c.advance.Passes d) : t = u ∨ c.advance.Passed d t := by
  refine (h.split (leads_advance c).passes hpass).imp_left fun ht => ?_
  have hskips : c.Skips (· = u) c.advance := skips_advance hahead rfl
  exact hskips.of_passed ht

theorem not_passed_of_ahead_eq (hahead : d.ahead = c.ahead) : ¬c.Passed d t := by
  rintro ⟨ts, hts, ht⟩
  rw [hahead] at hts
  rw [List.self_eq_append_left.mp hts] at ht
  exact absurd ht (by simp)

/-- Whoever passes anything passes the token at the cursor. -/
theorem Passes.passed_head (h : c.Passes d) (hahead : c.ahead = t :: rest)
    (hshort : d.ahead.length < c.ahead.length) : c.Passed d t := by
  obtain ⟨ts, hts, -⟩ := h
  cases ts with
  | nil =>
      rw [hts, List.nil_append] at hshort
      exact absurd hshort (Nat.lt_irrefl _)
  | cons u ts =>
      rw [hts, List.cons_append, List.cons.injEq] at hahead
      exact ⟨u :: ts, hts, hahead.1 ▸ List.mem_cons_self⟩

theorem Ordered.mem (hc : c.Ordered input) (ht : t ∈ c.ahead) :
    c.unclosedEnd input ≤ t.start ∧ t.start ≤ t.stop ∧ t.stop ≤ input.stop := by
  have horder := hc.order
  cases hahead : c.ahead with
  | nil => rw [hahead] at ht; exact absurd ht (by simp)
  | cons u rest =>
      rw [hahead] at horder ht
      rw [unclosedEnd_cons hahead]
      have hall : Token.InOrder u.start input.stop (u :: rest) :=
        ⟨Int.le_refl _, horder.2.1, horder.2.2⟩
      exact hall.mem t ht

/-- What has been passed ends no later than what was passed last. -/
theorem Ordered.passed_stop (hc : c.Ordered input) (hpass : c.Passes d) (ht : c.Passed d t) :
    t.stop ≤ d.previousEnd input := by
  obtain ⟨ts, hahead, ht⟩ := ht
  obtain ⟨ts', hahead', hbehind⟩ := hpass
  rw [hahead'] at hahead
  have hsame : ts' = ts := List.append_cancel_right hahead
  subst hsame
  obtain ⟨us, vs, rfl⟩ := List.append_of_mem ht
  -- The cursor just past the token.
  have hhere : c.Passes (c.past (us ++ [t]) (vs ++ d.ahead)) :=
    ⟨us ++ [t], by simp [hahead', Cursor.past], rfl⟩
  have hrest : (c.past (us ++ [t]) (vs ++ d.ahead)).Passes d :=
    ⟨vs, rfl, by simp [hbehind, Cursor.past]⟩
  have hle := (hc.passes hhere).previousEnd_le hrest
  have hend : (c.past (us ++ [t]) (vs ++ d.ahead)).previousEnd input = t.stop := by
    simp [previousEnd, Cursor.past]
  exact hend ▸ hle

/-- Every token of the input is ahead of a cursor in there, or ends behind it. -/
theorem Within.ahead_or_stop_le (hc : c.Within input.tokens)
    (horder : Token.InOrder input.start input.stop input.tokens) (ht : t ∈ input.tokens) :
    t ∈ c.ahead ∨ t.stop ≤ c.previousEnd input := by
  have hpass : input.cursor.Passes c := ⟨c.behind.reverse, hc, by simp [Input.cursor]⟩
  have hordered : input.cursor.Ordered input := ⟨horder, Nat.lt_succ_self _⟩
  exact (hpass.passed_or ht).symm.imp_right fun hpassed => hordered.passed_stop hpass hpassed

theorem Within.ahead_of_start_le (hc : c.Ordered input) (hwithin : c.Within input.tokens)
    (horder : Token.InOrder input.start input.stop input.tokens) (ht : t ∈ input.tokens)
    (hspan : t.start < t.stop) (hle : c.unclosedEnd input ≤ t.start) : t ∈ c.ahead := by
  refine (hwithin.ahead_or_stop_le horder ht).resolve_right fun hstop => ?_
  have hend := hc.previousEnd_le_unclosedEnd
  omega

/-! ### Faults of containers past the nesting limit -/

/-- Something past the nesting limit was noted that begins at the offset. -/
def Cuts (c : Cursor) (s : Int) : Prop :=
  ∃ f ∈ c.faults, f.cause = .tooDeep ∧ f.start = s

theorem Cuts.mono {s : Int} (h : c.Cuts s) (hfaults : c.faults ⊆ d.faults) : d.Cuts s := by
  obtain ⟨f, hf, hcut⟩ := h
  exact ⟨f, hfaults hf, hcut⟩

theorem cuts_note {cause : Anomaly} {start stop s : Int} :
    (c.note cause start stop).Cuts s ↔ (cause = .tooDeep ∧ start = s) ∨ c.Cuts s := by
  simp [Cuts, note]

theorem cuts_congr {s : Int} (h : d.faults = c.faults) : d.Cuts s ↔ c.Cuts s := by
  rw [Cuts, h, Cuts]

theorem cuts_advance {s : Int} : c.advance.Cuts s ↔ c.Cuts s :=
  cuts_congr (faults_advance c)

/-! ### Cursors that traces start from -/

/-- The cursor stands in the tokens of its input, which are in order, and the text has been
read up to `lo`, no further than the next token. -/
structure Ready (input : Input) (c : Cursor) (lo : Int) : Prop where
  ordered : c.Ordered input
  within : c.Within input.tokens
  low : lo ≤ c.unclosedEnd input

end Cursor

open Cursor

variable {tokens : List Token} {input input' : Input} {c c' d d' : Cursor} {lo lo' hi : Int}
  {node : Node} {nodes : List Node}

theorem Input.Sound.cursor_ready (h : input.Sound tokens) :
    input.cursor.Ready input input.start where
  ordered := ⟨h.order, Nat.lt_succ_self _⟩
  within := rfl
  low := Ordered.previousEnd_le_unclosedEnd (c := input.cursor) ⟨h.order, Nat.lt_succ_self _⟩

theorem Cursor.Ready.advance {t : Token} {rest : List Token} (hc : c.Ready input lo)
    (hahead : c.ahead = t :: rest) : c.advance.Ready input t.stop :=
  ⟨hc.ordered.advance, hc.within.passes (leads_advance c).passes, hc.ordered.stop_le hahead⟩

theorem Cursor.Ready.push {o : OpenContainer} (hc : c.Ready input lo) : (c.push o).Ready input lo :=
  ⟨⟨hc.ordered.order, hc.ordered.short⟩, hc.within, hc.low⟩

/-- Where what becomes a node starts. -/
theorem Makes.ready (h : Makes input c input' c' lo' nodes d' hi node d)
    (hinput : input.Fair tokens) (hc : c.Ready input lo) :
    input'.Fair tokens ∧ c'.Ready input' lo' := by
  cases h with
  | leaf hahead => exact ⟨hinput, hc.advance hahead⟩
  | plain => exact ⟨hinput, hc.ordered, hc.within, hc.ordered.previousEnd_le_unclosedEnd⟩
  | shut _ hahead => exact ⟨hinput, (hc.advance hahead).push⟩
  | ajar _ hahead => exact ⟨hinput, (hc.advance hahead).push⟩
  | flat _ hahead => exact ⟨hinput, hc.advance hahead⟩
  | element hahead => exact ⟨hinput, hc.advance hahead⟩
  | cut hahead => exact ⟨hinput, hc.advance hahead⟩
  | body hahead hembedded =>
      have ht := hc.within.mem hahead
      have hsound := hinput.region_sound _ ht hembedded
      exact ⟨hsound.fair (hinput.region_plain _ ht), hsound.cursor_ready⟩

/-! ### What passing tokens a trace comes to -/

/-- How what a trace passes and makes lies in the text. -/
structure Passage (input : Input) (c : Cursor) (lo : Int) (nodes : List Node) (d : Cursor)
    (hi : Int) : Prop where
  rises : lo ≤ hi
  low : hi ≤ d.unclosedEnd input
  covers : ∀ t, c.Passed d t → t.kind.isTrivia = true ∨ t.stop ≤ hi
  inside : ∀ n ∈ nodes, c.unclosedEnd input ≤ n.start ∧ n.start ≤ n.stop ∧ n.stop ≤ hi
  apart : nodes.Pairwise fun left right => left.stop ≤ right.start

/-- One node that begins at the cursor, and that nothing passed reaches out of. -/
theorem Passage.single (hlo : lo ≤ c.unclosedEnd input) (hstart : node.start = c.unclosedEnd input)
    (hspan : node.start ≤ node.stop) (hstop : node.stop ≤ d.unclosedEnd input)
    (hcovers : ∀ t, c.Passed d t → t.kind.isTrivia = true ∨ t.stop ≤ node.stop) :
    Passage input c lo [node] d node.stop where
  rises := by omega
  low := hstop
  covers := hcovers
  inside := by
    intro n hn
    rw [List.mem_singleton.mp hn]
    exact ⟨Int.le_of_eq hstart.symm, hspan, Int.le_refl _⟩
  apart := List.pairwise_singleton ..

theorem Passage.append {mid : Int} {others : List Node} {e : Cursor} (hc : c.Ordered input)
    (hd : c.Passes d) (he : d.Passes e) (h : Passage input c lo nodes d mid)
    (h' : Passage input d mid others e hi) : Passage input c lo (nodes ++ others) e hi where
  rises := Int.le_trans h.rises h'.rises
  low := h'.low
  covers := by
    intro t ht
    rcases ht.split hd he with ht | ht
    · exact (h.covers t ht).imp_right fun hle => Int.le_trans hle h'.rises
    · exact h'.covers t ht
  inside := by
    have hle := hc.unclosedEnd_le hd
    have hrise := h'.rises
    refine List.forall_mem_append.mpr ⟨fun n hn => ?_, fun n hn => ?_⟩
    · have hn := h.inside n hn
      omega
    · have hn := h'.inside n hn
      omega
  apart := by
    refine List.pairwise_append.mpr ⟨h.apart, h'.apart, fun left hleft right hright => ?_⟩
    have hleft := h.inside left hleft
    have hright := h'.inside right hright
    have hmid := h.low
    omega

/-- A flat run ends with its closer, or at the end of the range when there is none. -/
theorem skipBalanced_end (input : Input) (opener : Token) (closer : TokenKind) (c : Cursor) :
    (skipBalanced input opener closer c).1
        = (skipBalanced input opener closer c).2.previousEnd input
      ∨ (skipBalanced input opener closer c).2.ahead = []
        ∧ (skipBalanced input opener closer c).1 = input.stop := by
  have hend := passBalanced_stop opener.kind closer 1 c.behind c.ahead
  cases hstop : (passBalanced opener.kind closer 1 c.behind c.ahead).1 with
  | none =>
      rw [hstop] at hend
      exact Or.inr ⟨hend, by simp [skipBalanced, note, hstop]⟩
  | some stop =>
      rw [hstop] at hend
      obtain ⟨t, others, hbehind, rfl⟩ := hend
      exact Or.inl (by simp [skipBalanced, note, previousEnd, hbehind, hstop])

/-- Where the node lies that is made of what a trace makes. -/
theorem Makes.passage (h : Makes input c input' c' lo' nodes d' hi node d) (hc : c.Ready input lo)
    (htrace : Trace input' c' lo' nodes d' hi) (hinner : Passage input' c' lo' nodes d' hi) :
    Passage input c lo [node] d node.stop := by
  have hpasses := htrace.leads.passes
  have hrises := hinner.rises
  have hlow := hinner.low
  -- An end behind all tokens that were passed will do.
  have hcovers {x : Cursor} (hpass : c.Passes x) {stop : Int} (hstop : x.previousEnd input ≤ stop) :
      ∀ t, c.Passed x t → t.kind.isTrivia = true ∨ t.stop ≤ stop := fun t ht =>
    Or.inr (Int.le_trans (hc.ordered.passed_stop hpass ht) hstop)
  cases h with
  | leaf hahead =>
      have hspan := hc.ordered.span hahead
      refine .single hc.low (unclosedEnd_cons hahead).symm (Int.le_trans hspan hrises) hlow ?_
      intro u hu
      rcases hu.of_advance hahead hpasses with rfl | hu
      · exact Or.inr hrises
      · exact hinner.covers u hu
  | plain hahead ht hshort =>
      have hspan := hc.ordered.span hahead
      have hhead := (hinner.covers _ (hpasses.passed_head hahead hshort)).resolve_left
        (Bool.eq_false_iff.mp ht)
      exact .single hc.low (unclosedEnd_cons hahead).symm (Int.le_trans hspan hhead) hlow
        hinner.covers
  | shut _ hahead _ _ hcloser =>
      have hspan := hc.ordered.span hahead
      have hordered := hc.ordered.advance.passes hpasses
      have hlast := hordered.span hcloser
      rw [unclosedEnd_cons hcloser] at hlow
      refine .single hc.low (unclosedEnd_cons hahead).symm ?_ (hordered.stop_le hcloser) ?_
      · simp only [Node.start, Node.stop]
        omega
      · exact hcovers (((leads_advance c).passes.trans hpasses).trans (leads_advance _).passes)
          (Int.le_of_eq (previousEnd_advance hcloser))
  | ajar _ hahead =>
      have hspan := hc.ordered.span hahead
      refine .single hc.low (unclosedEnd_cons hahead).symm ?_ (Int.le_refl _) ?_
      · simp only [Node.start, Node.stop]
        omega
      · exact hcovers ((leads_advance c).passes.trans hpasses)
          (hc.ordered.advance.passes hpasses).previousEnd_le_unclosedEnd
  | flat hplain hahead ht hinfo =>
      rename_i t rest closer info
      have hspan := hc.ordered.span hahead
      obtain ⟨hstart, hstop⟩ := skipBalanced_stop t closer hc.ordered.advance
      have hskip := (leads_skipBalanced input t closer c.advance).passes
      rw [previousEnd_advance hahead] at hstart
      refine .single hc.low (unclosedEnd_cons hahead).symm (Int.le_trans hspan hstart) hstop ?_
      refine hcovers ((leads_advance c).passes.trans hskip) ?_
      rcases skipBalanced_end input t closer c.advance with hend | ⟨hnil, hend⟩
      · exact Int.le_of_eq hend.symm
      · have hlast := (hc.ordered.advance.passes hskip).previousEnd_le_unclosedEnd
        rw [unclosedEnd_nil hnil] at hlast
        exact hend ▸ hlast
  | element hahead ht hstop =>
      rename_i stop t rest info attributes
      have hspan := hc.ordered.span hahead
      have hle : hi ≤ stop := by omega
      refine .single hc.low (unclosedEnd_cons hahead).symm ?_ ?_ ?_
      · simp only [Node.start, Node.stop]
        omega
      · simp only [Node.stop]
        omega
      · intro u hu
        rcases hu.of_advance hahead hpasses with rfl | hu
        · exact Or.inr (Int.le_trans hrises hle)
        · exact (hinner.covers u hu).imp_right fun h => Int.le_trans h hle
  | cut hahead =>
      have hspan := hc.ordered.span hahead
      have hle := hc.ordered.advance.previousEnd_le hpasses
      rw [previousEnd_advance hahead] at hle
      exact .single hc.low (unclosedEnd_cons hahead).symm (Int.le_trans hspan hle)
        (hc.ordered.advance.passes hpasses).previousEnd_le_unclosedEnd
        (hcovers ((leads_advance c).passes.trans hpasses) (Int.le_refl _))
  | body hahead =>
      exact .single hc.low (unclosedEnd_cons hahead).symm (hc.ordered.span hahead)
        (hc.ordered.stop_le hahead)
        (hcovers (leads_advance c).passes (Int.le_of_eq (previousEnd_advance hahead)))

/-- Nothing is passed without moving. -/
theorem Passage.still (hlo : lo ≤ c.unclosedEnd input) (hahead : d.ahead = c.ahead) :
    Passage input c lo [] d lo := by
  refine ⟨Int.le_refl _, ?_, fun t ht => ?_, by simp, List.Pairwise.nil⟩
  · rw [unclosedEnd, hahead]
    exact hlo
  · exact absurd ht (not_passed_of_ahead_eq hahead)

/-- **How a trace lies in the text.**  What has been read grows up to where the trace gets at
most, every token that it passes lies in there, and its nodes lie in there apart. -/
theorem Trace.passage (h : Trace input c lo nodes d hi) (hinput : input.Fair tokens)
    (hc : c.Ready input lo) : Passage input c lo nodes d hi := by
  induction h with
  | done => exact .still hc.low rfl
  | append h h' ih ih' =>
      have hpass := ih hinput hc
      have hd := h.leads.passes
      exact hpass.append hc.ordered hd h'.leads.passes
        (ih' hinput ⟨hc.ordered.passes hd, hc.within.passes hd, hpass.low⟩)
  | space h =>
      exact ⟨Int.le_refl _, Int.le_trans hc.low (hc.ordered.unclosedEnd_le h.passes),
        fun t ht => Or.inl (h.of_passed ht), by simp, List.Pairwise.nil⟩
  | @pass input c d lo h hshort =>
      have hcovers (t : Token) (ht : c.Passed d t) := hc.ordered.passed_stop h.passes ht
      refine ⟨?_, (hc.ordered.passes h.passes).previousEnd_le_unclosedEnd,
        fun t ht => Or.inr (hcovers t ht), by simp, List.Pairwise.nil⟩
      have hlo := hc.low
      cases hahead : c.ahead with
      | nil => rw [hahead] at hshort; exact absurd hshort (Nat.not_lt_zero _)
      | cons t rest =>
          have hhead := hcovers t (h.passes.passed_head hahead hshort)
          have hspan := hc.ordered.span hahead
          rw [unclosedEnd_cons hahead] at hlo
          omega
  | note => exact .still hc.low rfl
  | within _ ih =>
      have hpass := ih hinput hc.push
      exact ⟨hpass.rises, hpass.low, hpass.covers, hpass.inside, hpass.apart⟩
  | node h hmakes ih =>
      obtain ⟨hinput', hc'⟩ := hmakes.ready hinput hc
      exact hmakes.passage hc h (ih hinput' hc')

theorem Trace.ready (h : Trace input c lo nodes d hi) (hinput : input.Fair tokens)
    (hc : c.Ready input lo) : d.Ready input hi :=
  ⟨hc.ordered.passes h.leads.passes, hc.within.passes h.leads.passes, (h.passage hinput hc).low⟩

/-! ### What is noted past the nesting limit -/

/-- All that was noted past the nesting limit begins before the next token. -/
def Cursor.Marked (input : Input) (c : Cursor) : Prop :=
  ∀ s, c.Cuts s → s < c.unclosedEnd input

/-- What is noted past the nesting limit between the cursors begins between them. -/
def CutsWithin (input : Input) (c d : Cursor) : Prop :=
  ∀ s, d.Cuts s → c.Cuts s ∨ c.unclosedEnd input ≤ s ∧ s < d.unclosedEnd input

theorem CutsWithin.of_iff (h : ∀ s, d.Cuts s → c.Cuts s) : CutsWithin input c d :=
  fun s hs => Or.inl (h s hs)

theorem CutsWithin.of_le (h : CutsWithin input c' d') (hstart : ∀ s, c'.Cuts s → c.Cuts s)
    (hstop : ∀ s, d.Cuts s → d'.Cuts s) (hle : c.unclosedEnd input ≤ c'.unclosedEnd input)
    (hle' : d'.unclosedEnd input ≤ d.unclosedEnd input) : CutsWithin input c d := by
  intro s hs
  rcases h s (hstop s hs) with hs | ⟨hfrom, hto⟩
  · exact Or.inl (hstart s hs)
  · exact Or.inr ⟨Int.le_trans hle hfrom, Int.lt_of_lt_of_le hto hle'⟩

theorem CutsWithin.marked (h : CutsWithin input c d) (hc : c.Marked input)
    (hle : c.unclosedEnd input ≤ d.unclosedEnd input) : d.Marked input := by
  intro s hs
  rcases h s hs with hs | ⟨-, hs⟩
  · exact Int.lt_of_lt_of_le (hc s hs) hle
  · exact hs

theorem Makes.cutsWithin (h : Makes input c input' c' lo' nodes d' hi node d)
    (hinput : input.Fair tokens) (hc : c.Ready input lo) (htrace : Trace input' c' lo' nodes d' hi)
    (hinner : CutsWithin input' c' d') : CutsWithin input c d := by
  obtain ⟨hinput', hc'⟩ := h.ready hinput hc
  have hd' := hc'.ordered.passes htrace.leads.passes
  have hadvance := hc.ordered.unclosedEnd_le (leads_advance c).passes
  -- The opener is not empty, so what begins with it begins before whatever comes next.
  have hopener {t : Token} {rest : List Token} (hahead : c.ahead = t :: rest)
      (ht : t.kind.isStructural = true) : t.start < c.advance.unclosedEnd input :=
    Int.lt_of_lt_of_le (hinput.solid t (hc.within.mem hahead) ht) (hc.ordered.stop_le hahead)
  cases h with
  | leaf => exact hinner.of_le (fun _ => cuts_advance.mp) (fun _ => id) hadvance (Int.le_refl _)
  | plain => exact hinner
  | shut =>
      exact hinner.of_le (fun _ => cuts_advance.mp) (fun _ => cuts_advance.mp) hadvance
        (hd'.unclosedEnd_le (leads_advance _).passes)
  | ajar => exact hinner.of_le (fun _ => cuts_advance.mp) (fun _ => id) hadvance (Int.le_refl _)
  | flat hplain hahead ht hinfo =>
      rename_i t rest closer info
      intro s hs
      rcases cuts_note.mp ((cuts_congr rfl).mp hs) with ⟨-, rfl⟩ | hs
      · refine Or.inr ⟨Int.le_of_eq (unclosedEnd_cons hahead), ?_⟩
        exact Int.lt_of_lt_of_le (hopener hahead ht) (hc.ordered.advance.unclosedEnd_le
          (leads_skipBalanced input t closer c.advance).passes)
      · exact Or.inl (cuts_advance.mp hs)
  | element => exact hinner.of_le (fun _ => cuts_advance.mp) (fun _ => id) hadvance (Int.le_refl _)
  | cut hahead ht =>
      intro s hs
      rcases cuts_note.mp hs with ⟨-, rfl⟩ | hs
      · refine Or.inr ⟨Int.le_of_eq (unclosedEnd_cons hahead), ?_⟩
        exact Int.lt_of_lt_of_le (hopener hahead (by rw [ht]; rfl))
          (hc.ordered.advance.unclosedEnd_le htrace.leads.passes)
      · exact hinner.of_le (fun _ => cuts_advance.mp) (fun _ => id) hadvance (Int.le_refl _) s hs
  | body hahead =>
      intro s hs
      obtain ⟨f, hf, hcut⟩ := hs
      rcases List.mem_append.mp hf with hf | hf
      · rcases hinner s ⟨f, hf, hcut⟩ with ⟨g, hg, -⟩ | ⟨hfrom, hto⟩
        · exact absurd hg (by simp [Input.cursor])
        · have hlow := hc'.low
          have hend := hd'.unclosedEnd_le_stop
          have hlast := hc.ordered.stop_le hahead
          rw [unclosedEnd_cons hahead]
          exact Or.inr ⟨Int.le_trans hlow hfrom,
            Int.lt_of_lt_of_le hto (Int.le_trans hend hlast)⟩
      · exact Or.inl (cuts_advance.mp ⟨f, hf, hcut⟩)

theorem Trace.cutsWithin (h : Trace input c lo nodes d hi) (hinput : input.Fair tokens)
    (hc : c.Ready input lo) : CutsWithin input c d := by
  induction h with
  | done => exact .of_iff fun _ => id
  | append h h' ih ih' =>
      have hd := h.leads.passes
      have hready := h.ready hinput hc
      intro s hs
      rcases ih' hinput hready s hs with hs | ⟨hfrom, hto⟩
      · exact (ih hinput hc s hs).imp_right fun ⟨hfrom, hto⟩ =>
          ⟨hfrom, Int.lt_of_lt_of_le hto (hready.ordered.unclosedEnd_le h'.leads.passes)⟩
      · exact Or.inr ⟨Int.le_trans (hc.ordered.unclosedEnd_le hd) hfrom, hto⟩
  | space h => exact .of_iff fun _ => (cuts_congr h.faults).mp
  | pass h => exact .of_iff fun _ => (cuts_congr h.faults).mp
  | note _ hcause => exact .of_iff fun _ hs => (cuts_note.mp hs).resolve_left fun h => hcause h.1
  | within _ ih => exact ih hinput hc.push
  | node h hmakes ih =>
      obtain ⟨hinput', hc'⟩ := hmakes.ready hinput hc
      exact hmakes.cutsWithin hinput hc h (ih hinput' hc')

/-- Once the token at the cursor has been taken, nothing is noted any more where it begins. -/
theorem Trace.not_cuts {t : Token} {rest : List Token} (h : Trace input c' t.stop nodes d hi)
    (hinput : input.Fair tokens) (hc : c.Ready input lo) (hmarked : c.Marked input)
    (hahead : c.ahead = t :: rest) (ht : t.kind.isStructural = true)
    (hc' : c'.Ready input t.stop) (hfaults : c'.faults = c.faults) : ¬d.Cuts t.start := by
  have hsolid := hinput.solid t (hc.within.mem hahead) ht
  intro hcut
  rcases h.cutsWithin hinput hc' t.start hcut with hcut | ⟨hfrom, -⟩
  · have hbefore := hmarked t.start ((cuts_congr hfaults).mp hcut)
    rw [unclosedEnd_cons hahead] at hbefore
    omega
  · have := hc'.low
    omega

/-! ### Every node that is made -/

/-- What is noted past the nesting limit between the cursors is what `past` says. -/
def Agrees (past : Int → Prop) (input : Input) (c d : Cursor) : Prop :=
  ∀ s, c.unclosedEnd input ≤ s → s < d.unclosedEnd input → (past s ↔ d.Cuts s)

/-- Whether the token at the cursor begins something past the nesting limit shows as soon as it
has been passed. -/
theorem Agrees.at_head {past : Int → Prop} {t : Token} {rest : List Token}
    (h : Agrees past input c d) (hinput : input.Fair tokens) (hc : c.Ready input lo)
    (hahead : c.ahead = t :: rest) (ht : t.kind.isStructural = true)
    (hpassed : t.stop ≤ d.unclosedEnd input) : past t.start ↔ d.Cuts t.start :=
  h t.start (Int.le_of_eq (unclosedEnd_cons hahead))
    (Int.lt_of_lt_of_le (hinput.solid t (hc.within.mem hahead) ht) hpassed)

/-- How a node of a tree was made: out of what a trace makes, between cursors of an input that
is fair.  What is noted past the nesting limit is what `past` says, where the node lies. -/
inductive Made (tokens : List Token) (past : Int → Prop) (node : Node) : Prop
  | intro {input input' : Input} {c c' d d' : Cursor} {lo lo' hi : Int} {nodes : List Node}
      (hinput : input.Fair tokens) (hc : c.Ready input lo) (hmarked : c.Marked input)
      (hagrees : Agrees past input c d) (htrace : Trace input' c' lo' nodes d' hi)
      (hmakes : Makes input c input' c' lo' nodes d' hi node d)

variable {past : Int → Prop}

theorem Makes.marked (h : Makes input c input' c' lo' nodes d' hi node d)
    (hc : c.Ready input lo) (hmarked : c.Marked input) : c'.Marked input' := by
  have hadvance : c.advance.Marked input := fun s hs =>
    Int.lt_of_lt_of_le (hmarked s (cuts_advance.mp hs))
      (hc.ordered.unclosedEnd_le (leads_advance c).passes)
  cases h with
  | plain => exact hmarked
  | body => exact fun s ⟨f, hf, _⟩ => absurd hf (by simp [Input.cursor])
  | _ => exact hadvance

theorem Makes.agrees (h : Makes input c input' c' lo' nodes d' hi node d)
    (hinput : input.Fair tokens) (hc : c.Ready input lo) (hmarked : c.Marked input)
    (htrace : Trace input' c' lo' nodes d' hi) (hagrees : Agrees past input c d) :
    Agrees past input' c' d' := by
  obtain ⟨hinput', hc'⟩ := h.ready hinput hc
  have hd' := hc'.ordered.passes htrace.leads.passes
  have hadvance := hc.ordered.unclosedEnd_le (leads_advance c).passes
  have hinside : Agrees past input c d' → Agrees past input c.advance d' := fun h s hfrom hto =>
    h s (Int.le_trans hadvance hfrom) hto
  cases h with
  | leaf => exact hinside hagrees
  | plain => exact hagrees
  | shut =>
      refine hinside fun s hfrom hto => ?_
      have hle := hd'.unclosedEnd_le (leads_advance _).passes
      exact (hagrees s hfrom (Int.lt_of_lt_of_le hto hle)).trans cuts_advance
  | ajar => exact hinside hagrees
  | flat => exact fun s hfrom hto => absurd hto (Int.not_lt.mpr hfrom)
  | element => exact hinside hagrees
  | cut hahead ht =>
      intro s hfrom hto
      refine (hagrees s (Int.le_trans hadvance hfrom) hto).trans (cuts_note.trans ?_)
      -- The fault of the element itself begins before what it was made of.
      have hstop := hc.ordered.stop_le hahead
      have hsolid := hinput.solid _ (hc.within.mem hahead) (by rw [ht]; rfl)
      refine or_iff_right ?_
      rintro ⟨-, rfl⟩
      omega
  | body hahead =>
      intro s hfrom hto
      have hlow := hc'.low
      have hend := hd'.unclosedEnd_le_stop
      have hlast := hc.ordered.stop_le hahead
      have hstart : c.unclosedEnd input = _ := unclosedEnd_cons hahead
      have hfrom' : c.unclosedEnd input ≤ s := hstart ▸ Int.le_trans hlow hfrom
      refine (hagrees s hfrom' (Int.lt_of_lt_of_le hto (Int.le_trans hend hlast))).trans ?_
      refine ⟨fun ⟨f, hf, hcut⟩ => ?_, fun hs => hs.mono (List.subset_append_left _ _)⟩
      rcases List.mem_append.mp hf with hf | hf
      · exact ⟨f, hf, hcut⟩
      · have hbefore := hmarked s (cuts_advance.mp ⟨f, hf, hcut⟩)
        exact absurd hbefore (Int.not_lt.mpr hfrom')

theorem Makes.children (h : Makes input c input' c' lo' nodes d' hi node d) :
    node.children = nodes ∨ node.children = [] := by
  cases h with
  | leaf => exact Or.inr rfl
  | _ => exact Or.inl rfl

/-- **Whatever stands in the nodes of a trace was made along some trace**, and what is noted
past the nesting limit where it lies is what is noted there along the whole. -/
theorem Trace.made (h : Trace input c lo nodes d hi) (hinput : input.Fair tokens)
    (hc : c.Ready input lo) (hmarked : c.Marked input) (hagrees : Agrees past input c d) :
    ∀ n ∈ Node.preorderAll nodes, Made tokens past n := by
  induction h with
  | done => simp [Node.preorderAll]
  | append h h' ih ih' =>
      have hd := h.leads.passes
      have hready := h.ready hinput hc
      have hle := hc.ordered.unclosedEnd_le hd
      have hle' := hready.ordered.unclosedEnd_le h'.leads.passes
      rw [Node.preorderAll_append]
      refine List.forall_mem_append.mpr ⟨ih hinput hc hmarked fun s hfrom hto => ?_,
        ih' hinput hready ((h.cutsWithin hinput hc).marked hmarked hle) fun s hfrom hto =>
          hagrees s (Int.le_trans hle hfrom) hto⟩
      refine (hagrees s hfrom (Int.lt_of_lt_of_le hto hle')).trans
        ⟨fun hs => ?_, fun hs => hs.mono h'.leads.faults.subset⟩
      exact (h'.cutsWithin hinput hready s hs).resolve_right fun h =>
        absurd hto (Int.not_lt.mpr h.1)
  | space => simp [Node.preorderAll]
  | pass => simp [Node.preorderAll]
  | note => simp [Node.preorderAll]
  | within _ ih => exact ih hinput hc.push hmarked hagrees
  | @node _ _ _ _ _ _ _ _ _ nodes node h hmakes ih =>
      obtain ⟨hinput', hc'⟩ := hmakes.ready hinput hc
      have hinner := ih hinput' hc' (hmakes.marked hc hmarked)
        (hmakes.agrees hinput hc hmarked h hagrees)
      intro n hn
      rw [Node.preorderAll, Node.preorderAll, List.append_nil, Node.preorder_eq] at hn
      rcases List.mem_cons.mp hn with rfl | hn
      · exact .intro hinput hc hmarked hagrees h hmakes
      · rcases hmakes.children with hchildren | hchildren
        · exact hinner n (hchildren ▸ hn)
        · rw [hchildren] at hn
          exact absurd hn (by simp [Node.preorderAll])

end Parsing

end SourceView
