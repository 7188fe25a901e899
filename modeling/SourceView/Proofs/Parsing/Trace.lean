/-
What a parse does, told without its loops.

Three grammars read nodes in many ways, but whatever they do comes down to a few moves: they
pass tokens, note faults, open containers and close them again, and make nodes out of what
was read since some token.  A trace is a row of such moves between two cursors, with the
nodes that they make.  It also keeps account of how far the text has been read for good: up
to the end of the token or node that was taken last.  The ends of most nodes are taken from
there.

Every production is shown once to follow a trace.  What is true of all trees is then proved
by induction over traces, and no loop is opened for it.

A trace says of the tokens that it passes as filler only this much: none of them is of a kind
that closes a node which an open container still waits for.
-/
import SourceView.Proofs.Parsing.Placement
import SourceView.Proofs.Parsing.Turns

namespace SourceView

/-- Whether tokens of this kind close a node that records whether it is closed. -/
def TokenKind.shuts : TokenKind → Bool
  | .blockClose | .parenClose | .bracketClose | .templateEnd => true
  | _ => false

/-- What closes a container of this class and whether that was there, for the classes that a
token of their own closes. -/
def Container.flag? : Container → Option (TokenKind × Bool)
  | .block closed => some (.blockClose, closed)
  | .parentheses closed => some (.parenClose, closed)
  | .brackets closed => some (.bracketClose, closed)
  | .templateLiteral closed => some (.templateEnd, closed)
  | _ => none

/-- What closes a node and whether that was there, for the classes that a token of their own
closes. -/
def Node.flag? : Node → Option (TokenKind × Bool)
  | container _ _ info _ => info.flag?
  | _ => none

theorem TokenKind.not_shuts_of_isTrivia {kind : TokenKind} (h : kind.isTrivia = true) :
    kind.shuts = false := by
  revert h
  cases kind <;> decide

theorem TokenKind.isStructural_of_shuts {kind : TokenKind} (h : kind.shuts = true) :
    kind.isStructural = true := by
  revert h
  cases kind <;> decide

theorem TokenKind.isCloser_of_shuts {kind : TokenKind} (h : kind.shuts = true) :
    kind.isCloser = true := by
  revert h
  cases kind <;> decide

theorem Container.shuts_of_flag? {info : Container} {closer : TokenKind} {closed : Bool}
    (h : info.flag? = some (closer, closed)) : closer.shuts = true := by
  unfold flag? at h
  split at h <;> simp only [Option.some.injEq, Prod.mk.injEq, reduceCtorEq] at h <;>
    exact h.1 ▸ rfl

namespace Parsing

/-- No token stands for a region. -/
def Input.Plain (input : Input) : Prop :=
  ∀ t ∈ input.tokens, t.embedded = []

/-- The input that a token stands for: its region, by itself. -/
def Input.region (input : Input) (t : Token) : Input :=
  { input with tokens := t.embedded, start := t.start, stop := t.stop }

namespace Cursor

/-- No open container that becomes a node waits for the token. -/
def Idle (c : Cursor) (t : Token) : Prop :=
  t.kind.shuts = true → ∀ o ∈ c.opened, o.closer ≠ t.kind

/-- The cursor `d` is where `c` gets by just passing tokens of which `P` is true. -/
structure Skips (P : Token → Prop) (c d : Cursor) : Prop where
  tokens : ∃ ts, c.ahead = ts ++ d.ahead ∧ d.behind = ts.reverse ++ c.behind ∧ ∀ t ∈ ts, P t
  faults : d.faults = c.faults
  opened : d.opened = c.opened

/-- The cursor stands at no whitespace. -/
def AtToken (c : Cursor) : Prop :=
  ∀ t rest, c.ahead = t :: rest → t.kind.isTrivia = false

variable {P Q : Token → Prop} {c d e : Cursor} {t : Token} {rest : List Token}

theorem Skips.passes (h : c.Skips P d) : c.Passes d := by
  obtain ⟨ts, hahead, hbehind, -⟩ := h.tokens
  exact ⟨ts, hahead, hbehind⟩

theorem Skips.trans (h : c.Skips P d) (h' : d.Skips P e) : c.Skips P e := by
  obtain ⟨ts, hahead, hbehind, hts⟩ := h.tokens
  obtain ⟨us, hahead', hbehind', hus⟩ := h'.tokens
  refine ⟨⟨ts ++ us, ?_, ?_, List.forall_mem_append.mpr ⟨hts, hus⟩⟩,
    h'.faults.trans h.faults, h'.opened.trans h.opened⟩
  · rw [hahead, hahead', List.append_assoc]
  · rw [hbehind', hbehind, List.reverse_append, List.append_assoc]

theorem Skips.imp (himp : ∀ t, P t → Q t) (h : c.Skips P d) : c.Skips Q d := by
  obtain ⟨ts, hahead, hbehind, hts⟩ := h.tokens
  exact ⟨⟨ts, hahead, hbehind, fun t ht => himp t (hts t ht)⟩, h.faults, h.opened⟩

theorem skips_advance (hahead : c.ahead = t :: rest) (ht : P t) : c.Skips P c.advance := by
  refine ⟨⟨[t], ?_, ?_, by simpa using ht⟩, ?_, ?_⟩ <;> simp [advance, hahead]

theorem skips_skipTrivia (c : Cursor) : c.Skips (·.kind.isTrivia = true) c.skipTrivia :=
  ⟨passTrivia_spec c.behind c.ahead, rfl, rfl⟩

/-- Whoever passes nothing that bounds anything passes nothing that closes anything. -/
theorem Skims.skips (h : c.Skims d) : c.Skips (·.kind.shuts = false) d := by
  obtain ⟨ts, hahead, hbehind⟩ := h.passes
  refine ⟨⟨ts, hahead, hbehind, fun t ht => ?_⟩, h.faults, h.opened⟩
  have hnone : ts.filter (·.kind.isStructural) = [] := by
    have hsame := h.boundaries
    rw [hahead, List.filter_append] at hsame
    exact List.self_eq_append_left.mp hsame
  refine Bool.eq_false_iff.mpr fun hshuts => ?_
  exact List.filter_eq_nil_iff.mp hnone t ht (TokenKind.isStructural_of_shuts hshuts)

theorem idle_of_not_shuts (ht : t.kind.shuts = false) : c.Idle t := by
  intro hshuts
  rw [ht] at hshuts
  exact absurd hshuts (by simp)

theorem passTrivia_atToken (behind ahead : List Token) :
    ∀ t rest, (passTrivia behind ahead).2 = t :: rest → t.kind.isTrivia = false := by
  induction ahead generalizing behind with
  | nil => simp [passTrivia]
  | cons u rest ih =>
      unfold passTrivia
      by_cases hu : u.kind.isTrivia = true
      · rw [if_pos hu]
        exact ih _
      · rw [if_neg hu]
        intro t rest' h
        rw [List.cons.injEq] at h
        exact h.1 ▸ Bool.eq_false_iff.mpr hu

theorem atToken_skipTrivia (c : Cursor) : c.skipTrivia.AtToken :=
  passTrivia_atToken c.behind c.ahead

theorem Within.mem {tokens : List Token} (h : c.Within tokens) (hahead : c.ahead = t :: rest) :
    t ∈ tokens := by
  rw [Within] at h
  rw [h, hahead]
  exact List.mem_append_right _ List.mem_cons_self

/-- An end tag is passed without closing any node that records it. -/
theorem skips_pastEndTag (hahead : c.ahead = t :: rest) (ht : t.kind = .tagClose) :
    c.Skips (·.kind.shuts = false) c.pastEndTag := by
  have hadvance : c.Skips (·.kind.shuts = false) c.advance := skips_advance hahead (by rw [ht]; rfl)
  refine hadvance.trans ?_
  unfold pastEndTag
  cases hpast : passEndTag c.advance.behind c.advance.ahead with
  | none => simp only [hpast]; exact ⟨⟨[], rfl, rfl, by simp⟩, rfl, rfl⟩
  | some moved =>
      simp only [hpast]
      refine ⟨?_, rfl, rfl⟩
      obtain ⟨behind, ahead⟩ := moved
      show ∃ ts, c.advance.ahead = ts ++ ahead ∧ behind = ts.reverse ++ c.advance.behind ∧ _
      generalize c.advance.behind = before at hpast
      generalize c.advance.ahead = after at hpast
      clear hadvance hahead
      induction after generalizing before with
      | nil => simp [passEndTag] at hpast
      | cons u rest ih =>
          unfold passEndTag at hpast
          by_cases hend : u.kind = .tagEnd
          · rw [if_pos hend, Option.some.injEq, Prod.mk.injEq] at hpast
            obtain ⟨rfl, rfl⟩ := hpast
            exact ⟨[u], rfl, rfl, by simp [hend, TokenKind.shuts]⟩
          rw [if_neg hend] at hpast
          by_cases hjunk : isEndTagJunk u = true
          · rw [if_pos hjunk] at hpast
            obtain ⟨ts, rfl, rfl, hts⟩ := ih _ hpast
            refine ⟨u :: ts, rfl, by simp, List.forall_mem_cons.mpr ⟨?_, hts⟩⟩
            simp only [isEndTagJunk, Bool.or_eq_true, beq_iff_eq] at hjunk
            rcases hjunk with hjunk | hjunk
            · exact TokenKind.not_shuts_of_isTrivia hjunk
            · rw [hjunk]; rfl
          · rw [if_neg hjunk] at hpast
            exact absurd hpast (by simp)

end Cursor

open Cursor

/-! ### Traces -/

/-- The node `node` is made between `c` and `d` out of what a parse of `input'` makes from `c'`
to `d'`.  It begins with the token at which `c` stands. -/
inductive Makes : (input : Input) → (c : Cursor) → (input' : Input) → (c' : Cursor) → (lo : Int) →
    (nodes : List Node) → (d' : Cursor) → (hi : Int) → (node : Node) → (d : Cursor) → Prop
  /-- A leaf may be read as nodes that are then dropped. -/
  | leaf {input : Input} {c d : Cursor} {hi : Int} {t : Token} {rest : List Token} {info : Leaf}
      {nodes : List Node} (hahead : c.ahead = t :: rest) :
      Makes input c input c.advance t.stop nodes d hi (.leaf t.start hi info) d
  | plain {input : Input} {c d : Cursor} {hi : Int} {t : Token} {rest : List Token}
      {info : Container} {nodes : List Node} (hahead : c.ahead = t :: rest)
      (ht : t.kind.isTrivia = false) (hshort : d.ahead.length < c.ahead.length)
      (hinfo : info.flag? = none) :
      Makes input c input c (c.previousEnd input) nodes d hi (.container t.start hi info nodes) d
  /-- A container that its own closer ends. -/
  | shut {input : Input} {c d : Cursor} {hi : Int} {t u : Token} {rest rest' : List Token}
      {o : OpenContainer} {info : Container} {nodes : List Node} (hplain : input.Plain)
      (hahead : c.ahead = t :: rest) (hdeep : c.advance.tooDeep = false)
      (hinfo : info.flag? = some (o.closer, true)) (hcloser : d.ahead = u :: rest')
      (hu : u.kind = o.closer) :
      Makes input c input (c.advance.push o) t.stop nodes d hi
        (.container t.start u.stop info nodes) (d.advance.closeTo c.advance)
  /-- A container whose closer is missing. -/
  | ajar {input : Input} {c d : Cursor} {hi : Int} {t : Token} {rest : List Token}
      {o : OpenContainer} {info : Container} {nodes : List Node} (hplain : input.Plain)
      (hahead : c.ahead = t :: rest) (ht : t.kind.isStructural = true)
      (hopener : t.kind ≠ o.closer) (hdeep : c.advance.tooDeep = false)
      (hinfo : info.flag? = some (o.closer, false)) :
      Makes input c input (c.advance.push o) t.stop nodes d hi
        (.container t.start (d.unclosedEnd input) info nodes) (d.closeTo c.advance)
  /-- A container past the nesting limit, in which nothing is read. -/
  | flat {input : Input} {c : Cursor} {t : Token} {rest : List Token} {closer : TokenKind}
      {info : Container} (hplain : input.Plain) (hahead : c.ahead = t :: rest)
      (ht : t.kind.isStructural = true) (hinfo : info.flag? = some (closer, true)) :
      Makes input c input c.advance t.stop [] c.advance t.stop
        (.container t.start (skipBalanced input t closer c.advance).1 info [])
        (skipBalanced input t closer c.advance).2
  | element {input : Input} {c d : Cursor} {hi stop : Int} {t : Token} {rest : List Token}
      {info : ElementInfo} {attributes nodes : List Node} (hahead : c.ahead = t :: rest)
      (ht : t.kind = .tagOpen)
      (hstop : stop = hi ∨ c.advance.tooDeep = false ∧ stop = d.unclosedEnd input) :
      Makes input c input c.advance t.stop nodes d hi
        (.element t.start stop info attributes nodes) d
  /-- An element past the nesting limit, which is cut off behind its start tag. -/
  | cut {input : Input} {c d : Cursor} {hi : Int} {t : Token} {rest : List Token}
      {info : ElementInfo} {attributes nodes : List Node} (hahead : c.ahead = t :: rest)
      (ht : t.kind = .tagOpen) (hdeep : c.advance.tooDeep = true)
      (hplain : nodes = [] ∨ input.Plain) :
      Makes input c input c.advance t.stop nodes d hi
        (.element t.start (d.previousEnd input) info attributes nodes)
        (d.note .tooDeep t.start t.stop)
  /-- A body in a language of its own. -/
  | body {input : Input} {c d : Cursor} {hi : Int} {t : Token} {rest : List Token}
      {language : String} {nodes : List Node} {reports : List Report}
      (hahead : c.ahead = t :: rest) (hembedded : t.embedded ≠ []) :
      Makes input c (input.region t) (input.region t).cursor t.start nodes d hi
        (.container t.start t.stop (.rawText language) nodes)
        { c.advance with faults := d.faults ++ c.advance.faults, reports }

/-- The cursor `d` is where a parse may get from `c`, and `nodes` are what it makes on the way.
When `c` is left the text has been read up to `lo`, and when `d` is reached up to `hi`. -/
inductive Trace : Input → (c : Cursor) → (lo : Int) → (nodes : List Node) → (d : Cursor) →
    (hi : Int) → Prop
  | done {input : Input} {c : Cursor} {lo : Int} : Trace input c lo [] c lo
  | append {input : Input} {c d e : Cursor} {lo mid hi : Int} {nodes others : List Node}
      (h : Trace input c lo nodes d mid) (h' : Trace input d mid others e hi) :
      Trace input c lo (nodes ++ others) e hi
  /-- Whitespace does not count as read. -/
  | space {input : Input} {c d : Cursor} {lo : Int}
      (h : c.Skips (·.kind.isTrivia = true) d) : Trace input c lo [] d lo
  | pass {input : Input} {c d : Cursor} {lo : Int} (h : c.Skips c.Idle d)
      (hshort : d.ahead.length < c.ahead.length) : Trace input c lo [] d (d.previousEnd input)
  | note {input : Input} {c : Cursor} {lo : Int} {t : Token} {cause : Anomaly}
      (ht : t ∈ input.tokens) (hcause : cause ≠ .tooDeep) :
      Trace input c lo [] (c.note cause t.start t.stop) lo
  /-- What a container that becomes no node holds. -/
  | within {input : Input} {c d : Cursor} {lo hi : Int} {nodes : List Node} {o : OpenContainer}
      (h : Trace input (c.push o) lo nodes d hi) : Trace input c lo nodes (d.closeTo c) hi
  | node {input input' : Input} {c c' d d' : Cursor} {lo lo' hi : Int} {nodes : List Node}
      {node : Node} (h : Trace input' c' lo' nodes d' hi)
      (hmakes : Makes input c input' c' lo' nodes d' hi node d) :
      Trace input c lo [node] d node.stop

namespace Trace

variable {input : Input} {c d e : Cursor} {lo mid hi : Int} {t : Token} {rest : List Token}
  {node : Node} {nodes others : List Node}

/-- Moves that make no node, and then others. -/
theorem before (h : Trace input c lo [] d mid) (h' : Trace input d mid nodes e hi) :
    Trace input c lo nodes e hi :=
  h.append h'

theorem cons (h : Trace input c lo [node] d mid) (h' : Trace input d mid nodes e hi) :
    Trace input c lo (node :: nodes) e hi :=
  h.append h'

theorem after (h : Trace input c lo nodes d mid) (h' : Trace input d mid [] e hi) :
    Trace input c lo nodes e hi :=
  List.append_nil nodes ▸ h.append h'

theorem trivia (input : Input) (c : Cursor) (lo : Int) : Trace input c lo [] c.skipTrivia lo :=
  space (skips_skipTrivia c)

/-- Tokens that close no node are passed whatever is open. -/
theorem skips (h : c.Skips (·.kind.shuts = false) d) (hshort : d.ahead.length < c.ahead.length) :
    Trace input c lo [] d (d.previousEnd input) :=
  pass (h.imp fun _ => idle_of_not_shuts) hshort

theorem advance (hahead : c.ahead = t :: rest) (ht : c.Idle t) :
    Trace input c lo [] c.advance t.stop := by
  have hpass : Trace input c lo [] c.advance (c.advance.previousEnd input) :=
    pass (skips_advance hahead ht) (steps_advance hahead).shorter
  rwa [previousEnd_advance hahead] at hpass

/-- A parse only moves on. -/
theorem leads (h : Trace input c lo nodes d hi) : c.Leads d := by
  induction h with
  | done => exact .refl _
  | append _ _ ih ih' => exact ih.trans ih'
  | space h => exact ⟨h.passes, h.faults ▸ List.suffix_refl _, h.opened⟩
  | pass h => exact ⟨h.passes, h.faults ▸ List.suffix_refl _, h.opened⟩
  | note => exact leads_note ..
  | within _ ih => exact ih.close
  | node _ hmakes ih =>
      cases hmakes with
      | leaf => exact (leads_advance _).trans ih
      | plain => exact ih
      | shut => exact (leads_advance _).trans (Leads.close (ih.trans (leads_advance _)))
      | ajar => exact (leads_advance _).trans ih.close
      | flat => exact (leads_advance _).trans (leads_skipBalanced ..)
      | element => exact (leads_advance _).trans ih
      | cut => exact ((leads_advance _).trans ih).trans (leads_note ..)
      | body => exact (leads_advance _).trans ⟨Passes.refl _, List.suffix_append _ _, rfl⟩

theorem within_tokens {tokens : List Token} (h : Trace input c lo nodes d hi)
    (hc : c.Within tokens) : d.Within tokens :=
  hc.passes h.leads.passes

/-- A closer that nothing waits for is noted and passed. -/
theorem of_recover? (lo : Int) (hahead : c.ahead = t :: rest) (hc : c.Within input.tokens)
    (h : c.recover? t = some d) : ∃ hi, Trace input c lo [] d hi := by
  have hshort : d.ahead.length < (c.note (unexpectedCloser t) t.start t.stop).ahead.length :=
    (steps_of_recover? hahead h).shorter
  have hcause : unexpectedCloser t ≠ .tooDeep := by
    unfold unexpectedCloser
    split <;> simp
  have hnote : Trace input c lo [] (c.note (unexpectedCloser t) t.start t.stop) lo :=
    .note (hc.mem hahead) hcause
  unfold recover? at h
  by_cases hclose : t.kind = .tagClose
  · simp only [if_pos hclose, Option.ite_none_left_eq_some, Option.some.injEq] at h
    obtain ⟨-, rfl⟩ := h
    exact ⟨_, hnote.before (.skips (skips_pastEndTag hahead hclose) hshort)⟩
  · simp only [if_neg hclose, Option.ite_none_left_eq_some, Option.some.injEq] at h
    obtain ⟨hexpects, rfl⟩ := h
    refine ⟨_, hnote.before (.advance hahead fun _ o ho hkind => hexpects ?_)⟩
    exact List.any_eq_true.mpr ⟨o, ho, by simp [hkind]⟩

end Trace

/-! ### Productions that follow traces -/

/-- What the production reads, it reads along a trace, wherever no whitespace comes next. -/
structure Traces (input : Input) (p : Production) : Prop extends Moves p where
  trace : ∀ {c : Cursor} {node : Node} {d : Cursor}, c.AtToken → c.Within input.tokens →
    p c = some (node, d) → ∀ lo, Trace input c lo [node] d node.stop

variable {input : Input} {c d : Cursor} {lo : Int}

theorem traces_nothing : Traces input fun _ => none :=
  { moves_nothing with trace := fun _ _ h => absurd h (by simp) }

theorem Traces.choice {ps : List Production} (h : ∀ p ∈ ps, Traces input p) :
    Traces input (choice ps) := by
  refine { Moves.choice fun p hp => (h p hp).toMoves with trace := ?_ }
  intro c node d hat hc hchoice
  obtain ⟨p, hp, hresult⟩ := choice_eq_some hchoice
  exact (h p hp).trace hat hc hresult

theorem Traces.choice_map {α : Type} {f : α → Production} {as : List α}
    (h : ∀ a ∈ as, Traces input (f a)) : Traces input (Parsing.choice (as.map f)) := by
  refine Traces.choice fun p hp => ?_
  obtain ⟨a, ha, rfl⟩ := List.mem_map.mp hp
  exact h a ha

theorem traces_comment : Traces input comment := by
  refine { moves_comment with trace := ?_ }
  intro c node d _ _ h lo
  unfold comment at h
  cases hahead : c.ahead with
  | nil => simp [hahead] at h
  | cons t rest =>
      simp only [hahead] at h
      split at h
      · simp only [Option.some.injEq, Prod.mk.injEq] at h
        obtain ⟨rfl, rfl⟩ := h
        exact .node .done (.leaf hahead)
      · exact absurd h (by simp)

theorem textLoop_trace (turns : Nat) (stop : Int) (c : Cursor) :
    Trace input c stop [] (textLoop stop turns c).2 (textLoop stop turns c).1 := by
  induction turns generalizing stop c with
  | zero => exact .done
  | succ turns ih =>
      unfold textLoop
      cases hahead : c.skipTrivia.ahead with
      | nil => simp only [hahead]; exact .done
      | cons t rest =>
          simp only [hahead]
          by_cases hkind : t.kind = .text ∨ t.kind = .entity
          · rw [if_pos hkind]
            have ht : t.kind.shuts = false := by rcases hkind with h | h <;> rw [h] <;> rfl
            exact (Trace.trivia input c stop).before
              ((Trace.advance hahead (idle_of_not_shuts ht)).before (ih t.stop _))
          · rw [if_neg hkind]
            exact .done

theorem traces_text : Traces input (text input) := by
  refine { moves_text input with trace := ?_ }
  intro c node d _ _ h lo
  unfold text at h
  split at h
  · split at h
    · exact absurd h (by simp)
    rename_i t rest hahead
    split at h
    · simp only [Option.some.injEq, Prod.mk.injEq] at h
      obtain ⟨rfl, rfl⟩ := h
      exact .node (textLoop_trace input.bound t.stop c.advance) (.leaf hahead)
    · exact absurd h (by simp)
  · exact absurd h (by simp)

/-! ### Loops and groups -/

/-- The loop stopped at `d`: at its closer, if there was one, which it then passed. -/
def Items.StopsAt (closer : Option TokenKind) (found : Items) (d : Cursor) : Prop :=
  match found.closer with
  | none => found.cursor = d
  | some t => ∃ rest, d.ahead = t :: rest ∧ some t.kind = closer ∧ found.cursor = d.advance

theorem itemsLoop_trace {item : Production} (hitem : Traces input item) (closer : Option TokenKind)
    (turns : Nat) {c : Cursor} (hc : c.Within input.tokens) (lo : Int) :
    ∃ d hi, Trace input c lo (itemsLoop item closer turns c).nodes d hi
      ∧ (itemsLoop item closer turns c).StopsAt closer d := by
  have hrun := itemsRun item closer turns c
  generalize itemsLoop item closer turns c = found at hrun
  induction hrun generalizing lo with
  | spent => exact ⟨_, lo, .done, rfl⟩
  | ended => exact ⟨_, _, Trace.trivia input _ lo, rfl⟩
  | closed hahead ht => exact ⟨_, _, Trace.trivia input _ lo, _, hahead, ht, rfl⟩
  | awaited => exact ⟨_, _, Trace.trivia input _ lo, rfl⟩
  | @stray _ c _ _ _ _ hahead _ _ hrecover _ ih =>
      have hskip := Trace.trivia input c lo
      obtain ⟨mid, hpass⟩ := Trace.of_recover? lo hahead (hskip.within_tokens hc) hrecover
      have hbefore := hskip.before hpass
      obtain ⟨d, hi, htrace, hstops⟩ := ih (hbefore.within_tokens hc) mid
      exact ⟨d, hi, hbefore.before htrace, hstops⟩
  | @node _ c _ _ _ _ _ _ _ _ hnode _ ih =>
      have hskip := Trace.trivia input c lo
      have hread := hskip.before
        (hitem.trace (atToken_skipTrivia c) (hskip.within_tokens hc) hnode lo)
      obtain ⟨d, hi, htrace, hstops⟩ := ih (hread.within_tokens hc) _
      exact ⟨d, hi, hread.append htrace, hstops⟩
  | @filler _ c _ _ _ hahead _ ht _ _ ih =>
      have hbefore := (Trace.trivia input c lo).before (.advance hahead (idle_of_not_shuts
        (Bool.eq_false_iff.mpr fun hshuts => ht (TokenKind.isCloser_of_shuts hshuts))))
      obtain ⟨d, hi, htrace, hstops⟩ := ih (hbefore.within_tokens hc) _
      exact ⟨d, hi, hbefore.before htrace, hstops⟩

/-- The groups whose closers are those that their nodes record, and whose openers bound. -/
structure Group.Apt (g : Group) : Prop where
  flag : ∀ closed, (g.node closed).flag? = some (g.closer, closed)
  opener : g.opener.isStructural = true
  apart : g.opener ≠ g.closer

theorem Group.block_apt : block.Apt := ⟨fun _ => rfl, rfl, by decide⟩

theorem Group.parentheses_apt : parentheses.Apt := ⟨fun _ => rfl, rfl, by decide⟩

theorem Group.brackets_apt : brackets.Apt := ⟨fun _ => rfl, rfl, by decide⟩

theorem Group.traces_read {g : Group} (hg : g.Apt) (hplain : input.Plain) {item : Production}
    (hitem : Traces input item) : Traces input (g.read input item) := by
  refine { g.moves_read input hitem.toMoves with trace := ?_ }
  intro c node d _ hc h lo
  obtain ⟨t, rest, hahead, ht⟩ := ahead_of_read h
  by_cases hdeep : c.advance.tooDeep = true
  · rw [read_deep hahead ht hdeep, Option.some.injEq, Prod.mk.injEq] at h
    obtain ⟨rfl, rfl⟩ := h
    exact .node .done (.flat hplain hahead (ht ▸ hg.opener) (hg.flag true))
  · rw [read_shallow hahead ht hdeep, Option.some.injEq] at h
    have hdeep := Bool.eq_false_iff.mpr hdeep
    have hpush : (c.advance.push { closer := g.closer, start := t.start }).Within input.tokens :=
      hc.passes (leads_advance c).passes
    obtain ⟨e, hi, htrace, hstops⟩ := itemsLoop_trace hitem (some g.closer) input.bound hpush t.stop
    change (g.inside input item t c.advance).StopsAt (some g.closer) e at hstops
    cases hcloser : (g.inside input item t c.advance).closer with
    | some u =>
        rw [Items.StopsAt, hcloser] at hstops
        obtain ⟨rest', hend, hu, hcursor⟩ := hstops
        rw [body_closed hcloser, Prod.mk.injEq] at h
        obtain ⟨rfl, rfl⟩ := h
        rw [hcursor]
        exact .node htrace (.shut hplain hahead hdeep (hg.flag true) hend (Option.some.inj hu))
    | none =>
        rw [Items.StopsAt, hcloser] at hstops
        rw [body_unclosed hcloser, Prod.mk.injEq] at h
        obtain ⟨rfl, rfl⟩ := h
        rw [hstops]
        have hnode : Trace input c lo [.container t.start (e.unclosedEnd input) (g.node false) _]
            (e.closeTo c.advance) (e.unclosedEnd input) :=
          .node htrace (.ajar hplain hahead (ht ▸ hg.opener) (ht ▸ hg.apart) hdeep (hg.flag false))
        exact hnode.after (.note (hc.mem hahead) (by simp))

/-- Productions one after another follow a trace, and it has been read up to the end of the
last node, or as far as before if there is none. -/
theorem sequence?_trace {ps : List Production} (hps : ∀ p ∈ ps, Traces input p) {c d : Cursor}
    {nodes : List Node} (hc : c.Within input.tokens) (h : sequence? ps c = some (nodes, d))
    (lo : Int) :
    Trace input c lo nodes d (nodes.getLast?.elim lo Node.stop) := by
  induction ps generalizing lo c nodes with
  | nil =>
      simp only [sequence?, Option.some.injEq, Prod.mk.injEq] at h
      obtain ⟨rfl, rfl⟩ := h
      exact .done
  | cons p ps ih =>
      unfold sequence? at h
      cases hp : p c.skipTrivia with
      | none => simp [hp] at h
      | some found =>
          obtain ⟨node, c'⟩ := found
          simp only [hp, Option.map_eq_some_iff, Prod.mk.injEq] at h
          obtain ⟨⟨others, e⟩, hothers, rfl, rfl⟩ := h
          have hskip := Trace.trivia input c lo
          have hread :=
            (hps p (by simp)).trace (atToken_skipTrivia c) (hskip.within_tokens hc) hp lo
          have hmore := ih (fun q hq => hps q (by simp [hq]))
            (hread.within_tokens (hskip.within_tokens hc)) hothers node.stop
          have hlast : (node :: others).getLast?.elim lo Node.stop
              = others.getLast?.elim node.stop Node.stop := by
            rw [List.getLast?_cons]
            cases others.getLast? <;> rfl
          rw [hlast]
          exact hskip.before (hread.cons hmore)

/-! ### Elements -/

/-- What an attribute reads. -/
theorem readAttribute_trace (dialect : Dialect) {expression : Production}
    (hexpression : Traces input expression) (name : Token) {c : Cursor}
    (hc : c.Within input.tokens) (lo : Int) :
    ∃ hi, Trace input c lo (readAttribute input dialect expression name c).expression.toList
      (readAttribute input dialect expression name c).cursor hi := by
  unfold readAttribute
  cases hequals : c.skipTrivia.acceptKind? .equals with
  | none => exact ⟨lo, .done⟩
  | some found =>
      obtain ⟨equals, after⟩ := found
      obtain ⟨hkind, -, rfl, hahead⟩ := accept?_eq_some hequals
      have hvalue : Trace input c lo [] c.skipTrivia.advance.skipTrivia equals.stop :=
        (Trace.trivia input c lo).before ((Trace.advance hahead
          (idle_of_not_shuts (by rw [hkind]; rfl))).before (.trivia ..))
      have hread {node : Node} {e : Cursor}
          (hnode : expression c.skipTrivia.advance.skipTrivia = some (node, e)) :
          Trace input c lo [node] e node.stop :=
        hvalue.before (hexpression.trace (atToken_skipTrivia _) (hvalue.within_tokens hc) hnode _)
      simp only
      split
      · rename_i t hpeek
        split
        · rename_i ht
          obtain ⟨rest, hnext⟩ := ahead_of_peek? hpeek
          have ht : t.kind.shuts = false := by rcases ht with h | h <;> rw [h] <;> rfl
          exact ⟨_, hvalue.before (.advance hnext (idle_of_not_shuts ht))⟩
        · split
          · exact ⟨_, hread ‹_›⟩
          · exact ⟨_, hvalue⟩
      · split
        · exact ⟨_, hread ‹_›⟩
        · exact ⟨_, hvalue⟩

/-- What a start tag reads.  It has been read up to the token that ended it. -/
theorem startTagLoop_trace (dialect : Dialect) {expression : Production}
    (hexpression : Traces input expression) (turns : Nat) {c : Cursor}
    (hc : c.Within input.tokens) (lo : Int) :
    ∃ hi, Trace input c lo (startTagLoop input dialect expression turns c).expressions
        (startTagLoop input dialect expression turns c).cursor hi
      ∧ ((startTagLoop input dialect expression turns c).ending.isSome = true →
        hi = (startTagLoop input dialect expression turns c).cursor.previousEnd input) := by
  have hrun := startTagRun input dialect expression turns c
  generalize startTagLoop input dialect expression turns c = tag at hrun
  induction hrun generalizing lo with
  | spent => exact ⟨lo, .done, by simp⟩
  | exhausted => exact ⟨lo, Trace.trivia input _ lo, by simp⟩
  | @ended _ c t _ hahead ht =>
      have hidle : t.kind.shuts = false := by rcases ht with h | h <;> rw [h] <;> rfl
      exact ⟨_, (Trace.trivia input c lo).before (.advance hahead (idle_of_not_shuts hidle)),
        fun _ => (previousEnd_advance hahead).symm⟩
  | @named _ c t _ _ _ hahead ht hread _ ih =>
      have hadvance := (Trace.trivia input c lo).before
        (.advance hahead (idle_of_not_shuts (by rw [ht]; rfl)))
      obtain ⟨mid, hvalue⟩ := readAttribute_trace dialect hexpression t
        (hadvance.within_tokens hc) t.stop
      rw [hread] at hvalue
      have hbefore := hadvance.before hvalue
      obtain ⟨hi, hmore, hlast⟩ := ih (hbefore.within_tokens hc) mid
      exact ⟨hi, hbefore.append hmore, hlast⟩
  | cut => exact ⟨lo, Trace.trivia input _ lo, by simp⟩
  | @expression _ c _ _ _ _ _ _ _ _ _ hnode _ ih =>
      have hskip := Trace.trivia input c lo
      have hread := hskip.before
        (hexpression.trace (atToken_skipTrivia c) (hskip.within_tokens hc) hnode lo)
      obtain ⟨hi, hmore, hlast⟩ := ih (hread.within_tokens hc) _
      exact ⟨hi, hread.append hmore, hlast⟩
  | @filler _ c t _ _ hahead _ _ hcut _ _ ih =>
      have hidle : t.kind.shuts = false := Bool.eq_false_iff.mpr fun hshuts =>
        hcut (Or.inr (TokenKind.isCloser_of_shuts hshuts))
      have hadvance := (Trace.trivia input c lo).before (.advance hahead (idle_of_not_shuts hidle))
      obtain ⟨hi, hmore, hlast⟩ := ih (hadvance.within_tokens hc) t.stop
      exact ⟨hi, hadvance.before hmore, hlast⟩

theorem OpenElement.complain_trace (e : OpenElement) {cause : Anomaly} (hcause : cause ≠ .tooDeep)
    {blame : Token} (hblame : blame ∈ input.tokens) (c : Cursor) (lo : Int) :
    Trace input c lo [] (e.complain cause blame c) lo := by
  unfold complain
  split
  · exact .done
  · exact .note hblame hcause

/-- What an element holds.  It ends as far as has been read, or where the cursor stands. -/
theorem contentLoop_trace (dialect : Dialect) {child : Production} (hchild : Traces input child)
    {e : OpenElement} (he : e.opener ∈ input.tokens) (turns : Nat) {c : Cursor}
    (hc : c.Within input.tokens) (hturns : c.ahead.length < turns) (lo : Int) :
    ∃ hi, Trace input c lo (contentLoop input dialect child e turns c).children
        (contentLoop input dialect child e turns c).cursor hi
      ∧ ((contentLoop input dialect child e turns c).stop = hi
        ∨ (contentLoop input dialect child e turns c).stop
          = (contentLoop input dialect child e turns c).cursor.unclosedEnd input) := by
  have hrun := contentRun input dialect child e turns c
  generalize contentLoop input dialect child e turns c = content at hrun
  induction hrun generalizing lo with
  | spent => exact absurd hturns (Nat.not_lt_zero _)
  | @exhausted _ c hahead =>
      have hcause : Anomaly.unclosedElement e.written ≠ .tooDeep := by simp
      refine ⟨lo, (Trace.trivia input c lo).before (e.complain_trace hcause he c.skipTrivia lo),
        Or.inr ?_⟩
      rw [e.unclosedEnd_complain, unclosedEnd_nil hahead]
  | @closed _ c _ _ hahead ht _ =>
      exact ⟨_, (Trace.trivia input c lo).before
        (.skips (skips_pastEndTag hahead ht) (steps_pastEndTag hahead).shorter), Or.inl rfl⟩
  | @interrupted _ c t _ hahead _ _ _ =>
      have hcause : e.interruptedBy t ≠ .tooDeep := by
        unfold OpenElement.interruptedBy
        split <;> simp
      have hskip := Trace.trivia input c lo
      refine ⟨lo, hskip.before (e.complain_trace hcause ((hskip.within_tokens hc).mem hahead)
        c.skipTrivia lo), Or.inr ?_⟩
      rw [e.unclosedEnd_complain, unclosedEnd_cons hahead]
  | @stray _ c _ _ _ _ hahead _ _ hrecover _ ih =>
      have hskip := Trace.trivia input c lo
      obtain ⟨mid, hpass⟩ := Trace.of_recover? lo hahead (hskip.within_tokens hc) hrecover
      have hbefore := hskip.before hpass
      have hshort := (steps_of_recover? hahead hrecover).shorter
      have hskipped := hskip.leads.length_le
      obtain ⟨hi, htrace, hstop⟩ := ih (hbefore.within_tokens hc) (by omega) mid
      exact ⟨hi, hbefore.before htrace, hstop⟩
  | @implied _ c _ _ hahead _ _ =>
      exact ⟨lo, Trace.trivia input c lo, Or.inr (unclosedEnd_cons hahead).symm⟩
  | @child _ c _ _ _ _ _ _ _ _ hnode _ ih =>
      have hskip := Trace.trivia input c lo
      have hread := hskip.before
        (hchild.trace (atToken_skipTrivia c) (hskip.within_tokens hc) hnode lo)
      have hshort := (hchild.steps hnode).shorter
      have hskipped := hskip.leads.length_le
      obtain ⟨hi, htrace, hstop⟩ := ih (hread.within_tokens hc) (by omega) _
      exact ⟨hi, hread.append htrace, hstop⟩
  | @filler _ c t _ _ hahead ht _ _ _ ih =>
      have hidle : t.kind.shuts = false := Bool.eq_false_iff.mpr fun hshuts =>
        ht (TokenKind.isCloser_of_shuts hshuts)
      have hskip := Trace.trivia input c lo
      have hbefore := hskip.before (.advance hahead (idle_of_not_shuts hidle))
      have hshort := (steps_advance hahead).shorter
      have hskipped := hskip.leads.length_le
      obtain ⟨hi, htrace, hstop⟩ := ih (hbefore.within_tokens hc) (by omega) t.stop
      exact ⟨hi, hbefore.before htrace, hstop⟩

/-- Elements follow traces.  Where expressions are read, no token stands for a region. -/
theorem traces_element (dialect : Dialect) {child expression : Production}
    (hchild : Traces input child) (hexpression : Traces input expression)
    (hplain : (∀ turns c, (startTagLoop input dialect expression turns c).expressions = [])
      ∨ input.Plain) :
    Traces input (element input dialect child expression) := by
  refine { moves_element input dialect hchild.toMoves hexpression.toMoves with trace := ?_ }
  intro c node c' _ hc h lo
  obtain ⟨opener, rest, hahead, hkind, hread⟩ := elementRead h
  have hadvance : c.advance.Within input.tokens := hc.passes (leads_advance c).passes
  obtain ⟨hi, htag, hlast⟩ :=
    startTagLoop_trace dialect hexpression input.bound hadvance opener.stop
  have hopened := htag.leads.opened
  cases hread with
  | empty hempty =>
      refine .node htag (.element hahead hkind (Or.inl (hlast ?_).symm))
      rcases hempty with hempty | hempty
      · rw [hempty]; rfl
      · rw [hempty.1]; rfl
  | tooDeep _ hdeep =>
      rw [tooDeep, hopened] at hdeep
      exact .node htag (.cut hahead hkind hdeep (hplain.imp_left fun hnone => hnone _ _))
  | @content _ hdeep e he _ hcontent =>
      rw [tooDeep, hopened] at hdeep
      subst hcontent
      have hwithin := htag.within_tokens hadvance
      have hmem : e.opener ∈ input.tokens := by
        rw [he]
        exact hc.mem hahead
      obtain ⟨hi', hcontent, hstop⟩ := contentLoop_trace dialect hchild hmem input.bound
        (c := (startTagLoop input dialect expression input.bound c.advance).cursor.push
          { closer := .tagClose, name := some e.key, start := opener.start })
        hwithin hwithin.length_lt hi
      exact .node (htag.append (.within hcontent)) (.element hahead hkind
        (hstop.imp_right fun h => ⟨Bool.eq_false_iff.mpr hdeep, h⟩))

/-! ### Parses -/

/-- The parse follows a trace through all of its input, and its tree is a document of the nodes
that are made along it. -/
def Parse.Follows (p : Parse) (input : Input) : Prop :=
  ∃ nodes d hi, Trace input input.cursor input.start nodes d hi
    ∧ p.tree = .container input.start input.stop .document nodes ∧ p.faults = d.faults.reverse

theorem Parse.follows_ofItems {g : Grammar Rule} {item : Production}
    (hparse : g.parse input = .ofItems g input (items input item none input.cursor))
    (hitem : Traces input item) : (g.parse input).Follows input := by
  obtain ⟨d, hi, htrace, hstops⟩ :=
    itemsLoop_trace hitem none input.bound (c := input.cursor) rfl input.start
  rw [hparse]
  refine ⟨_, d, hi, htrace, rfl, ?_⟩
  have hcursor : (items input item none input.cursor).cursor = d := by
    unfold Items.StopsAt at hstops
    split at hstops
    · exact hstops
    · obtain ⟨-, -, hnone, -⟩ := hstops
      exact absurd hnone (by simp)
  exact hcursor ▸ rfl

end Parsing

end SourceView
