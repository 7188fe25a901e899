/-
The outline of a stylesheet, drafted token by token.

The parse of an outline calls itself for every group.  What it comes to can be had without
that, from left to right: a draft holds the groups that are open, each with the nodes before
it, and every token changes the draft at its innermost end.  A comment is one node more, an
opener opens a group, and a closer closes the innermost group that waits for it and ends the
groups inside of that one, which stay unclosed.  Past the nesting limit a group is passed
over, with nothing kept but how many of its closers are due.

`parse_eq_draft` says that both come to the same tree.  In a draft one sees what no token to come
can change: the nodes that stand in it already.
-/
import SourceView.Proofs.Stylesheet.Brackets

namespace SourceView.Stylesheet

open Parsing Parsing.Cursor
open Node (Row)

/-! ### Drafts -/

/-- A group whose closer has not come yet: where it begins, and the nodes that stand before
it in what is around it. -/
structure Frame where
  group : Group
  known : group ∈ groups
  start : Int
  before : List Node := []

/-- An outline that has been read up to some token: what stands in the innermost open group,
the open groups from there outwards, and the group past the nesting limit that is being passed
over, with the number of closers that are due. -/
structure Draft where
  nodes : List Node := []
  frames : List Frame := []
  skipped : Option (Frame × Nat) := none

namespace Frame

/-- The node of the group. -/
def node (f : Frame) (stop : Int) (closed : Bool) (children : List Node) : Node :=
  .container f.start stop (f.group.node closed) children

/-- What is around the group once it has ended. -/
def close (f : Frame) (stop : Int) (closed : Bool) (children : List Node) : List Node :=
  f.before ++ [f.node stop closed children]

/-- The group that a token opens. -/
def ofOpener? (t : Token) : Option Frame :=
  match t.kind with
  | .blockOpen => some { group := .block, known := by simp [groups], start := t.start }
  | .parenOpen => some { group := .parentheses, known := by simp [groups], start := t.start }
  | .bracketOpen => some { group := .brackets, known := by simp [groups], start := t.start }
  | _ => none

theorem start_of_ofOpener? {f : Frame} {t : Token} (h : ofOpener? t = some f) :
    f.start = t.start := by
  unfold ofOpener? at h
  split at h <;> cases h <;> rfl

end Frame

namespace Draft

/-- The draft after a closer that some open group waits for. -/
def close (t : Token) (nodes : List Node) : List Frame → Draft
  | [] => { nodes }
  | f :: frames =>
    if f.group.closer = t.kind then { nodes := f.close t.stop true nodes, frames }
    else close t (f.close t.start false nodes) frames

/-- The draft after one more token. -/
def read (d : Draft) (t : Token) : Draft :=
  match d.skipped with
  | some (f, due) =>
    if t.kind = f.group.opener then { d with skipped := some (f, due + 1) }
    else if t.kind = f.group.closer then
      if due = 1 then { d with nodes := d.nodes ++ [f.node t.stop true []], skipped := none }
      else { d with skipped := some (f, due - 1) }
    else d
  | none =>
    match Frame.ofOpener? t with
    | some f =>
      if maxDepth ≤ d.frames.length then { d with skipped := some (f, 1) }
      else { nodes := [], frames := { f with before := d.nodes } :: d.frames }
    | none =>
      if t.kind = .comment then { d with nodes := d.nodes ++ [.leaf t.start t.stop .comment] }
      else if t.kind ∈ d.frames.map (·.group.closer) then close t d.nodes d.frames
      else d

/-- The outline when no more tokens come before `stop`. -/
def finish (d : Draft) (stop : Int) : List Node :=
  let nodes := match d.skipped with
    | some (f, _) => d.nodes ++ [f.node stop true []]
    | none => d.nodes
  d.frames.foldl (fun nodes f => f.close stop false nodes) nodes

/-- The outline that the draft becomes with the tokens that come before `stop`. -/
def complete (stop : Int) (d : Draft) (ts : List Token) : List Node :=
  (ts.foldl read d).finish stop

variable {stop : Int} {d : Draft} {f : Frame} {nodes children : List Node} {frames : List Frame}
  {t : Token} {ts : List Token}

theorem complete_cons : complete stop d (t :: ts) = complete stop (d.read t) ts :=
  rfl

theorem complete_append (stop : Int) (d : Draft) (ts us : List Token) :
    complete stop d (ts ++ us) = complete stop (ts.foldl read d) us := by
  rw [complete, complete, List.foldl_append]

/-! ### One token -/

theorem ofOpener?_eq_none (ht : t.kind = .comment ∨ t.kind.isCloser = true) :
    Frame.ofOpener? t = none := by
  unfold Frame.ofOpener?
  split
  all_goals
    first
    | rfl
    | rename_i hopener
      rw [hopener] at ht
      exact absurd ht (by decide)

theorem ofOpener?_opener {g : Group} (hg : g ∈ groups) (ht : t.kind = g.opener) :
    Frame.ofOpener? t = some { group := g, known := hg, start := t.start } := by
  have hkinds := hg
  simp only [groups, List.mem_cons, List.not_mem_nil, or_false] at hkinds
  unfold Frame.ofOpener?
  rcases hkinds with rfl | rfl | rfl <;> rw [ht] <;> rfl

theorem ne_comment_of_isCloser {kind : TokenKind} (h : kind.isCloser = true) : kind ≠ .comment := by
  rintro rfl
  exact absurd h (by decide)

theorem read_comment (ht : t.kind = .comment) :
    Draft.read { nodes, frames } t
      = { nodes := nodes ++ [.leaf t.start t.stop .comment], frames } := by
  simp only [read, ofOpener?_eq_none (Or.inl ht), ht, if_true]

theorem read_stray (ht : t.kind.isCloser = true) (hnot : t.kind ∉ frames.map (·.group.closer)) :
    Draft.read { nodes, frames } t = { nodes, frames } := by
  have hcomment := ne_comment_of_isCloser ht
  simp only [read, ofOpener?_eq_none (Or.inr ht), if_neg hcomment, if_neg hnot]

theorem read_closer (ht : t.kind.isCloser = true) (hmem : t.kind ∈ frames.map (·.group.closer)) :
    Draft.read { nodes, frames } t = close t nodes frames := by
  have hcomment := ne_comment_of_isCloser ht
  simp only [read, ofOpener?_eq_none (Or.inr ht), if_neg hcomment, if_pos hmem]

theorem read_opener (hf : Frame.ofOpener? t = some f) (hdeep : ¬ maxDepth ≤ frames.length) :
    Draft.read { nodes, frames } t
      = { nodes := [], frames := { f with before := nodes } :: frames } := by
  simp only [read, hf, if_neg hdeep]

theorem read_deep (hf : Frame.ofOpener? t = some f) (hdeep : maxDepth ≤ frames.length) :
    Draft.read { nodes, frames } t = { nodes, frames, skipped := some (f, 1) } := by
  simp only [read, hf, if_pos hdeep]

/-- The closer of the innermost group ends just that. -/
theorem complete_closed (ht : t.kind = f.group.closer) :
    complete stop { nodes := children, frames := f :: frames } (t :: ts)
      = complete stop { nodes := f.close t.stop true children, frames } ts := by
  have hcloser : t.kind.isCloser = true := ht ▸ isCloser_closer f.known
  rw [complete_cons, read_closer hcloser (by simp [ht]), close, if_pos ht.symm]

/-- The innermost group ends where a group further out is closed, or with the tokens. -/
theorem complete_unclosed
    (hend : ∀ u us, ts = u :: us → u.kind.isCloser = true ∧ u.kind ≠ f.group.closer
      ∧ u.kind ∈ frames.map (·.group.closer)) :
    complete stop { nodes := children, frames := f :: frames } ts
      = complete stop
          { nodes := f.close ((ts.head?.map (·.start)).getD stop) false children, frames } ts := by
  cases ts with
  | nil => rfl
  | cons u us =>
      obtain ⟨hcloser, hown, hmem⟩ := hend u us rfl
      have hmem' : u.kind ∈ (f :: frames).map (·.group.closer) := List.mem_cons_of_mem _ hmem
      rw [complete_cons, complete_cons, read_closer hcloser hmem', read_closer hcloser hmem, close,
        if_neg (Ne.symm hown)]
      rfl

/-- What is passed over past the nesting limit is passed over by the draft. -/
theorem complete_skipped (due : Nat) (hdue : 0 < due) (behind : List Token) :
    let passed := passBalanced f.group.opener f.group.closer due behind ts
    complete stop { nodes, frames, skipped := some (f, due) } ts
      = complete stop { nodes := nodes ++ [f.node (passed.1.getD stop) true []], frames }
          passed.2.2 := by
  induction ts generalizing due behind with
  | nil => rfl
  | cons t ts ih =>
      rw [complete_cons]
      simp only [read, passBalanced]
      by_cases hopener : t.kind = f.group.opener
      · rw [if_pos hopener, if_pos hopener]
        exact ih (due + 1) (Nat.succ_pos _) (t :: behind)
      rw [if_neg hopener, if_neg hopener]
      by_cases hcloser : t.kind = f.group.closer
      · rw [if_pos hcloser, if_pos hcloser]
        by_cases hlast : due = 1
        · rw [if_pos hlast, if_pos hlast]
          rfl
        · rw [if_neg hlast, if_neg hlast]
          exact ih (due - 1) (by omega) (t :: behind)
      · rw [if_neg hcloser, if_neg hcloser]
        exact ih due hdue (t :: behind)

end Draft

/-! ### Loops -/

variable {input : Input} {c : Cursor} {closer : Option TokenKind} {all : Items}
  {frames : List Frame}

/-- A draft is past the nesting limit just where the parse is. -/
theorem tooDeep_iff (hframes : frames.map (·.group.closer) = awaited c) :
    c.advance.tooDeep = true ↔ maxDepth ≤ frames.length := by
  have hlength := congrArg List.length (hframes.trans (awaited_advance c).symm)
  rw [List.length_map, awaited, List.length_map] at hlength
  rw [tooDeep, decide_eq_true_iff, hlength]

/-- A group below the nesting limit is open in the draft while the loop inside of it reads. -/
theorem Draft.complete_inside {stop : Int} {nodes : List Node} {t : Token} {rest : List Token}
    {inner : Items} {g : Group} (hahead : c.ahead = t :: rest) (hg : g ∈ groups)
    (ht : t.kind = g.opener) (hdeep : ¬ c.advance.tooDeep = true)
    (hframes : frames.map (·.group.closer) = awaited c)
    (hinner : ∀ {frames : List Frame}, frames.map (·.group.closer)
        = awaited (c.advance.push { closer := g.closer, start := t.start }) → ∀ nodes,
      complete stop { nodes, frames } c.advance.ahead
        = complete stop { nodes := nodes ++ inner.nodes, frames }
            (inner.closer.toList ++ inner.cursor.ahead)) :
    complete stop { nodes, frames } c.ahead
      = complete stop
          { nodes := inner.nodes
            frames := { group := g, known := hg, start := t.start, before := nodes } :: frames }
          (inner.closer.toList ++ inner.cursor.ahead) := by
  rw [hahead, complete_cons,
    read_opener (ofOpener?_opener hg ht) (mt (tooDeep_iff hframes).mpr hdeep),
    ← ahead_advance hahead]
  let f : Frame := { group := g, known := hg, start := t.start, before := nodes }
  have hpushed : (f :: frames).map (·.group.closer)
      = awaited (c.advance.push { closer := g.closer, start := t.start }) :=
    congrArg (g.closer :: ·) (hframes.trans (awaited_advance c).symm)
  exact hinner hpushed []

/-- A draft with the groups open that the parse is in becomes the same outline when what the
loop has read is put into it. -/
theorem Course.drafts (h : Course input closer c all)
    (hframes : frames.map (·.group.closer) = awaited c) (nodes : List Node) :
    Draft.complete input.stop { nodes, frames } c.ahead
      = Draft.complete input.stop { nodes := nodes ++ all.nodes, frames }
          (all.closer.toList ++ all.cursor.ahead) := by
  induction h generalizing frames nodes with
  | stops =>
      rw [List.append_nil]
      rfl
  | closes hahead =>
      rw [List.append_nil, hahead, ahead_advance hahead]
      rfl
  | comment hahead ht _ ih =>
      rw [hahead, Draft.complete_cons, Draft.read_comment ht, ← ahead_advance hahead,
        ih (hframes.trans (awaited_advance _).symm), List.append_assoc]
      rfl
  | @stray closer c t rest all hahead ht hnot _ ih =>
      have hnote : (c.note (unexpectedCloser t) t.start t.stop).ahead = t :: rest := hahead
      rw [hahead, Draft.complete_cons, Draft.read_stray ht (hframes ▸ hnot), ← ahead_advance hnote,
        ih (hframes.trans (awaited_advance (c.note _ _ _)).symm)]
  | @skipped closer c t rest all g hahead hg ht hdeep hmore ih =>
      have hleads := (leads_advance c).trans (leads_skipBalanced input t g.closer c.advance)
      have hsame := ih (hframes.trans (awaited_of_leads hleads).symm)
        (nodes ++ [.container t.start (skipBalanced input t g.closer c.advance).1 (g.node true) []])
      rw [hahead, Draft.complete_cons,
        Draft.read_deep (Draft.ofOpener?_opener hg ht) ((tooDeep_iff hframes).mp hdeep),
        Draft.complete_skipped 1 Nat.one_pos c.advance.behind, ← ahead_advance hahead]
      unfold skipBalanced at hsame ⊢
      rw [ht] at hsame ⊢
      rw [List.append_assoc] at hsame
      exact hsame
  | @closed closer c t u rest inner all g hahead hg ht hdeep hinner hu hmore ihinner ih =>
      let f : Frame := { group := g, known := hg, start := t.start, before := nodes }
      have hkind : u.kind = f.group.closer := Option.some.inj (hinner.kind_of_closer hu)
      have hleads := (leads_advance c).trans hinner.leads.close
      rw [Draft.complete_inside hahead hg ht hdeep hframes ihinner, hu, Option.toList_some,
        List.singleton_append, Draft.complete_closed hkind]
      refine (ih (hframes.trans (awaited_of_leads hleads).symm) _).trans ?_
      rw [Frame.close, List.append_assoc]
      rfl
  | @unclosed closer c t rest inner all g hahead hg ht hdeep hinner hnone hmore ihinner ih =>
      let f : Frame := { group := g, known := hg, start := t.start, before := nodes }
      have hleads := (leads_advance c).trans (hinner.leads.close.trans
        (leads_note _ (.unclosed g.what g.expected) t.start t.stop))
      have hend (u : Token) (us : List Token) (hu : inner.cursor.ahead = u :: us) :
          u.kind.isCloser = true ∧ u.kind ≠ f.group.closer
            ∧ u.kind ∈ frames.map (·.group.closer) := by
        obtain ⟨hmem, hcloser, hown⟩ := hinner.interrupted hnone hu
        have hne : u.kind ≠ g.closer := fun heq => hown (congrArg some heq)
        rw [hframes, ← awaited_advance]
        exact ⟨hcloser, hne, (List.mem_cons.mp hmem).resolve_left hne⟩
      have hstop : (inner.cursor.ahead.head?.map (·.start)).getD input.stop
          = inner.cursor.unclosedEnd input := by
        unfold unclosedEnd
        cases inner.cursor.ahead <;> rfl
      rw [Draft.complete_inside hahead hg ht hdeep hframes ihinner, hnone, Option.toList_none,
        List.nil_append, Draft.complete_unclosed hend, hstop]
      refine (ih (hframes.trans (awaited_of_leads hleads).symm) _).trans ?_
      rw [Frame.close, List.append_assoc]
      rfl

/-- **The outline of a stylesheet is what its draft comes to.** -/
theorem parse_eq_draft (hrich : input.rich = false)
    (htokens : ∀ t ∈ input.tokens, IsBracket t.kind) :
    (grammar.parse input).tree
      = .container input.start input.stop .document
          (Draft.complete input.stop {} input.tokens) := by
  obtain ⟨all, hparse, hcourse, hcloser, hahead⟩ := parse_course hrich htokens
  have hsame := hcourse.drafts (show ([] : List Frame).map (·.group.closer) = _ from rfl) []
  rw [hcloser, hahead] at hsame
  rw [hparse]
  show Node.container input.start input.stop .document all.nodes = _
  rw [show Draft.complete input.stop {} input.tokens = all.nodes from hsame]

end SourceView.Stylesheet
