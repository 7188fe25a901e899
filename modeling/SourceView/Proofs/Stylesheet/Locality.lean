/-
What of an outline is there for good before it is known what follows.

A draft only grows.  Whatever stands in it stays, and what comes after a place in the text
adds nodes that reach that place: they begin there or after it, or they are the nodes of
groups that were open there.  And every such group gets its node, whatever comes.  All of them
are nested, as the tokens come in order.

With `exists_cut` this says how far an outline depends on what follows: a node that ends
before the end of the known text stands in the outline whatever follows, and to one that does
not there is, whatever follows, a node of the same kind that begins where it does.
-/
import SourceView.Analysis
import SourceView.Proofs.Stylesheet.Draft
import SourceView.Proofs.Stylesheet.Prefix

namespace SourceView

/-- Whether the token ends before the offset. -/
def Token.endsBefore (t : Token) (offset : Nat) : Bool :=
  decide (t.stop < offset)

/-- The two nodes begin at one place and are of one kind to a fold analysis. -/
structure Node.BeginsAs (m n : Node) : Prop where
  start : m.start = n.start
  foldKind : m.foldKind? = n.foldKind?
  comment : m.isComment = n.isComment

namespace Stylesheet

open Parsing
open Node (Row visitedAll mem_visitedAll_append mem_visitedAll_leaf)

/-! ### What grows -/

/-- The group is what the frame says, whatever stands before it. -/
def Frame.bare (f : Frame) : Frame :=
  { f with before := [] }

/-- The node is that of the group. -/
def Frame.Becomes (f : Frame) (n : Node) : Prop :=
  ∃ stop closed children, n = f.node stop closed children

theorem Frame.foldKind?_node (f : Frame) (stop : Int) (closed : Bool) (children : List Node) :
    (f.node stop closed children).foldKind? = (f.node 0 true []).foldKind? := by
  have hknown := f.known
  simp only [groups, List.mem_cons, List.not_mem_nil, or_false] at hknown
  rcases hknown with hgroup | hgroup | hgroup <;> rw [Frame.node, Frame.node, hgroup] <;> rfl

theorem Frame.Becomes.beginsAs {f : Frame} {m n : Node} (hm : f.Becomes m) (hn : f.Becomes n) :
    m.BeginsAs n := by
  obtain ⟨_, _, _, rfl⟩ := hm
  obtain ⟨_, _, _, rfl⟩ := hn
  exact ⟨rfl, (f.foldKind?_node ..).trans (f.foldKind?_node ..).symm, rfl⟩

namespace Draft

variable {lo mid hi stop : Int} {d e : Draft} {f : Frame} {nodes children : List Node}
  {frames : List Frame} {t : Token} {ts : List Token} {n : Node} {closed : Bool}

/-- The node stands in the draft. -/
def Holds (d : Draft) (n : Node) : Prop :=
  n ∈ visitedAll d.nodes ∨ ∃ f ∈ d.frames, n ∈ visitedAll f.before

theorem holds_cons :
    Holds { nodes, frames := f :: frames } n
      ↔ n ∈ visitedAll nodes ∨ n ∈ visitedAll f.before ∨ ∃ g ∈ frames, n ∈ visitedAll g.before := by
  simp [Holds]

theorem holds_close :
    Holds { nodes := f.close stop closed nodes, frames } n
      ↔ n ∈ visitedAll f.before ∨ n = f.node stop closed nodes ∨ n ∈ visitedAll nodes
        ∨ ∃ g ∈ frames, n ∈ visitedAll g.before := by
  simp [Holds, Frame.close, Frame.node, mem_visitedAll_append, Node.visited, visitedAll, or_assoc]

/-- The groups that have not ended. -/
def opened (d : Draft) : List Frame :=
  d.frames.map Frame.bare ++ d.skipped.toList.map (·.1.bare)

/-- The draft `e` came of `d` by what comes at `lo` or after it.  Whatever was held still is;
what is new ends at `lo` or after it, and unless it begins there as well it is the node of a
group that was open; and the groups that were open are so still or have got their nodes. -/
structure Grows (lo : Int) (d e : Draft) : Prop where
  keeps : ∀ n, d.Holds n → e.Holds n
  added : ∀ n, e.Holds n → d.Holds n
    ∨ (n.attributes = [] ∧ lo ≤ n.stop ∧ (lo ≤ n.start ∨ ∃ f ∈ d.opened, f.Becomes n))
  opened : ∀ f ∈ e.opened, f ∈ d.opened ∨ lo ≤ f.start
  ended : ∀ f ∈ d.opened, f ∈ e.opened ∨ ∃ n, e.Holds n ∧ f.Becomes n ∧ lo ≤ n.stop

namespace Grows

theorem refl (lo : Int) (d : Draft) : Grows lo d d :=
  ⟨fun _ => id, fun _ => Or.inl, fun _ => Or.inl, fun _ => Or.inl⟩

theorem trans {d' : Draft} (h : Grows lo d d') (h' : Grows lo d' e) : Grows lo d e where
  keeps n hn := h'.keeps n (h.keeps n hn)
  added n hn := by
    rcases h'.added n hn with hn | ⟨hbare, hstop, hstart | ⟨f, hf, hbecomes⟩⟩
    · exact h.added n hn
    · exact Or.inr ⟨hbare, hstop, Or.inl hstart⟩
    · refine Or.inr ⟨hbare, hstop, ?_⟩
      rcases h.opened f hf with hf | hlater
      · exact Or.inr ⟨f, hf, hbecomes⟩
      · obtain ⟨_, _, _, rfl⟩ := hbecomes
        exact Or.inl hlater
  opened f hf := by
    rcases h'.opened f hf with hf | hlater
    · exact h.opened f hf
    · exact Or.inr hlater
  ended f hf := by
    rcases h.ended f hf with hf | ⟨n, hn, hends⟩
    · exact h'.ended f hf
    · exact Or.inr ⟨n, h'.keeps n hn, hends⟩

/-- A node more in the innermost group. -/
theorem comment (hlo : lo ≤ t.start) (ht : t.start ≤ t.stop) :
    Grows lo d { d with nodes := d.nodes ++ [.leaf t.start t.stop .comment] } where
  keeps n hn := hn.imp_left fun hn => mem_visitedAll_append.mpr (Or.inl hn)
  added n hn := by
    rcases hn with hn | hn
    · rcases mem_visitedAll_append.mp hn with hn | hn
      · exact Or.inl (Or.inl hn)
      · rcases mem_visitedAll_leaf.mp hn with rfl | hn
        · exact Or.inr ⟨rfl, Int.le_trans hlo ht, Or.inl hlo⟩
        · exact absurd hn (by simp [visitedAll])
    · exact Or.inl (Or.inr hn)
  opened _ := Or.inl
  ended _ := Or.inl

/-- A group is opened. -/
theorem opens (hlo : lo ≤ f.start) :
    Grows lo { nodes, frames } { nodes := [], frames := { f with before := nodes } :: frames } where
  keeps n hn := Or.inr (by simpa [Holds] using hn)
  added n hn := by
    refine Or.inl ?_
    simpa [Holds, visitedAll] using hn
  opened g hg := by
    simp only [Draft.opened, List.map_cons, List.cons_append, List.mem_cons] at hg
    rcases hg with rfl | hg
    · exact Or.inr hlo
    · exact Or.inl hg
  ended g hg := Or.inl (List.mem_cons_of_mem _ hg)

/-- The innermost group ends. -/
theorem closes (hlo : lo ≤ stop) (closed : Bool) :
    Grows lo { nodes, frames := f :: frames } { nodes := f.close stop closed nodes, frames } where
  keeps n hn := by
    rw [holds_close]
    rcases holds_cons.mp hn with hn | hn | hn
    · exact Or.inr (Or.inr (Or.inl hn))
    · exact Or.inl hn
    · exact Or.inr (Or.inr (Or.inr hn))
  added n hn := by
    rw [holds_cons]
    rcases holds_close.mp hn with hn | rfl | hn | hn
    · exact Or.inl (Or.inr (Or.inl hn))
    · exact Or.inr ⟨rfl, hlo, Or.inr ⟨f.bare, List.mem_cons_self, stop, closed, nodes, rfl⟩⟩
    · exact Or.inl (Or.inl hn)
    · exact Or.inl (Or.inr (Or.inr hn))
  opened g hg := Or.inl (List.mem_cons_of_mem _ hg)
  ended g hg := by
    rcases List.mem_cons.mp hg with rfl | hg
    · exact Or.inr ⟨f.node stop closed nodes, holds_close.mpr (Or.inr (Or.inl rfl)),
        ⟨stop, closed, nodes, rfl⟩, hlo⟩
    · exact Or.inl hg

/-- A group past the nesting limit is begun. -/
theorem skips (hlo : lo ≤ f.start) (due : Nat) :
    Grows lo { nodes, frames } { nodes, frames, skipped := some (f, due) } where
  keeps _ := id
  added _ := Or.inl
  opened g hg := by
    rcases List.mem_append.mp hg with hg | hg
    · exact Or.inl (List.mem_append_left _ hg)
    · obtain rfl : g = f.bare := by simpa using hg
      exact Or.inr hlo
  ended g hg := Or.inl (List.mem_append_left _ (by simpa [Draft.opened] using hg))

/-- Closers that are due in a group that is passed over make no difference. -/
theorem counts (due due' : Nat) :
    Grows lo { nodes, frames, skipped := some (f, due) }
      { nodes, frames, skipped := some (f, due') } :=
  ⟨fun _ => id, fun _ => Or.inl, fun _ => Or.inl, fun _ => Or.inl⟩

/-- A group past the nesting limit ends. -/
theorem passes (hlo : lo ≤ stop) (closed : Bool) (due : Nat) :
    Grows lo { nodes, frames, skipped := some (f, due) }
      { nodes := nodes ++ [f.node stop closed []], frames } where
  keeps n hn := hn.imp_left fun hn => mem_visitedAll_append.mpr (Or.inl hn)
  added n hn := by
    rcases hn with hn | hn
    · rcases mem_visitedAll_append.mp hn with hn | hn
      · exact Or.inl (Or.inl hn)
      · obtain rfl : n = f.node stop closed [] := by
          simpa [Frame.node, visitedAll, Node.visited] using hn
        exact Or.inr ⟨rfl, hlo, Or.inr ⟨f.bare, by simp [Draft.opened], stop, closed, [], rfl⟩⟩
    · exact Or.inl (Or.inr hn)
  opened g hg := Or.inl (List.mem_append_left _ (by simpa [Draft.opened] using hg))
  ended g hg := by
    rcases List.mem_append.mp hg with hg | hg
    · exact Or.inl (List.mem_append_left _ hg)
    · obtain rfl : g = f.bare := by simpa using hg
      refine Or.inr ⟨f.node stop closed [], Or.inl ?_, ⟨stop, closed, [], rfl⟩, hlo⟩
      exact mem_visitedAll_append.mpr (Or.inr (by simp [Frame.node, visitedAll, Node.visited]))

/-- A closer ends groups. -/
theorem close (hlo : lo ≤ t.start) (ht : t.start ≤ t.stop) :
    Grows lo { nodes, frames } (Draft.close t nodes frames) := by
  induction frames generalizing nodes with
  | nil => exact refl lo _
  | cons f frames ih =>
      rw [Draft.close]
      split
      · exact closes (Int.le_trans hlo ht) true
      · exact (closes hlo false).trans ih

/-- One more token. -/
theorem read (hlo : lo ≤ t.start) (ht : t.start ≤ t.stop) : Grows lo d (d.read t) := by
  obtain ⟨nodes, frames, skipped⟩ := d
  unfold Draft.read
  cases skipped with
  | some skipped =>
      obtain ⟨f, due⟩ := skipped
      simp only
      split
      · exact counts due (due + 1)
      split
      · split
        · exact passes (Int.le_trans hlo ht) true due
        · exact counts due (due - 1)
      · exact refl lo _
  | none =>
      simp only
      split
      · rename_i f hf
        have hstart := Frame.start_of_ofOpener? hf
        split
        · exact skips (hstart ▸ hlo) 1
        · exact opens (hstart ▸ hlo)
      split
      · exact comment (d := { nodes, frames }) hlo ht
      split
      · exact close hlo ht
      · exact refl lo _

/-- All that is left of the tokens, and the end. -/
theorem complete (hts : ∀ t ∈ ts, lo ≤ t.start ∧ t.start ≤ t.stop) (hstop : lo ≤ stop) :
    Grows lo d { nodes := d.complete stop ts } := by
  induction ts generalizing d with
  | nil =>
      have hfinish (nodes : List Node) (frames : List Frame) : Grows lo { nodes, frames }
          { nodes := frames.foldl (fun nodes f => f.close stop false nodes) nodes } := by
        induction frames generalizing nodes with
        | nil => exact refl lo _
        | cons f frames ih => exact (closes hstop false).trans (ih _)
      obtain ⟨nodes, frames, skipped⟩ := d
      cases skipped with
      | none => exact hfinish nodes frames
      | some skipped => exact (passes hstop true skipped.2).trans (hfinish _ frames)
  | cons t ts ih =>
      obtain ⟨hlo, ht⟩ := hts t List.mem_cons_self
      exact (read hlo ht).trans (ih fun u hu => hts u (List.mem_cons_of_mem _ hu))

end Grows

/-! ### Nesting -/

/-- The nodes of an open group and those before it are nested, and lie one after another from
`lo` up to `hi`. -/
def Stacked (lo : Int) : (hi : Int) → List Node → List Frame → Prop
  | hi, nodes, [] => Row lo hi nodes
  | hi, nodes, f :: frames => Row f.start hi nodes ∧ Stacked lo f.start f.before frames

/-- What is in the draft is nested, and lies between `lo` and `hi`. -/
def Laid (lo hi : Int) (d : Draft) : Prop :=
  match d.skipped with
  | some (f, _) => f.start ≤ hi ∧ Stacked lo f.start d.nodes d.frames
  | none => Stacked lo hi d.nodes d.frames

namespace Stacked

theorem append (h : Stacked lo mid nodes frames) (h' : Row mid hi children) :
    Stacked lo hi (nodes ++ children) frames := by
  cases frames with
  | nil => exact Row.append h h'
  | cons f frames => exact ⟨h.1.append h', h.2⟩

theorem to_le (h : Stacked lo mid nodes frames) (hle : mid ≤ hi) : Stacked lo hi nodes frames := by
  have happend := h.append (show Row mid hi [] from hle)
  rwa [List.append_nil] at happend

/-- A group that ends goes with those before it. -/
theorem close (h : Stacked lo hi nodes (f :: frames)) (hle : hi ≤ stop) (closed : Bool) :
    Stacked lo stop (f.close stop closed nodes) frames :=
  h.2.append (Row.single (Int.le_refl _) (h.1.to_le hle) (Int.le_refl _))

/-- A group that holds nothing goes with those before it. -/
theorem pass (h : Stacked lo f.start nodes frames) (hle : f.start ≤ stop) (closed : Bool) :
    Stacked lo stop (nodes ++ [f.node stop closed []]) frames :=
  h.append (Row.single (Int.le_refl _) hle (Int.le_refl _))

theorem laid_close (h : Stacked lo t.start nodes frames) (ht : t.start ≤ t.stop) :
    Laid lo t.stop (Draft.close t nodes frames) := by
  induction frames generalizing nodes with
  | nil => exact h.to_le ht
  | cons f frames ih =>
      rw [Draft.close]
      split
      · exact h.close ht true
      · exact ih (h.close (Int.le_refl _) false)

theorem row_finish (h : Stacked lo stop nodes frames) :
    Row lo stop (frames.foldl (fun nodes f => f.close stop false nodes) nodes) := by
  induction frames generalizing nodes with
  | nil => exact h
  | cons f frames ih => exact ih (h.close (Int.le_refl _) false)

theorem stop_le (h : Stacked lo hi nodes frames) (hn : Holds { nodes, frames } n) :
    n.stop ≤ hi := by
  induction frames generalizing hi nodes with
  | nil =>
      have hn : n ∈ visitedAll nodes := by simpa [Holds] using hn
      exact (Row.inside h n hn).2
  | cons f frames ih =>
      rcases holds_cons.mp hn with hn | hn
      · exact (h.1.inside n hn).2
      · exact Int.le_trans (ih h.2 hn) h.1.le

end Stacked

namespace Laid

theorem read (h : Laid lo hi d) (hhi : hi ≤ t.start) (ht : t.start ≤ t.stop) :
    Laid lo t.stop (d.read t) := by
  obtain ⟨nodes, frames, skipped⟩ := d
  unfold Draft.read
  cases skipped with
  | some skipped =>
      obtain ⟨f, due⟩ := skipped
      obtain ⟨hstart, hstacked⟩ : f.start ≤ hi ∧ Stacked lo f.start nodes frames := h
      have hle : f.start ≤ t.stop := by omega
      simp only
      split
      · exact ⟨hle, hstacked⟩
      split
      · split
        · exact hstacked.pass hle true
        · exact ⟨hle, hstacked⟩
      · exact ⟨hle, hstacked⟩
  | none =>
      have hstacked : Stacked lo t.start nodes frames := Stacked.to_le h hhi
      simp only
      split
      · rename_i f hf
        have hstart := Frame.start_of_ofOpener? hf
        split
        · exact ⟨hstart ▸ ht, hstart ▸ hstacked⟩
        · exact ⟨hstart ▸ ht, hstart ▸ hstacked⟩
      split
      · exact hstacked.append (Row.single (Int.le_refl _) ht (Int.le_refl _))
      split
      · exact hstacked.laid_close ht
      · exact hstacked.to_le ht

/-- After some tokens all lies before the end of the last one. -/
theorem foldl_read (h : Laid lo mid d) (hts : Token.InOrder mid hi ts) :
    ∃ last, (last = mid ∨ ∃ t ∈ ts, last = t.stop) ∧ last ≤ hi
      ∧ Laid lo last (ts.foldl Draft.read d) := by
  induction ts generalizing d mid with
  | nil => exact ⟨mid, Or.inl rfl, hts, h⟩
  | cons t ts ih =>
      obtain ⟨last, hlast, hhi, hlaid⟩ := ih (h.read hts.1 hts.2.1) hts.2.2
      refine ⟨last, Or.inr ?_, hhi, hlaid⟩
      rcases hlast with hlast | ⟨u, hu, hlast⟩
      · exact ⟨t, List.mem_cons_self, hlast⟩
      · exact ⟨u, List.mem_cons_of_mem _ hu, hlast⟩

theorem stop_le (h : Laid lo hi d) (hn : d.Holds n) : n.stop ≤ hi := by
  obtain ⟨nodes, frames, skipped⟩ := d
  cases skipped with
  | some skipped => exact Int.le_trans (Stacked.stop_le h.2 hn) h.1
  | none => exact Stacked.stop_le h hn

theorem finish (h : Laid lo hi d) (hhi : hi ≤ stop) : Row lo stop (d.finish stop) := by
  obtain ⟨nodes, frames, skipped⟩ := d
  cases skipped with
  | some skipped => exact (h.2.pass (Int.le_trans h.1 hhi) true).row_finish
  | none => exact (Stacked.to_le h hhi).row_finish

end Laid

/-- The outline that a draft becomes is nested. -/
theorem row_complete (hts : Token.InOrder lo stop ts) : Row lo stop (complete stop {} ts) := by
  have hstart : Laid lo lo {} := show Row lo lo [] from Int.le_refl lo
  obtain ⟨last, -, hlast, h⟩ := hstart.foldl_read hts
  exact h.finish hlast

/-! ### A comment that comes next -/

/-- The draft of some tokens. -/
def ofTokens (ts : List Token) : Draft :=
  ts.foldl read {}

/-- The node that a comment gives, if one comes next: none in a group that is passed over. -/
def commentNode (d : Draft) (comment : Option Token) : Option Node :=
  match d.skipped with
  | none => comment.map fun t => .leaf t.start t.stop .comment
  | some _ => none

/-- The draft with a node more in the innermost group. -/
def add (d : Draft) (node : Option Node) : Draft :=
  { d with nodes := d.nodes ++ node.toList }

theorem read_of_comment (ht : t.kind = .comment) : d.read t = d.add (d.commentNode (some t)) := by
  obtain ⟨nodes, frames, skipped⟩ := d
  cases skipped with
  | none => exact read_comment ht
  | some skipped =>
      obtain ⟨f, due⟩ := skipped
      obtain ⟨hopener, hcloser⟩ := ne_comment f.known
      rw [← ht] at hopener hcloser
      simp only [read, if_neg hopener.symm, if_neg hcloser.symm, add, commentNode,
        Option.toList_none, List.append_nil]

theorem foldl_read_comment {comment : Option Token} (h : ∀ t ∈ comment, t.kind = .comment) :
    comment.toList.foldl read d = d.add (d.commentNode comment) := by
  cases comment with
  | none =>
      have hnone : d.commentNode none = none := by
        unfold commentNode
        cases d.skipped <;> rfl
      simp [hnone, add]
  | some t => exact read_of_comment (h t rfl)

theorem mem_commentNode {comment : Option Token} :
    n ∈ d.commentNode comment
      ↔ d.skipped = none ∧ ∃ t ∈ comment, n = .leaf t.start t.stop .comment := by
  unfold commentNode
  cases d.skipped <;> cases comment <;> simp [eq_comm]

theorem holds_add_comment {comment : Option Token} :
    (d.add (d.commentNode comment)).Holds n ↔ d.Holds n ∨ n ∈ d.commentNode comment := by
  unfold add commentNode
  cases d.skipped with
  | none =>
      cases comment with
      | none => simp [Holds]
      | some t =>
          simp [Holds, mem_visitedAll_append, visitedAll, Node.visited, or_right_comm, eq_comm]
  | some skipped => simp [Holds]

end Draft

/-! ### Outlines -/

open Draft

variable {p s s' : List Char} {n : Node}

/-- What stands in the outline of a text. -/
def drafted (text : List Char) : List Node :=
  Draft.complete text.length {} (lex .structural 0 text).tokens

theorem inOrder_lex_zero (text : List Char) :
    Token.InOrder 0 text.length (lex .structural 0 text).tokens :=
  Nat.zero_add text.length ▸ inOrder_lex 0 text

theorem row_drafted (text : List Char) : Row 0 text.length (drafted text) :=
  row_complete (inOrder_lex_zero text)

/-- Any two nodes of an outline are one below the other or apart. -/
theorem laminar_drafted (text : List Char) :
    ∀ m ∈ visitedAll (drafted text), ∀ n ∈ visitedAll (drafted text), m.Laminar n := by
  refine (row_drafted text).laminar fun n hn => ?_
  have horder := inOrder_lex_zero text
  have hgrows : Grows 0 {} { nodes := drafted text } :=
    Grows.complete (fun t ht => ⟨(horder.mem t ht).1, (horder.mem t ht).2.1⟩) horder.le
  rcases hgrows.added n (Or.inl hn) with hn | ⟨hbare, -⟩
  · simp [Holds, visitedAll] at hn
  · exact hbare

theorem tree_eq_drafted (config : Config) (source : List Char) :
    (Language.stylesheet.pass config .structural source).parse.tree
      = .container 0 source.length .document (drafted source) := by
  rw [drafted, ← Language.lex_stylesheet_whole .structural config.embeddedLanguages]
  refine parse_eq_draft rfl fun t ht => ?_
  have hsame := Language.lex_stylesheet_whole .structural config.embeddedLanguages source
  exact (lex_brackets 0 source t (hsame ▸ ht)).1

/-- Where at the earliest a token begins that is not settled by `p`, if `s` follows: no token
begins with a character that a structural run does not stop at. -/
def reach (p s : List Char) : Int :=
  if s.head?.any (fun c => !isStructuralStop c) then p.length + 1 else p.length

theorem length_le_reach (p s : List Char) : (p.length : Int) ≤ reach p s := by
  unfold reach
  split <;> omega

theorem reach_le_length (p s : List Char) : reach p s ≤ (p ++ s).length := by
  rw [List.length_append]
  unfold reach
  split
  · cases s with
    | nil => rename_i h; simp at h
    | cons => rw [List.length_cons]; omega
  · omega

/-- The draft of `p`, and the comment that lies across its end if there is one. -/
structure Halfway (p : List Char) (d : Draft) (comment : List Char → Option Node) : Prop where
  stop : ∀ n, d.Holds n → n.stop ≤ p.length
    ∧ (p.getLast?.any (fun c => !isStructuralStop c) = true → n.stop < p.length)
  across : ∀ s, ∀ n ∈ comment s, reach p s ≤ n.stop
    ∧ ((p.length : Int) ≤ n.start + 1 ∨ ∀ s', ∃ m ∈ comment s', m.BeginsAs n)
  keeps : ∀ s n, d.Holds n ∨ n ∈ comment s → n ∈ visitedAll (drafted (p ++ s))
  added : ∀ s, ∀ n ∈ visitedAll (drafted (p ++ s)), d.Holds n ∨ n ∈ comment s
    ∨ (reach p s ≤ n.stop ∧ (reach p s ≤ n.start ∨ ∃ f ∈ d.opened, f.Becomes n))
  ended : ∀ s, ∀ f ∈ d.opened, ∃ n ∈ visitedAll (drafted (p ++ s)),
    f.Becomes n ∧ reach p s ≤ n.stop

/-- A token that begins at the end of `p` or later begins no sooner than it can. -/
theorem reach_le_start {t : Token} (ht : t ∈ (lex .structural 0 (p ++ s)).tokens)
    (hstart : (p.length : Int) ≤ t.start) : reach p s ≤ t.start := by
  unfold reach
  split
  · rename_i hfree
    have hne : t.start ≠ p.length := by
      intro heq
      have hstop := stop_of_mem_lex ht
      rw [heq, Int.toNat_natCast, List.drop_left] at hstop
      cases s with
      | nil => simp at hfree
      | cons c s => simp_all
    omega
  · exact hstart

namespace Cut

variable {settled : List Token} {straddling : List Char → Option Token}
  {later : List Char → List Token}

variable (h : Cut 0 p settled straddling later)

include h

/-- The outline grows out of the draft of what is settled and the comment across the end. -/
theorem grows (s : List Char) :
    Grows (reach p s) ((ofTokens settled).add ((ofTokens settled).commentNode (straddling s)))
      { nodes := drafted (p ++ s) } := by
  have hcomment : ∀ t ∈ straddling s, t.kind = .comment := fun t ht => (h.comment s t ht).1
  rw [drafted, h.tokens, complete_append, complete_append, foldl_read_comment hcomment]
  refine Grows.complete (fun t ht => ?_) (reach_le_length p s)
  have hstart := h.later_start s t ht
  rw [Nat.zero_add] at hstart
  have hmem : t ∈ (lex .structural 0 (p ++ s)).tokens := by
    rw [h.tokens]
    exact List.mem_append_right _ (List.mem_append_right _ ht)
  exact ⟨reach_le_start hmem hstart, Int.le_of_lt (lex_brackets 0 _ t hmem).2⟩

/-- What is settled ends with `p` or before it. -/
theorem held_stop (hn : (ofTokens settled).Holds n) :
    n.stop ≤ p.length
      ∧ (p.getLast?.any (fun c => !isStructuralStop c) = true → n.stop < p.length) := by
  have horder : Token.InOrder 0 (p ++ []).length settled := by
    refine Token.InOrder.sublist ?_ (inOrder_lex_zero (p ++ []))
    rw [h.tokens]
    exact List.sublist_append_left _ _
  obtain ⟨last, hlast, -, hlaid⟩ :=
    Laid.foldl_read (show Laid 0 0 {} from Int.le_refl (0 : Int)) horder
  have hstop := hlaid.stop_le hn
  rcases hlast with rfl | ⟨t, ht, rfl⟩
  · refine ⟨by omega, fun hfree => ?_⟩
    cases p with
    | nil => simp at hfree
    | cons => rw [List.length_cons]; omega
  · rcases h.settled_stop t ht with hlt | ⟨heq, hstopped⟩
    · exact ⟨by omega, fun _ => by omega⟩
    · refine ⟨by omega, fun hfree => ?_⟩
      cases hc : p.getLast? with
      | none => simp [hc] at hfree
      | some c => simp_all

/-- The comment across the end reaches it, and one begins there whatever follows. -/
theorem comment_reaches (hn : n ∈ (ofTokens settled).commentNode (straddling s)) :
    reach p s ≤ n.stop ∧ ((p.length : Int) ≤ n.start + 1
      ∨ ∀ s', ∃ m ∈ (ofTokens settled).commentNode (straddling s'), m.BeginsAs n) := by
  obtain ⟨hskipped, t, ht, rfl⟩ := mem_commentNode.mp hn
  obtain ⟨-, -, hstop, hmore⟩ := h.comment s t ht
  rw [Nat.zero_add] at hstop hmore
  refine ⟨?_, ?_⟩
  · show reach p s ≤ t.stop
    unfold reach
    split
    · have hlt := hmore (by rintro rfl; simp_all)
      omega
    · exact hstop
  · by_cases hstart : t.start + 1 < p.length
    · refine Or.inr fun s' => ?_
      obtain ⟨u, hu, heq⟩ := h.alike s t ht (by rw [Nat.zero_add]; exact hstart) s'
      exact ⟨_, mem_commentNode.mpr ⟨hskipped, u, hu, rfl⟩, heq, rfl, rfl⟩
    · exact Or.inl (Int.not_lt.mp hstart)

end Cut

theorem exists_halfway (p : List Char) : ∃ d comment, Halfway p d comment := by
  obtain ⟨settled, straddling, later, hcut⟩ := exists_cut 0 p
  refine ⟨ofTokens settled, fun s => (ofTokens settled).commentNode (straddling s),
    fun n => hcut.held_stop, fun s n => hcut.comment_reaches, ?_, ?_, ?_⟩
  · intro s n hn
    have hkept := (hcut.grows s).keeps n (holds_add_comment.mpr hn)
    simpa [Holds] using hkept
  · intro s n hn
    rcases (hcut.grows s).added n (Or.inl hn) with hn | ⟨-, hadded⟩
    · rw [← or_assoc]
      exact Or.inl (holds_add_comment.mp hn)
    · exact Or.inr (Or.inr hadded)
  · intro s f hf
    rcases (hcut.grows s).ended f hf with hf | ⟨n, hn, hends⟩
    · simp [Draft.opened] at hf
    · exact ⟨n, by simpa [Holds] using hn, hends⟩

/-- The node stands in the outline of `p`, whatever follows. -/
def Stands (p : List Char) (n : Node) : Prop :=
  ∀ s, n ∈ visitedAll (drafted (p ++ s))

/-- The node does not end before `p` does if `s` follows; unless it begins there, whatever
follows there is one that begins as it does. -/
structure Reaches (p s : List Char) (n : Node) : Prop where
  stop : reach p s ≤ n.stop
  matched : (p.length : Int) ≤ n.start + 1
    ∨ ∀ s', ∃ m ∈ visitedAll (drafted (p ++ s')), m.BeginsAs n ∧ reach p s' ≤ m.stop

theorem stands_or_reaches (hn : n ∈ visitedAll (drafted (p ++ s))) :
    (Stands p n ∧ n.stop ≤ p.length
        ∧ (p.getLast?.any (fun c => !isStructuralStop c) = true → n.stop < p.length))
      ∨ Reaches p s n := by
  obtain ⟨d, comment, h⟩ := exists_halfway p
  rcases h.added s n hn with hheld | hcomment | ⟨hstop, hstart⟩
  · exact Or.inl ⟨fun s' => h.keeps s' n (Or.inl hheld), h.stop n hheld⟩
  · obtain ⟨hstop, hmatched⟩ := h.across s n hcomment
    refine Or.inr ⟨hstop, hmatched.imp_right fun hmatched s' => ?_⟩
    obtain ⟨m, hm, hbegins⟩ := hmatched s'
    exact ⟨m, h.keeps s' m (Or.inr hm), hbegins, (h.across s' m hm).1⟩
  · refine Or.inr ⟨hstop, ?_⟩
    rcases hstart with hstart | ⟨f, hf, hbecomes⟩
    · have hreach := length_le_reach p s
      exact Or.inl (by omega)
    · refine Or.inr fun s' => ?_
      obtain ⟨m, hm, hbecomes', hstop'⟩ := h.ended s' f hf
      exact ⟨m, hm, hbecomes'.beginsAs hbecomes, hstop'⟩

/-- What ends before `p` does stands in the outline whatever follows. -/
theorem stands_of_stop_lt (hn : n ∈ visitedAll (drafted (p ++ s))) (hstop : n.stop < p.length) :
    Stands p n := by
  rcases stands_or_reaches hn with ⟨hstands, -⟩ | hreaches
  · exact hstands
  · have hle := Int.le_trans (length_le_reach p s) hreaches.stop
    omega

/-- The tokens that end before `p` does are the same whatever follows. -/
theorem lex_before (p s s' : List Char) :
    (lex .structural 0 (p ++ s)).tokens.filter (·.endsBefore p.length)
      = (lex .structural 0 (p ++ s')).tokens.filter (·.endsBefore p.length) := by
  obtain ⟨settled, straddling, later, hcut⟩ := exists_cut 0 p
  have hbefore (s : List Char) :
      (lex .structural 0 (p ++ s)).tokens.filter (·.endsBefore p.length)
        = settled.filter (·.endsBefore p.length) := by
    have hnone : ((straddling s).toList ++ later s).filter (·.endsBefore p.length)
        = [] := by
      refine List.filter_eq_nil_iff.mpr fun t ht => ?_
      rw [Token.endsBefore, decide_eq_true_iff]
      have hspan : t.start < t.stop := by
        refine (lex_brackets 0 (p ++ s) t ?_).2
        rw [hcut.tokens]
        exact List.mem_append_right _ ht
      rcases List.mem_append.mp ht with ht | ht
      · have hstop := (hcut.comment s t (Option.mem_toList.mp ht)).2.2.1
        omega
      · have hstart := hcut.later_start s t ht
        omega
    rw [hcut.tokens, List.filter_append, hnone, List.append_nil]
  rw [hbefore, hbefore]

end Stylesheet

open Stylesheet in
/-- **What ends before a place in a stylesheet does not depend on what follows that place.**
The outlines of two texts that begin alike have the same tokens and the same nodes, with all
that stands in them, among those that end before the texts part. -/
theorem Language.stylesheet_outline_local (config : Config) (p s s' : List Char) :
    let pass (s : List Char) := stylesheet.pass config .structural (p ++ s)
    (pass s).lexing.tokens.filter (·.endsBefore p.length)
        = (pass s').lexing.tokens.filter (·.endsBefore p.length)
      ∧ ∀ n ∈ (pass s).parse.tree.visited, n.stop < p.length →
        n ∈ (pass s').parse.tree.visited := by
  intro pass
  have hlexing (s : List Char) : (pass s).lexing = Stylesheet.lex .structural 0 (p ++ s) :=
    lex_stylesheet_whole .structural config.embeddedLanguages (p ++ s)
  rw [hlexing, hlexing]
  refine ⟨lex_before p s s', fun n hn hstop => ?_⟩
  have htree (s : List Char) : (pass s).parse.tree
      = .container 0 (p ++ s).length .document (drafted (p ++ s)) := tree_eq_drafted config (p ++ s)
  rw [htree, Node.visited, List.mem_cons] at hn ⊢
  rcases hn with rfl | hn
  · change ((p ++ s).length : Int) < p.length at hstop
    rw [List.length_append] at hstop
    omega
  · exact Or.inr (stands_of_stop_lt hn hstop s')

open Stylesheet in
/-- A block that is closed stands whether a comment or a bracket comes after it. -/
theorem Language.stylesheet_outline_local_of_block :
    let p := "a{b} /".toList
    let block : Node := .container 1 4 (.block true) []
    block ∈ (stylesheet.pass {} .structural (p ++ "* c".toList)).parse.tree.visited
      ∧ block.stop < p.length
      ∧ block ∈ (stylesheet.pass {} .structural (p ++ ")".toList)).parse.tree.visited := by
  intro p block
  have hblock :
      block ∈ (stylesheet.pass {} .structural (p ++ "* c".toList)).parse.tree.visited := by
    decide +kernel
  have hstop : block.stop < p.length := by decide
  exact ⟨hblock, hstop, (stylesheet_outline_local {} p _ _).2 block hblock hstop⟩

end SourceView
