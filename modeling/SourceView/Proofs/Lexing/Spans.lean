/-
Where the tokens of a run lie.

Two things are said of a token sequence.  Its tokens are *laid out* over a range when each
begins where the one before it ends, or after it, and none leaves the range; which of the
two is asked for is a relation between the end of one token and the start of the next.  And
each token *spells* the part of the source that its offsets name.

From these two follows everything a reader of tokens relies on: a selection of tokens that
are in order is in order, a region may be put in the place of the token that stands for it,
and the tokens with the text between them give back the source.
-/
import SourceView.Token

namespace SourceView.Token

/-- The token holds the text of `source` that its offsets name. -/
def Spells (source : List Char) (t : Token) : Prop :=
  t.value.toList = Text.slice source t.start t.stop

/-- The tokens lie one after another between `lo` and `hi`.  `gap` relates the end of a token
to the start of the next one, and the two ends of the range to the tokens there. -/
def Laid (gap : Int → Int → Prop) (lo hi : Int) : List Token → Prop
  | [] => gap lo hi
  | t :: ts => gap lo t.start ∧ t.start ≤ t.stop ∧ Laid gap t.stop hi ts

/-- The tokens are in order between `lo` and `hi`, and none overlaps another. -/
abbrev InOrder (lo hi : Int) (ts : List Token) : Prop :=
  Laid (· ≤ ·) lo hi ts

/-- The tokens lie side by side from `lo` to `hi`. -/
abbrev Tile (lo hi : Int) (ts : List Token) : Prop :=
  Laid (· = ·) lo hi ts

variable {gap : Int → Int → Prop} {lo mid hi : Int} {source : List Char}

/-! ### Ranges -/

theorem Tile.inOrder {ts : List Token} (h : Tile lo hi ts) : InOrder lo hi ts := by
  induction ts generalizing lo with
  | nil => exact Int.le_of_eq h
  | cons t ts ih => exact ⟨Int.le_of_eq h.1, h.2.1, ih h.2.2⟩

theorem InOrder.le {ts : List Token} (h : InOrder lo hi ts) : lo ≤ hi := by
  induction ts generalizing lo with
  | nil => exact h
  | cons t ts ih => exact Int.le_trans h.1 (Int.le_trans h.2.1 (ih h.2.2))

theorem InOrder.of_le {ts : List Token} (h : InOrder mid hi ts) (hle : lo ≤ mid) :
    InOrder lo hi ts := by
  cases ts with
  | nil => exact Int.le_trans hle h
  | cons t ts => exact ⟨Int.le_trans hle h.1, h.2⟩

/-- No token of a sequence in order leaves the range. -/
theorem InOrder.mem {ts : List Token} (h : InOrder lo hi ts) :
    ∀ t ∈ ts, lo ≤ t.start ∧ t.start ≤ t.stop ∧ t.stop ≤ hi := by
  induction ts generalizing lo with
  | nil => simp
  | cons u ts ih =>
      intro t ht
      rcases List.mem_cons.mp ht with rfl | ht
      · exact ⟨h.1, h.2.1, InOrder.le h.2.2⟩
      · obtain ⟨hlo, hspan, hhi⟩ := ih h.2.2 t ht
        exact ⟨Int.le_trans h.1 (Int.le_trans h.2.1 hlo), hspan, hhi⟩

/-- Tokens that are picked from a sequence in order are in order. -/
theorem InOrder.sublist {us ts : List Token} (hsub : us.Sublist ts) (h : InOrder lo hi ts) :
    InOrder lo hi us := by
  induction hsub generalizing lo with
  | slnil => exact h
  | cons t _ ih => exact ih (InOrder.of_le h.2.2 (Int.le_trans h.1 h.2.1))
  | cons_cons t _ ih => exact ⟨h.1, h.2.1, ih h.2.2⟩

/-- A range may be laid out in two parts. -/
theorem Laid.append (htrans : ∀ a b c, gap a b → gap b c → gap a c) {ts us : List Token}
    (h : Laid gap lo mid ts) (hus : Laid gap mid hi us) : Laid gap lo hi (ts ++ us) := by
  induction ts generalizing lo with
  | nil =>
      cases us with
      | nil => exact htrans _ _ _ h hus
      | cons u us => exact ⟨htrans _ _ _ h hus.1, hus.2⟩
  | cons t ts ih => exact ⟨h.1, h.2.1, ih h.2.2⟩

theorem Tile.append {ts us : List Token} (h : Tile lo mid ts) (hus : Tile mid hi us) :
    Tile lo hi (ts ++ us) := by
  refine Laid.append ?_ h hus
  intro a b c hab hbc
  exact Eq.trans hab hbc

/-! ### Regions in the place of their tokens -/

theorem leaves_of_embedded_nil {t : Token} (h : t.embedded = []) : t.leaves = [t] := by
  obtain ⟨_, _, _, _, _, _, embedded⟩ := t
  subst h
  rw [leaves]

theorem leaves_of_embedded_ne_nil {t : Token} (h : t.embedded ≠ []) :
    t.leaves = flatten t.embedded := by
  obtain ⟨_, _, _, _, _, _, embedded⟩ := t
  cases embedded with
  | nil => exact absurd rfl h
  | cons u us => rw [leaves, flatten]

/-- Tokens that stand for no region stay as they are. -/
theorem flatten_of_embedded_nil {ts : List Token} (h : ∀ t ∈ ts, t.embedded = []) :
    flatten ts = ts := by
  induction ts with
  | nil => rw [flatten]
  | cons t ts ih =>
      rw [flatten, leaves_of_embedded_nil (h t (by simp)), ih fun u hu => h u (by simp [hu])]
      rfl

/-- What a token of a run may stand for: nothing, or a region that is laid out over the span
of the token and in which no token stands for another region. -/
structure Holds (gap : Int → Int → Prop) (source : List Char) (t : Token) : Prop where
  spells : t.Spells source
  laid : t.embedded = [] ∨ Laid gap t.start t.stop t.embedded
  plain : ∀ u ∈ t.embedded, u.embedded = []
  inner : ∀ u ∈ t.embedded, u.Spells source

theorem Holds.of_embedded_nil {t : Token} (hspells : t.Spells source) (h : t.embedded = []) :
    t.Holds gap source :=
  ⟨hspells, Or.inl h, by simp [h], by simp [h]⟩

theorem Holds.leaves_eq {t : Token} (h : t.Holds gap source) :
    t.leaves = if t.embedded = [] then [t] else t.embedded := by
  by_cases hnil : t.embedded = []
  · rw [if_pos hnil, leaves_of_embedded_nil hnil]
  · rw [if_neg hnil, leaves_of_embedded_ne_nil hnil, flatten_of_embedded_nil h.plain]

/-- Putting regions in the place of their tokens keeps a range laid out. -/
theorem Laid.flatten (htrans : ∀ a b c, gap a b → gap b c → gap a c) {ts : List Token}
    (h : Laid gap lo hi ts) (hts : ∀ t ∈ ts, t.Holds gap source) :
    Laid gap lo hi (flatten ts) := by
  induction ts generalizing lo with
  | nil => rw [Token.flatten]; exact h
  | cons t ts ih =>
      have hrest := ih h.2.2 fun u hu => hts u (by simp [hu])
      have ht := hts t (by simp)
      rw [Token.flatten, ht.leaves_eq]
      by_cases hnil : t.embedded = []
      · rw [if_pos hnil]
        exact ⟨h.1, h.2.1, hrest⟩
      · rw [if_neg hnil]
        refine Laid.append htrans ?_ hrest
        have hinner := ht.laid.resolve_left hnil
        cases hemb : t.embedded with
        | nil => exact absurd hemb hnil
        | cons u us =>
            rw [hemb] at hinner
            exact ⟨htrans _ _ _ h.1 hinner.1, hinner.2⟩

theorem Holds.spells_flatten {ts : List Token} (hts : ∀ t ∈ ts, t.Holds gap source) :
    ∀ t ∈ flatten ts, t.Spells source := by
  induction ts with
  | nil => rw [flatten]; simp
  | cons t ts ih =>
      intro u hu
      have ht := hts t (by simp)
      rw [flatten, ht.leaves_eq, List.mem_append] at hu
      rcases hu with hu | hu
      · by_cases hnil : t.embedded = []
        · rw [if_pos hnil, List.mem_singleton] at hu
          exact hu ▸ ht.spells
        · rw [if_neg hnil] at hu
          exact ht.inner u hu
      · exact ih (fun v hv => hts v (by simp [hv])) u hu

/-! ### Giving back the source -/

theorem slice_of_le {a b : Int} (ha : 0 ≤ a) (hab : a ≤ b) :
    Text.slice source a b = (source.drop a.toNat).take (b.toNat - a.toNat) := by
  rw [Text.slice, if_pos ⟨ha, Int.le_trans ha hab⟩]

/-- Two slices that meet are one slice. -/
theorem slice_append_slice {a b c : Int} (ha : 0 ≤ a) (hab : a ≤ b) (hbc : b ≤ c) :
    Text.slice source a b ++ Text.slice source b c = Text.slice source a c := by
  have hb : b.toNat = a.toNat + (b.toNat - a.toNat) := by omega
  have hc : c.toNat - a.toNat = (b.toNat - a.toNat) + (c.toNat - b.toNat) := by omega
  rw [slice_of_le ha hab, slice_of_le (Int.le_trans ha hab) hbc,
    slice_of_le ha (Int.le_trans hab hbc), hc, List.take_add, List.drop_drop, ← hb]

/-- A slice and what follows it are the rest of the text. -/
theorem slice_append_sliceFrom {a b : Int} (ha : 0 ≤ a) (hab : a ≤ b) :
    Text.slice source a b ++ Text.sliceFrom source b = Text.sliceFrom source a := by
  have hb : b.toNat = a.toNat + (b.toNat - a.toNat) := by omega
  rw [slice_of_le ha hab, Text.sliceFrom, if_pos (Int.le_trans ha hab), Text.sliceFrom,
    if_pos ha, hb, ← List.drop_drop, Nat.add_sub_cancel_left, List.take_append_drop]

/-- The values of tokens that lie side by side are the text of their range. -/
theorem values_of_tile {ts : List Token} (h : Tile lo hi ts) (hlo : 0 ≤ lo)
    (hts : ∀ t ∈ ts, t.Spells source) :
    (ts.map (·.value.toList)).flatten = Text.slice source lo hi := by
  induction ts generalizing lo with
  | nil =>
      have hslice : Text.slice source lo hi = _ := slice_of_le hlo (Int.le_of_eq (h : lo = hi))
      rw [hslice, (h : lo = hi), Nat.sub_self, List.take_zero]
      rfl
  | cons t ts ih =>
      obtain ⟨rfl, hspan, hrest⟩ := h
      have hle : t.stop ≤ hi := InOrder.le (Tile.inOrder hrest)
      rw [List.map_cons, List.flatten_cons, hts t (by simp),
        ih hrest (Int.le_trans hlo hspan) fun u hu => hts u (by simp [hu])]
      exact slice_append_slice hlo hspan hle

/-- Tokens in order, each of which spells its part, give back the rest of the source with the
text between them. -/
theorem reconstructFrom_eq {ts : List Token} (h : InOrder lo hi ts) (hlo : 0 ≤ lo)
    (hts : ∀ t ∈ ts, t.Spells source) :
    reconstructFrom source lo ts = Text.sliceFrom source lo := by
  induction ts generalizing lo with
  | nil => rfl
  | cons t ts ih =>
      obtain ⟨hstart, hspan, hrest⟩ := h
      have ht0 : 0 ≤ t.start := Int.le_trans hlo hstart
      have hbefore : (if lo < t.start then Text.slice source lo t.start else [])
          = Text.slice source lo t.start := by
        by_cases hlt : lo < t.start
        · rw [if_pos hlt]
        · have heq : t.start = lo := Int.le_antisymm (Int.not_lt.mp hlt) hstart
          rw [if_neg hlt, slice_of_le hlo hstart, heq, Nat.sub_self, List.take_zero]
      rw [reconstructFrom, hbefore, hts t (by simp),
        ih hrest (Int.le_trans ht0 hspan) fun u hu => hts u (by simp [hu]), List.append_assoc,
        slice_append_sliceFrom ht0 hspan, slice_append_sliceFrom hlo hstart]

end SourceView.Token
