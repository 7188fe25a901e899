/-
The line of an offset is one more than the number of line feeds before it.

The index keeps where the lines begin, in increasing order, and finds the line of an offset
by binary search.  The search keeps entries that are at or below the bound before its range
and entries above the bound after it, and halves the range until nothing is left, so it
counts the entries at or below the bound.
-/
import Mathlib.Algebra.Group.Nat.Defs
import Mathlib.Data.List.TakeWhile
import SourceView.LineIndex
import SourceView.Text.Slice

namespace SourceView

/-! ### Binary search -/

/-- The entries before `k` are at or below the bound, those from `k` on are above it. -/
structure SplitAt (xs : Array Nat) (bound k : Nat) : Prop where
  size : k ≤ xs.size
  below : ∀ i, i < k → xs.getD i 0 ≤ bound
  above : ∀ i, k ≤ i → i < xs.size → bound < xs.getD i 0

/-- No later entry is smaller. -/
def Increasing (xs : Array Nat) : Prop :=
  ∀ i j, i ≤ j → j < xs.size → xs.getD i 0 ≤ xs.getD j 0

theorem bisectIn_splitAt {xs : Array Nat} (hxs : Increasing xs) (bound : Nat) {fuel lo hi : Nat}
    (hfuel : hi - lo < 2 ^ fuel) (hle : lo ≤ hi) (hsize : hi ≤ xs.size)
    (hbelow : ∀ i, i < lo → xs.getD i 0 ≤ bound)
    (habove : ∀ i, hi ≤ i → i < xs.size → bound < xs.getD i 0) :
    SplitAt xs bound (bisectIn xs bound fuel lo hi) := by
  induction fuel generalizing lo hi with
  | zero =>
      have hlo : lo = hi := by omega
      exact ⟨Nat.le_trans hle hsize, hbelow, hlo ▸ habove⟩
  | succ fuel ih =>
      rw [Nat.pow_succ] at hfuel
      unfold bisectIn
      by_cases hlt : lo < hi
      · rw [if_pos hlt]
        simp only
        by_cases hmid : xs.getD ((lo + hi) / 2) 0 ≤ bound
        · rw [if_pos hmid]
          refine ih (by omega) (by omega) hsize (fun i hi' => ?_) habove
          exact Nat.le_trans (hxs i ((lo + hi) / 2) (by omega) (by omega)) hmid
        · rw [if_neg hmid]
          refine ih (by omega) (by omega) (by omega) hbelow fun i hi' hsize' => ?_
          exact Nat.lt_of_lt_of_le (Nat.lt_of_not_le hmid) (hxs _ i hi' hsize')
      · rw [if_neg hlt]
        have hlo : lo = hi := by omega
        exact ⟨Nat.le_trans hle hsize, hbelow, hlo ▸ habove⟩

theorem bisect_splitAt {xs : Array Nat} (hxs : Increasing xs) (bound : Nat) :
    SplitAt xs bound (bisect xs bound) := by
  refine bisectIn_splitAt hxs bound ?_ (Nat.zero_le _) (Nat.le_refl _)
    (fun i hi => absurd hi (Nat.not_lt_zero i)) (fun i hi hsize => absurd hsize (by omega))
  rw [Nat.sub_zero]
  exact Nat.lt_log2_self

theorem getD_toArray (ys : List Nat) (i : Nat) : ys.toArray.getD i 0 = ys.getD i 0 := by
  simp [List.getD_eq_getElem?_getD]

theorem getD_toArray_of_lt {ys : List Nat} {i : Nat} (hi : i < ys.length) :
    ys.toArray.getD i 0 = ys[i] := by
  simp [hi]

/-- A place that splits the entries is the number of those at or below the bound. -/
theorem SplitAt.eq_countP {ys : List Nat} {bound k : Nat} (h : SplitAt ys.toArray bound k) :
    k = ys.countP fun y => decide (y ≤ bound) := by
  obtain ⟨hsize, hbelow, habove⟩ := h
  -- From here on the entries are those of a list, which the induction is over.
  simp only [List.size_toArray, getD_toArray] at hsize hbelow habove
  induction ys generalizing k with
  | nil => simpa using hsize
  | cons y ys ih =>
      cases k with
      | zero =>
          have hall : ∀ z ∈ y :: ys, ¬ z ≤ bound := by
            intro z hz
            obtain ⟨i, hi, rfl⟩ := List.mem_iff_getElem.mp hz
            have hlt := habove i (Nat.zero_le i) hi
            rw [← getD_toArray, getD_toArray_of_lt hi] at hlt
            omega
          rw [eq_comm, List.countP_eq_zero]
          intro z hz
          simpa using hall z hz
      | succ k =>
          have hy : y ≤ bound := hbelow 0 (Nat.zero_lt_succ k)
          have hrest := ih (k := k) (Nat.le_of_succ_le_succ hsize)
            (fun i hi => hbelow (i + 1) (Nat.succ_lt_succ hi))
            (fun i hi hlt => habove (i + 1) (Nat.succ_le_succ hi) (Nat.succ_lt_succ hlt))
          rw [List.countP_cons_of_pos (by simpa using hy), ← hrest]

/-! ### Line starts -/

namespace LineIndex

theorem breaksFrom_above (offset : Nat) (cs : List Char) :
    ∀ start ∈ breaksFrom offset cs, offset < start := by
  induction cs generalizing offset with
  | nil => simp [breaksFrom]
  | cons c cs ih =>
      have hmore (start : Nat) (h : start ∈ breaksFrom (offset + 1) cs) : offset < start :=
        Nat.lt_of_succ_lt (ih (offset + 1) start h)
      unfold breaksFrom
      by_cases hc : c = '\n'
      · rw [if_pos hc]
        intro start hstart
        rcases List.mem_cons.mp hstart with rfl | hstart
        · exact Nat.lt_succ_self offset
        · exact hmore start hstart
      · rw [if_neg hc]
        exact hmore

theorem breaksFrom_increasing (offset : Nat) (cs : List Char) :
    (breaksFrom offset cs).Pairwise (· ≤ ·) := by
  induction cs generalizing offset with
  | nil => exact List.Pairwise.nil
  | cons c cs ih =>
      unfold breaksFrom
      by_cases hc : c = '\n'
      · rw [if_pos hc]
        refine List.pairwise_cons.mpr ⟨fun start hstart => ?_, ih (offset + 1)⟩
        exact Nat.le_of_lt (breaksFrom_above (offset + 1) cs start hstart)
      · rw [if_neg hc]
        exact ih (offset + 1)

/-- The lines that begin within the next `n` characters are those after a line feed there. -/
theorem countP_breaksFrom (offset n : Nat) (cs : List Char) :
    (breaksFrom offset cs).countP (fun start => decide (start ≤ offset + n))
      = (cs.take n).count '\n' := by
  induction cs generalizing offset n with
  | nil => simp [breaksFrom]
  | cons c cs ih =>
      cases n with
      | zero =>
          rw [List.take_zero, List.count_nil, List.countP_eq_zero]
          intro start hstart
          have hlt := breaksFrom_above offset (c :: cs) start hstart
          simp only [decide_eq_true_eq]
          omega
      | succ n =>
          have hmore := ih (offset + 1) n
          rw [Nat.add_right_comm, Nat.add_assoc] at hmore
          unfold breaksFrom
          rw [List.take_succ_cons]
          by_cases hc : c = '\n'
          · subst hc
            rw [if_pos rfl, List.countP_cons_of_pos (by simp), hmore, List.count_cons_self]
          · rw [if_neg hc, hmore, List.count_cons_of_ne hc]

theorem length_breaksFrom (offset : Nat) (cs : List Char) :
    (breaksFrom offset cs).length = cs.count '\n' := by
  induction cs generalizing offset with
  | nil => rfl
  | cons c cs ih =>
      unfold breaksFrom
      by_cases hc : c = '\n'
      · subst hc
        rw [if_pos rfl, List.length_cons, ih, List.count_cons_self]
      · rw [if_neg hc, ih, List.count_cons_of_ne hc]

theorem lineCount_ofChars (cs : List Char) : (ofChars cs).lineCount = cs.count '\n' + 1 := by
  show (0 :: breaksFrom 0 cs).length = _
  rw [List.length_cons, length_breaksFrom]

theorem increasing_starts (cs : List Char) : Increasing (ofChars cs).starts := by
  have hsorted : (0 :: breaksFrom 0 cs).Pairwise (· ≤ ·) :=
    List.pairwise_cons.mpr ⟨fun _ _ => Nat.zero_le _, breaksFrom_increasing 0 cs⟩
  intro i j hij hj
  have hj' : j < (0 :: breaksFrom 0 cs).length := hj
  have hi' : i < (0 :: breaksFrom 0 cs).length := Nat.lt_of_le_of_lt hij hj'
  rw [ofChars, getD_toArray_of_lt hi', getD_toArray_of_lt hj']
  rcases Nat.eq_or_lt_of_le hij with rfl | hlt
  · exact Nat.le_refl _
  · exact List.pairwise_iff_getElem.mp hsorted i j hi' hj' hlt

/-- **The line of an offset is one more than the number of line feeds before it.** -/
theorem lineOf_ofChars (cs : List Char) (offset : Int) :
    (ofChars cs).lineOf offset = 1 + (cs.take offset.toNat).count '\n' := by
  unfold lineOf
  by_cases hoffset : offset ≤ 0
  · rw [if_pos hoffset, Int.toNat_of_nonpos hoffset]
    rfl
  · rw [if_neg hoffset]
    have hsplit := (bisect_splitAt (increasing_starts cs) offset.toNat).eq_countP
    have hcount := countP_breaksFrom 0 offset.toNat cs
    rw [Nat.zero_add] at hcount
    rw [hsplit, List.countP_cons_of_pos (by simp), hcount, Nat.add_comm]

theorem lineOf_pos (cs : List Char) (offset : Int) : 0 < (ofChars cs).lineOf offset := by
  rw [lineOf_ofChars]
  exact Nat.add_pos_left Nat.one_pos _

theorem lineOf_le_lineCount (cs : List Char) (offset : Int) :
    (ofChars cs).lineOf offset ≤ (ofChars cs).lineCount := by
  rw [lineOf_ofChars, lineCount_ofChars, Nat.add_comm]
  exact Nat.add_le_add_right ((List.take_sublist ..).count_le '\n') 1

/-- Later offsets are on the same line or a later one. -/
theorem lineOf_mono (cs : List Char) {i j : Int} (h : i ≤ j) :
    (ofChars cs).lineOf i ≤ (ofChars cs).lineOf j := by
  rw [lineOf_ofChars, lineOf_ofChars]
  have hsub : (cs.take i.toNat).Sublist (cs.take j.toNat) :=
    (List.take_prefix_take_left (Int.toNat_le_toNat h)).sublist
  exact Nat.add_le_add_left (hsub.count_le '\n') 1

/-- Without a line feed between them, offsets are on one line. -/
theorem lineOf_eq_of_slice {cs : List Char} {i j k : Int} (hi : 0 ≤ i) (hij : i ≤ j) (hjk : j ≤ k)
    (hfree : ∀ c ∈ Text.slice cs i k, c ≠ '\n') :
    (ofChars cs).lineOf i = (ofChars cs).lineOf j := by
  have hsplit : j.toNat = i.toNat + (j.toNat - i.toNat) := by omega
  have hnone : ((cs.drop i.toNat).take (j.toNat - i.toNat)).count '\n' = 0 := by
    refine List.count_eq_zero.mpr fun hmem => hfree '\n' ?_ rfl
    rw [Text.slice, if_pos ⟨hi, by omega⟩]
    exact (List.take_prefix_take_left (by omega)).subset hmem
  rw [lineOf_ofChars, lineOf_ofChars, hsplit, List.take_add, List.count_append, hnone]
  rfl

/-! ### Columns -/

/-- The offset at which the line of an offset begins: just behind the last line feed before it. -/
def lineBegin (cs : List Char) (offset : Nat) : Nat :=
  ((cs.take offset).reverse.dropWhile (· != '\n')).length

theorem lineBegin_le (cs : List Char) (offset : Nat) : lineBegin cs offset ≤ offset := by
  refine Nat.le_trans (List.dropWhile_suffix _).length_le ?_
  rw [List.length_reverse, List.length_take]
  exact Nat.min_le_left ..

theorem dropWhile_break_eq_nil {cs : List Char} :
    cs.dropWhile (· != '\n') = [] ↔ '\n' ∉ cs := by
  rw [List.dropWhile_eq_nil_iff]
  exact ⟨fun h hbreak => absurd (h '\n' hbreak) (by decide),
    fun h c hc => bne_iff_ne.mpr (ne_of_mem_of_not_mem hc h)⟩

/-- What is in front of a line feed makes no difference to the line behind it, and neither does
what is in front of a line that has not ended. -/
theorem dropWhile_break_concat (cs : List Char) (c : Char) :
    (cs ++ [c]).dropWhile (· != '\n')
      = if '\n' ∈ cs then cs.dropWhile (· != '\n') ++ [c] else if c = '\n' then [c] else [] := by
  simp only [List.dropWhile_append, List.isEmpty_iff, dropWhile_break_eq_nil]
  by_cases hcs : '\n' ∈ cs
  · rw [if_pos hcs, if_neg (not_not.mpr hcs)]
  · rw [if_neg hcs, if_pos hcs]
    by_cases hc : c = '\n' <;> simp [hc]

/-- Of the line starts, the one with as many line feeds in front of it as an offset has is where
the line of the offset begins. -/
theorem getD_breaksFrom (first offset n : Nat) (cs : List Char) :
    (first :: breaksFrom offset cs).getD ((cs.take n).count '\n') 0
      = if '\n' ∈ cs.take n then offset + lineBegin cs n else first := by
  induction cs generalizing first offset n with
  | nil => simp
  | cons c cs ih =>
      cases n with
      | zero => simp
      | succ n =>
          unfold breaksFrom lineBegin
          rw [List.take_succ_cons, List.reverse_cons, dropWhile_break_concat]
          by_cases hc : c = '\n'
          · subst hc
            rw [if_pos rfl, List.count_cons_self, List.getD_cons_succ, ih]
            by_cases hmore : '\n' ∈ cs.take n
            · simp only [hmore, lineBegin, List.mem_reverse, List.mem_cons, or_true, if_true,
                List.length_append, List.length_singleton]
              omega
            · simp [hmore]
          · have hne : '\n' ≠ c := fun h => hc h.symm
            rw [if_neg hc, List.count_cons_of_ne hc, ih]
            by_cases hmore : '\n' ∈ cs.take n
            · simp only [hmore, lineBegin, List.mem_reverse, List.mem_cons, or_true, if_true,
                List.length_append, List.length_singleton]
              omega
            · simp [hmore, hne]

/-- Of the lines of a text, the one that an offset is on begins where it should. -/
theorem getD_starts (cs : List Char) (offset : Nat) :
    (ofChars cs).starts.getD ((cs.take offset).count '\n') 0 = lineBegin cs offset := by
  have hbegin := getD_breaksFrom 0 0 offset cs
  have hfirst : (if '\n' ∈ cs.take offset then 0 + lineBegin cs offset else 0)
      = lineBegin cs offset := by
    by_cases hmore : '\n' ∈ cs.take offset
    · rw [if_pos hmore, Nat.zero_add]
    · rw [if_neg hmore, lineBegin, dropWhile_break_eq_nil.mpr (by simpa using hmore),
        List.length_nil]
  rw [hfirst, ← getD_toArray] at hbegin
  exact hbegin

/-- **The column of an offset counts from where its line begins.** -/
theorem columnOf_ofChars (cs : List Char) {offset : Nat} (hoffset : offset ≤ cs.length) :
    (ofChars cs).columnOf offset = offset - lineBegin cs offset + 1 := by
  have hclamp : (ofChars cs).clamp offset = offset := Nat.min_eq_left hoffset
  unfold columnOf
  simp only [hclamp, lineOf_ofChars, Int.toNat_natCast, Nat.add_sub_cancel_left]
  exact congrArg (offset - · + 1) (getD_starts cs offset)

end LineIndex

end SourceView
