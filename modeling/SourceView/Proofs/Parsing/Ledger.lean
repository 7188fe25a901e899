/-
What a parse makes of openers and closers.

A parse of nesting loses nothing: every opener becomes a node, every closer ends one node or
is a fault, and every fault says one of two things, that a node was not closed or that a
closer ended nothing.  A ledger has an entry for each node, with the token that opened it,
the token that closed it and the fault that was noted of it; beside the entries it has the
closers that ended nothing.

The order of the nodes and openers is that of the text.  Closers and faults come in another
one, as a node's closer comes after those of the nodes inside of it; of these the ledger says
that they are the same up to order, so none is missing and none is used twice.
-/
import SourceView.Parsing.Production
import SourceView.Proofs.Lexing.Spans

namespace SourceView

/-! ### Tokens that are told apart -/

/-- The tokens come in the order of their starts, and no two start at one place. -/
def Token.Apart (ts : List Token) : Prop :=
  ts.Pairwise fun t u => t.start < u.start

/-- Tokens in order none of which is empty are told apart by their starts. -/
theorem Token.InOrder.apart {lo hi : Int} {ts : List Token} (h : Token.InOrder lo hi ts)
    (hspan : ∀ t ∈ ts, t.start < t.stop) : Token.Apart ts := by
  induction ts generalizing lo with
  | nil => exact List.Pairwise.nil
  | cons t ts ih =>
      refine List.Pairwise.cons (fun u hu => ?_) (ih h.2.2 fun u hu => hspan u (by simp [hu]))
      have hstop := (Token.InOrder.mem h.2.2 u hu).1
      exact Int.lt_of_lt_of_le (hspan t (by simp)) hstop

/-! ### Faults of two sorts -/

/-- Whether a fault says that a closer ended nothing. -/
def Anomaly.isUnexpected : Anomaly → Bool
  | .unexpectedDelimiter _ | .unexpectedEndTag _ => true
  | _ => false

/-- Whether a fault says that a container was not closed. -/
def Anomaly.isUnclosed : Anomaly → Bool
  | .unclosed .. | .unclosedTemplate | .unclosedElement _ | .mismatchedTag .. => true
  | _ => false

/-- Whether the fault is of the sort and at the token. -/
def Fault.isAt (sort : Anomaly → Bool) (t : Token) (f : Fault) : Bool :=
  sort f.cause && f.start == t.start && f.stop == t.stop

theorem Fault.start_of_isAt {sort : Anomaly → Bool} {t : Token} {f : Fault}
    (h : f.isAt sort t = true) : f.start = t.start := by
  simp only [isAt, Bool.and_eq_true, beq_iff_eq] at h
  exact h.1.2

namespace Parsing

/-- The fault of a closer that ends nothing. -/
def strayFault (t : Token) : Fault :=
  ⟨unexpectedCloser t, t.start, t.stop⟩

theorem isUnexpected_strayFault (t : Token) : (strayFault t).cause.isUnexpected = true := by
  by_cases h : t.kind = .tagClose <;> simp [strayFault, unexpectedCloser, h, Anomaly.isUnexpected]

theorem isUnclosed_strayFault (t : Token) : (strayFault t).cause.isUnclosed = false := by
  by_cases h : t.kind = .tagClose <;> simp [strayFault, unexpectedCloser, h, Anomaly.isUnclosed]

/-- Nothing is noted to be past the nesting limit. -/
def Shallow (faults : List Fault) : Prop :=
  ∀ f ∈ faults, f.cause ≠ .tooDeep

theorem Shallow.of_suffix {faults more : List Fault} (h : Shallow more) (hsuffix : faults <:+ more) :
    Shallow faults :=
  fun f hf => h f (hsuffix.subset hf)

/-! ### Lists -/

/-- If no two members pass a test and one does, one does. -/
theorem countP_eq_one_of_pairwise {α : Type} {p : α → Bool} {l : List α}
    (h : l.Pairwise fun a b => p a = true → p b = false) {a : α} (ha : a ∈ l) (hp : p a = true) :
    l.countP p = 1 := by
  induction h with
  | nil => exact absurd ha (by simp)
  | @cons b l hb _ ih =>
      rw [List.countP_cons]
      rcases List.mem_cons.mp ha with rfl | ha
      · rw [if_pos hp, List.countP_eq_zero.mpr]
        intro c hc
        rw [hb c hc hp]
        exact Bool.false_ne_true
      · have hnot : ¬ p b = true := fun hpb => by simp [hb a ha hpb] at hp
        rw [if_neg hnot, ih ha]

theorem perm_append_exchange {α : Type} (as bs cs ds : List α) :
    ((as ++ bs) ++ (cs ++ ds)).Perm ((as ++ cs) ++ (bs ++ ds)) := by
  rw [List.append_assoc, List.append_assoc]
  exact (List.perm_append_comm_assoc bs cs ds).append_left as

/-! ### Ledgers -/

/-- How a node came about: the token that opened it, the token that closed it and the fault
that was noted of it, if there are such. -/
structure Entry where
  node : Node
  opener : Token
  closer : Option Token := none
  fault : Option Fault := none

/-- The entries, with the closers that ended nothing, account for a stretch of a parse. -/
structure Accounts (fits : Entry → Prop) (nodes : List Node) (openers closers : List Token)
    (faults : List Fault) (entries : List Entry) (stray : List Token) : Prop where
  nodes : entries.map (·.node) = nodes
  openers : entries.map (·.opener) = openers
  fits : ∀ e ∈ entries, fits e
  closers : (entries.filterMap (·.closer) ++ stray).Perm closers
  faults : (entries.filterMap (·.fault) ++ stray.map strayFault).Perm faults

namespace Accounts

variable {fits : Entry → Prop} {nodes nodes' : List Node} {openers openers' : List Token}
  {closers closers' : List Token} {faults faults' : List Fault} {entries entries' : List Entry}
  {stray stray' : List Token}

theorem nil : Accounts fits [] [] [] [] [] [] :=
  ⟨rfl, rfl, by simp, List.Perm.refl _, List.Perm.refl _⟩

/-- A node whose parts are accounted for elsewhere. -/
theorem cons {e : Entry} (he : fits e)
    (h : Accounts fits nodes openers closers faults entries stray) :
    Accounts fits (e.node :: nodes) (e.opener :: openers) (e.closer.toList ++ closers)
      (e.fault.toList ++ faults) (e :: entries) stray where
  nodes := congrArg (e.node :: ·) h.nodes
  openers := congrArg (e.opener :: ·) h.openers
  fits := by
    intro d hd
    rcases List.mem_cons.mp hd with rfl | hd
    · exact he
    · exact h.fits d hd
  closers := by
    cases hcloser : e.closer with
    | none => simpa [List.filterMap_cons, hcloser] using h.closers
    | some t => simpa [List.filterMap_cons, hcloser] using h.closers
  faults := by
    cases hfault : e.fault with
    | none => simpa [List.filterMap_cons, hfault] using h.faults
    | some f => simpa [List.filterMap_cons, hfault] using h.faults

/-- A closer that ends nothing. -/
theorem astray (t : Token) (h : Accounts fits nodes openers closers faults entries stray) :
    Accounts fits nodes openers (t :: closers) (strayFault t :: faults) entries (t :: stray) where
  nodes := h.nodes
  openers := h.openers
  fits := h.fits
  closers := List.perm_middle.trans (h.closers.cons t)
  faults := List.perm_middle.trans (h.faults.cons (strayFault t))

theorem append (h : Accounts fits nodes openers closers faults entries stray)
    (h' : Accounts fits nodes' openers' closers' faults' entries' stray') :
    Accounts fits (nodes ++ nodes') (openers ++ openers') (closers ++ closers')
      (faults ++ faults') (entries ++ entries') (stray ++ stray') where
  nodes := by rw [List.map_append, h.nodes, h'.nodes]
  openers := by rw [List.map_append, h.openers, h'.openers]
  fits := by
    intro e he
    rcases List.mem_append.mp he with he | he
    · exact h.fits e he
    · exact h'.fits e he
  closers := by
    rw [List.filterMap_append]
    exact (perm_append_exchange _ _ _ _).trans (h.closers.append h'.closers)
  faults := by
    rw [List.filterMap_append, List.map_append]
    exact (perm_append_exchange _ _ _ _).trans (h.faults.append h'.faults)

/-- In what order closers and faults come is of no account. -/
theorem of_perm (h : Accounts fits nodes openers closers faults entries stray)
    (hclosers : closers.Perm closers') (hfaults : faults.Perm faults') :
    Accounts fits nodes openers closers' faults' entries stray :=
  { h with closers := h.closers.trans hclosers, faults := h.faults.trans hfaults }

/-! ### One fault each -/

/-- **Each closer that ended nothing has one fault at its span that says so.** -/
theorem countP_unexpected (h : Accounts fits nodes openers closers faults entries stray)
    (happart : Token.Apart closers)
    (hsorts : ∀ e, fits e → ∀ f ∈ e.fault, f.cause.isUnexpected = false) {t : Token}
    (ht : t ∈ stray) : faults.countP (Fault.isAt Anomaly.isUnexpected t) = 1 := by
  have hused : (entries.filterMap (·.fault)).countP (Fault.isAt Anomaly.isUnexpected t) = 0 := by
    refine List.countP_eq_zero.mpr fun f hf => ?_
    obtain ⟨e, he, hfault⟩ := List.mem_filterMap.mp hf
    simp [Fault.isAt, hsorts e (h.fits e he) f hfault]
  have hdistinct : stray.Pairwise fun u v => u.start ≠ v.start := by
    have hall : (entries.filterMap (·.closer) ++ stray).Pairwise fun u v => u.start ≠ v.start :=
      (h.closers.pairwise_iff fun hne => hne.symm).mpr (happart.imp fun hlt => Int.ne_of_lt hlt)
    exact (List.pairwise_append.mp hall).2.1
  rw [← h.faults.countP_eq, List.countP_append, hused, List.countP_map, Nat.zero_add]
  refine countP_eq_one_of_pairwise ?_ ht ?_
  · refine hdistinct.imp fun {u v} hne hu => Bool.eq_false_iff.mpr fun hv => hne ?_
    have hstart : u.start = t.start := Fault.start_of_isAt hu
    exact hstart.trans (Fault.start_of_isAt hv).symm
  · rw [Function.comp_apply, Fault.isAt, isUnexpected_strayFault]
    simp [strayFault]

/-- **Each node that is noted as not closed has one fault at its opener that says so.** -/
theorem countP_unclosed (h : Accounts fits nodes openers closers faults entries stray)
    (happart : Token.Apart openers)
    (hplaces : ∀ e, fits e → ∀ f ∈ e.fault, f.start = e.opener.start) {e : Entry}
    (he : e ∈ entries) {f : Fault} (hfault : e.fault = some f)
    (hat : f.isAt Anomaly.isUnclosed e.opener = true) :
    faults.countP (Fault.isAt Anomaly.isUnclosed e.opener) = 1 := by
  have hstray : (stray.map strayFault).countP (Fault.isAt Anomaly.isUnclosed e.opener) = 0 := by
    refine List.countP_eq_zero.mpr fun g hg => ?_
    obtain ⟨t, -, rfl⟩ := List.mem_map.mp hg
    simp [Fault.isAt, isUnclosed_strayFault]
  have hdistinct : entries.Pairwise fun d e => d.opener.start ≠ e.opener.start := by
    rw [← h.openers] at happart
    exact (List.pairwise_map.mp happart).imp fun hlt => Int.ne_of_lt hlt
  rw [← h.faults.countP_eq, List.countP_append, hstray, List.countP_filterMap, Nat.add_zero]
  refine countP_eq_one_of_pairwise ?_ he ?_
  · refine hdistinct.imp_of_mem fun {a b} ha hb hne htrue => ?_
    cases hf : a.fault with
    | none => simp [hf] at htrue
    | some g =>
        cases hg : b.fault with
        | none => rfl
        | some g' =>
            have hstart : g.start = e.opener.start := Fault.start_of_isAt (by simpa [hf] using htrue)
            rw [hplaces a (h.fits a ha) g hf] at hstart
            refine Bool.eq_false_iff.mpr fun htrue' => hne ?_
            have hstart' : g'.start = e.opener.start := Fault.start_of_isAt htrue'
            rw [hplaces b (h.fits b hb) g' hg] at hstart'
            exact hstart.trans hstart'.symm
  · rw [hfault]
    exact hat

end Accounts

/-- There are entries that account for a stretch of a parse. -/
def Accounted (fits : Entry → Prop) (nodes : List Node) (openers closers : List Token)
    (faults : List Fault) : Prop :=
  ∃ entries stray, Accounts fits nodes openers closers faults entries stray

namespace Accounted

variable {fits : Entry → Prop} {nodes nodes' : List Node} {openers openers' : List Token}
  {closers closers' : List Token} {faults faults' : List Fault}

theorem nil : Accounted fits [] [] [] [] :=
  ⟨[], [], .nil⟩

theorem cons {e : Entry} (he : fits e) (h : Accounted fits nodes openers closers faults) :
    Accounted fits (e.node :: nodes) (e.opener :: openers) (e.closer.toList ++ closers)
      (e.fault.toList ++ faults) := by
  obtain ⟨entries, stray, h⟩ := h
  exact ⟨e :: entries, stray, h.cons he⟩

theorem astray (t : Token) (h : Accounted fits nodes openers closers faults) :
    Accounted fits nodes openers (t :: closers) (strayFault t :: faults) := by
  obtain ⟨entries, stray, h⟩ := h
  exact ⟨entries, t :: stray, h.astray t⟩

theorem append (h : Accounted fits nodes openers closers faults)
    (h' : Accounted fits nodes' openers' closers' faults') :
    Accounted fits (nodes ++ nodes') (openers ++ openers') (closers ++ closers')
      (faults ++ faults') := by
  obtain ⟨entries, stray, h⟩ := h
  obtain ⟨entries', stray', h'⟩ := h'
  exact ⟨entries ++ entries', stray ++ stray', h.append h'⟩

theorem of_perm (h : Accounted fits nodes openers closers faults)
    (hclosers : closers.Perm closers') (hfaults : faults.Perm faults') :
    Accounted fits nodes openers closers' faults' := by
  obtain ⟨entries, stray, h⟩ := h
  exact ⟨entries, stray, h.of_perm hclosers hfaults⟩

end Accounted

end Parsing

end SourceView
