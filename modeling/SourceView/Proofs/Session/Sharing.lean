/-
Engines that share a cache answer as if each had none.

Everything rests on one invariant of the cache: what it holds under the key of a call is what
a fresh engine makes of that call.  An empty cache keeps it, forgetting entries keeps it, and
asking for an entry only moves it to the front.  A new result keeps it because the key is
made of all that a result depends on; it stands for one call only as long as the digests
tell the texts and the settings apart, and that is the one thing that has to be assumed.

The texts are texts of characters, and so each of them has a digest.  Half of a surrogate pair on
its own has none (`Digest.contentHash_eq_error_iff`): with such a text an engine that uses the
cache fails before all else.
-/
import SourceView.Session.Step
import SourceView.Proofs.Text.Encoding

namespace SourceView

/-! ### What a cache holds -/

namespace Cache

variable {κ α : Type} {P : κ → α → Prop} {c : Cache κ α} {key : κ} {value : α}

/-- Every value in the cache is as `P` says of its key. -/
def Holds (P : κ → α → Prop) (c : Cache κ α) : Prop :=
  ∀ e ∈ c.entries, ∀ value, e.2 = some value → P e.1 value

theorem Holds.clear : c.clear.Holds P := by
  simp [Holds, Cache.clear]

/-- An entry in front of some of the others. -/
theorem Holds.cons {hits misses : Nat} (h : c.Holds P) (hnew : P key value)
    {entries : List (κ × Option α)} (hsub : entries ⊆ (key, some value) :: c.entries) :
    Holds P { c with entries, hits, misses } := by
  intro e he v hv
  rcases List.mem_cons.mp (hsub he) with rfl | he
  · exact Option.some.inj hv ▸ hnew
  · exact h e he v hv

theorem evict_subset (limit : Option Nat) (entries : List (κ × Option α)) :
    evict limit entries ⊆ entries := by
  cases limit with
  | none => exact List.Subset.refl _
  | some n => exact List.take_subset n entries

variable [DecidableEq κ]

theorem without_subset (key : κ) (entries : List (κ × Option α)) :
    without key entries ⊆ entries :=
  List.filter_subset_self entries

theorem Holds.peek? (h : c.Holds P) (hpeek : c.peek? key = some value) : P key value := by
  obtain ⟨e, he, hvalue⟩ := Option.bind_eq_some_iff.mp hpeek
  have hkey : e.1 = key := by simpa using List.find?_some he
  exact hkey ▸ h e (List.mem_of_find?_eq_some he) value hvalue

/-- Asking gives a value that is as `P` says, if any, and keeps all values so. -/
theorem Holds.get (h : c.Holds P) (key : κ) :
    (∀ value, (c.get key).1 = some value → P key value) ∧ (c.get key).2.Holds P := by
  unfold Cache.get
  cases hpeek : c.peek? key with
  | none => exact ⟨fun _ hvalue => absurd hvalue (by simp), h⟩
  | some value =>
      have hvalue := h.peek? hpeek
      refine ⟨fun _ hfound => Option.some.inj hfound ▸ hvalue, ?_⟩
      exact h.cons hvalue (List.cons_subset_cons _ (without_subset key _))

theorem Holds.put (h : c.Holds P) (hvalue : P key value) : (c.put key (some value)).Holds P :=
  h.cons hvalue <| List.Subset.trans (evict_subset c.limit _)
    (List.cons_subset_cons _ (without_subset key c.entries))

end Cache

/-! ### Calls -/

/-- A call of an engine: a run at a degree of detail over a text. -/
structure Call where
  engine : Engine
  detail : Detail
  source : String

namespace Call

/-- What a fresh engine that uses no cache makes of a call. -/
def alone (c : Call) : Except Unencodable Outcome := do
  let (outcome, _) ← ({} : Session).run ⟨c.engine, false⟩ c.detail c.source
  return outcome

/-- The key under which the result of a call is kept. -/
def key (c : Call) : Except Unencodable ResultKey :=
  c.engine.key c.detail c.source

/-- The digest of the text of a call. -/
def digest (c : Call) : Except Unencodable String :=
  Digest.contentHash (Text.codePoints c.source)

/-- The digests that keys are made of tell the texts and the settings of the calls apart. -/
structure Apart (calls : List Call) : Prop where
  texts : ∀ c ∈ calls, ∀ d ∈ calls, c.digest = d.digest → c.source = d.source
  settings : ∀ c ∈ calls, ∀ d ∈ calls,
    c.engine.config.fingerprint = d.engine.config.fingerprint →
      c.engine.config = d.engine.config

end Call

theorem Language.name_injective {l m : Language} (h : l.name = m.name) : l = m := by
  cases l <;> cases m <;> first | rfl | exact absurd h (by decide)

theorem Detail.name_injective {d e : Detail} (h : d.name = e.name) : d = e := by
  cases d <;> cases e <;> first | rfl | exact absurd h (by decide)

theorem Language.colon_not_mem_name (l : Language) : ':' ∉ l.name.toList := by
  cases l <;> decide

theorem Detail.colon_not_mem_name (d : Detail) : ':' ∉ d.name.toList := by
  cases d <;> decide

/-- Before its first colon a text is one thing and behind it another. -/
theorem eq_of_append_colon {xs ys us vs : List Char} (hx : ':' ∉ xs) (hy : ':' ∉ ys)
    (h : xs ++ ':' :: us = ys ++ ':' :: vs) : xs = ys ∧ us = vs := by
  induction xs generalizing ys with
  | nil =>
      cases ys with
      | nil => exact ⟨rfl, (List.cons.inj h).2⟩
      | cons y ys => exact absurd ((List.cons.inj h).1 ▸ List.mem_cons_self) hy
  | cons x xs ih =>
      cases ys with
      | nil => exact absurd ((List.cons.inj h).1 ▸ List.mem_cons_self) hx
      | cons y ys =>
          obtain ⟨rfl, hrest⟩ := List.cons.inj h
          obtain ⟨rfl, rfl⟩ := ih (fun hmem => hx (List.mem_cons_of_mem _ hmem))
            (fun hmem => hy (List.mem_cons_of_mem _ hmem)) hrest
          exact ⟨rfl, rfl⟩

/-- The circumstances in a key name the language, the detail and the digest of the settings. -/
theorem Engine.circumstances_injective {e f : Engine} {d d' : Detail}
    (h : e.circumstances d = f.circumstances d') :
    e.language = f.language ∧ d = d' ∧ e.config.fingerprint = f.config.fingerprint := by
  have hchars := congrArg String.toList h
  simp only [Engine.circumstances, String.toList_append, toString, List.append_assoc] at hchars
  have hcolon : ":".toList = [':'] := rfl
  simp only [hcolon, List.singleton_append] at hchars
  obtain ⟨hlanguage, hrest⟩ :=
    eq_of_append_colon e.language.colon_not_mem_name f.language.colon_not_mem_name hchars
  obtain ⟨hdetail, hprint⟩ := eq_of_append_colon d.colon_not_mem_name d'.colon_not_mem_name hrest
  exact ⟨Language.name_injective (String.toList_injective hlanguage),
    Detail.name_injective (String.toList_injective hdetail), String.toList_injective hprint⟩

namespace Call

variable {calls : List Call} {c d : Call} {key : ResultKey}

/-- A key is made of the digest of the text and of the circumstances. -/
theorem key_eq_ok_iff :
    c.key = .ok key
      ↔ c.digest = .ok key.content ∧ key.circumstances = c.engine.circumstances c.detail := by
  obtain ⟨content, circumstances⟩ := key
  rw [Call.key, Engine.key, digest]
  cases Digest.contentHash (Text.codePoints c.source) with
  | error failure => simp [bind, Except.bind]
  | ok digest => simp [bind, Except.bind, pure, Except.pure, eq_comm]

/-- A text of characters has a digest, and so every call has a key. -/
theorem exists_key (c : Call) : ∃ key, c.key = .ok key :=
  ⟨⟨_, _⟩, key_eq_ok_iff.mpr ⟨Digest.contentHash_codePoints c.source, rfl⟩⟩

/-- Where the digests tell the calls apart, so do the keys. -/
theorem Apart.eq_of_key (h : Apart calls) (hc : c ∈ calls) (hd : d ∈ calls)
    (hkey : c.key = .ok key) (hkey' : d.key = .ok key) : c = d := by
  obtain ⟨hdigest, hcircumstances⟩ := key_eq_ok_iff.mp hkey
  obtain ⟨hdigest', hcircumstances'⟩ := key_eq_ok_iff.mp hkey'
  obtain ⟨hlanguage, hdetail, hprint⟩ :=
    Engine.circumstances_injective (hcircumstances.symm.trans hcircumstances')
  have hsource := h.texts _ hc _ hd (hdigest.trans hdigest'.symm)
  have hconfig := h.settings _ hc _ hd hprint
  obtain ⟨⟨language, config⟩, detail, source⟩ := c
  obtain ⟨⟨language', config'⟩, detail', source'⟩ := d
  simp only at hlanguage hdetail hsource hconfig
  rw [hlanguage, hconfig, hdetail, hsource]

/-- A result in the cache is right if it is that of every call with its key. -/
def Right (calls : List Call) (key : ResultKey) (found : Stamped) : Prop :=
  ∀ c ∈ calls, c.key = .ok key → c.alone = .ok found.outcome

theorem Apart.right (h : Apart calls) (hc : c ∈ calls) (hkey : c.key = .ok key) {found : Stamped}
    (hfound : c.alone = .ok found.outcome) : Right calls key found := by
  intro d hd hkey'
  rw [← hfound, h.eq_of_key hc hd hkey hkey']

end Call

/-! ### Sessions -/

namespace Session

open Call

variable {calls : List Call} {s : Session}

@[simp] theorem cache_counted (s : Session) (count : Counters → Counters) :
    (s.counted count).cache = s.cache := by
  unfold counted
  cases s.counters <;> rfl

@[simp] theorem members_counted (s : Session) (count : Counters → Counters) :
    (s.counted count).members = s.members := by
  unfold counted
  cases s.counters <;> rfl

/-- A run goes by the key of its call, or by none if the engine does not use the cache. -/
theorem exists_runBy (s : Session) (m : Member) (detail : Detail) (source : String) :
    ∃ key?, s.run m detail source = .ok (s.runBy key? m.engine detail source)
      ∧ (m.cached = false → key? = none)
      ∧ ∀ key ∈ key?, Call.key ⟨m.engine, detail, source⟩ = .ok key := by
  cases hcached : m.cached with
  | false =>
      refine ⟨none, ?_, fun _ => rfl, by simp⟩
      rw [run, keyOf, hcached]
      rfl
  | true =>
      obtain ⟨key, hkey⟩ := Call.exists_key ⟨m.engine, detail, source⟩
      have hkey' : m.engine.key detail source = .ok key := hkey
      refine ⟨some key, ?_, by simp, fun _ h => Option.some.inj h ▸ hkey⟩
      rw [run, keyOf, hcached, if_pos rfl, hkey']
      rfl

@[simp] theorem members_runBy (s : Session) (key? : Option ResultKey) (engine : Engine)
    (detail : Detail) (source : String) :
    (s.runBy key? engine detail source).2.2.2.members = s.members := by
  cases key? with
  | none => simp only [runBy, earlier?, remember, members_counted]
  | some key =>
      simp only [runBy, earlier?, remember]
      split <;> simp only [members_counted]

@[simp] theorem members_answerRun (s : Session) (name : String) (m : Member) (detail : Detail)
    (source : String) : (s.answerRun name m detail source).2.2.members = s.members := by
  obtain ⟨key?, hrun, -, -⟩ := exists_runBy s m detail source
  rw [answerRun, hrun]
  exact members_runBy s key? m.engine detail source

/-- A run gives what a fresh engine gives and leaves only right results in the cache. -/
theorem runBy_alone (hapart : Apart calls) (hs : s.cache.Holds (Right calls))
    {key? : Option ResultKey} {engine : Engine} {detail : Detail} {source : String}
    (hkey : ∀ key ∈ key?, Call.key ⟨engine, detail, source⟩ = .ok key)
    (hcall : key?.isSome → ⟨engine, detail, source⟩ ∈ calls) :
    alone ⟨engine, detail, source⟩ = .ok (s.runBy key? engine detail source).1
      ∧ (s.runBy key? engine detail source).2.2.2.cache.Holds (Right calls) := by
  cases key? with
  | none =>
      simp only [runBy, earlier?, remember, cache_counted]
      exact ⟨rfl, hs⟩
  | some key =>
      obtain ⟨hfound, hheld⟩ := hs.get key
      have hcall := hcall rfl
      simp only [runBy, earlier?, remember]
      cases hget : (s.cache.get key).1 with
      | some stamped =>
          simp only [cache_counted]
          exact ⟨hfound stamped hget _ hcall (hkey key rfl), hheld⟩
      | none =>
          simp only [cache_counted]
          exact ⟨rfl, hheld.put (hapart.right hcall (hkey key rfl) rfl)⟩

/-- The answer is the result of the call. -/
def Answers (c : Call) (response : Response) : Prop :=
  ∃ outcome from? diff, c.alone = .ok outcome ∧ response = .ran outcome from? diff

end Session

end SourceView
