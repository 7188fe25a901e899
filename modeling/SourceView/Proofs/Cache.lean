/-
A cache holds what was touched last.

What a cache should hold can be read off the requests that were made of it, without the cache.
The keys that were touched since the cache was last cleared are written down, the one touched
last first, and the first so many different ones of them are held, each with the value that was
last put for it.  Only whether asking for a key touches it depends on what was held before, so
the keys are written down along the history.

The entries of the cache are these keys in this order, with these values: that is the invariant,
and each of the three requests restores it.  Putting a key in front of the others and dropping
the last one comes to the same as writing it down in front of all keys that were ever touched,
because it was either among the keys held or pushes one of them out.
-/
import SourceView.Cache
import Mathlib.Data.List.Basic
import Mathlib.Data.List.Nodup

namespace SourceView.Cache

/-! ### Different elements of a list -/

section

variable {κ : Type} [DecidableEq κ] {key : κ} {keys : List κ}

theorem filter_eraseDups (p : κ → Bool) (keys : List κ) :
    keys.eraseDups.filter p = (keys.filter p).eraseDups := by
  induction hn : keys.length using Nat.strongRecOn generalizing keys with
  | ind n ih =>
      cases keys with
      | nil => rfl
      | cons key keys =>
          have hlt : (keys.filter fun k => !k == key).length < n :=
            hn ▸ Nat.lt_succ_of_le (List.length_filter_le _ keys)
          rw [List.eraseDups_cons]
          by_cases hkey : p key = true
          · rw [List.filter_cons_of_pos hkey, List.filter_cons_of_pos hkey, List.eraseDups_cons,
              ih _ hlt _ rfl, List.filter_comm]
          · have hdrop : (keys.filter fun k => !k == key).filter p = keys.filter p := by
              rw [List.filter_filter]
              refine List.filter_congr fun k _ => ?_
              by_cases hk : k = key
              · subst hk
                simp [hkey]
              · simp [hk]
            rw [List.filter_cons_of_neg hkey, List.filter_cons_of_neg hkey, ih _ hlt _ rfl, hdrop]

theorem eraseDups_cons_filter (key : κ) (keys : List κ) :
    (key :: keys).eraseDups = key :: keys.eraseDups.filter fun k => decide (k ≠ key) := by
  rw [List.eraseDups_cons, filter_eraseDups]
  simp [beq_eq_decide]

theorem nodup_eraseDups (keys : List κ) : keys.eraseDups.Nodup := by
  induction keys with
  | nil => exact List.nodup_nil
  | cons key keys ih =>
      rw [eraseDups_cons_filter]
      exact List.nodup_cons.mpr ⟨by simp, ih.filter _⟩

/-- To put a key in front, it does not matter whether the last key is dropped before or after. -/
theorem take_filter_take (hkeys : keys.Nodup) (key : κ) (n : Nat) :
    ((keys.take (n + 1)).filter fun k => decide (k ≠ key)).take n
      = (keys.filter fun k => decide (k ≠ key)).take n := by
  induction keys generalizing n with
  | nil => rfl
  | cons k keys ih =>
      obtain ⟨hk, hkeys⟩ := List.nodup_cons.mp hkeys
      rw [List.take_succ_cons]
      by_cases hkey : k = key
      · subst hkey
        have hself (ks : List κ) (hks : ks ⊆ keys) : (ks.filter fun j => decide (j ≠ k)) = ks :=
          List.filter_eq_self.mpr fun j hj => by
            simpa using fun hjk : j = k => hk (hjk ▸ hks hj)
        rw [List.filter_cons_of_neg (by simp), List.filter_cons_of_neg (by simp),
          hself _ (List.take_subset n keys), hself _ (List.Subset.refl _), List.take_take,
          Nat.min_self]
      · rw [List.filter_cons_of_pos (by simpa using hkey),
          List.filter_cons_of_pos (by simpa using hkey)]
        cases n with
        | zero => rfl
        | succ n => rw [List.take_succ_cons, List.take_succ_cons, ih hkeys]

end

/-! ### Requests and their history -/

/-- What may be asked of a cache. -/
inductive Request (κ α : Type) where
  | get (key : κ)
  | put (key : κ) (value : α)
  | clear

variable {κ α : Type} [DecidableEq κ]

/-- What a request answers, and the cache after it. -/
def perform (c : Cache κ α) : Request κ α → Option α × Cache κ α
  | .get key => c.get key
  | .put key value => (none, c.put key (some value))
  | .clear => (none, c.clear)

/-- The cache after some requests. -/
def after (c : Cache κ α) (requests : List (Request κ α)) : Cache κ α :=
  requests.foldl (fun c request => (c.perform request).2) c

/-- The first elements of a list, as many as a limit allows. -/
def atMost {β : Type} (limit : Option Nat) (xs : List β) : List β :=
  match limit with
  | none => xs
  | some n => xs.take n

/-- The first different keys of a list, as many as a limit allows. -/
def recent (limit : Option Nat) (keys : List κ) : List κ :=
  atMost limit keys.eraseDups

namespace Request

/-! A history has the latest request first. -/

/-- The keys that were touched since the last clearing, the last one first.  To put a key touches
it; to ask for it touches it if it is held. -/
def touched (limit : Option Nat) : List (Request κ α) → List κ
  | [] => []
  | .clear :: _ => []
  | .put key _ :: past => key :: touched limit past
  | .get key :: past =>
    if key ∈ recent limit (touched limit past) then key :: touched limit past
    else touched limit past

/-- The keys that are held. -/
def held (limit : Option Nat) (past : List (Request κ α)) : List κ :=
  recent limit (touched limit past)

/-- The value that was last put for a key since the last clearing. -/
def lastPut? (key : κ) : List (Request κ α) → Option α
  | [] => none
  | .clear :: _ => none
  | .put k value :: past => if k = key then some value else lastPut? key past
  | .get _ :: past => lastPut? key past

/-- How often a key was asked for since the last clearing that was held, or that was not. -/
def asked (limit : Option Nat) (found : Bool) : List (Request κ α) → Nat
  | [] => 0
  | .clear :: _ => 0
  | .put _ _ :: past => asked limit found past
  | .get key :: past =>
    if decide (key ∈ held limit past) = found then asked limit found past + 1
    else asked limit found past

end Request

open Request

variable {limit : Option Nat} {key : κ} {keys : List κ} {value : α} {past : List (Request κ α)}
  {c : Cache κ α}

theorem mem_of_mem_recent (h : key ∈ recent limit keys) : key ∈ keys := by
  cases limit with
  | none => exact List.mem_eraseDups.mp h
  | some n => exact List.mem_eraseDups.mp (List.mem_of_mem_take h)

theorem length_recent_le {n : Nat} : (recent (some n) keys).length ≤ n :=
  List.length_take_le n _

/-- A key that is touched is put in front of the keys held, and the limit drops the last one. -/
theorem recent_cons (hlimit : ∀ n ∈ limit, 1 ≤ n) (key : κ) (keys : List κ) :
    recent limit (key :: keys)
      = atMost limit (key :: (recent limit keys).filter fun k => decide (k ≠ key)) := by
  cases limit with
  | none => exact eraseDups_cons_filter key keys
  | some n =>
      obtain ⟨n, rfl⟩ := Nat.exists_eq_add_of_le' (hlimit n rfl)
      rw [recent, eraseDups_cons_filter, recent, atMost, atMost, atMost, List.take_succ_cons,
        List.take_succ_cons, take_filter_take (nodup_eraseDups keys)]

/-- A key that is held is moved to the front, and none is dropped. -/
theorem recent_cons_of_mem (hlimit : ∀ n ∈ limit, 1 ≤ n) (hkey : key ∈ recent limit keys) :
    recent limit (key :: keys) = key :: (recent limit keys).filter fun k => decide (k ≠ key) := by
  rw [recent_cons hlimit]
  cases limit with
  | none => rfl
  | some n =>
      have hlength : ((recent (some n) keys).filter fun k => decide (k ≠ key)).length
          < (recent (some n) keys).length :=
        List.length_filter_lt_length_iff_exists.mpr ⟨key, hkey, by simp⟩
      exact List.take_of_length_le (Nat.lt_of_lt_of_le hlength length_recent_le)

/-! What each request does to the keys that are held. -/

theorem held_clear : held limit (.clear :: past) = [] := by
  cases limit with
  | none => rfl
  | some n => exact List.take_nil

theorem held_put (hlimit : ∀ n ∈ limit, 1 ≤ n) (key : κ) (value : α) :
    held limit (.put key value :: past)
      = atMost limit (key :: (held limit past).filter fun k => decide (k ≠ key)) :=
  recent_cons hlimit key (touched limit past)

theorem held_get_of_mem (hlimit : ∀ n ∈ limit, 1 ≤ n) (hkey : key ∈ held limit past) :
    held limit (.get key :: past) = key :: (held limit past).filter fun k => decide (k ≠ key) :=
  (congrArg (recent limit) (if_pos hkey)).trans (recent_cons_of_mem hlimit hkey)

theorem held_get_of_not_mem (hkey : key ∉ held limit past) :
    held limit (.get key :: past) = held limit past :=
  congrArg (recent limit) (if_neg hkey)

/-- A key that was touched has a value. -/
theorem isSome_lastPut? (h : key ∈ touched limit past) : (lastPut? key past).isSome = true := by
  induction past with
  | nil => exact absurd h List.not_mem_nil
  | cons request past ih =>
      cases request with
      | clear => exact absurd h List.not_mem_nil
      | put k value =>
          rw [lastPut?]
          split
          · rfl
          · rename_i hk
            exact ih ((List.mem_cons.mp h).resolve_left fun heq => hk heq.symm)
      | get k =>
          rw [touched] at h
          split at h
          · rename_i hk
            rcases List.mem_cons.mp h with rfl | h
            · exact ih (mem_of_mem_recent hk)
            · exact ih h
          · exact ih h

/-! ### The invariant -/

/-- The cache is what its history says: it holds the keys touched last, in this order and with the
values put last, and has counted how often it was asked. -/
structure Follows (limit : Option Nat) (past : List (Request κ α)) (c : Cache κ α) : Prop where
  bound : c.limit = limit
  entries : c.entries = (held limit past).map fun key => (key, lastPut? key past)
  hits : c.hits = asked limit true past
  misses : c.misses = asked limit false past

theorem without_map (key : κ) (keys : List κ) (value : κ → Option α) :
    without key (keys.map fun k => (k, value k))
      = (keys.filter fun k => decide (k ≠ key)).map fun k => (k, value k) := by
  rw [without, List.filter_map]
  rfl

/-- Other keys keep their values. -/
theorem map_filter_congr {f g : κ → Option α} (h : ∀ k, k ≠ key → f k = g k) (keys : List κ) :
    ((keys.filter fun k => decide (k ≠ key)).map fun k => (k, f k))
      = (keys.filter fun k => decide (k ≠ key)).map fun k => (k, g k) := by
  refine List.map_congr_left fun k hk => ?_
  rw [h k (by simpa using (List.mem_filter.mp hk).2)]

omit [DecidableEq κ] in
theorem evict_map (limit : Option Nat) (keys : List κ) (value : κ → Option α) :
    evict limit (keys.map fun k => (k, value k))
      = (atMost limit keys).map fun k => (k, value k) := by
  cases limit with
  | none => rfl
  | some n => exact List.map_take.symm

namespace Follows

/-- The cache answers with the value put last if the key is held, and else with none. -/
theorem peek? (h : Follows limit past c) (key : κ) :
    c.peek? key = if key ∈ held limit past then lastPut? key past else none := by
  have hfind (keys : List κ) :
      keys.find? (fun k => decide (k = key)) = if key ∈ keys then some key else none := by
    induction keys with
    | nil => rfl
    | cons k keys ih =>
        by_cases hk : k = key
        · simp [hk]
        · rw [List.find?_cons_of_neg (by simpa using hk), ih]
          simp [Ne.symm hk]
  rw [Cache.peek?, h.entries, List.find?_map]
  show ((List.find? (fun k => decide (k = key)) _).map _).bind _ = _
  rw [hfind]
  split <;> rfl

/-- A request keeps a cache to its history. -/
theorem perform (hlimit : ∀ n ∈ limit, 1 ≤ n) (h : Follows limit past c) (request : Request κ α) :
    Follows limit (request :: past) (c.perform request).2 := by
  cases request with
  | clear => exact ⟨h.bound, by rw [held_clear]; rfl, rfl, rfl⟩
  | put key value =>
      refine ⟨h.bound, ?_, h.hits, h.misses⟩
      have hothers (k : κ) (hk : k ≠ key) :
          lastPut? k past = lastPut? k (.put key value :: past) := by
        rw [lastPut?, if_neg hk.symm]
      have hentry : (key, some value) = (key, lastPut? key (.put key value :: past)) := by
        rw [lastPut?, if_pos rfl]
      show evict c.limit ((key, some value) :: without key c.entries) = _
      rw [h.bound, h.entries, without_map, map_filter_congr hothers, hentry, held_put hlimit]
      exact evict_map limit (key :: _) fun k => lastPut? k (.put key value :: past)
  | get key =>
      have hpeek := h.peek? key
      by_cases hkey : key ∈ held limit past
      · obtain ⟨value, hvalue⟩ :=
          Option.isSome_iff_exists.mp (isSome_lastPut? (mem_of_mem_recent hkey))
        rw [if_pos hkey, hvalue] at hpeek
        have hafter : (c.perform (.get key)).2
            = { c with entries := (key, some value) :: without key c.entries
                       hits := c.hits + 1 } := by
          simp only [Cache.perform, get, hpeek]
        rw [hafter]
        refine ⟨h.bound, ?_, by simp [asked, hkey, h.hits], by simp [asked, hkey, h.misses]⟩
        show (key, some value) :: without key c.entries = _
        rw [h.entries, without_map, ← hvalue, held_get_of_mem hlimit hkey]
        rfl
      · rw [if_neg hkey] at hpeek
        have hafter : (c.perform (.get key)).2 = { c with misses := c.misses + 1 } := by
          simp only [Cache.perform, get, hpeek]
        rw [hafter]
        refine ⟨h.bound, ?_, by simp [asked, hkey, h.hits], by simp [asked, hkey, h.misses]⟩
        rw [held_get_of_not_mem hkey]
        exact h.entries

theorem after (hlimit : ∀ n ∈ limit, 1 ≤ n) (h : Follows limit past c)
    (requests : List (Request κ α)) :
    Follows limit (requests.reverse ++ past) (c.after requests) := by
  induction requests generalizing past c with
  | nil => exact h
  | cons request requests ih =>
      rw [List.reverse_cons, List.append_assoc]
      exact ih (h.perform hlimit request)

end Follows

/-- A new cache has no history. -/
theorem exists_create {limit : Option Int} (hlimit : ∀ n ∈ limit, 1 ≤ n) :
    ∃ c : Cache κ α, create limit = .ok c ∧ Follows (limit.map Int.toNat) [] c := by
  cases limit with
  | none => exact ⟨_, rfl, rfl, rfl, rfl, rfl⟩
  | some n =>
      have hn : ¬n < 1 := Int.not_lt.mpr (hlimit n rfl)
      exact ⟨_, if_neg hn, rfl, (congrArg (List.map _) List.take_nil).symm, rfl, rfl⟩

/-- **A cache holds what was touched last.**  After any requests its entries are the keys that were
touched last, as many different ones as its limit allows and in this order, each with the value
that was last put for it.  So a key that is held answers with this value and any other with none,
and the limit is never passed.  The counts say how often a key was asked for since the last
clearing that was held then, and how often one that was not. -/
theorem entries_after (limit : Option Int) (hlimit : ∀ n ∈ limit, 1 ≤ n)
    (requests : List (Request κ α)) :
    ∃ c : Cache κ α, create limit = .ok c ∧
      let most := limit.map Int.toNat
      let past := requests.reverse
      let now := c.after requests
      now.entries = (held most past).map (fun key => (key, lastPut? key past))
        ∧ (∀ key ∈ held most past, (lastPut? key past).isSome = true)
        ∧ (∀ key, (now.get key).1 = if key ∈ held most past then lastPut? key past else none)
        ∧ (∀ n ∈ most, now.size ≤ n)
        ∧ now.hits = asked most true past
        ∧ now.misses = asked most false past := by
  obtain ⟨c, hcreate, hempty⟩ := exists_create (κ := κ) (α := α) hlimit
  have hmost : ∀ n ∈ limit.map Int.toNat, 1 ≤ n := by
    intro n hn
    obtain ⟨m, hm, rfl⟩ := Option.map_eq_some_iff.mp hn
    have := hlimit m hm
    omega
  have h := hempty.after hmost requests
  rw [List.append_nil] at h
  refine ⟨c, hcreate, h.entries, fun key hkey => isSome_lastPut? (mem_of_mem_recent hkey), ?_, ?_,
    h.hits, h.misses⟩
  · intro key
    rw [← h.peek? key, get]
    cases (c.after requests).peek? key <;> rfl
  · intro n hn
    rw [size, h.entries, List.length_map, Option.mem_def.mp hn]
    exact length_recent_le

/-- A key that was asked for stays, and the one put before it has to go. -/
theorem entries_after_eviction :
    let requests : List (Request String Nat) :=
      [.put "a" 1, .put "b" 2, .get "a", .put "c" 3, .get "b"]
    (∀ n ∈ (some 2 : Option Int), 1 ≤ n)
      ∧ ∃ c, create (some 2) = .ok c
        ∧ (c.after requests).entries = [("c", some 3), ("a", some 1)]
        ∧ (c.after requests).hits = 1 ∧ (c.after requests).misses = 1 := by
  intro requests
  have hlimit : ∀ n ∈ (some 2 : Option Int), 1 ≤ n := by simp
  obtain ⟨c, hcreate, hentries, -, -, -, hhits, hmisses⟩ := entries_after (some 2) hlimit requests
  exact ⟨hlimit, c, hcreate, hentries.trans (by decide +kernel), hhits.trans (by decide +kernel),
    hmisses.trans (by decide +kernel)⟩

end SourceView.Cache
