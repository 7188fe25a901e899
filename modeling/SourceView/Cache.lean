/-
A bounded cache.

The cache holds at most as many entries as its limit allows, and gives up those first that
were not touched for longest.  An entry is touched when it is put, and when it is asked for
and answers.  An entry may hold no value; it takes its place, but never answers.
-/

namespace SourceView

/-- The entries of a cache, the one touched last first, and how often it was asked. -/
structure Cache (κ α : Type) where
  limit : Option Nat := none
  entries : List (κ × Option α) := []
  hits : Nat := 0
  misses : Nat := 0

namespace Cache

/-- A limit that no cache can have. -/
structure BadLimit where
  limit : Int
deriving DecidableEq

/-- The wording of the failure. -/
def BadLimit.message (e : BadLimit) : String :=
  s!"maxsize must be positive, got {e.limit}"

/-- An empty cache with a limit, if one is given. -/
def create (limit : Option Int) : Except BadLimit (Cache κ α) :=
  match limit with
  | none => .ok {}
  | some limit => if limit < 1 then .error ⟨limit⟩ else .ok { limit := some limit.toNat }

variable [DecidableEq κ]

/-- The number of entries. -/
def size (c : Cache κ α) : Nat :=
  c.entries.length

/-- The entries without that of a key. -/
def without (key : κ) (entries : List (κ × Option α)) : List (κ × Option α) :=
  entries.filter fun e => decide (e.1 ≠ key)

/-- The value that is held for a key. -/
def peek? (c : Cache κ α) (key : κ) : Option α :=
  (c.entries.find? fun e => decide (e.1 = key)).bind Prod.snd

/-- Asks for the value of a key. -/
def get (c : Cache κ α) (key : κ) : Option α × Cache κ α :=
  match c.peek? key with
  | none => (none, { c with misses := c.misses + 1 })
  | some value =>
    (some value, { c with entries := (key, some value) :: without key c.entries, hits := c.hits + 1 })

/-- The entries that a limit leaves. -/
def evict (limit : Option Nat) (entries : List (κ × Option α)) : List (κ × Option α) :=
  match limit with
  | none => entries
  | some n => entries.take n

/-- Puts a value for a key. -/
def put (c : Cache κ α) (key : κ) (value : Option α) : Cache κ α :=
  { c with entries := evict c.limit ((key, value) :: without key c.entries) }

/-- The cache with nothing in it, as if it had never been asked. -/
def clear (c : Cache κ α) : Cache κ α :=
  { limit := c.limit }

end Cache

end SourceView
