/-
Sessions: engines at work, one request after another.

A session holds what outlives a request: the settings around its work, which new engines take
over, the engines by their names with the fold regions they found last, the cache that they
share, and the counters that are being kept.  Nothing else does.  Engines work among the
settings of the session, and could look at them or change them at any time.
-/
import SourceView.Session.Ambient

namespace SourceView

/-- An engine in a session: whether it uses the cache. -/
structure Member where
  engine : Engine
  cached : Bool
deriving DecidableEq

/-- What outlives a request. -/
structure Session where
  config : Config := {}
  members : List (String × Member) := []
  /-- The fold regions that the engine of each name found last. -/
  folds : List (String × List FoldRegion) := []
  cache : ResultCache := {}
  /-- The counters that are being kept, the innermost first. -/
  counters : List Counters := []
  /-- The number of requests so far. -/
  turn : Nat := 0

/-- What a session can be asked for. -/
inductive Request where
  /-- A new engine; without settings of its own it takes over those of the session. -/
  | create (name : String) (language : Language) (config : Option Config) (cached : Bool)
  | run (name : String) (detail : Detail) (source : String)
  | highlight (name : String) (source : String)
  | highlightLines (name : String) (source : String)
  | setConfig (config : Config)
  | resetConfig
  | clearCache
  | beginCounting
  | showCounters
  | endCounting
  /-- Nothing that a session knows. -/
  | idle

/-- What a session answers. -/
inductive Response where
  | created (engine : Engine)
  /-- A result, the earlier turn that it stems from, and what became of the fold regions. -/
  | ran (outcome : Outcome) (from? : Option Nat) (diff : FoldDiff)
  | text (text : String)
  | lines (lines : List String)
  | config (config : Config)
  | counters (counters : Option Counters)
  | unknownEngine (name : String)
  /-- The text has no digest to look for it by. -/
  | unencodable (failure : Unencodable)
  | done

namespace Session

/-- Replaces or adds the value of a name. -/
def assign (name : String) (value : α) (pairs : List (String × α)) : List (String × α) :=
  (name, value) :: pairs.filter fun p => p.1 != name

/-- The session with the innermost counters changed. -/
def counted (s : Session) (count : Counters → Counters) : Session :=
  match s.counters with
  | [] => s
  | c :: rest => { s with counters := count c :: rest }

/-- The key that a run of an engine asks the cache for.  It asks for none if it does not use the
cache. -/
def keyOf (m : Member) (detail : Detail) (source : String) :
    Except Unencodable (Option ResultKey) :=
  if m.cached then some <$> m.engine.key detail source else return none

/-- The result that the cache has for a key, and the session after asking for it. -/
def earlier? (s : Session) (key? : Option ResultKey) : Option Stamped × Session :=
  match key? with
  | none => (none, s)
  | some key =>
    let (found, cache) := s.cache.get key
    (found, { s with cache })

/-- The session with a new result in the cache. -/
def remember (s : Session) (key? : Option ResultKey) (outcome : Outcome) : Session :=
  match key? with
  | none => s
  | some key => { s with cache := s.cache.put key (some ⟨s.turn, outcome⟩) }

/-- A run of an engine that asks the cache for a key. -/
def runBy (s : Session) (key? : Option ResultKey) (engine : Engine) (detail : Detail)
    (source : String) : Outcome × Option Nat × List LogEntry × Session :=
  let (found, s) := s.earlier? key?
  match found with
  | some stamped =>
    (stamped.outcome, some stamped.turn, [.answered engine.language detail],
      s.counted Counters.addHit)
  | none =>
    let (run, config) := (engine.work detail source).perform s.config
    let s := { s with config }
    (run.outcome, none, run.log, (s.remember key? run.outcome).counted run.count)

/-- The result of a run of an engine, the earlier turn that it stems from, what is told about
it, and the session after it.  An engine that uses the cache fails before all else where the text
has no digest. -/
def run (s : Session) (m : Member) (detail : Detail) (source : String) :
    Except Unencodable (Outcome × Option Nat × List LogEntry × Session) := do
  let key? ← keyOf m detail source
  return s.runBy key? m.engine detail source

/-- The answer to a request for a run of the engine of a name. -/
def answerRun (s : Session) (name : String) (m : Member) (detail : Detail) (source : String) :
    Response × List LogEntry × Session :=
  match s.run m detail source with
  | .error failure => (.unencodable failure, [], s)
  | .ok (outcome, from?, log, s) =>
    let diff := FoldDiff.between ((s.folds.lookup name).getD []) outcome.folds
    (.ran outcome from? diff, log, { s with folds := assign name outcome.folds s.folds })

/-- The answer to a request, what is told about it, and the session after it, in which the
turn has not yet passed. -/
def answer (s : Session) (request : Request) : Response × List LogEntry × Session :=
  match request with
  | .create name language config cached =>
    let engine : Engine := { language, config := config.getD s.config }
    (.created engine, [], { s with members := assign name ⟨engine, cached⟩ s.members })
  | .run name detail source =>
    match s.members.lookup name with
    | none => (.unknownEngine name, [], s)
    | some m => s.answerRun name m detail source
  | .highlight name source =>
    match s.members.lookup name with
    | none => (.unknownEngine name, [], s)
    | some m =>
      let (text, config) := (m.engine.highlight source).perform s.config
      (.text text, [], { s with config })
  | .highlightLines name source =>
    match s.members.lookup name with
    | none => (.unknownEngine name, [], s)
    | some m =>
      let (lines, config) := (m.engine.highlightLines source).perform s.config
      (.lines lines, [], { s with config })
  | .setConfig config => (.config config, [], { s with config })
  | .resetConfig => (.config {}, [], { s with config := {} })
  | .clearCache => (.done, [], { s with cache := s.cache.clear })
  | .beginCounting => (.done, [], { s with counters := {} :: s.counters })
  | .showCounters => (.counters s.counters.head?, [], s)
  | .endCounting => (.counters s.counters.head?, [], { s with counters := s.counters.tail })
  | .idle => (.done, [], s)

/-- The answer to a request, what is told about it, and the session after it. -/
def step (s : Session) (request : Request) : Response × List LogEntry × Session :=
  let (response, log, s) := s.answer request
  (response, log, { s with turn := s.turn + 1 })

end Session

end SourceView
