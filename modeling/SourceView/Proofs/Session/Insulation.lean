/-
What engines give does not depend on the settings around them.

Two things are shown.  In any one session, whatever its cache holds, other settings around a
request for a result change neither the answer nor anything else, and stay where they were.  And
over a row of requests the settings matter just once for an engine, when it is made: from then
on its answers are those that its language, the settings of that moment and the text give.

For the second, the requests that set settings or make engines are followed by themselves; all
others are shown to leave both alone.  An engine that uses the cache may be given what another
one made, so its calls have to be told apart by their digests; nothing is assumed of the rest.
-/
import SourceView.Proofs.Session.Settings
import SourceView.Proofs.Session.Sharing

namespace SourceView

/-! ### Requests for results -/

namespace Request

/-- The name of the engine that the request asks for a result. -/
def asked? : Request → Option String
  | run name _ _ | highlight name _ | highlightLines name _ => some name
  | _ => none

end Request

/-- What the engine gives for a request.  The turn that a result stems from and the changes of the
fold regions are told beside it. -/
def Engine.Gives (e : Engine) : Request → Response → Prop
  | .run _ detail source, response =>
    ∃ from? diff, response = .ran (e.run detail source).outcome from? diff
  | .highlight _ source, response => response = .text (e.language.highlight e.config source)
  | .highlightLines _ source, response =>
    response = .lines (e.language.highlightLines e.config source)
  | _, _ => False

/-! ### Settings and engines -/

/-- The settings around, and the engines by their names. -/
structure Setup where
  config : Config := {}
  members : List (String × Member) := []

namespace Setup

/-- The setup after a request.  An engine is made with settings of its own or with those around. -/
def after (setup : Setup) : Request → Setup
  | .create name language config cached =>
    let engine : Engine := { language, config := config.getD setup.config }
    { setup with members := Session.assign name ⟨engine, cached⟩ setup.members }
  | .setConfig config => { setup with config }
  | .resetConfig => { setup with config := {} }
  | _ => setup

/-- The engine that the request asks for a result, if there is one of the name. -/
def member? (setup : Setup) (request : Request) : Option Member :=
  request.asked?.bind fun name => setup.members.lookup name

end Setup

/-- An engine that was asked for a result, how it was asked, and the answer. -/
structure Answered where
  member : Member
  request : Request
  response : Response

/-- The call of an engine that uses the cache. -/
def Answered.shared? (a : Answered) : Option Call :=
  match a.request with
  | .run _ detail source =>
    if a.member.cached then some ⟨a.member.engine, detail, source⟩ else none
  | _ => none

namespace Session

open Call

/-- The part of a session that says which engine is which. -/
def setup (s : Session) : Setup :=
  { config := s.config, members := s.members }

/-- Every request of a row for a result of an engine that there is, with the answer.  Which engine
that is, is taken from the requests before it alone. -/
def answers (s : Session) (setup : Setup) : List Request → List Answered
  | [] => []
  | request :: requests =>
    let (response, _, next) := s.step request
    ((setup.member? request).map fun m => ⟨m, request, response⟩).toList
      ++ next.answers (setup.after request) requests

variable {calls : List Call} {s : Session}

/-! ### Other settings around -/

@[simp] theorem config_counted (s : Session) (count : Counters → Counters) :
    (s.counted count).config = s.config := by
  unfold counted
  cases s.counters <;> rfl

theorem counted_with (s : Session) (config : Config) (count : Counters → Counters) :
    ({ s with config } : Session).counted count = { s.counted count with config } := by
  cases h : s.counters <;> simp [counted, h]

/-- What a session makes of a run, with the work of the engine told by the engine's own settings. -/
theorem runBy_eq (s : Session) (key? : Option ResultKey) (engine : Engine) (detail : Detail)
    (source : String) :
    s.runBy key? engine detail source =
      let (found, s) := s.earlier? key?
      match found with
      | some stamped =>
        (stamped.outcome, some stamped.turn, [.answered engine.language detail],
          s.counted Counters.addHit)
      | none =>
        let run := engine.run detail source
        (run.outcome, none, run.log, (s.remember key? run.outcome).counted run.count) := by
  unfold runBy
  rcases s.earlier? key? with ⟨_ | stamped, after⟩
  · simp only [Engine.perform_work]
  · rfl

@[simp] theorem config_runBy (s : Session) (key? : Option ResultKey) (engine : Engine)
    (detail : Detail) (source : String) :
    (s.runBy key? engine detail source).2.2.2.config = s.config := by
  cases key? with
  | none => simp only [runBy_eq, earlier?, remember, config_counted]
  | some key =>
      simp only [runBy_eq, earlier?, remember]
      split <;> simp only [config_counted]

theorem runBy_with (s : Session) (config : Config) (key? : Option ResultKey) (engine : Engine)
    (detail : Detail) (source : String) :
    ({ s with config } : Session).runBy key? engine detail source =
      let (outcome, from?, log, after) := s.runBy key? engine detail source
      (outcome, from?, log, { after with config }) := by
  cases key? with
  | none => simp only [runBy_eq, earlier?, remember, ← counted_with]
  | some key =>
      simp only [runBy_eq, earlier?, remember]
      cases (s.cache.get key).1 with
      | some stamped => simp only [← counted_with]
      | none => simp only [← counted_with]

@[simp] theorem config_answerRun (s : Session) (name : String) (m : Member) (detail : Detail)
    (source : String) : (s.answerRun name m detail source).2.2.config = s.config := by
  obtain ⟨key?, hrun, -, -⟩ := exists_runBy s m detail source
  rw [answerRun, hrun]
  exact config_runBy s key? m.engine detail source

theorem answerRun_with (s : Session) (config : Config) (name : String) (m : Member)
    (detail : Detail) (source : String) :
    ({ s with config } : Session).answerRun name m detail source =
      let (response, log, after) := s.answerRun name m detail source
      (response, log, { after with config }) := by
  unfold answerRun run
  cases keyOf m detail source with
  | error failure => rfl
  | ok key? =>
      simp only [bind, Except.bind, pure, Except.pure, runBy_with]

/-- The settings around a request for a result stay, and do not show in anything. -/
theorem step_with (s : Session) (config : Config) (request : Request)
    (hasked : request.asked?.isSome) :
    (s.step request).2.2.config = s.config ∧
      ({ s with config } : Session).step request =
        let (response, log, after) := s.step request
        (response, log, { after with config }) := by
  cases request with
  | run name detail source =>
      cases hlookup : s.members.lookup name with
      | none => simp [step, answer, hlookup]
      | some m => simp [step, answer, hlookup, answerRun_with]
  | highlight name source | highlightLines name source =>
      cases hlookup : s.members.lookup name <;>
        simp [step, answer, hlookup, Engine.perform_highlight, Engine.perform_highlightLines]
  | create | setConfig | resetConfig | clearCache | beginCounting | showCounters | endCounting
  | idle => simp [Request.asked?] at hasked

/-! ### Rows of requests -/

/-- A session knows its settings and engines as the requests alone say them. -/
theorem setup_step (s : Session) (request : Request) :
    (s.step request).2.2.setup = s.setup.after request := by
  cases request with
  | run name detail source =>
      cases hlookup : s.members.lookup name <;>
        simp [step, answer, hlookup, setup, Setup.after]
  | highlight name source | highlightLines name source =>
      cases hlookup : s.members.lookup name <;>
        simp [step, answer, hlookup, setup, Setup.after, Engine.perform_highlight,
          Engine.perform_highlightLines]
  | create | setConfig | resetConfig | clearCache | beginCounting | showCounters | endCounting
  | idle => rfl

theorem alone_eq (c : Call) : c.alone = .ok (c.engine.run c.detail c.source).outcome := by
  have hrun : c.alone = .ok (({} : Session).runBy none c.engine c.detail c.source).1 := rfl
  rw [hrun, runBy_eq]
  rfl

/-- A request for a result is answered by the engine's own settings and leaves only right results
in the cache. -/
theorem step_gives (hapart : Apart calls) (hs : s.cache.Holds (Right calls)) (request : Request)
    (hcalls : ∀ m ∈ s.setup.member? request,
      ∀ c ∈ Answered.shared? ⟨m, request, (s.step request).1⟩, c ∈ calls) :
    (∀ m ∈ s.setup.member? request, m.engine.Gives request (s.step request).1)
      ∧ (s.step request).2.2.cache.Holds (Right calls) := by
  cases request with
  | run name detail source =>
      cases hlookup : s.members.lookup name with
      | none => simpa [step, answer, hlookup, Setup.member?, Request.asked?, setup] using hs
      | some m =>
          have hmember : s.setup.member? (.run name detail source) = some m := hlookup
          obtain ⟨key?, hrun, huncached, hkey⟩ := exists_runBy s m detail source
          -- Only an engine that uses the cache needs its call to be told apart from others.
          have hcall (hsome : key?.isSome) : ⟨m.engine, detail, source⟩ ∈ calls := by
            refine hcalls m hmember _ ?_
            cases hcached : m.cached with
            | true => simp [Answered.shared?, hcached]
            | false => simp [huncached hcached] at hsome
          obtain ⟨halone, hright⟩ := runBy_alone hapart hs hkey hcall
          rw [alone_eq, Except.ok.injEq] at halone
          refine ⟨?_, by simpa [step, answer, answerRun, hlookup, hrun] using hright⟩
          intro m' hm'
          obtain rfl : m = m' := Option.some.inj (hmember.symm.trans hm')
          simp only [Engine.Gives, step, answer, answerRun, hlookup, hrun, halone]
          exact ⟨_, _, rfl⟩
  | highlight name source | highlightLines name source =>
      cases hlookup : s.members.lookup name <;>
        simpa [step, answer, hlookup, Setup.member?, Request.asked?, setup, Engine.Gives,
          Engine.perform_highlight, Engine.perform_highlightLines] using hs
  | clearCache => exact ⟨by simp [Setup.member?, Request.asked?], Cache.Holds.clear⟩
  | create | setConfig | resetConfig | beginCounting | showCounters | endCounting | idle =>
      exact ⟨by simp [Setup.member?, Request.asked?], hs⟩

theorem answers_give (hapart : Apart calls) (requests : List Request)
    (hs : s.cache.Holds (Right calls))
    (hcalls : (s.answers s.setup requests).filterMap Answered.shared? ⊆ calls) :
    ∀ a ∈ s.answers s.setup requests, a.member.engine.Gives a.request a.response := by
  induction requests generalizing s with
  | nil => simp [answers]
  | cons request requests ih =>
      simp only [answers, ← setup_step, List.filterMap_append, List.append_subset] at hcalls ⊢
      obtain ⟨hgives, hright⟩ := step_gives hapart hs request
        fun m hm c hc => hcalls.1 (by simp_all)
      intro a ha
      rcases List.mem_append.mp ha with ha | ha
      · obtain ⟨m, hm, rfl⟩ := Option.map_eq_some_iff.mp (Option.mem_toList.mp ha)
        exact hgives m hm
      · exact ih hright hcalls.2 a ha

/-- **Settings around an engine do not show in what it gives.**  In any session, with other
settings around it a request for a result is answered in the same way and leaves the same
session behind, and the settings around stay as they are.  And in any row of requests every
answer of an engine is the one that its language, its settings when it was made and the text
give.  For that the digests have to tell the texts and the settings of those calls apart that
go through the cache. -/
theorem results_insulated :
    (∀ (s : Session) (config : Config) (request : Request), request.asked?.isSome →
      (s.step request).2.2.config = s.config ∧
        ({ s with config } : Session).step request =
          let (response, log, after) := s.step request
          (response, log, { after with config })) ∧
    ∀ (config : Config) (limit : Option Nat) (requests : List Request),
      let answered := ({ config, cache := { limit } } : Session).answers { config } requests
      Apart (answered.filterMap Answered.shared?) →
        ∀ a ∈ answered, a.member.engine.Gives a.request a.response := by
  refine ⟨step_with, ?_⟩
  intro config limit requests answered hapart
  refine answers_give hapart requests ?_ (List.Subset.refl _)
  simp [Cache.Holds]

/-- An engine is made while bodies are not lexed, another one after that has changed back, and
each is asked for the same text while the settings are those of the other. -/
theorem results_insulated_of_turns :
    let plain : Config := { embeddedLanguages := false }
    let requests : List Request := [.setConfig plain, .create "a" .markup none true, .resetConfig,
      .create "b" .markup none false, .run "a" .rich "<style>a{}</style>", .setConfig plain,
      .run "b" .rich "<style>a{}</style>", .highlight "b" "<script>f()</script>"]
    let answered := ({} : Session).answers {} requests
    (Request.run "a" .rich "<style>a{}</style>").asked?.isSome
      ∧ Apart (answered.filterMap Answered.shared?)
      ∧ answered.map (fun a => a.member.engine)
        = [⟨.markup, plain⟩, ⟨.markup, {}⟩, ⟨.markup, {}⟩]
      ∧ (∀ a ∈ answered, a.member.engine.Gives a.request a.response)
      ∧ (({ members := [("a", ⟨⟨.markup, plain⟩, true⟩)] } : Session).step
          (.run "a" .rich "<style>a{}</style>")).2.2.config = {} := by
  intro plain requests answered
  have hengines : answered.map (fun a => a.member.engine)
      = [⟨.markup, plain⟩, ⟨.markup, {}⟩, ⟨.markup, {}⟩] := by
    simp [answered, requests, answers, Setup.member?, Setup.after, Request.asked?, assign,
      List.lookup_cons]
  have hcalls : answered.filterMap Answered.shared? =
      [⟨⟨.markup, plain⟩, .rich, "<style>a{}</style>"⟩] := by
    simp [answered, requests, answers, Setup.member?, Setup.after, Request.asked?, assign,
      List.lookup_cons, Answered.shared?]
  have hapart : Apart (answered.filterMap Answered.shared?) := by
    rw [hcalls]
    constructor <;> simp
  obtain ⟨hstep, hanswers⟩ := results_insulated
  exact ⟨rfl, hapart, hengines, hanswers {} none requests hapart, (hstep _ {} _ rfl).1⟩

end Session

end SourceView
