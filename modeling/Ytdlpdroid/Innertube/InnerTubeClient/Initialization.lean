import Ytdlpdroid.Concurrent.Runs
import Ytdlpdroid.Innertube.InnerTubeClient.Session
import Ytdlpdroid.Innertube.InnerTubeClient.Theorems

namespace Ytdlpdroid

open Text Concurrent

namespace InnerTubeClient

variable {calls : Nat → Arguments} {s : Session} {phase next : Phase}
  {monitor monitor' : Option Nat} {call other : Nat}
  {location : Location}

theorem Phase.describes_fresh : Phase.untouched.Describes calls {} where
  initialized := rfl
  visitorData := rfl
  issued := rfl
  answers := rfl
  busy := fun h => h.elim
  allows := fun _ => trivial

-- A call that does not hold the monitor may stay where it is, unless the session's end is undone.
theorem Phase.Allows.frame (h : phase.Allows calls monitor other location)
    (houtside : monitor ≠ some other)
    (hdone : ∀ outcome, phase = .done outcome → next = .done outcome) :
    next.Allows calls monitor' other location := by
  cases location with
  | entering => trivial
  | locking => trivial
  | checking => exact absurd h.1 houtside
  | sending => exact absurd h.1 houtside
  | awaiting => exact absurd h.1 houtside
  | publishing visitorData => exact absurd h.1 houtside
  | finishing outcome => exact absurd h.1 houtside
  | leaving outcome => exact absurd h.1 houtside
  | passed =>
      obtain ⟨outcome, hphase⟩ := h
      exact ⟨outcome, hdone outcome hphase⟩
  | posting request =>
      obtain ⟨outcome, hphase, hrequest⟩ := h
      exact ⟨outcome, hdone outcome hphase, hrequest⟩
  | failed e =>
      obtain ⟨outcome, hphase⟩ := h
      exact ⟨outcome, hdone outcome hphase⟩

-- One call moves on, and the others stay where they are.
theorem Phase.Describes.allows_moveTo (h : phase.Describes calls s)
    (hcall : next.Allows calls monitor call location)
    (hothers : ∀ other, other ≠ call → ∀ location, phase.Allows calls s.monitor other location →
      next.Allows calls monitor other location) (other : Nat) :
    next.Allows calls monitor other ((s.moveTo call location).locations other) := by
  by_cases hother : other = call
  · subst hother
    simpa [Session.moveTo] using hcall
  · simpa [Session.moveTo, hother] using hothers other hother _ (h.allows other)

-- What the holder of the monitor does is no matter to the others.
theorem Phase.frame_of_holder (hholder : s.monitor = some call)
    (hdone : ∀ outcome, phase = .done outcome → next = .done outcome) (other : Nat)
    (hother : other ≠ call) (location : Location)
    (h : phase.Allows calls s.monitor other location) :
    next.Allows calls monitor other location :=
  h.frame (fun he => hother (Option.some.inj (he.symm.trans hholder))) hdone

theorem Phase.exists_done_of_initialized (h : phase.initialized) :
    ∃ outcome, phase = .done outcome := by
  cases phase with
  | done outcome => exact ⟨outcome, rfl⟩
  | untouched => cases h
  | outstanding => cases h
  | answered outcome => cases h
  | published outcome => cases h

-- Between two calls the session is as new, or it is set up.
theorem Phase.eq_untouched_of_not_underway (h : ¬phase.Underway)
    (hinitialized : phase.initialized = false) :
    phase = .untouched := by
  cases phase with
  | untouched => rfl
  | done outcome => cases hinitialized
  | outstanding => exact absurd trivial h
  | answered outcome => exact absurd trivial h
  | published outcome => exact absurd trivial h

theorem Phase.Describes.allowed (h : phase.Describes calls s)
    (hlocation : s.locations call = location) :
    phase.Allows calls s.monitor call location :=
  hlocation ▸ h.allows call

-- Each access of a call is a step of the session's life, or no part of it.
theorem Session.proceed_simulated (h : phase.Describes calls s) (call : Nat) :
    ∃ next, Relation.ReflGen Phase.Step phase next ∧
      next.Describes calls (s.proceed calls call) := by
  unfold Session.proceed
  cases hlocation : s.locations call with
  | entering =>
      refine ⟨phase, .refl, h.initialized, h.visitorData, h.issued, h.answers, h.busy,
        h.allows_moveTo ?_ fun _ _ _ hother => hother⟩
      split_ifs with hinitialized
      · exact Phase.exists_done_of_initialized (h.initialized ▸ hinitialized)
      · trivial
  | locking =>
      cases hmonitor : s.monitor with
      | some holder => exact ⟨phase, .refl, h⟩
      | none =>
          have hidle : ¬phase.Underway := fun hunderway => h.busy hunderway hmonitor
          refine ⟨phase, .refl, h.initialized, h.visitorData, h.issued, h.answers,
            fun _ => Option.some_ne_none call, h.allows_moveTo ⟨rfl, hidle⟩
              fun other _ _ hother => hother.frame ?_ fun _ hdone => hdone⟩
          simp [hmonitor]
  | checking =>
      obtain ⟨hholder, hidle⟩ := h.allowed hlocation
      refine ⟨phase, .refl, h.initialized, h.visitorData, h.issued, h.answers, h.busy,
        h.allows_moveTo ?_ fun _ _ _ hother => hother⟩
      split_ifs with hinitialized
      · exact ⟨hholder, Phase.exists_done_of_initialized (h.initialized ▸ hinitialized)⟩
      · refine ⟨hholder, Phase.eq_untouched_of_not_underway hidle ?_⟩
        rw [← h.initialized]
        exact Bool.of_not_eq_true hinitialized
  | sending =>
      obtain ⟨hholder, rfl⟩ := h.allowed hlocation
      refine ⟨.outstanding, .single .issue, h.initialized,
        h.visitorData, by rw [h.issued]; rfl, h.answers,
        fun _ => ?_, h.allows_moveTo ⟨hholder, rfl⟩ (Phase.frame_of_holder hholder nofun)⟩
      simp [Session.moveTo, hholder]
  | awaiting => exact ⟨phase, .refl, h⟩
  | publishing visitorData =>
      obtain ⟨hholder, outcome, rfl, rfl⟩ := h.allowed hlocation
      refine ⟨.published outcome, .single (.publish outcome), h.initialized, rfl, h.issued,
        h.answers, fun _ => ?_,
        h.allows_moveTo ⟨hholder, outcome, rfl⟩ (Phase.frame_of_holder hholder nofun)⟩
      simp [Session.moveTo, hholder]
  | finishing result =>
      obtain ⟨hholder, outcome, rfl⟩ := h.allowed hlocation
      exact ⟨.done outcome, .single (.finish outcome), rfl, h.visitorData, h.issued, h.answers,
        fun hno => hno.elim, h.allows_moveTo ⟨hholder, outcome, rfl⟩
        (Phase.frame_of_holder hholder nofun)⟩
  | leaving result =>
      obtain ⟨hholder, outcome, rfl⟩ := h.allowed hlocation
      refine ⟨.done outcome, .refl, h.initialized, h.visitorData, h.issued, h.answers, fun hno =>
        hno.elim, h.allows_moveTo ?_ (Phase.frame_of_holder hholder fun _ hdone => hdone)⟩
      cases result with
      | ok done => exact ⟨outcome, rfl⟩
      | error e => exact ⟨outcome, rfl⟩
  | passed =>
      obtain ⟨outcome, rfl⟩ := h.allowed hlocation
      refine ⟨.done outcome, .refl, h.initialized, h.visitorData, h.issued, h.answers, h.busy,
        h.allows_moveTo ⟨outcome, rfl, ?_⟩ fun _ _ _ hother => hother⟩
      rw [h.visitorData]
      rfl
  | posting request => exact ⟨phase, .refl, h⟩
  | failed e => exact ⟨phase, .refl, h⟩

theorem Session.answer_simulated (h : phase.Describes calls s) (call : Nat)
    (outcome : Except Throwable Response) :
    ∃ next, Relation.ReflGen Phase.Step phase next ∧
      next.Describes calls (s.answer call outcome) := by
  unfold Session.answer
  split
  · rename_i hlocation
    obtain ⟨hholder, rfl⟩ := h.allowed hlocation
    have hanswers : s.answers ++ [outcome] = [outcome] := by rw [h.answers]; rfl
    have hbusy : s.monitor ≠ none := by simp [hholder]
    cases hpage : outcome.bind pageOf with
    | ok html =>
        have hfound : foundIn outcome = visitorDataIn html := by simp only [foundIn, hpage]
        refine ⟨.answered outcome, .single (.arrive outcome), h.initialized, h.visitorData,
          h.issued, hanswers,
          fun _ => hbusy, h.allows_moveTo ?_ (Phase.frame_of_holder hholder nofun)⟩
        simp only [received, hpage]
        exact ⟨hholder, outcome, rfl, hfound.symm⟩
    | error e =>
        have hfound : foundIn outcome = none := by simp only [foundIn, hpage]
        refine ⟨.published outcome, .single (.miss outcome hfound), h.initialized,
          h.visitorData.trans hfound.symm, h.issued, hanswers,
          fun _ => hbusy, h.allows_moveTo ?_ (Phase.frame_of_holder hholder nofun)⟩
        simp only [received, hpage]
        exact ⟨hholder, outcome, rfl⟩
  · exact ⟨phase, .refl, h⟩

theorem Session.after_simulated (phase : Phase) (s : Session) (event : Event)
    (h : phase.Describes calls s) :
    ∃ next, Relation.ReflGen Phase.Step phase next ∧
      next.Describes calls (s.after calls event) := by
  cases event with
  | proceed call => exact Session.proceed_simulated h call
  | answer call outcome => exact Session.answer_simulated h call outcome

-- In every interleaving the session lives its life once, from its start on.
theorem Session.run_simulated (calls : Nat → Arguments) (events : List Event) :
    ∃ phase, Relation.ReflTransGen Phase.Step .untouched phase ∧ phase.Describes calls
      (Session.run calls events) :=
  foldl_simulated Session.after_simulated Phase.describes_fresh events

-- The life ends when the session is set up.
theorem Phase.eq_done_of_reachable {outcome : Except Throwable Response}
    (h : Relation.ReflTransGen Phase.Step (.done outcome) phase) : phase = .done outcome := by
  induction h with
  | refl => rfl
  | tail _ hstep ih =>
      subst ih
      cases hstep

-- The home request of the call is outstanding, or what it found is not yet written.
def InFlight : Location → Prop
  | .awaiting | .publishing _ => True
  | _ => False

-- `ensureSession` has returned.
def HasPassed : Location → Prop
  | .passed | .posting _ => True
  | _ => False

-- The one home request has this answer, and all player requests are built with what it has.
structure Session.SetUp (calls : Nat → Arguments) (outcome : Except Throwable Response)
    (s : Session) : Prop where
  issued : s.issued = 1
  answers : s.answers = [outcome]
  visitorData : s.cachedVisitorData = foundIn outcome
  posting : ∀ call request, s.locations call = .posting request →
    request = (calls call).request (foundIn outcome)

-- Of the state after some events, and for the last part of those that are still to come.
structure Session.InitializedOnce (calls : Nat → Arguments) (events : List Event) : Prop where
  once : (Session.run calls events).issued ≤ 1
  quiet : (Session.run calls events).sessionInitialized →
    ∀ call, ¬InFlight ((Session.run calls events).locations call)
  final : ∀ call, HasPassed ((Session.run calls events).locations call) →
    ∃ outcome, ∀ more, (Session.run calls (events ++ more)).SetUp calls outcome

theorem Phase.issued_le_one (phase : Phase) : phase.issued ≤ 1 := by
  cases phase with
  | untouched => exact Nat.zero_le 1
  | _ => exact Nat.le_refl 1

theorem Phase.Allows.not_inFlight {outcome : Except Throwable Response}
    (h : (Phase.done outcome).Allows calls monitor call location) : ¬InFlight location := by
  cases location with
  | awaiting => exact absurd h.2 nofun
  | publishing visitorData =>
      obtain ⟨-, other, hphase, -⟩ := h
      cases hphase
  | _ => exact id

theorem Phase.Allows.done_of_hasPassed (h : phase.Allows calls monitor call location)
    (hpassed : HasPassed location) :
    ∃ outcome, phase = .done outcome := by
  cases location with
  | passed => exact h
  | posting request =>
      obtain ⟨outcome, hphase, -⟩ := h
      exact ⟨outcome, hphase⟩
  | _ => exact hpassed.elim

theorem Phase.Describes.setUp {outcome : Except Throwable Response}
    (h : (Phase.done outcome).Describes calls s) :
    s.SetUp calls outcome where
  issued := h.issued
  answers := h.answers
  visitorData := h.visitorData
  posting := by
    intro call request hlocation
    obtain ⟨other, hphase, hrequest⟩ := h.allowed hlocation
    cases hphase
    exact hrequest

-- Once the session is set up it stays so, whatever happens after.
theorem Session.run_setUp {events : List Event} {outcome : Except Throwable Response}
    (h : (Phase.done outcome).Describes calls (Session.run calls events)) (more : List Event) :
    (Session.run calls (events ++ more)).SetUp calls outcome := by
  obtain ⟨last, hreach, hlast⟩ := foldl_simulated Session.after_simulated h more
  obtain rfl := Phase.eq_done_of_reachable hreach
  rw [Session.run_append]
  exact hlast.setUp

theorem Session.setUp_of_hasPassed {events : List Event}
    (h : HasPassed ((Session.run calls events).locations call)) :
    ∃ outcome, ∀ more, (Session.run calls (events ++ more)).SetUp calls outcome := by
  obtain ⟨phase, -, hphase⟩ := Session.run_simulated calls events
  obtain ⟨outcome, rfl⟩ := (hphase.allows call).done_of_hasPassed h
  exact ⟨outcome, Session.run_setUp hphase⟩

-- For any number of calls and every interleaving.
theorem Session.run_initializedOnce (calls : Nat → Arguments) (events : List Event) :
    Session.InitializedOnce calls events := by
  obtain ⟨phase, -, hphase⟩ := Session.run_simulated calls events
  refine ⟨?_, fun hinitialized call => ?_, fun call hpassed => Session.setUp_of_hasPassed hpassed⟩
  · rw [hphase.issued]
    exact phase.issued_le_one
  · obtain ⟨outcome, rfl⟩ := Phase.exists_done_of_initialized (hphase.initialized ▸ hinitialized)
    exact (hphase.allows call).not_inFlight

-- The second call waits at the monitor while the home request of the first is outstanding.
example :
    (Session.run (fun _ => { videoId := str "dQw4w9WgXcQ" })
      ([0, 1, 0, 1, 0, 0].map Event.proceed ++
    .answer 0 (.ok { code := 200, body := some (.text (str "\"VISITOR_DATA\":\"abc\"")) }) ::
      [1, 0, 0, 0, 1, 1, 1, 1].map Event.proceed)).locations 1 =
    .posting (playerRequest .WEB (str "dQw4w9WgXcQ") (some (str "abc")) none none) := by
  rfl

section

variable {env : Env} {w : World}

-- What a client that is used by one call at a time sends as visitor data.
theorem visitorDataFor_run_new (hio : env.IoFailures) (hinitialized : w.sessionInitialized = false)
    (hvisitor : w.cachedVisitorData = none) :
    ((visitorDataFor env .WEB).run w).1 = .ok (foundIn (callOf env w homeRequest).outcome) := by
  rw [visitorDataFor, Prog.run_bind_ok (ensureSession_run hio w), hinitialized]
  simp only [reading, Prog.run_atomic, Bool.false_eq_true, ite_false, foundIn]
  cases hpage : homePage env w with
  | ok html => rw [show (callOf env w homeRequest).outcome.bind pageOf = .ok html from hpage]
  | error e =>
      rw [show (callOf env w homeRequest).outcome.bind pageOf = .error e from hpage]
      exact congrArg Except.ok hvisitor

-- In every interleaving a call posts what it posts when it has the client for itself.
theorem Session.run_posts_alike (hio : env.IoFailures) (hinitialized : w.sessionInitialized = false)
    (hvisitor : w.cachedVisitorData = none) {events : List Event} {request : Request}
    (hanswers : (Session.run calls events).answers = [(callOf env w homeRequest).outcome])
    (hposting : (Session.run calls events).locations call = .posting request) :
    ∃ visitorData, ((visitorDataFor env .WEB).run w).1 = .ok visitorData ∧
      request = (calls call).request visitorData := by
  have hpassed : HasPassed ((Session.run calls events).locations call) := by rw [hposting]; trivial
  obtain ⟨outcome, hsetUp⟩ := Session.setUp_of_hasPassed hpassed
  have hfinal := hsetUp []
  rw [List.append_nil] at hfinal
  obtain rfl := List.singleton_inj.mp (hfinal.answers.symm.trans hanswers)
  exact ⟨_, visitorDataFor_run_new hio hinitialized hvisitor, hfinal.posting call request hposting⟩

end

end InnerTubeClient

end Ytdlpdroid
