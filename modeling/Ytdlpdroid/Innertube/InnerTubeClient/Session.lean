import Mathlib.Logic.Function.Basic
import Ytdlpdroid.Innertube.InnerTubeClient

namespace Ytdlpdroid

open Text

namespace InnerTubeClient

-- The arguments of a `fetchPlayerResponse` call for the WEB client.
structure Arguments where
  videoId : Str
  regionCode : Option Str := none
  signatureTimestamp : Option Int := none

def Arguments.request (arguments : Arguments) (visitorData : Option Str) : Request :=
  playerRequest .WEB arguments.videoId visitorData arguments.regionCode arguments.signatureTimestamp

-- What a call does next. An outcome is carried from the `try` block through the `finally` block
-- and out of the monitor; only an Error is still an error there.
inductive Location
  -- `if (sessionInitialized) return`
  | entering
  -- `synchronized(this)`
  | locking
  -- `if (sessionInitialized) return`, again
  | checking
  -- `httpClient.newCall(...)` is executed, and its answer is waited for.
  | sending
  | awaiting
  -- `cachedVisitorData = ...`
  | publishing (visitorData : Option Str)
  -- `finally { sessionInitialized = true }`
  | finishing (outcome : Except Throwable Unit)
  -- The end of `synchronized`.
  | leaving (outcome : Except Throwable Unit)
  -- `if (config is InnerTubeClientConfig.WEB) cachedVisitorData else null`
  | passed
  -- The player request is built.
  | posting (request : Request)
  | failed (e : Throwable)

-- One client with any number of calls, each at its location, and a record of the home requests:
-- how many were issued, and how they were answered.
structure Session where
  sessionInitialized : Bool := false
  cachedVisitorData : Option Str := none
  monitor : Option Nat := none
  locations : Nat → Location := fun _ => .entering
  issued : Nat := 0
  answers : List (Except Throwable Response) := []

-- A call makes its next access, or the home request of a call is answered.
inductive Event
  | proceed (call : Nat)
  | answer (call : Nat) (outcome : Except Throwable Response)

-- The way on from `execute().use { it.body?.string() ?: "" }`.
def received (outcome : Except Throwable Response) : Location :=
  match outcome.bind pageOf with
  | .ok html => .publishing (visitorDataIn html)
  | .error e => .finishing (if e.isException then .ok () else .error e)

-- The way on from the monitor.
def returned : Except Throwable Unit → Location
  | .ok () => .passed
  | .error e => .failed e

namespace Session

def moveTo (s : Session) (call : Nat) (location : Location) : Session :=
  { s with locations := Function.update s.locations call location }

-- One access of a call. A call waits at the monitor while another one holds it.
def proceed (calls : Nat → Arguments) (s : Session) (call : Nat) : Session :=
  match s.locations call with
  | .entering => s.moveTo call (if s.sessionInitialized then .passed else .locking)
  | .locking =>
      match s.monitor with
      | none => { s.moveTo call .checking with monitor := some call }
      | some _ => s
  | .checking => s.moveTo call (if s.sessionInitialized then .leaving (.ok ()) else .sending)
  | .sending => { s.moveTo call .awaiting with issued := s.issued + 1 }
  | .publishing visitorData =>
      { s.moveTo call (.finishing (.ok ())) with cachedVisitorData := visitorData }
  | .finishing outcome => { s.moveTo call (.leaving outcome) with sessionInitialized := true }
  | .leaving outcome => { s.moveTo call (returned outcome) with monitor := none }
  | .passed => s.moveTo call (.posting ((calls call).request s.cachedVisitorData))
  | .awaiting | .posting _ | .failed _ => s

def answer (s : Session) (call : Nat) (outcome : Except Throwable Response) : Session :=
  match s.locations call with
  | .awaiting => { s.moveTo call (received outcome) with answers := s.answers ++ [outcome] }
  | _ => s

-- An event that cannot happen in a state changes nothing.
def after (calls : Nat → Arguments) (s : Session) : Event → Session
  | .proceed call => s.proceed calls call
  | .answer call outcome => s.answer call outcome

def run (calls : Nat → Arguments) (events : List Event) : Session := events.foldl (after calls) {}

theorem run_append (calls : Nat → Arguments) (events more : List Event) :
    run calls (events ++ more) = more.foldl (after calls) (run calls events) :=
  List.foldl_append

end Session

-- What the answer to the home request has, or null if it failed or carried none.
def foundIn (outcome : Except Throwable Response) : Option Str :=
  match outcome.bind pageOf with
  | .ok html => visitorDataIn html
  | .error _ => none

-- The life of a session, whichever call sets it up.
inductive Phase
  | untouched
  | outstanding
  | answered (outcome : Except Throwable Response)
  | published (outcome : Except Throwable Response)
  | done (outcome : Except Throwable Response)

namespace Phase

inductive Step : Phase → Phase → Prop
  | issue : Step .untouched .outstanding
  | arrive (outcome : Except Throwable Response) : Step .outstanding (.answered outcome)
  | publish (outcome : Except Throwable Response) : Step (.answered outcome) (.published outcome)
  -- Nothing needs to be published where nothing is found.
  | miss (outcome : Except Throwable Response) (h : foundIn outcome = none) :
      Step .outstanding (.published outcome)
  | finish (outcome : Except Throwable Response) : Step (.published outcome) (.done outcome)

def initialized : Phase → Bool
  | .done _ => true
  | _ => false

def visitorData : Phase → Option Str
  | .published outcome | .done outcome => foundIn outcome
  | _ => none

def issued : Phase → Nat
  | .untouched => 0
  | _ => 1

def answers : Phase → List (Except Throwable Response)
  | .answered outcome | .published outcome | .done outcome => [outcome]
  | _ => []

-- Some call is at work on the session.
def Underway : Phase → Prop
  | .untouched | .done _ => False
  | _ => True

-- Where a call can be in a phase. From the check to the end of the monitor it holds the monitor.
def Allows (phase : Phase) (calls : Nat → Arguments) (monitor : Option Nat) (call : Nat) :
    Location → Prop
  | .entering | .locking => True
  | .checking => monitor = some call ∧ ¬phase.Underway
  | .sending => monitor = some call ∧ phase = .untouched
  | .awaiting => monitor = some call ∧ phase = .outstanding
  | .publishing visitorData =>
      monitor = some call ∧ ∃ outcome, phase = .answered outcome ∧ visitorData = foundIn outcome
  | .finishing _ => monitor = some call ∧ ∃ outcome, phase = .published outcome
  | .leaving _ => monitor = some call ∧ ∃ outcome, phase = .done outcome
  | .passed | .failed _ => ∃ outcome, phase = .done outcome
  | .posting request =>
      ∃ outcome, phase = .done outcome ∧ request = (calls call).request (foundIn outcome)

structure Describes (phase : Phase) (calls : Nat → Arguments) (s : Session) : Prop where
  initialized : s.sessionInitialized = phase.initialized
  visitorData : s.cachedVisitorData = phase.visitorData
  issued : s.issued = phase.issued
  answers : s.answers = phase.answers
  busy : phase.Underway → s.monitor ≠ none
  allows : ∀ call, phase.Allows calls s.monitor call (s.locations call)

end Phase

end InnerTubeClient

end Ytdlpdroid
