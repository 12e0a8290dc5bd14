import Ytdlpdroid.Cache.DiskCache
import Ytdlpdroid.Cache.MemoryCache
import Ytdlpdroid.Concurrent.Interleave
import Ytdlpdroid.Js.QuickJsEngine
import Ytdlpdroid.Model.Types
import Ytdlpdroid.Network.RetryInterceptor

namespace Ytdlpdroid

open Text Collections Concurrent

structure Request where
  url : Str
  headers : List (Str × Str) := []
  body : Option Str := none
  deriving DecidableEq

-- Everything outside the library. The clock, the network, the engine and the disk
-- answer the n-th time they are asked; the network answers each exchange of a call.
-- `decodeFromString` is the JSON library's decoder, or the message of its exception.
structure Env where
  clock : Nat → Int
  httpClient : HttpClient
  network : Nat → Request → Nat → Downstream
  decodeFromString : Str → Except Str RawPlayerResponse
  jsEngine : JsEngine
  -- How many accesses the n-th write to the disk makes before it fails, if it fails.
  diskFault : Nat → Option Nat := fun _ => none
  av1UnsafeOnThisDevice : Bool := false

-- The engine is a function: the same code on the same argument always gives the same text.
def Env.PureEngine (env : Env) (f : Str → Str → Str) : Prop :=
  ∀ n functionCode argument, env.jsEngine.execute n functionCode argument =
    .ok (f functionCode argument)

-- A finished HTTP call.
structure Call where
  request : Request
  outcome : Except Throwable Response

-- The state of one instance of the library, of its directory, and how often the
-- environment has been asked.
structure World where
  readings : Nat := 0
  calls : List Call := []
  evaluations : Nat := 0
  executions : List (Str × Str) := []
  diskWrites : Nat := 0
  extractionCache : MemoryCache Str StreamResult
  memCache : LinkedHashMap Str Str := .empty
  disk : Directory := {}
  sigFunctionCache : Int → Option Str := fun _ => none
  nFunctionCache : Int → Option Str := fun _ => none
  sessionInitialized : Bool := false
  cachedVisitorData : Option Str := none

def World.log (w : World) (call : Call) : World := { w with calls := w.calls ++ [call] }

abbrev Action (α : Type) := Prog World Throwable α

-- The program that reads a field, or computes from the state without changing it.
def reading {α : Type} (f : World → α) : Action α := .atomic fun w => (f w, w)

def writing (f : World → World) : Action Unit := .atomic fun w => ((), f w)

-- `runCatching { ... }.getOrNull()`
def getOrNull {α : Type} (p : Action α) : Action (Option α) := do
  match ← p.attempt with
  | .ok a => return some a
  | .error _ => return none

section

variable (env : Env)

def currentTimeMillis : Action Int :=
  .atomic fun w => (env.clock w.readings, { w with readings := w.readings + 1 })

-- The call that a request becomes in a state.
def callOf (w : World) (request : Request) : Call where
  request := request
  outcome := env.httpClient.execute (env.network w.calls.length request)

-- `httpClient.newCall(request).execute()`
def executeCall (request : Request) : Action Response :=
  .attemptAtomic fun w => ((callOf env w request).outcome, w.log (callOf env w request))

-- `jsEngine.execute(functionCode, argument)`
def executeJs (functionCode argument : Str) : Action Str :=
  .attemptAtomic fun w =>
    let outcome := env.jsEngine.execute w.evaluations functionCode argument
    (outcome, { w with
      evaluations := w.evaluations + 1
      executions := w.executions ++ [(functionCode, argument)] })

-- The limits are tried in turn until one evaluation answers.
def evalWithLimits (eval : Nat → Nat → Str → Option Str) (script : Str) :
    List Nat → Action (Option Str)
  | [] => .pure none
  | limit :: rest => do
      let result ← .atomic fun w =>
        (eval w.evaluations limit script, { w with evaluations := w.evaluations + 1 })
      match result with
      | some text => return some text
      | none => evalWithLimits eval script rest

def executeWithPlayerJs (eval : Nat → Nat → Str → Option Str) (playerJs discoveryScript : Str) :
    Action (Option Str) := do
  let result ← evalWithLimits eval (QuickJsEngine.playerScript playerJs discoveryScript)
    QuickJsEngine.kMemLimits
  return result.filter QuickJsEngine.usable

-- A write to the disk cache. One that fails leaves what its first accesses made.
def diskPut (key value : Str) : Action Unit :=
  .attemptAtomic fun w =>
    let write := DiskCache.put key value (env.clock w.readings)
    match env.diskFault w.diskWrites with
    | none =>
        let (outcome, disk) := write.run w.disk
        (outcome, { w with disk, diskWrites := w.diskWrites + 1 })
    | some count =>
        (.error (Throwable.ioException none),
          { w with disk := write.stopAfter count w.disk, diskWrites := w.diskWrites + 1 })

end

end Ytdlpdroid
