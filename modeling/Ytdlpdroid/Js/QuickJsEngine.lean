import Ytdlpdroid.Model.Throwable

namespace Ytdlpdroid

open Text

-- The engine in use. The QuickJS runtime answers the n-th evaluation of a script
-- under a memory limit with a text, or with null; an engine supplied by the caller
-- answers the n-th execution of a function on an argument.
inductive JsEngine
  | quickJs (eval : Nat → Nat → Str → Option Str)
  | custom (simpleName : Str) (execute : Nat → Str → Str → Except Throwable Str)

namespace QuickJsEngine

def wrappedCode (functionCode : Str) : Str := str "var __result__ = " ++ functionCode ++ str ";"

-- The script that `executeNative` builds.
def nativeScript (jsCode argument : Str) : Str :=
  jsCode ++ str "\n__result__(\"" ++ argument ++ str "\");"

-- The script that `executeWithPlayerJsNative` builds.
def playerScript (playerJs discoveryScript : Str) : Str :=
  str "try\x7b\n" ++ playerJs ++ str "\n\x7dcatch(_pjs_err_)\x7b\x7d\n" ++ discoveryScript

def nativeMemLimit : Nat := 8 * 1024 * 1024

def kMemLimits : List Nat := [64 * 1024 * 1024, 32 * 1024 * 1024, 16 * 1024 * 1024]

def returnedNull (argument : Str) : Throwable :=
  YTDLPError.decipherFailed (str "QuickJS returned null for argument: " ++ argument)

-- `execute`, when the runtime answers with `result`.
def executeResult (argument : Str) : Option Str → Except Throwable Str
  | some result => .ok result
  | none => .error (returnedNull argument)

-- `?.takeIf { it.isNotBlank() && it != "undefined" && it != "null" }`
def usable (result : Str) : Bool :=
  !isBlank result && result ≠ str "undefined" && result ≠ str "null"

end QuickJsEngine

-- `execute` of the engine in use, as its n-th execution.
def JsEngine.execute (engine : JsEngine) (n : Nat) (functionCode argument : Str) :
    Except Throwable Str :=
  match engine with
  | .custom _ execute => execute n functionCode argument
  | .quickJs eval => QuickJsEngine.executeResult argument (eval n QuickJsEngine.nativeMemLimit
      (QuickJsEngine.nativeScript (QuickJsEngine.wrappedCode functionCode) argument))

end Ytdlpdroid
