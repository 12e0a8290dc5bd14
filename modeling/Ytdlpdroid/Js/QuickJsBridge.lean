import Ytdlpdroid.Js.QuickJsEngine
import Ytdlpdroid.Resources.Heap

namespace Ytdlpdroid

open Text Concurrent Resources

-- The native side of the engine, with what it holds of the runtime and of the virtual machine.
namespace QuickJsBridge

inductive Kind
  | runtime
  | context (rt : Nat)
  | value (ctx : Nat)
  | cString (ctx : Nat)
  | utfChars
  | localRef (text : Str)
  deriving DecidableEq

-- Contexts belong to runtimes, and values and C strings to contexts.
def parent : Kind → Option Nat
  | .context rt => some rt
  | .value ctx => some ctx
  | .cString ctx => some ctx
  | _ => none

abbrev Code (α : Type) := Manages parent α

-- How QuickJS and the virtual machine answer in the n-th evaluation. It gives a value or
-- throws one; `none` is a value that does not convert to a C string. The virtual machine
-- makes a string of its own from a C string. The two arguments of a native call are asked
-- for before its first evaluation.
structure Native where
  newRuntime : Nat → Bool
  newContext : Nat → Bool
  eval : Nat → Nat → Nat → Str → Except (Option Str) (Option Str)
  newStringUTF : Nat → Str → Option Str
  getStringUTFChars : Nat → Fin 2 → Bool

-- A value under its handle, with the text it converts to. The exception marker holds nothing; the
-- value that was thrown is still with the context.
inductive JSValue
  | exception (thrown : Option Str)
  | held (handle : Nat) (text : Option Str)

-- A text under the handle of its memory, or of its reference.
structure NativeString where
  handle : Nat
  content : Str

section

variable (native : Native) (n : Nat)

def JS_NewRuntime : Code (Option Nat) :=
  if native.newRuntime n then do
    let rt ← acquire .runtime
    return some rt
  else return none

-- The limits that are set are those under which the runtime evaluates.
def JS_SetMemoryLimit (rt : Nat) : Code Unit := use rt

def JS_SetMaxStackSize (rt : Nat) : Code Unit := use rt

def JS_NewContext (rt : Nat) : Code (Option Nat) :=
  if native.newContext n then do
    let ctx ← acquire (.context rt)
    return some ctx
  else return none

def JS_Eval (ctx : Nat) (script : Str) (memoryLimitBytes stackLimitBytes : Nat) : Code JSValue :=
  match native.eval n memoryLimitBytes stackLimitBytes script with
  | .error thrown => do
      use ctx
      return .exception thrown
  | .ok text => do
      let handle ← acquire (.value ctx)
      return .held handle text

def JS_GetException (ctx : Nat) (thrown : Option Str) : Code JSValue := do
  let handle ← acquire (.value ctx)
  return .held handle thrown

def JS_ToCString (ctx : Nat) : JSValue → Code (Option NativeString)
  | .exception _ => return none
  | .held handle text => do
      use handle
      match text with
      | none => return none
      | some content =>
          let memory ← acquire (.cString ctx)
          return some ⟨memory, content⟩

def JS_FreeCString (ctx : Nat) : Option NativeString → Code Unit
  | none => return ()
  | some text => do
      use ctx
      release text.handle

def JS_FreeValue (ctx : Nat) : JSValue → Code Unit
  | .exception _ => return ()
  | .held handle _ => do
      use ctx
      release handle

def NewStringUTF (content : Str) : Code (Option NativeString) :=
  match native.newStringUTF n content with
  | none => return none
  | some text => do
      let reference ← acquire (.localRef text)
      return some ⟨reference, text⟩

def GetStringUTFChars (position : Fin 2) (content : Str) : Code (Option NativeString) :=
  if native.getStringUTFChars n position then do
    let chars ← acquire .utfChars
    return some ⟨chars, content⟩
  else return none

def ReleaseStringUTFChars (text : NativeString) : Code Unit := release text.handle

-- The branch of `evalAndReturn` after `JS_Eval`.
def resultOf (ctx : Nat) : JSValue → Code (Option NativeString)
  | .exception thrown => do
      let exc ← JS_GetException ctx thrown
      let msg ← JS_ToCString ctx exc
      JS_FreeCString ctx msg
      JS_FreeValue ctx exc
      return none
  | val => do
      match ← JS_ToCString ctx val with
      | none => return none
      | some text =>
          let result ← NewStringUTF native n text.content
          JS_FreeCString ctx (some text)
          return result

def evalAndReturn (script : Option Str) (memoryLimitBytes stackLimitBytes : Nat) :
    Code (Option NativeString) :=
  match script with
  | none => return none
  | some script => do
      match ← JS_NewRuntime native n with
      | none => return none
      | some rt =>
          JS_SetMemoryLimit rt
          JS_SetMaxStackSize rt
          match ← JS_NewContext native n rt with
          | none =>
              release rt
              return none
          | some ctx =>
              let val ← JS_Eval native n ctx script memoryLimitBytes stackLimitBytes
              let result ← resultOf native n ctx val
              JS_FreeValue ctx val
              release ctx
              release rt
              return result

-- `if (text) env->ReleaseStringUTFChars(string, text)`
def releaseIfHeld : Option NativeString → Code Unit
  | none => return ()
  | some text => ReleaseStringUTFChars text

def nativeStackLimit : Nat := 512 * 1024

def kStackLimit : Nat := 2 * 1024 * 1024

def executeNative (jsCode argument : Str) : Code (Option NativeString) := do
  let code ← GetStringUTFChars native n 0 jsCode
  let arg ← GetStringUTFChars native n 1 argument
  match code, arg with
  | some code, some arg =>
      let wrapped := QuickJsEngine.nativeScript code.content arg.content
      let result ←
        evalAndReturn native n (some wrapped) QuickJsEngine.nativeMemLimit nativeStackLimit
      ReleaseStringUTFChars code
      ReleaseStringUTFChars arg
      return result
  | code, arg =>
      releaseIfHeld code
      releaseIfHeld arg
      return none

end

-- The loop over the memory limits. Each round is one evaluation.
def tryLimits (native : Native) (full : Str) : Nat → List Nat → Code (Option NativeString)
  | _, [] => return none
  | n, memLimit :: rest => do
      match ← evalAndReturn native n (some full) memLimit kStackLimit with
      | some result => return some result
      | none => tryLimits native full (n + 1) rest

def executeWithPlayerJsNative (native : Native) (n : Nat) (playerJs discoveryScript : Str) :
    Code (Option NativeString) := do
  let pjs ← GetStringUTFChars native n 0 playerJs
  let disc ← GetStringUTFChars native n 1 discoveryScript
  match pjs, disc with
  | some pjs, some disc =>
      let full := QuickJsEngine.playerScript pjs.content disc.content
      ReleaseStringUTFChars pjs
      ReleaseStringUTFChars disc
      tryLimits native full n QuickJsEngine.kMemLimits
  | pjs, disc =>
      releaseIfHeld pjs
      releaseIfHeld disc
      return none

-- The virtual machine gives the memory of both arguments of a call.
def hasArguments (native : Native) (n : Nat) : Bool :=
  native.getStringUTFChars n 0 && native.getStringUTFChars n 1

end QuickJsBridge

end Ytdlpdroid
