import Ytdlpdroid.Decipher.DecipherService

namespace Ytdlpdroid

open Text Collections Concurrent

-- The engine answers alike at any time.
def Env.SteadyEngine (env : Env) : Prop :=
  match env.jsEngine with
  | .quickJs eval => ∀ n, eval n = eval 0
  | .custom _ execute => ∀ n, execute n = execute 0

-- An invariant that says nothing about the engine's work.
def EngineFrame (I : World → Prop) : Prop :=
  ∀ w evaluations executions, I w → I { w with evaluations, executions }

section

variable {env : Env}

theorem Env.SteadyEngine.execute (h : env.SteadyEngine) (n : Nat) (functionCode argument : Str) :
    env.jsEngine.execute n functionCode argument =
      env.jsEngine.execute 0 functionCode argument := by
  unfold SteadyEngine at h
  unfold JsEngine.execute
  cases hengine : env.jsEngine with
  | quickJs eval =>
      rw [hengine] at h
      simp only [h n]
  | custom simpleName execute =>
      rw [hengine] at h
      simp only [h n]

theorem executeJs_determined (h : env.SteadyEngine) (functionCode argument : Str) :
    Prog.Determined EngineFrame (executeJs env functionCode argument) :=
  ⟨env.jsEngine.execute 0 functionCode argument, fun _ hI =>
    Prog.Yields.attemptAtomic fun w hw =>
      ⟨h.execute w.evaluations functionCode argument, hI w _ _ hw⟩⟩

theorem evalWithLimits_determined {eval : Nat → Nat → Str → Option Str} (h : ∀ n, eval n = eval 0)
    (script : Str) (limits : List Nat) :
    Prog.Determined EngineFrame (evalWithLimits eval script limits) := by
  induction limits with
  | nil => exact .pure none
  | cons limit rest ih =>
      refine Prog.Determined.bind ⟨.ok (eval 0 limit script), fun I hI => ?_⟩ fun result => ?_
      · exact Prog.Yields.atomic fun w hw => ⟨by rw [h], hI w _ w.executions hw⟩
      · cases result with
        | some text => exact .pure (some text)
        | none => exact ih

namespace NParamDecipherer

theorem extractNFunction_determined (h : env.SteadyEngine) (js : Str) :
    Prog.Determined EngineFrame (extractNFunction env js) := by
  unfold extractNFunction
  split
  · exact .pure _
  · rename_i body _
    refine Prog.Determined.bind ?_ fun isPlausible => ?_
    · refine Prog.Determined.tryCatch ?_ fun e => ?_
      · exact (executeJs_determined h body testInput1).bind fun r1 =>
          (executeJs_determined h body testInput2).bind fun r2 => .pure _
      · split_ifs
        · exact .pure false
        · exact .throw e
    · cases isPlausible
      · exact .pure _
      · exact .pure _

theorem transformViaFullPlayerJs_determined (h : env.SteadyEngine) (playerJs nValue : Str) :
    Prog.Determined EngineFrame (transformViaFullPlayerJs env playerJs nValue) := by
  unfold transformViaFullPlayerJs
  unfold Env.SteadyEngine at h
  split
  · exact .throw _
  · rename_i eval hengine
    rw [hengine] at h
    exact ((evalWithLimits_determined h _ _).bind fun _ => .pure _).bind fun _ => .pure _

end NParamDecipherer

namespace DecipherService

-- The state in which formats are deciphered: the player JS is in memory, and the functions
-- cached under its hash code are none, or those with which it is deciphered.
structure Ready (env : Env) (url js : Str) (sigCode nCode : Except Throwable Str) (w : World) :
    Prop where
  memory : w.memCache.lookup url = some js
  sigCached : ∀ code, w.sigFunctionCache (hashCode js) = some code → sigCode = .ok code
  sigMissing : w.sigFunctionCache (hashCode js) = none →
    sigCode = SignatureDecipherer.extractSigFunctionCode js
  nCached : ∀ code, w.nFunctionCache (hashCode js) = some code → nCode = .ok code
  nMissing : w.nFunctionCache (hashCode js) = none → ∀ I, EngineFrame I →
    Prog.Yields I nCode (NParamDecipherer.extractNFunction env js)

variable {url js : Str} {sigCode nCode : Except Throwable Str}

theorem ready_engineFrame : EngineFrame (Ready env url js sigCode nCode) :=
  fun _ _ _ h => ⟨h.memory, h.sigCached, h.sigMissing, h.nCached, h.nMissing⟩

-- The functions with which a player JS is deciphered in a state: those cached under its hash code,
-- or else those extracted from it.
structure Codes (env : Env) (js : Str) (sigCode nCode : Except Throwable Str) (w : World) :
    Prop where
  sigCached : ∀ code, w.sigFunctionCache (hashCode js) = some code → sigCode = .ok code
  sigMissing : w.sigFunctionCache (hashCode js) = none →
    sigCode = SignatureDecipherer.extractSigFunctionCode js
  nCached : ∀ code, w.nFunctionCache (hashCode js) = some code → nCode = .ok code
  nMissing : w.nFunctionCache (hashCode js) = none → ∀ I, EngineFrame I →
    Prog.Yields I nCode (NParamDecipherer.extractNFunction env js)

theorem exists_codes (h : env.SteadyEngine) (js : Str) (w : World) :
    ∃ sigCode nCode, Codes env js sigCode nCode w := by
  obtain ⟨nOutcome, hn⟩ := NParamDecipherer.extractNFunction_determined h js
  let sigCode : Except Throwable Str :=
    (w.sigFunctionCache (hashCode js)).elim (SignatureDecipherer.extractSigFunctionCode js) .ok
  let nCode : Except Throwable Str := (w.nFunctionCache (hashCode js)).elim nOutcome .ok
  refine ⟨sigCode, nCode, fun code hc => ?_, fun hc => ?_, fun code hc => ?_, fun hc => ?_⟩
  · simp only [sigCode, hc, Option.elim_some]
  · simp only [sigCode, hc, Option.elim_none]
  · simp only [nCode, hc, Option.elim_some]
  · simp only [nCode, hc, Option.elim_none]
    exact hn

-- Caching a function leaves it the one to use.
theorem Codes.sigStore {w : World} {code : Str} (h : Codes env js sigCode nCode w)
    (hcode : sigCode = .ok code) :
    Codes env js sigCode nCode
      { w with sigFunctionCache :=
        Function.update w.sigFunctionCache (hashCode js) (some code) } := by
  refine ⟨fun other ho => ?_, fun ho => ?_, h.nCached, h.nMissing⟩
  · obtain rfl : code = other := by simpa using ho
    exact hcode
  · simp at ho

theorem Codes.nStore {w : World} {code : Str} (h : Codes env js sigCode nCode w)
    (hcode : nCode = .ok code) :
    Codes env js sigCode nCode
      { w with nFunctionCache := Function.update w.nFunctionCache (hashCode js) (some code) } := by
  refine ⟨h.sigCached, h.sigMissing, fun other ho => ?_, fun ho => ?_⟩
  · obtain rfl : code = other := by simpa using ho
    exact hcode
  · simp at ho

theorem Ready.codes {w : World} (h : Ready env url js sigCode nCode w) :
    Codes env js sigCode nCode w :=
  ⟨h.sigCached, h.sigMissing, h.nCached, h.nMissing⟩

theorem Codes.ready {w : World} (h : Codes env js sigCode nCode w)
    (hmemory : w.memCache.lookup url = some js) :
    Ready env url js sigCode nCode w := ⟨hmemory, h.sigCached, h.sigMissing, h.nCached, h.nMissing⟩

-- A player JS in memory is enough.
theorem exists_ready (h : env.SteadyEngine) {w : World}
    (hmemory : w.memCache.lookup url = some js) :
    ∃ sigCode nCode, Ready env url js sigCode nCode w := by
  obtain ⟨sigCode, nCode, hcodes⟩ := exists_codes h js w
  exact ⟨sigCode, nCode, hcodes.ready hmemory⟩

theorem fetchPlayerJs_yields :
    Prog.Yields (Ready env url js sigCode nCode) (.ok js)
      (PlayerJsRepository.fetchPlayerJs env url) := by
  refine Prog.Yields.bind (a := some js) (Prog.Yields.atomic fun w hw => ?_) rfl
  refine ⟨by simp [hw.memory], ⟨?_, hw.sigCached, hw.sigMissing, hw.nCached, hw.nMissing⟩⟩
  simpa using hw.memory

-- An invariant under which these are the functions, and which neither the engine's work nor
-- caching them breaks.
structure Coded (env : Env) (js : Str) (sigCode nCode : Except Throwable Str) (I : World → Prop) :
    Prop where
  engine : EngineFrame I
  codes : ∀ w, I w → Codes env js sigCode nCode w
  sigStore : ∀ w code, I w → sigCode = .ok code →
    I { w with sigFunctionCache := Function.update w.sigFunctionCache (hashCode js) (some code) }
  nStore : ∀ w code, I w → nCode = .ok code →
    I { w with nFunctionCache := Function.update w.nFunctionCache (hashCode js) (some code) }

theorem ready_coded : Coded env js sigCode nCode (Ready env url js sigCode nCode) where
  engine := ready_engineFrame
  codes := fun _ h => h.codes
  sigStore := fun _ _ h hcode => (h.codes.sigStore hcode).ready h.memory
  nStore := fun _ _ h hcode => (h.codes.nStore hcode).ready h.memory

variable {I : World → Prop}

-- Another task may have cached the function in the meantime; it cached the same one.
theorem sigFunctionCode_yields (hI : Coded env js sigCode nCode I) :
    Prog.Yields I sigCode (SignatureDecipherer.functionCode js) := by
  refine Prog.Yields.bind_atomic fun w hw => ⟨hw, ?_⟩
  dsimp only
  cases hc : w.sigFunctionCache (hashCode js) with
  | some code => exact (hI.codes w hw).sigCached code hc
  | none =>
      have hextract := Prog.Yields.ofExcept I (SignatureDecipherer.extractSigFunctionCode js)
      rw [← (hI.codes w hw).sigMissing hc] at hextract ⊢
      cases hcode : sigCode with
      | error e => exact (hcode ▸ hextract).bind_error _
      | ok code => exact (hcode ▸ hextract).bind fun w' hw' => ⟨hI.sigStore w' code hw' hcode, rfl⟩

theorem nFunctionCode_yields (hI : Coded env js sigCode nCode I) :
    Prog.Yields I nCode (NParamDecipherer.functionCode env js) := by
  refine Prog.Yields.bind_atomic fun w hw => ⟨hw, ?_⟩
  dsimp only
  cases hc : w.nFunctionCache (hashCode js) with
  | some code => exact (hI.codes w hw).nCached code hc
  | none =>
      have hextract := (hI.codes w hw).nMissing hc I hI.engine
      cases hcode : nCode with
      | error e => exact (hcode ▸ hextract).bind_error _
      | ok code => exact (hcode ▸ hextract).bind fun w' hw' => ⟨hI.nStore w' code hw' hcode, rfl⟩

theorem Determined.coded {α : Type} {p : Action α} (h : Prog.Determined EngineFrame p) :
    Prog.Determined (Coded env js sigCode nCode) p := by
  obtain ⟨o, ho⟩ := h
  exact ⟨o, fun I hI => ho I hI.engine⟩

theorem rawUrl_determined (h : env.SteadyEngine) (format : RawFormat) :
    Prog.Determined (Coded env js sigCode nCode) (rawUrl env format js) := by
  unfold rawUrl
  split
  · exact .pure _
  · rename_i signatureCipher _ _
    exact (Prog.Determined.ofExcept _).bind fun params =>
      (Prog.Determined.ofExcept _).bind fun encSig =>
      (Prog.Determined.ofExcept _).bind fun baseUrl =>
      Prog.Determined.bind ⟨sigCode, fun _ hI => sigFunctionCode_yields hI⟩ fun fnCode =>
      (Determined.coded (executeJs_determined h fnCode encSig)).bind fun _ => .pure _
  · exact .throw _

theorem transform_determined (h : env.SteadyEngine) (url' : Str) :
    Prog.Determined (Coded env js sigCode nCode) (NParamDecipherer.transform env url' js) := by
  unfold NParamDecipherer.transform
  split
  · exact .pure _
  · rename_i nValue _
    refine Prog.Determined.bind ⟨nCode, fun _ hI => nFunctionCode_yields hI⟩ fun fnCode => ?_
    split_ifs
    · exact (Determined.coded
        (NParamDecipherer.transformViaFullPlayerJs_determined h js nValue)).bind
        fun _ => .pure _
    · exact (Determined.coded (executeJs_determined h fnCode nValue)).bind fun _ => .pure _

-- What `buildPlayableUrl` does with the player JS.
def decipherWith (env : Env) (format : RawFormat) (playerJs : Str) : Action Str := do
  let rawUrl ← rawUrl env format playerJs
  NParamDecipherer.transform env rawUrl playerJs

theorem decipherWith_determined (h : env.SteadyEngine) (format : RawFormat) :
    Prog.Determined (Coded env js sigCode nCode) (decipherWith env format js) :=
  (rawUrl_determined h format).bind fun rawUrl => transform_determined h rawUrl

-- The invariants of the tasks that decipher formats.
def IsReady (env : Env) (url js : Str) (sigCode nCode : Except Throwable Str)
    (I : World → Prop) : Prop :=
  I = Ready env url js sigCode nCode

-- With the player JS in memory, what a format deciphers to does not depend on the tasks beside it.
theorem buildPlayableUrl_determined (h : env.SteadyEngine) (format : RawFormat) :
    Prog.Determined (IsReady env url js sigCode nCode) (buildPlayableUrl env format url) := by
  have hrest : Prog.Determined (Coded env js sigCode nCode) (decipherWith env format js) :=
    decipherWith_determined h format
  obtain ⟨o, ho⟩ := hrest
  refine ⟨o, fun I hI => ?_⟩
  subst hI
  exact fetchPlayerJs_yields.bind (ho _ ready_coded)

end DecipherService

end

end Ytdlpdroid
