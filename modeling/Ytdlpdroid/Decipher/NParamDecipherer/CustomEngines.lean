import Ytdlpdroid.Decipher.NParamDecipherer.Plausibility

namespace Ytdlpdroid

open Text Concurrent

namespace NParamDecipherer

-- The stub `{ functionCode, argument -> argument }`, supplied through `Builder.jsEngine`.
def passthrough (simpleName : Str) : JsEngine := .custom simpleName fun _ _ argument => .ok argument

-- The URL has a parameter n with a value.
def HasN (url : Str) : Prop :=
  ∃ before c d more, url = before ++ c :: (str "n=" ++ d :: more) ∧ isSeparator c ∧ d ≠ '&'

def requiresQuickJs (simpleName : Str) : Throwable :=
  YTDLPError.decipherFailed (str "Full-player-JS nsig requires QuickJsEngine; got " ++ simpleName)

-- No function of a player has been accepted so far.
def NoneAccepted (w : World) : Prop :=
  ∀ key fnCode, w.nFunctionCache key = some fnCode → fnCode = FULL_PLAYER_JS_SENTINEL

theorem findGroup_eq_none_iff {url : Str} : N_PARAM_RE.findGroup url 2 = none ↔ ¬HasN url := by
  rw [Regex.findGroup, Option.map_eq_none_iff, Regex.find_eq_none_iff anchorFree]
  constructor
  · rintro hnone ⟨before, c, d, more, rfl, hc, hd⟩
    refine hnone before _ rfl (matchesAt_iff.mpr ⟨c, [d], more, hc, List.cons_ne_nil d [], ?_, rfl⟩)
    simpa using hd.symm
  · rintro hnone before rest rfl hmatches
    obtain ⟨c, value, more, hc, hne, hvalue, rfl⟩ := matchesAt_iff.mp hmatches
    obtain ⟨d, value, rfl⟩ := List.exists_cons_of_ne_nil hne
    refine hnone ⟨before, c, d, value ++ more, rfl, hc, ?_⟩
    rintro rfl
    exact hvalue List.mem_cons_self

section

variable {env : Env} {simpleName : Str} {w : World}

-- The stub answers each probe with itself.
theorem isPlausibleNsigFunction_passthrough (henv : env.jsEngine = passthrough simpleName)
    (fnCode : Str) :
    ∃ w', (isPlausibleNsigFunction env fnCode).run w = (.ok false, w') ∧
      w'.nFunctionCache = w.nFunctionCache := by
  have hrejected : isPlausiblePair testInput1 testInput2 = false := by decide
  have hexecute : ∀ n argument, env.jsEngine.execute n fnCode argument = .ok argument := by
    intro n argument
    rw [henv]
    rfl
  simp [isPlausibleNsigFunction, executeJs, hexecute, hrejected]

theorem extractNFunction_passthrough (henv : env.jsEngine = passthrough simpleName)
    (playerJs : Str) :
    ∃ w', (extractNFunction env playerJs).run w = (.ok FULL_PLAYER_JS_SENTINEL, w') ∧
      w'.nFunctionCache = w.nFunctionCache := by
  unfold extractNFunction
  cases (extractNFunctionName playerJs).bind (JsFunctionExtractor.extractFunctionBody playerJs) with
  | none => exact ⟨w, rfl, rfl⟩
  | some body =>
      obtain ⟨w', hrun, hcache⟩ := isPlausibleNsigFunction_passthrough henv (w := w) body
      exact ⟨w', Prog.run_bind_ok hrun _, hcache⟩

theorem functionCode_passthrough (henv : env.jsEngine = passthrough simpleName)
    (hw : NoneAccepted w) (playerJs : Str) :
    ∃ w', (functionCode env playerJs).run w = (.ok FULL_PLAYER_JS_SENTINEL, w') ∧
      NoneAccepted w' := by
  unfold functionCode
  simp only [reading, Prog.run_bind, Prog.run_atomic]
  cases hcached : w.nFunctionCache (hashCode playerJs) with
  | some fnCode =>
      obtain rfl := hw _ fnCode hcached
      exact ⟨w, rfl, hw⟩
  | none =>
      obtain ⟨w', hrun, hcache⟩ := extractNFunction_passthrough henv (w := w) playerJs
      simp only [Prog.run_bind, hrun, writing, Prog.run_atomic]
      refine ⟨_, rfl, fun key fnCode hkey => ?_⟩
      by_cases hself : key = hashCode playerJs
      · simpa [hself] using hkey.symm
      · rw [hcache] at hkey
        exact hw key fnCode (by simpa [hself] using hkey)

-- Whatever the player is, the URL is returned if it has no value of n, and else the call fails.
theorem transform_passthrough (henv : env.jsEngine = passthrough simpleName) (hw : NoneAccepted w)
    (url playerJs : Str) :
    (¬HasN url → (transform env url playerJs).run w = (.ok url, w)) ∧
      (HasN url → ((transform env url playerJs).run w).1 = .error (requiresQuickJs simpleName)) ∧
      NoneAccepted ((transform env url playerJs).run w).2 := by
  unfold transform
  cases hfind : N_PARAM_RE.findGroup url 2 with
  | none =>
      have hnone : ¬HasN url := findGroup_eq_none_iff.mp hfind
      exact ⟨fun _ => rfl, fun h => absurd h hnone, hw⟩
  | some value =>
      have hsome : HasN url := by
        by_contra hnone
        simp [findGroup_eq_none_iff.mpr hnone] at hfind
      obtain ⟨w', hrun, hw'⟩ := functionCode_passthrough henv hw playerJs
      have hfail : (transformViaFullPlayerJs env playerJs value).run w' =
          (.error (requiresQuickJs simpleName), w') := by
        rw [transformViaFullPlayerJs, henv]
        rfl
      simp only [Prog.run_bind, hrun, ite_true, hfail]
      exact ⟨fun h => absurd hsome h, fun _ => trivial, hw'⟩

end

-- The state that a new instance is in after these calls, with their URLs and players.
def afterCalls (env : Env) (w : World) (calls : List (Str × Str)) : World :=
  calls.foldl (fun w call => ((transform env call.1 call.2).run w).2) { w with nFunctionCache :=
    fun _ => none }

theorem noneAccepted_afterCalls {env : Env} {simpleName : Str}
    (henv : env.jsEngine = passthrough simpleName) (w : World) (calls : List (Str × Str)) :
    NoneAccepted (afterCalls env w calls) := by
  unfold afterCalls
  induction calls using List.reverseRecOn with
  | nil => exact fun key fnCode h => by simp at h
  | append_singleton calls call ih =>
      rw [List.foldl_append]
      exact (transform_passthrough henv ih call.1 call.2).2.2

-- After any calls, with any player, the stub is enough exactly for the URLs that need no
-- deciphering.
theorem transform_passthrough_iff (env : Env) (simpleName : Str) (w : World)
    (calls : List (Str × Str)) (url playerJs : Str) :
    let stubbed := { env with jsEngine := passthrough simpleName }
    ((transform stubbed url playerJs).run (afterCalls stubbed w calls)).1 = .ok url ↔
      ¬HasN url := by
  intro stubbed
  have henv : stubbed.jsEngine = passthrough simpleName := rfl
  obtain ⟨hwithout, hwith, -⟩ :=
    transform_passthrough henv (noneAccepted_afterCalls henv w calls) url playerJs
  constructor
  · intro hok hsome
    rw [hwith hsome] at hok
    cases hok
  · intro hnone
    rw [hwithout hnone]

-- A player whose function is found by its name and extracted.
def plainPlayer : Str :=
  str "var nfn=function(a)\x7breturn a.split(\"\").reverse().join(\"\")\x7d;(b=c.get(\"n\"))&&(b=nfn(b));"

theorem transform_passthrough_fails :
    ¬∀ (env : Env) (simpleName : Str) (w : World) (url playerJs : Str),
      ((extractNFunctionName playerJs).bind
        (JsFunctionExtractor.extractFunctionBody playerJs)).isSome →
        let stubbed := { env with jsEngine := passthrough simpleName }
        ((transform stubbed url playerJs).run (afterCalls stubbed w [])).1 = .ok url := by
  intro h
  have hbody : ((extractNFunctionName plainPlayer).bind
      (JsFunctionExtractor.extractFunctionBody plainPlayer)).isSome := by decide +kernel
  have hreturned :=
    h reversingEnv (str "Stub") knownPlayer (str "https://r/play?n=abc") plainPlayer hbody
  revert hreturned
  decide +kernel

end NParamDecipherer

end Ytdlpdroid
