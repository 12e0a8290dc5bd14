import Ytdlpdroid.Extractor.YouTubeExtractor.Runs
import Ytdlpdroid.Model.Numbers.Theorems

namespace Ytdlpdroid.YouTubeExtractor

open Text Collections Concurrent

-- A call that the cache does not answer and that returns a result: what it resolves, the state
-- after that, and the state in the end.
structure Extracts (env : Env) (w : World) (visit : Visit) (found : Resolution) (middle : World)
    (result : StreamResult) (stored : World) : Prop where
  missed : cached env visit.videoId w = none
  resolved : (resolve env visit.schedule visit.videoId visit.options.regionCode).run
    (afterMiss env visit.videoId w) = (.ok found, middle)
  returned : (extract env visit.schedule visit.videoId visit.options).run w = (.ok result, stored)

-- The result of a call that finds this time and lifetime expires when it should, and a cache with
-- room for it returns it at once when the clock has not advanced since.
structure Lasts (env : Env) (w : World) (videoId : Str) (time lifetime : Int) (middle : World)
    (result : StreamResult) (stored : World) : Prop where
  exact : result.expiresAt = time + 1000 * lifetime
  later : time ≤ result.expiresAt
  kept : 300 < lifetime → 1 ≤ w.extractionCache.maxSize →
    (∀ k ≤ 3, env.clock (middle.readings + k) = time) →
    ((ExtractionCache.get env videoId).run stored).1 = .ok (some result)

section

variable {env : Env} {w middle stored : World} {visit : Visit} {found : Resolution}
  {result : StreamResult}
  {videoId : Str}

theorem Extracts.put_run (h : Extracts env w visit found middle result stored) :
    (∃ selection, result = streamResult visit.videoId found selection (env.clock middle.readings)) ∧
      (ExtractionCache.put env visit.videoId result).run
      { middle with readings := middle.readings + 1 } =
        (.ok (), stored) := by
  have hreturned := h.returned
  rw [extract_miss h.missed, Prog.run_bind_ok h.resolved, finish] at hreturned
  cases hselect :
    FormatSelector.select env.av1UnsafeOnThisDevice found.resolvedFormats visit.options with
  | error e =>
      rw [Prog.run_bind_error (assemble_error hselect)] at hreturned
      cases hreturned
  | ok selection =>
      obtain ⟨stored', hput⟩ := YouTubeExtractor.put_run env visit.videoId
        (streamResult visit.videoId found selection (env.clock middle.readings))
        { middle with readings := middle.readings + 1 }
      rw [Prog.run_bind_ok (assemble_ok hselect), Prog.run_bind_ok hput] at hreturned
      obtain ⟨hresult, rfl⟩ := Prod.mk.inj hreturned
      obtain rfl := Except.ok.inj hresult
      exact ⟨⟨selection, rfl⟩, hput⟩

-- The capacity is that of the start.
theorem Extracts.maxSize (h : Extracts env w visit found middle result stored) :
    middle.extractionCache.maxSize = w.extractionCache.maxSize := by
  have hkept :=
    (resolve_preserves (kept_frame _ _) env visit.schedule visit.videoId
      visit.options.regionCode).run
    (kept_refl (afterMiss env visit.videoId w))
  rw [h.resolved] at hkept
  rw [hkept.cache, afterMiss, ExtractionCache.get, Prog.run_atomic]
  cases w.extractionCache.map.lookup visit.videoId with
  | none => rfl
  | some entry => exact MemoryCache.maxSize_get _ _ _

-- What is stored for more than five minutes is returned while the clock stands still.
theorem get_put {time : Int} (hcapacity : 1 ≤ w.extractionCache.maxSize)
    (hclock : ∀ k ≤ 2, env.clock (w.readings + k) = time) (htime : 0 ≤ time)
    (hlifetime : time + 300000 < result.expiresAt) (hlong : result.expiresAt < 2 ^ 63)
    (hput : (ExtractionCache.put env videoId result).run w = (.ok (), stored)) :
    ((ExtractionCache.get env videoId).run stored).1 = .ok (some result) := by
  have hnow := hclock 0 (by omega)
  have hstore := hclock 1 (by omega)
  have hread := hclock 2 (by omega)
  rw [Nat.add_zero] at hnow
  have hremaining : wrapLong (result.expiresAt - time - 5 * 60000) =
      result.expiresAt - time - 300000 := by
    rw [wrapLong_of_mem (by omega) (by omega)]
    omega
  have hexpires : wrapLong (time + (result.expiresAt - time - 300000)) =
      result.expiresAt - 300000 := by
    rw [wrapLong_of_mem (by omega) (by omega)]
    omega
  have hpositive : 0 < result.expiresAt - time - 300000 := by omega
  simp only [ExtractionCache.put, Prog.run_bind, currentTimeMillis, Prog.run_atomic, hnow,
    hremaining, hpositive, ite_true, ExtractionCache.store, hstore, MemoryCache.put, hexpires,
    Prod.mk.injEq, true_and] at hput
  have hreadings : stored.readings = w.readings + 2 := hput ▸ rfl
  have hcache :
      stored.extractionCache = w.extractionCache.insert videoId
        ⟨result, result.expiresAt - 300000⟩ :=
    hput ▸ rfl
  have hentry : stored.extractionCache.map.lookup videoId =
      some ⟨result, result.expiresAt - 300000⟩ := by
    rw [hcache, MemoryCache.lookup_insert, if_neg (MemoryCache.evicted_ne_self _ _ hcapacity),
      if_pos rfl]
  have hlive : ¬result.expiresAt - 300000 < time := by omega
  simp only [get_run, cached_eq, MemoryCache.live, hentry, hreadings, hread, hlive, ite_false]

end

-- No sum wraps exactly when the time of expiry is a Long.
theorem extract_expiresAt_iff {env : Env} {w middle stored : World} {visit : Visit}
    {found : Resolution} {result : StreamResult}
    (h : Extracts env w visit found middle result stored) (htime : 0 ≤ env.clock middle.readings)
    (hlifetime : 0 ≤ expiresInSeconds found.streamingData) :
    Lasts env w visit.videoId (env.clock middle.readings)
      (expiresInSeconds found.streamingData) middle result stored ↔
      env.clock middle.readings + 1000 * expiresInSeconds found.streamingData < 2 ^ 63 := by
  obtain ⟨⟨selection, hresult⟩, hput⟩ := h.put_run
  have hexpires : result.expiresAt =
      wrapLong (env.clock middle.readings + expiresInSeconds found.streamingData * 1000) := by
    rw [hresult]
    rfl
  constructor
  · intro hlasts
    have hexact := hlasts.exact
    rw [hexpires] at hexact
    have hrange :=
      wrapLong_lt (env.clock middle.readings + expiresInSeconds found.streamingData * 1000)
    omega
  · intro hlong
    have hexact : result.expiresAt =
        env.clock middle.readings + 1000 * expiresInSeconds found.streamingData := by
      rw [hexpires, wrapLong_of_mem (by omega) (by omega)]
      omega
    refine ⟨hexact, by omega, fun hlonger hcapacity hclock => ?_⟩
    have hcapacity' : 1 ≤ middle.extractionCache.maxSize := h.maxSize ▸ hcapacity
    have hclock' : ∀ k ≤ 2, env.clock (middle.readings + 1 + k) = env.clock middle.readings := by
      intro k hk
      rw [Nat.add_assoc]
      exact hclock (1 + k) (by omega)
    let asked : World := { middle with readings := middle.readings + 1 }
    exact get_put (w := asked) hcapacity' hclock' htime (by omega) (by omega) hput

-- What a call that returns a result goes through.
theorem exists_extracts {env : Env} {w : World} {visit : Visit}
    (hmissed : cached env visit.videoId w = none)
    (hreturned : ((extract env visit.schedule visit.videoId visit.options).run
      w).1.toOption.isSome) :
    ∃ found middle result stored, Extracts env w visit found middle result stored := by
  rcases hrun : (extract env visit.schedule visit.videoId visit.options).run w with
    ⟨outcome, stored⟩
  rw [hrun] at hreturned
  cases outcome with
  | error e => cases hreturned
  | ok result =>
      have hparts := hrun
      rw [extract_miss hmissed] at hparts
      obtain ⟨found, middle, hresolve, -⟩ := Prog.bind_ok_inv hparts
      exact ⟨found, middle, result, stored, hmissed, hresolve, hrun⟩

-- The first client sends one audio stream with this lifetime, and the clock stands still.
def lasting (text : Str) : Env :=
  { scriptedEnv (.ok (playableWith (some { oneAudio with expiresInSeconds := some text })))
      (.ok unplayable) with
    clock := fun _ => 0 }

theorem lasting_clock (text : Str) (reading : Nat) : (lasting text).clock reading = 0 := rfl

-- What the first call of a new instance resolves.
def resolving (text : Str) : Except Throwable Resolution × World :=
  (resolve (lasting text) [] (str "dQw4w9WgXcQ") none).run
    (afterMiss (lasting text) (str "dQw4w9WgXcQ") freshWorld)

theorem lasting_extracts {text : Str} {lifetime : Int}
    (hreturned : ((extract (lasting text) [] (str "dQw4w9WgXcQ") {}).run
      freshWorld).1.toOption.isSome)
    (hlifetime : (resolving text).1.toOption.map
      (fun found => expiresInSeconds found.streamingData) = some lifetime) :
    ∃ found middle result stored,
      Extracts (lasting text) freshWorld (visiting {}) found middle result stored ∧
        expiresInSeconds found.streamingData = lifetime := by
  obtain ⟨found, middle, result, stored, h⟩ : ∃ found middle result stored,
      Extracts (lasting text) freshWorld (visiting {}) found middle result stored :=
        exists_extracts rfl hreturned
  have hresolved : resolving text = (.ok found, middle) := h.resolved
  rw [hresolved] at hlifetime
  exact ⟨found, middle, result, stored, h, Option.some.inj hlifetime⟩

theorem extract_expiresAt_sixHours :
    ∃ middle result stored,
      Lasts (lasting (str "21600")) freshWorld (str "dQw4w9WgXcQ") 0 21600 middle result stored ∧
        ((ExtractionCache.get (lasting (str "21600")) (str "dQw4w9WgXcQ")).run stored).1 =
          .ok (some result) := by
  obtain ⟨found, middle, result, stored, h, hlifetime⟩ : ∃ found middle result stored,
      Extracts (lasting (str "21600")) freshWorld (visiting {}) found middle result stored ∧
        expiresInSeconds found.streamingData = 21600 :=
    lasting_extracts (by decide +kernel) (by decide +kernel)
  have hiff := extract_expiresAt_iff h le_rfl
  rw [hlifetime, lasting_clock] at hiff
  have hlasts := (hiff (by decide)).mpr (by decide)
  exact ⟨middle, result, stored, hlasts, hlasts.kept (by decide) (by decide) fun _ _ => rfl⟩

-- The greatest numeral that is accepted makes the result expire before it was extracted.
theorem extract_expiresAt_wraps :
    ¬∀ (env : Env) (w middle stored : World) (visit : Visit) (found : Resolution)
      (result : StreamResult), Extracts env w visit found middle result stored →
      0 ≤ env.clock middle.readings → env.clock middle.readings < 2 ^ 62 →
      0 ≤ expiresInSeconds found.streamingData →
      Lasts env w visit.videoId (env.clock middle.readings)
        (expiresInSeconds found.streamingData) middle result stored := by
  intro hall
  obtain ⟨found, middle, result, stored, h, hlifetime⟩ : ∃ found middle result stored,
      Extracts (lasting (str "9223372036854775807")) freshWorld (visiting {})
        found middle result stored ∧
        expiresInSeconds found.streamingData = 9223372036854775807 :=
    lasting_extracts (by decide +kernel) (by decide +kernel)
  have hlasts := hall _ _ _ _ _ _ _ h le_rfl
  rw [hlifetime, lasting_clock] at hlasts
  obtain ⟨selection, hresult⟩ := h.put_run.1
  have hlater := (hlasts (by decide) (by decide)).later
  rw [hresult] at hlater
  simp only [streamResult, hlifetime, lasting_clock] at hlater
  exact absurd hlater (by decide)

end Ytdlpdroid.YouTubeExtractor
