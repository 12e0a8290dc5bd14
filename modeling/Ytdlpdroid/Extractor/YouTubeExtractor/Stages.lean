import Ytdlpdroid.Decipher.DecipherService.Theorems
import Ytdlpdroid.Decipher.PlayerJsRepository.Theorems
import Ytdlpdroid.Extractor.YouTubeExtractor.Fallback
import Ytdlpdroid.Format.FormatSelector.Theorems

namespace Ytdlpdroid.YouTubeExtractor

open Text Concurrent DecipherService

-- The entry with which the cache answers a call.
def cached (env : Env) (videoId : Str) (w : World) : Option StreamResult :=
  ((ExtractionCache.get env videoId).run w).1.toOption.join

-- The state in which a call goes on that the cache does not answer.
def afterMiss (env : Env) (videoId : Str) (w : World) : World :=
  ((ExtractionCache.get env videoId).run w).2

-- The result made of a selection.
def streamResult (videoId : Str) (found : Resolution) (selection : FormatSelector.Selection)
    (now : Int) :
    StreamResult where
  videoId := videoId
  metadata := found.videoInfo
  videoStream := selection.video
  audioStream := selection.audio
  muxedStream := selection.muxed
  expiresAt := wrapLong (now + expiresInSeconds found.streamingData * 1000)
  streamUserAgent := found.winningClient.fields.userAgent

-- What `resolve` does with the response of the winning client.
def conclude (env : Env) (schedule : List Nat) (videoId : Str) (playerJsUrl : Option Str)
    (response : RawPlayerResponse) (winningClient : InnerTubeClientConfig) : Action Resolution := do
  let (videoInfo, streamingData) ← .ofExcept (checkResponse videoId response)
  let resolvedPlayerJsUrl ← resolvePlayerJsUrl env playerJsUrl videoId
  let resolvedFormats ← resolveFormats env schedule resolvedPlayerJsUrl (allFormats streamingData)
  if resolvedFormats.isEmpty then .throw (YTDLPError.noStreamsFound videoId)
  else return { response, winningClient, videoInfo, streamingData, resolvedFormats }

-- What `extract` does with a resolution.
def finish (env : Env) (videoId : Str) (options : ExtractionOptions) (found : Resolution) :
    Action StreamResult := do
  let result ← assemble env videoId options found
  ExtractionCache.put env videoId result
  return result

-- The pre-fetch ends with this URL and signature timestamp.
def Prefetch (env : Env) (videoId : Str) (w : World) (playerJsUrl : Option Str)
    (signatureTimestamp : Option Int) (w' : World) : Prop :=
  ∃ middle, (getOrNull (PlayerJsRepository.fetchPlayerJsUrl env videoId)).run w =
    (.ok playerJsUrl, middle) ∧ (prefetchTimestamp env playerJsUrl).run middle =
    (.ok signatureTimestamp, w')

theorem resolve_eq (env : Env) (schedule : List Nat) (videoId : Str) (regionCode : Option Str) :
    resolve env schedule videoId regionCode = (do
      let playerJsUrl ← getOrNull (PlayerJsRepository.fetchPlayerJsUrl env videoId)
      let signatureTimestamp ← prefetchTimestamp env playerJsUrl
      let (response, winningClient) ← fetchWithFallback env videoId regionCode signatureTimestamp
      conclude env schedule videoId playerJsUrl response winningClient) := rfl

section

variable {env : Env} {videoId : Str} {options : ExtractionOptions} {schedule : List Nat}
  {w w' : World}

theorem get_run (env : Env) (videoId : Str) (w : World) :
    (ExtractionCache.get env videoId).run w =
    (.ok (cached env videoId w), afterMiss env videoId w) := rfl

theorem extract_hit {result : StreamResult} (h : cached env videoId w = some result) :
    (extract env schedule videoId options).run w = (.ok result, afterMiss env videoId w) := by
  rw [extract, Prog.run_bind_ok (get_run env videoId w), h]
  rfl

theorem extract_miss (h : cached env videoId w = none) :
    (extract env schedule videoId options).run w =
      (resolve env schedule videoId options.regionCode >>= finish env videoId options).run
        (afterMiss env videoId w) := by
  rw [extract, Prog.run_bind_ok (get_run env videoId w), h]
  rfl

theorem getOrNull_run {α : Type} (p : Action α) (w : World) :
    (getOrNull p).run w = (.ok (p.run w).1.toOption, (p.run w).2) := by
  rw [getOrNull, Prog.run_bind, Prog.run_attempt]
  rcases p.run w with ⟨outcome, w'⟩
  cases outcome <;> rfl

-- The pre-fetch cannot fail.
theorem exists_prefetch (env : Env) (videoId : Str) (w : World) :
    ∃ playerJsUrl signatureTimestamp w',
      Prefetch env videoId w playerJsUrl signatureTimestamp w' := by
  have hurl := getOrNull_run (PlayerJsRepository.fetchPlayerJsUrl env videoId) w
  obtain ⟨signatureTimestamp, w', htimestamp⟩ : ∃ signatureTimestamp w',
      (prefetchTimestamp env
        ((PlayerJsRepository.fetchPlayerJsUrl env videoId).run w).1.toOption).run
        ((PlayerJsRepository.fetchPlayerJsUrl env videoId).run w).2 =
          (.ok signatureTimestamp, w') := by
    cases ((PlayerJsRepository.fetchPlayerJsUrl env videoId).run w).1.toOption with
    | none => exact ⟨none, _, rfl⟩
    | some url => exact ⟨_, _, Prog.run_bind_ok (getOrNull_run _ _) _⟩
  exact ⟨_, signatureTimestamp, w', _, hurl, htimestamp⟩

theorem resolve_run {playerJsUrl : Option Str} {signatureTimestamp : Option Int}
    (h : Prefetch env videoId w playerJsUrl signatureTimestamp w') (schedule : List Nat)
    (regionCode : Option Str) :
    (resolve env schedule videoId regionCode).run w = Prog.run (do
      let (response, winningClient) ← fetchWithFallback env videoId regionCode signatureTimestamp
      conclude env schedule videoId playerJsUrl response winningClient) w' := by
  obtain ⟨middle, hurl, htimestamp⟩ := h
  rw [resolve_eq, Prog.run_bind_ok hurl, Prog.run_bind_ok htimestamp]

-- The stages after the chain, as far as they need no player JS.
theorem checkResponse_cases (videoId : Str) (raw : RawPlayerResponse) :
    (raw.videoDetails = none ∧ checkResponse videoId raw =
      .error PlayerResponseParser.noVideoDetails) ∨
    (∃ e, e.isYTDLPError ∧ (PlayerResponseParser.isLive raw = false → raw.streamingData = none) ∧
      checkResponse videoId raw = .error e) ∨
    ∃ videoInfo streamingData, PlayerResponseParser.isLive raw = false ∧ raw.videoDetails.isSome ∧
      raw.streamingData = some streamingData ∧ checkResponse videoId raw =
        .ok (videoInfo, streamingData) := by
  unfold checkResponse PlayerResponseParser.extractVideoInfo PlayerResponseParser.isLive
  cases hdetails : raw.videoDetails with
  | none => exact Or.inl ⟨rfl, rfl⟩
  | some details =>
      cases hlive : details.isLiveContent with
      | true =>
          exact Or.inr
            (Or.inl ⟨YTDLPError.liveStreamNotSupported videoId,
              rfl, by simp [hlive], by simp [hlive]⟩)
      | false =>
          cases hdata : raw.streamingData with
          | none =>
              exact Or.inr
                (Or.inl ⟨YTDLPError.noStreamsFound videoId, rfl, by simp, by simp [hlive]; rfl⟩)
          | some streamingData =>
              exact Or.inr
                (Or.inr ⟨_, streamingData, by simp [hlive], rfl, rfl, by simp [hlive]; rfl⟩)

theorem assemble_ok {found : Resolution} {selection : FormatSelector.Selection}
    (h : FormatSelector.select env.av1UnsafeOnThisDevice found.resolvedFormats options =
      .ok selection) :
    (assemble env videoId options found).run w =
      (.ok (streamResult videoId found selection (env.clock w.readings)),
        { w with readings := w.readings + 1 }) := by
  rw [assemble, h]
  rfl

theorem assemble_error {found : Resolution} {e : Throwable}
    (h : FormatSelector.select env.av1UnsafeOnThisDevice found.resolvedFormats options = .error e) :
    (assemble env videoId options found).run w = (.error e, w) := by
  rw [assemble, h]
  rfl

-- Storing a result cannot fail.
theorem put_run (env : Env) (videoId : Str) (result : StreamResult) (w : World) :
    ∃ w', (ExtractionCache.put env videoId result).run w = (.ok (), w') := by
  unfold ExtractionCache.put
  simp only [Prog.run_bind, currentTimeMillis, Prog.run_atomic]
  split_ifs
  · exact ⟨_, rfl⟩
  · exact ⟨_, rfl⟩

-- What follows on a resolution: the selection decides.
theorem finish_run (env : Env) (videoId : Str) (options : ExtractionOptions) (found : Resolution)
    (w : World) :
    (∃ selection result w',
      FormatSelector.select env.av1UnsafeOnThisDevice found.resolvedFormats options =
      .ok selection ∧ result = streamResult videoId found selection (env.clock w.readings) ∧
      (finish env videoId options found).run w = (.ok result, w')) ∨
    ∃ e, FormatSelector.select env.av1UnsafeOnThisDevice found.resolvedFormats options = .error e ∧
      (finish env videoId options found).run w = (.error e, w) := by
  cases h : FormatSelector.select env.av1UnsafeOnThisDevice found.resolvedFormats options with
  | error e => exact Or.inr ⟨e, rfl, Prog.run_bind_error (assemble_error h) _⟩
  | ok selection =>
      obtain ⟨w', hput⟩ :=
        put_run env videoId (streamResult videoId found selection (env.clock w.readings))
        { w with readings := w.readings + 1 }
      refine Or.inl ⟨selection, _, w', rfl, rfl, ?_⟩
      rw [finish, Prog.run_bind_ok (assemble_ok h), Prog.run_bind_ok hput]
      rfl

-- The player JS that a fetch returns is in memory afterwards.
theorem fetchPlayerJs_memory {url js : Str}
    (h : (PlayerJsRepository.fetchPlayerJs env url).run w = (.ok js, w')) :
    w'.memCache.lookup url = some js := by
  have hfetch := PlayerJsRepository.fetchPlayerJs_fetch env url w
  rw [h] at hfetch
  cases hfetch with
  | memory _ hm => simpa using hm
  | disk => simp
  | stored => simp

theorem resolveFormat_determined (h : env.SteadyEngine) {url js : Str}
    {sigCode nCode : Except Throwable Str} (format : RawFormat) :
    Prog.Determined (IsReady env url js sigCode nCode) (resolveFormat env url format) :=
  (buildPlayableUrl_determined h format).bind fun _ => .pure _

-- What a format deciphers to in a state, by itself.
def deciphered (env : Env) (url : Str) (w : World) (format : RawFormat) : Option Str :=
  ((buildPlayableUrl env format url).run w).1.toOption

theorem resolveFormat_toOption (env : Env) (url : Str) (w : World) (format : RawFormat) :
    ((resolveFormat env url format).run w).1.toOption = (deciphered env url w format).map
    (format, ·) := by
  rw [resolveFormat, Prog.run_bind, deciphered]
  rcases (buildPlayableUrl env format url).run w with ⟨outcome, w'⟩
  cases outcome <;> rfl

-- The formats that decipher are the same ones under every schedule.
theorem resolveFormats_run (h : env.SteadyEngine) {url js : Str}
    {sigCode nCode : Except Throwable Str} {w₀ : World} (h₀ : Ready env url js sigCode nCode w₀)
    (hw : Ready env url js sigCode nCode w) (schedule : List Nat) (formats : List RawFormat) :
    ∃ w', (resolveFormats env schedule url formats).run w =
      (.ok (formats.filterMap fun format => (deciphered env url w₀ format).map (format, ·)),
        w') := by
  let outcomes := formats.map fun format => ((resolveFormat env url format).run w₀).1
  have htasks : List.Forall₂ (fun task o => Prog.Yields (Ready env url js sigCode nCode) o task)
      (formats.map (resolveFormat env url)) outcomes := by
    rw [List.forall₂_map_left_iff, List.forall₂_map_right_iff, List.forall₂_same]
    exact fun format _ => (resolveFormat_determined h format).yields rfl h₀
  have hpar : (Prog.run (Prog.par schedule (formats.map (resolveFormat env url)) : Action _) w).1 =
      .ok outcomes := ((Prog.par_yields schedule htasks).run hw).1
  have hformats : outcomes.filterMap Except.toOption =
      formats.filterMap fun format => (deciphered env url w₀ format).map (format, ·) := by
    rw [List.filterMap_map]
    exact List.filterMap_congr fun format _ => resolveFormat_toOption env url w₀ format
  rw [← hformats]
  exact ⟨_, Prog.run_bind_ok (Prod.ext hpar rfl) _⟩

end

end Ytdlpdroid.YouTubeExtractor
