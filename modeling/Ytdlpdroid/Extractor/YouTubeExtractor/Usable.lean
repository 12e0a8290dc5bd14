import Ytdlpdroid.Extractor.YouTubeExtractor.Stages

namespace Ytdlpdroid.YouTubeExtractor

open Text Concurrent DecipherService

-- The player JS of the video is fetched ahead of the request to the first client.
def Prefetched (env : Env) (videoId url js : Str) (w w' : World) : Prop :=
  ∃ middle, (PlayerJsRepository.fetchPlayerJsUrl env videoId).run w = (.ok url, middle) ∧
    (PlayerJsRepository.fetchPlayerJs env url).run middle = (.ok js, w')

def firstOk (responses : InnerTubeClientConfig → RawPlayerResponse)
    (clients : List InnerTubeClientConfig) :
    Option InnerTubeClientConfig :=
  clients.find? fun client => (responses client).playabilityStatus.status = str "OK"

-- A response from which a result can be made: it has details and streams, an audio-only or
-- muxed format of it deciphers, and no format that deciphers has a malformed range.
def Usable (env : Env) (url : Str) (w : World) (raw : RawPlayerResponse) : Prop :=
  raw.videoDetails.isSome ∧ ∃ streamingData, raw.streamingData = some streamingData ∧
    (∀ format ∈ allFormats streamingData, (deciphered env url w format).isSome →
      FormatSelector.isSelectable format → FormatSelector.HasRanges format) ∧
    ∃ format ∈ allFormats streamingData, (deciphered env url w format).isSome ∧
      (FormatSelector.isAudioOnly format ∨ FormatSelector.isMuxed format)

section

variable {env : Env} {videoId url js : Str} {regionCode : Option Str}
  {signatureTimestamp : Option Int}
  {outcomes : InnerTubeClientConfig → Except Throwable Response}
  {responses : InnerTubeClientConfig → RawPlayerResponse} {w w' : World}

-- When every body decodes, the status alone decides which client wins.
theorem fallback_decodable (hio : env.IoFailures)
    (hanswers : env.Answers videoId regionCode signatureTimestamp outcomes)
    (hdecodes : ∀ client, InnerTubeClient.answer env (outcomes client) = .ok (responses client))
    (hoffline : ∀ client, (responses client).playabilityStatus.status ≠ str "LIVE_STREAM_OFFLINE")
    (clients : List InnerTubeClientConfig) (last geo : Option Throwable) (w : World) :
    (∃ client w', firstOk responses clients = some client ∧
      (fallback env videoId regionCode signatureTimestamp clients last geo).run w =
        (.ok (responses client, client), w')) ∨
    firstOk responses clients = none ∧ ∃ e w',
      (fallback env videoId regionCode signatureTimestamp clients last geo).run w =
      (.error e, w') := by
  induction clients generalizing last geo w with
  | nil => exact Or.inr ⟨rfl, _, w, rfl⟩
  | cons client rest ih =>
      obtain ⟨-, w₁, hask⟩ := askClient_answers hio hanswers client w
      by_cases hok : (responses client).playabilityStatus.status = str "OK"
      · rw [judge_ok.mpr ⟨hdecodes client, hok⟩] at hask
        exact Or.inl ⟨client, w₁, by simp [firstOk, hok], fallback_ok hask⟩
      · have hskip : firstOk responses (client :: rest) = firstOk responses rest := by
          simp [firstOk, hok]
        obtain ⟨e, hjudge, hcaught, hlive⟩ : ∃ e, judge env videoId (outcomes client) = .error e ∧
            e.isYTDLPError ∧ e.cls ≠ .liveStreamNotSupported := by
          rcases checkPlayability_cases (responses client) videoId with
            ⟨hstatus, -⟩ | ⟨-, e, hcheck, hcaught, hlive⟩
          · exact absurd hstatus hok
          · refine ⟨e, ?_, hcaught, fun h => hoffline client (hlive.mp h)⟩
            simp only [judge, hdecodes, hcheck, Except.bind]
        rw [hjudge] at hask
        rw [hskip, fallback_next hask hcaught hlive]
        exact ih _ _ w₁

theorem Prefetched.prefetch (h : Prefetched env videoId url js w w') :
    Prefetch env videoId w (some url) (PlayerJsRepository.extractSignatureTimestamp js) w' := by
  obtain ⟨middle, hurl, hjs⟩ := h
  exact ⟨middle, by simp [getOrNull, hurl], by simp [prefetchTimestamp, getOrNull, hjs]⟩

-- The formats of a response that decipher, with their URLs.
def resolvedFormats (env : Env) (url : Str) (w : World) (streamingData : RawStreamingData) :
    List (RawFormat × Str) :=
  (allFormats streamingData).filterMap fun format => (deciphered env url w format).map (format, ·)

theorem forall_resolvedFormats (env : Env) (url : Str) (w : World)
    (streamingData : RawStreamingData) (P : RawFormat → Prop) :
    (∀ pair ∈ resolvedFormats env url w streamingData, P pair.1) ↔
      ∀ format ∈ allFormats streamingData, (deciphered env url w format).isSome → P format := by
  simp only [resolvedFormats, List.mem_filterMap, Option.map_eq_some_iff, Option.isSome_iff_exists]
  constructor
  · rintro h format hm ⟨text, ht⟩
    exact h (format, text) ⟨format, hm, text, ht, rfl⟩
  · rintro h pair ⟨format, hm, text, ht, rfl⟩
    exact h format hm ⟨text, ht⟩

theorem exists_resolvedFormats (env : Env) (url : Str) (w : World)
    (streamingData : RawStreamingData) (P : RawFormat → Prop) :
    (∃ pair ∈ resolvedFormats env url w streamingData, P pair.1) ↔
      ∃ format ∈ allFormats streamingData, (deciphered env url w format).isSome ∧ P format := by
  have hpush := not_congr (forall_resolvedFormats env url w streamingData fun format => ¬P format)
  push Not at hpush
  exact hpush

theorem select_resolvedFormats_iff (env : Env) (url : Str) (w : World)
    (streamingData : RawStreamingData) (options : ExtractionOptions) :
    (∃ selection, FormatSelector.select env.av1UnsafeOnThisDevice
        (resolvedFormats env url w streamingData) options = .ok selection) ↔
      (∀ format ∈ allFormats streamingData, (deciphered env url w format).isSome →
        FormatSelector.isSelectable format → FormatSelector.HasRanges format) ∧
      ∃ format ∈ allFormats streamingData, (deciphered env url w format).isSome ∧
        (FormatSelector.isAudioOnly format ∨ FormatSelector.isMuxed format) := by
  rw [← exists_resolvedFormats env url w streamingData fun format =>
      FormatSelector.isAudioOnly format ∨ FormatSelector.isMuxed format,
    ← forall_resolvedFormats env url w streamingData fun format =>
      FormatSelector.isSelectable format → FormatSelector.HasRanges format]
  rcases FormatSelector.select_cases env.av1UnsafeOnThisDevice
    (resolvedFormats env url w streamingData)
    options with ⟨hranges, ⟨hsome, hselect⟩ | ⟨hnone, e, he, -⟩⟩ | ⟨⟨pair, hm, hp, hnot⟩, e, he, -⟩
  · exact iff_of_true hselect ⟨hranges, hsome⟩
  · exact iff_of_false (by simp [he]) fun h => hnone h.2
  · exact iff_of_false (by simp [he]) fun h => hnot (h.1 pair hm hp)

-- A response that is concluded has details, streams and formats that decipher.
theorem conclude_cases (hsteady : env.SteadyEngine) {sigCode nCode : Except Throwable Str}
    {w₀ : World} (h₀ : Ready env url js sigCode nCode w₀) (hw : Ready env url js sigCode nCode w)
    {raw : RawPlayerResponse} (hlive : PlayerResponseParser.isLive raw = false)
    (client : InnerTubeClientConfig) (schedule : List Nat) :
    (∃ streamingData found w', raw.videoDetails.isSome ∧ raw.streamingData = some streamingData ∧
      found.resolvedFormats = resolvedFormats env url w₀ streamingData ∧
      (conclude env schedule videoId (some url) raw client).run w = (.ok found, w')) ∨
    ¬Usable env url w₀ raw ∧ ∃ e w',
      (conclude env schedule videoId (some url) raw client).run w = (.error e, w') := by
  rcases checkResponse_cases videoId raw with
    ⟨hdetails, hcheck⟩ | ⟨e, -, hdata, hcheck⟩ | ⟨videoInfo, streamingData, -, hdetails,
      hdata, hcheck⟩
  · refine Or.inr
      ⟨fun h => by simp [Usable, hdetails] at h, PlayerResponseParser.noVideoDetails, w, ?_⟩
    rw [conclude, hcheck]
    rfl
  · refine Or.inr ⟨fun h => by simp [Usable, hdata hlive] at h, e, w, ?_⟩
    rw [conclude, hcheck]
    rfl
  · have hchecked : (Prog.ofExcept (checkResponse videoId raw) : Action _).run w =
        (.ok (videoInfo, streamingData), w) := by rw [hcheck, Prog.run_ofExcept]
    have hurl : (resolvePlayerJsUrl env (some url) videoId).run w = (.ok url, w) := rfl
    obtain ⟨w', hresolve⟩ := resolveFormats_run hsteady h₀ hw schedule (allFormats streamingData)
    change (resolveFormats env schedule url (allFormats streamingData)).run w =
      (.ok (resolvedFormats env url w₀ streamingData), w') at hresolve
    rw [conclude, Prog.run_bind_ok hchecked, Prog.run_bind_ok hurl, Prog.run_bind_ok hresolve]
    by_cases hempty : (resolvedFormats env url w₀ streamingData).isEmpty = true
    · refine Or.inr
        ⟨?_, YTDLPError.noStreamsFound videoId, w', by rw [if_pos hempty, Prog.run_throw]⟩
      rintro ⟨-, other, hother, -, hsome⟩
      obtain rfl := Option.some.inj (hdata.symm.trans hother)
      obtain ⟨pair, hm, -⟩ := (exists_resolvedFormats env url w₀ streamingData _).mpr hsome
      rw [List.isEmpty_iff.mp hempty] at hm
      cases hm
    · exact Or.inl ⟨streamingData, _, w', hdetails, hdata, rfl, by rw [if_neg hempty]; rfl⟩

theorem extract_returns_iff (hsteady : env.SteadyEngine) (hio : env.IoFailures)
    {options : ExtractionOptions} {w₀ : World}
    (hprefetched : Prefetched env videoId url js (afterMiss env videoId w) w₀)
    (hanswers : env.Answers videoId options.regionCode
      (PlayerJsRepository.extractSignatureTimestamp js) outcomes)
    (hdecodes : ∀ client, InnerTubeClient.answer env (outcomes client) = .ok (responses client))
    (hlive : ∀ client, PlayerResponseParser.isLive (responses client) = false)
    (hoffline : ∀ client, (responses client).playabilityStatus.status ≠ str "LIVE_STREAM_OFFLINE")
    (schedule : List Nat) :
    (∃ result w', (extract env schedule videoId options).run w = (.ok result, w')) ↔
      (cached env videoId w).isSome ∨
        ∃ client, firstOk responses clientChain = some client ∧
          Usable env url w₀ (responses client) := by
  cases hcached : cached env videoId w with
  | some result => exact iff_of_true ⟨result, _, extract_hit hcached⟩ (Or.inl rfl)
  | none =>
      obtain ⟨middle, hurl, hjs⟩ := id hprefetched
      obtain ⟨sigCode, nCode, hready⟩ := exists_ready hsteady (fetchPlayerJs_memory hjs)
      have hframe : NetworkFrame (Ready env url js sigCode nCode) :=
        ⟨fun _ _ h => ⟨h.memory, h.sigCached, h.sigMissing, h.nCached, h.nMissing⟩,
          fun _ _ _ h => ⟨h.memory, h.sigCached, h.sigMissing, h.nCached, h.nMissing⟩⟩
      rw [extract_miss hcached, Prog.run_bind, resolve_run hprefetched.prefetch]
      simp only [Option.isSome_none, Bool.false_eq_true, false_or]
      have hkept := (fallback_preserves hframe env videoId options.regionCode
        (PlayerJsRepository.extractSignatureTimestamp js) clientChain none none).run hready
      rcases fallback_decodable hio hanswers hdecodes hoffline clientChain none none w₀ with
        ⟨client, w₁, hfirst, hrun⟩ | ⟨hnone, e, w₁, hrun⟩
      · rw [hrun] at hkept
        rw [fetchWithFallback, Prog.run_bind_ok hrun, hfirst]
        simp only [Option.some.injEq, exists_eq_left']
        rcases conclude_cases hsteady hready hkept (hlive client) client schedule with
          ⟨streamingData, found, w₂, hdetails, hdata, hformats, hconclude⟩ |
          ⟨hunusable, e, w₂, hconclude⟩
        · rw [hconclude]
          have hselect := select_resolvedFormats_iff env url w₀ streamingData options
          rw [← hformats] at hselect
          rcases finish_run env videoId options found w₂ with
            ⟨selection, result, w', hok, -, hfinish⟩ | ⟨e, herror, hfinish⟩
          · exact iff_of_true ⟨result, w', hfinish⟩
              ⟨hdetails, streamingData, hdata, hselect.mp ⟨selection, hok⟩⟩
          · refine iff_of_false ?_ ?_
            · rintro ⟨result, w', hrun⟩
              exact absurd (hfinish.symm.trans hrun) (by simp)
            · rintro ⟨-, other, hother, husable⟩
              obtain rfl := Option.some.inj (hdata.symm.trans hother)
              obtain ⟨selection, hok⟩ := hselect.mpr husable
              exact absurd (herror.symm.trans hok) (by simp)
        · rw [hconclude]
          exact iff_of_false (by simp) hunusable
      · rw [fetchWithFallback, Prog.run_bind_error hrun]
        exact iff_of_false (by simp) (by simp [hnone])

end

def audioFormat : RawFormat where
  itag := 140
  url := some (str "https://r/")
  mimeType := str "audio/mp4"

def details : RawVideoDetails where
  videoId := str "dQw4w9WgXcQ"
  title := str "A title"

-- A playable response, with or without streams.
def playableWith (streamingData : Option RawStreamingData) : RawPlayerResponse :=
  { playable with streamingData, videoDetails := some details }

def oneAudio : RawStreamingData := { adaptiveFormats := [audioFormat] }

def scriptedResponses (first others : RawPlayerResponse) (client : InnerTubeClientConfig) :
    RawPlayerResponse :=
  if client = .ANDROID_VR then first else others

theorem scripted_prefetched (first others : Except Str RawPlayerResponse) :
    ∃ w, Prefetched (scriptedEnv first others) (str "dQw4w9WgXcQ") playerJsUrl playerJs
      (afterMiss (scriptedEnv first others) (str "dQw4w9WgXcQ") freshWorld) w ∧
      deciphered (scriptedEnv first others) playerJsUrl w audioFormat = some (str "https://r/") :=
  ⟨_, ⟨_, rfl, rfl⟩, rfl⟩

theorem usable_oneAudio {env : Env} {url : Str} {w : World} {text : Str}
    (h : deciphered env url w audioFormat = some text) :
    Usable env url w (playableWith (some oneAudio)) := by
  refine ⟨rfl, oneAudio, rfl, fun format hm _ _ =>
    ?_, audioFormat, List.mem_cons_self, by simp [h], Or.inl (by decide)⟩
  obtain rfl := List.mem_singleton.mp hm
  rintro range (hrange | hrange) <;> cases hrange

theorem extract_returns_second_client :
    ∃ result w', (extract (scriptedEnv (.ok unplayable) (.ok (playableWith (some oneAudio)))) []
      (str "dQw4w9WgXcQ") {}).run freshWorld = (.ok result, w') := by
  obtain ⟨w₀, hprefetched, hdeciphered⟩ :=
    scripted_prefetched (.ok unplayable) (.ok (playableWith (some oneAudio)))
  have hdecodes (client : InnerTubeClientConfig) :
      InnerTubeClient.answer (scriptedEnv (.ok unplayable) (.ok (playableWith (some oneAudio))))
        (scriptedOutcome client) =
          .ok (scriptedResponses unplayable (playableWith (some oneAudio)) client) := by
    cases client <;> rfl
  refine (extract_returns_iff scriptedEnv_steady scriptedEnv_ioFailures hprefetched
    (scriptedEnv_answers _ _ _ _ _) hdecodes (fun client => ?_) (fun client => ?_) []).mpr
    (Or.inr ⟨.ANDROID, ?_, usable_oneAudio hdeciphered⟩)
  · cases client <;> rfl
  · cases client <;> decide
  · decide

-- The first client says OK and sends no streams; those of the next client are never asked for.
theorem extract_stops_at_missing_streams :
    let env := scriptedEnv (.ok (playableWith none)) (.ok (playableWith (some oneAudio)))
    (∃ w₀, Prefetched env (str "dQw4w9WgXcQ") playerJsUrl playerJs
        (afterMiss env (str "dQw4w9WgXcQ") freshWorld) w₀ ∧
      Says env (scriptedOutcome .ANDROID) (playableWith (some oneAudio)) (str "OK") ∧
      Usable env playerJsUrl w₀ (playableWith (some oneAudio))) ∧
    ¬∃ result w', (extract env [] (str "dQw4w9WgXcQ") {}).run freshWorld = (.ok result, w') := by
  intro env
  obtain ⟨w₀, hprefetched, hdeciphered⟩ :=
    scripted_prefetched (.ok (playableWith none)) (.ok (playableWith (some oneAudio)))
  refine ⟨⟨w₀, hprefetched, ⟨rfl, rfl⟩, usable_oneAudio hdeciphered⟩, ?_⟩
  have hthrows : ((extract env [] (str "dQw4w9WgXcQ") {}).run freshWorld).1.toOption = none := by
    decide +kernel
  rintro ⟨result, w', hrun⟩
  rw [hrun] at hthrows
  cases hthrows

end Ytdlpdroid.YouTubeExtractor
