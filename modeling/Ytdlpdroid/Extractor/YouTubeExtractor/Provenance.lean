import Ytdlpdroid.Extractor.YouTubeExtractor.Runs
import Ytdlpdroid.Format.FormatSelector.Optimality

namespace Ytdlpdroid.YouTubeExtractor

open Text Collections Concurrent FormatSelector

-- The stages of a call that the cache does not answer: what they give, and the states in which the
-- chain of clients, the choice of the player JS and the tasks that decipher the formats start.
structure Extraction where
  playerJsUrl : Option Str
  signatureTimestamp : Option Int
  response : RawPlayerResponse
  client : InnerTubeClientConfig
  streamingData : RawStreamingData
  resolvedPlayerJsUrl : Str
  outcomes : List (Except Throwable (RawFormat × Str))
  atChain : World
  atPlayerJs : World
  atTasks : World

section

variable (env : Env)

-- The tasks, one for each format.
def deciphering (schedule : List Nat) (playerJsUrl : Str) (formats : List RawFormat) :
    Action (List (Except Throwable (RawFormat × Str))) :=
  Prog.par schedule (formats.map (resolveFormat env playerJsUrl))

-- The stages of the call that starts in the state `w`.
structure Extraction.Happens (w : World) (visit : Visit) (x : Extraction) : Prop where
  missed : cached env visit.videoId w = none
  prefetch : Prefetch env visit.videoId (afterMiss env visit.videoId w)
    x.playerJsUrl x.signatureTimestamp x.atChain
  chain :
    (fetchWithFallback env visit.videoId visit.options.regionCode x.signatureTimestamp).run
      x.atChain =
    (.ok (x.response, x.client), x.atPlayerJs)
  streamingData : x.response.streamingData = some x.streamingData
  playerJs : (resolvePlayerJsUrl env x.playerJsUrl visit.videoId).run x.atPlayerJs =
    (.ok x.resolvedPlayerJsUrl, x.atTasks)
  tasks :
    ((deciphering env visit.schedule x.resolvedPlayerJsUrl (allFormats x.streamingData)).run
      x.atTasks).1 =
    .ok x.outcomes

-- The response is what the winning client said when it was asked for the video.
def Extraction.Asked (visit : Visit) (x : Extraction) : Prop :=
  ∃ call ∈ x.atPlayerJs.calls, ∃ visitorData, call.request =
    InnerTubeClient.playerRequest x.client visit.videoId visitorData visit.options.regionCode
      x.signatureTimestamp ∧ Says env call.outcome x.response (str "OK")

end

-- The streams of a result.
def HasStream (result : StreamResult) (stream : StreamFormat) : Prop :=
  result.videoStream = some stream ∨ result.audioStream = stream ∨ result.muxedStream = some stream

-- The result is made of the response: each stream has the attributes of one of its formats, and the
-- URL that the task of this format gave.
structure Extraction.Gives (x : Extraction) (videoId : Str) (result : StreamResult) : Prop where
  videoId : result.videoId = videoId
  streamUserAgent : result.streamUserAgent = x.client.fields.userAgent
  streams : ∀ stream, HasStream result stream → ∃ (index : Nat) (format : RawFormat),
    (allFormats x.streamingData)[index]? = some format ∧ Presents stream format ∧
      x.outcomes[index]? = some (.ok (format, stream.url))

section

variable {env : Env} {videoId playerJsUrl : Str} {regionCode : Option Str} {schedule : List Nat}
  {formats : List RawFormat} {found : Resolution} {w w' : World}

theorem resolveFormats_eq (env : Env) (schedule : List Nat) (playerJsUrl : Str)
    (formats : List RawFormat) :
    resolveFormats env schedule playerJsUrl formats = (do
      let outcomes ← deciphering env schedule playerJsUrl formats
      return outcomes.filterMap Except.toOption) := rfl

-- A task gives its own format.
theorem resolveFormat_outcome {format : RawFormat} {pair : RawFormat × Str}
    (h : Prog.Outcome (resolveFormat env playerJsUrl format) (.ok pair)) : pair.1 = format := by
  obtain ⟨url, -, hpair⟩ := Prog.Outcome.bind_ok h
  cases hpair
  rfl

-- The outcomes of the tasks are in the order of the formats.
theorem deciphering_outcome {outcomes : List (Except Throwable (RawFormat × Str))}
    (h : ((deciphering env schedule playerJsUrl formats).run w).1 = .ok outcomes)
    {pair : RawFormat × Str} (hpair : pair ∈ outcomes.filterMap Except.toOption) :
    ∃ index : Nat, formats[index]? = some pair.1 ∧ outcomes[index]? = some (.ok pair) := by
  obtain ⟨given, w', hrun, houtcomes⟩ :=
    Prog.par_outcome schedule (formats.map (resolveFormat env playerJsUrl)) w
  obtain rfl : given = outcomes := by
    rw [deciphering, hrun] at h
    exact Except.ok.inj h
  obtain ⟨outcome, hm, hok⟩ := List.mem_filterMap.mp hpair
  have houtcome : outcome = .ok pair := by
    cases outcome with
    | error e => cases hok
    | ok other => exact congrArg Except.ok (Option.some.inj hok)
  obtain ⟨index, hlt, hindex⟩ := List.mem_iff_getElem.mp (houtcome ▸ hm)
  rw [List.forall₂_map_left_iff] at houtcomes
  have hlength := houtcomes.length_eq
  have hformat := houtcomes.get (i := index) (by omega) hlt
  simp only [List.get_eq_getElem, hindex] at hformat
  refine ⟨index, ?_, List.getElem?_eq_some_iff.mpr ⟨hlt, hindex⟩⟩
  rw [resolveFormat_outcome hformat]
  exact List.getElem?_eq_getElem (by omega)

-- A resolution is made of the stages of the call.
theorem resolve_happens {visit : Visit} (hmissed : cached env visit.videoId w = none)
    (h : (resolve env visit.schedule visit.videoId visit.options.regionCode).run
      (afterMiss env visit.videoId w) = (.ok found, w')) :
    ∃ x : Extraction, x.Happens env w visit ∧ x.client = found.winningClient ∧
      found.resolvedFormats = x.outcomes.filterMap Except.toOption := by
  rw [resolve_eq] at h
  obtain ⟨playerJsUrl, w₁, hurl, h⟩ := Prog.bind_ok_inv h
  obtain ⟨signatureTimestamp, atChain, htimestamp, h⟩ := Prog.bind_ok_inv h
  obtain ⟨⟨response, client⟩, atPlayerJs, hchain, h⟩ := Prog.bind_ok_inv h
  obtain ⟨⟨videoInfo, streamingData⟩, w₂, hchecked, h⟩ := Prog.bind_ok_inv h
  rw [Prog.run_ofExcept] at hchecked
  obtain ⟨hcheck, rfl⟩ := Prod.mk.inj hchecked
  obtain ⟨resolvedPlayerJsUrl, atTasks, hplayerJs, h⟩ := Prog.bind_ok_inv h
  obtain ⟨resolved, w₃, hformats, h⟩ := Prog.bind_ok_inv h
  rw [resolveFormats_eq] at hformats
  obtain ⟨outcomes, w₄, htasks, hresolved⟩ := Prog.bind_ok_inv hformats
  obtain rfl := Except.ok.inj (Prod.mk.inj hresolved).1
  have hdata : response.streamingData = some streamingData := by
    rcases checkResponse_cases visit.videoId response with
      ⟨-, he⟩ | ⟨e, -, -, he⟩ | ⟨_, _, -, -, hdata, hok⟩
    · exact absurd (he.symm.trans hcheck) (by simp)
    · exact absurd (he.symm.trans hcheck) (by simp)
    · obtain ⟨-, hsame⟩ := Prod.mk.inj (Except.ok.inj (hok.symm.trans hcheck))
      exact hsame ▸ hdata
  refine ⟨⟨playerJsUrl, signatureTimestamp, response, client, streamingData, resolvedPlayerJsUrl,
    outcomes, atChain, atPlayerJs, atTasks⟩,
    ⟨hmissed, ⟨w₁, hurl, htimestamp⟩, hchain, hdata, hplayerJs, congrArg Prod.fst htasks⟩, ?_⟩
  split_ifs at h
  · cases h
  · obtain rfl := Except.ok.inj (Prod.mk.inj h).1
    exact ⟨rfl, rfl⟩

-- What is selected of a resolution is given by it.
theorem gives_of_selected {visit : Visit} {options : ExtractionOptions} {x : Extraction}
    {result : StreamResult} (hx : x.Happens env w visit) (hclient : x.client = found.winningClient)
    (hresolved : found.resolvedFormats = x.outcomes.filterMap Except.toOption)
    (h : Selected env videoId options found result) : x.Gives videoId result := by
  obtain ⟨selection, now, hselect, rfl⟩ := h
  refine ⟨rfl, congrArg (fun client => client.fields.userAgent) hclient.symm, fun stream hstream =>
    ?_⟩
  obtain ⟨pair, hm, hconverts⟩ := select_converts hselect hstream
  obtain ⟨index, hformat, houtcome⟩ := deciphering_outcome hx.tasks (hresolved ▸ hm)
  obtain ⟨hpresents, hurl⟩ := toStreamFormat_presents hconverts
  exact ⟨index, pair.1, hformat, hpresents, by rw [houtcome, hurl]⟩

end

-- The state during a run, and the calls made so far, each with the state in which it started.
structure History where
  world : World
  past : List (World × Visit) := []

section

variable (env : Env)

def History.outcome (history : History) (visit : Visit) : Except Throwable StreamResult :=
  ((extract env visit.schedule visit.videoId visit.options).run history.world).1

def History.after (history : History) (visit : Visit) : History where
  world := ((extract env visit.schedule visit.videoId visit.options).run history.world).2
  past := history.past ++ [(history.world, visit)]

-- The result was made by one of these calls, which asked for the same video.
def ComesFrom (calls : List (World × Visit)) (videoId : Str) (result : StreamResult) : Prop :=
  ∃ source ∈ calls, source.2.videoId = videoId ∧ ∃ x : Extraction, x.Happens env source.1 source.2 ∧
    x.Asked env source.2 ∧ x.Gives videoId result

-- What a call returns was made by itself or by an earlier call.
def HasProvenance (history : History) (visit : Visit) : Prop :=
  ∀ result, history.outcome env visit = .ok result →
    ComesFrom env (history.after env visit).past visit.videoId result

-- Every entry of the cache was made by a call of the run.
def Sourced (history : History) : Prop :=
  ∀ videoId entry, history.world.extractionCache.map.lookup videoId = some entry →
    ComesFrom env history.past videoId entry.value

end

section

variable {env : Env} {history : History} {visit : Visit}

theorem ComesFrom.later {calls : List (World × Visit)} {videoId : Str} {result : StreamResult}
    (h : ComesFrom env calls videoId result) (call : World × Visit) :
    ComesFrom env (calls ++ [call]) videoId result := by
  obtain ⟨source, hm, hsource⟩ := h
  exact ⟨source, List.mem_append_left _ hm, hsource⟩

theorem Sourced.hit {result : StreamResult} (hs : Sourced env history)
    (h : cached env visit.videoId history.world = some result) :
    HasProvenance env history visit ∧ Sourced env (history.after env visit) := by
  have hrun : (extract env visit.schedule visit.videoId visit.options).run history.world =
      (.ok result, afterMiss env visit.videoId history.world) := extract_hit h
  constructor
  · intro returned hreturned
    rw [History.outcome, hrun] at hreturned
    obtain rfl := Except.ok.inj hreturned
    obtain ⟨entry, hentry, rfl⟩ := cached_entry h
    exact (hs _ entry hentry).later _
  · intro videoId entry hentry
    rw [History.after, hrun] at hentry
    exact (hs videoId entry (lookup_afterMiss hentry)).later _

-- A call that the cache does not answer makes its own result, and stores no other one.
theorem Sourced.miss (hs : Sourced env history)
    (h : cached env visit.videoId history.world = none) :
    HasProvenance env history visit ∧ Sourced env (history.after env visit) := by
  obtain ⟨middle, -, hcache, hcases⟩ := extract_miss_cases visit.schedule visit.options h
  have hold (videoId : Str) (entry : Entry StreamResult)
      (hentry : middle.extractionCache.map.lookup videoId = some entry) :
      ComesFrom env (history.after env visit).past videoId entry.value := by
    rw [hcache] at hentry
    exact (hs videoId entry (lookup_afterMiss hentry)).later _
  rcases hcases with ⟨e, hrun⟩ | ⟨found, result, stored, hresolve, -, hselected, hput, hrun⟩
  · refine ⟨fun returned hreturned => ?_, fun videoId entry hentry => ?_⟩
    · rw [History.outcome, hrun] at hreturned
      cases hreturned
    · refine hold videoId entry ?_
      rwa [History.after, hrun] at hentry
  · have hown : ComesFrom env (history.after env visit).past visit.videoId result := by
      obtain ⟨x, hx, hclient, hresolved⟩ := resolve_happens h hresolve
      refine ⟨(history.world, visit), List.mem_append_right _ List.mem_cons_self, rfl, x, hx, ?_,
        gives_of_selected hx hclient hresolved hselected⟩
      exact fallback_says hx.chain
    refine ⟨fun returned hreturned => ?_, fun videoId entry hentry => ?_⟩
    · rw [History.outcome, hrun] at hreturned
      exact Except.ok.inj hreturned ▸ hown
    · have hafter : (history.after env visit).world = stored := by rw [History.after, hrun]
      rw [hafter] at hentry
      rcases (put_stores hput).2 videoId entry hentry with ⟨rfl, rfl⟩ | hkept
      · exact hown
      · exact hold videoId entry hkept

theorem Sourced.step (hs : Sourced env history) (visit : Visit) :
    HasProvenance env history visit ∧ Sourced env (history.after env visit) := by
  cases h : cached env visit.videoId history.world with
  | some result => exact hs.hit h
  | none => exact hs.miss h

end

-- Every result of a run is made of one response to a request for its own video.
theorem run_hasProvenance (env : Env) (w : World) (hempty : w.extractionCache.map = .empty)
    (visits : List Visit) :
    Along (History.after env) (HasProvenance env) { world := w } visits := by
  have hfresh : Sourced env { world := w } := by
    intro videoId entry hentry
    rw [hempty] at hentry
    cases hentry
  exact Along.always (fun _ visit hs => hs.step visit) hfresh visits

-- The second of two calls gets from the cache what the first one made of its response.
theorem run_hasProvenance_twice :
    ∃ result, History.outcome (serving [videoFormat, audioFormat])
        (History.after (serving [videoFormat, audioFormat]) { world := freshWorld } (visiting {}))
        (visiting {}) =
          .ok result ∧
      ComesFrom (serving [videoFormat, audioFormat])
        (History.after (serving [videoFormat, audioFormat])
          (History.after (serving [videoFormat, audioFormat]) { world := freshWorld } (visiting {}))
          (visiting {})).past (str "dQw4w9WgXcQ") result := by
  obtain ⟨-, hsecond, -⟩ :=
    run_hasProvenance (serving [videoFormat, audioFormat]) freshWorld rfl [visiting {}, visiting {}]
  exact ⟨_, rfl, hsecond _ rfl⟩

end Ytdlpdroid.YouTubeExtractor
