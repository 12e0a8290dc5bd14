import Ytdlpdroid.Extractor.YouTubeExtractor.Interleaved
import Ytdlpdroid.Extractor.YouTubeExtractor.Specification

namespace Ytdlpdroid

open Text Concurrent

section

variable {env : Env} {I : World → Prop}

theorem getOrNull_yields {α : Type} {p : Action α} {o : Except Throwable α}
    (h : Prog.Yields I o p) :
    Prog.Yields I (.ok o.toOption) (getOrNull p) := by
  refine h.attempt.bind ?_
  cases o <;> exact rfl

namespace InnerTubeClient

-- Setting up the session fails for nobody, whoever else sets it up in between.
theorem ensureSession_ends (hio : env.IoFailures) (hI : NetworkFrame I) :
    Prog.Ends I (Except.ok () = ·) (ensureSession env) := by
  refine Prog.Ends.bind_atomic fun w hw => ⟨hw, ?_⟩
  dsimp only
  split_ifs
  · exact rfl
  · have hblock :
        Prog.Ends I (fun o : Except Throwable Unit => ∀ e, o = .error e → e.isException) (do
        let response ← executeCall env homeRequest
        let html ← Prog.ofExcept (pageOf response)
        writing fun w => { w with cachedVisitorData := visitorDataIn html }) := by
      have hcall :
          Prog.Ends I (fun o : Except Throwable Response => (∀ e, o = .error e → e.isException) ∧
          ∀ response e, o = .ok response → pageOf response = .error e → e.isException)
          (executeCall env homeRequest) := by
        refine Prog.Ends.attemptAtomic fun w hw =>
          ⟨⟨fun e he => (hio.call he).isException, ?_⟩, hI.log w _ hw⟩
        intro response e (hresponse : (callOf env w homeRequest).outcome = .ok response) hpage
        refine homePage_error (w := w) hio ?_
        rw [homePage, hresponse]
        exact hpage
      refine hcall.bind (fun response hresponse => ?_) fun e he => ?_
      · refine Prog.Ends.bind (P := fun o => o = pageOf response) (Prog.Ends.ofExcept rfl)
          (fun html _ => ?_) ?_
        · refine fun w hw => ⟨hI.session w _ w.sessionInitialized hw, ?_⟩
          rintro _ ⟨⟩
        · rintro e he _ ⟨⟩
          exact hresponse.2 response e rfl he.symm
      · rintro _ ⟨⟩
        exact he.1 e rfl
    refine hblock.attempt.bind (fun outcome houtcome => ?_) fun e he => ?_
    · obtain ⟨_, ⟨⟩, hexception⟩ := houtcome
      refine Prog.Ends.bind_atomic fun w hw => ⟨hI.session w w.cachedVisitorData _ hw, ?_⟩
      cases outcome with
      | ok done => exact rfl
      | error e =>
          dsimp only
          rw [if_pos (hexception e rfl)]
          exact rfl
    · obtain ⟨_, ⟨⟩, _⟩ := he

theorem visitorDataFor_ends (hio : env.IoFailures) (hI : NetworkFrame I)
    (config : InnerTubeClientConfig) :
    Prog.Ends I (fun o => ∃ visitorData, o = .ok visitorData) (visitorDataFor env config) := by
  cases config with
  | WEB =>
      refine (ensureSession_ends hio hI).bind (fun _ _ => ?_) fun e he => nomatch he
      exact fun w hw => ⟨hw, _, rfl⟩
  | _ => exact ⟨none, rfl⟩

end InnerTubeClient

namespace YouTubeExtractor

open DecipherService PlayerJsRepository

variable {videoId : Str} {regionCode : Option Str} {signatureTimestamp : Option Int}
  {outcomes : InnerTubeClientConfig → Except Throwable Response}

-- The answer of a client does not depend on what the session has found so far.
theorem askClient_yields (hio : env.IoFailures) (hI : NetworkFrame I)
    (hanswers : env.Answers videoId regionCode signatureTimestamp outcomes)
    (client : InnerTubeClientConfig) :
    Prog.Yields I (judge env videoId (outcomes client))
      (askClient env videoId regionCode signatureTimestamp client) := by
  have hfetch : Prog.Yields I (InnerTubeClient.answer env (outcomes client))
      (InnerTubeClient.fetchPlayerResponse env videoId client regionCode signatureTimestamp) := by
    refine Prog.Ends.yields ?_
    have hvisitor := InnerTubeClient.visitorDataFor_ends hio hI client
    refine hvisitor.bind (fun visitorData _ => Prog.Yields.ends ?_) fun e he => ?_
    · let request :=
        InnerTubeClient.playerRequest client videoId visitorData regionCode signatureTimestamp
      have hcall : Prog.Yields I (outcomes client) (executeCall env request) :=
        Prog.Yields.attemptAtomic fun w hw => ⟨hanswers _ client visitorData, hI.log w _ hw⟩
      have hsend : Prog.Yields I (InnerTubeClient.answer env (outcomes client))
          (InnerTubeClient.sendRequest env request >>= fun response =>
            .ofExcept (InnerTubeClient.readResponse env response)) := by
        cases ho : outcomes client with
        | error e =>
            rw [ho] at hcall
            exact Prog.Yields.bind_error _ (hcall.tryCatch_error (by exact rfl))
        | ok response =>
            rw [ho] at hcall
            exact (hcall.tryCatch_ok _).bind (.ofExcept I _)
      exact hsend
    · obtain ⟨_, he⟩ := he
      cases he
  have hjudge : judge env videoId (outcomes client) = do
      let raw ← InnerTubeClient.answer env (outcomes client)
      PlayerResponseParser.checkPlayability raw videoId
      return raw := rfl
  rw [hjudge]
  exact hfetch.seq fun raw _ => (Prog.Yields.ofExcept I _).seq fun _ _ => rfl

-- By induction on the clients that are left: the chain remembers of the errors what decides.
theorem fallback_yields {verdict : InnerTubeClientConfig → Except Throwable RawPlayerResponse}
    (hask : ∀ client, Prog.Yields I (verdict client)
      (askClient env videoId regionCode signatureTimestamp client))
    (clients : List InnerTubeClientConfig) (seen : List Throwable) :
    Prog.Yields I (chosenAmong videoId verdict seen clients)
      (fallback env videoId regionCode signatureTimestamp clients seen.getLast?
        (lastGeoBlocked seen)) := by
  induction clients generalizing seen with
  | nil =>
      rw [chosenAmong, List.find?_nil, List.filterMap_nil, List.append_nil]
      exact rfl
  | cons client rest ih =>
      refine (hask client).attempt.bind ?_
      cases hverdict : verdict client with
      | ok response =>
          rw [chosenAmong_decides (by rw [hverdict]; rfl), hverdict]
          exact rfl
      | error e =>
          by_cases hpassed : e.isYTDLPError ∧ e.cls ≠ .liveStreamNotSupported
          · have hnext := ih (seen ++ [e])
            rw [List.getLast?_concat, lastGeoBlocked_concat] at hnext
            rw [chosenAmong_passes (by rw [hverdict, passedOver_error, if_pos hpassed])]
            dsimp only
            rw [if_neg hpassed.2, if_pos hpassed.1]
            by_cases hgeo : e.cls = .geoBlocked
            · rw [if_pos hgeo] at hnext ⊢
              exact hnext
            · rw [if_neg hgeo] at hnext ⊢
              exact hnext
          · rw [chosenAmong_decides (by rw [hverdict, passedOver_error, if_neg hpassed]), hverdict]
            dsimp only
            by_cases hlive : e.cls = .liveStreamNotSupported
            · rw [if_pos hlive]
              exact rfl
            · have hnot : ¬e.isYTDLPError := fun h => hpassed ⟨h, hlive⟩
              have hgeo : e.cls ≠ .geoBlocked :=
                fun hgeo => hnot (by simp [Throwable.isYTDLPError, hgeo])
              rw [if_neg hlive, if_neg hgeo, if_neg hnot]
              exact rfl

-- What an instance makes of the watch page and of its own caches when nothing else runs.
def playerJsUrlAt (env : Env) (videoId : Str) (w : World) : Except Throwable Str :=
  ((fetchPlayerJsUrl env videoId).run w).1

def timestampAt (env : Env) (videoId : Str) (w : World) : Option Int := do
  let url ← (playerJsUrlAt env videoId w).toOption
  let js ← (playerJsAt env url w).toOption
  extractSignatureTimestamp js

def siteAt (env : Env) (videoId : Str)
    (outcomes : InnerTubeClientConfig → Except Throwable Response) (w : World) :
    Site where
  playerJsUrl := playerJsUrlAt env videoId w
  verdict client := judge env videoId (outcomes client)

-- The server of a video answers alike at any time, and if its watch page names a player, it
-- is this one.
structure SteadyVideo (env : Env) (url videoId : Str) (regionCode : Option Str)
    (outcomes : InnerTubeClientConfig → Except Throwable Response) (w : World) : Prop where
  watchPage : ∀ n, env.network n (watchRequest videoId) = env.network 0 (watchRequest videoId)
  names : ∀ path, playerJsUrlAt env videoId w = .ok path → path = url
  answers : env.Answers videoId regionCode (timestampAt env videoId w) outcomes

-- The engine and the server of the player answer alike at any time, and nothing fails but
-- the network.
structure SteadyLibrary (env : Env) (url : Str) : Prop where
  engine : env.SteadyEngine
  player : env.SteadyAnswer url
  disk : env.SoundDisk
  failures : env.IoFailures

section

variable {url : Str} {o : Except Throwable Str} {pinned : Prop} {js : Str}
  {sigCode nCode : Except Throwable Str}
  {w : World}

theorem shared_networkFrame : NetworkFrame (Shared env url o pinned js sigCode nCode) where
  log := shared_logFrame
  session :=
    fun _ _ _ h => ⟨⟨h.supplied.memory, h.supplied.kept, h.supplied.disk, h.supplied.fetched⟩,
    ⟨h.codes.sigCached, h.codes.sigMissing, h.codes.nCached, h.codes.nMissing⟩⟩

theorem Shared.recount (h : Shared env url o pinned js sigCode nCode w)
    (extractionCache : MemoryCache Str StreamResult) (readings : Nat) :
    Shared env url o pinned js sigCode nCode { w with extractionCache, readings } :=
  ⟨⟨h.supplied.memory, h.supplied.kept, h.supplied.disk, h.supplied.fetched⟩,
    ⟨h.codes.sigCached, h.codes.sigMissing, h.codes.nCached, h.codes.nMissing⟩⟩

theorem fetchPlayerJsUrl_yields (hvideo : SteadyVideo env url videoId regionCode outcomes w)
    (hw : Shared env url o pinned js sigCode nCode w) :
    Prog.Yields (Shared env url o pinned js sigCode nCode) (playerJsUrlAt env videoId w)
      (fetchPlayerJsUrl env videoId) := by
  have hdetermined : Prog.Determined LogFrame (fetchPlayerJsUrl env videoId) := by
    refine (fetchText_determined hvideo.watchPage).bind fun html => ?_
    cases playerJsUrlIn html with
    | none => exact .throw _
    | some url => exact .pure url
  exact hdetermined.yields shared_logFrame hw

theorem prefetchTimestamp_yields (hdisk : env.SoundDisk)
    (hvideo : SteadyVideo env url videoId regionCode outcomes w)
    (hw : Shared env url o pinned js sigCode nCode w) :
    Prog.Yields (Shared env url o pinned js sigCode nCode) (.ok (timestampAt env videoId w))
      (prefetchTimestamp env (playerJsUrlAt env videoId w).toOption) := by
  unfold timestampAt
  cases hpath : playerJsUrlAt env videoId w with
  | error e => exact rfl
  | ok path =>
      obtain rfl := hvideo.names path hpath
      have hfetch :
          Prog.Yields (Shared env path o pinned js sigCode nCode) o (fetchPlayerJs env path) :=
        fetchPlayerJs_shared hdisk
      have hplayerJs := playerJsAt_eq hdisk hw
      cases o with
      | error e =>
          have hfound : Prog.Yields (Shared env path (.error e) pinned js sigCode nCode) _
            (getOrNull (fetchPlayerJs env path >>= fun js =>
              return extractSignatureTimestamp js)) :=
            getOrNull_yields (hfetch.bind_error _)
          refine hfound.bind ?_
          rw [Except.toOption, Option.bind_eq_bind, Option.bind_some, hplayerJs]
          exact rfl
      | ok text =>
          have hfound : Prog.Yields (Shared env path (.ok text) pinned js sigCode nCode) _
            (getOrNull (fetchPlayerJs env path >>= fun js =>
              return extractSignatureTimestamp js)) :=
            getOrNull_yields (hfetch.bind rfl)
          refine hfound.bind ?_
          rw [Except.toOption, Option.bind_eq_bind, Option.bind_some, hplayerJs]
          exact rfl

-- What a format deciphers to, whatever the tasks beside it do.
theorem deciphered_yields (h : SteadyLibrary env url) (hjs : ∀ text, o = .ok text → js = text)
    (hw : Shared env url o pinned js sigCode nCode w) (format : RawFormat) :
    Prog.Yields (Shared env url o pinned js sigCode nCode)
      ((buildPlayableUrl env format url).run w).1
      (buildPlayableUrl env format url) := by
  obtain ⟨outcome, hbuild⟩ : ∃ outcome,
      Prog.Yields (Shared env url o pinned js sigCode nCode) outcome
        (buildPlayableUrl env format url) :=
    buildPlayableUrl_shared h.engine h.disk hjs format
  rw [(hbuild.run hw).1]
  exact hbuild

theorem resolvePlayerJsUrl_yields (hvideo : SteadyVideo env url videoId regionCode outcomes w)
    (hw : Shared env url o pinned js sigCode nCode w) :
    Prog.Yields (Shared env url o pinned js sigCode nCode) (playerJsUrlAt env videoId w)
      (resolvePlayerJsUrl env (playerJsUrlAt env videoId w).toOption videoId) := by
  have hpath :
      Prog.Yields (Shared env url o pinned js sigCode nCode) _ (fetchPlayerJsUrl env videoId) :=
    fetchPlayerJsUrl_yields hvideo hw
  cases hurl : playerJsUrlAt env videoId w with
  | error e =>
      rw [hurl] at hpath
      exact hpath
  | ok path => exact rfl

theorem resolve_yields (h : SteadyLibrary env url)
    (hvideo : SteadyVideo env url videoId regionCode outcomes w)
    (hjs : ∀ text, o = .ok text → js = text) (hw : Shared env url o pinned js sigCode nCode w)
    (schedule : List Nat) :
    Prog.Yields (Shared env url o pinned js sigCode nCode)
      (resolutionOf (fun url format => deciphered env url w format) videoId
        (siteAt env videoId outcomes w))
      (resolve env schedule videoId regionCode) := by
  have hchain : Prog.Yields (Shared env url o pinned js sigCode nCode) _
      (fetchWithFallback env videoId regionCode (timestampAt env videoId w)) :=
    fallback_yields (askClient_yields h.failures shared_networkFrame hvideo.answers) clientChain []
  rw [resolve_eq]
  refine (getOrNull_yields (fetchPlayerJsUrl_yields hvideo hw)).bind ?_
  refine (prefetchTimestamp_yields h.disk hvideo hw).bind ?_
  refine hchain.seq fun (response, winningClient) _ => ?_
  refine (Prog.Yields.ofExcept _ _).seq fun (videoInfo, streamingData) _ => ?_
  refine (resolvePlayerJsUrl_yields hvideo hw).seq fun path hpath => ?_
  obtain rfl := hvideo.names path hpath
  refine (resolveFormats_yields (fun format _ => deciphered_yields h hjs hw format) schedule).bind
    ?_
  exact Prog.Yields.ite (fun _ => rfl) fun _ => rfl

-- Every result that the cache holds is of this kind.
def Holding (granted : Str → StreamResult → Prop) (w : World) : Prop :=
  ∀ videoId entry, w.extractionCache.map.lookup videoId = some entry → granted videoId entry.value

theorem holding_frame (granted : Str → StreamResult → Prop) : LibraryFrame (Holding granted) where
  log := fun _ _ h => h
  session := fun _ _ _ h => h
  engine := fun _ _ _ h => h
  memory := fun _ _ h => h
  disk := fun _ _ _ h => h
  functions := fun _ _ _ h => h

theorem Shared.afterMiss {videoId' : Str} (h : Shared env url o pinned js sigCode nCode w) :
    Shared env url o pinned js sigCode nCode (afterMiss env videoId' w) := by
  unfold YouTubeExtractor.afterMiss ExtractionCache.get
  rw [Prog.run_atomic]
  cases w.extractionCache.map.lookup videoId' with
  | none => exact h
  | some entry => exact h.recount _ _

variable {granted : Str → StreamResult → Prop} {options : ExtractionOptions}

-- Storing a result of the kind keeps the cache as it is to be.
theorem put_ends {result : StreamResult} (hgranted : granted videoId result) :
    Prog.Ends (fun w => Shared env url o pinned js sigCode nCode w ∧ Holding granted w)
      (Except.ok () = ·)
      (ExtractionCache.put env videoId result) := by
  refine Prog.Ends.bind_atomic fun w ⟨hshared, hholding⟩ =>
    ⟨⟨hshared.recount w.extractionCache _, hholding⟩, ?_⟩
  dsimp only
  split_ifs
  · intro w ⟨hshared, hholding⟩
    refine ⟨⟨hshared.recount _ _, fun other entry hentry => ?_⟩, rfl⟩
    simp only [MemoryCache.put, MemoryCache.lookup_insert] at hentry
    split_ifs at hentry with hevicted hother
    · obtain rfl := Option.some.inj hentry
      exact hother ▸ hgranted
    · exact hholding other entry hentry
  · exact rfl

-- What a visit may end in: a result of the kind, or the error that it has by itself.
structure Specified (specification : Int → Except Throwable StreamResult)
    (granted : StreamResult → Prop) (outcome : Except Throwable StreamResult) : Prop where
  ok : ∀ result, outcome = .ok result → granted result
  error : ∀ e, outcome = .error e → ∀ now, specification now = .error e

theorem specified_ok {specification : Int → Except Throwable StreamResult}
    {granted : StreamResult → Prop} {result : StreamResult} (h : granted result) :
    Specified specification granted (.ok result) := by
  refine ⟨?_, fun e he => nomatch he⟩
  rintro _ ⟨⟩
  exact h

theorem specified_error {specification : Int → Except Throwable StreamResult}
    {granted : StreamResult → Prop} {e : Throwable} (h : ∀ now, specification now = .error e) :
    Specified specification granted (.error e) := by
  refine ⟨fun result hresult => ?_, ?_⟩
  · cases hresult
  · rintro _ ⟨⟩
    exact h

-- The specification of one visit.
def resultAt (env : Env) (videoId : Str) (options : ExtractionOptions)
    (outcomes : InnerTubeClientConfig → Except Throwable Response) (w : World) (now : Int) :
    Except Throwable StreamResult :=
  resultOf env.av1UnsafeOnThisDevice (fun url format => deciphered env url w format) videoId options
    (siteAt env videoId outcomes w) now

-- The cache answers with results of the kind only.
theorem get_ends :
    Prog.Ends (fun w => Shared env url o pinned js sigCode nCode w ∧ Holding granted w)
    (fun outcome => ∃ found, outcome = .ok found ∧ ∀ result, found = some result →
      granted videoId result)
    (ExtractionCache.get env videoId) := by
  intro w ⟨hshared, hholding⟩
  refine ⟨⟨hshared.afterMiss, fun other entry hentry =>
    hholding other entry (lookup_afterMiss hentry)⟩, _, rfl, ?_⟩
  intro result hfound
  have hcached : cached env videoId w = some result := by
    rw [cached, ExtractionCache.get, Prog.run_atomic]
    exact hfound
  obtain ⟨entry, hentry, rfl⟩ := cached_entry hcached
  exact hholding videoId entry hentry

theorem assemble_ends {found : Resolution}
    (hfound : resolutionOf (fun url format => deciphered env url w format) videoId
      (siteAt env videoId outcomes w) =
      .ok found)
    (hgranted : ∀ n result, resultAt env videoId options outcomes w (env.clock n) = .ok result →
      granted videoId result) :
    Prog.Ends (fun w => Shared env url o pinned js sigCode nCode w ∧ Holding granted w)
      (Specified (resultAt env videoId options outcomes w) (granted videoId))
      (assemble env videoId options found) := by
  have hresult (now : Int) : resultAt env videoId options outcomes w now = do
      let selection ← FormatSelector.select env.av1UnsafeOnThisDevice found.resolvedFormats options
      return streamResult videoId found selection now := by
    rw [resultAt, resultOf, hfound]
    rfl
  refine Prog.Ends.bind
    (P := (FormatSelector.select env.av1UnsafeOnThisDevice found.resolvedFormats options = ·))
    (Prog.Ends.ofExcept rfl) (fun selection hselect => ?_) fun e hselect =>
      specified_error fun now => ?_
  · refine Prog.Ends.bind_atomic fun w' ⟨hshared, hholding⟩ =>
      ⟨⟨hshared.recount w'.extractionCache _, hholding⟩, Prog.Ends.pure (specified_ok ?_)⟩
    refine hgranted w'.readings _ ?_
    rw [hresult, hselect]
    rfl
  · rw [hresult, hselect]
    rfl

theorem extract_ends (h : SteadyLibrary env url)
    (hvideo : SteadyVideo env url videoId options.regionCode outcomes w)
    (hjs : ∀ text, o = .ok text → js = text) (hw : Shared env url o pinned js sigCode nCode w)
    (hgranted : ∀ n result, resultAt env videoId options outcomes w (env.clock n) = .ok result →
      granted videoId result) (schedule : List Nat) :
    Prog.Ends (fun w => Shared env url o pinned js sigCode nCode w ∧ Holding granted w)
      (Specified (resultAt env videoId options outcomes w) (granted videoId))
      (extract env schedule videoId options) := by
  refine get_ends.bind ?_ fun e ⟨_, he, _⟩ => nomatch he
  rintro found ⟨_, ⟨⟩, hfound⟩
  cases found with
  | some result => exact Prog.Ends.pure (specified_ok (hfound result rfl))
  | none =>
      have hresolve := (resolve_yields h hvideo hjs hw schedule).ends.and
        (resolve_preserves (holding_frame granted) env schedule videoId options.regionCode)
      refine hresolve.bind (fun found hresolution => ?_) fun e he => specified_error fun now => ?_
      · refine (assemble_ends hresolution hgranted).bind (fun result hspecified => ?_)
          fun e hspecified => specified_error (hspecified.error e rfl)
        have hresult := hspecified.ok result rfl
        exact (put_ends hresult).bind (fun _ _ => Prog.Ends.pure (specified_ok hresult)) fun e he =>
          nomatch he
      · rw [resultAt, resultOf, he]
        rfl

end

-- A result that the specification of a visit to the video gives for a reading of the clock.
def Granted (env : Env) (outcomes : Visit → InnerTubeClientConfig → Except Throwable Response)
    (visits : List Visit) (w : World) (videoId : Str) (result : StreamResult) : Prop :=
  ∃ visit ∈ visits, visit.videoId = videoId ∧
    ∃ n, resultAt env videoId visit.options (outcomes visit) w (env.clock n) = .ok result

-- However the accesses of any number of visits are interleaved, each visit ends as a visit to this
-- video does that is made alone: a result is the one that the specification gives for its
-- options, or for those of another visit that has stored it, and an error is the one that
-- it gives for its own.
theorem interleaved_refines (env : Env) (url : Str)
    (outcomes : Visit → InnerTubeClientConfig → Except Throwable Response) (schedule : List Nat)
    (visits : List Visit) (w : World) (h : SteadyLibrary env url)
    (hvideos : ∀ visit ∈ visits, SteadyVideo env url visit.videoId visit.options.regionCode
      (outcomes visit) w)
    (hempty : w.extractionCache.map = .empty) :
    (∀ count, Holding (Granted env outcomes visits w)
      ((interleaved env schedule visits).stopAfter count w)) ∧
    ∃ ends w', (interleaved env schedule visits).run w = (.ok ends, w') ∧
      List.Forall₂ (fun visit =>
        Specified (resultAt env visit.videoId visit.options (outcomes visit) w)
          (Granted env outcomes visits w visit.videoId)) visits ends := by
  obtain ⟨o, pinned, js, sigCode, nCode, hjs, hshared⟩ := exists_shared h.engine h.player w
  have hholding : Holding (Granted env outcomes visits w) w := by
    intro videoId entry hentry
    rw [hempty] at hentry
    cases hentry
  have htasks :
      List.Forall₂
        (fun task post => Prog.Ends (fun w' => Shared env url o pinned js sigCode nCode w' ∧
          Holding (Granted env outcomes visits w) w') post task)
        (visits.map fun visit => extract env visit.schedule visit.videoId visit.options)
        (visits.map fun visit =>
          Specified (resultAt env visit.videoId visit.options (outcomes visit) w)
            (Granted env outcomes visits w visit.videoId)) := by
    rw [List.forall₂_map_left_iff, List.forall₂_map_right_iff, List.forall₂_same]
    intro visit hm
    have hgranted (n : Nat) (result : StreamResult)
        (hresult : resultAt env visit.videoId visit.options (outcomes visit) w (env.clock n) =
          .ok result) :
        Granted env outcomes visits w visit.videoId result :=
      ⟨visit, hm, rfl, n, hresult⟩
    exact extract_ends h (hvideos visit hm) hjs hshared hgranted visit.schedule
  have hpar : Prog.Ends _ _ (interleaved env schedule visits) := Prog.Ends.par schedule htasks
  refine ⟨fun count => (hpar.stopAfter ⟨hshared, hholding⟩ count).2, ?_⟩
  obtain ⟨ends, hends, hspecified⟩ := (hpar.run ⟨hshared, hholding⟩).1
  rw [List.forall₂_map_left_iff] at hspecified
  exact ⟨ends, _, Prod.ext hends rfl, hspecified⟩

theorem serving_steadyLibrary (formats : List RawFormat) :
    SteadyLibrary (serving formats) playerJsUrl :=
  ⟨scriptedEnv_steady, fun _ => rfl, fun _ => rfl, scriptedEnv_ioFailures⟩

theorem serving_steadyVideo (formats : List RawFormat) (regionCode : Option Str) :
    SteadyVideo (serving formats) playerJsUrl (str "dQw4w9WgXcQ") regionCode
      (fun client => scriptedOutcome client)
      freshWorld := by
  refine ⟨fun _ => rfl, fun path hpath => ?_, scriptedEnv_answers _ _ _ _ _⟩
  have hnamed : playerJsUrlAt (serving formats) (str "dQw4w9WgXcQ") freshWorld = .ok playerJsUrl :=
    rfl
  exact Except.ok.inj (hpath.symm.trans hnamed)

-- Two visits to one video whose accesses alternate.
theorem interleaved_refines_two :
    let env := serving [videoFormat, audioFormat]
    ∃ first second w', (interleaved env [0, 1, 0, 1] [visiting {}, visiting {}]).run freshWorld =
        (.ok [.ok first, .ok second], w') ∧
      (∃ n, resultAt env (str "dQw4w9WgXcQ") {} scriptedOutcome freshWorld n = .ok first) ∧
      ∃ n, resultAt env (str "dQw4w9WgXcQ") {} scriptedOutcome freshWorld n = .ok second := by
  intro env
  obtain ⟨-, outcomes, w', hrun, hspecified⟩ :=
    interleaved_refines env playerJsUrl (fun _ => scriptedOutcome)
    [0, 1, 0, 1] [visiting {}, visiting {}] freshWorld (serving_steadyLibrary _)
    (List.forall_mem_cons.mpr
      ⟨serving_steadyVideo _ _, List.forall_mem_singleton.mpr (serving_steadyVideo _ _)⟩) rfl
  have hboth :
      (((interleaved env [0, 1, 0, 1] [visiting {}, visiting {}]).run
        freshWorld).1.toOption.getD []).map (fun outcome => outcome.toOption.isSome) =
        [true, true] := by decide +kernel
  have hgranted {result : StreamResult}
      (h : Granted env (fun _ => scriptedOutcome) [visiting {}, visiting {}]
      freshWorld (str "dQw4w9WgXcQ") result) :
      ∃ n, resultAt env (str "dQw4w9WgXcQ") {} scriptedOutcome freshWorld n = .ok result := by
    obtain ⟨visit, hm, -, n, hresult⟩ := h
    obtain rfl : visit = visiting {} := by simpa using hm
    exact ⟨_, hresult⟩
  rw [hrun] at hboth
  obtain ⟨_ | first, _ | second, rfl⟩ : ∃ first second, outcomes = [first, second] :=
    List.length_eq_two.mp hspecified.length_eq.symm
  · cases hboth
  · cases hboth
  · cases hboth
  · obtain ⟨hfirst, hrest⟩ := List.forall₂_cons.mp hspecified
    obtain ⟨hsecond, -⟩ := List.forall₂_cons.mp hrest
    exact ⟨first, second, w', hrun, hgranted (hfirst.ok first rfl),
      hgranted (hsecond.ok second rfl)⟩

end YouTubeExtractor

end

end Ytdlpdroid
