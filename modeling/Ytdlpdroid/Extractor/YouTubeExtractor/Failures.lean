import Ytdlpdroid.Extractor.YouTubeExtractor.Usable

namespace Ytdlpdroid.YouTubeExtractor

open Text Concurrent DecipherService

section

variable (env : Env) (videoId : Str) (regionCode : Option Str) (signatureTimestamp : Option Int)

-- The call by which a client is asked in a state, and the state it leaves.
def asked (client : InnerTubeClientConfig) (w : World) : Call :=
  let session := (InnerTubeClient.visitorDataFor env client).run w
  callOf env session.2
    (InnerTubeClient.playerRequest client videoId session.1.toOption.join regionCode
    signatureTimestamp)

def afterAsking (client : InnerTubeClientConfig) (w : World) : World :=
  ((InnerTubeClient.visitorDataFor env client).run w).2.log
    (asked env videoId regionCode signatureTimestamp client w)

-- The chain gets to a client that says OK.
inductive Wins : World → List InnerTubeClientConfig → RawPlayerResponse → InnerTubeClientConfig →
    World → Prop
  | here {w : World} {client : InnerTubeClientConfig} {rest : List InnerTubeClientConfig}
      {raw : RawPlayerResponse}
      (hok : Says env (asked env videoId regionCode signatureTimestamp client w).outcome raw
        (str "OK")) :
      Wins w (client :: rest) raw client
        (afterAsking env videoId regionCode signatureTimestamp client w)
  | later {w w' : World} {client winner : InnerTubeClientConfig} {rest : List InnerTubeClientConfig}
      {raw : RawPlayerResponse}
      (hfails : Fails env (asked env videoId regionCode signatureTimestamp client w).outcome)
      (hsurvives : Survivable env
        (asked env videoId regionCode signatureTimestamp client w).outcome)
      (h : Wins (afterAsking env videoId regionCode signatureTimestamp client w) rest
        raw winner w') :
      Wins w (client :: rest) raw winner w'

-- The chain gets to a client with whose outcome it cannot go on.
inductive Abandons : World → List InnerTubeClientConfig → Prop
  | here {w : World} {client : InnerTubeClientConfig} {rest : List InnerTubeClientConfig}
      (hnot : ¬Survivable env (asked env videoId regionCode signatureTimestamp client w).outcome) :
      Abandons w (client :: rest)
  | later {w : World} {client : InnerTubeClientConfig} {rest : List InnerTubeClientConfig}
      (hfails : Fails env (asked env videoId regionCode signatureTimestamp client w).outcome)
      (hsurvives : Survivable env
        (asked env videoId regionCode signatureTimestamp client w).outcome)
      (h : Abandons (afterAsking env videoId regionCode signatureTimestamp client w) rest) :
      Abandons w (client :: rest)

end

section

variable {env : Env} {videoId : Str} {regionCode : Option Str} {signatureTimestamp : Option Int}
  {w w' : World}

theorem askClient_asked (hio : env.IoFailures) (videoId : Str) (regionCode : Option Str)
    (signatureTimestamp : Option Int) (client : InnerTubeClientConfig) (w : World) :
    Ordinary (asked env videoId regionCode signatureTimestamp client w).outcome ∧
      (askClient env videoId regionCode signatureTimestamp client).run w =
        (judge env videoId (asked env videoId regionCode signatureTimestamp client w).outcome,
          afterAsking env videoId regionCode signatureTimestamp client w) := by
  obtain ⟨visitorData, w', hvisitor⟩ := InnerTubeClient.visitorDataFor_run hio client w
  have hask := askClient_run hvisitor videoId regionCode signatureTimestamp
  have hasked : asked env videoId regionCode signatureTimestamp client w =
      callOf env w'
        (InnerTubeClient.playerRequest client videoId visitorData regionCode
          signatureTimestamp) := by
    rw [asked, hvisitor]
    rfl
  have hafter : afterAsking env videoId regionCode signatureTimestamp client w =
      w'.log (asked env videoId regionCode signatureTimestamp client w) := by
    rw [afterAsking, hvisitor]
  rw [hafter, hasked]
  exact ⟨ordinary_call hio w' _, hask⟩

-- An outcome of the public API as documented: a result, or a YTDLPError.
def OnlyYTDLPErrors {α : Type} (outcome : Except Throwable α) : Prop :=
  ∀ e, outcome = .error e → e.isYTDLPError

theorem onlyYTDLPErrors_error {α : Type} {e : Throwable} (h : e.isYTDLPError) :
    OnlyYTDLPErrors (.error e : Except Throwable α) := fun _ he => Except.error.inj he ▸ h

-- The errors that the chain remembers are YTDLPErrors.
def Remembered (last geo : Option Throwable) : Prop :=
  (∀ e, last = some e → e.isYTDLPError) ∧ ∀ e, geo = some e → e.isYTDLPError

theorem Remembered.terminalError {last geo : Option Throwable} (h : Remembered last geo)
    (videoId : Str) :
    (terminalError videoId last geo).isYTDLPError := by
  unfold YouTubeExtractor.terminalError
  split
  · exact h.2 _ rfl
  · split_ifs
    · exact h.1 _ rfl
    · rfl
  · rfl

-- A failure that the chain survives takes it to the next client.
theorem fallback_later (hio : env.IoFailures) {client : InnerTubeClientConfig}
    (hfails : Fails env (asked env videoId regionCode signatureTimestamp client w).outcome)
    (hsurvives : Survivable env (asked env videoId regionCode signatureTimestamp client w).outcome)
    (rest : List InnerTubeClientConfig) (last geo : Option Throwable) :
    ∃ last' geo', (Remembered last geo → Remembered last' geo') ∧
      (fallback env videoId regionCode signatureTimestamp (client :: rest) last geo).run w =
        (fallback env videoId regionCode signatureTimestamp rest last' geo').run
          (afterAsking env videoId regionCode signatureTimestamp client w) := by
  obtain ⟨hordinary, hask⟩ := askClient_asked hio videoId regionCode signatureTimestamp client w
  obtain ⟨e, hjudge, ⟨-, hcaught, hlive⟩ | ⟨hnot, -⟩⟩ := judge_fails videoId hordinary hfails
  · rw [hjudge] at hask
    refine ⟨some e, _, fun hremembered => ⟨?_, ?_⟩, fallback_next hask hcaught hlive⟩
    · rintro other hother
      exact Option.some.inj hother ▸ hcaught
    · intro other hother
      split_ifs at hother
      · exact Option.some.inj hother ▸ hcaught
      · exact hremembered.2 other hother
  · exact absurd hsurvives hnot

theorem Wins.run (hio : env.IoFailures) {clients : List InnerTubeClientConfig}
    {raw : RawPlayerResponse} {client : InnerTubeClientConfig}
    (h : Wins env videoId regionCode signatureTimestamp w clients raw client w')
    (last geo : Option Throwable) :
    (fallback env videoId regionCode signatureTimestamp clients last geo).run w =
    (.ok (raw, client), w') := by
  induction h generalizing last geo with
  | @here w client rest raw hok =>
      obtain ⟨-, hask⟩ := askClient_asked hio videoId regionCode signatureTimestamp client w
      rw [judge_ok.mpr hok] at hask
      exact fallback_ok hask
  | later hfails hsurvives _ ih =>
      obtain ⟨last', geo', -, hnext⟩ := fallback_later hio hfails hsurvives _ last geo
      exact hnext.trans (ih last' geo')

theorem Abandons.run (hio : env.IoFailures) {clients : List InnerTubeClientConfig}
    (h : Abandons env videoId regionCode signatureTimestamp w clients)
    (last geo : Option Throwable) :
    ∃ e w', e.isYTDLPError = false ∧
      (fallback env videoId regionCode signatureTimestamp clients last geo).run w =
      (.error e, w') := by
  induction h generalizing last geo with
  | @here w client rest hnot =>
      obtain ⟨hordinary, hask⟩ := askClient_asked hio videoId regionCode signatureTimestamp client w
      rcases answer_cases hordinary with ⟨hsurvives, -⟩ | ⟨-, e, hanswer, hpassed⟩
      · exact absurd hsurvives hnot
      · rw [judge_error hanswer] at hask
        exact ⟨e, _, hpassed, fallback_abort hask (Or.inl hpassed)⟩
  | later hfails hsurvives _ ih =>
      obtain ⟨last', geo', -, hnext⟩ := fallback_later hio hfails hsurvives _ last geo
      obtain ⟨e, w', hpassed, hrun⟩ := ih last' geo'
      exact ⟨e, w', hpassed, hnext.trans hrun⟩

-- By induction on the clients left: the chain wins, abandons, or ends in a YTDLPError.
theorem fallback_cases (hio : env.IoFailures) (videoId : Str) (regionCode : Option Str)
    (signatureTimestamp : Option Int) (clients : List InnerTubeClientConfig)
    {last geo : Option Throwable} (hremembered : Remembered last geo) (w : World) :
    (∃ raw client w', Wins env videoId regionCode signatureTimestamp w clients raw client w') ∨
    Abandons env videoId regionCode signatureTimestamp w clients ∨
    ∃ e w', e.isYTDLPError ∧
      (fallback env videoId regionCode signatureTimestamp clients last geo).run w =
      (.error e, w') := by
  induction clients generalizing last geo w with
  | nil => exact Or.inr (Or.inr ⟨_, w, hremembered.terminalError videoId, rfl⟩)
  | cons client rest ih =>
      obtain ⟨hordinary, hask⟩ := askClient_asked hio videoId regionCode signatureTimestamp client w
      by_cases hsurvives :
        Survivable env (asked env videoId regionCode signatureTimestamp client w).outcome
      · by_cases hfails :
          Fails env (asked env videoId regionCode signatureTimestamp client w).outcome
        · obtain ⟨last', geo', hkept, hnext⟩ := fallback_later hio hfails hsurvives rest last geo
          rcases ih (hkept hremembered)
            (afterAsking env videoId regionCode signatureTimestamp client w) with
            ⟨raw, winner, w', h⟩ | h | ⟨e, w', he, hrun⟩
          · exact Or.inl ⟨raw, winner, w', .later hfails hsurvives h⟩
          · exact Or.inr (Or.inl (.later hfails hsurvives h))
          · exact Or.inr (Or.inr ⟨e, w', he, hnext.trans hrun⟩)
        · -- a client that does not fail says OK or that the live stream is offline
          obtain ⟨raw, hanswer, hstatus⟩ : ∃ raw,
              InnerTubeClient.answer env
                (asked env videoId regionCode signatureTimestamp client w).outcome =
                .ok raw ∧ (raw.playabilityStatus.status = str "OK" ∨
                  raw.playabilityStatus.status = str "LIVE_STREAM_OFFLINE") := by
            by_contra hnone
            refine hfails fun raw status hsays => ?_
            obtain ⟨hanswer, rfl⟩ := hsays
            exact not_or.mp fun hstatus => hnone ⟨raw, hanswer, hstatus⟩
          rcases hstatus with hok | hoffline
          · exact Or.inl ⟨raw, client, _, .here ⟨hanswer, hok⟩⟩
          · rcases checkPlayability_cases raw videoId with ⟨hok, -⟩ | ⟨-, e, hcheck, hcaught, hlive⟩
            · exact absurd (hok.symm.trans hoffline) (by decide)
            · have hjudge : judge env videoId
                  (asked env videoId regionCode signatureTimestamp client w).outcome =
                    .error e := by
                simp only [judge, hanswer, hcheck, Except.bind]
              rw [hjudge] at hask
              exact Or.inr
                (Or.inr ⟨e, _, hcaught, fallback_abort hask (Or.inr (hlive.mpr hoffline))⟩)
      · exact Or.inr (Or.inl (.here hsurvives))

-- A call that ends in an exception which is no IOException.
def Refused (env : Env) (w : World) (request : Request) : Prop :=
  ∃ e, (callOf env w request).outcome = .error e ∧ ¬e.isIOException

theorem textOf_error {url : Str} {response : Response} {e : Throwable}
    (h : PlayerJsRepository.textOf url response = .error e) :
    e.cls = .playerJsFetchFailed ∨ response.body = some (.unreadable e) := by
  unfold PlayerJsRepository.textOf at h
  split_ifs at h
  · obtain rfl := Except.error.inj h
    exact Or.inl rfl
  · split at h
    · obtain rfl := Except.error.inj h
      exact Or.inl rfl
    · rename_i other hbody
      obtain rfl := Except.error.inj h
      exact Or.inr hbody
    · cases h

-- A watch page that cannot be had is a YTDLPError, unless its call is refused.
theorem fetchPlayerJsUrl_cases (hio : env.IoFailures) (videoId : Str) (w : World) :
    (∃ url w', (PlayerJsRepository.fetchPlayerJsUrl env videoId).run w = (.ok url, w') ∧
      ¬Refused env w (PlayerJsRepository.watchRequest videoId)) ∨
    ∃ e w', (PlayerJsRepository.fetchPlayerJsUrl env videoId).run w = (.error e, w') ∧
      (e.isYTDLPError = false ↔ Refused env w (PlayerJsRepository.watchRequest videoId)) := by
  let request := PlayerJsRepository.watchRequest videoId
  cases htext : PlayerJsRepository.textIn (callOf env w request) with
  | ok html =>
      rw [PlayerJsRepository.fetchPlayerJsUrl,
        Prog.run_bind_ok (PlayerJsRepository.fetchText_ok htext)]
      have hcalled : ¬Refused env w request := by
        rintro ⟨e, he, -⟩
        simp [PlayerJsRepository.textIn, he, Except.bind] at htext
      cases PlayerJsRepository.playerJsUrlIn html with
      | some url => exact Or.inl ⟨url, _, rfl, hcalled⟩
      | none =>
          exact Or.inr
            ⟨_, _, rfl, iff_of_false (by simp [PlayerJsRepository.urlNotFound]; rfl) hcalled⟩
  | error e =>
      have hfetch := PlayerJsRepository.fetchText_error htext
      refine Or.inr ⟨_, _, Prog.run_bind_error hfetch _, ?_⟩
      cases hcall : (callOf env w request).outcome with
      | error other =>
          obtain rfl : other = e := by
            simpa [PlayerJsRepository.textIn, hcall, Except.bind] using htext
          by_cases hioe : other.isIOException = true
          · rw [if_pos hioe]
            refine iff_of_false (by simp [Throwable.isYTDLPError, YTDLPError.playerJsFetchFailed])
              ?_
            rintro ⟨e, he, hnot⟩
            exact hnot (Except.error.inj (hcall.symm.trans he) ▸ hioe)
          · rw [if_neg hioe]
            exact iff_of_true (hio.call hcall).not_YTDLPError ⟨other, hcall, hioe⟩
      | ok response =>
          have htextOf : PlayerJsRepository.textOf request.url response = .error e := by
            rw [PlayerJsRepository.textIn, hcall] at htext
            exact htext
          refine iff_of_false ?_ ?_
          · rcases textOf_error htextOf with hcls | hbody
            · simp [Throwable.isIOException, hcls, Throwable.isYTDLPError]
            · rw [if_pos (hio.body hcall hbody)]
              simp [Throwable.isYTDLPError, YTDLPError.playerJsFetchFailed]
          · rintro ⟨other, hother, -⟩
            cases hcall.symm.trans hother

end

-- What makes `extract` throw something that is no YTDLPError, for a video that the cache does
-- not answer: a response that cannot be read or decoded (or a call that is refused) on the way
-- through the chain, an OK response without details, a refused call for the watch page, or an
-- OK response with a malformed range in a format that deciphers.
inductive Breaks (env : Env) (schedule : List Nat) (videoId : Str) (regionCode : Option Str)
    (w : World) : Prop
  | unreadable {playerJsUrl : Option Str} {signatureTimestamp : Option Int} {w₁ : World}
      (hprefetch : Prefetch env videoId w playerJsUrl signatureTimestamp w₁)
      (h : Abandons env videoId regionCode signatureTimestamp w₁ clientChain) :
      Breaks env schedule videoId regionCode w
  | noDetails {playerJsUrl : Option Str} {signatureTimestamp : Option Int} {w₁ w₂ : World}
      {raw : RawPlayerResponse} {client : InnerTubeClientConfig}
      (hprefetch : Prefetch env videoId w playerJsUrl signatureTimestamp w₁)
      (hwins : Wins env videoId regionCode signatureTimestamp w₁ clientChain raw client w₂)
      (h : raw.videoDetails = none) :
      Breaks env schedule videoId regionCode w
  | refused {signatureTimestamp : Option Int} {w₁ w₂ : World} {raw : RawPlayerResponse}
      {client : InnerTubeClientConfig} {response : VideoInfo × RawStreamingData}
      (hprefetch : Prefetch env videoId w none signatureTimestamp w₁)
      (hwins : Wins env videoId regionCode signatureTimestamp w₁ clientChain raw client w₂)
      (hcheck : checkResponse videoId raw = .ok response)
      (h : Refused env w₂ (PlayerJsRepository.watchRequest videoId)) :
      Breaks env schedule videoId regionCode w
  | malformed {playerJsUrl : Option Str} {url : Str} {signatureTimestamp : Option Int}
      {w₁ w₂ w₃ w₄ : World}
      {raw : RawPlayerResponse} {client : InnerTubeClientConfig} {videoInfo : VideoInfo}
      {streamingData : RawStreamingData} {formats : List (RawFormat × Str)}
      (hprefetch : Prefetch env videoId w playerJsUrl signatureTimestamp w₁)
      (hwins : Wins env videoId regionCode signatureTimestamp w₁ clientChain raw client w₂)
      (hcheck : checkResponse videoId raw = .ok (videoInfo, streamingData))
      (hurl : (resolvePlayerJsUrl env playerJsUrl videoId).run w₂ = (.ok url, w₃))
      (hdecipher : (resolveFormats env schedule url (allFormats streamingData)).run w₃ =
        (.ok formats, w₄))
      (h : ∃ pair ∈ formats, FormatSelector.isSelectable pair.1 ∧
        ¬FormatSelector.HasRanges pair.1) :
      Breaks env schedule videoId regionCode w

section

variable {env : Env} {schedule : List Nat} {videoId : Str} {regionCode : Option Str}
  {w w₁ w₂ : World}
  {playerJsUrl : Option Str} {signatureTimestamp : Option Int} {raw : RawPlayerResponse}
  {client : InnerTubeClientConfig}

theorem Wins.resolve_run (hio : env.IoFailures)
    (hprefetch : Prefetch env videoId w playerJsUrl signatureTimestamp w₁)
    (hwins : Wins env videoId regionCode signatureTimestamp w₁ clientChain raw client w₂)
    (schedule : List Nat) :
    (resolve env schedule videoId regionCode).run w =
      (conclude env schedule videoId playerJsUrl raw client).run w₂ := by
  rw [YouTubeExtractor.resolve_run hprefetch, fetchWithFallback,
    Prog.run_bind_ok (hwins.run hio none none)]

theorem conclude_error {e : Throwable} (h : checkResponse videoId raw = .error e)
    (schedule : List Nat) (playerJsUrl : Option Str) (client : InnerTubeClientConfig) (w : World) :
    (conclude env schedule videoId playerJsUrl raw client).run w = (.error e, w) := by
  rw [conclude, h]
  rfl

theorem conclude_ok {response : VideoInfo × RawStreamingData}
    (h : checkResponse videoId raw = .ok response) (schedule : List Nat) (playerJsUrl : Option Str)
    (client : InnerTubeClientConfig) (w : World) :
    (conclude env schedule videoId playerJsUrl raw client).run w = Prog.run (do
      let url ← resolvePlayerJsUrl env playerJsUrl videoId
      let resolvedFormats ← resolveFormats env schedule url (allFormats response.2)
      if resolvedFormats.isEmpty then .throw (YTDLPError.noStreamsFound videoId)
      else return ⟨raw, client, response.1, response.2, resolvedFormats⟩) w := by
  rw [conclude, h]
  rfl

theorem select_malformed {formats : List (RawFormat × Str)}
    (h : ∃ pair ∈ formats, FormatSelector.isSelectable pair.1 ∧ ¬FormatSelector.HasRanges pair.1)
    (av1Unsafe : Bool) (options : ExtractionOptions) :
    ∃ e, FormatSelector.select av1Unsafe formats options = .error e ∧ e.isYTDLPError = false := by
  obtain ⟨pair, hm, hselectable, hnot⟩ := h
  rcases FormatSelector.select_cases av1Unsafe formats options with
    ⟨hranges, -⟩ | ⟨-, e, hselect, hcls⟩
  · exact absurd (hranges pair hm hselectable) hnot
  · exact ⟨e, hselect, by simp [Throwable.isYTDLPError, hcls]⟩

theorem Breaks.run (hio : env.IoFailures) {options : ExtractionOptions}
    (h : Breaks env schedule videoId options.regionCode w) :
    ∃ e w', e.isYTDLPError = false ∧
      (resolve env schedule videoId options.regionCode >>= finish env videoId options).run w =
      (.error e, w') := by
  cases h with
  | unreadable hprefetch h =>
      obtain ⟨e, w', hpassed, hrun⟩ := h.run hio none none
      have hresolve := YouTubeExtractor.resolve_run hprefetch schedule options.regionCode
      rw [fetchWithFallback, Prog.run_bind_error hrun] at hresolve
      exact ⟨e, w', hpassed, Prog.run_bind_error hresolve _⟩
  | @noDetails playerJsUrl _ _ w₂ raw client hprefetch hwins h =>
      have hresolve := hwins.resolve_run hio hprefetch schedule
      have hcheck : checkResponse videoId raw = .error PlayerResponseParser.noVideoDetails := by
        rw [checkResponse, PlayerResponseParser.isLive, PlayerResponseParser.extractVideoInfo, h]
        rfl
      rw [conclude_error hcheck] at hresolve
      exact ⟨_, _, rfl, Prog.run_bind_error hresolve _⟩
  | refused hprefetch hwins hcheck h =>
      have hresolve := hwins.resolve_run hio hprefetch schedule
      rcases fetchPlayerJsUrl_cases hio videoId _ with ⟨url, w', -, hcalled⟩ | ⟨e, w', herror, hiff⟩
      · exact absurd h hcalled
      · rw [conclude_ok hcheck, resolvePlayerJsUrl, Prog.run_bind_error herror] at hresolve
        exact ⟨e, w', hiff.mpr h, Prog.run_bind_error hresolve _⟩
  | @malformed playerJsUrl url _ _ _ _ w₄ raw client videoInfo streamingData formats hprefetch hwins
      hcheck hurl hdecipher h =>
      have hresolve := hwins.resolve_run hio hprefetch schedule
      have hempty : ¬formats.isEmpty = true := by
        obtain ⟨pair, hm, -⟩ := h
        rw [List.isEmpty_iff]
        exact List.ne_nil_of_mem hm
      rw [conclude_ok hcheck, Prog.run_bind_ok hurl, Prog.run_bind_ok hdecipher,
        if_neg hempty] at hresolve
      obtain ⟨e, hselect, hpassed⟩ := select_malformed h env.av1UnsafeOnThisDevice options
      refine ⟨e, w₄, hpassed, (Prog.run_bind_ok hresolve _).trans ?_⟩
      exact Prog.run_bind_error (assemble_error hselect) _

theorem Breaks.not_onlyYTDLPErrors (hio : env.IoFailures) {options : ExtractionOptions}
    (h : Breaks env schedule videoId options.regionCode w) :
    ¬OnlyYTDLPErrors
      ((resolve env schedule videoId options.regionCode >>= finish env videoId options).run
        w).1 := by
  obtain ⟨e, w', hpassed, hrun⟩ := h.run hio
  intro honly
  have hcaught := honly e (by rw [hrun])
  exact Bool.noConfusion (hpassed.symm.trans hcaught)

-- A selection that fails without a malformed range fails with a YTDLPError.
theorem finish_cases (env : Env) (videoId : Str) (options : ExtractionOptions) (found : Resolution)
    (w : World) :
    (∃ pair ∈ found.resolvedFormats, FormatSelector.isSelectable pair.1 ∧
      ¬FormatSelector.HasRanges pair.1) ∨
      OnlyYTDLPErrors ((finish env videoId options found).run w).1 := by
  rcases finish_run env videoId options found w with
    ⟨selection, result, w', -, -, hrun⟩ | ⟨e, herror, hrun⟩
  · exact Or.inr fun e he => by simp [hrun] at he
  · rcases FormatSelector.select_cases env.av1UnsafeOnThisDevice found.resolvedFormats options with
      ⟨-, ⟨-, selection, hok⟩ | ⟨-, other, hother, hcls⟩⟩ | ⟨hmalformed, -⟩
    · exact absurd (hok.symm.trans herror) (by simp)
    · obtain rfl := Except.error.inj (hother.symm.trans herror)
      rw [hrun]
      exact Or.inr (onlyYTDLPErrors_error (by simp [Throwable.isYTDLPError, hcls]))
    · exact Or.inl hmalformed

-- Deciphering always returns: what a task throws is dropped with its format.
theorem exists_resolveFormats (env : Env) (schedule : List Nat) (url : Str)
    (formats : List RawFormat) (w : World) :
    ∃ found w', (resolveFormats env schedule url formats).run w = (.ok found, w') := by
  obtain ⟨outcomes, w', hrun, -⟩ :=
    Prog.par_outcome schedule (formats.map (resolveFormat env url)) w
  exact ⟨_, w', Prog.run_bind_ok hrun _⟩

theorem resolvePlayerJsUrl_cases (hio : env.IoFailures) (playerJsUrl : Option Str) (videoId : Str)
    (w : World) :
    (∃ url w', (resolvePlayerJsUrl env playerJsUrl videoId).run w = (.ok url, w')) ∨
    ∃ e w', (resolvePlayerJsUrl env playerJsUrl videoId).run w = (.error e, w') ∧
      (playerJsUrl = none ∧ Refused env w (PlayerJsRepository.watchRequest videoId) ∨
        e.isYTDLPError) := by
  cases playerJsUrl with
  | some url => exact Or.inl ⟨url, w, rfl⟩
  | none =>
      rcases fetchPlayerJsUrl_cases hio videoId w with ⟨url, w', hok, -⟩ | ⟨e, w', herror, hiff⟩
      · exact Or.inl ⟨url, w', hok⟩
      · refine Or.inr ⟨e, w', herror, ?_⟩
        cases hclass : e.isYTDLPError with
        | true => exact Or.inr rfl
        | false => exact Or.inl ⟨rfl, hiff.mp hclass⟩

-- Stage by stage: what is thrown is a YTDLPError, or one of the four breaks has happened.
theorem breaks_or_onlyYTDLPErrors (hio : env.IoFailures) (schedule : List Nat) (videoId : Str)
    (options : ExtractionOptions) (w : World) :
    Breaks env schedule videoId options.regionCode w ∨
      OnlyYTDLPErrors
        ((resolve env schedule videoId options.regionCode >>= finish env videoId options).run
          w).1 := by
  have hthrown {e : Throwable} {w' : World}
      (hresolve : (resolve env schedule videoId options.regionCode).run w = (.error e, w'))
      (hcaught : e.isYTDLPError) : OnlyYTDLPErrors
        ((resolve env schedule videoId options.regionCode >>= finish env videoId options).run
          w).1 := by
    rw [Prog.run_bind_error hresolve]
    exact onlyYTDLPErrors_error hcaught
  obtain ⟨playerJsUrl, signatureTimestamp, w₁, hprefetch⟩ := exists_prefetch env videoId w
  have hfresh : Remembered none none := ⟨by simp, by simp⟩
  rcases fallback_cases hio videoId options.regionCode signatureTimestamp clientChain hfresh w₁ with
    ⟨raw, client, w₂, hwins⟩ | h | ⟨e, w', hcaught, hrun⟩
  · have hresolve := hwins.resolve_run hio hprefetch schedule
    rcases checkResponse_cases videoId raw with
      ⟨hdetails, -⟩ | ⟨e, hcaught, -, hcheck⟩ | ⟨videoInfo, streamingData, -, -, -, hcheck⟩
    · exact Or.inl (.noDetails hprefetch hwins hdetails)
    · rw [conclude_error hcheck] at hresolve
      exact Or.inr (hthrown hresolve hcaught)
    · rw [conclude_ok hcheck] at hresolve
      rcases resolvePlayerJsUrl_cases hio playerJsUrl videoId w₂ with
        ⟨url, w₃, hurl⟩ | ⟨e, w₃, herror, ⟨rfl, hrefused⟩ | hcaught⟩
      · obtain ⟨formats, w₄, hdecipher⟩ :=
          exists_resolveFormats env schedule url (allFormats streamingData) w₃
        rw [Prog.run_bind_ok hurl, Prog.run_bind_ok hdecipher] at hresolve
        by_cases hempty : formats.isEmpty = true
        · rw [if_pos hempty, Prog.run_throw] at hresolve
          exact Or.inr (hthrown hresolve rfl)
        · rw [if_neg hempty] at hresolve
          rcases finish_cases env videoId options
            ⟨raw, client, videoInfo, streamingData, formats⟩ w₄ with
            hmalformed | hcaught
          · exact Or.inl (.malformed hprefetch hwins hcheck hurl hdecipher hmalformed)
          · rw [Prog.run_bind_ok hresolve]
            exact Or.inr hcaught
      · exact Or.inl (.refused hprefetch hwins hcheck hrefused)
      · rw [Prog.run_bind_error herror] at hresolve
        exact Or.inr (hthrown hresolve hcaught)
  · exact Or.inl (.unreadable hprefetch h)
  · have hresolve := YouTubeExtractor.resolve_run hprefetch schedule options.regionCode
    rw [fetchWithFallback, Prog.run_bind_error hrun] at hresolve
    exact Or.inr (hthrown hresolve hcaught)

end

theorem extract_onlyYTDLPErrors_iff {env : Env} (hio : env.IoFailures) (schedule : List Nat)
    (input : Str) (options : ExtractionOptions) (w : World) :
    OnlyYTDLPErrors ((YTDLPDroid.extract env schedule input options).run w).1 ↔
      ∀ videoId, VideoIdParser.parse input = .ok videoId → cached env videoId w = none →
        ¬Breaks env schedule videoId options.regionCode (afterMiss env videoId w) := by
  rw [YTDLPDroid.extract]
  cases hparse : VideoIdParser.parse input with
  | error e =>
      have hcaught : e.isYTDLPError := by
        simp only [VideoIdParser.parse] at hparse
        split at hparse
        · cases hparse
        · exact Except.error.inj hparse ▸ rfl
      exact iff_of_true (onlyYTDLPErrors_error hcaught) nofun
  | ok videoId =>
      simp only [Except.ok.injEq, forall_eq']
      change OnlyYTDLPErrors ((extract env schedule videoId options).run w).1 ↔ _
      cases hcached : cached env videoId w with
      | some result =>
          rw [extract_hit hcached]
          exact iff_of_true nofun nofun
      | none =>
          rw [extract_miss hcached]
          simp only [forall_const]
          exact ⟨fun honly hbreaks => hbreaks.not_onlyYTDLPErrors hio honly, fun hnot =>
            (breaks_or_onlyYTDLPErrors hio schedule videoId options _).resolve_left hnot⟩

-- The first client is not playable and the second one is.
theorem extract_second_client_onlyYTDLPErrors :
    let env := scriptedEnv (.ok unplayable) (.ok (playableWith (some oneAudio)))
    ¬Breaks env [] (str "dQw4w9WgXcQ") none (afterMiss env (str "dQw4w9WgXcQ") freshWorld) := by
  intro env
  have hreturns :
      ((YTDLPDroid.extract env [] (str "dQw4w9WgXcQ") {}).run freshWorld).1.toOption.isSome =
        true := by
    decide +kernel
  refine (extract_onlyYTDLPErrors_iff scriptedEnv_ioFailures [] (str "dQw4w9WgXcQ")
    {} freshWorld).mp
    (fun e he => ?_) (str "dQw4w9WgXcQ") (by decide +kernel) rfl
  rw [he] at hreturns
  cases hreturns

-- The first client says OK and sends no details: an IllegalStateException.
theorem extract_without_details_throws :
    ¬OnlyYTDLPErrors
      ((YTDLPDroid.extract (scriptedEnv (.ok playable) (.ok playable)) [] (str "dQw4w9WgXcQ")
      {}).run freshWorld).1 := by
  intro honly
  have hthrows :
      ∃ e, ((YTDLPDroid.extract (scriptedEnv (.ok playable) (.ok playable)) [] (str "dQw4w9WgXcQ")
      {}).run freshWorld).1 = .error e ∧ e.cls = .illegalStateException := ⟨_, rfl, rfl⟩
  obtain ⟨e, he, hcls⟩ := hthrows
  have hcaught := honly e he
  simp [Throwable.isYTDLPError, hcls] at hcaught

end Ytdlpdroid.YouTubeExtractor
