import Ytdlpdroid.Extractor.YouTubeExtractor
import Ytdlpdroid.Innertube.InnerTubeClient.Theorems

namespace Ytdlpdroid

open Text Concurrent

-- Each client of the chain has one outcome for its request, whenever it is made.
def Env.Answers (env : Env) (videoId : Str) (regionCode : Option Str)
    (signatureTimestamp : Option Int)
    (outcomes : InnerTubeClientConfig → Except Throwable Response) : Prop :=
  ∀ n config visitorData, env.httpClient.execute
    (env.network n
      (InnerTubeClient.playerRequest config videoId visitorData regionCode signatureTimestamp)) =
      outcomes config

namespace YouTubeExtractor

-- The outcome with which the chain can go on to the next client: the call failed with an
-- IOException, or its response is none of success, or has no body, or has one that decodes.
def Survivable (env : Env) : Except Throwable Response → Prop
  | .error e => e.isIOException
  | .ok response => response.isSuccessful →
      match response.body with
      | none => True
      | some (.unreadable _) => False
      | some (.text content) => ∃ raw, env.decodeFromString content = .ok raw

-- A response that decodes, with its playability status.
def Says (env : Env) (outcome : Except Throwable Response) (raw : RawPlayerResponse)
    (status : Str) : Prop :=
  InnerTubeClient.answer env outcome = .ok raw ∧ raw.playabilityStatus.status = status

-- What a client gives that answers with neither OK nor LIVE_STREAM_OFFLINE.
def Fails (env : Env) (outcome : Except Throwable Response) : Prop :=
  ∀ raw status, Says env outcome raw status → status ≠ str "OK" ∧ status ≠ str "LIVE_STREAM_OFFLINE"

-- What `askClient` makes of the outcome of its call.
def judge (env : Env) (videoId : Str) (outcome : Except Throwable Response) :
    Except Throwable RawPlayerResponse :=
  (InnerTubeClient.answer env outcome).bind fun raw =>
    (PlayerResponseParser.checkPlayability raw videoId).bind fun _ => .ok raw

theorem askClient_run {env : Env} {config : InnerTubeClientConfig} {w w' : World}
    {visitorData : Option Str}
    (h : (InnerTubeClient.visitorDataFor env config).run w = (.ok visitorData, w')) (videoId : Str)
    (regionCode : Option Str) (signatureTimestamp : Option Int) :
    let call := callOf env w'
      (InnerTubeClient.playerRequest config videoId visitorData regionCode signatureTimestamp)
    (askClient env videoId regionCode signatureTimestamp config).run w =
      (judge env videoId call.outcome, w'.log call) := by
  intro call
  have hfetch := InnerTubeClient.fetchPlayerResponse_run h videoId regionCode signatureTimestamp
  rw [askClient, Prog.run_bind, hfetch]
  change _ = (judge env videoId call.outcome, w'.log call)
  unfold judge
  cases InnerTubeClient.answer env call.outcome with
  | error e => rfl
  | ok raw =>
      simp only [Prog.run_bind, Prog.run_ofExcept, Except.bind]
      cases PlayerResponseParser.checkPlayability raw videoId <;> rfl

section

variable {env : Env} {videoId : Str}

-- The error of a playability status other than OK is a YTDLPError, and only that of
-- LIVE_STREAM_OFFLINE ends the chain.
theorem checkPlayability_cases (raw : RawPlayerResponse) (videoId : Str) :
    (raw.playabilityStatus.status = str "OK" ∧
        PlayerResponseParser.checkPlayability raw videoId = .ok ()) ∨
      raw.playabilityStatus.status ≠ str "OK" ∧
        ∃ e, PlayerResponseParser.checkPlayability raw videoId = .error e ∧ e.isYTDLPError ∧
          (e.cls = .liveStreamNotSupported ↔
            raw.playabilityStatus.status = str "LIVE_STREAM_OFFLINE") := by
  have hgeo (reason : Option Str) : (PlayerResponseParser.unavailable videoId reason).isYTDLPError ∧
      (PlayerResponseParser.unavailable videoId reason).cls ≠ .liveStreamNotSupported := by
    unfold PlayerResponseParser.unavailable
    split_ifs <;> exact ⟨rfl, ThrowableClass.noConfusion⟩
  unfold PlayerResponseParser.checkPlayability
  by_cases hok : raw.playabilityStatus.status = str "OK"
  · exact Or.inl ⟨hok, by simp only [hok, ite_true]⟩
  · refine Or.inr ⟨hok, ?_⟩
    simp only [hok, ite_false]
    split_ifs with hlogin hunavailable hoffline
    · exact ⟨_, rfl, rfl, iff_of_false ThrowableClass.noConfusion (by rw [hlogin]; decide +kernel)⟩
    · refine ⟨_, rfl, (hgeo _).1, iff_of_false (hgeo _).2 ?_⟩
      rcases hunavailable with h | h <;> rw [h] <;> decide +kernel
    · exact ⟨_, rfl, rfl, iff_of_true rfl hoffline⟩
    · exact ⟨_, rfl, rfl, iff_of_false ThrowableClass.noConfusion hoffline⟩

-- The exceptions that a call, or the reading of its body, can throw.
structure Ordinary (outcome : Except Throwable Response) : Prop where
  error : ∀ e, outcome = .error e → CallFailure e
  body : ∀ response e, outcome = .ok response → response.body = some (.unreadable e) →
    e.isIOException

theorem ordinary_call (hio : env.IoFailures) (w : World) (request : Request) :
    Ordinary (callOf env w request).outcome :=
  ⟨fun _ h => hio.call h, fun _ _ h hbody => hio.body h hbody⟩

-- A client that the chain survives either says something or gives a NetworkError; one
-- that it does not survive throws an exception that no handler catches.
theorem answer_cases {outcome : Except Throwable Response} (h : Ordinary outcome) :
    (Survivable env outcome ∧ ((∃ raw, InnerTubeClient.answer env outcome = .ok raw) ∨
      ∃ e, InnerTubeClient.answer env outcome = .error e ∧ e.cls = .networkError)) ∨
    ¬Survivable env outcome ∧ ∃ e, InnerTubeClient.answer env outcome = .error e ∧
      e.isYTDLPError = false := by
  cases outcome with
  | error e =>
      by_cases hio : e.isIOException
      · refine Or.inl ⟨hio, Or.inr ⟨_, rfl, ?_⟩⟩
        rw [if_pos hio]
        rfl
      · refine Or.inr ⟨hio, _, rfl, ?_⟩
        rw [if_neg hio]
        exact (h.error e rfl).not_YTDLPError
  | ok response =>
      by_cases hsuccess : response.isSuccessful = true
      · cases hbody : response.body with
        | none =>
            refine Or.inl ⟨by simp [Survivable, hbody], Or.inr
              ⟨YTDLPError.networkError (str "Empty response body") (Throwable.ioException none),
                ?_, rfl⟩⟩
            simp only [InnerTubeClient.answer, InnerTubeClient.readResponse, hsuccess, hbody]
            rfl
        | some body =>
            cases body with
            | unreadable e =>
                refine Or.inr ⟨by simp [Survivable, hbody, hsuccess], e, ?_, ?_⟩
                · simp only [InnerTubeClient.answer, InnerTubeClient.readResponse, hsuccess, hbody]
                  rfl
                · exact CallFailure.not_YTDLPError (Or.inl (h.body response e rfl hbody))
            | text content =>
                cases hdecode : env.decodeFromString content with
                | ok raw =>
                    refine Or.inl ⟨by simp [Survivable, hbody, hdecode], Or.inl ⟨raw, ?_⟩⟩
                    simp [InnerTubeClient.answer, InnerTubeClient.readResponse, hsuccess, hbody,
                      InnerTubeClient.decode, hdecode]
                | error message =>
                    refine Or.inr ⟨by simp [Survivable, hbody, hsuccess, hdecode],
                      InnerTubeClient.serializationException message, ?_, rfl⟩
                    simp [InnerTubeClient.answer, InnerTubeClient.readResponse, hsuccess, hbody,
                      InnerTubeClient.decode, hdecode]
      · refine Or.inl ⟨fun htrue => absurd htrue hsuccess, Or.inr
          ⟨YTDLPError.networkError (str "HTTP " ++ decimalInt response.code)
            (Throwable.ioException (some response.message)), ?_, rfl⟩⟩
        simp only [InnerTubeClient.answer, InnerTubeClient.readResponse, hsuccess]
        rfl

theorem judge_error {outcome : Except Throwable Response} {e : Throwable}
    (h : InnerTubeClient.answer env outcome = .error e) : judge env videoId outcome = .error e := by
  rw [judge, h]
  rfl

-- A client that fails: its error is one of the caught ones if the chain survives it.
theorem judge_fails (videoId : Str) {outcome : Except Throwable Response}
    (hordinary : Ordinary outcome) (hfails : Fails env outcome) :
    ∃ e, judge env videoId outcome = .error e ∧
      (Survivable env outcome ∧ e.isYTDLPError ∧ e.cls ≠ .liveStreamNotSupported ∨
        ¬Survivable env outcome ∧ e.isYTDLPError = false) := by
  rcases answer_cases hordinary with
    ⟨hsurvivable, ⟨raw, hanswer⟩ | ⟨e, hanswer, hcls⟩⟩ | ⟨hnot, e, hanswer, hpassed⟩
  · obtain ⟨hok, hoffline⟩ := hfails raw _ ⟨hanswer, rfl⟩
    rcases checkPlayability_cases raw videoId with ⟨hstatus, -⟩ | ⟨-, e, hcheck, hcaught, hlive⟩
    · exact absurd hstatus hok
    · refine ⟨e, ?_, Or.inl ⟨hsurvivable, hcaught, fun h => hoffline (hlive.mp h)⟩⟩
      simp only [judge, hanswer, hcheck, Except.bind]
  · refine ⟨e, judge_error hanswer, Or.inl ⟨hsurvivable, ?_, ?_⟩⟩
    · simp [Throwable.isYTDLPError, hcls]
    · rw [hcls]
      exact ThrowableClass.noConfusion
  · exact ⟨e, judge_error hanswer, Or.inr ⟨hnot, hpassed⟩⟩

theorem judge_ok {outcome : Except Throwable Response} {raw : RawPlayerResponse} :
    judge env videoId outcome = .ok raw ↔ Says env outcome raw (str "OK") := by
  unfold judge Says
  cases InnerTubeClient.answer env outcome with
  | error e => simp [Except.bind]
  | ok found =>
      simp only [Except.bind]
      rcases checkPlayability_cases found videoId with ⟨hok, hcheck⟩ | ⟨hne, e, hcheck, -, -⟩
      · rw [hcheck]
        constructor
        · rintro h
          obtain rfl := Except.ok.inj h
          exact ⟨rfl, hok⟩
        · rintro ⟨h, -⟩
          exact h
      · rw [hcheck]
        refine iff_of_false (by simp) ?_
        rintro ⟨h, hstatus⟩
        obtain rfl := Except.ok.inj h
        exact hne hstatus

end

end YouTubeExtractor

end Ytdlpdroid
