import Ytdlpdroid.Innertube.InnerTubeClient
import Ytdlpdroid.Network.RetryInterceptor.Theorems

namespace Ytdlpdroid

open Text Concurrent

-- What the network does when it fails: an exchange, or the reading of a body, throws an
-- IOException.
structure Env.IoFailures (env : Env) : Prop where
  exchange : ∀ n request attempt e, env.network n request attempt = .failure e → e.isIOException
  reading : ∀ n request attempt response e, env.network n request attempt = .response response →
    response.body = some (.unreadable e) → e.isIOException

-- The exceptions that a call can end in: one of the network, or the refusal to ask it again.
def CallFailure (e : Throwable) : Prop := e.isIOException ∨ e = Chain.stillOpen

theorem CallFailure.not_YTDLPError {e : Throwable} (h : CallFailure e) :
    e.isYTDLPError = false := by
  rcases h with hio | rfl
  · have hcls : e.cls = .ioException := by simpa [Throwable.isIOException] using hio
    simp [Throwable.isYTDLPError, hcls]
  · rfl

theorem CallFailure.isException {e : Throwable} (h : CallFailure e) : e.isException := by
  rcases h with hio | rfl
  · have hcls : e.cls = .ioException := by simpa [Throwable.isIOException] using hio
    simp [Throwable.isException, hcls]
  · rfl

theorem Env.IoFailures.call {env : Env} (hio : env.IoFailures) {w : World} {request : Request}
    {e : Throwable} (h : (callOf env w request).outcome = .error e) : CallFailure e := by
  rcases (env.httpClient.execute_comesFrom _).2 e h with rfl | ⟨attempt, hd⟩
  · exact Or.inr rfl
  · exact Or.inl (hio.exchange _ _ attempt e hd)

theorem Env.IoFailures.body {env : Env} (hio : env.IoFailures) {w : World} {request : Request}
    {response : Response} (h : (callOf env w request).outcome = .ok response) {e : Throwable}
    (hbody : response.body = some (.unreadable e)) : e.isIOException := by
  obtain ⟨attempt, hd⟩ := (env.httpClient.execute_comesFrom _).1 response h
  exact hio.reading _ _ attempt response e hd hbody

namespace InnerTubeClient

-- What `fetchPlayerResponse` makes of the outcome of its call.
def answer (env : Env) : Except Throwable Response → Except Throwable RawPlayerResponse
  | .ok response => readResponse env response
  | .error e => .error (if e.isIOException then
      YTDLPError.networkError (str "InnerTube player request failed") e else e)

theorem fetchPlayerResponse_run {env : Env} {config : InnerTubeClientConfig} {w w' : World}
    {visitorData : Option Str} (h : (visitorDataFor env config).run w = (.ok visitorData, w'))
    (videoId : Str) (regionCode : Option Str) (signatureTimestamp : Option Int) :
    let call := callOf env w'
      (playerRequest config videoId visitorData regionCode signatureTimestamp)
    (fetchPlayerResponse env videoId config regionCode signatureTimestamp).run w =
      (answer env call.outcome, w'.log call) := by
  intro call
  rw [fetchPlayerResponse, Prog.run_bind_ok h]
  simp only [sendRequest, Prog.run_bind, Prog.run_tryCatch, executeCall, Prog.run_attemptAtomic,
    Prog.run_throw, Prog.run_ofExcept]
  cases call.outcome <;> rfl

-- The page of the home request, or the exception of the block that reads it.
def homePage (env : Env) (w : World) : Except Throwable Str :=
  (callOf env w homeRequest).outcome.bind pageOf

theorem homePage_error {env : Env} (hio : env.IoFailures) {w : World} {e : Throwable}
    (h : homePage env w = .error e) : e.isException := by
  unfold homePage at h
  cases ho : (callOf env w homeRequest).outcome with
  | error other =>
      obtain rfl : other = e := by simpa [ho, Except.bind] using h
      exact (hio.call ho).isException
  | ok response =>
      simp only [ho, Except.bind, pageOf] at h
      split at h
      · simp at h
      · rename_i other hbody
        obtain rfl := Except.error.inj h
        exact CallFailure.isException (Or.inl (hio.body ho hbody))
      · simp at h

-- The session is set up whatever the home page gives, and only once.
theorem ensureSession_run {env : Env} (hio : env.IoFailures) (w : World) :
    (ensureSession env).run w = (.ok (), if w.sessionInitialized then w else
      match homePage env w with
      | .ok html => { w.log (callOf env w homeRequest) with
          cachedVisitorData := visitorDataIn html
          sessionInitialized := true }
      | .error _ => { w.log (callOf env w homeRequest) with sessionInitialized := true }) := by
  unfold ensureSession
  simp only [reading, Prog.run_bind, Prog.run_atomic]
  by_cases hinit : w.sessionInitialized = true
  · simp [hinit]
  · simp only [hinit, Bool.false_eq_true, ite_false, writing, Prog.run_bind, Prog.run_attempt,
      executeCall, Prog.run_attemptAtomic, Prog.run_ofExcept, Prog.run_atomic]
    cases hpage : homePage env w with
    | error e =>
        have hexception := homePage_error hio hpage
        cases ho : (callOf env w homeRequest).outcome with
        | error other =>
            obtain rfl : other = e := by simpa [homePage, ho, Except.bind] using hpage
            simp [hexception]
        | ok response =>
            have hread : pageOf response = .error e := by
              simpa [homePage, ho, Except.bind] using hpage
            simp [hread, hexception]
    | ok html =>
        cases ho : (callOf env w homeRequest).outcome with
        | error other => simp [homePage, ho, Except.bind] at hpage
        | ok response =>
            have hread : pageOf response = .ok html := by
              simpa [homePage, ho, Except.bind] using hpage
            simp [hread]

theorem visitorDataFor_run {env : Env} (hio : env.IoFailures) (config : InnerTubeClientConfig)
    (w : World) :
    ∃ visitorData w', (visitorDataFor env config).run w = (.ok visitorData, w') := by
  cases config with
  | WEB =>
      obtain ⟨w', hsession⟩ : ∃ w', (ensureSession env).run w = (.ok (), w') :=
        ⟨_, ensureSession_run hio w⟩
      exact ⟨w'.cachedVisitorData, w', Prog.run_bind_ok hsession _⟩
  | _ => exact ⟨none, w, rfl⟩

end InnerTubeClient

-- An invariant that says nothing about the calls made and the session.
structure NetworkFrame (I : World → Prop) : Prop where
  log : ∀ w call, I w → I (w.log call)
  session : ∀ w cachedVisitorData sessionInitialized, I w →
    I { w with cachedVisitorData, sessionInitialized }

section

variable {I : World → Prop}

theorem executeCall_preserves (hI : NetworkFrame I) (env : Env) (request : Request) :
    Prog.Preserves I (executeCall env request) :=
  Prog.Preserves.attemptAtomic fun w hw => hI.log w _ hw

namespace InnerTubeClient

-- An invariant that allows the home request and says nothing about the session.
structure SessionFrame (env : Env) (I : World → Prop) : Prop where
  home : ∀ w, I w → I (w.log (callOf env w homeRequest))
  session : ∀ w cachedVisitorData sessionInitialized, I w →
    I { w with cachedVisitorData, sessionInitialized }

theorem ensureSession_preserves {env : Env} (hI : SessionFrame env I) :
    Prog.Preserves I (ensureSession env) := by
  intro w hw
  refine ⟨hw, ?_⟩
  change Prog.Preserves I (if w.sessionInitialized = true then _ else _)
  split_ifs
  · trivial
  · refine Prog.Preserves.bind (Prog.Preserves.attempt ?_) fun outcome => ?_
    · refine Prog.Preserves.bind (Prog.Preserves.attemptAtomic hI.home) fun response => ?_
      exact (Prog.Preserves.ofExcept I _).bind fun html w hw => ⟨hI.session w _ _ hw, trivial⟩
    · intro w hw
      refine ⟨hI.session w _ _ hw, ?_⟩
      cases outcome with
      | ok done => trivial
      | error e =>
          simp only
          split_ifs <;> trivial

theorem visitorDataFor_preserves {env : Env} (hI : SessionFrame env I)
    (config : InnerTubeClientConfig) :
    Prog.Preserves I (visitorDataFor env config) := by
  cases config with
  | WEB => exact (ensureSession_preserves hI).bind fun _ w hw => ⟨hw, trivial⟩
  | _ => trivial

theorem fetchPlayerResponse_preserves (hI : NetworkFrame I) (env : Env) (videoId : Str)
    (config : InnerTubeClientConfig) (regionCode : Option Str) (signatureTimestamp : Option Int) :
    Prog.Preserves I (fetchPlayerResponse env videoId config regionCode signatureTimestamp) := by
  have hsession : SessionFrame env I := ⟨fun w hw => hI.log w _ hw, hI.session⟩
  refine (visitorDataFor_preserves hsession config).bind fun visitorData => ?_
  refine Prog.Preserves.bind ?_ fun response => Prog.Preserves.ofExcept I _
  exact (executeCall_preserves hI env _).tryCatch fun e => trivial

end InnerTubeClient

end

end Ytdlpdroid
