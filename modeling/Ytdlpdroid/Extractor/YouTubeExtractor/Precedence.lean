import Ytdlpdroid.Extractor.YouTubeExtractor.Failures

namespace Ytdlpdroid

open Text Concurrent

namespace InnerTubeClient

-- A failure to set up the session is ignored unless it is an Error.
theorem ensureSession_error {env : Env} {w w' : World} {e : Throwable}
    (h : (ensureSession env).run w = (.error e, w')) : e.isException = false := by
  unfold ensureSession at h
  rcases Prog.bind_error_inv h with h | ⟨initialized, middle, -, h⟩
  · cases h
  · cases initialized with
    | true => cases h
    | false =>
        rcases Prog.bind_error_inv h with h | ⟨outcome, after, -, h⟩
        · simp at h
        · rcases Prog.bind_error_inv h with h | ⟨_, last, -, h⟩
          · cases h
          · cases outcome with
            | ok _ => cases h
            | error other =>
                by_cases hexception : other.isException = true
                · simp [hexception] at h
                · simp only [hexception, Bool.false_eq_true, ite_false, Prog.run_throw,
                    Prod.mk.injEq, Except.error.injEq] at h
                  rw [← h.1]
                  simpa using hexception

theorem visitorDataFor_error {env : Env} {config : InnerTubeClientConfig} {w w' : World}
    {e : Throwable} (h : (visitorDataFor env config).run w = (.error e, w')) :
    e.isException = false := by
  cases config with
  | WEB =>
      rcases Prog.bind_error_inv h with h | ⟨_, middle, -, h⟩
      · exact ensureSession_error h
      · cases h
  | _ => cases h

-- Before the player request at most the home page is asked for.
theorem visitorDataFor_calls (env : Env) (config : InnerTubeClientConfig) (w : World) :
    ∃ calls, ((visitorDataFor env config).run w).2.calls = w.calls ++ calls ∧
      ∀ call ∈ calls, call.request = homeRequest := by
  let I := fun w' : World => ∃ calls, w'.calls = w.calls ++ calls ∧
    ∀ call ∈ calls, call.request = homeRequest
  have hI : SessionFrame env I := by
    constructor
    · rintro w' ⟨calls, hcalls, hhome⟩
      refine ⟨calls ++ [callOf env w' homeRequest], by simp [World.log, hcalls], fun call hm => ?_⟩
      rcases List.mem_append.mp hm with hm | hm
      · exact hhome call hm
      · rw [List.mem_singleton.mp hm]
        rfl
    · intro w' _ _ hw
      exact hw
  exact (visitorDataFor_preserves hI config).run (s := w) ⟨[], by simp, by simp⟩

end InnerTubeClient

namespace YouTubeExtractor

-- The player requests made between two states are those of the clients, in this order.
def Asks (w w' : World) (clients : List InnerTubeClientConfig) : Prop :=
  ∃ calls, w'.calls = w.calls ++ calls ∧
    calls.filterMap (fun call => clientOf call.request) = clients

-- A client of a chain, and the outcome of asking it.
structure Attempt where
  client : InnerTubeClientConfig
  outcome : Except Throwable RawPlayerResponse

-- The outcomes that end a chain: an OK response, and the error of a live stream.
def Attempt.Stops (attempt : Attempt) : Prop :=
  ∀ e, attempt.outcome = .error e → e.cls = .liveStreamNotSupported

def Attempt.error (attempt : Attempt) : Option Throwable :=
  match attempt.outcome with
  | .ok _ => none
  | .error e => some e

-- The error to surface when all clients have failed: the last geo-block if there is one,
-- else the last error if it says that the video is unavailable, else a summary with the
-- last error as its cause.
inductive Surfaces (videoId : Str) : List Throwable → Throwable → Prop
  | geoBlocked {before after : List Throwable} {e : Throwable} (hgeo : e.cls = .geoBlocked)
      (hafter : ∀ other ∈ after, other.cls ≠ .geoBlocked) :
        Surfaces videoId (before ++ e :: after) e
  | videoUnavailable {before : List Throwable} {last : Throwable}
      (hbefore : ∀ e ∈ before, e.cls ≠ .geoBlocked)
      (hlast : last.cls = .videoUnavailable) : Surfaces videoId (before ++ [last]) last
  | allClientsFailed {before : List Throwable} {last : Throwable}
      (hall : ∀ e ∈ before ++ [last], e.cls ≠ .geoBlocked) (hlast : last.cls ≠ .videoUnavailable) :
      Surfaces videoId (before ++ [last]) (YTDLPError.allClientsFailed videoId (some last))

section

variable (env : Env) (videoId : Str) (regionCode : Option Str) (signatureTimestamp : Option Int)

-- The clients asked in turn from a state on.
inductive Attempts : World → List Attempt → World → Prop
  | nil (w : World) : Attempts w [] w
  | cons {w middle w' : World} {attempt : Attempt} {rest : List Attempt}
      (hask : (askClient env videoId regionCode signatureTimestamp attempt.client).run w =
        (attempt.outcome, middle))
      (hrest : Attempts middle rest w') : Attempts w (attempt :: rest) w'

end

section

variable {env : Env} {videoId : Str} {regionCode : Option Str} {signatureTimestamp : Option Int}
  {w w' : World} {attempt : Attempt} {attempts : List Attempt}

theorem clientOf_homeRequest : clientOf InnerTubeClient.homeRequest = none := by
  decide

theorem Asks.nil (w : World) : Asks w w [] := ⟨[], by simp, rfl⟩

theorem Asks.append {middle : World} {before after : List InnerTubeClientConfig}
    (h : Asks w middle before) (h' : Asks middle w' after) : Asks w w' (before ++ after) := by
  obtain ⟨calls, hcalls, rfl⟩ := h
  obtain ⟨others, hothers, rfl⟩ := h'
  exact ⟨calls ++ others, by rw [hothers, hcalls, List.append_assoc], List.filterMap_append⟩

-- An attempt with an outcome that is documented makes one player request, that of its client.
theorem askClient_asks
    (h : (askClient env videoId regionCode signatureTimestamp attempt.client).run w =
      (attempt.outcome, w'))
    (hdocumented : OnlyYTDLPErrors attempt.outcome) : Asks w w' [attempt.client] := by
  obtain ⟨calls, hcalls, hhome⟩ := InnerTubeClient.visitorDataFor_calls env attempt.client w
  rcases hvisitor : (InnerTubeClient.visitorDataFor env attempt.client).run w with ⟨outcome, middle⟩
  rw [hvisitor] at hcalls
  cases outcome with
  | error e =>
      have hexception := InnerTubeClient.visitorDataFor_error hvisitor
      have hask : (askClient env videoId regionCode signatureTimestamp attempt.client).run w =
          (.error e, middle) :=
        Prog.run_bind_error (Prog.run_bind_error hvisitor _) _
      have hdoc := hdocumented e (congrArg Prod.fst (h.symm.trans hask))
      have hcls : e.cls = .error := by simpa [Throwable.isException] using hexception
      simp [Throwable.isYTDLPError, hcls] at hdoc
  | ok visitorData =>
      have hask := askClient_run hvisitor videoId regionCode signatureTimestamp
      rw [h] at hask
      obtain ⟨-, rfl⟩ := Prod.mk.inj hask
      have hnone : calls.filterMap (fun call => clientOf call.request) = [] := by
        refine List.filterMap_eq_nil_iff.mpr fun call hm => ?_
        rw [hhome call hm, clientOf_homeRequest]
      have hmiddle : Asks w middle [] := ⟨calls, hcalls, hnone⟩
      exact hmiddle.append ⟨[_], rfl, by simp [callOf, clientOf_playerRequest]⟩

-- The errors remembered after the errors `seen`: the last one and the last geo-block.
def lastGeoBlocked (seen : List Throwable) : Option Throwable :=
  seen.reverse.find? fun e => e.cls = .geoBlocked

theorem lastGeoBlocked_concat (seen : List Throwable) (e : Throwable) :
    lastGeoBlocked (seen ++ [e]) = if e.cls = .geoBlocked then some e else lastGeoBlocked seen := by
  unfold lastGeoBlocked
  by_cases hgeo : e.cls = .geoBlocked
  · simp [hgeo]
  · simp [hgeo]

theorem terminalError_surfaces (videoId : Str) (seen : List Throwable) (last : Throwable) :
    Surfaces videoId (seen ++ [last])
      (terminalError videoId (seen ++ [last]).getLast? (lastGeoBlocked (seen ++ [last]))) := by
  cases hgeo : lastGeoBlocked (seen ++ [last]) with
  | some geo =>
      obtain ⟨hcls, after, before, hreverse, hafter⟩ := List.find?_eq_some_iff_append.mp hgeo
      have hsplit : seen ++ [last] = before.reverse ++ geo :: after.reverse := by
        have := congrArg List.reverse hreverse
        simpa using this
      rw [hsplit]
      exact .geoBlocked (of_decide_eq_true hcls) fun e he => by
        simpa using hafter e (List.mem_reverse.mp he)
  | none =>
      have hall : ∀ e ∈ seen ++ [last], e.cls ≠ .geoBlocked := by
        intro e he
        simpa using List.find?_eq_none.mp hgeo e (List.mem_reverse.mpr he)
      rw [List.getLast?_concat, terminalError]
      split_ifs with hlast
      · exact .videoUnavailable (fun e he => hall e (List.mem_append_left _ he)) hlast
      · exact .allClientsFailed hall hlast

-- What the chain does with the attempts, when it remembers the errors `seen`. By induction on the
-- attempts: one that stops decides, any other one adds its error to those remembered.
theorem fallback_attempts (h : Attempts env videoId regionCode signatureTimestamp w attempts w')
    (hdocumented : ∀ attempt ∈ attempts, OnlyYTDLPErrors attempt.outcome) (seen : List Throwable) :
    ∃ outcome final,
      (fallback env videoId regionCode signatureTimestamp (attempts.map Attempt.client)
        seen.getLast? (lastGeoBlocked seen)).run w = (outcome, final) ∧
      ((∃ before stop after, attempts = before ++ stop :: after ∧ (∀ a ∈ before, ¬a.Stops) ∧
        stop.Stops ∧
          outcome = stop.outcome.map (fun response => (response, stop.client)) ∧
          Asks w final ((before ++ [stop]).map Attempt.client)) ∨
        (∀ a ∈ attempts, ¬a.Stops) ∧ Asks w final (attempts.map Attempt.client) ∧
          outcome = .error (terminalError videoId
            (seen ++ attempts.filterMap Attempt.error).getLast?
            (lastGeoBlocked (seen ++ attempts.filterMap Attempt.error)))) := by
  induction h generalizing seen with
  | nil w => exact ⟨_, w, rfl, Or.inr ⟨by simp, Asks.nil w, by simp⟩⟩
  | @cons w middle w' attempt rest hask hrest ih =>
      obtain ⟨hfirst, hothers⟩ := List.forall_mem_cons.mp hdocumented
      have hasks := askClient_asks hask hfirst
      cases houtcome : attempt.outcome with
      | ok response =>
          rw [houtcome] at hask
          refine ⟨_, middle, fallback_ok hask,
            Or.inl ⟨[], attempt, rest, rfl, by simp, ?_, ?_, hasks⟩⟩
          · intro e he
            rw [houtcome] at he
            cases he
          · rw [houtcome]
            rfl
      | error e =>
          rw [houtcome] at hask
          by_cases hlive : e.cls = .liveStreamNotSupported
          · refine ⟨_, middle, fallback_abort hask (Or.inr hlive),
              Or.inl ⟨[], attempt, rest, rfl, by simp, ?_, ?_, hasks⟩⟩
            · intro other hother
              rw [houtcome] at hother
              exact Except.error.inj hother ▸ hlive
            · rw [houtcome]
              rfl
          · have hnot : ¬attempt.Stops := fun hstops => hlive (hstops e houtcome)
            have herror : attempt.error = some e := by rw [Attempt.error, houtcome]
            obtain ⟨outcome, final, hrun, hcase⟩ := ih hothers (seen ++ [e])
            refine ⟨outcome, final, ?_, ?_⟩
            · rw [List.map_cons, fallback_next hask (hfirst e houtcome) hlive,
                ← lastGeoBlocked_concat]
              rw [List.getLast?_concat] at hrun
              exact hrun
            · rcases hcase with
                ⟨before, stop, after, hsplit, hbefore, hstop, hresult, hmore⟩ |
                ⟨hall, hmore, hresult⟩
              · refine Or.inl ⟨attempt :: before, stop, after, by rw [hsplit, List.cons_append],
                  List.forall_mem_cons.mpr ⟨hnot, hbefore⟩, hstop, hresult, ?_⟩
                exact hasks.append hmore
              · refine Or.inr ⟨List.forall_mem_cons.mpr ⟨hnot, hall⟩, hasks.append hmore, ?_⟩
                rw [hresult, List.filterMap_cons_some herror]
                simp only [List.append_assoc, List.singleton_append]

-- A chain whose outcomes are OK responses and YTDLPErrors ends at the first OK response or
-- live stream, with that response and client or that error; without one it has asked every
-- client in turn and surfaces an error by precedence.
theorem fallback_precedence (hne : attempts ≠ [])
    (h : Attempts env videoId regionCode signatureTimestamp w attempts w')
    (hdocumented : ∀ attempt ∈ attempts, OnlyYTDLPErrors attempt.outcome) :
    ∃ outcome final,
      (fallback env videoId regionCode signatureTimestamp (attempts.map Attempt.client)
        none none).run w = (outcome, final) ∧
      (attempts.map Attempt.client = clientChain →
        (fetchWithFallback env videoId regionCode signatureTimestamp).run w = (outcome, final)) ∧
      ((∃ before stop after, attempts = before ++ stop :: after ∧ (∀ a ∈ before, ¬a.Stops) ∧
        stop.Stops ∧
          outcome = stop.outcome.map (fun response => (response, stop.client)) ∧
          Asks w final ((before ++ [stop]).map Attempt.client)) ∨
        (∀ a ∈ attempts, ¬a.Stops) ∧ Asks w final (attempts.map Attempt.client) ∧
          ∃ e, outcome = .error e ∧ Surfaces videoId (attempts.filterMap Attempt.error) e) := by
  obtain ⟨outcome, final, hrun, hcase⟩ := fallback_attempts h hdocumented []
  refine ⟨outcome, final, hrun, fun hchain => by rw [fetchWithFallback, ← hchain]; exact hrun, ?_⟩
  rcases hcase with hstop | ⟨hall, hasks, hresult⟩
  · exact Or.inl hstop
  · refine Or.inr ⟨hall, hasks, _, hresult, ?_⟩
    obtain ⟨attempts, last, rfl⟩ := (List.eq_nil_or_concat attempts).resolve_left hne
    have hlast : ∃ e, last.error = some e := by
      unfold Attempt.error
      cases ho : last.outcome with
      | ok response => exact absurd (fun e he => by rw [ho] at he; cases he) (hall last (by simp))
      | error e => exact ⟨e, rfl⟩
    obtain ⟨e, he⟩ := hlast
    have herrors : (attempts.concat last).filterMap Attempt.error =
        attempts.filterMap Attempt.error ++ [e] := by
      simp [he]
    rw [List.nil_append, herrors]
    exact terminalError_surfaces videoId _ e

-- Servers that answer alike at any time give the same attempts from every state.
theorem exists_attempts {outcomes : InnerTubeClientConfig → Except Throwable Response}
    (hio : env.IoFailures) (hanswers : env.Answers videoId regionCode signatureTimestamp outcomes)
    (clients : List InnerTubeClientConfig) (w : World) :
    ∃ w', Attempts env videoId regionCode signatureTimestamp w
      (clients.map fun client => ⟨client, judge env videoId (outcomes client)⟩) w' := by
  induction clients generalizing w with
  | nil => exact ⟨w, .nil w⟩
  | cons client rest ih =>
      obtain ⟨-, middle, hask⟩ := askClient_answers hio hanswers client w
      obtain ⟨w', hrest⟩ := ih middle
      exact ⟨w', .cons hask hrest⟩

end

def secondEnv : Env := scriptedEnv (.ok unplayable) (.ok playable)

def secondAttempt (client : InnerTubeClientConfig) : Attempt where
  client := client
  outcome := judge secondEnv (str "dQw4w9WgXcQ") (scriptedOutcome client)

theorem secondAttempt_first :
    (secondAttempt .ANDROID_VR).outcome =
      .error (YTDLPError.videoUnavailable (str "dQw4w9WgXcQ") none) := rfl

theorem secondAttempt_others {client : InnerTubeClientConfig} (h : client ≠ .ANDROID_VR) :
    (secondAttempt client).outcome = .ok playable := by
  cases client with
  | ANDROID_VR => exact absurd rfl h
  | _ => rfl

-- The first client of the chain says UNPLAYABLE and all others say OK: two of them are asked.
theorem fetchWithFallback_asks_two :
    ∃ final, (fetchWithFallback secondEnv (str "dQw4w9WgXcQ") none none).run freshWorld =
      (.ok (playable, .ANDROID), final) ∧ Asks freshWorld final [.ANDROID_VR, .ANDROID] := by
  have hdocumented : ∀ a ∈ clientChain.map secondAttempt, OnlyYTDLPErrors a.outcome := by
    intro a ha e he
    obtain ⟨client, -, rfl⟩ := List.mem_map.mp ha
    by_cases hclient : client = .ANDROID_VR
    · rw [hclient, secondAttempt_first] at he
      exact Except.error.inj he ▸ rfl
    · rw [secondAttempt_others hclient] at he
      cases he
  have hnot : ¬(secondAttempt .ANDROID_VR).Stops := fun hstops =>
    absurd (hstops _ secondAttempt_first) (by decide)
  have hstop : (secondAttempt .ANDROID).Stops := fun e he => by
    rw [secondAttempt_others (by decide)] at he
    cases he
  obtain ⟨w', hattempts⟩ : ∃ w', Attempts secondEnv (str "dQw4w9WgXcQ") none none freshWorld
      (clientChain.map secondAttempt) w' :=
    exists_attempts scriptedEnv_ioFailures (scriptedEnv_answers _ _ _ none none) clientChain
      freshWorld
  obtain ⟨outcome, final, -, hfetch, hcase⟩ :=
    fallback_precedence (by simp [clientChain]) hattempts hdocumented
  have hrun := hfetch (by simp [clientChain, secondAttempt])
  rcases hcase with ⟨before, stop, after, hsplit, hbefore, hstops, hresult, hasks⟩ | ⟨hall, -⟩
  · cases before with
    | nil =>
        obtain ⟨rfl, -⟩ := List.cons.inj hsplit
        exact absurd hstops hnot
    | cons first before =>
        obtain ⟨rfl, hrest⟩ := List.cons.inj hsplit
        cases before with
        | nil =>
            obtain ⟨rfl, -⟩ := List.cons.inj hrest
            rw [secondAttempt_others (by decide)] at hresult
            exact ⟨final, hrun.trans (congrArg (·, final) hresult), hasks⟩
        | cons second before =>
            obtain ⟨rfl, -⟩ := List.cons.inj hrest
            exact absurd hstop (hbefore _ (List.mem_cons_of_mem _ List.mem_cons_self))
  · exact absurd hstop (hall _ (by simp [clientChain]))

end YouTubeExtractor

end Ytdlpdroid
