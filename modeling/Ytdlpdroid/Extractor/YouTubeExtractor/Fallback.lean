import Ytdlpdroid.Extractor.YouTubeExtractor.Scripted

namespace Ytdlpdroid.YouTubeExtractor

open Text Concurrent

section

variable {env : Env} {videoId : Str} {regionCode : Option Str} {signatureTimestamp : Option Int}
  {client : InnerTubeClientConfig} {rest : List InnerTubeClientConfig} {last geo : Option Throwable}
  {w w' : World}

theorem fallback_ok {raw : RawPlayerResponse}
    (h : (askClient env videoId regionCode signatureTimestamp client).run w = (.ok raw, w')) :
    (fallback env videoId regionCode signatureTimestamp (client :: rest) last geo).run w =
      (.ok (raw, client), w') := by
  rw [fallback, Prog.run_bind, Prog.run_attempt, h]
  rfl

-- An error that the chain remembers while it goes on to the next client.
theorem fallback_next {e : Throwable}
    (h : (askClient env videoId regionCode signatureTimestamp client).run w = (.error e, w'))
    (hcaught : e.isYTDLPError) (hlive : e.cls ≠ .liveStreamNotSupported) :
    (fallback env videoId regionCode signatureTimestamp (client :: rest) last geo).run w =
      (fallback env videoId regionCode signatureTimestamp rest (some e)
        (if e.cls = .geoBlocked then some e else geo)).run w' := by
  rw [fallback, Prog.run_bind, Prog.run_attempt, h]
  by_cases hgeo : e.cls = .geoBlocked
  · simp only [hgeo, reduceCtorEq, ite_true, ite_false]
  · simp only [if_neg hlive, if_neg hgeo, if_pos hcaught]

-- An error that no handler of the chain catches, and the one that is thrown again.
theorem fallback_abort {e : Throwable}
    (h : (askClient env videoId regionCode signatureTimestamp client).run w = (.error e, w'))
    (hpassed : e.isYTDLPError = false ∨ e.cls = .liveStreamNotSupported) :
    (fallback env videoId regionCode signatureTimestamp (client :: rest) last geo).run w =
      (.error e, w') := by
  rw [fallback, Prog.run_bind, Prog.run_attempt, h]
  by_cases hlive : e.cls = .liveStreamNotSupported
  · simp only [hlive, ite_true, Prog.run_throw]
  · have hnot : e.isYTDLPError = false := hpassed.resolve_right hlive
    have hgeo : e.cls ≠ .geoBlocked := fun hgeo => by simp [Throwable.isYTDLPError, hgeo] at hnot
    simp only [hlive, hgeo, hnot, Bool.false_eq_true, ite_false, Prog.run_throw]

theorem fallback_preserves {I : World → Prop} (hI : NetworkFrame I) (env : Env) (videoId : Str)
    (regionCode : Option Str) (signatureTimestamp : Option Int)
    (clients : List InnerTubeClientConfig) (last geo : Option Throwable) :
    Prog.Preserves I (fallback env videoId regionCode signatureTimestamp clients last geo) := by
  induction clients generalizing last geo with
  | nil => trivial
  | cons client rest ih =>
      refine Prog.Preserves.bind (Prog.Preserves.attempt ?_) fun outcome => ?_
      · refine (InnerTubeClient.fetchPlayerResponse_preserves hI env videoId client regionCode
          signatureTimestamp).bind fun response => ?_
        exact (Prog.Preserves.ofExcept I _).bind fun _ => trivial
      · cases outcome with
        | ok response => trivial
        | error e =>
            simp only
            split_ifs
            · trivial
            · exact ih _ _
            · exact ih _ _
            · trivial

variable {outcomes : InnerTubeClientConfig → Except Throwable Response}

-- The answer of a client, whatever the state it is asked in.
theorem askClient_answers (hio : env.IoFailures)
    (hanswers : env.Answers videoId regionCode signatureTimestamp outcomes)
    (client : InnerTubeClientConfig) (w : World) :
    Ordinary (outcomes client) ∧ ∃ w',
      (askClient env videoId regionCode signatureTimestamp client).run w =
        (judge env videoId (outcomes client), w') := by
  obtain ⟨visitorData, w', hvisitor⟩ := InnerTubeClient.visitorDataFor_run hio client w
  let request :=
    InnerTubeClient.playerRequest client videoId visitorData regionCode signatureTimestamp
  have houtcome : (callOf env w' request).outcome = outcomes client := hanswers _ client visitorData
  have hask := askClient_run hvisitor videoId regionCode signatureTimestamp
  refine ⟨houtcome ▸ ordinary_call hio w' request, w'.log (callOf env w' request), ?_⟩
  rw [hask, ← houtcome]

-- By induction on the clients before the first OK one: each of them either lets the
-- chain go on or ends it with an exception that is no YTDLPError.
theorem fallback_first_ok (hio : env.IoFailures)
    (hanswers : env.Answers videoId regionCode signatureTimestamp outcomes)
    (before after : List InnerTubeClientConfig) {raw : RawPlayerResponse}
    (hok : Says env (outcomes client) raw (str "OK"))
    (hfails : ∀ c ∈ before, Fails env (outcomes c)) (last geo : Option Throwable) (w : World) :
    ((∀ c ∈ before, Survivable env (outcomes c)) ∧ ∃ w',
      (fallback env videoId regionCode signatureTimestamp (before ++ client :: after)
        last geo).run w = (.ok (raw, client), w')) ∨
    (¬∀ c ∈ before, Survivable env (outcomes c)) ∧ ∃ e w', e.isYTDLPError = false ∧
      (fallback env videoId regionCode signatureTimestamp (before ++ client :: after)
        last geo).run w = (.error e, w') := by
  induction before generalizing last geo w with
  | nil =>
      obtain ⟨-, w', hask⟩ := askClient_answers hio hanswers client w
      rw [judge_ok.mpr hok] at hask
      exact Or.inl ⟨by simp, w', fallback_ok hask⟩
  | cons first before ih =>
      obtain ⟨hfirst, hbefore⟩ := List.forall_mem_cons.mp hfails
      obtain ⟨hordinary, w₁, hask⟩ := askClient_answers hio hanswers first w
      obtain ⟨e, hjudge, ⟨hsurvivable, hcaught, hlive⟩ | ⟨hnot, hpassed⟩⟩ :=
        judge_fails videoId hordinary hfirst
      · rw [hjudge] at hask
        rw [List.cons_append, fallback_next hask hcaught hlive]
        rcases ih hbefore (some e) (if e.cls = .geoBlocked then some e else geo) w₁ with
          ⟨hall, hrun⟩ | ⟨hsome, hrun⟩
        · exact Or.inl ⟨List.forall_mem_cons.mpr ⟨hsurvivable, hall⟩, hrun⟩
        · exact Or.inr ⟨fun hall => hsome (List.forall_mem_cons.mp hall).2, hrun⟩
      · rw [hjudge] at hask
        exact Or.inr ⟨fun hall => hnot (hall first List.mem_cons_self), e, w₁, hpassed,
          fallback_abort hask (Or.inl hpassed)⟩

theorem fetchWithFallback_first_ok_iff (hio : env.IoFailures)
    (hanswers : env.Answers videoId regionCode signatureTimestamp outcomes)
    {before after : List InnerTubeClientConfig} (hchain : clientChain = before ++ client :: after)
    {raw : RawPlayerResponse} (hok : Says env (outcomes client) raw (str "OK"))
    (hfails : ∀ c ∈ before, Fails env (outcomes c)) (w : World) :
    ((fetchWithFallback env videoId regionCode signatureTimestamp).run w).1 = .ok (raw, client) ↔
      ∀ c ∈ before, Survivable env (outcomes c) := by
  rw [fetchWithFallback, hchain]
  rcases fallback_first_ok hio hanswers before after hok hfails none none w with
    ⟨hall, w', hrun⟩ | ⟨hsome, e, w', -, hrun⟩
  · exact iff_of_true (by rw [hrun]) hall
  · exact iff_of_false (by simp [hrun]) hsome

end

def playable : RawPlayerResponse := { playabilityStatus := { status := str "OK" } }

def unplayable : RawPlayerResponse := { playabilityStatus := { status := str "UNPLAYABLE" } }

theorem clientChain_second : clientChain = [.ANDROID_VR] ++ .ANDROID ::
    [.ANDROID_TESTSUITE, .TVHTML5_SIMPLY_EMBEDDED, .IOS, .MWEB, .WEB_EMBEDDED, .WEB] := rfl

theorem fetchWithFallback_second_client :
    ((fetchWithFallback (scriptedEnv (.ok unplayable) (.ok playable)) (str "dQw4w9WgXcQ") none
      none).run
      freshWorld).1 = .ok (playable, .ANDROID) := by
  refine (fetchWithFallback_first_ok_iff scriptedEnv_ioFailures
    (scriptedEnv_answers _ _ _ none none)
    clientChain_second ⟨rfl, rfl⟩ (fun c hc raw status hsays => ?_) freshWorld).mpr fun c hc => ?_
  · obtain rfl := List.mem_singleton.mp hc
    obtain ⟨hraw, rfl⟩ := hsays
    obtain rfl : unplayable = raw := Except.ok.inj hraw
    exact ⟨by decide, by decide⟩
  · obtain rfl := List.mem_singleton.mp hc
    exact fun _ => ⟨unplayable, rfl⟩

-- A first client whose body does not decode ends the chain.
theorem fetchWithFallback_undecodable_aborts :
    let env := scriptedEnv (.error (str "Unexpected JSON token")) (.ok playable)
    Says env (scriptedOutcome .ANDROID) playable (str "OK") ∧
      Fails env (scriptedOutcome .ANDROID_VR) ∧
      ((fetchWithFallback env (str "dQw4w9WgXcQ") none none).run freshWorld).1 ≠
        .ok (playable, .ANDROID) := by
  intro env
  have hok : Says env (scriptedOutcome .ANDROID) playable (str "OK") := ⟨rfl, rfl⟩
  have hfails : Fails env (scriptedOutcome .ANDROID_VR) := by
    rintro raw status ⟨hraw, -⟩
    exact nomatch hraw
  refine ⟨hok, hfails, ?_⟩
  rcases fallback_first_ok scriptedEnv_ioFailures
    (scriptedEnv_answers _ _ (str "dQw4w9WgXcQ") none none)
      [.ANDROID_VR] _ hok (by simpa using hfails) none none freshWorld with
        ⟨hall, -⟩ | ⟨-, e, w', -, hrun⟩
  · obtain ⟨raw, hraw⟩ := hall .ANDROID_VR List.mem_cons_self rfl
    exact nomatch hraw
  · rw [fetchWithFallback, clientChain_second, hrun]
    simp

end Ytdlpdroid.YouTubeExtractor
