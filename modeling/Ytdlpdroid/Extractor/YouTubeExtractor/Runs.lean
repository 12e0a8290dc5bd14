import Ytdlpdroid.Concurrent.Runs
import Ytdlpdroid.Extractor.YouTubeExtractor.Failures
import Ytdlpdroid.Extractor.YouTubeExtractor.Frame

namespace Ytdlpdroid.YouTubeExtractor

open Text Collections Concurrent

-- One call of `extract`.
structure Visit where
  videoId : Str
  options : ExtractionOptions
  schedule : List Nat := []

-- Where an entry of the cache comes from: the options of a call and what it resolved.
structure Origin where
  options : ExtractionOptions
  found : Resolution

-- The state during a run. `origin` remembers for each video the last call that the cache
-- did not answer.
structure Session where
  world : World
  origin : Str → Option Origin := fun _ => none

section

variable (env : Env)

def Session.outcome (session : Session) (visit : Visit) : Except Throwable StreamResult :=
  ((extract env visit.schedule visit.videoId visit.options).run session.world).1

def Session.after (session : Session) (visit : Visit) : Session where
  world := ((extract env visit.schedule visit.videoId visit.options).run session.world).2
  origin :=
    match cached env visit.videoId session.world, ((resolve env visit.schedule visit.videoId
        visit.options.regionCode).run (afterMiss env visit.videoId session.world)).1 with
    | none, .ok found => Function.update session.origin visit.videoId (some ⟨visit.options, found⟩)
    | _, _ => session.origin

-- The formats that decipher, in their order, each with the URL that its task made of it.
def Deciphered (playerJsUrl : Str) (formats : List RawFormat)
    (resolved : List (RawFormat × Str)) : Prop :=
  ∃ outcomes, List.Forall₂ Prog.Outcome (formats.map (resolveFormat env playerJsUrl)) outcomes ∧
    resolved = outcomes.filterMap Except.toOption

-- What was resolved comes from a playable response to a request for this video and region.
structure Requested (calls : List Call) (videoId : Str) (regionCode : Option Str)
    (found : Resolution) : Prop where
  asked : ∃ call ∈ calls, ∃ visitorData signatureTimestamp,
    call.request = InnerTubeClient.playerRequest found.winningClient videoId visitorData regionCode
      signatureTimestamp ∧ Says env call.outcome found.response (str "OK")
  checked : checkResponse videoId found.response = .ok (found.videoInfo, found.streamingData)
  deciphered :
    ∃ playerJsUrl, Deciphered env playerJsUrl (allFormats found.streamingData) found.resolvedFormats

-- The result is the selection of these formats under these options.
def Selected (videoId : Str) (options : ExtractionOptions) (found : Resolution)
    (result : StreamResult) : Prop :=
  ∃ selection now, FormatSelector.select env.av1UnsafeOnThisDevice found.resolvedFormats options =
    .ok selection ∧ result = streamResult videoId found selection now

def Honours (calls : List Call) (videoId : Str) (options : ExtractionOptions)
    (result : StreamResult) : Prop :=
  ∃ found, Requested env calls videoId options.regionCode found ∧
    Selected env videoId options found result

-- What a call returns honours its own options.
def ReturnsOwn (session : Session) (visit : Visit) : Prop :=
  ∀ result, session.outcome env visit = .ok result →
    Honours env (session.after env visit).world.calls visit.videoId visit.options result

-- A call that the cache answers asks for the region of the call whose result was stored,
-- and its options select the same of what that call resolved. No region is the region US.
def FindsOwn (session : Session) (visit : Visit) : Prop :=
  ∀ result origin, cached env visit.videoId session.world = some result →
    session.origin visit.videoId = some origin →
    visit.options.regionCode.getD (str "US") = origin.options.regionCode.getD (str "US") ∧
      FormatSelector.select env.av1UnsafeOnThisDevice origin.found.resolvedFormats visit.options =
        FormatSelector.select env.av1UnsafeOnThisDevice origin.found.resolvedFormats origin.options

-- Every entry of the cache is the result of the call that is remembered for its video.
def Traced (session : Session) : Prop :=
  ∀ videoId entry, session.world.extractionCache.map.lookup videoId = some entry →
    ∃ origin, session.origin videoId = some origin ∧
      Requested env session.world.calls videoId origin.options.regionCode origin.found ∧
      Selected env videoId origin.options origin.found entry.value

end

section

variable {env : Env} {videoId : Str} {regionCode : Option Str} {calls : List Call}
  {found : Resolution}
  {w w' : World}

theorem Requested.mono {calls' : List Call} (h : ∀ call ∈ calls, call ∈ calls')
    (hr : Requested env calls videoId regionCode found) :
    Requested env calls' videoId regionCode found := by
  obtain ⟨call, hm, hasked⟩ := hr.asked
  exact ⟨⟨call, h call hm, hasked⟩, hr.checked, hr.deciphered⟩

-- The request names the region US when no region is given.
theorem Requested.region {other : Option Str}
    (h : other.getD (str "US") = regionCode.getD (str "US"))
    (hr : Requested env calls videoId regionCode found) :
    Requested env calls videoId other found := by
  obtain ⟨call, hm, visitorData, signatureTimestamp, hrequest, hsays⟩ := hr.asked
  refine ⟨⟨call, hm, visitorData, signatureTimestamp, hrequest.trans ?_, hsays⟩, hr.checked,
    hr.deciphered⟩
  simp only [InnerTubeClient.playerRequest, InnerTubeClientConfig.buildRequestBody,
    InnerTubeClientConfig.bodyLines, h]

-- The cache and the calls made so far, while a video is resolved.
structure Kept (cache : MemoryCache Str StreamResult) (calls : List Call) (w : World) : Prop where
  cache : w.extractionCache = cache
  calls : ∀ call ∈ calls, call ∈ w.calls

theorem kept_frame (cache : MemoryCache Str StreamResult) (calls : List Call) :
    LibraryFrame (Kept cache calls) where
  log := fun _ _ h => ⟨h.cache, fun call hm => List.mem_append_left _ (h.calls call hm)⟩
  session := fun _ _ _ h => ⟨h.cache, h.calls⟩
  engine := fun _ _ _ h => ⟨h.cache, h.calls⟩
  memory := fun _ _ h => ⟨h.cache, h.calls⟩
  disk := fun _ _ _ h => ⟨h.cache, h.calls⟩
  functions := fun _ _ _ h => ⟨h.cache, h.calls⟩

theorem kept_refl (w : World) : Kept w.extractionCache w.calls w := ⟨rfl, fun _ hm => hm⟩

-- A client that is taken for playable has been asked.
theorem askClient_says {signatureTimestamp : Option Int} {client : InnerTubeClientConfig}
    {raw : RawPlayerResponse}
    (h : (askClient env videoId regionCode signatureTimestamp client).run w = (.ok raw, w')) :
    ∃ call ∈ w'.calls, ∃ visitorData, call.request =
      InnerTubeClient.playerRequest client videoId visitorData regionCode signatureTimestamp ∧
        Says env call.outcome raw (str "OK") := by
  obtain ⟨response, middle, hfetch, -⟩ := Prog.bind_ok_inv h
  obtain ⟨visitorData, w₁, hvisitor, -⟩ := Prog.bind_ok_inv hfetch
  rw [askClient_run hvisitor] at h
  obtain ⟨hjudge, rfl⟩ := Prod.mk.inj h
  exact ⟨_, List.mem_append_right _ List.mem_cons_self, visitorData, rfl, judge_ok.mp hjudge⟩

theorem fallback_says {signatureTimestamp : Option Int} {clients : List InnerTubeClientConfig}
    {last geo : Option Throwable} {raw : RawPlayerResponse} {client : InnerTubeClientConfig}
    (h : (fallback env videoId regionCode signatureTimestamp clients last geo).run w =
      (.ok (raw, client), w')) :
    ∃ call ∈ w'.calls, ∃ visitorData, call.request =
      InnerTubeClient.playerRequest client videoId visitorData regionCode signatureTimestamp ∧
        Says env call.outcome raw (str "OK") := by
  induction clients generalizing last geo w with
  | nil => cases h
  | cons first rest ih =>
      rw [fallback, Prog.run_bind, Prog.run_attempt] at h
      rcases hask : (askClient env videoId regionCode signatureTimestamp first).run w with
        ⟨outcome, w₁⟩
      rw [hask] at h
      cases outcome with
      | ok response =>
          obtain ⟨hfound, rfl⟩ := Prod.mk.inj h
          obtain ⟨rfl, rfl⟩ := Prod.mk.inj (Except.ok.inj hfound)
          exact askClient_says hask
      | error e =>
          simp only at h
          split_ifs at h
          · cases h
          · exact ih h
          · exact ih h
          · cases h

theorem resolveFormats_deciphered {schedule : List Nat} {url : Str} {formats : List RawFormat}
    {resolved : List (RawFormat × Str)}
    (h : (resolveFormats env schedule url formats).run w = (.ok resolved, w')) :
    Deciphered env url formats resolved := by
  obtain ⟨outcomes, w₁, hrun, houtcomes⟩ :=
    Prog.par_outcome schedule (formats.map (resolveFormat env url)) w
  rw [resolveFormats, Prog.run_bind_ok hrun] at h
  exact ⟨outcomes, houtcomes, (Except.ok.inj (Prod.mk.inj h).1).symm⟩

theorem conclude_found {schedule : List Nat} {playerJsUrl : Option Str} {raw : RawPlayerResponse}
    {client : InnerTubeClientConfig}
    (h : (conclude env schedule videoId playerJsUrl raw client).run w = (.ok found, w')) :
    found.response = raw ∧ found.winningClient = client ∧
      checkResponse videoId raw = .ok (found.videoInfo, found.streamingData) ∧
      ∃ url, Deciphered env url (allFormats found.streamingData) found.resolvedFormats := by
  obtain ⟨⟨videoInfo, streamingData⟩, w₁, hcheck, h⟩ := Prog.bind_ok_inv h
  obtain ⟨url, w₂, -, h⟩ := Prog.bind_ok_inv h
  obtain ⟨resolved, w₃, hdecipher, h⟩ := Prog.bind_ok_inv h
  rw [Prog.run_ofExcept] at hcheck
  split_ifs at h
  · cases h
  · obtain rfl := Except.ok.inj (Prod.mk.inj h).1
    exact ⟨rfl, rfl, (Prod.mk.inj hcheck).1, url, resolveFormats_deciphered hdecipher⟩

theorem resolve_requested {schedule : List Nat}
    (h : (resolve env schedule videoId regionCode).run w = (.ok found, w')) :
    Requested env w'.calls videoId regionCode found := by
  rw [resolve_eq] at h
  obtain ⟨playerJsUrl, w₁, -, h⟩ := Prog.bind_ok_inv h
  obtain ⟨signatureTimestamp, w₂, -, h⟩ := Prog.bind_ok_inv h
  obtain ⟨⟨raw, client⟩, w₃, hchain, h⟩ := Prog.bind_ok_inv h
  obtain ⟨rfl, rfl, hcheck, hdeciphered⟩ := conclude_found h
  obtain ⟨call, hm, visitorData, hasked⟩ := fallback_says hchain
  have hkept :=
    ((conclude_preserves (kept_frame w₃.extractionCache w₃.calls) env schedule videoId playerJsUrl
    found.response found.winningClient).run (kept_refl w₃)).calls
  rw [h] at hkept
  exact ⟨⟨call, hkept call hm, visitorData, signatureTimestamp, hasked⟩, hcheck, hdeciphered⟩

-- Reading the cache makes no call and no entry, and an entry that has expired is gone.
theorem afterMiss_calls (env : Env) (videoId : Str) (w : World) :
    (afterMiss env videoId w).calls = w.calls := by
  unfold afterMiss ExtractionCache.get
  rw [Prog.run_atomic]
  cases w.extractionCache.map.lookup videoId <;> rfl

theorem lookup_afterMiss {other : Str} {entry : Entry StreamResult}
    (h : (afterMiss env videoId w).extractionCache.map.lookup other = some entry) :
    w.extractionCache.map.lookup other = some entry := by
  unfold afterMiss ExtractionCache.get at h
  rw [Prog.run_atomic] at h
  cases hfound : w.extractionCache.map.lookup videoId with
  | none =>
      rw [hfound] at h
      exact h
  | some found =>
      rw [hfound] at h
      exact MemoryCache.lookup_get _ _ _ _ _ h

theorem cached_eq (env : Env) (videoId : Str) (w : World) :
    cached env videoId w = w.extractionCache.live videoId (env.clock w.readings) := by
  unfold cached ExtractionCache.get
  rw [Prog.run_atomic]
  cases hfound : w.extractionCache.map.lookup videoId with
  | none => simp [MemoryCache.live, hfound, Except.toOption]
  | some found => exact MemoryCache.get_fst _ _ _

theorem cached_entry {result : StreamResult} (h : cached env videoId w = some result) :
    ∃ entry, w.extractionCache.map.lookup videoId = some entry ∧ entry.value = result := by
  rw [cached_eq, MemoryCache.live] at h
  split at h
  · cases h
  · rename_i entry hfound
    split_ifs at h
    exact ⟨entry, hfound, Option.some.inj h⟩

theorem lookup_afterMiss_self (h : cached env videoId w = none) :
    (afterMiss env videoId w).extractionCache.map.lookup videoId = none := by
  rw [cached_eq] at h
  unfold afterMiss ExtractionCache.get
  rw [Prog.run_atomic]
  cases hfound : w.extractionCache.map.lookup videoId with
  | none => exact hfound
  | some found => exact MemoryCache.lookup_get_self _ _ _ ((MemoryCache.get_fst _ _ _).trans h)

-- Storing a result makes no call and only its own entry.
theorem put_stores {result : StreamResult} {stored : World}
    (h : (ExtractionCache.put env videoId result).run w = (.ok (), stored)) :
    stored.calls = w.calls ∧ ∀ other entry, stored.extractionCache.map.lookup other = some entry →
      other = videoId ∧ entry.value = result ∨ w.extractionCache.map.lookup other = some entry := by
  unfold ExtractionCache.put at h
  simp only [Prog.run_bind, currentTimeMillis, Prog.run_atomic] at h
  split_ifs at h
  · obtain ⟨-, rfl⟩ := Prod.mk.inj h
    refine ⟨rfl, fun other entry hentry => ?_⟩
    simp only [MemoryCache.put, MemoryCache.lookup_insert] at hentry
    split_ifs at hentry with hevicted hother
    · exact Or.inl ⟨hother, Option.some.inj hentry ▸ rfl⟩
    · exact Or.inr hentry
  · obtain ⟨-, rfl⟩ := Prod.mk.inj h
    exact ⟨rfl, fun other entry hentry => Or.inr hentry⟩

-- What a call that the cache does not answer can do.
theorem extract_miss_cases (schedule : List Nat) (options : ExtractionOptions)
    (h : cached env videoId w = none) :
    ∃ middle, (∀ call ∈ w.calls, call ∈ middle.calls) ∧
      middle.extractionCache = (afterMiss env videoId w).extractionCache ∧
      ((∃ e, (extract env schedule videoId options).run w = (.error e, middle)) ∨
        ∃ found result stored, (resolve env schedule videoId options.regionCode).run
          (afterMiss env videoId w) =
            (.ok found, middle) ∧ Requested env middle.calls videoId options.regionCode found ∧
          Selected env videoId options found result ∧
          (ExtractionCache.put env videoId result).run
          { middle with readings := middle.readings + 1 } =
            (.ok (), stored) ∧
          (extract env schedule videoId options).run w = (.ok result, stored)) := by
  rcases hresolve :
    (resolve env schedule videoId options.regionCode).run (afterMiss env videoId w) with
    ⟨outcome, middle⟩
  have hkept := (resolve_preserves (kept_frame _ _) env schedule videoId options.regionCode).run
    (kept_refl (afterMiss env videoId w))
  rw [hresolve] at hkept
  refine ⟨middle, fun call hm => hkept.calls call (by rwa [afterMiss_calls]), hkept.cache, ?_⟩
  rw [extract_miss h]
  cases outcome with
  | error e => exact Or.inl ⟨e, Prog.run_bind_error hresolve _⟩
  | ok found =>
      rw [Prog.run_bind_ok hresolve, finish]
      cases hselect :
        FormatSelector.select env.av1UnsafeOnThisDevice found.resolvedFormats options with
      | error e => exact Or.inl ⟨e, Prog.run_bind_error (assemble_error hselect) _⟩
      | ok selection =>
          rw [Prog.run_bind_ok (assemble_ok hselect)]
          obtain ⟨stored, hput⟩ := put_run env videoId
            (streamResult videoId found selection (env.clock middle.readings))
            { middle with readings := middle.readings + 1 }
          refine Or.inr ⟨found, _, stored, rfl, resolve_requested hresolve,
            ⟨selection, _, hselect, rfl⟩, hput, ?_⟩
          exact Prog.run_bind_ok hput _

-- A call that the cache answers returns what the remembered call of the video selected.
theorem Traced.hit {session : Session} {visit : Visit} {result : StreamResult}
    (ht : Traced env session) (hown : FindsOwn env session visit)
    (h : cached env visit.videoId session.world = some result) :
    ReturnsOwn env session visit ∧ Traced env (session.after env visit) := by
  have hrun : (extract env visit.schedule visit.videoId visit.options).run session.world =
      (.ok result, afterMiss env visit.videoId session.world) := extract_hit h
  have hafter : (session.after env visit).world = afterMiss env visit.videoId session.world := by
    rw [Session.after, hrun]
  have horigin : (session.after env visit).origin = session.origin := by
    simp only [Session.after, h]
  have hcalls : (session.after env visit).world.calls = session.world.calls := by
    rw [hafter, afterMiss_calls]
  constructor
  · intro returned hreturned
    rw [Session.outcome, hrun] at hreturned
    obtain rfl := Except.ok.inj hreturned
    obtain ⟨entry, hentry, rfl⟩ := cached_entry h
    obtain ⟨origin, hremembered, hrequested, selection, now, hselect, hresult⟩ := ht _ entry hentry
    obtain ⟨hregion, hsame⟩ := hown _ origin h hremembered
    exact ⟨origin.found, hcalls ▸ hrequested.region hregion, selection, now, hsame.trans hselect,
      hresult⟩
  · intro videoId entry hentry
    rw [hafter] at hentry
    rw [horigin, hcalls]
    exact ht videoId entry (lookup_afterMiss hentry)

theorem Session.after_origin_of_ne (session : Session) {visit : Visit}
    (h : videoId ≠ visit.videoId) :
    (session.after env visit).origin videoId = session.origin videoId := by
  simp only [Session.after]
  cases cached env visit.videoId session.world with
  | some result => rfl
  | none =>
      cases ((resolve env visit.schedule visit.videoId visit.options.regionCode).run
        (afterMiss env visit.videoId session.world)).1 with
      | error e => rfl
      | ok found => exact Function.update_of_ne h _ _

theorem Session.after_origin_self {session : Session} {visit : Visit} {middle : World}
    (h : cached env visit.videoId session.world = none)
    (hresolve : (resolve env visit.schedule visit.videoId visit.options.regionCode).run
      (afterMiss env visit.videoId session.world) = (.ok found, middle)) :
    (session.after env visit).origin visit.videoId = some ⟨visit.options, found⟩ := by
  simp only [Session.after, h, hresolve, Function.update_self]

-- A call that the cache does not answer returns its own selection, and is remembered with it.
theorem Traced.miss {session : Session} {visit : Visit} (ht : Traced env session)
    (h : cached env visit.videoId session.world = none) :
    ReturnsOwn env session visit ∧ Traced env (session.after env visit) := by
  obtain ⟨middle, hcalls, hcache, hcases⟩ := extract_miss_cases visit.schedule visit.options h
  -- the call's own video has no entry, and the others keep what is remembered for them
  have hothers (videoId : Str) (entry : Entry StreamResult)
      (hentry : middle.extractionCache.map.lookup videoId = some entry) :
      ∃ origin, (session.after env visit).origin videoId = some origin ∧
        Requested env middle.calls videoId origin.options.regionCode origin.found ∧
        Selected env videoId origin.options origin.found entry.value := by
    rw [hcache] at hentry
    have hother : videoId ≠ visit.videoId := by
      rintro rfl
      rw [lookup_afterMiss_self h] at hentry
      cases hentry
    obtain ⟨origin, hremembered, hrequested, hselected⟩ :=
      ht videoId entry (lookup_afterMiss hentry)
    exact ⟨origin, (session.after_origin_of_ne hother).trans hremembered, hrequested.mono hcalls,
      hselected⟩
  rcases hcases with
    ⟨e, hrun⟩ | ⟨found, result, stored, hresolve, hrequested, hselected, hput, hrun⟩
  · refine ⟨fun returned hreturned => ?_, fun videoId entry hentry => ?_⟩
    · rw [Session.outcome, hrun] at hreturned
      cases hreturned
    · have hafter : (session.after env visit).world = middle := by rw [Session.after, hrun]
      rw [hafter] at hentry ⊢
      exact hothers videoId entry hentry
  · have hafter : (session.after env visit).world = stored := by rw [Session.after, hrun]
    obtain ⟨hmade, hstores⟩ := put_stores hput
    have hlogged : (session.after env visit).world.calls = middle.calls := by rw [hafter, hmade]
    refine ⟨fun returned hreturned => ?_, fun videoId entry hentry => ?_⟩
    · rw [Session.outcome, hrun] at hreturned
      obtain rfl := Except.ok.inj hreturned
      exact ⟨found, hlogged ▸ hrequested, hselected⟩
    · rw [hlogged]
      rw [hafter] at hentry
      rcases hstores videoId entry hentry with ⟨rfl, rfl⟩ | hold
      · exact ⟨_, Session.after_origin_self h hresolve, hrequested, hselected⟩
      · exact hothers videoId entry hold

theorem Traced.step {session : Session} {visit : Visit} (ht : Traced env session)
    (hown : FindsOwn env session visit) :
    ReturnsOwn env session visit ∧ Traced env (session.after env visit) := by
  cases h : cached env visit.videoId session.world with
  | some result => exact ht.hit hown h
  | none => exact ht.miss h

end

-- Every result of a run honours the options of its call, as long as the cache answers only
-- calls whose options agree with those of the call that it remembers.
theorem run_returnsOwn (env : Env) (w : World) (visits : List Visit)
    (hempty : w.extractionCache.map = .empty)
    (hown : Along (Session.after env) (FindsOwn env) { world := w } visits) :
    Along (Session.after env) (ReturnsOwn env) { world := w } visits := by
  have hfresh : Traced env { world := w } := by
    intro videoId entry hentry
    rw [hempty] at hentry
    cases hentry
  exact Along.of_invariant (fun _ _ ht hown => ht.step hown) hfresh hown

def videoFormat : RawFormat where
  itag := 137
  url := some (str "https://r/v")
  mimeType := str "video/mp4"
  width := some 1920
  height := some 1080

def serving (formats : List RawFormat) : Env :=
  scriptedEnv (.ok (playableWith (some { adaptiveFormats := formats }))) (.ok unplayable)

def visiting (options : ExtractionOptions) : Visit where
  videoId := str "dQw4w9WgXcQ"
  options := options

-- The second call caps a height that no format has, in the region that the first one had by
-- default.
theorem run_returnsOwn_twice :
    Along (Session.after (serving [audioFormat])) (ReturnsOwn (serving [audioFormat]))
      { world := freshWorld }
      [visiting {}, visiting { maxVideoHeight := some 360, regionCode := some (str "US") }] := by
  refine run_returnsOwn _ freshWorld _ rfl ⟨fun _ _ h _ => (nomatch h), ?_, trivial⟩
  intro result origin _ hremembered
  have hfirst :
      ∃ found, ((Session.after (serving [audioFormat]) { world := freshWorld } (visiting {})).origin
      (str "dQw4w9WgXcQ")) = some ⟨{}, found⟩ ∧
        found.resolvedFormats = [(audioFormat, str "https://r/")] :=
    ⟨_, rfl, rfl⟩
  obtain ⟨found, horigin, hformats⟩ := hfirst
  obtain rfl := Option.some.inj (horigin.symm.trans hremembered)
  exact ⟨rfl, by rw [hformats]; rfl⟩

-- The second call caps the height at 360 and gets the stream of 1080 lines that the first
-- one stored.
theorem run_confuses_options :
    ¬Along (Session.after (serving [videoFormat, audioFormat]))
      (ReturnsOwn (serving [videoFormat, audioFormat]))
      { world := freshWorld } [visiting {}, visiting { maxVideoHeight := some 360 }] := by
  rintro ⟨-, hsecond, -⟩
  have hheight : ∃ result f, Session.outcome (serving [videoFormat, audioFormat])
      (Session.after (serving [videoFormat, audioFormat]) { world := freshWorld } (visiting {}))
      (visiting { maxVideoHeight := some 360 }) = .ok result ∧ result.videoStream = some f ∧
        f.height = some 1080 := ⟨_, _, rfl, rfl, rfl⟩
  obtain ⟨result, f, hreturned, hvideo, hlines⟩ := hheight
  obtain ⟨found, -, selection, now, hselect, rfl⟩ := hsecond result hreturned
  have hcapped : f.height.getD 0 ≤ 360 := FormatSelector.select_capped rfl hselect hvideo
  rw [hlines] at hcapped
  exact absurd hcapped (by decide)

end Ytdlpdroid.YouTubeExtractor
