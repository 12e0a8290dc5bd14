import Ytdlpdroid.Concurrent.Guarantee
import Ytdlpdroid.Extractor.YouTubeExtractor.Confinement
import Ytdlpdroid.Extractor.YouTubeExtractor.Provenance

namespace Ytdlpdroid.YouTubeExtractor

open Text Collections Concurrent FormatSelector

section

variable (env : Env) (start : List Call)

-- The call was made after those that the log began with.
def CalledSince (calls : List Call) (call : Call) : Prop :=
  ∃ before after, calls = before ++ call :: after ∧ start <+: before

-- A call since the start asked this client for the video, and its answer was this playable
-- response.
def Answered (calls : List Call) (videoId : Str) (regionCode : Option Str)
    (client : InnerTubeClientConfig) (response : RawPlayerResponse) : Prop :=
  ∃ call, CalledSince start calls call ∧ ∃ visitorData signatureTimestamp, call.request =
    InnerTubeClient.playerRequest client videoId visitorData regionCode signatureTimestamp ∧
      Says env call.outcome response (str "OK")

-- The result was selected under these options from the formats of one response to a request for
-- the video that was made since the start, and each stream is one of its formats with a URL
-- made from the format's own.
structure MadeFrom (calls : List Call) (videoId : Str) (options : ExtractionOptions)
    (found : Resolution) (result : StreamResult) : Prop where
  answered : Answered env start calls videoId options.regionCode found.winningClient found.response
  concluded : Concluded videoId found.response found.winningClient found
  selected : Selected env videoId options found result
  streams : ∀ stream, HasStream result stream → ∃ format ∈ allFormats found.streamingData,
    Presents stream format ∧ DecipherService.PlayableUrl format stream.url

-- The result was made for one of these visits.
def Made (visits : List Visit) (calls : List Call) (videoId : Str) (result : StreamResult) : Prop :=
  ∃ visit ∈ visits, visit.videoId = videoId ∧
    ∃ found, MadeFrom env start calls videoId visit.options found result

-- Every result that is held was made for one of the visits to its video.
def Sound (visits : List Visit) (w : World) : Prop :=
  ∀ videoId entry, w.extractionCache.map.lookup videoId = some entry →
    Made env start visits w.calls videoId entry.value

-- What may happen between two states: calls are added, and results only that were made for a visit.
structure Later (visits : List Visit) (w w' : World) : Prop where
  calls : w.calls <+: w'.calls
  sound : Sound env start visits w → Sound env start visits w'

end

section

variable {env : Env} {start : List Call} {visits : List Visit} {calls calls' : List Call}
  {videoId : Str} {regionCode : Option Str}
  {client : InnerTubeClientConfig} {response : RawPlayerResponse} {result : StreamResult}
  {w w' : World}

instance : IsPreorder World (Later env start visits) where
  refl _ := ⟨List.prefix_refl _, id⟩
  trans _ _ _ h h' := ⟨h.calls.trans h'.calls, h'.sound ∘ h.sound⟩

theorem CalledSince.mono {call : Call} (h : CalledSince start calls call)
    (hcalls : calls <+: calls') :
    CalledSince start calls' call := by
  obtain ⟨before, after, rfl, hstart⟩ := h
  obtain ⟨more, rfl⟩ := hcalls
  exact ⟨before, after ++ more, by simp, hstart⟩

theorem Answered.mono (h : Answered env start calls videoId regionCode client response)
    (hcalls : calls <+: calls') :
    Answered env start calls' videoId regionCode client response := by
  obtain ⟨call, hm, hcall⟩ := h
  exact ⟨call, hm.mono hcalls, hcall⟩

theorem Made.mono (h : Made env start visits calls videoId result) (hcalls : calls <+: calls') :
    Made env start visits calls' videoId result := by
  obtain ⟨visit, hm, hvideo, found, hmade⟩ := h
  exact ⟨visit, hm, hvideo, found, { hmade with answered := hmade.answered.mono hcalls }⟩

-- An access that adds no entry to the cache.
theorem later_of_lookup (hcalls : w.calls <+: w'.calls)
    (hlookup : ∀ videoId entry, w'.extractionCache.map.lookup videoId = some entry →
      w.extractionCache.map.lookup videoId = some entry) : Later env start visits w w' :=
  ⟨hcalls, fun hsound videoId entry hentry =>
    (hsound videoId entry (hlookup videoId entry hentry)).mono hcalls⟩

theorem later_of_libraryAccess {permitted : Request → Prop} {β : Type} {access : World → β × World}
    {cost : Nat} {gain : β → Nat} (h : LibraryAccess env permitted β access cost gain) (w : World) :
    Later env start visits w (access w).2 := by
  have hcalls : w.calls <+: (access w).2.calls := by
    cases h.network with
    | quiet _ hcalls => rw [hcalls w]
    | call request _ => exact List.prefix_append _ _
  refine later_of_lookup hcalls fun videoId entry hentry => ?_
  rwa [h.cache w] at hentry

-- A program that only makes requests leaves the results alone.
theorem guarantees_of_within {α : Type} {P : α → Prop} {keeps : α → Nat} {budget : Nat}
    {p : Action α} (h : MakesWithin env (fun _ => True) P keeps budget p) (w : World) :
    Prog.Guarantees (Later env start visits) (fun a _ => P a) p w :=
  h.guarantees (fun _ _ _ _ haccess later => later_of_libraryAccess haccess later) w

theorem sendRequest_guarantees (request : Request) (hstart : start <+: w.calls) :
    Prog.Guarantees (Later env start visits)
      (fun response w' => ∃ call, CalledSince start w'.calls call ∧ call.request = request ∧
        call.outcome = .ok response)
      (InnerTubeClient.sendRequest env request) w := by
  refine Prog.Guarantees.tryCatch (Prog.Guarantees.attemptAtomic fun later hlater => ⟨?_, ?_⟩)
    fun e _ => trivial
  · exact later_of_lookup (List.prefix_append _ _) fun _ _ => id
  · intro response hresponse last hlast
    have hcalled :
        CalledSince start (later.calls ++ [callOf env later request]) (callOf env later request) :=
      ⟨later.calls, [], rfl, hstart.trans hlater.calls⟩
    exact ⟨callOf env later request, hcalled.mono hlast.calls, rfl, hresponse⟩

theorem fetchPlayerResponse_guarantees (signatureTimestamp : Option Int)
    (client : InnerTubeClientConfig) (hstart : start <+: w.calls) :
    Prog.Guarantees (Later env start visits)
      (fun raw w' => ∃ call, CalledSince start w'.calls call ∧ ∃ visitorData, call.request =
        InnerTubeClient.playerRequest client videoId visitorData regionCode signatureTimestamp ∧
          InnerTubeClient.answer env call.outcome = .ok raw)
      (InnerTubeClient.fetchPlayerResponse env videoId client regionCode signatureTimestamp) w := by
  have hvisitor :
      Prog.Guarantees (Later env start visits) _ (InnerTubeClient.visitorDataFor env client) w :=
    guarantees_of_within (InnerTubeClient.visitorDataFor_within trivial client) w
  refine Prog.Guarantees.bind (hvisitor.since.mono fun visitorData w₁ ⟨hlater₁, _⟩ => ?_)
  refine Prog.Guarantees.bind ((sendRequest_guarantees _ (hstart.trans hlater₁.calls)).mono
    fun answer w₂ ⟨call, hcalled, hrequest, hanswer⟩ => ?_)
  refine Prog.Guarantees.ofExcept fun raw hraw w₃ hlater => ?_
  exact ⟨call, hcalled.mono hlater.calls, visitorData, hrequest, by rw [hanswer]; exact hraw⟩

theorem askClient_guarantees (signatureTimestamp : Option Int) (client : InnerTubeClientConfig)
    (hstart : start <+: w.calls) :
    Prog.Guarantees (Later env start visits)
      (fun raw w' => Answered env start w'.calls videoId regionCode client raw)
      (askClient env videoId regionCode signatureTimestamp client) w := by
  refine Prog.Guarantees.bind
    ((fetchPlayerResponse_guarantees signatureTimestamp client hstart).mono ?_)
  rintro raw w₁ ⟨call, hcalled, visitorData, hrequest, hanswer⟩
  rcases checkPlayability_cases raw videoId with ⟨hok, hcheck⟩ | ⟨-, e, hcheck, -⟩
  · rw [hcheck]
    exact fun w₂ hlater =>
      ⟨call, hcalled.mono hlater.calls, visitorData, signatureTimestamp, hrequest, hanswer, hok⟩
  · rw [hcheck]
    trivial

-- The client that wins has answered, whoever else asks in between.
theorem fallback_guarantees (signatureTimestamp : Option Int) (clients : List InnerTubeClientConfig)
    (last geo : Option Throwable) (hstart : start <+: w.calls) :
    Prog.Guarantees (Later env start visits)
      (fun found w' => Answered env start w'.calls videoId regionCode found.2 found.1)
      (fallback env videoId regionCode signatureTimestamp clients last geo) w := by
  induction clients generalizing last geo w with
  | nil => trivial
  | cons client rest ih =>
      refine Prog.Guarantees.bind
        ((askClient_guarantees signatureTimestamp client hstart).attempt.since.mono ?_)
      intro outcome w₁ ⟨hlater₁, houtcome⟩
      have hstart₁ : start <+: w₁.calls := hstart.trans hlater₁.calls
      cases outcome with
      | ok raw => exact fun w₂ hlater => (houtcome raw rfl).mono hlater.calls
      | error e =>
          dsimp only
          split_ifs
          · trivial
          · exact ih (some e) (some e) hstart₁
          · exact ih (some e) geo hstart₁
          · trivial

theorem resolve_guarantees (schedule : List Nat) (hstart : start <+: w.calls) :
    Prog.Guarantees (Later env start visits) (fun found w' =>
        Answered env start w'.calls videoId regionCode found.winningClient found.response ∧
          Concluded videoId found.response found.winningClient found)
      (resolve env schedule videoId regionCode) w := by
  rw [resolve_eq]
  have hfetch : Prog.Guarantees (Later env start visits) _
      (getOrNull (PlayerJsRepository.fetchPlayerJsUrl env videoId)) w :=
    guarantees_of_within (getOrNull_within (PlayerJsRepository.fetchPlayerJsUrl_within trivial)) w
  refine Prog.Guarantees.bind (hfetch.since.mono fun playerJsUrl w₁ ⟨hlater₁, hpath⟩ => ?_)
  have hprefetch :
      Prog.Guarantees (Later env start visits) _ (prefetchTimestamp env playerJsUrl) w₁ :=
    guarantees_of_within (prefetchTimestamp_within fun url hurl => ⟨hpath url hurl, trivial⟩) w₁
  refine Prog.Guarantees.bind (hprefetch.since.mono fun signatureTimestamp w₂ ⟨hlater₂, _⟩ => ?_)
  have hstart₂ : start <+: w₂.calls := hstart.trans (hlater₁.calls.trans hlater₂.calls)
  refine Prog.Guarantees.bind
    ((fallback_guarantees signatureTimestamp clientChain none none hstart₂).mono ?_)
  rintro ⟨response, client⟩ w₃ hanswered
  have hall : ∀ request, LibraryRequest videoId regionCode request → True := fun _ _ => trivial
  have hconclude : Prog.Guarantees (Later env start visits) _
      (conclude env schedule videoId playerJsUrl response client) w₃ :=
    guarantees_of_within (conclude_within hall hpath schedule response client) w₃
  refine hconclude.since.mono fun found w₄ ⟨hlater, hconcluded⟩ => ?_
  rw [hconcluded.response, hconcluded.winningClient]
  exact ⟨hanswered.mono hlater.calls, hconcluded⟩

-- What is assembled under the options of a visit was made for it.
theorem assemble_guarantees {visit : Visit} {found : Resolution}
    (hanswered : Answered env start w.calls visit.videoId visit.options.regionCode
      found.winningClient found.response)
    (hconcluded : Concluded visit.videoId found.response found.winningClient found) :
    Prog.Guarantees (Later env start visits)
      (fun result w' => MadeFrom env start w'.calls visit.videoId visit.options found result)
      (assemble env visit.videoId visit.options found) w := by
  refine Prog.Guarantees.bind (Prog.Guarantees.ofExcept fun selection hselect w₁ hlater => ?_)
  refine Prog.Guarantees.bind (Prog.Guarantees.atomic fun w₂ hlater₂ =>
    ⟨later_of_lookup (List.prefix_refl _)
    fun _ _ => id, fun w₃ hlater₃ => ?_⟩)
  intro w₄ hlater₄
  have hcalls : w.calls <+: w₄.calls :=
    hlater.calls.trans (hlater₂.calls.trans (hlater₃.calls.trans hlater₄.calls))
  refine ⟨hanswered.mono hcalls, hconcluded, ⟨selection, _, hselect, rfl⟩, fun stream hstream => ?_⟩
  obtain ⟨pair, hm, hconverts⟩ := select_converts hselect hstream
  obtain ⟨hpresents, hurl⟩ := toStreamFormat_presents hconverts
  obtain ⟨hformat, hplayable⟩ := hconcluded.resolved pair hm
  exact ⟨pair.1, hformat, hpresents, hurl ▸ hplayable⟩

-- What the cache answers was made for a visit.
theorem get_guarantees (hsound : Sound env start visits w) :
    Prog.Guarantees (Later env start visits) (fun found w' => ∀ result, found = some result →
      Made env start visits w'.calls videoId result) (ExtractionCache.get env videoId) w := by
  refine Prog.Guarantees.atomic fun w₁ hlater => ?_
  have hcalls : (afterMiss env videoId w₁).calls = w₁.calls := afterMiss_calls env videoId w₁
  have hstep : Later env start visits w₁ (afterMiss env videoId w₁) :=
    later_of_lookup (by rw [hcalls]) fun _ _ => lookup_afterMiss
  refine ⟨hstep, ?_⟩
  intro w₂ hlater₂ result hfound
  have hcached : cached env videoId w₁ = some result := by
    rw [cached, ExtractionCache.get, Prog.run_atomic]
    exact hfound
  obtain ⟨entry, hentry, rfl⟩ := cached_entry hcached
  have hbefore : w₁.calls <+: w₂.calls := hcalls ▸ hlater₂.calls
  exact (hlater.sound hsound videoId entry hentry).mono hbefore

-- Storing a result that was made for a visit keeps the cache sound.
theorem put_guarantees (hmade : Made env start visits w.calls videoId result) :
    Prog.Guarantees (Later env start visits) (fun _ _ => True)
      (ExtractionCache.put env videoId result) w := by
  refine Prog.Guarantees.bind (Prog.Guarantees.atomic fun w₁ hlater =>
    ⟨later_of_lookup (List.prefix_refl _)
    fun _ _ => id, fun w₂ hlater₂ => ?_⟩)
  dsimp only
  split_ifs
  · refine Prog.Guarantees.atomic fun w₃ hlater₃ =>
      ⟨⟨List.prefix_refl _, fun hsound other entry hentry => ?_⟩,
      fun _ _ => trivial⟩
    simp only [MemoryCache.put, MemoryCache.lookup_insert] at hentry
    split_ifs at hentry with hevicted hother
    · obtain rfl := Option.some.inj hentry
      exact hother ▸ hmade.mono (hlater.calls.trans (hlater₂.calls.trans hlater₃.calls))
    · exact hsound other entry hentry
  · exact fun _ _ => trivial

theorem extract_guarantees {visit : Visit} (hvisit : visit ∈ visits) (hstart : start <+: w.calls)
    (hsound : Sound env start visits w) :
    Prog.Guarantees (Later env start visits)
      (fun result w' => Made env start visits w'.calls visit.videoId result)
      (extract env visit.schedule visit.videoId visit.options) w := by
  refine Prog.Guarantees.bind ((get_guarantees hsound).since.mono fun found w₁ ⟨hlater₁, hfound⟩ =>
    ?_)
  cases found with
  | some result => exact fun w₂ hlater => (hfound result rfl).mono hlater.calls
  | none =>
      refine Prog.Guarantees.bind
        ((resolve_guarantees visit.schedule (hstart.trans hlater₁.calls)).mono
        fun found w₂ ⟨hanswered, hdone⟩ => ?_)
      refine Prog.Guarantees.bind
        ((assemble_guarantees hanswered hdone).mono fun result w₃ hmade => ?_)
      have hmade : Made env start visits w₃.calls visit.videoId result :=
        ⟨visit, hvisit, rfl, found, hmade⟩
      refine Prog.Guarantees.bind
        ((put_guarantees hmade).since.mono fun _ w₄ ⟨hlater, _⟩ w₅ hlater₅ => ?_)
      exact hmade.mono (hlater.calls.trans hlater₅.calls)

-- The visits, interleaved.
def interleaved (env : Env) (schedule : List Nat) (visits : List Visit) :
    Action (List (Except Throwable StreamResult)) :=
  Prog.par schedule (visits.map fun visit => extract env visit.schedule visit.videoId visit.options)

-- Whatever the interleaving, at every moment the cache holds nothing but results made for a visit
-- to their video, and so is each result that a visit returns.
theorem interleaved_made (env : Env) (schedule : List Nat) (visits : List Visit) (w : World)
    (hempty : w.extractionCache.map = .empty) :
    (∀ count, Sound env w.calls visits ((interleaved env schedule visits).stopAfter count w)) ∧
      ∃ outcomes w', (interleaved env schedule visits).run w = (.ok outcomes, w') ∧
        List.Forall₂ (fun visit outcome => ∀ result, outcome = .ok result →
          Made env w.calls visits w'.calls visit.videoId result) visits outcomes := by
  have hsound : Sound env w.calls visits w := by
    intro videoId entry hentry
    rw [hempty] at hentry
    cases hentry
  let post (visit : Visit) : StreamResult → World → Prop := fun result w' =>
    Made env w.calls visits w'.calls visit.videoId result
  have htasks :
      List.Forall₂ (fun task post => Prog.Guarantees (Later env w.calls visits) post task w)
      (visits.map fun visit => extract env visit.schedule visit.videoId visit.options)
        (visits.map post) := by
    rw [List.forall₂_map_left_iff, List.forall₂_map_right_iff, List.forall₂_same]
    exact fun visit hm => extract_guarantees hm (List.prefix_refl _) hsound
  have hpar : Prog.Guarantees (Later env w.calls visits) _ (interleaved env schedule visits) w :=
    Prog.Guarantees.par schedule htasks
  refine ⟨fun count => (hpar.stopAfter count).sound hsound, ?_⟩
  obtain ⟨outcomes, w', hrun, -⟩ := Prog.par_outcome schedule
    (visits.map fun visit => extract env visit.schedule visit.videoId visit.options) w
  have hmet := hpar.run.2 outcomes w' hrun
  rw [List.forall₂_map_left_iff] at hmet
  exact ⟨outcomes, w', hrun, hmet⟩

-- Two visits to one video whose accesses alternate both ask, and both return what they were
-- answered.
theorem interleaved_made_two :
    let env := serving [videoFormat, audioFormat]
    let visits := [visiting {}, visiting {}]
    ∃ first second w', (interleaved env [0, 1, 0, 1] visits).run freshWorld =
      (.ok [.ok first, .ok second], w') ∧ Made env [] visits w'.calls (str "dQw4w9WgXcQ") first ∧
        Made env [] visits w'.calls (str "dQw4w9WgXcQ") second := by
  intro env visits
  obtain ⟨-, outcomes, w', hrun, hmade⟩ := interleaved_made env [0, 1, 0, 1] visits freshWorld rfl
  have hboth : (((interleaved env [0, 1, 0, 1] visits).run freshWorld).1.toOption.getD []).map
      (fun outcome => outcome.toOption.isSome) = [true, true] := by decide +kernel
  rw [hrun] at hboth
  obtain ⟨_ | first, _ | second, rfl⟩ : ∃ first second, outcomes = [first, second] :=
    List.length_eq_two.mp hmade.length_eq.symm
  · cases hboth
  · cases hboth
  · cases hboth
  · obtain ⟨hfirst, hrest⟩ := List.forall₂_cons.mp hmade
    obtain ⟨hsecond, -⟩ := List.forall₂_cons.mp hrest
    exact ⟨first, second, w', hrun, hfirst first rfl, hsecond second rfl⟩

end

end Ytdlpdroid.YouTubeExtractor
