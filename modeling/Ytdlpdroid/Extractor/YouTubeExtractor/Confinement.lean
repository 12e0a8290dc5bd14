import Ytdlpdroid.Extractor.VideoIdParser.Theorems
import Ytdlpdroid.Extractor.YouTubeExtractor.Requests

namespace Ytdlpdroid

open Text Collections Concurrent

namespace YouTubeExtractor

-- What `conclude` makes of a response: its formats, each with a URL of its own.
structure Concluded (videoId : Str) (raw : RawPlayerResponse) (client : InnerTubeClientConfig)
    (found : Resolution) : Prop where
  response : found.response = raw
  winningClient : found.winningClient = client
  checked : checkResponse videoId raw = .ok (found.videoInfo, found.streamingData)
  resolved : ∀ pair ∈ found.resolvedFormats,
    pair.1 ∈ allFormats found.streamingData ∧ DecipherService.PlayableUrl pair.1 pair.2

-- The requests for the player's URL that are left: one if it is not known yet.
def lookups (playerJsUrl : Option Str) : Nat := playerJsUrl.elim 1 fun _ => 0

section

variable {env : Env} {permitted : Request → Prop} {videoId : Str}
  {regionCode playerJsUrl : Option Str}

theorem resolvePlayerJsUrl_within (h : permitted (PlayerJsRepository.watchRequest videoId))
    (hpath : ∀ url, playerJsUrl = some url → PlayerJsRepository.PlayerPath url) :
    MakesWithin env permitted PlayerJsRepository.PlayerPath (fun _ => 0) (lookups playerJsUrl)
      (resolvePlayerJsUrl env playerJsUrl videoId) := by
  cases playerJsUrl with
  | some url => exact ⟨hpath url rfl, Nat.le_refl 0⟩
  | none => exact PlayerJsRepository.fetchPlayerJsUrl_within h

theorem formatCount_of_checked {raw : RawPlayerResponse} {videoInfo : VideoInfo}
    {streamingData : RawStreamingData}
    (h : checkResponse videoId raw = .ok (videoInfo, streamingData)) :
    formatCount raw = (allFormats streamingData).length := by
  rcases checkResponse_cases videoId raw with ⟨-, he⟩ | ⟨e, -, -, he⟩ | ⟨_, _, -, -, hdata, hok⟩
  · exact absurd (he.symm.trans h) (by simp)
  · exact absurd (he.symm.trans h) (by simp)
  · obtain ⟨-, hsame⟩ := Prod.mk.inj (Except.ok.inj (hok.symm.trans h))
    rw [formatCount, hdata, hsame]
    rfl

-- What the answer offered pays for the formats.
theorem conclude_within
    (h : ∀ request, LibraryRequest videoId regionCode request → permitted request)
    (hpath : ∀ url, playerJsUrl = some url → PlayerJsRepository.PlayerPath url)
    (schedule : List Nat) (raw : RawPlayerResponse) (client : InnerTubeClientConfig) :
    MakesWithin env permitted (Concluded videoId raw client) (fun _ => 0)
      (formatCount raw + lookups playerJsUrl)
      (conclude env schedule videoId playerJsUrl raw client) := by
  refine Prog.Within.bind (MakesWithin.ofExcept _ fun checked hchecked => hchecked) ?_
  rintro ⟨videoInfo, streamingData⟩ hchecked
  have hlookup : MakesWithin env permitted _ _ _ (resolvePlayerJsUrl env playerJsUrl videoId) :=
    resolvePlayerJsUrl_within (h _ .watch) hpath
  refine Prog.Within.bind ((hlookup.frame (formatCount raw)).spare (by omega)) fun url hurl => ?_
  have hformats : MakesWithin env permitted _ _ _
      (resolveFormats env schedule url (allFormats streamingData)) :=
    resolveFormats_within ⟨hurl, h _ (.playerJs url hurl)⟩ schedule (allFormats streamingData)
  have hbudget : (allFormats streamingData).length ≤ 0 + formatCount raw := by
    rw [formatCount_of_checked hchecked, Nat.zero_add]
  refine Prog.Within.bind (hformats.spare hbudget) fun resolved hresolved => ?_
  split_ifs
  · trivial
  · exact ⟨⟨rfl, rfl, hchecked, hresolved⟩, Nat.le_refl 0⟩

theorem prefetchTimestamp_within
    (h : ∀ url, playerJsUrl = some url → MayFetch permitted url) :
    MakesWithin env permitted (fun _ => True) (fun _ => lookups playerJsUrl) 1
      (prefetchTimestamp env playerJsUrl) := by
  cases playerJsUrl with
  | none => exact ⟨trivial, Nat.le_refl 1⟩
  | some url =>
      refine Prog.Within.bind (getOrNull_within (P := fun _ => True) ?_) fun found _ =>
        ⟨trivial, Nat.le_refl 0⟩
      exact Prog.Within.bind (PlayerJsRepository.fetchPlayerJs_within (h url rfl)) fun js _ =>
        ⟨trivial, Nat.le_refl 0⟩

theorem clientChain_requestCount : (clientChain.map InnerTubeClient.requestCount).sum = 9 := rfl

-- Eleven requests, and one for each format that the winning answer offers.
theorem resolve_within
    (h : ∀ request, LibraryRequest videoId regionCode request → permitted request)
    (schedule : List Nat) :
    MakesWithin env permitted (fun _ => True) (fun _ => 0) 11
      (resolve env schedule videoId regionCode) := by
  rw [resolve_eq]
  have hfetch : MakesWithin env permitted _ _ _ (PlayerJsRepository.fetchPlayerJsUrl env videoId) :=
    PlayerJsRepository.fetchPlayerJsUrl_within (h _ .watch)
  refine Prog.Within.bind ((getOrNull_within hfetch).frame 10) fun playerJsUrl hpath => ?_
  have hprefetch : MakesWithin env permitted _ _ _ (prefetchTimestamp env playerJsUrl) :=
    prefetchTimestamp_within fun url hurl => ⟨hpath url hurl, h _ (.playerJs url (hpath url hurl))⟩
  refine Prog.Within.bind (hprefetch.frame 9) fun signatureTimestamp _ => ?_
  have hchain : MakesWithin env permitted _ _ _
      (fetchWithFallback env videoId regionCode signatureTimestamp) :=
    fallback_within ⟨h _ .home, fun client visitorData signatureTimestamp hvisitor =>
      h _ (.player client visitorData signatureTimestamp hvisitor)⟩
      signatureTimestamp clientChain none none
  rw [clientChain_requestCount] at hchain
  refine Prog.Within.bind
    ((hchain.frame (lookups playerJsUrl)).mono (fun _ _ => ⟨trivial, Nat.le_refl _⟩) (by omega))
    fun found _ => ?_
  exact (conclude_within h hpath schedule found.1 found.2).mono
    (fun _ _ => ⟨trivial, Nat.le_refl 0⟩) (Nat.le_refl _)

-- The cache makes no request.
theorem extract_within
    (h : ∀ request, LibraryRequest videoId regionCode request → permitted request)
    (schedule : List Nat) {options : ExtractionOptions}
    (hregion : options.regionCode = regionCode) :
    Prog.Within (NetworkAccess env permitted) (fun _ => True) (fun _ => 0) 11
      (extract env schedule videoId options) := by
  have hquiet {α : Type} {access : World → α × World} (hcalls : ∀ w, (access w).2.calls = w.calls) :
      Prog.Within (NetworkAccess env permitted) (fun _ => True) (fun _ => 0) 0
        (.atomic access : Action α) :=
    Prog.Within.atomic (.quiet access hcalls) fun _ => trivial
  have hget : Prog.Within (NetworkAccess env permitted) (fun _ => True) (fun _ => 0) 0
      (ExtractionCache.get env videoId) := by
    refine hquiet fun w => ?_
    cases w.extractionCache.map.lookup videoId <;> rfl
  have hput (result : StreamResult) :
      Prog.Within (NetworkAccess env permitted) (fun _ => True) (fun _ => 0) 0
      (ExtractionCache.put env videoId result) := by
    refine Prog.Within.bind (hquiet fun w => rfl) fun now _ => ?_
    dsimp only
    split_ifs
    · exact hquiet fun w => rfl
    · exact ⟨trivial, Nat.le_refl 0⟩
  refine Prog.Within.bind (hget.frame 11) fun found _ => ?_
  cases found with
  | some result => exact ⟨trivial, Nat.zero_le _⟩
  | none =>
      have hresolve : Prog.Within (NetworkAccess env permitted) (fun _ => True) (fun _ => 0) 11
          (resolve env schedule videoId options.regionCode) :=
        (resolve_within (hregion ▸ h) schedule).subset fun _ _ _ _ haccess => haccess.network
      refine Prog.Within.bind hresolve fun resolution _ => ?_
      have hselect : Prog.Within (NetworkAccess env permitted) (fun _ => True) (fun _ => 0) 0
          (assemble env videoId options resolution) := by
        refine Prog.Within.bind (Prog.Within.ofExcept fun _ _ => ⟨trivial, Nat.le_refl 0⟩)
          fun selection _ => ?_
        exact Prog.Within.bind (hquiet fun w => rfl) fun now _ => ⟨trivial, Nat.le_refl 0⟩
      refine Prog.Within.bind hselect fun result _ => ?_
      exact Prog.Within.bind (hput result) fun _ _ => ⟨trivial, Nat.le_refl 0⟩

end

end YouTubeExtractor

namespace YTDLPDroid

-- A call of the public function.
structure PublicCall where
  url : Str
  options : ExtractionOptions
  schedule : List Nat := []

-- The calls, interleaved.
def concurrently (env : Env) (schedule : List Nat) (calls : List PublicCall) :
    Action (List (Except Throwable StreamResult)) :=
  Prog.par schedule (calls.map fun call => extract env call.schedule call.url call.options)

-- One of the calls is for a video to which this request belongs.
def Asks (calls : List PublicCall) (request : Request) : Prop :=
  ∃ call ∈ calls, ∃ videoId, VideoIdParser.parse call.url = .ok videoId ∧
    LibraryRequest videoId call.options.regionCode request

def site : Str := str "https://www.youtube.com/"

section

variable {env : Env} {calls : List PublicCall} {videoId : Str} {regionCode : Option Str}
  {request : Request}

theorem playerApiUrl_site (client : InnerTubeClientConfig) : site <+: client.playerApiUrl := by
  have hbase : site <+: str "https://www.youtube.com/youtubei/v1/player?prettyPrint=false" := by
    decide +kernel
  unfold InnerTubeClientConfig.playerApiUrl
  cases client.fields.apiKey with
  | some apiKey =>
      dsimp only
      rw [List.append_assoc]
      exact hbase.trans (List.prefix_append _ _)
  | none => exact hbase

-- Every request goes to the site.
theorem site_prefix (h : LibraryRequest videoId regionCode request) : site <+: request.url := by
  cases h with
  | watch =>
      have hwatch : site <+: str "https://www.youtube.com/watch?v=" := by decide +kernel
      exact hwatch.trans (List.prefix_append _ _)
  | home => exact List.prefix_refl _
  | playerJs url hpath =>
      have hurl : (PlayerJsRepository.jsRequest url).url = str "https://www.youtube.com" ++ url :=
        hpath.fullUrl
      obtain ⟨version, name, -, -, -, -, rfl⟩ := hpath
      have hplayer : site <+: str "https://www.youtube.com" ++ str "/s/player/" := by decide +kernel
      rw [hurl, ← List.append_assoc]
      exact hplayer.trans (List.prefix_append _ _)
  | player client visitorData signatureTimestamp hvisitor => exact playerApiUrl_site client

theorem extract_fits (call : PublicCall) (hcall : call ∈ calls) :
    Prog.Within (NetworkAccess env (Asks calls)) (fun _ => True) (fun _ => 0) 11
      (extract env call.schedule call.url call.options) := by
  unfold extract
  cases hparse : VideoIdParser.parse call.url with
  | error e => trivial
  | ok videoId =>
      refine YouTubeExtractor.extract_within (fun request hrequest => ?_) call.schedule rfl
      exact ⟨call, hcall, videoId, hparse, hrequest⟩

-- The calls have a budget of eleven requests each.
theorem concurrently_within (env : Env) (schedule : List Nat) (calls : List PublicCall) :
    Prog.Within (NetworkAccess env (Asks calls)) (fun _ => True) (fun _ => 0) (11 * calls.length)
      (concurrently env schedule calls) := by
  let tasks : List (Prog.Task World Throwable StreamResult) := calls.map fun call =>
    { prog := extract env call.schedule call.url call.options, budget := 11,
      returns := fun _ => True }
  have hfits : ∀ task ∈ tasks, task.Fits (NetworkAccess env (Asks calls)) := by
    intro task hm
    obtain ⟨call, hcall, rfl⟩ := List.mem_map.mp hm
    exact extract_fits call hcall
  have hpar : Prog.Within (NetworkAccess env (Asks calls)) _ _ _ (Prog.par schedule _ : Action _) :=
    Prog.Within.par schedule hfits
  have hprogs : tasks.map Prog.Task.prog =
      calls.map fun call => extract env call.schedule call.url call.options := by
    simp only [tasks, List.map_map, Function.comp_def]
  have hbudget : (tasks.map Prog.Task.budget).sum = 11 * calls.length := by
    simp [tasks, Function.comp_def, Nat.mul_comm]
  rw [hprogs, hbudget] at hpar
  exact hpar.mono (fun _ _ => ⟨trivial, Nat.le_refl 0⟩) (Nat.le_refl _)

-- At every moment of every interleaving the requests made are the library's own for the videos
-- asked for, and go to the site.
theorem concurrently_confined (env : Env) (schedule : List Nat) (calls : List PublicCall)
    (count : Nat) (w : World) :
    ∃ made, ((concurrently env schedule calls).stopAfter count w).calls = w.calls ++ made ∧
      ∀ call ∈ made, Asks calls call.request ∧ site <+: call.request.url := by
  have hstep : Prog.Preserves (fun later : World => ∃ made, later.calls = w.calls ++ made ∧
      ∀ call ∈ made, Asks calls call.request) (concurrently env schedule calls) := by
    refine (concurrently_within env schedule calls).preserves
      fun β access cost gain haccess later hlater => ?_
    obtain ⟨made, hmade, hasks⟩ := hlater
    cases haccess with
    | quiet access hcalls =>
        rw [← hcalls later] at hmade
        exact ⟨made, hmade, hasks⟩
    | call request hrequest =>
        refine ⟨made ++ [callOf env later request], ?_, ?_⟩
        · rw [← List.append_assoc, ← hmade]
          rfl
        · intro call hm
          rcases List.mem_append.mp hm with hm | hm
          · exact hasks call hm
          · obtain rfl := List.mem_singleton.mp hm
            exact hrequest
  obtain ⟨made, hmade, hasks⟩ :=
    hstep.stopAfter count ⟨[], (List.append_nil w.calls).symm, List.forall_mem_nil _⟩
  refine ⟨made, hmade, fun call hm => ⟨hasks call hm, ?_⟩⟩
  obtain ⟨asked, hasked, videoId, hparse, hrequest⟩ := hasks call hm
  exact site_prefix hrequest

-- What the answers of these calls offered.
def offers (env : Env) (calls : List Call) : Nat :=
  (calls.map fun call => offered env call.request call.outcome).sum

-- At every moment the requests made are eleven for each call at most, and one for each format
-- that the answers to them have offered.
theorem concurrently_requests (env : Env) (schedule : List Nat) (calls : List PublicCall)
    (count : Nat) (w : World) :
    ∃ made, ((concurrently env schedule calls).stopAfter count w).calls = w.calls ++ made ∧
      made.length ≤ 11 * calls.length + offers env made := by
  have hwithin := concurrently_within env schedule calls
  have hgrows :
      Prog.Preserves (fun later : World => w.calls <+: later.calls)
        (concurrently env schedule calls) := by
    refine hwithin.preserves fun β access cost gain haccess later hlater => ?_
    cases haccess with
    | quiet access hcalls =>
        rw [hcalls later]
        exact hlater
    | call request hrequest => exact hlater.trans (List.prefix_append _ _)
  obtain ⟨made, hmade⟩ := hgrows.stopAfter count (List.prefix_refl w.calls)
  have hspent : ∀ β (access : World → β × World) cost gain,
      NetworkAccess env (Asks calls) β access cost gain →
      ∀ later, (access later).2.calls.length ≤ later.calls.length + cost ∧
        offers env later.calls + gain (access later).1 ≤ offers env (access later).2.calls := by
    intro β access cost gain haccess later
    cases haccess with
    | quiet access hcalls =>
        rw [hcalls later]
        exact ⟨Nat.le_refl _, Nat.le_refl _⟩
    | call request hrequest =>
        refine ⟨by simp [World.log], ?_⟩
        simp [World.log, offers, callOf]
  have hbound :=
    hwithin.stopAfter_le (fun later => later.calls.length) (fun later => offers env later.calls)
    hspent count w
  rw [← hmade] at hbound
  simp only [List.length_append, offers, List.map_append, List.sum_append] at hbound
  refine ⟨made, hmade.symm, ?_⟩
  rw [offers]
  omega

end

end YTDLPDroid

end Ytdlpdroid
