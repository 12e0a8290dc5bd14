import Ytdlpdroid.Concurrent.Effects
import Ytdlpdroid.Decipher.PlayerJsRepository.WatchPage
import Ytdlpdroid.Extractor.YouTubeExtractor.Runs

namespace Ytdlpdroid

open Text Collections Concurrent

-- The requests that the library makes for a video.
inductive LibraryRequest (videoId : Str) (regionCode : Option Str) : Request → Prop
  | watch : LibraryRequest videoId regionCode (PlayerJsRepository.watchRequest videoId)
  | playerJs (url : Str) (hpath : PlayerJsRepository.PlayerPath url) :
      LibraryRequest videoId regionCode (PlayerJsRepository.jsRequest url)
  | home : LibraryRequest videoId regionCode InnerTubeClient.homeRequest
  | player (client : InnerTubeClientConfig) (visitorData : Option Str)
      (signatureTimestamp : Option Int)
      (hvisitor : client ≠ .WEB → visitorData = none) : LibraryRequest videoId regionCode
        (InnerTubeClient.playerRequest client videoId visitorData regionCode signatureTimestamp)

def formatCount (raw : RawPlayerResponse) : Nat :=
  (raw.streamingData.map fun streamingData =>
    (YouTubeExtractor.allFormats streamingData).length).getD 0

-- How many formats the answer to a player request offers, if it says that the video is playable.
def offered (env : Env) (request : Request) (outcome : Except Throwable Response) : Nat :=
  match request.body, InnerTubeClient.answer env outcome with
  | some _, .ok raw => if raw.playabilityStatus.status = str "OK" then formatCount raw else 0
  | _, _ => 0

-- The accesses of a program that makes no requests but those permitted. A request costs one,
-- and its answer pays for one more for each format that it offers.
inductive NetworkAccess (env : Env) (permitted : Request → Prop) : Prog.Effects World
  | quiet {β : Type} (access : World → β × World) (hcalls : ∀ w, (access w).2.calls = w.calls) :
      NetworkAccess env permitted β access 0 fun _ => 0
  | call (request : Request) (hrequest : permitted request) :
      NetworkAccess env permitted (Except Throwable Response)
        (fun w => ((callOf env w request).outcome, w.log (callOf env w request))) 1
          (offered env request)

-- The URL is that of a player, and its script may be asked for.
structure MayFetch (permitted : Request → Prop) (url : Str) : Prop where
  path : PlayerJsRepository.PlayerPath url
  request : permitted (PlayerJsRepository.jsRequest url)

-- The same, and the results that are held stay as they are, as do the files on the disk but for
-- those of scripts that may be asked for.
structure LibraryAccess (env : Env) (permitted : Request → Prop) (β : Type)
    (access : World → β × World) (cost : Nat) (gain : β → Nat) : Prop where
  network : NetworkAccess env permitted β access cost gain
  cache : ∀ w, (access w).2.extractionCache = w.extractionCache
  disk : ∀ name, (∀ url, DiskCache.fileFor url = name → ¬MayFetch permitted url) → ∀ w,
    (access w).2.disk.files.lookup name = w.disk.files.lookup name

-- What an access leaves alone that makes no request and stores nothing.
structure Quiet (w w' : World) : Prop where
  calls : w'.calls = w.calls
  cache : w'.extractionCache = w.extractionCache
  disk : w'.disk = w.disk

-- The requests to the clients are permitted.
structure AsksClients (permitted : Request → Prop) (videoId : Str) (regionCode : Option Str) :
    Prop where
  home : permitted InnerTubeClient.homeRequest
  player : ∀ client visitorData signatureTimestamp, (client ≠ .WEB → visitorData = none) →
    permitted (InnerTubeClient.playerRequest client videoId visitorData regionCode
      signatureTimestamp)

-- The URL of a format: its own, or the one in its cipher with a signature added.
inductive DecipherService.RawUrl (format : RawFormat) : Str → Prop
  | plain (url : Str) (hurl : format.url = some url) : RawUrl format url
  | signed (signatureCipher : Str) (params : List (Str × Str)) (baseUrl signature : Str)
      (hurl : format.url = none) (hcipher : format.signatureCipher = some signatureCipher)
      (hparams : SignatureDecipherer.splitFields signatureCipher = .ok params)
      (hbase : SignatureDecipherer.baseUrl params = .ok baseUrl) :
      RawUrl format
        (baseUrl ++ str "&" ++ (SignatureDecipherer.param params (str "sp")).getD (str "sig") ++
        str "=" ++ signature)

-- The URL of a format, with another text in its parameters n or as it is.
def DecipherService.PlayableUrl (format : RawFormat) (result : Str) : Prop :=
  ∃ url, RawUrl format url ∧ (result = url ∨ ∃ transformed,
    result = NParamDecipherer.N_PARAM_RE.replace (fun found => found.group 1 ++ transformed) url)

-- A program that makes no requests but those permitted, within a budget.
abbrev MakesWithin {α : Type} (env : Env) (permitted : Request → Prop) (P : α → Prop)
    (keeps : α → Nat) (budget : Nat) (p : Action α) : Prop :=
  Prog.Within (LibraryAccess env permitted) P keeps budget p

-- A program that makes none.
abbrev MakesNone {α : Type} (env : Env) (permitted : Request → Prop) (p : Action α) : Prop :=
  MakesWithin env permitted (fun _ => True) (fun _ => 0) 0 p

section

variable {env : Env} {permitted : Request → Prop} {α : Type}

theorem libraryAccess_quiet {β : Type} {access : World → β × World}
    (h : ∀ w, Quiet w (access w).2) :
    LibraryAccess env permitted β access 0 fun _ => 0 where
  network := .quiet access fun w => (h w).calls
  cache w := (h w).cache
  disk name _ w := by rw [(h w).disk]

theorem MakesWithin.quiet {access : World → α × World} (h : ∀ w, Quiet w (access w).2) :
    MakesNone env permitted (.atomic access) :=
  Prog.Within.atomic (libraryAccess_quiet h) fun _ => trivial

theorem MakesWithin.attemptAccess {access : World → Except Throwable α × World}
    (h : LibraryAccess env permitted _ access 0 fun _ => 0) :
    MakesNone env permitted (.attemptAtomic access) :=
  Prog.Within.attemptAtomic h fun _ => trivial

theorem MakesWithin.attemptQuiet {access : World → Except Throwable α × World}
    (h : ∀ w, Quiet w (access w).2) :
    MakesNone env permitted (.attemptAtomic access) :=
  MakesWithin.attemptAccess (libraryAccess_quiet h)

theorem MakesWithin.ofExcept {P : α → Prop} {outcome : Except Throwable α} (budget : Nat)
    (h : ∀ a, outcome = .ok a → P a) :
    MakesWithin env permitted P (fun _ => budget) budget (.ofExcept outcome) :=
  Prog.Within.ofExcept fun a ha => ⟨h a ha, Nat.le_refl budget⟩

theorem MakesNone.ofExcept (outcome : Except Throwable α) :
    MakesNone env permitted (.ofExcept outcome) :=
  MakesWithin.ofExcept 0 fun _ _ => trivial

theorem MakesNone.pure (a : α) : MakesNone env permitted (.pure a) := ⟨trivial, Nat.le_refl 0⟩

theorem executeCall_within {request : Request} (h : permitted request) :
    MakesWithin env permitted (fun _ => True) (fun response => offered env request (.ok response)) 1
      (executeCall env request) :=
  Prog.Within.attemptAtomic ⟨.call request h, fun _ => rfl, fun _ _ _ => rfl⟩ fun _ => trivial

theorem executeJs_within (functionCode argument : Str) :
    MakesNone env permitted (executeJs env functionCode argument) :=
  MakesWithin.attemptQuiet fun _ => ⟨rfl, rfl, rfl⟩

theorem evalWithLimits_within (eval : Nat → Nat → Str → Option Str) (script : Str)
    (limits : List Nat) :
    MakesNone env permitted (evalWithLimits eval script limits) := by
  induction limits with
  | nil => exact ⟨trivial, Nat.le_refl 0⟩
  | cons limit rest ih =>
      refine Prog.Within.bind (MakesWithin.quiet fun w => ⟨rfl, rfl, rfl⟩) fun result _ => ?_
      cases result with
      | some text => exact ⟨trivial, Nat.le_refl 0⟩
      | none => exact ih

theorem getOrNull_within {P : α → Prop} {budget : Nat} {p : Action α}
    (h : MakesWithin env permitted P (fun _ => 0) budget p) :
    MakesWithin env permitted (fun found => ∀ a, found = some a → P a) (fun _ => 0) budget
      (getOrNull p) := by
  refine Prog.Within.bind h.attempt fun outcome houtcome => ?_
  cases outcome with
  | ok a =>
      refine ⟨?_, Nat.zero_le _⟩
      rintro b ⟨⟩
      exact houtcome a rfl
  | error e => exact ⟨nofun, Nat.zero_le _⟩

namespace PlayerJsRepository

theorem fetchText_within {request : Request} (h : permitted request) :
    MakesWithin env permitted (fun _ => True) (fun _ => 0) 1 (fetchText env request) := by
  refine Prog.Within.tryCatch ?_ fun e => trivial
  refine Prog.Within.bind (executeCall_within h) fun response _ => ?_
  exact Prog.Within.ofExcept fun _ _ => ⟨trivial, Nat.zero_le _⟩

theorem fetchPlayerJsUrl_within {videoId : Str} (h : permitted (watchRequest videoId)) :
    MakesWithin env permitted PlayerPath (fun _ => 0) 1 (fetchPlayerJsUrl env videoId) := by
  refine Prog.Within.bind (fetchText_within h) fun html _ => ?_
  cases hurl : playerJsUrlIn html with
  | some url => exact ⟨playerJsUrlIn_path hurl, Nat.le_refl 0⟩
  | none => trivial

-- What is written for a URL is its own file, whether the write is whole or not.
theorem diskPut_within {url : Str} (h : MayFetch permitted url) (text : Str) :
    MakesNone env permitted (diskPut env url text) := by
  refine MakesWithin.attemptAccess ⟨.quiet _ fun w => ?_, fun w => ?_, fun name hname w => ?_⟩
  · dsimp only
    split <;> rfl
  · dsimp only
    split <;> rfl
  · have hother : name ≠ DiskCache.fileFor url := fun he => hname url he.symm h
    dsimp only
    split
    · simp only [DiskCache.put_run_lookup, if_neg hother]
    · simp only [DiskCache.put_stopAfter_lookup, hother, and_false, if_false]

theorem fetchPlayerJs_within {url : Str} (h : MayFetch permitted url) :
    MakesWithin env permitted (fun _ => True) (fun _ => 0) 1 (fetchPlayerJs env url) := by
  have hdone (text : Str) : MakesNone env permitted (.pure text) :=
    ⟨trivial, Nat.le_refl 0⟩
  have hput (text : Str) : MakesNone env permitted (memPut url text) :=
    MakesWithin.quiet fun _ => ⟨rfl, rfl, rfl⟩
  have hget : MakesNone env permitted (memGet url) :=
    MakesWithin.quiet fun _ => ⟨rfl, rfl, rfl⟩
  refine Prog.Within.bind (hget.frame 1) fun found _ => ?_
  cases found with
  | some text => exact ⟨trivial, Nat.zero_le _⟩
  | none =>
      have hdisk : MakesNone env permitted
          (reading fun w => DiskCache.get w.disk url) := MakesWithin.quiet fun _ => ⟨rfl, rfl, rfl⟩
      refine Prog.Within.bind (hdisk.frame 1) fun found _ => ?_
      cases found with
      | some text =>
          exact Prog.Within.bind ((hput text).frame 1) fun _ _ => ⟨trivial, Nat.zero_le _⟩
      | none =>
          refine Prog.Within.bind (fetchText_within h.request) fun text _ => ?_
          refine Prog.Within.bind (diskPut_within h text) fun _ _ => ?_
          · refine Prog.Within.bind (MakesWithin.quiet fun _ => ⟨rfl, rfl, rfl⟩) fun _ _ => ?_
            exact Prog.Within.bind (hput text) fun _ _ => hdone text

end PlayerJsRepository

namespace InnerTubeClient

-- The web client may first ask for the home page.
def requestCount (client : InnerTubeClientConfig) : Nat := if client = .WEB then 2 else 1

theorem ensureSession_within (h : permitted homeRequest) :
    MakesWithin env permitted (fun _ => True) (fun _ => 0) 1 (ensureSession env) := by
  have hread : MakesNone env permitted (reading World.sessionInitialized) :=
    MakesWithin.quiet fun _ => ⟨rfl, rfl, rfl⟩
  have hwrite (f : World → World) (hf : ∀ w, Quiet w (f w)) :
      MakesNone env permitted (writing f) := MakesWithin.quiet hf
  refine Prog.Within.bind (hread.frame 1) fun initialized _ => ?_
  cases initialized with
  | true => exact ⟨trivial, Nat.zero_le _⟩
  | false =>
      have hpage : MakesWithin env permitted (fun _ => True) (fun _ => 0) 1 (do
          let response ← executeCall env homeRequest
          let html ← Prog.ofExcept (pageOf response)
          writing fun w => { w with cachedVisitorData := visitorDataIn html }) := by
        refine Prog.Within.bind (executeCall_within h) fun response _ => ?_
        refine Prog.Within.bind ((MakesNone.ofExcept (pageOf response)).spare (Nat.zero_le _))
          fun html _ => ?_
        exact hwrite _ fun _ => ⟨rfl, rfl, rfl⟩
      refine Prog.Within.bind hpage.attempt fun outcome _ => ?_
      have hflag :
          MakesNone env permitted (writing fun w => { w with sessionInitialized := true }) :=
        hwrite _ fun _ => ⟨rfl, rfl, rfl⟩
      refine Prog.Within.bind (hflag.spare (Nat.zero_le _)) fun _ _ => ?_
      cases outcome with
      | ok _ => exact ⟨trivial, Nat.zero_le _⟩
      | error e =>
          dsimp only
          split_ifs
          · exact ⟨trivial, Nat.zero_le _⟩
          · trivial

theorem visitorDataFor_within (h : permitted homeRequest) (client : InnerTubeClientConfig) :
    MakesWithin env permitted (fun visitorData => client ≠ .WEB → visitorData = none) (fun _ => 1)
      (requestCount client) (visitorDataFor env client) := by
  have hread : MakesNone env permitted (reading World.cachedVisitorData) :=
    MakesWithin.quiet fun _ => ⟨rfl, rfl, rfl⟩
  cases client with
  | WEB =>
      refine Prog.Within.bind ((ensureSession_within h).frame 1) fun _ _ => ?_
      exact (hread.frame 1).mono
        (fun visitorData _ => ⟨fun hweb => absurd rfl hweb, Nat.le_add_left 1 0⟩) (by decide)
  | _ => exact ⟨fun _ => rfl, Nat.le_refl 1⟩

def playableCount (raw : RawPlayerResponse) : Nat :=
  if raw.playabilityStatus.status = str "OK" then formatCount raw else 0

theorem offered_answer {request : Request} {response : Response} {raw : RawPlayerResponse}
    {body : Str} (hbody : request.body = some body) (h : readResponse env response = .ok raw) :
    offered env request (.ok response) = playableCount raw := by
  have hanswer : answer env (.ok response) = .ok raw := h
  simp only [offered, hbody, hanswer, playableCount]

theorem fetchPlayerResponse_within {videoId : Str} {regionCode : Option Str}
    (h : AsksClients permitted videoId regionCode)
    (client : InnerTubeClientConfig) (signatureTimestamp : Option Int) :
    MakesWithin env permitted (fun _ => True) playableCount (requestCount client)
      (fetchPlayerResponse env videoId client regionCode signatureTimestamp) := by
  refine Prog.Within.bind (visitorDataFor_within h.home client) fun visitorData hvisitor => ?_
  have hpermitted := h.player client visitorData signatureTimestamp hvisitor
  refine Prog.Within.bind (Prog.Within.tryCatch (executeCall_within hpermitted) fun e => trivial)
    fun response _ => ?_
  exact Prog.Within.ofExcept fun raw hraw => ⟨trivial, Nat.le_of_eq (offered_answer rfl hraw).symm⟩

end InnerTubeClient

namespace YouTubeExtractor

theorem askClient_within {videoId : Str} {regionCode : Option Str}
    (h : AsksClients permitted videoId regionCode)
    (signatureTimestamp : Option Int) (client : InnerTubeClientConfig) :
    MakesWithin env permitted (fun _ => True) formatCount (InnerTubeClient.requestCount client)
      (askClient env videoId regionCode signatureTimestamp client) := by
  refine Prog.Within.bind (InnerTubeClient.fetchPlayerResponse_within h client signatureTimestamp)
    fun raw _ => ?_
  rcases checkPlayability_cases raw videoId with ⟨hok, hcheck⟩ | ⟨-, e, hcheck, -⟩
  · rw [hcheck]
    exact ⟨trivial, by rw [InnerTubeClient.playableCount, if_pos hok]⟩
  · rw [hcheck]
    trivial

-- The chain pays for the requests to its clients, and keeps what the last answer offers.
theorem fallback_within {videoId : Str} {regionCode : Option Str}
    (h : AsksClients permitted videoId regionCode)
    (signatureTimestamp : Option Int) (clients : List InnerTubeClientConfig)
    (last geo : Option Throwable) :
    MakesWithin env permitted (fun _ => True) (fun found => formatCount found.1)
      (clients.map InnerTubeClient.requestCount).sum
      (fallback env videoId regionCode signatureTimestamp clients last geo) := by
  induction clients generalizing last geo with
  | nil => trivial
  | cons client rest ih =>
      rw [List.map_cons, List.sum_cons]
      have hask : MakesWithin env permitted _ _ _
          (askClient env videoId regionCode signatureTimestamp client) :=
        askClient_within h signatureTimestamp client
      refine Prog.Within.bind (hask.attempt.frame (rest.map InnerTubeClient.requestCount).sum)
        fun outcome _ => ?_
      have hrest (last geo : Option Throwable) :=
        (ih last geo).mono (fun _ _ => ⟨trivial, Nat.le_refl _⟩)
        (Nat.le_add_left (rest.map InnerTubeClient.requestCount).sum
          (Prog.onOk formatCount outcome))
      cases outcome with
      | ok raw => exact ⟨trivial, Nat.le_add_right _ _⟩
      | error e =>
          dsimp only
          split_ifs
          · trivial
          · exact hrest (some e) (some e)
          · exact hrest (some e) geo
          · trivial

end YouTubeExtractor

namespace DecipherService

theorem sigFunctionCode_within (playerJs : Str) :
    MakesNone env permitted (SignatureDecipherer.functionCode playerJs) := by
  refine Prog.Within.bind (MakesWithin.quiet fun _ => ⟨rfl, rfl, rfl⟩) fun found _ => ?_
  cases found with
  | some fnCode => exact ⟨trivial, Nat.le_refl 0⟩
  | none =>
      refine Prog.Within.bind (MakesNone.ofExcept _) fun fnCode _ => ?_
      exact Prog.Within.bind (MakesWithin.quiet fun _ => ⟨rfl, rfl, rfl⟩) fun _ _ =>
        MakesNone.pure fnCode

theorem nFunctionCode_within (playerJs : Str) :
    MakesNone env permitted (NParamDecipherer.functionCode env playerJs) := by
  have haccept (body : Str) :
      MakesNone env permitted (NParamDecipherer.isPlausibleNsigFunction env body) := by
    refine Prog.Within.tryCatch ?_ fun e => ?_
    · exact Prog.Within.bind (executeJs_within _ _) fun _ _ =>
        Prog.Within.bind (executeJs_within _ _) fun _ _ => MakesNone.pure _
    · split_ifs
      · exact MakesNone.pure false
      · trivial
  have hextract : MakesNone env permitted (NParamDecipherer.extractNFunction env playerJs) := by
    unfold NParamDecipherer.extractNFunction
    split
    · exact MakesNone.pure _
    · refine Prog.Within.bind (haccept _) fun isPlausible _ => ?_
      cases isPlausible <;> exact MakesNone.pure _
  refine Prog.Within.bind (MakesWithin.quiet fun _ => ⟨rfl, rfl, rfl⟩) fun found _ => ?_
  cases found with
  | some fnCode => exact MakesNone.pure fnCode
  | none =>
      refine Prog.Within.bind hextract fun fnCode _ => ?_
      exact Prog.Within.bind (MakesWithin.quiet fun _ => ⟨rfl, rfl, rfl⟩) fun _ _ =>
        MakesNone.pure fnCode

theorem transformViaFullPlayerJs_within (playerJs nValue : Str) :
    MakesNone env permitted
      (NParamDecipherer.transformViaFullPlayerJs env playerJs nValue) := by
  unfold NParamDecipherer.transformViaFullPlayerJs
  split
  · trivial
  · rename_i eval _
    have hrun (code script : Str) :
        MakesNone env permitted (executeWithPlayerJs eval code script) :=
      Prog.Within.bind (evalWithLimits_within _ _ _) fun _ _ => MakesNone.pure _
    exact Prog.Within.bind (hrun _ _) fun _ _ => MakesNone.pure _

theorem transform_within (url playerJs : Str) :
    MakesWithin env permitted (fun result => result = url ∨ ∃ transformed, result =
      NParamDecipherer.N_PARAM_RE.replace (fun found => found.group 1 ++ transformed) url)
        (fun _ => 0) 0
      (NParamDecipherer.transform env url playerJs) := by
  unfold NParamDecipherer.transform
  split
  · exact ⟨Or.inl rfl, Nat.le_refl 0⟩
  · rename_i nValue _
    refine Prog.Within.bind (nFunctionCode_within playerJs) fun fnCode _ => ?_
    have hdone (transformed : Str) :
        MakesWithin env permitted
          (fun result => result = url ∨ ∃ transformed, result =
            NParamDecipherer.N_PARAM_RE.replace (fun found => found.group 1 ++ transformed) url)
          (fun _ => 0) 0
          (.pure (NParamDecipherer.N_PARAM_RE.replace (fun found => found.group 1 ++ transformed)
            url)) :=
      ⟨Or.inr ⟨transformed, rfl⟩, Nat.le_refl 0⟩
    split_ifs
    · exact Prog.Within.bind (transformViaFullPlayerJs_within playerJs nValue) fun transformed _ =>
        hdone transformed
    · exact Prog.Within.bind (executeJs_within fnCode nValue) fun transformed _ => hdone transformed

theorem rawUrl_within (format : RawFormat) (playerJs : Str) :
    MakesWithin env permitted (RawUrl format) (fun _ => 0) 0 (rawUrl env format playerJs) := by
  unfold rawUrl
  split
  · rename_i hurl
    exact ⟨.plain _ hurl, Nat.le_refl 0⟩
  · rename_i signatureCipher hurl hcipher
    refine Prog.Within.bind (MakesWithin.ofExcept 0 fun _ hparams => hparams) fun params hparams =>
      ?_
    refine Prog.Within.bind (MakesNone.ofExcept _) fun encSig _ => ?_
    refine Prog.Within.bind (MakesWithin.ofExcept 0 fun _ hbase => hbase) fun baseUrl hbase => ?_
    refine Prog.Within.bind (sigFunctionCode_within playerJs) fun fnCode _ => ?_
    refine Prog.Within.bind (executeJs_within fnCode encSig) fun signature _ => ?_
    exact ⟨.signed signatureCipher params baseUrl signature hurl hcipher hparams hbase,
      Nat.le_refl 0⟩
  · trivial

theorem buildPlayableUrl_within {playerJsUrl : Str} (h : MayFetch permitted playerJsUrl)
    (format : RawFormat) :
    MakesWithin env permitted (PlayableUrl format) (fun _ => 0) 1
      (buildPlayableUrl env format playerJsUrl) := by
  refine Prog.Within.bind (PlayerJsRepository.fetchPlayerJs_within h) fun playerJs _ => ?_
  refine Prog.Within.bind (rawUrl_within format playerJs) fun url hurl => ?_
  exact (transform_within url playerJs).mono
    (fun _ hresult => ⟨⟨url, hurl, hresult⟩, Nat.le_refl 0⟩) (Nat.le_refl 0)

end DecipherService

namespace YouTubeExtractor

-- Each format is deciphered on its own, and costs one request at most.
theorem resolveFormats_within {playerJsUrl : Str} (h : MayFetch permitted playerJsUrl)
    (schedule : List Nat) (formats : List RawFormat) :
    MakesWithin env permitted
      (fun resolved => ∀ pair ∈ resolved, pair.1 ∈ formats ∧
        DecipherService.PlayableUrl pair.1 pair.2)
      (fun _ => 0) formats.length (resolveFormats env schedule playerJsUrl formats) := by
  let tasks : List (Prog.Task World Throwable (RawFormat × Str)) := formats.map fun format =>
    { prog := resolveFormat env playerJsUrl format, budget := 1,
      returns := fun pair => pair.1 = format ∧ DecipherService.PlayableUrl pair.1 pair.2 }
  have hfits : ∀ task ∈ tasks, task.Fits (LibraryAccess env permitted) := by
    intro task hm
    obtain ⟨format, -, rfl⟩ := List.mem_map.mp hm
    exact Prog.Within.bind_return (DecipherService.buildPlayableUrl_within h format) fun url hurl =>
      ⟨⟨rfl, hurl⟩, Nat.le_refl 0⟩
  have hpar : Prog.Within (LibraryAccess env permitted) _ _ _ (Prog.par schedule _ : Action _) :=
    Prog.Within.par schedule hfits
  have hprogs : tasks.map Prog.Task.prog = formats.map (resolveFormat env playerJsUrl) := by
    simp only [tasks, List.map_map, Function.comp_def]
  have hbudget : (tasks.map Prog.Task.budget).sum = formats.length := by
    simp [tasks, Function.comp_def]
  rw [hprogs, hbudget] at hpar
  refine Prog.Within.bind_return hpar fun outcomes houtcomes =>
    ⟨fun pair hpair => ?_, Nat.le_refl 0⟩
  obtain ⟨outcome, hm, hok⟩ := List.mem_filterMap.mp hpair
  have houtcome : outcome = .ok pair := by
    cases outcome with
    | error e => cases hok
    | ok other => exact congrArg Except.ok (Option.some.inj hok)
  obtain ⟨task, htask, hreturned⟩ : ∃ task ∈ tasks, task.Returned outcome := by
    obtain ⟨index, hlt, hindex⟩ := List.mem_iff_getElem.mp hm
    have hlength := houtcomes.length_eq
    have hreturned := houtcomes.get (i := index) (by omega) hlt
    rw [List.get_eq_getElem, List.get_eq_getElem, hindex] at hreturned
    exact ⟨_, List.getElem_mem _, hreturned⟩
  obtain ⟨format, hformat, rfl⟩ := List.mem_map.mp htask
  obtain ⟨hsame, hurl⟩ := hreturned pair houtcome
  exact ⟨hsame ▸ hformat, hurl⟩

end YouTubeExtractor

end

end Ytdlpdroid
