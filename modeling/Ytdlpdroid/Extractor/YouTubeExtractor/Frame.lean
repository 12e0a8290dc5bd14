import Ytdlpdroid.Extractor.YouTubeExtractor.Stages

namespace Ytdlpdroid

open Text Collections Concurrent

-- An invariant that says nothing about what resolving a video changes: the calls, the session,
-- the engine, the player JS in memory and on the disk, and the functions found in it.
structure LibraryFrame (I : World → Prop) : Prop extends NetworkFrame I where
  engine : EngineFrame I
  memory : ∀ w memCache, I w → I { w with memCache }
  disk : ∀ w disk diskWrites, I w → I { w with disk, diskWrites }
  functions : ∀ w sigFunctionCache nFunctionCache, I w →
    I { w with sigFunctionCache, nFunctionCache }

section

variable {I : World → Prop}

theorem executeJs_preserves (hI : EngineFrame I) (env : Env) (functionCode argument : Str) :
    Prog.Preserves I (executeJs env functionCode argument) :=
  Prog.Preserves.attemptAtomic fun w hw => hI w _ _ hw

theorem evalWithLimits_preserves (hI : EngineFrame I) (eval : Nat → Nat → Str → Option Str)
    (script : Str) (limits : List Nat) : Prog.Preserves I (evalWithLimits eval script limits) := by
  induction limits with
  | nil => trivial
  | cons limit rest ih =>
      refine Prog.Preserves.bind_atomic fun w hw => ⟨hI w _ w.executions hw, ?_⟩
      dsimp only
      cases eval w.evaluations limit script with
      | some text => trivial
      | none => exact ih

theorem getOrNull_preserves {α : Type} {p : Action α} (h : Prog.Preserves I p) :
    Prog.Preserves I (getOrNull p) := by
  refine h.attempt.bind fun outcome => ?_
  cases outcome <;> trivial

namespace PlayerJsRepository

theorem fetchText_preserves (hI : NetworkFrame I) (env : Env) (request : Request) :
    Prog.Preserves I (fetchText env request) := by
  refine Prog.Preserves.tryCatch ?_ fun e => trivial
  exact (executeCall_preserves hI env request).bind fun response => Prog.Preserves.ofExcept I _

theorem fetchPlayerJsUrl_preserves (hI : NetworkFrame I) (env : Env) (videoId : Str) :
    Prog.Preserves I (fetchPlayerJsUrl env videoId) := by
  refine (fetchText_preserves hI env (watchRequest videoId)).bind fun html => ?_
  cases playerJsUrlIn html <;> trivial

theorem diskPut_preserves (hI : LibraryFrame I) (env : Env) (key value : Str) :
    Prog.Preserves I (diskPut env key value) := by
  refine Prog.Preserves.attemptAtomic fun w hw => ?_
  simp only
  split
  · exact hI.disk w _ _ hw
  · exact hI.disk w _ _ hw

theorem fetchPlayerJs_preserves (hI : LibraryFrame I) (env : Env) (url : Str) :
    Prog.Preserves I (fetchPlayerJs env url) := by
  have hput (text : Str) : Prog.Preserves I (memPut url text) :=
    fun w hw => ⟨hI.memory w _ hw, trivial⟩
  have hroom : Prog.Preserves I makeRoom := fun w hw => ⟨hI.memory w _ hw, trivial⟩
  have hget : Prog.Preserves I (memGet url) := fun w hw => ⟨hI.memory w _ hw, trivial⟩
  refine hget.bind fun found => ?_
  cases found with
  | some text => trivial
  | none =>
      refine Prog.Preserves.bind (fun w hw => ⟨hw, trivial⟩) fun found => ?_
      cases found with
      | some text => exact (hput text).bind fun _ => trivial
      | none =>
          refine (fetchText_preserves hI.toNetworkFrame env _).bind fun text => ?_
          refine (diskPut_preserves hI env url text).bind fun _ => ?_
          exact hroom.bind fun _ => (hput text).bind fun _ => trivial

end PlayerJsRepository

namespace DecipherService

theorem sigFunctionCode_preserves (hI : LibraryFrame I) (playerJs : Str) :
    Prog.Preserves I (SignatureDecipherer.functionCode playerJs) := by
  refine Prog.Preserves.bind (fun w hw => ⟨hw, trivial⟩) fun found => ?_
  cases found with
  | some fnCode => trivial
  | none =>
      refine (Prog.Preserves.ofExcept I _).bind fun fnCode => ?_
      exact fun w hw => ⟨hI.functions w _ w.nFunctionCache hw, trivial⟩

theorem nFunctionCode_preserves (hI : LibraryFrame I) (env : Env) (playerJs : Str) :
    Prog.Preserves I (NParamDecipherer.functionCode env playerJs) := by
  refine Prog.Preserves.bind (fun w hw => ⟨hw, trivial⟩) fun found => ?_
  cases found with
  | some fnCode => trivial
  | none =>
      refine Prog.Preserves.bind ?_ fun fnCode w hw =>
        ⟨hI.functions w w.sigFunctionCache _ hw, trivial⟩
      unfold NParamDecipherer.extractNFunction
      split
      · trivial
      · refine Prog.Preserves.bind (Prog.Preserves.tryCatch ?_ fun e => ?_) fun isPlausible => ?_
        · exact (executeJs_preserves hI.engine env _ _).bind fun _ =>
            (executeJs_preserves hI.engine env _ _).bind fun _ => trivial
        · split_ifs <;> trivial
        · cases isPlausible <;> trivial

theorem transform_preserves (hI : LibraryFrame I) (env : Env) (url playerJs : Str) :
    Prog.Preserves I (NParamDecipherer.transform env url playerJs) := by
  unfold NParamDecipherer.transform
  split
  · trivial
  · refine (nFunctionCode_preserves hI env playerJs).bind fun fnCode => ?_
    split_ifs
    · refine Prog.Preserves.bind ?_ fun _ => ?_
      · unfold NParamDecipherer.transformViaFullPlayerJs
        split
        · trivial
        · refine Prog.Preserves.bind ?_ fun _ => ?_
          · exact (evalWithLimits_preserves hI.engine _ _ _).bind fun _ => trivial
          · trivial
      · trivial
    · exact (executeJs_preserves hI.engine env _ _).bind fun _ => trivial

theorem rawUrl_preserves (hI : LibraryFrame I) (env : Env) (format : RawFormat) (playerJs : Str) :
    Prog.Preserves I (rawUrl env format playerJs) := by
  unfold rawUrl
  split
  · trivial
  · exact (Prog.Preserves.ofExcept I _).bind fun params =>
      (Prog.Preserves.ofExcept I _).bind fun encSig =>
      (Prog.Preserves.ofExcept I _).bind fun baseUrl =>
      (sigFunctionCode_preserves hI playerJs).bind fun fnCode =>
      (executeJs_preserves hI.engine env fnCode encSig).bind fun _ => trivial
  · trivial

theorem buildPlayableUrl_preserves (hI : LibraryFrame I) (env : Env) (format : RawFormat)
    (playerJsUrl : Str) :
    Prog.Preserves I (buildPlayableUrl env format playerJsUrl) :=
  (PlayerJsRepository.fetchPlayerJs_preserves hI env playerJsUrl).bind fun playerJs =>
    (rawUrl_preserves hI env format playerJs).bind fun url =>
      transform_preserves hI env url playerJs

end DecipherService

namespace YouTubeExtractor

theorem resolveFormats_preserves (hI : LibraryFrame I) (env : Env) (schedule : List Nat) (url : Str)
    (formats : List RawFormat) : Prog.Preserves I (resolveFormats env schedule url formats) := by
  refine Prog.Preserves.bind (Prog.par_preserves schedule fun task hm => ?_) fun outcomes => trivial
  obtain ⟨format, -, rfl⟩ := List.mem_map.mp hm
  exact (DecipherService.buildPlayableUrl_preserves hI env format url).bind fun _ => trivial

theorem conclude_preserves (hI : LibraryFrame I) (env : Env) (schedule : List Nat) (videoId : Str)
    (playerJsUrl : Option Str) (response : RawPlayerResponse)
    (winningClient : InnerTubeClientConfig) :
    Prog.Preserves I (conclude env schedule videoId playerJsUrl response winningClient) := by
  refine (Prog.Preserves.ofExcept I _).bind fun (videoInfo, streamingData) => ?_
  refine Prog.Preserves.bind ?_ fun url => ?_
  · cases playerJsUrl with
    | some url => trivial
    | none => exact PlayerJsRepository.fetchPlayerJsUrl_preserves hI.toNetworkFrame env videoId
  · refine (resolveFormats_preserves hI env schedule url _).bind fun resolvedFormats => ?_
    split_ifs <;> trivial

theorem prefetchTimestamp_preserves (hI : LibraryFrame I) (env : Env) (playerJsUrl : Option Str) :
    Prog.Preserves I (prefetchTimestamp env playerJsUrl) := by
  cases playerJsUrl with
  | none => trivial
  | some url =>
      refine Prog.Preserves.bind (getOrNull_preserves ?_) fun found => trivial
      exact (PlayerJsRepository.fetchPlayerJs_preserves hI env url).bind fun js => trivial

theorem resolve_preserves (hI : LibraryFrame I) (env : Env) (schedule : List Nat) (videoId : Str)
    (regionCode : Option Str) : Prog.Preserves I (resolve env schedule videoId regionCode) := by
  rw [resolve_eq]
  refine (getOrNull_preserves
    (PlayerJsRepository.fetchPlayerJsUrl_preserves hI.toNetworkFrame env videoId)).bind
      fun playerJsUrl => ?_
  refine (prefetchTimestamp_preserves hI env playerJsUrl).bind fun signatureTimestamp => ?_
  exact (fallback_preserves hI.toNetworkFrame env videoId regionCode signatureTimestamp
    clientChain none none).bind fun (response, winningClient) =>
      conclude_preserves hI env schedule videoId playerJsUrl _ _

end YouTubeExtractor

end

end Ytdlpdroid
