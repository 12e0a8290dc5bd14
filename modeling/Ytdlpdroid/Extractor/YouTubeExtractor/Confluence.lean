import Ytdlpdroid.Extractor.YouTubeExtractor.Stages

namespace Ytdlpdroid

open Text Collections Concurrent

-- The server answers every request for a player JS alike.
def Env.SteadyAnswer (env : Env) (playerJsUrl : Str) : Prop :=
  ∀ n, env.network n (PlayerJsRepository.jsRequest playerJsUrl) =
    env.network 0 (PlayerJsRepository.jsRequest playerJsUrl)

-- No write to the disk fails.
def Env.SoundDisk (env : Env) : Prop := ∀ n, env.diskFault n = none

-- An invariant that says nothing about the calls made.
def LogFrame (I : World → Prop) : Prop := ∀ w call, I w → I (w.log call)

section

variable {env : Env} {url js text : Str} {o : Except Throwable Str} {w : World}

namespace DiskCache

-- A text that was written whole is read back, unless it is empty.
theorem get_put_run (key value : Str) (now : Int) (dir : Directory) :
    get ((put key value now).run dir).2 key = if value = [] then none else some value := by
  by_cases hempty : value = []
  · simp [get, put_run_lookup, hempty, Utf8.encode]
  · have hlength := encode_ne_nil hempty
    rw [get_of_lookup (by rw [put_run_lookup, if_pos rfl]) hlength, if_neg hempty, readText,
      Utf8.decode_encode]

end DiskCache

namespace PlayerJsRepository

theorem fetchText_determined {request : Request}
    (h : ∀ n, env.network n request = env.network 0 request) :
    Prog.Determined LogFrame (fetchText env request) := by
  refine Prog.Determined.tryCatch (Prog.Determined.bind
    ⟨env.httpClient.execute (env.network 0 request), fun I hI => ?_⟩ fun response => .ofExcept _)
      fun e => .throw _
  refine Prog.Yields.attemptAtomic fun w hw => ⟨?_, hI w _ hw⟩
  simp only [callOf, h]

-- The caches can supply nothing else than the outcome `o` for the player JS. If it is
-- `pinned` it is in memory from the start, so that nothing is fetched and nothing evicted.
structure Supplied (env : Env) (url : Str) (o : Except Throwable Str) (pinned : Prop) (w : World) :
    Prop where
  memory : ∀ text, w.memCache.lookup url = some text → o = .ok text
  kept : pinned → (w.memCache.lookup url).isSome
  disk : ¬pinned → ∀ text, DiskCache.get w.disk url = some text → o = .ok text
  fetched : ¬pinned → DiskCache.get w.disk url = none → ∀ I, LogFrame I →
    Prog.Yields I o (fetchText env (jsRequest url))

-- Every content of the caches supplies some outcome.
theorem exists_supplied (h : env.SteadyAnswer url) (w : World) :
    ∃ o, Supplied env url o (w.memCache.lookup url).isSome w := by
  cases hm : w.memCache.lookup url with
  | some text => exact ⟨.ok text, by simp [hm], by simp [hm], by simp, by simp⟩
  | none =>
      cases hd : DiskCache.get w.disk url with
      | some text => exact ⟨.ok text, by simp [hm], by simp, by simp [hd], by simp [hd]⟩
      | none =>
          obtain ⟨o, ho⟩ := fetchText_determined h
          exact ⟨o, by simp [hm], by simp, by simp [hd], fun _ _ => ho⟩

variable {pinned : Prop}

theorem Supplied.memGet (h : Supplied env url o pinned w) :
    Supplied env url o pinned { w with memCache := (w.memCache.get url).2 } :=
  ⟨fun text hm => h.memory text (by simpa using hm),
    fun hp => by simpa using h.kept hp, h.disk, h.fetched⟩

theorem Supplied.memPut (h : Supplied env url o pinned w) (ho : o = .ok text) :
    Supplied env url o pinned { w with memCache := w.memCache.put url text } := by
  refine ⟨fun other hm => ?_, fun _ => by simp, h.disk, h.fetched⟩
  obtain rfl : text = other := by simpa using hm
  exact ho

theorem Supplied.makeRoom (h : Supplied env url o pinned w) (hp : ¬pinned) :
    Supplied env url o pinned { w with memCache := dropEldest w.memCache } := by
  refine ⟨fun other hm => h.memory other ?_, fun hpinned => absurd hpinned hp, h.disk, h.fetched⟩
  simp only [dropEldest] at hm
  split_ifs at hm
  · rw [LinkedHashMap.lookup_removeEldest] at hm
    split_ifs at hm
    exact hm
  · exact hm

theorem Supplied.diskPut (h : Supplied env url o pinned w) (ho : o = .ok text) (now : Int)
    (diskWrites : Nat)
    (hfetched : ∀ I, LogFrame I → Prog.Yields I o (fetchText env (jsRequest url))) :
    Supplied env url o pinned
      { w with disk := ((DiskCache.put url text now).run w.disk).2, diskWrites := diskWrites } := by
  refine ⟨h.memory, h.kept, fun _ other hd => ?_, fun _ _ => hfetched⟩
  simp only [DiskCache.get_put_run] at hd
  split_ifs at hd
  obtain rfl := Option.some.inj hd
  exact ho

end PlayerJsRepository

namespace YouTubeExtractor

open PlayerJsRepository DecipherService

-- What all tasks keep: the player JS that the caches supply, and the functions it is
-- deciphered with.
structure Shared (env : Env) (url : Str) (o : Except Throwable Str) (pinned : Prop) (js : Str)
    (sigCode nCode : Except Throwable Str) (w : World) : Prop where
  supplied : Supplied env url o pinned w
  codes : Codes env js sigCode nCode w

variable {pinned : Prop} {sigCode nCode : Except Throwable Str}

theorem shared_coded : Coded env js sigCode nCode (Shared env url o pinned js sigCode nCode) where
  engine :=
    fun _ _ _ h => ⟨⟨h.supplied.memory, h.supplied.kept, h.supplied.disk, h.supplied.fetched⟩,
    ⟨h.codes.sigCached, h.codes.sigMissing, h.codes.nCached, h.codes.nMissing⟩⟩
  codes := fun _ h => h.codes
  sigStore := fun _ _ h hcode =>
    ⟨⟨h.supplied.memory, h.supplied.kept, h.supplied.disk, h.supplied.fetched⟩,
    h.codes.sigStore hcode⟩
  nStore := fun _ _ h hcode =>
    ⟨⟨h.supplied.memory, h.supplied.kept, h.supplied.disk, h.supplied.fetched⟩,
    h.codes.nStore hcode⟩

theorem shared_logFrame : LogFrame (Shared env url o pinned js sigCode nCode) :=
  fun _ _ h => ⟨⟨h.supplied.memory, h.supplied.kept, h.supplied.disk, h.supplied.fetched⟩,
    ⟨h.codes.sigCached, h.codes.sigMissing, h.codes.nCached, h.codes.nMissing⟩⟩

-- Fetching the player JS changes nothing else that the tasks share.
theorem Shared.refetch (h : Shared env url o pinned js sigCode nCode w)
    {memCache : LinkedHashMap Str Str} {disk : Directory} {diskWrites : Nat}
    (hsupplied : Supplied env url o pinned { w with memCache, disk, diskWrites }) :
    Shared env url o pinned js sigCode nCode { w with memCache, disk, diskWrites } :=
  ⟨hsupplied, ⟨h.codes.sigCached, h.codes.sigMissing, h.codes.nCached, h.codes.nMissing⟩⟩

-- The player JS that the caches supply, whatever other tasks store and evict between two steps.
theorem fetchPlayerJs_shared (hdisk : env.SoundDisk) :
    Prog.Yields (Shared env url o pinned js sigCode nCode) o (fetchPlayerJs env url) := by
  refine Prog.Yields.bind_atomic fun w hw => ⟨hw.refetch hw.supplied.memGet, ?_⟩
  dsimp only
  rw [LinkedHashMap.get_fst]
  cases hm : w.memCache.lookup url with
  | some text => exact hw.supplied.memory text hm
  | none =>
      have hp : ¬pinned := fun hpinned => by simpa [hm] using hw.supplied.kept hpinned
      refine Prog.Yields.bind_atomic fun w' hw' => ⟨hw', ?_⟩
      dsimp only
      cases hd : DiskCache.get w'.disk url with
      | some text =>
          have ho := hw'.supplied.disk hp text hd
          exact Prog.Yields.bind_atomic fun w hw => ⟨hw.refetch (hw.supplied.memPut ho), ho⟩
      | none =>
          have hfetched := hw'.supplied.fetched hp hd
          cases ho : o with
          | error e => exact (ho ▸ hfetched _ shared_logFrame).bind_error _
          | ok text =>
              refine (ho ▸ hfetched _ shared_logFrame).bind ?_
              have hput :
                  Prog.Yields (Shared env url o pinned js sigCode nCode) (.ok ())
                    (diskPut env url text) := by
                refine Prog.Yields.attemptAtomic fun w hw => ?_
                simp only [hdisk w.diskWrites]
                exact ⟨DiskCache.put_run_ok .., hw.refetch (hw.supplied.diskPut ho _ _ hfetched)⟩
              subst ho
              refine hput.bind ?_
              refine Prog.Yields.bind_atomic fun w hw => ⟨hw.refetch (hw.supplied.makeRoom hp), ?_⟩
              exact Prog.Yields.bind_atomic fun w hw => ⟨hw.refetch (hw.supplied.memPut rfl), rfl⟩

-- The outcome of a task, whatever the tasks beside it do.
theorem buildPlayableUrl_shared (hsteady : env.SteadyEngine) (hdisk : env.SoundDisk)
    (hjs : ∀ text, o = .ok text → js = text) (format : RawFormat) :
    ∃ outcome, Prog.Yields (Shared env url o pinned js sigCode nCode) outcome
      (buildPlayableUrl env format url) := by
  have hfetch : Prog.Yields (Shared env url o pinned js sigCode nCode) o (fetchPlayerJs env url) :=
    fetchPlayerJs_shared hdisk
  cases ho : o with
  | error e =>
      rw [ho] at hfetch
      exact ⟨.error e, hfetch.bind_error _⟩
  | ok text =>
      obtain rfl := hjs text ho
      rw [ho] at hfetch
      have hdetermined :
          Prog.Determined (Coded env js sigCode nCode) (decipherWith env format js) :=
        decipherWith_determined hsteady format
      obtain ⟨outcome, hdecipher⟩ := hdetermined
      exact ⟨outcome, hfetch.bind (hdecipher _ shared_coded)⟩

theorem resolveFormat_shared (hsteady : env.SteadyEngine) (hdisk : env.SoundDisk)
    (hjs : ∀ text, o = .ok text → js = text) (format : RawFormat) :
    ∃ outcome, Prog.Yields (Shared env url o pinned js sigCode nCode) outcome
      (resolveFormat env url format) := by
  obtain ⟨outcome, hbuild⟩ : ∃ outcome,
      Prog.Yields (Shared env url o pinned js sigCode nCode) outcome
        (buildPlayableUrl env format url) :=
    buildPlayableUrl_shared hsteady hdisk hjs format
  cases outcome with
  | error e => exact ⟨.error e, hbuild.bind_error _⟩
  | ok playableUrl => exact ⟨.ok (format, playableUrl), hbuild.bind rfl⟩

theorem exists_shared (hsteady : env.SteadyEngine) (hanswer : env.SteadyAnswer url) (w : World) :
    ∃ o pinned js sigCode nCode, (∀ text, o = .ok text → js = text) ∧
      Shared env url o pinned js sigCode nCode w := by
  obtain ⟨o, hsupplied⟩ := exists_supplied hanswer w
  obtain ⟨js, hjs⟩ : ∃ js, ∀ text, o = .ok text → js = text := by
    cases o with
    | error e => exact ⟨[], fun _ h => nomatch h⟩
    | ok js => exact ⟨js, fun _ h => Except.ok.inj h⟩
  obtain ⟨sigCode, nCode, hcodes⟩ := exists_codes hsteady js w
  exact ⟨o, _, js, sigCode, nCode, hjs, hsupplied, hcodes⟩

-- The list of deciphered formats is the same for every interleaving of the tasks: that of running
-- them one after another. With an engine and a server that answer alike at any time every
-- task has one outcome under the invariant that all of them keep.
theorem resolveFormats_confluent (hsteady : env.SteadyEngine) (hanswer : env.SteadyAnswer url)
    (hdisk : env.SoundDisk) (schedule : List Nat) (formats : List RawFormat) (w : World) :
    ((resolveFormats env schedule url formats).run w).1 =
    ((resolveFormats env [] url formats).run w).1 := by
  obtain ⟨o, pinned, js, sigCode, nCode, hjs, hshared⟩ := exists_shared hsteady hanswer w
  have hdetermined (format : RawFormat) : ∃ outcome,
      Prog.Yields (Shared env url o pinned js sigCode nCode) outcome
        (resolveFormat env url format) :=
    resolveFormat_shared hsteady hdisk hjs format
  choose outcome houtcome using hdetermined
  have htasks :
      List.Forall₂ (fun task o' => Prog.Yields (Shared env url o pinned js sigCode nCode) o' task)
      (formats.map (resolveFormat env url)) (formats.map outcome) := by
    rw [List.forall₂_map_left_iff, List.forall₂_map_right_iff, List.forall₂_same]
    exact fun format _ => houtcome format
  have hall (order : List Nat) : ((resolveFormats env order url formats).run w).1 =
      .ok ((formats.map outcome).filterMap Except.toOption) := by
    have hpar : (Prog.run (Prog.par order (formats.map (resolveFormat env url)) : Action _) w).1 =
        .ok (formats.map outcome) := ((Prog.par_yields order htasks).run hshared).1
    exact congrArg Prod.fst (Prog.run_bind_ok (Prod.ext hpar rfl) _)
  rw [hall, hall]

end YouTubeExtractor

end

namespace YouTubeExtractor

def direct : RawFormat where
  itag := 140
  url := some (str "https://r/?n=abc")
  mimeType := str "audio/mp4"

def withoutUrl : RawFormat where
  itag := 251
  mimeType := str "audio/webm"

-- Three tasks take turns, from empty caches.
theorem resolveFormats_confluent_three :
    let env := scriptedEnv (.ok playable) (.ok unplayable)
    ((resolveFormats env [2, 0, 1, 2, 2, 0] playerJsUrl [direct, withoutUrl, direct]).run
      freshWorld).1 =
      ((resolveFormats env [] playerJsUrl [direct, withoutUrl, direct]).run freshWorld).1 :=
  resolveFormats_confluent scriptedEnv_steady (fun _ => rfl) (fun _ => rfl) _ _ _

end YouTubeExtractor

end Ytdlpdroid
