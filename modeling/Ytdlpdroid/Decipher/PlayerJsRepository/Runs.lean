import Ytdlpdroid.Concurrent.Runs
import Ytdlpdroid.Decipher.PlayerJsRepository.Theorems

namespace Ytdlpdroid

open Text Collections Concurrent

namespace PlayerJsRepository

-- A new process: what is in memory is lost, the directory stays.
def restarted (w : World) : World := { w with
  extractionCache := { w.extractionCache with map := .empty }
  memCache := .empty
  sigFunctionCache := fun _ => none
  nFunctionCache := fun _ => none
  sessionInitialized := false
  cachedVisitorData := none }

inductive Step
  | fetch (playerJsUrl : Str)
  | restart
  | evictOldCache

-- The state during a run. `writer` remembers for each cache file the URL it was last written for.
structure Session where
  world : World
  writer : Str → Option Str := fun _ => none

def Session.fresh (extractionCache : MemoryCache Str StreamResult) : Session where
  world := { extractionCache }

section

variable (env : Env)

def Session.after (session : Session) : Step → Session
  | .fetch url =>
      let world := ((fetchPlayerJs env url).run session.world).2
      { world
        writer :=
          if world.diskWrites = session.world.diskWrites then session.writer
          else Function.update session.writer (DiskCache.fileFor url) (some url) }
  | .restart => { session with world := restarted session.world }
  | .evictOldCache =>
      { session with world :=
          { session.world with disk := DiskCache.afterEviction session.world.disk 2 } }

-- The text that a fetch returns is one that the server returned for this URL.
def ReturnsServed (session : Session) (step : Step) : Prop :=
  ∀ url text, step = .fetch url → ((fetchPlayerJs env url).run session.world).1 = .ok text →
    Served (session.after env step).world (fullUrl url) text

-- A fetch that reads a cache file reads one that was last written for its own URL.
def ReadsOwn (session : Session) (step : Step) : Prop :=
  ∀ url, step = .fetch url → session.world.memCache.lookup url = none →
    DiskCache.get session.world.disk url ≠ none →
    ∃ source, session.writer (DiskCache.fileFor url) = some source ∧ fullUrl source = fullUrl url

-- The text that a fetch returns is a whole text that the server returned for a URL with
-- the same cache file.
def ReturnsWhole (session : Session) (step : Step) : Prop :=
  ∀ url text, step = .fetch url → ((fetchPlayerJs env url).run session.world).1 = .ok text →
    ∃ source, DiskCache.fileFor source = DiskCache.fileFor url ∧
      Served (session.after env step).world (fullUrl source) text

-- A write that fails leaves nothing of the text in its file, or what reads as all of it.
def WritesClean (session : Session) (step : Step) : Prop :=
  ∀ url text count, step = .fetch url → env.diskFault session.world.diskWrites = some count →
    textIn (callOf env session.world (jsRequest url)) = .ok text →
    DiskCache.StopsClean text count

end

variable {env : Env}

-- Every text in memory comes from a URL that may be `asked` for, and every text in a
-- file from a URL that may be its `owner`.
structure Kept (w : World) (asked owner : Str → Str → Prop) : Prop where
  memory : ∀ url text, w.memCache.lookup url = some text →
    ∃ source, asked url source ∧ Served w (fullUrl source) text
  files : ∀ name file, w.disk.files.lookup name = some file → 0 < file.bytes.length →
    ∃ source, owner name source ∧ Served w (fullUrl source) (DiskCache.readText file)

-- The owners after a fetch: the ones before, and the URL itself for a file it wrote.
structure Handover (env : Env) (url : Str) (w w' : World) (owner owner' : Str → Str → Prop) :
    Prop where
  same : w'.diskWrites = w.diskWrites → ∀ name source, owner name source → owner' name source
  written : w'.diskWrites ≠ w.diskWrites → owner' (DiskCache.fileFor url) url
  other : ∀ name source, name ≠ DiskCache.fileFor url → owner name source → owner' name source
  stopped : env.diskFault w.diskWrites ≠ none → ∀ source, owner (DiskCache.fileFor url) source →
    owner' (DiskCache.fileFor url) source

variable {url text : Str} {w w' : World} {asked owner owner' : Str → Str → Prop}

theorem served_log (w : World) (call : Call) {url text : Str} (h : Served w url text) :
    Served (w.log call) url text := h.mono fun _ hm => List.mem_append_left _ hm

theorem served_call (h : textIn (callOf env w (jsRequest url)) = .ok text) :
    Served (w.log (callOf env w (jsRequest url))) (fullUrl url) text := by
  obtain ⟨response, ho, ht⟩ := textIn_ok h
  exact ⟨_, List.mem_append_right _ List.mem_cons_self, rfl, response, ho, ht⟩

theorem lookup_dropEldest {memCache : LinkedHashMap Str Str}
    (h : (dropEldest memCache).lookup url = some text) : memCache.lookup url = some text := by
  unfold dropEldest at h
  split_ifs at h
  · rw [LinkedHashMap.lookup_removeEldest] at h
    split_ifs at h
    exact h
  · exact h

theorem Kept.log (hk : Kept w asked owner) (call : Call) : Kept (w.log call) asked owner where
  memory := fun url text h =>
    (hk.memory url text h).imp fun _ hs => ⟨hs.1, served_log w call hs.2⟩
  files := fun name file h hlen =>
    (hk.files name file h hlen).imp fun _ hs => ⟨hs.1, served_log w call hs.2⟩

theorem Kept.put_memory (hk : Kept w asked owner) {memCache : LinkedHashMap Str Str}
    (hsub : ∀ other found, memCache.lookup other = some found →
      w.memCache.lookup other = some found)
    {source : Str} (hasked : asked url source) (hserved : Served w (fullUrl source) text)
    (other found : Str) (h : (memCache.put url text).lookup other = some found) :
    ∃ source, asked other source ∧ Served w (fullUrl source) found := by
  rw [LinkedHashMap.lookup_put] at h
  split_ifs at h with ho
  · obtain rfl := Option.some.inj h
    exact ⟨source, ho ▸ hasked, hserved⟩
  · exact hk.memory other found (hsub other found h)

-- The text returned is known: from memory, from the file that was read, or from the call.
theorem Fetch.served (h : Fetch env url w (.ok text) w') (hk : Kept w asked owner)
    (hself : asked url url)
    (hhit : w.memCache.lookup url = none → DiskCache.get w.disk url ≠ none →
      ∀ source, owner (DiskCache.fileFor url) source → asked url source) :
    ∃ source, asked url source ∧ Served w' (fullUrl source) text := by
  cases h with
  | memory text hm => exact hk.memory url text hm
  | disk text hm hd =>
      obtain ⟨file, hf, hlen, rfl⟩ := DiskCache.get_eq_some hd
      obtain ⟨source, ho, hs⟩ := hk.files _ file hf hlen
      exact ⟨source, hhit hm (by simp [hd]) source ho, hs⟩
  | stored text hm hd ht hf => exact ⟨url, hself, served_call ht⟩

theorem Fetch.kept {outcome : Except Throwable Str} (h : Fetch env url w outcome w')
    (hk : Kept w asked owner) (hover : Handover env url w w' owner owner') (hself : asked url url)
    (hhit : w.memCache.lookup url = none → DiskCache.get w.disk url ≠ none →
      ∀ source, owner (DiskCache.fileFor url) source → asked url source)
    (hclean : ∀ text count, env.diskFault w.diskWrites = some count →
      textIn (callOf env w (jsRequest url)) = .ok text → DiskCache.StopsClean text count) :
    Kept w' asked owner' := by
  cases h with
  | memory text hm =>
      refine ⟨fun other found hf => hk.memory other found (by simpa using hf),
        fun name file hf hlen => ?_⟩
      exact (hk.files name file hf hlen).imp fun _ hs => ⟨hover.same rfl _ _ hs.1, hs.2⟩
  | disk text hm hd =>
      obtain ⟨file, hf, hlen, rfl⟩ := DiskCache.get_eq_some hd
      obtain ⟨source, ho, hs⟩ := hk.files _ file hf hlen
      refine ⟨hk.put_memory (fun _ _ h => h) (hhit hm (by simp [hd]) source ho) hs, ?_⟩
      exact fun name file hf hlen =>
        (hk.files name file hf hlen).imp fun _ hs => ⟨hover.same rfl _ _ hs.1, hs.2⟩
  | refused e hm hd =>
      refine ⟨(hk.log _).memory, fun name file hf hlen => ?_⟩
      exact ((hk.log _).files name file hf hlen).imp fun _ hs => ⟨hover.same rfl _ _ hs.1, hs.2⟩
  | stored text hm hd ht hf =>
      have hlog := hk.log (callOf env w (jsRequest url))
      have hserved := served_call ht
      refine ⟨hlog.put_memory (fun _ _ h => lookup_dropEldest h) hself hserved,
        fun name file hl hlen => ?_⟩
      simp only [DiskCache.put_run_lookup] at hl
      split_ifs at hl with hn
      · obtain rfl := Option.some.inj hl
        refine ⟨url, hn ▸ hover.written (by simp), ?_⟩
        simp only [DiskCache.readText, Utf8.decode_encode]
        exact hserved
      · exact (hlog.files name file hl hlen).imp fun _ hs => ⟨hover.other _ _ hn hs.1, hs.2⟩
  | interrupted text count hm hd ht hf =>
      have hlog := hk.log (callOf env w (jsRequest url))
      refine ⟨hlog.memory, fun name file hl hlen => ?_⟩
      by_cases hn : name = DiskCache.fileFor url
      · subst hn
        rcases DiskCache.stopAfter_file (hclean text count hf ht) hl hlen with hread | hold
        · rw [hread]
          exact ⟨url, hover.written (by simp), served_call ht⟩
        · exact (hlog.files _ file hold hlen).imp fun _ hs =>
            ⟨hover.stopped (by simp [hf]) _ hs.1, hs.2⟩
      · rw [DiskCache.put_stopAfter_lookup, if_neg fun h => hn h.2] at hl
        exact (hlog.files name file hl hlen).imp fun _ hs => ⟨hover.other _ _ hn hs.1, hs.2⟩

theorem Kept.restarted (hk : Kept w asked owner) : Kept (restarted w) asked owner where
  memory := by simp [PlayerJsRepository.restarted]
  files := hk.files

theorem Kept.evicted (hk : Kept w asked owner) (keepNewest : Int) :
    Kept { w with disk := DiskCache.afterEviction w.disk keepNewest } asked owner where
  memory := hk.memory
  files := fun name file hf hlen => hk.files name file (DiskCache.afterEviction_lookup hf) hlen

theorem kept_fresh (extractionCache : MemoryCache Str StreamResult)
    (asked owner : Str → Str → Prop) :
    Kept (Session.fresh extractionCache).world asked owner where
  memory := by simp [Session.fresh]
  files := by simp [Session.fresh]

-- The file of a URL was last written for a URL with the same address.
def Session.Owned (session : Session) : Prop :=
  Kept session.world (fun asked source => fullUrl source = fullUrl asked)
    fun name source => session.writer name = some source

theorem Session.Owned.step (hfault : ∀ count, env.diskFault count = none) {session : Session}
    {step : Step} (hs : session.Owned) (hown : ReadsOwn session step) :
    ReturnsServed env session step ∧ (session.after env step).Owned := by
  cases step with
  | restart => exact ⟨by simp [ReturnsServed], Kept.restarted hs⟩
  | evictOldCache => exact ⟨by simp [ReturnsServed], Kept.evicted hs 2⟩
  | fetch url =>
      have hfetch := fetchPlayerJs_fetch env url session.world
      have hhit : session.world.memCache.lookup url = none →
          DiskCache.get session.world.disk url ≠ none → ∀ source,
          session.writer (DiskCache.fileFor url) = some source → fullUrl source = fullUrl url := by
        intro hm hd source hw
        obtain ⟨other, ho, hurl⟩ := hown url rfl hm hd
        rw [ho] at hw
        exact Option.some.inj hw ▸ hurl
      refine ⟨fun other text he ho => ?_, ?_⟩
      · obtain rfl : url = other := Step.fetch.inj he
        rw [ho] at hfetch
        obtain ⟨source, hasked, hserved⟩ := hfetch.served hs rfl hhit
        exact hasked ▸ hserved
      · refine hfetch.kept hs ⟨?_, ?_, ?_, ?_⟩ rfl hhit ?_
        · intro hsame name source hw
          simpa only [Session.after, if_pos hsame] using hw
        · intro hne
          simp only [Session.after, if_neg hne, Function.update_self]
        · intro name source hn hw
          simp only [Session.after]
          split_ifs
          · exact hw
          · rwa [Function.update_of_ne hn]
        · exact fun h => absurd (hfault _) h
        · exact fun text count hf => by simp [hfault] at hf

-- The file of a URL was written for URLs with the same file only.
def Session.Whole (session : Session) : Prop :=
  Kept session.world (fun asked source => DiskCache.fileFor source = DiskCache.fileFor asked)
    fun name source => DiskCache.fileFor source = name

theorem Session.Whole.step {session : Session} {step : Step} (hs : session.Whole)
    (hclean : WritesClean env session step) :
    ReturnsWhole env session step ∧ (session.after env step).Whole := by
  cases step with
  | restart => exact ⟨by simp [ReturnsWhole], Kept.restarted hs⟩
  | evictOldCache => exact ⟨by simp [ReturnsWhole], Kept.evicted hs 2⟩
  | fetch url =>
      have hfetch := fetchPlayerJs_fetch env url session.world
      refine ⟨fun other text he ho => ?_, ?_⟩
      · obtain rfl : url = other := Step.fetch.inj he
        rw [ho] at hfetch
        exact hfetch.served hs rfl fun _ _ _ h => h
      · exact hfetch.kept hs ⟨fun _ _ _ h => h, fun _ => rfl, fun _ _ _ h => h, fun _ _ h => h⟩ rfl
          (fun _ _ _ h => h) fun text count hf ht => hclean url text count rfl hf ht

-- The disk cache is a map, and the repository returns what the server returned for the
-- URL, as long as no read finds the file of another key.
theorem disk_cache_maps_own_files {env : Env} (hfault : ∀ count, env.diskFault count = none)
    (dir : Directory) (ops : List DiskCache.Operation)
    (extractionCache : MemoryCache Str StreamResult) (steps : List Step) :
    (DiskCache.AtGets DiskCache.Faithful { dir } ops ↔
      DiskCache.AtGets DiskCache.FindsOwn { dir } ops) ∧
        (Along (Session.after env) ReadsOwn (Session.fresh extractionCache) steps →
        Along (Session.after env) (ReturnsServed env) (Session.fresh extractionCache) steps) := by
  refine ⟨DiskCache.run_faithful_iff dir ops, fun hown => ?_⟩
  exact Along.of_invariant (fun _ _ hs hown => Session.Owned.step hfault hs hown)
    (kept_fresh extractionCache _ _) hown

-- Writes that stop leave nothing or everything, exactly when they stop before the first
-- byte or after the last one; the repository then serves only whole texts.
theorem disk_writes_whole (key value : Str) (now : Int) (count : Nat) (dir : Directory)
    (events : List DiskCache.Event) (env : Env)
    (extractionCache : MemoryCache Str StreamResult) (steps : List Step) :
    ((∀ prior text,
        DiskCache.get ((DiskCache.put key value now).stopAfter count prior) key = some text →
          text = value ∨ DiskCache.get prior key = some text) ↔
      DiskCache.StopsClean value count) ∧
    ((∀ event ∈ events, event.Clean) →
      DiskCache.GetsWhole (DiskCache.Ledger.start dir) events) ∧
    (Along (Session.after env) (WritesClean env) (Session.fresh extractionCache) steps →
      Along (Session.after env) (ReturnsWhole env) (Session.fresh extractionCache) steps) := by
  refine ⟨DiskCache.get_stopAfter_iff key value now count, DiskCache.run_getsWhole dir events,
    fun hclean => ?_⟩
  exact Along.of_invariant (fun _ _ hs hclean => Session.Whole.step hs hclean)
    (kept_fresh extractionCache _ _) hclean

-- A server that answers every request with the URL it was asked for.
def mirrorEnv : Env where
  clock := fun _ => 0
  httpClient := ⟨none⟩
  network := fun _ request _ => .response { code := 200, body := some (.text request.url) }
  decodeFromString := fun _ => .error []
  jsEngine := .custom (str "EchoEngine") fun _ _ argument => .ok argument

def playerUrl : Str := str "/s/player/a1b2/base.js"

theorem disk_cache_maps_own_files_once :
    Along (Session.after mirrorEnv) (ReturnsServed mirrorEnv) (Session.fresh { maxSize := 30 })
      [.fetch playerUrl, .restart, .fetch playerUrl] := by
  refine (disk_cache_maps_own_files (fun _ => rfl) {} [] { maxSize := 30 } _).2
    ⟨fun url _ _ hd => absurd rfl hd, by simp [ReadsOwn], fun url he _ _ => ?_, trivial⟩
  obtain rfl : playerUrl = url := Step.fetch.inj he
  exact ⟨playerUrl, by decide +kernel, rfl⟩

-- The hash codes of these two player URLs are the same.
theorem disk_cache_confuses_keys :
    ¬∀ (dir : Directory) (ops : List DiskCache.Operation),
      DiskCache.AtGets DiskCache.Faithful { dir } ops := by
  intro h
  have hget := (h {} [.put (str "/s/player/a/Aabase.js") (str "x") 0,
    .get (str "/s/player/a/BBbase.js")]).2.1 _ rfl
  revert hget
  unfold DiskCache.Faithful
  decide +kernel

-- The first write stops when the file has been cut, the second one after the last byte.
def stoppingEnv : Env := { mirrorEnv with
  diskFault := fun count => if count = 0 then some 2 else if count = 1 then some 100 else none }

def stoppingSteps : List Step := [.fetch playerUrl, .fetch playerUrl, .restart, .fetch playerUrl]

def stoppingEvents : List DiskCache.Event :=
  [.interrupted (str "k") (str "ab") 0 2, .completed (.get (str "k")),
    .interrupted (str "k") (str "cd") 1 4, .completed (.get (str "k"))]

theorem disk_writes_whole_stopped :
    DiskCache.GetsWhole (DiskCache.Ledger.start {}) stoppingEvents ∧
      Along (Session.after stoppingEnv) (ReturnsWhole stoppingEnv)
        (Session.fresh { maxSize := 30 }) stoppingSteps ∧
      (stoppingSteps.foldl (Session.after stoppingEnv)
        (Session.fresh { maxSize := 30 })).world.memCache.lookup playerUrl =
          some (fullUrl playerUrl) := by
  obtain ⟨-, hevents, hsteps⟩ := disk_writes_whole (str "k") (str "ab") 0 2 {} stoppingEvents
    stoppingEnv { maxSize := 30 } stoppingSteps
  refine ⟨hevents ?_, hsteps ⟨?_, ?_, ?_, ?_, trivial⟩, by decide +kernel⟩
  · simp only [stoppingEvents, List.forall_mem_cons]
    exact ⟨.inl (by decide), trivial, .inr (.inl (by decide)), trivial, by simp⟩
  · rintro url text count - hfault -
    exact .inl (Option.some.inj hfault).ge
  · rintro url text count he hfault htext
    obtain rfl : playerUrl = url := Step.fetch.inj he
    obtain rfl : 100 = count := Option.some.inj hfault
    obtain rfl : fullUrl playerUrl = text := Except.ok.inj htext
    exact .inr (.inl (by decide +kernel))
  · simp [WritesClean]
  · rintro url text count - hfault -
    exact absurd (Option.isSome_of_mem hfault) (by decide +kernel)

-- A put of two bytes that stops after the first one.
theorem disk_write_leaves_prefix :
    ¬∀ (dir : Directory) (key value : Str) (now : Int) (count : Nat) (text : Str),
      DiskCache.get ((DiskCache.put key value now).stopAfter count dir) key = some text →
        text = value ∨ DiskCache.get dir key = some text := by
  intro h
  exact absurd (h {} (str "k") (str "ab") 0 3 (str "a") (by decide +kernel)) (by decide +kernel)

end PlayerJsRepository

end Ytdlpdroid
