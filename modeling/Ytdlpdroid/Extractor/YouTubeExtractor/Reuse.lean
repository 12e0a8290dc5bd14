import Ytdlpdroid.Cache.MemoryCache.Recency
import Ytdlpdroid.Extractor.YouTubeExtractor.Runs

namespace Ytdlpdroid.YouTubeExtractor

open Text Collections Concurrent MemoryCache

def afterVisit (env : Env) (w : World) (visit : Visit) : World :=
  ((extract env visit.schedule visit.videoId visit.options).run w).2

section

variable {env : Env} {w stored : World} {visit : Visit} {videoId : Str} {result : StreamResult}
  {entry : Entry StreamResult} {since : List Str}

theorem afterMiss_cache (env : Env) (videoId : Str) (w : World) :
    (afterMiss env videoId w).extractionCache =
    (w.extractionCache.get videoId (env.clock w.readings)).2 := by
  unfold afterMiss ExtractionCache.get
  rw [Prog.run_atomic]
  rcases get_cases w.extractionCache videoId (env.clock w.readings) with
    ⟨hnone, hget⟩ | ⟨found, hfound, -⟩
  · rw [hnone, hget]
  · rw [hfound]

-- Storing a result is one insertion, or nothing.
theorem put_cache (h : (ExtractionCache.put env videoId result).run w = (.ok (), stored)) :
    stored.extractionCache = w.extractionCache ∨
      ∃ ttlMs now, stored.extractionCache = w.extractionCache.put videoId result ttlMs now := by
  unfold ExtractionCache.put at h
  simp only [Prog.run_bind, currentTimeMillis, Prog.run_atomic] at h
  split_ifs at h
  · obtain ⟨-, rfl⟩ := Prod.mk.inj h
    exact Or.inr ⟨_, _, rfl⟩
  · obtain ⟨-, rfl⟩ := Prod.mk.inj h
    exact Or.inl rfl

-- What a call does to the cache: it reads an entry, and after a miss it can insert one.
theorem afterVisit_cache (env : Env) (w : World) (visit : Visit) :
    (afterVisit env w visit).extractionCache = (afterMiss env visit.videoId w).extractionCache ∨
      cached env visit.videoId w = none ∧ ∃ result ttlMs now,
        (afterVisit env w visit).extractionCache =
        (afterMiss env visit.videoId w).extractionCache.put visit.videoId result ttlMs now := by
  cases hcached : cached env visit.videoId w with
  | some result =>
      left
      rw [afterVisit, extract_hit hcached]
  | none =>
      obtain ⟨middle, -, hcache, ⟨e, hrun⟩ | ⟨found, result, stored, -, -, -, hput, hrun⟩⟩ :=
        extract_miss_cases visit.schedule visit.options hcached
      · left
        rw [afterVisit, hrun, hcache]
      · rw [afterVisit, hrun, ← hcache]
        rcases put_cache hput with hsame | ⟨ttlMs, now, hstored⟩
        · exact Or.inl hsame
        · exact Or.inr ⟨rfl, result, ttlMs, now, hstored⟩

theorem afterVisit_maxSize (env : Env) (w : World) (visit : Visit) :
    (afterVisit env w visit).extractionCache.maxSize = w.extractionCache.maxSize := by
  have hmiss : (afterMiss env visit.videoId w).extractionCache.maxSize =
      w.extractionCache.maxSize := by
    rw [afterMiss_cache, maxSize_get]
  rcases afterVisit_cache env w visit with h | ⟨-, result, ttlMs, now, h⟩
  · rw [h, hmiss]
  · rw [h, maxSize_put, hmiss]

theorem afterMiss_readings (env : Env) (videoId : Str) (w : World) :
    w.readings ≤ (afterMiss env videoId w).readings := by
  unfold afterMiss ExtractionCache.get
  rw [Prog.run_atomic]
  cases w.extractionCache.map.lookup videoId with
  | none => exact Nat.le_refl _
  | some found => exact Nat.le_succ _

theorem readings_frame (least : Nat) : LibraryFrame fun w => least ≤ w.readings where
  log := fun _ _ h => h
  session := fun _ _ _ h => h
  engine := fun _ _ _ h => h
  memory := fun _ _ h => h
  disk := fun _ _ _ h => h
  functions := fun _ _ _ h => h

theorem afterVisit_readings (env : Env) (w : World) (visit : Visit) :
    w.readings ≤ (afterVisit env w visit).readings := by
  have hmiss := afterMiss_readings env visit.videoId w
  rw [afterVisit]
  cases hcached : cached env visit.videoId w with
  | some result =>
      rw [extract_hit hcached]
      exact hmiss
  | none =>
      have hresolve :=
        (resolve_preserves (readings_frame w.readings) env visit.schedule visit.videoId
        visit.options.regionCode)
      rw [extract_miss hcached]
      refine (hresolve.bind fun found => Prog.Preserves.bind ?_ fun result => ?_).run hmiss
      · refine (Prog.Preserves.ofExcept _ _).bind fun selection => ?_
        exact Prog.Preserves.bind_atomic fun w' h => ⟨Nat.le_succ_of_le h, trivial⟩
      · refine Prog.Preserves.bind ?_ fun _ => trivial
        refine Prog.Preserves.bind_atomic fun w' h => ⟨Nat.le_succ_of_le h, ?_⟩
        dsimp only
        split_ifs
        · exact fun w'' h' => ⟨Nat.le_succ_of_le h', trivial⟩
        · trivial

-- A call for another video puts only that video after the entry.
theorem holds_afterVisit_other (h : Holds w.extractionCache videoId entry since)
    (hne : visit.videoId ≠ videoId)
    (hfew : ((visit.videoId :: since).dedup.length : Int) < w.extractionCache.maxSize) :
    Holds (afterVisit env w visit).extractionCache videoId entry (visit.videoId :: since) := by
  have hread :
      Holds (afterMiss env visit.videoId w).extractionCache videoId entry
        (visit.videoId :: since) := by
    rw [afterMiss_cache]
    exact h.get_other hne _
  rcases afterVisit_cache env w visit with hsame | ⟨-, result, ttlMs, now, hput⟩
  · rwa [hsame]
  · have hsubset : visit.videoId :: visit.videoId :: since ⊆ visit.videoId :: since := by simp
    have hcount := length_dedup_le hsubset
    have hroom : (afterMiss env visit.videoId w).extractionCache.maxSize =
        w.extractionCache.maxSize := by
      rw [afterMiss_cache, maxSize_get]
    rw [hput]
    exact (hread.put_other hne (by rw [hroom]; omega) result ttlMs now).mono hsubset

theorem cached_of_holds (h : Holds w.extractionCache videoId entry since)
    (hlive : env.clock w.readings ≤ entry.expiresAt) : cached env videoId w = some entry.value := by
  rw [cached_eq, live, h.lookup]
  simp only
  rw [if_neg (by omega)]

-- Until it expires the entry answers all calls for its video, and each of them makes it the
-- last one used.
theorem holds_afterVisit_self (h : Holds w.extractionCache visit.videoId entry since)
    (hlive : env.clock w.readings ≤ entry.expiresAt) :
    Holds (afterVisit env w visit).extractionCache visit.videoId entry since := by
  rw [afterVisit, extract_hit (cached_of_holds h hlive), afterMiss_cache]
  exact (h.get_self hlive).mono (List.nil_subset _)

theorem readings_le_run (visits : List Visit) :
    w.readings ≤ (visits.foldl (afterVisit env) w).readings := by
  induction visits generalizing w with
  | nil => exact Nat.le_refl _
  | cons visit rest ih => exact Nat.le_trans (afterVisit_readings env w visit) ih

-- The entry stays over a run that uses fewer other videos than the cache has room for.
theorem holds_run (hclock : ∀ m n, m ≤ n → env.clock m ≤ env.clock n) {visits : List Visit}
    {others : List Str}
    (hothers : ∀ visit ∈ visits, visit.videoId ≠ videoId → visit.videoId ∈ others)
    (hfew : (others.dedup.length : Int) < w.extractionCache.maxSize)
    (h : Holds w.extractionCache videoId entry others)
    (hlive : env.clock (visits.foldl (afterVisit env) w).readings ≤ entry.expiresAt) :
    Holds (visits.foldl (afterVisit env) w).extractionCache videoId entry others := by
  induction visits generalizing w with
  | nil => exact h
  | cons visit rest ih =>
      obtain ⟨hvisit, hrest⟩ := List.forall_mem_cons.mp hothers
      have hnow : env.clock w.readings ≤ entry.expiresAt :=
        Int.le_trans (hclock _ _ (readings_le_run (visit :: rest))) hlive
      have hnext : Holds (afterVisit env w visit).extractionCache videoId entry others := by
        by_cases hself : visit.videoId = videoId
        · subst hself
          exact holds_afterVisit_self h hnow
        · have hsubset : visit.videoId :: others ⊆ others :=
            List.cons_subset.mpr ⟨hvisit hself, List.Subset.refl _⟩
          have hcount := length_dedup_le hsubset
          exact (holds_afterVisit_other h hself (by omega)).mono hsubset
      exact ih hrest (by rwa [afterVisit_maxSize]) hnext hlive

-- A result that would answer a repeated call is the entry used last.
theorem holds_of_returned
    (h : (extract env visit.schedule visit.videoId visit.options).run w = (.ok result, stored))
    (hrepeat : cached env visit.videoId stored = some result) :
    ∃ entry, entry.value = result ∧ Holds stored.extractionCache visit.videoId entry since := by
  obtain ⟨entry, hentry, hvalue⟩ := cached_entry hrepeat
  have hstored : afterVisit env w visit = stored := by rw [afterVisit, h]
  refine ⟨entry, hvalue, ?_⟩
  cases hcached : cached env visit.videoId w with
  | some found =>
      have hsame : stored = afterMiss env visit.videoId w := by
        rw [← hstored, afterVisit, extract_hit hcached]
      rw [cached_eq, live] at hcached
      rw [hsame, afterMiss_cache] at hentry ⊢
      rcases get_cases w.extractionCache visit.videoId (env.clock w.readings) with
        ⟨hnone, -⟩ | ⟨found, hfound, ⟨hexpired, hget⟩ | ⟨-, hget⟩⟩
      · rw [hnone] at hcached
        cases hcached
      · rw [hget, LinkedHashMap.lookup_remove, if_pos rfl] at hentry
        cases hentry
      · rw [hget] at hentry ⊢
        exact holds_last hentry (LinkedHashMap.keys_put _ _ _)
  | none =>
      have hnew := lookup_afterMiss_self hcached
      rcases afterVisit_cache env w visit with hsame | ⟨-, result', ttlMs, now, hput⟩
      · rw [← hstored, hsame, hnew] at hentry
        cases hentry
      · rw [← hstored, hput] at hentry ⊢
        exact holds_put hnew hentry

end

-- A call that finds its result in the cache changes only the order of the cache and the
-- number of readings.
def Untouched (before after : World) : Prop :=
  after = { before with extractionCache := after.extractionCache, readings := after.readings }

-- Once a result would answer a repeated call, it answers every later call for the same
-- video, however its URL is written and whatever its options are, until it expires, if
-- fewer other videos than the cache has room for are asked for in the meantime. Such a call
-- makes no request and runs no script.
theorem run_reuses (env : Env) (hclock : ∀ m n, m ≤ n → env.clock m ≤ env.clock n)
    (w stored : World) (visit : Visit) (result : StreamResult)
    (hreturned : (extract env visit.schedule visit.videoId visit.options).run w =
      (.ok result, stored))
    (hrepeat : cached env visit.videoId stored = some result) (visits : List Visit)
    (hfew : (((visits.map Visit.videoId).filter (· ≠ visit.videoId)).dedup.length : Int) <
      w.extractionCache.maxSize)
    (hlive : ∀ entry, stored.extractionCache.map.lookup visit.videoId = some entry →
      env.clock (visits.foldl (afterVisit env) stored).readings ≤ entry.expiresAt)
    (url : Str) (hurl : VideoIdParser.parse url = .ok visit.videoId) (schedule : List Nat)
    (options : ExtractionOptions) :
    ∃ after, (YTDLPDroid.extract env schedule url options).run
      (visits.foldl (afterVisit env) stored) =
        (.ok result, after) ∧ Untouched (visits.foldl (afterVisit env) stored) after := by
  have hstored : afterVisit env w visit = stored := by rw [afterVisit, hreturned]
  have hroom : stored.extractionCache.maxSize = w.extractionCache.maxSize := by
    rw [← hstored, afterVisit_maxSize]
  obtain ⟨entry, rfl, hholds⟩ := holds_of_returned hreturned hrepeat
  have hlive := hlive entry hholds.lookup
  have hothers : ∀ other ∈ visits, other.videoId ≠ visit.videoId →
      other.videoId ∈ (visits.map Visit.videoId).filter (· ≠ visit.videoId) := by
    intro other hm hne
    exact List.mem_filter.mpr ⟨List.mem_map_of_mem hm, by simpa using hne⟩
  have hlater := holds_run hclock hothers (by rw [hroom]; exact hfew) hholds hlive
  have hcached := cached_of_holds hlater hlive
  refine ⟨afterMiss env visit.videoId (visits.foldl (afterVisit env) stored), ?_, ?_⟩
  · rw [YTDLPDroid.extract, hurl]
    exact extract_hit hcached
  · rw [Untouched, afterMiss, ExtractionCache.get, Prog.run_atomic, hlater.lookup]

-- One audio stream is extracted, then another video, and then the first one again by its short URL.
def otherVisit : Visit where
  videoId := str "aaaaaaaaaaa"
  options := {}

def servingAudio : Env := serving [audioFormat]

def firstStored : World := afterVisit servingAudio freshWorld (visiting {})

theorem run_reuses_short :
    ∃ result after, (YTDLPDroid.extract servingAudio [] (str " https://youtu.be/dQw4w9WgXcQ?t=42 ")
      { maxVideoHeight := some 360 }).run
      ([otherVisit].foldl (afterVisit servingAudio) firstStored) = (.ok result, after) ∧
        Untouched ([otherVisit].foldl (afterVisit servingAudio) firstStored) after := by
  have hrun : ((extract servingAudio [] (str "dQw4w9WgXcQ") {}).run freshWorld).1.toOption =
        cached servingAudio (str "dQw4w9WgXcQ") firstStored ∧
      (cached servingAudio (str "dQw4w9WgXcQ") firstStored).isSome := by decide +kernel
  have hlong : (firstStored.extractionCache.map.lookup (str "dQw4w9WgXcQ")).all fun entry =>
      servingAudio.clock ([otherVisit].foldl (afterVisit servingAudio) firstStored).readings ≤
        entry.expiresAt := by
    decide +kernel
  have hclock : ∀ m n, m ≤ n → servingAudio.clock m ≤ servingAudio.clock n :=
    fun m n h => Int.ofNat_le.mpr h
  obtain ⟨hsame, hsome⟩ := hrun
  obtain ⟨result, hrepeat⟩ := Option.isSome_iff_exists.mp hsome
  rcases hreturned : (extract servingAudio [] (str "dQw4w9WgXcQ") {}).run freshWorld with
    ⟨outcome, stored⟩
  have hstored : firstStored = stored := congrArg Prod.snd hreturned
  rw [hreturned, hrepeat] at hsame
  rw [hstored] at hrepeat hlong ⊢
  cases outcome with
  | error e => cases hsame
  | ok first =>
      obtain rfl : first = result := Option.some.inj hsame
      refine ⟨first, run_reuses servingAudio hclock freshWorld stored
        (visiting {}) first hreturned hrepeat
        [otherVisit] (by decide +kernel) (fun entry hentry => ?_) _ (by decide +kernel) [] _⟩
      rw [visiting] at hentry
      rw [hentry] at hlong
      exact of_decide_eq_true hlong

end Ytdlpdroid.YouTubeExtractor
