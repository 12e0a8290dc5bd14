import Mathlib.Data.List.Dedup
import Ytdlpdroid.Decipher.PlayerJsRepository.Runs

namespace Ytdlpdroid

open Text Collections Concurrent

namespace PlayerJsRepository

-- A repository during its calls, and the URLs whose text it has returned, the latest one last.
structure Usage where
  world : World
  used : List Str := []

-- A new repository over whatever its directory holds.
def Usage.fresh (w : World) : Usage where
  world := { w with memCache := .empty }

section

variable (env : Env)

def Usage.after (usage : Usage) (url : Str) : Usage where
  world := ((fetchPlayerJs env url).run usage.world).2
  used :=
    match ((fetchPlayerJs env url).run usage.world).1 with
    | .ok _ => usage.used ++ [url]
    | .error _ => usage.used

-- After the call at most three texts are in memory, those of the URLs that were used last.
structure KeepsRecent (usage : Usage) (url : Str) : Prop where
  bounded : (usage.after env url).world.memCache.size ≤ 3
  recent : (usage.after env url).world.memCache.keys <:+ (usage.after env url).used.dedup

end

-- The call does not go to the disk, or finds nothing there, or leaves no more than three
-- texts in memory.
def HasRoom (usage : Usage) (url : Str) : Prop :=
  usage.world.memCache.lookup url = none → DiskCache.get usage.world.disk url ≠ none →
    usage.world.memCache.size < 3

variable {env : Env} {url : Str} {used : List Str} {memCache memCache' : LinkedHashMap Str Str}

-- The URL used last is the last of the distinct ones.
theorem dedup_use (used : List Str) (url : Str) :
    (used ++ [url]).dedup = used.dedup.filter (· ≠ url) ++ [url] := by
  induction used with
  | nil => rfl
  | cons first rest ih =>
      by_cases hrest : first ∈ rest
      · rw [List.cons_append, List.dedup_cons_of_mem (List.mem_append_left _ hrest), ih,
          List.dedup_cons_of_mem hrest]
      · rw [List.dedup_cons_of_notMem hrest]
        by_cases hself : first = url
        · subst hself
          rw [List.cons_append, List.dedup_cons_of_mem (List.mem_append_right _ List.mem_cons_self),
            ih, List.filter_cons_of_neg (by simp)]
        · have hnew : first ∉ rest ++ [url] := by
            simp only [List.mem_append, List.mem_singleton, not_or]
            exact ⟨hrest, hself⟩
          rw [List.cons_append, List.dedup_cons_of_notMem hnew, ih,
            List.filter_cons_of_pos (by simpa using hself)]
          rfl

-- A map that kept the last URLs keeps them when one more is used.
theorem recent_put (h : memCache.keys <:+ used.dedup) (hkept : memCache'.keys <:+ memCache.keys)
    (url text : Str) :
    (memCache'.put url text).keys <:+ (used ++ [url]).dedup := by
  obtain ⟨older, hused⟩ := hkept.trans h
  rw [dedup_use, LinkedHashMap.keys_put, ← hused, List.filter_append, List.append_assoc]
  exact List.suffix_append _ _

theorem keys_dropEldest (memCache : LinkedHashMap Str Str) :
    (dropEldest memCache).keys <:+ memCache.keys := by
  unfold dropEldest
  split_ifs
  · rw [LinkedHashMap.keys_removeEldest]
    exact List.tail_suffix _
  · exact List.suffix_refl _

-- After a call the world is the one that the call leaves, and a URL whose text was returned
-- is used.
theorem Usage.after_cases (usage : Usage) (url : Str) :
    (∃ text w', Fetch env url usage.world (.ok text) w' ∧
      usage.after env url = ⟨w', usage.used ++ [url]⟩) ∨
      ∃ e w', Fetch env url usage.world (.error e) w' ∧ usage.after env url = ⟨w', usage.used⟩ := by
  have hfetch := fetchPlayerJs_fetch env url usage.world
  unfold Usage.after
  cases hresult : ((fetchPlayerJs env url).run usage.world).1 with
  | ok text =>
      rw [hresult] at hfetch
      exact Or.inl ⟨text, _, hfetch, rfl⟩
  | error e =>
      rw [hresult] at hfetch
      exact Or.inr ⟨e, _, hfetch, rfl⟩

-- A call that fails has found nothing on the disk and leaves the memory as it was.
theorem Fetch.memCache_of_error {w w' : World} {e : Throwable} (h : Fetch env url w (.error e) w') :
    w'.memCache = w.memCache ∧ DiskCache.get w.disk url = none := by
  cases h with
  | refused e hm hd => exact ⟨rfl, hd⟩
  | interrupted text count hm hd ht hf => exact ⟨rfl, hd⟩

-- No kind of call forgets a URL before those that were used less recently.
theorem recent_after (usage : Usage) (h : usage.world.memCache.keys <:+ usage.used.dedup)
    (url : Str) :
    (usage.after env url).world.memCache.keys <:+ (usage.after env url).used.dedup := by
  rcases Usage.after_cases usage url with ⟨text, w', hfetch, hafter⟩ | ⟨e, w', hfetch, hafter⟩
  · rw [hafter]
    cases hfetch with
    | memory text hm =>
        simp only [LinkedHashMap.get, hm]
        exact recent_put h (List.suffix_refl _) url text
    | disk text hm hd => exact recent_put h (List.suffix_refl _) url text
    | stored text hm hd ht hf => exact recent_put h (keys_dropEldest _) url text
  · rw [hafter, hfetch.memCache_of_error.1]
    exact h

theorem size_put_new (h : memCache.lookup url = none) (text : Str) :
    (memCache.put url text).size = memCache.size + 1 := by
  rw [← LinkedHashMap.length_keys, LinkedHashMap.keys_put_of_lookup_none h, List.length_append,
    LinkedHashMap.length_keys, List.length_singleton]

-- The room that is made is for one text.
theorem size_dropEldest_put (h : memCache.lookup url = none) (hsize : memCache.size ≤ 3)
    (text : Str) :
    ((dropEldest memCache).put url text).size ≤ 3 := by
  have hnone : (dropEldest memCache).lookup url = none := by
    unfold dropEldest
    split_ifs
    · rw [LinkedHashMap.lookup_removeEldest, h, ite_self]
    · exact h
  rw [size_put_new hnone]
  unfold dropEldest
  split_ifs with hfull
  · rw [LinkedHashMap.size_removeEldest]
    omega
  · omega

-- Only a text found on the disk comes without another one leaving.
theorem bounded_after_iff (usage : Usage) (h : usage.world.memCache.size ≤ 3) (url : Str) :
    (usage.after env url).world.memCache.size ≤ 3 ↔ HasRoom usage url := by
  rcases Usage.after_cases usage url with ⟨text, w', hfetch, hafter⟩ | ⟨e, w', hfetch, hafter⟩
  · rw [hafter]
    unfold HasRoom
    cases hfetch with
    | memory text hm =>
        have hsize := LinkedHashMap.size_put_of_lookup hm text
        simp only [LinkedHashMap.get, hm, hsize]
        exact ⟨fun _ hnone => absurd hnone (by simp), fun _ => h⟩
    | disk text hm hd =>
        have hsize := size_put_new hm text
        simp only [hsize]
        exact ⟨fun hbounded _ _ => by omega, fun hroom => hroom hm (by simp [hd])⟩
    | stored text hm hd ht hf =>
        exact ⟨fun _ _ hsome => absurd hd hsome, fun _ => size_dropEldest_put hm h text⟩
  · obtain ⟨hsame, hd⟩ := hfetch.memCache_of_error
    rw [hafter, hsame]
    exact ⟨fun _ _ hsome => absurd hd hsome, fun _ => h⟩

-- What holds between the calls of a run that has kept to the bound.
structure Usage.Bounded (usage : Usage) : Prop where
  size : usage.world.memCache.size ≤ 3
  recent : usage.world.memCache.keys <:+ usage.used.dedup

theorem Usage.Bounded.keepsRecent_iff {usage : Usage} (h : usage.Bounded) (url : Str) :
    KeepsRecent env usage url ↔ HasRoom usage url := by
  refine ⟨fun hkeeps => (bounded_after_iff usage h.size url).mp hkeeps.bounded, fun hroom => ?_⟩
  exact ⟨(bounded_after_iff usage h.size url).mpr hroom, recent_after usage h.recent url⟩

-- Every run of calls on a new repository, whatever its directory holds.
theorem run_keepsRecent_iff (env : Env) (w : World) (urls : List Str) :
    Along (Usage.after env) (KeepsRecent env) (Usage.fresh w) urls ↔
      Along (Usage.after env) HasRoom (Usage.fresh w) urls := by
  have hfresh : (Usage.fresh w).Bounded := ⟨Nat.zero_le 3, List.suffix_refl _⟩
  constructor
  · refine Along.of_invariant (I := Usage.Bounded) (fun usage url h hkeeps => ?_) hfresh
    exact ⟨(h.keepsRecent_iff url).mp hkeeps, ⟨hkeeps.bounded, hkeeps.recent⟩⟩
  · refine Along.of_invariant (I := Usage.Bounded) (fun usage url h hroom => ?_) hfresh
    have hkeeps : KeepsRecent env usage url := (h.keepsRecent_iff url).mpr hroom
    exact ⟨hkeeps, ⟨hkeeps.bounded, hkeeps.recent⟩⟩

-- The players that an earlier process has left in the directory.
def leftPlayers : List Str :=
  [str "/s/player/a/base.js", str "/s/player/b/base.js", str "/s/player/c/base.js",
    str "/s/player/d/base.js"]

def leftDisk : Directory :=
  leftPlayers.foldl (fun dir url => ((DiskCache.put url (str "x") 0).run dir).2) {}

-- Four players that are found on the disk are all kept in memory.
theorem disk_hits_outgrow_bound :
    ¬∀ (env : Env) (w : World) (urls : List Str),
      Along (Usage.after env) (KeepsRecent env) (Usage.fresh w) urls := by
  intro h
  have hlast :=
    (h mirrorEnv { extractionCache := { maxSize := 30 }, disk := leftDisk }
      leftPlayers).2.2.2.1.bounded
  revert hlast
  decide +kernel

end PlayerJsRepository

end Ytdlpdroid
