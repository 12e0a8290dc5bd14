import Ytdlpdroid.Cache.MemoryCache.Runs

namespace Ytdlpdroid

open Collections

namespace MemoryCache

variable {κ ν : Type} [DecidableEq κ]

-- An entry of the cache, and where the keys stand that were used after its own.
structure Holds (cache : MemoryCache κ ν) (key : κ) (entry : Entry ν) (since : List κ) : Prop where
  lookup : cache.map.lookup key = some entry
  order : ∃ older newer, cache.map.keys = older ++ key :: newer ∧ newer ⊆ since

variable {cache : MemoryCache κ ν} {key other : κ} {entry : Entry ν} {since : List κ} {now : Int}

theorem Holds.mono (h : Holds cache key entry since) {more : List κ} (hmore : since ⊆ more) :
    Holds cache key entry more := by
  obtain ⟨older, newer, hkeys, hnewer⟩ := h.order
  exact ⟨h.lookup, older, newer, hkeys, List.Subset.trans hnewer hmore⟩

-- The key that was used last.
theorem holds_last (hlookup : cache.map.lookup key = some entry) {older : List κ}
    (hkeys : cache.map.keys = older ++ [key]) : Holds cache key entry since :=
  ⟨hlookup, older, [], hkeys, List.nil_subset _⟩

theorem Holds.get_self (h : Holds cache key entry since) (hlive : now ≤ entry.expiresAt) :
    Holds (cache.get key now).2 key entry [] := by
  rcases get_cases cache key now with ⟨hnone, -⟩ | ⟨found, hfound, ⟨hexpired, -⟩ | ⟨-, hget⟩⟩
  · rw [h.lookup] at hnone
    cases hnone
  · obtain rfl := Option.some.inj (h.lookup.symm.trans hfound)
    omega
  · obtain rfl := Option.some.inj (h.lookup.symm.trans hfound)
    rw [hget]
    exact holds_last (by simp) (LinkedHashMap.keys_put _ _ _)

-- Another key is taken out of the order, and put back at its end.
theorem Holds.order_filter (h : Holds cache key entry since) (hne : other ≠ key) :
    ∃ older newer, cache.map.keys.filter (· ≠ other) = older ++ key :: newer ∧ newer ⊆ since ∧
      cache.map.keys.filter (· ≠ other) ++ [other] = older ++ key :: (newer ++ [other]) := by
  obtain ⟨older, newer, hkeys, hnewer⟩ := h.order
  have hfilter : cache.map.keys.filter (· ≠ other) =
      older.filter (· ≠ other) ++ key :: newer.filter (· ≠ other) := by
    rw [hkeys, List.filter_append, List.filter_cons_of_pos (by simp [Ne.symm hne])]
  refine ⟨_, _, hfilter, fun k hm => hnewer (List.mem_of_mem_filter hm), ?_⟩
  rw [hfilter, List.append_assoc, List.cons_append]

omit [DecidableEq κ] in
theorem subset_used {newer : List κ} (h : newer ⊆ since) : newer ++ [other] ⊆ other :: since := by
  intro k hm
  rcases List.mem_append.mp hm with hm | hm
  · exact List.mem_cons_of_mem _ (h hm)
  · obtain rfl := List.mem_singleton.mp hm
    exact List.mem_cons_self

theorem Holds.put_other_map (h : Holds cache key entry since) (hne : other ≠ key) (new : Entry ν) :
    Holds { cache with map := cache.map.put other new } key entry (other :: since) := by
  obtain ⟨older, newer, -, hnewer, hkeys⟩ := h.order_filter hne
  refine ⟨?_, older, newer ++ [other], ?_, subset_used hnewer⟩
  · rw [LinkedHashMap.lookup_put, if_neg (Ne.symm hne)]
    exact h.lookup
  · rw [LinkedHashMap.keys_put]
    exact hkeys

theorem Holds.get_other (h : Holds cache key entry since) (hne : other ≠ key) (now : Int) :
    Holds (cache.get other now).2 key entry (other :: since) := by
  rcases get_cases cache other now with ⟨-, hget⟩ | ⟨found, -, ⟨-, hget⟩ | ⟨-, hget⟩⟩
  · rw [hget]
    exact h.mono (List.subset_cons_self _ _)
  · obtain ⟨older, newer, hkeys, hnewer, -⟩ := h.order_filter hne
    rw [hget]
    refine ⟨?_, older, newer, ?_, List.Subset.trans hnewer (List.subset_cons_self _ _)⟩
    · rw [LinkedHashMap.lookup_remove, if_neg (Ne.symm hne)]
      exact h.lookup
    · rw [LinkedHashMap.keys_remove]
      exact hkeys
  · rw [hget]
    exact h.put_other_map hne found

-- A full cache gives up an older key while fewer keys than it holds have been used since.
theorem Holds.put_other (h : Holds cache key entry since) (hne : other ≠ key)
    (hfew : ((other :: since).dedup.length : Int) < cache.maxSize) (value : ν) (ttlMs now : Int) :
    Holds (cache.put other value ttlMs now) key entry (other :: since) := by
  have hplaced := h.put_other_map hne ⟨value, wrapLong (now + ttlMs)⟩
  unfold put
  rcases insert_cases cache other ⟨value, wrapLong (now + ttlMs)⟩ with
    ⟨old, -, hinsert⟩ | ⟨hnew, ⟨-, hinsert⟩ | ⟨hfull, hinsert⟩⟩
  · rw [hinsert]
    exact hplaced
  · rw [hinsert]
    exact hplaced
  · rw [hinsert]
    obtain ⟨hlookup, older, newer, hkeys, hnewer⟩ := hplaced
    have hsize := (insert_new hnew ⟨value, wrapLong (now + ttlMs)⟩).1
    have hnodup := LinkedHashMap.nodup_keys (cache.map.put other ⟨value, wrapLong (now + ttlMs)⟩)
    have hlength := LinkedHashMap.length_keys (cache.map.put other ⟨value, wrapLong (now + ttlMs)⟩)
    simp only at hkeys hlookup
    rw [hkeys] at hnodup hlength
    cases older with
    | nil =>
        -- Then all keys but one have been used since, and the cache is not full.
        have hdistinct := (List.nodup_cons.mp hnodup).2
        have hcount := length_dedup_le hnewer
        rw [List.dedup_eq_self.mpr hdistinct] at hcount
        simp only [List.nil_append, List.length_cons] at hlength
        omega
    | cons eldest older =>
        have heldest : (cache.map.put other ⟨value, wrapLong (now + ttlMs)⟩).eldest =
            some eldest := by
          unfold LinkedHashMap.eldest
          rw [← List.head?_map]
          exact congrArg List.head? hkeys
        have hother : eldest ≠ key := by
          rintro rfl
          exact (List.nodup_cons.mp hnodup).1 (by simp)
        refine ⟨?_, older, newer, ?_, hnewer⟩
        · rw [LinkedHashMap.lookup_removeEldest, heldest, if_neg (by simp [hother])]
          exact hlookup
        · rw [LinkedHashMap.keys_removeEldest, hkeys]
          rfl

theorem maxSize_put (cache : MemoryCache κ ν) (key : κ) (value : ν) (ttlMs now : Int) :
    (cache.put key value ttlMs now).maxSize = cache.maxSize := by
  unfold put
  rcases insert_cases cache key ⟨value, wrapLong (now + ttlMs)⟩ with
    ⟨old, -, hinsert⟩ | ⟨-, ⟨-, hinsert⟩ | ⟨-, hinsert⟩⟩ <;> rw [hinsert]

-- A new key comes last, if the cache keeps it.
theorem holds_put (hnew : cache.map.lookup key = none) {value : ν} {ttlMs : Int}
    (hlookup : (cache.put key value ttlMs now).map.lookup key = some entry) :
    Holds (cache.put key value ttlMs now) key entry since := by
  have hkeys := LinkedHashMap.keys_put_of_lookup_none hnew ⟨value, wrapLong (now + ttlMs)⟩
  revert hlookup
  unfold put
  rcases insert_cases cache key ⟨value, wrapLong (now + ttlMs)⟩ with
    ⟨old, hold, -⟩ | ⟨-, ⟨-, hinsert⟩ | ⟨-, hinsert⟩⟩
  · rw [hnew] at hold
    cases hold
  · rw [hinsert]
    exact fun hlookup => holds_last hlookup hkeys
  · rw [hinsert]
    intro hlookup
    have hm : key ∈ ((cache.map.put key ⟨value, wrapLong (now + ttlMs)⟩).removeEldest).keys :=
      (LinkedHashMap.mem_keys_iff _ key).mpr ⟨entry, hlookup⟩
    have htail :=
      LinkedHashMap.keys_removeEldest (cache.map.put key ⟨value, wrapLong (now + ttlMs)⟩)
    rw [hkeys] at htail
    cases hrest : cache.map.keys with
    | nil =>
        rw [htail, hrest] at hm
        cases hm
    | cons eldest rest =>
        rw [hrest] at htail
        exact holds_last hlookup htail

end MemoryCache

end Ytdlpdroid
