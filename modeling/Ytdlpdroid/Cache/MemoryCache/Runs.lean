import Mathlib.Data.List.Dedup
import Mathlib.Data.List.Perm.Subperm
import Ytdlpdroid.Cache.MemoryCache
import Ytdlpdroid.Concurrent.Runs
import Ytdlpdroid.Model.Numbers.Theorems

namespace Ytdlpdroid

open Text Collections Concurrent

namespace MemoryCache

inductive Operation (κ ν : Type)
  | get (key : κ)
  | put (key : κ) (value : ν) (ttlMs : Int)
  | remove (key : κ)

-- An operation that has happened, with the clock reading and what it found.
structure Event (κ ν : Type) where
  operation : Operation κ ν
  now : Int
  found : Option ν

-- A cache and its history, latest first.
structure Journal (κ ν : Type) where
  cache : MemoryCache κ ν
  events : List (Event κ ν) := []

variable {κ ν : Type} [DecidableEq κ]

-- What an operation at a time returns, and the cache after it.
def perform (cache : MemoryCache κ ν) (now : Int) : Operation κ ν → Option ν × MemoryCache κ ν
  | .get key => cache.get key now
  | .put key value ttlMs => (none, cache.put key value ttlMs now)
  | .remove key => (none, cache.remove key)

def Journal.after (journal : Journal κ ν) (step : Operation κ ν × Int) : Journal κ ν where
  cache := (journal.cache.perform step.2 step.1).2
  events := ⟨step.1, step.2, (journal.cache.perform step.2 step.1).1⟩ :: journal.events

-- What the latest `put` stored under a key, unless it has been removed since.
def stored : List (Event κ ν) → κ → Option (Entry ν)
  | [], _ => none
  | event :: earlier, key =>
      match event.operation with
      | .get _ => stored earlier key
      | .put written value ttlMs =>
          if written = key then some ⟨value, event.now + ttlMs⟩ else stored earlier key
      | .remove removed => if removed = key then none else stored earlier key

-- The key that was put, or found by a `get`.
def Event.used (event : Event κ ν) : Option κ :=
  match event.operation with
  | .get key => if event.found.isSome then some key else none
  | .put key _ _ => some key
  | .remove _ => none

-- The other keys used since a key was used last, latest first.
def usedSince (events : List (Event κ ν)) (key : κ) : List κ :=
  (events.takeWhile fun event => event.used ≠ some key).filterMap Event.used

-- The ways to lose an entry: it is removed, it is read after its expiry, or it is the one not
-- used for the longest time when a new key comes to a full cache.
inductive Dropped (journal : Journal κ ν) (key : κ) (entry : Entry ν) : Operation κ ν × Int → Prop
  | removed (now : Int) : Dropped journal key entry (.remove key, now)
  | expired (now : Int) (h : entry.expiresAt < now) : Dropped journal key entry (.get key, now)
  | evicted (new : κ) (value : ν) (ttlMs now : Int) (hnew : journal.cache.map.lookup new = none)
      (hfull : (journal.cache.map.size : Int) = journal.cache.maxSize)
      (heldest : ∀ other held, journal.cache.map.lookup other = some held → other ≠ key →
        other ∈ usedSince journal.events key) :
      Dropped journal key entry (.put new value ttlMs, now)

-- One step of a bounded map with expiry that gives up the key not used for the longest time.
structure BoundedLRU (maxSize : Int) (journal : Journal κ ν) (step : Operation κ ν × Int) :
    Prop where
  bounded : ((journal.after step).cache.map.size : Int) ≤ maxSize
  sound : ∀ key, step.1 = .get key → ∀ value, (journal.cache.get key step.2).1 = some value →
    ∃ entry, stored journal.events key = some entry ∧ entry.value = value ∧ step.2 ≤ entry.expiresAt
  complete : ∀ key, step.1 = .get key → ∀ entry, stored journal.events key = some entry →
    step.2 ≤ entry.expiresAt → ((usedSince journal.events key).dedup.length : Int) < maxSize →
      (journal.cache.get key step.2).1 = some entry.value
  dropped : ∀ key entry, journal.cache.map.lookup key = some entry →
    (journal.after step).cache.map.lookup key = none → Dropped journal key entry step

-- The cache follows its history.
structure Follows (maxSize : Int) (journal : Journal κ ν) : Prop where
  maxSize_eq : journal.cache.maxSize = maxSize
  bounded : (journal.cache.map.size : Int) ≤ maxSize
  held : ∀ key entry, journal.cache.map.lookup key = some entry →
    stored journal.events key = some entry
  -- The entries stand in the order of their last use.
  order : journal.cache.map.keys.Pairwise fun key later => later ∈ usedSince journal.events key
  present : ∀ key entry, stored journal.events key = some entry →
    (∀ event ∈ journal.events, event.now ≤ entry.expiresAt) →
    ((usedSince journal.events key).dedup.length : Int) < maxSize →
      journal.cache.map.lookup key = some entry

section

variable {event : Event κ ν} {events : List (Event κ ν)} {key other : κ} {keys : List κ}

theorem usedSince_self (h : event.used = some key) : usedSince (event :: events) key = [] := by
  rw [usedSince, List.takeWhile_cons_of_neg (by simp [h])]
  rfl

theorem usedSince_of_none (h : event.used = none) :
    usedSince (event :: events) key = usedSince events key := by
  rw [usedSince, List.takeWhile_cons_of_pos (by simp [h]), List.filterMap_cons, h]
  rfl

theorem usedSince_of_ne (h : event.used = some other) (hne : other ≠ key) :
    usedSince (event :: events) key = other :: usedSince events key := by
  rw [usedSince, List.takeWhile_cons_of_pos (by simp [h, hne]), List.filterMap_cons, h]
  rfl

theorem length_dedup_le {left right : List κ} (h : left ⊆ right) :
    left.dedup.length ≤ right.dedup.length := by
  refine (List.Nodup.subperm (List.nodup_dedup left) fun key hm => ?_).length_le
  exact List.mem_dedup.mpr (h (List.mem_dedup.mp hm))

-- The keys of a map that keep their places keep their order.
theorem order_of_unused (h : keys.Pairwise fun key later => later ∈ usedSince events key)
    (hused : event.used = none) {kept : List κ} (hkept : kept.Sublist keys) :
    kept.Pairwise fun key later => later ∈ usedSince (event :: events) key := by
  simp only [usedSince_of_none hused]
  exact h.sublist hkept

-- The key that is used comes last.
theorem order_of_used (h : keys.Pairwise fun key later => later ∈ usedSince events key)
    (hused : event.used = some key) :
    (keys.filter (· ≠ key) ++ [key]).Pairwise fun key later =>
      later ∈ usedSince (event :: events) key := by
  have hgrows : ∀ other ∈ keys.filter (· ≠ key),
      usedSince (event :: events) other = key :: usedSince events other := by
    intro other hm
    exact usedSince_of_ne hused (Ne.symm (of_decide_eq_true (List.mem_filter.mp hm).2))
  refine List.pairwise_append.mpr ⟨?_, List.pairwise_singleton .., fun other hm last hlast => ?_⟩
  · refine (h.sublist (List.filter_sublist ..)).imp_of_mem fun hm _ hlater => ?_
    rw [hgrows _ hm]
    exact List.mem_cons_of_mem _ hlater
  · rw [hgrows other hm, List.mem_singleton.mp hlast]
    exact List.mem_cons_self

variable {maxSize : Int} {cache cache' : MemoryCache κ ν} {journal : Journal κ ν}

-- An event that uses no key leaves the entries that are kept in their order.
theorem Follows.of_unused (h : Follows maxSize ⟨cache, events⟩) (hused : event.used = none)
    (hmax : cache'.maxSize = cache.maxSize) (hkeys : cache'.map.keys.Sublist cache.map.keys)
    (hheld : ∀ key entry, cache'.map.lookup key = some entry →
      stored (event :: events) key = some entry)
    (hpresent : ∀ key entry, stored (event :: events) key = some entry →
      event.now ≤ entry.expiresAt →
      stored events key = some entry ∧ cache'.map.lookup key = cache.map.lookup key) :
    Follows maxSize ⟨cache', event :: events⟩ := by
  refine ⟨hmax.trans h.maxSize_eq, ?_, hheld, order_of_unused h.order hused hkeys, ?_⟩
  · have hlength := hkeys.length_le
    have hbounded : (cache.map.size : Int) ≤ maxSize := h.bounded
    rw [LinkedHashMap.length_keys, LinkedHashMap.length_keys] at hlength
    simp only
    omega
  · intro key entry hstored hnow hfew
    simp only [usedSince_of_none hused] at hfew
    obtain ⟨hnow, hearlier⟩ := List.forall_mem_cons.mp hnow
    obtain ⟨hstored, hlookup⟩ := hpresent key entry hstored hnow
    exact hlookup.trans (h.present key entry hstored hearlier hfew)

-- An event that uses a key makes it the last one.
theorem Follows.of_used (h : Follows maxSize ⟨cache, events⟩) (hused : event.used = some key)
    (hmax : cache'.maxSize = cache.maxSize) (hbounded : (cache'.map.size : Int) ≤ maxSize)
    (hkeys : cache'.map.keys.Sublist (cache.map.keys.filter (· ≠ key) ++ [key]))
    (hheld : ∀ key entry, cache'.map.lookup key = some entry →
      stored (event :: events) key = some entry)
    (hself : ∀ entry, stored (event :: events) key = some entry → 0 < maxSize →
      cache'.map.lookup key = some entry)
    (hothers : ∀ other, other ≠ key → stored (event :: events) other = stored events other ∧
      (cache'.map.lookup other = cache.map.lookup other ∨
        maxSize ≤ ((key :: usedSince events other).dedup.length : Int))) :
    Follows maxSize ⟨cache', event :: events⟩ := by
  refine ⟨hmax.trans h.maxSize_eq, hbounded, hheld, (order_of_used h.order hused).sublist hkeys, ?_⟩
  intro other entry hstored hnow hfew
  obtain ⟨-, hearlier⟩ := List.forall_mem_cons.mp hnow
  by_cases hother : other = key
  · subst hother
    simp only [usedSince_self hused] at hfew
    exact hself entry hstored hfew
  · obtain ⟨hsame, hkept⟩ := hothers other hother
    simp only [usedSince_of_ne hused (Ne.symm hother)] at hfew
    have hkept := hkept.resolve_right (Int.not_le.mpr hfew)
    have hcount := length_dedup_le (List.subset_cons_self key (usedSince events other))
    rw [hsame] at hstored
    exact hkept.trans (h.present other entry hstored hearlier (by simp only; omega))

theorem Follows.after_get (h : Follows maxSize ⟨cache, events⟩) (key : κ) (now : Int) :
    Follows maxSize (Journal.after ⟨cache, events⟩ (.get key, now)) := by
  simp only [Journal.after, perform]
  rcases get_cases cache key now with
    ⟨hnone, hget⟩ | ⟨entry, hentry, ⟨hexpired, hget⟩ | ⟨hlive, hget⟩⟩
  · rw [hget]
    exact h.of_unused rfl rfl (List.Sublist.refl _) h.held fun key entry hstored _ => ⟨hstored, rfl⟩
  · rw [hget]
    refine h.of_unused rfl rfl ?_ (fun other held hheld => ?_) fun other held hstored hnow =>
      ⟨hstored, ?_⟩
    · rw [LinkedHashMap.keys_remove]
      exact List.filter_sublist ..
    · rw [LinkedHashMap.lookup_remove] at hheld
      split_ifs at hheld
      exact h.held other held hheld
    · -- The entry that is gone has expired, so it is not one that is still to be returned.
      rw [LinkedHashMap.lookup_remove, if_neg]
      rintro rfl
      have hsame : stored events other = some entry := h.held other entry hentry
      obtain rfl := Option.some.inj (hsame.symm.trans hstored)
      simp only at hnow
      omega
  · rw [hget]
    have hsame : stored events key = some entry := h.held key entry hentry
    refine h.of_used rfl rfl ?_ ?_ (fun other held hheld => ?_) (fun held hstored _ => ?_)
      fun other hother => ⟨rfl, Or.inl ?_⟩
    · simp only [LinkedHashMap.size_put_of_lookup hentry]
      exact h.bounded
    · rw [LinkedHashMap.keys_put]
    · rw [LinkedHashMap.lookup_put] at hheld
      split_ifs at hheld with hother
      · rw [hother, ← hheld]
        exact hsame
      · exact h.held other held hheld
    · rw [LinkedHashMap.lookup_put, if_pos rfl, ← hsame]
      exact hstored
    · rw [LinkedHashMap.lookup_put, if_neg hother]

theorem Follows.after_remove (h : Follows maxSize ⟨cache, events⟩) (key : κ) (now : Int) :
    Follows maxSize (Journal.after ⟨cache, events⟩ (.remove key, now)) := by
  simp only [Journal.after, perform, remove]
  refine h.of_unused rfl rfl ?_ (fun other held hheld => ?_) fun other held hstored _ => ?_
  · rw [LinkedHashMap.keys_remove]
    exact List.filter_sublist ..
  · rw [LinkedHashMap.lookup_remove] at hheld
    split_ifs at hheld with hother
    simp only [stored, if_neg (Ne.symm hother)]
    exact h.held other held hheld
  · by_cases hother : key = other
    · simp [stored, hother] at hstored
    · simp only [stored, if_neg hother] at hstored
      exact ⟨hstored, by rw [LinkedHashMap.lookup_remove, if_neg (Ne.symm hother)]⟩

-- All other keys have been used since the eldest one was.
theorem Follows.later_used (h : Follows maxSize ⟨cache, events⟩) {eldest : κ} {rest : List κ}
    (hrest : cache.map.keys = eldest :: rest) :
    ∀ later ∈ rest, later ∈ usedSince events eldest := by
  have horder := h.order
  simp only [hrest] at horder
  exact (List.pairwise_cons.mp horder).1

theorem Follows.used_of_eldest (h : Follows maxSize ⟨cache, events⟩) {eldest : κ}
    (heldest : cache.map.eldest = some eldest) {held : Entry ν}
    (hother : cache.map.lookup other = some held) (hne : other ≠ eldest) :
    other ∈ usedSince events eldest := by
  have hm : other ∈ cache.map.keys := (cache.map.mem_keys_iff other).mpr ⟨held, hother⟩
  obtain ⟨rest, hrest⟩ := LinkedHashMap.keys_of_eldest heldest
  rw [hrest] at hm
  exact h.later_used hrest other ((List.mem_cons.mp hm).resolve_left hne)

-- The eldest entry of a full map has seen as many other keys as the map has entries.
theorem Follows.full_of_eldest (h : Follows maxSize ⟨cache, events⟩) {new eldest : κ}
    (hnew : cache.map.lookup new = none) (hfull : maxSize ≤ cache.map.size)
    (heldest : cache.map.eldest = some eldest) :
    maxSize ≤ ((new :: usedSince events eldest).dedup.length : Int) := by
  have hnodup := cache.map.nodup_keys
  have hlength := cache.map.length_keys
  have hnew' : new ∉ cache.map.keys := (cache.map.lookup_eq_none_iff new).mp hnew
  obtain ⟨rest, hrest⟩ := LinkedHashMap.keys_of_eldest heldest
  rw [hrest] at hnodup hlength hnew'
  have hdistinct : (new :: rest).Nodup :=
    List.nodup_cons.mpr ⟨fun hm => hnew' (List.mem_cons_of_mem _ hm), (List.nodup_cons.mp hnodup).2⟩
  have hsubset : new :: rest ⊆ new :: usedSince events eldest :=
    List.cons_subset_cons new (h.later_used hrest)
  have hcount := length_dedup_le hsubset
  rw [List.dedup_eq_self.mpr hdistinct] at hcount
  simp only [List.length_cons] at hcount hlength
  omega

-- A new key is the eldest one only in an empty map.
theorem eldest_ne_new {key : κ} (hnew : cache.map.lookup key = none) (hsize : 0 < cache.map.size) :
    cache.map.eldest.getD key ≠ key := by
  cases heldest : cache.map.eldest with
  | none =>
      rw [LinkedHashMap.size_eq_zero_of_eldest heldest] at hsize
      omega
  | some eldest =>
      rw [Option.getD_some]
      rintro rfl
      obtain ⟨rest, hrest⟩ := LinkedHashMap.keys_of_eldest heldest
      refine (cache.map.lookup_eq_none_iff eldest).mp hnew ?_
      change eldest ∈ cache.map.keys
      rw [hrest]
      exact List.mem_cons_self

theorem Follows.after_put (h : Follows maxSize ⟨cache, events⟩) (key : κ) (value : ν)
    (ttlMs now : Int) (hrange : -2 ^ 63 ≤ now + ttlMs ∧ now + ttlMs < 2 ^ 63) :
    Follows maxSize (Journal.after ⟨cache, events⟩ (.put key value ttlMs, now)) := by
  have hbounded : (cache.map.size : Int) ≤ maxSize := h.bounded
  have hmax : cache.maxSize = maxSize := h.maxSize_eq
  simp only [Journal.after, perform, put, wrapLong_of_mem hrange.1 hrange.2]
  generalize hevent : (⟨.put key value ttlMs, now, none⟩ : Event κ ν) = event
  have hused : event.used = some key := by
    rw [← hevent]
    rfl
  have hself : stored (event :: events) key = some ⟨value, now + ttlMs⟩ := by
    simp [← hevent, stored]
  have hothers : ∀ other, other ≠ key → stored (event :: events) other = stored events other := by
    intro other hother
    simp [← hevent, stored, Ne.symm hother]
  have hput : ∀ other held, (cache.map.put key ⟨value, now + ttlMs⟩).lookup other = some held →
      stored (event :: events) other = some held := by
    intro other held hheld
    rw [LinkedHashMap.lookup_put] at hheld
    split_ifs at hheld with hother
    · rw [hother, hself]
      exact hheld
    · rw [hothers other hother]
      exact h.held other held hheld
  have hplaced : ((cache.map.put key ⟨value, now + ttlMs⟩).size : Int) ≤ maxSize →
      Follows maxSize ⟨{ cache with map := cache.map.put key ⟨value, now + ttlMs⟩ },
        event :: events⟩ := by
    intro hsize
    refine h.of_used hused rfl hsize (by rw [LinkedHashMap.keys_put]) hput (fun held hheld _ => ?_)
      fun other hother => ⟨hothers other hother, Or.inl ?_⟩
    · rw [LinkedHashMap.lookup_put, if_pos rfl, ← hself]
      exact hheld
    · rw [LinkedHashMap.lookup_put, if_neg hother]
  rcases insert_cases cache key ⟨value, now + ttlMs⟩ with
    ⟨old, hold, hinsert⟩ | ⟨hnew, ⟨hroom, hinsert⟩ | ⟨hfull, hinsert⟩⟩
  · rw [hinsert]
    apply hplaced
    rwa [LinkedHashMap.size_put_of_lookup hold]
  · rw [hinsert]
    apply hplaced
    rw [(insert_new hnew ⟨value, now + ttlMs⟩).1]
    omega
  · obtain ⟨hsize, heldest⟩ := insert_new hnew ⟨value, now + ttlMs⟩
    rw [hinsert]
    refine h.of_used hused rfl ?_ ?_ (fun other held hheld => ?_) (fun held hheld hpositive => ?_)
      fun other hother => ⟨hothers other hother, ?_⟩
    · simp only [LinkedHashMap.size_removeEldest, hsize]
      omega
    · rw [LinkedHashMap.keys_removeEldest, LinkedHashMap.keys_put]
      exact List.tail_sublist _
    · rw [LinkedHashMap.lookup_removeEldest] at hheld
      split_ifs at hheld
      exact hput other held hheld
    · have hne : ¬some (cache.map.eldest.getD key) = some key :=
        fun he => eldest_ne_new hnew (by omega) (Option.some.inj he)
      rw [LinkedHashMap.lookup_removeEldest, heldest, if_neg hne, LinkedHashMap.lookup_put,
        if_pos rfl, ← hself]
      exact hheld
    · rw [LinkedHashMap.lookup_removeEldest, heldest]
      cases hfirst : cache.map.eldest with
      | none =>
          refine Or.inl ?_
          rw [Option.getD_none, if_neg (fun he => hother (Option.some.inj he).symm),
            LinkedHashMap.lookup_put, if_neg hother]
      | some eldest =>
          by_cases heq : eldest = other
          · subst heq
            exact Or.inr (h.full_of_eldest hnew (by omega) hfirst)
          · refine Or.inl ?_
            rw [Option.getD_some, if_neg (fun he => heq (Option.some.inj he)),
              LinkedHashMap.lookup_put, if_neg hother]

-- The cache after an operation still follows its history.
theorem Follows.after (h : Follows maxSize journal) (step : Operation κ ν × Int)
    (hrange : ∀ key value ttlMs, step.1 = .put key value ttlMs →
      -2 ^ 63 ≤ step.2 + ttlMs ∧ step.2 + ttlMs < 2 ^ 63) :
        Follows maxSize (journal.after step) := by
  obtain ⟨cache, events⟩ := journal
  obtain ⟨operation, now⟩ := step
  cases operation with
  | get key => exact h.after_get key now
  | put key value ttlMs => exact h.after_put key value ttlMs now (hrange key value ttlMs rfl)
  | remove key => exact h.after_remove key now

-- An entry is lost for one of the three reasons.
theorem Follows.dropped (h : Follows maxSize journal) (step : Operation κ ν × Int) {key : κ}
    {entry : Entry ν} (hheld : journal.cache.map.lookup key = some entry)
    (hgone : (journal.after step).cache.map.lookup key = none) :
    Dropped journal key entry step := by
  obtain ⟨cache, events⟩ := journal
  obtain ⟨operation, now⟩ := step
  simp only at hheld
  cases operation with
  | get read =>
      simp only [Journal.after, perform] at hgone
      rcases get_cases cache read now with ⟨-, hget⟩ | ⟨found, hfound, ⟨hexpired, hget⟩ | ⟨-, hget⟩⟩
      · rw [hget, hheld] at hgone
        cases hgone
      · rw [hget, LinkedHashMap.lookup_remove] at hgone
        by_cases hkey : key = read
        · subst hkey
          obtain rfl := Option.some.inj (hheld.symm.trans hfound)
          exact .expired now hexpired
        · rw [if_neg hkey, hheld] at hgone
          cases hgone
      · rw [hget, LinkedHashMap.lookup_put] at hgone
        split_ifs at hgone
        rw [hheld] at hgone
        cases hgone
  | remove removed =>
      simp only [Journal.after, perform, remove, LinkedHashMap.lookup_remove] at hgone
      by_cases hkey : key = removed
      · subst hkey
        exact .removed now
      · rw [if_neg hkey, hheld] at hgone
        cases hgone
  | put new value ttlMs =>
      simp only [Journal.after, perform, put] at hgone
      have hkept (entry' : Entry ν) : (cache.map.put new entry').lookup key ≠ none := by
        rw [LinkedHashMap.lookup_put]
        split_ifs
        · simp
        · simp [hheld]
      rcases insert_cases cache new ⟨value, wrapLong (now + ttlMs)⟩ with
        ⟨old, -, hinsert⟩ | ⟨hnew, ⟨-, hinsert⟩ | ⟨hfull, hinsert⟩⟩
      · rw [hinsert] at hgone
        exact absurd hgone (hkept _)
      · rw [hinsert] at hgone
        exact absurd hgone (hkept _)
      · obtain ⟨-, heldest⟩ := insert_new hnew ⟨value, wrapLong (now + ttlMs)⟩
        rw [hinsert, LinkedHashMap.lookup_removeEldest, heldest] at hgone
        split_ifs at hgone with hkey
        · cases hfirst : cache.map.eldest with
          | none =>
              rw [hfirst, Option.getD_none] at hkey
              obtain rfl := Option.some.inj hkey
              rw [hheld] at hnew
              cases hnew
          | some eldest =>
              rw [hfirst, Option.getD_some] at hkey
              obtain rfl := Option.some.inj hkey
              have hbounded : (cache.map.size : Int) ≤ maxSize := h.bounded
              have hmax : cache.maxSize = maxSize := h.maxSize_eq
              exact .evicted new value ttlMs now hnew (by simp only; omega)
                fun other held hother hne => h.used_of_eldest hfirst hother hne
        · exact absurd hgone (hkept _)

-- The condition on a step: the clock has not gone back, and an expiry is a Long.
structure Timely (journal : Journal κ ν) (step : Operation κ ν × Int) : Prop where
  clock : ∀ event ∈ journal.events, event.now ≤ step.2
  expiry : ∀ key value ttlMs, step.1 = .put key value ttlMs →
    -2 ^ 63 ≤ step.2 + ttlMs ∧ step.2 + ttlMs < 2 ^ 63

theorem Follows.step (h : Follows maxSize journal) {step : Operation κ ν × Int}
    (hstep : Timely journal step) :
    BoundedLRU maxSize journal step ∧ Follows maxSize (journal.after step) := by
  have hafter := h.after step hstep.expiry
  refine ⟨⟨hafter.bounded, ?_, ?_, fun key entry => h.dropped step⟩, hafter⟩
  · intro key _ value hvalue
    rcases get_cases journal.cache key step.2 with
      ⟨-, hget⟩ | ⟨entry, hentry, ⟨-, hget⟩ | ⟨hlive, hget⟩⟩
    · rw [hget] at hvalue
      cases hvalue
    · rw [hget] at hvalue
      cases hvalue
    · rw [hget] at hvalue
      exact ⟨entry, h.held key entry hentry, Option.some.inj hvalue, hlive⟩
  · intro key _ entry hstored hlive hfew
    have hentry : journal.cache.map.lookup key = some entry :=
      h.present key entry hstored (fun event hm => Int.le_trans (hstep.clock event hm) hlive) hfew
    rw [get_fst, live, hentry]
    simp only
    rw [if_neg (by omega)]

theorem along_timely {steps : List (Operation κ ν × Int)}
    (hearlier : ∀ event ∈ journal.events, ∀ step ∈ steps, event.now ≤ step.2)
    (hclock : (steps.map Prod.snd).Pairwise (· ≤ ·))
    (hrange : ∀ step ∈ steps, ∀ key value ttlMs, step.1 = .put key value ttlMs →
      -2 ^ 63 ≤ step.2 + ttlMs ∧ step.2 + ttlMs < 2 ^ 63) :
        Along Journal.after Timely journal steps := by
  induction steps generalizing journal with
  | nil => trivial
  | cons step steps ih =>
      rw [List.map_cons, List.pairwise_cons] at hclock
      obtain ⟨hexpiry, hrange⟩ := List.forall_mem_cons.mp hrange
      refine ⟨⟨fun event hm => hearlier event hm step List.mem_cons_self, hexpiry⟩,
        ih ?_ hclock.2 hrange⟩
      refine List.forall_mem_cons.mpr
        ⟨fun later hm => hclock.1 _ (List.mem_map.mpr ⟨later, hm, rfl⟩), ?_⟩
      exact fun event hm later hlater => hearlier event hm later (List.mem_cons_of_mem _ hlater)

theorem follows_empty (hmax : 0 ≤ maxSize) :
    Follows maxSize ({ cache := { maxSize } } : Journal κ ν) :=
  ⟨rfl, hmax, fun key entry hentry => by simp at hentry, .nil, fun key entry hstored => by
    simp [stored] at hstored⟩

end

-- Every run of a cache from its creation, by a clock that does not go back.
def RunsBounded (maxSize : Int) (cache : MemoryCache κ ν) : Prop :=
  ∀ steps : List (Operation κ ν × Int), (steps.map Prod.snd).Pairwise (· ≤ ·) →
    (∀ step ∈ steps, ∀ key value ttlMs, step.1 = .put key value ttlMs →
      -2 ^ 63 ≤ step.2 + ttlMs ∧ step.2 + ttlMs < 2 ^ 63) →
    Along Journal.after (BoundedLRU maxSize) { cache } steps

theorem runsBounded_empty {maxSize : Int} (hmin : 0 ≤ maxSize) :
    RunsBounded maxSize ({ maxSize } : MemoryCache κ ν) := fun _ hclock hrange =>
  Along.of_invariant (I := Follows maxSize) (fun _ _ h hstep => h.step hstep) (follows_empty hmin)
    (along_timely (by simp) hclock hrange)

omit [DecidableEq κ] in
-- There is no room for one more entry than the largest Int.
theorem construct_of_nonneg {maxSize : Int} (hmin : 0 ≤ maxSize) (hmax : maxSize < 2 ^ 31) :
    (construct maxSize : Except Throwable (MemoryCache κ ν)) =
      if maxSize < 2 ^ 31 - 1 then .ok { maxSize }
      else .error ⟨.illegalArgumentException,
        some (str "Illegal initial capacity: " ++ decimalInt (-2 ^ 31)), []⟩ := by
  unfold construct
  split_ifs with hroom
  · have hcapacity : wrapInt (maxSize + 1) = maxSize + 1 := wrapInt_of_mem (by omega) (by omega)
    simp only [hcapacity]
    rw [if_neg (by omega)]
  · obtain rfl : maxSize = 2 ^ 31 - 1 := by omega
    rfl

-- A cache of any size but the largest Int can be made, and keeps to its bound ever after.
theorem construct_runsBounded_iff (maxSize : Int) (hmin : 0 ≤ maxSize) (hmax : maxSize < 2 ^ 31) :
    (∃ cache : MemoryCache κ ν, construct maxSize = .ok cache ∧ RunsBounded maxSize cache) ↔
      maxSize < 2 ^ 31 - 1 := by
  rw [construct_of_nonneg hmin hmax]
  by_cases hroom : maxSize < 2 ^ 31 - 1
  · rw [if_pos hroom]
    exact iff_of_true ⟨_, rfl, runsBounded_empty hmin⟩ hroom
  · rw [if_neg hroom]
    refine iff_of_false ?_ hroom
    rintro ⟨cache, hcache, -⟩
    cases hcache

-- The key 1 is read after 2 is put, so the third key pushes 2 out. In the end 1 has expired.
def thirdKey : List (Operation Nat Nat × Int) :=
  [(.put 1 10 100, 0), (.put 2 20 100, 1), (.get 1, 2), (.put 3 30 100, 3), (.get 1, 100),
    (.get 1, 101)]

theorem construct_runsBounded_thirdKey :
    ∃ cache : MemoryCache Nat Nat, construct 2 = .ok cache ∧
      Along Journal.after (BoundedLRU 2) { cache } thirdKey ∧
      (thirdKey.foldl Journal.after { cache }).cache.map.keys = [3] := by
  obtain ⟨cache, hcache, hruns⟩ :=
    (construct_runsBounded_iff (κ := Nat) (ν := Nat) 2 (by decide) (by decide)).mpr (by decide)
  refine ⟨cache, hcache, hruns thirdKey (by decide) fun step hm => ?_, ?_⟩
  · simp only [thirdKey, List.mem_cons, List.not_mem_nil, or_false] at hm
    rcases hm with rfl | rfl | rfl | rfl | rfl | rfl
    all_goals simp
  · obtain rfl := Except.ok.inj hcache
    decide

-- A cache of the largest Int cannot be made.
theorem construct_refuses_largest :
    ¬∀ maxSize : Int, 0 ≤ maxSize → maxSize < 2 ^ 31 →
      ∃ cache : MemoryCache Nat Nat, construct maxSize = .ok cache ∧ RunsBounded maxSize cache := by
  intro h
  obtain ⟨cache, hcache, -⟩ := h 2147483647 (by decide) (by decide)
  rw [construct_of_nonneg (by decide) (by decide), if_neg (by decide)] at hcache
  cases hcache

end MemoryCache

end Ytdlpdroid
