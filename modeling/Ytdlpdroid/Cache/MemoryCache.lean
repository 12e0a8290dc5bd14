import Ytdlpdroid.Collections.LinkedHashMap
import Ytdlpdroid.Model.Numbers

namespace Ytdlpdroid

open Text Collections

structure Entry (ν : Type) where
  value : ν
  expiresAt : Int

-- The map holds its entries in access order. `maxSize` is fixed when the cache is built.
structure MemoryCache (κ ν : Type) where
  maxSize : Int
  map : LinkedHashMap κ (Entry ν) := .empty

namespace MemoryCache

variable {κ ν : Type} [DecidableEq κ]

-- The map is made for `maxSize + 1` entries, an Int, and refuses a negative capacity.
def construct (maxSize : Int) : Except Throwable (MemoryCache κ ν) :=
  let initialCapacity := wrapInt (maxSize + 1)
  if initialCapacity < 0 then
    .error ⟨.illegalArgumentException,
      some (str "Illegal initial capacity: " ++ decimalInt initialCapacity), []⟩
  else .ok { maxSize }

-- `now` is the clock reading, which `get` makes only when the key has an entry.
def get (cache : MemoryCache κ ν) (key : κ) (now : Int) : Option ν × MemoryCache κ ν :=
  match cache.map.get key with
  | (none, map) => (none, { cache with map })
  | (some entry, map) =>
      if entry.expiresAt < now then (none, { cache with map := map.remove key })
      else (some entry.value, { cache with map })

-- `removeEldestEntry` is asked only after the insertion of a new key.
def insert (cache : MemoryCache κ ν) (key : κ) (entry : Entry ν) : MemoryCache κ ν :=
  let map := cache.map.put key entry
  if (cache.map.lookup key).isNone ∧ cache.maxSize < map.size then
    { cache with map := map.removeEldest }
  else { cache with map }

def put (cache : MemoryCache κ ν) (key : κ) (value : ν) (ttlMs now : Int) : MemoryCache κ ν :=
  cache.insert key { value, expiresAt := wrapLong (now + ttlMs) }

def remove (cache : MemoryCache κ ν) (key : κ) : MemoryCache κ ν :=
  { cache with map := cache.map.remove key }

-- The entry a `get` at `now` would return.
def live (cache : MemoryCache κ ν) (key : κ) (now : Int) : Option ν :=
  match cache.map.lookup key with
  | none => none
  | some entry => if entry.expiresAt < now then none else some entry.value

theorem get_fst (cache : MemoryCache κ ν) (key : κ) (now : Int) :
    (cache.get key now).1 = cache.live key now := by
  unfold get live LinkedHashMap.get
  cases cache.map.lookup key with
  | none => rfl
  | some entry =>
      simp only
      split_ifs <;> rfl

-- No operation makes an entry: each one a read leaves was there before.
theorem lookup_get (cache : MemoryCache κ ν) (key other : κ) (now : Int) (entry : Entry ν)
    (h : (cache.get key now).2.map.lookup other = some entry) :
    cache.map.lookup other = some entry := by
  have hg := cache.map.lookup_get key other
  unfold get at h
  rcases hm : cache.map.get key with ⟨found, map⟩
  rw [hm] at h hg
  cases found with
  | none => exact hg ▸ h
  | some old =>
      simp only at h hg
      split_ifs at h
      · rw [LinkedHashMap.lookup_remove] at h
        split_ifs at h
        exact hg ▸ h
      · exact hg ▸ h

-- A read removes at most its own entry, and only one that has expired.
theorem lookup_get_of_ne_or_live (cache : MemoryCache κ ν) {key other : κ} {now : Int}
    {entry : Entry ν} (hentry : cache.map.lookup key = some entry)
    (h : other ≠ key ∨ now ≤ entry.expiresAt) :
    (cache.get key now).2.map.lookup other = cache.map.lookup other := by
  have hkept := cache.map.lookup_get key other
  unfold get LinkedHashMap.get at *
  rw [hentry] at hkept ⊢
  simp only at hkept ⊢
  split_ifs with hexpired
  · have hne : other ≠ key := h.resolve_right (by omega)
    rw [LinkedHashMap.lookup_remove, if_neg hne]
    exact hkept
  · exact hkept

-- A read that finds nothing leaves no entry under its key.
theorem lookup_get_self (cache : MemoryCache κ ν) (key : κ) (now : Int)
    (h : (cache.get key now).1 = none) :
    (cache.get key now).2.map.lookup key = none := by
  have hfound := cache.map.get_fst key
  have hkept := cache.map.lookup_get key key
  unfold get at h ⊢
  rcases hm : cache.map.get key with ⟨found, map⟩
  rw [hm] at h hfound hkept
  cases found with
  | none => exact hkept.trans hfound.symm
  | some entry =>
      simp only at h ⊢
      split_ifs at h with hexpired
      rw [if_pos hexpired]
      simp

-- The key that a full cache gives up for a new one: the eldest, or the new one itself if
-- there is no other.
def evicted (cache : MemoryCache κ ν) (key : κ) : Option κ :=
  if (cache.map.lookup key).isNone ∧ cache.maxSize < cache.map.size + 1 then
    some (cache.map.eldest.getD key)
  else none

theorem insert_new {cache : MemoryCache κ ν} {key : κ} (h : cache.map.lookup key = none)
    (entry : Entry ν) :
    (cache.map.put key entry).size = cache.map.size + 1 ∧
      (cache.map.put key entry).eldest = some (cache.map.eldest.getD key) := by
  have hentries := LinkedHashMap.entries_put_of_lookup_none h entry
  unfold LinkedHashMap.size LinkedHashMap.eldest
  rw [hentries]
  cases cache.map.entries <;> simp

-- An insertion leaves all other keys alone but the one evicted.
theorem lookup_insert (cache : MemoryCache κ ν) (key other : κ) (entry : Entry ν) :
    (cache.insert key entry).map.lookup other =
      if cache.evicted key = some other then none
      else if other = key then some entry else cache.map.lookup other := by
  unfold insert evicted
  cases hkey : cache.map.lookup key with
  | some old => simp
  | none =>
      obtain ⟨hsize, heldest⟩ := insert_new hkey entry
      by_cases hfull : cache.maxSize < cache.map.size + 1
      · have hput : cache.maxSize < ((cache.map.put key entry).size : Int) := by omega
        simp only [Option.isNone_none, true_and, hput, hfull, ite_true,
          LinkedHashMap.lookup_removeEldest, heldest, LinkedHashMap.lookup_put]
      · have hput : ¬cache.maxSize < ((cache.map.put key entry).size : Int) := by omega
        simp only [Option.isNone_none, true_and, hput, hfull, ite_false, LinkedHashMap.lookup_put,
          reduceCtorEq]

-- A cache with any room keeps the entry that it is given.
theorem evicted_ne_self (cache : MemoryCache κ ν) (key : κ) (h : 1 ≤ cache.maxSize) :
    cache.evicted key ≠ some key := by
  unfold evicted
  split_ifs with hfull
  · obtain ⟨hnew, hsize⟩ := hfull
    cases heldest : cache.map.eldest with
    | none =>
        have hempty := LinkedHashMap.size_eq_zero_of_eldest heldest
        omega
    | some old =>
        obtain ⟨rest, hkeys⟩ := LinkedHashMap.keys_of_eldest heldest
        obtain ⟨value, hold⟩ := (cache.map.mem_keys_iff old).mp (hkeys ▸ List.mem_cons_self)
        intro hself
        obtain rfl : old = key := Option.some.inj hself
        simp [hold] at hnew
  · simp

theorem maxSize_get (cache : MemoryCache κ ν) (key : κ) (now : Int) :
    (cache.get key now).2.maxSize = cache.maxSize := by
  unfold get
  split
  · rfl
  · split_ifs <;> rfl

-- A read finds no entry, an expired one, which it removes, or a live one, which it uses.
theorem get_cases (cache : MemoryCache κ ν) (key : κ) (now : Int) :
    cache.map.lookup key = none ∧ cache.get key now = (none, cache) ∨
      ∃ entry, cache.map.lookup key = some entry ∧
        (entry.expiresAt < now ∧ cache.get key now =
          (none, { cache with map := cache.map.remove key }) ∨
          now ≤ entry.expiresAt ∧
            cache.get key now =
              (some entry.value, { cache with map := cache.map.put key entry })) := by
  cases hentry : cache.map.lookup key with
  | none => exact Or.inl ⟨rfl, by simp only [get, LinkedHashMap.get, hentry]⟩
  | some entry =>
      refine Or.inr ⟨entry, rfl, ?_⟩
      simp only [get, LinkedHashMap.get, hentry, LinkedHashMap.remove_put]
      by_cases hexpired : entry.expiresAt < now
      · exact Or.inl ⟨hexpired, by rw [if_pos hexpired]⟩
      · exact Or.inr ⟨by omega, by rw [if_neg hexpired]⟩

-- An insertion replaces an entry, finds room, or pushes the eldest entry out.
theorem insert_cases (cache : MemoryCache κ ν) (key : κ) (entry : Entry ν) :
    (∃ old, cache.map.lookup key = some old ∧
        cache.insert key entry = { cache with map := cache.map.put key entry }) ∨
      cache.map.lookup key = none ∧
        (((cache.map.size : Int) < cache.maxSize ∧
            cache.insert key entry = { cache with map := cache.map.put key entry }) ∨
          cache.maxSize ≤ cache.map.size ∧
            cache.insert key entry =
              { cache with map := (cache.map.put key entry).removeEldest }) := by
  unfold insert
  cases hkey : cache.map.lookup key with
  | some old => exact Or.inl ⟨old, rfl, by simp⟩
  | none =>
      refine Or.inr ⟨rfl, ?_⟩
      have hsize := (insert_new hkey entry).1
      by_cases hfull : cache.maxSize < ((cache.map.put key entry).size : Int)
      · exact Or.inr ⟨by omega, by simp [hfull]⟩
      · exact Or.inl ⟨by omega, by simp [hfull]⟩

end MemoryCache

end Ytdlpdroid
