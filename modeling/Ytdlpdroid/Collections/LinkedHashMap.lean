import Mathlib.Data.List.Nodup

namespace Ytdlpdroid.Collections

-- A linked hash map in access order. The eldest entry comes first; the entry
-- used last comes last. No key occurs twice.
structure LinkedHashMap (κ ν : Type) where
  entries : List (κ × ν)
  nodup : (entries.map Prod.fst).Nodup

namespace LinkedHashMap

variable {κ ν : Type} [DecidableEq κ]

def empty : LinkedHashMap κ ν := ⟨[], List.nodup_nil⟩

def size (m : LinkedHashMap κ ν) : Nat := m.entries.length

def lookup (m : LinkedHashMap κ ν) (key : κ) : Option ν := m.entries.lookup key

def without (m : LinkedHashMap κ ν) (key : κ) : List (κ × ν) :=
  m.entries.filter fun entry => entry.1 ≠ key

omit [DecidableEq κ] in
theorem nodup_filter (m : LinkedHashMap κ ν) (p : κ × ν → Bool) :
    ((m.entries.filter p).map Prod.fst).Nodup :=
  (List.filter_sublist.map Prod.fst).nodup m.nodup

theorem nodup_without_append (m : LinkedHashMap κ ν) (key : κ) (value : ν) :
    ((m.without key ++ [(key, value)]).map Prod.fst).Nodup := by
  rw [List.map_append, List.nodup_append]
  refine ⟨m.nodup_filter _, List.nodup_singleton _, ?_⟩
  rintro other ho last hl rfl
  simp only [List.map_cons, List.map_nil, List.mem_singleton] at hl
  obtain ⟨entry, he, hk⟩ := List.mem_map.mp ho
  simp only [without, List.mem_filter, decide_eq_true_eq] at he
  exact he.2 (hk.trans hl)

def remove (m : LinkedHashMap κ ν) (key : κ) : LinkedHashMap κ ν :=
  ⟨m.without key, m.nodup_filter _⟩

-- The entry written becomes the one used last, new or not.
def put (m : LinkedHashMap κ ν) (key : κ) (value : ν) : LinkedHashMap κ ν :=
  ⟨m.without key ++ [(key, value)], m.nodup_without_append key value⟩

-- A successful read makes the entry the one used last.
def get (m : LinkedHashMap κ ν) (key : κ) : Option ν × LinkedHashMap κ ν :=
  match m.lookup key with
  | none => (none, m)
  | some value => (some value, m.put key value)

def removeEldest (m : LinkedHashMap κ ν) : LinkedHashMap κ ν :=
  ⟨m.entries.tail, ((List.tail_sublist _).map Prod.fst).nodup m.nodup⟩

@[simp] theorem get_fst (m : LinkedHashMap κ ν) (key : κ) : (m.get key).1 = m.lookup key := by
  unfold get
  split <;> simp [*]

theorem lookup_filter (entries : List (κ × ν)) (key other : κ) :
    (entries.filter fun entry => entry.1 ≠ key).lookup other =
      if other = key then none else entries.lookup other := by
  induction entries with
  | nil => simp
  | cons entry rest ih =>
      rcases entry with ⟨first, value⟩
      by_cases hk : first = key
      · rw [List.filter_cons_of_neg (by simp [hk]), ih]
        by_cases ho : other = key
        · simp only [ho, ite_true]
        · have hne : (other == first) = false := by simpa [hk] using ho
          simp only [ho, ite_false, List.lookup_cons, hne]
      · rw [List.filter_cons_of_pos (by simp [hk])]
        by_cases he : other = first
        · simp only [he, hk, ite_false, List.lookup_cons, beq_self_eq_true]
        · have hne : (other == first) = false := by simpa using he
          simp only [List.lookup_cons, hne, ih]

@[simp] theorem lookup_remove (m : LinkedHashMap κ ν) (key other : κ) :
    (m.remove key).lookup other = if other = key then none else m.lookup other :=
  lookup_filter m.entries key other

@[simp] theorem lookup_put (m : LinkedHashMap κ ν) (key other : κ) (value : ν) :
    (m.put key value).lookup other = if other = key then some value else m.lookup other := by
  unfold lookup put without
  rw [List.lookup_append, lookup_filter]
  by_cases ho : other = key
  · simp [ho]
  · have hne : (other == key) = false := by simpa using ho
    simp [ho, List.lookup_cons, hne]

-- Reading changes the order of the entries and nothing else.
@[simp] theorem lookup_get (m : LinkedHashMap κ ν) (key other : κ) :
    (m.get key).2.lookup other = m.lookup other := by
  unfold get
  split
  · rfl
  · rename_i value h
    rw [lookup_put]
    split_ifs with ho
    · rw [ho, h]
    · rfl

-- The key of the entry that was not used for the longest time.
def eldest (m : LinkedHashMap κ ν) : Option κ := m.entries.head?.map Prod.fst

theorem mem_entries_of_lookup {m : LinkedHashMap κ ν} {key : κ} {value : ν}
    (h : m.lookup key = some value) :
    (key, value) ∈ m.entries := by
  obtain ⟨before, after, he, -⟩ := List.lookup_eq_some_iff.mp h
  rw [he]
  exact List.mem_append_right _ List.mem_cons_self

theorem lookup_eq_none_iff (m : LinkedHashMap κ ν) (key : κ) :
    m.lookup key = none ↔ key ∉ m.entries.map Prod.fst := by
  unfold lookup
  rw [List.lookup_eq_none_iff]
  simp only [List.mem_map, not_exists, not_and, bne_iff_ne]
  exact ⟨fun h entry hm he => h entry hm he.symm, fun h entry hm he => h entry hm he.symm⟩

theorem lookup_removeEldest (m : LinkedHashMap κ ν) (key : κ) :
    m.removeEldest.lookup key = if m.eldest = some key then none else m.lookup key := by
  rcases m with ⟨entries, hn⟩
  cases entries with
  | nil => rfl
  | cons entry rest =>
      rcases entry with ⟨first, value⟩
      by_cases hk : first = key
      · subst hk
        rw [if_pos (by rfl), lookup_eq_none_iff]
        exact (List.nodup_cons.mp hn).1
      · have hne : (key == first) = false := by simpa using fun h => hk h.symm
        rw [if_neg (by simpa [eldest] using hk)]
        simp only [lookup, removeEldest, List.tail_cons, List.lookup_cons, hne]

-- A new key comes after all others.
theorem entries_put_of_lookup_none {m : LinkedHashMap κ ν} {key : κ} (h : m.lookup key = none)
    (value : ν) :
    (m.put key value).entries = m.entries ++ [(key, value)] := by
  have hne : ∀ entry ∈ m.entries, entry.1 ≠ key := by
    intro entry hm hkey
    exact (lookup_eq_none_iff m key).mp h (List.mem_map.mpr ⟨entry, hm, hkey⟩)
  have hall : m.without key = m.entries := by
    simpa [without, List.filter_eq_self] using hne
  change m.without key ++ [(key, value)] = m.entries ++ [(key, value)]
  rw [hall]

def keys (m : LinkedHashMap κ ν) : List κ := m.entries.map Prod.fst

omit [DecidableEq κ] in
@[simp] theorem length_keys (m : LinkedHashMap κ ν) : m.keys.length = m.size := List.length_map ..

omit [DecidableEq κ] in
theorem nodup_keys (m : LinkedHashMap κ ν) : m.keys.Nodup := m.nodup

theorem mem_keys_iff (m : LinkedHashMap κ ν) (key : κ) :
    key ∈ m.keys ↔ ∃ value, m.lookup key = some value := by
  rw [← Option.ne_none_iff_exists', ne_eq, lookup_eq_none_iff, not_not]
  rfl

theorem keys_remove (m : LinkedHashMap κ ν) (key : κ) :
    (m.remove key).keys = m.keys.filter (· ≠ key) := by
  rw [keys, keys, List.filter_map]
  rfl

theorem keys_put (m : LinkedHashMap κ ν) (key : κ) (value : ν) :
    (m.put key value).keys = m.keys.filter (· ≠ key) ++ [key] := by
  rw [← keys_remove, keys, keys, put, List.map_append]
  rfl

theorem keys_put_of_lookup_none {m : LinkedHashMap κ ν} {key : κ} (h : m.lookup key = none)
    (value : ν) :
    (m.put key value).keys = m.keys ++ [key] := by
  rw [keys, entries_put_of_lookup_none h, List.map_append]
  rfl

omit [DecidableEq κ] in
theorem keys_removeEldest (m : LinkedHashMap κ ν) : m.removeEldest.keys = m.keys.tail :=
  List.map_tail ..

omit [DecidableEq κ] in
theorem size_removeEldest (m : LinkedHashMap κ ν) : m.removeEldest.size = m.size - 1 :=
  List.length_tail ..

omit [DecidableEq κ] in
theorem size_eq_zero_of_eldest {m : LinkedHashMap κ ν} (h : m.eldest = none) : m.size = 0 := by
  unfold eldest at h
  rw [Option.map_eq_none_iff, List.head?_eq_none_iff] at h
  rw [size, h]
  rfl

omit [DecidableEq κ] in
theorem keys_of_eldest {m : LinkedHashMap κ ν} {key : κ} (h : m.eldest = some key) :
    ∃ rest, m.keys = key :: rest := by
  rw [eldest, ← List.head?_map] at h
  exact List.head?_eq_some_iff.mp h

-- What is written and then removed was not there.
theorem remove_put (m : LinkedHashMap κ ν) (key : κ) (value : ν) :
    (m.put key value).remove key = m.remove key := by
  have hentries : (m.put key value).without key = m.without key := by
    simp [put, without, List.filter_append, List.filter_filter]
  unfold remove
  simp only [hentries]

-- A key that is used takes its place at the end, and the map keeps its size.
theorem size_put_of_lookup {m : LinkedHashMap κ ν} {key : κ} {old : ν} (h : m.lookup key = some old)
    (value : ν) :
    (m.put key value).size = m.size := by
  have hm : key ∈ m.keys := (m.mem_keys_iff key).mpr ⟨old, h⟩
  have hfilter : m.keys.filter (· ≠ key) = m.keys.erase key := by
    rw [List.Nodup.erase_eq_filter m.nodup_keys]
    exact List.filter_congr fun other _ => by rw [bne, beq_eq_decide, decide_not]
  rw [← length_keys, keys_put, hfilter, List.length_append, List.length_singleton,
    List.length_erase_add_one hm, length_keys]

@[simp] theorem lookup_empty (key : κ) : (empty : LinkedHashMap κ ν).lookup key = none := rfl

end LinkedHashMap

end Ytdlpdroid.Collections
