import Ytdlpdroid.Cache.DiskCache

namespace Ytdlpdroid

open Text Collections Concurrent

namespace DiskCache

theorem encode_ne_nil {text : Str} (h : text ≠ []) : 0 < (Utf8.encode text).length := by
  cases text with
  | nil => exact absurd rfl h
  | cons c rest =>
      have hc : 0 < (Utf8.encodeChar c).length := by
        unfold Utf8.encodeChar
        simp only
        split_ifs <;> simp
      simp only [Utf8.encode, List.flatMap_cons, List.length_append]
      omega

-- What a get finds is the text of a file that is not empty.
theorem get_eq_some {dir : Directory} {key text : Str} (h : get dir key = some text) :
    ∃ file, dir.files.lookup (fileFor key) = some file ∧ 0 < file.bytes.length ∧
      readText file = text := by
  unfold get at h
  cases hf : dir.files.lookup (fileFor key) with
  | none => simp [hf] at h
  | some file =>
      simp only [hf, Option.ite_none_right_eq_some, Option.some.injEq] at h
      exact ⟨file, rfl, h.1, h.2⟩

theorem get_of_lookup {dir : Directory} {key : Str} {file : CacheFile}
    (h : dir.files.lookup (fileFor key) = some file) (hne : 0 < file.bytes.length) :
    get dir key = some (readText file) := by
  simp [get, h, hne]

theorem appendAll_stopAfter_lookup (name : Str) (now : Int) (bytes written : List UInt8)
    (count : Nat) (dir : Directory) (h : dir.files.lookup name = some ⟨written, now⟩)
    (other : Str) :
    ((appendAll name now bytes).stopAfter count dir).files.lookup other =
      if other = name then some ⟨written ++ bytes.take count, now⟩ else dir.files.lookup other := by
  induction count generalizing bytes written dir with
  | zero =>
      by_cases ho : other = name
      · simp [Prog.stopAfter, ho, h]
      · simp [Prog.stopAfter, ho]
  | succ count ih =>
      cases bytes with
      | nil =>
          by_cases ho : other = name
          · simp [appendAll, Prog.stopAfter, ho, h]
          · simp [appendAll, Prog.stopAfter, ho]
      | cons byte rest =>
          change ((appendAll name now rest).stopAfter count _).files.lookup other = _
          simp only [h]
          rw [ih rest (written ++ [byte]) _ (by simp)]
          by_cases ho : other = name
          · simp [ho]
          · simp [ho]

-- The first access makes the directory, the second cuts the file, each later one adds a byte.
theorem put_stopAfter_lookup (key value : Str) (now : Int) (count : Nat) (dir : Directory)
    (other : Str) :
    ((put key value now).stopAfter count dir).files.lookup other =
      if 2 ≤ count ∧ other = fileFor key then some ⟨(Utf8.encode value).take (count - 2), now⟩
      else dir.files.lookup other := by
  match count with
  | 0 => rfl
  | 1 => rfl
  | count + 2 =>
      change ((appendAll (fileFor key) now (Utf8.encode value)).stopAfter count
        { present := true, files := dir.files.put (fileFor key) ⟨[], now⟩ }).files.lookup other = _
      rw [appendAll_stopAfter_lookup _ _ _ [] _ _ (by simp)]
      by_cases ho : other = fileFor key <;> simp [ho]

theorem put_run_lookup (key value : Str) (now : Int) (dir : Directory) (other : Str) :
    ((put key value now).run dir).2.files.lookup other =
      if other = fileFor key then some ⟨Utf8.encode value, now⟩ else dir.files.lookup other := by
  obtain ⟨least, h⟩ := (put key value now).stopAfter_run dir
  have hlen := Nat.le_max_right least ((Utf8.encode value).length + 2)
  rw [← h _ (Nat.le_max_left least ((Utf8.encode value).length + 2)), put_stopAfter_lookup]
  rw [List.take_of_length_le (by omega)]
  simp only [show 2 ≤ max least ((Utf8.encode value).length + 2) by omega, true_and]

theorem appendAll_run_ok (name : Str) (now : Int) (bytes : List UInt8) (dir : Directory) :
    ((appendAll name now bytes).run dir).1 = .ok () := by
  induction bytes generalizing dir with
  | nil => rfl
  | cons byte rest ih => exact ih _

theorem put_run_ok (key value : Str) (now : Int) (dir : Directory) :
    ((put key value now).run dir).1 = .ok () := appendAll_run_ok _ _ _ _

theorem foldl_remove_lookup {names : List (Str × CacheFile)} {files : LinkedHashMap Str CacheFile}
    {name : Str} {file : CacheFile}
    (h : (names.foldl (fun files entry => files.remove entry.1) files).lookup name = some file) :
    files.lookup name = some file := by
  induction names generalizing files with
  | nil => exact h
  | cons entry rest ih =>
      have hr := ih h
      rw [LinkedHashMap.lookup_remove] at hr
      split_ifs at hr
      exact hr

-- Eviction makes and changes no file.
theorem evictBeyond_lookup {dir after : Directory} {keepNewest : Int}
    (h : evictBeyond dir keepNewest = .ok after) {name : Str} {file : CacheFile}
    (hf : after.files.lookup name = some file) : dir.files.lookup name = some file := by
  unfold evictBeyond at h
  split_ifs at h
  · obtain rfl := Except.ok.inj h
    exact hf
  · obtain rfl := Except.ok.inj h
    exact foldl_remove_lookup hf

end DiskCache

end Ytdlpdroid
