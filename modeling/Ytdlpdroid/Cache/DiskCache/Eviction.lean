import Mathlib.Data.List.Nodup
import Ytdlpdroid.Cache.DiskCache.Runs

namespace Ytdlpdroid

open Text Collections Concurrent

namespace DiskCache

-- A file of this name, and not an empty one.
def Holds (dir : Directory) (name : Str) : Prop :=
  ∃ file, dir.files.lookup name = some file ∧ 0 < file.bytes.length

-- The other files that are no older than this one.
def rivals (dir : Directory) (name : Str) (file : CacheFile) : List (Str × CacheFile) :=
  dir.files.entries.filter fun entry => entry.1 ≠ name ∧ file.lastModified ≤ entry.2.lastModified

variable {dir : Directory} {name : Str} {file : CacheFile}

theorem foldl_remove_of_ne {names : List (Str × CacheFile)} {files : LinkedHashMap Str CacheFile}
    (h : ∀ entry ∈ names, entry.1 ≠ name) :
    (names.foldl (fun files entry => files.remove entry.1) files).lookup name =
      files.lookup name := by
  induction names generalizing files with
  | nil => rfl
  | cons entry rest ih =>
      obtain ⟨hentry, hrest⟩ := List.forall_mem_cons.mp h
      rw [List.foldl_cons, ih hrest, LinkedHashMap.lookup_remove, if_neg (Ne.symm hentry)]

-- In any order by date, newest first, only rivals come before a file.
theorem length_before_le {before after : List (Str × CacheFile)}
    (hperm : (before ++ (name, file) :: after).Perm dir.files.entries)
    (hsorted : (before ++ (name, file) :: after).Pairwise fun a b =>
      b.2.lastModified ≤ a.2.lastModified) :
    before.length ≤ (rivals dir name file).length ∧ ∀ entry ∈ after, entry.1 ≠ name := by
  have hnodup : ((before ++ (name, file) :: after).map Prod.fst).Nodup :=
    (hperm.map Prod.fst).nodup_iff.mpr dir.files.nodup
  rw [List.map_append, List.map_cons, List.nodup_append, List.nodup_cons] at hnodup
  obtain ⟨-, ⟨hafter, -⟩, hbefore⟩ := hnodup
  refine ⟨?_, fun entry hm he => hafter (List.mem_map.mpr ⟨entry, hm, he⟩)⟩
  have hall :
      ∀ entry ∈ before,
        decide (entry.1 ≠ name ∧ file.lastModified ≤ entry.2.lastModified) = true := by
    intro entry hm
    refine decide_eq_true ⟨?_, (List.pairwise_append.mp hsorted).2.2 entry hm _ List.mem_cons_self⟩
    exact hbefore _ (List.mem_map_of_mem hm) _ List.mem_cons_self
  have hrivals :=
    (hperm.filter fun entry => entry.1 ≠ name ∧ file.lastModified ≤ entry.2.lastModified).length_eq
  rw [List.filter_append, List.filter_eq_self.mpr hall, List.length_append] at hrivals
  rw [rivals, ← hrivals]
  exact Nat.le_add_right _ _

-- A file with fewer rivals than are kept is kept.
theorem afterEviction_keeps {keepNewest : Nat} (hf : dir.files.lookup name = some file)
    (hfew : (rivals dir name file).length < keepNewest) :
    (afterEviction dir keepNewest).files.lookup name = some file := by
  have hnonneg : ¬(keepNewest : Int) < 0 := by omega
  unfold afterEviction evictBeyond
  rw [if_neg hnonneg]
  split_ifs
  · exact hf
  · have htrans : ∀ a b c : Str × CacheFile, decide (b.2.lastModified ≤ a.2.lastModified) = true →
        decide (c.2.lastModified ≤ b.2.lastModified) = true →
          decide (c.2.lastModified ≤ a.2.lastModified) = true := by
      intro a b c hab hbc
      rw [decide_eq_true_eq] at hab hbc ⊢
      omega
    have htotal : ∀ a b : Str × CacheFile, (decide (b.2.lastModified ≤ a.2.lastModified) ||
        decide (a.2.lastModified ≤ b.2.lastModified)) = true := by
      intro a b
      rw [Bool.or_eq_true, decide_eq_true_eq, decide_eq_true_eq]
      omega
    have hsorted := List.pairwise_mergeSort htrans htotal dir.files.entries
    have hperm := List.mergeSort_perm dir.files.entries fun a b =>
      b.2.lastModified ≤ a.2.lastModified
    dsimp only
    generalize dir.files.entries.mergeSort _ = newestFirst at hsorted hperm
    obtain ⟨before, after, rfl⟩ :=
      List.append_of_mem (hperm.mem_iff.mpr (LinkedHashMap.mem_entries_of_lookup hf))
    obtain ⟨hlength, hafter⟩ := length_before_le hperm (hsorted.imp of_decide_eq_true)
    rw [foldl_remove_of_ne, hf]
    intro entry hm
    rw [Int.toNat_natCast, List.drop_append, List.drop_eq_nil_of_le (by omega),
      List.nil_append] at hm
    have hpos : keepNewest - before.length = keepNewest - before.length - 1 + 1 := by omega
    rw [hpos, List.drop_succ_cons] at hm
    exact hafter entry (List.mem_of_mem_drop hm)

theorem get_of_holds {key : Str} (h : Holds dir (fileFor key)) :
    ∃ text, get dir key = some text := by
  obtain ⟨file, hf, hlen⟩ := h
  exact ⟨_, get_of_lookup hf hlen⟩

end DiskCache

end Ytdlpdroid
