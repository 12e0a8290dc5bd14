import Mathlib.Data.List.Induction
import Mathlib.Data.List.Perm.Basic
import Mathlib.Order.Lattice

namespace Ytdlpdroid.Collections

variable {α β : Type*} [LinearOrder β]

-- The first one of the elements whose key is greatest.
def IsFirstGreatest (key : α → β) (all : List α) (found : α) : Prop :=
  ∃ before after, all = before ++ found :: after ∧
    (∀ x ∈ before, key x < key found) ∧ ∀ x ∈ after, key x ≤ key found

namespace IsFirstGreatest

variable {key : α → β} {all other : List α} {found found' : α}

theorem mem (h : IsFirstGreatest key all found) : found ∈ all := by
  obtain ⟨before, after, rfl, -, -⟩ := h
  exact List.mem_append_right before List.mem_cons_self

theorem le (h : IsFirstGreatest key all found) {x : α} (hx : x ∈ all) : key x ≤ key found := by
  obtain ⟨before, after, rfl, hbefore, hafter⟩ := h
  rcases List.mem_append.mp hx with hx | hx
  · exact (hbefore x hx).le
  · rcases List.mem_cons.mp hx with rfl | hx
    · exact le_rfl
    · exact hafter x hx

-- In another order another element can come first, but its key is the same.
theorem key_eq_of_perm (h : IsFirstGreatest key all found) (h' : IsFirstGreatest key other found')
    (hperm : all.Perm other) : key found = key found' :=
  le_antisymm (h'.le (hperm.subset h.mem)) (h.le (hperm.symm.subset h'.mem))

-- Of two elements that are both first, neither can come before the other.
theorem unique (h : IsFirstGreatest key all found) (h' : IsFirstGreatest key all found') :
    found = found' := by
  have hkey := h.key_eq_of_perm h' (List.Perm.refl all)
  obtain ⟨before, after, rfl, hbefore, -⟩ := h
  obtain ⟨before', after', heq, hbefore', -⟩ := h'
  rcases List.append_eq_append_iff.mp heq with ⟨between, rfl, hrest⟩ | ⟨between, rfl, hrest⟩
  · cases between with
    | nil => exact (List.cons.inj hrest).1
    | cons x between =>
        obtain ⟨rfl, -⟩ := List.cons.inj hrest
        exact absurd hkey (hbefore' found (by simp)).ne
  · cases between with
    | nil => exact (List.cons.inj hrest).1.symm
    | cons x between =>
        obtain ⟨rfl, -⟩ := List.cons.inj hrest
        exact absurd hkey.symm (hbefore found' (by simp)).ne

-- An element that comes before the one found has a smaller key.
theorem lt_of_not_mem_before (h : IsFirstGreatest key all found) {before after : List α} {x : α}
    (he : all = before ++ x :: after) (hfound : found ∉ before) (hne : found ≠ x) :
    key x < key found := by
  obtain ⟨before', after', rfl, hbefore, -⟩ := h
  rcases List.append_eq_append_iff.mp he with ⟨between, rfl, hrest⟩ | ⟨between, rfl, hrest⟩
  · cases between with
    | nil => exact absurd (List.cons.inj hrest).1 hne
    | cons y between =>
        obtain ⟨rfl, -⟩ := List.cons.inj hrest
        exact absurd (List.mem_append_right before' List.mem_cons_self) hfound
  · cases between with
    | nil => exact absurd (List.cons.inj hrest).1.symm hne
    | cons y between =>
        obtain ⟨rfl, -⟩ := List.cons.inj hrest
        exact hbefore x (List.mem_append_right before List.mem_cons_self)

theorem singleton (key : α → β) (x : α) : IsFirstGreatest key [x] x :=
  ⟨[], [], rfl, by simp, by simp⟩

-- A further element takes the place of the one found only if its key is greater.
theorem concat (h : IsFirstGreatest key all found) (x : α) :
    IsFirstGreatest key (all ++ [x]) (if key found < key x then x else found) := by
  split_ifs with hx
  · exact ⟨all, [], rfl, fun y hy => (h.le hy).trans_lt hx, by simp⟩
  · obtain ⟨before, after, rfl, hbefore, hafter⟩ := h
    refine ⟨before, after ++ [x], by simp, hbefore, fun y hy => ?_⟩
    rcases List.mem_append.mp hy with hy | hy
    · exact hafter y hy
    · obtain rfl := List.mem_singleton.mp hy
      exact not_lt.mp hx

-- One pass from the left finds it.
theorem foldl (key : α → β) (first : α) (rest : List α) :
    IsFirstGreatest key (first :: rest)
      (rest.foldl (fun best x => if key best < key x then x else best) first) := by
  induction rest using List.reverseRecOn with
  | nil => exact singleton key first
  | append_singleton rest x ih =>
      rw [List.foldl_append, ← List.cons_append]
      exact ih.concat x

end IsFirstGreatest

end Ytdlpdroid.Collections
