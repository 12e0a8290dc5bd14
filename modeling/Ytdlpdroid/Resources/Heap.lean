import Ytdlpdroid.Concurrent.Interleave

namespace Ytdlpdroid.Resources

open Concurrent

-- Resources under handles of their own, the latest first. A resource can belong to another one,
-- which is then held too.
structure Share {κ : Type} (parent : κ → Option Nat) where
  live : List (Nat × κ) := []
  distinct : (live.map Prod.fst).Nodup := by simp
  closed : ∀ entry ∈ live, ∀ owner, parent entry.2 = some owner →
    owner ∈ live.map Prod.fst := by simp

-- All that is held, and the handle that is given next.
structure Heap {κ : Type} (parent : κ → Option Nat) extends Share parent where
  next : Nat := 0
  fresh : ∀ entry ∈ live, entry.1 < next := by simp

-- A handle that is not held is used or given back, or one is given back on which others depend.
inductive Fault
  | dead
  | inUse
  deriving DecidableEq

variable {κ : Type} {parent : κ → Option Nat}

namespace Share

def isLive (share : Share parent) (handle : Nat) : Bool := share.live.any (·.1 == handle)

def hasChildren (share : Share parent) (handle : Nat) : Bool :=
  share.live.any fun entry => parent entry.2 == some handle

theorem isLive_iff {share : Share parent} {handle : Nat} :
    share.isLive handle ↔ handle ∈ share.live.map Prod.fst := by
  simp [isLive]

theorem hasChildren_eq_false {share : Share parent} {handle : Nat} :
    share.hasChildren handle = false ↔ ∀ entry ∈ share.live, parent entry.2 ≠ some handle := by
  simp [hasChildren]

def add (share : Share parent) (handle : Nat) (kind : κ) (hnew : handle ∉ share.live.map Prod.fst)
    (howner : (parent kind).all share.isLive) : Share parent where
  live := (handle, kind) :: share.live
  distinct := List.nodup_cons.mpr ⟨hnew, share.distinct⟩
  closed := by
    intro entry hm owner h
    rcases List.mem_cons.mp hm with rfl | hm
    · rw [h, Option.all_some] at howner
      exact List.mem_cons_of_mem _ (isLive_iff.mp howner)
    · exact List.mem_cons_of_mem _ (share.closed entry hm owner h)

def drop (share : Share parent) (handle : Nat) (h : share.hasChildren handle = false) :
    Share parent where
  live := share.live.filter (·.1 != handle)
  distinct := share.distinct.sublist (List.filter_sublist.map _)
  closed := by
    intro entry hm owner howner
    have hentry : entry ∈ share.live := List.mem_of_mem_filter hm
    obtain ⟨other, hother, hsame⟩ := List.mem_map.mp (share.closed entry hentry owner howner)
    refine List.mem_map.mpr ⟨other, List.mem_filter.mpr ⟨hother, ?_⟩, hsame⟩
    rw [bne_iff_ne, hsame]
    rintro rfl
    exact hasChildren_eq_false.mp h entry hentry howner

-- Several shares as one, when their handles differ.
def join (shares : List (Share parent)) (h : ((shares.flatMap live).map Prod.fst).Nodup) :
    Share parent where
  live := shares.flatMap live
  distinct := h
  closed := by
    intro entry hm owner howner
    obtain ⟨share, hshare, hentry⟩ := List.mem_flatMap.mp hm
    obtain ⟨other, hother, hsame⟩ := List.mem_map.mp (share.closed entry hentry owner howner)
    exact List.mem_map.mpr ⟨other, List.mem_flatMap.mpr ⟨share, hshare, hother⟩, hsame⟩

-- Where one entry stands, `drop` leaves the others.
theorem drop_live {share : Share parent} {before after : List (Nat × κ)} {handle : Nat} {kind : κ}
    (hlive : share.live = before ++ (handle, kind) :: after) :
    share.live.filter (·.1 != handle) = before ++ after := by
  have hdistinct := share.distinct
  rw [hlive, List.map_append, List.map_cons, List.nodup_append] at hdistinct
  obtain ⟨-, hafter, hbefore⟩ := hdistinct
  have hkeep {entries : List (Nat × κ)} (hne : handle ∉ entries.map Prod.fst) :
      entries.filter (·.1 != handle) = entries := by
    refine List.filter_eq_self.mpr fun entry hm => bne_iff_ne.mpr ?_
    rintro rfl
    exact hne (List.mem_map_of_mem hm)
  have hself : ((handle, kind) :: after).filter (·.1 != handle) = after := by
    rw [List.filter_cons_of_neg (by simp)]
    exact hkeep (List.nodup_cons.mp hafter).1
  have hothers : handle ∉ before.map Prod.fst :=
    fun hm => hbefore handle hm handle List.mem_cons_self rfl
  rw [hlive, List.filter_append, hkeep hothers, hself]

end Share

namespace Heap

theorem next_new (heap : Heap parent) : heap.next ∉ heap.live.map Prod.fst := by
  intro hm
  obtain ⟨entry, hentry, he⟩ := List.mem_map.mp hm
  exact absurd (heap.fresh entry hentry) (by rw [he]; exact Nat.lt_irrefl _)

def add (heap : Heap parent) (kind : κ) (h : (parent kind).all heap.isLive) : Heap parent where
  toShare := heap.toShare.add heap.next kind heap.next_new h
  next := heap.next + 1
  fresh := by
    intro entry hm
    rcases List.mem_cons.mp hm with rfl | hm
    · exact Nat.lt_succ_self _
    · exact Nat.lt_succ_of_lt (heap.fresh entry hm)

def drop (heap : Heap parent) (handle : Nat) (h : heap.hasChildren handle = false) :
    Heap parent where
  toShare := heap.toShare.drop handle h
  next := heap.next
  fresh := fun entry hm => heap.fresh entry (List.mem_of_mem_filter hm)

end Heap

-- A program over the resources, which can fault.
abbrev Manages (parent : κ → Option Nat) (α : Type) := Prog (Heap parent) Fault α

def acquire (kind : κ) : Manages parent Nat :=
  .attemptAtomic fun heap =>
    if h : (parent kind).all heap.isLive then (.ok heap.next, heap.add kind h)
    else (.error .dead, heap)

def release (handle : Nat) : Manages parent Unit :=
  .attemptAtomic fun heap =>
    if heap.isLive handle then
      if h : heap.hasChildren handle = false then (.ok (), heap.drop handle h)
      else (.error .inUse, heap)
    else (.error .dead, heap)

def use (handle : Nat) : Manages parent Unit :=
  .attemptAtomic fun heap => (if heap.isLive handle then .ok () else .error .dead, heap)

end Ytdlpdroid.Resources
