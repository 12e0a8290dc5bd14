import Mathlib.Data.List.Perm.Basic
import Ytdlpdroid.Resources.Heap

namespace Ytdlpdroid.Resources

open Concurrent

section

variable {κ : Type} {parent : κ → Option Nat} {α β : Type}

-- A program that owns a share of the heap ends without a fault, in a value and with a share that
-- meet `Q`, whatever others own and do with it; at every moment its share meets `I`.
def Ends (I : List (Nat × κ) → Prop) :
    Share parent → Manages parent α → (α → List (Nat × κ) → Prop) → Prop
  | mine, .pure a, Q => I mine.live ∧ Q a mine.live
  | _, .throw _, _ => False
  | mine, .step access next, Q => I mine.live ∧ ∀ (heap : Heap parent) (others : Share parent),
      heap.live.Perm (mine.live ++ others.live) → ∃ mine' : Share parent,
        (access heap).2.live.Perm (mine'.live ++ others.live) ∧
          Ends I mine' (next (access heap).1) Q

variable {I : List (Nat × κ) → Prop} {mine : Share parent} {p : Manages parent α}
  {before after : List (Nat × κ)} {kind : κ} {handle : Nat} {Q : α → List (Nat × κ) → Prop}
  {Q' : β → List (Nat × κ) → Prop}

theorem Ends.pure {a : α} (hI : I mine.live) (hQ : Q a mine.live) : Ends I mine (.pure a) Q :=
  ⟨hI, hQ⟩

theorem Ends.invariant (h : Ends I mine p Q) : I mine.live := by
  cases p with
  | pure a => exact h.1
  | throw e => exact h.elim
  | step access next => exact h.1

theorem Ends.mono (h : Ends I mine p Q) {I' : List (Nat × κ) → Prop}
    {Q' : α → List (Nat × κ) → Prop} (hI : ∀ live, I live → I' live)
    (hQ : ∀ a live, Q a live → Q' a live) : Ends I' mine p Q' := by
  induction p generalizing mine with
  | pure a => exact ⟨hI _ h.1, hQ a _ h.2⟩
  | throw e => exact h
  | step access next ih =>
      refine ⟨hI _ h.1, fun heap others hheap => ?_⟩
      obtain ⟨mine', hlive, hnext⟩ := h.2 heap others hheap
      exact ⟨mine', hlive, ih _ hnext⟩

theorem Ends.bind {k : α → Manages parent β} (h : Ends I mine p Q)
    (hk : ∀ a (mine' : Share parent), I mine'.live → Q a mine'.live → Ends I mine' (k a) Q') :
    Ends I mine (p >>= k) Q' := by
  change Ends I mine (p.bind k) Q'
  induction p generalizing mine with
  | pure a => exact hk a mine h.1 h.2
  | throw e => exact h.elim
  | step access next ih =>
      refine ⟨h.1, fun heap others hheap => ?_⟩
      obtain ⟨mine', hlive, hnext⟩ := h.2 heap others hheap
      exact ⟨mine', hlive, ih _ hnext⟩

theorem Ends.attempt (h : Ends I mine p Q) :
    Ends I mine (p.attempt : Manages parent (Except Fault α))
      (fun outcome live => ∃ a, outcome = .ok a ∧ Q a live) := by
  induction p generalizing mine with
  | pure a => exact ⟨h.1, a, rfl, h.2⟩
  | throw e => exact h.elim
  | step access next ih =>
      refine ⟨h.1, fun heap others hheap => ?_⟩
      obtain ⟨mine', hlive, hnext⟩ := h.2 heap others hheap
      exact ⟨mine', hlive, ih _ hnext⟩

-- An access that answers, and changes only the share.
theorem Ends.step {access : Heap parent → Except Fault α × Heap parent} {k : α → Manages parent β}
    (hI : I mine.live)
    (h : ∀ (heap : Heap parent) (others : Share parent), heap.live.Perm (mine.live ++ others.live) →
      ∃ a heap', access heap = (.ok a, heap') ∧ ∃ mine' : Share parent,
        heap'.live.Perm (mine'.live ++ others.live) ∧ Ends I mine' (k a) Q') :
    Ends I mine (.attemptAtomic access >>= k) Q' := by
  refine ⟨hI, fun heap others hheap => ?_⟩
  obtain ⟨a, heap', haccess, mine', hlive, hk⟩ := h heap others hheap
  rw [haccess]
  exact ⟨mine', hlive, hk⟩

theorem isLive_of_mem {heap : Heap parent} {others : Share parent}
    (hheap : heap.live.Perm (mine.live ++ others.live)) (hm : handle ∈ mine.live.map Prod.fst) :
    heap.isLive handle := by
  rw [Share.isLive_iff, (hheap.map Prod.fst).mem_iff, List.map_append]
  exact List.mem_append_left _ hm

theorem ends_acquire {k : Nat → Manages parent β} (hI : I mine.live)
    (hparent : ∀ owner, parent kind = some owner → owner ∈ mine.live.map Prod.fst)
    (hk : ∀ handle (mine' : Share parent), mine'.live = (handle, kind) :: mine.live →
      handle ∉ mine.live.map Prod.fst → Ends I mine' (k handle) Q') :
    Ends I mine (acquire kind >>= k) Q' := by
  refine Ends.step hI fun heap others hheap => ?_
  have hall {share : Share parent} (hlive : ∀ owner, parent kind = some owner →
      share.isLive owner) :
      (parent kind).all share.isLive := by
    cases howner : parent kind with
    | none => rfl
    | some owner => exact hlive owner howner
  have hnew : heap.next ∉ mine.live.map Prod.fst := by
    intro hm
    refine heap.next_new ?_
    rw [(hheap.map Prod.fst).mem_iff, List.map_append]
    exact List.mem_append_left _ hm
  refine ⟨_, _, dif_pos (hall fun owner h => isLive_of_mem hheap (hparent owner h)), ?_⟩
  refine ⟨mine.add heap.next kind hnew (hall fun owner h => Share.isLive_iff.mpr (hparent owner h)),
    ?_, ?_⟩
  · exact hheap.cons _
  · exact hk _ _ rfl hnew

theorem ends_use {k : Unit → Manages parent β} (hI : I mine.live)
    (hlive : handle ∈ mine.live.map Prod.fst) (hk : Ends I mine (k ()) Q') :
    Ends I mine (use handle >>= k) Q' := by
  refine Ends.step hI fun heap others hheap => ⟨(), heap, ?_, mine, hheap, hk⟩
  rw [if_pos (isLive_of_mem hheap hlive)]

-- Others own nothing that depends on what is not theirs.
theorem ends_release {k : Unit → Manages parent β} (hI : I mine.live)
    (hlive : mine.live = before ++ (handle, kind) :: after)
    (hchildren : ∀ entry ∈ mine.live, parent entry.2 ≠ some handle)
    (hk : ∀ mine' : Share parent, mine'.live = before ++ after → Ends I mine' (k ()) Q') :
    Ends I mine (release handle >>= k) Q' := by
  refine Ends.step hI fun heap others hheap => ?_
  have hheld : handle ∈ mine.live.map Prod.fst := by simp [hlive]
  have hdistinct := (hheap.map Prod.fst).nodup_iff.mp heap.distinct
  rw [List.map_append, List.nodup_append] at hdistinct
  have hforeign : handle ∉ others.live.map Prod.fst :=
    fun hm => hdistinct.2.2 handle hheld handle hm rfl
  have hfree : heap.hasChildren handle = false := by
    refine Share.hasChildren_eq_false.mpr fun entry hm => ?_
    rcases List.mem_append.mp (hheap.mem_iff.mp hm) with hm | hm
    · exact hchildren entry hm
    · exact fun howner => hforeign (others.closed entry hm handle howner)
  refine ⟨_, _, (if_pos (isLive_of_mem hheap hheld)).trans (dif_pos hfree), ?_⟩
  refine ⟨mine.drop handle (Share.hasChildren_eq_false.mpr hchildren), ?_,
    hk _ (Share.drop_live hlive)⟩
  have hkept : others.live.filter (·.1 != handle) = others.live := by
    refine List.filter_eq_self.mpr fun entry hm => bne_iff_ne.mpr ?_
    rintro rfl
    exact hforeign (List.mem_map_of_mem hm)
  have hdropped := hheap.filter (·.1 != handle)
  rwa [List.filter_append, hkept] at hdropped

-- What was acquired on top of a share has no dependents in it.
theorem ends_release_above {k : Unit → Manages parent β} (base : Share parent)
    (before : List (Nat × κ)) (hI : I mine.live)
    (hlive : mine.live = before ++ (handle, kind) :: base.live)
    (hbefore : ∀ entry ∈ before, parent entry.2 ≠ some handle) (hself : parent kind ≠ some handle)
    (hk : ∀ mine' : Share parent, mine'.live = before ++ base.live → Ends I mine' (k ()) Q') :
    Ends I mine (release handle >>= k) Q' := by
  have hdistinct := mine.distinct
  rw [hlive, List.map_append, List.map_cons, List.nodup_append] at hdistinct
  have hnew : handle ∉ base.live.map Prod.fst := (List.nodup_cons.mp hdistinct.2.1).1
  refine ends_release hI hlive (fun entry hm => ?_) hk
  rw [hlive] at hm
  rcases List.mem_append.mp hm with hm | hm
  · exact hbefore entry hm
  · rcases List.mem_cons.mp hm with rfl | hm
    · exact hself
    · exact fun howner => hnew (base.closed entry hm handle howner)

-- What is held is such a share, and the frame.
def Beside (P : List (Nat × κ) → Prop) (frame : Share parent) (live : List (Nat × κ)) : Prop :=
  ∃ part : Share parent, live.Perm (part.live ++ frame.live) ∧ P part.live

-- Shares that make up a part of one heap are one share.
theorem exists_join {heap : Heap parent} (shares : List (Share parent)) {rest : List (Nat × κ)}
    (hheap : heap.live.Perm (shares.flatMap Share.live ++ rest)) :
    ∃ all : Share parent, all.live = shares.flatMap Share.live := by
  have hdistinct := (hheap.map Prod.fst).nodup_iff.mp heap.distinct
  rw [List.map_append, List.nodup_append] at hdistinct
  exact ⟨Share.join shares hdistinct.1, rfl⟩

theorem exists_both {heap : Heap parent} {first second : Share parent} {rest : List (Nat × κ)}
    (hheap : heap.live.Perm (first.live ++ (second.live ++ rest))) :
    ∃ both : Share parent, both.live = first.live ++ second.live := by
  have hlive : [first, second].flatMap Share.live = first.live ++ second.live := by simp
  have hmade : heap.live.Perm ([first, second].flatMap Share.live ++ rest) := by
    rwa [hlive, List.append_assoc]
  obtain ⟨both, hboth⟩ := exists_join [first, second] hmade
  exact ⟨both, hboth.trans hlive⟩

-- More can be owned than a program uses.
theorem Ends.frame (h : Ends I mine p Q) (frame joined : Share parent)
    (hjoined : joined.live.Perm (mine.live ++ frame.live)) :
    Ends (Beside I frame) joined p (fun a => Beside (fun live => I live ∧ Q a live) frame) := by
  induction p generalizing mine joined with
  | pure a => exact ⟨⟨mine, hjoined, h.1⟩, mine, hjoined, h⟩
  | throw e => exact h
  | step access next ih =>
      refine ⟨⟨mine, hjoined, h.1⟩, fun heap others hheap => ?_⟩
      have hsplit : heap.live.Perm (mine.live ++ (frame.live ++ others.live)) := by
        rw [← List.append_assoc]
        exact hheap.trans (hjoined.append_right _)
      have hflipped : heap.live.Perm (frame.live ++ (others.live ++ mine.live)) := by
        rw [← List.append_assoc]
        exact hsplit.trans List.perm_append_comm
      obtain ⟨rest, hrest⟩ := exists_both hflipped
      obtain ⟨mine', hlive, hnext⟩ := h.2 heap rest (by rwa [hrest])
      rw [hrest] at hlive
      obtain ⟨joined', hjoined'⟩ := exists_both hlive
      refine ⟨joined', ?_, ih _ hnext joined' (by rw [hjoined'])⟩
      rwa [hjoined', List.append_assoc]

-- A run alone.
theorem Ends.run (h : Ends I mine p Q) {heap : Heap parent} (others : Share parent)
    (hheap : heap.live.Perm (mine.live ++ others.live)) :
    ∃ a heap', p.run heap = (.ok a, heap') ∧ Beside (Q a) others heap'.live := by
  induction p generalizing mine heap with
  | pure a => exact ⟨a, heap, rfl, mine, hheap, h.2⟩
  | throw e => exact h.elim
  | step access next ih =>
      obtain ⟨mine', hlive, hnext⟩ := h.2 heap others hheap
      exact ih _ hnext hlive

theorem Ends.stopAfter (h : Ends I mine p Q) {heap : Heap parent} (others : Share parent)
    (hheap : heap.live.Perm (mine.live ++ others.live)) (count : Nat) :
    Beside I others (p.stopAfter count heap).live := by
  induction p generalizing mine heap count with
  | pure a => cases count <;> exact ⟨mine, hheap, h.1⟩
  | throw e => exact h.elim
  | step access next ih =>
      cases count with
      | zero => exact ⟨mine, hheap, h.1⟩
      | succ count =>
          obtain ⟨mine', hlive, hnext⟩ := h.2 heap others hheap
          exact ih _ hnext hlive count

end

-- A program with its share, what it keeps of it and what it ends in.
structure Thread {κ : Type} (parent : κ → Option Nat) (α : Type) where
  prog : Manages parent α
  share : Share parent
  keeps : List (Nat × κ) → Prop
  returns : α → List (Nat × κ) → Prop

def Thread.Ends {κ : Type} {parent : κ → Option Nat} {α : Type} (thread : Thread parent α) : Prop :=
  Resources.Ends thread.keeps thread.share thread.prog thread.returns

section

variable {κ : Type} {parent : κ → Option Nat} {α : Type}

-- Every thread has a part of its own.
def Kept (keeps : List (List (Nat × κ) → Prop)) (live : List (Nat × κ)) : Prop :=
  ∃ parts : List (List (Nat × κ)), live.Perm parts.flatten ∧
    List.Forall₂ (fun keep part => keep part) keeps parts

def Returned (returns : List (α → List (Nat × κ) → Prop)) (outcomes : List (Except Fault α))
    (live : List (Nat × κ)) : Prop :=
  ∃ results : List (α × List (Nat × κ)), outcomes = results.map (fun result => .ok result.1) ∧
    live.Perm (results.flatMap Prod.snd) ∧
      List.Forall₂ (fun post result => post result.1 result.2) returns results

variable {threads : List (Thread parent α)}

theorem kept_cons {keep : List (Nat × κ) → Prop} {keeps : List (List (Nat × κ) → Prop)}
    {part rest live : List (Nat × κ)} (hpart : keep part) (hrest : Kept keeps rest)
    (hlive : live.Perm (part ++ rest)) :
    Kept (keep :: keeps) live := by
  obtain ⟨parts, hparts, hkeeps⟩ := hrest
  exact ⟨part :: parts, hlive.trans (hparts.append_left part), .cons hpart hkeeps⟩

theorem kept_shares (h : ∀ thread ∈ threads, thread.Ends) {live : List (Nat × κ)}
    (hlive : live.Perm (threads.flatMap fun thread => thread.share.live)) :
    Kept (threads.map Thread.keeps) live := by
  induction threads generalizing live with
  | nil => exact ⟨[], hlive, .nil⟩
  | cons thread rest ih =>
      have hrest := ih (fun other hm => h other (List.mem_cons_of_mem _ hm)) (List.Perm.refl _)
      exact kept_cons (h thread List.mem_cons_self).invariant hrest hlive

theorem map_set_same {γ δ : Type*} {entries : List γ} (f : γ → δ) {index : Nat} {entry : γ}
    (other : γ) (hget : entries[index]? = some entry) (hsame : f other = f entry) :
    (entries.set index other).map f = entries.map f := by
  obtain ⟨hindex, rfl⟩ := List.getElem?_eq_some_iff.mp hget
  rw [List.map_set, hsame, ← List.map_set, List.set_getElem_self]

theorem drain_ends (h : ∀ thread ∈ threads, thread.Ends) (joined : Share parent)
    (hjoined : joined.live.Perm (threads.flatMap fun thread => thread.share.live)) :
    Ends (Kept (threads.map Thread.keeps)) joined (Prog.drain (threads.map Thread.prog))
      (Returned (threads.map Thread.returns)) := by
  induction threads generalizing joined with
  | nil => exact Ends.pure ⟨[], hjoined, .nil⟩ ⟨[], rfl, hjoined, .nil⟩
  | cons thread rest ih =>
      have hthread : thread.Ends := h thread List.mem_cons_self
      have hothers : ∀ other ∈ rest, other.Ends :=
        fun other hm => h other (List.mem_cons_of_mem _ hm)
      obtain ⟨restShare, hrest⟩ : ∃ share : Share parent, share.live = rest.flatMap fun other =>
          other.share.live := by
        have hdistinct := (hjoined.map Prod.fst).nodup_iff.mp joined.distinct
        rw [List.flatMap_cons, List.map_append, List.nodup_append] at hdistinct
        refine ⟨Share.join (rest.map Thread.share) ?_, ?_⟩
        · rw [List.flatMap_map]
          exact hdistinct.2.1
        · exact List.flatMap_map ..
      have hfirst := hthread.attempt.frame restShare joined (by rw [hrest]; exact hjoined)
      have hkeep (part : Share parent) {live : List (Nat × κ)} (hpart : thread.keeps part.live)
          (hlive : live.Perm (part.live ++ restShare.live)) :
            Kept ((thread :: rest).map Thread.keeps) live :=
        kept_cons hpart (kept_shares hothers (by rw [hrest])) hlive
      change Ends _ joined (thread.prog.attempt >>= fun first => _) _
      refine Ends.bind (hfirst.mono ?_ fun _ _ => id) ?_
      · rintro live ⟨part, hlive, hpart⟩
        exact hkeep part hpart hlive
      · rintro outcome joined₁ _ ⟨part, hlive₁, hpart, a, rfl, hreturns⟩
        have hrun := (ih hothers restShare (by rw [hrest])).frame part joined₁
          (hlive₁.trans List.perm_append_comm)
        refine Ends.bind (hrun.mono ?_ fun _ _ => id) ?_
        · rintro live ⟨others, hlive, hkept⟩
          exact kept_cons hpart hkept (hlive.trans List.perm_append_comm)
        · rintro outcomes joined₂ hI ⟨others, hlive₂, -, results, rfl, hresults, hposts⟩
          refine Ends.pure hI ⟨(a, part.live) :: results, rfl, ?_, .cons hreturns hposts⟩
          refine hlive₂.trans (List.perm_append_comm.trans ?_)
          exact hresults.append_left part.live

-- The parts of a heap that are listed one after the other are one share of it.
theorem exists_share (moved : List (Thread parent α)) {heap : Heap parent} {others : Share parent}
    (h : heap.live.Perm ((moved.flatMap fun thread => thread.share.live) ++ others.live)) :
    ∃ joined : Share parent, joined.live = moved.flatMap fun thread => thread.share.live := by
  obtain ⟨joined, hjoined⟩ :=
    exists_join (moved.map Thread.share) (by rw [List.flatMap_map]; exact h)
  exact ⟨joined, hjoined.trans (List.flatMap_map ..)⟩

-- A thread that moves has the other threads among its others, and leaves their parts as they are.
theorem Thread.Ends.move {γ : Type} {access : Heap parent → γ × Heap parent}
    {next : γ → Manages parent α} {thread : Thread parent α} {index : Nat} (hends : thread.Ends)
    (hget : threads[index]? = some thread) (hprog : thread.prog = .step access next)
    {heap : Heap parent} {others : Share parent}
    (hheap : heap.live.Perm ((threads.flatMap fun other => other.share.live) ++ others.live)) :
    ∃ mine : Share parent, Thread.Ends { thread with prog := next (access heap).1, share := mine } ∧
      (access heap).2.live.Perm
        (((threads.set index { thread with prog := next (access heap).1, share := mine }).flatMap
        fun other => other.share.live) ++ others.live) := by
  obtain ⟨hindex, hthread⟩ := List.getElem?_eq_some_iff.mp hget
  rw [Thread.Ends, hprog] at hends
  let idle := (threads.eraseIdx index).flatMap fun other => other.share.live
  have hset (moved : Thread parent α) :
      ((threads.set index moved).flatMap fun other => other.share.live).Perm
        (moved.share.live ++ idle) :=
    (List.set_perm_cons_eraseIdx hindex moved).flatMap_right _
  have hthreads :
      (threads.flatMap fun other => other.share.live).Perm (thread.share.live ++ idle) := by
    have hsame := hset threads[index]
    rwa [List.set_getElem_self, hthread] at hsame
  have hsplit : heap.live.Perm (thread.share.live ++ (idle ++ others.live)) := by
    rw [← List.append_assoc]
    exact hheap.trans (hthreads.append_right _)
  obtain ⟨rest, hrest⟩ : ∃ rest : Share parent, rest.live = idle ++ others.live := by
    have hlive : ((threads.eraseIdx index).map Thread.share ++ [others]).flatMap Share.live =
        idle ++ others.live := by
      rw [List.flatMap_append, List.flatMap_map, List.flatMap_singleton]
    obtain ⟨rest, hrest⟩ := exists_join _ (by rw [hlive]; exact hsplit.trans List.perm_append_comm)
    exact ⟨rest, hrest.trans hlive⟩
  obtain ⟨mine, hlive, hnext⟩ := hends.2 heap rest (by rwa [hrest])
  refine ⟨mine, hnext, ?_⟩
  rw [hrest, ← List.append_assoc] at hlive
  exact hlive.trans
    ((hset { thread with prog := next (access heap).1, share := mine }).symm.append_right _)

-- Threads that own different parts of the heap do not disturb each other, however they interleave.
theorem par_ends (schedule : List Nat) (h : ∀ thread ∈ threads, thread.Ends) (joined : Share parent)
    (hjoined : joined.live.Perm (threads.flatMap fun thread => thread.share.live)) :
    Ends (Kept (threads.map Thread.keeps)) joined (Prog.par schedule (threads.map Thread.prog))
      (Returned (threads.map Thread.returns)) := by
  induction schedule generalizing threads joined with
  | nil => exact drain_ends h joined hjoined
  | cons index schedule ih =>
      unfold Prog.par
      split
      · rename_i γ access next ht
        rw [List.getElem?_map, Option.map_eq_some_iff] at ht
        obtain ⟨thread, hget, hprog⟩ := ht
        refine ⟨kept_shares h hjoined, fun heap others hheap => ?_⟩
        have hends : thread.Ends := h thread (List.mem_of_getElem? hget)
        obtain ⟨mine, hnext, hmoved⟩ := hends.move hget hprog (hheap.trans (hjoined.append_right _))
        let thread' : Thread parent α := { thread with prog := next (access heap).1, share := mine }
        obtain ⟨joined', hjoined'⟩ := exists_share (threads.set index thread') hmoved
        refine ⟨joined', by rwa [hjoined'], ?_⟩
        have hthreads : ∀ other ∈ threads.set index thread', other.Ends := by
          intro other hm
          rcases List.mem_or_eq_of_mem_set hm with hm | rfl
          · exact h other hm
          · exact hnext
        have hrun := ih hthreads joined' (by rw [hjoined'])
        rw [map_set_same Thread.keeps thread' hget rfl,
          map_set_same Thread.returns thread' hget rfl, List.map_set] at hrun
        exact hrun
      · exact ih h joined hjoined

end

end Ytdlpdroid.Resources
