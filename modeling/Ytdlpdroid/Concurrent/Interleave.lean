import Ytdlpdroid.Concurrent.Prog

namespace Ytdlpdroid.Concurrent

namespace Prog

variable {σ ε ε' α : Type}

-- Run the tasks one after another.
def drain : List (Prog σ ε α) → Prog σ ε' (List (Except ε α))
  | [] => .pure []
  | task :: rest => do
      let first ← task.attempt
      let others ← drain rest
      return first :: others

-- Run the tasks interleaved. Each entry of the schedule lets one task make one
-- atomic access; tasks that are not finished at its end run in order. Every
-- interleaving of the tasks' accesses is the one of some schedule.
def par : List Nat → List (Prog σ ε α) → Prog σ ε' (List (Except ε α))
  | [], tasks => drain tasks
  | index :: schedule, tasks =>
      match tasks[index]? with
      | some (.step access next) => .step access fun b => par schedule (tasks.set index (next b))
      | _ => par schedule tasks

-- An outcome the program can have when other programs change the state between its accesses.
inductive Outcome : Prog σ ε α → Except ε α → Prop
  | pure (a : α) : Outcome (.pure a) (.ok a)
  | throw (e : ε) : Outcome (.throw e) (.error e)
  | step {β : Type} (access : σ → β × σ) (next : β → Prog σ ε α) (s : σ) (o : Except ε α)
      (h : Outcome (next (access s).1) o) : Outcome (.step access next) o

theorem Outcome.run (p : Prog σ ε α) (s : σ) : Outcome p (p.run s).1 := by
  induction p generalizing s with
  | pure a => exact .pure a
  | throw e => exact .throw e
  | step access next ih => exact .step access next s _ (ih _ _)

theorem Outcome.bind_ok {β : Type} {p : Prog σ ε α} {k : α → Prog σ ε β} {b : β}
    (h : Outcome (p >>= k) (.ok b)) : ∃ a, Outcome p (.ok a) ∧ Outcome (k a) (.ok b) := by
  change Outcome (p.bind k) (.ok b) at h
  induction p with
  | pure a => exact ⟨a, .pure a, h⟩
  | throw e => cases h
  | step access next ih =>
      cases h with
      | step _ _ s _ h =>
          obtain ⟨a, ha, hk⟩ := ih _ h
          exact ⟨a, .step access next s _ ha, hk⟩

-- The program ends in the outcome `o` whatever the others do, as long as they keep `I`.
def Yields (I : σ → Prop) (o : Except ε α) : Prog σ ε α → Prop
  | .pure a => o = .ok a
  | .throw e => o = .error e
  | .step access next => ∀ s, I s → I (access s).2 ∧ Yields I o (next (access s).1)

theorem Yields.run {I : σ → Prop} {o : Except ε α} {p : Prog σ ε α} (h : Yields I o p) {s : σ}
    (hs : I s) : (p.run s).1 = o ∧ I (p.run s).2 := by
  induction p generalizing s with
  | pure a => exact ⟨h.symm, hs⟩
  | throw e => exact ⟨h.symm, hs⟩
  | step access next ih => exact ih _ (h s hs).2 (h s hs).1

theorem Yields.bind {β : Type} {I : σ → Prop} {p : Prog σ ε α} {k : α → Prog σ ε β}
    {a : α} {o : Except ε β} (hp : Yields I (.ok a) p) (hk : Yields I o (k a)) :
    Yields I o (p >>= k) := by
  change Yields I o (p.bind k)
  induction p with
  | pure value =>
      obtain rfl : a = value := by simpa [Yields] using hp
      exact hk
  | throw e => simp [Yields] at hp
  | step access next ih => exact fun s hs => ⟨(hp s hs).1, ih _ (hp s hs).2⟩

theorem Yields.bind_error {β : Type} {I : σ → Prop} {p : Prog σ ε α} (k : α → Prog σ ε β)
    {e : ε} (hp : Yields I (.error e) p) : Yields I (.error e) (p >>= k) := by
  change Yields I (.error e) (p.bind k)
  induction p with
  | pure value => simp [Yields] at hp
  | throw other =>
      obtain rfl : e = other := by simpa [Yields] using hp
      exact rfl
  | step access next ih => exact fun s hs => ⟨(hp s hs).1, ih _ (hp s hs).2⟩

theorem Yields.attempt {I : σ → Prop} {p : Prog σ ε α} {o : Except ε α} (hp : Yields I o p) :
    Yields I (.ok o) (p.attempt : Prog σ ε' (Except ε α)) := by
  induction p with
  | pure a => exact congrArg Except.ok hp
  | throw e => exact congrArg Except.ok hp
  | step access next ih => exact fun s hs => ⟨(hp s hs).1, ih _ (hp s hs).2⟩

theorem Yields.tryCatch_ok {I : σ → Prop} {p : Prog σ ε α} {a : α} (handler : ε → Prog σ ε α)
    (hp : Yields I (.ok a) p) : Yields I (.ok a) (p.tryCatch handler) := by
  induction p with
  | pure value => exact hp
  | throw e => simp [Yields] at hp
  | step access next ih => exact fun s hs => ⟨(hp s hs).1, ih _ (hp s hs).2⟩

theorem Yields.tryCatch_error {I : σ → Prop} {p : Prog σ ε α} {e : ε} {o : Except ε α}
    {handler : ε → Prog σ ε α} (hp : Yields I (.error e) p) (hh : Yields I o (handler e)) :
    Yields I o (p.tryCatch handler) := by
  induction p with
  | pure value => simp [Yields] at hp
  | throw other =>
      obtain rfl : e = other := by simpa [Yields] using hp
      exact hh
  | step access next ih => exact fun s hs => ⟨(hp s hs).1, ih _ (hp s hs).2⟩

theorem Yields.ofExcept (I : σ → Prop) (o : Except ε α) : Yields I o (ofExcept o) := by
  cases o <;> rfl

-- One atomic access that keeps the invariant and always gives the same answer.
theorem Yields.attemptAtomic {I : σ → Prop} {access : σ → Except ε α × σ} {o : Except ε α}
    (h : ∀ s, I s → (access s).1 = o ∧ I (access s).2) : Yields I o (attemptAtomic access) := by
  intro s hs
  refine ⟨(h s hs).2, ?_⟩
  rw [(h s hs).1]
  cases o <;> rfl

theorem Yields.atomic {I : σ → Prop} {access : σ → α × σ} {a : α}
    (h : ∀ s, I s → (access s).1 = a ∧ I (access s).2) :
    Yields I (.ok a) (atomic access : Prog σ ε α) := by
  intro s hs
  exact ⟨(h s hs).2, congrArg Except.ok (h s hs).1.symm⟩

-- What follows an access may depend on what it gives in each state.
theorem Yields.bind_atomic {β : Type} {I : σ → Prop} {access : σ → α × σ} {k : α → Prog σ ε β}
    {o : Except ε β} (h : ∀ s, I s → I (access s).2 ∧ Yields I o (k (access s).1)) :
    Yields I o (Prog.atomic access >>= k) := h

-- The outcome is the same under every invariant of the class `C`.
def Determined (C : (σ → Prop) → Prop) (p : Prog σ ε α) : Prop := ∃ o, ∀ I, C I → Yields I o p

variable {C : (σ → Prop) → Prop}

theorem Determined.pure (a : α) : Determined C (.pure a : Prog σ ε α) := ⟨.ok a, fun _ _ => rfl⟩

theorem Determined.throw (e : ε) : Determined C (.throw e : Prog σ ε α) :=
  ⟨.error e, fun _ _ => rfl⟩

theorem Determined.ofExcept (o : Except ε α) : Determined C (ofExcept o : Prog σ ε α) :=
  ⟨o, fun I _ => Yields.ofExcept I o⟩

theorem Determined.bind {β : Type} {p : Prog σ ε α} {k : α → Prog σ ε β} (hp : Determined C p)
    (hk : ∀ a, Determined C (k a)) : Determined C (p >>= k) := by
  obtain ⟨o, ho⟩ := hp
  cases o with
  | error e => exact ⟨.error e, fun I hI => (ho I hI).bind_error k⟩
  | ok a =>
      obtain ⟨o', hk⟩ := hk a
      exact ⟨o', fun I hI => (ho I hI).bind (hk I hI)⟩

theorem Determined.tryCatch {p : Prog σ ε α} {handler : ε → Prog σ ε α} (hp : Determined C p)
    (hh : ∀ e, Determined C (handler e)) : Determined C (p.tryCatch handler) := by
  obtain ⟨o, ho⟩ := hp
  cases o with
  | ok a => exact ⟨.ok a, fun I hI => (ho I hI).tryCatch_ok handler⟩
  | error e =>
      obtain ⟨o', hh⟩ := hh e
      exact ⟨o', fun I hI => (ho I hI).tryCatch_error (hh I hI)⟩

-- An outcome that is determined is the one of a run from any state of the invariant.
theorem Determined.yields {p : Prog σ ε α} (hp : Determined C p) {I : σ → Prop} (hI : C I) {s : σ}
    (hs : I s) : Yields I (p.run s).1 p := by
  obtain ⟨o, ho⟩ := hp
  rw [((ho I hI).run hs).1]
  exact ho I hI

theorem drain_yields {I : σ → Prop} {tasks : List (Prog σ ε α)} {outcomes : List (Except ε α)}
    (h : List.Forall₂ (fun task o => Yields I o task) tasks outcomes) :
    Yields I (.ok outcomes) (drain tasks : Prog σ ε' _) := by
  induction h with
  | nil => rfl
  | cons hfirst _ ih => exact hfirst.attempt.bind (ih.bind rfl)

theorem forall₂_get {κ ρ : Type*} {R : κ → ρ → Prop} {tasks : List κ} {outcomes : List ρ}
    (h : List.Forall₂ R tasks outcomes) (index : Nat) {task : κ}
    (ht : tasks[index]? = some task) : ∃ o, R task o := by
  induction h generalizing index with
  | nil => simp at ht
  | cons hfirst _ ih =>
      cases index with
      | zero =>
          obtain rfl := Option.some.inj ht
          exact ⟨_, hfirst⟩
      | succ index => exact ih index ht

theorem forall₂_set {κ ρ : Type*} {R : κ → ρ → Prop} {tasks : List κ} {outcomes : List ρ}
    (h : List.Forall₂ R tasks outcomes) (index : Nat) {task : κ}
    (ht : tasks[index]? = some task) (next : κ) (hnext : ∀ o, R task o → R next o) :
    List.Forall₂ R (tasks.set index next) outcomes := by
  induction h generalizing index with
  | nil => simp at ht
  | cons hfirst hrest ih =>
      cases index with
      | zero =>
          obtain rfl := Option.some.inj ht
          exact .cons (hnext _ hfirst) hrest
      | succ index => exact .cons hfirst (ih index ht)

-- Tasks whose outcomes no interference can change have these outcomes under every schedule.
theorem par_yields {I : σ → Prop} (schedule : List Nat) {tasks : List (Prog σ ε α)}
    {outcomes : List (Except ε α)}
    (h : List.Forall₂ (fun task o => Yields I o task) tasks outcomes) :
    Yields I (.ok outcomes) (par schedule tasks : Prog σ ε' _) := by
  induction schedule generalizing tasks with
  | nil => exact drain_yields h
  | cons index schedule ih =>
      unfold par
      split
      · rename_i β access next ht
        intro s hs
        obtain ⟨o, ho⟩ := forall₂_get h index ht
        exact ⟨(ho s hs).1, ih (forall₂_set h index ht _ fun _ hy => (hy s hs).2)⟩
      · exact ih h

theorem drain_outcome (tasks : List (Prog σ ε α)) (s : σ) :
    ∃ outcomes s', (drain tasks : Prog σ ε' _).run s = (.ok outcomes, s') ∧
      List.Forall₂ Outcome tasks outcomes := by
  induction tasks generalizing s with
  | nil => exact ⟨[], s, rfl, .nil⟩
  | cons task rest ih =>
      obtain ⟨outcomes, s', hr, ho⟩ := ih (task.run s).2
      refine ⟨(task.run s).1 :: outcomes, s', ?_, .cons (Outcome.run task s) ho⟩
      simp [drain, hr]

-- An interleaved run always returns, with one possible outcome for each task.
theorem par_outcome (schedule : List Nat) (tasks : List (Prog σ ε α)) (s : σ) :
    ∃ outcomes s', (par schedule tasks : Prog σ ε' _).run s = (.ok outcomes, s') ∧
      List.Forall₂ Outcome tasks outcomes := by
  induction schedule generalizing tasks s with
  | nil => exact drain_outcome tasks s
  | cons index schedule ih =>
      unfold par
      split
      · rename_i β access next ht
        obtain ⟨outcomes, s', hr, ho⟩ := ih (tasks.set index (next (access s).1)) (access s).2
        refine ⟨outcomes, s', hr, ?_⟩
        have hlen : index < (tasks.set index (next (access s).1)).length := by
          simpa using (List.getElem?_eq_some_iff.mp ht).1
        have hback :
            tasks = (tasks.set index (next (access s).1)).set index (.step access next) := by
          obtain ⟨hi, he⟩ := List.getElem?_eq_some_iff.mp ht
          simp only [List.set_set, ← he, List.set_getElem_self]
        rw [hback]
        exact forall₂_set ho index (List.getElem?_set_self (by simpa using hlen)) _
          fun o h => .step access next s o h
      · exact ih tasks s

theorem drain_preserves {I : σ → Prop} {tasks : List (Prog σ ε α)}
    (h : ∀ task ∈ tasks, Preserves I task) : Preserves I (drain tasks : Prog σ ε' _) := by
  induction tasks with
  | nil => trivial
  | cons task rest ih =>
      refine (h task List.mem_cons_self).attempt.bind fun _ => ?_
      exact (ih fun other hm => h other (List.mem_cons_of_mem _ hm)).bind fun _ => trivial

-- An invariant of every access of every task is one of each interleaving.
theorem par_preserves {I : σ → Prop} (schedule : List Nat) {tasks : List (Prog σ ε α)}
    (h : ∀ task ∈ tasks, Preserves I task) : Preserves I (par schedule tasks : Prog σ ε' _) := by
  induction schedule generalizing tasks with
  | nil => exact drain_preserves h
  | cons index schedule ih =>
      unfold par
      split
      · rename_i β access next ht
        intro s hs
        have hstep := h _ (List.mem_of_getElem? ht) s hs
        refine ⟨hstep.1, ih fun task hm => ?_⟩
        rcases List.mem_or_eq_of_mem_set hm with hm | rfl
        · exact h task hm
        · exact hstep.2
      · exact ih h

end Prog

end Ytdlpdroid.Concurrent
