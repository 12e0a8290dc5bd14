import Ytdlpdroid.Concurrent.Interleave

namespace Ytdlpdroid.Concurrent

namespace Prog

variable {σ ε ε' α β : Type} {I J : σ → Prop} {P Q : Except ε α → Prop} {p : Prog σ ε α}

-- The program keeps `I` and ends in an outcome that meets `P`, whatever the others do, as long as
-- they keep `I`. In contrast to `Yields` it may depend on the others which outcome it is.
def Ends (I : σ → Prop) (P : Except ε α → Prop) : Prog σ ε α → Prop
  | .pure a => P (.ok a)
  | .throw e => P (.error e)
  | .step access next => ∀ s, I s → I (access s).2 ∧ Ends I P (next (access s).1)

theorem Ends.pure {a : α} (h : P (.ok a)) : Ends I P (Pure.pure a : Prog σ ε α) := h

theorem Yields.ends {o : Except ε α} (h : Yields I o p) : Ends I (o = ·) p := by
  induction p with
  | pure a => exact h
  | throw e => exact h
  | step access next ih => exact fun s hs => ⟨(h s hs).1, ih _ (h s hs).2⟩

theorem Ends.yields {o : Except ε α} (h : Ends I (o = ·) p) : Yields I o p := by
  induction p with
  | pure a => exact h
  | throw e => exact h
  | step access next ih => exact fun s hs => ⟨(h s hs).1, ih _ (h s hs).2⟩

-- A sequence comes to the sequence of what its parts come to.
theorem Yields.seq {o : Except ε α} {f : α → Except ε β} {k : α → Prog σ ε β} (h : Yields I o p)
    (hk : ∀ a, o = .ok a → Yields I (f a) (k a)) : Yields I (o >>= f) (p >>= k) := by
  cases o with
  | ok a => exact h.bind (hk a rfl)
  | error e => exact h.bind_error k

theorem Yields.ite {c : Prop} [Decidable c] {o o' : Except ε α} {p' : Prog σ ε α}
    (h : c → Yields I o p) (h' : ¬c → Yields I o' p') :
    Yields I (if c then o else o') (if c then p else p') := by
  by_cases hc : c
  · rw [if_pos hc, if_pos hc]
    exact h hc
  · rw [if_neg hc, if_neg hc]
    exact h' hc

-- What the program keeps by itself may be added to what it and the others keep together.
theorem Ends.and (h : Ends I P p) (hJ : Preserves J p) : Ends (fun s => I s ∧ J s) P p := by
  induction p with
  | pure a => exact h
  | throw e => exact h
  | step access next ih =>
      rintro s ⟨hI, hs⟩
      exact ⟨⟨(h s hI).1, (hJ s hs).1⟩, ih _ (h s hI).2 (hJ s hs).2⟩

theorem Ends.bind {P : Except ε β → Prop} {p : Prog σ ε β} {k : β → Prog σ ε α} (h : Ends I P p)
    (hok : ∀ b, P (.ok b) → Ends I Q (k b)) (herror : ∀ e, P (.error e) → Q (.error e)) :
    Ends I Q (p >>= k) := by
  change Ends I Q (p.bind k)
  induction p with
  | pure b => exact hok b h
  | throw e => exact herror e h
  | step access next ih => exact fun s hs => ⟨(h s hs).1, ih _ (h s hs).2⟩

theorem Ends.attempt (h : Ends I P p) :
    Ends I (fun o => ∃ outcome, o = .ok outcome ∧ P outcome)
      (p.attempt : Prog σ ε' (Except ε α)) := by
  induction p with
  | pure a => exact ⟨_, rfl, h⟩
  | throw e => exact ⟨_, rfl, h⟩
  | step access next ih => exact fun s hs => ⟨(h s hs).1, ih _ (h s hs).2⟩

theorem Ends.ofExcept {o : Except ε α} (h : P o) : Ends I P (ofExcept o) := by
  cases o <;> exact h

theorem Ends.attemptAtomic {access : σ → Except ε α × σ}
    (h : ∀ s, I s → P (access s).1 ∧ I (access s).2) :
    Ends I P (attemptAtomic access) := by
  intro s hs
  obtain ⟨houtcome, hkept⟩ := h s hs
  refine ⟨hkept, ?_⟩
  generalize (access s).1 = o at houtcome ⊢
  cases o <;> exact houtcome

theorem Ends.bind_atomic {access : σ → β × σ} {k : β → Prog σ ε α}
    (h : ∀ s, I s → I (access s).2 ∧ Ends I P (k (access s).1)) :
    Ends I P (Prog.atomic access >>= k) := h

theorem Ends.run (h : Ends I P p) {s : σ} (hs : I s) : P (p.run s).1 ∧ I (p.run s).2 := by
  induction p generalizing s with
  | pure a => exact ⟨h, hs⟩
  | throw e => exact ⟨h, hs⟩
  | step access next ih => exact ih _ (h s hs).2 (h s hs).1

-- The invariant holds at every moment of a run.
theorem Ends.stopAfter (h : Ends I P p) {s : σ} (hs : I s) (count : Nat) :
    I (p.stopAfter count s) := by
  induction count generalizing p s with
  | zero => exact hs
  | succ count ih =>
      cases p with
      | pure a => exact hs
      | throw e => exact hs
      | step access next => exact ih (h s hs).2 (h s hs).1

-- The outcomes of tasks that were run together.
def AllMeet (posts : List (Except ε α → Prop)) (o : Except ε' (List (Except ε α))) : Prop :=
  ∃ outcomes, o = .ok outcomes ∧ List.Forall₂ (fun post outcome => post outcome) posts outcomes

theorem Ends.drain {tasks : List (Prog σ ε α)} {posts : List (Except ε α → Prop)}
    (h : List.Forall₂ (fun task post => Ends I post task) tasks posts) :
    Ends I (AllMeet posts) (drain tasks : Prog σ ε' _) := by
  induction h with
  | nil => exact ⟨[], rfl, .nil⟩
  | cons hfirst hrest ih =>
      refine hfirst.attempt.bind ?_ fun e ⟨_, he, _⟩ => nomatch he
      rintro first ⟨_, ⟨⟩, hmeets⟩
      refine ih.bind ?_ fun e ⟨_, he, _⟩ => nomatch he
      rintro others ⟨_, ⟨⟩, hothers⟩
      exact ⟨_, rfl, .cons hmeets hothers⟩

-- Each of the tasks ends as it does beside any others, under every schedule.
theorem Ends.par (schedule : List Nat) {tasks : List (Prog σ ε α)}
    {posts : List (Except ε α → Prop)}
    (h : List.Forall₂ (fun task post => Ends I post task) tasks posts) :
    Ends I (AllMeet posts) (par schedule tasks : Prog σ ε' _) := by
  induction schedule generalizing tasks with
  | nil => exact Ends.drain h
  | cons index schedule ih =>
      unfold Prog.par
      split
      · rename_i β access next ht
        intro s hs
        obtain ⟨post, hpost⟩ := forall₂_get h index ht
        exact ⟨(hpost s hs).1, ih (forall₂_set h index ht _ fun _ hends => (hends s hs).2)⟩
      · exact ih h

end Prog

end Ytdlpdroid.Concurrent
