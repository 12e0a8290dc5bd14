import Mathlib.Data.List.Basic

namespace Ytdlpdroid.Concurrent

-- A program over a shared state. Each `step` is one atomic access; other
-- programs can run between two steps. Every path through a program is finite.
inductive Prog (σ ε α : Type) : Type 1
  | pure (value : α)
  | throw (error : ε)
  | step {β : Type} (access : σ → β × σ) (next : β → Prog σ ε α)

namespace Prog

variable {σ ε ε' α β : Type}

def bind : Prog σ ε α → (α → Prog σ ε β) → Prog σ ε β
  | .pure a, k => k a
  | .throw e, _ => .throw e
  | .step access next, k => .step access fun b => (next b).bind k

instance : Monad (Prog σ ε) where
  pure := Prog.pure
  bind := Prog.bind

def atomic (access : σ → α × σ) : Prog σ ε α := .step access .pure

-- An atomic access that can fail.
def attemptAtomic (access : σ → Except ε α × σ) : Prog σ ε α :=
  .step access fun
    | .ok a => .pure a
    | .error e => .throw e

def ofExcept : Except ε α → Prog σ ε α
  | .ok a => .pure a
  | .error e => .throw e

-- Run to the end and return the outcome as a value.
def attempt : Prog σ ε α → Prog σ ε' (Except ε α)
  | .pure a => .pure (.ok a)
  | .throw e => .pure (.error e)
  | .step access next => .step access fun b => (next b).attempt

def tryCatch : Prog σ ε α → (ε → Prog σ ε α) → Prog σ ε α
  | .pure a, _ => .pure a
  | .throw e, handler => handler e
  | .step access next, handler => .step access fun b => (next b).tryCatch handler

-- Run alone from a state.
def run : Prog σ ε α → σ → Except ε α × σ
  | .pure a, s => (.ok a, s)
  | .throw e, s => (.error e, s)
  | .step access next, s => (next (access s).1).run (access s).2

-- The state when only the first `count` atomic accesses have happened.
def stopAfter : Nat → Prog σ ε α → σ → σ
  | 0, _, s => s
  | _ + 1, .pure _, s => s
  | _ + 1, .throw _, s => s
  | count + 1, .step access next, s => stopAfter count (next (access s).1) (access s).2

@[simp] theorem pure_eq (a : α) : (Pure.pure a : Prog σ ε α) = .pure a := rfl

@[simp] theorem run_pure (a : α) (s : σ) : (Prog.pure a : Prog σ ε α).run s = (.ok a, s) := rfl

@[simp] theorem run_throw (e : ε) (s : σ) : (Prog.throw e : Prog σ ε α).run s = (.error e, s) := rfl

@[simp] theorem run_step (access : σ → β × σ) (next : β → Prog σ ε α) (s : σ) :
    (Prog.step access next).run s = (next (access s).1).run (access s).2 := rfl

@[simp] theorem run_atomic (access : σ → α × σ) (s : σ) :
    (atomic access : Prog σ ε α).run s = (.ok (access s).1, (access s).2) := rfl

@[simp] theorem run_attemptAtomic (access : σ → Except ε α × σ) (s : σ) :
    (attemptAtomic access).run s = access s := by
  rcases h : access s with ⟨outcome, s'⟩
  cases outcome <;> simp [attemptAtomic, h]

@[simp] theorem run_ofExcept (outcome : Except ε α) (s : σ) :
    (ofExcept outcome : Prog σ ε α).run s = (outcome, s) := by
  cases outcome <;> rfl

@[simp] theorem run_bind (p : Prog σ ε α) (k : α → Prog σ ε β) (s : σ) :
    (p >>= k).run s = match p.run s with
      | (.ok a, s') => (k a).run s'
      | (.error e, s') => (.error e, s') := by
  change (p.bind k).run s = _
  induction p generalizing s with
  | pure a => rfl
  | throw e => rfl
  | step access next ih => exact ih _ _

@[simp] theorem run_attempt (p : Prog σ ε α) (s : σ) :
    (p.attempt : Prog σ ε' (Except ε α)).run s = (.ok (p.run s).1, (p.run s).2) := by
  induction p generalizing s with
  | pure a => rfl
  | throw e => rfl
  | step access next ih => exact ih _ _

@[simp] theorem run_tryCatch (p : Prog σ ε α) (handler : ε → Prog σ ε α) (s : σ) :
    (p.tryCatch handler).run s = match p.run s with
      | (.ok a, s') => (.ok a, s')
      | (.error e, s') => (handler e).run s' := by
  induction p generalizing s with
  | pure a => rfl
  | throw e => rfl
  | step access next ih => exact ih _ _

-- A program that is stopped late enough has run to its end.
theorem stopAfter_run (p : Prog σ ε α) (s : σ) :
    ∃ least, ∀ count, least ≤ count → p.stopAfter count s = (p.run s).2 := by
  induction p generalizing s with
  | pure a => exact ⟨0, fun count _ => by cases count <;> rfl⟩
  | throw e => exact ⟨0, fun count _ => by cases count <;> rfl⟩
  | step access next ih =>
      obtain ⟨least, h⟩ := ih (access s).1 (access s).2
      refine ⟨least + 1, fun count hc => ?_⟩
      obtain ⟨count, rfl⟩ := Nat.exists_eq_add_of_le' (Nat.one_le_of_lt hc)
      exact h count (by omega)

theorem bind_bind {γ : Type} (p : Prog σ ε α) (k : α → Prog σ ε β) (l : β → Prog σ ε γ) :
    (p >>= k) >>= l = p >>= fun a => k a >>= l := by
  change (p.bind k).bind l = p.bind fun a => (k a).bind l
  induction p with
  | pure a => rfl
  | throw e => rfl
  | step access next ih =>
      simp only [bind]
      congr 1
      funext b
      exact ih b

theorem ofExcept_ok_bind (a : α) (k : α → Prog σ ε β) :
    ((ofExcept (.ok a) : Prog σ ε α) >>= k) = k a := rfl

theorem run_bind_ok {p : Prog σ ε α} {s s' : σ} {a : α} (h : p.run s = (.ok a, s'))
    (k : α → Prog σ ε β) : (p >>= k).run s = (k a).run s' := by
  simp only [run_bind, h]

theorem run_bind_error {p : Prog σ ε α} {s s' : σ} {e : ε} (h : p.run s = (.error e, s'))
    (k : α → Prog σ ε β) : (p >>= k).run s = (.error e, s') := by
  simp only [run_bind, h]

-- A sequence that returns has a first part that returns.
theorem bind_ok_inv {p : Prog σ ε α} {k : α → Prog σ ε β} {s s' : σ} {b : β}
    (h : (p >>= k).run s = (.ok b, s')) :
    ∃ a middle, p.run s = (.ok a, middle) ∧ (k a).run middle = (.ok b, s') := by
  rw [run_bind] at h
  rcases hp : p.run s with ⟨outcome, middle⟩
  cases outcome with
  | error e => simp [hp] at h
  | ok a => exact ⟨a, middle, rfl, by simpa [hp] using h⟩

-- A sequence that throws throws in its first part or, after it, in its second.
theorem bind_error_inv {p : Prog σ ε α} {k : α → Prog σ ε β} {s s' : σ} {e : ε}
    (h : (p >>= k).run s = (.error e, s')) :
    p.run s = (.error e, s') ∨
      ∃ a middle, p.run s = (.ok a, middle) ∧ (k a).run middle = (.error e, s') := by
  rw [run_bind] at h
  rcases hp : p.run s with ⟨outcome, middle⟩
  cases outcome with
  | error other =>
      left
      simpa [hp] using h
  | ok a => exact Or.inr ⟨a, middle, rfl, by simpa [hp] using h⟩

-- An invariant of every atomic access of a program.
def Preserves (I : σ → Prop) : Prog σ ε α → Prop
  | .pure _ => True
  | .throw _ => True
  | .step access next => ∀ s, I s → I (access s).2 ∧ Preserves I (next (access s).1)

theorem Preserves.run {I : σ → Prop} {p : Prog σ ε α} (h : Preserves I p) {s : σ} (hs : I s) :
    I (p.run s).2 := by
  induction p generalizing s with
  | pure a => exact hs
  | throw e => exact hs
  | step access next ih => exact ih _ (h s hs).2 (h s hs).1

theorem Preserves.bind {I : σ → Prop} {p : Prog σ ε α} {k : α → Prog σ ε β}
    (hp : Preserves I p) (hk : ∀ a, Preserves I (k a)) : Preserves I (p >>= k) := by
  change Preserves I (Prog.bind p k)
  induction p with
  | pure a => exact hk a
  | throw e => trivial
  | step access next ih => exact fun s hs => ⟨(hp s hs).1, ih _ (hp s hs).2⟩

theorem Preserves.bind_atomic {I : σ → Prop} {access : σ → α × σ} {k : α → Prog σ ε β}
    (h : ∀ s, I s → I (access s).2 ∧ Preserves I (k (access s).1)) :
    Preserves I (atomic access >>= k) := h

theorem Preserves.attempt {I : σ → Prop} {p : Prog σ ε α} (hp : Preserves I p) :
    Preserves I (p.attempt : Prog σ ε' (Except ε α)) := by
  induction p with
  | pure a => trivial
  | throw e => trivial
  | step access next ih => exact fun s hs => ⟨(hp s hs).1, ih _ (hp s hs).2⟩

theorem Preserves.tryCatch {I : σ → Prop} {p : Prog σ ε α} {handler : ε → Prog σ ε α}
    (hp : Preserves I p) (hh : ∀ e, Preserves I (handler e)) :
    Preserves I (p.tryCatch handler) := by
  induction p with
  | pure a => trivial
  | throw e => exact hh e
  | step access next ih => exact fun s hs => ⟨(hp s hs).1, ih _ (hp s hs).2⟩

theorem Preserves.ofExcept (I : σ → Prop) (outcome : Except ε α) :
    Preserves I (ofExcept outcome : Prog σ ε α) := by
  cases outcome <;> trivial

theorem Preserves.attemptAtomic {I : σ → Prop} {access : σ → Except ε α × σ}
    (h : ∀ s, I s → I (access s).2) : Preserves I (attemptAtomic access) := by
  intro s hs
  refine ⟨h s hs, ?_⟩
  cases (access s).1 <;> trivial

end Prog

end Ytdlpdroid.Concurrent
