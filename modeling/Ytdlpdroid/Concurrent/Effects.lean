import Mathlib.Algebra.GroupWithZero.Nat
import Ytdlpdroid.Concurrent.Interleave

namespace Ytdlpdroid.Concurrent

namespace Prog

variable {σ ε ε' α β : Type}

-- A class of accesses. Each has a cost, and what it answers earns a credit.
abbrev Effects (σ : Type) := (β : Type) → (σ → β × σ) → Nat → (β → Nat) → Prop

-- On every path the accesses are of the class, the budget and the credits earned so far pay for
-- each of them, and a value that is returned meets `P` with as much left as it `keeps`, whatever
-- the accesses answer.
def Within (A : Effects σ) (P : α → Prop) (keeps : α → Nat) : Nat → Prog σ ε α → Prop
  | budget, .pure a => P a ∧ keeps a ≤ budget
  | _, .throw _ => True
  | budget, @Prog.step _ _ _ β access next =>
      ∃ cost rest gain, cost + rest ≤ budget ∧ A β access cost gain ∧
        ∀ b, Within A P keeps (rest + gain b) (next b)

-- What is kept of an attempt: nothing of one that failed.
def onOk (keeps : α → Nat) : Except ε α → Nat
  | .ok a => keeps a
  | .error _ => 0

variable {A : Effects σ} {P : α → Prop} {Q : β → Prop} {keeps : α → Nat} {after : β → Nat}
  {budget more : Nat}
  {p : Prog σ ε α}

theorem Within.mono (h : Within A P keeps budget p) {P' : α → Prop} {keeps' : α → Nat}
    (hP : ∀ a, P a → P' a ∧ keeps' a ≤ keeps a) (hmore : budget ≤ more) :
    Within A P' keeps' more p := by
  induction p generalizing budget more with
  | pure a => exact ⟨(hP a h.1).1, Nat.le_trans (hP a h.1).2 (Nat.le_trans h.2 hmore)⟩
  | throw e => trivial
  | step access next ih =>
      obtain ⟨cost, rest, gain, hle, hA, hnext⟩ := h
      exact ⟨cost, rest, gain, Nat.le_trans hle hmore, hA, fun b => ih b (hnext b) (Nat.le_refl _)⟩

-- A program runs on any larger budget.
theorem Within.spare (h : Within A P keeps budget p) (hmore : budget ≤ more) :
    Within A P keeps more p :=
  h.mono (fun a hP => ⟨hP, Nat.le_refl (keeps a)⟩) hmore

-- A part of the budget that is not needed is left at the end.
theorem Within.frame (h : Within A P keeps budget p) (extra : Nat) :
    Within A P (fun a => keeps a + extra) (budget + extra) p := by
  induction p generalizing budget with
  | pure a => exact ⟨h.1, Nat.add_le_add_right h.2 extra⟩
  | throw e => trivial
  | step access next ih =>
      obtain ⟨cost, rest, gain, hle, hA, hnext⟩ := h
      refine ⟨cost, rest + extra, gain, by omega, hA, fun b => ?_⟩
      exact (ih b (hnext b)).spare (by omega)

-- A larger class of accesses.
theorem Within.subset (h : Within A P keeps budget p) {A' : Effects σ}
    (hA : ∀ β (access : σ → β × σ) cost gain, A β access cost gain → A' β access cost gain) :
    Within A' P keeps budget p := by
  induction p generalizing budget with
  | pure a => exact h
  | throw e => trivial
  | step access next ih =>
      obtain ⟨cost, rest, gain, hle, haccess, hnext⟩ := h
      exact ⟨cost, rest, gain, hle, hA _ access cost gain haccess, fun b => ih b (hnext b)⟩

-- What the first part keeps is the budget of the second.
theorem Within.bind {k : α → Prog σ ε β} (hp : Within A P keeps budget p)
    (hk : ∀ a, P a → Within A Q after (keeps a) (k a)) : Within A Q after budget (p >>= k) := by
  change Within A Q after budget (p.bind k)
  induction p generalizing budget with
  | pure a => exact (hk a hp.1).spare hp.2
  | throw e => trivial
  | step access next ih =>
      obtain ⟨cost, rest, gain, hle, hA, hnext⟩ := hp
      exact ⟨cost, rest, gain, hle, hA, fun b => ih b (hnext b)⟩

theorem Within.bind_return {f : α → β} (hp : Within A P keeps budget p)
    (hf : ∀ a, P a → Q (f a) ∧ after (f a) ≤ keeps a) :
    Within A Q after budget (p >>= fun a => .pure (f a)) :=
  hp.bind hf

theorem Within.attempt (h : Within A P keeps budget p) :
    Within A (fun outcome => ∀ a, outcome = .ok a → P a) (onOk keeps) budget
      (p.attempt : Prog σ ε' (Except ε α)) := by
  induction p generalizing budget with
  | pure a =>
      refine ⟨?_, h.2⟩
      rintro b ⟨⟩
      exact h.1
  | throw e => exact ⟨nofun, Nat.zero_le budget⟩
  | step access next ih =>
      obtain ⟨cost, rest, gain, hle, hA, hnext⟩ := h
      exact ⟨cost, rest, gain, hle, hA, fun b => ih b (hnext b)⟩

-- A handler that costs nothing.
theorem Within.tryCatch {handler : ε → Prog σ ε α} (hp : Within A P keeps budget p)
    (hh : ∀ e, Within A P keeps 0 (handler e)) : Within A P keeps budget (p.tryCatch handler) := by
  induction p generalizing budget with
  | pure a => exact hp
  | throw e => exact (hh e).spare (Nat.zero_le budget)
  | step access next ih =>
      obtain ⟨cost, rest, gain, hle, hA, hnext⟩ := hp
      exact ⟨cost, rest, gain, hle, hA, fun b => ih b (hnext b)⟩

theorem Within.ofExcept {outcome : Except ε α} (h : ∀ a, outcome = .ok a → P a ∧ keeps a ≤ budget) :
    Within A P keeps budget (ofExcept outcome) := by
  cases outcome with
  | ok a => exact h a rfl
  | error e => trivial

theorem Within.atomic {access : σ → α × σ} {cost : Nat} {gain : α → Nat} (hA : A α access cost gain)
    (hP : ∀ a, P a) : Within A P gain cost (atomic access : Prog σ ε α) := by
  refine ⟨cost, 0, gain, Nat.le_refl cost, hA, fun a => ⟨hP a, ?_⟩⟩
  exact Nat.le_of_eq (Nat.zero_add _).symm

theorem Within.attemptAtomic {access : σ → Except ε α × σ} {cost : Nat} {gain : Except ε α → Nat}
    (hA : A (Except ε α) access cost gain) (hP : ∀ a, P a) :
    Within A P (fun a => gain (.ok a)) cost (attemptAtomic access) := by
  refine ⟨cost, 0, gain, Nat.le_refl cost, hA, fun outcome => ?_⟩
  cases outcome with
  | ok a => exact ⟨hP a, Nat.le_of_eq (Nat.zero_add _).symm⟩
  | error e => trivial

-- A task with its budget and what it returns.
structure Task (σ ε α : Type) where
  prog : Prog σ ε α
  budget : Nat
  returns : α → Prop

def Task.Fits (A : Effects σ) (task : Task σ ε α) : Prop :=
  Within A task.returns (fun _ => 0) task.budget task.prog

def Task.Returned (task : Task σ ε α) (outcome : Except ε α) : Prop :=
  ∀ a, outcome = .ok a → task.returns a

theorem Within.drain {tasks : List (Task σ ε α)} (h : ∀ task ∈ tasks, task.Fits A) :
    Within A (List.Forall₂ Task.Returned tasks) (fun _ => 0) (tasks.map Task.budget).sum
      (drain (tasks.map Task.prog) : Prog σ ε' _) := by
  induction tasks with
  | nil => exact ⟨List.Forall₂.nil, Nat.le_refl _⟩
  | cons task rest ih =>
      obtain ⟨hfirst, hrest⟩ := List.forall_mem_cons.mp h
      rw [List.map_cons, List.sum_cons]
      have hattempt : Within A _ _ _ (task.prog.attempt : Prog σ ε' _) := hfirst.attempt
      refine Within.bind (hattempt.frame _) fun outcome houtcome => ?_
      refine Within.bind_return ((ih hrest).spare (by omega)) ?_
      exact fun others hothers => ⟨List.Forall₂.cons houtcome hothers, Nat.le_refl _⟩

theorem sum_set {numbers : List Nat} {index old : Nat} (h : numbers[index]? = some old)
    (new : Nat) :
    (numbers.set index new).sum + old = numbers.sum + new := by
  induction numbers generalizing index with
  | nil => cases h
  | cons first rest ih =>
      cases index with
      | zero =>
          obtain rfl : first = old := Option.some.inj h
          simp only [List.set_cons_zero, List.sum_cons]
          omega
      | succ index =>
          have hrest : (rest.set index new).sum + old = rest.sum + new := ih h
          simp only [List.set_cons_succ, List.sum_cons]
          omega

theorem Task.returned_set {tasks : List (Task σ ε α)} {index : Nat} {task next : Task σ ε α}
    (htask : tasks[index]? = some task) (hnext : next.returns = task.returns)
    {outcomes : List (Except ε α)}
    (h : List.Forall₂ Task.Returned (tasks.set index next) outcomes) :
    List.Forall₂ Task.Returned tasks outcomes := by
  have hback : tasks = (tasks.set index next).set index task := by
    obtain ⟨hlt, he⟩ := List.getElem?_eq_some_iff.mp htask
    simp only [List.set_set, ← he, List.set_getElem_self]
  have hlength : index < tasks.length := (List.getElem?_eq_some_iff.mp htask).1
  rw [hback]
  refine forall₂_set h index (List.getElem?_set_self hlength) task fun outcome houtcome a ha => ?_
  exact hnext ▸ houtcome a ha

-- The budget of an interleaving is the sum of the budgets of its tasks.
theorem Within.par (schedule : List Nat) {tasks : List (Task σ ε α)}
    (h : ∀ task ∈ tasks, task.Fits A) :
    Within A (List.Forall₂ Task.Returned tasks) (fun _ => 0) (tasks.map Task.budget).sum
      (par schedule (tasks.map Task.prog) : Prog σ ε' _) := by
  induction schedule generalizing tasks with
  | nil => exact Within.drain h
  | cons index schedule ih =>
      unfold Prog.par
      split
      · rename_i β access next hstep
        obtain ⟨task, htask, hprog⟩ := List.getElem?_map ▸ hstep |> Option.map_eq_some_iff.mp
        have hfits : Within A task.returns (fun _ => 0) task.budget (.step access next) :=
          hprog ▸ h task (List.mem_of_getElem? htask)
        obtain ⟨cost, rest, gain, hle, hA, hnext⟩ := hfits
        have hbudget : (tasks.map Task.budget)[index]? = some task.budget := by
          rw [List.getElem?_map, htask]
          rfl
        have hsum := sum_set hbudget rest
        refine ⟨cost, ((tasks.map Task.budget).set index rest).sum, gain, by omega, hA, fun b => ?_⟩
        have hset : ∀ other ∈ tasks.set index { task with prog := next b, budget := rest + gain b },
            other.Fits A := by
          intro other hm
          rcases List.mem_or_eq_of_mem_set hm with hm | rfl
          · exact h other hm
          · exact hnext b
        have hpar := ih hset
        rw [List.map_set, List.map_set] at hpar
        refine hpar.mono (fun outcomes houtcomes =>
          ⟨Task.returned_set htask (by rfl) houtcomes, Nat.le_refl _⟩) ?_
        have hgained : ((tasks.map Task.budget).set index (rest + gain b)).sum + task.budget =
            (tasks.map Task.budget).sum + (rest + gain b) := sum_set hbudget (rest + gain b)
        dsimp only
        omega
      · exact ih h

theorem Within.preserves {I : σ → Prop} (h : Within A P keeps budget p)
    (hI : ∀ β (access : σ → β × σ) cost gain, A β access cost gain → ∀ s, I s → I (access s).2) :
    Preserves I p := by
  induction p generalizing budget with
  | pure a => trivial
  | throw e => trivial
  | step access next ih =>
      obtain ⟨cost, rest, gain, -, hA, hnext⟩ := h
      exact fun s hs => ⟨hI _ access cost gain hA s hs, ih _ (hnext _)⟩

-- At every moment of a run, what it has spent beyond its budget it has earned.
theorem Within.stopAfter_le (h : Within A P keeps budget p) (spent earned : σ → Nat)
    (hspent : ∀ β (access : σ → β × σ) cost gain, A β access cost gain →
      ∀ s, spent (access s).2 ≤ spent s + cost ∧ earned s + gain (access s).1 ≤ earned (access s).2)
    (count : Nat) (s : σ) :
    spent (p.stopAfter count s) + earned s ≤ spent s + budget + earned (p.stopAfter count s) := by
  induction count generalizing budget p s with
  | zero =>
      rw [Prog.stopAfter]
      omega
  | succ count ih =>
      cases p with
      | pure a =>
          rw [Prog.stopAfter]
          omega
      | throw e =>
          rw [Prog.stopAfter]
          omega
      | step access next =>
          obtain ⟨cost, rest, gain, hle, hA, hnext⟩ := h
          obtain ⟨hcost, hgain⟩ := hspent _ access cost gain hA s
          have hrest := ih (hnext (access s).1) (access s).2
          rw [Prog.stopAfter]
          omega

theorem Preserves.stopAfter {I : σ → Prop} (h : Preserves I p) (count : Nat) {s : σ} (hs : I s) :
    I (p.stopAfter count s) := by
  induction p generalizing count s with
  | pure a => cases count <;> exact hs
  | throw e => cases count <;> exact hs
  | step access next ih =>
      cases count with
      | zero => exact hs
      | succ count => exact ih _ (h s hs).2 count (h s hs).1

end Prog

end Ytdlpdroid.Concurrent
