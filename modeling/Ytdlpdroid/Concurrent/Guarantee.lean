import Mathlib.Data.List.Forall2
import Mathlib.Order.Defs.Unbundled
import Ytdlpdroid.Concurrent.Effects

namespace Ytdlpdroid.Concurrent

namespace Prog

variable {σ ε ε' α β : Type}

-- A program that starts in the state `s`, or later: each of its accesses is a step of `R`, and a
-- value that it returns meets `Q` from then on, as long as the others take steps of `R` only.
def Guarantees (R : σ → σ → Prop) (Q : α → σ → Prop) : Prog σ ε α → σ → Prop
  | .pure a, s => ∀ s', R s s' → Q a s'
  | .throw _, _ => True
  | .step access next, s =>
      ∀ s', R s s' → R s' (access s').2 ∧ Guarantees R Q (next (access s').1) (access s').2

variable {R : σ → σ → Prop} [IsPreorder σ R] {Q : α → σ → Prop} {p : Prog σ ε α} {s s' : σ}

theorem Guarantees.later (h : Guarantees R Q p s) (hR : R s s') : Guarantees R Q p s' := by
  cases p with
  | pure a => exact fun later hlater => h later (trans_of R hR hlater)
  | throw e => trivial
  | step access next => exact fun later hlater => h later (trans_of R hR hlater)

omit [IsPreorder σ R] in
theorem Guarantees.mono (h : Guarantees R Q p s) {Q' : α → σ → Prop} (hQ : ∀ a s, Q a s → Q' a s) :
    Guarantees R Q' p s := by
  induction p generalizing s with
  | pure a => exact fun later hlater => hQ a later (h later hlater)
  | throw e => trivial
  | step access next ih => exact fun later hlater => ⟨(h later hlater).1, ih _ (h later hlater).2⟩

-- What a value meets when it is returned it meets ever after.
theorem Guarantees.stable (h : Guarantees R Q p s) :
    Guarantees R (fun a s => ∀ s', R s s' → Q a s') p s := by
  induction p generalizing s with
  | pure a => exact fun later hlater last hlast => h last (trans_of R hlater hlast)
  | throw e => trivial
  | step access next ih => exact fun later hlater => ⟨(h later hlater).1, ih _ (h later hlater).2⟩

-- A value is returned in a state that is later than that of the start.
theorem Guarantees.since (h : Guarantees R Q p s) :
    Guarantees R (fun a s' => R s s' ∧ Q a s') p s := by
  have hfrom : ∀ start, R start s → Guarantees R (fun a s' => R start s' ∧ Q a s') p s := by
    intro start hstart
    induction p generalizing s with
    | pure a => exact fun later hlater => ⟨trans_of R hstart hlater, h later hlater⟩
    | throw e => trivial
    | step access next ih =>
        intro later hlater
        obtain ⟨hstep, hnext⟩ := h later hlater
        exact ⟨hstep, ih _ hnext (trans_of R (trans_of R hstart hlater) hstep)⟩
  exact hfrom s (refl_of R s)

theorem Guarantees.bind {k : α → Prog σ ε β} {Q' : β → σ → Prop}
    (h : Guarantees R (fun a s => Guarantees R Q' (k a) s) p s) : Guarantees R Q' (p >>= k) s := by
  change Guarantees R Q' (p.bind k) s
  induction p generalizing s with
  | pure a => exact h s (refl_of R s)
  | throw e => trivial
  | step access next ih => exact fun later hlater => ⟨(h later hlater).1, ih _ (h later hlater).2⟩

omit [IsPreorder σ R] in
theorem Guarantees.attempt (h : Guarantees R Q p s) :
    Guarantees R (fun outcome s => ∀ a, outcome = .ok a → Q a s)
      (p.attempt : Prog σ ε' (Except ε α)) s := by
  induction p generalizing s with
  | pure a =>
      rintro later hlater b ⟨⟩
      exact h later hlater
  | throw e => exact fun later hlater => nofun
  | step access next ih => exact fun later hlater => ⟨(h later hlater).1, ih _ (h later hlater).2⟩

omit [IsPreorder σ R] in
theorem Guarantees.tryCatch {handler : ε → Prog σ ε α} (h : Guarantees R Q p s)
    (hh : ∀ e s', Guarantees R Q (handler e) s') : Guarantees R Q (p.tryCatch handler) s := by
  induction p generalizing s with
  | pure a => exact h
  | throw e => exact hh e s
  | step access next ih => exact fun later hlater => ⟨(h later hlater).1, ih _ (h later hlater).2⟩

omit [IsPreorder σ R] in
theorem Guarantees.atomic {access : σ → α × σ} (h : ∀ s', R s s' → R s' (access s').2 ∧
    ∀ later, R (access s').2 later → Q (access s').1 later) :
      Guarantees R Q (atomic access : Prog σ ε α) s :=
  h

omit [IsPreorder σ R] in
theorem Guarantees.attemptAtomic {access : σ → Except ε α × σ}
    (h : ∀ s', R s s' → R s' (access s').2 ∧ ∀ a, (access s').1 = .ok a →
      ∀ later, R (access s').2 later → Q a later) :
    Guarantees R Q (attemptAtomic access) s := by
  intro s' hs'
  obtain ⟨hstep, hvalue⟩ := h s' hs'
  refine ⟨hstep, ?_⟩
  cases hanswer : (access s').1 with
  | ok a => exact hvalue a hanswer
  | error e => trivial

omit [IsPreorder σ R] in
theorem Guarantees.ofExcept {outcome : Except ε α}
    (h : ∀ a, outcome = .ok a → ∀ s', R s s' → Q a s') :
    Guarantees R Q (ofExcept outcome) s := by
  cases outcome with
  | ok a => exact h a rfl
  | error e => trivial

omit [IsPreorder σ R] in
-- Accesses that are steps of `R` in every state guarantee what is known of the value alone.
theorem Within.guarantees {A : Effects σ} {P : α → Prop} {keeps : α → Nat} {budget : Nat}
    (h : Within A P keeps budget p)
    (hA : ∀ β (access : σ → β × σ) cost gain, A β access cost gain → ∀ s, R s (access s).2)
    (s : σ) :
    Guarantees R (fun a _ => P a) p s := by
  induction p generalizing budget s with
  | pure a => exact fun _ _ => h.1
  | throw e => trivial
  | step access next ih =>
      obtain ⟨cost, rest, gain, -, haccess, hnext⟩ := h
      exact fun later _ => ⟨hA _ access cost gain haccess later, ih _ (hnext _) _⟩

theorem Guarantees.run (h : Guarantees R Q p s) :
    R s (p.run s).2 ∧ ∀ a s', p.run s = (.ok a, s') → Q a s' := by
  induction p generalizing s with
  | pure a =>
      refine ⟨refl_of R s, fun b s' hrun => ?_⟩
      obtain ⟨⟩ := hrun
      exact h s (refl_of R s)
  | throw e => exact ⟨refl_of R s, nofun⟩
  | step access next ih =>
      obtain ⟨hstep, hnext⟩ := h s (refl_of R s)
      obtain ⟨hrest, hvalue⟩ := ih _ hnext
      exact ⟨trans_of R hstep hrest, hvalue⟩

-- At every moment of a run, all that has happened are steps of `R`.
theorem Guarantees.stopAfter (h : Guarantees R Q p s) (count : Nat) :
    R s (p.stopAfter count s) := by
  induction count generalizing p s with
  | zero => exact refl_of R s
  | succ count ih =>
      cases p with
      | pure a => exact refl_of R s
      | throw e => exact refl_of R s
      | step access next =>
          obtain ⟨hstep, hnext⟩ := h s (refl_of R s)
          exact trans_of R hstep (ih hnext)

-- One element of a list is replaced, and the relation to the other list is changed.
theorem forall₂_step {κ ρ : Type*} {S T : κ → ρ → Prop} {tasks : List κ} {posts : List ρ}
    (h : List.Forall₂ S tasks posts) (hall : ∀ task post, S task post → T task post) (index : Nat)
    {task : κ} (ht : tasks[index]? = some task) (next : κ)
    (hnext : ∀ post, S task post → T next post) :
    List.Forall₂ T (tasks.set index next) posts := by
  induction h generalizing index with
  | nil => simp at ht
  | cons hfirst hrest ih =>
      cases index with
      | zero =>
          obtain rfl := Option.some.inj ht
          exact .cons (hnext _ hfirst) (hrest.imp hall)
      | succ index => exact .cons (hall _ _ hfirst) (ih index ht)

-- The values that tasks return meet what the tasks guarantee.
def Met (s : σ) (post : α → σ → Prop) (outcome : Except ε α) : Prop :=
  ∀ a, outcome = .ok a → post a s

theorem Guarantees.drain {tasks : List (Prog σ ε α)} {posts : List (α → σ → Prop)}
    (h : List.Forall₂ (fun task post => Guarantees R post task s) tasks posts) :
    Guarantees R (fun outcomes s => List.Forall₂ (Met s) posts outcomes)
      (drain tasks : Prog σ ε' _) s := by
  induction tasks generalizing posts s with
  | nil =>
      cases h
      exact fun _ _ => List.Forall₂.nil
  | cons task rest ih =>
      cases h with
      | cons hfirst hrest =>
          refine Guarantees.bind
            (hfirst.stable.attempt.since.mono fun outcome s₁ ⟨hlater, houtcome⟩ => ?_)
          have hothers := ih (hrest.imp fun _ _ h => h.later hlater)
          refine Guarantees.bind
            (hothers.stable.since.mono fun others s₂ ⟨hrun, hmet⟩ last hlast => ?_)
          exact .cons (fun a ha => houtcome a ha last (trans_of R hrun hlast)) (hmet last hlast)

-- Tasks that run interleaved guarantee together what each of them guarantees.
theorem Guarantees.par (schedule : List Nat) {tasks : List (Prog σ ε α)}
    {posts : List (α → σ → Prop)}
    (h : List.Forall₂ (fun task post => Guarantees R post task s) tasks posts) :
    Guarantees R (fun outcomes s => List.Forall₂ (Met s) posts outcomes)
      (par schedule tasks : Prog σ ε' _) s := by
  induction schedule generalizing tasks s with
  | nil => exact Guarantees.drain h
  | cons index schedule ih =>
      unfold Prog.par
      split
      · rename_i β access next ht
        intro later hlater
        obtain ⟨post, hpost⟩ := forall₂_get h index ht
        obtain ⟨hstep, -⟩ := hpost later hlater
        refine ⟨hstep, ih (forall₂_step h (fun task post h => ?_) index ht _ fun post h => ?_)⟩
        · exact h.later (trans_of R hlater hstep)
        · exact (h later hlater).2
      · exact ih h

end Prog

end Ytdlpdroid.Concurrent
