import Mathlib.Logic.Relation

namespace Ytdlpdroid.Concurrent

variable {σ τ : Type*}

-- `P` holds of every step of a run, in the state before it.
def Along (after : σ → τ → σ) (P : σ → τ → Prop) : σ → List τ → Prop
  | _, [] => True
  | s, t :: rest => P s t ∧ Along after P (after s t) rest

variable {after : σ → τ → σ}

-- An invariant under which `P` gives `Q` for one step gives it along every run.
theorem Along.of_invariant {I : σ → Prop} {P Q : σ → τ → Prop}
    (hstep : ∀ s t, I s → P s t → Q s t ∧ I (after s t)) {s : σ} (hI : I s) {steps : List τ}
    (h : Along after P s steps) : Along after Q s steps := by
  induction steps generalizing s with
  | nil => trivial
  | cons t rest ih =>
      obtain ⟨hQ, hnext⟩ := hstep s t hI h.1
      exact ⟨hQ, ih hnext h.2⟩

-- An invariant that gives `Q` for every step gives it along every run.
theorem Along.always {I : σ → Prop} {Q : σ → τ → Prop} (hstep : ∀ s t, I s → Q s t ∧ I (after s t))
    {s : σ} (hI : I s) (steps : List τ) : Along after Q s steps := by
  induction steps generalizing s with
  | nil => trivial
  | cons t rest ih =>
      obtain ⟨hQ, hnext⟩ := hstep s t hI
      exact ⟨hQ, ih hnext⟩

-- A run is simulated when each of its steps is, by one abstract step or by none.
theorem foldl_simulated {κ : Type*} {Step : κ → κ → Prop} {R : κ → σ → Prop}
    (hstep : ∀ k s t, R k s → ∃ next, Relation.ReflGen Step k next ∧ R next (after s t))
    {k : κ} {s : σ} (h : R k s) (steps : List τ) :
    ∃ last, Relation.ReflTransGen Step k last ∧ R last (steps.foldl after s) := by
  induction steps generalizing k s with
  | nil => exact ⟨k, .refl, h⟩
  | cons t rest ih =>
      obtain ⟨next, hnext, hR⟩ := hstep k s t h
      obtain ⟨last, hlast, hrest⟩ := ih hR
      exact ⟨last, hnext.to_reflTransGen.trans hlast, hrest⟩

end Ytdlpdroid.Concurrent
