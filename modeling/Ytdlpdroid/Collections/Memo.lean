import Mathlib.Logic.Function.Basic

namespace Ytdlpdroid.Collections

section

variable {α κ ν ε : Type*} (key : α → κ) (compute : α → Except ε ν)

-- In a table of results under keys of their arguments: every entry is the result of its owner,
-- which has the entry's key.
def Owned (table : κ → Option ν) (owner : κ → Option α) : Prop :=
  ∀ k, (table k = none ∧ owner k = none) ∨
    ∃ value a, table k = some value ∧ owner k = some a ∧ key a = k ∧ compute a = .ok value

section

variable {key compute}

theorem owned_empty : Owned key compute (fun _ => none) fun _ => none := fun _ => .inl ⟨rfl, rfl⟩

theorem Owned.key_owner {table : κ → Option ν} {owner : κ → Option α}
    (h : Owned key compute table owner) {k : κ} {other : α} (ho : owner k = some other) :
    key other = k := by
  rcases h k with ⟨-, howner⟩ | ⟨-, found, -, howner, hkey, -⟩
  · rw [howner] at ho
    simp at ho
  · rw [howner] at ho
    obtain rfl := Option.some.inj ho
    exact hkey

end

variable [DecidableEq κ]

-- A computation that fails is not remembered.
def getOrPut (table : κ → Option ν) (a : α) : Except ε ν × (κ → Option ν) :=
  match table (key a) with
  | some value => (.ok value, table)
  | none =>
      match compute a with
      | .ok value => (.ok value, Function.update table (key a) (some value))
      | .error e => (.error e, table)

-- The owners after an access: its argument owns the entry that it made.
def credit (before after : κ → Option ν) (a : α) (owner : κ → Option α) : κ → Option α :=
  if before (key a) = none ∧ after (key a) ≠ none then
    Function.update owner (key a) (some a)
  else owner

variable {key compute} {table : κ → Option ν} {owner : κ → Option α} {a : α}

theorem credit_self : credit key table table a owner = owner :=
  if_neg fun h => h.2 h.1

-- The answer is the result of the argument, or of the owner of the entry under its key.
theorem Owned.getOrPut_fst (h : Owned key compute table owner) (a : α) :
    (getOrPut key compute table a).1 = compute ((owner (key a)).getD a) := by
  rcases h (key a) with ⟨htable, howner⟩ | ⟨value, other, htable, howner, -, hvalue⟩
  · simp only [getOrPut, htable, howner, Option.getD_none]
    cases compute a with
    | ok value => rfl
    | error e => rfl
  · simp only [getOrPut, htable, howner, Option.getD_some, hvalue]

theorem Owned.getOrPut (h : Owned key compute table owner) (a : α) :
    Owned key compute (getOrPut key compute table a).2
      (credit key table (getOrPut key compute table a).2 a owner) := by
  cases htable : table (key a) with
  | some value =>
      have hsame : (Collections.getOrPut key compute table a).2 = table := by
        simp only [Collections.getOrPut, htable]
      rwa [hsame, credit_self]
  | none =>
      cases hcompute : compute a with
      | error e =>
          have hsame : (Collections.getOrPut key compute table a).2 = table := by
            simp only [Collections.getOrPut, htable, hcompute]
          rwa [hsame, credit_self]
      | ok value =>
          have hput : (Collections.getOrPut key compute table a).2 =
              Function.update table (key a) (some value) := by
            simp only [Collections.getOrPut, htable, hcompute]
          have hcredit : credit key table (Function.update table (key a) (some value)) a owner =
              Function.update owner (key a) (some a) := if_pos ⟨htable, by simp⟩
          rw [hput, hcredit]
          intro k
          by_cases hk : k = key a
          · subst hk
            exact .inr ⟨value, a, by simp, by simp, rfl, hcompute⟩
          · rw [Function.update_of_ne hk, Function.update_of_ne hk]
            exact h k

end

end Ytdlpdroid.Collections
