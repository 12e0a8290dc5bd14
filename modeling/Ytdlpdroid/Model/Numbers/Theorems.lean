import Mathlib.Data.Int.Order.Basic
import Mathlib.Data.List.Forall2
import Mathlib.Data.List.Lex
import Ytdlpdroid.Collections.Greatest
import Ytdlpdroid.Model.Numbers
import Ytdlpdroid.Text.Regex

namespace Ytdlpdroid

open Text Collections

theorem maxWithOrNull_mem {α : Type} {keys : α → List Int} {all : List α} {found : α}
    (h : maxWithOrNull keys all = some found) : found ∈ all := by
  cases all with
  | nil => cases h
  | cons first rest =>
      obtain rfl := Option.some.inj h
      clear h
      induction rest generalizing first with
      | nil => exact List.mem_cons_self
      | cons next rest ih =>
          rw [List.foldl_cons]
          split_ifs
          · exact List.mem_cons_of_mem _ (ih next)
          · rcases List.mem_cons.mp (ih first) with hfirst | hrest
            · exact List.mem_cons.mpr (Or.inl hfirst)
            · exact List.mem_cons_of_mem _ (List.mem_cons_of_mem _ hrest)

theorem maxWithOrNull_greatest {α : Type} {keys : α → List Int} {all : List α} {found : α}
    (h : maxWithOrNull keys all = some found) : IsFirstGreatest keys all found := by
  cases all with
  | nil => cases h
  | cons first rest =>
      obtain rfl := Option.some.inj h
      convert IsFirstGreatest.foldl keys first rest

theorem maxWithOrNull_eq_none {α : Type} {keys : α → List Int} {all : List α} :
    maxWithOrNull keys all = none ↔ all = [] := by
  cases all with
  | nil => simp [maxWithOrNull]
  | cons first rest => simp [maxWithOrNull]

-- What is made from each element of a list can be compared in its place.
theorem maxWithOrNull_rel {α β : Type} {R : α → β → Prop} {keys : α → List Int}
    {keys' : β → List Int} (hkeys : ∀ a b, R a b → keys a = keys' b) {sources : List α}
    {all : List β} (h : List.Forall₂ R sources all) :
    Option.Rel R (maxWithOrNull keys sources) (maxWithOrNull keys' all) := by
  cases h with
  | nil => exact .none
  | cons hfirst hrest =>
      refine .some (List.rel_foldl (P := R) (fun best best' hbest x x' hx => ?_) hfirst hrest)
      simp only [hkeys best best' hbest, hkeys x x' hx]
      split_ifs
      · exact hx
      · exact hbest

theorem wrapLong_lt (n : Int) : wrapLong n < 2 ^ 63 := by
  unfold wrapLong
  omega

theorem wrapInt_of_mem {n : Int} (hlow : -2 ^ 31 ≤ n) (hhigh : n < 2 ^ 31) : wrapInt n = n := by
  unfold wrapInt
  omega

-- The number that a run of ASCII digits spells.
def numberOf (digits : Str) : Nat := Nat.ofDigitChars 10 digits 0

theorem isDigit_iff {c : Char} : Regex.isDigit c ↔ 48 ≤ c.toNat ∧ c.toNat ≤ 57 := by
  simp only [Regex.isDigit, Bool.and_eq_true, decide_eq_true_eq]
  exact Iff.rfl

theorem digitOf_of_isDigit {c : Char} (h : Regex.isDigit c) :
    digitOf c = some (c.toNat - '0'.toNat) := by
  obtain ⟨hlow, hhigh⟩ := isDigit_iff.mp h
  rw [digitOf, decimalZeros, List.find?_cons_of_pos
    (by simp only [Bool.and_eq_true, decide_eq_true_eq]; omega)]
  rfl

theorem foldlM_digits {digits : Str} (h : ∀ c ∈ digits, Regex.isDigit c) (value : Nat) :
    digits.foldlM (fun value c => (digitOf c).map (value * 10 + ·)) value =
      some (Nat.ofDigitChars 10 digits value) := by
  induction digits generalizing value with
  | nil => rfl
  | cons c digits ih =>
      obtain ⟨hc, hdigits⟩ := List.forall_mem_cons.mp h
      rw [List.foldlM_cons, digitOf_of_isDigit hc, Nat.ofDigitChars_cons, Nat.mul_comm 10]
      exact ih hdigits _

theorem ofDigitChars_lt {digits : Str} (h : ∀ c ∈ digits, Regex.isDigit c) (value : Nat) :
    Nat.ofDigitChars 10 digits value < (value + 1) * 10 ^ digits.length := by
  induction digits generalizing value with
  | nil => simp
  | cons c digits ih =>
      obtain ⟨hc, hdigits⟩ := List.forall_mem_cons.mp h
      have hdigit : c.toNat - '0'.toNat < 10 := by
        have hhigh := (isDigit_iff.mp hc).2
        have hzero : '0'.toNat = 48 := rfl
        omega
      calc Nat.ofDigitChars 10 (c :: digits) value
          = Nat.ofDigitChars 10 digits (10 * value + (c.toNat - '0'.toNat)) := Nat.ofDigitChars_cons
        _ < (10 * value + (c.toNat - '0'.toNat) + 1) * 10 ^ digits.length := ih hdigits _
        _ ≤ (value + 1) * 10 * 10 ^ digits.length := Nat.mul_le_mul_right _ (by omega)
        _ = (value + 1) * 10 ^ (c :: digits).length := by
          rw [List.length_cons, pow_succ', Nat.mul_assoc]

-- A number of at most nine digits fits in an Int.
theorem toIntOrNull_digits {digits : Str} (h : ∀ c ∈ digits, Regex.isDigit c) (hne : digits ≠ [])
    (hlength : digits.length ≤ 9) : toIntOrNull digits = some (numberOf digits : Int) := by
  have hmagnitude : magnitude digits = some (numberOf digits) := by
    rw [magnitude.eq_def]
    cases digits with
    | nil => exact absurd rfl hne
    | cons c more => exact foldlM_digits h 0
  have hfits : numberOf digits < 2 ^ (32 - 1) :=
    calc numberOf digits < (0 + 1) * 10 ^ digits.length := ofDigitChars_lt h 0
      _ ≤ (0 + 1) * 10 ^ 9 := Nat.mul_le_mul_left _ (Nat.pow_le_pow_right (by omega) hlength)
      _ ≤ 2 ^ (32 - 1) := by decide
  rw [toIntOrNull, toIntegerOrNull.eq_def]
  split
  · exact absurd (h '-' List.mem_cons_self) (by decide)
  · exact absurd (h '+' List.mem_cons_self) (by decide)
  · rw [hmagnitude, Option.bind_some, if_pos hfits]

end Ytdlpdroid
