import Mathlib.Algebra.Group.Int.Defs
import Mathlib.Algebra.Group.Nat.Defs
import Ytdlpdroid.Model.Throwable

namespace Ytdlpdroid

open Text

def magnitude : Str → Option Nat
  | [] => none
  | digits => digits.foldlM (fun value c => (digitOf c).map (value * 10 + ·)) 0

-- The value of a decimal numeral that fits in `bits` bits in two's complement.
def toIntegerOrNull (bits : Nat) : Str → Option Int
  | '-' :: digits =>
      (magnitude digits).bind fun m => if m ≤ 2 ^ (bits - 1) then some (-(m : Int)) else none
  | '+' :: digits => (magnitude digits).bind fun m => if m < 2 ^ (bits - 1) then some m else none
  | digits => (magnitude digits).bind fun m => if m < 2 ^ (bits - 1) then some m else none

def toIntOrNull (text : Str) : Option Int := toIntegerOrNull 32 text

def toLongOrNull (text : Str) : Option Int := toIntegerOrNull 64 text

-- `String.toLong` accepts the same numerals and throws on all other texts.
def toLong (text : Str) : Except Throwable Int :=
  match toLongOrNull text with
  | some n => .ok n
  | none =>
      .error ⟨.numberFormatException, some (str "For input string: \"" ++ text ++ str "\""), []⟩

-- A Long keeps the value modulo 2^64.
def wrapLong (n : Int) : Int := (n + 2 ^ 63) % 2 ^ 64 - 2 ^ 63

theorem wrapLong_of_mem {n : Int} (hlow : -2 ^ 63 ≤ n) (hhigh : n < 2 ^ 63) : wrapLong n = n := by
  unfold wrapLong
  omega

-- An Int keeps the value modulo 2^32.
def wrapInt (n : Int) : Int := (n + 2 ^ 31) % 2 ^ 32 - 2 ^ 31

-- `String.hashCode`: the polynomial in 31 over the UTF-16 code units, as an Int.
def hashCode (text : Str) : Int :=
  (utf16 text).foldl (fun hash unit => wrapInt (31 * hash + (unit.toNat : Int))) 0

-- `maxWithOrNull` for a comparator given by a list of keys compared in turn.
-- Of several greatest elements the first one is taken.
def maxWithOrNull {α : Type} (keys : α → List Int) : List α → Option α
  | [] => none
  | first :: rest => some (rest.foldl (fun best x => if keys best < keys x then x else best) first)

end Ytdlpdroid
