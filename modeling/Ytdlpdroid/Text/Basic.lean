import Mathlib.Data.List.Infix
import Mathlib.Data.List.DropRight

namespace Ytdlpdroid.Text

-- A text is the list of its characters. Unpaired surrogates are not characters.
abbrev Str := List Char

def str (text : String) : Str := text.toList

-- The UTF-16 code units of a code point: two beyond the basic plane, else one.
def codePointUnits (n : Nat) : List UInt16 :=
  if n < 0x10000 then [UInt16.ofNat n]
  else [UInt16.ofNat (0xD800 + (n - 0x10000) / 0x400),
    UInt16.ofNat (0xDC00 + (n - 0x10000) % 0x400)]

def units (c : Char) : List UInt16 := codePointUnits c.toNat

def utf16 (text : Str) : List UInt16 := text.flatMap units

@[simp] theorem utf16_nil : utf16 [] = [] := rfl

@[simp] theorem utf16_cons (c : Char) (rest : Str) :
    utf16 (c :: rest) = units c ++ utf16 rest := rfl

@[simp] theorem utf16_append (left right : Str) :
    utf16 (left ++ right) = utf16 left ++ utf16 right :=
  List.flatMap_append

theorem codePointUnits_length (n : Nat) :
    0 < (codePointUnits n).length ∧ (codePointUnits n).length ≤ 2 := by
  unfold codePointUnits
  split_ifs <;> simp

theorem units_length_pos (c : Char) : 0 < (units c).length := (codePointUnits_length c.toNat).1

-- The value of a hexadecimal digit, of ASCII only.
def asciiHexDigit (c : Char) : Option Nat :=
  if '0' ≤ c ∧ c ≤ '9' then some (c.toNat - 0x30)
  else if 'a' ≤ c ∧ c ≤ 'f' then some (c.toNat - 0x57)
  else if 'A' ≤ c ∧ c ≤ 'F' then some (c.toNat - 0x37)
  else none

def startsWith (text pre : Str) : Bool := pre.isPrefixOf text

def containsText (text part : Str) : Bool := decide (part <:+: text)

-- The white space of the platform's `isWhitespace`.
def isWhitespace (c : Char) : Bool :=
  let n := c.toNat
  (9 ≤ n && n ≤ 13) || (28 ≤ n && n ≤ 32) || n == 0xA0 || n == 0x1680 ||
    (0x2000 ≤ n && n ≤ 0x200A) || n == 0x2028 || n == 0x2029 || n == 0x202F || n == 0x205F
      || n == 0x3000

def isBlank (text : Str) : Bool := text.all isWhitespace

def trim (text : Str) : Str := (text.dropWhile isWhitespace).rdropWhile isWhitespace

theorem dropWhile_eq_self {p : Char → Bool} {text : Str} (h : ∀ c ∈ text, ¬p c) :
    text.dropWhile p = text := by
  cases text with
  | nil => rfl
  | cons c rest => exact List.dropWhile_cons_of_neg (h c List.mem_cons_self)

-- White space around a text without any is trimmed.
theorem trim_pad {before text after : Str} (hbefore : ∀ c ∈ before, isWhitespace c)
    (htext : ∀ c ∈ text, ¬isWhitespace c) (hafter : ∀ c ∈ after, isWhitespace c) :
    trim (before ++ text ++ after) = text := by
  have hrest : (text ++ after).rdropWhile isWhitespace = text := by
    rw [List.rdropWhile, List.reverse_append,
      List.dropWhile_append_of_pos fun c hc => hafter c (List.mem_reverse.mp hc),
      dropWhile_eq_self fun c hc => htext c (List.mem_reverse.mp hc), List.reverse_reverse]
  rw [trim, List.append_assoc, List.dropWhile_append_of_pos hbefore]
  cases text with
  | nil =>
      rw [List.nil_append, List.dropWhile_eq_nil_iff.mpr hafter, List.rdropWhile_nil]
  | cons c rest =>
      rw [List.cons_append, List.dropWhile_cons_of_neg (htext c List.mem_cons_self)]
      exact hrest

theorem mem_dropWhile {p : Char → Bool} {c : Char} {text : Str} (hm : c ∈ text) (hc : ¬p c) :
    c ∈ text.dropWhile p := by
  rw [← List.takeWhile_append_dropWhile (p := p) (l := text)] at hm
  rcases List.mem_append.mp hm with hm | hm
  · exact absurd (List.mem_takeWhile_imp hm) hc
  · exact hm

-- Only white space is trimmed.
theorem mem_trim {c : Char} {text : Str} (hm : c ∈ text) (hc : ¬isWhitespace c) :
    c ∈ trim text := by
  rw [trim, List.rdropWhile, List.mem_reverse]
  exact mem_dropWhile (List.mem_reverse.mpr (mem_dropWhile hm hc)) hc

-- Lower case as far as a search for ASCII letters can see it: besides A to Z,
-- only the Kelvin sign and the dotted capital I have an ASCII letter in their lower case.
def lowercaseChar (c : Char) : Str :=
  if 'A' ≤ c ∧ c ≤ 'Z' then [Char.ofNat (c.toNat + 32)]
  else if c = '\u212A' then ['k']
  else if c = '\u0130' then ['i', '\u0307']
  else [c]

def lowercase (text : Str) : Str := text.flatMap lowercaseChar

-- The decimal digits of a natural number, most significant first.
def decimal (n : Nat) : Str := (Nat.toDigits 10 n)

def decimalInt : Int → Str
  | .ofNat n => decimal n
  | .negSucc n => '-' :: decimal (n + 1)

-- The part before the first `c`, or the whole text.
def substringBefore (text : Str) (c : Char) : Str := text.takeWhile (· ≠ c)

-- The part after the first `c`, or the whole text.
def substringAfter (text : Str) (c : Char) : Str :=
  match text.dropWhile (· ≠ c) with
  | [] => text
  | _ :: rest => rest

-- `replace` of a text that is one character.
def replaceChar (text : Str) (old : Char) (new : Str) : Str :=
  text.flatMap fun c => if c = old then new else [c]

def indexOf (text : Str) (c : Char) : Option Nat := text.findIdx? (· = c)

theorem indexOf_append_cons {c : Char} {before : Str} (h : c ∉ before) (after : Str) :
    indexOf (before ++ c :: after) c = some before.length := by
  have hne : ∀ d ∈ before, decide (d = c) = false := by
    intro d hm
    exact decide_eq_false fun he => h (he ▸ hm)
  rw [indexOf, List.findIdx?_append, List.findIdx?_eq_none_iff.mpr hne]
  simp [List.findIdx?_cons]

-- A text is split in one way before the first of a character.
theorem split_before_unique {c : Char} {before after other more : Str} (h : c ∉ before)
    (hother : c ∉ other) (he : before ++ c :: after = other ++ c :: more) :
    before = other ∧ after = more := by
  have hindex := indexOf_append_cons h after
  rw [he, indexOf_append_cons hother, Option.some.injEq] at hindex
  obtain ⟨rfl, htail⟩ := List.append_inj he hindex.symm
  exact ⟨rfl, (List.cons.inj htail).2⟩

-- A text is split in one way around a character that the rest does not have.
theorem split_around_unique {c : Char} {before after other more : Str} (hother : c ∉ other)
    (hmore : c ∉ more) (he : before ++ c :: after = other ++ c :: more) :
    before = other ∧ after = more := by
  rcases List.append_eq_append_iff.mp he with ⟨gap, rfl, hgap⟩ | ⟨gap, rfl, hgap⟩
  · cases gap with
    | nil => exact ⟨(List.append_nil _).symm, (List.cons.inj hgap).2⟩
    | cons d gap =>
        obtain ⟨rfl, -⟩ := List.cons.inj hgap
        exact absurd (List.mem_append_right before List.mem_cons_self) hother
  · cases gap with
    | nil => exact ⟨List.append_nil _, (List.cons.inj hgap).2.symm⟩
    | cons d gap =>
        obtain ⟨-, rfl⟩ := List.cons.inj hgap
        exact absurd (List.mem_append_right gap List.mem_cons_self) hmore

-- A text begins with one longest run of a class of characters.
theorem split_run_unique {p : Char → Bool} {run other rest more : Str} {c d : Char}
    (hrun : ∀ x ∈ run, p x) (hother : ∀ x ∈ other, p x) (hc : p c = false) (hd : p d = false)
    (he : run ++ c :: rest = other ++ d :: more) : run = other ∧ c = d ∧ rest = more := by
  have hwhile : ∀ {text : Str} {e : Char} (tail : Str), (∀ x ∈ text, p x) → p e = false →
      (text ++ e :: tail).takeWhile p = text := by
    intro text e tail htext hstop
    rw [List.takeWhile_append_of_pos htext, List.takeWhile_cons_of_neg (by simp [hstop]),
      List.append_nil]
  have hsame : run = other := by rw [← hwhile rest hrun hc, he, hwhile more hother hd]
  subst hsame
  exact ⟨rfl, List.cons.inj (List.append_cancel_left he)⟩

-- A text that ends in a character which a prefix does not have goes beyond the prefix.
theorem prefix_of_getLast {key more text after : Str} {c : Char} (he : key ++ more = text ++ after)
    (hlast : text.getLast? = some c) (hc : c ∉ key) : key <+: text := by
  rcases List.append_eq_append_iff.mp he with ⟨gap, rfl, -⟩ | ⟨gap, rfl, -⟩
  · exact List.prefix_append ..
  · exact absurd (List.mem_append_left gap (List.mem_of_getLast? hlast)) hc

-- The first digits of the decimal digit ranges that `Character.digit` knows in the basic plane.
def decimalZeros : List Nat :=
  [0x30, 0x660, 0x6F0, 0x7C0, 0x966, 0x9E6, 0xA66, 0xAE6, 0xB66, 0xBE6, 0xC66, 0xCE6, 0xD66, 0xDE6,
    0xE50, 0xED0, 0xF20, 0x1040, 0x1090, 0x17E0, 0x1810, 0x1946, 0x19D0, 0x1A80, 0x1A90, 0x1B50,
    0x1BB0, 0x1C40, 0x1C50, 0xA620, 0xA8D0, 0xA900, 0xA9D0, 0xA9F0, 0xAA50, 0xABF0, 0xFF10]

def digitOf (c : Char) : Option Nat :=
  (decimalZeros.find? fun first => first ≤ c.toNat && c.toNat < first + 10).map (c.toNat - ·)

-- In radix 16 the letters A to F count as well, also those of full width.
def hexDigitOf (c : Char) : Option Nat :=
  (digitOf c).or <|
    ([0x41, 0x61, 0xFF21, 0xFF41].find? fun first => first ≤ c.toNat && c.toNat < first + 6).map
      (c.toNat + 10 - ·)

-- The lines of a text. A carriage return, a line feed, or both in this order end a line.
def lines : Str → List Str
  | [] => [[]]
  | '\r' :: '\n' :: rest => [] :: lines rest
  | c :: rest =>
      if c = '\r' ∨ c = '\n' then [] :: lines rest
      else match lines rest with
        | [] => [[c]]
        | line :: more => (c :: line) :: more

def joinLines : List Str → Str
  | [] => []
  | [line] => line
  | line :: rest => line ++ '\n' :: joinLines rest

def indentWidth (line : Str) : Nat := (line.takeWhile isWhitespace).length

def minCommonIndent (all : List Str) : Nat :=
  ((all.filter (fun line => !isBlank line)).map indentWidth).min?.getD 0

-- A blank first line and a blank last line are dropped; all others lose the common indent.
def trimIndent (text : Str) : Str :=
  let all := lines text
  let kept := all.zipIdx.filterMap fun (line, index) =>
    if (index = 0 ∨ index + 1 = all.length) ∧ isBlank line then none
    else some (line.drop (minCommonIndent all))
  joinLines kept

end Ytdlpdroid.Text
